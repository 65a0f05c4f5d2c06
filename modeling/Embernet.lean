import Embernet.Lib.Bytes
import Embernet.Lib.Lines
import Embernet.Lib.Json
import Embernet.Lib.Ndjson
import Embernet.Lib.Replay
import Embernet.Lib.Op
import Embernet.Lib.OpenLine
import Embernet.Lib.Process
import Embernet.Lib.Solo
import Embernet.Lib.Wrapping
import Embernet.Lib.Dialogue
import Embernet.Model.Types
import Embernet.Model.Primitives
import Embernet.Model.Proto
import Embernet.Model.Policy
import Embernet.Policy.Authority
import Embernet.Policy.Revocation
import Embernet.Model.Simulated
import Embernet.Model.Lenient
import Embernet.Model.Moderation
import Embernet.Lib.HashChain
import Embernet.Policy.Heads
import Embernet.Moderation.Citation
import Embernet.Lib.Blocks
import Embernet.Model.Log
import Embernet.Log.Scan
import Embernet.Log.Indexing
import Embernet.Model.Datadir
import Embernet.Model.Keyring
import Embernet.Model.PolicyStore
import Embernet.Model.ModerationStore
import Embernet.Model.MessageStore
import Embernet.Log.Append
import Embernet.Log.Buckets
import Embernet.Model.StoreOp
import Embernet.Store.Directories
import Embernet.Store.Histories
import Embernet.Policy.Legacy
import Embernet.Policy.WellFormed
import Embernet.Store.Readable
import Embernet.Moderation.Extension
import Embernet.Lib.Archive
import Embernet.Store.Forks
import Embernet.Store.Isolation
import Embernet.Model.Locking
import Embernet.Store.Deadlock
import Embernet.Store.Retention
import Embernet.Lib.Exchange
import Embernet.Keys.Agreement
import Embernet.Keys.Keyring
import Embernet.Store.Ownership
import Embernet.Store.Appending
import Embernet.Keys.Rotation
import Embernet.Model.Frames
import Embernet.Model.Peers
import Embernet.Model.Discovery
import Embernet.Model.Responder
import Embernet.Model.Initiator
import Embernet.Sync.Order
import Embernet.Signing.Payloads
import Embernet.Signing.Tampering
import Embernet.Sync.Authentication
import Embernet.Sync.Clocks
import Embernet.Discovery.Challenges
import Embernet.Sync.Membership
import Embernet.Sync.Reconciliation
import Embernet.Model.Sessions
import Embernet.Sync.Transfer
import Embernet.Keys.Revoking
import Embernet.Discovery.Pins
import Embernet.Model.AutoSync
import Embernet.Discovery.Automatic
import Embernet.Log.Invariant
import Embernet.Log.Recovery
import Embernet.Model.Drafts
import Embernet.Log.Ciphertext
import Embernet.Log.Tail
import Embernet.Log.Decryption
import Embernet.Log.View
import Embernet.Log.Failure
import Embernet.Log.Serving
import Embernet.Lib.Decode
import Embernet.Model.Decoding
import Embernet.Policy.Defaults
import Embernet.Log.Tiling
import Embernet.Discovery.Loading
import Embernet.Keys.Delivery
import Embernet.Discovery.Blocking
import Embernet.Model.Tui
import Embernet.Terminal.Selection
import Embernet.Model.Mcp
import Embernet.Terminal.Framing
import Embernet.Sync.Uploads
import Embernet.Model.Wire
import Embernet.Sync.Cascade
import Embernet.Sync.Convergence
import Embernet.Lib.Ending
import Embernet.Sync.Progress
import Embernet.Lib.Lockstep
import Embernet.Model.Server
import Embernet.Discovery.Hiding
import Embernet.Lib.Service
import Embernet.Model.Tools
import Embernet.Model.SimulatedSerde
import Embernet.Terminal.Requests
import Embernet.Terminal.Posting
import Embernet.Terminal.Display
import Embernet.Terminal.Board
