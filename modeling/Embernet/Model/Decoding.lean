import Embernet.Lib.Decode
import Embernet.Model.Types
import Mathlib.Algebra.Group.Int.Defs
import Mathlib.Algebra.Group.Nat.Defs
/-!
# Decoding policy events — what `Deserialize` makes of an object

`store.rs`. `visibility` and `readers` of a policy have a default, so a
text that leaves them out reads as a policy that has them. Only objects
are read here, and variants by their names; the other forms that the
derived code takes are left out.
-/

set_option autoImplicit false

namespace Embernet

open Json (field required defaulted asObj asStr asOptStr asStrings asInt)

/-- A `u32`. -/
def asU32 (value : Json) : Option UInt32 :=
  (asInt 0 (2 ^ 32 - 1) value).map fun n => UInt32.ofNat n.toNat

/-- An `i64`. A number beyond its range is refused, not wrapped. -/
def asI64 (value : Json) : Option Int64 :=
  (asInt (-2 ^ 63) (2 ^ 63 - 1) value).map Int64.ofInt

/-- Unknown names are refused. -/
def PolicyMode.ofJson (value : Json) : Option PolicyMode := do
  match ← asStr value with
  | "open" => pure .open_
  | "restricted" => pure .restricted
  | _ => none

/-- Unknown names are refused. -/
def ChannelVisibility.ofJson (value : Json) : Option ChannelVisibility := do
  match ← asStr value with
  | "public" => pure .public_
  | "private" => pure .private_
  | _ => none

/-- Unknown names are refused. -/
def PolicyRole.ofJson (value : Json) : Option PolicyRole := do
  match ← asStr value with
  | "moderator" => pure .moderator
  | "writer" => pure .writer
  | "reader" => pure .reader
  | _ => none

/-- An older policy has neither `visibility` nor `readers`: it is public, and
names no readers. -/
def ChannelPolicy.ofJson (value : Json) : Option ChannelPolicy := do
  let fields ← asObj value
  let version ← required fields "version" asU32
  let mode ← required fields "mode" PolicyMode.ofJson
  let visibility ← defaulted fields "visibility" ChannelVisibility.ofJson .public_
  let owner ← defaulted fields "owner" asOptStr none
  let moderators ← required fields "moderators" asStrings
  let writers ← required fields "writers" asStrings
  let readers ← defaulted fields "readers" asStrings []
  pure { version, mode, visibility, owner, moderators, writers, readers }

/-- By `type`. An adopted policy is read with its defaults filled in. -/
def PolicyAction.ofJson (value : Json) : Option PolicyAction := do
  let fields ← asObj value
  match ← required fields "type" asStr with
  | "restrict" => do
    let owner ← required fields "owner" asStr
    pure (.restrict owner)
  | "adopt" => do
    let policy ← required fields "policy" ChannelPolicy.ofJson
    pure (.adopt policy)
  | "grant" => do
    let role ← required fields "role" PolicyRole.ofJson
    let publicKey ← required fields "public_key" asStr
    pure (.grant role publicKey)
  | "revoke" => do
    let role ← required fields "role" PolicyRole.ofJson
    let publicKey ← required fields "public_key" asStr
    pure (.revoke role publicKey)
  | "transfer_owner" => do
    let newOwner ← required fields "new_owner" asStr
    pure (.transferOwner newOwner)
  | "set_visibility" => do
    let visibility ← required fields "visibility" ChannelVisibility.ofJson
    pure (.setVisibility visibility)
  | _ => none

/-- `previous` may be left out: the first event of a history. -/
def PolicyEvent.ofJson (value : Json) : Option PolicyEvent := do
  let fields ← asObj value
  let id ← required fields "id" asStr
  let channel ← required fields "channel" asStr
  let actor ← required fields "actor" asStr
  let ts ← required fields "ts" asI64
  let previous ← defaulted fields "previous" asOptStr none
  let action ← required fields "action" PolicyAction.ofJson
  let sig ← required fields "sig" asStr
  pure { id, channel, actor, ts, previous, action, sig }

/-! ## What was written reads back -/

@[simp] theorem asU32_num (n : UInt32) : asU32 (.num n.toNat) = some n := by
  have hn := n.toNat_lt
  rw [asU32, Json.asInt_num (by omega) (by omega)]
  simp

@[simp] theorem asI64_timestamp (ts : Int64) : asI64 (timestamp ts) = some ts := by
  have hlow := ts.le_toInt
  have hhigh := ts.toInt_lt
  rw [asI64, timestamp, Json.asInt_num (by omega) (by omega)]
  simp

@[simp] theorem PolicyMode.ofJson_toJson (m : PolicyMode) : ofJson m.toJson = some m := by
  cases m <;> rfl

@[simp] theorem ChannelVisibility.ofJson_toJson (v : ChannelVisibility) :
    ofJson v.toJson = some v := by
  cases v <;> rfl

@[simp] theorem PolicyRole.ofJson_toJson (r : PolicyRole) : ofJson r.toJson = some r := by
  cases r <;> rfl

@[simp] theorem asStrings_strings (ss : List String) : asStrings (strings ss) = some ss :=
  Json.asStrings_arr ss

theorem ChannelPolicy.ofJson_toJson (p : ChannelPolicy) : ofJson p.toJson = some p := by
  simp only [ofJson, Option.bind_eq_bind, Option.bind_eq_some_iff]
  exact ⟨_, rfl, _, asU32_num _, _, PolicyMode.ofJson_toJson _, _,
    ChannelVisibility.ofJson_toJson _, _, Json.asOptStr_opt _, _, asStrings_strings _, _,
    asStrings_strings _, _, asStrings_strings _, rfl⟩

theorem PolicyAction.ofJson_toJson (a : PolicyAction) : ofJson a.toJson = some a := by
  cases a with
  | restrict owner => rfl
  | adopt policy =>
    change (ChannelPolicy.ofJson policy.toJson).bind (fun policy => some (PolicyAction.adopt policy)) = _
    rw [ChannelPolicy.ofJson_toJson]
    rfl
  | grant role publicKey => cases role <;> rfl
  | revoke role publicKey => cases role <;> rfl
  | transferOwner newOwner => rfl
  | setVisibility visibility => cases visibility <;> rfl

/-- **A policy event reads back.** -/
theorem PolicyEvent.ofJson_toJson (e : PolicyEvent) : ofJson e.toJson = some e := by
  simp only [ofJson, Option.bind_eq_bind, Option.bind_eq_some_iff]
  exact ⟨_, rfl, _, rfl, _, rfl, _, rfl, _, asI64_timestamp _, _, Json.asOptStr_opt _, _,
    PolicyAction.ofJson_toJson _, _, rfl, rfl⟩

end Embernet
