import Embernet.Model.Locking
import Embernet.Model.Simulated
/-!
# Deadlock — the locks of the store are taken in one order

Whatever a call does, it takes the log of a channel before the moderation
lock, the moderation lock before the policy lock, and the lock of the
keyring by itself. So calls side by side, on one channel or on several,
do not wait for each other in a circle.
-/

set_option autoImplicit false

namespace Embernet

open Locks Locks.Script

/-! ## Every call nests its locks in order -/

theorem nests_readChannelTail (n : ℕ) (includeTombstoned : Bool) :
    (Locking.readChannelTail n includeTombstoned).Nests LockFile.rank [] := by
  rw [Locking.readChannelTail]
  split
  · trivial
  · cases includeTombstoned <;> decide

theorem nests_storeOp (op : StoreOp) : op.script.Nests LockFile.rank [] := by
  cases op with
  | setChannelVisibility signer visibility raw now now' =>
    dsimp only [StoreOp.script]
    cases visibility <;> decide
  | readChannelTail n includeTombstoned => exact nests_readChannelTail n includeTombstoned
  | _ =>
    dsimp only [StoreOp.script]
    decide

/-- **Every call of the store and of the keyring nests its locks in the
order of their files.** -/
theorem nests_storeCall (call : StoreCall) : call.script.Nests LockFile.rank [] := by
  cases call with
  | operation op => exact nests_storeOp op
  | readChannelTailDecrypted n includeTombstoned length =>
    refine nests_seq.2 (List.forall_mem_cons.2 ⟨nests_readChannelTail n includeTombstoned, ?_⟩)
    intro script hscript
    obtain rfl := List.eq_of_mem_replicate hscript
    decide
  | _ =>
    dsimp only [StoreCall.script]
    decide

/-! ## Calls side by side -/

/-- The files' order, for all channels. -/
def ChannelLock.rank (lock : ChannelLock) : ℕ := lock.2.rank

theorem ordered_lockCalls {work : List (ChannelRef × StoreCall)} {calls : List (Locks.Call ChannelLock)}
    (h : LockCalls work calls) : Ordered ChannelLock.rank [] calls := by
  induction h with
  | nil => rfl
  | @cons chan call work ok calls more hruns _ ih =>
    have hcall : call.script.Nests (ChannelLock.rank ∘ Prod.mk chan.fullName) [] :=
      nests_storeCall call
    have hnests : (call.script.map (Prod.mk chan.fullName)).Nests ChannelLock.rank [] :=
      nests_map.2 hcall
    exact hnests.ordered hruns ih

/-- **Calls of the store do not deadlock.** Wherever finitely many tasks
have got to that make calls on channels, none waits for a lock that it
holds, they do not wait for each other in a circle, and while one has
calls to make, one of them can. -/
theorem store_calls_deadlockFree {ι : Type} [DecidableEq ι] [Finite ι]
    {work : ι → List (ChannelRef × StoreCall)} {calls : ι → List (Locks.Call ChannelLock)}
    (hcalls : ∀ i, LockCalls (work i) (calls i)) {is : List ι} {s : ι → Locks.Task ChannelLock}
    (hrun : Run Step (startTasks calls) is s) : DeadlockFree s :=
  deadlockFree_run (fun i => ordered_lockCalls (hcalls i)) hrun

/-! ## Two calls -/

section TwoCalls

open Simulated

/-- One task rebuilds the policy cache of `general`, the other reads its
policy. -/
def policyWork : Bool → List (ChannelRef × StoreCall)
  | true => [(general, .operation .rebuildPolicyCache)]
  | false => [(general, .readPolicyHistory)]

/-- The policy lock of `general`. -/
def policyLock : ChannelLock := (general.fullName, .policy)

/-- The lock calls they make. -/
def policyCalls : Bool → List (Locks.Call ChannelLock)
  | true => [.acquire policyLock .exclusive, .release policyLock .exclusive]
  | false => [.acquire policyLock .shared, .release policyLock .shared]

theorem lockCalls_policyCalls (i : Bool) : LockCalls (policyWork i) (policyCalls i) := by
  cases i with
  | true =>
    have hbody : ((StoreCall.operation .rebuildPolicyCache).script.map
        (Prod.mk general.fullName)).Runs true
        (.acquire policyLock .exclusive :: ([] ++ ([] ++ [])) ++
          [.release policyLock .exclusive]) :=
      .locked (.andThen .returns (.andThen .returns .skip))
    exact .cons hbody (@LockCalls.nil [])
  | false =>
    have hbody : (StoreCall.readPolicyHistory.script.map (Prod.mk general.fullName)).Runs true
        (.acquire policyLock .shared :: [] ++ [.release policyLock .shared]) :=
      .locked .returns
    exact .cons hbody (@LockCalls.nil [])

/-- The law for the state in which one has the lock and the other waits
for it. -/
theorem store_calls_deadlockFree_policy : ∃ s, Run Step (startTasks policyCalls) [true] s ∧
    WaitsFor s false true ∧ DeadlockFree s := by
  have hfree (j : Bool) : ¬ (startTasks policyCalls j).Blocks policyLock .exclusive := by
    rintro ⟨mode, hheld, -⟩
    cases hheld
  have hrun := (Run.nil (startTasks policyCalls)).snoc (Step.acquire (i := true) rfl hfree)
  refine ⟨_, hrun, ?_, store_calls_deadlockFree lockCalls_policyCalls hrun⟩
  exact ⟨policyLock, .shared, ⟨_, rfl⟩, .exclusive, List.mem_singleton_self _, trivial⟩

end TwoCalls

end Embernet
