import Embernet.Lib.Replay
import Mathlib.Data.Fintype.Order
import Mathlib.Logic.Relation
import Mathlib.Order.WellFounded
/-!
# Locks — tasks that take shared and exclusive locks in an order

A task is what it holds and the lock calls it has still to make. A call
to take a lock goes through when no handle, the task's own among them, has
the lock in a way that clashes; until then the task waits. Where every
task takes locks in the order of a rank, from what it holds upwards, no
task waits for a lock of its own and no tasks wait for each other in a
circle, so that one of them can always go on.

Programs that take locks by scopes are described by a `Script`. A script
whose scopes nest in the order of the rank makes its calls in that order,
on whichever way it is left.
-/

set_option autoImplicit false

namespace Embernet

namespace Locks

/-- How a lock is taken. -/
inductive Mode
  | shared
  | exclusive
  deriving DecidableEq

/-- Two handles cannot have one lock in these ways. -/
def Mode.Clashes : Mode → Mode → Prop
  | shared, shared => False
  | _, _ => True

/-- A lock call. -/
inductive Call (Lock : Type*)
  | acquire (lock : Lock) (mode : Mode)
  | release (lock : Lock) (mode : Mode)

/-- A task: the handles it has, and the calls it has still to make. -/
structure Task (Lock : Type*) where
  held : List (Lock × Mode)
  rest : List (Call Lock)

variable {Lock : Type*}

/-- The task's next call takes the lock. -/
def Task.Wants (t : Task Lock) (lock : Lock) (mode : Mode) : Prop :=
  ∃ rest, t.rest = .acquire lock mode :: rest

/-- The task has a handle that keeps the lock from being taken that way. -/
def Task.Blocks (t : Task Lock) (lock : Lock) (mode : Mode) : Prop :=
  ∃ mode', (lock, mode') ∈ t.held ∧ mode.Clashes mode'

/-! ## Taking locks in order -/

section Order

variable {α : Type*} [LT α] [DecidableEq Lock] (rank : Lock → α)

/-- The calls take locks above those that are held, give back what is
held, and end with nothing held. -/
def Ordered : List (Lock × Mode) → List (Call Lock) → Prop
  | held, [] => held = []
  | held, .acquire lock mode :: rest =>
    (∀ handle ∈ held, rank handle.1 < rank lock) ∧ Ordered ((lock, mode) :: held) rest
  | held, .release lock mode :: rest =>
    (lock, mode) ∈ held ∧ Ordered (held.erase (lock, mode)) rest

variable {rank}

theorem Ordered.lt_of_wants {t : Task Lock} (h : Ordered rank t.held t.rest) {lock : Lock}
    {mode : Mode} (hwants : t.Wants lock mode) : ∀ handle ∈ t.held, rank handle.1 < rank lock := by
  obtain ⟨rest, hrest⟩ := hwants
  rw [hrest] at h
  exact h.1

theorem Ordered.rest_ne_nil {t : Task Lock} (h : Ordered rank t.held t.rest)
    {handle : Lock × Mode} (hheld : handle ∈ t.held) : t.rest ≠ [] := by
  intro hnil
  rw [hnil] at h
  have hheld' : handle ∈ ([] : List (Lock × Mode)) := h ▸ hheld
  cases hheld'

end Order

/-! ## Tasks side by side -/

section Tasks

variable {ι : Type*} [DecidableEq ι] [DecidableEq Lock]

/-- The next call of one task goes through. -/
inductive Step : (ι → Task Lock) → ι → (ι → Task Lock) → Prop
  | acquire {s : ι → Task Lock} {i : ι} {lock : Lock} {mode : Mode} {rest : List (Call Lock)} :
      (s i).rest = .acquire lock mode :: rest → (∀ j, ¬ (s j).Blocks lock mode) →
      Step s i (Function.update s i ⟨(lock, mode) :: (s i).held, rest⟩)
  | release {s : ι → Task Lock} {i : ι} {lock : Lock} {mode : Mode} {rest : List (Call Lock)} :
      (s i).rest = .release lock mode :: rest →
      Step s i (Function.update s i ⟨(s i).held.erase (lock, mode), rest⟩)

/-- One task waits for a lock that another holds. -/
def WaitsFor (s : ι → Task Lock) (i j : ι) : Prop :=
  ∃ lock mode, (s i).Wants lock mode ∧ (s j).Blocks lock mode

/-- No task waits for a lock it holds, in whatever way, no tasks wait for
each other in a circle, and while a task has calls to make, one of them
can. -/
structure DeadlockFree (s : ι → Task Lock) : Prop where
  not_held : ∀ i lock mode, (s i).Wants lock mode → ∀ mode', (lock, mode') ∉ (s i).held
  acyclic : ∀ i, ¬ Relation.TransGen (WaitsFor s) i i
  goes_on : (∃ i, (s i).rest ≠ []) → ∃ i s', Step s i s'

section Discipline

variable {α : Type*} [Preorder α] {rank : Lock → α} {s s' : ι → Task Lock} {i j : ι}

/-- A step keeps the order. -/
theorem ordered_step (h : ∀ i, Ordered rank (s i).held (s i).rest) (hstep : Step s i s') (j : ι) :
    Ordered rank (s' j).held (s' j).rest := by
  cases hstep with
  | acquire hrest _ =>
    by_cases hj : j = i
    · subst hj
      have hi := h j
      rw [hrest] at hi
      rw [Function.update_self]
      exact hi.2
    · rw [Function.update_of_ne hj]
      exact h j
  | release hrest =>
    by_cases hj : j = i
    · subst hj
      have hi := h j
      rw [hrest] at hi
      rw [Function.update_self]
      exact hi.2
    · rw [Function.update_of_ne hj]
      exact h j

omit [DecidableEq ι] in
/-- Along a chain of waiting tasks, the locks they wait for rise. -/
theorem lt_of_transGen (h : ∀ i, Ordered rank (s i).held (s i).rest)
    (hwaits : Relation.TransGen (WaitsFor s) i j) {lock lock' : Lock} {mode mode' : Mode}
    (hi : (s i).Wants lock mode) (hj : (s j).Wants lock' mode') : rank lock < rank lock' := by
  -- from its end: the task before the last waits for what the last holds
  induction hwaits generalizing lock' mode' with
  | single hwait =>
    obtain ⟨wanted, how, ⟨rest, hrest⟩, mode'', hheld, -⟩ := hwait
    obtain ⟨rest', hrest'⟩ := hi
    rw [hrest] at hrest'
    obtain ⟨⟨rfl, rfl⟩, -⟩ := List.cons.inj hrest' |>.imp Call.acquire.inj id
    exact (h _).lt_of_wants hj _ hheld
  | tail _ hwait ih =>
    obtain ⟨wanted, how, hwants, mode'', hheld, -⟩ := hwait
    exact (ih hwants).trans ((h _).lt_of_wants hj _ hheld)

omit [DecidableEq ι] [DecidableEq Lock] in
theorem exists_wants (hwaits : Relation.TransGen (WaitsFor s) i j) :
    ∃ lock mode, (s i).Wants lock mode := by
  obtain ⟨k, ⟨lock, mode, hwants, -⟩, -⟩ := Relation.TransGen.head'_iff.1 hwaits
  exact ⟨lock, mode, hwants⟩

omit [DecidableEq ι] in
/-- **Tasks that take locks in order do not wait for each other in a
circle.** -/
theorem not_transGen_self (h : ∀ i, Ordered rank (s i).held (s i).rest) (i : ι) :
    ¬ Relation.TransGen (WaitsFor s) i i := by
  intro hcycle
  obtain ⟨lock, mode, hwants⟩ := exists_wants hcycle
  exact lt_irrefl _ (lt_of_transGen h hcycle hwants hwants)

/-- A task whose next call does not go through waits for another. -/
theorem step_or_waitsFor (hi : (s i).rest ≠ []) :
    (∃ s', Step s i s') ∨ ∃ j, WaitsFor s i j := by
  cases hrest : (s i).rest with
  | nil => exact absurd hrest hi
  | cons call rest =>
    cases call with
    | release lock mode => exact .inl ⟨_, .release hrest⟩
    | acquire lock mode =>
      by_cases hblocked : ∃ j, (s j).Blocks lock mode
      · obtain ⟨j, hj⟩ := hblocked
        exact .inr ⟨j, lock, mode, ⟨rest, hrest⟩, hj⟩
      · exact .inl ⟨_, .acquire hrest (not_exists.1 hblocked)⟩

/-- **One of finitely many such tasks can go on**: the last of a longest
chain of waiting tasks. -/
theorem exists_step [Finite ι] (h : ∀ i, Ordered rank (s i).held (s i).rest)
    (hi : (s i).rest ≠ []) : ∃ i s', Step s i s' := by
  have hwf : WellFounded (flip (Relation.TransGen (WaitsFor s))) := by
    have : IsStrictOrder ι (flip (Relation.TransGen (WaitsFor s))) :=
      { irrefl := not_transGen_self h
        trans := fun _ _ _ hab hbc => hbc.trans hab }
    exact Finite.wellFounded_of_trans_of_irrefl _
  obtain ⟨last, hlast, hmax⟩ := hwf.has_min {j | (s j).rest ≠ []} ⟨i, hi⟩
  rcases step_or_waitsFor hlast with ⟨s', hstep⟩ | ⟨j, hwait⟩
  · exact ⟨last, s', hstep⟩
  · obtain ⟨lock, mode, hwants, mode', hheld, hclash⟩ := hwait
    have hj : (s j).rest ≠ [] := (h j).rest_ne_nil hheld
    exact absurd (.single ⟨lock, mode, hwants, mode', hheld, hclash⟩) (hmax j hj)

/-- **Tasks that take locks in order are free of deadlock**, wherever they
have got to. -/
theorem deadlockFree_run [Finite ι] {is : List ι} (h : ∀ i, Ordered rank (s i).held (s i).rest)
    (hrun : Run Step s is s') : DeadlockFree s' := by
  have h' : ∀ i, Ordered rank (s' i).held (s' i).rest :=
    hrun.invariant (fun _ _ _ hs hstep => ordered_step hs hstep) h
  refine ⟨fun i lock mode hwants mode' hheld => ?_, not_transGen_self h', ?_⟩
  · exact lt_irrefl _ ((h' i).lt_of_wants hwants _ hheld)
  · rintro ⟨i, hi⟩
    exact exists_step h' hi

end Discipline

end Tasks

/-! ## Scripts -/

/-- A program, as far as it takes locks. -/
inductive Script (Lock : Type*)
  /-- Nothing to do. -/
  | skip
  /-- Work without locks, after which the program may be left. -/
  | work
  /-- A scope that has the lock, given back however the scope is left. -/
  | locked (lock : Lock) (mode : Mode) (body : Script Lock)
  | andThen (first second : Script Lock)
  | either (left right : Script Lock)

namespace Script

variable {Lock' : Type*}

/-- The scripts one after the other. -/
def seq : List (Script Lock) → Script Lock := List.foldr andThen skip

/-- The script with its locks renamed. -/
def map (f : Lock → Lock') : Script Lock → Script Lock'
  | skip => skip
  | work => work
  | locked lock mode body => locked (f lock) mode (body.map f)
  | andThen first second => andThen (first.map f) (second.map f)
  | either left right => either (left.map f) (right.map f)

/-- What a script may do: whether it returns, or is left early, and the
calls it makes. -/
inductive Runs : Script Lock → Bool → List (Call Lock) → Prop
  | skip : Runs skip true []
  | returns : Runs work true []
  | fails : Runs work false []
  /-- The lock's file cannot be opened, and the scope is not entered. -/
  | notOpened {lock : Lock} {mode : Mode} {body : Script Lock} :
      Runs (locked lock mode body) false []
  | locked {lock : Lock} {mode : Mode} {body : Script Lock} {ok : Bool} {calls : List (Call Lock)} :
      Runs body ok calls →
      Runs (locked lock mode body) ok (.acquire lock mode :: calls ++ [.release lock mode])
  | left {first second : Script Lock} {calls : List (Call Lock)} :
      Runs first false calls → Runs (andThen first second) false calls
  | andThen {first second : Script Lock} {ok : Bool} {calls calls' : List (Call Lock)} :
      Runs first true calls → Runs second ok calls' →
      Runs (andThen first second) ok (calls ++ calls')
  | eitherLeft {left right : Script Lock} {ok : Bool} {calls : List (Call Lock)} :
      Runs left ok calls → Runs (either left right) ok calls
  | eitherRight {left right : Script Lock} {ok : Bool} {calls : List (Call Lock)} :
      Runs right ok calls → Runs (either left right) ok calls

section Nesting

variable {α : Type*} [LT α]

/-- The scopes nest in the order of the rank, below locks that are held. -/
def Nests (rank : Lock → α) : List Lock → Script Lock → Prop
  | _, skip | _, work => True
  | held, locked lock _ body => (∀ l ∈ held, rank l < rank lock) ∧ Nests rank (lock :: held) body
  | held, andThen first second => Nests rank held first ∧ Nests rank held second
  | held, either left right => Nests rank held left ∧ Nests rank held right

instance decidableNests [DecidableLT α] (rank : Lock → α) :
    ∀ held (script : Script Lock), Decidable (script.Nests rank held)
  | _, skip | _, work => .isTrue trivial
  | held, locked lock _ body =>
    have := decidableNests rank (lock :: held) body
    inferInstanceAs (Decidable ((∀ l ∈ held, rank l < rank lock) ∧ _))
  | held, andThen first second =>
    have := decidableNests rank held first
    have := decidableNests rank held second
    inferInstanceAs (Decidable (_ ∧ _))
  | held, either left right =>
    have := decidableNests rank held left
    have := decidableNests rank held right
    inferInstanceAs (Decidable (_ ∧ _))

theorem nests_seq {rank : Lock → α} {held : List Lock} {scripts : List (Script Lock)} :
    (seq scripts).Nests rank held ↔ ∀ script ∈ scripts, script.Nests rank held := by
  induction scripts with
  | nil => simp [seq, Nests]
  | cons script scripts ih =>
    rw [List.forall_mem_cons, ← ih]
    rfl

theorem nests_map {f : Lock → Lock'} {rank : Lock' → α} {held : List Lock} {script : Script Lock} :
    (script.map f).Nests rank (held.map f) ↔ script.Nests (rank ∘ f) held := by
  induction script generalizing held with
  | skip => exact Iff.rfl
  | work => exact Iff.rfl
  | locked lock mode body ih =>
    have hbody := @ih (lock :: held)
    rw [List.map_cons] at hbody
    simp [map, Nests, hbody]
  | andThen first second ih₁ ih₂ => exact and_congr ih₁ ih₂
  | either left right ih₁ ih₂ => exact and_congr ih₁ ih₂

variable [DecidableEq Lock] {rank : Lock → α}

/-- **A script whose scopes nest in order makes its calls in order**,
whichever way it takes, and has in the end what it had. -/
theorem Nests.ordered {script : Script Lock} {ok : Bool} {calls rest : List (Call Lock)}
    {held : List (Lock × Mode)} (h : script.Nests rank (held.map Prod.fst))
    (hruns : script.Runs ok calls) (hrest : Ordered rank held rest) :
    Ordered rank held (calls ++ rest) := by
  induction hruns generalizing held rest with
  | skip => exact hrest
  | returns => exact hrest
  | fails => exact hrest
  | notOpened => exact hrest
  | @locked lock mode body ok calls _ ih =>
    obtain ⟨hlt, hbody⟩ := h
    have hgive : Ordered rank ((lock, mode) :: held) (.release lock mode :: rest) := by
      refine ⟨List.mem_cons_self, ?_⟩
      rwa [List.erase_cons_head]
    have hcalls : Ordered rank ((lock, mode) :: held) (calls ++ .release lock mode :: rest) :=
      ih hbody hgive
    rw [List.cons_append, List.cons_append, List.append_assoc, List.singleton_append]
    exact ⟨fun handle hmem => hlt _ (List.mem_map_of_mem hmem), hcalls⟩
  | left _ ih => exact ih h.1 hrest
  | andThen _ _ ih₁ ih₂ =>
    rw [List.append_assoc]
    exact ih₁ h.1 (ih₂ h.2 hrest)
  | eitherLeft _ ih => exact ih h.1 hrest
  | eitherRight _ ih => exact ih h.2 hrest

end Nesting

end Script

end Locks

end Embernet
