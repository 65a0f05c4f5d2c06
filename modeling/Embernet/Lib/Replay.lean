import Mathlib.Data.List.Basic
import Mathlib.Data.List.Forall2
import Mathlib.Logic.Relation
/-!
# Replay — a state derived from a history, and runs of a system

A history is replayed from a start by a partial step. Histories that
replay are closed under prefixes, a step lemma carries over the whole of
them, and where every step leaves the identifier of its event as the
cursor, the cursor is the last event's.

The second half is the same for systems: a run is a list of labelled
steps, and `Run.invariant` and `Run.holds_until` are the two rules by which a
fact about one step becomes one about every run.
-/

namespace Embernet

namespace Replay

variable {State Event Err : Type*} (step : State → Event → Except Err State)

/-- The state a history leads to, from `s`. -/
def replay (s : State) (events : List Event) : Except Err State := events.foldlM step s

variable {step} {s t u : State} {xs ys : List Event}

@[simp] theorem replay_nil : replay step s [] = .ok s := rfl

theorem replay_cons {e : Event} :
    replay step s (e :: xs) = (step s e).bind fun t => replay step t xs := rfl

theorem replay_cons_ok {e : Event} :
    replay step s (e :: xs) = .ok u ↔ ∃ t, step s e = .ok t ∧ replay step t xs = .ok u := by
  rw [replay_cons]
  cases step s e <;> simp [Except.bind]

/-- A history replays exactly if its first part does, and the rest does
from there. -/
theorem replay_append_ok :
    replay step s (xs ++ ys) = .ok u ↔
      ∃ t, replay step s xs = .ok t ∧ replay step t ys = .ok u := by
  induction xs generalizing s with
  | nil => simp
  | cons e xs ih =>
    simp only [List.cons_append, replay_cons_ok, ih]
    constructor
    · rintro ⟨a, ha, t, ht, hu⟩
      exact ⟨t, ⟨a, ha, ht⟩, hu⟩
    · rintro ⟨t, ⟨a, ha, ht⟩, hu⟩
      exact ⟨a, ha, t, ht, hu⟩

theorem replay_concat_ok {e : Event} :
    replay step s (xs ++ [e]) = .ok u ↔ ∃ t, replay step s xs = .ok t ∧ step t e = .ok u := by
  rw [replay_append_ok]
  simp [replay_cons_ok]

/-- Prefixes of a history that replays do. -/
theorem exists_replay_of_prefix (hpre : xs <+: ys) (h : replay step s ys = .ok u) :
    ∃ t, replay step s xs = .ok t := by
  obtain ⟨zs, rfl⟩ := hpre
  obtain ⟨t, ht, -⟩ := replay_append_ok.1 h
  exact ⟨t, ht⟩

theorem exists_replay_take (h : replay step s xs = .ok u) (i : ℕ) :
    ∃ t, replay step s (xs.take i) = .ok t :=
  exists_replay_of_prefix (List.take_prefix i xs) h

/-- The event at a position takes the state before it to the state after
it. -/
theorem step_of_replay (h : replay step s xs = .ok u) {i : ℕ} (hi : i < xs.length) :
    ∃ t t', replay step s (xs.take i) = .ok t ∧ step t xs[i] = .ok t' ∧
      replay step s (xs.take (i + 1)) = .ok t' := by
  obtain ⟨t', ht'⟩ := exists_replay_take h (i + 1)
  have hsplit : xs.take (i + 1) = xs.take i ++ [xs[i]] := by
    rw [List.take_add_one, List.getElem?_eq_getElem hi]
    rfl
  have ht := ht'
  rw [hsplit, replay_concat_ok] at ht
  obtain ⟨t, hpre, hstep⟩ := ht
  exact ⟨t, t', hpre, hstep, ht'⟩

/-- **What a step preserves, a replay does.** -/
theorem replay_invariant {I : State → Prop}
    (hstep : ∀ s e t, I s → step s e = .ok t → I t) (hs : I s)
    (h : replay step s xs = .ok u) : I u := by
  induction xs generalizing s with
  | nil => cases h; exact hs
  | cons e xs ih =>
    obtain ⟨t, ht, hu⟩ := replay_cons_ok.1 h
    exact ih (hstep s e t hs ht) hu

/-- Two histories whose events agree pairwise, in a sense under which a
step leads to one state, lead to one state. -/
theorem replay_congr {R : Event → Event → Prop}
    (hstep : ∀ ⦃s e e' t t'⦄, R e e' → step s e = .ok t → step s e' = .ok t' → t = t')
    (hR : List.Forall₂ R xs ys) (hx : replay step s xs = .ok t) (hy : replay step s ys = .ok u) :
    t = u := by
  induction hR generalizing s with
  | nil => cases hx; cases hy; rfl
  | cons hee _ ih =>
    obtain ⟨a, ha, hx'⟩ := replay_cons_ok.1 hx
    obtain ⟨b, hb, hy'⟩ := replay_cons_ok.1 hy
    exact ih hx' (hstep hee ha hb ▸ hy')

/-- So the first events of a history may be exchanged for events that
agree with them. -/
theorem replay_exchange {R : Event → Event → Prop}
    (hstep : ∀ ⦃s e e' t t'⦄, R e e' → step s e = .ok t → step s e' = .ok t' → t = t')
    (hR : List.Forall₂ R xs (ys.take xs.length)) (hx : replay step s xs = .ok t)
    (hy : replay step s ys = .ok u) : replay step s (xs ++ ys.drop xs.length) = .ok u := by
  rw [← List.take_append_drop xs.length ys, replay_append_ok] at hy
  obtain ⟨v, hv, hu⟩ := hy
  obtain rfl := replay_congr hstep hR hx hv
  exact replay_append_ok.2 ⟨t, hx, hu⟩

/-- Where every step leaves its event's identifier as the cursor, the
cursor of a replay is the last event's. -/
theorem cursor_replay {Id : Type*} (id : Event → Id) (cursor : State → Option Id)
    (hlink : ∀ {s e t}, step s e = .ok t → cursor t = some (id e))
    (h : replay step s xs = .ok u) :
    cursor u = (xs.getLast?.map id).or (cursor s) := by
  rcases List.eq_nil_or_concat xs with rfl | ⟨init, e, rfl⟩
  · cases h; rfl
  · rw [List.concat_eq_append] at h ⊢
    obtain ⟨t, -, ht⟩ := replay_concat_ok.1 h
    simp [hlink ht]

end Replay

/-! ## Runs -/

section Runs

variable {State Label : Type*}

/-- A run from one state to another along a list of labels. -/
inductive Run (step : State → Label → State → Prop) : State → List Label → State → Prop
  | nil (s : State) : Run step s [] s
  | snoc {s t u : State} {ls : List Label} {l : Label} :
      Run step s ls t → step t l u → Run step s (ls ++ [l]) u

/-- The steps that meet a condition on the state before them. -/
def Under (Cond : State → Label → Prop) (step : State → Label → State → Prop) :
    State → Label → State → Prop :=
  fun s l t => Cond s l ∧ step s l t

namespace Run

variable {step : State → Label → State → Prop} {s t : State} {ls : List Label}

/-- Where a step is a function of its state and label, so is a run. -/
theorem eq_foldl {next : State → Label → State} (hstep : ∀ s l t, step s l t → t = next s l)
    (hrun : Run step s ls t) : t = ls.foldl next s := by
  induction hrun with
  | nil => rfl
  | snoc _ hlast ih => rw [List.foldl_append, ← ih, hstep _ _ _ hlast]; rfl

/-- **What a step preserves, a run does.** -/
theorem invariant {I : State → Prop} (hstep : ∀ s l t, I s → step s l t → I t)
    (hrun : Run step s ls t) (hs : I s) : I t := by
  induction hrun with
  | nil => exact hs
  | snoc _ hlast ih => exact hstep _ _ _ ih hlast

/-- **What holds until something happens.** Where a step keeps `I` or
brings `A` about, a run keeps `I` or had `A` at one of its states. -/
theorem holds_until {I A : State → Prop} (hstep : ∀ s l t, I s → step s l t → I t ∨ A t)
    (hrun : Run step s ls t) (hs : I s) :
    I t ∨ ∃ ls₁ ls₂ u, ls = ls₁ ++ ls₂ ∧ Run step s ls₁ u ∧ A u := by
  induction hrun with
  | nil => exact Or.inl hs
  | @snoc t u ls l hinit hlast ih =>
    rcases ih with hI | ⟨ls₁, ls₂, v, rfl, hv, hA⟩
    · rcases hstep _ _ _ hI hlast with hI' | hA
      · exact Or.inl hI'
      · exact Or.inr ⟨ls ++ [l], [], u, by simp, .snoc hinit hlast, hA⟩
    · exact Or.inr ⟨ls₁, ls₂ ++ [l], v, by simp, hv, hA⟩

/-- **What only some labels end.** Where a step keeps `I` unless its label
is one of `B`, a run keeps `I` or has such a label. -/
theorem holds_unless {I : State → Prop} {B : Label → Prop}
    (hstep : ∀ s l t, I s → step s l t → I t ∨ B l) (hrun : Run step s ls t) (hs : I s) :
    I t ∨ ∃ l ∈ ls, B l := by
  induction hrun with
  | nil => exact Or.inl hs
  | snoc hinit hlast ih =>
    rcases ih with hI | ⟨l, hl, hB⟩
    · rcases hstep _ _ _ hI hlast with hI' | hB
      · exact Or.inl hI'
      · exact Or.inr ⟨_, List.mem_append_right _ (List.mem_singleton_self _), hB⟩
    · exact Or.inr ⟨l, List.mem_append_left _ hl, hB⟩

/-- A run by fewer steps is a run by more. -/
theorem mono {step' : State → Label → State → Prop} (hstep : ∀ s l t, step s l t → step' s l t)
    (hrun : Run step s ls t) : Run step' s ls t := by
  induction hrun with
  | nil => exact .nil _
  | snoc _ hlast ih => exact .snoc ih (hstep _ _ _ hlast)

/-- A run under a condition is a run. -/
theorem of_under {Cond : State → Label → Prop} (hrun : Run (Under Cond step) s ls t) :
    Run step s ls t :=
  hrun.mono fun _ _ _ h => h.2

end Run

end Runs

end Embernet
