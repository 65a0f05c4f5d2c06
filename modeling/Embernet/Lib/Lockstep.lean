import Embernet.Lib.Solo
/-!
# Lockstep — the same on two states at once

Two states that differ in what must not be seen, and what an operation may
do on both: return the same, and leave two states that differ so again.
The rules follow the operation; a process whose calls go in lockstep sends
the same messages on both.
-/

namespace Embernet

variable {σ ε lab out α β : Type} {R : σ → σ → Prop}

/-! ## Reads -/

/-- A read finds the same in both. -/
def Query.Agrees (R : σ → σ → Prop) (q : Query σ ε α) : Prop := ∀ s t, R s t → q s = q t

namespace Query.Agrees

variable {q : Query σ ε α} {f : α → Query σ ε β}

theorem pure (a : α) : Query.Agrees R (pure a : Query σ ε α) := fun _ _ _ => rfl

theorem except (r : Except ε α) : Query.Agrees R (liftM r : Query σ ε α) := fun _ _ _ => rfl

theorem bailIf {c : Prop} [Decidable c] {e : ε} :
    Query.Agrees R (bailIf c e : Query σ ε Unit) := by
  intro s t _
  by_cases h : c <;> simp only [Embernet.bailIf, h] <;> rfl

theorem bind (hq : q.Agrees R) (hf : ∀ a, (f a).Agrees R) : Query.Agrees R (q >>= f) := by
  intro s t h
  rw [Query.bind_apply, Query.bind_apply, hq s t h]
  cases q t with
  | error e => rfl
  | ok a => exact hf a s t h

end Query.Agrees

/-! ## Operations -/

/-- An operation returns the same on both, and leaves both alike. -/
def Op.Agrees (R : σ → σ → Prop) (x : Op σ ε α) : Prop :=
  ∀ s t, R s t → (x.exec s).1 = (x.exec t).1 ∧ R (x.exec s).2 (x.exec t).2

namespace Op.Agrees

variable {x : Op σ ε α} {f : α → Op σ ε β}

theorem pure (a : α) : Op.Agrees R (pure a : Op σ ε α) := fun _ _ h => ⟨rfl, h⟩

theorem query {q : Query σ ε α} (hq : q.Agrees R) : Op.Agrees R (liftM q : Op σ ε α) :=
  fun s t h => ⟨hq s t h, h⟩

theorem except (r : Except ε α) : Op.Agrees R (liftM r : Op σ ε α) := fun _ _ h => ⟨rfl, h⟩

theorem modify {g : σ → σ} (hg : ∀ s t, R s t → R (g s) (g t)) :
    Op.Agrees R (modify g : Op σ ε PUnit) :=
  fun s t h => ⟨rfl, hg s t h⟩

theorem bailIf {c : Prop} [Decidable c] {e : ε} : Op.Agrees R (bailIf c e : Op σ ε Unit) := by
  intro s t h
  rw [exec_bailIf, exec_bailIf]
  exact ⟨rfl, h⟩

theorem orBail {o : Option α} {e : ε} : Op.Agrees R (orBail e o : Op σ ε α) := by
  intro s t h
  rw [exec_orBail, exec_orBail]
  exact ⟨rfl, h⟩

theorem bind (hx : x.Agrees R) (hf : ∀ a, (f a).Agrees R) : Op.Agrees R (x >>= f) := by
  intro s t h
  obtain ⟨hresult, hleft⟩ := hx s t h
  rw [exec_bind, exec_bind]
  rcases hs : x.exec s with ⟨r, s'⟩
  rcases ht : x.exec t with ⟨r', t'⟩
  rw [hs, ht] at hresult hleft
  obtain rfl : r = r' := hresult
  cases r with
  | error e => exact ⟨rfl, hleft⟩
  | ok a => exact hf a s' t' hleft

theorem ite {c : Prop} [Decidable c] {y : Op σ ε α} (hx : x.Agrees R) (hy : y.Agrees R) :
    Op.Agrees R (if c then x else y) := by
  split
  · exact hx
  · exact hy

end Op.Agrees

/-! ## Lists -/

/-- Where a list is read one element after the other, elements that add
nothing may be left out. -/
theorem filterMapM_filter {f g : α → Except ε (Option β)} {keep : α → Bool} {xs : List α}
    (hkept : ∀ x ∈ xs, keep x = true → f x = g x)
    (hdropped : ∀ x ∈ xs, keep x = false → g x = .ok none) :
    (xs.filter keep).filterMapM f = xs.filterMapM g := by
  induction xs with
  | nil => rfl
  | cons x xs ih =>
    have ih := ih (fun y hy => hkept y (List.mem_cons_of_mem x hy)) fun y hy =>
      hdropped y (List.mem_cons_of_mem x hy)
    cases hkeep : keep x with
    | false =>
      rw [List.filter_cons_of_neg (by simp [hkeep]), ih, List.filterMapM_cons,
        hdropped x List.mem_cons_self hkeep]
      rfl
    | true =>
      rw [List.filter_cons_of_pos hkeep, List.filterMapM_cons, List.filterMapM_cons, ih,
        hkept x List.mem_cons_self hkeep]

/-! ## Processes -/

/-- What a process returns satisfies what all its ends do. -/
theorem Proc.solo_returns {P : α → Prop} {p : Proc σ ε lab out α} {s : σ} {a : α}
    (hp : p.Returns P) (h : (p.solo s).2.1 = .ok a) : P a := by
  induction p generalizing s with
  | ret b =>
    cases h
    exact hp
  | fail e => cases h
  | act l x k ih =>
    rw [Proc.solo] at h
    rcases hx : x.exec s with ⟨e | b, t⟩
    · rw [hx] at h
      cases h
    · rw [hx] at h
      exact ih b (hp b) h
  | send m k ih => exact ih hp h

/-- **A process whose calls go in lockstep** sends the same and ends the
same on both, and leaves both alike. -/
theorem Proc.solo_agrees {p : Proc σ ε lab out α} (hp : p.Each fun _ _ x => x.Agrees R) {s t : σ}
    (h : R s t) : (p.solo s).1 = (p.solo t).1 ∧ (p.solo s).2.1 = (p.solo t).2.1 ∧
      R (p.solo s).2.2 (p.solo t).2.2 := by
  induction p generalizing s t with
  | ret a => exact ⟨rfl, rfl, h⟩
  | fail e => exact ⟨rfl, rfl, h⟩
  | act l x k ih =>
    obtain ⟨hresult, hleft⟩ := hp.1 s t h
    rw [Proc.solo, Proc.solo]
    rcases hs : x.exec s with ⟨r, s'⟩
    rcases ht : x.exec t with ⟨r', t'⟩
    rw [hs, ht] at hresult hleft
    obtain rfl : r = r' := hresult
    cases r with
    | error e => exact ⟨rfl, rfl, hleft⟩
    | ok b => exact ih b (hp.2 b) hleft
  | send m k ih =>
    obtain ⟨hsent, hends, hleft⟩ := ih hp h
    exact ⟨congrArg (m :: ·) hsent, hends, hleft⟩

end Embernet
