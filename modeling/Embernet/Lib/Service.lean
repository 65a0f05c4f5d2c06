import Embernet.Lib.Solo
/-!
# Services — a process that answers and goes on

A service turns the failure of what it is asked for into an answer
(`attempt`), and then takes the next request. `Tells` says what it has
said at every point and that it does not fail; `Tells.run` carries it over
all runs, whatever others write between two of its steps.
-/

namespace Embernet

/-- The result of an operation, as a value. The operation itself returns. -/
def Op.attempt {σ ε ε' α : Type} (x : Op σ ε α) : Op σ ε' (Except ε α) :=
  fun s => (.ok (x.exec s).1, (x.exec s).2)

@[simp] theorem Op.exec_attempt {σ ε ε' α : Type} (x : Op σ ε α) (s : σ) :
    (x.attempt : Op σ ε' (Except ε α)).exec s = (.ok (x.exec s).1, (x.exec s).2) := rfl

namespace Proc

variable {σ ε ε' lab out α β : Type}

/-- The result of a process, as a value. -/
def attempt : Proc σ ε lab out α → Proc σ ε' lab out (Except ε α)
  | ret a => ret (.ok a)
  | fail e => ret (.error e)
  | act l x k => act l x.attempt fun
    | .ok b => (k b).attempt
    | .error e => ret (.error e)
  | send m k => send m k.attempt

theorem solo_attempt (p : Proc σ ε lab out α) (s : σ) :
    (p.attempt : Proc σ ε' lab out _).solo s =
      ((p.solo s).1, .ok (p.solo s).2.1, (p.solo s).2.2) := by
  induction p generalizing s with
  | ret a => rfl
  | fail e => rfl
  | act l x k ih =>
    rw [attempt, solo, solo, Op.exec_attempt]
    rcases x.exec s with ⟨e | b, t⟩
    · rfl
    · exact ih b t
  | send m k ih =>
    rw [attempt, solo, solo, ih]

/-! ## Among others -/

/-- A process on the state itself. It is given no input. -/
def plain : Host σ lab out Empty σ where
  view := id
  act _ _ s _ := s
  emit _ s := s
  receive i _ := i.elim

/-- A step of a process, or of the others. -/
abbrev Serving (beside : σ → σ → Prop) :
    σ × Proc σ ε lab out α → Option (Event lab out) → σ × Proc σ ε lab out α → Prop :=
  SessionStep plain beside (fun _ _ => True) fun _ (i : Empty) => i.elim

/-- **What a process does alone** is a run of it, wherever it starts. -/
theorem exists_run_solo {beside : σ → σ → Prop} {z₀ : σ × Proc σ ε lab out α}
    {evs : List (Option (Event lab out))} {p : Proc σ ε lab out α} {s : σ}
    (hrun : Run (Serving beside) z₀ evs (s, p)) :
    ∃ evs', Run (Serving beside) z₀ evs' ((p.solo s).2.2, ofExcept (p.solo s).2.1) := by
  induction p generalizing s evs with
  | ret a => exact ⟨evs, hrun⟩
  | fail e => exact ⟨evs, hrun⟩
  | act l x k ih =>
    rw [solo]
    have hview : (plain : Host σ lab out Empty σ).view s = s := rfl
    rcases hexec : x.exec s with ⟨e | b, t⟩
    · refine ⟨_, hrun.snoc (l := some (.act l)) (.advance ?_ trivial)⟩
      rw [advance, hview, hexec]
      rfl
    · refine ih b (hrun.snoc (l := some (.act l)) (.advance ?_ trivial))
      rw [advance, hview, hexec]
      rfl
  | send m k ih => exact ih (hrun.snoc (l := some (.send m)) (.advance rfl trivial))

/-- **What changed over a run, a step changed.** -/
theorem exists_step_of_ne {State : Type*} {Label β : Type} {step : State → Label → State → Prop}
    {s t : State} {ls : List Label} (hrun : Run step s ls t) {f : State → β} (hne : f t ≠ f s) :
    ∃ ls' u l v, Run step s ls' u ∧ step u l v ∧ f v ≠ f u := by
  induction hrun with
  | nil => exact absurd rfl hne
  | @snoc t u ls l hrun hstep ih =>
    by_cases hsame : f t = f s
    · exact ⟨ls, t, l, u, hrun, hstep, hsame ▸ hne⟩
    · exact ih hsame

/-- What was said, in order. -/
def said (evs : List (Option (Event lab out))) : List out :=
  evs.filterMap fun
    | some (.send m) => some m
    | _ => none

@[simp] theorem said_nil : said ([] : List (Option (Event lab out))) = [] := rfl

theorem said_snoc_none (evs : List (Option (Event lab out))) : said (evs ++ [none]) = said evs := by
  simp [said]

theorem said_snoc_act (evs : List (Option (Event lab out))) (l : lab) :
    said (evs ++ [some (.act l)]) = said evs := by
  simp [said]

theorem said_snoc_send (evs : List (Option (Event lab out))) (m : out) :
    said (evs ++ [some (.send m)]) = said evs ++ [m] := by
  simp [said]

/-- **What a service says.** From `ms` on, what was said is `P` at every
point, and `R` holds of how the process ends and what it has said by then.
Its calls return, whatever the state. -/
def Tells (P : List out → Prop) (R : Except ε α → List out → Prop) :
    List out → Proc σ ε lab out α → Prop
  | ms, ret a => P ms ∧ R (.ok a) ms
  | ms, fail e => P ms ∧ R (.error e) ms
  | ms, act _ x k => P ms ∧ ∀ s, ∃ b t, x.exec s = (.ok b, t) ∧ Tells P R ms (k b)
  | ms, send m k => P ms ∧ Tells P R (ms ++ [m]) k

namespace Tells

variable {P : List out → Prop} {R : Except ε α → List out → Prop} {ms : List out}
  {p : Proc σ ε lab out α}

theorem now (h : Tells P R ms p) : P ms := by
  cases p with
  | ret a => exact h.1
  | fail e => exact h.1
  | act l x k => exact h.1
  | send m k => exact h.1

theorem ends (h : Tells P R ms p) {r : Except ε α} (hend : p = ofExcept r) : R r ms := by
  subst hend
  cases r with
  | ok a => exact h.2
  | error e => exact h.2

theorem pure {a : α} (hP : P ms) (hR : R (.ok a) ms) :
    Tells P R ms (pure a : Proc σ ε lab out α) := ⟨hP, hR⟩

theorem throw {e : ε} (hP : P ms) (hR : R (.error e) ms) :
    Tells P R ms (throw e : Proc σ ε lab out α) := ⟨hP, hR⟩

theorem emit {R : Except ε Unit → List out → Prop} {m : out} (hP : P ms) (hP' : P (ms ++ [m]))
    (hR : R (.ok ()) (ms ++ [m])) : Tells P R ms (emit m : Proc σ ε lab out Unit) := ⟨hP, hP', hR⟩

/-- **A sequence** whose first part does not fail. -/
theorem bind {f : α → Proc σ ε lab out β} {R : Except ε β → List out → Prop}
    (h : Tells P (fun r ms => ∃ a, r = .ok a ∧ Tells P R ms (f a)) ms p) :
    Tells P R ms (p >>= f) := by
  induction p generalizing ms with
  | ret a =>
    obtain ⟨-, _, ⟨⟩, hf⟩ := h
    exact hf
  | fail e =>
    obtain ⟨-, _, ⟨⟩, -⟩ := h
  | act l x k ih =>
    refine ⟨h.1, fun s => ?_⟩
    obtain ⟨b, t, hexec, hk⟩ := h.2 s
    exact ⟨b, t, hexec, ih b hk⟩
  | send m k ih => exact ⟨h.1, ih h.2⟩

/-- **Whatever a silent process ends with**, its attempt says nothing and
returns. -/
theorem attempt {ε' : Type} {p : Proc σ ε' lab out α} {R : Except ε (Except ε' α) → List out → Prop}
    (hsilent : p.Sends fun _ => False) (hP : P ms) (hR : ∀ r, p.Ends r → R (.ok r) ms) :
    Tells P R ms (p.attempt : Proc σ ε lab out (Except ε' α)) := by
  induction p with
  | ret a => exact ⟨hP, hR _ (.ret a)⟩
  | fail e => exact ⟨hP, hR _ (.fail e)⟩
  | act l x k ih =>
    rw [Proc.attempt]
    refine ⟨hP, fun s => ⟨_, _, Op.exec_attempt x s, ?_⟩⟩
    rcases hexec : x.exec s with ⟨e | b, t⟩
    · exact ⟨hP, hR _ (.stop hexec)⟩
    · exact ih b (hsilent b) fun r hends => hR r (.act hexec hends)
  | send m k ih => exact absurd hsilent.1 id

/-- **Alone**, from a state. -/
theorem solo (h : Tells P R ms p) (s : σ) : R (p.solo s).2.1 (ms ++ (p.solo s).1) := by
  induction p generalizing ms s with
  | ret a =>
    rw [solo_ret, List.append_nil]
    exact h.2
  | fail e =>
    rw [solo_fail, List.append_nil]
    exact h.2
  | act l x k ih =>
    obtain ⟨b, t, hexec, hk⟩ := h.2 s
    rw [Proc.solo, hexec]
    exact ih b hk t
  | send m k ih =>
    rw [Proc.solo]
    have hrest := ih h.2 s
    rwa [List.append_assoc] at hrest

/-- **Over a run**, whatever others write. -/
theorem run {beside : σ → σ → Prop} (h : Tells P R [] p) {s : σ}
    {z : σ × Proc σ ε lab out α} {evs : List (Option (Event lab out))}
    (hrun : Run (Serving beside) (s, p) evs z) : Tells P R (said evs) z.2 := by
  induction hrun with
  | nil => exact h
  | snoc _ hstep ih =>
    cases hstep with
    | others _ =>
      rw [said_snoc_none]
      exact ih
    | @advance g₁ g₂ q q' ev hadvance _ =>
      cases q with
      | ret a => cases hadvance
      | fail e => cases hadvance
      | act l x k =>
        obtain ⟨b, t, hexec, hk⟩ := ih.2 g₁
        have hview : (plain : Host σ lab out Empty σ).view g₁ = g₁ := rfl
        rw [advance, hview, hexec] at hadvance
        cases hadvance
        rw [said_snoc_act]
        exact hk
      | send m k =>
        cases hadvance
        rw [said_snoc_send]
        exact ih.2
    | receive i => exact i.elim

end Tells

end Proc

end Embernet
