import Embernet.Lib.Duplex
import Mathlib.Order.WellFounded
/-!
# Ending — two sessions that come to an end

Each step of a party leaves less to do: a call or a message goes on to
what comes behind it, a message that is taken is gone from the inbox, and
one of the two only ever comes to later points of waiting. So the two make
finitely many steps, whatever the others do, and where they make no more,
each has ended or both wait for the other: `eventually_gone` is the rule
that is left to show, that the two never wait for each other.
-/

namespace Embernet

namespace Duplex

open Dialogue Proc

variable {σ ε lab out wait wait' given given' α β : Type} {A : Conduct σ ε lab out wait given}
  {B : Conduct σ ε lab out wait' given'} {beside beside' : σ → σ → Prop}

/-! ## What a process returns -/

section Returns

variable {P P' : α → Prop} {p : Proc σ ε lab out α}

theorem returns_of_forall (h : ∀ a, P a) (p : Proc σ ε lab out α) : p.Returns P := by
  induction p with
  | ret a => exact h a
  | fail e => trivial
  | act l x k ih => exact ih
  | send m k ih => exact ih

theorem returns_mono (hp : p.Returns P) (h : ∀ a, P a → P' a) : p.Returns P' := by
  induction p with
  | ret a => exact h a hp
  | fail e => trivial
  | act l x k ih => exact fun b => ih b (hp b)
  | send m k ih => exact ih hp

theorem returns_except_bind {P : β → Prop} {r : Except ε α} {f : α → Proc σ ε lab out β}
    (h : ∀ a, r = .ok a → (f a).Returns P) : (liftM r >>= f).Returns P := by
  cases r with
  | error e => trivial
  | ok a => exact h a rfl

theorem Speaks.returns {plain : out → Prop} {R : α → List out → Prop} (hp : Speaks plain R p)
    (h : ∀ a ms, R a ms → P a) : p.Returns P := by
  induction p generalizing R with
  | ret a => exact h a [] hp
  | fail e => trivial
  | act l x k ih => exact fun b => ih b (hp b) h
  | send m k ih => exact ih hp.2 fun a ms => h a (m :: ms)

end Returns

/-! ## What is left to do -/

/-- What may be left of a task after one step more. -/
inductive Follows (A : Conduct σ ε lab out wait given) :
    Proc σ ε lab out wait → Proc σ ε lab out wait → Prop
  | act {β : Type} {l : lab} {x : Op σ ε β} {k : β → Proc σ ε lab out wait} (b : β) :
      Follows A (k b) (.act l x k)
  | send {m : out} {k : Proc σ ε lab out wait} : Follows A k (.send m k)
  | take {w : wait} (i : Option out) (g : given) : ¬ A.leaves w →
      Follows A (A.resume w i g) (.ret w)
  | fails {p : Proc σ ε lab out wait} (e : ε) : (∀ e', p ≠ .fail e') → Follows A (.fail e) p

theorem acc_follows_fail (e : ε) : Acc (Follows A) (.fail e) := by
  refine Acc.intro _ fun p h => ?_
  cases h with
  | fails e' hne => exact absurd rfl (hne e)

/-- A task ends where the points it comes to do. -/
theorem acc_follows {p : Proc σ ε lab out wait}
    (h : p.Returns fun w => Acc (Follows A) (.ret w)) : Acc (Follows A) p := by
  induction p with
  | ret w => exact h
  | fail e => exact acc_follows_fail e
  | act l x k ih =>
    refine Acc.intro _ fun p hp => ?_
    cases hp with
    | act b => exact ih b (h b)
    | fails e _ => exact acc_follows_fail e
  | send m k ih =>
    refine Acc.intro _ fun p hp => ?_
    cases hp with
    | send => exact ih h
    | fails e _ => exact acc_follows_fail e

/-- **A party that only comes to later points** ends. -/
theorem wellFounded_follows {r : wait → wait → Prop} (hr : WellFounded r)
    (h : ∀ w i g, ¬ A.leaves w → (A.resume w i g).Returns fun w' => r w' w) :
    WellFounded (Follows A) := by
  have hwaits (w : wait) : Acc (Follows A) (.ret w) := by
    induction w using hr.induction with
    | _ w ih =>
      refine Acc.intro _ fun p hp => ?_
      cases hp with
      | take i g hstays => exact acc_follows (returns_mono (h w i g hstays) ih)
      | fails e _ => exact acc_follows_fail e
  exact ⟨fun p => acc_follows (returns_of_forall hwaits p)⟩

/-- The same, and what may be left of an inbox to which nothing is added. -/
inductive After (A : Conduct σ ε lab out wait given) :
    ℕ × Proc σ ε lab out wait → ℕ × Proc σ ε lab out wait → Prop
  | act {n : ℕ} {β : Type} {l : lab} {x : Op σ ε β} {k : β → Proc σ ε lab out wait} (b : β) :
      After A (n, k b) (n, .act l x k)
  | send {n : ℕ} {m : out} {k : Proc σ ε lab out wait} : After A (n, k) (n, .send m k)
  | message {n : ℕ} {w : wait} (m : out) (g : given) : ¬ A.leaves w →
      After A (n, A.resume w (some m) g) (n + 1, .ret w)
  | closed {w : wait} (g : given) : ¬ A.leaves w → After A (0, A.resume w none g) (0, .ret w)
  | fails {n : ℕ} {p : Proc σ ε lab out wait} (e : ε) : (∀ e', p ≠ .fail e') →
      After A (n, .fail e) (n, p)

theorem acc_after_fail (n : ℕ) (e : ε) : Acc (After A) (n, .fail e) := by
  refine Acc.intro _ fun p h => ?_
  cases h with
  | fails e' hne => exact absurd rfl (hne e)

theorem acc_after {n : ℕ} {p : Proc σ ε lab out wait}
    (h : p.Returns fun w => Acc (After A) (n, .ret w)) : Acc (After A) (n, p) := by
  induction p with
  | ret w => exact h
  | fail e => exact acc_after_fail n e
  | act l x k ih =>
    refine Acc.intro _ fun p hp => ?_
    cases hp with
    | act b => exact ih b (h b)
    | fails e _ => exact acc_after_fail n e
  | send m k ih =>
    refine Acc.intro _ fun p hp => ?_
    cases hp with
    | send => exact ih h
    | fails e _ => exact acc_after_fail n e

/-- **A party that leaves when it hears nothing more** ends, for as long as
nothing is sent to it. -/
theorem wellFounded_after
    (h : ∀ w g, ¬ A.leaves w → (A.resume w none g).Returns A.leaves) :
    WellFounded (After A) := by
  have hwaits (n : ℕ) : ∀ w, Acc (After A) (n, .ret w) := by
    induction n with
    | zero =>
      intro w
      refine Acc.intro _ fun p hp => ?_
      cases hp with
      | fails e _ => exact acc_after_fail 0 e
      | closed g hstays =>
        refine acc_after (returns_mono (h w g hstays) fun w' hleaves => Acc.intro _ fun p hp => ?_)
        cases hp with
        | fails e _ => exact acc_after_fail 0 e
        | closed g hstays' => exact absurd hleaves hstays'
    | succ n ih =>
      intro w
      refine Acc.intro _ fun p hp => ?_
      cases hp with
      | fails e _ => exact acc_after_fail (n + 1) e
      | message m g _ => exact acc_after (returns_of_forall ih _)
  exact ⟨fun ⟨n, p⟩ => acc_after (returns_of_forall (hwaits n) p)⟩

/-! ## Every step leaves less -/

/-- What the two have left to do: first the node that serves, then the one
that asks. -/
def left (z : Pair σ ε lab out wait wait') :
    Proc σ ε lab out wait' × ℕ × Proc σ ε lab out wait :=
  (z.2.task, z.1.inbox.length, z.1.task)

theorem not_fail_of_not_gone {x : Side σ ε lab out wait} (h : ¬ x.Gone A) (e : ε) :
    x.task ≠ .fail e := by
  intro htask
  refine h ?_
  unfold Side.Gone
  rw [htask]
  trivial

theorem Moves.follows {gone : Prop} {x x' : Side σ ε lab out wait} {ms : List out}
    (h : Moves A gone x ms x') : Follows A x'.task x.task := by
  cases h with
  | act _ => exact .act _
  | stop _ => exact .fails _ fun _ => nofun
  | send => exact .send
  | take g hstays _ => exact .take _ g hstays

theorem Moves.after {gone : Prop} {x x' : Side σ ε lab out wait} {ms : List out}
    (h : Moves A gone x ms x') : After A (x'.inbox.length, x'.task) (x.inbox.length, x.task) := by
  cases h with
  | act _ => exact .act _
  | stop _ => exact .fails _ fun _ => nofun
  | send => exact .send
  | take g hstays hhears =>
    cases hhears with
    | message m rest => exact .message m g hstays
    | closed _ => exact .closed g hstays

/-- **A step of the two leaves less to do**, and a step of the others no
more. -/
theorem Step.left {z z' : Pair σ ε lab out wait wait'} {l : Option (Speaker × List out)}
    (h : Step A B beside beside' z l z') :
    Prod.Lex (Follows B) (After A) (left z') (left z) ∨ l = none ∧ left z' = left z := by
  cases h with
  | caller hmoves => exact .inl (.right _ hmoves.after)
  | server hmoves => exact .inl (.left _ _ hmoves.follows)
  | besideCaller _ => exact .inr ⟨rfl, rfl⟩
  | besideServer _ => exact .inr ⟨rfl, rfl⟩
  | cutCaller e hstays => exact .inl (.right _ (.fails e (not_fail_of_not_gone hstays)))
  | cutServer e hstays => exact .inl (.left _ _ (.fails e (not_fail_of_not_gone hstays)))

/-- What never gets more, and less only well-foundedly, stays as it is in
the end. -/
theorem eventually_const {γ : Type*} {r : γ → γ → Prop} (hr : WellFounded r) (f : ℕ → γ)
    (h : ∀ n, r (f (n + 1)) (f n) ∨ f (n + 1) = f n) : ∃ N, ∀ n, N ≤ n → f n = f N := by
  obtain ⟨_, ⟨N, rfl⟩, hmin⟩ := hr.has_min (Set.range f) ⟨f 0, 0, rfl⟩
  refine ⟨N, fun n hn => ?_⟩
  induction n, hn using Nat.le_induction with
  | base => rfl
  | succ n hn ih =>
    rcases h n with hless | hsame
    · rw [ih] at hless
      exact absurd hless (hmin _ ⟨n + 1, rfl⟩)
    · rw [hsame, ih]

/-! ## Who can go on -/

/-- The party waits, and nothing is there for it. -/
def Side.Waits (A : Conduct σ ε lab out wait given) (x : Side σ ε lab out wait) : Prop :=
  ∃ w, x.task = .ret w ∧ ¬ A.leaves w ∧ x.inbox = []

/-- One of the two can make a step. -/
def Moving (A : Conduct σ ε lab out wait given) (B : Conduct σ ε lab out wait' given')
    (z : Pair σ ε lab out wait wait') : Prop :=
  (∃ ms x', Moves A (z.2.Gone B) z.1 ms x') ∨ ∃ ms y', Moves B (z.1.Gone A) z.2 ms y'

/-- A party can make a step, has ended, or waits for the other. -/
theorem exists_moves_or [Nonempty given] (gone : Prop) (x : Side σ ε lab out wait) :
    (∃ ms x', Moves A gone x ms x') ∨ x.Gone A ∨ x.Waits A ∧ ¬ gone := by
  obtain ⟨s, p, inbox⟩ := x
  cases p with
  | fail e => exact .inr (.inl trivial)
  | act l op k =>
    rcases hexec : op.exec s with ⟨e | b, t⟩
    · exact .inl ⟨_, _, .stop hexec⟩
    · exact .inl ⟨_, _, .act hexec⟩
  | send m k => exact .inl ⟨_, _, .send⟩
  | ret w =>
    by_cases hleaves : A.leaves w
    · exact .inr (.inl hleaves)
    have g := Classical.arbitrary given
    cases inbox with
    | cons m rest => exact .inl ⟨_, _, .take g hleaves (.message m rest)⟩
    | nil =>
      by_cases hgone : gone
      · exact .inl ⟨_, _, .take g hleaves (.closed hgone)⟩
      · exact .inr (.inr ⟨⟨w, rfl, hleaves, rfl⟩, hgone⟩)

/-- **Where neither can make a step**, both have ended, or each waits for
the other. -/
theorem gone_or_waits [Nonempty given] [Nonempty given'] {z : Pair σ ε lab out wait wait'}
    (h : ¬ Moving A B z) : z.1.Gone A ∧ z.2.Gone B ∨ z.1.Waits A ∧ z.2.Waits B := by
  unfold Moving at h
  rw [not_or] at h
  rcases exists_moves_or (A := A) (z.2.Gone B) z.1 with hmoves | hgone | ⟨hwaits, hthere⟩
  · exact absurd hmoves h.1
  · rcases exists_moves_or (A := B) (z.1.Gone A) z.2 with hmoves | hgone' | ⟨-, hthere⟩
    · exact absurd hmoves h.2
    · exact .inl ⟨hgone, hgone'⟩
    · exact absurd hgone hthere
  · rcases exists_moves_or (A := B) (z.1.Gone A) z.2 with hmoves | hgone' | ⟨hwaits', -⟩
    · exact absurd hmoves h.2
    · exact absurd hgone' hthere
    · exact .inr ⟨hwaits, hwaits'⟩

/-! ## Sequences without end -/

/-- The states of the two, one after the other, and the steps between
them. -/
structure Forever (A : Conduct σ ε lab out wait given) (B : Conduct σ ε lab out wait' given')
    (beside beside' : σ → σ → Prop) where
  state : ℕ → Pair σ ε lab out wait wait'
  label : ℕ → Option (Speaker × List out)
  step : ∀ n, Step A B beside beside' (state n) (label n) (state (n + 1))

namespace Forever

variable (r : Forever A B beside beside')

/-- It is not so that from some point on one of the two could always make
a step, and neither does. -/
def Fair : Prop :=
  ∀ n, ∃ m, n ≤ m ∧ (r.label m ≠ none ∨ ¬ Moving A B (r.state m))

/-- What has happened so far. -/
theorem run (n : ℕ) :
    Run (Step A B beside beside') (r.state 0) ((List.range n).map r.label) (r.state n) := by
  induction n with
  | zero => exact .nil _
  | succ n ih =>
    rw [List.range_succ, List.map_append]
    exact ih.snoc (r.step n)

/-- **Whatever the others do**, the two come to make no more steps, and
what is left to do stays the same. -/
theorem eventually_silent (hA : WellFounded (After A)) (hB : WellFounded (Follows B)) :
    ∃ N, ∀ n, N ≤ n → r.label n = none ∧ left (r.state n) = left (r.state N) := by
  have hlex := WellFounded.prod_lex hB hA
  obtain ⟨N, hN⟩ : ∃ N, ∀ n, N ≤ n → left (r.state n) = left (r.state N) :=
    eventually_const hlex (fun n => left (r.state n)) fun n => (r.step n).left.imp_right And.right
  refine ⟨N, fun n hn => ⟨?_, hN n hn⟩⟩
  rcases (r.step n).left with hless | ⟨hnone, -⟩
  · rw [hN n hn, hN (n + 1) (Nat.le_succ_of_le hn)] at hless
    exact absurd hless (hlex.irrefl.irrefl _)
  · exact hnone

/-- **Both end**, where the two never wait for each other. -/
theorem eventually_gone [Nonempty given] [Nonempty given'] (hA : WellFounded (After A))
    (hB : WellFounded (Follows B)) (hfair : r.Fair)
    (hfree : ∀ n, ¬ ((r.state n).1.Waits A ∧ (r.state n).2.Waits B)) :
    ∃ N, ∀ n, N ≤ n → (r.state n).1.Gone A ∧ (r.state n).2.Gone B := by
  obtain ⟨N, hN⟩ := r.eventually_silent hA hB
  obtain ⟨m, hm, hmoves⟩ := hfair N
  have hstill := hmoves.resolve_left (not_not.2 (hN m hm).1)
  have hgone := (gone_or_waits hstill).resolve_right (hfree m)
  refine ⟨N, fun n hn => ?_⟩
  -- who has ended is a matter of what is left to do
  have hleft : left (r.state n) = left (r.state m) := (hN n hn).2.trans (hN m hm).2.symm
  have hserver : (r.state n).2.task = (r.state m).2.task := congrArg Prod.fst hleft
  have hcaller : (r.state n).1.task = (r.state m).1.task := congrArg (·.2.2) hleft
  unfold Side.Gone at hgone ⊢
  rwa [hserver, hcaller]

end Forever

theorem Side.Gone.not_moves {gone : Prop} {x : Side σ ε lab out wait} (h : x.Gone A)
    {ms : List out} {x' : Side σ ε lab out wait} : ¬ Moves A gone x ms x' := by
  intro hmoves
  cases hmoves with
  | act _ => exact h
  | stop _ => exact h
  | send => exact h
  | take g hstays _ => exact hstays h

/-- A run that goes on for ever at its end. -/
theorem exists_forever {z₀ z : Pair σ ε lab out wait wait'}
    {steps : List (Option (Speaker × List out))} (hrun : Run (Step A B beside beside') z₀ steps z)
    (hstill : beside z.1.state z.1.state) :
    ∃ r : Forever A B beside beside', r.state 0 = z₀ ∧ ∃ N, ∀ n, N ≤ n → r.state n = z := by
  have hfinite : ∃ (state : ℕ → Pair σ ε lab out wait wait')
      (label : ℕ → Option (Speaker × List out)) (N : ℕ), state 0 = z₀ ∧
      (∀ n, n < N → Step A B beside beside' (state n) (label n) (state (n + 1))) ∧
      ∀ n, N ≤ n → state n = z ∧ label n = none := by
    clear hstill
    induction hrun with
    | nil => exact ⟨fun _ => z₀, fun _ => none, 0, rfl, fun n hn => absurd hn (Nat.not_lt_zero n),
        fun _ _ => ⟨rfl, rfl⟩⟩
    | @snoc t u ls l hinit hstep ih =>
      obtain ⟨state, label, N, hfirst, hsteps, hlast⟩ := ih
      refine ⟨fun n => if n ≤ N then state n else u,
        fun n => if n < N then label n else if n = N then l else none, N + 1, ?_, ?_, ?_⟩
      · simpa using hfirst
      · intro n hn
        rcases Nat.lt_or_ge n N with hlt | hge
        · simpa [hlt, hlt.le, Nat.succ_le_of_lt hlt] using hsteps n hlt
        · obtain rfl : n = N := by omega
          have hnext : ¬ n + 1 ≤ n := by omega
          simpa [hnext, (hlast n (Nat.le_refl n)).1] using hstep
      · intro n hn
        have hn' : ¬ n ≤ N := by omega
        have hne : ¬ n < N := by omega
        have hne' : n ≠ N := by omega
        simp [hn', hne, hne']
  obtain ⟨state, label, N, hfirst, hsteps, hlast⟩ := hfinite
  refine ⟨⟨state, label, fun n => ?_⟩, hfirst, N, fun n hn => (hlast n hn).1⟩
  rcases Nat.lt_or_ge n N with hlt | hge
  · exact hsteps n hlt
  · obtain ⟨hstate, hlabel⟩ := hlast n hge
    rw [hstate, hlabel, (hlast (n + 1) (Nat.le_succ_of_le hge)).1]
    exact .besideCaller hstill

end Duplex

end Embernet
