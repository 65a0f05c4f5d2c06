import Embernet.Lib.Solo
/-!
# Dialogue — two sessions that speak to each other

Each of two parties keeps a state of its own and waits at points; what one
sends, the other finds in its inbox, in that order. A party that takes a
message runs until it waits again or fails. Nobody else writes either
state, so what it does with the message is what it does alone, and how its
steps fall between the other's makes no difference.

`keeps_run` is the rule for both at once: what each promises of its
messages is what the other may count on.
-/

namespace Embernet

namespace Dialogue

variable {σ ε lab out wait wait' given given' : Type}

/-- How a party goes on from a point with the next message, or with none
where the other has left; and the points at which it leaves itself. -/
structure Conduct (σ ε lab out wait given : Type) where
  resume : wait → Option out → given → Proc σ ε lab out wait
  leaves : wait → Prop

/-- A party: its state, where it stands or the error it ended in, and what
it was sent and has not taken. -/
structure Party (σ ε out wait : Type) where
  state : σ
  stands : Except ε wait
  inbox : List out

variable {A : Conduct σ ε lab out wait given} {B : Conduct σ ε lab out wait' given'}

/-- The party has ended, in an error or not. -/
def Party.Gone (A : Conduct σ ε lab out wait given) (x : Party σ ε out wait) : Prop :=
  match x.stands with
  | .error _ => True
  | .ok w => A.leaves w

/-- What a party hears next, and what is left of its inbox. -/
inductive Hears (gone : Prop) : List out → Option out → List out → Prop
  | message (m : out) (rest : List out) : Hears gone (m :: rest) (some m) rest
  | closed : gone → Hears gone [] none []

theorem Hears.subset {gone : Prop} {inbox rest : List out} {i : Option out}
    (h : Hears gone inbox i rest) : (∀ m ∈ i, m ∈ inbox) ∧ rest ⊆ inbox := by
  cases h with
  | message m rest => exact ⟨by simp, List.subset_cons_self m rest⟩
  | closed _ => exact ⟨by simp, List.Subset.refl _⟩

/-- A party takes what comes next, and the other finds what it sent. -/
inductive Takes (A : Conduct σ ε lab out wait given) (B : Conduct σ ε lab out wait' given') :
    Party σ ε out wait → Party σ ε out wait' → Party σ ε out wait → Party σ ε out wait' → Prop
  | take {s : σ} {w : wait} {inbox rest : List out} {y : Party σ ε out wait'} {i : Option out}
      (g : given) : ¬ A.leaves w → Hears (y.Gone B) inbox i rest →
      Takes A B ⟨s, .ok w, inbox⟩ y
        ⟨((A.resume w i g).solo s).2.2, ((A.resume w i g).solo s).2.1, rest⟩
        { y with inbox := y.inbox ++ ((A.resume w i g).solo s).1 }

/-- The one who asks, and the one who serves. -/
inductive Speaker
  | caller
  | server
  deriving DecidableEq

/-- The two parties. -/
abbrev Both (σ ε out wait wait' : Type) := Party σ ε out wait × Party σ ε out wait'

/-- One turn of a dialogue. -/
inductive Turn (A : Conduct σ ε lab out wait given) (B : Conduct σ ε lab out wait' given') :
    Both σ ε out wait wait' → Speaker → Both σ ε out wait wait' → Prop
  | caller {x x' : Party σ ε out wait} {y y' : Party σ ε out wait'} :
      Takes A B x y x' y' → Turn A B (x, y) .caller (x', y')
  | server {x x' : Party σ ε out wait} {y y' : Party σ ε out wait'} :
      Takes B A y x y' x' → Turn A B (x, y) .server (x', y')

/-- Each party runs to its first point of waiting. -/
def start (p : Proc σ ε lab out wait) (q : Proc σ ε lab out wait') (s t : σ) :
    Both σ ε out wait wait' :=
  (⟨(p.solo s).2.2, (p.solo s).2.1, (q.solo t).1⟩, ⟨(q.solo t).2.2, (q.solo t).2.1, (p.solo s).1⟩)

/-! ## What the two keep -/

variable {I : Except ε wait → σ → Prop} {J : Except ε wait' → σ → Prop} {P Q : out → Prop}

/-- From where `I` admits it, on messages that `P` admits, a party comes to
where `I` admits it and sends only what `Q` admits. -/
def Conduct.Keeps (A : Conduct σ ε lab out wait given) (I : Except ε wait → σ → Prop)
    (P Q : out → Prop) : Prop :=
  ∀ w s i g, I (.ok w) s → ¬ A.leaves w → (∀ m ∈ i, P m) →
    I ((A.resume w i g).solo s).2.1 ((A.resume w i g).solo s).2.2 ∧
      ∀ m ∈ ((A.resume w i g).solo s).1, Q m

/-- A party stands where `I` admits it, and was sent what `P` admits. -/
structure Party.Admitted (I : Except ε wait → σ → Prop) (P : out → Prop)
    (x : Party σ ε out wait) : Prop where
  stands : I x.stands x.state
  inbox : ∀ m ∈ x.inbox, P m

theorem Takes.keeps {x x' : Party σ ε out wait} {y y' : Party σ ε out wait'}
    (hA : A.Keeps I P Q) (h : Takes A B x y x' y') (hx : x.Admitted I P) (hy : y.Admitted J Q) :
    x'.Admitted I P ∧ y'.Admitted J Q := by
  obtain ⟨hstands, hinbox⟩ := hx
  obtain ⟨g, hstays, hhears⟩ := h
  obtain ⟨hheard, hrest⟩ := hhears.subset
  obtain ⟨hstands', hsent⟩ := hA _ _ _ g hstands hstays fun m hm => hinbox m (hheard m hm)
  refine ⟨⟨hstands', fun m hm => hinbox m (hrest hm)⟩, hy.stands, fun m hm => ?_⟩
  rcases List.mem_append.1 hm with hm | hm
  · exact hy.inbox m hm
  · exact hsent m hm

/-- One turn. -/
theorem Turn.keeps {s t : Both σ ε out wait wait'} {who : Speaker} (hA : A.Keeps I P Q)
    (hB : B.Keeps J Q P) (hturn : Turn A B s who t)
    (hs : s.1.Admitted I P ∧ s.2.Admitted J Q) : t.1.Admitted I P ∧ t.2.Admitted J Q := by
  cases hturn with
  | caller htakes => exact htakes.keeps hA hs.1 hs.2
  | server htakes => exact (htakes.keeps hB hs.2 hs.1).symm

/-- **What each keeps on what the other sends, both keep over a whole
run.** -/
theorem keeps_run {s t : Both σ ε out wait wait'} {whos : List Speaker} (hA : A.Keeps I P Q)
    (hB : B.Keeps J Q P) (hrun : Run (Turn A B) s whos t)
    (hs : s.1.Admitted I P ∧ s.2.Admitted J Q) : t.1.Admitted I P ∧ t.2.Admitted J Q :=
  hrun.invariant (I := fun t => t.1.Admitted I P ∧ t.2.Admitted J Q)
    (fun _ _ _ hs hturn => hturn.keeps hA hB hs) hs

/-- The start, from what the two opening processes do. -/
theorem admitted_start {p : Proc σ ε lab out wait} {q : Proc σ ε lab out wait'} {s t : σ}
    (hp : I (p.solo s).2.1 (p.solo s).2.2) (hsent : ∀ m ∈ (p.solo s).1, Q m)
    (hq : J (q.solo t).2.1 (q.solo t).2.2) (hsent' : ∀ m ∈ (q.solo t).1, P m) :
    (start p q s t).1.Admitted I P ∧ (start p q s t).2.Admitted J Q :=
  ⟨⟨hp, hsent'⟩, hq, hsent⟩

end Dialogue

end Embernet
