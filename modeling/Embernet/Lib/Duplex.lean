import Embernet.Lib.Dialogue
/-!
# Duplex — two sessions step by step, and others beside them

In a `Dialogue` a party does at once what it does with a message. Here
each call and each message is a step of its own: between two of them the
other party moves, and so do the others who write a party's state.

A party promises something of each message that it sends: `Reaches` is the
proof rule for one party by itself, whatever it hears, and `talks_of_run`
puts the two together. What one of them heard, and still has to hear, is
what the other said, and so what the other promised.
-/

namespace Embernet

namespace Duplex

open Dialogue Proc

variable {σ ε lab out wait wait' given given' α β : Type}

/-! ## The two parties -/

/-- A party: its state, what it has left to do, and what it was sent and
has not taken. -/
structure Side (σ ε lab out wait : Type) where
  state : σ
  task : Proc σ ε lab out wait
  inbox : List out

/-- The party has ended, in an error or not. -/
def Side.Gone (A : Conduct σ ε lab out wait given) (x : Side σ ε lab out wait) : Prop :=
  match x.task with
  | .fail _ => True
  | .ret w => A.leaves w
  | _ => False

/-- One step of a party, with what it sends: it makes a call, sends, or
takes what comes next. -/
inductive Moves (A : Conduct σ ε lab out wait given) (gone : Prop) :
    Side σ ε lab out wait → List out → Side σ ε lab out wait → Prop
  | act {β : Type} {l : lab} {x : Op σ ε β} {k : β → Proc σ ε lab out wait} {s t : σ} {b : β}
      {inbox : List out} : x.exec s = (.ok b, t) →
      Moves A gone ⟨s, .act l x k, inbox⟩ [] ⟨t, k b, inbox⟩
  | stop {β : Type} {l : lab} {x : Op σ ε β} {k : β → Proc σ ε lab out wait} {s t : σ} {e : ε}
      {inbox : List out} : x.exec s = (.error e, t) →
      Moves A gone ⟨s, .act l x k, inbox⟩ [] ⟨t, .fail e, inbox⟩
  | send {m : out} {k : Proc σ ε lab out wait} {s : σ} {inbox : List out} :
      Moves A gone ⟨s, .send m k, inbox⟩ [m] ⟨s, k, inbox⟩
  | take {s : σ} {w : wait} {inbox rest : List out} {i : Option out} (g : given) :
      ¬ A.leaves w → Hears gone inbox i rest →
      Moves A gone ⟨s, .ret w, inbox⟩ [] ⟨s, A.resume w i g, rest⟩

/-- The one who asks and the one who serves. -/
abbrev Pair (σ ε lab out wait wait' : Type) := Side σ ε lab out wait × Side σ ε lab out wait'

variable {A : Conduct σ ε lab out wait given} {B : Conduct σ ε lab out wait' given'}
  {beside beside' : σ → σ → Prop}

/-- A step of the two, with who it is and what it sends, or of the others
who write a party's state. What one of them sends, the other finds in its
inbox. At any point a party may be cut off, by a deadline or a line that
breaks. -/
inductive Step (A : Conduct σ ε lab out wait given) (B : Conduct σ ε lab out wait' given')
    (beside beside' : σ → σ → Prop) : Pair σ ε lab out wait wait' →
    Option (Speaker × List out) → Pair σ ε lab out wait wait' → Prop
  | caller {x x' : Side σ ε lab out wait} {y : Side σ ε lab out wait'} {ms : List out} :
      Moves A (y.Gone B) x ms x' →
      Step A B beside beside' (x, y) (some (.caller, ms)) (x', { y with inbox := y.inbox ++ ms })
  | server {x : Side σ ε lab out wait} {y y' : Side σ ε lab out wait'} {ms : List out} :
      Moves B (x.Gone A) y ms y' →
      Step A B beside beside' (x, y) (some (.server, ms)) ({ x with inbox := x.inbox ++ ms }, y')
  | besideCaller {x : Side σ ε lab out wait} {y : Side σ ε lab out wait'} {t : σ} :
      beside x.state t → Step A B beside beside' (x, y) none ({ x with state := t }, y)
  | besideServer {x : Side σ ε lab out wait} {y : Side σ ε lab out wait'} {t : σ} :
      beside' y.state t → Step A B beside beside' (x, y) none (x, { y with state := t })
  | cutCaller {x : Side σ ε lab out wait} {y : Side σ ε lab out wait'} (e : ε) : ¬ x.Gone A →
      Step A B beside beside' (x, y) none ({ x with task := .fail e }, y)
  | cutServer {x : Side σ ε lab out wait} {y : Side σ ε lab out wait'} (e : ε) : ¬ y.Gone B →
      Step A B beside beside' (x, y) none (x, { y with task := .fail e })

/-- What a party has sent in the steps of a run. -/
def sentBy (who : Speaker) (steps : List (Option (Speaker × List out))) : List out :=
  steps.flatMap fun
    | some (speaker, ms) => if speaker = who then ms else []
    | none => []

theorem sentBy_snoc (who : Speaker) (steps : List (Option (Speaker × List out)))
    (step : Option (Speaker × List out)) :
    sentBy who (steps ++ [step]) = sentBy who steps ++ sentBy who [step] := by
  simp [sentBy]

/-- Both about to begin. -/
def start (p : Proc σ ε lab out wait) (q : Proc σ ε lab out wait') (s t : σ) :
    Pair σ ε lab out wait wait' :=
  (⟨s, p, []⟩, ⟨t, q, []⟩)

/-! ## One party by itself -/

/-- What a party has heard and said. -/
structure Talk (σ out : Type) where
  state : σ
  heard : List out
  said : List out

/-- A party that keeps track of what it hears and says. -/
def talking (given : Type) : Host σ lab out (Option out × given) (Talk σ out) where
  view := Talk.state
  act _ _ s g := { g with state := s }
  emit m g := { g with said := g.said ++ [m] }
  receive i g := { g with heard := g.heard ++ i.1.toList }

/-- What the others, and the party's own calls, may do to a state: nothing,
or one thing after another. -/
structure Drift (σ : Type) where
  rel : σ → σ → Prop
  refl : ∀ s, rel s s
  trans : ∀ {s t u}, rel s t → rel t u → rel s u

variable {D : Drift σ} {promise : out → Talk σ out → Prop}

/-- The others write the state, and leave alone what is heard and said. A
call writes it as they do, and a message keeps its promise. -/
def among (D : Drift σ) (promise : out → Talk σ out → Prop) : Contract lab out (Talk σ out) where
  rely g h := h.heard = g.heard ∧ h.said = g.said ∧ D.rel g.state h.state
  assume _ _ := True
  guarantee
    | .act _, g, h => h.heard = g.heard ∧ h.said = g.said ∧ D.rel g.state h.state
    | .send m, g, h => promise m g ∧ h = { g with said := g.said ++ [m] }
  rely_refl _ := ⟨rfl, rfl, D.refl _⟩
  rely_trans h₁ h₂ := ⟨h₂.1.trans h₁.1, h₂.2.1.trans h₁.2.1, D.trans h₁.2.2 h₂.2.2⟩

/-- Every message was sent where its promise was kept: after what was said
before it, and after some of what was heard. -/
def Promised (D : Drift σ) (promise : out → Talk σ out → Prop) (g : Talk σ out) : Prop :=
  ∀ before m after, g.said = before ++ m :: after →
    ∃ s heard, heard <+: g.heard ∧ D.rel s g.state ∧ promise m ⟨s, heard, before⟩

theorem promised_nil {s : σ} {heard : List out} : Promised D promise ⟨s, heard, []⟩ := by
  intro before m after h
  simp at h

theorem Promised.drift {g h : Talk σ out} (hg : Promised D promise g) (hheard : g.heard <+: h.heard)
    (hsaid : h.said = g.said) (hrel : D.rel g.state h.state) : Promised D promise h := by
  intro before m after heq
  obtain ⟨s, heard, hpre, hs, hm⟩ := hg before m after (hsaid ▸ heq)
  exact ⟨s, heard, hpre.trans hheard, D.trans hs hrel, hm⟩

theorem Promised.send {g : Talk σ out} {m : out} (hg : Promised D promise g) (hm : promise m g) :
    Promised D promise { g with said := g.said ++ [m] } := by
  intro before m' after heq
  rcases List.eq_nil_or_concat after with rfl | ⟨init, last, rfl⟩
  · -- the message just sent
    obtain ⟨rfl, hlast⟩ := List.append_inj' heq rfl
    cases hlast
    exact ⟨g.state, g.heard, List.prefix_refl _, D.refl _, hm⟩
  · rw [List.concat_eq_append, ← List.cons_append, ← List.append_assoc] at heq
    exact hg before m' init (List.append_inj' heq rfl).1

/-! ## What a process says -/

/-- Whatever its calls return, the process sends plain messages only, and
where it returns `R` holds of what it returns and of what it has sent. -/
def Speaks (plain : out → Prop) : (α → List out → Prop) → Proc σ ε lab out α → Prop
  | R, .ret a => R a []
  | _, .fail _ => True
  | R, .act _ _ k => ∀ b, Speaks plain R (k b)
  | R, .send m k => plain m ∧ Speaks plain (fun a ms => R a (m :: ms)) k

namespace Speaks

variable {plain : out → Prop} {R R' : α → List out → Prop} {p : Proc σ ε lab out α}

theorem mono (hp : Speaks plain R p) (h : ∀ a ms, R a ms → R' a ms) : Speaks plain R' p := by
  induction p generalizing R R' with
  | ret a => exact h a [] hp
  | fail e => trivial
  | act l x k ih => exact fun b => ih b (hp b) h
  | send m k ih => exact ⟨hp.1, ih hp.2 fun a ms => h a (m :: ms)⟩

/-- **A sequence** says what its first part says, and then the second. -/
theorem bind {f : α → Proc σ ε lab out β} {R : β → List out → Prop}
    (hp : Speaks plain (fun a ms => Speaks plain (fun b ms' => R b (ms ++ ms')) (f a)) p) :
    Speaks plain R (p >>= f) := by
  induction p generalizing R with
  | ret a => exact hp
  | fail e => trivial
  | act l x k ih => exact fun b => ih b (hp b)
  | send m k ih => exact ⟨hp.1, ih hp.2⟩

theorem ret {a : α} (h : R a []) : Speaks plain R (pure a : Proc σ ε lab out α) := h

theorem call {l : lab} {x : Op σ ε α} (h : ∀ a, R a []) :
    Speaks plain R (Proc.call l x : Proc σ ε lab out α) :=
  h

theorem emit {R : Unit → List out → Prop} {m : out} (hm : plain m) (h : R () [m]) :
    Speaks plain R (Proc.emit m : Proc σ ε lab out Unit) :=
  ⟨hm, h⟩

theorem except {r : Except ε α} (h : ∀ a, r = .ok a → R a []) :
    Speaks plain R (liftM r : Proc σ ε lab out α) := by
  cases r with
  | error e => trivial
  | ok a => exact h a rfl

theorem bailIf {R : Unit → List out → Prop} {c : Prop} [Decidable c] {e : ε}
    (h : ¬ c → R () []) : Speaks plain R (Embernet.bailIf c e : Proc σ ε lab out Unit) := by
  by_cases hc : c <;> simp only [Embernet.bailIf, hc]
  · trivial
  · exact h hc

end Speaks

/-! ## What a process reaches -/

/-- Where the process returns, `P` holds of what it returns and of the
talk; and each of its messages keeps its promise. -/
def Reaches (given : Type) (D : Drift σ) (promise : out → Talk σ out → Prop)
    (p : Proc σ ε lab out α) (P : α → Talk σ out → Prop) (g : Talk σ out) : Prop :=
  wp (talking given) (among D promise) p (fun r h => ∀ a, r = .ok a → P a h) g

namespace Reaches

variable {P P' : α → Talk σ out → Prop} {Q : β → Talk σ out → Prop} {p : Proc σ ε lab out α}
  {f : α → Proc σ ε lab out β} {g : Talk σ out} {s : σ} {heard said : List out}

theorem mono (hp : Reaches given D promise p P g) (h : ∀ a g, P a g → P' a g) :
    Reaches given D promise p P' g :=
  wp_mono (fun _ g hP a ha => h a g (hP a ha)) hp

/-- **A sequence**: its second part starts where the first returned. -/
theorem bind (hp : Reaches given D promise p (fun a g => Reaches given D promise (f a) Q g) g) :
    Reaches given D promise (p >>= f) Q g := by
  refine wp_bind (wp_mono ?_ hp)
  rintro (e | a) h hreached
  · rintro b ⟨⟩
  · exact hreached a rfl

theorem ret {a : α} (h : ∀ t, D.rel s t → P a ⟨t, heard, said⟩) :
    Reaches given D promise (pure a : Proc σ ε lab out α) P ⟨s, heard, said⟩ := by
  rintro ⟨t, heard', said'⟩ ⟨rfl, rfl, hrel⟩ _ ⟨⟩
  exact h t hrel

theorem fail {e : ε} : Reaches given D promise (.fail e : Proc σ ε lab out α) P g := by
  rintro h - _ ⟨⟩

/-- A call, where it returns. -/
theorem call {l : lab} {x : Op σ ε α} (hx : ∀ t, D.rel t (x.exec t).2)
    (h : ∀ t a u v, D.rel s t → x.exec t = (.ok a, u) → D.rel u v → P a ⟨v, heard, said⟩) :
    Reaches given D promise (Proc.call l x : Proc σ ε lab out α) P ⟨s, heard, said⟩ := by
  rintro ⟨t, heard', said'⟩ ⟨rfl, rfl, hrel⟩ -
  have hcall := hx t
  rcases hexec : x.exec ((talking given : Host σ lab out _ _).view ⟨t, heard', said'⟩)
    with ⟨e | a, u⟩
  · refine ⟨⟨rfl, rfl, ?_⟩, fun _ _ _ => ?_⟩
    · rw [show x.exec t = _ from hexec] at hcall
      exact hcall
    · rintro ⟨⟩
  · rw [show x.exec t = _ from hexec] at hcall
    refine ⟨⟨rfl, rfl, hcall⟩, ?_⟩
    rintro ⟨v, heard', said'⟩ ⟨rfl, rfl, hrel'⟩ _ ⟨⟩
    exact h t a u v hrel hexec hrel'

theorem emit {P : Unit → Talk σ out → Prop} {m : out}
    (hm : ∀ t, D.rel s t → promise m ⟨t, heard, said⟩)
    (h : ∀ t, D.rel s t → P () ⟨t, heard, said ++ [m]⟩) :
    Reaches given D promise (Proc.emit m : Proc σ ε lab out Unit) P ⟨s, heard, said⟩ := by
  rintro ⟨t, heard', said'⟩ ⟨rfl, rfl, hrel⟩ -
  refine ⟨⟨hm t hrel, rfl⟩, ?_⟩
  rintro ⟨u, heard', said'⟩ ⟨hheard, hsaid, hrel'⟩ _ ⟨⟩
  obtain rfl : heard' = _ := hheard
  obtain rfl : said' = _ := hsaid
  exact h u (D.trans hrel hrel')

theorem except {r : Except ε α}
    (h : ∀ a t, r = .ok a → D.rel s t → P a ⟨t, heard, said⟩) :
    Reaches given D promise (liftM r : Proc σ ε lab out α) P ⟨s, heard, said⟩ := by
  cases r with
  | error e => exact fail
  | ok a => exact ret fun t hrel => h a t rfl hrel

theorem bailIf {P : Unit → Talk σ out → Prop} {c : Prop} [Decidable c] {e : ε}
    (h : ¬ c → ∀ t, D.rel s t → P () ⟨t, heard, said⟩) :
    Reaches given D promise (Embernet.bailIf c e : Proc σ ε lab out Unit) P ⟨s, heard, said⟩ := by
  by_cases hc : c <;> simp only [Embernet.bailIf, hc]
  · exact fail
  · exact ret (h hc)

/-- **A process whose calls drift**, and whose messages promise nothing. -/
theorem drift {plain : out → Prop} {R : α → List out → Prop}
    (hp : p.Each fun _ _ x => ∀ t, D.rel t (x.exec t).2) (hspeaks : Speaks plain R p)
    (hplain : ∀ m t ms, plain m → (∀ m' ∈ ms, plain m') → promise m ⟨t, heard, said ++ ms⟩)
    (h : ∀ a t ms, D.rel s t → R a ms → P a ⟨t, heard, said ++ ms⟩) :
    Reaches given D promise p P ⟨s, heard, said⟩ := by
  induction p generalizing s said R with
  | ret a => exact ret fun t hrel => by simpa using h a t [] hrel hspeaks
  | fail e => exact fail
  | act l x k ih =>
    refine bind (p := Proc.call l x) (call hp.1 fun t b u v hrel hexec hrel' => ?_)
    have hcall : D.rel t u := by simpa [hexec] using hp.1 t
    refine ih b (hp.2 b) (hspeaks b) hplain fun a w ms hw => ?_
    exact h a w ms (D.trans (D.trans (D.trans hrel hcall) hrel') hw)
  | send m k ih =>
    refine bind (p := Proc.emit m) (f := fun _ => k) (emit (fun t _ => ?_) fun t hrel => ?_)
    · simpa using hplain m t [] hspeaks.1 (by simp)
    refine ih hp hspeaks.2 (fun m' u ms hm' hms => ?_) fun a u ms hu hR => ?_
    · rw [List.append_assoc, List.singleton_append]
      exact hplain m' u (m :: ms) hm' (List.forall_mem_cons.2 ⟨hspeaks.1, hms⟩)
    · have hreached := h a u (m :: ms) (D.trans hrel hu) hR
      rwa [List.append_assoc, List.singleton_append]

end Reaches

/-! ## A run of the two -/

/-- A step of a party by itself, which may hear anything, until it is cut
off. -/
inductive Alone (A : Conduct σ ε lab out wait given) (beside : σ → σ → Prop) :
    Talk σ out × Proc σ ε lab out wait → Option (Event lab out) →
    Talk σ out × Proc σ ε lab out wait → Prop
  | session {z z' : Talk σ out × Proc σ ε lab out wait} {ev : Option (Event lab out)} :
      SessionStep (talking given)
        (fun g h => h.heard = g.heard ∧ h.said = g.said ∧ beside g.state h.state) (fun _ _ => True)
        (fun w (i : Option out × given) => A.resume w i.1 i.2) z ev z' → Alone A beside z ev z'
  | cut {g : Talk σ out} {q : Proc σ ε lab out wait} (e : ε) :
      Alone A beside (g, q) none (g, .fail e)

/-- **A step of a party** is a step of it by itself. -/
theorem Moves.alone {gone : Prop} {x x' : Side σ ε lab out wait} {ms : List out}
    (h : Moves A gone x ms x') {s₀ : Talk σ out × Proc σ ε lab out wait}
    {evs : List (Option (Event lab out))} {heard said : List out}
    (hrun : Run (Alone A beside) s₀ evs (⟨x.state, heard, said⟩, x.task)) :
    ∃ evs' heard', Run (Alone A beside) s₀ evs' (⟨x'.state, heard', said ++ ms⟩, x'.task) ∧
      heard' ++ x'.inbox = heard ++ x.inbox := by
  cases h with
  | @act _ l x k s t b inbox hx =>
    rw [List.append_nil]
    have hadvance : (Proc.act l x k).advance (talking given) ⟨s, heard, said⟩ =
        some (.act l, k b, ⟨t, heard, said⟩) := by
      rw [advance, show (talking given).view (⟨s, heard, said⟩ : Talk σ out) = s from rfl, hx]
      rfl
    exact ⟨_, heard, hrun.snoc (.session (.advance hadvance trivial)), rfl⟩
  | @stop _ l x k s t e inbox hx =>
    rw [List.append_nil]
    have hadvance : (Proc.act l x k).advance (talking given) ⟨s, heard, said⟩ =
        some (.act l, fail e, ⟨t, heard, said⟩) := by
      rw [advance, show (talking given).view (⟨s, heard, said⟩ : Talk σ out) = s from rfl, hx]
      rfl
    exact ⟨_, heard, hrun.snoc (.session (.advance hadvance trivial)), rfl⟩
  | @send m k s inbox =>
    have hadvance : (Proc.send m k).advance (talking given) ⟨s, heard, said⟩ =
        some (.send m, k, ⟨s, heard, said ++ [m]⟩) := rfl
    exact ⟨_, heard, hrun.snoc (.session (.advance hadvance trivial)), rfl⟩
  | take g _ hhears =>
    rw [List.append_nil]
    refine ⟨_, _, hrun.snoc (.session (.receive (_, g))), ?_⟩
    show heard ++ Option.toList _ ++ _ = _
    cases hhears with
    | message m rest => simp
    | closed _ => simp

/-- **A run of the two is a run of each.** What one has heard, with what
is in its inbox, is what the other has said. -/
theorem exists_talks {p : Proc σ ε lab out wait} {q : Proc σ ε lab out wait'} {s t : σ}
    {steps : List (Option (Speaker × List out))} {z : Pair σ ε lab out wait wait'}
    (hrun : Run (Step A B beside beside') (start p q s t) steps z) :
    ∃ evs evs' heard heard',
      Run (Alone A beside) (⟨s, [], []⟩, p) evs
        (⟨z.1.state, heard, sentBy .caller steps⟩, z.1.task) ∧
      Run (Alone B beside') (⟨t, [], []⟩, q) evs'
        (⟨z.2.state, heard', sentBy .server steps⟩, z.2.task) ∧
      heard' ++ z.2.inbox = sentBy .caller steps ∧ heard ++ z.1.inbox = sentBy .server steps := by
  induction hrun with
  | nil => exact ⟨[], [], [], [], .nil _, .nil _, rfl, rfl⟩
  | snoc hinit hstep ih =>
    obtain ⟨evs, evs', heard, heard', hx, hy, hsaid, hsaid'⟩ := ih
    simp only [sentBy_snoc]
    cases hstep with
    | @caller _ x' _ ms hmoves =>
      obtain ⟨evs₁, heard₁, hx', hheard⟩ := hmoves.alone hx
      have hms : sentBy .caller [some (.caller, ms)] = ms := by simp [sentBy]
      have hnone : sentBy .server [some (.caller, ms)] = [] := by simp [sentBy]
      rw [hms, hnone, List.append_nil]
      refine ⟨evs₁, evs', heard₁, heard', hx', hy, ?_, hheard.trans hsaid'⟩
      rw [← hsaid, List.append_assoc]
    | @server _ _ y' ms hmoves =>
      obtain ⟨evs₁, heard₁, hy', hheard⟩ := hmoves.alone hy
      have hms : sentBy .server [some (.server, ms)] = ms := by simp [sentBy]
      have hnone : sentBy .caller [some (.server, ms)] = [] := by simp [sentBy]
      rw [hms, hnone, List.append_nil]
      refine ⟨evs, evs₁, heard, heard₁, hx, hy', hheard.trans hsaid, ?_⟩
      rw [← hsaid', List.append_assoc]
    | besideCaller hbeside =>
      have hnone (who : Speaker) : sentBy who [(none : Option (Speaker × List out))] = [] := rfl
      simp only [hnone, List.append_nil]
      exact ⟨_, evs', heard, heard', hx.snoc (.session (.others ⟨rfl, rfl, hbeside⟩)), hy, hsaid,
        hsaid'⟩
    | besideServer hbeside =>
      have hnone (who : Speaker) : sentBy who [(none : Option (Speaker × List out))] = [] := rfl
      simp only [hnone, List.append_nil]
      exact ⟨evs, _, heard, heard', hx, hy.snoc (.session (.others ⟨rfl, rfl, hbeside⟩)), hsaid,
        hsaid'⟩
    | cutCaller e _ =>
      have hnone (who : Speaker) : sentBy who [(none : Option (Speaker × List out))] = [] := rfl
      simp only [hnone, List.append_nil]
      exact ⟨_, evs', heard, heard', hx.snoc (.cut e), hy, hsaid, hsaid'⟩
    | cutServer e _ =>
      have hnone (who : Speaker) : sentBy who [(none : Option (Speaker × List out))] = [] := rfl
      simp only [hnone, List.append_nil]
      exact ⟨evs, _, heard, heard', hx, hy.snoc (.cut e), hsaid, hsaid'⟩

/-- What is known of a party at each point at which it waits, whatever it
hears, and of each message that it sends. -/
structure Reliable (A : Conduct σ ε lab out wait given) (beside : σ → σ → Prop) (D : Drift σ)
    (promise : out → Talk σ out → Prop) (stands : wait → Talk σ out → Prop)
    (p : Proc σ ε lab out wait) (s : σ) : Prop where
  beside : ∀ s t, beside s t → D.rel s t
  start : Reaches given D promise p stands ⟨s, [], []⟩
  resume : ∀ w i g t heard said, stands w ⟨t, heard, said⟩ →
    Reaches given D promise (A.resume w i g) stands ⟨t, heard ++ i.toList, said⟩

/-- A party of a run: where it stands, if it waits, and what it has
promised. -/
structure Tells (D : Drift σ) (promise : out → Talk σ out → Prop)
    (stands : wait → Talk σ out → Prop) (task : Proc σ ε lab out wait) (g : Talk σ out) :
    Prop where
  stands : ∀ w, task = .ret w → stands w g
  promised : Promised D promise g

variable {stands : wait → Talk σ out → Prop} {stands' : wait' → Talk σ out → Prop}
  {promise' : out → Talk σ out → Prop} {D' : Drift σ}

/-- What was promised of a message, some time before. -/
theorem Promised.of_mem {g : Talk σ out} (hg : Promised D promise g) {m : out} (hm : m ∈ g.said) :
    ∃ s heard said, heard <+: g.heard ∧ D.rel s g.state ∧ promise m ⟨s, heard, said⟩ := by
  obtain ⟨before, after, heq⟩ := List.append_of_mem hm
  obtain ⟨s, heard, hpre, hs, hpromise⟩ := hg before m after heq
  exact ⟨s, heard, before, hpre, hs, hpromise⟩

/-- **What a party keeps over its runs.** -/
theorem Reliable.tells {p : Proc σ ε lab out wait} {s : σ}
    (h : Reliable A beside D promise stands p s) {evs : List (Option (Event lab out))}
    {z : Talk σ out × Proc σ ε lab out wait}
    (hrun : Run (Alone A beside) (⟨s, [], []⟩, p) evs z) :
    Tells D promise stands z.2 z.1 := by
  have hkept : wp (talking given) (among D promise) z.2 (fun r g => ∀ a, r = .ok a → stands a g)
      z.1 ∧ Promised D promise z.1 := by
    refine hrun.invariant (I := fun z : Talk σ out × Proc σ ε lab out wait =>
      wp (talking given) (among D promise) z.2 (fun r g => ∀ a, r = .ok a → stands a g) z.1 ∧
        Promised D promise z.1) ?_ ⟨h.start, promised_nil⟩
    rintro z ev z' ⟨hwp, hpromised⟩ hstep
    cases hstep with
    | cut e => exact ⟨fun _ _ a (ha : Except.error e = .ok a) => (by cases ha), hpromised⟩
    | session hstep =>
      have hmono : SessionStep (talking given)
          (among D promise : Contract lab out (Talk σ out)).rely (fun _ _ => True)
          (fun w (i : Option out × given) => A.resume w i.1 i.2) z ev z' :=
        hstep.mono fun g h' hr => ⟨hr.1, hr.2.1, h.beside _ _ hr.2.2⟩
      refine wp_sessionRun (C := among D promise) (I := Promised D promise) (H := talking given)
        (fun w i g hstands => h.resume w i.1 i.2 g.state g.heard g.said (hstands w rfl))
        (fun g h' hg hr => hg.drift (hr.1 ▸ List.prefix_refl _) hr.2.1 hr.2.2)
        (fun i g hg => hg.drift (List.prefix_append _ _) rfl (D.refl _))
        (fun ev g h' hg hguarantee => ?_) ((Run.nil z).snoc hmono) hwp hpromised
      cases ev with
      | act l => exact hg.drift (hguarantee.1 ▸ List.prefix_refl _) hguarantee.2.1 hguarantee.2.2
      | send m =>
        obtain ⟨hm, rfl⟩ := hguarantee
        exact hg.send hm
  refine ⟨?_, hkept.2⟩
  rintro w hw
  have hwp := hkept.1
  rw [hw] at hwp
  exact hwp z.1 ((among D promise : Contract lab out (Talk σ out)).rely_refl _) w rfl

/-- **The two together**, at every point of a run. -/
theorem talks_of_run {p : Proc σ ε lab out wait} {q : Proc σ ε lab out wait'} {s t : σ}
    (hp : Reliable A beside D promise stands p s)
    (hq : Reliable B beside' D' promise' stands' q t)
    {steps : List (Option (Speaker × List out))} {z : Pair σ ε lab out wait wait'}
    (hrun : Run (Step A B beside beside') (start p q s t) steps z) :
    ∃ heard heard',
      Tells D promise stands z.1.task ⟨z.1.state, heard, sentBy .caller steps⟩ ∧
      Tells D' promise' stands' z.2.task ⟨z.2.state, heard', sentBy .server steps⟩ ∧
      heard' ++ z.2.inbox = sentBy .caller steps ∧ heard ++ z.1.inbox = sentBy .server steps := by
  obtain ⟨evs, evs', heard, heard', hx, hy, hsaid, hsaid'⟩ := exists_talks hrun
  exact ⟨heard, heard', hp.tells hx, hq.tells hy, hsaid, hsaid'⟩

/-! ## Turns and steps -/

/-- Where a party of a dialogue stands, as one that moves step by step. -/
def asSide (x : Party σ ε out wait) : Side σ ε lab out wait :=
  ⟨x.state, Proc.ofExcept x.stands, x.inbox⟩

theorem asSide_gone {x : Party σ ε out wait} :
    (asSide x : Side σ ε lab out wait).Gone A ↔ x.Gone A := by
  obtain ⟨s, e | w, inbox⟩ := x
  · exact Iff.rfl
  · exact Iff.rfl

/-- A turn of a dialogue, from what the party does with a message alone. -/
theorem takes_message {s t : σ} {w : wait} {m : out} {rest ms : List out} {stands : Except ε wait}
    {y : Party σ ε out wait'} (g : given) (hstays : ¬ A.leaves w)
    (h : (A.resume w (some m) g).solo s = (ms, stands, t)) :
    Takes A B ⟨s, .ok w, m :: rest⟩ y ⟨t, stands, rest⟩ { y with inbox := y.inbox ++ ms } := by
  have htakes := Takes.take (B := B) (s := s) (y := y) g hstays (Hears.message m rest)
  rwa [h] at htakes

variable {z₀ : Pair σ ε lab out wait wait'}

/-- What the caller does alone, it may do step by step. -/
theorem exists_run_caller_solo {p : Proc σ ε lab out wait} {s : σ} {inbox : List out}
    {y : Side σ ε lab out wait'} {steps : List (Option (Speaker × List out))}
    (hrun : Run (Step A B beside beside') z₀ steps (⟨s, p, inbox⟩, y)) :
    ∃ steps', Run (Step A B beside beside') z₀ steps'
      (⟨(p.solo s).2.2, Proc.ofExcept (p.solo s).2.1, inbox⟩,
        { y with inbox := y.inbox ++ (p.solo s).1 }) := by
  induction p generalizing s y steps with
  | ret w => exact ⟨steps, by simpa [Proc.ofExcept] using hrun⟩
  | fail e => exact ⟨steps, by simpa [Proc.ofExcept] using hrun⟩
  | act l x k ih =>
    rw [solo]
    rcases hx : x.exec s with ⟨e | b, t⟩
    · exact ⟨_, hrun.snoc (.caller (.stop hx))⟩
    · obtain ⟨steps', hrun'⟩ := ih b (hrun.snoc (.caller (.act hx)))
      simp only [List.append_nil] at hrun'
      exact ⟨steps', hrun'⟩
  | send m k ih =>
    obtain ⟨steps', hrun'⟩ := ih (hrun.snoc (.caller .send))
    rw [List.append_assoc, List.singleton_append] at hrun'
    exact ⟨steps', hrun'⟩

/-- The node that serves may run alone too. -/
theorem exists_run_server_solo {p : Proc σ ε lab out wait'} {s : σ} {inbox : List out}
    {x : Side σ ε lab out wait} {steps : List (Option (Speaker × List out))}
    (hrun : Run (Step A B beside beside') z₀ steps (x, ⟨s, p, inbox⟩)) :
    ∃ steps', Run (Step A B beside beside') z₀ steps'
      ({ x with inbox := x.inbox ++ (p.solo s).1 },
        ⟨(p.solo s).2.2, Proc.ofExcept (p.solo s).2.1, inbox⟩) := by
  induction p generalizing s x steps with
  | ret w => exact ⟨steps, by simpa [Proc.ofExcept] using hrun⟩
  | fail e => exact ⟨steps, by simpa [Proc.ofExcept] using hrun⟩
  | act l op k ih =>
    rw [solo]
    rcases hx : op.exec s with ⟨e | b, t⟩
    · exact ⟨_, hrun.snoc (.server (.stop hx))⟩
    · obtain ⟨steps', hrun'⟩ := ih b (hrun.snoc (.server (.act hx)))
      simp only [List.append_nil] at hrun'
      exact ⟨steps', hrun'⟩
  | send m k ih =>
    obtain ⟨steps', hrun'⟩ := ih (hrun.snoc (.server .send))
    rw [List.append_assoc, List.singleton_append] at hrun'
    exact ⟨steps', hrun'⟩

/-- **A dialogue is a run of the two** in which nobody moves while a party
takes its turn. -/
theorem exists_run_of_turns {p : Proc σ ε lab out wait} {q : Proc σ ε lab out wait'} {s t : σ}
    {whos : List Speaker} {z : Both σ ε out wait wait'}
    (hrun : Run (Turn A B) (Dialogue.start p q s t) whos z) :
    ∃ steps, Run (Step A B beside beside') (start p q s t) steps (asSide z.1, asSide z.2) := by
  refine hrun.invariant (I := fun z => ∃ steps,
    Run (Step A B beside beside') (start p q s t) steps (asSide z.1, asSide z.2)) ?_ ?_
  · rintro z who z' ⟨steps, hsteps⟩ hturn
    cases hturn with
    | @caller x x' y y' htakes =>
      cases htakes with | @take s w inbox rest _ i g hstays hhears =>
      have hhears' : Hears ((asSide y : Side σ ε lab out wait').Gone B) inbox i rest := by
        rwa [show (asSide y : Side σ ε lab out wait').Gone B = y.Gone B from propext asSide_gone]
      have htake := hsteps.snoc (.caller (.take g hstays hhears'))
      simp only [List.append_nil] at htake
      exact exists_run_caller_solo htake
    | @server x x' y y' htakes =>
      cases htakes with | @take s w inbox rest _ i g hstays hhears =>
      have hhears' : Hears ((asSide x : Side σ ε lab out wait).Gone A) inbox i rest := by
        rwa [show (asSide x : Side σ ε lab out wait).Gone A = x.Gone A from propext asSide_gone]
      have htake := hsteps.snoc (.server (.take g hstays hhears'))
      simp only [List.append_nil] at htake
      exact exists_run_server_solo htake
  · obtain ⟨steps, hfirst⟩ := exists_run_caller_solo (Run.nil (start p q s t))
    exact exists_run_server_solo hfirst

end Duplex

end Embernet
