import Embernet.Lib.Op
import Embernet.Lib.Replay
/-!
# Processes — programs whose steps interleave

A `Proc` is the code a task runs between two points at which it waits:
atomic operations on a state it shares with others, messages it sends,
and a result. Every operation carries the name of the call it stands for.

`wp` is the weakest precondition of a process among others. Before each
of its steps the others may have moved (`rely`); a step may be taken only
where the schedule admits it (`assume`); and every step keeps what the
process promises (`guarantee`). `wp_advance` is the soundness of it, step
by step, and `wp_sessionRun` carries it over the runs of a task that waits
for input between its processes.
-/

namespace Embernet

/-- Straight-line code over a shared state. -/
inductive Proc (σ ε lab out α : Type) : Type 1
  | ret (a : α)
  | fail (e : ε)
  | act {β : Type} (l : lab) (x : Op σ ε β) (k : β → Proc σ ε lab out α)
  | send (m : out) (k : Proc σ ε lab out α)

/-- One step of a process, as others see it. -/
inductive Event (lab out : Type)
  | act (l : lab)
  | send (m : out)
  deriving DecidableEq

namespace Proc

variable {σ ε lab out α β γ : Type}

/-- One process, and then another with its result. -/
protected def bind : Proc σ ε lab out α → (α → Proc σ ε lab out β) → Proc σ ε lab out β
  | ret a, f => f a
  | fail e, _ => fail e
  | act l x k, f => act l x fun b => (k b).bind f
  | send m k, f => send m (k.bind f)

instance : Monad (Proc σ ε lab out) where
  pure := ret
  bind := Proc.bind

/-- Runs the handler where the process fails. -/
protected def tryCatch : Proc σ ε lab out α → (ε → Proc σ ε lab out α) → Proc σ ε lab out α
  | ret a, _ => ret a
  | fail e, h => h e
  | act l x k, h => act l x fun b => (k b).tryCatch h
  | send m k, h => send m (k.tryCatch h)

instance : MonadExceptOf ε (Proc σ ε lab out) where
  throw := fail
  tryCatch := Proc.tryCatch

/-- One atomic call. -/
def call (l : lab) (x : Op σ ε α) : Proc σ ε lab out α := act l x ret

/-- One message. -/
def emit (m : out) : Proc σ ε lab out Unit := send m (ret ())

/-- A pure computation that may fail. -/
def ofExcept : Except ε α → Proc σ ε lab out α
  | .ok a => ret a
  | .error e => fail e

instance : MonadLift (Except ε) (Proc σ ε lab out) where
  monadLift := ofExcept

/-! ### How sequences unfold -/

@[simp] theorem ret_bind (a : α) (f : α → Proc σ ε lab out β) : (ret a >>= f) = f a := rfl

@[simp] theorem pure_bind' (a : α) (f : α → Proc σ ε lab out β) :
    ((pure a : Proc σ ε lab out α) >>= f) = f a := rfl

@[simp] theorem fail_bind (e : ε) (f : α → Proc σ ε lab out β) :
    ((fail e : Proc σ ε lab out α) >>= f) = fail e := rfl

@[simp] theorem throw_bind (e : ε) (f : α → Proc σ ε lab out β) :
    ((throw e : Proc σ ε lab out α) >>= f) = fail e := rfl

@[simp] theorem call_bind (l : lab) (x : Op σ ε α) (f : α → Proc σ ε lab out β) :
    (call l x >>= f) = act l x f := rfl

@[simp] theorem emit_bind (m : out) (f : Unit → Proc σ ε lab out β) :
    (emit m >>= f) = send m (f ()) := rfl

@[simp] theorem act_bind {δ : Type} (l : lab) (x : Op σ ε δ) (k : δ → Proc σ ε lab out α)
    (f : α → Proc σ ε lab out β) : (act l x k >>= f) = act l x fun b => k b >>= f := rfl

@[simp] theorem send_bind (m : out) (k : Proc σ ε lab out α) (f : α → Proc σ ε lab out β) :
    (send m k >>= f) = send m (k >>= f) := rfl

@[simp] theorem lift_ok_bind (a : α) (f : α → Proc σ ε lab out β) :
    ((liftM (Except.ok a : Except ε α) : Proc σ ε lab out α) >>= f) = f a := rfl

@[simp] theorem lift_error_bind (e : ε) (f : α → Proc σ ε lab out β) :
    ((liftM (Except.error e : Except ε α) : Proc σ ε lab out α) >>= f) = fail e := rfl

theorem bailIf_bind {c : Prop} [Decidable c] {e : ε} (f : Unit → Proc σ ε lab out β) :
    ((bailIf c e : Proc σ ε lab out Unit) >>= f) = if c then fail e else f () := by
  by_cases h : c <;> simp [bailIf, h]

/-! ## Processes in their surroundings -/

/-- Where a process lives in a larger state: the part it works on, and
what a call, a message and an input leave there. A call is told with
whether it returned. -/
structure Host (σ lab out input γ : Type) where
  view : γ → σ
  act : lab → Bool → σ → γ → γ
  emit : out → γ → γ
  receive : input → γ → γ

/-- The next step of a process, what remains of it, and the state after
the step; none where it has ended. -/
def advance {input : Type} (H : Host σ lab out input γ) :
    Proc σ ε lab out α → γ → Option (Event lab out × Proc σ ε lab out α × γ)
  | ret _, _ | fail _, _ => none
  | act l x k, g =>
    match x.exec (H.view g) with
    | (.ok b, t) => some (.act l, k b, H.act l true t g)
    | (.error e, t) => some (.act l, fail e, H.act l false t g)
  | send m k, g => some (.send m, k, H.emit m g)

/-- What a process may count on, and what it owes. -/
structure Contract (lab out γ : Type) where
  rely : γ → γ → Prop
  assume : Event lab out → γ → Prop
  guarantee : Event lab out → γ → γ → Prop
  rely_refl : ∀ g, rely g g
  rely_trans : ∀ {g h i}, rely g h → rely h i → rely g i

variable {input : Type} (H : Host σ lab out input γ) (C : Contract lab out γ)

/-- The weakest precondition of a process among others. -/
def wp : Proc σ ε lab out α → (Except ε α → γ → Prop) → γ → Prop
  | ret a, Q, g => ∀ h, C.rely g h → Q (.ok a) h
  | fail e, Q, g => ∀ h, C.rely g h → Q (.error e) h
  | act l x k, Q, g => ∀ h, C.rely g h → C.assume (.act l) h →
      match x.exec (H.view h) with
      | (.ok b, t) =>
        C.guarantee (.act l) h (H.act l true t h) ∧ wp (k b) Q (H.act l true t h)
      | (.error e, t) => C.guarantee (.act l) h (H.act l false t h) ∧
          ∀ i, C.rely (H.act l false t h) i → Q (.error e) i
  | send m k, Q, g => ∀ h, C.rely g h → C.assume (.send m) h →
      C.guarantee (.send m) h (H.emit m h) ∧ wp k Q (H.emit m h)

variable {H C} {p : Proc σ ε lab out α} {Q Q' : Except ε α → γ → Prop} {g h : γ}

/-- The others may move. -/
theorem wp_rely (hp : wp H C p Q g) (hr : C.rely g h) : wp H C p Q h := by
  cases p with
  | ret a => exact fun i hi => hp i (C.rely_trans hr hi)
  | fail e => exact fun i hi => hp i (C.rely_trans hr hi)
  | act l x k => exact fun i hi => hp i (C.rely_trans hr hi)
  | send m k => exact fun i hi => hp i (C.rely_trans hr hi)

theorem wp_mono (hQ : ∀ r g, Q r g → Q' r g) (hp : wp H C p Q g) : wp H C p Q' g := by
  induction p generalizing g with
  | ret a => exact fun i hi => hQ _ _ (hp i hi)
  | fail e => exact fun i hi => hQ _ _ (hp i hi)
  | act l x k ih =>
    intro i hi ha
    have := hp i hi ha
    rcases hx : x.exec (H.view i) with ⟨e | b, t⟩ <;> rw [hx] at this
    · exact ⟨this.1, fun j hj => hQ _ _ (this.2 j hj)⟩
    · exact ⟨this.1, ih b this.2⟩
  | send m k ih => exact fun i hi ha => ⟨(hp i hi ha).1, ih (hp i hi ha).2⟩

/-- A call, where it returns and where it fails. -/
theorem wp_act {l : lab} {x : Op σ ε β} {k : β → Proc σ ε lab out α}
    (hreturned : ∀ h b t, C.rely g h → C.assume (.act l) h → x.exec (H.view h) = (.ok b, t) →
      C.guarantee (.act l) h (H.act l true t h) ∧ wp H C (k b) Q (H.act l true t h))
    (hfailed : ∀ h e t, C.rely g h → C.assume (.act l) h → x.exec (H.view h) = (.error e, t) →
      C.guarantee (.act l) h (H.act l false t h) ∧
        ∀ i, C.rely (H.act l false t h) i → Q (.error e) i) :
    wp H C (act l x k) Q g := by
  intro h hr ha
  rcases hx : x.exec (H.view h) with ⟨e | b, t⟩
  · exact hfailed h e t hr ha hx
  · exact hreturned h b t hr ha hx

/-- **A sequence**: its second part starts where the first returned. -/
theorem wp_bind {f : α → Proc σ ε lab out β} {R : Except ε β → γ → Prop}
    (hp : wp H C p (fun r g => match r with
      | .ok a => wp H C (f a) R g
      | .error e => R (.error e) g) g) :
    wp H C (p >>= f) R g := by
  induction p generalizing g with
  | ret a => exact hp g (C.rely_refl g)
  | fail e => exact hp
  | act l x k ih =>
    intro i hi ha
    have := hp i hi ha
    rcases hx : x.exec (H.view i) with ⟨e | b, t⟩ <;> rw [hx] at this
    · exact this
    · exact ⟨this.1, ih b this.2⟩
  | send m k ih => exact fun i hi ha => ⟨(hp i hi ha).1, ih (hp i hi ha).2⟩

/-- **Soundness**: a step the schedule admits keeps the promise, and what
remains still meets its precondition. -/
theorem wp_advance {ev : Event lab out} {p' : Proc σ ε lab out α} (hp : wp H C p Q g)
    (hstep : advance H p g = some (ev, p', h)) (ha : C.assume ev g) :
    C.guarantee ev g h ∧ wp H C p' Q h := by
  cases p with
  | ret a => cases hstep
  | fail e => cases hstep
  | act l x k =>
    rw [advance] at hstep
    rcases hx : x.exec (H.view g) with ⟨e | b, t⟩ <;> rw [hx] at hstep <;> cases hstep
    · have := hp g (C.rely_refl g) ha
      rw [hx] at this
      exact this
    · have := hp g (C.rely_refl g) ha
      rw [hx] at this
      exact this
  | send m k =>
    cases hstep
    exact hp g (C.rely_refl g) ha

/-- A process that has ended has its postcondition. -/
theorem wp_ret {a : α} (hp : wp H C (ret a : Proc σ ε lab out α) Q g) : Q (.ok a) g :=
  hp g (C.rely_refl g)

/-! ## Processes all of whose calls are alike -/

/-- Every call of a process is one that `S` admits. -/
def Each (S : (β : Type) → lab → Op σ ε β → Prop) : Proc σ ε lab out α → Prop
  | ret _ | fail _ => True
  | act l x k => S _ l x ∧ ∀ b, (k b).Each S
  | send _ k => k.Each S

section Each

variable {S : (β : Type) → lab → Op σ ε β → Prop}

theorem Each.bind {f : α → Proc σ ε lab out β} (hp : p.Each S) (hf : ∀ a, (f a).Each S) :
    (p >>= f).Each S := by
  induction p with
  | ret a => exact hf a
  | fail e => trivial
  | act l x k ih => exact ⟨hp.1, fun b => ih b (hp.2 b)⟩
  | send m k ih => exact ih hp

theorem Each.mono {S' : (β : Type) → lab → Op σ ε β → Prop}
    (h : ∀ β l (x : Op σ ε β), S β l x → S' β l x) (hp : p.Each S) : p.Each S' := by
  induction p with
  | ret a => trivial
  | fail e => trivial
  | act l x k ih => exact ⟨h _ l x hp.1, fun b => ih b (hp.2 b)⟩
  | send m k ih => exact ih hp

theorem each_call {l : lab} {x : Op σ ε α} (hx : S _ l x) :
    (call l x : Proc σ ε lab out α).Each S :=
  ⟨hx, fun _ => trivial⟩

theorem each_emit (m : out) : (emit m : Proc σ ε lab out Unit).Each S := trivial

theorem each_except (r : Except ε α) : (liftM r : Proc σ ε lab out α).Each S := by
  cases r <;> trivial

theorem each_bailIf {c : Prop} [Decidable c] {e : ε} :
    (bailIf c e : Proc σ ε lab out Unit).Each S := by
  by_cases h : c <;> simp only [bailIf, h] <;> trivial

theorem each_any (p : Proc σ ε lab out α) : p.Each fun _ _ _ => True := by
  induction p with
  | ret a => trivial
  | fail e => trivial
  | act l x k ih => exact ⟨trivial, ih⟩
  | send m k ih => exact ih

/-- Every message of a process is one that `P` admits. -/
def Sends (P : out → Prop) : Proc σ ε lab out α → Prop
  | ret _ | fail _ => True
  | act _ _ k => ∀ b, (k b).Sends P
  | send m k => P m ∧ k.Sends P

theorem Sends.bind {P : out → Prop} {f : α → Proc σ ε lab out β} (hp : p.Sends P)
    (hf : ∀ a, (f a).Sends P) : (p >>= f).Sends P := by
  induction p with
  | ret a => exact hf a
  | fail e => trivial
  | act l x k ih => exact fun b => ih b (hp b)
  | send m k ih => exact ⟨hp.1, ih hp.2⟩

theorem sends_except {P : out → Prop} (r : Except ε α) :
    (liftM r : Proc σ ε lab out α).Sends P := by
  cases r <;> trivial

theorem sends_bailIf {P : out → Prop} {c : Prop} [Decidable c] {e : ε} :
    (bailIf c e : Proc σ ε lab out Unit).Sends P := by
  by_cases h : c <;> simp only [bailIf, h] <;> trivial

theorem sends_any (p : Proc σ ε lab out α) : p.Sends fun _ => True := by
  induction p with
  | ret a => trivial
  | fail e => trivial
  | act l x k ih => exact ih
  | send m k ih => exact ⟨trivial, ih⟩

/-- **What the calls keep, and the messages, the process does.** -/
theorem wp_each_sends {P : out → Prop} {I : γ → Prop} (hp : p.Each S) (hsends : p.Sends P)
    (hrely : ∀ g h, I g → C.rely g h → I h)
    (hact : ∀ (β : Type) l (x : Op σ ε β) g, S β l x → I g →
      let h := H.act l (x.exec (H.view g)).1.isOk (x.exec (H.view g)).2 g
      C.guarantee (.act l) g h ∧ I h)
    (hsend : ∀ m g, P m → I g → C.guarantee (.send m) g (H.emit m g) ∧ I (H.emit m g))
    (hI : I g) : wp H C p (fun _ g => I g) g := by
  induction p generalizing g with
  | ret a => exact fun i hi => hrely g i hI hi
  | fail e => exact fun i hi => hrely g i hI hi
  | act l x k ih =>
    intro i hi _
    have hstep := hact _ l x i hp.1 (hrely g i hI hi)
    rcases hx : x.exec (H.view i) with ⟨e | b, t⟩ <;> rw [hx] at hstep
    · exact ⟨hstep.1, fun j hj => hrely _ j hstep.2 hj⟩
    · exact ⟨hstep.1, ih b (hp.2 b) (hsends b) hstep.2⟩
  | send m k ih =>
    intro i hi _
    obtain ⟨hG, hI'⟩ := hsend m i hsends.1 (hrely g i hI hi)
    exact ⟨hG, ih hp hsends.2 hI'⟩

/-- **What the calls keep, the process does.** -/
theorem wp_each {I : γ → Prop} (hp : p.Each S) (hrely : ∀ g h, I g → C.rely g h → I h)
    (hact : ∀ (β : Type) l (x : Op σ ε β) g, S β l x → I g →
      let h := H.act l (x.exec (H.view g)).1.isOk (x.exec (H.view g)).2 g
      C.guarantee (.act l) g h ∧ I h)
    (hsend : ∀ m g, I g → C.guarantee (.send m) g (H.emit m g) ∧ I (H.emit m g)) (hI : I g) :
    wp H C p (fun _ g => I g) g :=
  wp_each_sends hp (sends_any p) hrely hact (fun m g _ => hsend m g) hI

/-- Every result of a process is one that `P` admits. -/
def Returns (P : α → Prop) : Proc σ ε lab out α → Prop
  | ret a => P a
  | fail _ => True
  | act _ _ k => ∀ b, (k b).Returns P
  | send _ k => k.Returns P

theorem Returns.bind {P : β → Prop} {f : α → Proc σ ε lab out β}
    (hf : ∀ a, (f a).Returns P) : (p >>= f).Returns P := by
  induction p with
  | ret a => exact hf a
  | fail e => trivial
  | act l x k ih => exact ih
  | send m k ih => exact ih

theorem wp_returns {P : α → Prop} (hp : wp H C p Q g) (hreturns : p.Returns P) :
    wp H C p (fun r h => Q r h ∧ ∀ a, r = .ok a → P a) g := by
  induction p generalizing g with
  | ret a =>
    refine fun h hr => ⟨hp h hr, ?_⟩
    rintro _ ⟨⟩
    exact hreturns
  | fail e =>
    refine fun h hr => ⟨hp h hr, ?_⟩
    rintro _ ⟨⟩
  | act l x k ih =>
    intro i hi ha
    have hstep := hp i hi ha
    rcases hx : x.exec (H.view i) with ⟨e | b, t⟩ <;> rw [hx] at hstep
    · refine ⟨hstep.1, fun j hj => ⟨hstep.2 j hj, ?_⟩⟩
      rintro _ ⟨⟩
    · exact ⟨hstep.1, ih b hstep.2 (hreturns b)⟩
  | send m k ih => exact fun i hi ha => ⟨(hp i hi ha).1, ih (hp i hi ha).2 hreturns⟩

end Each

/-! ## Results

What a process may end with, whatever others write between its steps. -/

/-- A process that may end so, whatever it is answered. -/
inductive Ends : Proc σ ε lab out α → Except ε α → Prop
  | ret (a : α) : Ends (ret a) (.ok a)
  | fail (e : ε) : Ends (fail e) (.error e)
  | act {δ : Type} {l : lab} {x : Op σ ε δ} {k : δ → Proc σ ε lab out α} {s t : σ} {b : δ}
      {r : Except ε α} : x.exec s = (.ok b, t) → Ends (k b) r → Ends (act l x k) r
  | stop {δ : Type} {l : lab} {x : Op σ ε δ} {k : δ → Proc σ ε lab out α} {s t : σ} {e : ε} :
      x.exec s = (.error e, t) → Ends (act l x k) (.error e)
  | send {m : out} {k : Proc σ ε lab out α} {r : Except ε α} : Ends k r → Ends (send m k) r

/-- A sequence that ends well did so through its first part. -/
theorem ends_bind {f : α → Proc σ ε lab out β} {b : β} (h : Ends (p >>= f) (.ok b)) :
    ∃ a, Ends p (.ok a) ∧ Ends (f a) (.ok b) := by
  induction p with
  | ret a => exact ⟨a, .ret a, h⟩
  | fail e => cases h
  | act l x k ih =>
    cases h with
    | act hx hk =>
      obtain ⟨a, ha, hb⟩ := ih _ hk
      exact ⟨a, .act hx ha, hb⟩
  | send m k ih =>
    cases h with
    | send hk =>
      obtain ⟨a, ha, hb⟩ := ih hk
      exact ⟨a, .send ha, hb⟩

theorem ends_except {r : Except ε α} {a : α} :
    Ends (liftM r : Proc σ ε lab out α) (.ok a) ↔ r = .ok a := by
  cases r with
  | error e =>
    constructor
    · intro h
      cases h
    · intro h
      cases h
  | ok b =>
    constructor
    · intro h
      cases h
      rfl
    · rintro ⟨⟩
      exact .ret a

/-! ## Sessions

A session is a task that waits for input at one of a number of points,
and runs a process from there to the next. -/

section Session

variable (H) (rely : γ → γ → Prop) (assume : Event lab out → γ → Prop)
  (resume : α → input → Proc σ ε lab out α)

/-- One step of a session among others: the others move, the process
advances, or the session is given what it waits for. -/
inductive SessionStep : γ × Proc σ ε lab out α → Option (Event lab out) →
    γ × Proc σ ε lab out α → Prop
  | others {g₁ g₂ : γ} {q : Proc σ ε lab out α} : rely g₁ g₂ →
      SessionStep (g₁, q) none (g₂, q)
  | advance {g₁ g₂ : γ} {q q' : Proc σ ε lab out α} {ev : Event lab out} :
      q.advance H g₁ = some (ev, q', g₂) → assume ev g₁ →
      SessionStep (g₁, q) (some ev) (g₂, q')
  | receive {g₁ : γ} {a : α} (i : input) :
      SessionStep (g₁, ret a) none (H.receive i g₁, resume a i)

variable {H rely assume resume} {Inv : Except ε α → γ → Prop}

/-- The others may be allowed more. -/
theorem SessionStep.mono {rely' : γ → γ → Prop} (hrely : ∀ g h, rely g h → rely' g h)
    {s t : γ × Proc σ ε lab out α} {ev : Option (Event lab out)}
    (hstep : SessionStep H rely assume resume s ev t) :
    SessionStep H rely' assume resume s ev t := by
  cases hstep with
  | others hr => exact .others (hrely _ _ hr)
  | advance hadv ha => exact .advance hadv ha
  | receive i => exact .receive i

theorem wp_sessionStep
    (hresume : ∀ a i g, Inv (.ok a) g → wp H C (resume a i) Inv (H.receive i g))
    {s t : γ × Proc σ ε lab out α} {ev : Option (Event lab out)}
    (hstep : SessionStep H C.rely C.assume resume s ev t) (hs : wp H C s.2 Inv s.1) :
    wp H C t.2 Inv t.1 ∧ ∀ e ∈ ev, C.guarantee e s.1 t.1 := by
  cases hstep with
  | others hr => exact ⟨wp_rely hs hr, by simp⟩
  | advance hadv ha =>
    obtain ⟨hg, hp⟩ := wp_advance hs hadv ha
    exact ⟨hp, by simpa using hg⟩
  | receive i => exact ⟨hresume _ i _ (wp_ret hs), by simp⟩

/-- **Over a whole run**: the precondition is kept, and with it whatever
every promise, every move of the others and every input keeps. -/
theorem wp_sessionRun {I : γ → Prop}
    (hresume : ∀ a i g, Inv (.ok a) g → wp H C (resume a i) Inv (H.receive i g))
    (hrely : ∀ g h, I g → C.rely g h → I h) (hreceive : ∀ i g, I g → I (H.receive i g))
    (hguarantee : ∀ ev g h, I g → C.guarantee ev g h → I h)
    {s t : γ × Proc σ ε lab out α} {evs : List (Option (Event lab out))}
    (hrun : Run (SessionStep H C.rely C.assume resume) s evs t) (hs : wp H C s.2 Inv s.1) (hI : I s.1) :
    wp H C t.2 Inv t.1 ∧ I t.1 := by
  refine hrun.invariant (I := fun s => wp H C s.2 Inv s.1 ∧ I s.1) ?_ ⟨hs, hI⟩
  rintro s ev t ⟨hwp, hI⟩ hstep
  obtain ⟨hwp', hg⟩ := wp_sessionStep hresume hstep hwp
  refine ⟨hwp', ?_⟩
  cases hstep with
  | others hr => exact hrely _ _ hI hr
  | advance _ _ => exact hguarantee _ _ _ hI (hg _ rfl)
  | receive i => exact hreceive i _ hI

end Session

/-! ## Transcripts -/

/-- What a session did or was given. -/
inductive Entry (lab out input : Type)
  | act (l : lab) (returned : Bool)
  | send (m : out)
  | receive (i : input)

/-- A process that works on the state itself, with a record of what it
did. -/
def transcript : Host σ lab out input (σ × List (Entry lab out input)) where
  view := Prod.fst
  act l returned s g := (s, g.2 ++ [.act l returned])
  emit m g := (g.1, g.2 ++ [.send m])
  receive i g := (g.1, g.2 ++ [.receive i])

/-- The others may do anything but write the record. -/
def Unrecorded (g h : σ × List (Entry lab out input)) : Prop := h.2 = g.2

/-- A session's steps, on a state that the others may write as they
like, and with a record. -/
abbrev Recording (resume : α → input → Proc σ ε lab out α) :=
  SessionStep transcript Unrecorded (fun _ _ => True) resume

/-- What a process does with nobody in between: what it records, its
result, and the state it leaves. -/
inductive Alone : Proc σ ε lab out α → σ → List (Entry lab out input) → Except ε α → σ → Prop
  | ret (a : α) (s : σ) : Alone (ret a) s [] (.ok a) s
  | fail (e : ε) (s : σ) : Alone (fail e) s [] (.error e) s
  | act {β : Type} {l : lab} {x : Op σ ε β} {k : β → Proc σ ε lab out α} {s t u : σ} {b : β}
      {es : List (Entry lab out input)} {r : Except ε α} :
      x.exec s = (.ok b, t) → Alone (k b) t es r u → Alone (act l x k) s (.act l true :: es) r u
  | stop {β : Type} {l : lab} {x : Op σ ε β} {k : β → Proc σ ε lab out α} {s t : σ} {e : ε} :
      x.exec s = (.error e, t) → Alone (act l x k) s [.act l false] (.error e) t
  | send {m : out} {k : Proc σ ε lab out α} {s t : σ} {es : List (Entry lab out input)}
      {r : Except ε α} : Alone k s es r t → Alone (send m k) s (.send m :: es) r t

section Alone

variable {p : Proc σ ε lab out α} {s t u : σ} {es es' : List (Entry lab out input)}

theorem Alone.query {l : lab} {q : Query σ ε β} {k : β → Proc σ ε lab out α} {b : β}
    {r : Except ε α} (hq : q s = .ok b) (hk : Alone (k b) s es r t) :
    Alone (Proc.act l (liftM q) k) s (.act l true :: es) r t :=
  .act (by rw [Op.exec_query, hq]) hk

/-- A run goes on as its process does alone. -/
theorem Alone.run {resume : α → input → Proc σ ε lab out α} {r : Except ε α}
    {s₀ : (σ × List (Entry lab out input)) × Proc σ ε lab out α}
    {evs : List (Option (Event lab out))} {tr : List (Entry lab out input)}
    (h : Alone p s es r t) (hrun : Run (Recording resume) s₀ evs ((s, tr), p)) :
    ∃ evs', Run (Recording resume) s₀ evs' ((t, tr ++ es), ofExcept r) := by
  induction h generalizing tr evs with
  | ret a s => exact ⟨evs, by rw [List.append_nil]; exact hrun⟩
  | fail e s => exact ⟨evs, by rw [List.append_nil]; exact hrun⟩
  | @act _ l x k s t u b es r hx _ ih =>
    have hstep : advance transcript (Proc.act l x k) (s, tr) =
        some (.act l, k b, (t, tr ++ [.act l true])) := by
      rw [advance, show transcript.view (s, tr) = s from rfl, hx]
      rfl
    obtain ⟨evs', hrun'⟩ := ih (hrun.snoc (.advance hstep trivial))
    rw [List.append_assoc] at hrun'
    exact ⟨evs', hrun'⟩
  | @stop _ l x k s t e hx =>
    have hstep : advance transcript (Proc.act l x k) (s, tr) =
        some (.act l, Proc.fail e, (t, tr ++ [.act l false])) := by
      rw [advance, show transcript.view (s, tr) = s from rfl, hx]
      rfl
    exact ⟨_, hrun.snoc (.advance hstep trivial)⟩
  | @send m k s t es r _ ih =>
    have hstep : advance transcript (Proc.send m k) (s, tr) =
        some (.send m, k, (s, tr ++ [.send m])) := rfl
    obtain ⟨evs', hrun'⟩ := ih (hrun.snoc (.advance hstep trivial))
    rw [List.append_assoc] at hrun'
    exact ⟨evs', hrun'⟩

/-- A run goes on with an input, as the process it resumes does alone. -/
theorem Alone.run_receive {resume : α → input → Proc σ ε lab out α} {a : α} {i : input}
    {r : Except ε α} {s₀ : (σ × List (Entry lab out input)) × Proc σ ε lab out α}
    {evs : List (Option (Event lab out))} {tr : List (Entry lab out input)}
    (h : Alone (resume a i) s es r t) (hrun : Run (Recording resume) s₀ evs ((s, tr), Proc.ret a)) :
    ∃ evs', Run (Recording resume) s₀ evs' ((t, tr ++ [.receive i] ++ es), ofExcept r) :=
  h.run (hrun.snoc (.receive i))

/-- A session runs on through a part of a process as that part does
alone. `K` is what its steps keep of the larger state. -/
theorem Alone.run_host {H : Host σ lab out input γ} {rely : γ → γ → Prop}
    {assume : Event lab out → γ → Prop} {resume : β → input → Proc σ ε lab out β}
    {f : α → Proc σ ε lab out β} {a : α} {K : γ → Prop} {g : γ} {s₀ : γ × Proc σ ε lab out β}
    {evs : List (Option (Event lab out))}
    (hact : ∀ l b s g, K g → K (H.act l b s g) ∧ H.view (H.act l b s g) = s)
    (hemit : ∀ m g, K g → K (H.emit m g) ∧ H.view (H.emit m g) = H.view g)
    (hadmits : ∀ ev g, K g → assume ev g) (h : Alone p s es (.ok a) t) (hK : K g)
    (hview : H.view g = s) (hrun : Run (SessionStep H rely assume resume) s₀ evs (g, p >>= f)) :
    ∃ evs' g', Run (SessionStep H rely assume resume) s₀ evs' (g', f a) ∧ K g' ∧ H.view g' = t := by
  generalize hr : (Except.ok a : Except ε α) = result at h
  induction h generalizing evs g with
  | ret => cases hr; exact ⟨evs, g, hrun, hK, hview⟩
  | fail => cases hr
  | @act _ l x k s t u b es result hx _ ih =>
    have hstep : advance H (Proc.act l x k >>= f) g =
        some (.act l, k b >>= f, H.act l true t g) := by
      rw [act_bind, advance, hview, hx]
    obtain ⟨hK', hview'⟩ := hact l true t g hK
    exact ih hK' hview' (hrun.snoc (.advance hstep (hadmits _ _ hK))) hr
  | stop => cases hr
  | @send m k s t es result _ ih =>
    have hstep : advance H (Proc.send m k >>= f) g = some (.send m, k >>= f, H.emit m g) := rfl
    obtain ⟨hK', hview'⟩ := hemit m g hK
    exact ih hK' (hview'.trans hview) (hrun.snoc (.advance hstep (hadmits _ _ hK))) hr

end Alone

/-- Every entry is made where `G` admits it. -/
def recorded (G : List (Entry lab out input) → Entry lab out input → Prop) :
    Contract lab out (σ × List (Entry lab out input)) where
  rely := Unrecorded
  assume _ _ := True
  guarantee _ g h := ∃ e, h.2 = g.2 ++ [e] ∧ G g.2 e
  rely_refl _ := rfl
  rely_trans h₁ h₂ := h₂.trans h₁

/-- Every entry of a record, but what was received, was made where `G`
admits it. -/
def Admitted (G : List (Entry lab out input) → Entry lab out input → Prop)
    (tr : List (Entry lab out input)) : Prop :=
  ∀ before e after, tr = before ++ e :: after → (∃ i, e = .receive i) ∨ G before e

variable {G : List (Entry lab out input) → Entry lab out input → Prop}
  {tr : List (Entry lab out input)} {d : σ}

theorem admitted_nil : Admitted G [] := by
  intro before e after h
  simp at h

theorem Admitted.snoc {e : Entry lab out input} (h : Admitted G tr)
    (he : (∃ i, e = .receive i) ∨ G tr e) : Admitted G (tr ++ [e]) := by
  intro before e' after heq
  rcases List.eq_nil_or_concat after with rfl | ⟨init, last, rfl⟩
  · obtain ⟨rfl, hlast⟩ := List.append_inj' heq rfl
    cases hlast
    exact he
  · rw [List.concat_eq_append, ← List.cons_append, ← List.append_assoc] at heq
    exact h before e' init (List.append_inj' heq rfl).1

/-- What a process records of its step. -/
theorem record_of_advance {s t : σ} {tr' : List (Entry lab out input)} {p q : Proc σ ε lab out α}
    {ev : Event lab out} (hadv : advance transcript p (s, tr) = some (ev, q, (t, tr'))) :
    (∃ l b, ev = .act l ∧ tr' = tr ++ [.act l b]) ∨
      ∃ m, ev = .send m ∧ t = s ∧ tr' = tr ++ [.send m] := by
  cases p with
  | ret a => cases hadv
  | fail e => cases hadv
  | act l x k =>
    rw [advance] at hadv
    rcases hx : x.exec (transcript.view (s, tr)) with ⟨e | b, u⟩ <;> rw [hx] at hadv <;>
      cases hadv
    · exact Or.inl ⟨l, false, rfl, rfl⟩
    · exact Or.inl ⟨l, true, rfl, rfl⟩
  | send m k =>
    cases hadv
    exact Or.inr ⟨m, rfl, rfl, rfl⟩

/-- A step adds at most one entry to the record. -/
theorem record_of_step {resume : α → input → Proc σ ε lab out α} {s t : σ}
    {tr tr' : List (Entry lab out input)} {p q : Proc σ ε lab out α} {ev : Option (Event lab out)}
    (hstep : Recording resume ((s, tr), p) ev ((t, tr'), q)) :
    tr' = tr ∨ ∃ e, tr' = tr ++ [e] := by
  cases hstep with
  | others hr => exact Or.inl hr
  | advance hadv _ =>
    rcases record_of_advance hadv with ⟨l, b, -, htr⟩ | ⟨m, -, -, htr⟩
    · exact Or.inr ⟨_, htr⟩
    · exact Or.inr ⟨_, htr⟩
  | receive i => exact Or.inr ⟨.receive i, rfl⟩

/-- A record only grows. -/
theorem prefix_record {resume : α → input → Proc σ ε lab out α}
    {s t : (σ × List (Entry lab out input)) × Proc σ ε lab out α}
    {evs : List (Option (Event lab out))} (hrun : Run (Recording resume) s evs t) :
    s.1.2 <+: t.1.2 := by
  refine hrun.invariant (I := fun t => s.1.2 <+: t.1.2) ?_ (List.prefix_refl _)
  rintro ⟨⟨u, tr⟩, p⟩ ev ⟨⟨v, tr'⟩, q⟩ hbefore hstep
  rcases record_of_step hstep with rfl | ⟨e, rfl⟩
  · exact hbefore
  · exact hbefore.trans (List.prefix_append _ _)

section Session

variable {resume : α → input → Proc σ ε lab out α}
  {Inv : Except ε α → σ × List (Entry lab out input) → Prop}
  (hresume : ∀ a i g, Inv (.ok a) g →
    wp transcript (recorded G) (resume a i) Inv (transcript.receive i g))

include hresume

/-- What a session records in a step. -/
theorem admitted_of_step {s t : (σ × List (Entry lab out input)) × Proc σ ε lab out α}
    {ev : Option (Event lab out)} (hstep : Recording resume s ev t)
    (hs : wp transcript (recorded G) s.2 Inv s.1) (hadmitted : Admitted G s.1.2) :
    wp transcript (recorded G) t.2 Inv t.1 ∧ Admitted G t.1.2 := by
  obtain ⟨hwp, hguarantee⟩ := wp_sessionStep (C := recorded G) hresume hstep hs
  refine ⟨hwp, ?_⟩
  cases hstep with
  | others hr => exact (show _ = _ from hr) ▸ hadmitted
  | advance _ _ =>
    obtain ⟨e, he, hG⟩ := hguarantee _ rfl
    exact he ▸ hadmitted.snoc (Or.inr hG)
  | receive i => exact hadmitted.snoc (Or.inl ⟨i, rfl⟩)

/-- **What a session records over a whole run.** -/
theorem admitted_of_run {s t : (σ × List (Entry lab out input)) × Proc σ ε lab out α}
    {evs : List (Option (Event lab out))} (hrun : Run (Recording resume) s evs t)
    (hs : wp transcript (recorded G) s.2 Inv s.1) (hnil : s.1.2 = []) :
    wp transcript (recorded G) t.2 Inv t.1 ∧ Admitted G t.1.2 := by
  refine hrun.invariant (I := fun s => wp transcript (recorded G) s.2 Inv s.1 ∧ Admitted G s.1.2)
    ?_ ⟨hs, hnil ▸ admitted_nil⟩
  exact fun s ev t hI hstep => admitted_of_step hresume hstep hI.1 hI.2

end Session

section Recorded

variable {Q : Except ε α → σ × List (Entry lab out input) → Prop}

theorem wp_recorded_ret {a : α} (h : ∀ d, Q (.ok a) (d, tr)) :
    wp transcript (recorded G) (ret a) Q (d, tr) := by
  rintro ⟨s, tr'⟩ hr
  obtain rfl : tr' = tr := hr
  exact h s

theorem wp_recorded_fail {e : ε} (h : ∀ d, Q (.error e) (d, tr)) :
    wp transcript (recorded G) (fail e) Q (d, tr) := by
  rintro ⟨s, tr'⟩ hr
  obtain rfl : tr' = tr := hr
  exact h s

theorem wp_recorded_act {l : lab} {x : Op σ ε β} {k : β → Proc σ ε lab out α}
    (hreturned : ∀ b d, G tr (.act l true) ∧
      wp transcript (recorded G) (k b) Q (d, tr ++ [.act l true]))
    (hfailed : ∀ e d, G tr (.act l false) ∧ Q (.error e) (d, tr ++ [.act l false])) :
    wp transcript (recorded G) (act l x k) Q (d, tr) := by
  rintro ⟨s, tr'⟩ hr -
  obtain rfl : tr' = tr := hr
  rcases hx : x.exec (transcript.view (s, tr')) with ⟨e | b, t⟩
  · refine ⟨⟨_, rfl, (hfailed e t).1⟩, ?_⟩
    rintro ⟨u, tr''⟩ hi
    obtain rfl : tr'' = tr' ++ [Entry.act l false] := hi
    exact (hfailed e u).2
  · obtain ⟨hG, hk⟩ := hreturned b t
    exact ⟨⟨_, rfl, hG⟩, hk⟩

theorem wp_recorded_send {m : out} {k : Proc σ ε lab out α} (hG : G tr (.send m))
    (hk : ∀ d, wp transcript (recorded G) k Q (d, tr ++ [.send m])) :
    wp transcript (recorded G) (send m k) Q (d, tr) := by
  rintro ⟨s, tr'⟩ hr -
  obtain rfl : tr' = tr := hr
  exact ⟨⟨_, rfl, hG⟩, hk s⟩

end Recorded

section Only

variable {S : lab → Prop} {J : List (Entry lab out input) → Prop}
  (hact : ∀ l b tr, S l → J tr → G tr (.act l b) ∧ J (tr ++ [.act l b]))
  (hsend : ∀ m tr, J tr → G tr (.send m) ∧ J (tr ++ [.send m]))

include hact hsend

/-- **A process that makes calls of these names only** keeps what they and
what it sends keep of the record. -/
theorem wp_only (hp : p.Each fun _ l _ => S l) (hJ : J tr) :
    wp transcript (recorded G) p (fun _ g => J g.2) (d, tr) := by
  refine wp_each (I := fun g : σ × List (Entry lab out input) => J g.2) hp
    (fun g h hg hr => ?_) (fun β l x g hl hg => ?_)
    (fun m g hg => ?_) hJ
  · exact (show h.2 = g.2 from hr) ▸ hg
  · obtain ⟨hG, hJ'⟩ := hact l (x.exec (transcript.view g)).1.isOk g.2 hl hg
    exact ⟨⟨_, rfl, hG⟩, hJ'⟩
  · obtain ⟨hG, hJ'⟩ := hsend m g.2 hg
    exact ⟨⟨_, rfl, hG⟩, hJ'⟩

theorem wp_only_bind {f : α → Proc σ ε lab out β}
    {Q : Except ε β → σ × List (Entry lab out input) → Prop} (hp : p.Each fun _ l _ => S l)
    (hf : ∀ a d tr, J tr → wp transcript (recorded G) (f a) Q (d, tr))
    (herr : ∀ e d tr, J tr → Q (.error e) (d, tr)) (hJ : J tr) :
    wp transcript (recorded G) (p >>= f) Q (d, tr) := by
  refine wp_bind (wp_mono ?_ (wp_only hact hsend hp hJ))
  rintro (e | a) ⟨d', tr'⟩ hJ'
  · exact herr e d' tr' hJ'
  · exact hf a d' tr' hJ'

end Only

end Proc

end Embernet
