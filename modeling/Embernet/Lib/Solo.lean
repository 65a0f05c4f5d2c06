import Embernet.Lib.Process
/-!
# Solo — what a process does with nobody in between

On a state that nobody else writes, a process is a function: it sends
messages, ends in a result, and leaves a state. `solo` is that function,
and it unfolds along the sequence. `Alone` is its graph, with the record
of a run.
-/

namespace Embernet

namespace Proc

variable {σ ε lab out α β : Type}

/-- The messages a process sends, its result, and the state it leaves. -/
def solo : Proc σ ε lab out α → σ → List out × Except ε α × σ
  | ret a, s => ([], .ok a, s)
  | fail e, s => ([], .error e, s)
  | act _ x k, s =>
    match x.exec s with
    | (.ok b, t) => (k b).solo t
    | (.error e, t) => ([], .error e, t)
  | send m k, s => (m :: (k.solo s).1, (k.solo s).2)

variable {p : Proc σ ε lab out α} {f : α → Proc σ ε lab out β} {s t u : σ} {ms : List out}
  {a : α} {b : β} {e : ε}

/-! ### Single steps -/

@[simp] theorem solo_ret : (ret a : Proc σ ε lab out α).solo s = ([], .ok a, s) := rfl

@[simp] theorem solo_pure : (pure a : Proc σ ε lab out α).solo s = ([], .ok a, s) := rfl

@[simp] theorem solo_fail : (fail e : Proc σ ε lab out α).solo s = ([], .error e, s) := rfl

@[simp] theorem solo_throw : (throw e : Proc σ ε lab out α).solo s = ([], .error e, s) := rfl

@[simp] theorem solo_emit {m : out} : (emit m : Proc σ ε lab out Unit).solo s = ([m], .ok (), s) :=
  rfl

@[simp] theorem solo_call {l : lab} {x : Op σ ε α} :
    (call l x : Proc σ ε lab out α).solo s = ([], x.exec s) := by
  rw [call, solo]
  rcases x.exec s with ⟨e | a, t⟩ <;> rfl

@[simp] theorem solo_except {r : Except ε α} :
    (liftM r : Proc σ ε lab out α).solo s = ([], r, s) := by
  cases r <;> rfl

@[simp] theorem solo_bailIf {c : Prop} [Decidable c] :
    (bailIf c e : Proc σ ε lab out Unit).solo s = ([], bailIf c e, s) := by
  by_cases h : c <;> simp [bailIf, h] <;> rfl

/-! ### Sequences -/

theorem solo_bind : (p >>= f).solo s =
    match p.solo s with
    | (ms, .ok a, t) => (ms ++ ((f a).solo t).1, ((f a).solo t).2)
    | (ms, .error e, t) => (ms, .error e, t) := by
  induction p generalizing s with
  | ret a => rfl
  | fail e => rfl
  | act l x k ih =>
    change (act l x fun b => k b >>= f).solo s = _
    rw [solo, solo]
    rcases x.exec s with ⟨e | b, t⟩
    · rfl
    · exact ih b
  | send m k ih =>
    change (m :: ((k >>= f).solo s).1, ((k >>= f).solo s).2) = _
    rw [ih, solo]
    rcases k.solo s with ⟨ms, e | a, t⟩ <;> rfl

/-- A sequence whose first part returns. -/
theorem solo_bind_of_ok (h : p.solo s = (ms, .ok a, t)) :
    (p >>= f).solo s = (ms ++ ((f a).solo t).1, ((f a).solo t).2) := by
  rw [solo_bind, h]

/-- A process whose first part fails, fails with it. -/
theorem solo_bind_of_error (h : p.solo s = (ms, .error e, t)) :
    (p >>= f).solo s = (ms, .error e, t) := by
  rw [solo_bind, h]

/-- **A sequence that returned did so through its parts.** -/
theorem solo_bind_ok : (p >>= f).solo s = (ms, .ok b, u) ↔
    ∃ a ms₁ ms₂ t, p.solo s = (ms₁, .ok a, t) ∧ (f a).solo t = (ms₂, .ok b, u) ∧
      ms = ms₁ ++ ms₂ := by
  rcases hp : p.solo s with ⟨ms₁, e | a, t⟩
  · rw [solo_bind_of_error hp]
    simp
  · rw [solo_bind_of_ok hp]
    constructor
    · intro h
      have hrest : ((f a).solo t).2 = (.ok b, u) := congrArg Prod.snd h
      exact ⟨a, ms₁, _, t, rfl, Prod.ext rfl hrest, (congrArg Prod.fst h).symm⟩
    · rintro ⟨_, _, ms₂, _, hp, hf, rfl⟩
      cases hp
      rw [hf]

/-- A call that returns, before the rest. -/
theorem solo_call_bind {l : lab} {x : Op σ ε α} (h : x.exec s = (.ok a, t)) :
    (call l x >>= f).solo s = (f a).solo t := by
  rw [solo_bind_of_ok (solo_call.trans (by rw [h]))]
  rfl

theorem solo_except_bind {r : Except ε α} (h : r = .ok a) :
    ((liftM r : Proc σ ε lab out α) >>= f).solo s = (f a).solo s := by
  rw [solo_bind_of_ok (solo_except.trans (by rw [h]))]
  rfl

theorem solo_bailIf_bind {c : Prop} [Decidable c] {k : Unit → Proc σ ε lab out β} (h : ¬ c) :
    ((bailIf c e : Proc σ ε lab out Unit) >>= k).solo s = (k ()).solo s := by
  rw [bailIf_bind, if_neg h]

theorem solo_emit_bind {m : out} {k : Unit → Proc σ ε lab out β} :
    (emit m >>= k).solo s = (m :: ((k ()).solo s).1, ((k ()).solo s).2) := rfl

/-! ### What a process keeps -/

/-- **What the calls keep of the state, the process does.** -/
theorem solo_keeps {S : (β : Type) → lab → Op σ ε β → Prop} {I : σ → Prop} (hp : p.Each S)
    (hact : ∀ (β : Type) l (x : Op σ ε β), S β l x → Op.Keeps I x) (hI : I s) :
    I (p.solo s).2.2 := by
  induction p generalizing s with
  | ret a => exact hI
  | fail e => exact hI
  | act l x k ih =>
    have hx := hact _ l x hp.1 s hI
    rw [solo]
    rcases hexec : x.exec s with ⟨e | b, t⟩ <;> rw [hexec] at hx
    · exact hx
    · exact ih b (hp.2 b) hx
  | send m k ih => exact ih hp hI

/-! ### What a process sends and returns -/

section Post

variable {Out : out → Prop} {Q R : α → σ → Prop} {Q' : β → σ → Prop}

/-- Alone from the state, the process sends only such messages, and what it
returns, with the state it leaves, meets `Q`. A failure meets any `Q`. -/
def SoloPost (Out : out → Prop) (Q : α → σ → Prop) (p : Proc σ ε lab out α) (s : σ) : Prop :=
  (∀ m ∈ (p.solo s).1, Out m) ∧ ∀ a, (p.solo s).2.1 = .ok a → Q a (p.solo s).2.2

namespace SoloPost

theorem mono (hp : SoloPost Out Q p s) (hQ : ∀ a t, Q a t → R a t) : SoloPost Out R p s :=
  ⟨hp.1, fun a ha => hQ a _ (hp.2 a ha)⟩

/-- **A sequence**: its second part starts where the first returned. -/
theorem bind (hp : SoloPost Out (fun a t => SoloPost Out Q' (f a) t) p s) :
    SoloPost Out Q' (p >>= f) s := by
  obtain ⟨hsent, hreturned⟩ := hp
  rw [SoloPost, solo_bind]
  rcases hsolo : p.solo s with ⟨ms, e | a, t⟩ <;> rw [hsolo] at hsent hreturned
  · refine ⟨hsent, fun b hb => ?_⟩
    cases hb
  · obtain ⟨hsent', hreturned'⟩ := hreturned a rfl
    refine ⟨fun m hm => ?_, hreturned'⟩
    rcases List.mem_append.1 hm with hm | hm
    · exact hsent m hm
    · exact hsent' m hm

theorem fail : SoloPost Out Q (fail e : Proc σ ε lab out α) s := by
  refine ⟨fun m hm => ?_, fun a ha => ?_⟩
  · cases hm
  · cases ha

theorem pure (h : Q a s) : SoloPost Out Q (pure a : Proc σ ε lab out α) s := by
  refine ⟨fun m hm => ?_, fun b hb => ?_⟩
  · cases hm
  · cases hb
    exact h

theorem call {l : lab} {x : Op σ ε α} (h : ∀ a t, x.exec s = (.ok a, t) → Q a t) :
    SoloPost Out Q (call l x : Proc σ ε lab out α) s := by
  rw [SoloPost, solo_call]
  refine ⟨fun m hm => ?_, fun a ha => h a _ (Prod.ext ha rfl)⟩
  cases hm

theorem except {r : Except ε α} (h : ∀ a, r = .ok a → Q a s) :
    SoloPost Out Q (liftM r : Proc σ ε lab out α) s := by
  rw [SoloPost, solo_except]
  refine ⟨fun m hm => ?_, h⟩
  cases hm

theorem emit {Q : Unit → σ → Prop} {m : out} (hm : Out m) (h : Q () s) :
    SoloPost Out Q (emit m : Proc σ ε lab out Unit) s := by
  refine ⟨fun m' hm' => ?_, fun a _ => h⟩
  rw [List.mem_singleton.1 hm']
  exact hm

theorem bailIf {Q : Unit → σ → Prop} {c : Prop} [Decidable c] (h : ¬ c → Q () s) :
    SoloPost Out Q (bailIf c e : Proc σ ε lab out Unit) s := by
  rw [SoloPost, solo_bailIf]
  refine ⟨fun m hm => ?_, fun a ha => h (bailIf_eq_ok.1 ha)⟩
  cases hm

/-- A process that returns nothing that `Q` admits fails. -/
theorem exists_error (hp : SoloPost Out (fun _ _ => False) p s) : ∃ e, (p.solo s).2.1 = .error e := by
  rcases hr : (p.solo s).2.1 with e | a
  · exact ⟨e, rfl⟩
  · exact absurd (hp.2 a hr) id

end SoloPost

end Post

/-! ### The graph -/

variable {input : Type}

/-- The messages of a record. -/
def sent (record : List (Entry lab out input)) : List out :=
  record.filterMap fun
    | .send m => some m
    | _ => none

theorem exists_alone (p : Proc σ ε lab out α) (s : σ) :
    ∃ record : List (Entry lab out input), sent record = (p.solo s).1 ∧
      Alone p s record (p.solo s).2.1 (p.solo s).2.2 := by
  induction p generalizing s with
  | ret a => exact ⟨[], rfl, .ret a s⟩
  | fail e => exact ⟨[], rfl, .fail e s⟩
  | act l x k ih =>
    rcases hx : x.exec s with ⟨e | b, t⟩
    · refine ⟨[.act l false], ?_, ?_⟩ <;> rw [solo, hx]
      · rfl
      · exact .stop hx
    · obtain ⟨record, hsent, halone⟩ := ih b t
      refine ⟨.act l true :: record, ?_, ?_⟩ <;> rw [solo, hx]
      · exact hsent
      · exact .act hx halone
  | send m k ih =>
    obtain ⟨record, hsent, halone⟩ := ih s
    exact ⟨.send m :: record, congrArg (m :: ·) hsent, .send halone⟩

end Proc

end Embernet
