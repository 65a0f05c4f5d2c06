import Mathlib.Data.List.Forall2
/-!
# Operations — reads, writes and failures on one state

A `Query` reads a state and may fail; an `Op` may also change it, and a
failing operation leaves the state as it was when it failed. The rules
below split a sequence where it is bound: an operation that returned did
so through each of its parts, and one that failed kept what the parts
before the failure had written.
-/

namespace Embernet

/-- A read that may fail. -/
abbrev Query (σ ε : Type) := ReaderT σ (Except ε)

/-- An operation on a state, which a failure does not undo. -/
abbrev Op (σ ε : Type) := ExceptT ε (StateM σ)

/-- The outcome of an operation, and the state after it. -/
def Op.exec {σ ε α : Type} (x : Op σ ε α) (s : σ) : Except ε α × σ := x s

/-- Reads are operations. -/
instance {σ ε : Type} : MonadLift (Query σ ε) (Op σ ε) where
  monadLift q := fun s => (q s, s)

/-- So are pure computations that may fail, of either. -/
instance {σ ε : Type} : MonadLift (Except ε) (Op σ ε) where
  monadLift r := fun s => (r, s)

instance {σ ε : Type} : MonadLift (Except ε) (Query σ ε) where
  monadLift r := fun _ => r

/-- `if condition { bail!(…) }`. -/
def bailIf.{u} {m : Type → Type u} {ε : Type} [Monad m] [MonadExcept ε m] (condition : Prop)
    [Decidable condition] (e : ε) : m Unit :=
  if condition then throw e else pure ()

/-- `option.context(…)?`. -/
def orBail.{u} {m : Type → Type u} {ε α : Type} [Monad m] [MonadExcept ε m] (e : ε) :
    Option α → m α
  | none => throw e
  | some a => pure a

variable {σ ε α β : Type}

/-! ## Pure computations -/

theorem bind_eq_ok {x : Except ε α} {f : α → Except ε β} {b : β} :
    x >>= f = .ok b ↔ ∃ a, x = .ok a ∧ f a = .ok b := by
  cases x <;> simp [bind, Except.bind]

theorem map_eq_ok {x : Except ε α} {f : α → β} {b : β} :
    f <$> x = .ok b ↔ ∃ a, x = .ok a ∧ f a = b := by
  cases x <;> simp [Functor.map, Except.map]

@[simp] theorem bailIf_eq_ok {c : Prop} [Decidable c] {e : ε} {u : Unit} :
    (bailIf c e : Except ε Unit) = .ok u ↔ ¬ c := by
  by_cases h : c <;> simp [bailIf, h, pure, Except.pure, throw, throwThe, MonadExceptOf.throw]

@[simp] theorem orBail_eq_ok {e : ε} {o : Option α} {a : α} :
    (orBail e o : Except ε α) = .ok a ↔ o = some a := by
  cases o <;> simp [orBail, pure, Except.pure, throw, throwThe, MonadExceptOf.throw]

@[simp] theorem pure_eq_ok {a b : α} : (pure a : Except ε α) = .ok b ↔ a = b := by
  simp [pure, Except.pure]

/-- A computation on every element of a list. -/
theorem mapM_ok_iff {f : α → Except ε β} {xs : List α} {ys : List β} :
    xs.mapM f = .ok ys ↔ List.Forall₂ (fun x y => f x = .ok y) xs ys := by
  induction xs generalizing ys with
  | nil => rw [List.mapM_nil, pure_eq_ok, List.forall₂_nil_left_iff, eq_comm]
  | cons x xs ih =>
    simp only [List.mapM_cons, bind_eq_ok, pure_eq_ok, List.forall₂_cons_left_iff, ih]
    constructor
    · rintro ⟨y, hy, ys, hys, rfl⟩
      exact ⟨y, ys, hy, hys, rfl⟩
    · rintro ⟨y, ys, hy, hys, rfl⟩
      exact ⟨y, hy, ys, hys, rfl⟩

/-- It returns exactly if it does on each. -/
theorem exists_mapM_ok_iff {f : α → Except ε β} {xs : List α} :
    (∃ ys, xs.mapM f = .ok ys) ↔ ∀ x ∈ xs, ∃ y, f x = .ok y := by
  induction xs with
  | nil => exact ⟨fun _ _ hx => (nomatch hx), fun _ => ⟨[], rfl⟩⟩
  | cons x xs ih =>
    simp only [List.mapM_cons, bind_eq_ok, pure_eq_ok, List.forall_mem_cons, ← ih]
    constructor
    · rintro ⟨_, y, hy, ys, hys, rfl⟩
      exact ⟨⟨y, hy⟩, ys, hys⟩
    · rintro ⟨⟨y, hy⟩, ys, hys⟩
      exact ⟨_, y, hy, ys, hys, rfl⟩

theorem mapM_congr {f g : α → Except ε β} {xs : List α} (h : ∀ x ∈ xs, f x = g x) :
    xs.mapM f = xs.mapM g := by
  induction xs with
  | nil => rfl
  | cons x xs ih =>
    rw [List.mapM_cons, List.mapM_cons, h x List.mem_cons_self,
      ih fun y hy => h y (List.mem_cons_of_mem _ hy)]

/-- What is kept of a list returns exactly if each of its elements does. -/
theorem exists_filterMapM_ok_iff {f : α → Except ε (Option β)} {xs : List α} :
    (∃ ys, xs.filterMapM f = .ok ys) ↔ ∀ x ∈ xs, ∃ o, f x = .ok o := by
  induction xs with
  | nil => exact iff_of_true ⟨[], rfl⟩ fun _ h => nomatch h
  | cons x xs ih =>
    rw [List.forall_mem_cons, ← ih, List.filterMapM_cons]
    constructor
    · rintro ⟨ys, h⟩
      obtain ⟨_ | y, ho, hrest⟩ := bind_eq_ok.1 h
      · exact ⟨⟨_, ho⟩, ys, hrest⟩
      · obtain ⟨ys', hrest, -⟩ := bind_eq_ok.1 hrest
        exact ⟨⟨_, ho⟩, ys', hrest⟩
    · rintro ⟨⟨_ | y, ho⟩, ys, hrest⟩
      · exact ⟨ys, bind_eq_ok.2 ⟨_, ho, hrest⟩⟩
      · exact ⟨y :: ys, bind_eq_ok.2 ⟨_, ho, bind_eq_ok.2 ⟨ys, hrest, rfl⟩⟩⟩

/-- What a filter returns is what it keeps of some member. -/
theorem mem_of_filterMapM {f : α → Except ε (Option β)} {xs : List α} {ys : List β}
    (h : xs.filterMapM f = .ok ys) {y : β} : y ∈ ys ↔ ∃ x ∈ xs, f x = .ok (some y) := by
  induction xs generalizing ys with
  | nil =>
    cases h
    simp
  | cons x xs ih =>
    rw [List.filterMapM_cons] at h
    simp only [List.mem_cons, exists_eq_or_imp]
    obtain ⟨_ | z, ho, hrest⟩ := bind_eq_ok.1 h
    · simp [ih hrest, ho]
    · have hrest : (xs.filterMapM f >>= fun ys' => pure (z :: ys')) = .ok ys := hrest
      obtain ⟨ys', hys', hys⟩ := bind_eq_ok.1 hrest
      rw [← pure_eq_ok.1 hys, List.mem_cons, ih hys', ho]
      simp [eq_comm]

/-- What comes second in a pair of the lists. -/
theorem exists_of_forall₂_right {R : α → β → Prop} {xs : List α} {ys : List β}
    (h : List.Forall₂ R xs ys) {y : β} (hy : y ∈ ys) : ∃ x ∈ xs, R x y := by
  induction h with
  | nil => cases hy
  | cons hxy _ ih =>
    rcases List.mem_cons.1 hy with rfl | hy
    · exact ⟨_, List.mem_cons_self, hxy⟩
    · obtain ⟨x, hx, hxy⟩ := ih hy
      exact ⟨x, List.mem_cons_of_mem _ hx, hxy⟩

/-! ## Reads -/

namespace Query

variable {q : Query σ ε α} {f : α → Query σ ε β} {s : σ} {b : β}

theorem bind_apply : (q >>= f) s = (q s >>= fun a => f a s) := rfl

theorem bind_ok : (q >>= f) s = .ok b ↔ ∃ a, q s = .ok a ∧ f a s = .ok b := by
  rw [bind_apply, bind_eq_ok]

@[simp] theorem pure_apply (a : α) : (pure a : Query σ ε α) s = .ok a := rfl

@[simp] theorem throw_apply (e : ε) : (throw e : Query σ ε α) s = .error e := rfl

@[simp] theorem read_apply : (read : Query σ ε σ) s = .ok s := rfl

@[simp] theorem lift_apply (r : Except ε α) : (liftM r : Query σ ε α) s = r := rfl

@[simp] theorem monadLift_apply (r : Except ε α) : (monadLift r : Query σ ε α) s = r := rfl

theorem mapM_apply {g : α → Query σ ε β} {xs : List α} :
    (xs.mapM g) s = xs.mapM fun x => g x s := by
  induction xs with
  | nil => rfl
  | cons x xs ih =>
    rw [List.mapM_cons, List.mapM_cons, bind_apply]
    congr 1
    funext y
    rw [bind_apply, ih]
    rfl

@[simp] theorem bailIf_apply {c : Prop} [Decidable c] {e : ε} :
    (bailIf c e : Query σ ε Unit) s = bailIf c e := by
  by_cases h : c <;> simp [bailIf, h] <;> rfl

@[simp] theorem orBail_apply {e : ε} {o : Option α} :
    (orBail e o : Query σ ε α) s = orBail e o := by
  cases o <;> rfl

end Query

/-! ## Operations -/

namespace Op

variable {x : Op σ ε α} {f : α → Op σ ε β} {s t : σ} {b : β} {e : ε}

theorem exec_bind : (x >>= f).exec s =
    match x.exec s with
    | (.ok a, t) => (f a).exec t
    | (.error e, t) => (.error e, t) := by
  rcases h : x s with ⟨e | a, u⟩
  · simp only [exec, bind, ExceptT.bind, ExceptT.bindCont, ExceptT.mk, StateT.bind, h]
    rfl
  · simp only [exec, bind, ExceptT.bind, ExceptT.bindCont, ExceptT.mk, StateT.bind, h]

@[simp] theorem exec_pure (a : α) : (pure a : Op σ ε α).exec s = (.ok a, s) := rfl

@[simp] theorem exec_throw : (throw e : Op σ ε α).exec s = (.error e, s) := rfl

@[simp] theorem exec_query (q : Query σ ε α) : (liftM q : Op σ ε α).exec s = (q s, s) := rfl

@[simp] theorem exec_monadLift (q : Query σ ε α) :
    (monadLift q : Op σ ε α).exec s = (q s, s) := rfl

@[simp] theorem exec_except (r : Except ε α) : (liftM r : Op σ ε α).exec s = (r, s) := rfl

@[simp] theorem exec_get : (get : Op σ ε σ).exec s = (.ok s, s) := rfl

@[simp] theorem exec_set : (set t : Op σ ε PUnit).exec s = (.ok ⟨⟩, t) := rfl

@[simp] theorem exec_modify (g : σ → σ) : (modify g : Op σ ε PUnit).exec s = (.ok ⟨⟩, g s) := rfl

@[simp] theorem exec_bailIf {c : Prop} [Decidable c] :
    (bailIf c e : Op σ ε Unit).exec s = (bailIf c e, s) := by
  by_cases h : c <;> simp [bailIf, h] <;> rfl

@[simp] theorem exec_orBail {o : Option α} :
    (orBail e o : Op σ ε α).exec s = (orBail e o, s) := by
  cases o <;> rfl

/-- **A sequence that returned did so through its parts.** -/
theorem exec_bind_ok : (x >>= f).exec s = (.ok b, t) ↔
    ∃ a u, x.exec s = (.ok a, u) ∧ (f a).exec u = (.ok b, t) := by
  rw [exec_bind]
  rcases x.exec s with ⟨_ | a, u⟩
  · simp
  · exact ⟨fun h => ⟨a, u, rfl, h⟩, fun ⟨_, _, h, hf⟩ => by cases h; exact hf⟩

/-- A read before the rest: it fails and nothing is written, or the rest
runs from the same state. -/
theorem exec_query_bind {q : Query σ ε α} :
    ((liftM q : Op σ ε α) >>= f).exec s =
      match q s with
      | .ok a => (f a).exec s
      | .error e => (.error e, s) := by
  rw [exec_bind, exec_query]
  cases q s <;> rfl

theorem exec_except_bind {r : Except ε α} :
    ((liftM r : Op σ ε α) >>= f).exec s =
      match r with
      | .ok a => (f a).exec s
      | .error e => (.error e, s) := by
  rw [exec_bind, exec_except]
  cases r <;> rfl

theorem exec_bailIf_bind {c : Prop} [Decidable c] {k : Unit → Op σ ε β} :
    ((bailIf c e : Op σ ε Unit) >>= k).exec s =
      if c then (.error e, s) else (k ()).exec s := by
  by_cases h : c <;> simp only [bailIf, h, if_true, if_false] <;> rfl

theorem exec_orBail_bind {o : Option α} :
    ((orBail e o : Op σ ε α) >>= f).exec s =
      match o with
      | some a => (f a).exec s
      | none => (.error e, s) := by
  cases o <;> rfl

/-- A step that is known to return. -/
theorem exec_bind_of_ok {a : α} (h : x.exec s = (.ok a, t)) :
    (x >>= f).exec s = (f a).exec t := by rw [exec_bind, h]

theorem exec_bind_of_error (h : x.exec s = (.error e, t)) :
    (x >>= f).exec s = (.error e, t) := by rw [exec_bind, h]

/-- A result that is only written otherwise. -/
theorem exec_bind_pure_snd (g : α → β) :
    ((x >>= fun a => pure (g a)).exec s).2 = (x.exec s).2 := by
  rw [exec_bind]
  rcases x.exec s with ⟨_ | _, _⟩ <;> rfl

/-! ## What an operation keeps -/

/-- The operation keeps `I`, whether it returns or fails. -/
def Keeps (I : σ → Prop) (x : Op σ ε α) : Prop := ∀ s, I s → I (x.exec s).2

namespace Keeps

variable {I : σ → Prop}

/-- **What both parts keep, the sequence does.** -/
theorem bind (hx : Keeps I x) (hf : ∀ a, Keeps I (f a)) : Keeps I (x >>= f) := by
  intro s hs
  have h1 := hx s hs
  rw [exec_bind]
  rcases hxs : x.exec s with ⟨_ | a, u⟩
  · rw [hxs] at h1
    exact h1
  · rw [hxs] at h1
    exact hf a u h1

theorem pure (a : α) : Keeps I (pure a : Op σ ε α) := fun _ h => h

theorem throw (e : ε) : Keeps I (throw e : Op σ ε α) := fun _ h => h

theorem query (q : Query σ ε α) : Keeps I (liftM q : Op σ ε α) := fun _ h => h

theorem except (r : Except ε α) : Keeps I (liftM r : Op σ ε α) := fun _ h => h

theorem bailIf {c : Prop} [Decidable c] {e : ε} : Keeps I (bailIf c e : Op σ ε Unit) := by
  intro s h
  rwa [exec_bailIf]

theorem orBail {o : Option α} {e : ε} : Keeps I (orBail e o : Op σ ε α) := by
  intro s h
  rwa [exec_orBail]

theorem ite {c : Prop} [Decidable c] {x y : Op σ ε α} (hx : Keeps I x) (hy : Keeps I y) :
    Keeps I (if c then x else y) := by
  split
  · exact hx
  · exact hy

theorem mapM {g : β → Op σ ε α} {xs : List β} (hg : ∀ x, Keeps I (g x)) : Keeps I (xs.mapM g) := by
  induction xs with
  | nil => exact pure _
  | cons x xs ih =>
    rw [List.mapM_cons]
    exact (hg x).bind fun _ => ih.bind fun _ => pure _

/-- A read before the rest, of what the state holds. -/
theorem query_bind {q : Query σ ε α} (hf : ∀ s a, I s → q s = .ok a → I ((f a).exec s).2) :
    Keeps I ((liftM q : Op σ ε α) >>= f) := by
  intro s hs
  rw [exec_query_bind]
  cases hq : q s with
  | error e => exact hs
  | ok a => exact hf s a hs hq

end Keeps

/-- The operation leaves a state with `P`, whether it returns or fails. -/
def Leaves (x : Op σ ε α) (s : σ) (P : σ → Prop) : Prop := P (x.exec s).2

namespace Leaves

variable {I P : σ → Prop}

theorem of_keeps (hx : Keeps I x) (hs : I s) (hP : ∀ t, I t → P t) : Leaves x s P := hP _ (hx s hs)

/-- A first part that keeps what holds. -/
theorem bind (hx : Keeps I x) (hs : I s) (herr : ∀ t, I t → P t)
    (hf : ∀ a t, I t → Leaves (f a) t P) : Leaves (x >>= f) s P := by
  have ht := hx s hs
  rw [Leaves, exec_bind]
  rcases hexec : x.exec s with ⟨e | a, t⟩
  · rw [hexec] at ht
    exact herr t ht
  · rw [hexec] at ht
    exact hf a t ht

/-- What the first part leaves, and the rest keeps. -/
theorem then_keeps (hx : Leaves x s P) (hf : ∀ a, Keeps P (f a)) : Leaves (x >>= f) s P := by
  rw [Leaves, exec_bind]
  rw [Leaves] at hx
  rcases hexec : x.exec s with ⟨e | a, t⟩
  · rwa [hexec] at hx
  · rw [hexec] at hx
    exact hf a t hx

end Leaves

/-! ## What an operation ends in -/

/-- The operation fails and writes nothing, or it ends in `P`. -/
def FailsOr (x : Op σ ε α) (s : σ) (P : Except ε α × σ → Prop) : Prop :=
  (∃ e, x.exec s = (.error e, s)) ∨ P (x.exec s)

namespace FailsOr

variable {P : Except ε β × σ → Prop}

theorem query {q : Query σ ε α} (hf : ∀ a, q s = .ok a → FailsOr (f a) s P) :
    FailsOr ((liftM q : Op σ ε α) >>= f) s P := by
  rw [FailsOr, exec_query_bind]
  cases hq : q s with
  | error e => exact Or.inl ⟨e, rfl⟩
  | ok a => exact hf a hq

theorem except {r : Except ε α} (hf : ∀ a, r = .ok a → FailsOr (f a) s P) :
    FailsOr ((liftM r : Op σ ε α) >>= f) s P := by
  rw [FailsOr, exec_except_bind]
  cases hr : r with
  | error e => exact Or.inl ⟨e, rfl⟩
  | ok a => exact hf a hr

theorem bailIf {c : Prop} [Decidable c] {k : Unit → Op σ ε β}
    (hk : ¬ c → FailsOr (k ()) s P) : FailsOr ((bailIf c e : Op σ ε Unit) >>= k) s P := by
  rw [FailsOr, exec_bailIf_bind]
  split
  · exact Or.inl ⟨e, rfl⟩
  · exact hk ‹_›

theorem orBail {o : Option α} (hf : ∀ a, o = some a → FailsOr (f a) s P) :
    FailsOr ((orBail e o : Op σ ε α) >>= f) s P := by
  rw [FailsOr, exec_orBail_bind]
  cases ho : o with
  | none => exact Or.inl ⟨e, rfl⟩
  | some a => exact hf a ho

theorem ends {y : Op σ ε β} (h : P (y.exec s)) : FailsOr y s P := Or.inr h

end FailsOr

end Op

end Embernet
