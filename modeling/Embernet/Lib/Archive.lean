import Embernet.Lib.HashChain
/-!
# Archive — one history in use, and others kept by their head

An archive has a history in use and keeps others, each under the
identifier of its last event. A kept history may be put in use, and then
the one it displaces is kept. What is written under a head replaces what
was there; where identifiers chain, the two have the same identifiers, so
no identifier is ever lost.
-/

set_option autoImplicit false

namespace Embernet

/-- The history in use, and those kept. -/
structure Archive (Id Event : Type*) where
  current : List Event
  saved : Id → Option (List Event)

namespace Archive

open HashChain

variable {Id Event : Type*} [DecidableEq Id]

/-- The event is in a history that is kept. -/
def Kept (s : Archive Id Event) (e : Event) : Prop :=
  ∃ head events, s.saved head = some events ∧ e ∈ events

/-- The event is in the history in use, or in one that is kept. -/
def Holds (s : Archive Id Event) (e : Event) : Prop := e ∈ s.current ∨ s.Kept e

/-- Keeps a history under a head. -/
def save (s : Archive Id Event) (head : Id) (events : List Event) : Archive Id Event :=
  { s with saved := Function.update s.saved head (some events) }

/-- The identifier of the last event. -/
def head? (id : Event → Id) (events : List Event) : Option Id := events.getLast?.map id

/-- Keeps the history in use, unless it is empty or has the head that is
asked for. -/
def displace (id : Event → Id) (s : Archive Id Event) (head : Id) : Archive Id Event :=
  match head? id s.current with
  | some mine => if mine = head then s else s.save mine s.current
  | none => s

/-- Puts another history in use. -/
def resolve (id : Event → Id) (s : Archive Id Event) (head : Id) (events : List Event) :
    Archive Id Event :=
  { displace id s head with current := events }

variable (id : Event → Id) (previous : Event → Option Id) (Good : Event → Prop)

/-- What an archive does, with events that are good. -/
inductive Step : Archive Id Event → Archive Id Event → Prop
  | stay (s : Archive Id Event) : Step s s
  | extend {s : Archive Id Event} {more : List Event} :
      (∀ e ∈ more, Good e) → Step s { s with current := s.current ++ more }
  | save {s : Archive Id Event} {head : Id} {events : List Event} :
      (∀ e ∈ events, Good e) → Chained id previous none events →
      head? id events = some head → Step s (s.save head events)
  | resolve {s : Archive Id Event} {head : Id} {events : List Event} :
      s.saved head = some events → head? id events = some head →
      Chained id previous none events → Chained id previous none s.current →
      Step s (resolve id s head events)

/-- Every kept history is a chain, and under its head. -/
def Filed (s : Archive Id Event) : Prop :=
  ∀ head events, s.saved head = some events →
    Chained id previous none events ∧ head? id events = some head

variable {id previous Good} {s t : Archive Id Event} {head : Id} {events xs ys : List Event}
  {e : Event}

/-! ## What is kept -/

theorem saved_save : (s.save head events).saved head = some events := by
  simp [save]

theorem saved_save_of_ne {head' : Id} (h : head' ≠ head) :
    (s.save head events).saved head' = s.saved head' := by
  simp [save, h]

/-- **The history that is displaced is kept.** -/
theorem saved_resolve {mine : Id} (hmine : head? id s.current = some mine) (hne : mine ≠ head) :
    (resolve id s head events).saved mine = some s.current := by
  rw [resolve, displace, hmine]
  simp only [if_neg hne]
  exact saved_save

theorem saved_displace (s : Archive Id Event) (head : Id) :
    (displace id s head).saved = s.saved ∨
      ∃ mine, head? id s.current = some mine ∧ mine ≠ head ∧
        displace id s head = s.save mine s.current := by
  rw [displace]
  cases hmine : head? id s.current with
  | none => exact Or.inl rfl
  | some mine =>
    by_cases heq : mine = head
    · exact Or.inl (by simp [heq])
    · exact Or.inr ⟨mine, rfl, heq, by simp [heq]⟩

theorem Filed.save (h : Filed id previous s) (hchain : Chained id previous none events)
    (hhead : head? id events = some head) : Filed id previous (s.save head events) := by
  intro head' events' hsaved
  by_cases heq : head' = head
  · subst heq
    rw [saved_save, Option.some.injEq] at hsaved
    exact hsaved ▸ ⟨hchain, hhead⟩
  · rw [saved_save_of_ne heq] at hsaved
    exact h head' events' hsaved

theorem Filed.displace (h : Filed id previous s) (hchain : Chained id previous none s.current) :
    Filed id previous (displace id s head) := by
  rcases saved_displace s head with hsame | ⟨mine, hmine, -, hsave⟩
  · intro head' events' hsaved
    rw [hsame] at hsaved
    exact h head' events' hsaved
  · rw [hsave]
    exact h.save hchain hmine

/-- **A step keeps every history under its head.** -/
theorem Filed.step (h : Filed id previous s) (hstep : Step id previous Good s t) :
    Filed id previous t := by
  cases hstep with
  | stay => exact h
  | extend => exact h
  | save _ hchain hhead => exact h.save hchain hhead
  | resolve _ _ _ hchain => exact h.displace hchain

/-- **A step keeps all events good.** -/
theorem good_step (h : ∀ e, s.Holds e → Good e) (hstep : Step id previous Good s t)
    (he : t.Holds e) : Good e := by
  have hkept {head : Id} {events : List Event} (hgood : ∀ e ∈ events, Good e)
      (he : (s.save head events).Kept e) : Good e := by
    obtain ⟨head', events', hsaved, he⟩ := he
    by_cases heq : head' = head
    · subst heq
      rw [saved_save, Option.some.injEq] at hsaved
      exact hgood e (hsaved ▸ he)
    · rw [saved_save_of_ne heq] at hsaved
      exact h e (Or.inr ⟨head', events', hsaved, he⟩)
  cases hstep with
  | stay => exact h e he
  | extend hmore =>
    rcases he with he | he
    · exact (List.mem_append.1 he).elim (fun he => h e (Or.inl he)) (hmore e)
    · exact h e (Or.inr he)
  | save hgood =>
    rcases he with he | he
    · exact h e (Or.inl he)
    · exact hkept hgood he
  | @resolve head events hsaved =>
    rcases he with he | he
    · exact h e (Or.inr ⟨head, events, hsaved, he⟩)
    · rcases saved_displace s head with hsame | ⟨mine, -, -, hsave⟩
      · obtain ⟨head', events', hsaved', he⟩ := he
        exact h e (Or.inr ⟨head', events', hsame ▸ hsaved', he⟩)
      · have he : (displace id s head).Kept e := he
        rw [hsave] at he
        exact hkept (fun e he => h e (Or.inl he)) he

/-! ## Nothing is lost -/

/-- Where an identifier fixes the one before it, for the events of two
lists. -/
def Binds (id : Event → Id) (previous : Event → Option Id) (E : Set Event) : Prop :=
  ∀ a ∈ E, ∀ b ∈ E, id a = id b → previous a = previous b

omit [DecidableEq Id] in
/-- **Chains with one head have the same identifiers.** -/
theorem exists_of_head_eq (hx : Chained id previous none xs) (hy : Chained id previous none ys)
    (hbind : Binds id previous {a | a ∈ xs ∨ a ∈ ys}) (hhead : head? id xs = some head)
    (hhead' : head? id ys = some head) (he : e ∈ xs) : ∃ e' ∈ ys, id e' = id e := by
  obtain ⟨a, ha, rfl⟩ := Option.map_eq_some_iff.1 hhead
  obtain ⟨b, hb, hab⟩ := Option.map_eq_some_iff.1 hhead'
  have hxlast : xs[xs.length - 1]? = some a := by rw [← List.getLast?_eq_getElem?, ha]
  have hylast : ys[ys.length - 1]? = some b := by rw [← List.getLast?_eq_getElem?, hb]
  obtain ⟨hi, hxa⟩ := List.getElem?_eq_some_iff.1 hxlast
  obtain ⟨hj, hyb⟩ := List.getElem?_eq_some_iff.1 hylast
  obtain ⟨-, hids⟩ := eq_of_id_eq hx hy
    (fun a ha b hb => hbind a (Or.inl ha) b (Or.inr hb)) hi hj (by rw [hxa, hyb, hab])
  rw [List.take_of_length_le (by omega), List.take_of_length_le (by omega)] at hids
  have hmem : id e ∈ ys.map id := hids ▸ List.mem_map_of_mem he
  exact List.mem_map.1 hmem

omit [DecidableEq Id] in
theorem Binds.mono {E F : Set Event} (h : Binds id previous F) (hsub : E ⊆ F) :
    Binds id previous E := fun a ha b hb => h a (hsub ha) b (hsub hb)

/-- What is written under a head has the identifiers of what was there. -/
theorem kept_save (hfiled : Filed id previous s) (hchain : Chained id previous none events)
    (hhead : head? id events = some head)
    (hbind : Binds id previous {a | s.Kept a ∨ a ∈ events}) (he : s.Kept e) :
    ∃ e', (s.save head events).Kept e' ∧ id e' = id e := by
  obtain ⟨head', events', hsaved, he⟩ := he
  by_cases heq : head' = head
  · subst heq
    obtain ⟨hchain', hhead'⟩ := hfiled _ _ hsaved
    have hsub : {a | a ∈ events' ∨ a ∈ events} ⊆ {a | s.Kept a ∨ a ∈ events} := fun a ha =>
      ha.imp (fun h => ⟨_, _, hsaved, h⟩) fun h => h
    obtain ⟨e', he', hid⟩ := exists_of_head_eq hchain' hchain (hbind.mono hsub) hhead' hhead he
    exact ⟨e', ⟨_, _, saved_save, he'⟩, hid⟩
  · exact ⟨e, ⟨head', events', by rw [saved_save_of_ne heq, hsaved], he⟩, rfl⟩

/-- The history in use takes another's place under its head, or that of
nothing. -/
theorem kept_displace (hfiled : Filed id previous s) (hchain : Chained id previous none s.current)
    (hbind : Binds id previous {a | s.Holds a}) (he : s.Kept e) :
    ∃ e', (displace id s head).Kept e' ∧ id e' = id e := by
  rcases saved_displace s head with hsame | ⟨mine, hmine, -, hsave⟩
  · obtain ⟨head', events', hsaved, he⟩ := he
    exact ⟨e, ⟨head', events', hsame ▸ hsaved, he⟩, rfl⟩
  · rw [hsave]
    exact kept_save hfiled hchain hmine (hbind.mono fun a ha => ha.symm) he

/-- **A step loses no identifier.** -/
theorem holds_step (hfiled : Filed id previous s) (hstep : Step id previous Good s t)
    (hbind : Binds id previous {a | s.Holds a ∨ t.Holds a}) (he : s.Holds e) :
    ∃ e', t.Holds e' ∧ id e' = id e := by
  cases hstep with
  | stay => exact ⟨e, he, rfl⟩
  | extend => exact ⟨e, he.imp (fun h => List.mem_append_left _ h) fun h => h, rfl⟩
  | @save head events _ hchain hhead =>
    rcases he with he | he
    · exact ⟨e, Or.inl he, rfl⟩
    · obtain ⟨e', he', hid⟩ := kept_save hfiled hchain hhead (hbind.mono fun a ha =>
        ha.imp Or.inr fun h => Or.inr ⟨_, _, saved_save, h⟩) he
      exact ⟨e', Or.inr he', hid⟩
  | @resolve head events hsaved hhead hchain hcurrent =>
    rcases he with he | he
    · obtain ⟨mine, hmine⟩ : ∃ mine, head? id s.current = some mine := by
        rw [head?, List.getLast?_eq_some_getLast (List.ne_nil_of_mem he)]
        exact ⟨_, rfl⟩
      by_cases heq : mine = head
      · subst heq
        obtain ⟨e', he', hid⟩ := exists_of_head_eq hcurrent hchain (hbind.mono fun a ha =>
          ha.imp Or.inl fun h => Or.inl h) hmine hhead he
        exact ⟨e', Or.inl he', hid⟩
      · exact ⟨e, Or.inr ⟨mine, _, saved_resolve hmine heq, he⟩, rfl⟩
    · obtain ⟨e', he', hid⟩ := kept_displace hfiled hcurrent (hbind.mono fun a ha => Or.inl ha) he
      exact ⟨e', Or.inr he', hid⟩

end Archive

end Embernet
