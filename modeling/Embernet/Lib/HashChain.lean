import Mathlib.Data.List.Nodup
import Mathlib.Data.Set.Function
/-!
# Hash chains — events that name their predecessor

In a chain every event names the event before it, and the first names
none. Where an event's identifier determines the predecessor it names, an
identifier determines the whole chain up to it: two chains that share an
identifier share everything before it, at the same positions.
-/

set_option autoImplicit false

namespace Embernet

namespace HashChain

variable {Event Id : Type*} (id : Event → Id) (previous : Event → Option Id)

/-- Each event names the one before it, and the first names `prev`. -/
def Chained : Option Id → List Event → Prop
  | _, [] => True
  | prev, e :: es => previous e = prev ∧ Chained (some (id e)) es

variable {id previous} {prev : Option Id} {xs ys : List Event}

/-- What an event in a chain names. -/
theorem previous_getElem (h : Chained id previous prev xs) {i : ℕ} (hi : i < xs.length) :
    previous xs[i] = if h0 : 0 < i then some (id xs[i - 1]) else prev := by
  induction xs generalizing prev i with
  | nil => simp at hi
  | cons e xs ih =>
    cases i with
    | zero => simpa using h.1
    | succ i =>
      have hlt : i < xs.length := by simpa using hi
      have := ih h.2 hlt
      cases i with
      | zero => simpa using this
      | succ i => simpa using this

/-- **An identifier fixes what is before it.** Events of two chains with
one identifier stand at one position, and the chains agree up to it. -/
theorem eq_of_id_eq (hx : Chained id previous none xs) (hy : Chained id previous none ys)
    (hbind : ∀ a ∈ xs, ∀ b ∈ ys, id a = id b → previous a = previous b) {i j : ℕ}
    (hi : i < xs.length) (hj : j < ys.length) (h : id xs[i] = id ys[j]) :
    i = j ∧ (xs.take (i + 1)).map id = (ys.take (j + 1)).map id := by
  induction i generalizing j with
  | zero =>
    have hprev := hbind _ (List.getElem_mem hi) _ (List.getElem_mem hj) h
    rw [previous_getElem hx hi, previous_getElem hy hj] at hprev
    have hj0 : j = 0 := by
      by_contra hne
      rw [dif_neg (by omega), dif_pos (by omega)] at hprev
      cases hprev
    subst hj0
    refine ⟨rfl, ?_⟩
    simp only [List.take_add_one, List.take_zero, List.getElem?_eq_getElem hi,
      List.getElem?_eq_getElem hj, Option.toList_some, List.nil_append, List.map_cons, List.map_nil, h]
  | succ i ih =>
    have hprev := hbind _ (List.getElem_mem hi) _ (List.getElem_mem hj) h
    rw [previous_getElem hx hi, previous_getElem hy hj, dif_pos (by omega)] at hprev
    have hjpos : 0 < j := by
      by_contra hne
      rw [dif_neg hne] at hprev
      cases hprev
    rw [dif_pos hjpos, Option.some.injEq] at hprev
    obtain ⟨k, rfl⟩ : ∃ k, j = k + 1 := ⟨j - 1, by omega⟩
    obtain ⟨rfl, htake⟩ := @ih k (by omega) (by omega) (by simpa using hprev)
    refine ⟨rfl, ?_⟩
    rw [List.take_add_one, List.take_add_one (l := ys), List.map_append, List.map_append, htake,
      List.getElem?_eq_getElem hi, List.getElem?_eq_getElem hj, Option.toList_some,
      Option.toList_some, List.map_singleton, List.map_singleton, h]

/-- So no identifier occurs twice in a chain. -/
theorem nodup_id (hx : Chained id previous none xs)
    (hbind : ∀ a ∈ xs, ∀ b ∈ xs, id a = id b → previous a = previous b) : (xs.map id).Nodup := by
  rw [List.nodup_iff_injective_getElem]
  intro i j hij
  have hi : i.1 < xs.length := by simpa using i.2
  have hj : j.1 < xs.length := by simpa using j.2
  have := (eq_of_id_eq hx hx hbind hi hj (by simpa using hij)).1
  exact Fin.ext this

end HashChain

end Embernet
