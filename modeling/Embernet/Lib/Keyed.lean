import Mathlib.Data.List.Sort
import Mathlib.Data.Set.Insert
/-!
# Keyed entries — a list with each key once

Entries have a key, and may have a value. A list that merges a set of
entries has each of their keys once, with the value an entry gives it if
one does. There is such a list only where the entries agree
(`Merged.agree`), it is one list up to order (`Merged.perm`), and sorted
by key it is one list (`Merged.byKey_eq`); so whatever the order in which
entries are merged one by one, the result is the same.
-/

namespace Embernet

namespace Keyed

variable {α κ ν : Type*} {key : α → κ} {value : α → Option ν} {E : Set α} {xs ys pre post : List α}
  {x a : α}

/-- No two entries give one key two values. -/
def Agree (key : α → κ) (value : α → Option ν) (E : Set α) : Prop :=
  ∀ a ∈ E, ∀ b ∈ E, key a = key b → ∀ v ∈ value a, ∀ w ∈ value b, v = w

/-- A list that has each key of the entries once, with its value. -/
structure Merged (key : α → κ) (value : α → Option ν) (E : Set α) (xs : List α) : Prop where
  nodup : (xs.map key).Nodup
  keys : ∀ k, k ∈ xs.map key ↔ ∃ a ∈ E, key a = k
  values : ∀ x ∈ xs, ∀ v, v ∈ value x ↔ ∃ a ∈ E, key a = key x ∧ v ∈ value a

theorem merged_nil : Merged key value ∅ [] :=
  ⟨List.nodup_nil, by simp, by simp⟩

/-- **Entries that are merged agree.** -/
theorem Merged.agree (h : Merged key value E xs) : Agree key value E := by
  intro a ha b hb hkey v hv w hw
  obtain ⟨x, hx, hxkey⟩ := List.mem_map.1 ((h.keys (key a)).2 ⟨a, ha, rfl⟩)
  have hv' : v ∈ value x := (h.values x hx v).2 ⟨a, ha, hxkey.symm, hv⟩
  have hw' : w ∈ value x := (h.values x hx w).2 ⟨b, hb, hkey.symm.trans hxkey.symm, hw⟩
  exact Option.mem_unique hv' hw'

/-- An entry with a new key is put last. -/
theorem Merged.concat (h : Merged key value E xs) (hnew : key a ∉ xs.map key) :
    Merged key value (insert a E) (xs ++ [a]) where
  nodup := by
    rw [List.map_append, List.nodup_append]
    refine ⟨h.nodup, List.nodup_singleton _, ?_⟩
    rintro k hk k' hk' rfl
    rw [List.map_singleton, List.mem_singleton] at hk'
    exact hnew (hk' ▸ hk)
  keys k := by
    rw [List.map_append, List.mem_append, h.keys, Set.exists_mem_insert]
    simp [eq_comm, or_comm]
  values x hx v := by
    have hne : ∀ b ∈ E, key b ≠ key a := fun b hb hkey => hnew ((h.keys _).2 ⟨b, hb, hkey⟩)
    rcases List.mem_append.1 hx with hx | hx
    · have hxa : key a ≠ key x := fun hkey => hnew (hkey ▸ List.mem_map_of_mem hx)
      rw [h.values x hx, Set.exists_mem_insert]
      simp [hxa]
    · obtain rfl := List.mem_singleton.1 hx
      rw [Set.exists_mem_insert]
      constructor
      · exact fun hv => .inl ⟨rfl, hv⟩
      · rintro (⟨-, hv⟩ | ⟨b, hb, hkey, -⟩)
        · exact hv
        · exact absurd hkey (hne b hb)

/-- An entry with a known key changes at most the value there. -/
theorem Merged.replace {y : α} (h : Merged key value E (pre ++ x :: post)) (hx : key x = key a)
    (hy : key y = key a) (hvalue : ∀ v, v ∈ value y ↔ v ∈ value x ∨ v ∈ value a) :
    Merged key value (insert a E) (pre ++ y :: post) := by
  have hmap : (pre ++ y :: post).map key = (pre ++ x :: post).map key := by
    rw [List.map_append, List.map_append, List.map_cons, List.map_cons, hx, hy]
  have hxmem : x ∈ pre ++ x :: post := List.mem_append_right _ List.mem_cons_self
  refine ⟨hmap ▸ h.nodup, fun k => ?_, fun z hz v => ?_⟩
  · rw [hmap, h.keys, Set.exists_mem_insert]
    constructor
    · exact .inr
    · rintro (hk | hk)
      · exact (h.keys k).1 (hk ▸ hx ▸ List.mem_map_of_mem hxmem)
      · exact hk
  · rw [Set.exists_mem_insert]
    by_cases hzy : z = y
    · subst hzy
      rw [hvalue, h.values x hxmem, hx, hy]
      simp [or_comm]
    · -- the entry stands at another key
      have hzx : z ∈ pre ++ x :: post := by
        rcases List.mem_append.1 hz with hz | hz
        · exact List.mem_append_left _ hz
        · exact List.mem_append_right _
            (List.mem_cons_of_mem _ ((List.mem_cons.1 hz).resolve_left hzy))
      have hza : key a ≠ key z := by
        intro hkey
        have hnodup := hmap ▸ h.nodup
        exact hzy (List.inj_on_of_nodup_map hnodup hz
          (List.mem_append_right _ List.mem_cons_self) (hkey.symm.trans hy.symm))
      rw [h.values z hzx]
      simp [hza]

/-- **It is one list**, up to order. -/
theorem Merged.perm (hinj : Function.Injective fun a => (key a, value a))
    (h : Merged key value E xs) (h' : Merged key value E ys) : xs.Perm ys := by
  suffices hsub : ∀ {xs ys : List α}, Merged key value E xs → Merged key value E ys → xs ⊆ ys from
    (List.perm_ext_iff_of_nodup (h.nodup.of_map key) (h'.nodup.of_map key)).2
      fun _ => ⟨fun hx => hsub h h' hx, fun hy => hsub h' h hy⟩
  intro xs ys h h' x hx
  have hkey : key x ∈ ys.map key := (h'.keys _).2 ((h.keys _).1 (List.mem_map_of_mem hx))
  obtain ⟨y, hy, hyx⟩ := List.mem_map.1 hkey
  have hvalue : value x = value y := by
    refine Option.ext fun v => ?_
    rw [← Option.mem_def, ← Option.mem_def, h.values x hx, h'.values y hy, hyx]
  rwa [hinj (Prod.ext hyx.symm hvalue : (key x, value x) = (key y, value y))]

/-! ## In order -/

variable [LE κ] [DecidableLE κ]

/-- The entries by key. -/
def byKey (key : α → κ) (xs : List α) : List α := xs.insertionSort fun a b => key a ≤ key b

theorem byKey_perm : (byKey key xs).Perm xs := List.perm_insertionSort _ _

theorem Merged.byKey (h : Merged key value E xs) : Merged key value E (byKey key xs) where
  nodup := (byKey_perm.map key).nodup_iff.2 h.nodup
  keys k := by rw [(byKey_perm.map key).mem_iff, h.keys]
  values x hx := h.values x (byKey_perm.mem_iff.1 hx)

variable [LT κ] [Std.IsLinearOrder κ] [Std.LawfulOrderLT κ]

theorem byKey_pairwise (h : (xs.map key).Nodup) :
    (byKey key xs).Pairwise fun a b => key a < key b := by
  have hle : (byKey key xs).Pairwise fun a b => key a ≤ key b :=
    haveI : Std.Total fun a b : α => key a ≤ key b := ⟨fun _ _ => Std.le_total⟩
    haveI : IsTrans α fun a b => key a ≤ key b := ⟨fun _ _ _ => Std.le_trans⟩
    List.pairwise_insertionSort _ _
  have hne : (byKey key xs).Pairwise fun a b => key a ≠ key b :=
    List.pairwise_map.1 ((byKey_perm.map key).nodup_iff.2 h)
  exact hle.imp₂ (fun _ _ hle hne => Std.lt_of_le_of_ne hle hne) hne

/-- Lists whose keys are apart are one list in order. -/
theorem byKey_eq_of_perm (h : (xs.map key).Nodup) (hperm : xs.Perm ys) :
    byKey key xs = byKey key ys :=
  List.Perm.eq_of_pairwise (fun _ _ _ _ hab hba => absurd hab (Std.not_gt_of_lt hba))
    (byKey_pairwise h) (byKey_pairwise ((hperm.map key).nodup_iff.1 h))
    (byKey_perm.trans (hperm.trans byKey_perm.symm))

/-- A list in order stays. -/
theorem byKey_of_pairwise (h : xs.Pairwise fun a b => key a < key b) : byKey key xs = xs :=
  List.Perm.eq_of_pairwise (fun _ _ _ _ hab hba => absurd hab (Std.not_gt_of_lt hba))
    (byKey_pairwise (List.pairwise_map.2 (h.imp Std.ne_of_lt))) h byKey_perm

/-- **And in order it is one list.** -/
theorem Merged.byKey_eq (hinj : Function.Injective fun a => (key a, value a))
    (h : Merged key value E xs) (h' : Merged key value E ys) :
    Keyed.byKey key xs = Keyed.byKey key ys :=
  byKey_eq_of_perm h.nodup (h.perm hinj h')

end Keyed

end Embernet
