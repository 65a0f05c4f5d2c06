import Mathlib.Data.List.Basic
import Mathlib.Data.List.Nodup
/-!
# Exchange — two lists that append what they lack

Each party keeps a list and, given the other's, appends the elements it
lacks, in the other's order. After an exchange both hold the same
elements, in orders that need not agree: whose list ends with what is
decided by which list had nothing to learn.
-/

set_option autoImplicit false

namespace Embernet

namespace Exchange

variable {α : Type*} [DecidableEq α] {xs ys : List α} {n : α}

/-- `xs` with the elements of `ys` that it lacks behind it. -/
def appendNew (xs ys : List α) : List α := xs ++ ys.filter (· ∉ xs)

theorem mem_appendNew {a : α} : a ∈ appendNew xs ys ↔ a ∈ xs ∨ a ∈ ys := by
  simp only [appendNew, List.mem_append, List.mem_filter, decide_eq_true_eq]
  tauto

theorem appendNew_of_subset (h : ys ⊆ xs) : appendNew xs ys = xs := by
  have hnil : ys.filter (· ∉ xs) = [] := by
    rw [List.filter_eq_nil_iff]
    intro a ha
    simpa using h ha
  rw [appendNew, hnil, List.append_nil]

/-- Only what is lacking counts: a list that has taken in the other's
gives nothing more to it than before. -/
theorem appendNew_appendNew : appendNew ys (appendNew xs ys) = appendNew ys xs := by
  have hnone : (ys.filter (· ∉ xs)).filter (· ∉ ys) = [] := by
    rw [List.filter_eq_nil_iff]
    intro a ha
    simpa using (List.mem_filter.1 ha).1
  rw [appendNew, appendNew, appendNew, List.filter_append, hnone, List.append_nil]

/-- Appending one element after the other, each if it is lacking. -/
def learn (xs ys : List α) : List α := ys.foldl (fun xs y => if y ∈ xs then xs else xs ++ [y]) xs

@[simp] theorem learn_nil : learn xs [] = xs := rfl

theorem learn_cons {y : α} : learn xs (y :: ys) = learn (if y ∈ xs then xs else xs ++ [y]) ys := rfl

theorem prefix_learn : xs <+: learn xs ys := by
  induction ys generalizing xs with
  | nil => exact List.prefix_rfl
  | cons y ys ih =>
    rw [learn_cons]
    split
    · exact ih
    · exact (List.prefix_append xs [y]).trans ih

theorem subset_learn : ys ⊆ learn xs ys := by
  induction ys generalizing xs with
  | nil => exact List.nil_subset _
  | cons y ys ih =>
    rw [learn_cons]
    refine List.cons_subset.2 ⟨prefix_learn.subset ?_, ih⟩
    by_cases hy : y ∈ xs
    · rwa [if_pos hy]
    · rw [if_neg hy]
      exact List.mem_append_right _ (List.mem_singleton_self _)

theorem learn_subset {zs : List α} (hx : xs ⊆ zs) (hy : ys ⊆ zs) : learn xs ys ⊆ zs := by
  induction ys generalizing xs with
  | nil => exact hx
  | cons y ys ih =>
    obtain ⟨hmem, hy⟩ := List.cons_subset.1 hy
    rw [learn_cons]
    split
    · exact ih hx hy
    · exact ih (List.append_subset.2 ⟨hx, by simpa using hmem⟩) hy

theorem nodup_learn (hx : xs.Nodup) : (learn xs ys).Nodup := by
  induction ys generalizing xs with
  | nil => exact hx
  | cons y ys ih =>
    rw [learn_cons]
    split
    · exact ih hx
    · refine ih ?_
      rw [← List.concat_eq_append]
      exact hx.concat ‹_›

/-- **Learning a list with no repetitions** appends what is lacking of
it. -/
theorem learn_eq_appendNew (h : ys.Nodup) : learn xs ys = appendNew xs ys := by
  induction ys generalizing xs with
  | nil => simp [appendNew]
  | cons y ys ih =>
    obtain ⟨hy, hys⟩ := List.nodup_cons.1 h
    rw [learn_cons, ih hys]
    by_cases hmem : y ∈ xs
    · rw [if_pos hmem, appendNew, appendNew, List.filter_cons_of_neg (by simpa using hmem)]
    · have hsame : ys.filter (· ∉ xs ++ [y]) = ys.filter (· ∉ xs) := by
        refine List.filter_congr fun z hz => ?_
        have hne : z ≠ y := fun h => hy (h ▸ hz)
        simp [hne]
      rw [if_neg hmem, appendNew, appendNew, List.filter_cons_of_pos (by simpa using hmem), hsame,
        List.append_assoc, List.singleton_append]

theorem nodup_appendNew (hx : xs.Nodup) (hy : ys.Nodup) : (appendNew xs ys).Nodup := by
  rw [← learn_eq_appendNew hy]
  exact nodup_learn hx

/-- A list that ends with `n`, with nothing to learn from the other, which
lacks `n` or holds the same and ends with it too. -/
def Leads (xs ys : List α) (n : α) : Prop :=
  ys ⊆ xs ∧ xs.getLast? = some n ∧ (n ∈ ys → xs ⊆ ys ∧ ys.getLast? = some n)

/-- A list that learns something ends with something it learned. -/
theorem getLast?_appendNew_of_not_subset (h : ¬ ys ⊆ xs) (hlast : (appendNew xs ys).getLast? = some n) :
    n ∈ ys ∧ n ∉ xs := by
  rw [appendNew, List.getLast?_append] at hlast
  cases hnew : (ys.filter (· ∉ xs)).getLast? with
  | none =>
    have hnil := List.getLast?_eq_none_iff.1 hnew
    refine absurd (fun a ha => ?_) h
    simpa using List.filter_eq_nil_iff.1 hnil a ha
  | some m =>
    rw [hnew, Option.some_or, Option.some.injEq] at hlast
    subst hlast
    simpa using List.mem_filter.1 (List.mem_of_getLast? hnew)

/-- Where a list has nothing to learn, the exchange ends with its last
element on both sides exactly if it leads. -/
theorem getLast?_appendNew_of_subset (h : ys ⊆ xs) :
    (appendNew xs ys).getLast? = some n ∧ (appendNew ys xs).getLast? = some n ↔ Leads xs ys n := by
  rw [appendNew_of_subset h, Leads]
  constructor
  · rintro ⟨hx, hy⟩
    refine ⟨h, hx, fun hn => ?_⟩
    by_cases hsub : xs ⊆ ys
    · rw [appendNew_of_subset hsub] at hy
      exact ⟨hsub, hy⟩
    · exact absurd hn (getLast?_appendNew_of_not_subset hsub hy).2
  · rintro ⟨-, hx, hboth⟩
    refine ⟨hx, ?_⟩
    by_cases hn : n ∈ ys
    · obtain ⟨hsub, hy⟩ := hboth hn
      rwa [appendNew_of_subset hsub]
    · obtain ⟨init, rfl⟩ := List.getLast?_eq_some_iff.1 hx
      simp [appendNew, List.filter_append, hn]

/-- **When an exchange agrees on the last element**: exactly where one of
the two lists leads. -/
theorem getLast?_exchange :
    (appendNew xs ys).getLast? = some n ∧ (appendNew ys xs).getLast? = some n ↔
      Leads xs ys n ∨ Leads ys xs n := by
  by_cases hxy : ys ⊆ xs
  · rw [getLast?_appendNew_of_subset hxy]
    refine ⟨Or.inl, fun h => h.elim id fun ⟨hsub, hy, hboth⟩ => ?_⟩
    obtain ⟨-, hx⟩ := hboth (hxy (List.mem_of_getLast? hy))
    exact ⟨hxy, hx, fun _ => ⟨hsub, hy⟩⟩
  by_cases hyx : xs ⊆ ys
  · rw [and_comm, getLast?_appendNew_of_subset hyx]
    exact ⟨Or.inr, fun h => h.elim (fun hlead => absurd hlead.1 hxy) id⟩
  -- each ends with something the other taught it
  · constructor
    · rintro ⟨hx, hy⟩
      exact absurd (getLast?_appendNew_of_not_subset hyx hy).1
        (getLast?_appendNew_of_not_subset hxy hx).2
    · rintro (hlead | hlead)
      · exact absurd hlead.1 hxy
      · exact absurd hlead.1 hyx

end Exchange

end Embernet
