import Embernet.Lib.Bytes
/-!
# Blocks — sets of byte strings of one length, packed

A set of blocks of one length is packed by sorting the blocks and writing
them one after another. Packing forgets the order the blocks came in and
nothing else, and a packed set takes in one more block by being unpacked,
extended and packed again.
-/

set_option autoImplicit false

namespace Embernet

namespace Blocks

/-- `chunks_exact(n)`: the whole blocks of `n` bytes, in order. -/
def chunksExact (n : ℕ) (b : Bytes) : List Bytes :=
  (List.range (b.length / n)).map fun i => (b.drop (n * i)).take n

/-- `sort()`, on byte strings: lexicographic. -/
def sort (ids : List Bytes) : List Bytes := ids.insertionSort (· ≤ ·)

/-- The blocks in order, one after another. -/
def pack (ids : List Bytes) : Bytes := (sort ids).flatten

theorem sort_perm (ids : List Bytes) : (sort ids).Perm ids := List.perm_insertionSort _ _

theorem sort_pairwise (ids : List Bytes) : (sort ids).Pairwise (· ≤ ·) :=
  List.pairwise_insertionSort _ _

/-- Sorting forgets the order. -/
theorem sort_eq_of_perm {xs ys : List Bytes} (h : xs.Perm ys) : sort xs = sort ys :=
  List.Perm.eq_of_pairwise (fun _ _ _ _ hab hba => Std.Antisymm.antisymm _ _ hab hba)
    (sort_pairwise xs) (sort_pairwise ys)
    ((sort_perm xs).trans (h.trans (sort_perm ys).symm))

theorem pack_eq_of_perm {xs ys : List Bytes} (h : xs.Perm ys) : pack xs = pack ys := by
  rw [pack, pack, sort_eq_of_perm h]

variable {n : ℕ} {ids : List Bytes}

theorem length_flatten_of_forall (h : ∀ b ∈ ids, b.length = n) :
    ids.flatten.length = n * ids.length := by
  induction ids with
  | nil => simp
  | cons b ids ih =>
    rw [List.flatten_cons, List.length_append, h b (by simp),
      ih fun c hc => h c (List.mem_cons_of_mem b hc), List.length_cons, Nat.mul_succ, Nat.add_comm]

/-- **Blocks written one after another read back.** -/
theorem chunksExact_flatten (hn : 0 < n) (h : ∀ b ∈ ids, b.length = n) :
    chunksExact n ids.flatten = ids := by
  have hlength := length_flatten_of_forall h
  refine List.ext_getElem ?_ fun i hi hi' => ?_
  · simp [chunksExact, hlength, Nat.mul_div_cancel_left _ hn]
  · simp only [chunksExact, List.getElem_map, List.getElem_range]
    clear hi hlength
    induction ids generalizing i with
    | nil => simp at hi'
    | cons b ids ih =>
      have hb : b.length = n := h b (by simp)
      cases i with
      | zero => simp [← hb]
      | succ i =>
        have hskip : n * (i + 1) = b.length + n * i := by rw [hb, Nat.mul_succ, Nat.add_comm]
        rw [List.flatten_cons, hskip, List.drop_append,
          List.drop_eq_nil_of_le (Nat.le_add_right _ _), List.nil_append,
          Nat.add_sub_cancel_left, List.getElem_cons_succ]
        exact ih (fun c hc => h c (List.mem_cons_of_mem b hc)) i (by simpa using hi')

theorem chunksExact_pack (hn : 0 < n) (h : ∀ b ∈ ids, b.length = n) :
    chunksExact n (pack ids) = sort ids :=
  chunksExact_flatten hn fun b hb => h b ((sort_perm ids).mem_iff.1 hb)

/-- **One more block**: unpack, extend, pack. -/
theorem pack_concat (hn : 0 < n) (h : ∀ b ∈ ids, b.length = n) {b : Bytes} (hb : b.length = n) :
    pack (chunksExact n (pack ids ++ b)) = pack (ids ++ [b]) := by
  have hflat : pack ids ++ b = (sort ids ++ [b]).flatten := by simp [pack]
  have hblocks : ∀ c ∈ sort ids ++ [b], c.length = n := by
    intro c hc
    rcases List.mem_append.1 hc with hc | hc
    · exact h c ((sort_perm ids).mem_iff.1 hc)
    · rw [List.mem_singleton.1 hc, hb]
  rw [hflat, chunksExact_flatten hn hblocks]
  exact pack_eq_of_perm ((sort_perm ids).append_right _)

/-- **Packing loses nothing but the order.** -/
theorem perm_of_pack_eq (hn : 0 < n) {xs ys : List Bytes} (hx : ∀ b ∈ xs, b.length = n)
    (hy : ∀ b ∈ ys, b.length = n) (h : pack xs = pack ys) : xs.Perm ys := by
  have : sort xs = sort ys := by rw [← chunksExact_pack hn hx, h, chunksExact_pack hn hy]
  exact (sort_perm xs).symm.trans (this ▸ sort_perm ys)

theorem length_pack (h : ∀ b ∈ ids, b.length = n) : (pack ids).length = n * ids.length := by
  rw [pack, length_flatten_of_forall fun b hb => h b ((sort_perm ids).mem_iff.1 hb),
    (sort_perm ids).length_eq]

end Blocks

end Embernet
