import Embernet.Log.Serving
/-!
# Tiling — the records of a log and the bytes between them

The ranges of a scan are lines of the file, in its order and apart from
each other, and every byte that is in none of them is in a line of white
space. So a range read by itself gives the record the scan found there,
whatever lines are blank and however lines end.
-/

set_option autoImplicit false

namespace Embernet

open Ndjson Primitives

section Tiling

variable [Primitives] {log : Bytes} {scanned : List ScannedEnvelope}

/-! ## What a scan is made of -/

/-- A record is that of one of the lines. -/
theorem exists_line_of_mem {n offset : ℕ} {lines : List Bytes}
    (h : scanLines n offset lines = .ok scanned) {item : ScannedEnvelope}
    (hitem : item ∈ scanned) : ∃ pre line post, lines = pre ++ line :: post ∧
      lineRecord (offset + pre.flatten.length) line [item] := by
  induction lines generalizing n offset scanned with
  | nil =>
    cases h
    cases hitem
  | cons line lines ih =>
    obtain ⟨items, rest, hline, hrest, rfl⟩ := scanLines_cons_ok.1 h
    rcases List.mem_append.1 hitem with hmem | hmem
    · refine ⟨[], line, lines, rfl, ?_⟩
      rcases hline with ⟨hlast, ⟨-, rfl⟩ | ⟨hspace, env, hread, hverify, rfl⟩⟩
      · cases hmem
      · rw [List.mem_singleton.1 hmem]
        exact ⟨hlast, .inr ⟨hspace, env, hread, hverify, rfl⟩⟩
    · obtain ⟨pre, line', post, rfl, hrecord⟩ := ih hrest hmem
      refine ⟨line :: pre, line', post, rfl, ?_⟩
      rw [List.flatten_cons, List.length_append, ← Nat.add_assoc]
      exact hrecord

/-- And every line has given what it holds. -/
theorem lineRecord_of_scan {n offset : ℕ} {pre post : List Bytes} {line : Bytes}
    (h : scanLines n offset (pre ++ line :: post) = .ok scanned) :
    ∃ items, lineRecord (offset + pre.flatten.length) line items ∧ items ⊆ scanned := by
  induction pre generalizing n offset scanned with
  | nil =>
    obtain ⟨items, rest, hline, -, rfl⟩ := scanLines_cons_ok.1 h
    exact ⟨items, hline, List.subset_append_left _ _⟩
  | cons first pre ih =>
    obtain ⟨_, rest, -, hrest, rfl⟩ := scanLines_cons_ok.1 h
    obtain ⟨items, hline, hsub⟩ := ih hrest
    refine ⟨items, ?_, List.subset_append_of_subset_right _ hsub⟩
    rw [List.flatten_cons, List.length_append, ← Nat.add_assoc]
    exact hline

/-- The records stand in the order of the lines. -/
theorem pairwise_of_scan {n offset : ℕ} {lines : List Bytes}
    (h : scanLines n offset lines = .ok scanned) :
    (∀ item ∈ scanned, offset ≤ item.offset) ∧
      scanned.Pairwise fun a b => a.offset + a.length ≤ b.offset := by
  induction lines generalizing n offset scanned with
  | nil =>
    cases h
    exact ⟨by simp, List.Pairwise.nil⟩
  | cons line lines ih =>
    obtain ⟨items, rest, ⟨-, hitems⟩, hrest, rfl⟩ := scanLines_cons_ok.1 h
    obtain ⟨hlow, hordered⟩ := ih hrest
    rcases hitems with ⟨-, rfl⟩ | ⟨-, env, -, -, rfl⟩
    · refine ⟨fun item hitem => ?_, hordered⟩
      have := hlow item hitem
      omega
    · refine ⟨fun item hitem => ?_, List.pairwise_cons.2 ⟨hlow, hordered⟩⟩
      rcases List.mem_cons.1 hitem with rfl | hitem
      · exact le_rfl
      · have := hlow item hitem
        omega

/-! ## Lines and their ends -/

omit [Primitives] in
/-- What `chomp` takes away is white space, to JSON and to the scan. -/
theorem exists_chomp {line : Bytes} (hclosed : line.getLast? = some 0x0a) :
    ∃ tail, line = chomp line ++ tail ∧ tail.all isJsonSpace = true ∧
      tail.all isAsciiWhitespace = true := by
  obtain ⟨body, rfl⟩ := List.getLast?_eq_some_iff.1 hclosed
  rw [chomp, if_pos hclosed, List.dropLast_concat]
  split
  · rename_i hreturn
    obtain ⟨body, rfl⟩ := List.getLast?_eq_some_iff.1 hreturn
    exact ⟨[0x0d, 0x0a], by simp, rfl, rfl⟩
  · exact ⟨[0x0a], rfl, rfl, rfl⟩

omit [Primitives] in
theorem all_isAsciiWhitespace_chomp {line : Bytes} (hclosed : line.getLast? = some 0x0a) :
    (chomp line).all isAsciiWhitespace = line.all isAsciiWhitespace := by
  obtain ⟨tail, hline, -, htail⟩ := exists_chomp hclosed
  conv_rhs => rw [hline, List.all_append, htail, Bool.and_true]

/-! ## The ranges -/

/-- The bytes a record stands in. -/
def ScannedEnvelope.bytes (item : ScannedEnvelope) (log : Bytes) : Bytes :=
  (log.drop item.offset).take item.length

/-- A line that is an envelope which verifies. -/
def Verifies (line : Bytes) : Prop := ∃ env, readEnvelope line = some env ∧ env.verify = .ok ()

/-- **The records tile the log**: in order and apart, each in one line of
it, and beside them lines of white space only. -/
structure Tiles (log : Bytes) (scanned : List ScannedEnvelope) : Prop where
  ordered : scanned.Pairwise fun a b => a.offset + a.length ≤ b.offset
  bounded : ∀ item ∈ scanned, item.offset + item.length ≤ log.length
  line : ∀ item ∈ scanned, LineAt log item.offset (item.bytes log)
  read : ∀ item ∈ scanned, readEnvelope (item.bytes log) = some item.envelope
  around : ∀ i < log.length,
    (∀ item ∈ scanned, ¬ (item.offset ≤ i ∧ i < item.offset + item.length)) →
    ∃ offset line, LineAt log offset line ∧ offset ≤ i ∧ i < offset + line.length ∧
      line.all isAsciiWhitespace = true

/-- Where a record stands. -/
theorem exists_lineAt_of_mem (h : scanVerifiedFile log = .ok scanned) {item : ScannedEnvelope}
    (hitem : item ∈ scanned) : ∃ line, LineAt log item.offset line ∧ line.length = item.length ∧
      line = item.bytes log ∧ readEnvelope (chomp line) = some item.envelope := by
  obtain ⟨pre, line, post, hlines, hrecord⟩ := exists_line_of_mem h hitem
  rw [Nat.zero_add] at hrecord
  obtain ⟨hclosed, ⟨-, hnone⟩ | ⟨-, env, hread, -, hone⟩⟩ := hrecord
  · cases hnone
  · obtain rfl := List.singleton_inj.1 hone
    have hline := lineAt_of_splitLines hlines hclosed
    exact ⟨line, hline, rfl, hline.take_drop.symm, hread⟩

/-- A line of the log is blank, or a record. -/
theorem lineRecord_of_lineAt (h : scanVerifiedFile log = .ok scanned) {line : Bytes} {offset : ℕ}
    (hline : LineAt log offset line) :
    ∃ items, lineRecord offset line items ∧ items ⊆ scanned := by
  obtain ⟨pre, post, hlines, rfl⟩ := hline.splitLines_eq
  rw [scanVerifiedFile, hlines] at h
  obtain ⟨items, hrecord, hsub⟩ := lineRecord_of_scan h
  rw [Nat.zero_add] at hrecord
  exact ⟨items, hrecord, hsub⟩

theorem tiles_of_scan (hskips : SkipsSpace readEnvelope) (h : scanVerifiedFile log = .ok scanned) :
    Tiles log scanned where
  ordered := (pairwise_of_scan h).2
  bounded item hitem := by
    obtain ⟨line, hline, hlength, -⟩ := exists_lineAt_of_mem h hitem
    exact hlength ▸ hline.le
  line item hitem := by
    obtain ⟨line, hline, -, hbytes, -⟩ := exists_lineAt_of_mem h hitem
    exact hbytes ▸ hline
  read item hitem := by
    obtain ⟨line, hline, -, hbytes, hread⟩ := exists_lineAt_of_mem h hitem
    obtain ⟨tail, htail, hspace, -⟩ := exists_chomp hline.getLast?
    rw [← hbytes, htail]
    exact hskips.trailing _ _ _ hspace hread
  around i hi hnone := by
    rw [← flatten_splitLines log] at hi
    obtain ⟨pre, line, post, hlines, hlow, hhigh⟩ := exists_line_of_lt hi
    have hscan := h
    rw [scanVerifiedFile, hlines] at hscan
    obtain ⟨items, ⟨hclosed, hitems⟩, hsub⟩ := lineRecord_of_scan hscan
    rw [Nat.zero_add] at hitems
    rcases hitems with ⟨hspace, -⟩ | ⟨-, env, -, -, rfl⟩
    · rw [all_isAsciiWhitespace_chomp hclosed] at hspace
      exact ⟨_, line, lineAt_of_splitLines hlines hclosed, hlow, hhigh, hspace⟩
    · -- the line is a record, whose range has the byte
      exact absurd ⟨hlow, hhigh⟩ (hnone _ (hsub (List.mem_singleton_self _)))

/-- **The scan tiles the log** it accepts, and it accepts no log whose last
line is not closed, or of which a line is neither blank nor an envelope
that verifies. -/
theorem scan_tiles (hskips : SkipsSpace readEnvelope) (log : Bytes) :
    (∀ scanned, scanVerifiedFile log = .ok scanned → Tiles log scanned) ∧
    (¬ Terminated log → ∃ e, scanVerifiedFile log = .error e) ∧
    ∀ offset line, LineAt log offset line → ¬ line.all isAsciiWhitespace = true →
      ¬ Verifies line → ∃ e, scanVerifiedFile log = .error e := by
  refine ⟨fun scanned h => tiles_of_scan hskips h, fun hopen => ?_, ?_⟩
  · cases hscan : scanVerifiedFile log with
    | error e => exact ⟨e, rfl⟩
    | ok scanned => exact absurd (terminated_of_scan hscan) hopen
  · intro offset line hline hvisible hverifies
    cases hscan : scanVerifiedFile log with
    | error e => exact ⟨e, rfl⟩
    | ok scanned =>
      obtain ⟨items, ⟨hclosed, hitems⟩, -⟩ := lineRecord_of_lineAt hscan hline
      rcases hitems with ⟨hspace, -⟩ | ⟨-, env, hread, hverify, -⟩
      · rw [all_isAsciiWhitespace_chomp hclosed] at hspace
        exact absurd hspace hvisible
      · obtain ⟨tail, htail, hspace, -⟩ := exists_chomp hclosed
        refine absurd ⟨env, ?_, hverify⟩ hverifies
        rw [htail]
        exact hskips.trailing _ _ _ hspace hread

end Tiling

section Spaced

attribute [local instance] lenient

/-- The log with white space: two records, and around them nothing else. -/
theorem scan_tiles_spaced :
    scanVerifiedFile spacedLog = .ok spacedScan ∧ Tiles spacedLog spacedScan :=
  ⟨scan_spacedLog, (scan_tiles skipsSpace_lenient spacedLog).1 _ scan_spacedLog⟩

end Spaced

end Embernet
