import Embernet.Lib.Bytes
/-!
# Newline-delimited records — what a line reader sees

A file is a byte string; its lines end in a line feed, the last one
possibly not. A `Codec` writes a value as one visible line and reads it
back, and the law this file is for is `parse_append`: a file that parses
and whose last line is closed still parses after records are appended,
to what it held followed by what was appended.
-/

namespace Embernet

namespace Ndjson

/-- The lines of a file, each with its line feed; the last may lack one. -/
def splitLines : Bytes → List Bytes
  | [] => []
  | b :: rest =>
    if b = 0x0a then [b] :: splitLines rest
    else
      match splitLines rest with
      | [] => [[b]]
      | line :: lines => (b :: line) :: lines

/-- A line without its end, which is a line feed or a carriage return and
a line feed. -/
def chomp (line : Bytes) : Bytes :=
  if line.getLast? = some 0x0a then
    if line.dropLast.getLast? = some 0x0d then line.dropLast.dropLast else line.dropLast
  else line

/-- `str::trim().is_empty()`, on the UTF-8 bytes of the line: nothing but
Unicode white space. -/
def blank : Bytes → Bool
  | [] => true
  | 0xc2 :: b :: rest => (b == 0x85 || b == 0xa0) && blank rest
  | 0xe1 :: 0x9a :: 0x80 :: rest => blank rest
  | 0xe2 :: 0x80 :: b :: rest =>
    (decide (0x80 ≤ b ∧ b ≤ 0x8a) || b == 0xa8 || b == 0xa9 || b == 0xaf) && blank rest
  | 0xe2 :: 0x81 :: 0x9f :: rest => blank rest
  | 0xe3 :: 0x80 :: 0x80 :: rest => blank rest
  | b :: rest => (decide (0x09 ≤ b ∧ b ≤ 0x0d) || b == 0x20) && blank rest

/-- The last line of the file, if it has one, is closed by a line feed. -/
def Terminated (file : Bytes) : Prop := ∀ b ∈ file.getLast?, b = 0x0a

instance (file : Bytes) : Decidable (Terminated file) :=
  Option.decidableForallMem file.getLast?

theorem terminated_nil : Terminated [] := by simp [Terminated]

theorem terminated_append_newline (file : Bytes) : Terminated (file ++ [0x0a]) := by
  simp [Terminated]

theorem terminated_append {file tail : Bytes} (h : Terminated file) (ht : Terminated tail) :
    Terminated (file ++ tail) := by
  rcases List.eq_nil_or_concat tail with rfl | ⟨init, b, rfl⟩
  · rwa [List.append_nil]
  · intro c hc
    refine ht c ?_
    simpa [← List.append_assoc] using hc

theorem splitLines_ne_nil {b : UInt8} {rest : Bytes} : splitLines (b :: rest) ≠ [] := by
  rw [splitLines]
  split
  · simp
  · split <;> simp

@[simp] theorem splitLines_newline (rest : Bytes) :
    splitLines (0x0a :: rest) = [0x0a] :: splitLines rest := by
  rw [splitLines, if_pos rfl]

theorem splitLines_cons_of_ne {b : UInt8} {rest line : Bytes} {lines : List Bytes}
    (hb : b ≠ 0x0a) (h : splitLines rest = line :: lines) :
    splitLines (b :: rest) = (b :: line) :: lines := by
  rw [splitLines, if_neg hb, h]

/-- A line that is not closed takes in what is appended only when it is
the last, so a closed file splits before what follows it. -/
theorem splitLines_append {x : Bytes} (hx : Terminated x) (y : Bytes) :
    splitLines (x ++ y) = splitLines x ++ splitLines y := by
  induction x with
  | nil => rfl
  | cons b x ih =>
    cases x with
    | nil =>
      have hb : b = 0x0a := hx b (by simp)
      subst hb
      simp [splitLines]
    | cons c x =>
      have htail : Terminated (c :: x) := fun d hd => hx d (by
        rw [List.getLast?_cons_cons]; exact hd)
      have ih' := ih htail
      by_cases hb : b = 0x0a
      · subst hb
        rw [List.cons_append, splitLines_newline, splitLines_newline, ih', List.cons_append]
      · cases hs : splitLines (c :: x) with
        | nil => exact absurd hs splitLines_ne_nil
        | cons line lines =>
          rw [hs] at ih'
          change splitLines (b :: (c :: x ++ y)) = _
          rw [splitLines_cons_of_ne hb ih', splitLines_cons_of_ne hb hs]
          rfl

/-- A closed line without a line feed inside is one line. -/
theorem splitLines_record {r : Bytes} (hr : (0x0a : UInt8) ∉ r) :
    splitLines (r ++ [0x0a]) = [r ++ [0x0a]] := by
  induction r with
  | nil => simp [splitLines]
  | cons b r ih =>
    have hb : b ≠ 0x0a := fun h => hr (by simp [h])
    have hr' : (0x0a : UInt8) ∉ r := fun h => hr (by simp [h])
    rw [List.cons_append, splitLines_cons_of_ne hb (ih hr')]

/-- And so is one that is not closed. -/
theorem splitLines_open {r : Bytes} (hr : (0x0a : UInt8) ∉ r) (hne : r ≠ []) :
    splitLines r = [r] := by
  induction r with
  | nil => exact absurd rfl hne
  | cons b r ih =>
    obtain ⟨hb, hr'⟩ := not_or.1 (List.mem_cons.not.1 hr)
    rcases r with _ | ⟨c, r⟩
    · rw [splitLines, if_neg (Ne.symm hb)]
      rfl
    · exact splitLines_cons_of_ne (Ne.symm hb) (ih hr' (List.cons_ne_nil c r))

/-- The lines of a file are the file. -/
theorem flatten_splitLines (x : Bytes) : (splitLines x).flatten = x := by
  induction x with
  | nil => rfl
  | cons b x ih =>
    rw [splitLines]
    split
    · simp [ih]
    · cases hs : splitLines x with
      | nil =>
        rw [hs] at ih
        simp [← ih]
      | cons line lines =>
        rw [hs] at ih
        simpa using ih

/-! ## Where a line stands -/

/-- A closed line of a file, and the offset at which it begins. -/
structure LineAt (file : Bytes) (offset : ℕ) (line : Bytes) : Prop where
  closed : ∃ body, (0x0a : UInt8) ∉ body ∧ line = body ++ [0x0a]
  inFile : ∃ before after, Terminated before ∧ before.length = offset ∧
    file = before ++ line ++ after

/-- The lines in front of a line are closed, and it is cut at its first
line feed. -/
theorem splitLines_cut {file line : Bytes} {pre post : List Bytes}
    (h : splitLines file = pre ++ line :: post) :
    Terminated pre.flatten ∧ line ≠ [] ∧
      ∃ body, (0x0a : UInt8) ∉ body ∧ (line = body ++ [0x0a] ∨ line = body ∧ post = []) := by
  induction file generalizing pre line post with
  | nil =>
    cases pre <;> cases h
  | cons b rest ih =>
    by_cases hb : b = 0x0a
    · subst hb
      rw [splitLines_newline] at h
      cases pre with
      | nil =>
        obtain ⟨rfl, rfl⟩ := List.cons.inj h
        exact ⟨terminated_nil, List.cons_ne_nil _ _, [], List.not_mem_nil, .inl rfl⟩
      | cons first pre =>
        obtain ⟨rfl, hrest⟩ := List.cons.inj h
        obtain ⟨hpre, hline⟩ := ih hrest
        exact ⟨terminated_append (terminated_append_newline []) hpre, hline⟩
    · cases hs : splitLines rest with
      | nil =>
        rw [splitLines, if_neg hb, hs] at h
        cases pre with
        | nil =>
          obtain ⟨rfl, rfl⟩ := List.cons.inj h
          exact ⟨terminated_nil, List.cons_ne_nil _ _, [b], by simpa using Ne.symm hb,
            .inr ⟨rfl, rfl⟩⟩
        | cons first pre =>
          obtain ⟨-, h⟩ := List.cons.inj h
          cases pre <;> cases h
      | cons first lines =>
        rw [splitLines_cons_of_ne hb hs] at h
        cases pre with
        | nil =>
          obtain ⟨rfl, rfl⟩ := List.cons.inj h
          obtain ⟨-, -, body, hbody, hline⟩ :=
            ih (show splitLines rest = [] ++ first :: lines from hs)
          refine ⟨terminated_nil, List.cons_ne_nil _ _, b :: body, ?_, ?_⟩
          · simpa [Ne.symm hb] using hbody
          · rcases hline with rfl | ⟨rfl, rfl⟩
            · exact .inl rfl
            · exact .inr ⟨rfl, rfl⟩
        | cons first' pre =>
          obtain ⟨rfl, rfl⟩ := List.cons.inj h
          obtain ⟨hpre, hline⟩ :=
            ih (show splitLines rest = (first :: pre) ++ line :: post from hs)
          obtain ⟨-, hne, -⟩ :=
            ih (show splitLines rest = [] ++ first :: (pre ++ line :: post) from hs)
          refine ⟨?_, hline⟩
          obtain ⟨c, first, rfl⟩ := List.exists_cons_of_ne_nil hne
          intro d hd
          exact hpre d hd

/-- **A closed line the reader sees** stands behind the lines in front of
it. -/
theorem lineAt_of_splitLines {file line : Bytes} {pre post : List Bytes}
    (h : splitLines file = pre ++ line :: post) (hclosed : line.getLast? = some 0x0a) :
    LineAt file pre.flatten.length line := by
  obtain ⟨hpre, -, body, hbody, hline⟩ := splitLines_cut h
  refine ⟨⟨body, hbody, ?_⟩, pre.flatten, post.flatten, hpre, rfl, ?_⟩
  · rcases hline with rfl | ⟨rfl, -⟩
    · rfl
    · exact absurd (List.mem_of_getLast? hclosed) hbody
  · rw [← flatten_splitLines file, h]
    simp

/-- **And the reader sees every closed line.** -/
theorem LineAt.splitLines_eq {file line : Bytes} {offset : ℕ} (h : LineAt file offset line) :
    ∃ pre post, splitLines file = pre ++ line :: post ∧ pre.flatten.length = offset := by
  obtain ⟨⟨body, hbody, rfl⟩, before, after, hbefore, hlength, rfl⟩ := h
  refine ⟨splitLines before, splitLines after, ?_, by rw [flatten_splitLines, hlength]⟩
  rw [splitLines_append (terminated_append hbefore (terminated_append_newline _)),
    splitLines_append hbefore, splitLines_record hbody, List.append_assoc, List.singleton_append]

theorem LineAt.getLast? {file line : Bytes} {offset : ℕ} (h : LineAt file offset line) :
    line.getLast? = some 0x0a := by
  obtain ⟨⟨body, -, rfl⟩, -⟩ := h
  exact List.getLast?_concat ..

/-- The bytes of a line are those from its offset on. -/
theorem LineAt.take_drop {file line : Bytes} {offset : ℕ} (h : LineAt file offset line) :
    (file.drop offset).take line.length = line := by
  obtain ⟨-, before, after, -, rfl, rfl⟩ := h
  rw [List.append_assoc, List.drop_left, List.take_left]

theorem LineAt.le {file line : Bytes} {offset : ℕ} (h : LineAt file offset line) :
    offset + line.length ≤ file.length := by
  obtain ⟨-, before, after, -, rfl, rfl⟩ := h
  simp

/-- Every byte stands in one of the lines. -/
theorem exists_line_of_lt {lines : List Bytes} {i : ℕ} (hi : i < lines.flatten.length) :
    ∃ pre line post, lines = pre ++ line :: post ∧ pre.flatten.length ≤ i ∧
      i < pre.flatten.length + line.length := by
  induction lines generalizing i with
  | nil => exact absurd hi (Nat.not_lt_zero i)
  | cons first lines ih =>
    by_cases hfirst : i < first.length
    · exact ⟨[], first, lines, rfl, Nat.zero_le _, by simpa using hfirst⟩
    · rw [List.flatten_cons, List.length_append] at hi
      have hrest : i - first.length < lines.flatten.length := by omega
      obtain ⟨pre, line, post, rfl, hlow, hhigh⟩ := ih hrest
      refine ⟨first :: pre, line, post, rfl, ?_, ?_⟩ <;>
        rw [List.flatten_cons, List.length_append] <;> omega

/-! ## Records -/

/-- A value is written as one visible line and reads back from it. -/
structure Codec (α : Type*) where
  write : α → Bytes
  read : Bytes → Option α
  read_write : ∀ a, read (write a) = some a
  newline_not_mem : ∀ a, (0x0a : UInt8) ∉ write a
  /-- The text is not blank, and does not end in a carriage return a line
  reader would take for part of the line's end. -/
  visible : ∀ a, blank (write a) = false ∧ (write a).getLast? ≠ some 0x0d

namespace Codec

variable {α : Type*} (C : Codec α)

/-- One record: the text and its line feed. -/
def record (a : α) : Bytes := C.write a ++ [0x0a]

/-- Several records, in order. -/
def records (as : List α) : Bytes := as.flatMap C.record

@[simp] theorem records_nil : C.records [] = [] := rfl

@[simp] theorem records_cons (a : α) (as : List α) :
    C.records (a :: as) = C.record a ++ C.records as := rfl

theorem terminated_record (a : α) : Terminated (C.record a) :=
  terminated_append_newline _

theorem terminated_records (as : List α) : Terminated (C.records as) := by
  induction as with
  | nil => exact terminated_nil
  | cons a as ih => exact terminated_append (C.terminated_record a) ih

theorem chomp_record (a : α) : chomp (C.record a) = C.write a := by
  rw [chomp, record, if_pos (by simp), List.dropLast_concat, if_neg (C.visible a).2]

theorem splitLines_record (a : α) : splitLines (C.record a) = [C.record a] :=
  Ndjson.splitLines_record (C.newline_not_mem a)

theorem splitLines_records (as : List α) : splitLines (C.records as) = as.map C.record := by
  induction as with
  | nil => rfl
  | cons a as ih =>
    rw [records_cons, splitLines_append (C.terminated_record a), ih, C.splitLines_record]
    rfl

end Codec

/-! ## Parsing -/

section Parse

variable {α : Type*} (read : Bytes → Option α)

/-- The values on the lines, blank ones skipped, or the number and the
text of the first line that holds none; `n` is the number of the first
line given. -/
def parseLines : ℕ → List Bytes → Except (ℕ × Bytes) (List α)
  | _, [] => .ok []
  | n, line :: lines =>
    if blank (chomp line) then parseLines (n + 1) lines
    else
      match read (chomp line) with
      | none => .error (n, chomp line)
      | some a => (parseLines (n + 1) lines).map (a :: ·)

/-- The values a file holds. -/
def parse (file : Bytes) : Except (ℕ × Bytes) (List α) := parseLines read 1 (splitLines file)

theorem parseLines_append {n : ℕ} {xs ys : List Bytes} {as bs : List α}
    (hxs : parseLines read n xs = .ok as)
    (hys : parseLines read (n + xs.length) ys = .ok bs) :
    parseLines read n (xs ++ ys) = .ok (as ++ bs) := by
  induction xs generalizing n as with
  | nil =>
    cases hxs
    exact hys
  | cons line xs ih =>
    have hshift : n + 1 + xs.length = n + (line :: xs).length := by
      rw [List.length_cons]; omega
    rw [parseLines] at hxs
    rw [List.cons_append, parseLines]
    split
    · rw [if_pos ‹_›] at hxs
      exact ih hxs (hshift ▸ hys)
    · rw [if_neg ‹_›] at hxs
      cases hread : read (chomp line) with
      | none => rw [hread] at hxs; cases hxs
      | some a =>
        rw [hread] at hxs
        cases htail : parseLines read (n + 1) xs with
        | error m => rw [htail] at hxs; cases hxs
        | ok as' =>
          rw [htail] at hxs
          cases hxs
          simp only [ih htail (hshift ▸ hys)]
          rfl

end Parse

variable {α : Type*} (C : Codec α)

theorem parseLines_records (n : ℕ) (as : List α) :
    parseLines C.read n (as.map C.record) = .ok as := by
  induction as generalizing n with
  | nil => rfl
  | cons a as ih =>
    rw [List.map_cons, parseLines, C.chomp_record, (C.visible a).1, C.read_write]
    simp only [ih]
    rfl

/-- **Appending records appends values**, wherever the last line of the
file is closed. -/
theorem parse_append {file : Bytes} {as : List α} (hclosed : Terminated file)
    (hfile : parse C.read file = .ok as) (bs : List α) :
    parse C.read (file ++ C.records bs) = .ok (as ++ bs) := by
  rw [parse, splitLines_append hclosed, C.splitLines_records]
  exact parseLines_append C.read hfile (parseLines_records C _ bs)

/-- And a file of records parses to them. -/
theorem parse_records (as : List α) : parse C.read (C.records as) = .ok as := by
  rw [parse, C.splitLines_records]
  exact parseLines_records C 1 as

end Ndjson

end Embernet
