import Embernet.Lib.Ndjson
import Embernet.Lib.Op
import Mathlib.Data.List.DropRight
/-!
# Open lines — records behind a line that is not closed

A reader that takes lines leniently accepts a file whose last line has no
line feed. The next record is then written onto that line. A JSON reader
skips the white space of JSON before a value and behind it, and reads a
record from nothing but an object or an array, so the record is read back
exactly if the line holds nothing else: a value there would be joined with
the record, and other white space, which the line reader skips as well, is
none to the JSON reader.
-/

set_option autoImplicit false

namespace Embernet

/-- The white space of JSON. -/
def isJsonSpace (b : UInt8) : Bool := b == 0x20 || b == 0x09 || b == 0x0a || b == 0x0d

/-- What the JSON library does with what stands around a record. -/
structure SkipsSpace {α : Type} (read : Bytes → Option α) : Prop where
  leading : ∀ s x a, s.all isJsonSpace = true → read x = some a → read (s ++ x) = some a
  trailing : ∀ x s a, s.all isJsonSpace = true → read x = some a → read (x ++ s) = some a
  /-- A record is an object, or an array of its fields. -/
  other : ∀ s b x, s.all isJsonSpace = true → isJsonSpace b = false → b ≠ 0x7b → b ≠ 0x5b →
    read (s ++ b :: x) = none

namespace Ndjson

/-! ## White space, to a line reader -/

theorem blank_cons_of_isJsonSpace {b : UInt8} (hb : isJsonSpace b = true) (x : Bytes) :
    blank (b :: x) = blank x := by
  simp only [isJsonSpace, Bool.or_eq_true, beq_iff_eq] at hb
  rcases hb with ((rfl | rfl) | rfl) | rfl
  · simp [blank]
  · simp [blank]
  · simp [blank]
  · simp [blank]

/-- The white space of JSON is white space to a line reader. -/
theorem blank_append_of_isJsonSpace {s : Bytes} (hs : s.all isJsonSpace = true) (x : Bytes) :
    blank (s ++ x) = blank x := by
  induction s with
  | nil => rfl
  | cons b s ih =>
    rw [List.all_cons, Bool.and_eq_true] at hs
    rw [List.cons_append, blank_cons_of_isJsonSpace hs.1, ih hs.2]

/-- A blank text that is other white space than JSON's begins no
record. -/
theorem exists_other_of_blank {t : Bytes} (h : blank t = true) (hs : ¬ t.all isJsonSpace = true) :
    ∃ s b x, t = s ++ b :: x ∧ s.all isJsonSpace = true ∧ isJsonSpace b = false ∧ b ≠ 0x7b ∧
      b ≠ 0x5b := by
  induction t with
  | nil => exact absurd rfl hs
  | cons b t ih =>
    by_cases hb : isJsonSpace b = true
    · rw [blank_cons_of_isJsonSpace hb] at h
      rw [List.all_cons, hb, Bool.true_and] at hs
      obtain ⟨s, c, x, rfl, hrest, hc⟩ := ih h hs
      exact ⟨b :: s, c, x, rfl, by simpa [hb] using hrest, hc⟩
    · refine ⟨[], b, t, rfl, rfl, by simpa using hb, ?_, ?_⟩
      · rintro rfl
        simp [blank] at h
      · rintro rfl
        simp [blank] at h

/-! ## The last line -/

/-- What stands behind the last line feed. -/
def openTail (file : Bytes) : Bytes := file.rtakeWhile (· != 0x0a)

/-- And what is in front of it, the line feed included. -/
def closedPart (file : Bytes) : Bytes := file.rdropWhile (· != 0x0a)

theorem closedPart_append_openTail (file : Bytes) : closedPart file ++ openTail file = file :=
  List.rdropWhile_append_rtakeWhile

theorem terminated_closedPart (file : Bytes) : Terminated (closedPart file) := by
  intro b hb
  have hne : closedPart file ≠ [] := by
    intro hnil
    rw [hnil] at hb
    cases hb
  have hlast := List.rdropWhile_last_not (fun b : UInt8 => b != 0x0a) file hne
  rw [List.getLast?_eq_some_getLast hne, Option.mem_some_iff] at hb
  rw [← hb]
  exact not_not.1 fun h => hlast (bne_iff_ne.2 h)

theorem newline_not_mem_openTail (file : Bytes) : (0x0a : UInt8) ∉ openTail file := by
  intro hmem
  simpa using List.mem_rtakeWhile_imp hmem

/-- A file that is closed has nothing there. -/
theorem openTail_of_terminated {file : Bytes} (h : Terminated file) : openTail file = [] := by
  rw [openTail, List.rtakeWhile_eq_nil_iff]
  intro hne
  have hlast := h (file.getLast hne) (by rw [List.getLast?_eq_some_getLast hne]; exact rfl)
  simp [hlast]

/-- What is written behind a closed file is there, up to its last line
feed. -/
theorem openTail_append {x t : Bytes} (hx : Terminated x) (ht : (0x0a : UInt8) ∉ t) :
    openTail (x ++ t) = t := by
  induction t using List.reverseRecOn with
  | nil => rw [List.append_nil, openTail_of_terminated hx]
  | append_singleton t b ih =>
    have hb : (b != 0x0a) = true := bne_iff_ne.2 fun hb => ht (by simp [hb])
    rw [← List.append_assoc, openTail, List.rtakeWhile_concat, if_pos hb, ← openTail,
      ih fun hmem => ht (List.mem_append_left _ hmem)]

/-! ## Records behind it -/

section Parse

variable {α : Type} {read : Bytes → Option α} {n : ℕ} {xs ys : List Bytes} {as bs cs : List α}

/-- A file parses part by part. -/
theorem parseLines_append_ok : parseLines read n (xs ++ ys) = .ok cs ↔
    ∃ as bs, parseLines read n xs = .ok as ∧ parseLines read (n + xs.length) ys = .ok bs ∧
      cs = as ++ bs := by
  constructor
  · intro h
    induction xs generalizing n cs with
    | nil => exact ⟨[], cs, rfl, h, rfl⟩
    | cons line xs ih =>
      rw [List.cons_append, parseLines] at h
      rw [parseLines, List.length_cons, Nat.add_comm xs.length, ← Nat.add_assoc]
      by_cases hblank : blank (chomp line) = true
      · rw [if_pos hblank] at h ⊢
        exact ih h
      · rw [if_neg hblank] at h ⊢
        cases hread : read (chomp line) with
        | none =>
          rw [hread] at h
          cases h
        | some a =>
          rw [hread] at h
          obtain ⟨rest, hrest, rfl⟩ := map_eq_ok.1 h
          obtain ⟨as, bs, has, hbs, rfl⟩ := ih hrest
          exact ⟨a :: as, bs, map_eq_ok.2 ⟨as, has, rfl⟩, hbs, rfl⟩
  · rintro ⟨as, bs, has, hbs, rfl⟩
    exact parseLines_append read has hbs

/-- A line that is not blank holds one value. -/
theorem parseLines_cons_ok {line : Bytes} (h : blank (chomp line) = false) :
    parseLines read n (line :: xs) = .ok cs ↔
      ∃ a as, read (chomp line) = some a ∧ parseLines read (n + 1) xs = .ok as ∧ cs = a :: as := by
  rw [parseLines, if_neg (by simp [h])]
  cases read (chomp line) with
  | none => simp
  | some a =>
    constructor
    · intro hmap
      obtain ⟨as, has, rfl⟩ := map_eq_ok.1 hmap
      exact ⟨a, as, rfl, has, rfl⟩
    · rintro ⟨_, as, ⟨⟩, has, rfl⟩
      exact map_eq_ok.2 ⟨as, has, rfl⟩

/-- No line holds more. -/
theorem length_le_of_parseLines (h : parseLines read n xs = .ok as) : as.length ≤ xs.length := by
  induction xs generalizing n as with
  | nil =>
    cases h
    exact le_rfl
  | cons line xs ih =>
    rw [List.length_cons]
    by_cases hblank : blank (chomp line) = true
    · rw [parseLines, if_pos hblank] at h
      exact (ih h).trans (Nat.le_succ _)
    · obtain ⟨a, rest, -, hrest, rfl⟩ := (parseLines_cons_ok (by simpa using hblank)).1 h
      exact Nat.succ_le_succ (ih hrest)

end Parse

section Append

variable {α : Type} (C : Codec α) {file : Bytes} {as : List α} {a : α} {bs : List α}

/-- The lines of a file with records behind it: the first record is on the
last line. -/
theorem splitLines_append_records (file : Bytes) (a : α) (bs : List α) :
    splitLines (file ++ C.records (a :: bs)) =
      splitLines (closedPart file) ++ (openTail file ++ C.record a) :: bs.map C.record := by
  have hline : (0x0a : UInt8) ∉ openTail file ++ C.write a := fun hmem =>
    (List.mem_append.1 hmem).elim (newline_not_mem_openTail file) (C.newline_not_mem a)
  have hsplit : file ++ C.records (a :: bs) =
      closedPart file ++ (openTail file ++ C.write a ++ [0x0a] ++ C.records bs) := by
    rw [C.records_cons, Codec.record]
    conv_lhs => rw [← closedPart_append_openTail file]
    simp only [List.append_assoc]
  rw [hsplit, splitLines_append (terminated_closedPart file),
    splitLines_append (terminated_append_newline _), splitLines_record hline, C.splitLines_records,
    List.singleton_append, Codec.record, List.append_assoc]

/-- The text of that line. -/
theorem chomp_open_record (t : Bytes) (a : α) : chomp (t ++ C.record a) = t ++ C.write a := by
  obtain ⟨hvisible, hlast⟩ := C.visible a
  have hne : C.write a ≠ [] := by
    intro hnil
    rw [hnil] at hvisible
    cases hvisible
  rw [Codec.record, ← List.append_assoc, chomp, if_pos (by simp), List.dropLast_concat, if_neg]
  rwa [List.getLast?_append_of_ne_nil t hne]

/-- A record without its line feed is read, as the last line. -/
theorem parse_write (a : α) : parse C.read (C.write a) = .ok [a] := by
  obtain ⟨hvisible, -⟩ := C.visible a
  have hne : C.write a ≠ [] := by
    intro hnil
    rw [hnil] at hvisible
    cases hvisible
  have hchomp : chomp (C.write a) = C.write a := by
    rw [chomp, if_neg fun hlast => C.newline_not_mem a (List.mem_of_getLast? hlast)]
  rw [parse, splitLines_open (C.newline_not_mem a) hne]
  exact (parseLines_cons_ok (by rwa [hchomp])).2 ⟨a, [], by rw [hchomp, C.read_write], rfl, rfl⟩

theorem openTail_write (a : α) : openTail (C.write a) = C.write a :=
  openTail_append terminated_nil (C.newline_not_mem a)

/-- What the last line holds, where it is not closed. -/
theorem parseLines_openTail {read : Bytes → Option α} {n : ℕ} :
    parseLines read n (splitLines (openTail file)) = .ok as ↔
      if blank (openTail file) then as = []
      else ∃ a, read (openTail file) = some a ∧ as = [a] := by
  by_cases hnil : openTail file = []
  · rw [hnil]
    simp [splitLines, parseLines, blank, eq_comm]
  have hchomp : chomp (openTail file) = openTail file := by
    rw [chomp, if_neg fun hlast => newline_not_mem_openTail file (List.mem_of_getLast? hlast)]
  rw [splitLines_open (newline_not_mem_openTail file) hnil]
  by_cases hblank : blank (openTail file) = true
  · rw [parseLines, hchomp, if_pos hblank, if_pos hblank]
    simp [parseLines, eq_comm]
  · rw [if_neg hblank, parseLines_cons_ok (by rw [hchomp]; simpa using hblank), hchomp]
    simp [parseLines]

/-- The file, up to its last line feed and from there. -/
theorem parse_parts {read : Bytes → Option α} : parse read file = .ok as ↔
    ∃ as₁ as₂, parseLines read 1 (splitLines (closedPart file)) = .ok as₁ ∧
      parseLines read (1 + (splitLines (closedPart file)).length)
        (splitLines (openTail file)) = .ok as₂ ∧ as = as₁ ++ as₂ := by
  have hsplit : splitLines file = splitLines (closedPart file) ++ splitLines (openTail file) := by
    rw [← splitLines_append (terminated_closedPart file), closedPart_append_openTail]
  rw [parse, hsplit, parseLines_append_ok]

/-- **Records behind any file that parses** are read back, behind what it
held, exactly if there are none or the last line holds nothing but white
space of JSON. -/
theorem parse_append_iff (hskip : SkipsSpace C.read) (h : parse C.read file = .ok as)
    (bs : List α) :
    parse C.read (file ++ C.records bs) = .ok (as ++ bs) ↔
      bs = [] ∨ (openTail file).all isJsonSpace = true := by
  rcases bs with _ | ⟨b, bs⟩
  · simp [h]
  obtain ⟨as₁, as₂, hclosed, hopen, rfl⟩ := parse_parts.1 h
  rw [parseLines_openTail] at hopen
  rw [parse, splitLines_append_records, parseLines_append_ok]
  simp only [hclosed, Except.ok.injEq, List.cons_ne_nil, false_or]
  set t := openTail file
  constructor
  · rintro ⟨_, cs, rfl, hcs, heq⟩
    rw [List.append_assoc] at heq
    obtain rfl := (List.append_cancel_left heq).symm
    -- there is a line for each record, and no other
    have hlength := length_le_of_parseLines hcs
    rw [List.length_append, List.length_cons, List.length_cons, List.length_map] at hlength
    have hempty : as₂ = [] := List.eq_nil_of_length_eq_zero (by omega)
    subst hempty
    rw [List.nil_append] at hcs
    by_contra hspace
    by_cases hblank : blank t = true
    swap
    · rw [if_neg hblank] at hopen
      obtain ⟨a, -, hnil⟩ := hopen
      cases hnil
    obtain ⟨s, c, x, ht, hs, hc, hobject, harray⟩ := exists_other_of_blank hblank hspace
    by_cases hline : blank (chomp (t ++ C.record b)) = true
    · rw [parseLines, if_pos hline, parseLines_records] at hcs
      have := congrArg List.length (Except.ok.inj hcs)
      rw [List.length_cons] at this
      omega
    · obtain ⟨a, _, hread, -⟩ := (parseLines_cons_ok (by simpa using hline)).1 hcs
      rw [chomp_open_record, ht, List.append_assoc, List.cons_append,
        hskip.other s c _ hs hc hobject harray] at hread
      cases hread
  · intro hspace
    have hblank : blank t = true := by
      have := blank_append_of_isJsonSpace hspace []
      rwa [List.append_nil] at this
    rw [if_pos hblank] at hopen
    subst hopen
    refine ⟨as₁, b :: bs, rfl, ?_, by simp⟩
    have hvisible : blank (chomp (t ++ C.record b)) = false := by
      rw [chomp_open_record, blank_append_of_isJsonSpace hspace, (C.visible b).1]
    refine (parseLines_cons_ok hvisible).2 ⟨b, bs, ?_, parseLines_records C _ bs, rfl⟩
    rw [chomp_open_record]
    exact hskip.leading t _ b hspace (C.read_write b)

end Append

end Ndjson

end Embernet
