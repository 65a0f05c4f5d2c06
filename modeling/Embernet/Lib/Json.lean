import Embernet.Lib.Bytes
/-!
# Compact JSON — a writer that loses nothing

Values as `serde_json::to_vec` writes them: no blanks, the members of an
object in the order they are given, strings escaped byte by byte, numbers
in decimal. What the rest of the development takes from here is that two
values with one text are one value (`compact_injective`), and that a text
never holds a line feed (`newline_not_mem_compact`), so that a file may
keep one value a line.

The writer is prefix free up to the byte that follows a number, and every
injectivity proof below carries the rest of the input along for that
reason.
-/

namespace Embernet

/-- A JSON value. -/
inductive Json
  | null
  | num (n : ℤ)
  | str (s : String)
  | arr (xs : List Json)
  | obj (fields : List (String × Json))

namespace Json

/-- An optional value, `null` where there is none. -/
def opt {α : Type*} (f : α → Json) : Option α → Json
  | none => null
  | some a => f a

theorem opt_injective {α : Type*} {f : α → Json} (hf : Function.Injective f)
    (hnull : ∀ a, f a ≠ null) : Function.Injective (opt f) := by
  rintro (_ | a) (_ | b) h
  · rfl
  · exact absurd h.symm (hnull b)
  · exact absurd h (hnull a)
  · exact congrArg some (hf h)

/-! ## The writer -/

/-- One byte of a string literal: `"` and the backslash are escaped, a
control byte is written by its short form or in hexadecimal, and every
other byte stands for itself. -/
def escapeByte (b : UInt8) : Bytes :=
  if b = 0x22 then [0x5c, 0x22]
  else if b = 0x5c then [0x5c, 0x5c]
  else if b = 0x08 then [0x5c, 0x62]
  else if b = 0x09 then [0x5c, 0x74]
  else if b = 0x0a then [0x5c, 0x6e]
  else if b = 0x0c then [0x5c, 0x66]
  else if b = 0x0d then [0x5c, 0x72]
  else if b < 0x20 then
    [0x5c, 0x75, 0x30, 0x30] ++ (hexPair b).map Char.toUInt8
  else [b]

/-- A string literal. -/
def writeString (s : String) : Bytes :=
  0x22 :: ((utf8 s).flatMap escapeByte ++ [0x22])

/-- The decimal digits of a number. -/
def writeNat (n : ℕ) : Bytes := (Nat.toDigits 10 n).map Char.toUInt8

/-- A number, behind a minus sign where it is negative. -/
def writeInt : ℤ → Bytes
  | .ofNat n => writeNat n
  | .negSucc n => 0x2d :: writeNat (n + 1)

mutual

/-- `serde_json::to_vec`. -/
def compact : Json → Bytes
  | null => [0x6e, 0x75, 0x6c, 0x6c]
  | num n => writeInt n
  | str s => writeString s
  | arr [] => [0x5b, 0x5d]
  | arr (x :: xs) => 0x5b :: (compact x ++ compactElems xs)
  | obj [] => [0x7b, 0x7d]
  | obj ((k, v) :: fields) => 0x7b :: (writeString k ++ 0x3a :: (compact v ++ compactFields fields))

/-- The elements after the first, and the closing bracket. -/
def compactElems : List Json → Bytes
  | [] => [0x5d]
  | x :: xs => 0x2c :: (compact x ++ compactElems xs)

/-- The members after the first, and the closing brace. -/
def compactFields : List (String × Json) → Bytes
  | [] => [0x7d]
  | (k, v) :: fields => 0x2c :: (writeString k ++ 0x3a :: (compact v ++ compactFields fields))

end

/-! ## Strings -/

/-- Reads the four digits of a `\u` escape back; the first two are zeros. -/
def readHex : Bytes → Option (UInt8 × Bytes)
  | _ :: _ :: hi :: lo :: rest =>
    (hexDecodeChars [Char.ofUInt8 hi, Char.ofUInt8 lo]).bind fun value =>
      value.head?.map fun b => (b, rest)
  | _ => none

/-- Reads what follows a backslash. -/
def readEscape : Bytes → Option (UInt8 × Bytes)
  | [] => none
  | c :: rest =>
    if c = 0x75 then readHex rest
    else some (if c = 0x62 then 0x08 else if c = 0x74 then 0x09 else if c = 0x6e then 0x0a
      else if c = 0x66 then 0x0c else if c = 0x72 then 0x0d else c, rest)

/-- Reads one byte of a string literal back, with what follows it. -/
def readByte : Bytes → Option (UInt8 × Bytes)
  | [] => none
  | b :: rest => if b = 0x5c then readEscape rest else some (b, rest)

theorem readHex_append {x y rest : Bytes} {b : UInt8} (h : readHex x = some (b, y)) :
    readHex (x ++ rest) = some (b, y ++ rest) := by
  match x, h with
  | _ :: _ :: hi :: lo :: tail, h =>
    simp only [readHex, Option.bind_eq_some_iff, Option.map_eq_some_iff, Prod.mk.injEq,
      List.cons_append] at h ⊢
    obtain ⟨value, hvalue, c, hc, rfl, rfl⟩ := h
    exact ⟨value, hvalue, c, hc, rfl, rfl⟩

theorem readEscape_append {x y rest : Bytes} {b : UInt8} (h : readEscape x = some (b, y)) :
    readEscape (x ++ rest) = some (b, y ++ rest) := by
  cases x with
  | nil => cases h
  | cons c tail =>
    rw [readEscape] at h
    rw [List.cons_append, readEscape]
    split
    · rw [if_pos ‹_›] at h
      exact readHex_append h
    · rw [if_neg ‹_›] at h
      obtain ⟨rfl, rfl⟩ := Prod.mk.injEq .. ▸ Option.some.inj h
      rfl

theorem readByte_append {x y rest : Bytes} {b : UInt8} (h : readByte x = some (b, y)) :
    readByte (x ++ rest) = some (b, y ++ rest) := by
  cases x with
  | nil => cases h
  | cons c tail =>
    rw [readByte] at h
    rw [List.cons_append, readByte]
    split
    · rw [if_pos ‹_›] at h
      exact readEscape_append h
    · rw [if_neg ‹_›] at h
      obtain ⟨rfl, rfl⟩ := Prod.mk.injEq .. ▸ Option.some.inj h
      rfl

/-- The two facts about single bytes, checked on all of them: an escaped
byte reads back, and does not begin with the closing quote. -/
theorem readByte_escapeByte_all : ∀ n : Fin 256,
    readByte (escapeByte (UInt8.ofFin n)) = some (UInt8.ofFin n, []) ∧
      (escapeByte (UInt8.ofFin n)).head? ≠ some 0x22 ∧
      (0x0a : UInt8) ∉ escapeByte (UInt8.ofFin n) := by
  decide +kernel

theorem readByte_escapeByte (b : UInt8) (rest : Bytes) :
    readByte (escapeByte b ++ rest) = some (b, rest) :=
  readByte_append (readByte_escapeByte_all b.toFin).1

theorem head_escapeByte_ne (b : UInt8) (rest : Bytes) :
    (escapeByte b ++ rest).head? ≠ some 0x22 := by
  have hread := (readByte_escapeByte_all b.toFin).1
  have hhead := (readByte_escapeByte_all b.toFin).2.1
  change readByte (escapeByte b) = _ at hread
  change (escapeByte b).head? ≠ _ at hhead
  cases hb : escapeByte b with
  | nil => rw [hb] at hread; cases hread
  | cons c tail => rw [hb] at hhead; simpa using hhead

/-- **A string literal is self-delimiting.** -/
theorem flatMap_escapeByte_inj {a b r r' : Bytes}
    (h : a.flatMap escapeByte ++ 0x22 :: r = b.flatMap escapeByte ++ 0x22 :: r') :
    a = b ∧ r = r' := by
  induction a generalizing b with
  | nil =>
    cases b with
    | nil => simpa using h
    | cons y b =>
      rw [List.flatMap_cons, List.append_assoc] at h
      exact absurd (congrArg List.head? h.symm) (head_escapeByte_ne y _)
  | cons x a ih =>
    cases b with
    | nil =>
      rw [List.flatMap_cons, List.append_assoc] at h
      exact absurd (congrArg List.head? h) (head_escapeByte_ne x _)
    | cons y b =>
      rw [List.flatMap_cons, List.flatMap_cons, List.append_assoc, List.append_assoc] at h
      have hread := congrArg readByte h
      rw [readByte_escapeByte, readByte_escapeByte] at hread
      obtain ⟨hxy, htail⟩ := Prod.mk.injEq .. ▸ Option.some.inj hread
      obtain ⟨hab, hrr⟩ := ih htail
      exact ⟨by rw [hxy, hab], hrr⟩

theorem writeString_inj {s t : String} {r r' : Bytes}
    (h : writeString s ++ r = writeString t ++ r') : s = t ∧ r = r' := by
  simp only [writeString, List.cons_append, List.append_assoc, List.nil_append,
    List.cons.injEq, true_and] at h
  obtain ⟨hst, hrr⟩ := flatMap_escapeByte_inj h
  exact ⟨utf8_injective hst, hrr⟩

/-! ## Numbers -/

/-- A byte that is a decimal digit. -/
def isDigitByte (b : UInt8) : Bool := decide (0x30 ≤ b ∧ b ≤ 0x39)

/-- The rest of the input does not continue a number. -/
def Delimited (r : Bytes) : Prop := r.takeWhile isDigitByte = []

theorem delimited_nil : Delimited [] := rfl

theorem delimited_cons {b : UInt8} {r : Bytes} (hb : isDigitByte b = false) :
    Delimited (b :: r) := by simp [Delimited, hb]

/-- A decimal digit is an ASCII byte and comes back from it. -/
theorem toUInt8_of_isDigit {c : Char} (hc : c.isDigit = true) :
    isDigitByte c.toUInt8 = true ∧ Char.ofUInt8 c.toUInt8 = c := by
  simp only [Char.isDigit, Bool.and_eq_true, decide_eq_true_eq] at hc
  have h1 : 48 ≤ c.val.toNat := hc.1
  have h2 : c.val.toNat ≤ 57 := hc.2
  have hval : c.toUInt8.toNat = c.val.toNat := by
    change c.val.toNat % 256 = c.val.toNat
    omega
  constructor
  · simp only [isDigitByte, decide_eq_true_eq, UInt8.le_iff_toNat_le, hval]
    exact ⟨h1, h2⟩
  · refine Char.ext (UInt32.toNat_inj.1 ?_)
    change c.toUInt8.toNat = c.val.toNat
    exact hval

theorem isDigitByte_of_mem_writeNat {n : ℕ} {b : UInt8} (h : b ∈ writeNat n) :
    isDigitByte b = true := by
  obtain ⟨c, hc, rfl⟩ := List.mem_map.1 h
  exact (toUInt8_of_isDigit (Nat.isDigit_of_mem_toDigits (by omega) le_rfl hc)).1

theorem writeNat_injective : Function.Injective writeNat := by
  have hback : ∀ n, (writeNat n).map Char.ofUInt8 = Nat.toDigits 10 n := by
    intro n
    rw [writeNat, List.map_map]
    conv_rhs => rw [← List.map_id (Nat.toDigits 10 n)]
    exact List.map_congr_left fun c hc =>
      (toUInt8_of_isDigit (Nat.isDigit_of_mem_toDigits (by omega) le_rfl hc)).2
  intro m n h
  rw [← Nat.ofDigitChars_ten_toDigits (n := m), ← hback m, h, hback n,
    Nat.ofDigitChars_ten_toDigits]

/-- **A number ends where its digits do.** -/
theorem writeNat_append_inj {m n : ℕ} {r r' : Bytes} (hr : Delimited r) (hr' : Delimited r')
    (h : writeNat m ++ r = writeNat n ++ r') : m = n ∧ r = r' := by
  have hdigits : writeNat m = writeNat n := by
    have htake := congrArg (List.takeWhile isDigitByte) h
    rw [List.takeWhile_append_of_pos fun b hb => isDigitByte_of_mem_writeNat hb,
      List.takeWhile_append_of_pos fun b hb => isDigitByte_of_mem_writeNat hb, hr, hr',
      List.append_nil, List.append_nil] at htake
    exact htake
  rw [hdigits] at h
  exact ⟨writeNat_injective hdigits, List.append_cancel_left h⟩

/-- A number's digits are not none, and the first is a digit. -/
theorem writeNat_eq_cons (n : ℕ) : ∃ b rest, writeNat n = b :: rest ∧ isDigitByte b = true := by
  cases hn : writeNat n with
  | nil => exact absurd (List.map_eq_nil_iff.1 hn) Nat.toDigits_ne_nil
  | cons b rest =>
    exact ⟨b, rest, rfl, isDigitByte_of_mem_writeNat (n := n) (hn ▸ List.mem_cons_self)⟩

theorem writeInt_append_inj {m n : ℤ} {r r' : Bytes} (hr : Delimited r) (hr' : Delimited r')
    (h : writeInt m ++ r = writeInt n ++ r') : m = n ∧ r = r' := by
  have hsign : ∀ (k : ℕ) (x y : Bytes), writeNat k ++ x ≠ 0x2d :: y := by
    intro k x y he
    obtain ⟨b, rest, hk, hb⟩ := writeNat_eq_cons k
    rw [hk, List.cons_append, List.cons.injEq] at he
    rw [he.1] at hb
    exact absurd hb (by decide)
  cases m with
  | ofNat m =>
    cases n with
    | ofNat n =>
      obtain ⟨hmn, hrr⟩ := writeNat_append_inj hr hr' h
      exact ⟨by rw [hmn], hrr⟩
    | negSucc n => exact absurd h (hsign m _ _)
  | negSucc m =>
    cases n with
    | ofNat n => exact absurd h.symm (hsign n _ _)
    | negSucc n =>
      simp only [writeInt, List.cons_append, List.cons.injEq, true_and] at h
      obtain ⟨hmn, hrr⟩ := writeNat_append_inj hr hr' h
      exact ⟨by rw [Nat.succ.inj hmn], hrr⟩

/-! ## Values -/

/-- What kind of value a text begins, read off its first byte. -/
def lead : Json → UInt8 → Prop
  | null, b => b = 0x6e
  | num _, b => b = 0x2d ∨ isDigitByte b = true
  | str _, b => b = 0x22
  | arr _, b => b = 0x5b
  | obj _, b => b = 0x7b

theorem compact_lead (x : Json) : ∃ b rest, compact x = b :: rest ∧ lead x b := by
  cases x with
  | null => exact ⟨_, _, rfl, rfl⟩
  | num n =>
    cases n with
    | ofNat n =>
      obtain ⟨b, rest, hn, hb⟩ := writeNat_eq_cons n
      exact ⟨b, rest, hn, Or.inr hb⟩
    | negSucc n => exact ⟨_, _, rfl, Or.inl rfl⟩
  | str s => exact ⟨_, _, rfl, rfl⟩
  | arr xs => cases xs <;> exact ⟨_, _, by rw [compact], rfl⟩
  | obj fields => rcases fields with _ | ⟨⟨k, v⟩, fields⟩ <;> exact ⟨_, _, by rw [compact], rfl⟩

/-- Two values whose texts begin alike are of one kind. -/
theorem lead_kind {x y : Json} {b : UInt8} (hx : lead x b) (hy : lead y b) :
    x.ctorIdx = y.ctorIdx := by
  have hclash : ∀ c ∈ [(0x6e : UInt8), 0x22, 0x5b, 0x7b],
      ¬ (c = 0x2d ∨ isDigitByte c = true) := by
    intro c hc
    simp only [List.mem_cons, List.not_mem_nil, or_false] at hc
    rcases hc with rfl | rfl | rfl | rfl <;> decide
  cases x <;> cases y <;> simp only [lead] at hx hy <;>
    first
      | rfl
      | (subst hx; exact absurd hy (by decide))
      | (subst hy; exact absurd hx (hclash _ (by simp)))

theorem kind_of_compact {x y : Json} {r r' : Bytes} (h : compact x ++ r = compact y ++ r') :
    x.ctorIdx = y.ctorIdx := by
  obtain ⟨b, restx, hx, hlx⟩ := compact_lead x
  obtain ⟨c, resty, hy, hly⟩ := compact_lead y
  rw [hx, hy, List.cons_append, List.cons_append, List.cons.injEq] at h
  exact lead_kind hlx (h.1 ▸ hly)

theorem delimited_compactElems (xs : List Json) (r : Bytes) :
    Delimited (compactElems xs ++ r) := by
  cases xs <;> rw [compactElems] <;> exact delimited_cons (by decide)

theorem delimited_compactFields (fields : List (String × Json)) (r : Bytes) :
    Delimited (compactFields fields ++ r) := by
  rcases fields with _ | ⟨⟨k, v⟩, fields⟩ <;> rw [compactFields] <;>
    exact delimited_cons (by decide)

mutual

theorem compact_append_inj (x y : Json) {r r' : Bytes} (hr : Delimited r) (hr' : Delimited r')
    (h : compact x ++ r = compact y ++ r') : x = y ∧ r = r' := by
  have hkind := kind_of_compact h
  match x, y with
  | null, null => exact ⟨rfl, List.append_cancel_left h⟩
  | num m, num n =>
    obtain ⟨hmn, hrr⟩ := writeInt_append_inj hr hr' (by simpa only [compact] using h)
    exact ⟨by rw [hmn], hrr⟩
  | str s, str t =>
    obtain ⟨hst, hrr⟩ := writeString_inj (by simpa only [compact] using h)
    exact ⟨by rw [hst], hrr⟩
  | arr [], arr [] => exact ⟨rfl, by simpa [compact] using h⟩
  | arr [], arr (y :: ys) =>
    obtain ⟨b, rest, hy, hlead⟩ := compact_lead y
    simp only [compact, hy, List.cons_append, List.cons.injEq, true_and] at h
    exact absurd (h.1 ▸ hlead) (by cases y <;> simp [lead, isDigitByte])
  | arr (x :: xs), arr [] =>
    obtain ⟨b, rest, hx, hlead⟩ := compact_lead x
    simp only [compact, hx, List.cons_append, List.cons.injEq, true_and] at h
    exact absurd (h.1 ▸ hlead) (by cases x <;> simp [lead, isDigitByte])
  | arr (x :: xs), arr (y :: ys) =>
    simp only [compact, List.cons_append, List.append_assoc, List.cons.injEq, true_and] at h
    obtain ⟨hxy, htail⟩ := compact_append_inj x y (delimited_compactElems xs r)
      (delimited_compactElems ys r') h
    obtain ⟨hxs, hrr⟩ := compactElems_append_inj xs ys htail hr hr'
    exact ⟨by rw [hxy, hxs], hrr⟩
  | obj [], obj [] => exact ⟨rfl, by simpa [compact] using h⟩
  | obj [], obj ((k, v) :: fields) =>
    simp only [compact, writeString, List.cons_append, List.cons.injEq] at h
    exact absurd h.2.1 (by decide)
  | obj ((k, v) :: fields), obj [] =>
    simp only [compact, writeString, List.cons_append, List.cons.injEq] at h
    exact absurd h.2.1 (by decide)
  | obj ((k, v) :: fields), obj ((l, w) :: fields') =>
    simp only [compact, List.cons_append, List.append_assoc, List.cons.injEq, true_and] at h
    obtain ⟨hkl, hvalue⟩ := writeString_inj h
    simp only [List.cons.injEq, true_and] at hvalue
    obtain ⟨hvw, htail⟩ := compact_append_inj v w (delimited_compactFields fields r)
      (delimited_compactFields fields' r') hvalue
    obtain ⟨hfields, hrr⟩ := compactFields_append_inj fields fields' htail hr hr'
    exact ⟨by rw [hkl, hvw, hfields], hrr⟩

theorem compactElems_append_inj (xs ys : List Json) {r r' : Bytes}
    (h : compactElems xs ++ r = compactElems ys ++ r') (hr : Delimited r) (hr' : Delimited r') :
    xs = ys ∧ r = r' := by
  match xs, ys with
  | [], [] => exact ⟨rfl, by simpa [compactElems] using h⟩
  | [], y :: ys =>
    simp only [compactElems, List.cons_append, List.cons.injEq] at h
    exact absurd h.1 (by decide)
  | x :: xs, [] =>
    simp only [compactElems, List.cons_append, List.cons.injEq] at h
    exact absurd h.1 (by decide)
  | x :: xs, y :: ys =>
    simp only [compactElems, List.cons_append, List.append_assoc, List.cons.injEq,
      true_and] at h
    obtain ⟨hxy, htail⟩ := compact_append_inj x y (delimited_compactElems xs r)
      (delimited_compactElems ys r') h
    obtain ⟨hxs, hrr⟩ := compactElems_append_inj xs ys htail hr hr'
    exact ⟨by rw [hxy, hxs], hrr⟩

theorem compactFields_append_inj (xs ys : List (String × Json)) {r r' : Bytes}
    (h : compactFields xs ++ r = compactFields ys ++ r') (hr : Delimited r)
    (hr' : Delimited r') : xs = ys ∧ r = r' := by
  match xs, ys with
  | [], [] => exact ⟨rfl, by simpa [compactFields] using h⟩
  | [], (l, w) :: ys =>
    simp only [compactFields, List.cons_append, List.cons.injEq] at h
    exact absurd h.1 (by decide)
  | (k, v) :: xs, [] =>
    simp only [compactFields, List.cons_append, List.cons.injEq] at h
    exact absurd h.1 (by decide)
  | (k, v) :: xs, (l, w) :: ys =>
    simp only [compactFields, List.cons_append, List.append_assoc, List.cons.injEq,
      true_and] at h
    obtain ⟨hkl, hvalue⟩ := writeString_inj h
    simp only [List.cons.injEq, true_and] at hvalue
    obtain ⟨hvw, htail⟩ := compact_append_inj v w (delimited_compactFields xs r)
      (delimited_compactFields ys r') hvalue
    obtain ⟨hxs, hrr⟩ := compactFields_append_inj xs ys htail hr hr'
    exact ⟨by rw [hkl, hvw, hxs], hrr⟩

end

/-- **Two values with one text are one value.** -/
theorem compact_injective : Function.Injective compact := by
  intro x y h
  exact (compact_append_inj x y delimited_nil delimited_nil (by rw [h])).1

/-! ## One line a value -/

theorem newline_not_mem_writeString (s : String) : (0x0a : UInt8) ∉ writeString s := by
  simp only [writeString, List.mem_cons, List.mem_append, List.mem_flatMap, not_or]
  refine ⟨by decide, ?_, by decide, by simp⟩
  rintro ⟨b, -, hb⟩
  exact (readByte_escapeByte_all b.toFin).2.2 hb

theorem newline_not_mem_writeNat (n : ℕ) : (0x0a : UInt8) ∉ writeNat n := fun h =>
  absurd (isDigitByte_of_mem_writeNat h) (by decide)

theorem newline_not_mem_writeInt (n : ℤ) : (0x0a : UInt8) ∉ writeInt n := by
  cases n with
  | ofNat n => exact newline_not_mem_writeNat n
  | negSucc n =>
    simp only [writeInt, List.mem_cons, not_or]
    exact ⟨by decide, newline_not_mem_writeNat _⟩

mutual

/-- **A text holds no line feed**: strings escape it, and nothing else
writes one. -/
theorem newline_not_mem_compact (x : Json) : (0x0a : UInt8) ∉ compact x := by
  match x with
  | null => rw [compact]; decide
  | num n => rw [compact]; exact newline_not_mem_writeInt n
  | str s => rw [compact]; exact newline_not_mem_writeString s
  | arr [] => rw [compact]; decide
  | arr (x :: xs) =>
    simp only [compact, List.mem_cons, List.mem_append, not_or]
    exact ⟨by decide, newline_not_mem_compact x, newline_not_mem_compactElems xs⟩
  | obj [] => rw [compact]; decide
  | obj ((k, v) :: fields) =>
    simp only [compact, List.mem_cons, List.mem_append, not_or]
    exact ⟨by decide, newline_not_mem_writeString k, by decide, newline_not_mem_compact v,
      newline_not_mem_compactFields fields⟩

theorem newline_not_mem_compactElems (xs : List Json) : (0x0a : UInt8) ∉ compactElems xs := by
  match xs with
  | [] => rw [compactElems]; decide
  | x :: xs =>
    simp only [compactElems, List.mem_cons, List.mem_append, not_or]
    exact ⟨by decide, newline_not_mem_compact x, newline_not_mem_compactElems xs⟩

theorem newline_not_mem_compactFields (fields : List (String × Json)) :
    (0x0a : UInt8) ∉ compactFields fields := by
  match fields with
  | [] => rw [compactFields]; decide
  | (k, v) :: fields =>
    simp only [compactFields, List.mem_cons, List.mem_append, not_or]
    exact ⟨by decide, newline_not_mem_writeString k, by decide, newline_not_mem_compact v,
      newline_not_mem_compactFields fields⟩

end

theorem compactFields_eq_concat (fields : List (String × Json)) :
    ∃ body, compactFields fields = body ++ [0x7d] := by
  induction fields with
  | nil => exact ⟨[], by rw [compactFields]; rfl⟩
  | cons field fields ih =>
    obtain ⟨body, hbody⟩ := ih
    obtain ⟨k, v⟩ := field
    refine ⟨0x2c :: (writeString k ++ 0x3a :: (compact v ++ body)), ?_⟩
    rw [compactFields, hbody]
    simp

/-- An object is written from brace to brace. -/
theorem compact_obj (fields : List (String × Json)) :
    ∃ body, compact (obj fields) = 0x7b :: (body ++ [0x7d]) := by
  rcases fields with _ | ⟨⟨k, v⟩, fields⟩
  · exact ⟨[], by rw [compact]; rfl⟩
  · obtain ⟨body, hbody⟩ := compactFields_eq_concat fields
    exact ⟨writeString k ++ 0x3a :: (compact v ++ body), by rw [compact, hbody]; simp⟩

end Json

end Embernet
