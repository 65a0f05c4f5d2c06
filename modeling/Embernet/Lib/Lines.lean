import Mathlib.Data.List.Basic
import Embernet.Lib.Bytes
/-!
# Lines — texts joined by line feeds

A text on one line ends where the line feed after it stands, so texts
joined by line feeds are told apart as long as all of them but one are on
one line. Decimal numbers and hexadecimal texts are.
-/

set_option autoImplicit false

namespace Embernet

/-! ## Where a list is cut -/

section Cut

variable {α : Type*} {n : α} {a b x y : List α}

/-- The first `n` cuts a list in one way. -/
theorem cut_first (ha : n ∉ a) (hb : n ∉ b) (h : a ++ n :: x = b ++ n :: y) : a = b ∧ x = y := by
  induction a generalizing b with
  | nil =>
    cases b with
    | nil => exact ⟨rfl, (List.cons.inj h).2⟩
    | cons c b =>
      have hc : n = c := (List.cons.inj h).1
      exact absurd (hc ▸ List.mem_cons_self) hb
  | cons c a ih =>
    cases b with
    | nil =>
      have hc : c = n := (List.cons.inj h).1
      exact absurd (hc ▸ List.mem_cons_self) ha
    | cons c' b =>
      obtain ⟨rfl, hrest⟩ := List.cons.inj h
      obtain ⟨rfl, hxy⟩ := ih (fun hn => ha (List.mem_cons_of_mem _ hn))
        (fun hn => hb (List.mem_cons_of_mem _ hn)) hrest
      exact ⟨rfl, hxy⟩

/-- The cut at the last such byte is unique too. -/
theorem cut_last (hx : n ∉ x) (hy : n ∉ y) (h : a ++ n :: x = b ++ n :: y) : a = b ∧ x = y := by
  have hreverse : x.reverse ++ n :: a.reverse = y.reverse ++ n :: b.reverse := by
    simpa using congrArg List.reverse h
  obtain ⟨hxy, hab⟩ := cut_first (by simpa using hx) (by simpa using hy) hreverse
  exact ⟨List.reverse_injective hab, List.reverse_injective hxy⟩

end Cut

/-! ## Texts on one line -/

/-- The text holds no line feed. -/
def OneLine (s : String) : Prop := '\n' ∉ s.toList

instance (s : String) : Decidable (OneLine s) := inferInstanceAs (Decidable ('\n' ∉ s.toList))

/-- **A line ends at its line feed.** -/
theorem line_inj {a b x y : String} (ha : OneLine a) (hb : OneLine b)
    (h : a ++ "\n" ++ x = b ++ "\n" ++ y) : a = b ∧ x = y := by
  have hchars : a.toList ++ '\n' :: x.toList = b.toList ++ '\n' :: y.toList := by
    simpa using congrArg String.toList h
  obtain ⟨hab, hxy⟩ := cut_first ha hb hchars
  exact ⟨String.toList_injective hab, String.toList_injective hxy⟩

/-- Texts, with a line feed between each and the next. -/
def joinLines : List String → String
  | [] => ""
  | [s] => s
  | s :: t :: rest => s ++ "\n" ++ joinLines (t :: rest)

/-- **Joined lines are told apart.** -/
theorem joinLines_inj {xs ys : List String} (hx : ∀ s ∈ xs, OneLine s) (hy : ∀ s ∈ ys, OneLine s)
    (hlength : xs.length = ys.length) (h : joinLines xs = joinLines ys) : xs = ys := by
  induction xs using joinLines.induct generalizing ys with
  | case1 => exact (List.length_eq_zero_iff.1 hlength.symm).symm
  | case2 s =>
    obtain ⟨t, rfl⟩ := List.length_eq_one_iff.1 hlength.symm
    exact congrArg ([·]) h
  | case3 s t rest ih =>
    match ys, hlength with
    | s' :: t' :: rest', hlength =>
      obtain ⟨rfl, hrest⟩ := line_inj (hx s (by simp)) (hy s' (by simp)) h
      have htail := ih (fun u hu => hx u (List.mem_cons_of_mem _ hu))
        (fun u hu => hy u (List.mem_cons_of_mem _ hu)) (by simpa using hlength) hrest
      rw [htail]

theorem newline_mem_joinLines (s t : String) (rest : List String) :
    ¬ OneLine (joinLines (s :: t :: rest)) := by
  simp [OneLine, joinLines]

theorem oneLine_append {s t : String} (hs : OneLine s) (ht : OneLine t) : OneLine (s ++ t) := by
  simpa [OneLine] using ⟨hs, ht⟩

theorem utf8_append (s t : String) : utf8 (s ++ t) = utf8 s ++ utf8 t := by
  simp [utf8, String.toByteArray_append]

/-- A character other than the line feed is encoded without one. -/
theorem newline_not_mem_utf8EncodeChar {c : Char} (hc : c ≠ '\n') :
    (0x0a : UInt8) ∉ String.utf8EncodeChar c := by
  have hval : c.val.toNat ≠ 10 := fun h => hc (Char.ext (UInt32.toNat_inj.1 h))
  have hlow : ∀ n, n < 256 → n ≠ 10 → (0x0a : UInt8) ≠ UInt8.ofNat n := by
    intro n hn hne h
    have := congrArg UInt8.toNat h
    rw [UInt8.toNat_ofNat_of_lt' (by omega)] at this
    exact hne this.symm
  simp only [String.utf8EncodeChar]
  -- a byte of a longer code is 128 or more
  split
  · simpa using hlow _ (by omega) hval
  split
  · simp only [List.mem_cons, List.not_mem_nil, or_false, not_or]
    exact ⟨hlow _ (by omega) (by omega), hlow _ (by omega) (by omega)⟩
  split
  · simp only [List.mem_cons, List.not_mem_nil, or_false, not_or]
    exact ⟨hlow _ (by omega) (by omega), hlow _ (by omega) (by omega),
      hlow _ (by omega) (by omega)⟩
  · simp only [List.mem_cons, List.not_mem_nil, or_false, not_or]
    exact ⟨hlow _ (by omega) (by omega), hlow _ (by omega) (by omega),
      hlow _ (by omega) (by omega), hlow _ (by omega) (by omega)⟩

/-- **A text on one line is bytes on one line.** -/
theorem newline_not_mem_utf8 {s : String} (hs : OneLine s) : (0x0a : UInt8) ∉ utf8 s := by
  have hbytes : utf8 s = s.toList.flatMap String.utf8EncodeChar := by
    have hencode : s.toByteArray = s.toList.utf8Encode := by
      rw [← String.toByteArray_ofList, String.ofList_toList]
    simp [utf8, hencode, List.utf8Encode]
  rw [hbytes, List.mem_flatMap]
  rintro ⟨c, hc, hmem⟩
  exact newline_not_mem_utf8EncodeChar (fun h => hs (h ▸ hc)) hmem

theorem newline_mem_utf8 {s : String} (hs : ¬ OneLine s) : (0x0a : UInt8) ∈ utf8 s := by
  obtain ⟨a, b, hab⟩ := List.append_of_mem (not_not.1 hs)
  have hsplit : s = String.ofList a ++ ("\n" ++ String.ofList b) := by
    rw [← String.toList_inj]
    simpa using hab
  have hnewline : utf8 "\n" = [0x0a] := by decide
  rw [hsplit, utf8_append, utf8_append, hnewline]
  simp

/-! ## Numbers and hexadecimal texts -/

theorem oneLine_natRepr (n : ℕ) : OneLine n.repr := by
  intro hmem
  rw [Nat.repr, String.toList_ofList] at hmem
  have hdigit := Nat.isDigit_of_mem_toDigits (by omega) le_rfl hmem
  exact absurd hdigit (by decide)

theorem natRepr_injective : Function.Injective Nat.repr := by
  intro m n h
  have hdigits : Nat.toDigits 10 m = Nat.toDigits 10 n := String.ofList_injective h
  rw [← Nat.ofDigitChars_ten_toDigits (n := m), hdigits, Nat.ofDigitChars_ten_toDigits]

theorem toString_negSucc (n : ℕ) : toString (Int.negSucc n) = "-" ++ (n + 1).repr := rfl

theorem oneLine_int (n : ℤ) : OneLine (toString n) := by
  cases n with
  | ofNat n => exact oneLine_natRepr n
  | negSucc n =>
    rw [toString_negSucc]
    exact oneLine_append (by decide) (oneLine_natRepr _)

theorem toString_int_injective : Function.Injective (toString : ℤ → String) := by
  have hsign : ∀ m n : ℕ, m.repr ≠ "-" ++ n.repr := by
    intro m n h
    have hmem : '-' ∈ m.repr.toList := by simp [h]
    rw [Nat.repr, String.toList_ofList] at hmem
    exact absurd (Nat.isDigit_of_mem_toDigits (by omega) le_rfl hmem) (by decide)
  intro m n h
  cases m with
  | ofNat m =>
    cases n with
    | ofNat n => exact congrArg Int.ofNat (natRepr_injective h)
    | negSucc n => exact absurd h (hsign m (n + 1))
  | negSucc m =>
    cases n with
    | ofNat n => exact absurd h.symm (hsign n (m + 1))
    | negSucc n =>
      rw [toString_negSucc, toString_negSucc, String.append_right_inj] at h
      have := natRepr_injective h
      rw [Nat.succ.inj this]

theorem oneLine_of_hexDecode {s : String} {b : Bytes} (h : hexDecode s = some b) : OneLine s := by
  have hchars : ∀ (cs : List Char) (b : Bytes), hexDecodeChars cs = some b → '\n' ∉ cs := by
    intro cs
    induction cs using hexDecodeChars.induct with
    | case1 => simp
    | case2 c => simp [hexDecodeChars]
    | case3 c c' rest ih =>
      intro b hb
      simp only [hexDecodeChars, Option.bind_eq_bind, Option.bind_eq_some_iff] at hb
      obtain ⟨hi, hhi, lo, hlo, bytes, hbytes, -⟩ := hb
      have hdigit : hexVal '\n' = none := by decide
      have hc : '\n' ≠ c := fun hc => by rw [← hc, hdigit] at hhi; cases hhi
      have hc' : '\n' ≠ c' := fun hc => by rw [← hc, hdigit] at hlo; cases hlo
      simpa using ⟨hc, hc', ih bytes hbytes⟩
  exact hchars s.toList b h

end Embernet
