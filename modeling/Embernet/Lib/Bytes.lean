import Mathlib.Data.List.Sort
import Mathlib.Data.Set.Function
/-!
# Bytes — text, and its hexadecimal spelling

Byte strings are lists of `UInt8`, text enters them through UTF-8, and
the hexadecimal form of a byte string is written in lower case and read
in either. Reading back what was written is the round trip every
identifier of the development rests on.
-/

namespace Embernet

/-- A byte string. -/
abbrev Bytes := List UInt8

/-- The UTF-8 bytes of a text. -/
def utf8 (s : String) : Bytes := s.toUTF8.data.toList

theorem utf8_injective : Function.Injective utf8 := by
  intro s t h
  have hdata : s.toUTF8.data = t.toUTF8.data := Array.toList_inj.1 h
  exact String.toByteArray_inj.1 (ByteArray.ext hdata)

/-- `String::from_utf8`. -/
def fromUtf8 (b : Bytes) : Option String := String.fromUTF8? ⟨b.toArray⟩

theorem fromUtf8_utf8 (s : String) : fromUtf8 (utf8 s) = some s := by
  have hbytes : (⟨(utf8 s).toArray⟩ : ByteArray) = s.toByteArray := rfl
  rw [fromUtf8, hbytes, String.fromUTF8?, dif_pos s.isValidUTF8]
  rfl

/-! ## Hexadecimal -/

/-- The two digits a byte is written as. -/
def hexPair (b : UInt8) : List Char :=
  [Nat.digitChar (b.toNat / 16), Nat.digitChar (b.toNat % 16)]

/-- `hex::encode`: two lower-case digits a byte. -/
def hexEncode (b : Bytes) : String := String.ofList (b.flatMap hexPair)

/-- The value of one hexadecimal digit, of either case. -/
def hexVal (c : Char) : Option ℕ :=
  let n := c.toNat
  if 48 ≤ n ∧ n ≤ 57 then some (n - 48)        -- '0' to '9'
  else if 97 ≤ n ∧ n ≤ 102 then some (n - 87)  -- 'a' to 'f'
  else if 65 ≤ n ∧ n ≤ 70 then some (n - 55)   -- 'A' to 'F'
  else none

/-- The bytes a list of digits spells, two at a time; an odd digit or a
character that is no digit spells none. -/
def hexDecodeChars : List Char → Option Bytes
  | [] => some []
  | [_] => none
  | a :: b :: rest => do
    let hi ← hexVal a
    let lo ← hexVal b
    let bytes ← hexDecodeChars rest
    pure (UInt8.ofNat (16 * hi + lo) :: bytes)

/-- `hex::decode`. -/
def hexDecode (s : String) : Option Bytes := hexDecodeChars s.toList

theorem hexVal_digitChar {n : ℕ} (hn : n < 16) : hexVal (Nat.digitChar n) = some n := by
  revert n
  decide

theorem hexDecodeChars_flatMap (b : Bytes) : hexDecodeChars (b.flatMap hexPair) = some b := by
  induction b with
  | nil => rfl
  | cons x b ih =>
    have hx : x.toNat < 256 := x.toNat_lt
    have hhalves : 16 * (x.toNat / 16) + x.toNat % 16 = x.toNat := by omega
    rw [List.flatMap_cons]
    simp only [hexPair, List.cons_append, List.nil_append, hexDecodeChars,
      hexVal_digitChar (show x.toNat / 16 < 16 by omega),
      hexVal_digitChar (show x.toNat % 16 < 16 by omega)]
    change (do let bytes ← hexDecodeChars (b.flatMap hexPair)
               pure (UInt8.ofNat (16 * (x.toNat / 16) + x.toNat % 16) :: bytes)) = _
    rw [ih, hhalves]
    simp

/-- **What was written reads back.** -/
@[simp] theorem hexDecode_hexEncode (b : Bytes) : hexDecode (hexEncode b) = some b := by
  rw [hexDecode, hexEncode, String.toList_ofList, hexDecodeChars_flatMap]

/-- So two byte strings written alike are alike. -/
theorem hexEncode_injective : Function.Injective hexEncode := by
  intro a b h
  have : some a = some b := by rw [← hexDecode_hexEncode a, h, hexDecode_hexEncode]
  exact Option.some.inj this

@[simp] theorem hexEncode_inj {a b : Bytes} : hexEncode a = hexEncode b ↔ a = b :=
  hexEncode_injective.eq_iff

/-- The same bytes in upper-case digits. -/
def upperCase (digits : String) : String := String.ofList (digits.toList.map Char.toUpper)

/-- They are read alike. -/
theorem hexDecode_upperCase (b : Bytes) : hexDecode (upperCase (hexEncode b)) = some b := by
  have hdigit : ∀ n < 16, hexVal (Nat.digitChar n).toUpper = some n := by decide
  rw [hexDecode, upperCase, hexEncode, String.toList_ofList, String.toList_ofList]
  induction b with
  | nil => rfl
  | cons x b ih =>
    have hx : x.toNat < 256 := x.toNat_lt
    have hhalves : 16 * (x.toNat / 16) + x.toNat % 16 = x.toNat := by omega
    rw [List.flatMap_cons]
    simp only [hexPair, List.cons_append, List.nil_append, List.map_cons, hexDecodeChars,
      hdigit _ (show x.toNat / 16 < 16 by omega), hdigit _ (show x.toNat % 16 < 16 by omega), ih,
      Option.bind_eq_bind, Option.bind_some, hhalves]
    simp

end Embernet
