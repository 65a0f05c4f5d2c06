import Mathlib.Algebra.Order.Group.Unbundled.Abs
import Mathlib.Algebra.Order.Ring.Int
/-!
# Wrapping — 64-bit integers beside the exact ones

Sums, differences and absolute values of 64-bit integers are taken modulo
`2 ^ 64`. Each is the exact one, or it is off by `2 ^ 64` on one side; the
one integer without an absolute value is the smallest.
-/

namespace Embernet

namespace Wrapping

variable (a b : Int64)

/-- A sum with a number that is not negative wraps at the top only. -/
theorem toInt_add_of_nonneg (hb : 0 ≤ b.toInt) :
    (a + b).toInt =
      if a.toInt + b.toInt < 2 ^ 63 then a.toInt + b.toInt else a.toInt + b.toInt - 2 ^ 64 := by
  have ha := a.le_toInt
  have ha' := a.toInt_lt
  have hb' := b.toInt_lt
  rw [Int64.toInt_add, Int.bmod_def]
  split <;> split <;> omega

/-- So does a difference from a number that is not negative. -/
theorem toInt_sub_of_nonneg (ha : 0 ≤ a.toInt) :
    (a - b).toInt =
      if a.toInt - b.toInt < 2 ^ 63 then a.toInt - b.toInt else a.toInt - b.toInt - 2 ^ 64 := by
  have hb := b.le_toInt
  have hb' := b.toInt_lt
  have ha' := a.toInt_lt
  rw [Int64.toInt_sub, Int.bmod_def]
  split <;> split <;> omega

theorem toInt_sub_of_abs_lt (h : |a.toInt - b.toInt| < 2 ^ 63) :
    (a - b).toInt = a.toInt - b.toInt := by
  obtain ⟨hl, hr⟩ := abs_lt.1 h
  rw [Int64.toInt_sub, Int.bmod_def]
  split <;> omega

/-- The smallest integer is its own absolute value. -/
theorem toInt_abs : a.abs.toInt = if a.toInt = -2 ^ 63 then -2 ^ 63 else |a.toInt| := by
  have hmin : a.toBitVec = BitVec.intMin 64 ↔ a.toInt = -2 ^ 63 := by
    rw [← BitVec.toInt_inj]
    exact Iff.rfl
  have habs : a.abs.toInt =
      if a.toBitVec = BitVec.intMin 64 then (BitVec.intMin 64).toInt else ↑a.toInt.natAbs :=
    BitVec.toInt_abs_eq_natAbs
  rw [habs, Int.natCast_natAbs]
  exact if_congr hmin rfl rfl

end Wrapping

end Embernet
