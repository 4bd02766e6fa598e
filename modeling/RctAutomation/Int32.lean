import Mathlib.Data.Int.Basic

/-!
# Conversion to a 32-bit signed integer

C++ converts a wider signed value to `int` by keeping its low 32 bits.
`toInt32` is that conversion on unbounded integers, and `FitsInt32` says the
conversion loses nothing.
-/

/-- The smallest and the largest value of a 32-bit signed integer. -/
def int32Min : ℤ := -2147483648

@[inherit_doc int32Min]
def int32Max : ℤ := 2147483647

/-- The value of an integer converted to a 32-bit signed one: its low 32
bits, read in two's complement. Such conversions are implicit in C++, as when
the difference of two 64-bit times is stored in an `int`. -/
def toInt32 (n : ℤ) : ℤ := (n + 2147483648) % 4294967296 - 2147483648

/-- The integer is a 32-bit signed one. This is the condition under which a
value survives being stored in an `int`. -/
def FitsInt32 (n : ℤ) : Prop := int32Min ≤ n ∧ n ≤ int32Max

instance (n : ℤ) : Decidable (FitsInt32 n) := inferInstanceAs (Decidable (_ ∧ _))

/-- The converted value is always in range. -/
theorem fitsInt32_toInt32 (n : ℤ) : FitsInt32 (toInt32 n) := by
  unfold FitsInt32 toInt32 int32Min int32Max
  omega

/-- **The conversion is the identity exactly on its range.** -/
theorem toInt32_eq_self_iff {n : ℤ} : toInt32 n = n ↔ FitsInt32 n := by
  unfold FitsInt32 toInt32 int32Min int32Max
  omega

theorem toInt32_of_fits {n : ℤ} (h : FitsInt32 n) : toInt32 n = n :=
  toInt32_eq_self_iff.mpr h

/-- Converting twice is converting once. -/
@[simp] theorem toInt32_toInt32 (n : ℤ) : toInt32 (toInt32 n) = toInt32 n :=
  toInt32_of_fits (fitsInt32_toInt32 n)

/-- A value below the range moves up by a positive multiple of `2^32`. -/
theorem le_toInt32_of_lt {n : ℤ} (h : n < int32Min) : n + 4294967296 ≤ toInt32 n := by
  unfold toInt32
  unfold int32Min at h
  omega
