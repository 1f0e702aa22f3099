import Mathlib

/-!
# 32-bit arithmetic without overflow

An exact integer `Fits` when an `Int32` can hold it. `Exact a x` says that the machine value `a`
holds the integer `x`. Machine arithmetic on exact values is exact as long as the result fits, so
a computation is followed by its exact values and one bound for each operation.
-/

namespace Int32Exact

/-- The integer is in the range of an `Int32`. -/
def Fits (x : ℤ) : Prop := -2 ^ 31 ≤ x ∧ x < 2 ^ 31

instance (x : ℤ) : Decidable (Fits x) := inferInstanceAs (Decidable (_ ∧ _))

/-- The machine value `a` holds the integer `x`. -/
def Exact (a : Int32) (x : ℤ) : Prop := a.toInt = x

variable {a b : Int32} {x y B : ℤ}

theorem Exact.fits (h : Exact a x) : Fits x := by
  subst h
  exact ⟨a.le_toInt, a.toInt_lt⟩

theorem fits_of_abs_le (h : |x| ≤ B) (hB : B < 2 ^ 31) : Fits x := by
  rw [abs_le] at h
  exact ⟨by omega, by omega⟩

theorem bmod_of_fits (h : Fits x) : x.bmod (2 ^ 32) = x := by
  obtain ⟨hle, hlt⟩ := h
  exact Int.bmod_eq_of_le (by norm_num; omega) (by norm_num; omega)

theorem Exact.add (ha : Exact a x) (hb : Exact b y) (h : Fits (x + y)) : Exact (a + b) (x + y) := by
  rw [Exact, Int32.toInt_add, ha, hb, bmod_of_fits h]

theorem Exact.sub (ha : Exact a x) (hb : Exact b y) (h : Fits (x - y)) : Exact (a - b) (x - y) := by
  rw [Exact, Int32.toInt_sub, ha, hb, bmod_of_fits h]

theorem Exact.mul (ha : Exact a x) (hb : Exact b y) (h : Fits (x * y)) : Exact (a * b) (x * y) := by
  rw [Exact, Int32.toInt_mul, ha, hb, bmod_of_fits h]

theorem Exact.neg_iff (ha : Exact a x) : a < 0 ↔ x < 0 := by
  rw [Int32.lt_iff_toInt_lt, ha, Int32.toInt_zero]

end Int32Exact
