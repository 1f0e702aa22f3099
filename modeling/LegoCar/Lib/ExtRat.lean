import Mathlib

/-!
# Floating-point values without rounding

`ExtRat` is a rational number, a signed infinity or not-a-number: the values of an IEEE type
with the rounding left out. Comparisons follow IEEE: every comparison with not-a-number is
false. The sign of zero is not represented.

`ofBits` decodes the four bytes of a `float`, and `bitsOfRat` rounds a rational number to the
nearest `float`, ties to even.
-/

/-- A floating-point value without rounding. -/
inductive ExtRat where
  | nan
  | inf (neg : Bool)
  | fin (q : ℚ)
deriving DecidableEq, Inhabited

namespace ExtRat

/-! ### Comparisons -/

/-- `a < b`. -/
def lt : ExtRat → ExtRat → Bool
  | fin a, fin b => decide (a < b)
  | fin _, inf neg => !neg
  | inf neg, fin _ => neg
  | inf neg, inf neg' => neg && !neg'
  | _, _ => false

/-- `a == b`. -/
def beq : ExtRat → ExtRat → Bool
  | fin a, fin b => decide (a = b)
  | inf neg, inf neg' => neg == neg'
  | _, _ => false

@[simp] theorem lt_fin (a b : ℚ) : lt (fin a) (fin b) = decide (a < b) := rfl
@[simp] theorem beq_fin (a b : ℚ) : beq (fin a) (fin b) = decide (a = b) := rfl
@[simp] theorem lt_nan_right (a : ExtRat) : lt a nan = false := by cases a <;> rfl

/-! ### Arithmetic -/

/-- The sign of a value that is not zero and not not-a-number. -/
def isNeg : ExtRat → Bool
  | fin q => decide (q < 0)
  | inf neg => neg
  | nan => false

/-- `-a`. -/
def neg : ExtRat → ExtRat
  | fin a => fin (-a)
  | inf n => inf (!n)
  | nan => nan

/-- `a - b`. -/
def sub : ExtRat → ExtRat → ExtRat
  | fin a, fin b => fin (a - b)
  | inf n, fin _ => inf n
  | fin _, inf n => inf (!n)
  | inf n, inf n' => if n = n' then nan else inf n
  | _, _ => nan

/-- `a * b`. -/
def mul : ExtRat → ExtRat → ExtRat
  | fin a, fin b => fin (a * b)
  | nan, _ => nan
  | _, nan => nan
  | a, b => if a = fin 0 ∨ b = fin 0 then nan else inf (a.isNeg != b.isNeg)

/-- `a / b`. -/
def div : ExtRat → ExtRat → ExtRat
  | fin a, fin b => if b = 0 then (if a = 0 then nan else inf (decide (a < 0))) else fin (a / b)
  | inf n, fin b => inf (n != decide (b < 0))
  | fin _, inf _ => fin 0
  | _, _ => nan

@[simp] theorem neg_fin (a : ℚ) : neg (fin a) = fin (-a) := rfl
@[simp] theorem sub_fin (a b : ℚ) : sub (fin a) (fin b) = fin (a - b) := rfl
@[simp] theorem mul_fin (a b : ℚ) : mul (fin a) (fin b) = fin (a * b) := rfl

theorem mul_fin_one (a : ExtRat) : mul a (fin 1) = a := by
  cases a with
  | fin q => rw [mul_fin, mul_one]
  | inf n => cases n <;> rfl
  | nan => rfl

theorem div_fin {a b : ℚ} (h : b ≠ 0) : div (fin a) (fin b) = fin (a / b) := by
  simp [div, h]

/-- Conversion to an integer type drops the fraction; it is undefined, here zero, on values
that are not numbers. -/
def trunc : ExtRat → ℤ
  | fin q => q.num.tdiv q.den
  | _ => 0

theorem trunc_fin_neg (q : ℚ) : trunc (fin (-q)) = -trunc (fin q) := by
  simp [trunc]

theorem trunc_fin_of_nonneg {q : ℚ} (h : 0 ≤ q) : trunc (fin q) = ⌊q⌋ := by
  rw [trunc, Rat.floor_def', Int.tdiv_eq_ediv_of_nonneg (Rat.num_nonneg.mpr h)]

/-- The fraction is dropped towards zero. -/
theorem trunc_fin_mem_of_nonneg {q : ℚ} {n : ℕ} (h : 0 ≤ q) (hn : q ≤ n) :
    0 ≤ trunc (fin q) ∧ trunc (fin q) ≤ n := by
  rw [trunc_fin_of_nonneg h]
  exact ⟨Int.floor_nonneg.mpr h, Int.floor_le_iff.mpr (by push_cast; linarith)⟩

theorem trunc_fin_mem_of_nonpos {q : ℚ} {n : ℕ} (h : q ≤ 0) (hn : -n ≤ q) :
    -n ≤ trunc (fin q) ∧ trunc (fin q) ≤ 0 := by
  obtain ⟨h0, hle⟩ := trunc_fin_mem_of_nonneg (q := -q) (n := n) (by linarith) (by linarith)
  rw [trunc_fin_neg] at h0 hle
  exact ⟨by omega, by omega⟩

/-! ### The four bytes of a `float` -/

/-- The value of a bit pattern: sign, eight exponent bits, 23 fraction bits. -/
def ofBits (b : UInt32) : ExtRat :=
  let n := b.toNat
  let negative := 2 ^ 31 ≤ n
  let expo := n / 2 ^ 23 % 2 ^ 8
  let frac := n % 2 ^ 23
  if expo = 255 then (if frac = 0 then inf negative else nan)
  else
    let mant : ℕ := if expo = 0 then frac else frac + 2 ^ 23
    let size := (mant : ℚ) * 2 ^ ((max expo 1 : ℕ) - 150 : ℤ)
    fin (if negative then -size else size)

/-- The nearest integer, ties to even. -/
def roundEven (q : ℚ) : ℤ :=
  if q - ⌊q⌋ < 1 / 2 then ⌊q⌋
  else if 1 / 2 < q - ⌊q⌋ then ⌊q⌋ + 1
  else if ⌊q⌋ % 2 = 0 then ⌊q⌋ else ⌊q⌋ + 1

/-- The bit pattern of the `float` nearest to a rational number. -/
def bitsOfRat (q : ℚ) : UInt32 :=
  if q = 0 then 0
  else
    let expo := max (Int.log 2 |q|) (-126)
    -- a mantissa that rounds up to `2 ^ 24` carries into the exponent field
    let size := (expo + 126) * 2 ^ 23 + roundEven (|q| * 2 ^ (23 - expo))
    let size := min size (255 * 2 ^ 23)
    UInt32.ofNat (size.toNat + if q < 0 then 2 ^ 31 else 0)

end ExtRat
