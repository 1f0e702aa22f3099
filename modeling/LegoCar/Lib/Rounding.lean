import Mathlib
import LegoCar.Lib.ExtRat

/-!
# Rounded arithmetic

A `Rounding` says what becomes of the exact result of an operation. It keeps the order, rounding a
second time changes nothing, and small integers are kept; `round_mem` is what follows for a result
between two small integers. Infinities and not-a-number are not rounded.

Two kinds of rounding are of interest: none, `exact`, and that of a binary format, which takes the
nearest number of the format, ties to even, and an infinity beyond the largest one. Inside a binade
it is the monotony of rounding to an integer; a mantissa that rounds up to the next power of two is
the smallest one of the next binade (`nearest_mono`).
-/

namespace ExtRat

variable {q q' : ℚ} {n : ℤ}

/-- `a <= b`. -/
def le (a b : ExtRat) : Bool := lt a b || beq a b

theorem le_fin (a b : ℚ) : le (fin a) (fin b) = decide (a ≤ b) := by
  rw [le, lt_fin, beq_fin, ← Bool.decide_or]
  exact decide_eq_decide.mpr le_iff_lt_or_eq.symm

/-! ### Rounding to an integer -/

theorem floor_le_roundEven (q : ℚ) : ⌊q⌋ ≤ roundEven q := by
  unfold roundEven
  split_ifs <;> omega

theorem roundEven_le_floor_add_one (q : ℚ) : roundEven q ≤ ⌊q⌋ + 1 := by
  unfold roundEven
  split_ifs <;> omega

/-- Rounding moves a number by at most one half. -/
theorem abs_roundEven_sub_le (q : ℚ) : |(roundEven q : ℚ) - q| ≤ 1 / 2 := by
  have hfloor := Int.floor_le q
  have hlt := Int.lt_floor_add_one q
  unfold roundEven
  split_ifs <;> push_cast <;> rw [abs_le] <;> constructor <;> linarith

theorem roundEven_mono (h : q ≤ q') : roundEven q ≤ roundEven q' := by
  rcases (Int.floor_le_floor h).lt_or_eq with hlt | heq
  · calc roundEven q ≤ ⌊q⌋ + 1 := roundEven_le_floor_add_one q
      _ ≤ ⌊q'⌋ := hlt
      _ ≤ roundEven q' := floor_le_roundEven q'
  · -- both round down or up from the same integer
    unfold roundEven
    rw [← heq]
    split_ifs <;> first | omega | (exfalso; linarith)

theorem roundEven_intCast (n : ℤ) : roundEven n = n := by
  rw [roundEven, Int.floor_intCast, sub_self, if_pos (by norm_num)]

theorem roundEven_le (h : q ≤ n) : roundEven q ≤ n :=
  (roundEven_mono h).trans_eq (roundEven_intCast n)

theorem le_roundEven (h : n ≤ q) : n ≤ roundEven q :=
  (roundEven_intCast n).ge.trans (roundEven_mono h)

theorem roundEven_neg (q : ℚ) : roundEven (-q) = -roundEven q := by
  have hle := Int.floor_le q
  have hlt := Int.lt_floor_add_one q
  obtain heq | hne := eq_or_ne (⌊q⌋ : ℚ) q
  · rw [← heq, roundEven_intCast, ← Int.cast_neg, roundEven_intCast]
  · have hfloor : ⌊-q⌋ = -⌊q⌋ - 1 := by
      rw [Int.floor_eq_iff]
      have hpos : (⌊q⌋ : ℚ) < q := lt_of_le_of_ne hle hne
      push_cast
      constructor <;> linarith
    unfold roundEven
    rw [hfloor]
    push_cast
    split_ifs <;> first | omega | (exfalso; linarith)

end ExtRat

open ExtRat

/-! ### Rounding the result of an operation -/

/-- A way to round. -/
structure Rounding where
  round : ℚ → ExtRat
  mono : ∀ {q q' : ℚ}, q ≤ q' → (round q).le (round q') = true
  idem : ∀ {q p : ℚ}, round q = fin p → round p = fin p
  intCast : ∀ n : ℤ, |n| ≤ 2 ^ 24 → round n = fin n

namespace Rounding

/-- No rounding. -/
def exact : Rounding where
  round := fin
  mono := fun h => (le_fin _ _).trans (decide_eq_true h)
  idem := fun _ => rfl
  intCast := fun _ _ => rfl

/-- The result of an operation, rounded. -/
def apply (R : Rounding) : ExtRat → ExtRat
  | fin q => R.round q
  | x => x

/-- `a - b`. -/
def sub (R : Rounding) (a b : ExtRat) : ExtRat := R.apply (a.sub b)

/-- `a * b`. -/
def mul (R : Rounding) (a b : ExtRat) : ExtRat := R.apply (a.mul b)

/-- `a / b`. -/
def div (R : Rounding) (a b : ExtRat) : ExtRat := R.apply (a.div b)

@[simp]
theorem apply_exact (x : ExtRat) : exact.apply x = x := by
  cases x <;> rfl

@[simp] theorem sub_exact (a b : ExtRat) : exact.sub a b = a.sub b := apply_exact _
@[simp] theorem mul_exact (a b : ExtRat) : exact.mul a b = a.mul b := apply_exact _
@[simp] theorem div_exact (a b : ExtRat) : exact.div a b = a.div b := apply_exact _

variable (R : Rounding) {q a b : ℚ}

theorem round_zero : R.round 0 = fin 0 := by
  have hzero := R.intCast 0 (by norm_num)
  rwa [Int.cast_zero] at hzero

theorem mul_fin (a b : ℚ) : R.mul (fin a) (fin b) = R.round (a * b) := rfl

/-- A result is not changed by a second rounding. -/
theorem apply_apply (x : ExtRat) : R.apply (R.apply x) = R.apply x := by
  cases x with
  | fin q =>
    rw [apply]
    cases hround : R.round q with
    | fin p => exact R.idem hround
    | _ => rfl
  | _ => rfl

/-- Nor by a product with one. -/
theorem mul_fin_one (x : ExtRat) : R.mul (R.apply x) (fin 1) = R.apply x := by
  rw [mul, ExtRat.mul_fin_one, apply_apply]

/-- A value between two numbers is a number. -/
theorem eq_fin_of_le {x : ExtRat} (hlo : (fin a).le x = true) (hhi : x.le (fin b) = true) :
    ∃ q, x = fin q ∧ a ≤ q ∧ q ≤ b := by
  cases x with
  | nan => exact absurd hhi (by simp [le, lt, beq])
  | inf negative =>
    cases negative
    · exact absurd hhi (by simp [le, lt, beq])
    · exact absurd hlo (by simp [le, lt, beq])
  | fin q =>
    rw [le_fin] at hlo hhi
    exact ⟨q, rfl, of_decide_eq_true hlo, of_decide_eq_true hhi⟩

/-- A result between two small integers stays between them. -/
theorem round_mem {m n : ℤ} (hm : |m| ≤ 2 ^ 24) (hn : |n| ≤ 2 ^ 24) (hlo : m ≤ q) (hhi : q ≤ n) :
    ∃ p, R.round q = fin p ∧ m ≤ p ∧ p ≤ n := by
  have hle := R.mono hlo
  have hge := R.mono hhi
  rw [R.intCast m hm] at hle
  rw [R.intCast n hn] at hge
  exact eq_fin_of_le hle hge

/-- The quotient of two numbers that are not negative, of which the first is not the larger one, is
a part of one, or the quotient of two zeros. -/
theorem div_mem {x y : ExtRat} (hx : (fin 0).le x = true) (hxy : x.le y = true) :
    R.div x y = nan ∨ ∃ q, R.div x y = fin q ∧ 0 ≤ q ∧ q ≤ 1 := by
  have hpart : ∀ p : ℚ, 0 ≤ p → p ≤ 1 → ∃ q, R.round p = fin q ∧ 0 ≤ q ∧ q ≤ 1 := by
    intro p hp hp'
    obtain ⟨q, hround, hq, hq'⟩ := R.round_mem (m := 0) (n := 1) (by norm_num) (by norm_num)
      (by exact_mod_cast hp) (by exact_mod_cast hp')
    exact ⟨q, hround, by exact_mod_cast hq, by exact_mod_cast hq'⟩
  cases x with
  | nan => exact absurd hx (by decide)
  | inf negative =>
    -- then both are infinite
    cases y with
    | fin p => cases negative <;> simp [le, lt, beq] at hx hxy
    | _ => exact Or.inl rfl
  | fin a =>
    have ha : 0 ≤ a := of_decide_eq_true ((le_fin 0 a).symm.trans hx)
    cases y with
    | nan => exact absurd hxy (by simp [le, lt, beq])
    | inf negative => exact Or.inr (hpart 0 le_rfl zero_le_one)
    | fin b =>
      have hab : a ≤ b := of_decide_eq_true ((le_fin a b).symm.trans hxy)
      obtain rfl | hb := eq_or_ne b 0
      · obtain rfl : a = 0 := le_antisymm hab ha
        exact Or.inl rfl
      · rw [div, ExtRat.div_fin hb]
        exact Or.inr (hpart (a / b) (div_nonneg ha (ha.trans hab))
          (div_le_one_of_le₀ hab (ha.trans hab)))

end Rounding

/-! ### Binary formats -/

/-- A binary format: the bits of a mantissa, and the exponents of the lowest and of the highest
binade. -/
structure BinaryFormat where
  precision : ℕ
  lowest : ℤ
  highest : ℤ
  le_precision : 24 ≤ precision
  lowest_nonpos : lowest ≤ 0
  le_highest : 24 ≤ highest

namespace BinaryFormat

/-- The format of a `float`. -/
def binary32 : BinaryFormat := ⟨24, -126, 127, by decide, by decide, by decide⟩

/-- The format of a `double`. -/
def binary64 : BinaryFormat := ⟨53, -1022, 1023, by decide, by decide, by decide⟩

/-- The exponent of the last bit of a mantissa. -/
def lastBit (f : BinaryFormat) (q : ℚ) : ℤ := max (Int.log 2 |q|) f.lowest - (f.precision - 1)

/-- The mantissa of the nearest number, ties to even. -/
def mantissa (f : BinaryFormat) (q : ℚ) : ℤ := roundEven (q * 2 ^ (-f.lastBit q))

/-- The nearest number, if there were no largest one. -/
def nearest (f : BinaryFormat) (q : ℚ) : ℚ := f.mantissa q * 2 ^ f.lastBit q

/-- The nearest number of the format, or an infinity. -/
def round (f : BinaryFormat) (q : ℚ) : ExtRat :=
  if 2 ^ (f.highest + 1) ≤ |f.nearest q| then inf (decide (q < 0)) else fin (f.nearest q)

variable {f : BinaryFormat} {q q' : ℚ} {m k : ℤ}

/-! ### The nearest number -/

theorem lastBit_neg (f : BinaryFormat) (q : ℚ) : f.lastBit (-q) = f.lastBit q := by
  rw [lastBit, abs_neg, lastBit]

theorem mantissa_neg (f : BinaryFormat) (q : ℚ) : f.mantissa (-q) = -f.mantissa q := by
  rw [mantissa, lastBit_neg, neg_mul, roundEven_neg, mantissa]

theorem mantissa_nonneg (hq : 0 ≤ q) : 0 ≤ f.mantissa q :=
  le_roundEven (by push_cast; positivity)

theorem nearest_neg (f : BinaryFormat) (q : ℚ) : f.nearest (-q) = -f.nearest q := by
  rw [nearest, lastBit_neg, mantissa_neg, Int.cast_neg, neg_mul, nearest]

theorem nearest_zero (f : BinaryFormat) : f.nearest 0 = 0 := by
  have hzero := roundEven_intCast 0
  rw [Int.cast_zero] at hzero
  rw [nearest, mantissa, zero_mul, hzero, Int.cast_zero, zero_mul]

theorem nearest_nonneg (hq : 0 ≤ q) : 0 ≤ f.nearest q := by
  have hmantissa := mantissa_nonneg (f := f) hq
  unfold nearest
  positivity

/-- A number is below the next binade. -/
theorem le_of_lastBit (hq : 0 ≤ q) : q ≤ 2 ^ (f.lastBit q + f.precision) := by
  have hlog : Int.log 2 q ≤ max (Int.log 2 |q|) f.lowest := by
    rw [abs_of_nonneg hq]
    exact le_max_left _ _
  refine (Int.lt_zpow_succ_log_self Nat.one_lt_two q).le.trans ?_
  rw [Nat.cast_ofNat]
  refine zpow_le_zpow_right₀ one_le_two ?_
  unfold lastBit
  omega

/-- Above the lowest binade, a number has all bits of a mantissa. -/
theorem le_of_lt_lastBit (hq : 0 < q) (h : f.lowest - (f.precision - 1) < f.lastBit q) :
    2 ^ (f.lastBit q + (f.precision - 1)) ≤ q := by
  have hlog : f.lastBit q + (f.precision - 1) = Int.log 2 q := by
    unfold lastBit at h ⊢
    rw [abs_of_pos hq] at h ⊢
    omega
  rw [hlog]
  exact Int.zpow_log_le_self Nat.one_lt_two hq

theorem lowest_le_lastBit (f : BinaryFormat) (q : ℚ) :
    f.lowest - (f.precision - 1) ≤ f.lastBit q :=
  sub_le_sub_right (le_max_right _ _) _

/-- No mantissa has more bits than the format. -/
theorem mantissa_le (hq : 0 ≤ q) : f.mantissa q ≤ 2 ^ f.precision := by
  refine roundEven_le ?_
  calc q * 2 ^ (-f.lastBit q) ≤ 2 ^ (f.lastBit q + f.precision) * 2 ^ (-f.lastBit q) := by
        gcongr
        exact le_of_lastBit hq
    _ = ((2 ^ f.precision : ℤ) : ℚ) := by
        rw [← zpow_add₀ two_ne_zero, add_neg_cancel_comm, zpow_natCast]
        norm_num

theorem le_mantissa (hq : 0 < q) (h : f.lowest - (f.precision - 1) < f.lastBit q) :
    2 ^ (f.precision - 1) ≤ f.mantissa q := by
  have hone : 1 ≤ f.precision := (by norm_num : 1 ≤ 24).trans f.le_precision
  refine le_roundEven ?_
  calc ((2 ^ (f.precision - 1) : ℤ) : ℚ)
      = 2 ^ (f.lastBit q + (f.precision - 1)) * 2 ^ (-f.lastBit q) := by
        rw [← zpow_add₀ two_ne_zero, add_neg_cancel_comm, ← Nat.cast_pred hone, zpow_natCast]
        norm_num
    _ ≤ q * 2 ^ (-f.lastBit q) := by
        gcongr
        exact le_of_lt_lastBit hq h

theorem nearest_mono_of_nonneg (hq : 0 ≤ q) (h : q ≤ q') : f.nearest q ≤ f.nearest q' := by
  obtain rfl | hpos := hq.eq_or_lt
  · rw [nearest_zero]
    exact nearest_nonneg h
  have hbit : f.lastBit q ≤ f.lastBit q' := by
    unfold lastBit
    rw [abs_of_pos hpos, abs_of_pos (hpos.trans_le h)]
    exact sub_le_sub_right (max_le_max (Int.log_mono_right hpos h) le_rfl) _
  rcases hbit.lt_or_eq with hlt | heq
  · -- a higher binade begins where the lower one ends
    have hupper : (f.mantissa q : ℚ) ≤ 2 ^ f.precision := by
      exact_mod_cast mantissa_le hq
    have hlower : (2 : ℚ) ^ (f.precision - 1) ≤ f.mantissa q' := by
      exact_mod_cast le_mantissa (hpos.trans_le h) ((f.lowest_le_lastBit q).trans_lt hlt)
    have hone : 1 ≤ f.precision := (by norm_num : 1 ≤ 24).trans f.le_precision
    calc f.nearest q ≤ 2 ^ f.precision * 2 ^ f.lastBit q := by
          unfold nearest
          gcongr
      _ = 2 ^ (f.precision - 1) * 2 ^ (f.lastBit q + 1) := by
          rw [zpow_add_one₀ two_ne_zero, ← pow_sub_one_mul (by omega : f.precision ≠ 0)]
          ring
      _ ≤ 2 ^ (f.precision - 1) * 2 ^ f.lastBit q' := by
          gcongr
          · norm_num
          · omega
      _ ≤ f.nearest q' := by
          unfold nearest
          gcongr
  · have hmantissa : f.mantissa q ≤ f.mantissa q' := by
      unfold mantissa
      rw [← heq]
      exact roundEven_mono (by gcongr)
    unfold nearest
    rw [← heq]
    gcongr

/-- **The nearest number is monotone.** -/
theorem nearest_mono (h : q ≤ q') : f.nearest q ≤ f.nearest q' := by
  rcases le_total 0 q with hq | hq
  · exact nearest_mono_of_nonneg hq h
  rcases le_total 0 q' with hq' | hq'
  · have hle : 0 ≤ f.nearest (-q) := nearest_nonneg (neg_nonneg.mpr hq)
    rw [nearest_neg] at hle
    linarith [nearest_nonneg (f := f) hq']
  · have hle := nearest_mono_of_nonneg (f := f) (neg_nonneg.mpr hq') (neg_le_neg h)
    rw [nearest_neg, nearest_neg] at hle
    linarith

/-- A number with a mantissa of the format is its own nearest number. -/
theorem nearest_of_mantissa (hm : |m| ≤ 2 ^ f.precision) (hk : f.lowest - (f.precision - 1) ≤ k) :
    f.nearest (m * 2 ^ k) = m * 2 ^ k := by
  -- it is enough that the last bit leaves an integer
  suffices hint : ∃ n : ℤ, (m : ℚ) * 2 ^ k * 2 ^ (-f.lastBit (m * 2 ^ k)) = n by
    obtain ⟨n, hn⟩ := hint
    rw [nearest, mantissa, hn, roundEven_intCast, ← hn, mul_assoc _ (_ ^ _) (_ ^ _),
      ← zpow_add₀ two_ne_zero, neg_add_cancel, zpow_zero, mul_one]
  set e := f.lastBit (m * 2 ^ k) with he
  rcases le_or_gt e k with hle | hgt
  · refine ⟨m * 2 ^ (k - e).toNat, ?_⟩
    rw [mul_assoc, ← zpow_add₀ two_ne_zero]
    push_cast
    rw [← zpow_natCast, Int.toNat_of_nonneg (by omega), sub_eq_add_neg]
  obtain rfl | hne := eq_or_ne m 0
  · exact ⟨0, by simp⟩
  -- the mantissa has rounded up to the next binade
  have hmpos : (0 : ℚ) < |(m : ℚ)| := abs_pos.mpr (Int.cast_ne_zero.mpr hne)
  have habs : |(m : ℚ) * 2 ^ k| = |(m : ℚ)| * 2 ^ k := by
    rw [abs_mul, abs_of_pos (zpow_pos two_pos k : (0 : ℚ) < 2 ^ k)]
  have hlast : f.lastBit (|(m : ℚ)| * 2 ^ k) = e := by
    rw [he, ← habs, lastBit, abs_abs, lastBit]
  have hlow := le_of_lt_lastBit (f := f) (q := |(m : ℚ)| * 2 ^ k) (by positivity)
    (by rw [hlast]; omega)
  rw [hlast] at hlow
  have hmle : |(m : ℚ)| ≤ 2 ^ (f.precision : ℤ) := by
    rw [zpow_natCast]
    exact_mod_cast hm
  have hexp : e + (f.precision - 1) ≤ f.precision + k := by
    refine (zpow_le_zpow_iff_right₀ (one_lt_two (α := ℚ))).mp (hlow.trans ?_)
    rw [zpow_add₀ two_ne_zero]
    gcongr
  have hnext : e = k + 1 := by omega
  have hmeq : |m| = 2 ^ f.precision := by
    refine le_antisymm hm ?_
    rw [hnext, show k + 1 + ((f.precision : ℤ) - 1) = f.precision + k by ring,
      zpow_add₀ two_ne_zero, mul_le_mul_iff_of_pos_right (zpow_pos two_pos k), zpow_natCast] at hlow
    exact_mod_cast hlow
  obtain ⟨n, hn⟩ : (2 : ℤ) ∣ m := by
    rw [← dvd_abs, hmeq]
    exact dvd_pow_self 2 (by have := f.le_precision; omega)
  refine ⟨n, ?_⟩
  rw [hnext, mul_assoc, ← zpow_add₀ two_ne_zero, show k + -(k + 1) = -1 by ring, hn]
  push_cast
  rw [zpow_neg_one]
  ring

theorem abs_mantissa_le (f : BinaryFormat) (q : ℚ) : |f.mantissa q| ≤ 2 ^ f.precision := by
  have hbound : ∀ {p : ℚ}, 0 ≤ p → |f.mantissa p| ≤ 2 ^ f.precision := fun hp =>
    (abs_of_nonneg (mantissa_nonneg hp)).trans_le (mantissa_le hp)
  rcases le_total 0 q with hq | hq
  · exact hbound hq
  · have hneg := hbound (neg_nonneg.mpr hq)
    rwa [mantissa_neg, abs_neg] at hneg

theorem nearest_nearest (f : BinaryFormat) (q : ℚ) : f.nearest (f.nearest q) = f.nearest q :=
  nearest_of_mantissa (f.abs_mantissa_le q) (f.lowest_le_lastBit q)

/-! ### Rounding to a format -/

theorem round_of_lt (h : |f.nearest q| < 2 ^ (f.highest + 1)) : f.round q = fin (f.nearest q) :=
  if_neg (not_le.mpr h)

theorem eq_nearest_of_round {p : ℚ} (h : f.round q = fin p) :
    p = f.nearest q ∧ |p| < 2 ^ (f.highest + 1) := by
  unfold round at h
  split_ifs at h with hlarge
  obtain rfl := fin.inj h
  exact ⟨rfl, not_le.mp hlarge⟩

theorem round_mono (h : q ≤ q') : (f.round q).le (f.round q') = true := by
  have hnearest := nearest_mono (f := f) h
  have hsign : ∀ {p : ℚ}, f.nearest p < 0 → p < 0 := fun hp =>
    not_le.mp fun hnonneg => hp.not_ge (nearest_nonneg hnonneg)
  have hsign' : ∀ {p : ℚ}, 0 < f.nearest p → ¬p < 0 := by
    intro p hp hneg
    have hle : 0 ≤ f.nearest (-p) := nearest_nonneg (by linarith)
    rw [nearest_neg] at hle
    linarith
  have htop : (0 : ℚ) < 2 ^ (f.highest + 1) := zpow_pos two_pos _
  unfold round
  split_ifs with hlarge hlarge' hlarge'
  · rcases le_abs'.mp hlarge with hneg | hpos
    · rw [decide_eq_true (hsign (p := q) (by linarith))]
      cases decide (q' < 0) <;> rfl
    · rw [decide_eq_false (hsign' (p := q) (by linarith)),
        decide_eq_false (hsign' (p := q') (by linarith))]
      rfl
  · rcases le_abs'.mp hlarge with hneg | hpos
    · rw [decide_eq_true (hsign (p := q) (by linarith))]
      rfl
    · exact absurd (hpos.trans hnearest) (not_le.mpr (lt_of_abs_lt (not_le.mp hlarge')))
  · rcases le_abs'.mp hlarge' with hneg | hpos
    · exact absurd (hnearest.trans hneg)
        (not_le.mpr (neg_lt_of_abs_lt (not_le.mp hlarge)))
    · rw [decide_eq_false (hsign' (p := q') (by linarith))]
      rfl
  · rw [le_fin]
    exact decide_eq_true hnearest

/-- The rounding of a format. -/
def rounding (f : BinaryFormat) : Rounding where
  round := f.round
  mono := round_mono
  idem := by
    intro q p h
    obtain ⟨rfl, hlt⟩ := eq_nearest_of_round h
    have hfixed := f.nearest_nearest q
    rw [← hfixed] at hlt
    rw [round_of_lt hlt, hfixed]
  intCast := by
    intro n hn
    have hprec := f.le_precision
    have hlow := f.lowest_nonpos
    have hnearest : f.nearest n = n := by
      have hmantissa : |n| ≤ 2 ^ f.precision :=
        hn.trans (pow_le_pow_right₀ (by norm_num) hprec)
      have hfixed := nearest_of_mantissa (f := f) (k := 0) hmantissa (by omega)
      rwa [zpow_zero, mul_one] at hfixed
    have hlt : |(n : ℚ)| < 2 ^ (f.highest + 1) := by
      have hn' : |(n : ℚ)| ≤ 2 ^ (24 : ℤ) := by exact_mod_cast hn
      refine hn'.trans_lt (zpow_lt_zpow_right₀ one_lt_two ?_)
      have := f.le_highest
      omega
    rw [round_of_lt (by rwa [hnearest]), hnearest]

end BinaryFormat
