import Mathlib
import LegoCar.Lib.Rounding

/-!
# The bit patterns of a `float`

`bitsOfRat` rounds a number to a bit pattern. Patterns are ordered like the sizes of their numbers
(`magnitude_strictMono`), and the pattern computed is that of the nearest number of the format
(`ofBits_bitsOfRat`); so `bitsOfRat` is monotone where the number is not negative.

`round_of_ofBits` says that rounding is exact on the numbers that are a `float`.

`signedBits` adds the sign bit, and `InUnit` is the interval from `-1` to `1`, as a `float`
comparison decides it: `inUnit_iff` reads it off the bit pattern.
-/

namespace ExtRat

open BinaryFormat

variable {q q' : ℚ} {b : UInt32}

/-! ### The sizes of patterns -/

/-- The size of the number with the bit pattern `k`, apart from the sign bit. -/
def magnitude (k : ℕ) : ℚ :=
  ((if k / 2 ^ 23 = 0 then k % 2 ^ 23 else k % 2 ^ 23 + 2 ^ 23 : ℕ) : ℚ) *
    2 ^ ((max (k / 2 ^ 23) 1 : ℕ) - 150 : ℤ)

theorem magnitude_nonneg (k : ℕ) : 0 ≤ magnitude k := by
  unfold magnitude
  positivity

/-- Patterns are ordered like the sizes of their numbers. -/
theorem magnitude_strictMono : StrictMono magnitude := by
  intro k k' h
  unfold magnitude
  set mant : ℕ := if k / 2 ^ 23 = 0 then k % 2 ^ 23 else k % 2 ^ 23 + 2 ^ 23 with hmant
  set mant' : ℕ := if k' / 2 ^ 23 = 0 then k' % 2 ^ 23 else k' % 2 ^ 23 + 2 ^ 23 with hmant'
  have hexpo : max (k / 2 ^ 23) 1 ≤ max (k' / 2 ^ 23) 1 :=
    max_le_max (Nat.div_le_div_right h.le) le_rfl
  rcases hexpo.lt_or_eq with hlt | heq
  · -- a higher binade
    have hupper : (mant : ℚ) < 2 ^ 24 := by
      have : mant < 2 ^ 24 := by
        rw [hmant]
        split_ifs <;> omega
      exact_mod_cast this
    have hlower : (2 : ℚ) ^ 23 ≤ mant' := by
      have : 2 ^ 23 ≤ mant' := by
        rw [hmant', if_neg (by omega)]
        omega
      exact_mod_cast this
    calc (mant : ℚ) * 2 ^ ((max (k / 2 ^ 23) 1 : ℕ) - 150 : ℤ)
        < 2 ^ 24 * 2 ^ ((max (k / 2 ^ 23) 1 : ℕ) - 150 : ℤ) := by gcongr
      _ = 2 ^ 23 * 2 ^ ((max (k / 2 ^ 23) 1 : ℕ) + 1 - 150 : ℤ) := by
        rw [add_sub_right_comm, zpow_add_one₀ two_ne_zero]
        ring
      _ ≤ mant' * 2 ^ ((max (k' / 2 ^ 23) 1 : ℕ) - 150 : ℤ) := by
        refine mul_le_mul hlower (zpow_le_zpow_right₀ one_le_two ?_) (by positivity)
          (by positivity)
        omega
  · rw [heq]
    have hlt : (mant : ℚ) < mant' := by
      have : mant < mant' := by
        rw [hmant, hmant']
        split_ifs <;> omega
      exact_mod_cast this
    gcongr

theorem magnitude_top : magnitude (255 * 2 ^ 23) = 2 ^ 128 := by
  norm_num [magnitude]

/-- The pattern of a number whose last bit has the exponent `e - 149`. -/
theorem magnitude_add {e m : ℕ} (hm : m ≤ 2 ^ 24) (he : 0 < e → 2 ^ 23 ≤ m) :
    magnitude (e * 2 ^ 23 + m) = m * 2 ^ (e - 149 : ℤ) := by
  rcases lt_or_ge m (2 ^ 23) with hlow | hnormal
  · -- below the normal numbers
    obtain rfl : e = 0 := by
      by_contra hne
      exact absurd (he (Nat.pos_of_ne_zero hne)) (not_le.mpr hlow)
    rw [zero_mul, zero_add, magnitude, Nat.div_eq_of_lt hlow, if_pos rfl, Nat.mod_eq_of_lt hlow]
    norm_num
  rcases hm.lt_or_eq with hlt | rfl
  · have hdiv : (e * 2 ^ 23 + m) / 2 ^ 23 = e + 1 := by omega
    have hmod : (e * 2 ^ 23 + m) % 2 ^ 23 + 2 ^ 23 = m := by omega
    rw [magnitude, hdiv, if_neg (Nat.succ_ne_zero e), hmod, max_eq_left (Nat.le_add_left 1 e)]
    congr 2
    push_cast
    ring
  · -- the mantissa has carried into the exponent
    have hdiv : (e * 2 ^ 23 + 2 ^ 24) / 2 ^ 23 = e + 2 := by omega
    have hmod : (e * 2 ^ 23 + 2 ^ 24) % 2 ^ 23 + 2 ^ 23 = 2 ^ 23 := by omega
    rw [magnitude, hdiv, if_neg (Nat.succ_ne_zero _), hmod, max_eq_left (Nat.le_add_left 1 (e + 1)),
      show ((e + 2 : ℕ) - 150 : ℤ) = (e - 149) + 1 by push_cast; ring, zpow_add_one₀ two_ne_zero]
    push_cast
    ring

/-! ### Rounding to a bit pattern -/

/-- The bit pattern of a number that is not negative, if there were no largest one. -/
def unbounded (q : ℚ) : ℕ :=
  (binary32.lastBit q + 149).toNat * 2 ^ 23 + (binary32.mantissa q).toNat

theorem lowest_le_lastBit_binary32 (q : ℚ) : -149 ≤ binary32.lastBit q :=
  binary32.lowest_le_lastBit q

/-- **The pattern of the nearest number.** -/
theorem magnitude_unbounded (hq : 0 < q) : magnitude (unbounded q) = binary32.nearest q := by
  have hmantissa : 0 ≤ binary32.mantissa q := mantissa_nonneg hq.le
  have hle : binary32.mantissa q ≤ 2 ^ 24 := mantissa_le hq.le
  have hlow := lowest_le_lastBit_binary32 q
  rw [unbounded, magnitude_add (by omega) fun hpos => ?_, nearest,
    show ((binary32.lastBit q + 149).toNat - 149 : ℤ) = binary32.lastBit q by omega]
  · rw [← Int.cast_natCast, Int.toNat_of_nonneg hmantissa]
  · have hfull : 2 ^ 23 ≤ binary32.mantissa q :=
      le_mantissa hq (show -149 < binary32.lastBit q by omega)
    omega

/-- The bits of a number that is not zero: its pattern, or that of infinity, and its sign. -/
theorem toNat_bitsOfRat (hq : q ≠ 0) : (bitsOfRat q).toNat =
    min (unbounded |q|) (255 * 2 ^ 23) + if q < 0 then 2 ^ 31 else 0 := by
  have hbit : max (Int.log 2 |q|) (-126) = binary32.lastBit |q| + 23 := by
    rw [lastBit, abs_abs, binary32]
    ring
  have hlow := lowest_le_lastBit_binary32 |q|
  have hmantissa : 0 ≤ binary32.mantissa |q| := mantissa_nonneg (abs_nonneg q)
  have hround : roundEven (|q| * 2 ^ (23 - (binary32.lastBit |q| + 23))) =
      binary32.mantissa |q| := by
    rw [mantissa, show (23 - (binary32.lastBit |q| + 23) : ℤ) = -binary32.lastBit |q| by ring]
  have hsize : (min ((binary32.lastBit |q| + 23 + 126) * 2 ^ 23 + binary32.mantissa |q|)
      (255 * 2 ^ 23)).toNat = min (unbounded |q|) (255 * 2 ^ 23) := by
    rw [unbounded]
    omega
  rw [bitsOfRat, if_neg hq, hbit]
  dsimp only
  rw [hround, hsize]
  refine UInt32.toNat_ofNat_of_lt' ?_
  rw [UInt32.size]
  split_ifs <;> omega

theorem toNat_bitsOfRat_of_pos (hq : 0 < q) :
    (bitsOfRat q).toNat = min (unbounded q) (255 * 2 ^ 23) := by
  rw [toNat_bitsOfRat hq.ne', abs_of_pos hq, if_neg hq.not_gt, Nat.add_zero]

/-- **Rounding is monotone** on the numbers that are not negative. -/
theorem bitsOfRat_mono (hq : 0 ≤ q) (h : q ≤ q') :
    (bitsOfRat q).toNat ≤ (bitsOfRat q').toNat := by
  obtain rfl | hpos := hq.eq_or_lt
  · exact Nat.zero_le _
  · have hunbounded : unbounded q ≤ unbounded q' := by
      rw [← magnitude_strictMono.le_iff_le, magnitude_unbounded hpos,
        magnitude_unbounded (hpos.trans_le h)]
      exact nearest_mono h
    rw [toNat_bitsOfRat_of_pos hpos, toNat_bitsOfRat_of_pos (hpos.trans_le h)]
    exact min_le_min hunbounded le_rfl

theorem toNat_bitsOfRat_lt (hq : 0 ≤ q) : (bitsOfRat q).toNat < 2 ^ 31 := by
  obtain rfl | hpos := hq.eq_or_lt
  · decide
  · rw [toNat_bitsOfRat_of_pos hpos]
    exact (min_le_right _ _).trans_lt (by norm_num)

/-! ### The sign bit -/

/-- The bit pattern of a number that is not negative, with a sign. -/
def signedBits (negative : Bool) (q : ℚ) : UInt32 :=
  UInt32.ofNat ((bitsOfRat q).toNat + if negative then 2 ^ 31 else 0)

theorem toNat_signedBits (negative : Bool) (hq : 0 ≤ q) :
    (signedBits negative q).toNat = (bitsOfRat q).toNat + if negative then 2 ^ 31 else 0 := by
  have hlt := toNat_bitsOfRat_lt hq
  refine UInt32.toNat_ofNat_of_lt' ?_
  rw [UInt32.size]
  cases negative
  · rw [if_neg Bool.false_ne_true]
    omega
  · rw [if_pos rfl]
    omega

theorem toNat_signedBits_mod (negative : Bool) (hq : 0 ≤ q) :
    (signedBits negative q).toNat % 2 ^ 31 = (bitsOfRat q).toNat := by
  have hlt := toNat_bitsOfRat_lt hq
  rw [toNat_signedBits negative hq]
  cases negative
  · rw [if_neg Bool.false_ne_true]
    omega
  · rw [if_pos rfl]
    omega

/-! ### The interval from `-1` to `1` -/

/-- `b <= 1 && b >= -1`. -/
def InUnit (b : UInt32) : Prop := (ofBits b).le (fin 1) = true ∧ (fin (-1)).le (ofBits b) = true

instance (b : UInt32) : Decidable (InUnit b) := inferInstanceAs (Decidable (_ ∧ _))

theorem magnitude_le_one_iff (k : ℕ) : magnitude k ≤ 1 ↔ k ≤ 127 * 2 ^ 23 := by
  unfold magnitude
  set mant : ℕ := if k / 2 ^ 23 = 0 then k % 2 ^ 23 else k % 2 ^ 23 + 2 ^ 23 with hmant
  rcases lt_trichotomy (k / 2 ^ 23) 127 with hlt | heq | hgt
  · refine iff_of_true ?_ (by omega)
    have hmantLe : (mant : ℚ) ≤ 2 ^ 24 := by
      have : mant ≤ 2 ^ 24 := by
        rw [hmant]
        split_ifs <;> omega
      exact_mod_cast this
    calc (mant : ℚ) * 2 ^ ((max (k / 2 ^ 23) 1 : ℕ) - 150 : ℤ)
        ≤ 2 ^ 24 * 2 ^ (126 - 150 : ℤ) := by
          refine mul_le_mul hmantLe (zpow_le_zpow_right₀ one_le_two ?_) (by positivity)
            (by positivity)
          omega
      _ = 1 := by norm_num
  · -- the mantissa of 1 is `2 ^ 23`
    have hmantEq : mant = k % 2 ^ 23 + 2 ^ 23 := by
      rw [hmant, if_neg (by omega)]
    have hpow : (2 : ℚ) ^ ((max (k / 2 ^ 23) 1 : ℕ) - 150 : ℤ) = (2 ^ 23)⁻¹ := by
      rw [heq]
      norm_num
    have hcast : (mant : ℚ) ≤ 2 ^ 23 ↔ mant ≤ 2 ^ 23 := by exact_mod_cast Iff.rfl
    rw [hpow, ← div_eq_mul_inv, div_le_one (by positivity), hcast, hmantEq]
    omega
  · refine iff_of_false (not_le.mpr ?_) (by omega)
    have hmantGe : (2 : ℚ) ^ 23 ≤ mant := by
      have : 2 ^ 23 ≤ mant := by
        rw [hmant, if_neg (by omega)]
        omega
      exact_mod_cast this
    calc (1 : ℚ) < 2 ^ 23 * 2 ^ (128 - 150 : ℤ) := by norm_num
      _ ≤ mant * 2 ^ ((max (k / 2 ^ 23) 1 : ℕ) - 150 : ℤ) := by
        refine mul_le_mul hmantGe (zpow_le_zpow_right₀ one_le_two ?_) (by positivity)
          (by positivity)
        omega

/-- The value of a bit pattern, unless it is an infinity or not a number. -/
theorem ofBits_of_finite (h : b.toNat % 2 ^ 31 / 2 ^ 23 ≠ 255) :
    ofBits b = fin (if 2 ^ 31 ≤ b.toNat then -magnitude (b.toNat % 2 ^ 31)
      else magnitude (b.toNat % 2 ^ 31)) := by
  have hexpo : b.toNat / 2 ^ 23 % 2 ^ 8 = b.toNat % 2 ^ 31 / 2 ^ 23 := by omega
  have hfrac : b.toNat % 2 ^ 23 = b.toNat % 2 ^ 31 % 2 ^ 23 := by omega
  simp only [ofBits, hexpo, hfrac, if_neg h, magnitude]

/-- Infinities and not-a-number. -/
theorem ofBits_of_special (h : b.toNat % 2 ^ 31 / 2 ^ 23 = 255) :
    ofBits b = if b.toNat % 2 ^ 23 = 0 then inf (decide (2 ^ 31 ≤ b.toNat)) else nan := by
  have hexpo : b.toNat / 2 ^ 23 % 2 ^ 8 = 255 := by omega
  simp only [ofBits, if_pos hexpo]

theorem finite_of_ofBits (h : ofBits b = fin q) : b.toNat % 2 ^ 31 / 2 ^ 23 ≠ 255 := by
  intro hspecial
  rw [ofBits_of_special hspecial] at h
  split_ifs at h

/-- A `float` that is a number is its sign and its size. -/
theorem abs_of_ofBits (h : ofBits b = fin q) : |q| = magnitude (b.toNat % 2 ^ 31) := by
  have hnonneg := magnitude_nonneg (b.toNat % 2 ^ 31)
  rw [ofBits_of_finite (finite_of_ofBits h)] at h
  rw [← fin.inj h]
  split_ifs
  · rw [abs_neg, abs_of_nonneg hnonneg]
  · exact abs_of_nonneg hnonneg

theorem abs_lt_of_ofBits (h : ofBits b = fin q) : |q| < 2 ^ 128 := by
  have hfinite := finite_of_ofBits h
  rw [abs_of_ofBits h, ← magnitude_top]
  exact magnitude_strictMono (by omega)

/-- The interval, read off the bit pattern. -/
theorem inUnit_iff : InUnit b ↔ b.toNat % 2 ^ 31 ≤ 127 * 2 ^ 23 := by
  by_cases hspecial : b.toNat % 2 ^ 31 / 2 ^ 23 = 255
  · refine iff_of_false ?_ (by omega)
    rw [InUnit, ofBits_of_special hspecial]
    split_ifs
    · cases decide (2 ^ 31 ≤ b.toNat) <;> exact fun h => by simp [le, lt, beq] at h
    · simp [le, lt, beq]
  · have hnonneg := magnitude_nonneg (b.toNat % 2 ^ 31)
    rw [InUnit, ofBits_of_finite hspecial, le_fin, le_fin, decide_eq_true_iff, decide_eq_true_iff,
      ← magnitude_le_one_iff]
    split_ifs
    · exact ⟨fun h => by linarith [h.2], fun h => ⟨by linarith, by linarith⟩⟩
    · exact ⟨fun h => h.1, fun h => ⟨h, by linarith⟩⟩

/-- Numbers of the same sign in the interval are equal only if their patterns are. -/
theorem signedBits_inj {negative : Bool} (hq : 0 ≤ q) (hq' : 0 ≤ q')
    (h : InUnit (signedBits negative q)) (h' : InUnit (signedBits negative q'))
    (heq : ofBits (signedBits negative q) = ofBits (signedBits negative q')) :
    signedBits negative q = signedBits negative q' := by
  have hmod := toNat_signedBits_mod negative hq
  have hmod' := toNat_signedBits_mod negative hq'
  have hsign : ∀ {p : ℚ}, 0 ≤ p →
      (2 ^ 31 ≤ (signedBits negative p).toNat ↔ negative = true) := by
    intro p hp
    have hlt := toNat_bitsOfRat_lt hp
    rw [toNat_signedBits negative hp]
    cases negative
    · rw [if_neg Bool.false_ne_true]
      exact iff_of_false (by omega) Bool.false_ne_true
    · rw [if_pos rfl]
      exact iff_of_true (by omega) rfl
  have hbits := inUnit_iff.mp h
  have hbits' := inUnit_iff.mp h'
  rw [ofBits_of_finite (by omega), ofBits_of_finite (by omega), if_congr (hsign hq) rfl rfl,
    if_congr (hsign hq') rfl rfl, hmod, hmod', fin.injEq] at heq
  have hmagnitude : magnitude (bitsOfRat q).toNat = magnitude (bitsOfRat q').toNat := by
    split_ifs at heq
    · exact neg_inj.mp heq
    · exact heq
  have hnat := magnitude_strictMono.injective hmagnitude
  rw [signedBits, signedBits, hnat]

/-- A number that is not larger than one in the interval is in the interval. -/
theorem inUnit_of_le (negative negative' : Bool) (hq : 0 ≤ q) (h : q ≤ q')
    (hunit : InUnit (signedBits negative' q')) : InUnit (signedBits negative q) := by
  rw [inUnit_iff, toNat_signedBits_mod _ (hq.trans h)] at hunit
  rw [inUnit_iff, toNat_signedBits_mod _ hq]
  exact (bitsOfRat_mono hq h).trans hunit

theorem inUnit_of_le_one (negative : Bool) (hq : 0 ≤ q) (h : q ≤ 1) :
    InUnit (signedBits negative q) :=
  inUnit_of_le negative false hq h (by decide +kernel)

/-! ### Rounding and patterns -/

/-- **The pattern is that of the nearest `float`.** -/
theorem ofBits_bitsOfRat (q : ℚ) : ofBits (bitsOfRat q) = binary32.round q := by
  obtain rfl | hq := eq_or_ne q 0
  · have hzero : binary32.round 0 = fin 0 := binary32.rounding.round_zero
    rw [show bitsOfRat 0 = 0 from if_pos rfl, hzero]
    norm_num [ofBits]
  have hbits := toNat_bitsOfRat hq
  set k := min (unbounded |q|) (255 * 2 ^ 23) with hk
  have hmod : (bitsOfRat q).toNat % 2 ^ 31 = k := by
    rw [hbits]
    split_ifs <;> omega
  have hsign : 2 ^ 31 ≤ (bitsOfRat q).toNat ↔ q < 0 := by
    rw [hbits]
    split_ifs with hneg
    · exact iff_of_true (by omega) hneg
    · exact iff_of_false (by omega) hneg
  have hnearest : |binary32.nearest q| = magnitude (unbounded |q|) := by
    rw [magnitude_unbounded (abs_pos.mpr hq)]
    rcases le_total 0 q with hpos | hneg
    · rw [abs_of_nonneg hpos, abs_of_nonneg (nearest_nonneg hpos)]
    · have hopp : 0 ≤ binary32.nearest (-q) := nearest_nonneg (neg_nonneg.mpr hneg)
      rw [abs_of_nonpos hneg, ← abs_of_nonneg hopp, nearest_neg, abs_neg]
  have hlarge_iff : 2 ^ (binary32.highest + 1) ≤ |binary32.nearest q| ↔
      255 * 2 ^ 23 ≤ unbounded |q| := by
    rw [hnearest, ← magnitude_strictMono.le_iff_le, magnitude_top]
    rfl
  rw [BinaryFormat.round, if_congr hlarge_iff rfl rfl]
  split_ifs with hlarge
  · rw [ofBits_of_special (by omega), if_pos (by omega), decide_eq_decide.mpr hsign]
  · have hsmall : k = unbounded |q| := min_eq_left (not_le.mp hlarge).le
    rw [ofBits_of_finite (by omega), hmod, hsmall, if_congr hsign rfl rfl, ← hnearest]
    congr 1
    split_ifs with hneg
    · have hopp : 0 ≤ binary32.nearest (-q) := nearest_nonneg (by linarith)
      rw [nearest_neg] at hopp
      rw [abs_of_nonpos (by linarith), neg_neg]
    · exact abs_of_nonneg (nearest_nonneg (not_lt.mp hneg))

/-- A `float` is its own nearest one. -/
theorem round_of_ofBits (h : ofBits b = fin q) : binary32.round q = fin q := by
  have habs := abs_of_ofBits h
  set k := b.toNat % 2 ^ 31 with hk
  have hnearest : ∀ n : ℤ, |n| ≤ 2 ^ 24 → ∀ e : ℤ, -149 ≤ e →
      binary32.nearest (n * 2 ^ e) = n * 2 ^ e := fun _ hn _ he => nearest_of_mantissa hn he
  have hself : binary32.nearest |q| = |q| := by
    rw [habs, magnitude, ← Int.cast_natCast]
    refine hnearest _ ?_ _ (by omega)
    rw [Nat.abs_cast]
    split_ifs <;> omega
  have hself' : binary32.nearest q = q := by
    rcases abs_choice q with hq | hq
    · rwa [hq] at hself
    · rw [hq, nearest_neg] at hself
      exact neg_inj.mp hself
  have hlt : |q| < 2 ^ (binary32.highest + 1) := abs_lt_of_ofBits h
  rw [round_of_lt (by rwa [hself']), hself']

/-- The conversion to a `float`. -/
def toBits : ExtRat → UInt32
  | nan => 0x7fc00000
  | inf negative => if negative then 0xff800000 else 0x7f800000
  | fin q => bitsOfRat q

/-- A value that is a `float` is converted exactly. -/
theorem ofBits_toBits {x : ExtRat} (h : ofBits b = x) : ofBits (toBits x) = x := by
  cases x with
  | nan => rfl
  | inf negative => cases negative <;> rfl
  | fin q => exact (ofBits_bitsOfRat q).trans (round_of_ofBits h)

end ExtRat
