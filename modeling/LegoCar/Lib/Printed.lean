import Mathlib
import LegoCar.Lib.Json
import LegoCar.Lib.Stdio

/-!
# Printed numbers as JSON texts

What `%d` prints is a JSON number, the one printed (`reads_showInt`). What `%f` prints of a finite
`float` is a JSON number within half a unit of the sixth decimal (`reads_showFloat`); of an infinity
or of not-a-number it prints a word, with which no JSON value begins (`fails_showFloat`).
-/

namespace Stdio

open ExtRat Json

variable {n k : ℕ} {c : UInt8}

/-! ### Digits -/

theorem decimal_of_lt (h : n < 10) : decimal n = [UInt8.ofNat (48 + n)] := by
  unfold decimal
  split_ifs with hn
  · subst hn
    rfl
  · rw [Nat.digits_of_lt 10 n hn h]
    rfl

theorem decimal_of_le (h : 10 ≤ n) :
    decimal n = decimal (n / 10) ++ [UInt8.ofNat (48 + n % 10)] := by
  have hn : n ≠ 0 := by omega
  have hdiv : n / 10 ≠ 0 := by omega
  rw [decimal, if_neg hn, decimal, if_neg hdiv, Nat.digits_eq_cons_digits_div (by norm_num) hn,
    List.reverse_cons, List.map_append]
  rfl

/-- A number in decimal is one digit, or a shorter number and one digit. -/
theorem decimal_induction {P : ℕ → List UInt8 → Prop}
    (hlt : ∀ n < 10, P n [UInt8.ofNat (48 + n)])
    (hle : ∀ n, 10 ≤ n → P (n / 10) (decimal (n / 10)) →
      P n (decimal (n / 10) ++ [UInt8.ofNat (48 + n % 10)])) (n : ℕ) : P n (decimal n) := by
  induction n using Nat.strong_induction_on with
  | _ n ih =>
    rcases Nat.lt_or_ge n 10 with h | h
    · rw [decimal_of_lt h]
      exact hlt n h
    · rw [decimal_of_le h]
      exact hle n h (ih (n / 10) (by omega))

theorem toNat_digit (h : n < 10) : (UInt8.ofNat (48 + n)).toNat = 48 + n := by
  rw [UInt8.toNat_ofNat']
  omega

theorem isDigit_digit (h : n < 10) : isDigit (UInt8.ofNat (48 + n)) = true := by
  have htoNat := toNat_digit h
  simp only [isDigit, decide_eq_true_eq, UInt8.le_iff_toNat_le]
  rw [htoNat]
  exact ⟨Nat.le_add_right _ _, show 48 + n ≤ 57 by omega⟩

theorem isDigit_decimal (n : ℕ) : ∀ c ∈ decimal n, isDigit c = true := by
  refine decimal_induction (P := fun _ ds => ∀ c ∈ ds, isDigit c = true) ?_ ?_ n
  · intro n hn c hc
    rw [List.mem_singleton.mp hc]
    exact isDigit_digit hn
  · intro n _ ih c hc
    rcases List.mem_append.mp hc with hc | hc
    · exact ih c hc
    · rw [List.mem_singleton.mp hc]
      exact isDigit_digit (Nat.mod_lt n (by norm_num))

theorem digitsValue_append_digit (ds : List UInt8) (h : n < 10) :
    digitsValue (ds ++ [UInt8.ofNat (48 + n)]) = digitsValue ds * 10 + n := by
  rw [digitsValue, List.foldl_append]
  show digitsValue ds * 10 + ((UInt8.ofNat (48 + n)).toNat - 48) = _
  rw [toNat_digit h]
  omega

theorem digitsValue_decimal (n : ℕ) : digitsValue (decimal n) = n := by
  refine decimal_induction (P := fun n ds => digitsValue ds = n) ?_ ?_ n
  · intro n hn
    exact (digitsValue_append_digit [] hn).trans (Nat.zero_add n)
  · intro n _ ih
    rw [digitsValue_append_digit _ (Nat.mod_lt n (by norm_num)), ih]
    omega

theorem isInteger_decimal (n : ℕ) : IsInteger (decimal n) := by
  have hhead : n = 0 ∧ decimal n = [48] ∨ 0 < n ∧ ∃ c t, decimal n = c :: t ∧ c ≠ 48 := by
    refine decimal_induction
      (P := fun n ds => n = 0 ∧ ds = [48] ∨ 0 < n ∧ ∃ c t, ds = c :: t ∧ c ≠ 48) ?_ ?_ n
    · intro n hn
      rcases Nat.eq_zero_or_pos n with rfl | hpos
      · exact Or.inl ⟨rfl, rfl⟩
      · refine Or.inr ⟨hpos, _, _, rfl, fun heq => ?_⟩
        have htoNat := toNat_digit hn
        rw [heq] at htoNat
        exact absurd htoNat (show ¬48 = 48 + n by omega)
    · intro n hn ih
      obtain ⟨hzero, -⟩ | ⟨-, c, t, hds, hc⟩ := ih
      · omega
      · exact Or.inr ⟨by omega, c, t ++ [UInt8.ofNat (48 + n % 10)], by rw [hds]; rfl, hc⟩
  exact ⟨isDigit_decimal n, hhead.imp And.right And.right⟩

theorem length_decimal_le (h : n < 10 ^ k) (hk : 0 < k) : (decimal n).length ≤ k := by
  induction k, hk using Nat.le_induction generalizing n with
  | base =>
    rw [decimal_of_lt (by omega)]
    exact le_rfl
  | succ k hk ih =>
    rcases Nat.lt_or_ge n 10 with hlt | hge
    · rw [decimal_of_lt hlt]
      exact Nat.succ_le_succ (Nat.zero_le k)
    · rw [decimal_of_le hge, List.length_append]
      exact Nat.succ_le_succ (ih (by rw [pow_succ] at h; omega))

/-! ### Integers -/

/-- `%d` prints a JSON number. -/
theorem reads_showInt (z : ℤ) : Reads (showInt z) (.number z) := by
  have hreads : Reads (numberText (decide (z < 0)) (decimal z.natAbs) []) _ :=
    reads_number (isInteger_decimal z.natAbs) fun c hc => absurd hc (by simp)
  have htext : numberText (decide (z < 0)) (decimal z.natAbs) [] = showInt z := by
    rw [numberText, showInt]
    by_cases hz : z < 0 <;> simp [hz]
  have hvalue : (if decide (z < 0) then -1 else 1) *
      ((digitsValue (decimal z.natAbs ++ []) : ℚ) / 10 ^ ([] : List UInt8).length) = z := by
    rw [List.append_nil, digitsValue_decimal, Nat.cast_natAbs]
    by_cases hz : z < 0
    · simp [hz, abs_of_neg hz]
    · simp [hz, abs_of_nonneg (not_lt.mp hz)]
  rwa [htext, hvalue] at hreads

/-! ### Floating-point numbers -/

/-- The six decimals of a number of millionths. -/
def sixDecimals (n : ℕ) : List UInt8 :=
  List.replicate (6 - (decimal (n % 10 ^ 6)).length) 48 ++ decimal (n % 10 ^ 6)

theorem length_sixDecimals (n : ℕ) : (sixDecimals n).length = 6 := by
  have hle : (decimal (n % 10 ^ 6)).length ≤ 6 :=
    length_decimal_le (Nat.mod_lt n (by norm_num)) (by norm_num)
  rw [sixDecimals, List.length_append, List.length_replicate]
  omega

theorem isDigit_sixDecimals (n : ℕ) : ∀ c ∈ sixDecimals n, isDigit c = true := by
  intro c hc
  rcases List.mem_append.mp hc with hc | hc
  · rw [List.eq_of_mem_replicate hc]
    rfl
  · exact isDigit_decimal _ c hc

theorem digitsValue_append (ds fs : List UInt8) :
    digitsValue (ds ++ fs) = digitsValue ds * 10 ^ fs.length + digitsValue fs := by
  induction fs using List.reverseRecOn with
  | nil => simp [digitsValue]
  | append_singleton fs c ih =>
    have hstep : ∀ ds, digitsValue (ds ++ [c]) = digitsValue ds * 10 + (c.toNat - 48) := by
      intro ds
      rw [digitsValue, List.foldl_append]
      rfl
    rw [← List.append_assoc, hstep, hstep, ih, List.length_append, List.length_singleton, pow_succ]
    ring

theorem digitsValue_sixDecimals (n : ℕ) : digitsValue (sixDecimals n) = n % 10 ^ 6 := by
  have hzeros : ∀ k, digitsValue (List.replicate k 48) = 0 := by
    intro k
    induction k with
    | zero => rfl
    | succ k ih =>
      rw [List.replicate_succ', digitsValue_append, ih]
      rfl
  rw [sixDecimals, digitsValue_append, hzeros, digitsValue_decimal, zero_mul, zero_add]

/-- The sign bit. -/
def negativeBits (b : UInt32) : Bool := 2 ^ 31 ≤ b.toNat

/-- The millionths that are printed of a finite number. -/
def millionths (q : ℚ) : ℕ := (roundEven (|q| * 10 ^ 6)).toNat

theorem showFloat_of_fin {b : UInt32} {q : ℚ} (h : ofBits b = fin q) : showFloat b =
    numberText (negativeBits b) (decimal (millionths q / 10 ^ 6)) (sixDecimals (millionths q)) := by
  have hne : sixDecimals (millionths q) ≠ [] :=
    List.ne_nil_of_length_eq_add_one (length_sixDecimals _)
  rw [showFloat, h, numberText, if_neg hne]
  simp [negativeBits, millionths, sixDecimals]

/-- The value that is printed of a finite number. -/
def printed (b : UInt32) (q : ℚ) : ℚ := (if negativeBits b then -1 else 1) * (millionths q / 10 ^ 6)

/-- **`%f` prints a JSON number** of a finite `float`. -/
theorem reads_showFloat {b : UInt32} {q : ℚ} (h : ofBits b = fin q) :
    Reads (showFloat b) (.number (printed b q)) := by
  have hreads : Reads (numberText (negativeBits b) (decimal (millionths q / 10 ^ 6))
      (sixDecimals (millionths q))) _ :=
    reads_number (isInteger_decimal _) (isDigit_sixDecimals _)
  have hvalue : digitsValue (decimal (millionths q / 10 ^ 6) ++ sixDecimals (millionths q)) =
      millionths q := by
    rw [digitsValue_append, length_sixDecimals, digitsValue_decimal, digitsValue_sixDecimals]
    exact Nat.div_add_mod' _ _
  rwa [hvalue, length_sixDecimals, ← showFloat_of_fin h] at hreads

/-- The sign bit is the sign. -/
theorem eq_sign_mul_abs {b : UInt32} {q : ℚ} (h : ofBits b = fin q) :
    q = (if negativeBits b then -1 else 1) * |q| := by
  rw [abs_of_ofBits h, negativeBits]
  rw [ofBits_of_finite (finite_of_ofBits h)] at h
  rw [← fin.inj h]
  by_cases hneg : 2 ^ 31 ≤ b.toNat
  · rw [if_pos hneg, decide_eq_true hneg, if_pos rfl, neg_one_mul]
  · rw [if_neg hneg, decide_eq_false hneg, if_neg Bool.false_ne_true, one_mul]

/-- The number printed is the number, up to half a unit of the sixth decimal. -/
theorem abs_printed_sub_le {b : UInt32} {q : ℚ} (h : ofBits b = fin q) :
    |printed b q - q| ≤ 1 / 2 * (1 / 10 ^ 6) := by
  have hmillionths : ((millionths q : ℕ) : ℚ) = roundEven (|q| * 10 ^ 6) := by
    have hnonneg : 0 ≤ roundEven (|q| * 10 ^ 6) := le_roundEven (by positivity)
    rw [millionths]
    exact_mod_cast Int.toNat_of_nonneg hnonneg
  have hround := abs_roundEven_sub_le (|q| * 10 ^ 6)
  have hprinted : printed b q - q =
      (if negativeBits b then -1 else 1) * (roundEven (|q| * 10 ^ 6) / 10 ^ 6 - |q|) := by
    rw [mul_sub, ← eq_sign_mul_abs h, printed, hmillionths]
  have hsize : |printed b q - q| = abs ((roundEven (|q| * 10 ^ 6) : ℚ) / 10 ^ 6 - |q|) := by
    rw [hprinted, abs_mul]
    split_ifs <;> simp
  rw [hsize]
  rw [abs_le] at hround ⊢
  constructor <;> linarith

/-- No value begins with a word that is printed for an infinity or not-a-number. -/
theorem fails_words : Fails (ascii "nan") ∧ Fails (ascii "inf") ∧ Fails (45 :: ascii "nan") ∧
    Fails (45 :: ascii "inf") := by
  have hnan : ascii "nan" = [110, 97, 110] := by decide
  have hinf : ascii "inf" = [105, 110, 102] := by decide
  rw [hnan, hinf]
  refine ⟨fun fuel rest => ?_, fun fuel rest => ?_, fun fuel rest => ?_, fun fuel rest => ?_⟩ <;>
    cases fuel <;> rfl

/-- **`%f` prints a word** for an infinity or not-a-number. -/
theorem fails_showFloat {b : UInt32} (h : ∀ q, ofBits b ≠ fin q) : Fails (showFloat b) := by
  obtain ⟨hnan, hinf, hnan', hinf'⟩ := fails_words
  unfold showFloat
  cases hbits : ofBits b with
  | nan =>
    dsimp only
    split_ifs
    · exact hnan'
    · exact hnan
  | inf negative =>
    dsimp only
    split_ifs
    · exact hinf'
    · exact hinf
  | fin q => exact absurd hbits (h q)

/-! ### Printed numbers as strings -/

theorem ne_zero_of_isDigit (h : isDigit c = true) : c ≠ 0 := by
  rintro rfl
  exact absurd h (by decide)

theorem zero_notMem_decimal (n : ℕ) : 0 ∉ decimal n := fun h =>
  ne_zero_of_isDigit (isDigit_decimal n 0 h) rfl

theorem zero_notMem_showInt (z : ℤ) : 0 ∉ showInt z := by
  unfold showInt
  split_ifs <;> simp [zero_notMem_decimal]

theorem zero_notMem_showFloat (b : UInt32) : 0 ∉ showFloat b := by
  have hnan : 0 ∉ ascii "nan" := by decide
  have hinf : 0 ∉ ascii "inf" := by decide
  unfold showFloat
  cases ofBits b <;> dsimp only <;> split_ifs <;> simp [zero_notMem_decimal, hnan, hinf]

theorem length_showInt_le {z : ℤ} (h : z.natAbs < 10 ^ k) (hk : 0 < k) :
    (showInt z).length ≤ k + 1 := by
  have hle := length_decimal_le h hk
  unfold showInt
  split_ifs
  · exact Nat.succ_le_succ hle
  · exact hle.trans (Nat.le_succ k)

/-- A finite `float` has at most 39 digits before the point. -/
theorem millionths_lt {b : UInt32} {q : ℚ} (h : ofBits b = fin q) :
    millionths q / 10 ^ 6 < 10 ^ 39 := by
  have hround : roundEven (|q| * 10 ^ 6) ≤ 2 ^ 128 * 10 ^ 6 := by
    refine roundEven_le ?_
    push_cast
    linarith [abs_lt_of_ofBits h]
  have hle : millionths q ≤ 2 ^ 128 * 10 ^ 6 := Int.toNat_le.mpr (by exact_mod_cast hround)
  omega

theorem length_showFloat_le (b : UInt32) : (showFloat b).length ≤ 47 := by
  have hnan : (ascii "nan").length = 3 := by decide
  have hinf : (ascii "inf").length = 3 := by decide
  cases hbits : ofBits b with
  | nan =>
    unfold showFloat
    rw [hbits]
    dsimp only
    split_ifs <;> simp [hnan]
  | inf negative =>
    unfold showFloat
    rw [hbits]
    dsimp only
    split_ifs <;> simp [hinf]
  | fin q =>
    have hne : sixDecimals (millionths q) ≠ [] :=
      List.ne_nil_of_length_eq_add_one (length_sixDecimals _)
    have hle := length_decimal_le (millionths_lt hbits) (by norm_num)
    rw [showFloat_of_fin hbits, numberText, if_neg hne, List.length_append, List.length_append,
      List.length_cons, length_sixDecimals]
    split_ifs
    · rw [List.length_singleton]
      omega
    · rw [List.length_nil]
      omega

/-- Where no item takes more than `m` bytes, the text takes at most `m` bytes for each item. -/
theorem length_sprintf_le {items : List Item} {m : ℕ} (h : ∀ item ∈ items, item.render.length ≤ m) :
    (sprintf items).length ≤ items.length * m := by
  rw [sprintf, List.length_flatMap]
  refine (List.sum_le_card_nsmul _ m ?_).trans_eq ?_
  · intro n hn
    obtain ⟨item, hitem, rfl⟩ := List.mem_map.mp hn
    exact h item hitem
  · rw [List.length_map, smul_eq_mul]

end Stdio
