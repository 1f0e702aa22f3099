import Mathlib

/-!
# Little-endian byte strings

`toLE k x` lays the natural number `x` out in `k` bytes, least significant byte first, and
`ofLE` reads such a layout back: it gives `x` again when `x` is below `256 ^ k`, which is all a
fixed record layout needs.
-/

namespace LittleEndian

/-- The `k` low bytes of `x`, least significant first. -/
def toLE : ℕ → ℕ → List UInt8
  | 0, _ => []
  | k + 1, x => UInt8.ofNat x :: toLE k (x / 256)

/-- The number a byte string denotes, least significant byte first. -/
def ofLE (bs : List UInt8) : ℕ := Nat.ofDigits 256 (bs.map UInt8.toNat)

@[simp]
theorem ofLE_nil : ofLE [] = 0 := rfl

@[simp]
theorem ofLE_cons (b : UInt8) (bs : List UInt8) : ofLE (b :: bs) = b.toNat + 256 * ofLE bs := by
  simp [ofLE, Nat.ofDigits_cons]

@[simp]
theorem length_toLE (k x : ℕ) : (toLE k x).length = k := by
  induction k generalizing x with
  | zero => rfl
  | succ k ih => simp [toLE, ih]

/-- Reading back a layout keeps the low `k` bytes. -/
theorem ofLE_toLE (k x : ℕ) : ofLE (toLE k x) = x % 256 ^ k := by
  induction k generalizing x with
  | zero => simp [toLE, Nat.mod_one]
  | succ k ih =>
    have hlow : (UInt8.ofNat x).toNat = x % 256 := UInt8.toNat_ofNat'
    rw [toLE, ofLE_cons, ih, hlow, pow_succ', Nat.mod_mul]

theorem ofLE_toLE_of_lt {k x : ℕ} (h : x < 256 ^ k) : ofLE (toLE k x) = x := by
  rw [ofLE_toLE, Nat.mod_eq_of_lt h]

/-- Laying out the number that a byte string denotes. -/
theorem toLE_ofLE (bs : List UInt8) : toLE bs.length (ofLE bs) = bs := by
  induction bs with
  | nil => rfl
  | cons b bs ih =>
    have hlow : UInt8.ofNat (b.toNat + 256 * ofLE bs) = b := by
      rw [← UInt8.toNat_inj, UInt8.toNat_ofNat']
      have := b.toNat_lt
      omega
    have hrest : (b.toNat + 256 * ofLE bs) / 256 = ofLE bs := by
      have := b.toNat_lt
      omega
    rw [List.length_cons, ofLE_cons, toLE, hlow, hrest, ih]

/-- A byte string denotes a number of as many digits. -/
theorem ofLE_lt (bs : List UInt8) : ofLE bs < 256 ^ bs.length := by
  have hdigits : ∀ x ∈ bs.map UInt8.toNat, x < 256 := by
    intro x hx
    obtain ⟨b, -, rfl⟩ := List.mem_map.mp hx
    exact b.toNat_lt
  have hlt := Nat.ofDigits_lt_base_pow_length (by decide) hdigits
  rwa [List.length_map] at hlt

/-! ### The fields of a record -/

/-- Skipping past a field of a record layout. -/
@[simp]
theorem drop_toLE_append {k n : ℕ} (h : k ≤ n) (x : ℕ) (bs : List UInt8) :
    (toLE k x ++ bs).drop n = bs.drop (n - k) := by
  rw [List.drop_append, List.drop_of_length_le (by simpa using h), length_toLE, List.nil_append]

/-- Cutting the first field out of a record layout. -/
@[simp]
theorem take_toLE_append (k x : ℕ) (bs : List UInt8) : (toLE k x ++ bs).take k = toLE k x := by
  rw [List.take_append_of_le_length (by simp), List.take_of_length_le (by simp)]

end LittleEndian
