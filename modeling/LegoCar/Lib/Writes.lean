import Mathlib

/-!
# Writes to an array

What a program does to an array is a list of writes, each of some values from an index on. The
array is a list here, which grows when a write goes on behind its end; the writes that the program
may make are `Within` its length.

A loop whose visits make writes makes those of all visits (`along`): `foldl_along` says what it
does to the array, and `forall_along_iff` when all its writes have a property.
-/

/-- Values written to an array, from the index `start` on. -/
structure Write (α : Type*) where
  start : ℕ
  values : List α
deriving DecidableEq

namespace Write

variable {α σ ι : Type*} {n : ℕ} {w : Write α} {ws ws' : List (Write α)} {array : List α}

/-- The write is made. -/
def apply (array : List α) (w : Write α) : List α :=
  array.take w.start ++ w.values ++ array.drop (w.start + w.values.length)

/-- Every index written is below `n`. -/
def Within (n : ℕ) (w : Write α) : Prop := ∀ k < w.values.length, w.start + k < n

/-- All writes are made. -/
def applyAll (ws : List (Write α)) (array : List α) : List α := ws.foldl apply array

@[simp]
theorem applyAll_nil : applyAll [] array = array := rfl

@[simp]
theorem applyAll_cons : applyAll (w :: ws) array = applyAll ws (w.apply array) := rfl

theorem applyAll_append : applyAll (ws ++ ws') array = applyAll ws' (applyAll ws array) :=
  List.foldl_append

theorem apply_zero (values : List α) :
    apply array ⟨0, values⟩ = values ++ array.drop values.length := by
  rw [apply, List.take_zero, List.nil_append, Nat.zero_add]

theorem within_of_le (h : w.start + w.values.length ≤ n) : w.Within n := fun k hk => by omega

/-! ### The writes of a loop -/

section Loop

variable {step : σ → ι → σ} {writes : σ → ι → List (Write α)}

/-- The writes of the visits to the members of a list. -/
def along (step : σ → ι → σ) (writes : σ → ι → List (Write α)) : List ι → σ → List (Write α)
  | [], _ => []
  | i :: l, s => writes s i ++ along step writes l (step s i)

/-- What the loop does to an array is what its writes do. -/
theorem foldl_along (view : σ → List α)
    (h : ∀ s i, view (step s i) = applyAll (writes s i) (view s)) (l : List ι) (s : σ) :
    view (l.foldl step s) = applyAll (along step writes l s) (view s) := by
  induction l generalizing s with
  | nil => rfl
  | cons i l ih => rw [List.foldl_cons, ih, h, along, applyAll_append]

/-- A property of the writes of every visit is one of the writes of the loop. -/
theorem forall_along {P : Write α → Prop} (h : ∀ s i, ∀ w ∈ writes s i, P w) (l : List ι) (s : σ) :
    ∀ w ∈ along step writes l s, P w := by
  induction l generalizing s with
  | nil => exact fun w hw => absurd hw List.not_mem_nil
  | cons i l ih => exact List.forall_mem_append.mpr ⟨h s i, ih (step s i)⟩

/-- Let the writes of a visit have a property exactly when the member meets its condition, which
the visits to others neither make nor break. Then the writes of the loop have the property exactly
when every member meets its condition at the beginning. -/
theorem forall_along_iff {P : Write α → Prop} {C : ι → σ → Prop}
    (h : ∀ s i, (∀ w ∈ writes s i, P w) ↔ C i s)
    (hC : ∀ s i j, i ≠ j → (C j (step s i) ↔ C j s)) {l : List ι} (hl : l.Nodup) (s : σ) :
    (∀ w ∈ along step writes l s, P w) ↔ ∀ i ∈ l, C i s := by
  induction l generalizing s with
  | nil => simp [along]
  | cons i l ih =>
    obtain ⟨hi, hl⟩ := List.nodup_cons.mp hl
    have hothers : (∀ j ∈ l, C j (step s i)) ↔ ∀ j ∈ l, C j s := by
      refine forall₂_congr fun j hj => hC s i j ?_
      rintro rfl
      exact hi hj
    rw [along, List.forall_mem_append, List.forall_mem_cons, h, ih hl, hothers]

end Loop

end Write
