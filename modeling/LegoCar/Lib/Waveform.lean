import Mathlib

/-!
# Pulses of a sampled signal

A signal sampled at every clock is a function `ℕ → Bool`. A pulse begins where the signal rises and
has a length, unless the signal stays high for ever. The rules build the first pulse after a time
sample by sample, as a circuit that watches the signal meets it.
-/

namespace Waveform

variable {w : ℕ → Bool} {e t u k : ℕ}

/-- The signal is low in the sample before, and high in this one. -/
def RisesAt (w : ℕ → Bool) (u : ℕ) : Prop := 0 < u ∧ w (u - 1) = false ∧ w u = true

/-- The signal is high for `k` samples. -/
def HighFor (w : ℕ → Bool) (u k : ℕ) : Prop := ∀ i < k, w (u + i) = true

/-- The pulse that begins here is `k` samples long. -/
def PulseOf (w : ℕ → Bool) (u k : ℕ) : Prop := HighFor w u k ∧ w (u + k) = false

/-- The signal does not rise after `e`, up to `t`. -/
def NoRise (w : ℕ → Bool) (e t : ℕ) : Prop := ∀ v, e < v → v ≤ t → ¬RisesAt w v

/-- The first pulse after `e` begins here. -/
def FirstRise (w : ℕ → Bool) (e u : ℕ) : Prop :=
  e < u ∧ RisesAt w u ∧ ∀ v, e < v → v < u → ¬RisesAt w v

theorem risesAt_succ : RisesAt w (t + 1) ↔ w t = false ∧ w (t + 1) = true :=
  and_iff_right (Nat.succ_pos t)

theorem noRise_self : NoRise w e e := fun _ hv hv' => absurd hv (Nat.not_lt.mpr hv')

theorem NoRise.succ (h : NoRise w e t) (hrise : ¬RisesAt w (t + 1)) : NoRise w e (t + 1) := by
  intro v hv hv'
  obtain rfl | hlt := Nat.eq_or_lt_of_le hv'
  · exact hrise
  · exact h v hv (Nat.le_of_lt_succ hlt)

/-- The rise that ends the wait is the first one. -/
theorem NoRise.firstRise (h : NoRise w e t) (he : e ≤ t) (hrise : RisesAt w (t + 1)) :
    FirstRise w e (t + 1) :=
  ⟨Nat.lt_succ_of_le he, hrise, fun v hv hv' => h v hv (Nat.le_of_lt_succ hv')⟩

theorem RisesAt.highFor (h : RisesAt w u) : HighFor w u 1 := by
  intro i hi
  obtain rfl := Nat.lt_one_iff.mp hi
  exact h.2.2

theorem HighFor.succ (h : HighFor w u k) (hw : w (u + k) = true) : HighFor w u (k + 1) := by
  intro i hi
  obtain rfl | hlt := Nat.eq_or_lt_of_le (Nat.le_of_lt_succ hi)
  · exact hw
  · exact h i hlt

end Waveform
