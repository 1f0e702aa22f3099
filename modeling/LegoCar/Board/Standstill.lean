import Mathlib
import LegoCar.Board.StallTrip

/-!
# A wheel that does not turn

A set value of zero does not switch the motor off. While the controller is enabled, the set value is
zero and the wheel does not turn, the error is zero, so the integral stays what it is, and from the
second iteration on it is the whole output (`standstill`). The motor is off when the integral is in
the dead band, and otherwise it goes on pushing with the same duty; only a duty at the limit ends,
with the 101st of these iterations, if the host asks for the stall check.
-/

namespace LegoCar

open Driven Board

/-- The controller is enabled in iteration `n`, the set value is zero and the wheel stands still. -/
structure RestsAt (b₀ : Board) (inp : ℕ → BoardInput) (n : ℕ) : Prop where
  enabled : (showsAt b₀ inp n).enabled = true
  W : (showsAt b₀ inp n).W = 0
  X : (showsAt b₀ inp n).X = 0

variable {b₀ : Board} {inp : ℕ → BoardInput} {n m : ℕ}

theorem enabledAt_of_enabled (h : (showsAt b₀ inp n).enabled = true) : EnabledAt b₀ inp n := by
  intro hoff
  exact Bool.false_ne_true ((boardAt_offStep hoff).enabled.symm.trans h)

/-! ### Two iterations -/

/-- The error is zero, and adds nothing to the integral. -/
theorem RestsAt.integral (h : RestsAt b₀ inp n) :
    (boardAt b₀ inp (n + 1)).outdat.I = (boardAt b₀ inp n).outdat.I := by
  rw [(onStep_of_enabled h.enabled).I, h.W, h.X]
  exact Int32.add_zero _

/-- In the second iteration the error has not changed either, and the integral is left. -/
theorem RestsAt.controllerSum (h : RestsAt b₀ inp n) (h' : RestsAt b₀ inp (n + 1)) :
    (boardAt b₀ inp (n + 1 + 1)).controllerSum = (boardAt b₀ inp (n + 1 + 1)).outdat.I := by
  have hon := onStep_of_enabled h.enabled
  have hon' := onStep_of_enabled h'.enabled
  have hP : (boardAt b₀ inp (n + 1 + 1)).outdat.P = 0 := by
    rw [hon'.P, h'.W, h'.X]
    rfl
  have hD : (boardAt b₀ inp (n + 1 + 1)).outdat.D = 0 := by
    rw [hon'.D, h'.W, h'.X, hon.prevW, hon.X, h.W, h.X]
    rfl
  have hFF : (boardAt b₀ inp (n + 1 + 1)).outdat.FF = 0 := by
    rw [hon'.FF, h'.W]
    rfl
  rw [Board.controllerSum, hP, hD, hFF, Int32.add_zero, Int32.add_zero]
  exact Int32.zero_add _

/-! ### A stretch of iterations -/

theorem integral_of_rests (hrests : ∀ k, n ≤ k → k ≤ m → RestsAt b₀ inp k) {k : ℕ} (hnk : n ≤ k)
    (hkm : k ≤ m) : (boardAt b₀ inp (k + 1)).outdat.I = (boardAt b₀ inp n).outdat.I := by
  induction k, hnk using Nat.le_induction with
  | base => exact (hrests n le_rfl hkm).integral
  | succ k hnk ih =>
    exact (hrests (k + 1) (Nat.le_succ_of_le hnk) hkm).integral.trans (ih (Nat.le_of_succ_le hkm))

/-- From the second iteration on, the motor setting is that of the integral. -/
theorem motor_of_rests (hrests : ∀ k, n ≤ k → k ≤ m → RestsAt b₀ inp k) {k : ℕ} (hnk : n < k)
    (hkm : k ≤ m) :
    (showsAt b₀ inp k).motor.duty1 = (limitDuty (boardAt b₀ inp n).outdat.I.abs).toUInt32 ∧
      (showsAt b₀ inp k).motor.duty2 = (limitDuty (boardAt b₀ inp n).outdat.I.abs).toUInt32 ∧
      (showsAt b₀ inp k).motor.enable = if (boardAt b₀ inp n).outdat.I < 0 then 2 else 1 := by
  obtain ⟨j, rfl⟩ : ∃ j, k = j + 1 := ⟨k - 1, by omega⟩
  have hrest := hrests (j + 1) (by omega) hkm
  have hon := onStep_of_enabled hrest.enabled
  have hsum : (boardAt b₀ inp (j + 1 + 1)).controllerSum = (boardAt b₀ inp n).outdat.I :=
    ((hrests j (by omega) (by omega)).controllerSum hrest).trans
      (integral_of_rests hrests (by omega) hkm)
  rw [hon.duty1, hon.duty2, hon.direction, hsum]
  exact ⟨rfl, rfl, rfl⟩

/-- A duty at the limit is limited to it. -/
theorem limitDuty_of_le {d : Int32} (h : 99000 ≤ d) : limitDuty d = 99000 := by
  have hband : ¬d ≤ 10000 := fun hle => absurd (Int32.le_trans h hle) (by decide)
  rw [limitDuty, if_neg hband]
  exact if_pos h

/-- The dead band, as the registers show it. -/
theorem limitDuty_eq_zero_iff (d : Int32) : (limitDuty d).toUInt32 = 0 ↔ d ≤ 10000 := by
  by_cases hband : d ≤ 10000
  · rw [limitDuty, if_pos hband]
    exact ⟨fun _ => hband, fun _ => rfl⟩
  · refine ⟨fun h => absurd ?_ hband, fun h => absurd h hband⟩
    have hzero : limitDuty d = 0 := by
      rw [← Int32.toInt32_toUInt32 (limitDuty d), h]
      rfl
    rw [limitDuty, if_neg hband] at hzero
    by_cases hlimit : 99000 ≤ d
    · exact absurd ((if_pos hlimit).symm.trans hzero) (by decide)
    · rw [((if_neg hlimit).symm.trans hzero : d = 0)]
      decide

/-- **A wheel that does not turn is pushed on.** In every run, while the controller is enabled, the
set value is zero and the wheel does not turn, the motor setting is the same from the second
iteration on: the duty is the limited integral, which is zero exactly in the dead band. With the
integral at the limit and the stall check on, the controller is disabled after the 101st of these
iterations. -/
theorem standstill (b₀ : Board) (inp : ℕ → BoardInput) {n m : ℕ}
    (hrests : ∀ k, n ≤ k → k ≤ m → RestsAt b₀ inp k) :
    let I := (boardAt b₀ inp n).outdat.I
    (∀ k, n < k → k ≤ m →
      (showsAt b₀ inp k).motor.duty1 = (limitDuty I.abs).toUInt32 ∧
      (showsAt b₀ inp k).motor.duty2 = (limitDuty I.abs).toUInt32 ∧
      (showsAt b₀ inp k).motor.enable = (if I < 0 then 2 else 1) ∧
      ((showsAt b₀ inp k).motor.duty1 = 0 ↔ I.abs ≤ 10000)) ∧
    (99000 ≤ I.abs → n + 101 ≤ m →
      (∀ k, n < k → k ≤ n + 101 → (boardAt b₀ inp (k + 1)).indat.enConnBrokenCtr ≠ 0) →
      (showsAt b₀ inp (n + 102)).enabled = false) := by
  intro I
  refine ⟨fun k hnk hkm => ?_, fun hlimit hlong hasked => ?_⟩
  · obtain ⟨hduty, hduty', henable⟩ := motor_of_rests hrests hnk hkm
    exact ⟨hduty, hduty', henable, hduty ▸ limitDuty_eq_zero_iff I.abs⟩
  · have hstalls : ∀ t, n + 1 ≤ t → t ≤ n + 1 + 100 →
        CheckedAt b₀ inp t ∧ Stalls (showsAt b₀ inp t) := by
      intro t hnt htm
      have hrest := hrests t (by omega) (by omega)
      refine ⟨⟨enabledAt_of_enabled hrest.enabled, hasked t (by omega) (by omega)⟩, ?_, hrest.X⟩
      rw [(motor_of_rests hrests (by omega) (by omega)).1, limitDuty_of_le hlimit]
      rfl
    have hoff : ¬EnabledAt b₀ inp (n + 1 + 101) := not_enabledAt_of_stalls hstalls
    exact Bool.eq_false_iff.mpr (mt enabledAt_of_enabled hoff)

/-- Ten control steps with the same set value, which charge the integral up to the limit, and then a
record that stops; the wheel is blocked. -/
def halted : ℕ → BoardInput :=
  feed ([tagI] :: framesOf [⟨1, 1, 1, 0, 198⟩] :: List.replicate 10 [] ++
    [framesOf [⟨1, 1, 1, 0, 0⟩]])

/-- The stop does not reach the motor, but the stall check does. -/
theorem standstill_halted :
    (∀ k, 12 < k → k ≤ 113 → (showsAt (boot default default) halted k).motor.duty1 =
      (limitDuty (boardAt (boot default default) halted 12).outdat.I.abs).toUInt32) ∧
    (boardAt (boot default default) halted 12).outdat.I = 99000 ∧
    (showsAt (boot default default) halted 114).enabled = false := by
  have hall : ∀ j ≤ 101, (showsAt (boot default default) halted (12 + j)).enabled = true ∧
      (showsAt (boot default default) halted (12 + j)).W = 0 ∧
      (showsAt (boot default default) halted (12 + j)).X = 0 ∧
      (boardAt (boot default default) halted (12 + j + 1)).indat.enConnBrokenCtr ≠ 0 := by
    decide +kernel
  have hrests : ∀ k, 12 ≤ k → k ≤ 113 → RestsAt (boot default default) halted k := by
    intro k hle hge
    obtain ⟨j, rfl⟩ := Nat.exists_eq_add_of_le hle
    obtain ⟨henabled, hW, hX, -⟩ := hall j (by omega)
    exact ⟨henabled, hW, hX⟩
  have hasked : ∀ k, 12 < k → k ≤ 12 + 101 →
      (boardAt (boot default default) halted (k + 1)).indat.enConnBrokenCtr ≠ 0 := by
    intro k hlt hle
    obtain ⟨j, rfl⟩ := Nat.exists_eq_add_of_le hlt.le
    exact (hall j (by omega)).2.2.2
  have hI : (boardAt (boot default default) halted 12).outdat.I = 99000 := by decide +kernel
  obtain ⟨hduty, htrips⟩ := standstill (boot default default) halted hrests
  refine ⟨fun k hlt hle => (hduty k hlt hle).1, hI, htrips ?_ le_rfl hasked⟩
  rw [hI]
  decide

end LegoCar
