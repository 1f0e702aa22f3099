import Mathlib
import LegoCar.Wire.HostStream
import LegoCar.Board.Steps

/-!
# The motor controller as a PID controller

In an iteration with the controller enabled the firmware forms three parts of its output. The
reference for them is the textbook recurrence over the errors `controlError n = W - X` of the loop
iterations, in 32-bit arithmetic: thirty times the error, fifty times the sum of the errors since
the controller was enabled, and the error minus that of the iteration before.

The proportional and the integral part follow the reference in every run. The differential part
does not: `prevX` is the measured value of the iteration before, which the disabled controller
keeps up to date, but `prevW` is written by the enabled controller only. `pid_iff` says when the
two agree.
-/

namespace LegoCar

open Driven Board

/-! ### The reference -/

section Reference

variable (b₀ : Board) (inp : ℕ → BoardInput)

/-- The error of iteration `n`. -/
def controlError (n : ℕ) : Int32 := (showsAt b₀ inp n).W - (showsAt b₀ inp n).X

/-- The errors of the iterations since the controller was last enabled, up to the one before
iteration `n`, oldest first. -/
def errorsSince : ℕ → List Int32
  | 0 => []
  | n + 1 => if (showsAt b₀ inp n).enabled then errorsSince n ++ [controlError b₀ inp n] else []

/-- The set value of the last iteration before iteration `n` with the controller enabled; zero
when there is none. -/
def lastControlledW : ℕ → Int32
  | 0 => 0
  | n + 1 => if (showsAt b₀ inp n).enabled then (showsAt b₀ inp n).W else lastControlledW n

/-- The parts formed in iteration `n + 1` are those of the reference. -/
structure FollowsReference (n : ℕ) : Prop where
  P : (boardAt b₀ inp (n + 2)).outdat.P = 30 * controlError b₀ inp (n + 1)
  I : (boardAt b₀ inp (n + 2)).outdat.I = 50 * (errorsSince b₀ inp (n + 2)).sum
  D : (boardAt b₀ inp (n + 2)).outdat.D = controlError b₀ inp (n + 1) - controlError b₀ inp n

end Reference

variable {b₀ : Board} {inp : ℕ → BoardInput} {n : ℕ}

/-! ### The steps -/

theorem errorsSince_succ (h : (showsAt b₀ inp n).enabled = true) :
    errorsSince b₀ inp (n + 1) = errorsSince b₀ inp n ++ [controlError b₀ inp n] := by
  rw [errorsSince, if_pos h]

theorem sum_append_singleton (l : List Int32) (x : Int32) : (l ++ [x]).sum = l.sum + x := by
  rw [List.sum_append, List.sum_singleton]

/-- The stored measured value is the one of the iteration before. -/
theorem boardAt_X (b₀ : Board) (inp : ℕ → BoardInput) (n : ℕ) :
    (boardAt b₀ inp (n + 1)).outdat.X = (showsAt b₀ inp n).X := by
  rcases boardAt_onStep_or_offStep b₀ inp n with hon | hoff
  · exact hon.X
  · exact hoff.X

/-- The stored integral is fifty times the sum of the errors since the controller was enabled. -/
theorem integral_eq (h₀ : b₀.outdat.I = 0) (n : ℕ) :
    (boardAt b₀ inp n).outdat.I = 50 * (errorsSince b₀ inp n).sum := by
  induction n with
  | zero => exact h₀.trans (by rfl)
  | succ n ih =>
    rcases boardAt_onStep_or_offStep b₀ inp n with hon | hoff
    · rw [hon.I, ih, errorsSince_succ hon.enabled, sum_append_singleton, controlError, iParameter]
      grind
    · rw [hoff.I, errorsSince, hoff.enabled]
      rfl

/-- The stored set value is the one of the last iteration with the controller enabled. -/
theorem prevW_eq (h₀ : b₀.prevW = 0) (n : ℕ) :
    (boardAt b₀ inp n).prevW = lastControlledW b₀ inp n := by
  induction n with
  | zero => exact h₀
  | succ n ih =>
    rcases boardAt_onStep_or_offStep b₀ inp n with hon | hoff
    · rw [hon.prevW, lastControlledW, if_pos hon.enabled]
    · rw [hoff.prevW, ih, lastControlledW, if_neg (by rw [hoff.enabled]; exact Bool.false_ne_true)]

/-! ### Runs -/

/-- **The PID reference.** The controller is disabled in the first iteration. In every later
iteration with the controller enabled its parts are those of the reference exactly when the set
value of the iteration before is that of the last iteration with the controller enabled. -/
theorem pid_iff (indat : Indata) (outdat : Outdata) (accCali : Fin 3 → Int16)
    (inp : ℕ → BoardInput) :
    (showsAt (boot indat outdat accCali) inp 0).enabled = false ∧
      ∀ n, (showsAt (boot indat outdat accCali) inp (n + 1)).enabled = true →
        (FollowsReference (boot indat outdat accCali) inp n ↔
          (showsAt (boot indat outdat accCali) inp n).W =
            lastControlledW (boot indat outdat accCali) inp (n + 1)) := by
  refine ⟨(boardAt_offStep rfl).enabled, fun n hen => ?_⟩
  set b₀ := boot indat outdat accCali with hb₀
  have hon := onStep_of_enabled hen
  have hP : (boardAt b₀ inp (n + 2)).outdat.P = 30 * controlError b₀ inp (n + 1) := by
    rw [hon.P, controlError, pParameter]
    grind
  -- the differential part compares with the stored set value
  have hD : (boardAt b₀ inp (n + 2)).outdat.D =
      controlError b₀ inp (n + 1) - (lastControlledW b₀ inp (n + 1) - (showsAt b₀ inp n).X) := by
    rw [hon.D, boardAt_X, prevW_eq rfl, controlError, dParameter]
    grind
  constructor
  · rintro ⟨-, -, hDref⟩
    rw [hD, controlError, controlError] at hDref
    grind
  · intro hW
    refine ⟨hP, integral_eq rfl (n + 2), ?_⟩
    rw [hD, controlError, controlError, hW]

/-- The second iteration after one record with a set value and the enable request. -/
theorem pid_secondStep :
    FollowsReference (boot default default) (feed [[tagI], framesOf [⟨1, 0, 1, 0, 200⟩]]) 2 :=
  ((pid_iff default default (fun _ => 0) (feed [[tagI], framesOf [⟨1, 0, 1, 0, 200⟩]])).2 2
    (by decide +kernel)).mpr (by decide +kernel)

/-- **The first step kicks.** The record that enables the controller also changes the set value;
in the next iteration the error is the same, but the differential part is not zero. -/
theorem pid_fails :
    ¬ ∀ inp n, (showsAt (boot default default) inp (n + 1)).enabled = true →
      FollowsReference (boot default default) inp n := by
  intro h
  have hD := (h (feed [[tagI], framesOf [⟨1, 0, 1, 0, 200⟩]]) 1 (by decide +kernel)).D
  exact absurd hD (by decide +kernel)

end LegoCar
