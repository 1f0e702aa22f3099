import Mathlib
import LegoCar.Lib.Int32Exact
import LegoCar.Board.Receive

/-!
# The arithmetic of the motor controller

The exact values of the controller parts are integers that follow the run: `exactI` sums the
errors of the control steps since the controller was enabled. With set values and measured values
in `[-200, 200]` an error is at most 400, so the proportional and the differential part always fit
in 32 bits, and each control step moves the integral by at most 20000. The integral is exact, and
the sum of the parts with it, as long as it leaves room for the other parts
(`controller_arithmetic_integral`). Nothing else bounds it: it does so for the first 107373 control
steps after the controller is enabled (`controller_arithmetic`), and with the largest error the sum
overflows in the next one (`controller_windup`).
-/

namespace LegoCar

open Driven Board Int32Exact

/-! ### Exact values -/

section Exact

variable (b₀ : Board) (inp : ℕ → BoardInput)

/-- The number of consecutive control steps right before iteration `n`. -/
def controlSteps : ℕ → ℕ
  | 0 => 0
  | n + 1 => if (showsAt b₀ inp n).enabled then controlSteps n + 1 else 0

/-- The error in iteration `n`. -/
def exactDiff (n : ℕ) : ℤ := (showsAt b₀ inp n).W.toInt - (showsAt b₀ inp n).X.toInt

/-- The error that iteration `n` finds stored. -/
def exactPrevDiff (n : ℕ) : ℤ :=
  (boardAt b₀ inp n).prevW.toInt - (boardAt b₀ inp n).outdat.X.toInt

/-- The proportional part. -/
def exactP (n : ℕ) : ℤ := exactDiff b₀ inp n * pParameter.toInt

/-- The integral part before iteration `n`. -/
def exactI : ℕ → ℤ
  | 0 => 0
  | n + 1 =>
    if (showsAt b₀ inp n).enabled then exactI n + exactDiff b₀ inp n * iParameter.toInt else 0

/-- The differential part. -/
def exactD (n : ℕ) : ℤ := (exactDiff b₀ inp n - exactPrevDiff b₀ inp n) * dParameter.toInt

/-- The feed forward part. -/
def exactFF (n : ℕ) : ℤ := (showsAt b₀ inp n).W.toInt * ffParameter.toInt

/-- The sum of the parts in iteration `n`. -/
def exactSum (n : ℕ) : ℤ :=
  exactP b₀ inp n + exactI b₀ inp (n + 1) + exactD b₀ inp n + exactFF b₀ inp n

/-- A set value of the car server, or a measured value of the same size. -/
def InBand (x : Int32) : Prop := |x.toInt| ≤ 200

/-- The set values accepted and the values measured in a run are in the band. -/
structure InRange : Prop where
  W : ∀ n f, acceptedAt b₀ inp n = some f → InBand f.W
  X : ∀ n, InBand (xTemp (inp n).encoder (inp n).direction)

/-- The parts formed in iteration `n` that do not depend on earlier iterations are exact. -/
structure PartsExact (n : ℕ) : Prop where
  diff : Fits (exactDiff b₀ inp n)
  prevDiff : Fits (exactPrevDiff b₀ inp n)
  increment : Fits (exactDiff b₀ inp n * iParameter.toInt)
  P : Exact (boardAt b₀ inp (n + 1)).outdat.P (exactP b₀ inp n)
  D : Exact (boardAt b₀ inp (n + 1)).outdat.D (exactD b₀ inp n)
  FF : Exact (boardAt b₀ inp (n + 1)).outdat.FF (exactFF b₀ inp n)

/-- The integral and the sum formed in iteration `n` are exact, and so is the direction. -/
structure SumExact (n : ℕ) : Prop where
  I : Exact (boardAt b₀ inp (n + 1)).outdat.I (exactI b₀ inp (n + 1))
  sumPI : Fits (exactP b₀ inp n + exactI b₀ inp (n + 1))
  sumPID : Fits (exactP b₀ inp n + exactI b₀ inp (n + 1) + exactD b₀ inp n)
  sum : Exact (boardAt b₀ inp (n + 1)).controllerSum (exactSum b₀ inp n)
  /-- the absolute value of the sum is defined -/
  abs : Fits |exactSum b₀ inp n|
  direction : (showsAt b₀ inp n).motor.enable = if exactSum b₀ inp n < 0 then 2 else 1

end Exact

/-! ### Ranges -/

variable {b₀ : Board} {inp : ℕ → BoardInput} {n : ℕ}

theorem controlSteps_succ (h : (showsAt b₀ inp n).enabled = true) :
    controlSteps b₀ inp (n + 1) = controlSteps b₀ inp n + 1 := by
  rw [controlSteps, if_pos h]

theorem exactI_succ (h : (showsAt b₀ inp n).enabled = true) :
    exactI b₀ inp (n + 1) = exactI b₀ inp n + exactDiff b₀ inp n * iParameter.toInt := by
  rw [exactI, if_pos h]

/-- The stored set values and the stored measured value are in the band. -/
structure RangeInv (b : Board) : Prop where
  W : InBand b.outdat.W
  X : InBand b.outdat.X
  prevW : InBand b.prevW

theorem inBand_shownX (h : InRange b₀ inp) (n : ℕ) : InBand (showsAt b₀ inp n).X :=
  (iteration_X (inp n) (boardAt b₀ inp n)).symm ▸ h.X n

theorem inBand_W_step (h : InRange b₀ inp) (hW : InBand (boardAt b₀ inp n).outdat.W) :
    InBand (boardAt b₀ inp (n + 1)).outdat.W := by
  have hstep := boardAt_linkStep b₀ inp n
  generalize hacc : acceptedAt b₀ inp n = accepted at hstep
  cases hstep with
  | down hb hzero hset hlink =>
    rw [hzero]
    exact (by decide : |(0 : Int32).toInt| ≤ 200)
  | idle hb hsame hindat hlink => rwa [hsame]
  | accept f hb hf hindat htimeout hlink =>
    rw [hf]
    exact h.W n f hacc

theorem rangeInv_step (h : InRange b₀ inp) (hinv : RangeInv (boardAt b₀ inp n)) :
    RangeInv (boardAt b₀ inp (n + 1)) := by
  have hX := inBand_shownX h n
  have hW := inBand_W_step h hinv.W
  rcases boardAt_onStep_or_offStep b₀ inp n with hon | hoff
  · have hout : (showsAt b₀ inp n).W = (boardAt b₀ inp (n + 1)).outdat.W := iteration_W _ _
    exact ⟨hW, hon.X.symm ▸ hX, (hon.prevW.trans hout).symm ▸ hW⟩
  · exact ⟨hW, hoff.X.symm ▸ hX, hoff.prevW.symm ▸ hinv.prevW⟩

theorem rangeInv (h : InRange b₀ inp) (h₀ : RangeInv b₀) (n : ℕ) :
    RangeInv (boardAt b₀ inp n) :=
  invariant_index (P := fun _ b => RangeInv b) h₀ (fun _ hinv => rangeInv_step h hinv) n

theorem abs_sub_le_of_inBand {x y : Int32} (hx : InBand x) (hy : InBand y) :
    |x.toInt - y.toInt| ≤ 400 :=
  (abs_sub _ _).trans (add_le_add hx hy)

theorem abs_exactDiff (h : InRange b₀ inp) (h₀ : RangeInv b₀) (n : ℕ) :
    |exactDiff b₀ inp n| ≤ 400 := by
  have hW : InBand (showsAt b₀ inp n).W :=
    (iteration_W (inp n) (boardAt b₀ inp n)).symm ▸ (rangeInv h h₀ (n + 1)).W
  exact abs_sub_le_of_inBand hW (inBand_shownX h n)

theorem abs_exactPrevDiff (h : InRange b₀ inp) (h₀ : RangeInv b₀) (n : ℕ) :
    |exactPrevDiff b₀ inp n| ≤ 400 :=
  abs_sub_le_of_inBand (rangeInv h h₀ n).prevW (rangeInv h h₀ n).X

/-! ### The parts -/

theorem abs_exactP (h : InRange b₀ inp) (h₀ : RangeInv b₀) (n : ℕ) :
    |exactP b₀ inp n| ≤ 12000 := by
  have hdiff := abs_exactDiff h h₀ n
  have hp : |pParameter.toInt| = 30 := by decide
  rw [exactP, abs_mul, hp]
  omega

theorem abs_exactD (h : InRange b₀ inp) (h₀ : RangeInv b₀) (n : ℕ) :
    |exactD b₀ inp n| ≤ 800 := by
  have hdiff := abs_exactDiff h h₀ n
  have hprev := abs_exactPrevDiff h h₀ n
  have hd : dParameter.toInt = 1 := by decide
  rw [exactD, hd, mul_one]
  exact (abs_sub _ _).trans (by omega)

theorem exactFF_eq_zero (n : ℕ) : exactFF b₀ inp n = 0 := by
  have hff : ffParameter.toInt = 0 := by decide
  rw [exactFF, hff, mul_zero]

theorem abs_increment (h : InRange b₀ inp) (h₀ : RangeInv b₀) (n : ℕ) :
    |exactDiff b₀ inp n * iParameter.toInt| ≤ 20000 := by
  have hdiff := abs_exactDiff h h₀ n
  have hi : |iParameter.toInt| = 50 := by decide
  rw [abs_mul, hi]
  omega

theorem exact_diff (h : InRange b₀ inp) (h₀ : RangeInv b₀) (n : ℕ) :
    Exact ((showsAt b₀ inp n).W - (showsAt b₀ inp n).X) (exactDiff b₀ inp n) :=
  Exact.sub rfl rfl (fits_of_abs_le (abs_exactDiff h h₀ n) (by norm_num))

theorem partsExact (h : InRange b₀ inp) (h₀ : RangeInv b₀)
    (hen : (showsAt b₀ inp n).enabled = true) : PartsExact b₀ inp n := by
  have hon := onStep_of_enabled hen
  have hdiff := exact_diff h h₀ n
  have hprevFits : Fits (exactPrevDiff b₀ inp n) :=
    fits_of_abs_le (abs_exactPrevDiff h h₀ n) (by norm_num)
  have hprev : Exact ((boardAt b₀ inp n).prevW - (boardAt b₀ inp n).outdat.X)
      (exactPrevDiff b₀ inp n) := Exact.sub rfl rfl hprevFits
  refine ⟨hdiff.fits, hprevFits, fits_of_abs_le (abs_increment h h₀ n) (by norm_num), ?_, ?_, ?_⟩
  · rw [hon.P]
    exact hdiff.mul rfl (fits_of_abs_le (abs_exactP h h₀ n) (by norm_num))
  · have hd := abs_exactD h h₀ n
    have hone : dParameter.toInt = 1 := by decide
    rw [hon.D]
    refine Exact.mul (hdiff.sub hprev ?_) rfl (fits_of_abs_le hd (by norm_num))
    rw [exactD, hone, mul_one] at hd
    exact fits_of_abs_le hd (by norm_num)
  · have hff : Fits (exactFF b₀ inp n) := by
      rw [exactFF_eq_zero]
      decide
    rw [hon.FF]
    exact Exact.mul rfl rfl hff

/-! ### The integral -/

/-- Each control step moves the integral by at most 20000. -/
theorem abs_exactI (h : InRange b₀ inp) (h₀ : RangeInv b₀) (n : ℕ) :
    |exactI b₀ inp n| ≤ 20000 * controlSteps b₀ inp n := by
  induction n with
  | zero => simp [exactI, controlSteps]
  | succ n ih =>
    cases hen : (showsAt b₀ inp n).enabled with
    | false => simp [exactI, controlSteps, hen]
    | true =>
      have hinc := abs_increment h h₀ n
      rw [exactI_succ hen, controlSteps_succ hen]
      refine (abs_add_le _ _).trans ?_
      push_cast
      omega

/-- The largest integral that leaves room for the other parts, which are at most 12800. -/
def integralLimit : ℤ := 2147470847

/-- The integral leaves room for the other parts in the control steps right before iteration `n`. -/
def IntegralBounded (b₀ : Board) (inp : ℕ → BoardInput) (n : ℕ) : Prop :=
  ∀ m ≤ n, n ≤ m + controlSteps b₀ inp n → |exactI b₀ inp m| ≤ integralLimit

/-- The integral is exact as long as it leaves room. -/
theorem exact_integral (h : InRange b₀ inp) (h₀ : RangeInv b₀) (hI : b₀.outdat.I = 0)
    (hbound : IntegralBounded b₀ inp n) :
    Exact (boardAt b₀ inp n).outdat.I (exactI b₀ inp n) := by
  induction n with
  | zero => exact (congrArg Int32.toInt hI).trans Int32.toInt_zero
  | succ n ih =>
    cases hen : (showsAt b₀ inp n).enabled with
    | false =>
      -- a disabled controller clears the integral
      rw [(offStep_of_disabled hen).I, exactI, if_neg (by rw [hen]; decide)]
      exact Int32.toInt_zero
    | true =>
      have hsteps := controlSteps_succ hen
      have hbefore : IntegralBounded b₀ inp n := fun m hm hle =>
        hbound m (by omega) (by omega)
      have hnow := hbound (n + 1) le_rfl (by omega)
      rw [exactI_succ hen] at hnow ⊢
      rw [(onStep_of_enabled hen).I]
      have hinc : Exact (((showsAt b₀ inp n).W - (showsAt b₀ inp n).X) * iParameter)
          (exactDiff b₀ inp n * iParameter.toInt) :=
        (exact_diff h h₀ n).mul rfl (fits_of_abs_le (abs_increment h h₀ n) (by norm_num))
      exact (ih hbefore).add hinc (fits_of_abs_le hnow (by norm_num [integralLimit]))

/-- The sum of the parts is exact as long as the integral leaves room. -/
theorem sumExact (h : InRange b₀ inp) (h₀ : RangeInv b₀) (hI : b₀.outdat.I = 0)
    (hen : (showsAt b₀ inp n).enabled = true) (hbound : IntegralBounded b₀ inp (n + 1)) :
    SumExact b₀ inp n := by
  have hparts := partsExact h h₀ hen
  have hP := abs_exactP h h₀ n
  have hD := abs_exactD h h₀ n
  have hIle : |exactI b₀ inp (n + 1)| ≤ 2147470847 := hbound (n + 1) le_rfl (Nat.le_add_right _ _)
  have hint := exact_integral h h₀ hI hbound
  -- 2147470847 + 12000 + 800 is below 2 ^ 31
  have hPI : |exactP b₀ inp n + exactI b₀ inp (n + 1)| ≤ 2147482847 :=
    (abs_add_le _ _).trans (by omega)
  have hPID : |exactP b₀ inp n + exactI b₀ inp (n + 1) + exactD b₀ inp n| ≤ 2147483647 :=
    (abs_add_le _ _).trans (by omega)
  have hsumle : |exactSum b₀ inp n| ≤ 2147483647 := by rwa [exactSum, exactFF_eq_zero, add_zero]
  have hsum : Exact (boardAt b₀ inp (n + 1)).controllerSum (exactSum b₀ inp n) :=
    ((hparts.P.add hint (fits_of_abs_le hPI (by norm_num))).add hparts.D
      (fits_of_abs_le hPID (by norm_num))).add hparts.FF (fits_of_abs_le hsumle (by norm_num))
  refine ⟨hint, fits_of_abs_le hPI (by norm_num), fits_of_abs_le hPID (by norm_num), hsum,
    fits_of_abs_le ((abs_abs _).trans_le hsumle) (by norm_num), ?_⟩
  rw [(onStep_of_enabled hen).direction]
  simp only [hsum.neg_iff]

/-! ### The first control steps -/

/-- The number of control steps for which the controller is exact. -/
def exactSteps : ℕ := 107373

/-- There are not more control steps before an earlier iteration of the same row of them. -/
theorem controlSteps_le {m : ℕ} (hle : m ≤ n) (hrow : n ≤ m + controlSteps b₀ inp n) :
    controlSteps b₀ inp m ≤ controlSteps b₀ inp n := by
  induction n, hle using Nat.le_induction with
  | base => exact le_rfl
  | succ n hle ih =>
    cases hen : (showsAt b₀ inp n).enabled with
    | false =>
      rw [controlSteps, if_neg (by rw [hen]; decide)] at hrow
      omega
    | true =>
      rw [controlSteps_succ hen] at hrow ⊢
      exact (ih (by omega)).trans (Nat.le_succ _)

/-- In the first control steps the integral leaves room, whatever the errors are. -/
theorem integralBounded_of_le (h : InRange b₀ inp) (h₀ : RangeInv b₀)
    (hn : controlSteps b₀ inp n ≤ exactSteps) : IntegralBounded b₀ inp n := by
  intro m hle hrow
  have hsteps := controlSteps_le hle hrow
  have hI := abs_exactI h h₀ m
  unfold exactSteps at hn
  unfold integralLimit
  omega

theorem rangeInv_boot (indat : Indata) (outdat : Outdata) (accCali : Fin 3 → Int16) :
    RangeInv (boot indat outdat accCali) :=
  ⟨(by decide : |(0 : Int32).toInt| ≤ 200), (by decide : |(0 : Int32).toInt| ≤ 200),
    (by decide : |(0 : Int32).toInt| ≤ 200)⟩

/-- **The controller arithmetic.** With set values and measured values in the band, the
proportional, the differential and the feed forward part are exact in every control step; the
integral, the sum and its absolute value are exact, and the direction is the sign of the exact
sum, in the first 107373 control steps after the controller was enabled. -/
theorem controller_arithmetic (indat : Indata) (outdat : Outdata) (accCali : Fin 3 → Int16)
    (inp : ℕ → BoardInput) (h : InRange (boot indat outdat accCali) inp) (n : ℕ)
    (hen : (showsAt (boot indat outdat accCali) inp n).enabled = true) :
    PartsExact (boot indat outdat accCali) inp n ∧
      (controlSteps (boot indat outdat accCali) inp n < exactSteps →
        SumExact (boot indat outdat accCali) inp n) :=
  ⟨partsExact h (rangeInv_boot _ _ _) hen, fun hn =>
    sumExact h (rangeInv_boot _ _ _) rfl hen (integralBounded_of_le h (rangeInv_boot _ _ _) (by
      rw [controlSteps_succ hen]
      exact hn))⟩

/-- **The controller arithmetic, in terms of the integral**: however many control steps there have
been, the integral, the sum and its absolute value are exact, and the direction is the sign of the
exact sum, as long as the integral has left room for the other parts since the controller was
enabled. -/
theorem controller_arithmetic_integral (indat : Indata) (outdat : Outdata)
    (accCali : Fin 3 → Int16) (inp : ℕ → BoardInput)
    (h : InRange (boot indat outdat accCali) inp) (n : ℕ)
    (hen : (showsAt (boot indat outdat accCali) inp n).enabled = true)
    (hbound : IntegralBounded (boot indat outdat accCali) inp (n + 1)) :
    SumExact (boot indat outdat accCali) inp n :=
  sumExact h (rangeInv_boot _ _ _) rfl hen hbound

/-! ### Wind-up -/

/-- Forward at full speed, without the stall check. -/
def fullSpeed : Indata := ⟨1, 0, 1, 0, 200⟩

/-- The host asks for full speed in every iteration, while the wheel is turned backwards at full
speed. -/
def windupInput (n : ℕ) : BoardInput where
  uart := { atPoll := { rxd := if n = 0 then [tagI] else tagS :: fullSpeed.serial,
                        txd := fifoSize } }
  encoder := 100
  direction := 2

/-- The run on `windupInput`, from its first control step on. -/
structure WindupInv (n : ℕ) (b : Board) : Prop where
  connBroken : b.connBroken = false
  uartTimeout : b.uartTimeout = 0
  rx : b.uart.rx = []
  enabled : b.outdat.enMotorController ≠ 0
  X : b.outdat.X = -200
  prevW : b.prevW = 200
  steps : controlSteps (boot default default) windupInput n + 2 = n
  integral : exactI (boot default default) windupInput n =
    20000 * controlSteps (boot default default) windupInput n

/-- The first iterations: the link comes up, the controller is enabled, and takes a step. -/
theorem windupInv_three : WindupInv 3 (boardAt (boot default default) windupInput 3) := by
  constructor <;> decide +kernel

section Windup

variable {n : ℕ}

theorem windup_accepted (hn : n ≠ 0)
    (h : WindupInv n (boardAt (boot default default) windupInput n)) :
    acceptedAt (boot default default) windupInput n = some fullSpeed ∧
      (boardAt (boot default default) windupInput (n + 1)).uart.rx = [] :=
  iteration_oneFrame h.connBroken h.rx (if_neg hn) (fun _ _ => rfl) (fun _ _ => rfl)

theorem windup_onStep (h : WindupInv n (boardAt (boot default default) windupInput n)) :
    OnStep (boardAt (boot default default) windupInput n)
      (boardAt (boot default default) windupInput (n + 1))
      (showsAt (boot default default) windupInput n) :=
  iteration_onStep (windupInput n) h.enabled

theorem windup_X (n : ℕ) : (showsAt (boot default default) windupInput n).X = -200 :=
  (iteration_X (windupInput n) _).trans (by decide : xTemp 100 2 = -200)

theorem windup_W (hn : n ≠ 0)
    (h : WindupInv n (boardAt (boot default default) windupInput n)) :
    (showsAt (boot default default) windupInput n).W = 200 := by
  have hstep := boardAt_linkStep (boot default default) windupInput n
  rw [(windup_accepted hn h).1] at hstep
  cases hstep with
  | accept f hb hW => exact (iteration_W _ _).trans hW

theorem windup_exactDiff (hn : n ≠ 0)
    (h : WindupInv n (boardAt (boot default default) windupInput n)) :
    exactDiff (boot default default) windupInput n = 400 := by
  rw [exactDiff, windup_W hn h, windup_X]
  decide

theorem windupInv_step (hn : n ≠ 0)
    (h : WindupInv n (boardAt (boot default default) windupInput n)) :
    WindupInv (n + 1) (boardAt (boot default default) windupInput (n + 1)) := by
  obtain ⟨hacc, hrx⟩ := windup_accepted hn h
  have hon := windup_onStep h
  have hlink := boardAt_linkStep (boot default default) windupInput n
  rw [hacc] at hlink
  cases hlink with
  | accept f hb hW hindat htimeout hconn =>
    refine ⟨?_, htimeout, hrx, ?_, hon.X.trans (windup_X n), hon.prevW.trans (windup_W hn h),
      ?_, ?_⟩
    · rw [hconn, h.uartTimeout]
      rfl
    -- the stall check is switched off
    · rcases hon.enMotorController with hsame | ⟨-, hctr, -⟩
      · rw [hsame]
        exact h.enabled
      · exact absurd (congrArg Indata.enConnBrokenCtr hindat) hctr
    · have hsteps := h.steps
      rw [controlSteps_succ hon.enabled]
      omega
    · have hi : iParameter.toInt = 50 := by decide
      rw [exactI_succ hon.enabled, controlSteps_succ hon.enabled, windup_exactDiff hn h,
        h.integral, hi]
      push_cast
      ring

theorem windupInv (hn : 3 ≤ n) : WindupInv n (boardAt (boot default default) windupInput n) := by
  induction n, hn using Nat.le_induction with
  | base => exact windupInv_three
  | succ n hn ih => exact windupInv_step (by omega) ih

theorem windup_inRange : InRange (boot default default) windupInput := by
  refine ⟨fun n f hf => ?_, fun n => (by decide : |(xTemp 100 2).toInt| ≤ 200)⟩
  have hfirst : ∀ k < 3, ∀ f ∈ acceptedAt (boot default default) windupInput k,
      |f.W.toInt| ≤ 200 := by
    decide +kernel
  by_cases hn : n < 3
  · exact hfirst n hn f hf
  · rw [(windup_accepted (by omega) (windupInv (not_lt.mp hn))).1] at hf
    rw [← Option.some.inj hf]
    exact (by decide : |fullSpeed.W.toInt| ≤ 200)

end Windup

/-- The hypotheses are met by that run, in its first control step. -/
theorem controller_arithmetic_first :
    SumExact (boot default default fun _ => 0) windupInput 2 :=
  (controller_arithmetic default default (fun _ => 0) windupInput windup_inRange 2
    (by decide +kernel)).2 (by decide +kernel)

/-- The sum that the firmware forms in the control step after the first 107373. -/
theorem windup_controllerSum :
    (boardAt (boot default default) windupInput 107376).controllerSum = -2147475296 := by
  have hinv := windupInv (n := 107375) (by omega)
  have hon := windup_onStep hinv
  have hI : (boardAt (boot default default) windupInput 107375).outdat.I = 2147460000 := by
    have hsteps := hinv.steps
    have hexact := exact_integral windup_inRange (rangeInv_boot _ _ _) rfl
      (integralBounded_of_le windup_inRange (rangeInv_boot _ _ _) (n := 107375)
        (show _ ≤ 107373 by omega))
    refine Int32.toInt_inj.mp (hexact.trans ?_)
    rw [hinv.integral,
      show controlSteps (boot default default) windupInput 107375 = 107373 by omega]
    decide
  rw [controllerSum, hon.P, hon.I, hon.D, hon.FF, windup_W (by omega) hinv, windup_X, hinv.prevW,
    hinv.X, hI]
  decide

/-- **Wind-up.** The bound is sharp: in the control step after the first 107373 the exact sum
leaves the 32-bit range, and the motor is driven in the direction opposite to it. -/
theorem controller_windup :
    (¬ ∀ inp, InRange (boot default default) inp → ∀ n,
      (showsAt (boot default default) inp n).enabled = true →
      Fits (exactSum (boot default default) inp n)) ∧
    ¬ ∀ inp, InRange (boot default default) inp → ∀ n,
      (showsAt (boot default default) inp n).enabled = true →
      (showsAt (boot default default) inp n).motor.enable =
        if exactSum (boot default default) inp n < 0 then 2 else 1 := by
  have hinv := windupInv (n := 107375) (by omega)
  have hnext := windupInv (n := 107376) (by omega)
  have hon := windup_onStep hinv
  have hsum : exactSum (boot default default) windupInput 107375 = 2147492000 := by
    have hI : exactI (boot default default) windupInput (107375 + 1) = 2147480000 := by
      have hsteps := hnext.steps
      rw [hnext.integral]
      omega
    have hD : exactD (boot default default) windupInput 107375 = 0 := by
      rw [exactD, exactPrevDiff, windup_exactDiff (by omega) hinv, hinv.prevW, hinv.X]
      decide
    rw [exactSum, exactP, windup_exactDiff (by omega) hinv, hI, hD, exactFF_eq_zero]
    decide
  constructor
  · intro h
    have hfits := h windupInput windup_inRange 107375 hon.enabled
    rw [hsum] at hfits
    exact absurd hfits (by decide)
  · intro h
    have hdir := h windupInput windup_inRange 107375 hon.enabled
    rw [hsum, hon.direction, windup_controllerSum] at hdir
    exact absurd hdir (by decide)

end LegoCar
