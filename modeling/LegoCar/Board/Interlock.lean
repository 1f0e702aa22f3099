import Mathlib
import LegoCar.Board.FailSafe

/-!
# The interlock of the motor

Every `motor_setting` call of the firmware stays within the bounds of the power stage
(`SafeSetting`), and a duty other than zero needs an enabled controller. A controller that the
stall check has disabled is enabled again only by a request that follows a reset of the request.
The latch for this is `setEnMotorwasoff`; `LatchInv` is its history, and `interlock` the result for
every run.
-/

namespace LegoCar

open Driven Board

namespace Board

-- the bytes on the serial port play no part here
attribute [local irreducible] Uart.readMany Uart.writeMany Uart.writeString

/-! ### The setting of the power stage -/

/-- Both channels get the same duty, which is zero or above the dead band, and always below the
period, and one of the two directions is enabled. -/
structure SafeSetting (m : MotorSetting) : Prop where
  same : m.duty1 = m.duty2
  range : m.duty1 = 0 ∨ 10001 ≤ m.duty1.toNat ∧ m.duty1.toNat ≤ 99000
  period : m.period = 100000
  direction : m.enable = 1 ∨ m.enable = 2

/-- The dead band and the limit, for every 32-bit sum: the absolute value of the most negative one
is negative and falls into the dead band. -/
theorem limitDuty_range (d : Int32) :
    limitDuty d = 0 ∨ 10001 ≤ (limitDuty d).toInt ∧ (limitDuty d).toInt ≤ 99000 := by
  unfold limitDuty
  dsimp only
  by_cases hband : d ≤ 10000
  · rw [if_pos hband]
    exact Or.inl (if_neg (by decide))
  · rw [if_neg hband]
    rw [Int32.le_iff_toInt_le] at hband
    have hlow : 10000 < d.toInt := not_le.mp hband
    split_ifs with hlimit
    · exact Or.inr ⟨by decide, by decide⟩
    · rw [Int32.le_iff_toInt_le] at hlimit
      have hhigh : d.toInt < 99000 := not_le.mp hlimit
      exact Or.inr ⟨by omega, by omega⟩

/-- The duty as it is written to the registers. -/
theorem limitDuty_toUInt32_range (d : Int32) : (limitDuty d).toUInt32 = 0 ∨
    10001 ≤ (limitDuty d).toUInt32.toNat ∧ (limitDuty d).toUInt32.toNat ≤ 99000 := by
  rcases limitDuty_range d with hzero | ⟨hlow, hhigh⟩
  · exact Or.inl (by rw [hzero]; rfl)
  · have hpos : 0 ≤ limitDuty d := Int32.le_iff_toInt_le.mpr (by rw [Int32.toInt_zero]; omega)
    rw [Int32.toNat_toUInt32_of_le hpos, Int32.toNatClampNeg]
    exact Or.inr ⟨by omega, by omega⟩

/-- One of the two directions is enabled. -/
def Directed (b : Board) : Prop := b.enable = 1 ∨ b.enable = 2

theorem communicate_enable (inp : UartInput) (b : Board) :
    (b.communicate inp).1.enable = b.enable := by
  unfold communicate initCommunication exchange countTimeout blink
  dsimp only
  split_ifs <;> rfl

theorem beforeControl_enable (inp : BoardInput) (b : Board) :
    (b.beforeControl inp).1.enable = b.enable := by
  have hubat : ∀ c : Board, (c.readUbat inp.adc).enable = c.enable := fun c =>
    readUbat_writes (P := fun c' => c'.enable = c.enable) fun _ => rfl
  exact (hubat _).trans (communicate_enable inp.uart b.countIteration)

theorem handleSensors_enable (inp : BoardInput) (b : Board) :
    (b.handleSensors inp).enable = b.enable :=
  handleSensors_writes (P := fun b' => b'.enable = b.enable) fun _ _ _ => rfl

/-- The motor stage: its setting is safe, and the direction it leaves is one of the two. -/
theorem control_safe (encoder direction : UInt32) {b : Board} (hb : b.Directed) :
    SafeSetting (b.control encoder direction).2 ∧ (b.control encoder direction).1.Directed := by
  unfold Board.control
  split
  · obtain ⟨-, -, -, -, -, -, henable, hduty1, hduty2, -⟩ :=
      controlEnabled_spec encoder direction b
    have hdir : (b.controlEnabled encoder direction).2.enable = 1 ∨
        (b.controlEnabled encoder direction).2.enable = 2 := by
      rw [henable]
      split_ifs
      · exact Or.inr rfl
      · exact Or.inl rfl
    exact ⟨⟨hduty1.trans hduty2.symm, by rw [hduty1]; exact limitDuty_toUInt32_range _, rfl, hdir⟩,
      hdir⟩
  · unfold controlDisabled
    dsimp only
    split_ifs <;> exact ⟨⟨rfl, Or.inl rfl, rfl, hb⟩, hb⟩

theorem iteration_safe (inp : BoardInput) {b : Board} (hb : b.Directed) :
    SafeSetting (iteration inp b).2.motor ∧ (iteration inp b).1.Directed := by
  have hbefore : (b.beforeControl inp).1.Directed := by rwa [Directed, beforeControl_enable]
  obtain ⟨hsafe, hdir⟩ := control_safe inp.encoder inp.direction hbefore
  refine ⟨hsafe, ?_⟩
  unfold iteration
  rwa [Directed, handleSensors_enable]

/-! ### The latch -/

/-- The disabled controller sets the latch without a request, and clears it when it obeys one. -/
theorem controlDisabled_setEnMotorwasoff (encoder direction : UInt32) (b : Board) :
    (b.controlDisabled encoder direction).1.setEnMotorwasoff =
      decide (b.indat.setEnMotorController = 0) := by
  unfold controlDisabled
  dsimp only
  split_ifs with hreset hset hset
  · exact absurd hreset hset.1
  · exact (decide_eq_true hreset).symm
  · exact (decide_eq_false hreset).symm
  · have hlatch : b.setEnMotorwasoff = false := by simpa [hreset] using hset
    exact hlatch.trans (decide_eq_false hreset).symm

theorem controlEnabled_setEnMotorwasoff (encoder direction : UInt32) (b : Board) :
    (b.controlEnabled encoder direction).1.setEnMotorwasoff = b.setEnMotorwasoff := by
  have hstall : ∀ (duty : Int32) (c : Board),
      (c.stallCheck duty).setEnMotorwasoff = c.setEnMotorwasoff := fun _ c =>
    stallCheck_writes (P := fun c' => c'.setEnMotorwasoff = c.setEnMotorwasoff) fun _ _ _ => rfl
  exact hstall _ _

/-- What an iteration does to the latch. -/
theorem iteration_setEnMotorwasoff (inp : BoardInput) (b : Board) :
    (iteration inp b).1.setEnMotorwasoff =
      if b.outdat.enMotorController = 0 then
        decide ((iteration inp b).1.indat.setEnMotorController = 0)
      else b.setEnMotorwasoff := by
  have hbefore := beforeControl_sameMotor inp b
  have hindat : (iteration inp b).1.indat = (b.beforeControl inp).1.indat :=
    (handleSensors_sameLink _ _).indat.trans (control_sameLink _ _ _).indat
  rw [hindat, ← hbefore.enMotorController, ← hbefore.setEnMotorwasoff]
  unfold iteration
  rw [(handleSensors_sameMotor _ _).setEnMotorwasoff]
  unfold Board.control
  by_cases hen : (b.beforeControl inp).1.outdat.enMotorController = 0
  · rw [if_pos hen, if_neg (not_not.mpr hen)]
    exact controlDisabled_setEnMotorwasoff _ _ _
  · rw [if_neg hen, if_pos hen]
    exact controlEnabled_setEnMotorwasoff _ _ _

end Board

/-! ### Runs -/

/-- The controller is enabled before iteration `n`. -/
def EnabledAt (b₀ : Board) (inp : ℕ → BoardInput) (n : ℕ) : Prop :=
  (boardAt b₀ inp n).outdat.enMotorController ≠ 0

/-- The stall check disables the controller in iteration `n`; nothing else does. -/
def TripsAt (b₀ : Board) (inp : ℕ → BoardInput) (n : ℕ) : Prop :=
  EnabledAt b₀ inp n ∧ ¬EnabledAt b₀ inp (n + 1)

/-- The motor stage of iteration `n` finds the controller disabled and no request. -/
def ResetAt (b₀ : Board) (inp : ℕ → BoardInput) (n : ℕ) : Prop :=
  ¬EnabledAt b₀ inp n ∧ (boardAt b₀ inp (n + 1)).indat.setEnMotorController = 0

/-- Before the end of iteration `n`, and after every trip before it, the request was reset while
the controller was disabled, and then a record with the request was accepted. -/
def Rearmed (b₀ : Board) (inp : ℕ → BoardInput) (n : ℕ) : Prop :=
  ∃ k, (∀ t < n, TripsAt b₀ inp t → t < k) ∧ ResetAt b₀ inp k ∧
    ∃ j, k < j ∧ j ≤ n ∧ ∃ f, acceptedAt b₀ inp j = some f ∧ f.setEnMotorController ≠ 0

/-- The latch is set only if the request was reset in an iteration since which the controller has
been disabled. -/
def LatchInv (b₀ : Board) (inp : ℕ → BoardInput) (n : ℕ) (b : Board) : Prop :=
  b.setEnMotorwasoff = true →
    ∃ k < n, ResetAt b₀ inp k ∧ ∀ t, k ≤ t → t ≤ n → ¬EnabledAt b₀ inp t

variable {b₀ : Board} {inp : ℕ → BoardInput} {n : ℕ}

theorem latchInv_step (h : LatchInv b₀ inp n (boardAt b₀ inp n)) :
    LatchInv b₀ inp (n + 1) (boardAt b₀ inp (n + 1)) := by
  intro hlatch
  have hstep := iteration_setEnMotorwasoff (inp n) (boardAt b₀ inp n)
  rw [show (iteration (inp n) (boardAt b₀ inp n)).1 = boardAt b₀ inp (n + 1) from rfl, hlatch]
    at hstep
  by_cases hen : (boardAt b₀ inp n).outdat.enMotorController = 0
  · rw [if_pos hen] at hstep
    have hreset : (boardAt b₀ inp (n + 1)).indat.setEnMotorController = 0 :=
      of_decide_eq_true hstep.symm
    have hoff : ¬EnabledAt b₀ inp n := not_not.mpr hen
    -- without a request the controller stays disabled
    have hoff' : ¬EnabledAt b₀ inp (n + 1) := by
      refine not_not.mpr ?_
      rw [(boardAt_offStep hen).enMotorController, if_neg fun hset => hset.1 hreset]
    refine ⟨n, n.lt_succ_self, ⟨hoff, hreset⟩, fun t hle hge => ?_⟩
    obtain rfl | rfl : t = n ∨ t = n + 1 := by omega
    · exact hoff
    · exact hoff'
  · rw [if_neg hen] at hstep
    obtain ⟨k, hkn, -, hoff⟩ := h hstep.symm
    exact absurd hen (hoff n hkn.le le_rfl)

theorem latchInv (h₀ : b₀.setEnMotorwasoff = false) (n : ℕ) :
    LatchInv b₀ inp n (boardAt b₀ inp n) :=
  invariant_index (P := LatchInv b₀ inp)
    (fun hlatch => absurd (h₀.symm.trans hlatch) Bool.false_ne_true)
    (fun _ h => latchInv_step h) n

/-- Between a reset of the request and an iteration that finds it set, a record with the request
was accepted. -/
theorem exists_accepted_request {k : ℕ}
    (hreset : (boardAt b₀ inp (k + 1)).indat.setEnMotorController = 0)
    (hkn : k ≤ n) (hset : (boardAt b₀ inp (n + 1)).indat.setEnMotorController ≠ 0) :
    ∃ j, k < j ∧ j ≤ n ∧ ∃ f, acceptedAt b₀ inp j = some f ∧ f.setEnMotorController ≠ 0 := by
  by_contra hnone
  have hfree : ∀ j, k < j → j ≤ n → ∀ f, acceptedAt b₀ inp j = some f →
      f.setEnMotorController = 0 := by
    intro j hkj hjn f hacc
    by_contra hf
    exact hnone ⟨j, hkj, hjn, f, hacc, hf⟩
  have hclear : ∀ m, k ≤ m → m ≤ n →
      (boardAt b₀ inp (m + 1)).indat.setEnMotorController = 0 := by
    intro m hkm
    induction m, hkm using Nat.le_induction with
    | base => exact fun _ => hreset
    | succ m hkm ih =>
      exact fun hmn => setEn_step (hfree (m + 1) (by omega) hmn) (ih (by omega))
  exact hset (hclear n hkn le_rfl)

theorem rearmed (h₀ : b₀.setEnMotorwasoff = false) (hoff : ¬EnabledAt b₀ inp n)
    (hon : EnabledAt b₀ inp (n + 1)) : Rearmed b₀ inp n := by
  have hstep := boardAt_offStep (not_not.mp hoff)
  -- the request is set, and so was the latch
  have hrequest : (boardAt b₀ inp (n + 1)).indat.setEnMotorController ≠ 0 ∧
      (boardAt b₀ inp n).setEnMotorwasoff = true := by
    by_contra hnone
    exact hon (hstep.enMotorController.trans (if_neg hnone))
  obtain ⟨k, hkn, hreset, hoffs⟩ := latchInv h₀ n hrequest.2
  refine ⟨k, fun t htn htrip => ?_, hreset,
    exists_accepted_request hreset.2 hkn.le hrequest.1⟩
  by_contra hkt
  exact hoffs t (not_lt.mp hkt) htn.le htrip.1

theorem safe_boardAt (h₀ : b₀.Directed) (n : ℕ) : SafeSetting (showsAt b₀ inp n).motor := by
  have hdir : (boardAt b₀ inp n).Directed :=
    invariant_index (P := fun _ (b : Board) => b.Directed) h₀
      (fun n h => (iteration_safe (inp n) h).2) n
  exact (iteration_safe (inp n) hdir).1

/-- **The interlock.** Every `motor_setting` call is within the bounds of the power stage, turns the
motor only if the controller was enabled, and a disabled controller is enabled only by a request
that followed a reset of the request, both after the last trip. -/
theorem interlock (indat : Indata) (outdat : Outdata) (accCali : Fin 3 → Int16)
    (inp : ℕ → BoardInput) (n : ℕ) :
    SafeSetting (showsAt (boot indat outdat accCali) inp n).motor ∧
      ((showsAt (boot indat outdat accCali) inp n).motor.duty1 ≠ 0 →
        EnabledAt (boot indat outdat accCali) inp n) ∧
      (¬EnabledAt (boot indat outdat accCali) inp n →
        EnabledAt (boot indat outdat accCali) inp (n + 1) →
        Rearmed (boot indat outdat accCali) inp n) := by
  refine ⟨safe_boardAt (Or.inr rfl) n, fun hduty hoff => hduty ?_, rearmed rfl⟩
  exact (boardAt_offStep hoff).duty1

/-- The first record with a request: the request was reset while the link was down. -/
theorem interlock_firstRequest :
    Rearmed (boot default default) (feed [[tagI], framesOf [⟨1, 0, 1, 0, 200⟩]]) 1 := by
  have hoff : (boardAt (boot default default) (feed [[tagI], framesOf [⟨1, 0, 1, 0, 200⟩]])
      1).outdat.enMotorController = 0 := by decide +kernel
  have hon : (boardAt (boot default default) (feed [[tagI], framesOf [⟨1, 0, 1, 0, 200⟩]])
      (1 + 1)).outdat.enMotorController ≠ 0 := by decide +kernel
  exact (interlock default default (fun _ => 0) (feed [[tagI], framesOf [⟨1, 0, 1, 0, 200⟩]])
    1).2.2 (not_not.mpr hoff) hon

end LegoCar
