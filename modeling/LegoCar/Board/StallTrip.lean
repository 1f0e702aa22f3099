import Mathlib
import LegoCar.Board.Interlock

/-!
# The stall trip

The stall check counts the iterations with maximal duty and no rotation, and disables the
controller when it has counted 101 of them. It is made only while the host asks for it with
`enConnBrokenCtr`; in between the count is kept, whatever the motor does. So the trip looks back at
the last 101 iterations in which the check was made (`stallTrip`), and these need not be
consecutive (`stallTrip_fails`).
-/

namespace LegoCar

open Driven Board

namespace Board

/-- Maximal duty and no rotation. -/
def Stalls (out : BoardOutput) : Prop := out.motor.duty1 = 99000 ∧ out.X = 0

instance (out : BoardOutput) : Decidable (Stalls out) := inferInstanceAs (Decidable (_ ∧ _))

/-! ### The check -/

/-- What an iteration can do to the count of the stall check. -/
inductive StallStep (b b' : Board) (out : BoardOutput) : Prop where
  | disabled (hen : b.outdat.enMotorController = 0)
      (hctr : b'.connectionBrokenCounter = b.connectionBrokenCounter)
  /-- The host does not ask for the check. -/
  | unchecked (hen : b.outdat.enMotorController ≠ 0) (hflag : b'.indat.enConnBrokenCtr = 0)
      (hctr : b'.connectionBrokenCounter = b.connectionBrokenCounter)
      (hstay : b'.outdat.enMotorController = b.outdat.enMotorController)
  | turning (hen : b.outdat.enMotorController ≠ 0) (hflag : b'.indat.enConnBrokenCtr ≠ 0)
      (hturns : ¬Stalls out) (hctr : b'.connectionBrokenCounter = 0)
      (hstay : b'.outdat.enMotorController = b.outdat.enMotorController)
  | counted (hen : b.outdat.enMotorController ≠ 0) (hflag : b'.indat.enConnBrokenCtr ≠ 0)
      (hstalls : Stalls out) (hlt : b.connectionBrokenCounter < 100)
      (hctr : b'.connectionBrokenCounter = b.connectionBrokenCounter + 1)
      (hstay : b'.outdat.enMotorController = b.outdat.enMotorController)
  | tripped (hen : b.outdat.enMotorController ≠ 0) (hflag : b'.indat.enConnBrokenCtr ≠ 0)
      (hstalls : Stalls out) (hle : 100 ≤ b.connectionBrokenCounter)
      (hctr : b'.connectionBrokenCounter = 0) (hoff : b'.outdat.enMotorController = 0)

/-- The limited duty is maximal when it is at least 99000. -/
theorem limitDuty_eq_iff (d : Int32) : (limitDuty d).toUInt32 = 99000 ↔ 99000 ≤ limitDuty d := by
  constructor
  · intro h
    have hback : limitDuty d = 99000 := by
      rw [← Int32.toInt32_toUInt32 (limitDuty d), h]
      rfl
    rw [hback]
    decide
  · intro h
    have hle : 99000 ≤ (limitDuty d).toInt := Int32.le_iff_toInt_le.mp h
    have heq : limitDuty d = 99000 := by
      rcases limitDuty_range d with hzero | ⟨-, hhigh⟩
      · rw [hzero] at hle
        exact absurd hle (by decide)
      · exact Int32.toInt_inj.mp (le_antisymm hhigh hle)
    rw [heq]
    rfl

/-- The motor stage with the controller disabled. -/
theorem controlDisabled_connectionBrokenCounter (encoder direction : UInt32) (b : Board) :
    (b.controlDisabled encoder direction).1.connectionBrokenCounter =
      b.connectionBrokenCounter :=
  controlDisabled_writes
    (P := fun b' => b'.connectionBrokenCounter = b.connectionBrokenCounter) fun _ _ => rfl

/-- The motor stage with the controller enabled, as the stall check on the board `p` it finds. -/
theorem controlEnabled_stallStep (encoder direction : UInt32) {b : Board}
    (hen : b.outdat.enMotorController ≠ 0) {out : BoardOutput}
    (hmotor : out.motor = (b.controlEnabled encoder direction).2)
    (hX : out.X = (b.controlEnabled encoder direction).1.outdat.X) :
    StallStep b (b.controlEnabled encoder direction).1 out := by
  set p := (b.pid encoder direction).getDirection (b.pid encoder direction).controllerSum with hp
  set d := limitDuty (b.pid encoder direction).controllerSum.abs with hd
  have hafter : (b.controlEnabled encoder direction).1 = (p.stallCheck d).setDuty d := rfl
  have hduty : out.motor.duty1 = d.toUInt32 := by rw [hmotor]; rfl
  have hstalls : Stalls out ↔ 99000 ≤ d ∧ p.outdat.X = 0 := by
    rw [Stalls, hduty, limitDuty_eq_iff, hX, (controlEnabled_spec encoder direction b).1]
    exact Iff.rfl
  have hen' : p.outdat.enMotorController ≠ 0 := hen
  have hctr : p.connectionBrokenCounter = b.connectionBrokenCounter := rfl
  rw [hafter]
  rcases stallCheck_cases d p with ⟨hflag, heq⟩ | ⟨hflag, hturns, heq⟩ |
    ⟨hflag, hstall, hlt, heq⟩ | ⟨hflag, hstall, hle, heq⟩
  · rw [heq]
    exact .unchecked hen hflag rfl rfl
  · rw [heq]
    exact .turning hen hflag (fun h => hturns (hstalls.mp h)) rfl rfl
  · rw [heq]
    exact .counted hen hflag (hstalls.mpr hstall) hlt rfl rfl
  · rw [heq]
    exact .tripped hen hflag (hstalls.mpr hstall) hle rfl rfl

/-- Stages that leave the motor and the record of the host alone may stand before and after the
motor stage. -/
theorem StallStep.frame {a b b' c : Board} {out : BoardOutput} (h₁ : SameMotor a b)
    (h : StallStep b b' out) (h₂ : SameMotor b' c) (hindat : c.indat = b'.indat) :
    StallStep a c out := by
  have hen : b.outdat.enMotorController = a.outdat.enMotorController := h₁.enMotorController
  have hctr : b.connectionBrokenCounter = a.connectionBrokenCounter := h₁.connectionBrokenCounter
  have hen' := h₂.enMotorController
  have hctr' := h₂.connectionBrokenCounter
  cases h with
  | disabled hb hkeep => exact .disabled (hen ▸ hb) (by rw [hctr', hkeep, hctr])
  | unchecked hb hflag hkeep hstay =>
    exact .unchecked (hen ▸ hb) (hindat ▸ hflag) (by rw [hctr', hkeep, hctr])
      (by rw [hen', hstay, hen])
  | turning hb hflag hturns hzero hstay =>
    exact .turning (hen ▸ hb) (hindat ▸ hflag) hturns (hctr'.trans hzero) (by rw [hen', hstay, hen])
  | counted hb hflag hstalls hlt hcount hstay =>
    exact .counted (hen ▸ hb) (hindat ▸ hflag) hstalls (hctr ▸ hlt) (by rw [hctr', hcount, hctr])
      (by rw [hen', hstay, hen])
  | tripped hb hflag hstalls hle hzero hoff =>
    exact .tripped (hen ▸ hb) (hindat ▸ hflag) hstalls (hctr ▸ hle) (hctr'.trans hzero)
      (hen'.trans hoff)

/-- **What an iteration can do to the count.** -/
theorem iteration_stallStep (inp : BoardInput) (b : Board) :
    StallStep b (iteration inp b).1 (iteration inp b).2 := by
  have hbefore := beforeControl_sameMotor inp b
  unfold iteration
  generalize b.beforeControl inp = before at hbefore
  obtain ⟨c, accepted, reply⟩ := before
  dsimp only at hbefore ⊢
  refine StallStep.frame hbefore ?_ (handleSensors_sameMotor inp _)
    (handleSensors_sameLink inp _).indat
  by_cases hen : c.outdat.enMotorController = 0
  · have hctl : c.control inp.encoder inp.direction =
        c.controlDisabled inp.encoder inp.direction := if_neg (not_not.mpr hen)
    rw [hctl]
    exact .disabled hen (controlDisabled_connectionBrokenCounter _ _ _)
  · have hctl : c.control inp.encoder inp.direction =
        c.controlEnabled inp.encoder inp.direction := if_pos hen
    rw [hctl]
    exact controlEnabled_stallStep _ _ hen rfl rfl

end Board

/-! ### Runs -/

/-- The stall check is made in iteration `n`: the controller is enabled, and the host asks for
it. -/
def CheckedAt (b₀ : Board) (inp : ℕ → BoardInput) (n : ℕ) : Prop :=
  EnabledAt b₀ inp n ∧ (boardAt b₀ inp (n + 1)).indat.enConnBrokenCtr ≠ 0

instance (b₀ : Board) (inp : ℕ → BoardInput) (n : ℕ) : Decidable (CheckedAt b₀ inp n) :=
  inferInstanceAs (Decidable ((boardAt b₀ inp n).outdat.enMotorController ≠ 0 ∧
    (boardAt b₀ inp (n + 1)).indat.enConnBrokenCtr ≠ 0))

/-- Between `m` and `n` the controller is enabled, the motor stalls whenever the check is made, and
it is made `count` times. -/
structure StallHistory (b₀ : Board) (inp : ℕ → BoardInput) (m n count : ℕ) : Prop where
  enabled : ∀ t, m ≤ t → t < n → EnabledAt b₀ inp t
  stalls : ∀ t, m ≤ t → t < n → CheckedAt b₀ inp t → Stalls (showsAt b₀ inp t)
  card : ((Finset.Ico m n).filter (CheckedAt b₀ inp)).card = count

/-- The count is at most 100, it is zero while the controller is disabled, and it is that of a
stall history up to now. -/
structure CountInv (b₀ : Board) (inp : ℕ → BoardInput) (n : ℕ) (b : Board) : Prop where
  disabled : b.outdat.enMotorController = 0 → b.connectionBrokenCounter = 0
  bounded : b.connectionBrokenCounter ≤ 100
  history : ∃ m ≤ n, StallHistory b₀ inp m n b.connectionBrokenCounter

variable {b₀ : Board} {inp : ℕ → BoardInput} {m n count : ℕ}

theorem boardAt_stallStep (b₀ : Board) (inp : ℕ → BoardInput) (n : ℕ) :
    StallStep (boardAt b₀ inp n) (boardAt b₀ inp (n + 1)) (showsAt b₀ inp n) :=
  iteration_stallStep (inp n) (boardAt b₀ inp n)

theorem StallHistory.nil (b₀ : Board) (inp : ℕ → BoardInput) (n : ℕ) :
    StallHistory b₀ inp n n 0 :=
  ⟨fun t h₁ h₂ => absurd h₂ (not_lt.mpr h₁), fun t h₁ h₂ => absurd h₂ (not_lt.mpr h₁), by simp⟩

/-- An iteration without the check keeps the count, one with a stalling motor adds to it. -/
theorem StallHistory.succ (h : StallHistory b₀ inp m n count) (hmn : m ≤ n)
    (hen : EnabledAt b₀ inp n) (hstalls : CheckedAt b₀ inp n → Stalls (showsAt b₀ inp n)) :
    StallHistory b₀ inp m (n + 1) (if CheckedAt b₀ inp n then count + 1 else count) := by
  refine ⟨fun t hmt htn => ?_, fun t hmt htn => ?_, ?_⟩
  · rcases Nat.lt_succ_iff_lt_or_eq.mp htn with hlt | rfl
    · exact h.enabled t hmt hlt
    · exact hen
  · rcases Nat.lt_succ_iff_lt_or_eq.mp htn with hlt | rfl
    · exact h.stalls t hmt hlt
    · exact hstalls
  · rw [Nat.Ico_succ_right_eq_insert_Ico hmn, Finset.filter_insert]
    split_ifs with hchecked
    · rw [Finset.card_insert_of_notMem (by simp), h.card]
    · exact h.card

theorem countInv_step (h : CountInv b₀ inp n (boardAt b₀ inp n)) :
    CountInv b₀ inp (n + 1) (boardAt b₀ inp (n + 1)) := by
  obtain ⟨m, hmn, hhist⟩ := h.history
  -- after a reset the history starts again
  have hreset : (boardAt b₀ inp (n + 1)).connectionBrokenCounter = 0 →
      CountInv b₀ inp (n + 1) (boardAt b₀ inp (n + 1)) := fun hzero =>
    ⟨fun _ => hzero, hzero.trans_le (Nat.zero_le 100), n + 1, le_rfl, hzero ▸ .nil b₀ inp (n + 1)⟩
  cases boardAt_stallStep b₀ inp n with
  | disabled hen hctr => exact hreset (hctr.trans (h.disabled hen))
  | unchecked hen hflag hctr hstay =>
    have hnot : ¬CheckedAt b₀ inp n := fun hchecked => hchecked.2 hflag
    have hsucc := hhist.succ hmn hen fun hchecked => absurd hchecked hnot
    rw [if_neg hnot, ← hctr] at hsucc
    exact ⟨fun hoff => absurd (hstay.symm.trans hoff) hen, hctr.trans_le h.bounded, m,
      Nat.le_succ_of_le hmn, hsucc⟩
  | turning hen hflag hturns hctr hstay => exact hreset hctr
  | counted hen hflag hstalls hlt hctr hstay =>
    have hsucc := hhist.succ hmn hen fun _ => hstalls
    rw [if_pos ⟨hen, hflag⟩, ← hctr] at hsucc
    exact ⟨fun hoff => absurd (hstay.symm.trans hoff) hen, hctr.trans_le hlt, m,
      Nat.le_succ_of_le hmn, hsucc⟩
  | tripped hen hflag hstalls hle hctr hoff => exact hreset hctr

theorem countInv (h₀ : b₀.connectionBrokenCounter = 0) (n : ℕ) :
    CountInv b₀ inp n (boardAt b₀ inp n) :=
  invariant_index (P := CountInv b₀ inp)
    ⟨fun _ => h₀, h₀.trans_le (Nat.zero_le 100), 0, le_rfl, h₀ ▸ .nil b₀ inp 0⟩
    (fun _ h => countInv_step h) n

/-- A trip ends a stall history with 101 checks. -/
theorem stallHistory_of_trip (h₀ : b₀.connectionBrokenCounter = 0) (htrip : TripsAt b₀ inp n) :
    CheckedAt b₀ inp n ∧ ∃ m ≤ n, StallHistory b₀ inp m (n + 1) 101 := by
  have hinv : CountInv b₀ inp n (boardAt b₀ inp n) := countInv h₀ n
  have hstays : (boardAt b₀ inp (n + 1)).outdat.enMotorController ≠
      (boardAt b₀ inp n).outdat.enMotorController := by
    rw [not_not.mp htrip.2]
    exact htrip.1.symm
  cases boardAt_stallStep b₀ inp n with
  | disabled hen hctr => exact absurd hen htrip.1
  | unchecked hen hflag hctr hstay => exact absurd hstay hstays
  | turning hen hflag hturns hctr hstay => exact absurd hstay hstays
  | counted hen hflag hstalls hlt hctr hstay => exact absurd hstay hstays
  | tripped hen hflag hstalls hle hctr hoff =>
    obtain ⟨m, hmn, hhist⟩ := hinv.history
    have hsucc := hhist.succ hmn hen fun _ => hstalls
    rw [if_pos ⟨hen, hflag⟩, le_antisymm hinv.bounded hle] at hsucc
    exact ⟨⟨hen, hflag⟩, m, hmn, hsucc⟩

/-- As long as the motor stalls and is checked, the count grows with the iterations. -/
theorem le_count_of_stalls (hstalls : ∀ t, n ≤ t → t ≤ n + 100 →
    CheckedAt b₀ inp t ∧ Stalls (showsAt b₀ inp t)) {j : ℕ} (hj : j ≤ 100) :
    j ≤ (boardAt b₀ inp (n + j)).connectionBrokenCounter := by
  induction j with
  | zero => exact Nat.zero_le _
  | succ j ih =>
    have hle := ih (by omega)
    obtain ⟨⟨hen, hflag⟩, hstall⟩ := hstalls (n + j) (by omega) (by omega)
    obtain ⟨⟨hen', -⟩, -⟩ := hstalls (n + (j + 1)) (by omega) (by omega)
    cases boardAt_stallStep b₀ inp (n + j) with
    | disabled hoff hctr => exact absurd hoff hen
    | unchecked hen hnoflag hctr hstay => exact absurd hnoflag hflag
    | turning hen hflag hturns hctr hstay => exact absurd hstall hturns
    | counted hen hflag hstalls hlt hctr hstay => exact (Nat.succ_le_succ hle).trans_eq hctr.symm
    | tripped hen hflag hstalls hle hctr hoff => exact absurd hoff hen'

/-- After 101 consecutive iterations in which the motor stalls and is checked, the controller is
disabled. -/
theorem not_enabledAt_of_stalls (hstalls : ∀ t, n ≤ t → t ≤ n + 100 →
    CheckedAt b₀ inp t ∧ Stalls (showsAt b₀ inp t)) : ¬EnabledAt b₀ inp (n + 101) := by
  have hle := le_count_of_stalls hstalls le_rfl
  obtain ⟨⟨hen, hflag⟩, hstall⟩ := hstalls (n + 100) (by omega) le_rfl
  cases boardAt_stallStep b₀ inp (n + 100) with
  | disabled hoff hctr => exact absurd hoff hen
  | unchecked hen hnoflag hctr hstay => exact absurd hnoflag hflag
  | turning hen hflag hturns hctr hstay => exact absurd hstall hturns
  | counted hen hflag hstalls hlt hctr hstay => exact absurd hlt (not_lt.mpr hle)
  | tripped hen hflag hstalls hle hctr hoff =>
    rw [show n + 101 = n + 100 + 1 from rfl]
    exact not_not.mpr hoff

/-- **The stall trip.** The stall check disables the controller only in an iteration in which it
is made and the motor stalls, and in each of the 100 iterations before it in which the check was
made the motor stalled too, the controller being enabled all along. And after 101 consecutive
iterations in which the check is made and the motor stalls, the controller is disabled. -/
theorem stallTrip (indat : Indata) (outdat : Outdata) (accCali : Fin 3 → Int16)
    (inp : ℕ → BoardInput) :
    (∀ n, TripsAt (boot indat outdat accCali) inp n →
      CheckedAt (boot indat outdat accCali) inp n ∧
        ∃ m ≤ n, StallHistory (boot indat outdat accCali) inp m (n + 1) 101) ∧
    ∀ n, (∀ t, n ≤ t → t ≤ n + 100 → CheckedAt (boot indat outdat accCali) inp t ∧
        Stalls (showsAt (boot indat outdat accCali) inp t)) →
      ¬EnabledAt (boot indat outdat accCali) inp (n + 101) :=
  ⟨fun _ htrip => stallHistory_of_trip rfl htrip, fun _ hstalls => not_enabledAt_of_stalls hstalls⟩

/-- One record with a set value, and the wheels do not turn. -/
def blocked : ℕ → BoardInput := feed [[tagI], framesOf [⟨1, 1, 1, 0, 200⟩]]

/-- The motor stalls from iteration 11 on; the check trips in iteration 111. -/
theorem stallTrip_blocked :
    (∃ m ≤ 111, StallHistory (boot default default) blocked m 112 101) ∧
      ¬EnabledAt (boot default default) blocked (11 + 101) := by
  have hstalls : ∀ j ≤ 100,
      (boardAt (boot default default) blocked (11 + j)).outdat.enMotorController ≠ 0 ∧
      (boardAt (boot default default) blocked (11 + j + 1)).indat.enConnBrokenCtr ≠ 0 ∧
      Stalls (showsAt (boot default default) blocked (11 + j)) := by decide +kernel
  have hrange : ∀ t, 11 ≤ t → t ≤ 11 + 100 → CheckedAt (boot default default) blocked t ∧
      Stalls (showsAt (boot default default) blocked t) := by
    intro t hle hge
    obtain ⟨j, rfl⟩ := Nat.exists_eq_add_of_le hle
    obtain ⟨hen, hflag, hstall⟩ := hstalls j (by omega)
    exact ⟨⟨hen, hflag⟩, hstall⟩
  have hen : (boardAt (boot default default) blocked 111).outdat.enMotorController ≠ 0 := by
    decide +kernel
  have hoff : (boardAt (boot default default) blocked (111 + 1)).outdat.enMotorController = 0 := by
    decide +kernel
  obtain ⟨htrips, hdisabled⟩ := stallTrip default default (fun _ => 0) blocked
  exact ⟨(htrips 111 ⟨hen, not_not.mpr hoff⟩).2, hdisabled 11 hrange⟩

/-- A run in which the motor stalls from iteration 11 on, but for iteration 30, in which the wheel
turns; the record accepted in that iteration does not ask for the check. -/
def interrupted (n : ℕ) : BoardInput where
  uart := { atPoll :=
    { rxd := match n with
        | 0 => [tagI]
        | 1 | 31 => framesOf [⟨1, 1, 1, 0, 200⟩]
        | 30 => framesOf [⟨1, 0, 1, 0, 200⟩]
        | _ => []
      txd := fifoSize } }
  encoder := if n = 30 then 1 else 0

/-- **The count is kept while the check is off.** The check trips in iteration 112, and in one of
the 100 iterations before it the wheel turned. -/
theorem stallTrip_fails :
    ¬ ∀ inp n, TripsAt (boot default default) inp n → ∀ t, t ≤ n → n ≤ t + 100 →
      EnabledAt (boot default default) inp t ∧ Stalls (showsAt (boot default default) inp t) := by
  intro h
  have hen : (boardAt (boot default default) interrupted 112).outdat.enMotorController ≠ 0 := by
    decide +kernel
  have hoff : (boardAt (boot default default) interrupted (112 + 1)).outdat.enMotorController =
      0 := by decide +kernel
  have hturns : (showsAt (boot default default) interrupted 30).X = 2 := by decide +kernel
  have hstill := (h interrupted 112 ⟨hen, not_not.mpr hoff⟩ 30 (by decide) (by decide)).2.2
  exact absurd (hturns.symm.trans hstill) (by decide)

end LegoCar
