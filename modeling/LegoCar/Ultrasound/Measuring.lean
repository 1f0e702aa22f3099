import Mathlib
import LegoCar.Lib.Waveform
import LegoCar.Ultrasound.Driver

/-!
# The measuring chain

The driver polls the circuit while the circuit measures. `MeasuringAt` says how far a measurement is
in a cycle after its trigger: the start bit passes its two registers, the trigger pulse is counted
out, the circuit waits for the echo, counts it, and has finished. Each cycle takes it to the next
one (`MeasuringAt.succ`), whatever the driver does, as long as it issues no other trigger.

The status register lags the state: right after a trigger it still says that the circuit is idle.
Polls that are 8 cycles apart do not see this, so the driver alternates between triggers and
distances, and every distance it stores is that of the pulse after its trigger (`measuring`).
-/

namespace LegoCar

open Driven Waveform

section Cycles

variable (distanceCount : UInt32) (inp : ℕ → ClockInput)

/-- `trigger_out`. -/
def triggerOut (t : ℕ) : Bool := (measureAt distanceCount inp t).1.machine.triggerOut

/-- The synchronised echo. -/
def echo (t : ℕ) : Bool := (measureAt distanceCount inp t).1.feedbackIn2

/-- The number of samples after which a pulse counts as too long. -/
def timeoutCount : ℕ := 0xE0000

/-- **A measurement**: the driver issues a trigger in cycle `b`, no other trigger and no distance
follows before the distance `v` is stored in cycle `d`, and `v` is that of the first pulse of the
echo that begins after the end of the trigger pulse, which was counted before. -/
structure Measurement (b d : ℕ) (v : ℚ) : Prop where
  lt : b < d
  triggered : (cycleAt distanceCount inp b).triggered = true
  alone : ∀ c, b < c → c < d →
    (cycleAt distanceCount inp c).triggered = false ∧ (cycleAt distanceCount inp c).stored = none
  pulse : ∃ p n u, FirstRise (triggerOut distanceCount inp) b p ∧
    PulseOf (triggerOut distanceCount inp) p n ∧ FirstRise (echo distanceCount inp) (p + n) u ∧
    (v = -1 ↔ HighFor (echo distanceCount inp) u (timeoutCount + 1)) ∧
    ((∃ k ≤ timeoutCount, PulseOf (echo distanceCount inp) u k ∧ u + k ≤ d ∧
        v = k * (0.0000034 : ℚ) / 2) ∨
      HighFor (echo distanceCount inp) u (timeoutCount + 1) ∧ u + timeoutCount ≤ d ∧ v = -1)

end Cycles

variable {distanceCount : UInt32} {inp : ℕ → ClockInput} {b t : ℕ}

/-! ### The circuit in a cycle -/

theorem echo_succ (distanceCount : UInt32) (inp : ℕ → ClockInput) (t : ℕ) :
    echo distanceCount inp (t + 1) = (measureAt distanceCount inp t).1.feedbackIn1 := by
  rw [echo, measureAt, stateAt, measureStep]
  split_ifs <;> rfl

theorem trig0_succ (t : ℕ) : (measureAt distanceCount inp (t + 1)).1.trig0 =
    (measureAt distanceCount inp t).1.startBit := by
  rw [measureAt, stateAt, measureStep]
  split_ifs <;> rfl

theorem trig1_succ (t : ℕ) : (measureAt distanceCount inp (t + 1)).1.trig1 =
    (measureAt distanceCount inp t).1.trig0 := by
  rw [measureAt, stateAt, measureStep]
  split_ifs <;> rfl

theorem machine_succ (distanceCount : UInt32) (inp : ℕ → ClockInput) (t : ℕ) :
    (measureAt distanceCount inp (t + 1)).1.machine =
      (measureAt distanceCount inp t).1.stepMachine := by
  rw [measureAt, stateAt, measureStep]
  split_ifs <;> rfl

/-- The start bit after a write of the driver. -/
theorem startBit_write {bus : Bus} (hselect : bus.write ∧ bus.chipselect ∧ bus.address.val = 0)
    (hall : bus.byteenable = fun _ => true) (feedbackIn : Bool) (s : Interface) :
    (s.clock bus feedbackIn).startBit = bit bus.writedata 0 := by
  have hmask : Interface.writeMask bus.byteenable = -1 := by
    rw [hall]
    decide
  have hcontrol : (s.clock bus feedbackIn).controlReg = bus.writedata := by
    have hwrite : (s.clock bus feedbackIn).controlReg =
        (s.controlReg &&& ~~~Interface.writeMask bus.byteenable) |||
          (bus.writedata &&& Interface.writeMask bus.byteenable) := if_pos hselect
    rw [hwrite, hmask]
    simp
  rw [Interface.startBit, hcontrol]

/-- The start bit after a cycle without a write. -/
theorem startBit_read {bus : Bus} (hread : bus.write = false) (feedbackIn : Bool) (s : Interface) :
    (s.clock bus feedbackIn).startBit = s.startBit := by
  have hcontrol : (s.clock bus feedbackIn).controlReg = s.controlReg :=
    if_neg fun h => absurd (hread.symm.trans h.1) Bool.false_ne_true
  rw [Interface.startBit, Interface.startBit, hcontrol]

/-- The start bit after an access of the driver. -/
def startBitAfter (old : Bool) : RegisterAccess → Bool
  | .triggerSensor => true
  | .triggerClear => false
  | .triggerClearAgain => false
  | .getSensorState => old
  | .getSensorData => old

theorem startBit_bus (d : Driver) (feedbackIn : Bool) (s : Interface) :
    (s.clock d.bus feedbackIn).startBit = startBitAfter s.startBit d.next := by
  have hclear : bit 0 0 = false := by decide
  have hset : bit 1 0 = true := by decide
  unfold Driver.bus
  cases d.next with
  | getSensorState => exact startBit_read rfl _ _
  | triggerClear => exact (startBit_write ⟨rfl, rfl, rfl⟩ rfl _ _).trans hclear
  | triggerSensor => exact (startBit_write ⟨rfl, rfl, rfl⟩ rfl _ _).trans hset
  | triggerClearAgain => exact (startBit_write ⟨rfl, rfl, rfl⟩ rfl _ _).trans hclear
  | getSensorData => exact startBit_read rfl _ _

/-- A cycle without an access. -/
theorem cycle_quiet (distanceCount : UInt32) (h : (inp t).access = false) :
    (measureAt distanceCount inp (t + 1)).2 = (measureAt distanceCount inp t).2 ∧
      (measureAt distanceCount inp (t + 1)).1.startBit =
        (measureAt distanceCount inp t).1.startBit ∧
      cycleAt distanceCount inp t = ⟨false, none⟩ := by
  have hstep : measureStep (inp t) (measureAt distanceCount inp t) =
      (((measureAt distanceCount inp t).1.clock {} (inp t).feedbackIn,
        (measureAt distanceCount inp t).2), ⟨false, none⟩) :=
    if_neg (by rw [h]; exact Bool.false_ne_true)
  rw [cycleAt, outAt, measureAt, stateAt, hstep]
  exact ⟨rfl, startBit_read rfl _ _, rfl⟩

/-- What the driver reads in a cycle in which it makes an access. -/
def readAt (distanceCount : UInt32) (inp : ℕ → ClockInput) (t : ℕ) : UInt32 :=
  (measureAt distanceCount inp t).1.readdata (measureAt distanceCount inp t).2.bus.address

/-- A cycle with an access: what the driver does, and what its access does to the start bit. -/
theorem cycle_access (distanceCount : UInt32) (h : (inp t).access = true) :
    (measureAt distanceCount inp (t + 1)).2 =
        ((measureAt distanceCount inp t).2.access (readAt distanceCount inp t)).1 ∧
      (measureAt distanceCount inp (t + 1)).1.startBit =
        startBitAfter (measureAt distanceCount inp t).1.startBit
          (measureAt distanceCount inp t).2.next ∧
      cycleAt distanceCount inp t =
        ⟨decide ((measureAt distanceCount inp t).2.next = .triggerSensor),
          ((measureAt distanceCount inp t).2.access (readAt distanceCount inp t)).2⟩ := by
  have hclock := startBit_bus (measureAt distanceCount inp t).2 (inp t).feedbackIn
    (measureAt distanceCount inp t).1
  rw [cycleAt, outAt, measureAt, stateAt, measureStep, if_pos h]
  exact ⟨rfl, hclock, rfl⟩

/-- The start bit is set by a trigger only. -/
theorem startBit_succ (h : (cycleAt distanceCount inp t).triggered = false)
    (hstart : (measureAt distanceCount inp (t + 1)).1.startBit = true) :
    (measureAt distanceCount inp t).1.startBit = true := by
  cases haccess : (inp t).access with
  | false =>
    obtain ⟨-, hsame, -⟩ := cycle_quiet distanceCount haccess
    rwa [hsame] at hstart
  | true =>
    obtain ⟨-, hclock, hout⟩ := cycle_access distanceCount haccess
    rw [hout, decide_eq_false_iff_not] at h
    rw [hclock] at hstart
    cases hnext : (measureAt distanceCount inp t).2.next with
    | triggerSensor => exact absurd hnext h
    | getSensorState => rwa [hnext] at hstart
    | getSensorData => rwa [hnext] at hstart
    | triggerClear =>
      rw [hnext] at hstart
      exact absurd hstart Bool.false_ne_true
    | triggerClearAgain =>
      rw [hnext] at hstart
      exact absurd hstart Bool.false_ne_true

/-! ### The progress of a measurement -/

/-- No edge of the start bit is under way. -/
def Calm (s : Interface) : Prop :=
  (s.startBit = true → s.trig0 = true) ∧ (s.trig0 = true → s.trig1 = true)

/-- The count of the first pulse after the trigger pulse, which begins in sample `u`. -/
def Counted (w : ℕ → Bool) (u t : ℕ) (count : UInt32) : Prop :=
  (∃ k ≤ timeoutCount, PulseOf w u k ∧ u + k ≤ t ∧ count.toNat = k) ∨
    HighFor w u (timeoutCount + 1) ∧ u + timeoutCount ≤ t ∧ count = -1

/-- The measurement of the trigger in cycle `b` has finished. -/
structure Finished (w : ℕ → Bool) (b t : ℕ) (s : Interface) : Prop where
  calm : Calm s
  state : s.machine.state = .idle
  stateReg : s.machine.stateReg = 2
  triggerOut : s.machine.triggerOut = false
  counted : ∃ u, FirstRise w (b + 1028) u ∧ Counted w u t s.machine.distanceCount

/-- How far the measurement of the trigger in cycle `b` is before cycle `t`. -/
inductive MeasuringAt (w : ℕ → Bool) (b t : ℕ) (s : Interface) : Prop
  | started (ht : t = b + 1) (hstart : s.startBit = true) (h0 : s.trig0 = false)
      (hstate : s.machine.state = .idle) (hout : s.machine.triggerOut = false)
  | edge (ht : t = b + 2) (h0 : s.trig0 = true) (h1 : s.trig1 = false)
      (hstate : s.machine.state = .idle) (hout : s.machine.triggerOut = false)
  | trigger (ht : t = b + 3 + s.machine.triCount.toNat) (hle : s.machine.triCount.toNat ≤ 1024)
      (hcalm : Calm s) (hstate : s.machine.state = .trigger)
      (hout : s.machine.triggerOut = decide (0 < s.machine.triCount.toNat))
      (hreg : 0 < s.machine.triCount.toNat → s.machine.stateReg = 1)
  | wait (ht : b + 1028 ≤ t) (hrise : NoRise w (b + 1028) t) (hcalm : Calm s)
      (hstate : s.machine.state = .waitFeedback) (hcount : s.machine.triCount = 0)
      (hout : s.machine.triggerOut = false) (hreg : s.machine.stateReg = 1)
  | measure (u : ℕ) (hrise : FirstRise w (b + 1028) u) (ht : t + 1 = u + s.machine.triCount.toNat)
      (hle : 0 < s.machine.triCount.toNat ∧ s.machine.triCount.toNat ≤ timeoutCount)
      (hhigh : HighFor w u s.machine.triCount.toNat) (hcalm : Calm s)
      (hstate : s.machine.state = .measureFeedback) (hout : s.machine.triggerOut = false)
      (hreg : s.machine.stateReg = 1)
  | finished (h : Finished w b t s)

/-- The edge detector, when no other trigger is issued. -/
theorem Calm.succ (h : Calm (measureAt distanceCount inp t).1)
    (hquiet : (cycleAt distanceCount inp t).triggered = false) :
    Calm (measureAt distanceCount inp (t + 1)).1 := by
  rw [Calm, trig0_succ, trig1_succ]
  exact ⟨startBit_succ hquiet, h.1⟩

theorem Counted.succ {w : ℕ → Bool} {u : ℕ} {count : UInt32} (h : Counted w u t count) :
    Counted w u (t + 1) count := by
  rcases h with ⟨k, hk, hpulse, ht, hcount⟩ | ⟨hhigh, ht, hcount⟩
  · exact Or.inl ⟨k, hk, hpulse, Nat.le_succ_of_le ht, hcount⟩
  · exact Or.inr ⟨hhigh, Nat.le_succ_of_le ht, hcount⟩

/-- Without an edge the idle circuit stays idle. -/
theorem stepMachine_idle {s : Interface} (hstate : s.machine.state = .idle)
    (h : s.trig0 = true → s.trig1 = true) :
    s.stepMachine = ⟨.idle, 0, false, 2, s.machine.distanceCount⟩ := by
  have hedge : ¬(s.trig0 = true ∧ s.trig1 = false) := by
    rintro ⟨h0, h1⟩
    exact Bool.false_ne_true (h1.symm.trans (h h0))
  rw [Interface.stepMachine, hstate]
  simp only [StateMachine.stepIdle, if_neg hedge]

theorem Finished.succ {w : ℕ → Bool} (h : Finished w b t (measureAt distanceCount inp t).1)
    (hquiet : (cycleAt distanceCount inp t).triggered = false) :
    Finished w b (t + 1) (measureAt distanceCount inp (t + 1)).1 := by
  have hmachine := (machine_succ _ _ t).trans (stepMachine_idle h.state h.calm.2)
  obtain ⟨u, hrise, hcounted⟩ := h.counted
  refine ⟨h.calm.succ hquiet, ?_, ?_, ?_, u, hrise, ?_⟩
  · rw [hmachine]
  · rw [hmachine]
  · rw [hmachine]
  · rw [hmachine]
    exact hcounted.succ

/-- The trigger pulse is counted out. -/
theorem progress_of_trigger {w : ℕ → Bool}
    (ht : t = b + 3 + (measureAt distanceCount inp t).1.machine.triCount.toNat)
    (hle : (measureAt distanceCount inp t).1.machine.triCount.toNat ≤ 1024)
    (hcalm : Calm (measureAt distanceCount inp (t + 1)).1)
    (hstate : (measureAt distanceCount inp t).1.machine.state = .trigger) :
    MeasuringAt w b (t + 1) (measureAt distanceCount inp (t + 1)).1 := by
  have hmachine := machine_succ distanceCount inp t
  rw [Interface.stepMachine, hstate] at hmachine
  by_cases hend : (measureAt distanceCount inp t).1.machine.triCount.toNat = 1024
  · have hmachine' := hmachine.trans (if_pos ((Interface.bit_ten hle).mpr hend))
    have hlast : t + 1 = b + 1028 := by omega
    refine .wait hlast.ge ?_ hcalm ?_ ?_ ?_ ?_
    · rw [hlast]
      exact noRise_self
    all_goals rw [hmachine']
  · have hmachine' := hmachine.trans (if_neg fun hbit => hend ((Interface.bit_ten hle).mp hbit))
    have hcount : (measureAt distanceCount inp (t + 1)).1.machine.triCount.toNat =
        (measureAt distanceCount inp t).1.machine.triCount.toNat + 1 := by
      rw [hmachine']
      exact Interface.toNat_succ (by omega)
    refine .trigger (by omega) (by omega) hcalm ?_ ?_ fun _ => ?_
    · rw [hmachine']
      exact hstate
    · rw [hcount, hmachine']
      exact (decide_eq_true (Nat.succ_pos _)).symm
    · rw [hmachine']

/-- The circuit sees the echo rise one cycle before its second register does. -/
theorem risesAt_echo (t : ℕ) : RisesAt (echo distanceCount inp) (t + 1) ↔
    (measureAt distanceCount inp t).1.feedbackIn1 = true ∧
      (measureAt distanceCount inp t).1.feedbackIn2 = false := by
  rw [risesAt_succ, echo_succ, and_comm]
  exact Iff.rfl

theorem progress_of_wait (ht : b + 1028 ≤ t) (hrise : NoRise (echo distanceCount inp) (b + 1028) t)
    (hcalm : Calm (measureAt distanceCount inp (t + 1)).1)
    (hstate : (measureAt distanceCount inp t).1.machine.state = .waitFeedback)
    (hcount : (measureAt distanceCount inp t).1.machine.triCount = 0) :
    MeasuringAt (echo distanceCount inp) b (t + 1) (measureAt distanceCount inp (t + 1)).1 := by
  have hmachine := machine_succ distanceCount inp t
  rw [Interface.stepMachine, hstate] at hmachine
  by_cases hedge : RisesAt (echo distanceCount inp) (t + 1)
  · have hmachine' := hmachine.trans (if_pos ((risesAt_echo t).mp hedge))
    have hone : (measureAt distanceCount inp (t + 1)).1.machine.triCount.toNat = 1 := by
      rw [hmachine', hcount]
      rfl
    refine .measure (t + 1) (hrise.firstRise ht hedge) ?_ ?_ ?_ hcalm ?_ ?_ ?_
    · rw [hone]
    · rw [hone]
      decide
    · rw [hone]
      exact hedge.highFor
    all_goals rw [hmachine']
  · have hmachine' := hmachine.trans (if_neg fun hseen => hedge ((risesAt_echo t).mpr hseen))
    refine .wait (Nat.le_succ_of_le ht) (hrise.succ hedge) hcalm ?_ ?_ ?_ ?_
    · rw [hmachine']
      exact hstate
    all_goals rw [hmachine']

/-- The echo is counted, to its end or to the limit. -/
theorem progress_of_measure {u : ℕ} (hrise : FirstRise (echo distanceCount inp) (b + 1028) u)
    (ht : t + 1 = u + (measureAt distanceCount inp t).1.machine.triCount.toNat)
    (hle : (measureAt distanceCount inp t).1.machine.triCount.toNat ≤ timeoutCount)
    (hhigh : HighFor (echo distanceCount inp) u
      (measureAt distanceCount inp t).1.machine.triCount.toNat)
    (hcalm : Calm (measureAt distanceCount inp (t + 1)).1)
    (hstate : (measureAt distanceCount inp t).1.machine.state = .measureFeedback) :
    MeasuringAt (echo distanceCount inp) b (t + 1) (measureAt distanceCount inp (t + 1)).1 := by
  have hmachine := machine_succ distanceCount inp t
  rw [Interface.stepMachine, hstate] at hmachine
  have hsample := echo_succ distanceCount inp t
  rw [ht] at hsample
  by_cases hecho : (measureAt distanceCount inp t).1.feedbackIn1 = true
  · have hmeasure := hmachine.trans (if_pos hecho)
    have hhigh' := hhigh.succ (hsample.trans hecho)
    by_cases hlimit : (measureAt distanceCount inp t).1.machine.triCount.toNat = timeoutCount
    · -- the limit is reached, and the echo is still high
      have hmachine' := hmeasure.trans (if_pos ((Interface.bits_of_timeout hle).mpr hlimit))
      rw [hlimit] at hhigh' ht
      refine .finished ⟨hcalm, ?_, ?_, ?_, u, hrise, Or.inr ⟨hhigh', ht.ge, ?_⟩⟩
      all_goals rw [hmachine']
    · have hmachine' := hmeasure.trans
        (if_neg fun hbits => hlimit ((Interface.bits_of_timeout hle).mp hbits))
      have hlt := Nat.lt_of_le_of_ne hle hlimit
      have hcount : (measureAt distanceCount inp (t + 1)).1.machine.triCount.toNat =
          (measureAt distanceCount inp t).1.machine.triCount.toNat + 1 := by
        rw [hmachine']
        exact Interface.toNat_succ (hlt.trans (by decide))
      rw [← hcount] at hhigh'
      refine .measure u hrise (by omega) ⟨by omega, by omega⟩ hhigh' hcalm ?_ ?_ ?_
      · rw [hmachine']
        exact hstate
      all_goals rw [hmachine']
  · -- the echo has ended
    have hmachine' := hmachine.trans (if_neg hecho)
    have hlow := hsample.trans (Bool.eq_false_of_not_eq_true hecho)
    refine .finished ⟨hcalm, ?_, ?_, ?_, u, hrise, Or.inl ⟨_, hle, ⟨hhigh, hlow⟩, ht.ge, ?_⟩⟩
    all_goals rw [hmachine']

/-- **A cycle of a measurement**, in which no other trigger is issued. -/
theorem MeasuringAt.succ
    (h : MeasuringAt (echo distanceCount inp) b t (measureAt distanceCount inp t).1)
    (hquiet : (cycleAt distanceCount inp t).triggered = false) :
    MeasuringAt (echo distanceCount inp) b (t + 1) (measureAt distanceCount inp (t + 1)).1 := by
  have hmachine := machine_succ distanceCount inp t
  cases h with
  | started ht hstart h0 hstate hout =>
    have hidle := hmachine.trans
      (stepMachine_idle hstate fun h => absurd (h0.symm.trans h) Bool.false_ne_true)
    refine .edge (by omega) ((trig0_succ t).trans hstart) ((trig1_succ t).trans h0) ?_ ?_
    all_goals rw [hidle]
  | edge ht h0 h1 hstate hout =>
    -- the circuit sees the edge of the start bit
    rw [Interface.stepMachine, hstate] at hmachine
    have htrigger : (measureAt distanceCount inp (t + 1)).1.machine =
        ⟨.trigger, 0, false, 2, (measureAt distanceCount inp t).1.machine.distanceCount⟩ := by
      rw [hmachine]
      exact congrArg (fun s => StateMachine.mk s 0 false 2 _) (if_pos ⟨h0, h1⟩)
    have hcalm : Calm (measureAt distanceCount inp (t + 1)).1 := by
      rw [Calm, trig0_succ, trig1_succ]
      exact ⟨startBit_succ hquiet, fun _ => h0⟩
    have hzero : (measureAt distanceCount inp (t + 1)).1.machine.triCount.toNat = 0 := by
      rw [htrigger]
      rfl
    refine .trigger (by omega) (by omega) hcalm ?_ ?_ fun hpos => by omega
    · rw [htrigger]
    · rw [hzero, htrigger]
      rfl
  | trigger ht hle hcalm hstate => exact progress_of_trigger ht hle (hcalm.succ hquiet) hstate
  | wait ht hrise hcalm hstate hcount =>
    exact progress_of_wait ht hrise (hcalm.succ hquiet) hstate hcount
  | measure u hrise ht hle hhigh hcalm hstate =>
    exact progress_of_measure hrise ht hle.2 hhigh (hcalm.succ hquiet) hstate
  | finished h => exact .finished (h.succ hquiet)

/-! ### What the driver sees -/

theorem Counted.le {w : ℕ → Bool} {u : ℕ} {count : UInt32} (h : Counted w u t count) : u ≤ t := by
  rcases h with ⟨k, -, -, ht, -⟩ | ⟨-, ht, -⟩
  · exact (Nat.le_add_right u k).trans ht
  · exact (Nat.le_add_right u _).trans ht

/-- The trigger pulse begins in the fourth cycle after the trigger and is 1024 cycles long. -/
theorem MeasuringAt.triggerOut_eq {w : ℕ → Bool} {s : Interface} (h : MeasuringAt w b t s)
    (hle : t ≤ b + 1028) : s.machine.triggerOut = decide (b + 4 ≤ t ∧ t < b + 1028) := by
  cases h with
  | started ht hstart h0 hstate hout =>
    rw [hout]
    exact (decide_eq_false (by omega)).symm
  | edge ht h0 h1 hstate hout =>
    rw [hout]
    exact (decide_eq_false (by omega)).symm
  | trigger ht hle' hcalm hstate hout =>
    rw [hout]
    exact decide_eq_decide.mpr (by omega)
  | wait ht hrise hcalm hstate hcount hout =>
    rw [hout]
    exact (decide_eq_false (by omega)).symm
  | measure u hrise ht hpos =>
    have hu := hrise.1
    omega
  | finished h =>
    obtain ⟨u, hrise, hcounted⟩ := h.counted
    have hu := hrise.1
    have hle' := hcounted.le
    omega

/-- From the fourth cycle on, the status register says that data is ready only when the measurement
has finished. -/
theorem MeasuringAt.finished_of_stateReg {w : ℕ → Bool} {s : Interface} (h : MeasuringAt w b t s)
    (ht : b + 4 ≤ t) (hready : s.machine.stateReg = 2) : Finished w b t s := by
  have hbusy : s.machine.stateReg ≠ 1 := by
    rw [hready]
    decide
  cases h with
  | started ht' => omega
  | edge ht' => omega
  | trigger ht' hle hcalm hstate hout hreg => exact absurd (hreg (by omega)) hbusy
  | wait ht' hrise hcalm hstate hcount hout hreg => exact absurd hreg hbusy
  | measure u hrise ht' hle hhigh hcalm hstate hout hreg => exact absurd hreg hbusy
  | finished h => exact h

/-! ### The driver and the circuit -/

/-- Nothing is measured, and the start bit is clear. -/
structure Ready (s : Interface) : Prop where
  start : s.startBit = false
  edge : s.trig0 = true → s.trig1 = true
  state : s.machine.state = .idle
  stateReg : s.machine.stateReg = 2
  triggerOut : s.machine.triggerOut = false

/-- The trigger in cycle `b` is the last thing the driver did before cycle `t`, and the circuit has
been measuring since. -/
structure Since (distanceCount : UInt32) (inp : ℕ → ClockInput) (b t : ℕ) : Prop where
  lt : b < t
  access : (inp b).access = true
  triggered : (cycleAt distanceCount inp b).triggered = true
  idle : (measureAt distanceCount inp b).1.machine.triggerOut = false
  alone : ∀ c, b < c → c < t →
    (cycleAt distanceCount inp c).triggered = false ∧ (cycleAt distanceCount inp c).stored = none
  progress : ∀ c, b < c → c ≤ t →
    MeasuringAt (echo distanceCount inp) b c (measureAt distanceCount inp c).1

/-- **The invariant of the chain.** The driver is about to poll an idle circuit or to issue a
trigger; or a trigger was issued, and the driver polls for its end or is about to read its
count. -/
inductive ChainInv (distanceCount : UInt32) (inp : ℕ → ClockInput) (t : ℕ) : Prop
  | ready (h : Ready (measureAt distanceCount inp t).1)
      (hdriver : (measureAt distanceCount inp t).2.next = .getSensorState ∧
          (measureAt distanceCount inp t).2.usState = 0 ∨
        ((measureAt distanceCount inp t).2.next = .triggerClear ∨
          (measureAt distanceCount inp t).2.next = .triggerSensor) ∧
          (measureAt distanceCount inp t).2.usState = 1)
  | measuring (b : ℕ) (h : Since distanceCount inp b t)
      (hstart : (measureAt distanceCount inp t).2.next ≠ .triggerClearAgain →
        (measureAt distanceCount inp t).1.startBit = false)
      (hdriver : ((measureAt distanceCount inp t).2.next = .triggerClearAgain ∨
          (measureAt distanceCount inp t).2.next = .getSensorState) ∧
          (measureAt distanceCount inp t).2.usState = 1 ∨
        (measureAt distanceCount inp t).2.next = .getSensorData ∧
          (measureAt distanceCount inp t).2.usState = 0 ∧
          Finished (echo distanceCount inp) b t (measureAt distanceCount inp t).1)

/-- An idle circuit stays ready while the start bit stays clear. -/
theorem Ready.succ (h : Ready (measureAt distanceCount inp t).1)
    (hstart : (measureAt distanceCount inp (t + 1)).1.startBit = false) :
    Ready (measureAt distanceCount inp (t + 1)).1 := by
  have hmachine := (machine_succ _ _ t).trans (stepMachine_idle h.state h.edge)
  refine ⟨hstart, fun h0 => ?_, ?_, ?_, ?_⟩
  · rw [trig0_succ, h.start] at h0
    exact absurd h0 Bool.false_ne_true
  all_goals rw [hmachine]

/-- A cycle in which the driver neither issues a trigger nor stores a distance. -/
theorem Since.succ (h : Since distanceCount inp b t)
    (hquiet : (cycleAt distanceCount inp t).triggered = false ∧
      (cycleAt distanceCount inp t).stored = none) : Since distanceCount inp b (t + 1) := by
  refine ⟨Nat.lt_succ_of_lt h.lt, h.access, h.triggered, h.idle, fun c hc hc' => ?_,
    fun c hc hc' => ?_⟩
  · obtain rfl | hlt := Nat.eq_or_lt_of_le (Nat.le_of_lt_succ hc')
    · exact hquiet
    · exact h.alone c hc hlt
  · obtain rfl | hle := Nat.eq_or_lt_of_le hc'
    · exact (h.progress t h.lt le_rfl).succ hquiet.1
    · exact h.progress c hc (Nat.le_of_lt_succ hle)

/-- A trigger in a ready circuit begins a measurement. -/
theorem since_of_trigger (h : Ready (measureAt distanceCount inp t).1)
    (haccess : (inp t).access = true)
    (hnext : (measureAt distanceCount inp t).2.next = .triggerSensor) :
    Since distanceCount inp t (t + 1) := by
  obtain ⟨-, hstart, hout⟩ := cycle_access distanceCount haccess
  have hmachine := (machine_succ _ _ t).trans (stepMachine_idle h.state h.edge)
  refine ⟨Nat.lt_succ_self t, haccess, ?_, h.triggerOut, fun c hc hc' => by omega,
    fun c hc hc' => ?_⟩
  · rw [hout, hnext]
    rfl
  · obtain rfl : c = t + 1 := by omega
    rw [hnext] at hstart
    refine .started rfl hstart ((trig0_succ t).trans h.start) ?_ ?_
    all_goals rw [hmachine]

/-- What the driver reads in its two reads. -/
theorem readAt_getSensorState (h : (measureAt distanceCount inp t).2.next = .getSensorState) :
    readAt distanceCount inp t = (measureAt distanceCount inp t).1.machine.stateReg := by
  rw [readAt, Driver.bus, h]
  rfl

theorem readAt_getSensorData (h : (measureAt distanceCount inp t).2.next = .getSensorData) :
    readAt distanceCount inp t = (measureAt distanceCount inp t).1.machine.distanceCount := by
  rw [readAt, Driver.bus, h]
  rfl

/-- A cycle without an access. -/
theorem ChainInv.succ_quiet (h : ChainInv distanceCount inp t) (haccess : (inp t).access = false) :
    ChainInv distanceCount inp (t + 1) := by
  obtain ⟨hdriver', hstart', hout⟩ := cycle_quiet distanceCount haccess
  cases h with
  | ready h hdriver =>
    refine .ready (h.succ (hstart'.trans h.start)) ?_
    rw [hdriver']
    exact hdriver
  | measuring b h hstart hdriver =>
    have hquiet : (cycleAt distanceCount inp t).triggered = false ∧
        (cycleAt distanceCount inp t).stored = none := by
      rw [hout]
      exact ⟨rfl, rfl⟩
    refine .measuring b (h.succ hquiet) ?_ ?_
    · rw [hdriver', hstart']
      exact hstart
    · rw [hdriver']
      exact hdriver.imp_right fun hdata => ⟨hdata.1, hdata.2.1, hdata.2.2.succ hquiet.1⟩

/-- An access before the trigger. -/
theorem ChainInv.succ_ready (haccess : (inp t).access = true)
    (h : Ready (measureAt distanceCount inp t).1)
    (hdriver : (measureAt distanceCount inp t).2.next = .getSensorState ∧
        (measureAt distanceCount inp t).2.usState = 0 ∨
      ((measureAt distanceCount inp t).2.next = .triggerClear ∨
        (measureAt distanceCount inp t).2.next = .triggerSensor) ∧
        (measureAt distanceCount inp t).2.usState = 1) :
    ChainInv distanceCount inp (t + 1) := by
  obtain ⟨hdriver', hstart', -⟩ := cycle_access distanceCount haccess
  rcases hdriver with ⟨hnext, husState⟩ | ⟨hnext | hnext, husState⟩
  · -- the circuit is idle, so the driver goes on
    have hread := (readAt_getSensorState hnext).trans h.stateReg
    rw [hnext] at hstart'
    refine .ready (h.succ (hstart'.trans h.start)) (Or.inr ?_)
    rw [hdriver', Driver.access, hnext, husState, hread]
    exact ⟨Or.inl rfl, rfl⟩
  · rw [hnext] at hstart'
    refine .ready (h.succ hstart') (Or.inr ?_)
    rw [hdriver', Driver.access, hnext]
    exact ⟨Or.inr rfl, husState⟩
  · refine .measuring t (since_of_trigger h haccess hnext) (fun hne => absurd ?_ hne) (Or.inl ?_)
    · rw [hdriver', Driver.access, hnext]
    · rw [hdriver', Driver.access, hnext]
      exact ⟨Or.inl rfl, husState⟩

/-- The second clearing of the start bit. -/
theorem ChainInv.succ_triggerClearAgain (haccess : (inp t).access = true)
    (h : Since distanceCount inp b t)
    (hnext : (measureAt distanceCount inp t).2.next = .triggerClearAgain)
    (husState : (measureAt distanceCount inp t).2.usState = 1) :
    ChainInv distanceCount inp (t + 1) := by
  obtain ⟨hdriver', hstart', hout⟩ := cycle_access distanceCount haccess
  have hquiet : (cycleAt distanceCount inp t).triggered = false ∧
      (cycleAt distanceCount inp t).stored = none := by
    rw [hout, Driver.access, hnext]
    exact ⟨rfl, rfl⟩
  rw [hnext] at hstart'
  refine .measuring b (h.succ hquiet) (fun _ => hstart') (Or.inl ?_)
  rw [hdriver', Driver.access, hnext]
  exact ⟨Or.inr rfl, husState⟩

/-- A read of the status after the trigger. -/
theorem ChainInv.succ_getSensorState (hspaced : Spaced distanceCount inp)
    (haccess : (inp t).access = true) (h : Since distanceCount inp b t)
    (hstart : (measureAt distanceCount inp t).1.startBit = false)
    (hnext : (measureAt distanceCount inp t).2.next = .getSensorState)
    (husState : (measureAt distanceCount inp t).2.usState = 1) :
    ChainInv distanceCount inp (t + 1) := by
  obtain ⟨hdriver', hstart', hout⟩ := cycle_access distanceCount haccess
  rw [hnext] at hstart'
  by_cases hready : readAt distanceCount inp t = 2
  · have hquiet : (cycleAt distanceCount inp t).triggered = false ∧
        (cycleAt distanceCount inp t).stored = none := by
      rw [hout, Driver.access, hnext, husState, hready]
      exact ⟨rfl, rfl⟩
    -- eight cycles after the trigger, the status is not that of before
    have hgap := hspaced t haccess hnext b h.lt h.access
    have hfinished := (h.progress t h.lt le_rfl).finished_of_stateReg (by omega)
      ((readAt_getSensorState hnext).symm.trans hready)
    refine .measuring b (h.succ hquiet) (fun _ => hstart'.trans hstart) (Or.inr ?_)
    rw [hdriver', Driver.access, hnext, husState, hready]
    exact ⟨rfl, rfl, hfinished.succ hquiet.1⟩
  · have hsame : (measureAt distanceCount inp t).2.access (readAt distanceCount inp t) =
        ((measureAt distanceCount inp t).2, none) := by
      rw [Driver.access, hnext, husState]
      exact if_neg hready
    have hquiet : (cycleAt distanceCount inp t).triggered = false ∧
        (cycleAt distanceCount inp t).stored = none := by
      rw [hout, hsame, hnext]
      exact ⟨rfl, rfl⟩
    refine .measuring b (h.succ hquiet) (fun _ => hstart'.trans hstart) (Or.inl ?_)
    rw [hdriver', hsame]
    exact ⟨Or.inr hnext, husState⟩

/-- The read of the distance, which is stored. -/
theorem ChainInv.succ_getSensorData (haccess : (inp t).access = true)
    (hstart : (measureAt distanceCount inp t).1.startBit = false)
    (hnext : (measureAt distanceCount inp t).2.next = .getSensorData)
    (husState : (measureAt distanceCount inp t).2.usState = 0)
    (hfinished : Finished (echo distanceCount inp) b t (measureAt distanceCount inp t).1) :
    ChainInv distanceCount inp (t + 1) := by
  obtain ⟨hdriver', hstart', -⟩ := cycle_access distanceCount haccess
  have hready : Ready (measureAt distanceCount inp t).1 :=
    ⟨hstart, hfinished.calm.2, hfinished.state, hfinished.stateReg, hfinished.triggerOut⟩
  rw [hnext] at hstart'
  refine .ready (hready.succ (hstart'.trans hstart)) (Or.inl ?_)
  rw [hdriver', Driver.access, hnext]
  exact ⟨rfl, husState⟩

/-- **The invariant of every run** whose polls are far enough apart. -/
theorem chainInv (h : Spaced distanceCount inp) (t : ℕ) : ChainInv distanceCount inp t := by
  induction t with
  | zero =>
    have hclear : bit 0 0 = false := by decide
    exact .ready ⟨hclear, fun h0 => h0, rfl, rfl, rfl⟩ (Or.inl ⟨rfl, rfl⟩)
  | succ t ih =>
    cases haccess : (inp t).access with
    | false => exact ih.succ_quiet haccess
    | true =>
      cases ih with
      | ready hready hdriver => exact .succ_ready haccess hready hdriver
      | measuring b hsince hstart hdriver =>
        rcases hdriver with ⟨hnext | hnext, husState⟩ | ⟨hnext, husState, hfinished⟩
        · exact .succ_triggerClearAgain haccess hsince hnext husState
        · have hclear := hstart (by rw [hnext]; exact RegisterAccess.noConfusion)
          exact .succ_getSensorState h haccess hsince hclear hnext husState
        · have hclear := hstart (by rw [hnext]; exact RegisterAccess.noConfusion)
          exact .succ_getSensorData haccess hclear hnext husState hfinished

/-! ### What is stored -/

/-- The distance behind a count. -/
theorem exactDistance_of_counted {w : ℕ → Bool} {u : ℕ} {count : UInt32} (h : Counted w u t count) :
    (exactDistance count.toInt32 = -1 ↔ HighFor w u (timeoutCount + 1)) ∧
      ((∃ k ≤ timeoutCount, PulseOf w u k ∧ u + k ≤ t ∧
          exactDistance count.toInt32 = k * (0.0000034 : ℚ) / 2) ∨
        HighFor w u (timeoutCount + 1) ∧ u + timeoutCount ≤ t ∧
          exactDistance count.toInt32 = -1) := by
  rcases h with ⟨k, hk, hpulse, ht, hcount⟩ | ⟨hhigh, ht, rfl⟩
  · have hsmall : count.toNat < 2 ^ 31 := hcount ▸ hk.trans_lt (by decide)
    have hint : count.toInt32.toInt = k := by
      rw [← hcount]
      exact BitVec.toInt_eq_toNat_of_lt (by simpa using by omega)
    have hne : count.toInt32 ≠ -1 := by
      intro heq
      rw [heq] at hint
      have hneg : (-1 : Int32).toInt = -1 := rfl
      omega
    have hvalue : exactDistance count.toInt32 = k * (0.0000034 : ℚ) / 2 := by
      rw [exactDistance, if_neg hne, hint]
      norm_num
    have hne : exactDistance count.toInt32 ≠ -1 := by
      rw [hvalue]
      have hpos : (0 : ℚ) ≤ k := k.cast_nonneg
      intro heq
      linarith
    refine ⟨iff_of_false hne fun hhigh => ?_, Or.inl ⟨k, hk, hpulse, ht, hvalue⟩⟩
    exact Bool.false_ne_true (hpulse.2.symm.trans (hhigh k (Nat.lt_succ_of_le hk)))
  · have hvalue : exactDistance (-1 : UInt32).toInt32 = -1 := by decide +kernel
    exact ⟨iff_of_true hvalue hhigh, Or.inr ⟨hhigh, ht, hvalue⟩⟩

/-- The trigger pulse of a measurement. -/
theorem Since.triggerPulse (h : Since distanceCount inp b t) (ht : b + 1028 ≤ t) :
    FirstRise (triggerOut distanceCount inp) b (b + 4) ∧
      PulseOf (triggerOut distanceCount inp) (b + 4) 1024 := by
  have hout : ∀ c, b < c → c ≤ b + 1028 →
      triggerOut distanceCount inp c = decide (b + 4 ≤ c ∧ c < b + 1028) :=
    fun c hc hc' => (h.progress c hc (hc'.trans ht)).triggerOut_eq hc'
  have hhigh : ∀ c, b + 4 ≤ c → c < b + 1028 → triggerOut distanceCount inp c = true := by
    intro c hc hc'
    rw [hout c (by omega) hc'.le]
    exact decide_eq_true ⟨hc, hc'⟩
  refine ⟨⟨by omega, ⟨by omega, ?_, hhigh _ le_rfl (by omega)⟩, fun v hv hv' hrise => ?_⟩,
    fun i hi => hhigh _ (by omega) (by omega), ?_⟩
  · rw [hout _ (by omega) (by omega)]
    exact decide_eq_false (by omega)
  · have hlow := (hout v hv (by omega)).trans (decide_eq_false (by omega))
    exact Bool.false_ne_true (hlow.symm.trans hrise.2.2)
  · rw [hout _ (by omega) (by omega)]
    exact decide_eq_false (by omega)

/-- A read of the status stores nothing. -/
theorem access_getSensorState {d : Driver} (h : d.next = .getSensorState) (readdata : UInt32) :
    (d.access readdata).2 = none := by
  rw [Driver.access, h]
  dsimp only
  split
  · split_ifs <;> rfl
  · split_ifs <;> rfl
  · rfl

theorem next_of_triggered (h : (cycleAt distanceCount inp t).triggered = true) :
    (measureAt distanceCount inp t).2.next = .triggerSensor := by
  cases haccess : (inp t).access with
  | false =>
    rw [(cycle_quiet distanceCount haccess).2.2] at h
    exact absurd h Bool.false_ne_true
  | true =>
    rw [(cycle_access distanceCount haccess).2.2] at h
    exact of_decide_eq_true h

/-- Only a read of the count stores a distance. -/
theorem stored_eq {v : ℚ} (h : (cycleAt distanceCount inp t).stored = some v) :
    (measureAt distanceCount inp t).2.next = .getSensorData ∧
      v = exactDistance (measureAt distanceCount inp t).1.machine.distanceCount.toInt32 := by
  cases haccess : (inp t).access with
  | false =>
    rw [(cycle_quiet distanceCount haccess).2.2] at h
    exact absurd h (by simp)
  | true =>
    rw [(cycle_access distanceCount haccess).2.2] at h
    cases hnext : (measureAt distanceCount inp t).2.next with
    | getSensorData =>
      rw [← readAt_getSensorData hnext]
      rw [Driver.access, hnext] at h
      exact ⟨rfl, (Option.some.inj h).symm⟩
    | getSensorState =>
      rw [access_getSensorState hnext] at h
      exact absurd h (by simp)
    | triggerClear =>
      rw [Driver.access, hnext] at h
      exact absurd h (by simp)
    | triggerSensor =>
      rw [Driver.access, hnext] at h
      exact absurd h (by simp)
    | triggerClearAgain =>
      rw [Driver.access, hnext] at h
      exact absurd h (by simp)

/-- A distance is stored at the end of a measurement only. -/
theorem ChainInv.measurement {v : ℚ} (h : ChainInv distanceCount inp t)
    (hstored : (cycleAt distanceCount inp t).stored = some v) :
    ∃ b, Measurement distanceCount inp b t v := by
  obtain ⟨hnext, rfl⟩ := stored_eq hstored
  cases h with
  | ready h hdriver =>
    rw [hnext] at hdriver
    simp at hdriver
  | measuring b h hstart hdriver =>
    rw [hnext] at hdriver
    obtain ⟨-, -, hfinished⟩ := hdriver.resolve_left (by simp)
    obtain ⟨u, hrise, hcounted⟩ := hfinished.counted
    have hu := hrise.1
    obtain ⟨hfirst, hpulse⟩ := h.triggerPulse (hu.le.trans hcounted.le)
    exact ⟨b, h.lt, h.triggered, h.alone, b + 4, 1024, u, hfirst, hpulse, hrise,
      exactDistance_of_counted hcounted⟩

/-- **The measuring chain.** In every run from reset whose polls are far enough apart, every
distance is stored by a measurement, and between two of them a trigger is issued. -/
theorem measuring (distanceCount : UInt32) (inp : ℕ → ClockInput) (h : Spaced distanceCount inp) :
    (∀ d v, (cycleAt distanceCount inp d).stored = some v →
      ∃ b, Measurement distanceCount inp b d v) ∧
    ∀ d d', d < d' → (cycleAt distanceCount inp d).stored ≠ none →
      (cycleAt distanceCount inp d').stored ≠ none →
        ∃ b, d < b ∧ b < d' ∧ (cycleAt distanceCount inp b).triggered = true := by
  refine ⟨fun d v => (chainInv h d).measurement, fun d d' hlt hd hd' => ?_⟩
  obtain ⟨v, hv⟩ := Option.ne_none_iff_exists'.mp hd'
  obtain ⟨b, hb⟩ := (chainInv h d').measurement hv
  refine ⟨b, ?_, hb.lt, hb.triggered⟩
  -- no distance is stored between the trigger and the second one, nor with the trigger
  rcases Nat.lt_trichotomy b d with hbd | rfl | hdb
  · exact absurd (hb.alone d hbd hlt).2 hd
  · obtain ⟨v', hv'⟩ := Option.ne_none_iff_exists'.mp hd
    have hboth := (stored_eq hv').1.symm.trans (next_of_triggered hb.triggered)
    exact RegisterAccess.noConfusion hboth
  · exact hdb

/-- A poll at reset, an echo of five samples after the trigger pulse, and a poll after it. -/
def shortEcho (t : ℕ) : ClockInput where
  access := decide (t < 4 ∨ t = 1050 ∨ t = 1051)
  feedbackIn := decide (1035 ≤ t ∧ t < 1040)

theorem measuring_shortEcho : Spaced 0 shortEcho ∧
    ∃ b, Measurement 0 shortEcho b 1051 (5 * (0.0000034 : ℚ) / 2) := by
  have hspaced : Spaced 0 shortEcho := by
    intro t haccess hnext s hlt hs
    have ht : t < 4 ∨ t = 1050 ∨ t = 1051 := of_decide_eq_true haccess
    have hs' : s < 4 ∨ s = 1050 ∨ s = 1051 := of_decide_eq_true hs
    have hlast : (measureAt 0 shortEcho 1051).2.next ≠ .getSensorState := by decide +kernel
    have hfirst : ∀ t < 4, 0 < t → (measureAt 0 shortEcho t).2.next ≠ .getSensorState := by
      decide +kernel
    obtain hlow | rfl | rfl := ht
    · exact absurd hnext (hfirst t hlow (by omega))
    · omega
    · exact absurd hnext hlast
  have hstored : (cycleAt 0 shortEcho 1051).stored = some (5 * (0.0000034 : ℚ) / 2) := by
    decide +kernel
  exact ⟨hspaced, (measuring 0 shortEcho hspaced).1 1051 _ hstored⟩

end LegoCar
