import Mathlib

/-!
# The ultrasound interface

The circuit that measures distances: two registers that detect the edge of the start bit, two that
synchronise the echo, a state machine that sends a trigger pulse and counts for how long the echo
is high, and a bus interface with a control, a count and a status register.

`Interface.clock` is one cycle of the clock: every register takes its new value from the values
before. The four states are the only values of the source's four-bit `state` that a circuit
reaches from reset.
-/

namespace LegoCar

/-- The states of the measurement. -/
inductive MeasureState where
  | idle
  | trigger
  | waitFeedback
  | measureFeedback
deriving DecidableEq

/-- The registers of the state machine. -/
structure StateMachine where
  state : MeasureState
  triCount : UInt32
  triggerOut : Bool
  stateReg : UInt32
  distanceCount : UInt32
deriving DecidableEq

/-- The registers of the circuit. -/
structure Interface where
  controlReg : UInt32
  trig0 : Bool
  trig1 : Bool
  feedbackIn1 : Bool
  feedbackIn2 : Bool
  machine : StateMachine
deriving DecidableEq

/-- The bus in a cycle. -/
structure Bus where
  chipselect : Bool := false
  address : Fin 4 := ⟨0, by decide⟩
  write : Bool := false
  writedata : UInt32 := 0
  read : Bool := false
  byteenable : Fin 4 → Bool := fun _ => true

/-- Bit `i` of a register. -/
def bit (x : UInt32) (i : ℕ) : Bool := x.toNat.testBit i

namespace StateMachine

/-- The edge of the start bit is seen while nothing is measured. -/
def stepIdle (trig0 trig1 : Bool) (m : StateMachine) : StateMachine :=
  { m with
    triCount := 0
    triggerOut := false
    stateReg := 2
    state := if trig0 = true ∧ trig1 = false then .trigger else .idle }

/-- The trigger pulse ends when bit 10 of the count is set. -/
def stepTrigger (m : StateMachine) : StateMachine :=
  if bit m.triCount 10 then
    { m with stateReg := 1, triggerOut := false, triCount := 0, state := .waitFeedback }
  else { m with stateReg := 1, triggerOut := true, triCount := m.triCount + 1 }

/-- The edge of the echo is seen. -/
def stepWait (feedbackIn1 feedbackIn2 : Bool) (m : StateMachine) : StateMachine :=
  if feedbackIn1 = true ∧ feedbackIn2 = false then
    { m with
      stateReg := 1
      triggerOut := false
      triCount := m.triCount + 1
      state := .measureFeedback }
  else { m with stateReg := 1, triggerOut := false, triCount := 0 }

/-- The echo is counted until it ends, or until bits 17 to 19 of the count are set. -/
def stepMeasure (feedbackIn1 : Bool) (m : StateMachine) : StateMachine :=
  if feedbackIn1 then
    if bit m.triCount 19 ∧ bit m.triCount 18 ∧ bit m.triCount 17 then
      { m with
        triggerOut := false
        distanceCount := -1
        triCount := 0
        state := .idle
        stateReg := 2 }
    else { m with triggerOut := false, triCount := m.triCount + 1, stateReg := 1 }
  else
    { m with
      triggerOut := false
      distanceCount := m.triCount
      triCount := 0
      state := .idle
      stateReg := 2 }

end StateMachine

namespace Interface

/-- The registers after a reset, which leaves the count register as it is. -/
def reset (distanceCount : UInt32) : Interface where
  controlReg := 0
  trig0 := false
  trig1 := false
  feedbackIn1 := false
  feedbackIn2 := false
  machine := ⟨.idle, 0, false, 2, distanceCount⟩

/-- `start_bit`. -/
def startBit (s : Interface) : Bool := bit s.controlReg 0

/-- The bits a write changes. -/
def writeMask (byteenable : Fin 4 → Bool) : UInt32 :=
  (if byteenable 0 then 0x000000FF else 0) ||| (if byteenable 1 then 0x0000FF00 else 0) |||
    (if byteenable 2 then 0x00FF0000 else 0) ||| (if byteenable 3 then 0xFF000000 else 0)

/-- A write to the control register. -/
def writeControl (bus : Bus) (controlReg : UInt32) : UInt32 :=
  if bus.write ∧ bus.chipselect ∧ bus.address.val = 0 then
    (controlReg &&& ~~~writeMask bus.byteenable) ||| (bus.writedata &&& writeMask bus.byteenable)
  else controlReg

/-- `readdata`, while `read` and `chipselect` are set. -/
def readdata (s : Interface) (address : Fin 4) : UInt32 :=
  match address.val with
  | 0 => s.controlReg
  | 1 => s.machine.distanceCount
  | _ => s.machine.stateReg

/-- The state machine in a cycle. -/
def stepMachine (s : Interface) : StateMachine :=
  match s.machine.state with
  | .idle => s.machine.stepIdle s.trig0 s.trig1
  | .trigger => s.machine.stepTrigger
  | .waitFeedback => s.machine.stepWait s.feedbackIn1 s.feedbackIn2
  | .measureFeedback => s.machine.stepMeasure s.feedbackIn1

/-- A cycle of the clock. -/
def clock (bus : Bus) (feedbackIn : Bool) (s : Interface) : Interface where
  controlReg := writeControl bus s.controlReg
  trig0 := s.startBit
  trig1 := s.trig0
  feedbackIn1 := feedbackIn
  feedbackIn2 := s.feedbackIn1
  machine := s.stepMachine

/-! ### The counts -/

/-- Below `2 ^ 11`, bit 10 marks the numbers from 1024 on. -/
theorem bit_ten {x : UInt32} (h : x.toNat ≤ 1024) : bit x 10 = true ↔ x.toNat = 1024 := by
  rw [bit, Nat.testBit_eq_decide_div_mod_eq, decide_eq_true_iff]
  omega

/-- Up to `0xE0000`, bits 17 to 19 are all set in this number only. -/
theorem bits_of_timeout {x : UInt32} (h : x.toNat ≤ 0xE0000) :
    (bit x 19 ∧ bit x 18 ∧ bit x 17) ↔ x.toNat = 0xE0000 := by
  simp only [bit, Nat.testBit_eq_decide_div_mod_eq, decide_eq_true_iff]
  omega

theorem toNat_succ {x : UInt32} (h : x.toNat < 2 ^ 20) : (x + 1).toNat = x.toNat + 1 := by
  rw [UInt32.toNat_add]
  exact Nat.mod_eq_of_lt (by simp; omega)

end Interface

end LegoCar
