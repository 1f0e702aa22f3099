import Mathlib
import LegoCar.Lib.Driven
import LegoCar.Board.MainLoop
import LegoCar.Ultrasound.Interface

/-!
# The driver of the ultrasound interface

`handle_measuredis` reads the status register; then it issues a trigger, for which it writes the
control register three times, or it reads the count register and stores the distance. Here it is
taken apart into its register accesses, each of which takes one cycle of the clock, so that the
circuit runs on between them. `poll_refines` shows that the accesses of a poll are together the
function of the board's main loop.

`measureStep` is a cycle of the circuit and the driver together: the driver makes its next access
in it, or none.
-/

namespace LegoCar

open Board

/-! ### The driver -/

/-- The next register access of the driver. -/
inductive RegisterAccess where
  | getSensorState
  | triggerClear
  | triggerSensor
  | triggerClearAgain
  | getSensorData
deriving DecidableEq

/-- The variables of the driver; the distance is exact. -/
structure Driver where
  next : RegisterAccess
  usState : ℕ
  distance : ℚ

/-- The distance behind a count, without rounding. -/
def exactDistance (distance0 : Int32) : ℚ :=
  if distance0 = -1 then -1 else distance0.toInt * (34 / 10 ^ 7) / 2

/-- The board stores this distance as a `float`. -/
theorem echoDistance_eq (distance0 : Int32) :
    echoDistance distance0 = ExtRat.bitsOfRat (exactDistance distance0) := by
  unfold echoDistance exactDistance
  split_ifs <;> rfl

namespace Driver

/-- `init_measuredis`, over the distance set before. -/
def initMeasuredis : Driver := ⟨.getSensorState, 0, -1⟩

/-- What an access puts on the bus. -/
def bus (d : Driver) : Bus :=
  match d.next with
  | .getSensorState => { chipselect := true, address := ⟨2, by decide⟩, read := true }
  | .triggerClear => { chipselect := true, write := true, writedata := 0 }
  | .triggerSensor => { chipselect := true, write := true, writedata := 1 }
  | .triggerClearAgain => { chipselect := true, write := true, writedata := 0 }
  | .getSensorData => { chipselect := true, address := ⟨1, by decide⟩, read := true }

/-- An access of `handle_measuredis` with what was read, and the distance it stores. -/
def access (readdata : UInt32) (d : Driver) : Driver × Option ℚ :=
  match d.next with
  | .getSensorState =>
    match d.usState with
    | 0 =>
      if readdata ≠ 1 then ({ d with usState := 1, next := .triggerClear }, none) else (d, none)
    | 1 =>
      if readdata = 2 then ({ d with usState := 0, next := .getSensorData }, none) else (d, none)
    | _ => (d, none)
  | .triggerClear => ({ d with next := .triggerSensor }, none)
  | .triggerSensor => ({ d with next := .triggerClearAgain }, none)
  | .triggerClearAgain => ({ d with next := .getSensorState }, none)
  | .getSensorData =>
    let distance := exactDistance readdata.toInt32
    ({ d with distance := distance, next := .getSensorState }, some distance)

/-- The accesses of a poll that reads this status and this count. -/
def poll (sensorState sensorData : UInt32) (d : Driver) : Driver :=
  let d := (d.access sensorState).1
  match d.next with
  | .getSensorState => d
  | .getSensorData => (d.access sensorData).1
  | _ => ((((d.access 0).1.access 0).1).access 0).1

/-- The driver and the variables of the board agree. -/
def Agrees (d : Driver) (b : Board) : Prop :=
  d.next = .getSensorState ∧ d.usState = b.usState ∧
    b.outdat.distance = ExtRat.bitsOfRat d.distance

/-- **The accesses of a poll** are together `handle_measuredis`. -/
theorem poll_refines {d : Driver} {b : Board} (h : d.Agrees b) (sensorState sensorData : UInt32) :
    (d.poll sensorState sensorData).Agrees (b.handleMeasuredis sensorState sensorData) := by
  obtain ⟨next, usState, distance⟩ := d
  obtain ⟨rfl, rfl, hdistance⟩ := h
  unfold handleMeasuredis poll access
  generalize hstate : b.usState = state
  match state with
  | 0 =>
    by_cases hbusy : sensorState ≠ 1
    · simp only [if_pos hbusy]
      exact ⟨rfl, rfl, hdistance⟩
    · simp only [if_neg hbusy]
      exact ⟨rfl, hstate.symm, hdistance⟩
  | 1 =>
    by_cases hdone : sensorState = 2
    · simp only [if_pos hdone]
      exact ⟨rfl, rfl, echoDistance_eq _⟩
    · simp only [if_neg hdone]
      exact ⟨rfl, hstate.symm, hdistance⟩
  | n + 2 => exact ⟨rfl, hstate.symm, hdistance⟩

end Driver

/-! ### The clock -/

/-- What happens in a cycle: whether the driver makes its next access, and the echo. -/
structure ClockInput where
  access : Bool
  feedbackIn : Bool

/-- What is seen of the driver in a cycle: whether it issues a trigger, and the distance it
stores. -/
structure CycleOutput where
  triggered : Bool
  stored : Option ℚ
deriving DecidableEq

/-- A cycle of the circuit and the driver. What is read are the values before the edge of the
clock. -/
def measureStep (inp : ClockInput) (s : Interface × Driver) :
    (Interface × Driver) × CycleOutput :=
  if inp.access then
    let r := s.2.access (s.1.readdata s.2.bus.address)
    ((s.1.clock s.2.bus inp.feedbackIn, r.1), ⟨decide (s.2.next = .triggerSensor), r.2⟩)
  else ((s.1.clock {} inp.feedbackIn, s.2), ⟨false, none⟩)

/-- The state before cycle `n` of a run from reset. -/
abbrev measureAt (distanceCount : UInt32) (inp : ℕ → ClockInput) (n : ℕ) : Interface × Driver :=
  Driven.stateAt measureStep (.reset distanceCount, .initMeasuredis) inp n

/-- What is seen in cycle `n`. -/
abbrev cycleAt (distanceCount : UInt32) (inp : ℕ → ClockInput) (n : ℕ) : CycleOutput :=
  Driven.outAt measureStep (.reset distanceCount, .initMeasuredis) inp n

/-- The first access of a poll comes at least 8 cycles after the last one of the poll before. -/
def Spaced (distanceCount : UInt32) (inp : ℕ → ClockInput) : Prop :=
  ∀ t, (inp t).access = true → (measureAt distanceCount inp t).2.next = .getSensorState →
    ∀ s < t, (inp s).access = true → s + 8 ≤ t

end LegoCar
