import Mathlib
import LegoCar.Lib.ExtRat
import LegoCar.Board.Firmware

/-!
# The main loop of a board

The sensor stage, the whole iteration, and the state in which `main` enters the loop. A run of
the firmware is a run of the driven machine `iteration` from `boot`, whose two record arguments
are the contents of the uninitialised records `indat` and `outdat`.
-/

namespace LegoCar

namespace Board

/-! ### Sensors -/

/-- The distance in metres behind an echo count; `-1` when the count is. -/
def echoDistance (distance0 : Int32) : UInt32 :=
  if distance0 = -1 then ExtRat.bitsOfRat (-1)
  else ExtRat.bitsOfRat (distance0.toInt * (34 / 10 ^ 7) / 2)

/-- `handle_measuredis`: trigger a measurement, then poll until it has finished. -/
def handleMeasuredis (sensorState sensorData : UInt32) (b : Board) : Board :=
  match b.usState with
  | 0 => if sensorState ≠ 1 then { b with usState := 1 } else b
  | 1 =>
    if sensorState = 2 then
      { b with usState := 0, outdat.distance := echoDistance sensorData.toInt32 }
    else b
  | _ => b

/-- `ACC_mg_per_digit`. -/
def accMgPerDigit : Int16 := 4

/-- `handle_accel`: when a sample can be read, store it relative to the offset and add it to the
sum of each axis. -/
def handleAccel (ready : Bool) (xyz : Option (Fin 3 → Int16)) (b : Board) : Board :=
  match ready, xyz with
  | true, some szXYZ =>
    let acc := fun j => szXYZ j * accMgPerDigit - b.accCali j
    { b with
      outdat.Acc.acc := acc
      outdat.Acc.sum := fun j => acc j + b.outdat.Acc.sum j }
  | _, _ => b

/-- The sensor stage: one sensor every tenth iteration each. -/
def handleSensors (inp : BoardInput) (b : Board) : Board :=
  if b.distCounter = 0 then b.handleMeasuredis inp.sensorState inp.sensorData
  else if b.distCounter = 5 then b.handleAccel inp.accelReady inp.accelXYZ
  else b

/-! ### The iteration -/

/-- The loop counters advance. -/
def countIteration (b : Board) : Board :=
  { b with
    displayCounter := (b.displayCounter + 1) % 100
    distCounter := (b.distCounter + 1) % 10 }

/-- The stages before the motor stage: counters, communication, battery voltage. -/
def beforeControl (inp : BoardInput) (b : Board) :
    Board × Option Indata × Option (List UInt8) :=
  let r := b.countIteration.communicate inp.uart
  (r.1.readUbat inp.adc, r.2)

end Board

open Board in
/-- One iteration of the loop of `main`. -/
def iteration (inp : BoardInput) (b : Board) : Board × BoardOutput :=
  let before := b.beforeControl inp
  let after := before.1.control inp.encoder inp.direction
  (after.1.handleSensors inp,
    { accepted := before.2.1
      reply := before.2.2
      enabled := decide (before.1.outdat.enMotorController ≠ 0)
      W := after.1.outdat.W
      X := after.1.outdat.X
      motor := after.2 })

/-- The state in which `main` enters the loop, over whatever the two records contained before.
The offsets of the acceleration sensor are those of the calibration; in the build without
diagnostics it leaves them zero. -/
def boot (indat : Indata) (outdat : Outdata) (accCali : Fin 3 → Int16 := fun _ => 0) : Board where
  uart := {}
  indat := indat
  outdat :=
    { outdat with
      ubat := 0
      I := 0
      W := 0
      P := 0
      D := 0
      FF := 0
      X := 0
      enMotorController := 0
      distance := ExtRat.bitsOfRat (-1)
      Acc.sum := fun _ => 0 }
  LED := 255
  ledPort := 255
  c := 0
  direction := 0
  enable := 2
  prevW := 0
  prevX := 0
  connectionBrokenCounter := 0
  uartTimeout := 0
  displayCounter := 1
  distCounter := 2
  connBroken := true
  setEnMotorwasoff := false
  usState := 0
  accCali := accCali

/-! ### Runs of the firmware -/

/-- The state before iteration `n` of a run. -/
abbrev boardAt (b₀ : Board) (inp : ℕ → BoardInput) (n : ℕ) : Board :=
  Driven.stateAt iteration b₀ inp n

/-- What iteration `n` of a run shows. -/
abbrev showsAt (b₀ : Board) (inp : ℕ → BoardInput) (n : ℕ) : BoardOutput :=
  Driven.outAt iteration b₀ inp n

/-- The record accepted in each iteration, if any. -/
abbrev acceptedAt (b₀ : Board) (inp : ℕ → BoardInput) (n : ℕ) : Option Indata :=
  (showsAt b₀ inp n).accepted

/-- The reply written in each iteration, if any. -/
abbrev replyAt (b₀ : Board) (inp : ℕ → BoardInput) (n : ℕ) : Option (List UInt8) :=
  (showsAt b₀ inp n).reply

/-- The inputs of a run in which the host's bytes arrive in the given chunks, one before each
iteration, the transmit FIFO is emptied in time, and the wheels do not turn. -/
def feed (chunks : List (List UInt8)) (n : ℕ) : BoardInput :=
  { uart := { atPoll := { rxd := chunks.getD n [], txd := fifoSize } } }

end LegoCar
