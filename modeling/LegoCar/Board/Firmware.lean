import Mathlib
import LegoCar.Lib.Driven
import LegoCar.Board.Uart

/-!
# The firmware of a board

One iteration of the endless loop of `main`, as a function of the state before it and of what
the hardware does during it. The stages follow the source: counters, communication with the
host, battery voltage, motor controller, distance and acceleration sensors.

`int`, `short` and `unsigned` arithmetic wraps around, as the compiled code does. The loop
counters never come near the width of their type and are natural numbers. An `alt_u8` that
only ever holds `TRUE` or `FALSE` and is not sent to the host is a `Bool`.

The firmware is a driven machine (`Driven.stateAt`, `Driven.outAt`): `stateAt iteration b inp n`
is the state before iteration `n` and `outAt iteration b inp n` says what was observable in it.
-/

namespace LegoCar

/-! ### Inputs and outputs of an iteration -/

/-- Wire activity during an iteration: before the fill level of the receive FIFO is read, before
the `k`-th `read_first`, while `write_string` waits for room for its `k`-th byte, and before the
`k`-th byte is written. -/
structure UartInput where
  atPoll : Slot := {}
  atRead : ℕ → Slot := fun _ => {}
  atWait : ℕ → Slot := fun _ => {}
  atWrite : ℕ → Slot := fun _ => {}
deriving Inhabited

/-- What the hardware supplies during an iteration: the serial port, the voltage converter, the
encoder count and direction, the ultrasound status and data registers, and the acceleration
sensor (ready or not, and the sample when the read succeeds). -/
structure BoardInput where
  uart : UartInput := {}
  adc : UInt16 := 0
  encoder : UInt32 := 0
  direction : UInt32 := 0
  sensorState : UInt32 := 0
  sensorData : UInt32 := 0
  accelReady : Bool := false
  accelXYZ : Option (Fin 3 → Int16) := none
deriving Inhabited

/-- The arguments of a `motor_setting` call. -/
structure MotorSetting where
  phase1 : UInt32
  duty1 : UInt32
  phase2 : UInt32
  duty2 : UInt32
  period : UInt32
  enable : UInt32
deriving DecidableEq

/-- What an iteration shows: the record accepted from the host and the reply to it, whether the
controller was enabled, the set value and the measured value after the motor stage, and the
`motor_setting` call. -/
structure BoardOutput where
  accepted : Option Indata
  reply : Option (List UInt8)
  enabled : Bool
  W : Int32
  X : Int32
  motor : MotorSetting
deriving DecidableEq

/-- The variables of `main`, and of the drivers it calls. -/
structure Board where
  uart : Uart
  indat : Indata
  outdat : Outdata
  LED : UInt8
  ledPort : UInt8
  c : UInt8
  direction : UInt32
  enable : UInt32
  prevW : Int32
  prevX : Int32
  connectionBrokenCounter : ℕ
  uartTimeout : ℕ
  displayCounter : ℕ
  distCounter : ℕ
  connBroken : Bool
  setEnMotorwasoff : Bool
  usState : ℕ
  accCali : Fin 3 → Int16
deriving DecidableEq

namespace Board

/-! ### Communication -/

/-- `read_first(dev, &c)`. -/
def readStart (inp : UartInput) (b : Board) : Board :=
  let r := b.uart.readFirst (inp.atRead 0)
  { b with c := r.1, uart := r.2 }

/-- The set value and the enable request are cleared. -/
def clearCommand (b : Board) : Board :=
  { b with outdat.W := 0, indat.setEnMotorController := 0 }

/-- The link comes up: the version string is sent and the timeout starts. -/
def startLink (inp : UartInput) (b : Board) : Board :=
  { b with
    connBroken := false
    uart := b.uart.writeString versionName inp.atWait inp.atWrite
    uartTimeout := 0 }

/-- The LEDs blink while there is no connection. -/
def blink (b : Board) : Board :=
  if b.displayCounter = 0 then { b with LED := ~~~b.LED, ledPort := ~~~b.LED } else b

/-- The link is down: set value and enable request are cleared, one byte is read, and an `'I'`
brings the link up. -/
def initCommunication (inp : UartInput) (i : ℕ) (b : Board) : Board :=
  let b := b.clearCommand
  if 1 ≤ i then
    let b := b.readStart inp
    if b.c = tagI then (b.startLink inp).blink else b.blink
  else b.blink

/-- Count the iterations since the last record; the link is declared down at 50. -/
def countTimeout (b : Board) : Board :=
  let b := { b with
    uartTimeout := b.uartTimeout + 1
    outdat.network_timeout := UInt32.ofNat (b.uartTimeout + 1) }
  if 50 ≤ b.uartTimeout then { b with connBroken := true, uartTimeout := 0 } else b

/-- Send `'R'` and the record, and clear the acceleration sums. -/
def sendOutdat (inp : UartInput) (b : Board) : Board :=
  { b with
    uart := b.uart.writeMany (tagR :: b.outdat.serial) inp.atWrite
    outdat.Acc.sum := fun _ => 0 }

/-- Receive a record after its `'S'`: the eight bytes, the set value, the LEDs. -/
def receiveIndat (inp : UartInput) (b : Board) : Board :=
  let r := b.uart.readMany 8 (fun k => inp.atRead (k + 1))
  let indat := Indata.ofSerial r.1
  { b with
    uart := r.2
    uartTimeout := 0
    indat := indat
    outdat.W := indat.W
    ledPort := indat.led }

/-- The link is up: count the timeout; when a whole packet may be waiting, read one byte, and
after an `'S'` receive the record and answer it. -/
def exchange (inp : UartInput) (i : ℕ) (b : Board) :
    Board × Option Indata × Option (List UInt8) :=
  let b := b.countTimeout
  if 9 ≤ i then
    let b := b.readStart inp
    if b.c = tagS then
      let b := b.receiveIndat inp
      (b.sendOutdat inp, some b.indat, some (tagR :: b.outdat.serial))
    else (b, none, none)
  else (b, none, none)

/-- The length of the incoming message. -/
def pollLength (inp : UartInput) (b : Board) : ℕ × Board :=
  let r := b.uart.altUpRs232GetUsedSpaceInReadFIFO inp.atPoll
  (r.1, { b with uart := r.2 })

/-- The communication stage. -/
def communicate (inp : UartInput) (b : Board) : Board × Option Indata × Option (List UInt8) :=
  let r := b.pollLength inp
  if r.2.connBroken then (r.2.initCommunication inp r.1, none, none) else r.2.exchange inp r.1

/-! ### Battery voltage -/

/-- Every hundredth iteration the battery voltage is read. -/
def readUbat (adc : UInt16) (b : Board) : Board :=
  if b.displayCounter = 0 then
    { b with outdat.ubat := UInt16.ofNat (adc.toNat * 1250 / 2630) }
  else b

/-! ### Motor controller -/

def iParameter : Int32 := 50
def pParameter : Int32 := 30
def ffParameter : Int32 := 0
def dParameter : Int32 := 1

/-- The measured value: twice the encoder count, negative for direction 2. -/
def xTemp (encoder direction : UInt32) : Int32 :=
  if direction = 2 then (encoder * 2).toInt32 * -1 else (encoder * 2).toInt32

/-- `motor_setting(phase1, duty, phase2, duty, period, enable)`. -/
def motorSetting (duty : UInt32) (b : Board) : MotorSetting where
  phase1 := 0
  duty1 := duty
  phase2 := 0
  duty2 := duty
  period := 100000
  enable := b.enable

/-- The controller proper: read the encoder and form the three parts and the feed forward. -/
def pid (encoder direction : UInt32) (b : Board) : Board :=
  let b := { b with
    prevX := b.outdat.X
    direction := direction
    outdat.X := xTemp encoder direction }
  let diff := b.outdat.W - b.outdat.X
  { b with
    outdat.P := diff * pParameter
    outdat.I := b.outdat.I + diff * iParameter
    outdat.FF := b.outdat.W * ffParameter
    outdat.D := (diff - (b.prevW - b.prevX)) * dParameter
    prevW := b.outdat.W }

/-- The sum of all controller parts. -/
def controllerSum (b : Board) : Int32 :=
  b.outdat.P + b.outdat.I + b.outdat.D + b.outdat.FF

/-- The dead band below 10000 and the limit at 99000. -/
def limitDuty (d : Int32) : Int32 :=
  let d := if d ≤ 10000 then 0 else d
  if 99000 ≤ d then 99000 else d

/-- The stall check: more than 100 times maximal duty and no rotation disables the controller. -/
def stallCheck (duty : Int32) (b : Board) : Board :=
  if b.indat.enConnBrokenCtr ≠ 0 then
    let b : Board :=
      if 99000 ≤ duty ∧ b.outdat.X = 0 then
        { b with connectionBrokenCounter := b.connectionBrokenCounter + 1 }
      else { b with connectionBrokenCounter := 0 }
    if 100 < b.connectionBrokenCounter then
      { b with
        outdat.connBroken := 1
        outdat.enMotorController := 0
        connectionBrokenCounter := 0 }
    else b
  else b

/-- The direction of the motor is the sign of the controller sum. -/
def getDirection (sum : Int32) (b : Board) : Board :=
  { b with enable := if sum < 0 then 2 else 1 }

/-- The duty in the reply record. -/
def setDuty (duty : Int32) (b : Board) : Board := { b with outdat.duty := duty.toUInt32 }

/-- The enabled controller. -/
def controlEnabled (encoder direction : UInt32) (b : Board) : Board × MotorSetting :=
  let b := b.pid encoder direction
  let sum := b.controllerSum
  let duty := limitDuty sum.abs
  let b := ((b.getDirection sum).stallCheck duty).setDuty duty
  (b, b.motorSetting b.outdat.duty)

/-- The disabled controller: the motor is off, and the enable request has to be reset and then
set again. -/
def controlDisabled (encoder direction : UInt32) (b : Board) : Board × MotorSetting :=
  let b := if b.indat.setEnMotorController = 0 then { b with setEnMotorwasoff := true } else b
  let m := b.motorSetting 0
  let b := { b with
    outdat.I := 0
    outdat.duty := 0
    direction := direction
    outdat.X := xTemp encoder direction }
  if b.indat.setEnMotorController ≠ 0 ∧ b.setEnMotorwasoff then
    ({ b with outdat.enMotorController := 1, setEnMotorwasoff := false }, m)
  else (b, m)

/-- The motor stage. -/
def control (encoder direction : UInt32) (b : Board) : Board × MotorSetting :=
  if b.outdat.enMotorController ≠ 0 then b.controlEnabled encoder direction
  else b.controlDisabled encoder direction

end Board

end LegoCar
