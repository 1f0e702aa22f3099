import Mathlib
import LegoCar.Lib.Driven
import LegoCar.Lib.WhileLoop
import LegoCar.Board.MainLoop

/-!
# The acceleration sensor

The driver of the sensor, down to the status and data registers of the SPI controller, and the
calibration at start-up. A transfer that is not done after 101 reads of the status register fails.
The calibration polls the sensor until it has read 100 samples or a read fails, and sums them up.
`verbose` says whether the diagnostics of `VERBOSE` are compiled in.
-/

namespace LegoCar

/-! ### The SPI interface -/

/-- What the controller answers during a transfer: the successive reads of its status register and
of its data register. -/
structure Transfer where
  status : ℕ → UInt8
  data : ℕ → UInt8

namespace Transfer

/-- The status after the loop that waits for the transfer, with so many reads left after this. -/
def spiStatus (status : ℕ → UInt8) : ℕ → UInt8
  | 0 => status 0
  | tries + 1 =>
    if status 0 &&& 1 = 0 then spiStatus (fun k => status (k + 1)) tries else status 0

/-- `SPI_STATUS_FLAG_DONE` is set in time. -/
def done (t : Transfer) : Bool := spiStatus t.status 100 &&& 1 ≠ 0

/-- `SPI_Write`. -/
def spiWrite (t : Transfer) : Bool := t.done

/-- `SPI_MultipleRead`. -/
def spiMultipleRead (nByteNum : ℕ) (t : Transfer) : Option (Fin nByteNum → UInt8) :=
  if t.done then some fun k => t.data k else none

/-- `SPI_Read`. -/
def spiRead (t : Transfer) : Option UInt8 := (t.spiMultipleRead 1).map fun buf => buf 0

/-! ### The sensor -/

/-- `ADXL345_SPI_Init`: five registers are written, each if the write before succeeded. -/
def adxl345SpiInit (writes : Fin 5 → Transfer) : Bool :=
  let bSuccess := (writes 0).spiWrite
  let bSuccess := if bSuccess then (writes 1).spiWrite else bSuccess
  let bSuccess := if bSuccess then (writes 2).spiWrite else bSuccess
  let bSuccess := if bSuccess then (writes 3).spiWrite else bSuccess
  if bSuccess then (writes 4).spiWrite else bSuccess

/-- `ADXL345_SPI_IsDataReady`: the interrupt source is read, and a failed read is not ready. -/
def adxl345SpiIsDataReady (t : Transfer) : Bool :=
  match t.spiRead with
  | some data8 => data8 &&& 0x80 ≠ 0
  | none => false

/-- `(high << 8) | low`. -/
def axis (high low : UInt8) : Int16 := UInt16.toInt16 (high.toUInt16 <<< 8 ||| low.toUInt16)

/-- `ADXL345_SPI_XYZ_Read`: the low and the high byte of each axis. -/
def adxl345SpiXYZRead (t : Transfer) : Option (Fin 3 → Int16) :=
  (t.spiMultipleRead 6).map fun szData8 =>
    ![axis (szData8 1) (szData8 0), axis (szData8 3) (szData8 2), axis (szData8 5) (szData8 4)]

end Transfer

open Transfer

/-- The transfers of one poll of the sensor: the interrupt source, and the sample if it is ready. -/
structure Poll where
  intSource : Transfer
  xyz : Transfer

namespace Poll

/-- The sample that a poll reads. -/
def sample (p : Poll) : Option (Fin 3 → Int16) :=
  if adxl345SpiIsDataReady p.intSource then adxl345SpiXYZRead p.xyz else none

/-- Data is ready and cannot be read. -/
def fails (p : Poll) : Bool :=
  adxl345SpiIsDataReady p.intSource && (adxl345SpiXYZRead p.xyz).isNone

end Poll

/-! ### The calibration -/

/-- The variables of the loop of `calibrate_acc`. -/
structure Calibration where
  i : ℕ
  bSuccess : Bool
  sumXYZ : Fin 3 → Int32
deriving DecidableEq

namespace Calibration

/-- The guard of the loop. -/
def guard (s : Calibration) : Bool := s.i < 100 && s.bSuccess

/-- The body of the loop. -/
def body (p : Poll) (s : Calibration) : Calibration :=
  if adxl345SpiIsDataReady p.intSource then
    match adxl345SpiXYZRead p.xyz with
    | some szXYZ =>
      { i := s.i + 1
        bSuccess := true
        sumXYZ := fun j => s.sumXYZ j + (szXYZ j).toInt32 }
    | none => { s with bSuccess := false }
  else s

/-- The offsets behind the sums of the samples; 1000 mg are subtracted on the z-axis. -/
def offsets (sumXYZ : Fin 3 → Int32) : Fin 3 → Int16 :=
  let accCali : Fin 3 → Int16 := fun j => (sumXYZ j / 25).toInt16
  Function.update accCali 2 (accCali 2 - 1000)

/-- What is done after the loop: the value returned and the offsets, which are stored only where
the diagnostics are. -/
def finish (verbose : Bool) (accCali : Fin 3 → Int16) (s : Calibration) :
    Int32 × (Fin 3 → Int16) :=
  if verbose then if !s.bSuccess then (-1, accCali) else (0, offsets s.sumXYZ)
  else if !s.bSuccess then (-1, accCali) else (0, accCali)

end Calibration

open Calibration

/-- `calibrate_acc()`, if its loop is left within `fuel` polls: the value returned and the offsets,
which were `accCali` before. -/
def calibrateAcc (verbose : Bool) (writes : Fin 5 → Transfer) (polls : ℕ → Poll)
    (accCali : Fin 3 → Int16) (fuel : ℕ) : Option (Int32 × (Fin 3 → Int16)) :=
  (WhileLoop.run guard body ⟨0, adxl345SpiInit writes, fun _ => 0⟩ polls fuel).map
    (finish verbose accCali)

/-- What `init_accel` leaves: the record of the accelerations, the offsets, the value returned. -/
structure AccelStart where
  Acc : Acc
  accCali : Fin 3 → Int16
  returned : Int32
deriving DecidableEq

/-- `init_accel(&Acc)`: the sums are cleared and the sensor is calibrated. The offsets are zero
before, as every variable at file level. -/
def initAccel (verbose : Bool) (writes : Fin 5 → Transfer) (polls : ℕ → Poll) (Acc : Acc)
    (fuel : ℕ) : Option AccelStart :=
  (calibrateAcc verbose writes polls (fun _ => 0) fuel).map fun r =>
    { Acc := { Acc with sum := fun _ => 0 }
      accCali := r.2
      returned := r.1 }

/-- The inputs of an iteration in which `handle_accel` finds the sensor as in a poll. -/
def BoardInput.withPoll (p : Poll) (inp : BoardInput) : BoardInput :=
  { inp with
    accelReady := adxl345SpiIsDataReady p.intSource
    accelXYZ := adxl345SpiXYZRead p.xyz }

end LegoCar
