import Mathlib
import LegoCar.Wire.Records

/-!
# The serial port of a board

A board talks to the host through an RS232 core with a receive and a transmit FIFO of 128
entries each and one data register: reading the register takes the oldest received byte out of
the receive FIFO, writing it appends to the transmit FIFO. Bytes arrive, and leave, at any time;
this is a `Slot` of wire activity before every access of the firmware to the core.

The driver functions are the ones `main` calls. Two of their habits matter:

* `altUpRs232WriteData` reads the data register before it writes it, so every byte written
  takes a received byte out of the receive FIFO;
* only `writeString` waits for room in the transmit FIFO. The wait is modelled by its exit: the
  slot of wire activity during the wait, after which at least one entry is free.

`heard`, `lost`, `said` and `cut` are histories, which no driver function reads.
-/

namespace LegoCar

/-- Entries of each FIFO. -/
def fifoSize : ℕ := 128

/-- Wire activity between two accesses to the core: the bytes received, oldest first, and the
number of bytes transmitted. -/
structure Slot where
  rxd : List UInt8 := []
  txd : ℕ := 0
deriving Inhabited

/-- The core: the two FIFOs, oldest byte first, and its history. -/
structure Uart where
  rx : List UInt8 := []
  tx : List UInt8 := []
  /-- every byte the wire delivered -/
  heard : List UInt8 := []
  /-- the number of deliveries that found the receive FIFO full -/
  lost : ℕ := 0
  /-- every byte written by the firmware -/
  said : List UInt8 := []
  /-- the number of writes that found the transmit FIFO full -/
  cut : ℕ := 0
deriving DecidableEq, Inhabited

namespace Uart

/-- The wire activity before an access: arriving bytes that find the FIFO full are lost. -/
def sync (sl : Slot) (u : Uart) : Uart :=
  { u with
    rx := (u.rx ++ sl.rxd).take fifoSize
    tx := u.tx.drop sl.txd
    heard := u.heard ++ sl.rxd
    lost := u.lost + ((u.rx ++ sl.rxd).length - fifoSize) }

/-- Read the data register: the oldest received byte, which leaves the FIFO. The register reads
as zero when nothing was received. -/
def iordData (u : Uart) : UInt8 × Uart := (u.rx.headD 0, { u with rx := u.rx.tail })

/-- Write the data register: the byte joins the transmit FIFO if there is room. -/
def iowrData (b : UInt8) (u : Uart) : Uart :=
  if u.tx.length < fifoSize then { u with tx := u.tx ++ [b], said := u.said ++ [b] }
  else { u with said := u.said ++ [b], cut := u.cut + 1 }

/-- `alt_up_rs232_get_used_space_in_read_FIFO`. -/
def altUpRs232GetUsedSpaceInReadFIFO (sl : Slot) (u : Uart) : ℕ × Uart :=
  ((u.sync sl).rx.length, u.sync sl)

/-- `while (alt_up_rs232_get_available_space_in_write_FIFO(dev) == 0);` at its exit. -/
def awaitSpaceInWriteFIFO (sl : Slot) (u : Uart) : Uart :=
  { u.sync sl with tx := (u.sync sl).tx.drop ((u.sync sl).tx.length - (fifoSize - 1)) }

/-- `alt_up_rs232_write_data`: the data register is read before it is written. -/
def altUpRs232WriteData (sl : Slot) (b : UInt8) (u : Uart) : Uart :=
  (u.sync sl).iordData.2.iowrData b

/-- `alt_up_rs232_read_data`. -/
def altUpRs232ReadData (sl : Slot) (u : Uart) : UInt8 × Uart := (u.sync sl).iordData

/-- `read_first`: the oldest byte of the receive FIFO. -/
def readFirst (sl : Slot) (u : Uart) : UInt8 × Uart := altUpRs232ReadData sl u

/-- A run of `read_first` calls, with the slot before each of them. -/
def readMany : ℕ → (ℕ → Slot) → Uart → List UInt8 × Uart
  | 0, _, u => ([], u)
  | k + 1, sl, u =>
    let first := readFirst (sl 0) u
    let rest := readMany k (fun j => sl (j + 1)) first.2
    (first.1 :: rest.1, rest.2)

/-- A run of `alt_up_rs232_write_data` calls, with the slot before each of them. -/
def writeMany : List UInt8 → (ℕ → Slot) → Uart → Uart
  | [], _, u => u
  | b :: bs, sl, u => writeMany bs (fun j => sl (j + 1)) (altUpRs232WriteData (sl 0) b u)

/-- `write_string`: before each byte, wait for room in the transmit FIFO. -/
def writeString : List UInt8 → (ℕ → Slot) → (ℕ → Slot) → Uart → Uart
  | [], _, _, u => u
  | b :: bs, waits, sl, u =>
    writeString bs (fun j => waits (j + 1)) (fun j => sl (j + 1))
      (altUpRs232WriteData (sl 0) b (awaitSpaceInWriteFIFO (waits 0) u))

end Uart

end LegoCar
