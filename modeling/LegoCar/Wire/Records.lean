import Mathlib
import LegoCar.Lib.LittleEndian

/-!
# The records on the wire

The car server and the four boards exchange two records, declared once on each side as a union
of a struct and a byte view: `Indata` (8 bytes, server to board, sent after an `'S'`) and
`Outdata` (52 bytes, board to server, sent after an `'R'`). Both compilers are little-endian
and align naturally, and neither struct has padding, so the byte view is the concatenation of
the fields. `serial` is the byte view of a record and `ofSerial` the record behind a byte view.

The byte view is as long as the struct; the arrays declared for it in the source are 8 and 48
bytes. The `float` field is kept as its four bytes, a `UInt32`.
-/

namespace LegoCar

open LittleEndian

/-- Numerals denote the four boards. -/
instance neZero_boards : NeZero 4 := ⟨by decide⟩

/-- Numerals denote the three axes. -/
instance neZero_axes : NeZero 3 := ⟨by decide⟩

/-! ### Control bytes and the version line -/

/-- `'I'`, sent by the server to open a connection. -/
def tagI : UInt8 := 0x49

/-- `'S'`, the first byte of a frame from the server. -/
def tagS : UInt8 := 0x53

/-- `'R'`, the first byte of a reply from a board. -/
def tagR : UInt8 := 0x52

/-- `"Nano Board Version 1.0\n"`, the answer of a board to an `'I'`. -/
def versionName : List UInt8 :=
  [78, 97, 110, 111, 32, 66, 111, 97, 114, 100, 32, 86, 101, 114, 115, 105, 111, 110, 32,
    49, 46, 48, 10]

/-! ### Server to board -/

/-- What a board gets from the server. -/
structure Indata where
  led : UInt8
  enConnBrokenCtr : UInt8
  setEnMotorController : UInt8
  voidData : UInt8
  W : Int32
deriving DecidableEq, Inhabited

namespace Indata

/-- The byte view of the record. -/
def serial (d : Indata) : List UInt8 :=
  [d.led, d.enConnBrokenCtr, d.setEnMotorController, d.voidData] ++ toLE 4 d.W.toUInt32.toNat

/-- The record behind a byte view. -/
def ofSerial (bs : List UInt8) : Indata where
  led := bs.getD 0 0
  enConnBrokenCtr := bs.getD 1 0
  setEnMotorController := bs.getD 2 0
  voidData := bs.getD 3 0
  W := (UInt32.ofNat (ofLE ((bs.drop 4).take 4))).toInt32

@[simp]
theorem length_serial (d : Indata) : d.serial.length = 8 := by
  simp [serial]

/-- Reading the byte view of a record gives the record back. -/
@[simp]
theorem ofSerial_serial (d : Indata) : ofSerial d.serial = d := by
  have hW : (d.serial.drop 4).take 4 = toLE 4 d.W.toUInt32.toNat := rfl
  have hval : ofLE (toLE 4 d.W.toUInt32.toNat) = d.W.toUInt32.toNat :=
    ofLE_toLE_of_lt d.W.toUInt32.toNat_lt
  rw [ofSerial, hW, hval, UInt32.ofNat_toNat, Int32.toInt32_toUInt32]
  rfl

end Indata

/-! ### Board to server -/

/-- Acceleration: for each axis the actual value, and the sum since the last transmission. -/
structure Acc where
  acc : Fin 3 → Int16
  sum : Fin 3 → Int16
deriving DecidableEq, Inhabited

/-- What a board sends to the server. -/
structure Outdata where
  connBroken : UInt8
  enMotorController : UInt8
  ubat : UInt16
  Acc : Acc
  duty : UInt32
  network_timeout : UInt32
  X : Int32
  W : Int32
  P : Int32
  I : Int32
  D : Int32
  FF : Int32
  distance : UInt32
deriving DecidableEq, Inhabited

namespace Outdata

/-- The byte view of the record. -/
def serial (o : Outdata) : List UInt8 :=
  [o.connBroken, o.enMotorController] ++ toLE 2 o.ubat.toNat ++
    toLE 2 (o.Acc.acc 0).toUInt16.toNat ++ toLE 2 (o.Acc.acc 1).toUInt16.toNat ++
    toLE 2 (o.Acc.acc 2).toUInt16.toNat ++ toLE 2 (o.Acc.sum 0).toUInt16.toNat ++
    toLE 2 (o.Acc.sum 1).toUInt16.toNat ++ toLE 2 (o.Acc.sum 2).toUInt16.toNat ++
    toLE 4 o.duty.toNat ++ toLE 4 o.network_timeout.toNat ++ toLE 4 o.X.toUInt32.toNat ++
    toLE 4 o.W.toUInt32.toNat ++ toLE 4 o.P.toUInt32.toNat ++ toLE 4 o.I.toUInt32.toNat ++
    toLE 4 o.D.toUInt32.toNat ++ toLE 4 o.FF.toUInt32.toNat ++ toLE 4 o.distance.toNat

/-- The two-byte field at an offset of a byte view. -/
def field16 (bs : List UInt8) (off : ℕ) : UInt16 := UInt16.ofNat (ofLE ((bs.drop off).take 2))

/-- The four-byte field at an offset of a byte view. -/
def field32 (bs : List UInt8) (off : ℕ) : UInt32 := UInt32.ofNat (ofLE ((bs.drop off).take 4))

/-- The record behind a byte view. -/
def ofSerial (bs : List UInt8) : Outdata where
  connBroken := bs.getD 0 0
  enMotorController := bs.getD 1 0
  ubat := field16 bs 2
  Acc :=
    { acc := ![(field16 bs 4).toInt16, (field16 bs 6).toInt16, (field16 bs 8).toInt16]
      sum := ![(field16 bs 10).toInt16, (field16 bs 12).toInt16, (field16 bs 14).toInt16] }
  duty := field32 bs 16
  network_timeout := field32 bs 20
  X := (field32 bs 24).toInt32
  W := (field32 bs 28).toInt32
  P := (field32 bs 32).toInt32
  I := (field32 bs 36).toInt32
  D := (field32 bs 40).toInt32
  FF := (field32 bs 44).toInt32
  distance := field32 bs 48

@[simp]
theorem length_serial (o : Outdata) : o.serial.length = 52 := by
  simp [serial]

private theorem field16_of_eq {bs : List UInt8} {off : ℕ} {x : UInt16}
    (h : (bs.drop off).take 2 = toLE 2 x.toNat) : field16 bs off = x := by
  rw [field16, h, ofLE_toLE_of_lt x.toNat_lt, UInt16.ofNat_toNat]

private theorem field32_of_eq {bs : List UInt8} {off : ℕ} {x : UInt32}
    (h : (bs.drop off).take 4 = toLE 4 x.toNat) : field32 bs off = x := by
  rw [field32, h, ofLE_toLE_of_lt x.toNat_lt, UInt32.ofNat_toNat]

/-- The values of the three axes. -/
private theorem axes_of_eq {x y z : UInt16} {a : Fin 3 → Int16} (hx : x = (a 0).toUInt16)
    (hy : y = (a 1).toUInt16) (hz : z = (a 2).toUInt16) :
    ![x.toInt16, y.toInt16, z.toInt16] = a := by
  rw [hx, hy, hz, Int16.toInt16_toUInt16, Int16.toInt16_toUInt16, Int16.toInt16_toUInt16]
  funext i
  fin_cases i <;> rfl

/-- Reading the byte view of a record gives the record back. -/
@[simp]
theorem ofSerial_serial (o : Outdata) : ofSerial o.serial = o := by
  -- `drop_toLE_append` skips the fields before the one that `take_toLE_append` cuts out
  have hubat : field16 o.serial 2 = o.ubat := field16_of_eq (by simp [serial])
  have hacc : ![(field16 o.serial 4).toInt16, (field16 o.serial 6).toInt16,
      (field16 o.serial 8).toInt16] = o.Acc.acc :=
    axes_of_eq (field16_of_eq (by simp [serial])) (field16_of_eq (by simp [serial]))
      (field16_of_eq (by simp [serial]))
  have hsum : ![(field16 o.serial 10).toInt16, (field16 o.serial 12).toInt16,
      (field16 o.serial 14).toInt16] = o.Acc.sum :=
    axes_of_eq (field16_of_eq (by simp [serial])) (field16_of_eq (by simp [serial]))
      (field16_of_eq (by simp [serial]))
  have hduty : field32 o.serial 16 = o.duty := field32_of_eq (by simp [serial])
  have htimeout : field32 o.serial 20 = o.network_timeout := field32_of_eq (by simp [serial])
  have hX : field32 o.serial 24 = o.X.toUInt32 := field32_of_eq (by simp [serial])
  have hW : field32 o.serial 28 = o.W.toUInt32 := field32_of_eq (by simp [serial])
  have hP : field32 o.serial 32 = o.P.toUInt32 := field32_of_eq (by simp [serial])
  have hI : field32 o.serial 36 = o.I.toUInt32 := field32_of_eq (by simp [serial])
  have hD : field32 o.serial 40 = o.D.toUInt32 := field32_of_eq (by simp [serial])
  have hFF : field32 o.serial 44 = o.FF.toUInt32 := field32_of_eq (by simp [serial])
  have hdistance : field32 o.serial 48 = o.distance := field32_of_eq (by simp [serial])
  have hconn : o.serial.getD 0 0 = o.connBroken := by simp [serial]
  have hen : o.serial.getD 1 0 = o.enMotorController := by simp [serial]
  rw [ofSerial, hconn, hen, hubat, hacc, hsum, hduty, htimeout, hX, hW, hP, hI, hD, hFF, hdistance]
  simp only [Int32.toInt32_toUInt32]

end Outdata

end LegoCar
