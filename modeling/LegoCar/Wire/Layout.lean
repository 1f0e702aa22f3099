import Mathlib
import LegoCar.Lib.StructLayout
import LegoCar.Wire.Records

/-!
# The two declarations of `outdata`

The record a board sends is declared twice, in `main.c` for the board and in `nanoboard.h` for the
server, each time as a union of a struct and of the array `serial` through which the bytes are
sent and received. Here both declarations are laid out as the compilers do. They agree, so every
member arrives at the place it was sent from (`member_received`), and the byte view of `Records` is
this layout (`payload_eq`, `readMembers_host`).

The array has 48 elements and the struct has 52 bytes: the loop of the board reads behind the end
of `serial`, and so does the server write. The bytes concerned are those of `distance`
(`outside_iff`), and every record sent is an instance (`wireRoundTrip_never`).
-/

namespace LegoCar

open LittleEndian StructLayout

/-! ### The declarations -/

/-- The members of `values`. -/
inductive OutdataMember where
  | connBroken
  | enMotorController
  | ubat
  | Acc
  | duty
  | network_timeout
  | X
  | W
  | P
  | I
  | D
  | FF
  | distance
deriving DecidableEq

/-- The members of `struct acc`. -/
inductive AccMember where
  | acc
  | sum
deriving DecidableEq

/-- A declaration of the union `outdata`: the struct `values`, its member `Acc`, and the number of
elements of `serial`. -/
structure OutdataDecl where
  values : List (Member OutdataMember)
  acc : List (Member AccMember)
  serial : ℕ

namespace OutdataDecl

/-- `sizeof(outdata)`. -/
def sizeof (d : OutdataDecl) : ℕ :=
  (union [struct d.values, array (scalar 1) d.serial]).size

end OutdataDecl

/-- `union outdata` of `main.c`. -/
def boardOutdata : OutdataDecl :=
  let acc : List (Member AccMember) := [⟨.acc, array (scalar 2) 3⟩, ⟨.sum, array (scalar 2) 3⟩]
  { values :=
      [⟨.connBroken, scalar 1⟩, ⟨.enMotorController, scalar 1⟩, ⟨.ubat, scalar 2⟩,
        ⟨.Acc, struct acc⟩, ⟨.duty, scalar 4⟩, ⟨.network_timeout, scalar 4⟩, ⟨.X, scalar 4⟩,
        ⟨.W, scalar 4⟩, ⟨.P, scalar 4⟩, ⟨.I, scalar 4⟩, ⟨.D, scalar 4⟩, ⟨.FF, scalar 4⟩,
        ⟨.distance, scalar 4⟩]
    acc := acc
    serial := 48 }

/-- `union outdata` of `nanoboard.h`. -/
def hostOutdata : OutdataDecl :=
  let acc : List (Member AccMember) := [⟨.acc, array (scalar 2) 3⟩, ⟨.sum, array (scalar 2) 3⟩]
  { values :=
      [⟨.connBroken, scalar 1⟩, ⟨.enMotorController, scalar 1⟩, ⟨.ubat, scalar 2⟩,
        ⟨.Acc, struct acc⟩, ⟨.duty, scalar 4⟩, ⟨.network_timeout, scalar 4⟩, ⟨.X, scalar 4⟩,
        ⟨.W, scalar 4⟩, ⟨.P, scalar 4⟩, ⟨.I, scalar 4⟩, ⟨.D, scalar 4⟩, ⟨.FF, scalar 4⟩,
        ⟨.distance, scalar 4⟩]
    acc := acc
    serial := 48 }

/-! ### The objects in memory -/

namespace Acc

/-- The bytes of a member. -/
def memberBytes (a : Acc) : AccMember → List UInt8
  | .acc => toLE 2 (a.acc 0).toUInt16.toNat ++ toLE 2 (a.acc 1).toUInt16.toNat ++
      toLE 2 (a.acc 2).toUInt16.toNat
  | .sum => toLE 2 (a.sum 0).toUInt16.toNat ++ toLE 2 (a.sum 1).toUInt16.toNat ++
      toLE 2 (a.sum 2).toUInt16.toNat

end Acc

namespace Outdata

/-- The bytes of a member of the record on the board. -/
def memberBytes (o : Outdata) : OutdataMember → List UInt8
  | .connBroken => [o.connBroken]
  | .enMotorController => [o.enMotorController]
  | .ubat => toLE 2 o.ubat.toNat
  | .Acc => image o.Acc.memberBytes boardOutdata.acc 0
  | .duty => toLE 4 o.duty.toNat
  | .network_timeout => toLE 4 o.network_timeout.toNat
  | .X => toLE 4 o.X.toUInt32.toNat
  | .W => toLE 4 o.W.toUInt32.toNat
  | .P => toLE 4 o.P.toUInt32.toNat
  | .I => toLE 4 o.I.toUInt32.toNat
  | .D => toLE 4 o.D.toUInt32.toNat
  | .FF => toLE 4 o.FF.toUInt32.toNat
  | .distance => toLE 4 o.distance.toNat

/-- The record in the memory of the board. -/
def boardObject (o : Outdata) : List UInt8 := image o.memberBytes boardOutdata.values 0

end Outdata

/-- The values of an array of three shorts. -/
def readShorts (bytes : List UInt8) : Fin 3 → Int16 :=
  ![(Outdata.field16 bytes 0).toInt16, (Outdata.field16 bytes 2).toInt16,
    (Outdata.field16 bytes 4).toInt16]

/-- The record whose members are read from an object as a declaration places them. -/
def OutdataDecl.readMembers (d : OutdataDecl) (object : List UInt8) : Outdata :=
  let at_ (m : OutdataMember) : List UInt8 := object.drop (offsetOf d.values m)
  { connBroken := (at_ .connBroken).getD 0 0
    enMotorController := (at_ .enMotorController).getD 0 0
    ubat := Outdata.field16 (at_ .ubat) 0
    Acc :=
      { acc := readShorts ((at_ .Acc).drop (offsetOf d.acc .acc))
        sum := readShorts ((at_ .Acc).drop (offsetOf d.acc .sum)) }
    duty := Outdata.field32 (at_ .duty) 0
    network_timeout := Outdata.field32 (at_ .network_timeout) 0
    X := (Outdata.field32 (at_ .X) 0).toInt32
    W := (Outdata.field32 (at_ .W) 0).toInt32
    P := (Outdata.field32 (at_ .P) 0).toInt32
    I := (Outdata.field32 (at_ .I) 0).toInt32
    D := (Outdata.field32 (at_ .D) 0).toInt32
    FF := (Outdata.field32 (at_ .FF) 0).toInt32
    distance := Outdata.field32 (at_ .distance) 0 }

/-! ### The copies -/

/-- The elements of `serial` the board reads: `for(j=0;j<sizeof(outdat);j++)`. -/
def boardReads : List ℕ := List.range boardOutdata.sizeof

/-- The bytes behind the `'R'`. -/
def boardPayload (o : Outdata) : List UInt8 := boardReads.map fun j => o.boardObject.getD j 0

/-- The elements of `serial` the server writes, for a message of `len` bytes:
`memcpy(&(nano[i].outdat.serial),buffer+1,len-1)`. -/
def hostWrites (len : ℕ) : List ℕ := List.range (len - 1)

/-- `memcpy` of the first `n` bytes of `src` over an object. -/
def memcpy (n : ℕ) (src object : List UInt8) : List UInt8 := src.take n ++ object.drop n

/-- The record of the server behind a message at the beginning of the buffer, where it is copied
over the object if it is a record. -/
def hostOutdat (len : ℕ) (buffer object : List UInt8) : Option Outdata :=
  if hostOutdata.sizeof + 1 ≠ len ∨ buffer.head? ≠ some tagR then none
  else some (hostOutdata.readMembers (memcpy (len - 1) (buffer.drop 1) object))

/-- The round trip of a record, from the board to a server whose buffer and whose object have any
contents before: the same record arrives, and every access through `serial` is inside the array
that the side declares. -/
def WireRoundTrip (o : Outdata) : Prop :=
  let message := tagR :: boardPayload o
  (∀ rest object : List UInt8, hostOutdat message.length (message ++ rest) object = some o) ∧
    (∀ j ∈ boardReads, j < boardOutdata.serial) ∧
    ∀ j ∈ hostWrites message.length, j < hostOutdata.serial

/-! ### The layout -/

/-- Both compilers need 52 bytes. -/
theorem sizeof_board : boardOutdata.sizeof = 52 := by decide

theorem sizeof_host : hostOutdata.sizeof = 52 := by decide

theorem length_memberBytes_acc (a : Acc) :
    ∀ m ∈ boardOutdata.acc, (a.memberBytes m.name).length = m.layout.size := by
  intro m hm
  fin_cases hm <;> simp [Acc.memberBytes, array, scalar]

theorem length_memberBytes (o : Outdata) :
    ∀ m ∈ boardOutdata.values, (o.memberBytes m.name).length = m.layout.size := by
  intro m hm
  fin_cases hm <;> simp [Outdata.memberBytes, scalar]
  · -- the nested struct ends where its last member does
    have hend : endOf boardOutdata.acc 0 = (struct boardOutdata.acc).size := by decide
    have hlength := length_image (length_memberBytes_acc o.Acc) 0
    rw [Nat.zero_add, hend] at hlength
    exact hlength

/-- The object on the board is the byte view of the record: there is no padding. -/
theorem boardObject_eq (o : Outdata) : o.boardObject = o.serial := by
  have hacc : o.memberBytes .Acc = boardOutdata.acc.flatMap fun m => o.Acc.memberBytes m.name :=
    image_of_packed (by decide)
  have hobject : o.boardObject = boardOutdata.values.flatMap fun m => o.memberBytes m.name :=
    image_of_packed (by decide)
  rw [hobject]
  simp only [boardOutdata, List.flatMap_cons, List.flatMap_nil, hacc, Outdata.serial]
  simp only [Outdata.memberBytes, Acc.memberBytes, List.append_assoc, List.append_nil,
    List.cons_append, List.nil_append]

/-- The loop of the board sends the whole object. -/
theorem payload_eq (o : Outdata) : boardPayload o = o.serial := by
  have hlength : o.boardObject.length = 52 := by rw [boardObject_eq, Outdata.length_serial]
  rw [← boardObject_eq, boardPayload, boardReads, sizeof_board]
  apply List.ext_getElem
  · rw [List.length_map, List.length_range, hlength]
  · intro j _ hj
    rw [List.getElem_map, List.getElem_range, List.getD_eq_getElem _ _ hj]

/-- Reading an object as the server declares it is reading its byte view. -/
theorem readMembers_host (object : List UInt8) :
    hostOutdata.readMembers object = Outdata.ofSerial object := by
  have h8 : ∀ off, (object.drop off).getD 0 0 = object.getD off 0 := by
    intro off
    rw [List.getD_eq_getElem?_getD, List.getElem?_drop, List.getD_eq_getElem?_getD, Nat.add_zero]
  have h16 : ∀ off k, Outdata.field16 (object.drop off) k = Outdata.field16 object (off + k) := by
    intro off k
    rw [Outdata.field16, List.drop_drop, Outdata.field16]
  have h32 : ∀ off, Outdata.field32 (object.drop off) 0 = Outdata.field32 object off := fun _ => rfl
  have hacc : offsetOf hostOutdata.acc .acc = 0 := rfl
  have hsum : offsetOf hostOutdata.acc .sum = 6 := rfl
  simp only [OutdataDecl.readMembers, readShorts, hacc, hsum, List.drop_drop, h8, h16, h32]
  rfl

/-- The bytes behind the record are not read. -/
theorem ofSerial_append {payload : List UInt8} (hlength : payload.length = 52)
    (rest : List UInt8) : Outdata.ofSerial (payload ++ rest) = Outdata.ofSerial payload := by
  have h8 : ∀ off, off < 52 → (payload ++ rest).getD off 0 = payload.getD off 0 := by
    intro off hoff
    rw [List.getD_append _ _ _ _ (by omega)]
  have h16 : ∀ off, off + 2 ≤ 52 →
      Outdata.field16 (payload ++ rest) off = Outdata.field16 payload off := by
    intro off hoff
    rw [Outdata.field16, List.drop_append_of_le_length (by omega),
      List.take_append_of_le_length (by rw [List.length_drop]; omega), Outdata.field16]
  have h32 : ∀ off, off + 4 ≤ 52 →
      Outdata.field32 (payload ++ rest) off = Outdata.field32 payload off := by
    intro off hoff
    rw [Outdata.field32, List.drop_append_of_le_length (by omega),
      List.take_append_of_le_length (by rw [List.length_drop]; omega), Outdata.field32]
  simp (disch := omega) only [Outdata.ofSerial, h8, h16, h32]

/-! ### The round trip -/

/-- Every member arrives at the place where the server looks for it. -/
theorem member_received (o : Outdata) {p : Member OutdataMember × ℕ}
    (h : p ∈ place hostOutdata.values 0) :
    ((boardPayload o).drop p.2).take p.1.layout.size = o.memberBytes p.1.name := by
  rw [payload_eq, ← boardObject_eq]
  have hmem : p ∈ place boardOutdata.values 0 := h
  exact slice_image (length_memberBytes o) hmem

/-- A message of the right length is received from any buffer, whatever the object contained. -/
theorem hostOutdat_payload {payload : List UInt8} (hlength : payload.length = 52)
    (rest object : List UInt8) :
    hostOutdat (tagR :: payload).length ((tagR :: payload) ++ rest) object =
      some (Outdata.ofSerial payload) := by
  have hrecord : ¬(hostOutdata.sizeof + 1 ≠ (tagR :: payload).length ∨
      ((tagR :: payload) ++ rest).head? ≠ some tagR) := by
    rw [sizeof_host, List.length_cons, hlength]
    simp
  have hcopied : memcpy ((tagR :: payload).length - 1)
      (((tagR :: payload) ++ rest).drop 1) object = payload ++ object.drop 52 := by
    rw [memcpy, List.length_cons, Nat.add_sub_cancel, List.cons_append, List.drop_one,
      List.tail_cons, List.take_left' rfl, hlength]
  rw [hostOutdat, if_neg hrecord, readMembers_host, hcopied, ofSerial_append hlength]

/-- A record is received as it was sent. -/
theorem hostOutdat_record (o : Outdata) (rest object : List UInt8) :
    hostOutdat (tagR :: boardPayload o).length ((tagR :: boardPayload o) ++ rest) object =
      some o := by
  have hlength : (boardPayload o).length = 52 := by rw [payload_eq, Outdata.length_serial]
  rw [hostOutdat_payload hlength, payload_eq, Outdata.ofSerial_serial]

/-- The accesses outside the array are those to the last member. -/
theorem outside_iff (j : ℕ) : j ∈ boardReads ∧ ¬j < boardOutdata.serial ↔
    offsetOf boardOutdata.values .distance ≤ j ∧
      j < offsetOf boardOutdata.values .distance + (scalar 4).size := by
  have hoffset : offsetOf boardOutdata.values .distance = 48 := by decide
  have hserial : boardOutdata.serial = 48 := rfl
  have hsize : (scalar 4).size = 4 := rfl
  rw [boardReads, List.mem_range, sizeof_board, hoffset, hserial, hsize]
  omega

/-- The board reads behind the end of the array, whatever the record. -/
theorem not_wireRoundTrip (o : Outdata) : ¬WireRoundTrip o := by
  rintro ⟨-, hreads, -⟩
  have hlast := (outside_iff 48).mpr (by decide)
  exact hlast.2 (hreads 48 hlast.1)

/-- **The record on the wire.** Every record arrives as it was sent, and none within the array
that is declared for it. -/
theorem wireRoundTrip_never (o : Outdata) :
    (∀ rest object : List UInt8,
      hostOutdat (tagR :: boardPayload o).length ((tagR :: boardPayload o) ++ rest) object =
        some o) ∧ ¬WireRoundTrip o :=
  ⟨hostOutdat_record o, not_wireRoundTrip o⟩

/-- The record of a board that stands still. -/
theorem wireRoundTrip_fails : ¬∀ o : Outdata, WireRoundTrip o := by
  intro hall
  exact not_wireRoundTrip default (hall default)

end LegoCar
