import Mathlib
import LegoCar.Lib.Framing
import LegoCar.Wire.Records

/-!
# What the host sends to a board

The host sends the byte `'I'` to open a link, and then a record at a time, each as an `'S'` and
the eight bytes of the record. Nothing is escaped: a byte of a record may be an `'S'` or an `'I'`.
-/

namespace LegoCar

/-- A message of the host. -/
inductive HostMsg where
  | init
  | frame (f : Indata)
deriving DecidableEq

namespace HostMsg

/-- The bytes of a message. -/
def bytes : HostMsg → List UInt8
  | init => [tagI]
  | frame f => tagS :: f.serial

/-- The record of a message. -/
def record : HostMsg → Option Indata
  | init => none
  | frame f => some f

/-- No byte of the record is an `'S'`. -/
def Plain (m : HostMsg) : Prop := tagS ∉ m.bytes.tail

instance (m : HostMsg) : Decidable m.Plain := inferInstanceAs (Decidable (¬ _))

theorem bytes_ne_nil (m : HostMsg) : m.bytes ≠ [] := by
  cases m <;> simp [bytes]

end HostMsg

/-- The bytes of a list of messages. -/
def streamOf (msgs : List HostMsg) : List UInt8 := msgs.flatMap HostMsg.bytes

/-- The records of a list of messages. -/
def recordsOf (msgs : List HostMsg) : List Indata := msgs.filterMap HostMsg.record

/-- **A plain stream is self-synchronising**: nine bytes that start with an `'S'` are a record of
the host, wherever they are found. -/
theorem frame_of_plain {msgs : List HostMsg} (hplain : ∀ m ∈ msgs, m.Plain)
    {T p rest : List UInt8} (hp : p.length = 8) (h : T ++ (tagS :: p ++ rest) = streamOf msgs) :
    ∃ pre post, msgs = pre ++ .frame (Indata.ofSerial p) :: post ∧ T = streamOf pre := by
  obtain ⟨pre, m, post, hmsgs, hT, hm⟩ := Framing.boundary_of_marker hplain h
  refine ⟨pre, post, ?_, hT⟩
  cases m with
  | init => simp [HostMsg.bytes, tagI, tagS] at hm
  | frame f =>
    have hbytes : p ++ rest = f.serial ++ post.flatMap HostMsg.bytes := by
      simpa [HostMsg.bytes] using hm
    have hserial : p = f.serial := List.append_inj_left hbytes (by rw [hp, f.length_serial])
    rw [hmsgs, hserial, Indata.ofSerial_serial]

/-- The bytes of a list of records. -/
def framesOf (fs : List Indata) : List UInt8 := streamOf (fs.map .frame)

@[simp]
theorem framesOf_nil : framesOf [] = [] := rfl

@[simp]
theorem framesOf_cons (f : Indata) (fs : List Indata) :
    framesOf (f :: fs) = tagS :: f.serial ++ framesOf fs := rfl

theorem framesOf_append (fs gs : List Indata) :
    framesOf (fs ++ gs) = framesOf fs ++ framesOf gs := by
  simp [framesOf, streamOf]

theorem length_framesOf (fs : List Indata) : (framesOf fs).length = 9 * fs.length := by
  induction fs with
  | nil => rfl
  | cons f fs ih =>
    rw [framesOf_cons, List.length_append, ih, List.length_cons, f.length_serial, List.length_cons]
    omega

end LegoCar
