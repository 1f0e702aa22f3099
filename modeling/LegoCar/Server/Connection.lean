import Mathlib
import LegoCar.Lib.Framing
import LegoCar.Server.EventLoop

/-!
# The connection of a board

Seen from outside, the server treats the bytes that one call of `recv` returns as one message. So
the connection of a board is a small machine (`Conn`): it waits for the version string, or is up,
or is down, and each message moves it (`Conn.recv`).

A board sends the version string and then records (`messages`). The machine is up after a stream
of such messages exactly when each call of `recv` returned one message: `Conn.up_of_messages` and
`Conn.messages_of_up`.
-/

namespace LegoCar

open Server (NotRecord)

/-- A record as a board sends it. -/
def recordFrame (o : Outdata) : List UInt8 := tagR :: o.serial

/-- What a board sends: the version string if the connection is new, and records. -/
def messages (isNew : Bool) (records : List Outdata) : List (List UInt8) :=
  (if isNew then [versionName] else []) ++ records.map recordFrame

@[simp]
theorem length_recordFrame (o : Outdata) : (recordFrame o).length = 53 := by
  simp [recordFrame]

theorem not_notRecord_recordFrame (o : Outdata) : ¬NotRecord (recordFrame o) := by
  simp [NotRecord, recordFrame]

/-- A connection, with the record stored last. -/
inductive Conn where
  | down
  | greeting (outdat : Outdata)
  | up (outdat : Outdata)

namespace Conn

/-- What a message does to a connection. -/
def recv (version bs : List UInt8) : Conn → Conn
  | down => down
  | greeting o =>
    if NotRecord bs then
      if cString bs = version then up o
      else if bs.head? = some tagI ∨ bs.head? = some tagR then greeting o
      else down
    else greeting (Outdata.ofSerial (bs.drop 1))
  | up _ => if NotRecord bs then down else up (Outdata.ofSerial (bs.drop 1))

/-- What a call of `recv` does to a connection, if there is one. -/
def next (version : List UInt8) (received : Option (List UInt8)) (c : Conn) : Conn :=
  match received with
  | none => c
  | some bs => c.recv version bs

/-- What messages do to a connection, one after the other. -/
def recvAll (version : List UInt8) (chunks : List (List UInt8)) (c : Conn) : Conn :=
  chunks.foldl (fun c bs => c.recv version bs) c

variable {version bs : List UInt8} {chunks : List (List UInt8)} {o o' : Outdata}
  {records : List Outdata}

@[simp]
theorem recvAll_cons (c : Conn) :
    recvAll version (bs :: chunks) c = recvAll version chunks (c.recv version bs) := rfl

theorem recvAll_append_toList (c : Conn) (received : Option (List UInt8)) :
    recvAll version (chunks ++ received.toList) c =
      (recvAll version chunks c).next version received := by
  rw [recvAll, recvAll, List.foldl_append]
  cases received <;> rfl

/-- A connection that is down stays down. -/
theorem next_down (received : Option (List UInt8)) : next version received down = down := by
  cases received <;> rfl

theorem recvAll_down : recvAll version chunks down = down := by
  induction chunks with
  | nil => rfl
  | cons bs chunks ih => rw [recvAll_cons, recv, ih]

/-! ### Records -/

theorem recv_recordFrame : (up o).recv version (recordFrame o') = up o' := by
  rw [recv, if_neg (not_notRecord_recordFrame o'), recordFrame, List.drop_one, List.tail_cons,
    Outdata.ofSerial_serial]

/-- Records, one at a time, keep the connection up, and the last one is stored. -/
theorem recvAll_recordFrames (records : List Outdata) (o : Outdata) :
    recvAll version (records.map recordFrame) (up o) = up (records.getLastD o) := by
  induction records generalizing o with
  | nil => rfl
  | cons o' records ih => rw [List.map_cons, recvAll_cons, recv_recordFrame, ih, List.getLastD_cons]

/-- A connection that stays up has received records only. -/
theorem record_of_up (h : recvAll version chunks (up o) = up o') :
    ∀ bs ∈ chunks, ¬NotRecord bs := by
  induction chunks generalizing o with
  | nil => exact fun bs hbs => absurd hbs List.not_mem_nil
  | cons bs chunks ih =>
    rw [recvAll_cons, recv] at h
    split_ifs at h with hbs
    · rw [recvAll_down] at h
      exact absurd h (by simp)
    · exact List.forall_mem_cons.mpr ⟨hbs, ih h⟩

/-- A stream of records that keeps the connection up is received one record at a time. -/
theorem recordFrames_of_up (h : recvAll version chunks (up o) = up o')
    (hstream : chunks.flatten = records.flatMap recordFrame) :
    chunks = records.map recordFrame := by
  refine Framing.eq_map_of_length (L := 53) (by decide) (fun o _ => length_recordFrame o) ?_ hstream
  intro bs hbs
  by_contra hlen
  exact record_of_up h bs hbs (Or.inl hlen)

/-! ### The version string -/

theorem head_of_recordFrames {b : UInt8} {rest : List UInt8}
    (h : b :: rest = records.flatMap recordFrame) : b = tagR := by
  cases records with
  | nil => exact absurd h (by simp)
  | cons o records => exact (List.cons.inj h).1

/-- At the beginning of the stream, only the version string itself compares equal to it. -/
theorem eq_versionName {rest : List UInt8}
    (hstream : bs ++ rest = versionName ++ records.flatMap recordFrame)
    (h : cString bs = versionName) : bs = versionName := by
  obtain ⟨c, hversion, -⟩ | ⟨c, rfl, hrest⟩ := List.append_eq_append_iff.mp hstream
  · -- a shorter string cannot compare equal
    have hle : versionName.length ≤ bs.length := by
      rw [← h]
      exact (List.takeWhile_prefix _).length_le
    have hlen : versionName.length = bs.length + c.length := by rw [hversion, List.length_append]
    obtain rfl : c = [] := List.length_eq_zero_iff.mp (by omega)
    rw [hversion, List.append_nil]
  · -- neither can a longer one, since it goes on with an 'R'
    have hnonzero : ∀ b ∈ versionName, (decide (b ≠ 0)) = true := by decide +kernel
    have hc : cString c = [] := by
      rw [cString, List.takeWhile_append_of_pos hnonzero] at h
      exact List.append_right_eq_self.mp h
    cases c with
    | nil => exact List.append_nil _
    | cons b c =>
      have hb : b = tagR := head_of_recordFrames (b := b) hrest.symm
      subst hb
      exact absurd hc (by simp [cString, tagR])

/-- **A new connection that is up has received one message at a time.** -/
theorem messages_of_up (hne : [] ∉ chunks) (h : recvAll versionName chunks (greeting o) = up o')
    (hstream : chunks.flatten = versionName ++ records.flatMap recordFrame) :
    chunks = versionName :: records.map recordFrame := by
  cases chunks with
  | nil => exact absurd hstream (by simp [versionName])
  | cons bs chunks =>
    rw [List.flatten_cons] at hstream
    -- the first message begins as the version string does
    have hhead : bs.head? = some 78 := by
      cases bs with
      | nil => exact absurd List.mem_cons_self hne
      | cons b bs => exact congrArg some (List.cons.inj hstream).1
    have hrecord : NotRecord bs := Or.inr (by rw [hhead]; decide)
    rw [recvAll_cons, recv, if_pos hrecord] at h
    split_ifs at h with hversion htag
    · obtain rfl := eq_versionName hstream hversion
      rw [recordFrames_of_up h (List.append_cancel_left hstream)]
    · rw [hhead] at htag
      exact absurd htag (by decide)
    · rw [recvAll_down] at h
      exact absurd h (by simp)

/-- **One message at a time takes a new connection up.** -/
theorem up_of_messages (records : List Outdata) (o : Outdata) :
    recvAll versionName (versionName :: records.map recordFrame) (greeting o) =
      up (records.getLastD o) := by
  have hrecord : NotRecord versionName := by decide
  have hversion : cString versionName = versionName := by decide
  rw [recvAll_cons, recv, if_pos hrecord, if_pos hversion, recvAll_recordFrames]

end Conn

end LegoCar
