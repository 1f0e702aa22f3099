import Mathlib
import LegoCar.Lib.Printed
import LegoCar.Lib.Writes
import LegoCar.Server.CommandInvariant
import LegoCar.Server.Descriptors

/-!
# The bounds of the buffer

The event loop has one buffer of `ETH_FRAME_LEN` bytes. Every message is received into it; the first
message of a board is terminated in it; commands are answered in it with a text, and boards with a
frame. The texts and the frames are short (`length_statusReply_le`), whatever the state of the car.

A message can fill the buffer completely, and a first message that does is terminated behind its
end: `bufferBounds_iff` says that this is the only write that leaves the buffer.
-/

namespace LegoCar

open Stdio

/-! ### The writes -/

/-- A text is written to the beginning of the buffer, with a terminating zero. -/
def textWrite (text : List UInt8) : Write UInt8 := ⟨0, text ++ [0]⟩

/-- The writes of `parse_command`. -/
def parseWrites (cfg : CarConfig) (car : Car) (nano : Fin 4 → NanoBoard)
    (connBoards : Fin 4 → Bool) (buffer behind : List UInt8) : List (Write UInt8) :=
  match readSpeeds (cString (buffer ++ behind)) with
  | some (l, r) => [textWrite (statusReply cfg car nano connBoards l r)]
  | none =>
    if cString (buffer ++ behind) ≠ ascii "GetValues" then
      [textWrite (accReply car), textWrite defaultReply]
    else [textWrite defaultReply]

namespace Server

/-- The writes of an attempt to reconnect a board. -/
def attemptWrites : Attempt → List (Write UInt8)
  | .socketFailed | .connectFailed => []
  | .sendFailed | .connected => [⟨0, [tagI]⟩]

def reconnectWrites (inp : LoopInput) (s : Server) (i : Fin 4) : List (Write UInt8) :=
  if s.RetryDue inp i then attemptWrites (inp.attempt i) else []

/-- The writes that serve the client. -/
def clientWrites (cfg : ServerConfig) (inp : LoopInput) (rfd : Finset ℤ) (s : Server) :
    List (Write UInt8) :=
  match clientMessage inp rfd s with
  | none => []
  | some bs =>
    ⟨0, bs⟩ ::
      parseWrites cfg.car s.car s.nano s.connBoards (bs ++ s.buffer.drop bs.length) inp.behind

/-- The writes of a frame: the record is copied to `buffer+1`, and then the first byte is set. -/
def frameWrites (i : Fin 4) (s : Server) : List (Write UInt8) :=
  [⟨1, (s.nano i).indat.serial⟩, ⟨0, [tagS]⟩]

/-- A message is to be terminated: it is the first of its connection, and not a record. -/
def Terminates (bs : List UInt8) (i : Fin 4) (s : Server) : Prop :=
  NotRecord bs ∧ (s.nano i).init = true

instance (bs : List UInt8) (i : Fin 4) (s : Server) : Decidable (s.Terminates bs i) :=
  inferInstanceAs (Decidable (_ ∧ _))

/-- The writes of a message of a board. -/
def messageWrites (cfg : ServerConfig) (bs : List UInt8) (i : Fin 4) (s : Server) :
    List (Write UInt8) :=
  ⟨0, bs⟩ :: (if s.Terminates bs i then [⟨bs.length, [0]⟩] else []) ++
    if s.Answered cfg bs i then s.frameWrites i else []

/-- The writes that read from a board. -/
def boardWrites (cfg : ServerConfig) (inp : LoopInput) (rfd : Finset ℤ) (s : Server) (i : Fin 4) :
    List (Write UInt8) :=
  if (s.nano i).sd ∈ rfd then
    match (inp.board i).recv.map (List.take ethFrameLen) with
    | none => []
    | some bs => s.messageWrites cfg bs i
  else []

/-- The writes after `select`. -/
def handleWrites (cfg : ServerConfig) (inp : LoopInput) (rfd : Finset ℤ) (s : Server) :
    List (Write UInt8) :=
  let s := s.acceptClient inp rfd
  let r := s.serveClient (parseCommand cfg.car) inp rfd
  s.clientWrites cfg inp rfd ++
    if r.2 then []
    else Write.along (fun s i => s.readBoard cfg (inp.board i) rfd i)
      (boardWrites cfg inp rfd) (List.finRange 4) r.1

/-- The writes of an iteration. -/
def iterateWrites (cfg : ServerConfig) (inp : LoopInput) (s : Server) : List (Write UInt8) :=
  Write.along (fun s i => s.reconnect inp i) (reconnectWrites inp) (List.finRange 4)
      ((s.handleCar cfg).tick cfg inp) ++
    match s.selected cfg inp with
    | none => []
    | some (t, rfd) => t.handleWrites cfg inp rfd

end Server

/-! ### The texts -/

section Texts

variable {cfg : CarConfig} {car : Car} {nano : Fin 4 → NanoBoard} {connBoards : Fin 4 → Bool}
  {l r : UInt32}

theorem apply_textWrite (text buffer : List UInt8) :
    (textWrite text).apply buffer = writeText text buffer := by
  rw [textWrite, Write.apply_zero, writeText, List.length_append, List.length_singleton,
    List.append_assoc, List.singleton_append]

/-- What `parse_command` does to the buffer is what its writes do. -/
theorem parseCommand_buffer (cfg : CarConfig) (car : Car) (nano : Fin 4 → NanoBoard)
    (connBoards : Fin 4 → Bool) (buffer behind : List UInt8) :
    (parseCommand cfg car nano connBoards buffer behind).2.1 =
      Write.applyAll (parseWrites cfg car nano connBoards buffer behind) buffer := by
  unfold parseCommand parseWrites
  dsimp only
  cases readSpeeds (cString (buffer ++ behind)) with
  | some v => exact (apply_textWrite _ _).symm
  | none =>
    dsimp only
    split_ifs
    · rw [Write.applyAll_cons, Write.applyAll_cons, apply_textWrite, apply_textWrite]
      rfl
    · rw [Write.applyAll_cons, apply_textWrite]
      rfl

/-- The values of `acc` have at most five digits. -/
def SmallAcc (car : Car) : Prop := ∀ j, (car.acc j).natAbs < 10 ^ 5

theorem smallAcc_accHandler (v w : ℚ) (board : Fin 4 → NanoBoard) :
    SmallAcc ⟨v, w, accHandler board⟩ := by
  have hbound : ∀ x : Int16, -2 ^ 15 ≤ x.toInt ∧ x.toInt < 2 ^ 15 := fun x =>
    ⟨x.le_toInt, x.toInt_lt⟩
  have hmean : ∀ z : ℤ, z.natAbs < 4 * 10 ^ 5 → (z.tdiv 4).natAbs < 10 ^ 5 := by
    intro z hz
    rw [Int.natAbs_tdiv]
    exact Nat.div_lt_of_lt_mul hz
  have hdifference : ∀ a b c d : Int16,
      ((a.toInt + b.toInt - c.toInt - d.toInt).tdiv 4).natAbs < 10 ^ 5 := fun a b c d =>
    hmean _ (by have := hbound a; have := hbound b; have := hbound c; have := hbound d; omega)
  have hsum : ∀ a b c d : Int16,
      ((a.toInt + b.toInt + c.toInt + d.toInt).tdiv 4).natAbs < 10 ^ 5 := fun a b c d =>
    hmean _ (by have := hbound a; have := hbound b; have := hbound c; have := hbound d; omega)
  intro j
  fin_cases j
  · exact hdifference _ _ _ _
  · exact hdifference _ _ _ _
  · exact hsum _ _ _ _

theorem length_int_le {z : ℤ} (h : z.natAbs < 10 ^ 5) : (Item.int z).render.length ≤ 47 :=
  (length_showInt_le h (by norm_num)).trans (by norm_num)

/-- Every status fits into the buffer. -/
theorem length_statusReply_lt (h : SmallAcc car) :
    (statusReply cfg car nano connBoards l r).length < 1200 := by
  have hubat : ∀ x : UInt16, (Item.int x.toNat).render.length ≤ 47 := fun x =>
    length_int_le (x.toNat_lt.trans (by norm_num))
  have hbit : ∀ b : Bool, (Item.int (if b then 1 else 0)).render.length ≤ 47 := by decide
  have hacc : ∀ j, (Item.int (car.acc j)).render.length ≤ 47 := fun j => length_int_le (h j)
  have hfloat : ∀ b, (Item.float b).render.length ≤ 47 := length_showFloat_le
  refine (length_sprintf_le (m := 47) ?_).trans_lt (by norm_num)
  simp only [List.forall_mem_cons, hubat, hbit, hacc, hfloat, true_and]
  decide

theorem length_accReply_lt (h : SmallAcc car) : (accReply car).length < 1200 := by
  have hacc : ∀ j, (Item.int (car.acc j)).render.length ≤ 47 := fun j => length_int_le (h j)
  refine (length_sprintf_le (m := 47) ?_).trans_lt (by norm_num)
  simp only [List.forall_mem_cons, hacc, true_and]
  decide

theorem within_textWrite {text : List UInt8} (h : text.length < 1200) :
    (textWrite text).Within ethFrameLen := by
  refine Write.within_of_le ?_
  rw [textWrite, List.length_append, List.length_singleton, Nat.zero_add]
  exact h.trans_le (by decide)

/-- All writes of `parse_command` are within the buffer. -/
theorem within_parseWrites (h : SmallAcc car) (buffer behind : List UInt8) :
    ∀ w ∈ parseWrites cfg car nano connBoards buffer behind, w.Within ethFrameLen := by
  have hdefault : (textWrite defaultReply).Within ethFrameLen := within_textWrite (by decide)
  unfold parseWrites
  cases readSpeeds (cString (buffer ++ behind)) with
  | some v => exact List.forall_mem_singleton.mpr (within_textWrite (length_statusReply_lt h))
  | none =>
    dsimp only
    split_ifs
    · exact List.forall_mem_cons.mpr ⟨within_textWrite (length_accReply_lt h),
        List.forall_mem_singleton.mpr hdefault⟩
    · exact List.forall_mem_singleton.mpr hdefault

end Texts

namespace Server

variable {cfg : ServerConfig} {inp : LoopInput} {rfd : Finset ℤ} {s t : Server}
  {bs : List UInt8} {i : Fin 4}

/-! ### The writes and the buffer -/

theorem buffer_reconnect (inp : LoopInput) (s : Server) (i : Fin 4) :
    (s.reconnect inp i).buffer = Write.applyAll (reconnectWrites inp s i) s.buffer := by
  unfold reconnect reconnectWrites
  split_ifs
  · cases inp.attempt i <;> rfl
  · rfl

theorem buffer_prepare (cfg : ServerConfig) (inp : LoopInput) (s : Server) :
    (s.prepare cfg inp).buffer = Write.applyAll (Write.along (fun s i => s.reconnect inp i)
      (reconnectWrites inp) (List.finRange 4) ((s.handleCar cfg).tick cfg inp)) s.buffer := by
  have htick : ((s.handleCar cfg).tick cfg inp).buffer = s.buffer := (tick_memory cfg inp _).buffer
  rw [prepare, Write.foldl_along buffer (buffer_reconnect inp), htick]

theorem buffer_serveClient (cfg : ServerConfig) (inp : LoopInput) (rfd : Finset ℤ) (s : Server) :
    (s.serveClient (parseCommand cfg.car) inp rfd).1.buffer =
      Write.applyAll (s.clientWrites cfg inp rfd) s.buffer := by
  have hmemory := (serveClient_memory (parseCommand cfg.car) inp rfd s).buffer
  rw [hmemory, clientWrites]
  cases clientMessage inp rfd s with
  | none => rfl
  | some bs =>
    rw [Write.applyAll_cons, Write.apply_zero]
    exact parseCommand_buffer cfg.car s.car s.nano s.connBoards _ _

/-- A frame is the record behind its first byte; the buffer is not empty when it is sent. -/
theorem buffer_sendIndat (h : SameCommand s t) (hne : t.buffer ≠ []) (send : Bool) (i : Fin 4) :
    (t.sendIndat send i).buffer = Write.applyAll (s.frameWrites i) t.buffer := by
  have hfill : (t.sendIndat send i).buffer =
      (t.fill (tagS :: (t.nano i).indat.serial)).buffer := by
    cases send <;> rfl
  obtain ⟨b, rest, hrest⟩ := List.exists_cons_of_ne_nil hne
  rw [hfill, fill, frameWrites, Write.applyAll_cons, Write.applyAll_cons, Write.applyAll_nil,
    Write.apply_zero, Write.apply, hrest, Nat.add_comm 1, h.indat]
  rfl

theorem buffer_fill (bs : List UInt8) (s : Server) :
    (s.fill bs).buffer = (⟨0, bs⟩ : Write UInt8).apply s.buffer := by
  rw [Write.apply_zero, fill]

/-- The terminating zero is written behind what was received. -/
theorem buffer_greet (bs : List UInt8) (i : Fin 4) (s : Server) :
    ((s.fill bs).greet bs i).buffer =
      Write.applyAll [⟨0, bs⟩, ⟨bs.length, [0]⟩] s.buffer := by
  rw [Write.applyAll_cons, Write.applyAll_cons, Write.applyAll_nil, ← buffer_fill, Write.apply,
    show (s.fill bs).buffer.take bs.length = bs from List.take_left]
  rw [greet, fill, List.length_append]
  rfl

/-- A message before the version string is terminated, and answered unless it is ignored. -/
theorem buffer_handshake (cfg : ServerConfig) (send : Bool) {bs : List UInt8} {i : Fin 4}
    {s : Server} (hrecord : NotRecord bs) (hinit : (s.nano i).init = true) :
    ((s.fill bs).handshake cfg send bs i).buffer =
      Write.applyAll ([⟨0, bs⟩, ⟨bs.length, [0]⟩] ++
        if s.Answered cfg bs i then s.frameWrites i else []) s.buffer := by
  have hanswered : s.Answered cfg bs i ↔ ¬(cString bs ≠ cfg.nanoInit ∧
      (bs.head? = some tagI ∨ bs.head? = some tagR)) :=
    ⟨fun h => (h.resolve_left (not_not.mpr hrecord)).2, fun h => Or.inr ⟨hinit, h⟩⟩
  have hne : ((s.fill bs).greet bs i).buffer ≠ [] := by simp [greet, fill]
  have hfill : SameCommand s (s.fill bs) := sameCommand_of_eq rfl rfl
  have hgreet := hfill.trans (sameCommand_greet bs i _)
  rw [Write.applyAll_append, ← buffer_greet bs i, handshake]
  by_cases hversion : cString bs ≠ cfg.nanoInit
  · by_cases htag : bs.head? = some tagI ∨ bs.head? = some tagR
    · rw [if_pos hversion, if_pos htag, if_neg (mt hanswered.mp (not_not.mpr ⟨hversion, htag⟩))]
      rfl
    · have hstop : SameCommand s ((s.fill bs).greet bs i).stop :=
        hgreet.trans (sameCommand_of_eq rfl rfl)
      rw [if_pos hversion, if_neg htag, if_pos (hanswered.mpr fun h => htag h.2)]
      exact buffer_sendIndat hstop hne send i
  · have haccept : SameCommand s (((s.fill bs).greet bs i).accept i) :=
      hgreet.trans (sameCommand_of_eq rfl rfl)
    rw [if_neg hversion, if_pos (hanswered.mpr fun h => hversion h.1)]
    exact buffer_sendIndat haccept hne send i

/-- What a message does to the buffer is what its writes do. -/
theorem buffer_message (cfg : ServerConfig) (send : Bool) (bs : List UInt8) (i : Fin 4)
    (s : Server) : (s.message cfg send bs i).buffer =
      Write.applyAll (s.messageWrites cfg bs i) s.buffer := by
  have hfill : SameCommand s (s.fill bs) := sameCommand_of_eq rfl rfl
  rw [messageWrites]
  by_cases hrecord : NotRecord bs
  · cases hinit : (s.nano i).init with
    | true =>
      have hterminates : s.Terminates bs i := ⟨hrecord, hinit⟩
      rw [message_handshake hrecord hinit, if_pos hterminates]
      exact buffer_handshake cfg send hrecord hinit
    | false =>
      have hterminates : ¬s.Terminates bs i := fun h => Bool.false_ne_true (hinit ▸ h.2)
      have hanswered : ¬s.Answered cfg bs i := by
        rintro (h | h)
        · exact h hrecord
        · exact Bool.false_ne_true (hinit ▸ h.1)
      rw [message_wrongData hrecord hinit, if_neg hterminates, if_neg hanswered,
        (wrongData_memory i _).buffer, buffer_fill]
      rfl
  · have hterminates : ¬s.Terminates bs i := fun h => hrecord h.1
    have hanswered : s.Answered cfg bs i := Or.inl hrecord
    have hne : ((s.fill bs).storeOutdat bs i).buffer ≠ [] := by
      have hbs : bs ≠ [] := fun h => hrecord (by rw [h]; decide)
      exact List.append_ne_nil_of_left_ne_nil hbs _
    rw [message_record hrecord, buffer_sendIndat (hfill.trans (sameCommand_storeOutdat bs i _)) hne,
      if_neg hterminates, if_pos hanswered, Write.applyAll_append]
    rw [Write.applyAll_cons, Write.applyAll_nil, ← buffer_fill]
    rfl

theorem buffer_readBoard (cfg : ServerConfig) (inp : LoopInput) (rfd : Finset ℤ) (s : Server)
    (i : Fin 4) : (s.readBoard cfg (inp.board i) rfd i).buffer =
      Write.applyAll (s.boardWrites cfg inp rfd i) s.buffer := by
  unfold boardWrites
  split_ifs with hready
  · rw [readBoard_of_ready hready]
    cases (inp.board i).recv.map (List.take ethFrameLen) with
    | none => rfl
    | some bs => exact buffer_message cfg _ bs i _
  · rw [readBoard_of_not_ready hready]
    rfl

theorem buffer_handle (cfg : ServerConfig) (inp : LoopInput) (rfd : Finset ℤ) (s : Server) :
    (s.handle (parseCommand cfg.car) cfg inp rfd).buffer =
      Write.applyAll (s.handleWrites cfg inp rfd) s.buffer := by
  have haccept := (acceptClient_memory inp rfd s).buffer
  have hclient := buffer_serveClient cfg inp rfd (s.acceptClient inp rfd)
  rw [handle, handleWrites, Write.applyAll_append, ← haccept, ← hclient]
  split_ifs
  · rfl
  · exact Write.foldl_along buffer (buffer_readBoard cfg inp rfd) _ _

/-- **What an iteration does to the buffer** is what its writes do. -/
theorem buffer_iterate (cfg : ServerConfig) (inp : LoopInput) (s : Server) :
    (s.iterate (parseCommand cfg.car) cfg inp).buffer =
      Write.applyAll (s.iterateWrites cfg inp) s.buffer := by
  rw [iterate_eq, iterateWrites, Write.applyAll_append, ← buffer_prepare]
  cases hselected : s.selected cfg inp with
  | none => rfl
  | some r =>
    have hbuffer : r.1.buffer = (s.prepare cfg inp).buffer := by
      obtain heq | heq := eq_of_selected hselected
      · rw [heq]
      · rw [heq]
        rfl
    rw [← hbuffer]
    exact buffer_handle cfg inp r.2 r.1

/-! ### The bounds -/

/-- Board `i` is read while its first message is awaited, and the message fills the buffer. -/
def Overfills (inp : LoopInput) (rfd : Finset ℤ) (i : Fin 4) (s : Server) : Prop :=
  (s.nano i).sd ∈ rfd ∧ (s.nano i).init = true ∧
    ∃ bs, (inp.board i).recv = some bs ∧ ethFrameLen ≤ bs.length

theorem within_reconnectWrites (inp : LoopInput) (s : Server) (i : Fin 4) :
    ∀ w ∈ reconnectWrites inp s i, w.Within ethFrameLen := by
  have htag : (⟨0, [tagI]⟩ : Write UInt8).Within ethFrameLen := Write.within_of_le (by decide)
  unfold reconnectWrites
  split_ifs
  · cases inp.attempt i <;> simp [attemptWrites, htag]
  · simp

theorem within_received (bs : List UInt8) :
    (⟨0, bs.take ethFrameLen⟩ : Write UInt8).Within ethFrameLen := by
  refine Write.within_of_le ?_
  rw [Nat.zero_add, List.length_take]
  exact min_le_left _ _

theorem within_clientWrites (h : SmallAcc s.car) (cfg : ServerConfig) (inp : LoopInput)
    (rfd : Finset ℤ) : ∀ w ∈ s.clientWrites cfg inp rfd, w.Within ethFrameLen := by
  unfold clientWrites
  cases hmsg : clientMessage inp rfd s with
  | none => exact fun w hw => absurd hw List.not_mem_nil
  | some bs =>
    unfold clientMessage at hmsg
    split_ifs at hmsg
    obtain ⟨raw, hraw, rfl⟩ := Option.map_eq_some_iff.mp (Option.filter_eq_some_iff.mp hmsg).1
    exact List.forall_mem_cons.mpr ⟨within_received raw, within_parseWrites h _ _⟩

theorem within_frameWrites (i : Fin 4) (s : Server) :
    ∀ w ∈ s.frameWrites i, w.Within ethFrameLen := by
  have hrecord : (⟨1, (s.nano i).indat.serial⟩ : Write UInt8).Within ethFrameLen := by
    refine Write.within_of_le ?_
    rw [Indata.length_serial]
    exact (by decide : 1 + 8 ≤ ethFrameLen)
  exact List.forall_mem_cons.mpr
    ⟨hrecord, List.forall_mem_singleton.mpr (Write.within_of_le (by decide))⟩

/-- The writes of a message are within the buffer unless its terminating zero is behind it. -/
theorem within_messageWrites_iff (cfg : ServerConfig) (raw : List UInt8) (i : Fin 4) (s : Server) :
    (∀ w ∈ s.messageWrites cfg (raw.take ethFrameLen) i, w.Within ethFrameLen) ↔
      ¬((s.nano i).init = true ∧ ethFrameLen ≤ raw.length) := by
  have hframe : ∀ w ∈ if s.Answered cfg (raw.take ethFrameLen) i then s.frameWrites i else [],
      w.Within ethFrameLen := by
    split_ifs
    · exact within_frameWrites i s
    · exact fun w hw => absurd hw List.not_mem_nil
  have hlength : (raw.take ethFrameLen).length = min ethFrameLen raw.length := List.length_take
  rw [messageWrites, List.forall_mem_append, and_iff_left hframe, List.forall_mem_cons,
    and_iff_right (within_received raw)]
  split_ifs with hterminates
  · rw [List.forall_mem_singleton, and_iff_right hterminates.2, hlength]
    constructor
    · intro h hle
      have hlt : min ethFrameLen raw.length + 0 < ethFrameLen := h 0 Nat.one_pos
      omega
    · intro h
      refine Write.within_of_le ?_
      show min ethFrameLen raw.length + 1 ≤ ethFrameLen
      omega
  · refine iff_of_true (fun w hw => absurd hw List.not_mem_nil) fun ⟨hinit, hle⟩ => ?_
    -- a message that fills the buffer is not a record
    refine hterminates ⟨Or.inl ?_, hinit⟩
    rw [hlength, min_eq_left hle]
    decide

theorem within_boardWrites_iff (cfg : ServerConfig) (inp : LoopInput) (rfd : Finset ℤ) (s : Server)
    (i : Fin 4) : (∀ w ∈ s.boardWrites cfg inp rfd i, w.Within ethFrameLen) ↔
      ¬s.Overfills inp rfd i := by
  unfold boardWrites Overfills
  split_ifs with hready
  · cases (inp.board i).recv with
    | none =>
      exact iff_of_true (fun w hw => absurd hw List.not_mem_nil) (by simp)
    | some raw =>
      refine (within_messageWrites_iff cfg raw i s).trans (not_congr ?_)
      simp [hready]
  · exact iff_of_true (fun w hw => absurd hw List.not_mem_nil) fun h => hready h.1

theorem nano_message_of_ne {j : Fin 4} (h : j ≠ i) (cfg : ServerConfig) (send : Bool)
    (bs : List UInt8) (s : Server) : (s.message cfg send bs i).nano j = s.nano j := by
  have hsend : ∀ t : Server, (t.sendIndat send i).nano = t.nano := fun t => by cases send <;> rfl
  have hgreet : ((s.fill bs).greet bs i).nano j = s.nano j :=
    nano_updateNano_of_ne h (fun b => { b with init := false }) (s.fill bs)
  by_cases hrecord : NotRecord bs
  · cases hinit : (s.nano i).init with
    | true =>
      rw [message_handshake hrecord hinit]
      refine handshake_cases (P := fun t => t.nano j = s.nano j) ?_ ?_ ?_
      · exact (nano_updateNano_of_ne h _ _).trans hgreet
      · rw [hsend]
        exact hgreet
      · rw [hsend]
        exact hgreet
    | false =>
      rw [message_wrongData hrecord hinit, (wrongData_memory i _).nano]
      rfl
  · rw [message_record hrecord, hsend]
    exact nano_updateNano_of_ne h (fun b => { b with outdat := Outdata.ofSerial (bs.drop 1) })
      (s.fill bs)

/-- Reading from a board leaves the others alone. -/
theorem nano_readBoard_of_ne {j : Fin 4} (h : j ≠ i) (cfg : ServerConfig) (io : BoardIO)
    (rfd : Finset ℤ) (s : Server) : (s.readBoard cfg io rfd i).nano j = s.nano j := by
  by_cases hready : (s.nano i).sd ∈ rfd
  · rw [readBoard_of_ready hready]
    cases io.recv.map (List.take ethFrameLen) with
    | none => rfl
    | some bs => exact nano_message_of_ne h cfg io.send bs _
  · rw [readBoard_of_not_ready hready]
    rfl

/-- The writes that read from the boards are within the buffer unless a board overfills it. -/
theorem within_readBoards_iff (cfg : ServerConfig) (inp : LoopInput) (rfd : Finset ℤ)
    (s : Server) : (∀ w ∈ Write.along (fun s i => s.readBoard cfg (inp.board i) rfd i)
      (boardWrites cfg inp rfd) (List.finRange 4) s, w.Within ethFrameLen) ↔
      ∀ i, ¬s.Overfills inp rfd i := by
  rw [Write.forall_along_iff (C := fun i s => ¬s.Overfills inp rfd i)
    (within_boardWrites_iff cfg inp rfd) ?_ (List.nodup_finRange 4)]
  · simp only [List.mem_finRange, true_imp_iff]
  · intro s i j hij
    rw [Overfills, Overfills, nano_readBoard_of_ne hij.symm]

/-! ### An iteration -/

/-- No board overfills the buffer in the part of an iteration after `select`. -/
def NoneOverfills (inp : LoopInput) (rfd : Finset ℤ) (s : Server) : Prop :=
  ¬(s.acceptClient inp rfd).ClientDropped inp rfd → ∀ i, ¬s.Overfills inp rfd i

theorem serveClient_dropped (parse : ParseCommand) (inp : LoopInput) (rfd : Finset ℤ) (s : Server) :
    (s.serveClient parse inp rfd).2 = true ↔ s.ClientDropped inp rfd := by
  have hcases := serveClient_cases parse inp rfd s
  generalize s.serveClient parse inp rfd = r at hcases ⊢
  cases hcases with
  | absent hsd => exact iff_of_false Bool.false_ne_true fun h => h.1 hsd
  | silent hsd hready => exact iff_of_false Bool.false_ne_true fun h => hready h.2.1
  | gone hsd hready hmsg => exact iff_of_true rfl ⟨hsd, hready, Or.inl hmsg⟩
  | answered b bs hsd hready hmsg hsend =>
    refine iff_of_false Bool.false_ne_true fun ⟨_, _, hdrop⟩ => ?_
    rw [hmsg, hsend] at hdrop
    exact hdrop.elim (List.cons_ne_nil b bs) (by decide)
  | unanswered b bs hsd hready hmsg hsend => exact iff_of_true rfl ⟨hsd, hready, Or.inr hsend⟩

/-- The client and the boards that are handled after it. -/
theorem within_handleWrites_iff (h : SmallAcc s.car) (cfg : ServerConfig) (inp : LoopInput)
    (rfd : Finset ℤ) :
    (∀ w ∈ s.handleWrites cfg inp rfd, w.Within ethFrameLen) ↔ s.NoneOverfills inp rfd := by
  have haccept := acceptClient_memory inp rfd s
  have hclient := within_clientWrites (haccept.car ▸ h) cfg inp rfd
  have hdropped := serveClient_dropped (parseCommand cfg.car) inp rfd (s.acceptClient inp rfd)
  obtain ⟨hnano, -⟩ := serveClient_spec (parseCommand cfg.car) inp rfd (s.acceptClient inp rfd)
  rw [handleWrites, List.forall_mem_append, and_iff_right hclient, NoneOverfills, ← hdropped]
  split_ifs with hdrop
  · exact iff_of_true (fun w hw => absurd hw List.not_mem_nil) fun hno => absurd hdrop hno
  · rw [forall_prop_of_true hdrop, within_readBoards_iff]
    simp only [Overfills, hnano, haccept.nano]

/-- The part before `select` changes no variable of the car but the ones that `handle_car` sets. -/
theorem car_prepare (cfg : ServerConfig) (inp : LoopInput) (s : Server) :
    (s.prepare cfg inp).car = (s.handleCar cfg).car := by
  refine Sweep.foldl_invariant (I := fun t : Server => t.car = (s.handleCar cfg).car)
    (fun t i ht => ?_) (List.finRange 4) (tick_memory cfg inp _).car
  unfold reconnect
  split_ifs
  · cases inp.attempt i <;> exact ht
  · exact ht

/-- Whatever the state was, the acceleration is small when the client is served. -/
theorem smallAcc_of_selected (h : s.selected cfg inp = some (t, rfd)) : SmallAcc t.car := by
  have hprepare : SmallAcc (s.prepare cfg inp).car := by
    rw [car_prepare]
    exact smallAcc_accHandler s.car.vLeft s.car.vRight s.nano
  obtain rfl | rfl := eq_of_selected h
  · exact hprepare
  · exact hprepare

/-- Only the part after `select` can leave the buffer. -/
theorem within_iterateWrites (cfg : ServerConfig) (inp : LoopInput) (s : Server) :
    (∀ w ∈ s.iterateWrites cfg inp, w.Within ethFrameLen) ↔
      ∀ t rfd, s.selected cfg inp = some (t, rfd) →
        ∀ w ∈ t.handleWrites cfg inp rfd, w.Within ethFrameLen := by
  have hreconnect : ∀ w ∈ Write.along (fun s i => s.reconnect inp i) (reconnectWrites inp)
      (List.finRange 4) ((s.handleCar cfg).tick cfg inp), w.Within ethFrameLen :=
    Write.forall_along (within_reconnectWrites inp) _ _
  rw [iterateWrites, List.forall_mem_append, and_iff_right hreconnect]
  cases s.selected cfg inp with
  | none => simp
  | some r =>
    constructor
    · rintro hwithin t rfd heq
      obtain rfl := Option.some.inj heq
      exact hwithin
    · exact fun hall => hall r.1 r.2 rfl

theorem selected_of_ready (h : (s.prepare cfg inp).select inp = .ready rfd) :
    s.selected cfg inp = some (s.prepare cfg inp, rfd) := by
  unfold selected
  dsimp only
  rw [h]

end Server

open Server

/-- **The bounds of the buffer**: an iteration writes within the buffer exactly when no board that
is read in it sends a first message that fills the buffer. -/
theorem bufferBounds_iff (cfg : ServerConfig) (inp : LoopInput) (s : Server) :
    (∀ w ∈ s.iterateWrites cfg inp, w.Within ethFrameLen) ↔
      ∀ t rfd, s.selected cfg inp = some (t, rfd) → t.NoneOverfills inp rfd := by
  refine (within_iterateWrites cfg inp s).trans ?_
  refine forall₃_congr fun t rfd hselected => ?_
  exact within_handleWrites_iff (smallAcc_of_selected hselected) cfg inp rfd

/-- Board 0 answers the `'I'` with a message that fills the buffer. -/
def longGreeting : LoopInput :=
  { select := .ready {3}, board := fun _ => { recv := some (List.replicate ethFrameLen 120) } }

/-- **A first message of 1514 bytes** is terminated behind the buffer. -/
theorem bufferBounds_fails : ¬ ∀ (cfg : ServerConfig) (inp : LoopInput) (s : Server),
    ∀ w ∈ s.iterateWrites cfg inp, w.Within ethFrameLen := by
  intro h
  have hselect : (started.prepare carserverCfg longGreeting).select longGreeting = .ready {3} := by
    decide +kernel
  have hselected := selected_of_ready hselect
  have hwithin := (within_iterateWrites carserverCfg longGreeting started).mp
    (h carserverCfg longGreeting started) _ _ hselected
  have hnone := (within_handleWrites_iff (smallAcc_of_selected hselected) carserverCfg longGreeting
    {3}).mp hwithin
  have hclient : ¬((started.prepare carserverCfg longGreeting).acceptClient
      longGreeting {3}).ClientDropped longGreeting {3} := by
    decide +kernel
  have hready : ((started.prepare carserverCfg longGreeting).nano 0).sd ∈ ({3} : Finset ℤ) := by
    decide +kernel
  have hinit : ((started.prepare carserverCfg longGreeting).nano 0).init = true := by
    decide +kernel
  exact hnone hclient 0 ⟨hready, hinit, _, rfl, List.length_replicate.ge⟩

end LegoCar
