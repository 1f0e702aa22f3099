import Mathlib
import LegoCar.Lib.Dialogue
import LegoCar.Wire.HostStream
import LegoCar.Board.Conversation
import LegoCar.Server.Connection

/-!
# The link between the server and a board

The two ends of a connection and what has passed between them: the connection as the server keeps
it, the board, all bytes each side has sent or received, and the history of records as a dialogue.
The board moves by an iteration of its firmware (`Link.board`), the server by a message that it
receives and answers (`Link.serve`).

`Link.Sound` is the invariant: exactly one message is in flight, the `'I'` that opens the link, the
version string, a frame of the server or a reply of the board; everything sent before it has been
taken, and the FIFOs hold no more than this message. `Sound.board` and `Sound.serve` show that both
sides keep it and refine the dialogue, as long as the board does not time out and the server
receives whole messages.
-/

namespace LegoCar

open Relation Uart Board
open Server (NotRecord)

namespace Uart

/-- What the wire has taken from the core. -/
def onWire (u : Uart) : List UInt8 := u.said.take (u.said.length - u.tx.length)

/-- The bytes `bs`, received after `before`, have come over the wire, and nothing that the board has
written is missing. -/
structure Arrived (u : Uart) (before bs : List UInt8) : Prop where
  ne_nil : bs ≠ []
  carried : before ++ bs <+: u.onWire
  whole : before ++ bs = u.said

instance (u : Uart) (before bs : List UInt8) : Decidable (u.Arrived before bs) :=
  decidable_of_iff (bs ≠ [] ∧ before ++ bs <+: u.onWire ∧ before ++ bs = u.said)
    ⟨fun h => ⟨h.1, h.2.1, h.2.2⟩, fun h => ⟨h.ne_nil, h.carried, h.whole⟩⟩

/-- When everything written has arrived, nothing waits to be transmitted. -/
theorem Arrived.tx_eq_nil {u : Uart} {before bs : List UInt8} (h : u.Arrived before bs) :
    u.tx = [] := by
  have hlen := h.carried.length_le
  have hpos : 0 < u.said.length := by
    rw [← h.whole, List.length_append]
    exact Nat.add_pos_right _ (List.length_pos_iff.mpr h.ne_nil)
  rw [h.whole, onWire, List.length_take] at hlen
  exact List.length_eq_zero_iff.mp (by omega)

/-- Nothing was lost or dropped, and the transmit FIFO holds no more than one reply. -/
structure Healthy (u : Uart) : Prop where
  lost : u.lost = 0
  whole : Whole u
  backlog : u.tx.length ≤ 53

end Uart

/-- The two ends of a connection, and its history. -/
structure Link where
  conn : Conn
  board : Board
  /-- every byte the server has sent -/
  sent : List UInt8
  /-- every byte the server has received -/
  received : List UInt8
  dialogue : Dialogue Indata Outdata

namespace Link

/-- An iteration of the firmware: the record it accepts, and the record in its reply. -/
def iterate (inp : BoardInput) (l : Link) : Link :=
  let r := iteration inp l.board
  { l with
    board := r.1
    dialogue := l.dialogue.answer r.2.accepted.toList
      (r.2.reply.toList.map fun bs => Outdata.ofSerial (bs.drop 1)) }

/-- The record in a message of a board, if it is stored. -/
def recordIn (bs : List UInt8) : List Outdata :=
  if NotRecord bs then [] else [Outdata.ofSerial (bs.drop 1)]

/-- The server receives a message, if any, and answers it with the frame of `f`. -/
def serve (version : List UInt8) (msg : Option (List UInt8)) (f : Indata) (l : Link) : Link :=
  match msg with
  | none => l
  | some bs =>
    { conn := l.conn.recv version bs
      board := l.board
      sent := l.sent ++ tagS :: f.serial
      received := l.received ++ bs
      dialogue := l.dialogue.ask (recordIn bs) [f] }

/-! ### The invariant -/

/-- Where the message in flight is. -/
inductive Phase (l : Link) : Prop where
  /-- the `'I'` is on its way -/
  | hello (o : Outdata) (hconn : l.conn = .greeting o) (hlink : l.board.connBroken = true)
      (hsent : l.sent = [tagI]) (hheard : l.board.uart.heard = []) (hrx : l.board.uart.rx = [])
      (hsaid : l.board.uart.said = []) (hreceived : l.received = [])
      (hdialogue : l.dialogue = .silent)
  /-- the version string is on its way -/
  | version (o : Outdata) (hconn : l.conn = .greeting o) (hlink : l.board.connBroken = false)
      (hsent : l.sent = [tagI]) (hheard : l.board.uart.heard = l.sent)
      (hrx : l.board.uart.rx = []) (hsaid : l.board.uart.said = versionName)
      (hreceived : l.received = []) (hdialogue : l.dialogue = .silent)
  /-- a frame is on its way -/
  | request (f : Indata) (o : Outdata) (before : List UInt8) (hconn : l.conn = .up o)
      (hlink : l.board.connBroken = false) (hsent : l.sent = before ++ tagS :: f.serial)
      (hheard : l.board.uart.heard = before ++ l.board.uart.rx)
      (hsaid : l.board.uart.said = l.received) (htx : l.board.uart.tx = [])
      (hreceived : l.received = versionName ++ l.dialogue.heard.flatMap recordFrame)
      (hasked : l.dialogue.asked = l.dialogue.taken ++ [f])
      (hgiven : l.dialogue.given = l.dialogue.heard)
  /-- a reply is on its way -/
  | reply (r : Outdata) (o : Outdata) (hconn : l.conn = .up o) (hlink : l.board.connBroken = false)
      (hheard : l.board.uart.heard = l.sent) (hrx : l.board.uart.rx = [])
      (hsaid : l.board.uart.said = l.received ++ recordFrame r)
      (hreceived : l.received = versionName ++ l.dialogue.heard.flatMap recordFrame)
      (hasked : l.dialogue.asked = l.dialogue.taken)
      (hgiven : l.dialogue.given = l.dialogue.heard ++ [r])

/-- **The invariant of a link.** -/
structure Sound (l : Link) : Prop where
  phase : l.Phase
  healthy : l.board.uart.Healthy
  sent : l.sent = tagI :: framesOf l.dialogue.asked
  stored : ∀ o ∈ l.dialogue.heard.getLast?, l.conn = .up o
  obeys : ∀ f ∈ l.dialogue.taken.getLast?, l.board.outdat.W = f.W

/-- The state of a link when the server has sent an `'I'` to a board that has just been switched
on. -/
def opened (conn : Conn) (board : Board) : Link := ⟨conn, board, [tagI], [], .silent⟩

theorem sound_opened {o : Outdata} {b : Board} (hlink : b.connBroken = true) (huart : b.uart = {}) :
    (opened (.greeting o) b).Sound where
  phase := by
    refine .hello o rfl hlink rfl ?_ ?_ ?_ rfl rfl
    · rw [opened, huart]
    · rw [opened, huart]
    · rw [opened, huart]
  healthy := by
    rw [opened, huart]
    exact ⟨rfl, ⟨rfl, List.suffix_refl _⟩, Nat.zero_le _⟩
  sent := rfl
  stored := fun o h => absurd h (Option.not_mem_none o)
  obeys := fun f h => absurd h (Option.not_mem_none f)

variable {l : Link} {inp : BoardInput}

/-! ### The board -/

/-- With nothing on its way, nothing is lost. -/
theorem lost_iteration_of_nothing (hheard : l.board.uart.heard = l.sent)
    (hrx : l.board.uart.rx = []) (hsent : (iteration inp l.board).1.uart.heard <+: l.sent) :
    (iteration inp l.board).1.uart.lost = l.board.uart.lost := by
  have hnothing : Pending [] := Or.inl rfl
  have hheard' : l.board.uart.heard = l.sent ++ l.board.uart.rx := by
    rw [hheard, hrx, List.append_nil]
  exact lost_iteration_of_pending hnothing hheard' (by rwa [List.append_nil])

/-- No more is on its way to the board than a frame. -/
theorem Phase.fits (h : l.Phase) (hsent : (iteration inp l.board).1.uart.heard <+: l.sent) :
    (iteration inp l.board).1.uart.lost = l.board.uart.lost := by
  cases h with
  | hello o _ _ hs hheard hrx =>
    obtain ⟨arrived, harrived, -, hlost⟩ := (contained_iteration inp l.board).room
    rw [harrived, hheard, hs, List.nil_append] at hsent
    refine hlost ?_
    rw [hrx, List.length_nil, Nat.zero_add]
    exact hsent.length_le.trans (by decide)
  | version o _ _ _ hheard hrx =>
    exact lost_iteration_of_nothing hheard hrx hsent
  | request f o before _ _ hs hheard =>
    exact lost_iteration_of_pending (Or.inr ⟨f, rfl⟩) hheard (hs ▸ hsent)
  | reply r o _ _ hheard hrx =>
    exact lost_iteration_of_nothing hheard hrx hsent

/-- A healthy core stays so when nothing is lost and there is room for a reply. -/
theorem healthy_iteration {b : Board} (h : b.uart.Healthy)
    (hlost : (iteration inp b).1.uart.lost = b.uart.lost)
    (hroom : b.uart.tx.length + ((iteration inp b).1.uart.said.length - b.uart.said.length) ≤ 53) :
    (iteration inp b).1.uart.Healthy where
  lost := hlost.trans h.lost
  whole := (sends_iteration_of_backlog inp (by
    have hbacklog := h.backlog
    rw [fifoSize]
    omega)).whole h.whole
  backlog := by
    have hcontained := (contained_iteration inp b).backlog
    omega

/-- With the link down, no record is accepted and none is sent. -/
theorem iteration_silent (inp : BoardInput) {b : Board} (hb : b.connBroken = true) :
    (iteration inp b).2.accepted = none ∧ (iteration inp b).2.reply = none := by
  have hreply : (iteration inp b).2.reply = (b.countIteration.communicate inp.uart).2.2 := rfl
  rw [hreply, iteration_accepted, communicate_of_down (b := b.countIteration) hb]
  exact ⟨rfl, rfl⟩

theorem iterate_of_none (haccepted : (iteration inp l.board).2.accepted = none)
    (hreply : (iteration inp l.board).2.reply = none) :
    l.iterate inp = { l with board := (iteration inp l.board).1 } := by
  unfold iterate
  dsimp only
  rw [haccepted, hreply, Option.toList_none, Option.toList_none, List.map_nil,
    Dialogue.answer_nil]

/-- **The first byte**: the board has heard nothing, or has taken the `'I'` and written the version
string. -/
theorem hello_iteration {b : Board} (hlink : b.connBroken = true) (hheard : b.uart.heard = [])
    (hrx : b.uart.rx = []) (hlost : (iteration inp b).1.uart.lost = b.uart.lost)
    (hsent : (iteration inp b).1.uart.heard <+: [tagI]) :
    (iteration inp b).1.uart.rx = [] ∧
      (((iteration inp b).1.connBroken = true ∧ (iteration inp b).1.uart.heard = [] ∧
        (iteration inp b).1.uart.said = b.uart.said) ∨
      ((iteration inp b).1.connBroken = false ∧ (iteration inp b).1.uart.heard = [tagI] ∧
        (iteration inp b).1.uart.said = b.uart.said ++ versionName)) := by
  have hflow : ∀ taken, b.uart.Flow taken (iteration inp b).1.uart →
      (iteration inp b).1.uart.heard = taken ++ (iteration inp b).1.uart.rx := by
    rintro taken ⟨arrived, harrived, hqueue⟩
    rw [hrx] at hqueue
    rw [harrived, hheard, List.nil_append, hqueue.arrived_eq]
  have hgreet := iteration_greetStep inp hlink hlost
  generalize iteration inp b = r at *
  cases hgreet with
  | quiet hlink' hsaid _ htaken hrx' =>
    refine ⟨hrx', Or.inl ⟨hlink', ?_, hsaid⟩⟩
    rw [hflow [] htaken, hrx', List.append_nil]
  | other c hc _ _ htaken =>
    rw [hflow _ htaken] at hsent
    exact absurd (List.cons_prefix_cons.mp hsent).1 hc
  | started d hlink' _ hsaid htaken =>
    have hheard' := hflow _ htaken
    rw [hheard'] at hsent
    obtain ⟨rfl, hrx'⟩ :=
      List.append_eq_nil_iff.mp (List.prefix_nil.mp (List.cons_prefix_cons.mp hsent).2)
    rw [hrx', List.append_nil] at hheard'
    exact ⟨hrx', Or.inr ⟨hlink', hheard', hsaid⟩⟩

/-- A board with no frame on its way waits. -/
theorem waits_of_heard (hlink : l.board.connBroken = false) (hto : l.board.uartTimeout + 1 < 50)
    (hheard : l.board.uart.heard = l.sent) (hrx : l.board.uart.rx = [])
    (hsent : (iteration inp l.board).1.uart.heard <+: l.sent) :
    l.iterate inp = { l with board := (iteration inp l.board).1 } ∧
      (iteration inp l.board).1.connBroken = false ∧
      (iteration inp l.board).1.outdat.W = l.board.outdat.W ∧
      (iteration inp l.board).1.uart.heard = l.sent ∧ (iteration inp l.board).1.uart.rx = [] ∧
      (iteration inp l.board).1.uart.said = l.board.uart.said := by
  have hstep : AwaitStep l.sent [] l.board (iteration inp l.board) :=
    iteration_awaitStep hlink hto (Or.inl rfl) (by rw [hheard, hrx, List.append_nil])
      (by rwa [List.append_nil])
  cases hstep with
  | waits haccepted hreply hlink' _ hW hheard' _ hsaid =>
    have hrx' : (iteration inp l.board).1.uart.rx = [] := by
      have hlen := hsent.length_le
      rw [hheard', List.length_append] at hlen
      exact List.length_eq_zero_iff.mp (by omega)
    refine ⟨iterate_of_none haccepted hreply, hlink', hW, ?_, hrx', hsaid⟩
    rw [hheard', hrx', List.append_nil]
  | answers f o hrest => exact absurd hrest (by simp)

/-- What an iteration that writes nothing keeps. -/
theorem Sound.of_quiet (h : l.Sound) (hphase : { l with board := (iteration inp l.board).1 }.Phase)
    (hlost : (iteration inp l.board).1.uart.lost = l.board.uart.lost)
    (hsaid : (iteration inp l.board).1.uart.said = l.board.uart.said)
    (hW : l.dialogue.taken ≠ [] → (iteration inp l.board).1.outdat.W = l.board.outdat.W) :
    { l with board := (iteration inp l.board).1 }.Sound where
  phase := hphase
  healthy := by
    refine healthy_iteration h.healthy hlost ?_
    rw [hsaid, Nat.sub_self]
    exact h.healthy.backlog
  sent := h.sent
  stored := h.stored
  obeys := fun f hf => by
    have hlast : f ∈ l.dialogue.taken.getLast? := hf
    refine (hW fun hnil => ?_).trans (h.obeys f hf)
    rw [hnil] at hlast
    exact absurd hlast (Option.not_mem_none f)

/-- **The board keeps the invariant**, and answers a request or leaves the dialogue alone. -/
theorem Sound.iterate (h : l.Sound) (hsent : (iteration inp l.board).1.uart.heard <+: l.sent)
    (hto : l.board.connBroken = false → l.board.uartTimeout + 1 < 50) :
    (l.iterate inp).Sound ∧ ReflTransGen Dialogue.Step l.dialogue (l.iterate inp).dialogue := by
  have hlost := h.phase.fits hsent
  cases h.phase with
  | hello o hconn hlink hs hheard hrx hsaid hrec hdialogue =>
    obtain ⟨haccepted, hreply⟩ := iteration_silent inp hlink
    have htaken : l.dialogue.taken = [] := by
      rw [hdialogue]
      rfl
    rw [iterate_of_none haccepted hreply]
    obtain ⟨hrx', ⟨hlink', hheard', hsaid'⟩ | ⟨hlink', hheard', hsaid'⟩⟩ :=
      hello_iteration hlink hheard hrx hlost (hs ▸ hsent)
    · exact ⟨h.of_quiet (.hello o hconn hlink' hs hheard' hrx' (hsaid'.trans hsaid) hrec hdialogue)
        hlost hsaid' fun hne => absurd htaken hne, .refl⟩
    · -- the version string is written
      rw [hsaid, List.nil_append] at hsaid'
      refine ⟨⟨.version o hconn hlink' hs (hheard'.trans hs.symm) hrx' hsaid' hrec hdialogue, ?_,
        h.sent, h.stored, fun f hf => ?_⟩, .refl⟩
      · refine healthy_iteration h.healthy hlost ?_
        have htx := h.healthy.whole.sent.length_le
        rw [hsaid] at htx
        rw [hsaid', hsaid]
        have hversion : versionName.length = 23 := rfl
        rw [List.length_nil] at htx ⊢
        omega
      · rw [htaken] at hf
        exact absurd hf (Option.not_mem_none f)
  | version o hconn hlink hs hheard hrx hsaid hrec hdialogue =>
    obtain ⟨heq, hlink', hW, hheard', hrx', hsaid'⟩ :=
      waits_of_heard hlink (hto hlink) hheard hrx hsent
    rw [heq]
    exact ⟨h.of_quiet (.version o hconn hlink' hs hheard' hrx' (hsaid'.trans hsaid) hrec hdialogue)
      hlost hsaid' fun _ => hW, .refl⟩
  | request f o before hconn hlink hs hheard hsaid htx hreceived hasked hgiven =>
    have hstep := iteration_awaitStep hlink (hto hlink) (Or.inr ⟨f, rfl⟩) hheard (hs ▸ hsent)
    cases hstep with
    | waits haccepted hreply hlink' _ hW hheard' _ hsaid' =>
      have htx' : (iteration inp l.board).1.uart.tx = [] := by
        have hcontained := (contained_iteration inp l.board).backlog
        rw [hsaid', htx] at hcontained
        exact List.length_eq_zero_iff.mp (by simpa using hcontained)
      rw [iterate_of_none haccepted hreply]
      exact ⟨h.of_quiet (.request f o before hconn hlink' hs hheard' (hsaid'.trans hsaid) htx'
        hreceived hasked hgiven) hlost hsaid' fun _ => hW, .refl⟩
    | answers f' r hrest haccepted hreply hlink' _ hW hheard' hrx' hsaid' =>
      have hf : f' = f := by
        rw [← Indata.ofSerial_serial f', ← Indata.ofSerial_serial f, (List.cons.inj hrest).2]
      subst hf
      have heq : l.iterate inp = { l with
          board := (iteration inp l.board).1
          dialogue := l.dialogue.answer [f'] [r] } := by
        unfold Link.iterate
        dsimp only
        rw [haccepted, hreply]
        simp
      rw [heq]
      refine ⟨⟨.reply r o hconn hlink' (hheard'.trans hs.symm) hrx' ?_ hreceived ?_ ?_, ?_, h.sent,
        h.stored, fun g hg => ?_⟩, .single (.answer f' r hasked)⟩
      · rw [hsaid', hsaid]
        rfl
      · exact hasked
      · exact congrArg (· ++ [r]) hgiven
      · refine healthy_iteration h.healthy hlost ?_
        rw [hsaid', htx, List.length_append, List.length_cons, r.length_serial, List.length_nil]
        omega
      · obtain rfl : f' = g := by simpa [Dialogue.answer] using hg
        exact hW
  | reply r o hconn hlink hheard hrx hsaid hreceived hasked hgiven =>
    obtain ⟨heq, hlink', hW, hheard', hrx', hsaid'⟩ :=
      waits_of_heard hlink (hto hlink) hheard hrx hsent
    rw [heq]
    exact ⟨h.of_quiet (.reply r o hconn hlink' hheard' hrx' (hsaid'.trans hsaid) hreceived hasked
      hgiven) hlost hsaid' fun _ => hW, .refl⟩

/-! ### The server -/

variable {bs : List UInt8} {f : Indata}

theorem cString_versionName : cString versionName = versionName := by decide

theorem notRecord_versionName : NotRecord versionName := by decide

/-- A message that arrives whole is the version string on a new connection, or a reply. -/
theorem Sound.message (h : l.Sound) (harrived : l.board.uart.Arrived l.received bs) :
    (bs = versionName ∧ ∃ o, l.conn = .greeting o) ∨
      ∃ r o, bs = recordFrame r ∧ l.conn = .up o := by
  obtain ⟨hne, -, hwhole⟩ := harrived
  cases h.phase with
  | hello o _ _ _ _ _ hsaid hreceived =>
    rw [hsaid, hreceived, List.nil_append] at hwhole
    exact absurd hwhole hne
  | version o hconn _ _ _ _ hsaid hreceived =>
    rw [hsaid, hreceived, List.nil_append] at hwhole
    exact Or.inl ⟨hwhole, o, hconn⟩
  | request _ o _ _ _ _ _ hsaid =>
    rw [hsaid, List.append_right_eq_self] at hwhole
    exact absurd hwhole hne
  | reply r o hconn _ _ _ hsaid =>
    rw [hsaid, List.append_cancel_left_eq] at hwhole
    exact Or.inr ⟨r, o, hwhole, hconn⟩

/-- The server stays connected to a board whose messages arrive whole. -/
theorem Sound.recv_ne_down (h : l.Sound) (harrived : l.board.uart.Arrived l.received bs) :
    l.conn.recv versionName bs ≠ .down := by
  obtain ⟨rfl, o, hconn⟩ | ⟨r, o, rfl, hconn⟩ := h.message harrived
  · rw [hconn, Conn.recv, if_pos notRecord_versionName, if_pos cString_versionName]
    simp
  · rw [hconn, Conn.recv_recordFrame]
    simp

/-- **The server keeps the invariant**: it hears the reply, if the message is one, and sends a
request. -/
theorem Sound.serve (h : l.Sound) (harrived : l.board.uart.Arrived l.received bs) (f : Indata) :
    (l.serve versionName (some bs) f).Sound ∧
      ReflTransGen Dialogue.Step l.dialogue (l.serve versionName (some bs) f).dialogue := by
  have hwhole := harrived.whole
  have htx := harrived.tx_eq_nil
  have hbytes : l.sent ++ tagS :: f.serial = tagI :: framesOf (l.dialogue.asked ++ [f]) := by
    rw [h.sent, framesOf_append, framesOf_cons, framesOf_nil, List.append_nil, List.cons_append]
  cases h.phase with
  | hello o _ _ _ _ _ hsaid hreceived =>
    rw [hsaid, hreceived, List.nil_append] at hwhole
    exact absurd hwhole harrived.ne_nil
  | version o hconn hlink hs hheard hrx hsaid hreceived hdialogue =>
    rw [hsaid, hreceived, List.nil_append] at hwhole
    subst hwhole
    have hrecord : recordIn versionName = [] := if_pos notRecord_versionName
    have hup : l.conn.recv versionName versionName = .up o := by
      rw [hconn, Conn.recv, if_pos notRecord_versionName, if_pos cString_versionName]
    have htaken : l.dialogue.taken = [] := by
      rw [hdialogue]
      rfl
    have hheards : l.dialogue.heard = [] := by
      rw [hdialogue]
      rfl
    rw [Link.serve, hrecord]
    refine ⟨⟨.request f o l.sent hup hlink rfl ?_ ?_ htx ?_ ?_ ?_, h.healthy, hbytes, ?_, ?_⟩, ?_⟩
    · rw [hheard, hrx, List.append_nil]
    · rw [hsaid, hreceived, List.nil_append]
    · rw [hreceived, Dialogue.ask, hheards]
      rfl
    · rw [hdialogue]
      rfl
    · rw [hdialogue]
      rfl
    · rw [Dialogue.ask, hheards]
      exact fun o ho => absurd ho (Option.not_mem_none o)
    · rw [Dialogue.ask, htaken]
      exact fun f hf => absurd hf (Option.not_mem_none f)
    · rw [hdialogue]
      exact .single (.first f)
  | request g o before _ _ _ _ hsaid =>
    rw [hsaid, List.append_right_eq_self] at hwhole
    exact absurd hwhole harrived.ne_nil
  | reply r o hconn hlink hheard hrx hsaid hreceived hasked hgiven =>
    rw [hsaid, List.append_cancel_left_eq] at hwhole
    subst hwhole
    have hrecord : recordIn (recordFrame r) = [r] := by
      rw [recordIn, if_neg (not_notRecord_recordFrame r), recordFrame, List.drop_one,
        List.tail_cons, Outdata.ofSerial_serial]
    have hup : l.conn.recv versionName (recordFrame r) = .up r := by
      rw [hconn, Conn.recv_recordFrame]
    rw [Link.serve, hrecord]
    refine ⟨⟨.request f r l.sent hup hlink rfl ?_ hsaid htx ?_ ?_ hgiven, h.healthy, hbytes, ?_,
      h.obeys⟩, .single (.ask r f hgiven)⟩
    · rw [hheard, hrx, List.append_nil]
    · rw [hreceived, List.append_assoc]
      simp [Dialogue.ask]
    · exact congrArg (· ++ [f]) hasked
    · intro o' ho'
      obtain rfl : r = o' := by simpa [Dialogue.ask] using ho'
      exact hup

/-! ### What an observer sees -/

/-- The board has written the version string and its replies, in full. -/
theorem Sound.said (h : l.Sound) :
    (l.board.uart.said = [] ∧ l.dialogue = .silent) ∨
      l.board.uart.said = versionName ++ l.dialogue.given.flatMap recordFrame := by
  cases h.phase with
  | hello o _ _ _ _ _ hsaid _ hdialogue => exact Or.inl ⟨hsaid, hdialogue⟩
  | version o _ _ _ _ _ hsaid _ hdialogue =>
    refine Or.inr ?_
    rw [hsaid, hdialogue]
    rfl
  | request f o before _ _ _ _ hsaid _ hreceived _ hgiven =>
    exact Or.inr (by rw [hsaid, hreceived, hgiven])
  | reply r o _ _ _ _ hsaid hreceived _ hgiven =>
    refine Or.inr ?_
    rw [hsaid, hreceived, hgiven, List.flatMap_append, List.flatMap_singleton, List.append_assoc]

/-- A sound connection has not been closed. -/
theorem Sound.ne_down (h : l.Sound) : l.conn ≠ .down := by
  cases h.phase with
  | hello o hconn | version o hconn | request _ o _ hconn | reply _ o hconn =>
    rw [hconn]
    simp

end Link

end LegoCar
