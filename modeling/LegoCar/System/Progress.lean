import Mathlib
import LegoCar.System.ClosedLoop

/-!
# The conversation goes on

No run of the vehicle gets stuck: from every state in which the server runs and a board is not about
to time out, a few allowed events bring the next reply of the board to the server, and this can be
repeated for ever (`Vehicle.progress`). What `Vehicle.obeys` and `Vehicle.stops` say about two more
replies is therefore never said in vain.

Two events alternate: what was sent to the board reaches it (`deliver`), and the server receives
what the board has written (`collect`).
-/

namespace LegoCar

open Relation Uart Board
open Server (NotRecord)

/-! ### A board to which all bytes have come -/

namespace Uart

theorem heard_writeData_quiet (b : UInt8) (u : Uart) :
    (u.altUpRs232WriteData {} b).heard = u.heard :=
  (heard_iowrData b _).trans (List.append_nil u.heard)

theorem heard_readMany_quiet (k : ℕ) (u : Uart) : (u.readMany k fun _ => {}).2.heard = u.heard := by
  have hnone : arrivals (fun _ => {}) k = [] := arrivals_eq_nil_iff.mpr fun _ _ => rfl
  rw [heard_readMany, hnone, List.append_nil]

theorem heard_writeMany_quiet (bs : List UInt8) (u : Uart) :
    (u.writeMany bs fun _ => {}).heard = u.heard := by
  induction bs generalizing u with
  | nil => rfl
  | cons b bs ih => exact (ih (u.altUpRs232WriteData {} b)).trans (heard_writeData_quiet b u)

theorem heard_writeString_quiet (bs : List UInt8) (u : Uart) :
    (u.writeString bs (fun _ => {}) fun _ => {}).heard = u.heard := by
  induction bs generalizing u with
  | nil => rfl
  | cons b bs ih =>
    have hwait : (u.awaitSpaceInWriteFIFO {}).heard = u.heard := List.append_nil u.heard
    exact (ih _).trans ((heard_writeData_quiet b _).trans hwait)

end Uart

namespace Board

attribute [local irreducible] Uart.readMany Uart.writeMany Uart.writeString

/-- The bytes that come before the iteration are the only ones. -/
theorem heard_feed (bs : List UInt8) (b : Board) :
    (iteration (feed [bs] 0) b).1.uart.heard = b.uart.heard ++ bs := by
  have hpoll : (b.countIteration.pollLength (feed [bs] 0).uart).2.uart.heard =
      b.uart.heard ++ bs := rfl
  rw [iteration_uart, ← hpoll]
  set p := (b.countIteration.pollLength (feed [bs] 0).uart).2 with hp
  have hread : ∀ u : Uart, (u.readFirst {}).2.heard = u.heard := fun u => List.append_nil u.heard
  cases hconn : b.connBroken with
  | true =>
    rw [communicate_of_down (b := b.countIteration) hconn, ← hp]
    have hcases := initCommunication_cases (feed [bs] 0).uart p.uart.rx.length p
    generalize p.initCommunication (feed [bs] 0).uart p.uart.rx.length = b' at hcases ⊢
    cases hcases with
    | quiet => rw [uart_blink]; rfl
    | other =>
      rw [uart_blink]
      exact hread p.uart
    | started =>
      rw [uart_blink]
      exact (heard_writeString_quiet _ _).trans (hread p.uart)
  | false =>
    rw [communicate_of_up (b := b.countIteration) hconn, ← hp]
    have hcases := exchange_cases (feed [bs] 0).uart p.uart.rx.length p
    generalize p.exchange (feed [bs] 0).uart p.uart.rx.length = r at hcases ⊢
    cases hcases with
    | waiting => rw [uart_countTimeout]
    | dropped => exact (hread _).trans (congrArg Uart.heard (uart_countTimeout p))
    | answered =>
      rw [uart_receive_send, uart_countTimeout]
      exact (heard_writeMany_quiet _ _).trans (heard_readMany_quiet 9 p.uart)

/-- A board that writes nothing has nothing to transmit afterwards. -/
theorem tx_feed {bs : List UInt8} {b : Board} (htx : b.uart.tx.length ≤ fifoSize)
    (hsaid : (iteration (feed [bs] 0) b).1.uart.said = b.uart.said) :
    (iteration (feed [bs] 0) b).1.uart.tx = [] := by
  have hcontained := (contained_communicate (feed [bs] 0).uart b.countIteration).backlog
  have hdrained : (b.uart.sync (feed [bs] 0).uart.atPoll).tx = [] := List.drop_of_length_le htx
  rw [← iteration_uart, hsaid] at hcontained
  have huart : b.countIteration.uart = b.uart := rfl
  rw [huart, hdrained] at hcontained
  have hsame : (b.uart.sync (feed [bs] 0).uart.atPoll).said = b.uart.said := rfl
  rw [hsame, List.length_nil, Nat.zero_add] at hcontained
  exact List.length_eq_zero_iff.mp (by omega)

end Board

/-! ### A link -/

namespace Link

/-- What was sent to the board and has not come. -/
def missing (l : Link) : List UInt8 := l.sent.drop l.board.uart.heard.length

/-- It comes, and nothing else. -/
def delivered (l : Link) : Link := l.iterate (feed [l.missing] 0)

/-- The version string is on its way. -/
def Greeted (l : Link) : Prop := (∃ o, l.conn = .greeting o) ∧ l.board.connBroken = false

/-- A frame is on its way. -/
def Asked (l : Link) : Prop := (∃ o, l.conn = .up o) ∧ l.dialogue.given = l.dialogue.heard

/-- A reply is on its way. -/
def Replied (l : Link) : Prop := (∃ o, l.conn = .up o) ∧ l.dialogue.given ≠ l.dialogue.heard

variable {l : Link}

theorem heard_delivered (hc : l.board.uart.heard <+: l.sent) :
    l.delivered.board.uart.heard = l.sent :=
  (heard_feed l.missing l.board).trans (List.prefix_iff_eq_append.mp hc)

/-- The link is down, greeted, or up with a frame or a reply on its way. -/
theorem Sound.stage (h : l.Sound) : l.board.connBroken = true ∨
    l.board.connBroken = false ∧ (l.Greeted ∨ l.Asked ∨ l.Replied) := by
  cases h.phase with
  | hello o hconn hlink => exact .inl hlink
  | version o hconn hlink => exact .inr ⟨hlink, .inl ⟨⟨o, hconn⟩, hlink⟩⟩
  | request f o before hconn hlink _ _ _ _ _ _ hgiven =>
    exact .inr ⟨hlink, .inr (.inl ⟨⟨o, hconn⟩, hgiven⟩)⟩
  | reply r o hconn hlink _ _ _ _ _ hgiven =>
    exact .inr ⟨hlink, .inr (.inr ⟨⟨o, hconn⟩, by simp [hgiven]⟩)⟩

/-- When nothing waits to be transmitted, all that the server has not received has arrived. -/
theorem arrived_of_tx (rest : List UInt8) (htx : l.board.uart.tx = []) (hne : rest ≠ [])
    (hsaid : l.board.uart.said = l.received ++ rest) :
    l.board.uart.Arrived l.received (l.board.uart.said.drop l.received.length) := by
  have hdrop : l.board.uart.said.drop l.received.length = rest := by
    rw [hsaid, List.drop_left]
  have hwire : l.board.uart.onWire = l.board.uart.said := by
    rw [onWire, htx, List.length_nil, Nat.sub_zero, List.take_length]
  rw [hdrop]
  exact ⟨hne, by rw [hwire, hsaid], hsaid.symm⟩

/-- An `'I'` that comes brings the link up. -/
theorem Sound.delivered_of_down (h : l.Sound) (hc : l.board.uart.heard <+: l.sent)
    (hdown : l.board.connBroken = true) :
    l.delivered.Greeted ∧ l.delivered.board.uartTimeout = 0 := by
  have hall : (iteration (feed [l.missing] 0) l.board).1.uart.heard = l.sent := heard_delivered hc
  cases h.phase with
  | hello o hconn hlink hs hheard hrx =>
    have hsent : (iteration (feed [l.missing] 0) l.board).1.uart.heard <+: l.sent := by rw [hall]
    have hlost := h.phase.fits hsent
    rw [hs] at hall hsent
    obtain ⟨-, ⟨-, hnone, -⟩ | ⟨hup, -, -⟩⟩ := hello_iteration hlink hheard hrx hlost hsent
    · exact absurd (hnone.symm.trans hall) (by simp)
    · refine ⟨⟨⟨o, hconn⟩, hup⟩, ?_⟩
      have hstep := iteration_linkStep (feed [l.missing] 0) l.board
      generalize (iteration (feed [l.missing] 0) l.board).2.accepted = accepted at hstep
      cases hstep with
      | down _ _ _ hlink' =>
        exact (hlink'.resolve_left fun hdown' => absurd (hdown'.symm.trans hup) (by simp)).2
      | idle hb => exact absurd (hdown.symm.trans hb) (by simp)
      | accept f hb => exact absurd (hdown.symm.trans hb) (by simp)
  | version o _ hlink => exact absurd (hdown.symm.trans hlink) (by simp)
  | request f o before _ hlink => exact absurd (hdown.symm.trans hlink) (by simp)
  | reply r o _ hlink => exact absurd (hdown.symm.trans hlink) (by simp)

/-- A board with no frame on its way lets the wire take what it has written. -/
theorem delivered_of_waiting (h : l.Sound) (hlink : l.board.connBroken = false)
    (hto : l.board.uartTimeout + 1 < 50) (hheard : l.board.uart.heard = l.sent)
    (hrx : l.board.uart.rx = []) :
    l.delivered.dialogue = l.dialogue ∧ l.delivered.board.connBroken = false ∧
      l.delivered.board.uartTimeout = l.board.uartTimeout + 1 ∧
      l.delivered.board.uart.said = l.board.uart.said ∧ l.delivered.board.uart.tx = [] := by
  have hall : (iteration (feed [l.missing] 0) l.board).1.uart.heard = l.sent :=
    heard_delivered (by rw [hheard])
  have hstep : AwaitStep l.sent [] l.board (iteration (feed [l.missing] 0) l.board) :=
    iteration_awaitStep hlink hto (Or.inl rfl) (by rw [hheard, hrx, List.append_nil])
      (by rw [hall, List.append_nil])
  cases hstep with
  | waits haccepted hreply hlink' htimeout _ _ _ hsaid =>
    have hsame : l.delivered = { l with board := (iteration (feed [l.missing] 0) l.board).1 } :=
      iterate_of_none haccepted hreply
    have htx : l.board.uart.tx.length ≤ fifoSize := h.healthy.backlog.trans (by decide)
    rw [hsame]
    exact ⟨rfl, hlink', htimeout, hsaid, tx_feed htx hsaid⟩
  | answers f o hrest => exact absurd hrest (by simp)

/-- The version string or the reply that is on its way arrives. -/
theorem Sound.delivered_of_quiet (h : l.Sound) (hto : l.board.uartTimeout + 1 < 50)
    (hquiet : l.Greeted ∨ l.Replied) :
    l.delivered.board.uart.Arrived l.delivered.received
        (l.delivered.board.uart.said.drop l.delivered.received.length) ∧
      l.delivered.dialogue = l.dialogue ∧ l.delivered.board.connBroken = false ∧
      l.delivered.board.uartTimeout = l.board.uartTimeout + 1 := by
  cases h.phase with
  | hello o hconn hlink =>
    obtain ⟨-, hup⟩ | ⟨⟨o', hconn'⟩, -⟩ := hquiet
    · exact absurd (hup.symm.trans hlink) (by simp)
    · exact absurd (hconn'.symm.trans hconn) (by simp)
  | version o hconn hlink hs hheard hrx hsaid hreceived =>
    obtain ⟨hdialogue, hlink', htimeout, hsaid', htx⟩ :=
      delivered_of_waiting h hlink hto hheard hrx
    refine ⟨arrived_of_tx (l := l.delivered) versionName htx (by decide) ?_, hdialogue,
      hlink', htimeout⟩
    exact (hsaid'.trans hsaid).trans (congrArg (· ++ versionName) hreceived.symm)
  | request f o before hconn hlink _ _ _ _ _ _ hgiven =>
    obtain ⟨⟨o', hconn'⟩, -⟩ | ⟨-, hne⟩ := hquiet
    · exact absurd (hconn'.symm.trans hconn) (by simp)
    · exact absurd hgiven hne
  | reply r o hconn hlink hheard hrx hsaid =>
    obtain ⟨hdialogue, hlink', htimeout, hsaid', htx⟩ :=
      delivered_of_waiting h hlink hto hheard hrx
    exact ⟨arrived_of_tx (l := l.delivered) (recordFrame r) htx (by simp [recordFrame])
      (hsaid'.trans hsaid), hdialogue, hlink', htimeout⟩

/-- A frame that comes is answered. -/
theorem Sound.delivered_of_asked (h : l.Sound) (hc : l.board.uart.heard <+: l.sent)
    (hto : l.board.uartTimeout + 1 < 50) (hasked : l.Asked) :
    l.delivered.Replied ∧ l.delivered.board.uartTimeout = 0 := by
  have hall : (iteration (feed [l.missing] 0) l.board).1.uart.heard = l.sent := heard_delivered hc
  obtain ⟨⟨o', hconn'⟩, hflight⟩ := hasked
  cases h.phase with
  | hello o hconn => exact absurd (hconn'.symm.trans hconn) (by simp)
  | version o hconn => exact absurd (hconn'.symm.trans hconn) (by simp)
  | reply r o _ _ _ _ _ _ _ hgiven => exact absurd (hflight.symm.trans hgiven) (by simp)
  | request f o before hconn hlink hs hheard _ _ _ _ hgiven =>
    have hstep := iteration_awaitStep hlink hto (Or.inr ⟨f, rfl⟩) hheard (by rw [hall, hs])
    cases hstep with
    | waits _ _ _ _ _ hheard' hlen =>
      -- the whole frame is in the receive FIFO
      rw [hall, hs, List.append_cancel_left_eq] at hheard'
      rw [← hheard', List.length_cons, f.length_serial] at hlen
      exact absurd hlen (by decide)
    | answers f' r _ haccepted hreply _ htimeout =>
      have hdialogue : l.delivered.dialogue = l.dialogue.answer [f'] [r] := by
        unfold delivered Link.iterate
        dsimp only
        rw [haccepted, hreply]
        simp
      refine ⟨⟨⟨o, hconn⟩, ?_⟩, htimeout⟩
      rw [hdialogue, Dialogue.answer, hgiven]
      simp

/-- A message that the server receives is followed by a frame. -/
theorem Sound.asked_serve (h : l.Sound) {bs : List UInt8}
    (harrived : l.board.uart.Arrived l.received bs) (f : Indata) :
    (l.serve versionName (some bs) f).Asked ∧
      (l.serve versionName (some bs) f).dialogue.heard.length =
        l.dialogue.heard.length + (recordIn bs).length := by
  have hreceived' : (l.serve versionName (some bs) f).received = l.received ++ bs := rfl
  have hboard' : (l.serve versionName (some bs) f).board = l.board := rfl
  have hne : ¬l.received ++ bs = [] := by simp [harrived.ne_nil]
  refine ⟨?_, List.length_append⟩
  cases (h.serve harrived f).1.phase with
  | hello _ _ _ _ _ _ _ hreceived => exact absurd (hreceived'.symm.trans hreceived) hne
  | version _ _ _ _ _ _ _ hreceived => exact absurd (hreceived'.symm.trans hreceived) hne
  | request _ o _ hconn _ _ _ _ _ _ _ hgiven => exact ⟨⟨o, hconn⟩, hgiven⟩
  | reply r o _ _ _ _ hsaid =>
    rw [hboard', hreceived', harrived.whole] at hsaid
    exact absurd (List.append_right_eq_self.mp hsaid.symm) (by simp [recordFrame])

/-- A reply is one record, and the version string is none. -/
theorem Sound.length_recordIn (h : l.Sound) {bs : List UInt8}
    (harrived : l.board.uart.Arrived l.received bs) :
    (l.Greeted → (recordIn bs).length = 0) ∧ (l.Replied → (recordIn bs).length = 1) := by
  obtain ⟨rfl, o, hconn⟩ | ⟨r, o, rfl, hconn⟩ := h.message harrived
  · have hnone : recordIn versionName = [] := if_pos notRecord_versionName
    rw [hnone]
    refine ⟨fun _ => rfl, ?_⟩
    rintro ⟨⟨o', hconn'⟩, -⟩
    exact absurd (hconn'.symm.trans hconn) (by simp)
  · have hone : (recordIn (recordFrame r)).length = 1 := by
      rw [recordIn, if_neg (not_notRecord_recordFrame r)]
      rfl
    rw [hone]
    refine ⟨?_, fun _ => rfl⟩
    rintro ⟨⟨o', hconn'⟩, -⟩
    exact absurd (hconn'.symm.trans hconn) (by simp)

end Link

/-! ### The server -/

namespace Server

/-- Board `i` alone is ready, and the boards are not checked. -/
def hearing (i : Fin 4) (bs : List UInt8) (s : Server) : LoopInput where
  tickTime := s.connTimer
  select := .ready {(s.nano i).sd}
  board := fun _ => { recv := some bs }

variable {cfg : ServerConfig} {s : Server} {i : Fin 4} {bs : List UInt8}

theorem calm_hearing (cfg : ServerConfig) (i : Fin 4) (bs : List UInt8) (s : Server) :
    Calm cfg (s.hearing i bs) s where
  check := fun h => absurd h (lt_irrefl s.connTimer)
  select := Select.noConfusion
  accept := rfl
  board := fun _ => ⟨Option.some_ne_none bs, rfl⟩

/-- The server hears this board, and no other. -/
theorem hears_hearing (cfg : ServerConfig) (hs : s.Serving) (hlen : bs.length ≤ ethFrameLen)
    (j : Fin 4) : s.hears cfg (s.hearing i bs) j = if j = i then some bs else none := by
  obtain ⟨halike, hprep⟩ := prepare_serving hs (calm_hearing cfg i bs s)
  set p := s.prepare cfg (s.hearing i bs) with hp
  set rfd := (p.rfds ∩ {(s.nano i).sd}).filter (· ≤ p.maxfd) with hrfd
  have hselected : s.selected cfg (s.hearing i bs) = some (p, rfd) := by
    unfold selected select
    dsimp only
    rw [← hp, if_neg hprep.settled.selectable]
    rfl
  have hmem : ∀ fd, fd ∈ rfd ↔ fd = (p.nano i).sd := by
    intro fd
    obtain ⟨-, hle, -⟩ := hprep.settled.attached i (hprep.attached i)
    rw [hrfd, Finset.mem_filter, Finset.mem_inter, Finset.mem_singleton, ← halike.sd]
    refine ⟨fun h => h.1.2, ?_⟩
    rintro rfl
    exact ⟨⟨hprep.attached i, rfl⟩, hle⟩
  have hkept : ¬(p.acceptClient (s.hearing i bs) rfd).ClientDropped (s.hearing i bs) rfd := by
    rintro ⟨hne, hready, -⟩
    have haccepted : (p.acceptClient (s.hearing i bs) rfd).Serving := serving_acceptClient rfl hprep
    have hlive : (p.acceptClient (s.hearing i bs) rfd).Live i :=
      (haccepted.settled.attached i (haccepted.attached i)).1
    rw [Live, (acceptClient_memory _ rfd p).nano, ← (hmem _).mp hready,
      haccepted.client.resolve_left hne] at hlive
    exact absurd hlive (by simp)
  rw [hears_of_some hs.settled.run hselected, if_neg hkept, readyMessage]
  by_cases hij : j = i
  · subst hij
    rw [if_pos ((hmem _).mpr rfl), if_pos rfl]
    exact congrArg some (List.take_of_length_le hlen)
  · have hother : (p.nano j).sd ∉ rfd := fun h =>
      hprep.settled.sd_ne (hprep.attached i) (hprep.attached j) (Ne.symm hij) ((hmem _).mp h)
    rw [if_neg hother, if_neg hij]

end Server

/-! ### The vehicle -/

namespace Vehicle

/-- The server runs, and what has come to board `i` was sent to it. -/
structure Alive (i : Fin 4) (v : Vehicle) : Prop where
  sound : v.Sound
  run : v.server.run = true
  carried : (v.board i).uart.heard <+: v.sent i

variable {parse : ParseCommand} {cfg : ServerConfig} {v : Vehicle} {i : Fin 4}

/-- What was sent to the board can reach it. -/
theorem Alive.deliver (parse : ParseCommand) (cfg : ServerConfig) (h : v.Alive i)
    (hto : (v.board i).connBroken = false → (v.board i).uartTimeout + 1 < 50) :
    ∃ v', Moves parse cfg v v' ∧ v'.Alive i ∧ v'.link i = (v.link i).delivered := by
  have hall : ((v.link i).delivered).board.uart.heard = v.sent i := Link.heard_delivered h.carried
  have hsent : (v.link i).delivered.board.uart.heard <+: v.sent i := by rw [hall]
  have hallowed : v.Allowed cfg (Vehicle.deliver i v) := ⟨hsent, hto⟩
  have hlink : (v.step parse cfg (Vehicle.deliver i v)).link i = (v.link i).delivered :=
    link_boardStep_self i _ v
  refine ⟨_, ⟨_, hallowed, rfl⟩, ⟨(h.sound.boardStep hallowed).1, h.run, ?_⟩, hlink⟩
  have hboard : (v.step parse cfg (Vehicle.deliver i v)).board i = (v.link i).delivered.board :=
    congrArg Link.board hlink
  rw [hboard]
  exact hsent

/-- What the board has written can reach the server. -/
theorem Alive.collect (parse : ParseCommand) (hversion : cfg.nanoInit = versionName)
    (h : v.Alive i) {bs : List UInt8} (harrived : (v.board i).uart.Arrived (v.received i) bs) :
    ∃ v' f, Moves parse cfg v v' ∧ v'.Alive i ∧
      v'.link i = (v.link i).serve versionName (some bs) f := by
  have hlen : bs.length ≤ ethFrameLen := by
    obtain ⟨rfl, -⟩ | ⟨r, -, rfl, -⟩ := (h.sound.link i).message harrived
    · decide
    · rw [length_recordFrame]
      decide
  have hhears := Server.hears_hearing (i := i) cfg (h.sound.serving h.run) hlen
  have hallowed : v.Allowed cfg (.server (v.server.hearing i bs)) := by
    refine ⟨Server.calm_hearing cfg i bs v.server, fun j bs' hbs' => ?_⟩
    rw [hhears] at hbs'
    split_ifs at hbs' with hij
    · subst hij
      exact Option.some_inj.mp hbs' ▸ harrived
    · exact absurd hbs' (Option.not_mem_none bs')
  have hlink := link_serverStep_of_allowed parse hversion h.sound h.run hallowed i
  rw [hhears, if_pos rfl] at hlink
  refine ⟨_, _, ⟨_, hallowed, rfl⟩, ⟨(h.sound.serverStep hversion hallowed).1, ?_, ?_⟩, hlink⟩
  · exact Server.run_loopStep parse (h.sound.serving h.run) hallowed.1
      (recv_ne_down_of_allowed hversion h.sound hallowed) rfl
  · exact h.carried.trans (List.prefix_append _ _)

/-! ### One more reply -/

/-- A frame is on its way to board `i`, which is going to wait for it. -/
structure Rolling (i : Fin 4) (v : Vehicle) : Prop extends Alive i v where
  asked : (v.link i).Asked
  link_up : (v.board i).connBroken = false
  patience : (v.board i).uartTimeout + 1 < 50

/-- The message that is on its way reaches the server, and a frame is on its way back. -/
theorem Alive.answer (parse : ParseCommand) (hversion : cfg.nanoInit = versionName)
    (h : v.Alive i) (hto : (v.board i).uartTimeout + 2 < 50)
    (hquiet : (v.link i).Greeted ∨ (v.link i).Replied) :
    ∃ v', ReflTransGen (Moves parse cfg) v v' ∧ v'.Rolling i ∧
      ((v.link i).Greeted → (v'.dialogue i).heard.length = (v.dialogue i).heard.length) ∧
      ((v.link i).Replied → (v'.dialogue i).heard.length = (v.dialogue i).heard.length + 1) := by
  have hpatience : (v.board i).uartTimeout + 1 < 50 := by omega
  obtain ⟨v₁, hmove₁, halive₁, hlink₁⟩ := h.deliver parse cfg fun _ => hpatience
  obtain ⟨harrived, hdialogue, hup, htimeout⟩ :=
    (h.sound.link i).delivered_of_quiet hpatience hquiet
  have hconn : (v₁.link i).conn = (v.link i).conn := by
    rw [hlink₁]
    rfl
  rw [← hlink₁] at harrived hdialogue hup htimeout
  obtain ⟨v₂, f, hmove₂, halive₂, hlink₂⟩ := halive₁.collect parse hversion harrived
  obtain ⟨hasked, hheard⟩ := (halive₁.sound.link i).asked_serve harrived f
  obtain ⟨hnone, hone⟩ := (halive₁.sound.link i).length_recordIn harrived
  -- the server does not touch the board
  have hboard : v₂.board i = v₁.board i := congrArg Link.board hlink₂
  have htimeout' : (v₂.board i).uartTimeout = (v.board i).uartTimeout + 1 := by rwa [hboard]
  rw [← hlink₂] at hasked
  rw [← hlink₂, hdialogue] at hheard
  refine ⟨v₂, .tail (.single hmove₁) hmove₂, ⟨halive₂, hasked, by rwa [hboard], ?_⟩, ?_, ?_⟩
  · omega
  · rintro ⟨⟨o, hgreeted⟩, -⟩
    rwa [hnone ⟨⟨o, hconn.trans hgreeted⟩, hup⟩] at hheard
  · rintro ⟨⟨o, hconnected⟩, hne⟩
    rwa [hone ⟨⟨o, hconn.trans hconnected⟩, by rwa [hdialogue]⟩] at hheard

/-- The frame is answered, the reply is heard, and the next frame is on its way. -/
theorem Rolling.round (parse : ParseCommand) (hversion : cfg.nanoInit = versionName)
    (h : v.Rolling i) : ∃ v', ReflTransGen (Moves parse cfg) v v' ∧ v'.Rolling i ∧
      (v'.dialogue i).heard.length = (v.dialogue i).heard.length + 1 := by
  obtain ⟨v₁, hmove₁, halive₁, hlink₁⟩ := h.deliver parse cfg fun _ => h.patience
  obtain ⟨hreplied, htimeout⟩ :=
    (h.sound.link i).delivered_of_asked h.carried h.patience h.asked
  rw [← hlink₁] at hreplied htimeout
  have hzero : (v₁.board i).uartTimeout = 0 := htimeout
  have hheard₁ : (v₁.dialogue i).heard = (v.dialogue i).heard :=
    congrArg (·.dialogue.heard) hlink₁
  obtain ⟨v₂, hrun₂, hrolling, -, hnext⟩ :=
    halive₁.answer parse hversion (by rw [hzero]; decide) (.inr hreplied)
  exact ⟨v₂, .head hmove₁ hrun₂, hrolling,
    (hnext hreplied).trans (congrArg (·.length + 1) hheard₁)⟩

theorem Rolling.rounds (parse : ParseCommand) (hversion : cfg.nanoInit = versionName)
    (h : v.Rolling i) (k : ℕ) : ∃ v', ReflTransGen (Moves parse cfg) v v' ∧
      (v'.dialogue i).heard.length = (v.dialogue i).heard.length + k := by
  induction k generalizing v with
  | zero => exact ⟨v, .refl, rfl⟩
  | succ k ih =>
    obtain ⟨v₁, hrun₁, hrolling, hheard₁⟩ := h.round parse hversion
    obtain ⟨v₂, hrun₂, hheard₂⟩ := ih hrolling
    exact ⟨v₂, hrun₁.trans hrun₂, by omega⟩

/-- From every stage of the link a frame can be brought on its way, and at most one reply is heard
before. -/
theorem Alive.rolling (parse : ParseCommand) (hversion : cfg.nanoInit = versionName)
    (h : v.Alive i)
    (hto : (v.board i).connBroken = false → (v.board i).uartTimeout + 2 < 50) :
    ∃ v', ReflTransGen (Moves parse cfg) v v' ∧ v'.Rolling i ∧
      ((v'.dialogue i).heard.length = (v.dialogue i).heard.length ∨
        (v'.dialogue i).heard.length = (v.dialogue i).heard.length + 1) := by
  obtain hdown | ⟨hup, hgreeted | hasked | hreplied⟩ := (h.sound.link i).stage
  · obtain ⟨v₁, hmove₁, halive₁, hlink₁⟩ := h.deliver parse cfg fun hup =>
      absurd (hdown.symm.trans hup) (by simp)
    obtain ⟨hgreeted, htimeout⟩ := (h.sound.link i).delivered_of_down h.carried hdown
    rw [← hlink₁] at hgreeted htimeout
    have hzero : (v₁.board i).uartTimeout = 0 := htimeout
    have hheard₁ : (v₁.dialogue i).heard = (v.dialogue i).heard :=
      congrArg (·.dialogue.heard) hlink₁
    obtain ⟨v₂, hrun₂, hrolling, hsame, -⟩ :=
      halive₁.answer parse hversion (by rw [hzero]; decide) (.inl hgreeted)
    exact ⟨v₂, .head hmove₁ hrun₂, hrolling,
      .inl ((hsame hgreeted).trans (congrArg List.length hheard₁))⟩
  · obtain ⟨v', hrun', hrolling, hsame, -⟩ := h.answer parse hversion (hto hup) (.inl hgreeted)
    exact ⟨v', hrun', hrolling, .inl (hsame hgreeted)⟩
  · have hpatience : (v.board i).uartTimeout + 1 < 50 := (Nat.lt_succ_self _).trans (hto hup)
    exact ⟨v, .refl, ⟨h, hasked, hup, hpatience⟩, .inl rfl⟩
  · obtain ⟨v', hrun', hrolling, -, hnext⟩ := h.answer parse hversion (hto hup) (.inr hreplied)
    exact ⟨v', hrun', hrolling, .inr (hnext hreplied)⟩

/-! ### Runs -/

/-- An allowed event carries to a board nothing but what was sent to it. -/
theorem carried_of_moves (h : (v.board i).uart.heard <+: v.sent i)
    (hmoves : Moves parse cfg v v') : (v'.board i).uart.heard <+: v'.sent i := by
  obtain ⟨e, hallowed, rfl⟩ := hmoves
  cases e with
  | board j inp =>
    obtain rfl | hne := eq_or_ne i j
    · have hboard : (v.step parse cfg (.board i inp)).board i = (iteration inp (v.board i)).1 :=
        congrArg Link.board (link_boardStep_self i inp v)
      rw [hboard]
      exact hallowed.1
    · have hboard : (v.step parse cfg (.board j inp)).board i = v.board i :=
        congrArg Link.board (link_boardStep_of_ne hne inp v)
      rw [hboard]
      exact h
  | server inp => exact h.trans (List.prefix_append _ _)

theorem alive_of_run {start : Server.StartInput} {s₀ : Server} {board : Fin 4 → Board}
    (hversion : cfg.nanoInit = versionName) (hstart : Server.startUp start = some s₀)
    (hfresh : ∀ i, Fresh (board i)) (hrun : ReflTransGen (Moves parse cfg) (opened s₀ board) v)
    (hr : v.server.run = true) (i : Fin 4) : v.Alive i := by
  refine ⟨(sound_of_run hversion hstart hfresh hrun i).1, hr, ?_⟩
  clear hr
  induction hrun with
  | refl =>
    have hnone : (board i).uart.heard = [] := congrArg Uart.heard (hfresh i).2
    exact hnone ▸ List.nil_prefix
  | tail _ hlast ih => exact carried_of_moves ih hlast

/-- **The conversation goes on.** From every state of every run of allowed events in which the
server runs and a board has two iterations left before it times out, allowed events alone can let
the server hear any number of further replies of this board. -/
theorem progress {start : Server.StartInput} {s₀ : Server} {board : Fin 4 → Board}
    (hversion : cfg.nanoInit = versionName) (hstart : Server.startUp start = some s₀)
    (hfresh : ∀ i, Fresh (board i)) (hrun : ReflTransGen (Moves parse cfg) (opened s₀ board) v)
    (hr : v.server.run = true)
    (hto : (v.board i).connBroken = false → (v.board i).uartTimeout + 2 < 50) (k : ℕ) :
    ∃ v', ReflTransGen (Moves parse cfg) v v' ∧
      (v'.dialogue i).heard.length = (v.dialogue i).heard.length + k := by
  cases k with
  | zero => exact ⟨v, .refl, rfl⟩
  | succ k =>
    obtain ⟨v₁, hrun₁, hrolling, hheard₁⟩ :=
      (alive_of_run hversion hstart hfresh hrun hr i).rolling parse hversion hto
    -- one of the replies may have been heard on the way to the frame
    obtain hheard₁ | hheard₁ := hheard₁
    · obtain ⟨v₂, hrun₂, hheard₂⟩ := hrolling.rounds parse hversion (k + 1)
      exact ⟨v₂, hrun₁.trans hrun₂, by rw [hheard₂, hheard₁]⟩
    · obtain ⟨v₂, hrun₂, hheard₂⟩ := hrolling.rounds parse hversion k
      exact ⟨v₂, hrun₁.trans hrun₂, by omega⟩

theorem progress_exchanged :
    ∃ v', ReflTransGen (Moves replyDefault carserverCfg) (exchanged 2) v' ∧
      (v'.dialogue 0).heard.length = ((exchanged 2).dialogue 0).heard.length + 1000 :=
  progress rfl startUp_started fresh_boot moves_exchanged (by decide +kernel)
    (fun _ => by decide +kernel) 1000

end Vehicle

end LegoCar
