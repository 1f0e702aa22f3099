import Mathlib
import LegoCar.Board.Steps
import LegoCar.Board.UartFlow

/-!
# What an iteration takes out of the receive FIFO

`RxStep` says which bytes an iteration takes out of the receive FIFO, provided no delivery found
the FIFO full: while the link is down, whatever it is; while the link is up, nothing when fewer
than nine bytes wait, one byte that is not an `'S'`, or an `'S'`, the eight bytes of a record and
the bytes the reply discards. `ReplyUndisturbed` is the condition under which the reply discards
nothing.
-/

namespace LegoCar

open Uart

namespace Board

attribute [local irreducible] Uart.readMany Uart.writeMany Uart.writeString

/-! ### Only the communication stage uses the serial port -/

theorem uart_control (encoder direction : UInt32) (b : Board) :
    (b.control encoder direction).1.uart = b.uart := by
  have hstall : ∀ (d : Int32) (b : Board), (b.stallCheck d).uart = b.uart := fun _ b =>
    stallCheck_writes (P := fun b' => b'.uart = b.uart) fun _ _ _ => rfl
  unfold Board.control
  split
  · exact hstall _ _
  · exact controlDisabled_writes (P := fun b' => b'.uart = b.uart) fun _ _ => rfl

theorem uart_handleSensors (inp : BoardInput) (b : Board) :
    (b.handleSensors inp).uart = b.uart :=
  handleSensors_writes (P := fun b' => b'.uart = b.uart) fun _ _ _ => rfl

theorem uart_readUbat (adc : UInt16) (b : Board) : (b.readUbat adc).uart = b.uart :=
  readUbat_writes (P := fun b' => b'.uart = b.uart) fun _ => rfl

theorem uart_blink (b : Board) : b.blink.uart = b.uart :=
  blink_writes (P := fun b' => b'.uart = b.uart) fun _ _ => rfl

theorem uart_countTimeout (b : Board) : b.countTimeout.uart = b.uart :=
  countTimeout_writes (P := fun b' => b'.uart = b.uart) fun _ _ _ => rfl

theorem iteration_uart (inp : BoardInput) (b : Board) :
    (iteration inp b).1.uart = (b.countIteration.communicate inp.uart).1.uart :=
  (uart_handleSensors inp _).trans ((uart_control _ _ _).trans (uart_readUbat inp.adc _))

/-! ### The two modes of the link -/

theorem communicate_of_down {inp : UartInput} {b : Board} (hb : b.connBroken = true) :
    b.communicate inp = ((b.pollLength inp).2.initCommunication inp
      (b.pollLength inp).2.uart.rx.length, none, none) := by
  have hpoll : (b.pollLength inp).2.connBroken = true := hb
  unfold communicate
  dsimp only
  rw [hpoll]
  rfl

theorem communicate_of_up {inp : UartInput} {b : Board} (hb : b.connBroken = false) :
    b.communicate inp =
      (b.pollLength inp).2.exchange inp (b.pollLength inp).2.uart.rx.length := by
  have hpoll : (b.pollLength inp).2.connBroken = false := hb
  unfold communicate
  dsimp only
  rw [hpoll]
  rfl

/-! ### The receive step -/

/-- What an iteration takes out of the receive FIFO, by the record it accepts and the bytes its
reply discards. -/
inductive RxStep (b b' : Board) : Option Indata → List UInt8 → Prop where
  /-- The link is down. -/
  | down (taken : List UInt8) (hb : b.connBroken = true) (hflow : b.uart.Flow taken b'.uart) :
      RxStep b b' none []
  /-- Not yet a whole packet. -/
  | wait (hb : b.connBroken = false) (hflow : b.uart.Flow [] b'.uart)
      (hlen : b'.uart.rx.length < 9) : RxStep b b' none []
  /-- A byte that does not start a record is dropped. -/
  | drop (c : UInt8) (hb : b.connBroken = false) (hc : c ≠ tagS) (hflow : b.uart.Flow [c] b'.uart) :
      RxStep b b' none []
  /-- A record, and the bytes its reply discards. -/
  | accept (p d : List UInt8) (hb : b.connBroken = false) (hp : p.length = 8)
      (hflow : b.uart.Flow (tagS :: p ++ d) b'.uart) : RxStep b b' (some (Indata.ofSerial p)) d

/-- When the bytes `waiting` are the beginning of a record, they are the whole record, and
nothing else arrives until its reply is written. -/
def ReplyUndisturbed (inp : UartInput) (waiting : List UInt8) : Prop :=
  9 ≤ waiting.length → waiting.head? = some tagS →
    waiting.length = 9 ∧ (∀ k < 9, (inp.atRead k).rxd = []) ∧ ∀ k < 53, (inp.atWrite k).rxd = []

instance (inp : UartInput) (waiting : List UInt8) : Decidable (ReplyUndisturbed inp waiting) :=
  inferInstanceAs (Decidable (_ → _ → _))

/-- The link is down: some bytes are taken. -/
theorem initCommunication_flow (inp : UartInput) {i : ℕ} {b : Board} (hi : i ≤ b.uart.rx.length)
    (h : (b.initCommunication inp i).uart.lost = b.uart.lost) :
    ∃ taken, b.uart.Flow taken (b.initCommunication inp i).uart := by
  have hread : (b.clearCommand.readStart inp).uart = (b.uart.readFirst (inp.atRead 0)).2 := rfl
  have hmono : b.uart.lost ≤ (b.uart.readFirst (inp.atRead 0)).2.lost := lost_le_sync _ _
  have hcases := initCommunication_cases inp i b
  generalize b.initCommunication inp i = b' at hcases h ⊢
  cases hcases with
  | started hpos =>
    have hstart : ((b.clearCommand.readStart inp).startLink inp).uart =
        (b.uart.readFirst (inp.atRead 0)).2.writeString versionName inp.atWait inp.atWrite := rfl
    rw [uart_blink, hstart] at h ⊢
    have hmono' := lost_le_writeString versionName inp.atWait inp.atWrite
      (b.uart.readFirst (inp.atRead 0)).2
    have hfirst : (b.uart.readFirst (inp.atRead 0)).2.lost = b.uart.lost :=
      le_antisymm (hmono'.trans_eq h) hmono
    obtain ⟨taken, hflow⟩ := flow_writeString (h.trans hfirst.symm)
    exact ⟨_, (flow_readFirst (by omega) hfirst).trans hflow⟩
  | other hpos =>
    rw [uart_blink, hread] at h ⊢
    exact ⟨_, flow_readFirst (by omega) h⟩
  | quiet =>
    rw [uart_blink]
    exact ⟨[], Flow.refl b.uart⟩

/-- The serial port through the reception of a record and its reply. -/
theorem uart_receive_send (inp : UartInput) (b : Board) :
    (((b.readStart inp).receiveIndat inp).sendOutdat inp).uart =
      (b.uart.readMany 9 inp.atRead).2.writeMany
        (tagR :: ((b.readStart inp).receiveIndat inp).outdat.serial) inp.atWrite := by
  rw [readMany_succ]
  rfl

theorem readMany_indat (inp : UartInput) {b : Board} (hc : (b.readStart inp).c = tagS) :
    ∃ p, (b.uart.readMany 9 inp.atRead).1 = tagS :: p ∧
      ((b.readStart inp).receiveIndat inp).indat = Indata.ofSerial p := by
  rw [readMany_succ, ← hc]
  exact ⟨_, rfl, rfl⟩

/-- The byte read first is the oldest of those waiting. -/
theorem readFirst_head {u : Uart} {sl : Slot} (hpos : 0 < u.rx.length)
    (h : (u.readFirst sl).2.lost = u.lost) : u.rx.head? = some (u.readFirst sl).1 := by
  have hrx : (u.sync sl).rx = u.rx ++ sl.rxd := rx_sync_of_lost h
  cases hcons : u.rx with
  | nil => simp [hcons] at hpos
  | cons a q => simp [readFirst, altUpRs232ReadData, iordData, hrx, hcons]

/-- A reply discards nothing exactly when the record is all there is until it is written. -/
theorem discarded_reply {inp : UartInput} {u : Uart} {reply : List UInt8} (hk : 9 ≤ u.rx.length)
    (hhead : u.rx.head? = some tagS) (h : (u.readMany 9 inp.atRead).2.lost = u.lost)
    (hreply : reply.length = 52) :
    (u.readMany 9 inp.atRead).2.discarded (tagR :: reply) inp.atWrite = [] ↔
      ReplyUndisturbed inp u.rx := by
  have hread := rx_readMany_eq_nil_iff (k := 9) hk h
  have hiff : ReplyUndisturbed inp u.rx ↔ (u.readMany 9 inp.atRead).2.rx = [] ∧
      ∀ k < 53, (inp.atWrite k).rxd = [] := by
    rw [hread, and_assoc]
    exact ⟨fun hrep => hrep hk hhead, fun hall _ _ => hall⟩
  rw [hiff]
  by_cases hrx : (u.readMany 9 inp.atRead).2.rx = []
  · rw [discarded_eq_nil_iff hrx, List.length_cons, hreply]
    exact ⟨fun hall => ⟨hrx, hall⟩, fun hall => hall.2⟩
  · exact ⟨fun hnil => absurd hnil (discarded_cons_ne_nil hrx), fun hall => absurd hall.1 hrx⟩

/-- A record and its reply: the record is read as it waits, and losses only add up, so reading it
lost nothing. -/
theorem receive_rxStep (inp : UartInput) {b c : Board} (hb : b.connBroken = false)
    (huart : c.uart = b.uart) (hlen : 9 ≤ b.uart.rx.length) (htag : (c.readStart inp).c = tagS)
    (h : (((c.readStart inp).receiveIndat inp).sendOutdat inp).uart.lost = b.uart.lost) :
    ∃ d, RxStep b (((c.readStart inp).receiveIndat inp).sendOutdat inp)
        (some ((c.readStart inp).receiveIndat inp).indat) d ∧
      (d = [] ↔ ReplyUndisturbed inp b.uart.rx) := by
  obtain ⟨p, hp, hindat⟩ := readMany_indat inp htag
  rw [huart] at hp
  rw [uart_receive_send, huart] at h
  set outdat := ((c.readStart inp).receiveIndat inp).outdat with houtdat
  have hmono₁ := lost_le_readMany 9 inp.atRead b.uart
  have hmono₂ := lost_le_writeMany (tagR :: outdat.serial) inp.atWrite
    (b.uart.readMany 9 inp.atRead).2
  have hloss : (b.uart.readMany 9 inp.atRead).2.lost = b.uart.lost := by omega
  have hfirst : (c.readStart inp).c = (b.uart.readFirst (inp.atRead 0)).1 := by
    rw [← huart]
    rfl
  have hhead : b.uart.rx.head? = some tagS := by
    rw [← htag, hfirst]
    refine readFirst_head (by omega) (le_antisymm ?_ (lost_le_sync _ _))
    rw [readMany_succ] at hloss
    exact (lost_le_readMany _ _ _).trans_eq hloss
  obtain ⟨hflow, hlength⟩ := flow_readMany (k := 9) hlen hloss
  rw [hp] at hflow hlength
  rw [hindat]
  refine ⟨_, .accept p _ hb (by simpa using hlength) ?_,
    discarded_reply hlen hhead hloss outdat.length_serial⟩
  rw [uart_receive_send, huart]
  exact hflow.trans (flow_writeMany (h.trans hloss.symm))

theorem exchange_rxStep (inp : UartInput) {b : Board} (hb : b.connBroken = false)
    (h : (b.exchange inp b.uart.rx.length).1.uart.lost = b.uart.lost) :
    ∃ d, RxStep b (b.exchange inp b.uart.rx.length).1 (b.exchange inp b.uart.rx.length).2.1 d ∧
      (d = [] ↔ ReplyUndisturbed inp b.uart.rx) := by
  have hcount := uart_countTimeout b
  have hread : (b.countTimeout.readStart inp).uart = (b.uart.readFirst (inp.atRead 0)).2 := by
    rw [← hcount]
    rfl
  have hc : (b.countTimeout.readStart inp).c = (b.uart.readFirst (inp.atRead 0)).1 := by
    rw [← hcount]
    rfl
  have hcases := exchange_cases inp b.uart.rx.length b
  generalize b.exchange inp b.uart.rx.length = r at hcases h ⊢
  cases hcases with
  | waiting hlen =>
    refine ⟨[], .wait hb ?_ ?_, iff_of_true rfl fun hle => absurd hlen (not_lt.mpr hle)⟩
    · rw [hcount]
      exact Flow.refl _
    · rw [hcount]
      exact hlen
  | dropped hlen htag =>
    rw [hread] at h
    refine ⟨[], .drop _ hb htag ?_, iff_of_true rfl fun _ hhead => ?_⟩
    · rw [hread, hc]
      exact flow_readFirst (by omega) h
    · rw [readFirst_head (by omega) h, ← hc] at hhead
      exact absurd (Option.some.inj hhead) htag
  | answered hlen htag => exact receive_rxStep inp hb hcount hlen htag h

/-- The later stages leave the serial port alone. -/
theorem RxStep.congr {b c c' : Board} {o : Option Indata} {d : List UInt8}
    (huart : c'.uart = c.uart) (h : RxStep b c o d) : RxStep b c' o d := by
  cases h with
  | down taken hb hflow => exact .down taken hb (huart ▸ hflow)
  | wait hb hflow hlen => exact .wait hb (huart ▸ hflow) (huart ▸ hlen)
  | drop c hb hc hflow => exact .drop c hb hc (huart ▸ hflow)
  | accept p d hb hp hflow => exact .accept p d hb hp (huart ▸ hflow)

/-- Reading the fill level takes nothing. -/
theorem RxStep.poll {a b b' : Board} {o : Option Indata} {d : List UInt8}
    (hconn : b.connBroken = a.connBroken) (hpoll : a.uart.Flow [] b.uart) (h : RxStep b b' o d) :
    RxStep a b' o d := by
  cases h with
  | down taken hb hflow => exact .down taken (hconn ▸ hb) (hpoll.trans hflow)
  | wait hb hflow hlen => exact .wait (hconn ▸ hb) (hpoll.trans hflow) hlen
  | drop c hb hc hflow => exact .drop c (hconn ▸ hb) hc (hpoll.trans hflow)
  | accept p d hb hp hflow => exact .accept p d (hconn ▸ hb) hp (hpoll.trans hflow)

theorem lost_le_exchange (inp : UartInput) (i : ℕ) (b : Board) :
    b.uart.lost ≤ (b.exchange inp i).1.uart.lost := by
  have hread : b.uart.lost ≤ (b.countTimeout.readStart inp).uart.lost := by
    rw [← uart_countTimeout b]
    exact lost_le_sync _ _
  have hcases := exchange_cases inp i b
  generalize b.exchange inp i = r at hcases ⊢
  cases hcases with
  | waiting => rw [uart_countTimeout]
  | dropped => exact hread
  | answered =>
    rw [uart_receive_send, uart_countTimeout]
    exact (lost_le_readMany _ _ _).trans (lost_le_writeMany _ _ _)

theorem lost_le_initCommunication (inp : UartInput) (i : ℕ) (b : Board) :
    b.uart.lost ≤ (b.initCommunication inp i).uart.lost := by
  have hread : b.uart.lost ≤ (b.clearCommand.readStart inp).uart.lost := lost_le_sync _ _
  have hcases := initCommunication_cases inp i b
  generalize b.initCommunication inp i = b' at hcases ⊢
  cases hcases with
  | quiet =>
    rw [uart_blink]
    exact le_rfl
  | other => rwa [uart_blink]
  | started =>
    rw [uart_blink]
    exact hread.trans (lost_le_writeString _ _ _ _)

/-- **What an iteration takes out of the receive FIFO.** While the link is up, the reply discards
nothing exactly when it is undisturbed. -/
theorem iteration_rxStep (inp : BoardInput) {b : Board}
    (h : (iteration inp b).1.uart.lost = b.uart.lost) :
    ∃ d, RxStep b (iteration inp b).1 (iteration inp b).2.accepted d ∧
      (b.connBroken = false →
        (d = [] ↔ ReplyUndisturbed inp.uart (b.uart.rx ++ inp.uart.atPoll.rxd))) := by
  have huart := iteration_uart inp b
  set p := (b.countIteration.pollLength inp.uart).2 with hp
  have hpuart : p.uart = b.uart.sync inp.uart.atPoll := rfl
  have hpconn : p.connBroken = b.connBroken := rfl
  have hmono : b.uart.lost ≤ p.uart.lost := lost_le_sync _ _
  rw [iteration_accepted]
  cases hconn : b.connBroken with
  | true =>
    rw [communicate_of_down (b := b.countIteration) hconn] at huart ⊢
    rw [huart] at h
    -- neither reading the fill level nor what follows lost a byte
    have hmono' := lost_le_initCommunication inp.uart p.uart.rx.length p
    have hloss : p.uart.lost = b.uart.lost := le_antisymm (hmono'.trans_eq h) hmono
    obtain ⟨taken, hflow⟩ := initCommunication_flow inp.uart le_rfl (h.trans hloss.symm)
    have hstep : RxStep b (p.initCommunication inp.uart p.uart.rx.length) none [] :=
      .down taken hconn ((flow_sync (hpuart ▸ hloss)).trans hflow)
    exact ⟨[], hstep.congr huart, fun hup => absurd hup (by decide)⟩
  | false =>
    rw [communicate_of_up (b := b.countIteration) hconn] at huart ⊢
    rw [huart] at h
    have hmono' := lost_le_exchange inp.uart p.uart.rx.length p
    have hloss : p.uart.lost = b.uart.lost := le_antisymm (hmono'.trans_eq h) hmono
    have hsync : (b.uart.sync inp.uart.atPoll).lost = b.uart.lost := hpuart ▸ hloss
    have hprx : p.uart.rx = b.uart.rx ++ inp.uart.atPoll.rxd := rx_sync_of_lost hsync
    obtain ⟨d, hstep, hd⟩ := exchange_rxStep inp.uart (hpconn.trans hconn) (h.trans hloss.symm)
    exact ⟨d, (hstep.poll hpconn (flow_sync hsync)).congr huart, fun _ => hprx ▸ hd⟩

theorem RxStep.flow {b b' : Board} {o : Option Indata} {d : List UInt8} (h : RxStep b b' o d) :
    ∃ taken, b.uart.Flow taken b'.uart := by
  cases h with
  | down taken _ hflow => exact ⟨taken, hflow⟩
  | wait _ hflow _ => exact ⟨[], hflow⟩
  | drop c _ _ hflow => exact ⟨[c], hflow⟩
  | accept p d _ _ hflow => exact ⟨tagS :: p ++ d, hflow⟩

/-- A record that waits alone, on a quiet wire, is accepted, and leaves nothing behind. -/
theorem exchange_oneFrame {inp : UartInput} {b : Board} {f : Indata}
    (hrx : b.uart.rx = tagS :: f.serial) (hread : ∀ j < 9, (inp.atRead j).rxd = [])
    (hwrite : ∀ j < 53, (inp.atWrite j).rxd = []) :
    (b.exchange inp b.uart.rx.length).2.1 = some f ∧
      (b.exchange inp b.uart.rx.length).1.uart.rx = [] := by
  have hlen : b.uart.rx.length = 9 := by rw [hrx, List.length_cons, f.length_serial]
  have hall : (b.uart.readMany b.uart.rx.length inp.atRead).1 = b.uart.rx ∧
      (b.uart.readMany b.uart.rx.length inp.atRead).2.rx = [] :=
    readMany_of_quiet (by rwa [hlen]) (by rw [hlen]; decide)
  rw [hlen, hrx] at hall
  obtain ⟨hbytes, hempty⟩ := hall
  have hcount := uart_countTimeout b
  have hc : (b.countTimeout.readStart inp).c = tagS := by
    have hfirst : (b.countTimeout.readStart inp).c = (b.uart.readFirst (inp.atRead 0)).1 := by
      rw [← hcount]
      rfl
    rw [readMany_succ] at hbytes
    exact hfirst.trans (List.cons.inj hbytes).1
  unfold exchange
  dsimp only
  rw [if_pos hlen.ge, if_pos hc]
  dsimp only
  obtain ⟨p, hp, hindat⟩ := readMany_indat inp hc
  rw [hcount, hbytes] at hp
  rw [hindat, ← (List.cons.inj hp).2, Indata.ofSerial_serial, uart_receive_send, hcount]
  refine ⟨rfl, rx_writeMany_of_quiet ?_ hempty⟩
  rwa [List.length_cons, Outdata.length_serial]

/-- A record that arrives before an iteration at a board with the link up and nothing waiting. -/
theorem iteration_oneFrame {inp : BoardInput} {b : Board} {f : Indata}
    (hb : b.connBroken = false) (hrx : b.uart.rx = [])
    (hpoll : inp.uart.atPoll.rxd = tagS :: f.serial)
    (hread : ∀ j < 9, (inp.uart.atRead j).rxd = [])
    (hwrite : ∀ j < 53, (inp.uart.atWrite j).rxd = []) :
    (iteration inp b).2.accepted = some f ∧ (iteration inp b).1.uart.rx = [] := by
  set p := (b.countIteration.pollLength inp.uart).2 with hp
  have hprx : p.uart.rx = tagS :: f.serial := by
    have hsync : p.uart.rx = (b.uart.rx ++ inp.uart.atPoll.rxd).take fifoSize := rfl
    rw [hsync, hrx, hpoll, List.nil_append]
    exact List.take_of_length_le (by rw [List.length_cons, f.length_serial]; decide)
  rw [iteration_accepted, iteration_uart, communicate_of_up (b := b.countIteration) hb]
  exact exchange_oneFrame hprx hread hwrite

/-! ### When a record is accepted -/

/-- When the fill level is read, a whole packet may be waiting, and it starts with an `'S'`. -/
def FrameWaits (inp : UartInput) (u : Uart) : Prop :=
  9 ≤ (u.sync inp.atPoll).rx.length ∧ (u.sync inp.atPoll).rx.head? = some tagS

instance (inp : UartInput) (u : Uart) : Decidable (FrameWaits inp u) :=
  inferInstanceAs (Decidable (_ ∧ _))

/-- The byte read first is the oldest of those waiting, whatever arrives and is lost. -/
theorem readFirst_eq {u : Uart} {c : UInt8} (sl : Slot) (h : u.rx.head? = some c) :
    (u.readFirst sl).1 = c := by
  obtain ⟨q, hq⟩ := List.head?_eq_some_iff.mp h
  rw [readFirst, altUpRs232ReadData, iordData, sync, hq, fifoSize]
  rfl

theorem exchange_accepts_iff (inp : UartInput) (b : Board) :
    (b.exchange inp b.uart.rx.length).2.1.isSome = true ↔
      9 ≤ b.uart.rx.length ∧ b.uart.rx.head? = some tagS := by
  have hc : (b.countTimeout.readStart inp).c = (b.uart.readFirst (inp.atRead 0)).1 := by
    rw [← uart_countTimeout b]
    rfl
  have hcases := exchange_cases inp b.uart.rx.length b
  generalize b.exchange inp b.uart.rx.length = r at hcases ⊢
  cases hcases with
  | waiting hlen => exact iff_of_false Bool.false_ne_true fun h => absurd h.1 (not_le.mpr hlen)
  | dropped hlen htag =>
    refine iff_of_false Bool.false_ne_true fun hwaits => htag ?_
    rw [hc, readFirst_eq _ hwaits.2]
  | answered hlen htag =>
    have hne : b.uart.rx ≠ [] := List.ne_nil_of_length_pos (by omega)
    have hhead := List.head?_eq_some_head hne
    rw [hc, readFirst_eq _ hhead] at htag
    exact iff_of_true rfl ⟨hlen, htag ▸ hhead⟩

/-- **When an iteration accepts a record.** -/
theorem iteration_accepts_iff (inp : BoardInput) (b : Board) :
    (iteration inp b).2.accepted.isSome = true ↔
      b.connBroken = false ∧ FrameWaits inp.uart b.uart := by
  rw [iteration_accepted]
  cases hconn : b.connBroken with
  | true =>
    rw [communicate_of_down (b := b.countIteration) hconn]
    exact iff_of_false Bool.false_ne_true fun h => absurd h.1.symm Bool.false_ne_true
  | false =>
    rw [communicate_of_up (b := b.countIteration) hconn, exchange_accepts_iff]
    exact (and_iff_right rfl).symm

/-! ### Runs without losses -/

theorem lost_le_iteration (inp : BoardInput) (b : Board) :
    b.uart.lost ≤ (iteration inp b).1.uart.lost := by
  set p := (b.countIteration.pollLength inp.uart).2
  have hpoll : b.uart.lost ≤ p.uart.lost := lost_le_sync _ _
  rw [iteration_uart]
  cases hconn : b.connBroken with
  | true =>
    rw [communicate_of_down (b := b.countIteration) hconn]
    exact hpoll.trans (lost_le_initCommunication _ _ _)
  | false =>
    rw [communicate_of_up (b := b.countIteration) hconn]
    exact hpoll.trans (lost_le_exchange _ _ _)

variable {b₀ : Board} {inp : ℕ → BoardInput} {k n : ℕ}

theorem lost_boardAt_mono (hkn : k ≤ n) :
    (boardAt b₀ inp k).uart.lost ≤ (boardAt b₀ inp n).uart.lost :=
  monotone_nat_of_le_succ (f := fun n => (boardAt b₀ inp n).uart.lost)
    (fun _ => lost_le_iteration _ _) hkn

/-- A run without losses has no losses before any of its iterations. -/
theorem lost_boardAt_eq (hkn : k ≤ n) (h : (boardAt b₀ inp n).uart.lost = b₀.uart.lost) :
    (boardAt b₀ inp k).uart.lost = b₀.uart.lost :=
  le_antisymm ((lost_boardAt_mono hkn).trans_eq h) (lost_boardAt_mono (Nat.zero_le k))

/-- The receive step of an iteration of a run without losses. -/
theorem boardAt_rxStep (hkn : k < n) (h : (boardAt b₀ inp n).uart.lost = b₀.uart.lost) :
    ∃ d, RxStep (boardAt b₀ inp k) (boardAt b₀ inp (k + 1)) (acceptedAt b₀ inp k) d ∧
      ((boardAt b₀ inp k).connBroken = false →
        (d = [] ↔ ReplyUndisturbed (inp k).uart
          ((boardAt b₀ inp k).uart.rx ++ (inp k).uart.atPoll.rxd))) :=
  iteration_rxStep (inp k)
    ((lost_boardAt_eq (k := k + 1) hkn h).trans (lost_boardAt_eq hkn.le h).symm)

/-- What is taken in the rest of a run without losses. -/
theorem flow_boardAt (hkn : k ≤ n) (h : (boardAt b₀ inp n).uart.lost = b₀.uart.lost) :
    ∃ taken, (boardAt b₀ inp k).uart.Flow taken (boardAt b₀ inp n).uart := by
  induction n, hkn using Nat.le_induction with
  | base => exact ⟨[], Flow.refl _⟩
  | succ n hkn ih =>
    obtain ⟨taken, htaken⟩ := ih (lost_boardAt_eq (Nat.le_succ n) h)
    obtain ⟨d, hstep, -⟩ := boardAt_rxStep (Nat.lt_succ_self n) h
    obtain ⟨taken', htaken'⟩ := hstep.flow
    exact ⟨taken ++ taken', htaken.trans htaken'⟩

/-- In a run without losses that starts with an empty FIFO, what was taken before an iteration is
the beginning of what arrives in the whole run. -/
theorem taken_prefix_arrived {T arrived : List UInt8} (hkn : k ≤ n) (hrx : b₀.uart.rx = [])
    (h : (boardAt b₀ inp n).uart.lost = b₀.uart.lost)
    (hheard : (boardAt b₀ inp n).uart.heard = b₀.uart.heard ++ arrived)
    (hflow : b₀.uart.Flow T (boardAt b₀ inp k).uart) : T <+: arrived := by
  obtain ⟨taken, htaken⟩ := flow_boardAt hkn h
  have harrived := (hflow.trans htaken).arrived_eq hrx hheard
  exact ⟨taken ++ (boardAt b₀ inp n).uart.rx, by rw [harrived, List.append_assoc]⟩

end Board

end LegoCar
