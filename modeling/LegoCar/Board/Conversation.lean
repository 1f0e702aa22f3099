import Mathlib
import LegoCar.Board.Delivery
import LegoCar.Board.Transmit

/-!
# A board in a conversation

What an iteration of the firmware does to the serial port, as the host at the other end can know
it. `Contained` says that the FIFOs hold no more than what arrived and what was written, so that
nothing is lost as long as the host sends no more than the receive FIFO has room for. `GreetStep` is
an iteration with the link down, and `iteration_waits`, `iteration_answers` are the two things that
can happen while the link is up when the bytes that the host has sent are the beginning of a frame.
-/

namespace LegoCar

open Uart

namespace Uart

variable {u u' u'' : Uart}

/-- Between two states, the FIFOs grew by no more than the bytes that arrived and the bytes that
were written, and nothing was lost if there was room for what arrived. -/
structure Contained (u u' : Uart) : Prop where
  backlog : u'.tx.length + u.said.length ≤ u.tx.length + u'.said.length
  room : ∃ arrived, u'.heard = u.heard ++ arrived ∧
    u'.rx.length ≤ u.rx.length + arrived.length ∧
    (u.rx.length + arrived.length ≤ fifoSize → u'.lost = u.lost)

theorem Contained.refl (u : Uart) : Contained u u :=
  ⟨le_rfl, [], (List.append_nil _).symm, le_rfl, fun _ => rfl⟩

theorem Contained.trans (h : Contained u u') (h' : Contained u' u'') : Contained u u'' := by
  obtain ⟨hbacklog, arrived, hheard, hlen, hlost⟩ := h
  obtain ⟨hbacklog', arrived', hheard', hlen', hlost'⟩ := h'
  refine ⟨by omega, arrived ++ arrived', ?_, ?_, fun hroom => ?_⟩
  · rw [hheard', hheard, List.append_assoc]
  · rw [List.length_append]
    omega
  · rw [List.length_append] at hroom
    rw [hlost' (by omega), hlost (by omega)]

/-! ### The driver functions -/

theorem contained_sync (sl : Slot) (u : Uart) : Contained u (u.sync sl) := by
  have htx := length_tx_sync sl u
  refine ⟨by rw [htx]; exact Nat.add_le_add_right (Nat.sub_le _ _) _, sl.rxd, rfl, ?_, ?_⟩
  · rw [← List.length_append]
    exact List.length_take_le' _ _
  · intro hroom
    have hlost : (u.sync sl).lost = u.lost + ((u.rx ++ sl.rxd).length - fifoSize) := rfl
    rw [hlost, List.length_append]
    omega

theorem contained_iordData (u : Uart) : Contained u u.iordData.2 :=
  ⟨le_rfl, [], (List.append_nil _).symm, by simp [iordData], fun _ => rfl⟩

theorem contained_iowrData (b : UInt8) (u : Uart) : Contained u (u.iowrData b) := by
  refine ⟨?_, [], by rw [heard_iowrData, List.append_nil], by rw [rx_iowrData]; exact le_rfl,
    fun _ => lost_iowrData b u⟩
  unfold iowrData
  split_ifs
  · simp only [List.length_append, List.length_singleton]
    omega
  · simp only [List.length_append, List.length_singleton]
    omega

theorem contained_readFirst (sl : Slot) (u : Uart) : Contained u (u.readFirst sl).2 :=
  (contained_sync sl u).trans (contained_iordData _)

theorem contained_writeData (sl : Slot) (b : UInt8) (u : Uart) :
    Contained u (u.altUpRs232WriteData sl b) :=
  ((contained_sync sl u).trans (contained_iordData _)).trans (contained_iowrData b _)

theorem contained_awaitSpace (sl : Slot) (u : Uart) : Contained u (u.awaitSpaceInWriteFIFO sl) := by
  refine (contained_sync sl u).trans ⟨?_, [], (List.append_nil _).symm, le_rfl, fun _ => rfl⟩
  rw [tx_awaitSpace, List.length_drop]
  exact Nat.add_le_add_right (Nat.sub_le _ _) _

theorem contained_readMany (k : ℕ) (sl : ℕ → Slot) (u : Uart) :
    Contained u (u.readMany k sl).2 := by
  induction k generalizing sl u with
  | zero => exact .refl u
  | succ k ih =>
    rw [readMany_succ]
    exact (contained_readFirst (sl 0) u).trans (ih _ _)

theorem contained_writeMany (bs : List UInt8) (sl : ℕ → Slot) (u : Uart) :
    Contained u (u.writeMany bs sl) := by
  induction bs generalizing sl u with
  | nil => exact .refl u
  | cons b bs ih => exact (contained_writeData (sl 0) b u).trans (ih _ _)

theorem contained_writeString (bs : List UInt8) (waits sl : ℕ → Slot) (u : Uart) :
    Contained u (u.writeString bs waits sl) := by
  induction bs generalizing waits sl u with
  | nil => exact .refl u
  | cons b bs ih =>
    have hwrite := (contained_awaitSpace (waits 0) u).trans (contained_writeData (sl 0) b _)
    exact hwrite.trans (ih _ _ _)

theorem said_writeString (bs : List UInt8) (waits sl : ℕ → Slot) (u : Uart) :
    (u.writeString bs waits sl).said = u.said ++ bs := by
  induction bs generalizing waits sl u with
  | nil => exact (List.append_nil _).symm
  | cons b bs ih =>
    have hwrite : ((u.awaitSpaceInWriteFIFO (waits 0)).altUpRs232WriteData (sl 0) b).said =
        u.said ++ [b] := said_iowrData b _
    rw [writeString, ih, hwrite, List.append_assoc, List.singleton_append]

end Uart

namespace Board

attribute [local irreducible] Uart.readMany Uart.writeMany Uart.writeString

variable {b b' : Board}

/-! ### The bounds of an iteration -/

theorem contained_initCommunication (inp : UartInput) (i : ℕ) (b : Board) :
    Contained b.uart (b.initCommunication inp i).uart := by
  have hread : Contained b.uart (b.clearCommand.readStart inp).uart := contained_readFirst _ b.uart
  have hcases := initCommunication_cases inp i b
  generalize b.initCommunication inp i = b' at hcases ⊢
  cases hcases with
  | quiet =>
    rw [uart_blink]
    exact .refl b.uart
  | other => rwa [uart_blink]
  | started =>
    rw [uart_blink]
    exact hread.trans (contained_writeString _ _ _ _)

theorem contained_exchange (inp : UartInput) (i : ℕ) (b : Board) :
    Contained b.uart (b.exchange inp i).1.uart := by
  have hread : Contained b.uart (b.countTimeout.readStart inp).uart := by
    rw [← uart_countTimeout b]
    exact contained_readFirst _ _
  have hcases := exchange_cases inp i b
  generalize b.exchange inp i = r at hcases ⊢
  cases hcases with
  | waiting =>
    rw [uart_countTimeout]
    exact .refl b.uart
  | dropped => exact hread
  | answered =>
    rw [uart_receive_send, uart_countTimeout]
    exact (contained_readMany _ _ _).trans (contained_writeMany _ _ _)

theorem contained_communicate (inp : UartInput) (b : Board) :
    Contained (b.uart.sync inp.atPoll) (b.communicate inp).1.uart := by
  have hpoll : (b.pollLength inp).2.uart = b.uart.sync inp.atPoll := rfl
  rw [← hpoll]
  cases hconn : b.connBroken with
  | true =>
    rw [communicate_of_down hconn]
    exact contained_initCommunication _ _ _
  | false =>
    rw [communicate_of_up hconn]
    exact contained_exchange _ _ _

/-- **The bounds of an iteration.** -/
theorem contained_iteration (inp : BoardInput) (b : Board) :
    Contained b.uart (iteration inp b).1.uart := by
  rw [iteration_uart]
  exact (contained_sync inp.uart.atPoll b.uart).trans
    (contained_communicate inp.uart b.countIteration)

/-! ### While the link is down -/

/-- What an iteration does with the link down, by the bytes it takes: nothing waits, or the byte
that waits is not an `'I'`, or it is and the link comes up. -/
inductive GreetStep (b b' : Board) : Prop where
  | quiet (hlink : b'.connBroken = true) (hsaid : b'.uart.said = b.uart.said)
      (hrx : b.uart.rx = []) (hflow : b.uart.Flow [] b'.uart) (hrx' : b'.uart.rx = []) :
      GreetStep b b'
  | other (c : UInt8) (hc : c ≠ tagI) (hlink : b'.connBroken = true)
      (hsaid : b'.uart.said = b.uart.said) (hflow : b.uart.Flow [c] b'.uart) : GreetStep b b'
  | started (d : List UInt8) (hlink : b'.connBroken = false) (htimeout : b'.uartTimeout = 0)
      (hsaid : b'.uart.said = b.uart.said ++ versionName)
      (hflow : b.uart.Flow (tagI :: d) b'.uart) : GreetStep b b'

/-- The later stages leave the serial port and the link alone. -/
theorem GreetStep.congr {c : Board} (huart : c.uart = b'.uart)
    (hlink : c.connBroken = b'.connBroken) (htimeout : c.uartTimeout = b'.uartTimeout)
    (h : GreetStep b b') : GreetStep b c := by
  cases h with
  | quiet hlink' hsaid hrx hflow hrx' =>
    exact .quiet (hlink.trans hlink') (huart ▸ hsaid) hrx (huart ▸ hflow) (huart ▸ hrx')
  | other c hc hlink' hsaid hflow =>
    exact .other c hc (hlink.trans hlink') (huart ▸ hsaid) (huart ▸ hflow)
  | started d hlink' htimeout' hsaid hflow =>
    exact .started d (hlink.trans hlink') (htimeout.trans htimeout') (huart ▸ hsaid) (huart ▸ hflow)

theorem initCommunication_greetStep (inp : UartInput) {b : Board} (hb : b.connBroken = true)
    (h : (b.initCommunication inp b.uart.rx.length).uart.lost = b.uart.lost) :
    GreetStep b (b.initCommunication inp b.uart.rx.length) := by
  have hread : (b.clearCommand.readStart inp).uart = (b.uart.readFirst (inp.atRead 0)).2 := rfl
  have hc : (b.clearCommand.readStart inp).c = (b.uart.readFirst (inp.atRead 0)).1 := rfl
  have hmono : b.uart.lost ≤ (b.uart.readFirst (inp.atRead 0)).2.lost := lost_le_sync _ _
  have hcases := initCommunication_cases inp b.uart.rx.length b
  generalize b.initCommunication inp b.uart.rx.length = b' at hcases h ⊢
  cases hcases with
  | quiet hi =>
    have hrx : b.uart.rx = [] := List.length_eq_zero_iff.mp hi
    have huart : b.clearCommand.blink.uart = b.uart := uart_blink _
    refine .quiet ((blink_sameLink _).connBroken.trans hb) (by rw [huart]) hrx ?_
      (by rw [huart, hrx])
    rw [huart]
    exact .refl _
  | other hi htag =>
    rw [uart_blink, hread] at h
    refine .other _ htag ((blink_sameLink _).connBroken.trans hb)
      (by rw [uart_blink, hread]; rfl) ?_
    rw [uart_blink, hread, hc]
    exact flow_readFirst hi h
  | started hi htag =>
    have hstart : ((b.clearCommand.readStart inp).startLink inp).uart =
        (b.uart.readFirst (inp.atRead 0)).2.writeString versionName inp.atWait inp.atWrite := rfl
    rw [uart_blink, hstart] at h
    have hmono' := lost_le_writeString versionName inp.atWait inp.atWrite
      (b.uart.readFirst (inp.atRead 0)).2
    have hfirst : (b.uart.readFirst (inp.atRead 0)).2.lost = b.uart.lost :=
      le_antisymm (hmono'.trans_eq h) hmono
    obtain ⟨taken, hflow⟩ := flow_writeString (h.trans hfirst.symm)
    refine .started taken ((blink_sameLink _).connBroken.trans rfl)
      ((blink_sameLink _).uartTimeout.trans rfl) ?_ ?_
    · rw [uart_blink, hstart, said_writeString]
      rfl
    · rw [uart_blink, hstart, ← htag, hc]
      exact (flow_readFirst hi hfirst).trans hflow

/-- Reading the fill level takes nothing. -/
theorem GreetStep.poll {a : Board} (hsaid : b.uart.said = a.uart.said)
    (hpoll : a.uart.Flow [] b.uart) (h : GreetStep b b') : GreetStep a b' := by
  cases h with
  | quiet hlink hsaid' hrx hflow hrx' =>
    have ⟨arrived, _, hqueue⟩ := hpoll
    have hempty : a.uart.rx ++ arrived = [] := by rw [hqueue, hrx, List.append_nil]
    exact .quiet hlink (hsaid'.trans hsaid) (List.append_eq_nil_iff.mp hempty).1
      (hpoll.trans hflow) hrx'
  | other c hc hlink hsaid' hflow =>
    exact .other c hc hlink (hsaid'.trans hsaid) (hpoll.trans hflow)
  | started d hlink htimeout hsaid' hflow =>
    exact .started d hlink htimeout (hsaid ▸ hsaid') (hpoll.trans hflow)

/-- **An iteration with the link down.** -/
theorem iteration_greetStep (inp : BoardInput) (hb : b.connBroken = true)
    (h : (iteration inp b).1.uart.lost = b.uart.lost) : GreetStep b (iteration inp b).1 := by
  have huart := iteration_uart inp b
  have hlink := iteration_sameLink inp b
  rw [communicate_of_down (b := b.countIteration) hb] at huart hlink
  set p := (b.countIteration.pollLength inp.uart).2
  rw [huart] at h
  have hmono : b.uart.lost ≤ p.uart.lost := lost_le_sync _ _
  have hmono' := lost_le_initCommunication inp.uart p.uart.rx.length p
  have hloss : p.uart.lost = b.uart.lost := le_antisymm (hmono'.trans_eq h) hmono
  have hpoll : b.uart.Flow [] p.uart := flow_sync hloss
  have hstep : GreetStep p (p.initCommunication inp.uart p.uart.rx.length) :=
    initCommunication_greetStep inp.uart hb (h.trans hloss.symm)
  have hsaid : p.uart.said = b.uart.said := rfl
  exact (hstep.poll hsaid hpoll).congr huart hlink.connBroken hlink.uartTimeout

/-! ### While the link is up -/

/-- What an iteration does with the link up, when the bytes that the host has sent and the board has
not taken are `rest`, which is nothing or a frame: the board waits, or it takes the frame whole and
answers it. -/
inductive AwaitStep (before rest : List UInt8) (b : Board) (r : Board × BoardOutput) : Prop where
  | waits (haccepted : r.2.accepted = none) (hreply : r.2.reply = none)
      (hlink : r.1.connBroken = false) (htimeout : r.1.uartTimeout = b.uartTimeout + 1)
      (hW : r.1.outdat.W = b.outdat.W) (hheard : r.1.uart.heard = before ++ r.1.uart.rx)
      (hlen : r.1.uart.rx.length < 9) (hsaid : r.1.uart.said = b.uart.said) :
      AwaitStep before rest b r
  | answers (f : Indata) (o : Outdata) (hrest : rest = tagS :: f.serial)
      (haccepted : r.2.accepted = some f) (hreply : r.2.reply = some (tagR :: o.serial))
      (hlink : r.1.connBroken = false) (htimeout : r.1.uartTimeout = 0) (hW : r.1.outdat.W = f.W)
      (hheard : r.1.uart.heard = before ++ rest) (hrx : r.1.uart.rx = [])
      (hsaid : r.1.uart.said = b.uart.said ++ tagR :: o.serial) : AwaitStep before rest b r

section Await

variable {before rest : List UInt8} {inp : BoardInput}

/-- What a host may have sent that the board has not taken: nothing, or a frame. -/
def Pending (rest : List UInt8) : Prop := rest = [] ∨ ∃ f : Indata, rest = tagS :: f.serial

theorem Pending.length_le (h : Pending rest) : rest.length ≤ 9 := by
  obtain rfl | ⟨f, rfl⟩ := h
  · exact Nat.zero_le _
  · rw [List.length_cons, f.length_serial]

/-- A host that sends no more than a frame loses nothing. -/
theorem lost_iteration_of_pending (hrest : Pending rest)
    (hheard : b.uart.heard = before ++ b.uart.rx)
    (hsent : (iteration inp b).1.uart.heard <+: before ++ rest) :
    (iteration inp b).1.uart.lost = b.uart.lost := by
  obtain ⟨arrived, harrived, -, hlost⟩ := (contained_iteration inp b).room
  rw [harrived, hheard, List.append_assoc, List.prefix_append_right_inj] at hsent
  have hlen := hsent.length_le.trans hrest.length_le
  rw [List.length_append] at hlen
  exact hlost (hlen.trans (by decide))

/-- **An iteration with the link up**, when no more than a frame is on its way. -/
theorem iteration_awaitStep (hb : b.connBroken = false) (hto : b.uartTimeout + 1 < 50)
    (hrest : Pending rest) (hheard : b.uart.heard = before ++ b.uart.rx)
    (hsent : (iteration inp b).1.uart.heard <+: before ++ rest) :
    AwaitStep before rest b (iteration inp b) := by
  obtain ⟨d, hstep, -⟩ := iteration_rxStep inp (lost_iteration_of_pending hrest hheard hsent)
  have hlink := iteration_linkStep inp b
  have hsaid := iteration_said inp hb
  obtain ⟨hsome, hrecord⟩ := iteration_reply inp hb
  -- what was taken and what waits is the beginning of what was sent
  have hqueue : ∀ taken, b.uart.Flow taken (iteration inp b).1.uart →
      (iteration inp b).1.uart.heard = before ++ (taken ++ (iteration inp b).1.uart.rx) ∧
        taken ++ (iteration inp b).1.uart.rx <+: rest := by
    rintro taken ⟨arrived, harrived, hflow⟩
    have heq : (iteration inp b).1.uart.heard =
        before ++ (taken ++ (iteration inp b).1.uart.rx) := by
      rw [harrived, hheard, List.append_assoc, hflow]
    refine ⟨heq, ?_⟩
    rwa [heq, List.prefix_append_right_inj] at hsent
  generalize iteration inp b = r at *
  cases hstep' : r.2.accepted with
  | none =>
    rw [hstep'] at hstep hlink hsome
    have hreply : r.2.reply = none := by
      rw [← Option.not_isSome_iff_eq_none, hsome]
      exact Bool.false_ne_true
    rw [hreply, Option.getD_none, List.append_nil] at hsaid
    cases hlink with
    | down hdown => exact absurd (hdown.symm.trans hb) (by decide)
    | idle _ hW _ htimeout =>
      obtain ⟨-, hup, htimeout⟩ := htimeout.resolve_right fun h => absurd h.1 (by omega)
      cases hstep with
      | down taken hdown => exact absurd (hdown.symm.trans hb) (by decide)
      | wait _ hflow hlen =>
        exact .waits hstep' hreply hup htimeout hW (hqueue [] hflow).1 hlen hsaid
      | drop c _ hc hflow =>
        -- the oldest byte on its way is an 'S'
        have hprefix := (hqueue [c] hflow).2
        obtain rfl | ⟨f, rfl⟩ := hrest
        · exact absurd (List.prefix_nil.mp hprefix) (by simp)
        · exact absurd (List.cons_prefix_cons.mp hprefix).1 hc
  | some f =>
    rw [hstep'] at hstep hlink hsome
    obtain ⟨bs, hbs⟩ := Option.isSome_iff_exists.mp hsome
    obtain ⟨o, rfl⟩ := hrecord bs hbs
    rw [hbs, Option.getD_some] at hsaid
    cases hlink with
    | accept _ _ hW _ htimeout hup =>
      have hup' : r.1.connBroken = false := hup.trans (decide_eq_false (by omega))
      cases hstep with
      | accept p d _ hp hflow =>
        obtain ⟨hheard', hprefix⟩ := hqueue _ hflow
        obtain rfl | ⟨g, rfl⟩ := hrest
        · exact absurd (List.prefix_nil.mp hprefix) (by simp)
        · -- the frame was taken whole, and there was nothing behind it
          rw [List.cons_append, List.cons_append, List.cons_prefix_cons,
            List.append_assoc] at hprefix
          obtain ⟨rfl, hnil⟩ : p = g.serial ∧ d ++ r.1.uart.rx = [] := by
            obtain ⟨t, ht⟩ := hprefix.2
            rw [List.append_assoc] at ht
            obtain ⟨hpg, hnil⟩ := List.append_inj (ht.trans (List.append_nil _).symm)
              (hp.trans g.length_serial.symm)
            exact ⟨hpg, (List.append_eq_nil_iff.mp hnil).1⟩
          obtain ⟨rfl, hrx⟩ := List.append_eq_nil_iff.mp hnil
          rw [Indata.ofSerial_serial] at hstep' hW
          rw [hrx, List.append_nil, List.append_nil] at hheard'
          exact .answers g o rfl hstep' hbs hup' htimeout hW hheard' hrx hsaid

end Await

/-- A reply fits behind a backlog that leaves room for it. -/
theorem sends_iteration_of_backlog (inp : BoardInput) (h : b.uart.tx.length + 53 ≤ fifoSize) :
    Sends b.uart (iteration inp b).1.uart := by
  refine sends_iteration inp ((cut_iteration_iff inp b).mpr fun _ _ k hk => ?_)
  omega

end Board

end LegoCar
