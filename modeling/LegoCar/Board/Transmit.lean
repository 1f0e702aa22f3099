import Mathlib
import LegoCar.Wire.HostStream
import LegoCar.Board.Delivery

/-!
# What the transmit FIFO drops

A byte that is written while the transmit FIFO is full is dropped. The version string waits for
room before every byte (`cut_writeString`), a reply does not: its 53 bytes go out whole exactly when
the wire has made enough room for each of them (`cut_writeMany_iff`). Since a FIFO that runs empty
during the reply cannot fill up again before its end, the bytes transmitted can be counted without
regard to that, and `transmit_iff` gives the condition for a whole run.
-/

namespace LegoCar

open Driven Board Uart

namespace Uart

variable {u : Uart} {sl : ℕ → Slot} {bs : List UInt8}

/-- The bytes the wire can transmit before the first `k` accesses of a kind. -/
def transmitted (sl : ℕ → Slot) (k : ℕ) : ℕ := ((List.range k).map fun j => (sl j).txd).sum

theorem transmitted_succ (sl : ℕ → Slot) (k : ℕ) :
    transmitted sl (k + 1) = (sl 0).txd + transmitted (fun j => sl (j + 1)) k := by
  simp [transmitted, List.range_succ_eq_map, List.map_map, Function.comp_def]

/-- Nothing was dropped: no write found the FIFO full, and what it holds is the end of what was
written, so that the wire took everything before that. -/
structure Whole (u : Uart) : Prop where
  room : u.cut = 0
  sent : u.tx <:+ u.said

/-- An operation that found the FIFO full at no write, and one that kept the order of the bytes. -/
def Sends (u u' : Uart) : Prop := u'.cut = u.cut ∧ (u.tx <:+ u.said → u'.tx <:+ u'.said)

theorem Sends.refl (u : Uart) : Sends u u := ⟨rfl, id⟩

theorem Sends.trans {u' u'' : Uart} (h : Sends u u') (h' : Sends u' u'') : Sends u u'' :=
  ⟨h'.1.trans h.1, fun hs => h'.2 (h.2 hs)⟩

theorem Sends.whole {u' : Uart} (h : Sends u u') (hu : Whole u) : Whole u' :=
  ⟨h.1.trans hu.room, h.2 hu.sent⟩

/-! ### The driver functions -/

theorem sends_sync (sl : Slot) (u : Uart) : Sends u (u.sync sl) :=
  ⟨rfl, fun h => (List.drop_suffix _ _).trans h⟩

theorem tx_awaitSpace (sl : Slot) (u : Uart) : (u.awaitSpaceInWriteFIFO sl).tx =
    (u.sync sl).tx.drop ((u.sync sl).tx.length - (fifoSize - 1)) := by
  rw [awaitSpaceInWriteFIFO]

theorem sends_awaitSpace (sl : Slot) (u : Uart) : Sends u (u.awaitSpaceInWriteFIFO sl) := by
  refine (sends_sync sl u).trans ⟨rfl, fun h => ?_⟩
  rw [tx_awaitSpace]
  exact (List.drop_suffix _ _).trans h

theorem length_tx_sync (sl : Slot) (u : Uart) :
    (u.sync sl).tx.length = u.tx.length - sl.txd := List.length_drop

/-- After the wait, there is room. -/
theorem length_tx_awaitSpace (sl : Slot) (u : Uart) :
    (u.awaitSpaceInWriteFIFO sl).tx.length < fifoSize := by
  rw [tx_awaitSpace, List.length_drop, fifoSize]
  omega

theorem tx_iordData (u : Uart) : u.iordData.2.tx = u.tx := rfl

/-- A write that finds room. -/
theorem write_of_room {sl : Slot} (b : UInt8) (h : u.tx.length < fifoSize + sl.txd) :
    Sends u (u.altUpRs232WriteData sl b) ∧
      (u.altUpRs232WriteData sl b).tx.length = u.tx.length - sl.txd + 1 := by
  have hsync := length_tx_sync sl u
  have hroom : (u.sync sl).iordData.2.tx.length < fifoSize := by
    rw [tx_iordData, hsync]
    have hpos : 0 < fifoSize := by decide
    omega
  have hwrite : u.altUpRs232WriteData sl b =
      { (u.sync sl).iordData.2 with
        tx := (u.sync sl).tx ++ [b]
        said := u.said ++ [b] } := if_pos hroom
  rw [hwrite]
  refine ⟨⟨rfl, fun hs => ?_⟩, by simp [hsync]⟩
  obtain ⟨sent, hsent⟩ := (sends_sync sl u).2 hs
  exact ⟨sent, by rw [← List.append_assoc, hsent]; rfl⟩

/-- A write that finds the FIFO full. -/
theorem cut_write_of_full {sl : Slot} (b : UInt8) (h : ¬u.tx.length < fifoSize + sl.txd) :
    (u.altUpRs232WriteData sl b).cut = u.cut + 1 := by
  have hfull : ¬(u.sync sl).iordData.2.tx.length < fifoSize := by
    rw [tx_iordData, length_tx_sync]
    omega
  rw [altUpRs232WriteData, iowrData, if_neg hfull]
  rfl

theorem cut_le_writeMany (bs : List UInt8) (sl : ℕ → Slot) (u : Uart) :
    u.cut ≤ (u.writeMany bs sl).cut := by
  induction bs generalizing sl u with
  | nil => exact le_rfl
  | cons b bs ih =>
    refine le_trans ?_ (ih _ _)
    by_cases hroom : u.tx.length < fifoSize + (sl 0).txd
    · exact (write_of_room b hroom).1.1.ge
    · rw [cut_write_of_full b hroom]
      exact Nat.le_succ _

/-- **A run of writes** drops nothing exactly when the wire has made room for each byte. -/
theorem cut_writeMany_iff (hbs : bs.length ≤ fifoSize) :
    (u.writeMany bs sl).cut = u.cut ↔
      ∀ k < bs.length, u.tx.length + k < fifoSize + transmitted sl (k + 1) := by
  induction bs generalizing sl u with
  | nil => exact iff_of_true rfl fun k hk => absurd hk (Nat.not_lt_zero k)
  | cons b bs ih =>
    have hone : transmitted sl 1 = (sl 0).txd := Nat.add_zero _
    have hlen : bs.length + 1 ≤ fifoSize := hbs
    rw [writeMany]
    by_cases hroom : u.tx.length < fifoSize + (sl 0).txd
    · obtain ⟨hsends, htx⟩ := write_of_room b hroom
      rw [← hsends.1, ih (by omega), htx]
      constructor
      · intro h k hk
        cases k with
        | zero => rwa [hone, Nat.add_zero]
        | succ k =>
          have hk' := h k (by simpa using hk)
          rw [transmitted_succ]
          omega
      · intro h k hk
        have hk' := h (k + 1) (by simpa using hk)
        rw [transmitted_succ] at hk'
        omega
    · have hcut := cut_write_of_full b hroom
      have hle := cut_le_writeMany bs (fun j => sl (j + 1)) (u.altUpRs232WriteData (sl 0) b)
      refine iff_of_false (by omega) fun h => hroom ?_
      have h0 := h 0 (Nat.succ_pos _)
      rwa [hone, Nat.add_zero] at h0

theorem sends_writeMany (h : (u.writeMany bs sl).cut = u.cut) : Sends u (u.writeMany bs sl) := by
  induction bs generalizing sl u with
  | nil => exact .refl u
  | cons b bs ih =>
    rw [writeMany] at h ⊢
    have hle := cut_le_writeMany bs (fun j => sl (j + 1)) (u.altUpRs232WriteData (sl 0) b)
    by_cases hroom : u.tx.length < fifoSize + (sl 0).txd
    · have hsends := (write_of_room b hroom).1
      exact hsends.trans (ih (h.trans hsends.1.symm))
    · have hcut := cut_write_of_full b hroom
      omega

/-- The version string drops nothing. -/
theorem sends_writeString (bs : List UInt8) (waits sl : ℕ → Slot) (u : Uart) :
    Sends u (u.writeString bs waits sl) := by
  induction bs generalizing waits sl u with
  | nil => exact .refl u
  | cons b bs ih =>
    have hroom := length_tx_awaitSpace (waits 0) u
    have hwrite : Sends (u.awaitSpaceInWriteFIFO (waits 0))
        ((u.awaitSpaceInWriteFIFO (waits 0)).altUpRs232WriteData (sl 0) b) :=
      (write_of_room b (Nat.lt_add_right _ hroom)).1
    exact ((sends_awaitSpace (waits 0) u).trans hwrite).trans (ih _ _ _)

theorem sends_readFirst (sl : Slot) (u : Uart) : Sends u (u.readFirst sl).2 := sends_sync sl u

/-- Reads drop nothing, and the wire transmits meanwhile. -/
theorem sends_readMany (k : ℕ) (sl : ℕ → Slot) (u : Uart) :
    Sends u (u.readMany k sl).2 ∧
      (u.readMany k sl).2.tx.length = u.tx.length - transmitted sl k := by
  induction k generalizing sl u with
  | zero => exact ⟨.refl u, rfl⟩
  | succ k ih =>
    obtain ⟨hsends, hlen⟩ := ih (fun j => sl (j + 1)) (u.readFirst (sl 0)).2
    have hfirst : (u.readFirst (sl 0)).2.tx.length = u.tx.length - (sl 0).txd :=
      length_tx_sync (sl 0) u
    rw [readMany_succ]
    refine ⟨(sends_readFirst (sl 0) u).trans hsends, hlen.trans ?_⟩
    rw [hfirst, transmitted_succ, Nat.sub_sub]

end Uart

namespace Board

attribute [local irreducible] Uart.readMany Uart.writeMany Uart.writeString

variable {b : Board}

/-- While a record is read and the reply is written, the wire makes room for each of the 53 bytes
of the reply. -/
def ReplyFits (inp : UartInput) (u : Uart) : Prop :=
  ∀ k < 53, u.tx.length + k <
    fifoSize + (inp.atPoll.txd + transmitted inp.atRead 9 + transmitted inp.atWrite (k + 1))

instance (inp : UartInput) (u : Uart) : Decidable (ReplyFits inp u) :=
  inferInstanceAs (Decidable (∀ k < 53, _))

theorem sends_initCommunication (inp : UartInput) (i : ℕ) (b : Board) :
    Sends b.uart (b.initCommunication inp i).uart := by
  have hread : Sends b.uart (b.clearCommand.readStart inp).uart := sends_readFirst _ b.uart
  have hcases := initCommunication_cases inp i b
  generalize b.initCommunication inp i = b' at hcases ⊢
  cases hcases with
  | quiet =>
    rw [uart_blink]
    exact .refl b.uart
  | other => rwa [uart_blink]
  | started =>
    rw [uart_blink]
    exact hread.trans (sends_writeString _ _ _ _)

/-- While the link is up, what is not a reply writes nothing, and a reply drops nothing exactly when
it fits. -/
theorem sends_exchange_iff (inp : UartInput) (i : ℕ) (b : Board) :
    Sends b.uart (b.exchange inp i).1.uart ↔ (b.exchange inp i).1.uart.cut = b.uart.cut := by
  refine ⟨fun h => h.1, fun h => ?_⟩
  have hcount := uart_countTimeout b
  have hcases := exchange_cases inp i b
  generalize b.exchange inp i = r at hcases h ⊢
  cases hcases with
  | waiting =>
    rw [hcount]
    exact .refl b.uart
  | dropped => exact hcount ▸ sends_readFirst _ b.countTimeout.uart
  | answered =>
    rw [uart_receive_send, hcount] at h ⊢
    have hreads := (sends_readMany 9 inp.atRead b.uart).1
    exact hreads.trans (sends_writeMany (h.trans hreads.1.symm))

theorem cut_exchange_iff (inp : UartInput) (i : ℕ) (b : Board) :
    (b.exchange inp i).1.uart.cut = b.uart.cut ↔ ((b.exchange inp i).2.1.isSome = true →
      ∀ k < 53, b.uart.tx.length + k <
        fifoSize + (transmitted inp.atRead 9 + transmitted inp.atWrite (k + 1))) := by
  have hcount := uart_countTimeout b
  have hcut : b.countTimeout.uart.cut = b.uart.cut := congrArg Uart.cut hcount
  have hread : (b.countTimeout.readStart inp).uart.cut = b.uart.cut :=
    (sends_readFirst _ b.countTimeout.uart).1.trans hcut
  have hcases := exchange_cases inp i b
  generalize b.exchange inp i = r at hcases ⊢
  cases hcases with
  | waiting => exact iff_of_true hcut fun h => absurd h Bool.false_ne_true
  | dropped => exact iff_of_true hread fun h => absurd h Bool.false_ne_true
  | answered =>
    obtain ⟨hsends, hlen⟩ := sends_readMany 9 inp.atRead b.uart
    dsimp only
    rw [uart_receive_send, hcount, Option.isSome_some, forall_prop_of_true rfl, ← hsends.1,
      cut_writeMany_iff (by rw [List.length_cons, Outdata.length_serial]; decide),
      List.length_cons, Outdata.length_serial, hlen]
    refine forall₂_congr fun k hk => ?_
    rw [fifoSize]
    omega

/-- **The step.** An iteration drops nothing exactly when it writes no reply or its reply fits. -/
theorem cut_iteration_iff (inp : BoardInput) (b : Board) :
    (iteration inp b).1.uart.cut = b.uart.cut ↔
      (b.connBroken = false → FrameWaits inp.uart b.uart → ReplyFits inp.uart b.uart) := by
  have hpoll := sends_sync inp.uart.atPoll b.uart
  rw [iteration_uart]
  cases hconn : b.connBroken with
  | true =>
    rw [communicate_of_down (b := b.countIteration) hconn]
    exact iff_of_true ((hpoll.trans (sends_initCommunication _ _ _)).1)
      fun h => absurd h (by decide)
  | false =>
    set p := (b.countIteration.pollLength inp.uart).2 with hp
    have haccepts : (p.exchange inp.uart p.uart.rx.length).2.1.isSome = true ↔
        FrameWaits inp.uart b.uart := exchange_accepts_iff inp.uart p
    have hlen : p.uart.tx.length = b.uart.tx.length - inp.uart.atPoll.txd := length_tx_sync _ _
    rw [communicate_of_up (b := b.countIteration) hconn, forall_prop_of_true rfl, ← hpoll.1]
    refine (cut_exchange_iff inp.uart p.uart.rx.length p).trans ?_
    rw [haccepts, hlen]
    refine imp_congr_right fun _ => forall₂_congr fun k hk => ?_
    rw [fifoSize]
    omega

theorem sends_iteration (inp : BoardInput) {b : Board}
    (h : (iteration inp b).1.uart.cut = b.uart.cut) : Sends b.uart (iteration inp b).1.uart := by
  have hpoll := sends_sync inp.uart.atPoll b.uart
  rw [iteration_uart] at h ⊢
  cases hconn : b.connBroken with
  | true =>
    rw [communicate_of_down (b := b.countIteration) hconn]
    exact hpoll.trans (sends_initCommunication _ _ _)
  | false =>
    rw [communicate_of_up (b := b.countIteration) hconn] at h ⊢
    exact hpoll.trans ((sends_exchange_iff inp.uart _ _).mpr (h.trans hpoll.1.symm))

end Board

/-- **Nothing is dropped in a run** exactly when every reply fits: no write of the firmware finds
the transmit FIFO full, and the wire takes all that was written, in order. -/
theorem transmit_iff (indat : Indata) (outdat : Outdata) (accCali : Fin 3 → Int16)
    (inp : ℕ → BoardInput) :
    (∀ n, Whole (boardAt (boot indat outdat accCali) inp n).uart) ↔
      ∀ n, (boardAt (boot indat outdat accCali) inp n).connBroken = false →
        FrameWaits (inp n).uart (boardAt (boot indat outdat accCali) inp n).uart →
        ReplyFits (inp n).uart (boardAt (boot indat outdat accCali) inp n).uart := by
  set b₀ := boot indat outdat accCali with hb₀
  constructor
  · intro h n
    have hcut : (boardAt b₀ inp (n + 1)).uart.cut = (boardAt b₀ inp n).uart.cut :=
      (h (n + 1)).room.trans (h n).room.symm
    exact (cut_iteration_iff (inp n) (boardAt b₀ inp n)).mp hcut
  · intro h n
    induction n with
    | zero => exact ⟨rfl, List.suffix_refl _⟩
    | succ n ih =>
      exact (sends_iteration (inp n) ((cut_iteration_iff (inp n) _).mpr (h n))).whole ih

/-- **Two replies are too many** for a wire that is slow: behind the version string there is room
for one of them. -/
theorem transmit_fails :
    ¬ ∀ inp n, Whole (boardAt (boot default default) inp n).uart := by
  intro h
  have hroom := (h (fun n => { uart := { atPoll := { rxd := [[tagI],
    framesOf [⟨1, 0, 1, 0, 200⟩], framesOf [⟨1, 0, 1, 0, 200⟩]].getD n [] } } }) 3).room
  exact absurd hroom (by decide +kernel)

end LegoCar
