import Mathlib
import LegoCar.Board.Conversation

/-!
# How a link comes up again

When the watchdog has declared the link broken, the receive FIFO may hold anything: the rest of a
frame, whole frames, or noise. The firmware then takes one byte in each iteration and throws it
away, until it takes an `'I'`. `reconnects` says that this is exact: with an `'I'` behind `k` other
bytes the link is down for `k` iterations, in which nothing is written and the set value is zero,
and it comes up in the next one, which writes the version string. Bytes that arrive in the meantime
do not matter, and neither does a FIFO that overflows: at most 128 iterations go by.
-/

namespace LegoCar

open Uart

namespace Uart

/-! ### The capacity of the receive FIFO -/

theorem length_rx_sync (sl : Slot) (u : Uart) : (u.sync sl).rx.length ≤ fifoSize :=
  List.length_take_le _ _

theorem length_rx_iordData (u : Uart) : u.iordData.2.rx.length ≤ u.rx.length :=
  List.length_tail ▸ Nat.sub_le _ _

theorem length_rx_readFirst (sl : Slot) (u : Uart) : (u.readFirst sl).2.rx.length ≤ fifoSize :=
  (length_rx_iordData _).trans (length_rx_sync sl u)

theorem length_rx_writeData (sl : Slot) (b : UInt8) (u : Uart) :
    (u.altUpRs232WriteData sl b).rx.length ≤ fifoSize := by
  rw [altUpRs232WriteData, rx_iowrData]
  exact length_rx_readFirst sl u

theorem length_rx_readMany {u : Uart} (h : u.rx.length ≤ fifoSize) (k : ℕ) (sl : ℕ → Slot) :
    (u.readMany k sl).2.rx.length ≤ fifoSize := by
  induction k generalizing sl u with
  | zero => exact h
  | succ k ih =>
    rw [readMany_succ]
    exact ih (length_rx_readFirst (sl 0) u) _

theorem length_rx_writeMany {u : Uart} (h : u.rx.length ≤ fifoSize) (bs : List UInt8)
    (sl : ℕ → Slot) : (u.writeMany bs sl).rx.length ≤ fifoSize := by
  induction bs generalizing sl u with
  | nil => exact h
  | cons b bs ih => exact ih (length_rx_writeData (sl 0) b u) _

theorem length_rx_writeString {u : Uart} (h : u.rx.length ≤ fifoSize) (bs : List UInt8)
    (waits sl : ℕ → Slot) : (u.writeString bs waits sl).rx.length ≤ fifoSize := by
  induction bs generalizing waits sl u with
  | nil => exact h
  | cons b bs ih => exact ih (length_rx_writeData (sl 0) b _) _ _

/-! ### The oldest bytes -/

variable {u : Uart} {c : UInt8} {l : List UInt8}

/-- What arrives joins the FIFO behind the bytes that wait. -/
theorem prefix_rx_sync (sl : Slot) (hl : l <+: u.rx) (hsize : l.length ≤ fifoSize) :
    l <+: (u.sync sl).rx :=
  List.prefix_take_iff.mpr ⟨hl.trans (List.prefix_append _ _), hsize⟩

/-- A read takes the oldest byte. -/
theorem readFirst_of_prefix (sl : Slot) (hl : c :: l <+: u.rx) (hsize : l.length < fifoSize) :
    (u.readFirst sl).1 = c ∧ l <+: (u.readFirst sl).2.rx := by
  obtain ⟨t, ht⟩ := prefix_rx_sync sl hl hsize
  have hfirst : u.readFirst sl = (u.sync sl).iordData := rfl
  rw [hfirst, iordData, ← ht]
  exact ⟨rfl, t, rfl⟩

end Uart

namespace Board

attribute [local irreducible] Uart.readMany Uart.writeMany Uart.writeString

variable {b : Board}

/-! ### An iteration -/

/-- The receive FIFO never holds more than its entries. -/
theorem length_rx_iteration (inp : BoardInput) (b : Board) :
    (iteration inp b).1.uart.rx.length ≤ fifoSize := by
  have hpoll : (b.countIteration.pollLength inp.uart).2.uart.rx.length ≤ fifoSize :=
    length_rx_sync _ _
  rw [iteration_uart]
  set p := (b.countIteration.pollLength inp.uart).2 with hp
  cases hconn : b.connBroken with
  | true =>
    rw [communicate_of_down (b := b.countIteration) hconn, ← hp]
    have hcases := initCommunication_cases inp.uart p.uart.rx.length p
    generalize p.initCommunication inp.uart p.uart.rx.length = b' at hcases ⊢
    cases hcases with
    | quiet => rwa [uart_blink]
    | other =>
      rw [uart_blink]
      exact length_rx_readFirst _ _
    | started =>
      rw [uart_blink]
      exact length_rx_writeString (length_rx_readFirst _ _) _ _ _
  | false =>
    rw [communicate_of_up (b := b.countIteration) hconn, ← hp]
    have hcases := exchange_cases inp.uart p.uart.rx.length p
    generalize p.exchange inp.uart p.uart.rx.length = r at hcases ⊢
    cases hcases with
    | waiting => rwa [uart_countTimeout]
    | dropped => exact length_rx_readFirst _ _
    | answered =>
      rw [uart_receive_send, uart_countTimeout]
      exact length_rx_writeMany (length_rx_readMany hpoll _ _) _ _

/-- With the link down the oldest byte is taken, whatever arrives: an `'I'` brings the link up, and
any other byte is thrown away. -/
theorem iteration_of_waiting (inp : BoardInput) (hb : b.connBroken = true) {c : UInt8}
    {l : List UInt8} (hl : c :: l <+: b.uart.rx) (hsize : l.length < fifoSize) :
    (c = tagI → (iteration inp b).1.connBroken = false ∧ (iteration inp b).1.uartTimeout = 0 ∧
      (iteration inp b).1.uart.said = b.uart.said ++ versionName) ∧
    (c ≠ tagI → (iteration inp b).1.connBroken = true ∧
      (iteration inp b).1.uart.said = b.uart.said ∧ l <+: (iteration inp b).1.uart.rx) := by
  have huart := iteration_uart inp b
  have hlink := iteration_sameLink inp b
  rw [communicate_of_down (b := b.countIteration) hb] at huart hlink
  set p := (b.countIteration.pollLength inp.uart).2
  have hpoll : c :: l <+: p.uart.rx := prefix_rx_sync _ hl hsize
  obtain ⟨hfirst, hrest⟩ := readFirst_of_prefix (inp.uart.atRead 0) hpoll hsize
  have hread : (p.clearCommand.readStart inp.uart).c = c := hfirst
  have hcases := initCommunication_cases inp.uart p.uart.rx.length p
  generalize p.initCommunication inp.uart p.uart.rx.length = b' at hcases huart hlink
  rw [hlink.connBroken, hlink.uartTimeout, huart]
  cases hcases with
  | quiet hi => exact absurd hpoll.length_le (by rw [hi]; exact Nat.not_succ_le_zero _)
  | other hi htag =>
    rw [hread] at htag
    refine ⟨fun h => absurd h htag, fun _ => ⟨(blink_sameLink _).connBroken.trans hb, ?_, ?_⟩⟩
    · rw [uart_blink]
      rfl
    · rw [uart_blink]
      exact hrest
  | started hi htag =>
    rw [hread] at htag
    refine ⟨fun _ => ⟨(blink_sameLink _).connBroken, (blink_sameLink _).uartTimeout, ?_⟩,
      fun h => absurd htag h⟩
    rw [uart_blink]
    exact said_writeString _ _ _ _

end Board

open Board

/-! ### A run -/

section Run

variable {b₀ : Board} {inp : ℕ → BoardInput} {n : ℕ} {before : List UInt8}

theorem length_rx_boardAt (h₀ : b₀.uart.rx.length ≤ fifoSize) (inp : ℕ → BoardInput) (n : ℕ) :
    (boardAt b₀ inp n).uart.rx.length ≤ fifoSize :=
  Driven.invariant_index (P := fun _ (b : Board) => b.uart.rx.length ≤ fifoSize) h₀
    (fun k _ => length_rx_iteration (inp k) _) n

/-- With the link down nothing is accepted, and the set value is zero. -/
theorem shows_of_down (h : (boardAt b₀ inp n).connBroken = true) :
    acceptedAt b₀ inp n = none ∧ (showsAt b₀ inp n).W = 0 := by
  have hstep := boardAt_linkStep b₀ inp n
  refine ⟨?_, (iteration_W (inp n) _).trans (hstep.of_down h).1⟩
  generalize acceptedAt b₀ inp n = accepted at hstep ⊢
  cases hstep with
  | down => rfl
  | idle => rfl
  | accept f hup => exact absurd (h.symm.trans hup) Bool.noConfusion

/-- The bytes in front of the `'I'` are thrown away one by one. -/
theorem link_of_waiting (hdown : (boardAt b₀ inp n).connBroken = true) (hbefore : tagI ∉ before)
    (hwait : before ++ [tagI] <+: (boardAt b₀ inp n).uart.rx) (hsize : before.length < fifoSize) :
    (∀ j ≤ before.length, (boardAt b₀ inp (n + j)).connBroken = true ∧
      (boardAt b₀ inp (n + j)).uart.said = (boardAt b₀ inp n).uart.said) ∧
    (boardAt b₀ inp (n + before.length + 1)).connBroken = false ∧
    (boardAt b₀ inp (n + before.length + 1)).uartTimeout = 0 ∧
    (boardAt b₀ inp (n + before.length + 1)).uart.said =
      (boardAt b₀ inp n).uart.said ++ versionName := by
  induction before generalizing n with
  | nil =>
    refine ⟨fun j hj => ?_, (iteration_of_waiting (inp n) hdown hwait hsize).1 rfl⟩
    rw [Nat.le_zero.mp hj]
    exact ⟨hdown, rfl⟩
  | cons c before ih =>
    have hc : c ≠ tagI := fun h => hbefore (h ▸ List.mem_cons_self)
    have hnext : (before ++ [tagI]).length < fifoSize := by
      rw [List.length_append]
      exact hsize
    obtain ⟨hdown', hsaid, hwait'⟩ := (iteration_of_waiting (inp n) hdown hwait hnext).2 hc
    obtain ⟨hwhile, hup⟩ := ih (n := n + 1) hdown' (fun h => hbefore (List.mem_cons_of_mem c h))
      hwait' (Nat.lt_of_succ_lt hsize)
    have hsaid' : (boardAt b₀ inp (n + 1)).uart.said = (boardAt b₀ inp n).uart.said := hsaid
    have hlast : n + (c :: before).length + 1 = n + 1 + before.length + 1 := by
      rw [List.length_cons]
      omega
    rw [hsaid'] at hwhile hup
    rw [hlast]
    refine ⟨fun j hj => ?_, hup⟩
    cases j with
    | zero => exact ⟨hdown, rfl⟩
    | succ j =>
      rw [Nat.add_comm j 1, ← Nat.add_assoc]
      exact hwhile j (Nat.le_of_succ_le_succ hj)

end Run

/-- **A link comes up again.** In every run, let the link be down and an `'I'` wait in the receive
FIFO behind some other bytes. Whatever arrives, the link stays down for as many iterations as there
are other bytes, in which nothing is written or accepted and the set value is zero, and in the next
iteration it comes up and the version string is written. -/
theorem reconnects (indat : Indata) (outdat : Outdata) (accCali : Fin 3 → Int16)
    (inp : ℕ → BoardInput) (n : ℕ)
    (hdown : (boardAt (boot indat outdat accCali) inp n).connBroken = true)
    {before : List UInt8} (hbefore : tagI ∉ before)
    (hwait : before ++ [tagI] <+: (boardAt (boot indat outdat accCali) inp n).uart.rx) :
    let boardAt := boardAt (boot indat outdat accCali) inp
    let showsAt := showsAt (boot indat outdat accCali) inp
    (∀ j ≤ before.length, (boardAt (n + j)).connBroken = true ∧
      (boardAt (n + j)).uart.said = (boardAt n).uart.said ∧
      (showsAt (n + j)).accepted = none ∧ (showsAt (n + j)).W = 0) ∧
    (boardAt (n + before.length + 1)).connBroken = false ∧
    (boardAt (n + before.length + 1)).uartTimeout = 0 ∧
    (boardAt (n + before.length + 1)).uart.said = (boardAt n).uart.said ++ versionName := by
  have hfifo : (boardAt (boot indat outdat accCali) inp n).uart.rx.length ≤ fifoSize :=
    length_rx_boardAt (Nat.zero_le _) inp n
  have hsize : before.length < fifoSize := by
    have hlen := hwait.length_le
    rw [List.length_append, List.length_singleton] at hlen
    omega
  obtain ⟨hwhile, hup⟩ := link_of_waiting hdown hbefore hwait hsize
  refine ⟨fun j hj => ?_, hup⟩
  obtain ⟨hstill, hsaid⟩ := hwhile j hj
  exact ⟨hstill, hsaid, shows_of_down hstill⟩

/-- Three bytes arrive at once, the last of which is an `'I'`. -/
theorem reconnects_noise :
    let boardAt := boardAt (boot default default) (feed [[0x11, 0x22, tagI]])
    let showsAt := showsAt (boot default default) (feed [[0x11, 0x22, tagI]])
    (∀ j ≤ 1, (boardAt (1 + j)).connBroken = true ∧
      (boardAt (1 + j)).uart.said = (boardAt 1).uart.said ∧
      (showsAt (1 + j)).accepted = none ∧ (showsAt (1 + j)).W = 0) ∧
    (boardAt 3).connBroken = false ∧ (boardAt 3).uartTimeout = 0 ∧
    (boardAt 3).uart.said = (boardAt 1).uart.said ++ versionName :=
  reconnects default default (fun _ => 0) (feed [[0x11, 0x22, tagI]]) 1 (by decide +kernel)
    (by decide) (show [0x22] ++ [tagI] <+: _ by decide +kernel)

end LegoCar
