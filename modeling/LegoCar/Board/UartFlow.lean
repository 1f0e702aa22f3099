import Mathlib
import LegoCar.Lib.Queue
import LegoCar.Board.Uart

/-!
# What the driver does to the receive FIFO

As long as no delivery finds the receive FIFO full, every driver function obeys the conservation
law of a queue: `Flow u taken u'` says that between the states `u` and `u'` of the core the bytes
`taken` were taken out of the receive FIFO, in the order in which they arrived.

Reads take the bytes they return. A write takes the byte it finds, if any
(`flow_altUpRs232WriteData`): a run of writes takes nothing exactly when it finds the FIFO empty
every time (`discarded_eq_nil_iff`).
-/

namespace LegoCar

namespace Uart

/-- Between `u` and `u'` the bytes `taken` left the receive FIFO. -/
def Flow (u : Uart) (taken : List UInt8) (u' : Uart) : Prop :=
  ∃ arrived, u'.heard = u.heard ++ arrived ∧ Queue.Flow u.rx arrived taken u'.rx

variable {u u' u'' : Uart} {taken taken' : List UInt8}

theorem Flow.refl (u : Uart) : Flow u [] u := ⟨[], by simp, Queue.Flow.refl _⟩

theorem Flow.trans (h₁ : Flow u taken u') (h₂ : Flow u' taken' u'') :
    Flow u (taken ++ taken') u'' := by
  obtain ⟨a₁, hheard₁, hflow₁⟩ := h₁
  obtain ⟨a₂, hheard₂, hflow₂⟩ := h₂
  refine ⟨a₁ ++ a₂, ?_, hflow₁.trans hflow₂⟩
  rw [hheard₂, hheard₁, List.append_assoc]

/-- What was taken out of a FIFO that was empty, followed by what it holds, is what arrived. -/
theorem Flow.arrived_eq {arrived : List UInt8} (h : Flow u taken u') (hrx : u.rx = [])
    (hheard : u'.heard = u.heard ++ arrived) : arrived = taken ++ u'.rx := by
  obtain ⟨a, ha, hflow⟩ := h
  obtain rfl : arrived = a := List.append_cancel_left (hheard.symm.trans ha)
  rw [hrx] at hflow
  exact hflow.arrived_eq

/-! ### Losses only grow -/

theorem lost_le_sync (sl : Slot) (u : Uart) : u.lost ≤ (u.sync sl).lost := Nat.le_add_right _ _

theorem lost_iowrData (b : UInt8) (u : Uart) : (u.iowrData b).lost = u.lost := by
  unfold iowrData
  split <;> rfl

theorem rx_iowrData (b : UInt8) (u : Uart) : (u.iowrData b).rx = u.rx := by
  unfold iowrData
  split <;> rfl

theorem heard_iowrData (b : UInt8) (u : Uart) : (u.iowrData b).heard = u.heard := by
  unfold iowrData
  split <;> rfl

theorem lost_awaitSpace (sl : Slot) (u : Uart) :
    (u.awaitSpaceInWriteFIFO sl).lost = (u.sync sl).lost := rfl

theorem lost_altUpRs232WriteData (sl : Slot) (b : UInt8) (u : Uart) :
    (u.altUpRs232WriteData sl b).lost = (u.sync sl).lost := lost_iowrData _ _

theorem lost_le_readMany (k : ℕ) (sl : ℕ → Slot) (u : Uart) :
    u.lost ≤ (u.readMany k sl).2.lost := by
  induction k generalizing sl u with
  | zero => exact le_rfl
  | succ k ih =>
    exact (lost_le_sync (sl 0) u).trans (ih (fun j => sl (j + 1)) (u.readFirst (sl 0)).2)

theorem lost_le_writeMany (bs : List UInt8) (sl : ℕ → Slot) (u : Uart) :
    u.lost ≤ (u.writeMany bs sl).lost := by
  induction bs generalizing sl u with
  | nil => exact le_rfl
  | cons b bs ih =>
    refine le_trans ?_ (ih _ _)
    rw [lost_altUpRs232WriteData]
    exact lost_le_sync (sl 0) u

theorem lost_le_writeString (bs : List UInt8) (waits sl : ℕ → Slot) (u : Uart) :
    u.lost ≤ (u.writeString bs waits sl).lost := by
  induction bs generalizing waits sl u with
  | nil => exact le_rfl
  | cons b bs ih =>
    refine le_trans ?_ (ih _ _ _)
    rw [lost_altUpRs232WriteData]
    refine le_trans ?_ (lost_le_sync (sl 0) _)
    rw [lost_awaitSpace]
    exact lost_le_sync (waits 0) u

/-! ### The flow of each driver function -/

theorem rx_sync_of_lost {sl : Slot} (h : (u.sync sl).lost = u.lost) :
    (u.sync sl).rx = u.rx ++ sl.rxd := by
  have hle : (u.rx ++ sl.rxd).length ≤ fifoSize := by
    have h' : u.lost + ((u.rx ++ sl.rxd).length - fifoSize) = u.lost := h
    omega
  exact List.take_of_length_le hle

theorem flow_sync {sl : Slot} (h : (u.sync sl).lost = u.lost) : Flow u [] (u.sync sl) := by
  refine ⟨sl.rxd, rfl, ?_⟩
  rw [rx_sync_of_lost h]
  exact Queue.Flow.push _ _

theorem flow_awaitSpace {sl : Slot} (h : (u.awaitSpaceInWriteFIFO sl).lost = u.lost) :
    Flow u [] (u.awaitSpaceInWriteFIFO sl) := by
  rw [lost_awaitSpace] at h
  obtain ⟨arrived, hheard, hflow⟩ := flow_sync h
  exact ⟨arrived, hheard, hflow⟩

/-- A read takes the byte it returns. -/
theorem flow_readFirst {sl : Slot} (hpos : 0 < u.rx.length)
    (h : (u.readFirst sl).2.lost = u.lost) : Flow u [(u.readFirst sl).1] (u.readFirst sl).2 := by
  have hsync : Flow u [] (u.sync sl) := flow_sync h
  have hrx : (u.sync sl).rx = u.rx ++ sl.rxd := rx_sync_of_lost h
  refine hsync.trans ⟨[], by simp [readFirst, altUpRs232ReadData, iordData], ?_⟩
  cases hcons : u.rx with
  | nil => simp [hcons] at hpos
  | cons a q => simp [readFirst, altUpRs232ReadData, iordData, hrx, hcons, Queue.Flow]

/-- The FIFO loses at most one byte to a read. -/
theorem length_readFirst {sl : Slot} (h : (u.readFirst sl).2.lost = u.lost) :
    u.rx.length ≤ (u.readFirst sl).2.rx.length + 1 := by
  have hrx : (u.sync sl).rx = u.rx ++ sl.rxd := rx_sync_of_lost h
  simp only [readFirst, altUpRs232ReadData, iordData, hrx, List.length_tail, List.length_append]
  omega

theorem readMany_succ (k : ℕ) (sl : ℕ → Slot) (u : Uart) :
    u.readMany (k + 1) sl =
      ((u.readFirst (sl 0)).1 :: ((u.readFirst (sl 0)).2.readMany k fun j => sl (j + 1)).1,
        ((u.readFirst (sl 0)).2.readMany k fun j => sl (j + 1)).2) := rfl

/-- A run of reads takes the bytes it returns. -/
theorem flow_readMany {k : ℕ} {sl : ℕ → Slot} (hk : k ≤ u.rx.length)
    (h : (u.readMany k sl).2.lost = u.lost) :
    Flow u (u.readMany k sl).1 (u.readMany k sl).2 ∧ (u.readMany k sl).1.length = k := by
  induction k generalizing sl u with
  | zero => exact ⟨Flow.refl u, rfl⟩
  | succ k ih =>
    have hmono : u.lost ≤ (u.readFirst (sl 0)).2.lost := lost_le_sync _ _
    have hmono' := lost_le_readMany k (fun j => sl (j + 1)) (u.readFirst (sl 0)).2
    have hfirst : (u.readFirst (sl 0)).2.lost = u.lost :=
      le_antisymm (hmono'.trans_eq h) hmono
    have hlen := length_readFirst hfirst
    obtain ⟨hflow, hlength⟩ := ih (u := (u.readFirst (sl 0)).2) (by omega) (h.trans hfirst.symm)
    exact ⟨(flow_readFirst (by omega) hfirst).trans hflow, by simp [readMany, hlength]⟩

/-- The bytes that arrive before the first `k` accesses of a kind. -/
def arrivals (sl : ℕ → Slot) (k : ℕ) : List UInt8 := (List.range k).flatMap fun j => (sl j).rxd

theorem arrivals_succ (sl : ℕ → Slot) (k : ℕ) :
    arrivals sl (k + 1) = (sl 0).rxd ++ arrivals (fun j => sl (j + 1)) k := by
  simp [arrivals, List.range_succ_eq_map, List.flatMap_map]

theorem arrivals_eq_nil_iff {sl : ℕ → Slot} {k : ℕ} :
    arrivals sl k = [] ↔ ∀ j < k, (sl j).rxd = [] := by
  simp [arrivals]

theorem heard_readMany (k : ℕ) (sl : ℕ → Slot) (u : Uart) :
    (u.readMany k sl).2.heard = u.heard ++ arrivals sl k := by
  induction k generalizing sl u with
  | zero => simp [readMany, arrivals]
  | succ k ih =>
    rw [arrivals_succ, ← List.append_assoc]
    exact ih (fun j => sl (j + 1)) (u.readFirst (sl 0)).2

/-- A write takes the received byte it finds, if any. -/
theorem flow_altUpRs232WriteData {sl : Slot} {b : UInt8}
    (h : (u.altUpRs232WriteData sl b).lost = u.lost) :
    Flow u (u.sync sl).rx.head?.toList (u.altUpRs232WriteData sl b) := by
  rw [lost_altUpRs232WriteData] at h
  refine (flow_sync h).trans ⟨[], ?_, ?_⟩
  · simp [altUpRs232WriteData, heard_iowrData, iordData]
  · rw [altUpRs232WriteData, rx_iowrData]
    exact Queue.Flow.tail (u.sync sl).rx

/-- The received bytes a run of writes takes out of the receive FIFO. -/
def discarded : List UInt8 → (ℕ → Slot) → Uart → List UInt8
  | [], _, _ => []
  | b :: bs, sl, u =>
    (u.sync (sl 0)).rx.head?.toList ++
      discarded bs (fun j => sl (j + 1)) (u.altUpRs232WriteData (sl 0) b)

theorem flow_writeMany {bs : List UInt8} {sl : ℕ → Slot}
    (h : (u.writeMany bs sl).lost = u.lost) :
    Flow u (u.discarded bs sl) (u.writeMany bs sl) := by
  induction bs generalizing sl u with
  | nil => exact Flow.refl u
  | cons b bs ih =>
    have hmono : u.lost ≤ (u.altUpRs232WriteData (sl 0) b).lost := by
      rw [lost_altUpRs232WriteData]
      exact lost_le_sync (sl 0) u
    have hmono' := lost_le_writeMany bs (fun j => sl (j + 1)) (u.altUpRs232WriteData (sl 0) b)
    have hfirst : (u.altUpRs232WriteData (sl 0) b).lost = u.lost :=
      le_antisymm (hmono'.trans_eq h) hmono
    exact (flow_altUpRs232WriteData hfirst).trans (ih (h.trans hfirst.symm))

theorem flow_writeString {bs : List UInt8} {waits sl : ℕ → Slot}
    (h : (u.writeString bs waits sl).lost = u.lost) :
    ∃ taken, Flow u taken (u.writeString bs waits sl) := by
  induction bs generalizing waits sl u with
  | nil => exact ⟨[], Flow.refl u⟩
  | cons b bs ih =>
    set v := u.awaitSpaceInWriteFIFO (waits 0) with hv
    set w := v.altUpRs232WriteData (sl 0) b with hw
    -- losses only add up, so there are none in any of the parts
    have hle₁ : u.lost ≤ v.lost := lost_le_sync (waits 0) u
    have hle₂ : v.lost ≤ w.lost := by
      rw [hw, lost_altUpRs232WriteData]
      exact lost_le_sync (sl 0) v
    have hle₃ : w.lost ≤ u.lost := h ▸ lost_le_writeString bs _ _ w
    have hv' : v.lost = u.lost := by omega
    have hw' : w.lost = v.lost := by omega
    obtain ⟨taken, hflow⟩ := ih (u := w) (h.trans (hw'.trans hv').symm)
    exact ⟨_, (flow_awaitSpace hv').trans ((flow_altUpRs232WriteData hw').trans hflow)⟩

/-- A run of reads empties the FIFO exactly when it takes all that waits and all that arrives. -/
theorem rx_readMany_eq_nil_iff {k : ℕ} {sl : ℕ → Slot} (hk : k ≤ u.rx.length)
    (h : (u.readMany k sl).2.lost = u.lost) :
    (u.readMany k sl).2.rx = [] ↔ u.rx.length = k ∧ ∀ j < k, (sl j).rxd = [] := by
  obtain ⟨⟨arrived, hheard, hflow⟩, hlength⟩ := flow_readMany hk h
  have harrived : arrived = arrivals sl k := by
    have happend := hheard.symm.trans (heard_readMany k sl u)
    exact List.append_cancel_left happend
  have hcount := hflow.length
  rw [hlength, harrived] at hcount
  rw [← arrivals_eq_nil_iff, ← List.length_eq_zero_iff, ← List.length_eq_zero_iff]
  omega

/-- Writes that find the receive FIFO empty leave it empty, and take nothing. -/
theorem discarded_eq_nil_iff {bs : List UInt8} {sl : ℕ → Slot} (hrx : u.rx = []) :
    u.discarded bs sl = [] ↔ ∀ k < bs.length, (sl k).rxd = [] := by
  induction bs generalizing sl u with
  | nil => simp [discarded]
  | cons b bs ih =>
    have hsync : (u.sync (sl 0)).rx = (sl 0).rxd.take fifoSize := by simp [sync, hrx]
    have hhead : (u.sync (sl 0)).rx.head?.toList = [] ↔ (sl 0).rxd = [] := by
      rw [hsync]
      cases (sl 0).rxd <;> simp [fifoSize]
    have hforall : (∀ k < (b :: bs).length, (sl k).rxd = []) ↔
        (sl 0).rxd = [] ∧ ∀ k < bs.length, (sl (k + 1)).rxd = [] := by
      constructor
      · exact fun h => ⟨h 0 (by simp), fun k hk => h (k + 1) (by simpa using hk)⟩
      · rintro ⟨h0, h⟩ k hk
        cases k with
        | zero => exact h0
        | succ k => exact h k (by simpa using hk)
    rw [discarded, List.append_eq_nil_iff, hhead, hforall]
    refine and_congr_right fun h0 => ?_
    refine ih (u := u.altUpRs232WriteData (sl 0) b) ?_
    simp [altUpRs232WriteData, rx_iowrData, iordData, hsync, h0]

/-- The first write takes a byte that is waiting. -/
theorem discarded_cons_ne_nil {b : UInt8} {bs : List UInt8} {sl : ℕ → Slot} (hrx : u.rx ≠ []) :
    u.discarded (b :: bs) sl ≠ [] := by
  have hhead : (u.sync (sl 0)).rx.head?.toList ≠ [] := by
    cases hcons : u.rx with
    | nil => exact absurd hcons hrx
    | cons a q => simp [sync, hcons, fifoSize]
  rw [discarded]
  exact fun h => hhead (List.append_eq_nil_iff.mp h).1

/-! ### A quiet wire -/

theorem sync_of_quiet {sl : Slot} (hquiet : sl.rxd = []) (hle : u.rx.length ≤ fifoSize) :
    (u.sync sl).rx = u.rx ∧ (u.sync sl).lost = u.lost := by
  simp only [sync, hquiet, List.append_nil]
  exact ⟨List.take_of_length_le hle, by omega⟩

theorem lost_readMany_of_quiet {k : ℕ} {sl : ℕ → Slot} (hquiet : ∀ j < k, (sl j).rxd = [])
    (hle : u.rx.length ≤ fifoSize) : (u.readMany k sl).2.lost = u.lost := by
  induction k generalizing sl u with
  | zero => rfl
  | succ k ih =>
    obtain ⟨hrx, hlost⟩ := sync_of_quiet (hquiet 0 (Nat.succ_pos k)) hle
    have hle' : (u.readFirst (sl 0)).2.rx.length ≤ fifoSize := by
      simp only [readFirst, altUpRs232ReadData, iordData, hrx, List.length_tail]
      omega
    rw [readMany_succ]
    exact (ih (fun j hj => hquiet (j + 1) (Nat.succ_lt_succ hj)) hle').trans hlost

/-- Without arrivals, a run of reads returns what waits. -/
theorem readMany_of_quiet {sl : ℕ → Slot} (hquiet : ∀ j < u.rx.length, (sl j).rxd = [])
    (hle : u.rx.length ≤ fifoSize) :
    (u.readMany u.rx.length sl).1 = u.rx ∧ (u.readMany u.rx.length sl).2.rx = [] := by
  have hlost := lost_readMany_of_quiet hquiet hle
  have hempty := (rx_readMany_eq_nil_iff le_rfl hlost).mpr ⟨rfl, hquiet⟩
  obtain ⟨⟨arrived, hheard, hflow⟩, -⟩ := flow_readMany le_rfl hlost
  have harrived : arrived = [] := by
    rw [heard_readMany, arrivals_eq_nil_iff.mpr hquiet] at hheard
    exact (List.append_cancel_left hheard).symm
  rw [Queue.Flow, harrived, hempty, List.append_nil, List.append_nil] at hflow
  exact ⟨hflow.symm, hempty⟩

theorem rx_writeMany_of_quiet {bs : List UInt8} {sl : ℕ → Slot}
    (hquiet : ∀ j < bs.length, (sl j).rxd = []) (hrx : u.rx = []) :
    (u.writeMany bs sl).rx = [] := by
  induction bs generalizing sl u with
  | nil => exact hrx
  | cons b bs ih =>
    refine ih (fun j hj => hquiet (j + 1) (Nat.succ_lt_succ hj)) ?_
    have hsync := (sync_of_quiet (u := u) (hquiet 0 (Nat.succ_pos _)) (by simp [hrx])).1
    rw [altUpRs232WriteData, rx_iowrData]
    simp [iordData, hsync, hrx]

end Uart

end LegoCar
