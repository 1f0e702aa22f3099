import Mathlib
import LegoCar.Wire.HostStream
import LegoCar.Board.Delivery

/-!
# When the link is declared broken

The timeout counts the connected iterations in a row without an accepted record (`timeout_eq`), and
at 50 the link is declared broken. The count is tested before the record is read: a record that is
accepted in the 50th of these iterations is answered, but the link goes down all the same, and the
next iteration clears the set value. In every other iteration an accepted record keeps the link up
(`acknowledged_iff`).
-/

namespace LegoCar

open Driven Board

section

variable (b₀ : Board) (inp : ℕ → BoardInput) (n : ℕ)

/-- Iteration `n` starts with the link up and accepts no record. -/
def silentAt : Bool := !(boardAt b₀ inp n).connBroken && (acceptedAt b₀ inp n).isNone

/-- The record that iteration `n` accepts and answers leaves the link up and its set value in
place, and the link is declared broken when 50 connected iterations in a row, with this one, have
accepted none. -/
structure AcknowledgedAlive : Prop where
  alive : ∀ f r, acceptedAt b₀ inp n = some f → replyAt b₀ inp n = some r →
    (boardAt b₀ inp (n + 1)).connBroken = false ∧ (boardAt b₀ inp (n + 1)).outdat.W = f.W
  declared : (boardAt b₀ inp n).connBroken = false ∧ (boardAt b₀ inp (n + 1)).connBroken = true ↔
    streak (silentAt b₀ inp) (n + 1) = 50

end

variable {b₀ : Board} {inp : ℕ → BoardInput} {n : ℕ}

theorem silentAt_of_down (h : (boardAt b₀ inp n).connBroken = true) :
    silentAt b₀ inp n = false := by
  rw [silentAt, h]
  rfl

theorem silentAt_of_some {f : Indata} (h : acceptedAt b₀ inp n = some f) :
    silentAt b₀ inp n = false := by
  rw [silentAt, h]
  exact Bool.and_false _

theorem silentAt_of_none (hup : (boardAt b₀ inp n).connBroken = false)
    (h : acceptedAt b₀ inp n = none) : silentAt b₀ inp n = true := by
  rw [silentAt, hup, h]
  rfl

/-- While the link is up, the timeout counts the silent iterations, and there are less than 50. -/
def TimeoutInv (b₀ : Board) (inp : ℕ → BoardInput) (n : ℕ) (b : Board) : Prop :=
  b.connBroken = false → b.uartTimeout = streak (silentAt b₀ inp) n ∧ b.uartTimeout < 50

/-- The step of the timeout. -/
theorem timeoutInv_step (h : TimeoutInv b₀ inp n (boardAt b₀ inp n)) :
    TimeoutInv b₀ inp (n + 1) (boardAt b₀ inp (n + 1)) := by
  intro hup
  have hstep := boardAt_linkStep b₀ inp n
  generalize hacc : acceptedAt b₀ inp n = accepted at hstep
  cases hstep with
  | down hb hW hset hlink =>
    obtain hdown | ⟨-, hto⟩ := hlink
    · exact absurd (hdown.symm.trans hup) (by decide)
    · rw [streak_succ_of_neg (silentAt_of_down hb), hto]
      exact ⟨rfl, by decide⟩
  | idle hb hW hindat hlink =>
    obtain ⟨hlt, -, hto⟩ | ⟨-, hdown⟩ := hlink
    · rw [streak_succ_of_pos (silentAt_of_none hb hacc), hto, (h hb).1]
      exact ⟨rfl, (h hb).1 ▸ hlt⟩
    · exact absurd (hdown.symm.trans hup) (by decide)
  | accept f hb hW hindat hto hlink =>
    rw [streak_succ_of_neg (silentAt_of_some hacc), hto]
    exact ⟨rfl, by decide⟩

theorem timeoutInv (h₀ : b₀.connBroken = true) (n : ℕ) :
    TimeoutInv b₀ inp n (boardAt b₀ inp n) :=
  invariant_index (P := TimeoutInv b₀ inp)
    (fun hup => absurd (h₀.symm.trans hup) (by decide)) (fun _ h => timeoutInv_step h) n

/-- An iteration without a record declares the link broken at the right time. -/
theorem acknowledged_of_none (hinv : TimeoutInv b₀ inp n (boardAt b₀ inp n))
    (hacc : acceptedAt b₀ inp n = none) : AcknowledgedAlive b₀ inp n := by
  refine ⟨fun f r hf => absurd (hacc.symm.trans hf) (by simp), ?_⟩
  have hstep := boardAt_linkStep b₀ inp n
  rw [hacc] at hstep
  cases hstep with
  | down hb hW hset hlink =>
    rw [streak_succ_of_neg (silentAt_of_down hb)]
    exact iff_of_false (fun h => absurd (hb.symm.trans h.1) (by decide)) (by decide)
  | idle hb hW hindat hlink =>
    obtain ⟨hto, hlt⟩ := hinv hb
    rw [streak_succ_of_pos (silentAt_of_none hb hacc), ← hto]
    obtain ⟨hlt', hup, -⟩ | ⟨hle, hdown⟩ := hlink
    · rw [hup]
      exact iff_of_false (fun h => absurd h.2 (by decide)) (by omega)
    · exact iff_of_true ⟨hb, hdown⟩ (by omega)

/-- A record keeps the link up unless 49 silent iterations came before it. -/
theorem acknowledged_iff_of_some {f : Indata} (hinv : TimeoutInv b₀ inp n (boardAt b₀ inp n))
    (hacc : acceptedAt b₀ inp n = some f) :
    AcknowledgedAlive b₀ inp n ↔ streak (silentAt b₀ inp) n ≠ 49 := by
  have hstep := boardAt_linkStep b₀ inp n
  rw [hacc] at hstep
  cases hstep with
  | accept f hb hW hindat hto hlink =>
    obtain ⟨hcount, hlt⟩ := hinv hb
    have hlate : (boardAt b₀ inp (n + 1)).connBroken = true ↔
        streak (silentAt b₀ inp) n = 49 := by
      rw [hlink, decide_eq_true_iff]
      omega
    obtain ⟨r, hr⟩ : ∃ r, replyAt b₀ inp n = some r := by
      have hreply : (replyAt b₀ inp n).isSome = (acceptedAt b₀ inp n).isSome :=
        (iteration_reply (inp n) hb).1
      exact Option.isSome_iff_exists.mp (hreply.trans (by rw [hacc]; rfl))
    rw [ne_eq, ← hlate, Bool.not_eq_true]
    constructor
    · exact fun h => (h.alive f r hacc hr).1
    · intro hup
      refine ⟨fun g _ hg _ => ?_, ?_⟩
      · obtain rfl := Option.some.inj (hacc.symm.trans hg)
        exact ⟨hup, hW⟩
      · rw [streak_succ_of_neg (silentAt_of_some hacc), hup]
        exact iff_of_false (fun h => absurd h.2 (by decide)) (by decide)

/-- **Acknowledged means alive**, unless the record is accepted in the 50th connected iteration
since the last one: the link is up, the 49 iterations before were silent, and a packet waits. -/
theorem acknowledged_iff (indat : Indata) (outdat : Outdata) (accCali : Fin 3 → Int16)
    (inp : ℕ → BoardInput) (n : ℕ) :
    AcknowledgedAlive (boot indat outdat accCali) inp n ↔
      ¬((boardAt (boot indat outdat accCali) inp n).connBroken = false ∧
        streak (silentAt (boot indat outdat accCali) inp) n = 49 ∧
        FrameWaits (inp n).uart (boardAt (boot indat outdat accCali) inp n).uart) := by
  set b₀ := boot indat outdat accCali with hb₀
  have hinv : TimeoutInv b₀ inp n (boardAt b₀ inp n) := timeoutInv rfl n
  have hwaits : (acceptedAt b₀ inp n).isSome = true ↔ (boardAt b₀ inp n).connBroken = false ∧
      FrameWaits (inp n).uart (boardAt b₀ inp n).uart := iteration_accepts_iff _ _
  cases hacc : acceptedAt b₀ inp n with
  | none =>
    rw [hacc] at hwaits
    refine iff_of_true (acknowledged_of_none hinv hacc) fun hcond => ?_
    exact absurd (hwaits.mpr ⟨hcond.1, hcond.2.2⟩) (by decide)
  | some f =>
    rw [hacc] at hwaits
    obtain ⟨hup, hframe⟩ := hwaits.mp rfl
    rw [acknowledged_iff_of_some hinv hacc]
    exact not_congr ⟨fun h => ⟨hup, h, hframe⟩, fun h => h.2.1⟩

/-- **A record in the 50th iteration is thrown away.** It is accepted and answered, and the link
goes down. -/
theorem acknowledged_fails : ¬ ∀ inp n, AcknowledgedAlive (boot default default) inp n := by
  intro h
  have halive := (h (feed ([tagI] :: List.replicate 49 [] ++ [framesOf [⟨1, 0, 1, 0, 200⟩]]))
    50).alive ⟨1, 0, 1, 0, 200⟩
    ((replyAt (boot default default)
      (feed ([tagI] :: List.replicate 49 [] ++ [framesOf [⟨1, 0, 1, 0, 200⟩]])) 50).getD [])
    (by decide +kernel) (by decide +kernel)
  exact absurd halive.1 (by decide +kernel)

end LegoCar
