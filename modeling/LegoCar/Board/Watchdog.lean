import Mathlib
import LegoCar.Wire.HostStream
import LegoCar.Board.Steps

/-!
# The link watchdog of a board

The set value survives at most 50 iterations without a record from the host. The timeout counter
is not the number of such iterations — it is restarted by a re-handshake and cleared when the
link goes down — so the invariant ties both to the history of the run: as long as the set value
is not zero, a record was accepted, and either the link is up and the timeout counts the
iterations since then, or the link is down and at most 50 have passed.
-/

namespace LegoCar

open Driven Board

variable (b₀ : Board) (inp : ℕ → BoardInput)

/-- The set value is zero, or the time since the last record is under control of the timeout. -/
def WatchdogInv (n : ℕ) (b : Board) : Prop :=
  b.outdat.W = 0 ∨
    lastSome (acceptedAt b₀ inp) n ≠ none ∧
      ((b.connBroken = false ∧ b.uartTimeout = quietFor (acceptedAt b₀ inp) n ∧
          b.uartTimeout < 50) ∨
        (b.connBroken = true ∧ quietFor (acceptedAt b₀ inp) n ≤ 50))

variable {b₀ inp}

/-- The step of the watchdog: what an iteration does to the link preserves the invariant. -/
theorem watchdogInv_step {n : ℕ} (h : WatchdogInv b₀ inp n (boardAt b₀ inp n)) :
    WatchdogInv b₀ inp (n + 1) (boardAt b₀ inp (n + 1)) := by
  have hstep := boardAt_linkStep b₀ inp n
  generalize hacc : acceptedAt b₀ inp n = accepted at hstep
  cases hstep with
  | down hb hW hset hlink => exact Or.inl hW
  | idle hb hW hindat hlink =>
    rcases h with h | ⟨hsome, ⟨hup, hto, hlt⟩ | ⟨hdown, -⟩⟩
    · exact Or.inl (hW.trans h)
    · refine Or.inr ⟨by rwa [lastSome_succ_of_none hacc], ?_⟩
      -- the timeout and the quiet iterations advance together
      rw [quietFor_succ_of_none hacc, ← hto]
      rcases hlink with ⟨hlt', hup', hto'⟩ | ⟨-, hdown'⟩
      · exact Or.inl ⟨hup', hto', hto'.trans_lt hlt'⟩
      · exact Or.inr ⟨hdown', by omega⟩
    · exact absurd (hdown.symm.trans hb) (by decide)
  | accept f hb hW hindat hto hlink =>
    refine Or.inr ⟨by simp [lastSome_succ_of_some hacc], ?_⟩
    rw [quietFor_succ_of_some hacc]
    cases hconn : (boardAt b₀ inp (n + 1)).connBroken with
    | false => exact Or.inl ⟨rfl, hto, by omega⟩
    | true => exact Or.inr ⟨rfl, by omega⟩

theorem watchdogInv (h₀ : b₀.outdat.W = 0) (n : ℕ) : WatchdogInv b₀ inp n (boardAt b₀ inp n) :=
  invariant_index (P := WatchdogInv b₀ inp) (Or.inl h₀) (fun _ h => watchdogInv_step h) n

/-- **The link watchdog.** In an iteration that is at least the 51st consecutive one without an
accepted record, or before any was accepted, the set value is zero — and so it stays, across any
losses and restarts of the link, until the next record is accepted. -/
theorem watchdog_setValue (indat : Indata) (outdat : Outdata) (accCali : Fin 3 → Int16)
    (inp : ℕ → BoardInput) (n : ℕ)
    (h : 51 ≤ quietFor (acceptedAt (boot indat outdat accCali) inp) (n + 1) ∨
      lastSome (acceptedAt (boot indat outdat accCali) inp) (n + 1) = none) :
    (showsAt (boot indat outdat accCali) inp n).W = 0 := by
  have hW : (showsAt (boot indat outdat accCali) inp n).W =
      (boardAt (boot indat outdat accCali) inp (n + 1)).outdat.W := iteration_W _ _
  have hinv : WatchdogInv (boot indat outdat accCali) inp (n + 1)
      (boardAt (boot indat outdat accCali) inp (n + 1)) := watchdogInv rfl (n + 1)
  rcases hinv with hzero | ⟨hsome, hcases⟩
  · exact hW.trans hzero
  · rcases h with hquiet | hnone
    · -- the invariant leaves room for 50 quiet iterations only
      rcases hcases with ⟨-, hto, hlt⟩ | ⟨-, hle⟩ <;> omega
    · exact absurd hnone hsome

/-- One record and then silence: after 51 iterations the set value of the record is gone. -/
theorem watchdog_setValue_silence :
    (showsAt (boot default default fun _ => 0) (feed [[tagI], framesOf [⟨1, 0, 1, 0, 200⟩]]) 52).W =
      0 :=
  watchdog_setValue default default (fun _ => 0) (feed [[tagI], framesOf [⟨1, 0, 1, 0, 200⟩]]) 52
    (Or.inl (by decide +kernel))

end LegoCar
