import Mathlib
import LegoCar.Wire.HostStream
import LegoCar.Board.Steps

/-!
# When the motor is off

The enable request of the host is a request to start: the controller, once enabled, is disabled by
the stall check only, and neither a lost link nor a record without the request stops it
(`failSafe_fails`). What the firmware does instead:

* while the link is down the set value is zero, so that a running controller brakes;
* a controller that is disabled stays disabled, with the motor off, from an iteration in which the
  motor must stop until a record with the request is accepted.
-/

namespace LegoCar

open Driven Board

/-- The motor must stop in iteration `k`: the iteration starts with the link down, or the last
record accepted, be it in this iteration, came without the enable request. -/
def MustStop (b₀ : Board) (inp : ℕ → BoardInput) (k : ℕ) : Prop :=
  (boardAt b₀ inp k).connBroken = true ∨
    ∃ f, lastSome (acceptedAt b₀ inp) (k + 1) = some f ∧ f.setEnMotorController = 0

/-- Every record accepted in the iterations from `n` to `m` came without the enable request. -/
def NoStartRequest (b₀ : Board) (inp : ℕ → BoardInput) (n m : ℕ) : Prop :=
  ∀ k, n ≤ k → k ≤ m → ∀ f, acceptedAt b₀ inp k = some f → f.setEnMotorController = 0

variable {b₀ : Board} {inp : ℕ → BoardInput} {n m k : ℕ}

/-- A request that the last record does not make is not pending. -/
theorem setEn_of_lastSome {f : Indata} (hlast : lastSome (acceptedAt b₀ inp) n = some f)
    (hf : f.setEnMotorController = 0) : (boardAt b₀ inp n).indat.setEnMotorController = 0 := by
  induction n with
  | zero => exact absurd hlast (by simp [lastSome])
  | succ n ih =>
    have hstep := boardAt_linkStep b₀ inp n
    generalize hacc : acceptedAt b₀ inp n = accepted at hstep
    cases hstep with
    | down hb hW hset hlink => exact hset
    | idle hb hW hindat hlink =>
      -- the request is the one left by an earlier record
      rw [lastSome_succ_of_none hacc] at hlast
      rw [hindat]
      exact ih hlast
    | accept g hb hW hindat htimeout hlink =>
      rw [lastSome_succ_of_some hacc] at hlast
      rw [hindat, Option.some.inj hlast, hf]

/-- After an iteration in which the motor must stop, no request is pending. -/
theorem setEn_of_mustStop (h : MustStop b₀ inp k) :
    (boardAt b₀ inp (k + 1)).indat.setEnMotorController = 0 := by
  rcases h with hdown | ⟨f, hlast, hf⟩
  · exact ((boardAt_linkStep b₀ inp k).of_down hdown).2
  · exact setEn_of_lastSome hlast hf

/-- Without a start request, no request becomes pending. -/
theorem setEn_step (hnone : ∀ f, acceptedAt b₀ inp k = some f → f.setEnMotorController = 0)
    (h : (boardAt b₀ inp k).indat.setEnMotorController = 0) :
    (boardAt b₀ inp (k + 1)).indat.setEnMotorController = 0 := by
  have hstep := boardAt_linkStep b₀ inp k
  generalize hacc : acceptedAt b₀ inp k = accepted at hstep
  cases hstep with
  | down hb hW hset hlink => exact hset
  | idle hb hW hindat hlink => rwa [hindat]
  | accept f hb hW hindat htimeout hlink => rw [hindat, hnone f hacc]

/-- A disabled controller with no pending request stays disabled. -/
theorem disabled_step (hoff : (boardAt b₀ inp k).outdat.enMotorController = 0)
    (hset : (boardAt b₀ inp (k + 1)).indat.setEnMotorController = 0) :
    (boardAt b₀ inp (k + 1)).outdat.enMotorController = 0 := by
  rw [(boardAt_offStep hoff).enMotorController, if_neg fun h => h.1 hset]

/-- The run lemma: disabled and without a pending request, as long as none is accepted. -/
theorem disabled_run (hoff : (boardAt b₀ inp n).outdat.enMotorController = 0)
    (hstop : MustStop b₀ inp n) (hnm : n ≤ m) (hnone : NoStartRequest b₀ inp n m) :
    (boardAt b₀ inp m).outdat.enMotorController = 0 ∧
      (boardAt b₀ inp (m + 1)).indat.setEnMotorController = 0 := by
  induction m, hnm using Nat.le_induction with
  | base => exact ⟨hoff, setEn_of_mustStop hstop⟩
  | succ m hnm ih =>
    obtain ⟨hoff', hset⟩ := ih fun k hnk hkm => hnone k hnk (Nat.le_succ_of_le hkm)
    exact ⟨disabled_step hoff' hset, setEn_step (hnone (m + 1) (by omega) le_rfl) hset⟩

/-- **The fail-safe of the board.** In an iteration that starts with the link down the set value
is zero. A controller that is disabled when the motor must stop keeps the motor off, from that
iteration on, until a record with the enable request is accepted. -/
theorem failSafe (b₀ : Board) (inp : ℕ → BoardInput) :
    (∀ k, (boardAt b₀ inp k).connBroken = true → (showsAt b₀ inp k).W = 0) ∧
      ∀ n m, n ≤ m → (boardAt b₀ inp n).outdat.enMotorController = 0 → MustStop b₀ inp n →
        NoStartRequest b₀ inp n m →
        (boardAt b₀ inp m).outdat.enMotorController = 0 ∧
          (showsAt b₀ inp m).motor.duty1 = 0 ∧ (showsAt b₀ inp m).motor.duty2 = 0 := by
  refine ⟨fun k hdown => ?_, fun n m hnm hoff hstop hnone => ?_⟩
  · exact (iteration_W _ _).trans ((boardAt_linkStep b₀ inp k).of_down hdown).1
  · obtain ⟨hoff', -⟩ := disabled_run hoff hstop hnm hnone
    have hstep := boardAt_offStep hoff'
    exact ⟨hoff', hstep.duty1, hstep.duty2⟩

/-- A record without the request, after start-up: the motor stays off. -/
theorem failSafe_boot :
    let inp := feed [[tagI], framesOf [⟨1, 0, 0, 0, 200⟩]]
    (showsAt (boot default default) inp 0).W = 0 ∧
      (showsAt (boot default default) inp 1).motor.duty1 = 0 := by
  have hnone : NoStartRequest (boot default default)
      (feed [[tagI], framesOf [⟨1, 0, 0, 0, 200⟩]]) 0 1 := by
    intro k _ hk f hf
    have hrecord : ∀ k ≤ 1, ∀ f ∈ acceptedAt (boot default default)
        (feed [[tagI], framesOf [⟨1, 0, 0, 0, 200⟩]]) k, f.setEnMotorController = 0 := by
      decide +kernel
    exact hrecord k hk f hf
  obtain ⟨hset, hoff⟩ := failSafe (boot default default)
    (feed [[tagI], framesOf [⟨1, 0, 0, 0, 200⟩]])
  exact ⟨hset 0 rfl, (hoff 0 1 (by decide) rfl (Or.inl rfl) hnone).2.1⟩

/-- **A running controller does not stop.** After one record with a set value and the enable
request, the motor runs on at full duty when the link is lost; and it runs on after a record
without the request. -/
theorem failSafe_fails :
    (¬ ∀ inp k, (boardAt (boot default default) inp k).connBroken = true →
        (showsAt (boot default default) inp k).motor.duty1 = 0) ∧
      ¬ ∀ inp k f, lastSome (acceptedAt (boot default default) inp) k = some f →
        f.setEnMotorController = 0 → (showsAt (boot default default) inp k).motor.duty1 = 0 := by
  constructor
  · intro h
    have hduty := h (feed [[tagI], framesOf [⟨1, 0, 1, 0, 200⟩]]) 52 (by decide +kernel)
    have hfull : (showsAt (boot default default) (feed [[tagI], framesOf [⟨1, 0, 1, 0, 200⟩]])
        52).motor.duty1 = 99000 := by decide +kernel
    exact absurd (hduty.symm.trans hfull) (by decide)
  · intro h
    have hduty := h (feed [[tagI], framesOf [⟨1, 0, 1, 0, 200⟩], framesOf [⟨1, 0, 0, 0, 200⟩]]) 3
      ⟨1, 0, 0, 0, 200⟩ (by decide +kernel) rfl
    have hruns : (showsAt (boot default default)
        (feed [[tagI], framesOf [⟨1, 0, 1, 0, 200⟩], framesOf [⟨1, 0, 0, 0, 200⟩]])
        3).motor.duty1 = 26000 := by decide +kernel
    exact absurd (hduty.symm.trans hruns) (by decide)

end LegoCar
