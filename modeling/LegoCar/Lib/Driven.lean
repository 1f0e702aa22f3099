import Mathlib

/-!
# Machines driven by an input at every step

A driven machine is a step function `ι → σ → σ × ο`: an input and a state give the next
state and one output. A run is determined by the initial state and the stream of inputs, so
"for every run" is a quantifier over input streams.

* `stateAt`, `outAt`: the state before step `n` and the output of step `n`.
* `invariant_index`: the induction rule, for invariants that may speak about the step number.
* `stateAt_rel`: the rule for two runs on the same inputs.
* `lastSome`, `quietFor`, `observed`: histories of an observation stream `ℕ → Option α` — the
  last value observed, the number of steps since then, and the list of all values observed.
* `streak`: how long a property of the steps has held without interruption.
-/

namespace Driven

variable {σ ι ο α : Type*}

/-- The state before step `n` of the run from `s₀` on the inputs `inp`. -/
def stateAt (step : ι → σ → σ × ο) (s₀ : σ) (inp : ℕ → ι) : ℕ → σ
  | 0 => s₀
  | n + 1 => (step (inp n) (stateAt step s₀ inp n)).1

/-- The output of step `n`. -/
def outAt (step : ι → σ → σ × ο) (s₀ : σ) (inp : ℕ → ι) (n : ℕ) : ο :=
  (step (inp n) (stateAt step s₀ inp n)).2

section Run

variable {step : ι → σ → σ × ο} {s₀ : σ} {inp : ℕ → ι}

@[simp]
theorem stateAt_zero : stateAt step s₀ inp 0 = s₀ := rfl

/-- **The indexed invariant rule**: the invariant may speak about the number of the step, hence
about the part of the run before it. -/
theorem invariant_index {P : ℕ → σ → Prop} (h₀ : P 0 s₀)
    (hstep : ∀ n, P n (stateAt step s₀ inp n) →
      P (n + 1) (step (inp n) (stateAt step s₀ inp n)).1) (n : ℕ) :
    P n (stateAt step s₀ inp n) := by
  induction n with
  | zero => exact h₀
  | succ n ih => exact hstep n ih

/-- **The rule for two runs** on the same inputs: a relation that every step keeps holds in every
state. -/
theorem stateAt_rel {R : σ → σ → Prop} {s₀' : σ} (h₀ : R s₀ s₀')
    (hstep : ∀ i s s', R s s' → R (step i s).1 (step i s').1) (n : ℕ) :
    R (stateAt step s₀ inp n) (stateAt step s₀' inp n) := by
  induction n with
  | zero => exact h₀
  | succ n ih => exact hstep (inp n) _ _ ih

end Run

/-! ### Histories of an observation stream -/

/-- The last value observed before step `n`. -/
def lastSome (f : ℕ → Option α) : ℕ → Option α
  | 0 => none
  | n + 1 => (f n).or (lastSome f n)

/-- The number of steps before step `n` since the last one that observed a value, or since the
start when none did. -/
def quietFor (f : ℕ → Option α) : ℕ → ℕ
  | 0 => 0
  | n + 1 => if (f n).isSome then 0 else quietFor f n + 1

/-- The list of values observed before step `n`, oldest first. -/
def observed (f : ℕ → Option α) : ℕ → List α
  | 0 => []
  | n + 1 => observed f n ++ (f n).toList

/-- The number of consecutive steps, up to the one before step `n`, at which `p` holds. -/
def streak (p : ℕ → Bool) : ℕ → ℕ
  | 0 => 0
  | n + 1 => if p n then streak p n + 1 else 0

section History

variable {f : ℕ → Option α} {n : ℕ} {a : α}

theorem lastSome_succ_of_some (h : f n = some a) : lastSome f (n + 1) = some a := by
  simp [lastSome, h]

theorem lastSome_succ_of_none (h : f n = none) : lastSome f (n + 1) = lastSome f n := by
  simp [lastSome, h]

theorem quietFor_succ_of_some (h : f n = some a) : quietFor f (n + 1) = 0 := by
  simp [quietFor, h]

theorem quietFor_succ_of_none (h : f n = none) : quietFor f (n + 1) = quietFor f n + 1 := by
  simp [quietFor, h]

theorem streak_succ_of_pos {p : ℕ → Bool} (h : p n = true) : streak p (n + 1) = streak p n + 1 :=
  if_pos h

theorem streak_succ_of_neg {p : ℕ → Bool} (h : p n = false) : streak p (n + 1) = 0 :=
  if_neg (Bool.eq_false_iff.mp h)

theorem mem_observed {k : ℕ} (hk : k < n) (h : f k = some a) : a ∈ observed f n := by
  induction n, hk using Nat.le_induction with
  | base => simp [observed, h]
  | succ n _ ih => exact List.mem_append_left _ ih

end History

end Driven
