import Mathlib

/-!
# While loops on a stream of inputs

`while (guard s) s = body (inp n) s;`, where `inp n` is what the loop reads in its iteration `n`.
`after n` is the state after `n` iterations, or the state in which the loop was left when it made
fewer, and `run fuel` is the loop with a bound on its iterations. The bound is a resource only: the
loop returns when some bound suffices (`returns_iff`). `run_induction` is the rule for what a loop
returns.
-/

namespace WhileLoop

variable {σ ι : Type*}

section

variable (guard : σ → Bool) (body : ι → σ → σ) (s₀ : σ) (inp : ℕ → ι)

/-- The state after `n` iterations, or in which the loop was left. -/
def after : ℕ → σ
  | 0 => s₀
  | n + 1 => if guard (after n) then body (inp n) (after n) else after n

/-- The loop, if it is left within `fuel` iterations. -/
def run (fuel : ℕ) : Option σ :=
  if guard (after guard body s₀ inp fuel) then none else some (after guard body s₀ inp fuel)

end

variable {guard : σ → Bool} {body : ι → σ → σ} {s₀ t : σ} {inp : ℕ → ι} {m n : ℕ}

theorem after_succ_of_true (h : guard (after guard body s₀ inp n) = true) :
    after guard body s₀ inp (n + 1) = body (inp n) (after guard body s₀ inp n) := if_pos h

/-- A loop that was left stays left. -/
theorem after_of_false (h : guard (after guard body s₀ inp n) = false) (hle : n ≤ m) :
    after guard body s₀ inp m = after guard body s₀ inp n := by
  induction m, hle using Nat.le_induction with
  | base => rfl
  | succ m _ ih => rw [after, ih, h, if_neg Bool.false_ne_true]

theorem run_eq_some_iff : run guard body s₀ inp n = some t ↔
    guard (after guard body s₀ inp n) = false ∧ after guard body s₀ inp n = t := by
  rw [run]
  cases guard (after guard body s₀ inp n) <;> simp

/-- The loop returns when its guard is false after some number of iterations. -/
theorem returns_iff : (∃ fuel, (run guard body s₀ inp fuel).isSome) ↔
    ∃ n, guard (after guard body s₀ inp n) = false := by
  refine exists_congr fun n => ?_
  rw [run]
  cases guard (after guard body s₀ inp n) <;> simp

/-- **The rule for what happens while the loop runs.** -/
theorem after_induction {P : ℕ → σ → Prop} (h₀ : P 0 s₀)
    (hstep : ∀ k s, guard s = true → P k s → P (k + 1) (body (inp k) s))
    (hrun : ∀ k < n, guard (after guard body s₀ inp k) = true) :
    P n (after guard body s₀ inp n) := by
  induction n with
  | zero => exact h₀
  | succ n ih =>
    have hguard := hrun n (Nat.lt_succ_self n)
    rw [after_succ_of_true hguard]
    exact hstep n _ hguard (ih fun k hk => hrun k (Nat.lt_succ_of_lt hk))

/-- **The rule for what the loop returns**: an invariant, which may speak about the number of the
iteration, holds when the loop is left, and the guard does not. -/
theorem run_induction {P : ℕ → σ → Prop} (h₀ : P 0 s₀)
    (hstep : ∀ k s, guard s = true → P k s → P (k + 1) (body (inp k) s))
    (h : run guard body s₀ inp n = some t) : ∃ k, P k t ∧ guard t = false := by
  obtain ⟨hexit, rfl⟩ := run_eq_some_iff.mp h
  have hleft : ∃ k, guard (after guard body s₀ inp k) = false := ⟨n, hexit⟩
  have hrun : ∀ k < Nat.find hleft, guard (after guard body s₀ inp k) = true := fun k hk =>
    Bool.not_eq_false _ ▸ Nat.find_min hleft hk
  have hfirst := Nat.find_spec hleft
  rw [after_of_false hfirst (Nat.find_min' hleft hexit)]
  exact ⟨_, after_induction h₀ hstep hrun, hfirst⟩

end WhileLoop
