import Mathlib

/-!
# Conservation in a queue

`Flow q arrived taken q'` is the conservation law of a first-in-first-out queue: the elements
that were in the queue, followed by those that arrived, are those that were taken, followed by
those that are in the queue now. Flows compose, so a program that only ever appends arrivals
and takes from the front can be followed without looking at how the two interleave.
-/

namespace Queue

variable {α : Type*}

/-- From the contents `q`, after `arrived` came in and `taken` went out, the contents are `q'`. -/
def Flow (q arrived taken q' : List α) : Prop := q ++ arrived = taken ++ q'

namespace Flow

variable {q q' q'' arrived arrived' taken taken' : List α}

theorem refl (q : List α) : Flow q [] [] q := by
  simp [Flow]

theorem push (q arrived : List α) : Flow q arrived [] (q ++ arrived) := by
  simp [Flow]

/-- Taking from a queue that may be empty. -/
theorem tail (q : List α) : Flow q [] q.head?.toList q.tail := by
  cases q <;> simp [Flow]

/-- **Flows compose.** -/
theorem trans (h₁ : Flow q arrived taken q') (h₂ : Flow q' arrived' taken' q'') :
    Flow q (arrived ++ arrived') (taken ++ taken') q'' := by
  unfold Flow at *
  rw [← List.append_assoc, h₁, List.append_assoc, h₂, List.append_assoc]

theorem length (h : Flow q arrived taken q') :
    q.length + arrived.length = taken.length + q'.length := by
  simpa using congrArg List.length h

/-- What leaves a queue that was empty is the beginning of what arrived. -/
theorem arrived_eq (h : Flow [] arrived taken q') : arrived = taken ++ q' := by
  simpa [Flow] using h

end Flow

end Queue
