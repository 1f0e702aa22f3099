import Mathlib

/-!
# Loops over the members of a family

A loop visits each member of a list once and lets it change the state. `sweep_iff` is the rule for
such a loop when what happens to a member depends on the member's own part of the state: a property
of the state survives the loop exactly when every member meets its condition in the state before
the loop.
-/

namespace Sweep

variable {α σ : Type*} {f : σ → α → σ} {P I : σ → Prop} {C : α → σ → Prop}

/-- An invariant of the visits is an invariant of the loop. -/
theorem foldl_invariant (h : ∀ s a, I s → I (f s a)) (l : List α) {s : σ} (hs : I s) :
    I (l.foldl f s) := by
  induction l generalizing s with
  | nil => exact hs
  | cons a l ih => exact ih (h s a hs)

/-- An invariant of the visits to members that meet their condition, which the visits to others do
not change, is an invariant of a loop over such members. -/
theorem foldl_invariant_of (hI : ∀ s a, I s → C a s → I (f s a))
    (hC : ∀ s a b, a ≠ b → I s → C a s → C b s → C b (f s a)) {l : List α} (hl : l.Nodup) {s : σ}
    (hs : I s) (hCs : ∀ a ∈ l, C a s) : I (l.foldl f s) := by
  induction l generalizing s with
  | nil => exact hs
  | cons a l ih =>
    obtain ⟨ha, hl⟩ := List.nodup_cons.mp hl
    obtain ⟨hCa, hCl⟩ := List.forall_mem_cons.mp hCs
    refine ih hl (hI s a hs hCa) fun b hb => hC s a b ?_ hs hCa (hCl b hb)
    rintro rfl
    exact ha hb

/-- A property that a visit neither makes nor breaks is not made or broken by the loop. -/
theorem foldl_iff (hI : ∀ s a, I s → I (f s a)) (hP : ∀ s a, I s → (P (f s a) ↔ P s)) (l : List α)
    {s : σ} (hs : I s) : P (l.foldl f s) ↔ P s := by
  induction l generalizing s with
  | nil => exact Iff.rfl
  | cons a l ih => exact (ih (hI s a hs)).trans (hP s a hs)

/-- A property that no visit can establish is not established by the loop. -/
theorem of_foldl (hmono : ∀ s a, P (f s a) → P s) (l : List α) {s : σ} (h : P (l.foldl f s)) :
    P s := by
  induction l generalizing s with
  | nil => exact h
  | cons a l ih => exact hmono s a (ih h)

/-- A loop visits a member in a state to which the visits to others have led, and they lead on from
there. -/
theorem exists_visit {K : σ → σ → Prop} (hrefl : ∀ s, K s s)
    (htrans : ∀ s t u, K s t → K t u → K s u) {a : α} (hother : ∀ s b, b ≠ a → K s (f s b))
    {l : List α} (hl : l.Nodup) (ha : a ∈ l) (s : σ) : ∃ t, K s t ∧ K (f t a) (l.foldl f s) := by
  have hvisits : ∀ (l : List α) (s : σ), a ∉ l → K s (l.foldl f s) := by
    intro l
    induction l with
    | nil => exact fun s _ => hrefl s
    | cons b l ih =>
      intro s hb
      rw [List.mem_cons, not_or] at hb
      exact htrans _ _ _ (hother s b (Ne.symm hb.1)) (ih (f s b) hb.2)
  obtain ⟨l₁, l₂, rfl⟩ := List.append_of_mem ha
  obtain ⟨-, hright, hdisjoint⟩ := List.nodup_append.mp hl
  have hleft : a ∉ l₁ := fun h => hdisjoint a h a List.mem_cons_self rfl
  refine ⟨l₁.foldl f s, hvisits l₁ s hleft, ?_⟩
  rw [List.foldl_append, List.foldl_cons]
  exact hvisits l₂ _ (List.nodup_cons.mp hright).1

/-- **The rule of the loop.** Let a visit to `a` keep the property `P` exactly when `a` meets its
condition, and let it then keep the invariant `I` and the conditions of the other members. Then the
loop keeps `P` exactly when every member meets its condition at the beginning, and the invariant
holds at the end if it does. -/
theorem sweep_iff (hmono : ∀ s a, P (f s a) → P s) (hP : ∀ s a, I s → (P (f s a) ↔ P s ∧ C a s))
    (hI : ∀ s a, I s → C a s → I (f s a))
    (hC : ∀ s a b, a ≠ b → I s → C a s → (C b (f s a) ↔ C b s)) {l : List α} (hl : l.Nodup)
    {s : σ} (hs : I s) :
    (P (l.foldl f s) ↔ P s ∧ ∀ a ∈ l, C a s) ∧ ((∀ a ∈ l, C a s) → I (l.foldl f s)) := by
  induction l generalizing s with
  | nil => simpa using hs
  | cons a l ih =>
    obtain ⟨ha, hl⟩ := List.nodup_cons.mp hl
    by_cases hCa : C a s
    · have hothers : (∀ b ∈ l, C b (f s a)) ↔ ∀ b ∈ l, C b s := by
        refine forall₂_congr fun b hb => hC s a b ?_ hs hCa
        rintro rfl
        exact ha hb
      obtain ⟨hloop, hinv⟩ := ih hl (hI s a hs hCa)
      rw [List.foldl_cons, hloop, hP s a hs, hothers, List.forall_mem_cons, and_assoc]
      exact ⟨Iff.rfl, fun h => hinv (hothers.mpr h.2)⟩
    · refine ⟨iff_of_false (fun h => hCa ?_) fun h => hCa (h.2 a List.mem_cons_self),
        fun h => absurd (h a List.mem_cons_self) hCa⟩
      exact ((hP s a hs).mp (of_foldl hmono l h)).2

section Fallible

variable {g : σ → α → Option σ}

/-- An invariant of the visits of a loop that can fail is an invariant of the loop. -/
theorem foldlM_invariant (h : ∀ s a s', g s a = some s' → I s → I s') (l : List α) {s s' : σ}
    (hl : l.foldlM g s = some s') (hs : I s) : I s' := by
  induction l generalizing s with
  | nil =>
    obtain rfl : s = s' := by simpa using hl
    exact hs
  | cons a l ih =>
    rw [List.foldlM_cons, Option.bind_eq_bind, Option.bind_eq_some_iff] at hl
    obtain ⟨t, ha, hl⟩ := hl
    exact ih hl (h s a t ha hs)

/-- What each visit establishes for its member, and every visit keeps, holds of all members after
the loop. -/
theorem foldlM_establish (hself : ∀ s a s', g s a = some s' → C a s')
    (hkeep : ∀ s a b s', g s a = some s' → C b s → C b s') (l : List α) {s s' : σ}
    (hl : l.foldlM g s = some s') : ∀ a ∈ l, C a s' := by
  induction l generalizing s with
  | nil => exact fun a ha => absurd ha List.not_mem_nil
  | cons a l ih =>
    rw [List.foldlM_cons, Option.bind_eq_bind, Option.bind_eq_some_iff] at hl
    obtain ⟨t, ha, hl⟩ := hl
    refine List.forall_mem_cons.mpr ⟨?_, ih hl⟩
    exact foldlM_invariant (I := C a) (fun s b => hkeep s b a) l hl (hself s a t ha)

/-- A loop whose visits succeed or fail whatever the state succeeds when all of them do. -/
theorem isSome_foldlM {C : α → Prop} (h : ∀ s a, (g s a).isSome = true ↔ C a) (l : List α) (s : σ) :
    (l.foldlM g s).isSome = true ↔ ∀ a ∈ l, C a := by
  induction l generalizing s with
  | nil => exact iff_of_true rfl fun a ha => absurd ha List.not_mem_nil
  | cons a l ih =>
    rw [List.foldlM_cons, Option.bind_eq_bind, List.forall_mem_cons, ← h s a]
    cases g s a with
    | none => exact iff_of_false Bool.false_ne_true fun hall => absurd hall.1 Bool.false_ne_true
    | some t => exact (ih t).trans (and_iff_right rfl).symm

end Fallible

end Sweep
