import Mathlib

/-!
# Searching for a marker in one pass

A matcher that reads a text once and counts the symbols of the marker it has matched, and begins
anew behind a symbol that does not match, is not a search for the first occurrence: an occurrence
that begins at that symbol is missed. For a marker of two distinct symbols `a b` this happens when
`b` comes after an even number of `a`. `scan` finds the first `b` after an odd number of `a`
(`first_scan`), which is the first occurrence when the number is odd there (`first_endsAt_iff`).
-/

namespace MarkerSearch

variable {α : Type*}

/-- The smallest number with a property, if there is one. -/
def First (P : ℕ → Prop) : Option ℕ → Prop
  | some p => IsLeast {q | P q} p
  | none => ∀ q, ¬P q

/-- A property that holds somewhere holds first somewhere. -/
theorem isLeast_of_exists {P : ℕ → Prop} (h : ∃ q, P q) : IsLeast {q | P q} (sInf {q | P q}) :=
  ⟨Nat.sInf_mem h, fun _ hq => Nat.sInf_le hq⟩

section First

variable {P Q : ℕ → Prop} {o : Option ℕ} {p : ℕ}

theorem First.eq_some_iff (h : First P o) : o = some p ↔ IsLeast {q | P q} p := by
  cases o with
  | none =>
    exact ⟨fun heq => by simp at heq, fun hleast => absurd hleast.1 (h p)⟩
  | some q =>
    constructor
    · intro heq
      exact Option.some.inj heq ▸ h
    · intro hleast
      exact congrArg some (h.unique hleast)

theorem First.eq_none_iff (h : First P o) : o = none ↔ ∀ q, ¬P q := by
  cases o with
  | none => exact ⟨fun _ => h, fun _ => rfl⟩
  | some q => exact ⟨fun heq => by simp at heq, fun hnone => absurd h.1 (hnone q)⟩

/-- The first number of a text that begins with one more symbol. -/
theorem First.succ (h : First P o) (h1 : ¬Q 0) (hsucc : ∀ q, Q (q + 1) ↔ P q) :
    First Q (o.map (· + 1)) := by
  have hpred : ∀ q, Q q → ∃ r, q = r + 1 ∧ P r := by
    intro q hq
    cases q with
    | zero => exact absurd hq h1
    | succ r => exact ⟨r, rfl, (hsucc r).mp hq⟩
  cases o with
  | none =>
    intro q hq
    obtain ⟨r, rfl, hr⟩ := hpred q hq
    exact h r hr
  | some p =>
    refine ⟨(hsucc p).mpr h.1, fun q hq => ?_⟩
    obtain ⟨r, rfl, hr⟩ := hpred q hq
    exact Nat.succ_le_succ (h.2 hr)

end First

variable [DecidableEq α]

/-- The position behind the match of the marker, of which `k` symbols are matched before. -/
def scan (marker : List α) : ℕ → List α → Option ℕ
  | _, [] => none
  | k, c :: cs =>
    if marker[k]? = some c then
      if k + 1 = marker.length then some 1 else (scan marker (k + 1) cs).map (· + 1)
    else (scan marker 0 cs).map (· + 1)

/-! ### Markers of two symbols -/

/-- How many `a` a text ends with. -/
def run (a : α) (xs : List α) : ℕ := (xs.reverse.takeWhile (· = a)).length

/-- After some text, a `b` behind an odd number of `a` ends at a position. -/
def SeenAfter (a b : α) (pre xs : List α) (p : ℕ) : Prop :=
  ∃ mid post, xs = mid ++ b :: post ∧ p = mid.length + 1 ∧ Odd (run a (pre ++ mid))

/-- A `b` behind an odd number of `a` ends at a position. -/
def SeenAt (a b : α) (xs : List α) (p : ℕ) : Prop := SeenAfter a b [] xs p

/-- An occurrence of `a b` ends at a position. -/
def EndsAt (a b : α) (xs : List α) (p : ℕ) : Prop :=
  ∃ pre post, xs = pre ++ a :: b :: post ∧ p = pre.length + 2

section Run

variable (a : α) (xs : List α)

@[simp]
theorem run_nil : run a [] = 0 := rfl

@[simp]
theorem run_concat_self : run a (xs ++ [a]) = run a xs + 1 := by
  rw [run, List.reverse_concat, List.takeWhile_cons_of_pos (by simp), List.length_cons, run]

variable {a}

theorem run_concat_of_ne {c : α} (hc : c ≠ a) : run a (xs ++ [c]) = 0 := by
  rw [run, List.reverse_concat, List.takeWhile_cons_of_neg (by simpa using hc), List.length_nil]

variable {xs}

/-- A text ends with `a` when the number is positive. -/
theorem run_pos_iff : 0 < run a xs ↔ ∃ pre, xs = pre ++ [a] := by
  constructor
  · intro hpos
    obtain rfl | ⟨pre, c, rfl⟩ := xs.eq_nil_or_concat'
    · exact absurd hpos (Nat.lt_irrefl 0)
    · by_cases hc : c = a
      · exact ⟨pre, by rw [hc]⟩
      · rw [run_concat_of_ne pre hc] at hpos
        exact absurd hpos (Nat.lt_irrefl 0)
  · rintro ⟨pre, rfl⟩
    rw [run_concat_self]
    exact Nat.succ_pos _

end Run

variable {a b : α} {xs : List α} {p : ℕ}

/-- An occurrence ends with a `b` behind some `a`. -/
theorem endsAt_iff : EndsAt a b xs p ↔
    ∃ pre post, xs = pre ++ b :: post ∧ p = pre.length + 1 ∧ 0 < run a pre := by
  constructor
  · rintro ⟨pre, post, rfl, rfl⟩
    refine ⟨pre ++ [a], post, by simp, by simp, ?_⟩
    rw [run_concat_self]
    exact Nat.succ_pos _
  · rintro ⟨pre, post, rfl, rfl, hpos⟩
    obtain ⟨pre, rfl⟩ := run_pos_iff.mp hpos
    exact ⟨pre, post, by simp, by simp⟩

omit [DecidableEq α] in
/-- An occurrence takes two symbols. -/
theorem not_endsAt_of_length (h : xs.length < 2) : ¬EndsAt a b xs p := by
  rintro ⟨pre, post, rfl, -⟩
  rw [List.length_append, List.length_cons, List.length_cons] at h
  omega

/-- What is seen is an occurrence. -/
theorem SeenAt.endsAt (h : SeenAt a b xs p) : EndsAt a b xs p := by
  obtain ⟨pre, post, hxs, hp, hodd⟩ := h
  exact endsAt_iff.mpr ⟨pre, post, hxs, hp, hodd.pos⟩

section Step

variable {pre : List α} {c : α}

theorem not_seenAfter_zero : ¬SeenAfter a b pre xs 0 := by
  rintro ⟨mid, post, -, hp, -⟩
  exact absurd hp (Nat.succ_ne_zero _).symm

theorem seenAfter_nil : ¬SeenAfter a b pre [] p := by
  rintro ⟨mid, post, hxs, -⟩
  exact absurd hxs.symm (List.append_ne_nil_of_right_ne_nil _ (List.cons_ne_nil _ _))

/-- One symbol more: either it is the `b`, or what is seen comes after it. -/
theorem seenAfter_cons : SeenAfter a b pre (c :: xs) (p + 1) ↔
    p = 0 ∧ c = b ∧ Odd (run a pre) ∨ SeenAfter a b (pre ++ [c]) xs p := by
  constructor
  · rintro ⟨mid, post, hxs, hp, hodd⟩
    cases mid with
    | nil =>
      obtain ⟨rfl, -⟩ := List.cons.inj hxs
      exact .inl ⟨Nat.succ.inj hp, rfl, by rwa [List.append_nil] at hodd⟩
    | cons d mid =>
      obtain ⟨rfl, hrest⟩ := List.cons.inj hxs
      exact .inr ⟨mid, post, hrest, Nat.succ.inj hp, by rwa [List.append_assoc]⟩
  · rintro (⟨rfl, rfl, hodd⟩ | ⟨mid, post, rfl, rfl, hodd⟩)
    · exact ⟨[], xs, rfl, rfl, by rwa [List.append_nil]⟩
    · exact ⟨c :: mid, post, rfl, rfl, by rwa [List.append_assoc] at hodd⟩

end Step

/-- **What the matcher finds**: after any text, whose last `a` are counted modulo two, the first
`b` behind an odd number of `a`. -/
theorem first_scan_after (hab : a ≠ b) (pre xs : List α) :
    First (SeenAfter a b pre xs) (scan [a, b] (run a pre % 2) xs) := by
  induction xs generalizing pre with
  | nil => exact fun q => seenAfter_nil
  | cons c cs ih =>
    have hrest := ih (pre ++ [c])
    obtain heven | hodd := Nat.even_or_odd (run a pre)
    · -- no symbol is matched, so this one does not end a match
      have hlater : ∀ q, SeenAfter a b pre (c :: cs) (q + 1) ↔
          SeenAfter a b (pre ++ [c]) cs q := by
        intro q
        rw [seenAfter_cons, or_iff_right]
        exact fun h => Nat.not_odd_iff_even.mpr heven h.2.2
      rw [Nat.even_iff.mp heven]
      by_cases hc : c = a
      · subst hc
        have hscan : scan [c, b] 0 (c :: cs) = (scan [c, b] 1 cs).map (· + 1) :=
          (if_pos rfl).trans (if_neg (by simp))
        rw [run_concat_self, Nat.odd_iff.mp heven.add_one] at hrest
        rw [hscan]
        exact hrest.succ not_seenAfter_zero hlater
      · rw [run_concat_of_ne pre hc] at hrest
        have hscan : scan [a, b] 0 (c :: cs) = (scan [a, b] 0 cs).map (· + 1) :=
          if_neg fun h => hc (Option.some.inj h).symm
        rw [hscan]
        exact hrest.succ not_seenAfter_zero hlater
    · rw [Nat.odd_iff.mp hodd]
      by_cases hc : c = b
      · subst hc
        have hscan : scan [a, c] 1 (c :: cs) = some 1 := (if_pos rfl).trans (if_pos rfl)
        rw [hscan]
        refine ⟨seenAfter_cons.mpr (.inl ⟨rfl, rfl, hodd⟩), fun q hq => ?_⟩
        exact Nat.one_le_iff_ne_zero.mpr fun hzero => not_seenAfter_zero (hzero ▸ hq)
      · -- the matcher begins anew, whatever the symbol is
        have hlater : ∀ q, SeenAfter a b pre (c :: cs) (q + 1) ↔
            SeenAfter a b (pre ++ [c]) cs q := by
          intro q
          rw [seenAfter_cons, or_iff_right]
          exact fun h => hc h.2.1
        have hscan : scan [a, b] 1 (c :: cs) = (scan [a, b] 0 cs).map (· + 1) :=
          if_neg fun h => hc (Option.some.inj h).symm
        have hnext : run a (pre ++ [c]) % 2 = 0 := by
          by_cases hca : c = a
          · rw [hca, run_concat_self, Nat.even_iff.mp hodd.add_one]
          · rw [run_concat_of_ne pre hca]
        rw [hnext] at hrest
        rw [hscan]
        exact hrest.succ not_seenAfter_zero hlater

/-- The matcher finds the first `b` behind an odd number of `a`. -/
theorem first_scan (hab : a ≠ b) (xs : List α) : First (SeenAt a b xs) (scan [a, b] 0 xs) :=
  first_scan_after hab [] xs

/-! ### Parts of a text -/

omit [DecidableEq α] in
/-- An occurrence, by the symbols at its two places. -/
theorem endsAt_iff_getElem : EndsAt a b xs p ↔
    2 ≤ p ∧ xs[p - 2]? = some a ∧ xs[p - 1]? = some b := by
  constructor
  · rintro ⟨pre, post, rfl, rfl⟩
    refine ⟨Nat.le_add_left 2 _, ?_, ?_⟩
    · rw [Nat.add_sub_cancel, List.getElem?_append_right le_rfl, Nat.sub_self]
      rfl
    · rw [Nat.add_sub_assoc one_le_two, List.getElem?_append_right (Nat.le_add_right _ _),
        Nat.add_sub_cancel_left]
      rfl
  · rintro ⟨hp, ha, hb⟩
    obtain ⟨hlt, rfl⟩ := List.getElem?_eq_some_iff.mp ha
    obtain ⟨hlt', rfl⟩ := List.getElem?_eq_some_iff.mp hb
    have hnext : p - 2 + 1 = p - 1 := by omega
    refine ⟨xs.take (p - 2), xs.drop p, ?_, ?_⟩
    · conv_lhs => rw [← List.take_append_drop (p - 2) xs, List.drop_eq_getElem_cons hlt]
      rw [List.drop_eq_getElem_cons (by omega)]
      simp only [hnext]
      congr 4
      omega
    · rw [List.length_take]
      omega

/-- The number of `a` before the `b` with which an occurrence ends. -/
def runAt (a : α) (xs : List α) (p : ℕ) : ℕ := run a (xs.take (p - 1))

theorem seenAt_iff : SeenAt a b xs p ↔ EndsAt a b xs p ∧ Odd (runAt a xs p) := by
  have hrun : ∀ (pre post : List α), runAt a (pre ++ b :: post) (pre.length + 1) = run a pre :=
    fun pre post => by rw [runAt, Nat.add_sub_cancel, List.take_left]
  constructor
  · intro h
    refine ⟨h.endsAt, ?_⟩
    obtain ⟨pre, post, rfl, rfl, hodd⟩ := h
    rwa [hrun]
  · rintro ⟨hends, hodd⟩
    obtain ⟨pre, post, rfl, rfl, -⟩ := endsAt_iff.mp hends
    rw [hrun] at hodd
    exact ⟨pre, post, rfl, rfl, hodd⟩

section Parts

variable {n k : ℕ} {ys : List α}

omit [DecidableEq α] in
/-- The occurrences of the beginning of a text. -/
theorem endsAt_take_iff : EndsAt a b (xs.take n) p ↔ EndsAt a b xs p ∧ p ≤ n := by
  rw [endsAt_iff_getElem, endsAt_iff_getElem]
  constructor
  · rintro ⟨hp, ha, hb⟩
    have hlt : p - 1 < n := by
      by_contra hge
      have hbehind : (xs.take n).length ≤ p - 1 :=
        le_trans (List.length_take_le _ _) (Nat.not_lt.mp hge)
      rw [List.getElem?_eq_none hbehind] at hb
      exact absurd hb (by simp)
    rw [List.getElem?_take_of_lt (by omega)] at ha hb
    exact ⟨⟨hp, ha, hb⟩, by omega⟩
  · rintro ⟨⟨hp, ha, hb⟩, hn⟩
    rw [List.getElem?_take_of_lt (by omega), List.getElem?_take_of_lt (by omega)]
    exact ⟨hp, ha, hb⟩

theorem runAt_take (hp : p ≤ n) : runAt a (xs.take n) p = runAt a xs p := by
  rw [runAt, List.take_take, Nat.min_eq_left (by omega), runAt]

theorem seenAt_take_iff : SeenAt a b (xs.take n) p ↔ SeenAt a b xs p ∧ p ≤ n := by
  rw [seenAt_iff, seenAt_iff, endsAt_take_iff]
  constructor
  · rintro ⟨⟨hends, hp⟩, hodd⟩
    rw [runAt_take hp] at hodd
    exact ⟨⟨hends, hodd⟩, hp⟩
  · rintro ⟨⟨hends, hodd⟩, hp⟩
    rw [runAt_take hp]
    exact ⟨⟨hends, hp⟩, hodd⟩

/-- What is seen first in the beginning of a text is seen first in the text. -/
theorem isLeast_seenAt_take_iff : IsLeast {q | SeenAt a b (xs.take n) q} p ↔
    IsLeast {q | SeenAt a b xs q} p ∧ p ≤ n := by
  constructor
  · rintro ⟨hseen, hleast⟩
    obtain ⟨hp, hn⟩ := seenAt_take_iff.mp hseen
    refine ⟨⟨hp, fun q hq => ?_⟩, hn⟩
    by_cases hqn : q ≤ n
    · exact hleast (seenAt_take_iff.mpr ⟨hq, hqn⟩)
    · omega
  · rintro ⟨⟨hp, hleast⟩, hn⟩
    exact ⟨seenAt_take_iff.mpr ⟨hp, hn⟩, fun q hq => hleast (seenAt_take_iff.mp hq).1⟩

omit [DecidableEq α] in
/-- The occurrences of the end of a text are occurrences of the text. -/
theorem EndsAt.of_drop (h : EndsAt a b (xs.drop k) p) : EndsAt a b xs (k + p) := by
  rw [endsAt_iff_getElem] at h ⊢
  obtain ⟨hp, ha, hb⟩ := h
  rw [List.getElem?_drop] at ha hb
  refine ⟨by omega, ?_, ?_⟩
  · rwa [Nat.add_sub_assoc hp]
  · rwa [Nat.add_sub_assoc (by omega)]

omit [DecidableEq α] in
/-- An occurrence that ends within the first of two texts. -/
theorem endsAt_append_iff (hp : p ≤ xs.length) : EndsAt a b (xs ++ ys) p ↔ EndsAt a b xs p := by
  have htake : EndsAt a b ((xs ++ ys).take xs.length) p ↔
      EndsAt a b (xs ++ ys) p ∧ p ≤ xs.length := endsAt_take_iff
  rw [List.take_left] at htake
  exact ⟨fun h => htake.mpr ⟨h, hp⟩, fun h => (htake.mp h).1⟩

end Parts

/-! ### The first occurrence -/

/-- The first occurrence is seen first when there is an odd number of `a` before its `b`. -/
theorem isLeast_seenAt_iff (h : IsLeast {q | EndsAt a b xs q} p) :
    IsLeast {q | SeenAt a b xs q} p ↔ Odd (runAt a xs p) := by
  constructor
  · intro hseen
    exact (seenAt_iff.mp hseen.1).2
  · intro hodd
    exact ⟨seenAt_iff.mpr ⟨h.1, hodd⟩, fun q hq => h.2 (SeenAt.endsAt hq)⟩

/-- **When the first occurrence is found**: there is an odd number of `a` before its `b`. -/
theorem first_endsAt_iff (hab : a ≠ b) (xs : List α) :
    First (EndsAt a b xs) (scan [a, b] 0 xs) ↔
      ∀ p, IsLeast {q | EndsAt a b xs q} p → Odd (runAt a xs p) := by
  have hscan := first_scan hab xs
  constructor
  · intro hfirst p hp
    have hfound : scan [a, b] 0 xs = some p := hfirst.eq_some_iff.mpr hp
    exact (isLeast_seenAt_iff hp).mp (hscan.eq_some_iff.mp hfound)
  · intro hodd
    by_cases hex : ∃ p, EndsAt a b xs p
    · have hleast := isLeast_of_exists hex
      rw [hscan.eq_some_iff.mpr ((isLeast_seenAt_iff hleast).mpr (hodd _ hleast))]
      exact hleast
    · have hnone : ∀ q, ¬SeenAt a b xs q := fun q hq => hex ⟨q, hq.endsAt⟩
      rw [hscan.eq_none_iff.mpr hnone]
      exact fun q hq => hex ⟨q, hq⟩

end MarkerSearch
