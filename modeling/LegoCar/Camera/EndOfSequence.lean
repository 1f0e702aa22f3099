import Mathlib
import LegoCar.Camera.MjpegInputStream

/-!
# The search for a marker

The loop of the two searches is the one-pass matcher of `MarkerSearch` on the bytes of its window
(`searchLoop_eq`), so it finds the first occurrence of a marker when an odd number of its first byte
stands before its second one there, that is, no or an even number of fill bytes. Otherwise it goes
on behind it. Without an occurrence it answers `-1` when there are as many bytes as it looks at, and
a shorter stream ends it with an exception (`getEndOfSeqeunce_iff`).
-/

namespace LegoCar

open MarkerSearch

namespace MjpegInputStream

/-- The stream at another position. -/
def moveTo (s : MjpegInputStream) (bytes : List UInt8) : MjpegInputStream :=
  { s with rest := bytes }

@[simp]
theorem rest_moveTo (s : MjpegInputStream) (bytes : List UInt8) : (s.moveTo bytes).rest = bytes :=
  rfl

@[simp]
theorem moveTo_moveTo (s : MjpegInputStream) (bytes bytes' : List UInt8) :
    (s.moveTo bytes).moveTo bytes' = s.moveTo bytes' := rfl

/-- What the loop returns, and where it leaves the stream, for what the matcher finds. -/
def searched (n : ℕ) (base : ℤ) (bytes : List UInt8) :
    Option ℕ → Except JavaException ℤ × List UInt8
  | some p => (.ok (base + p), bytes.drop p)
  | none => if n ≤ bytes.length then (.ok (-1), bytes.drop n) else (.error .eofException, [])

/-- What is found behind one more byte. -/
theorem searched_cons (n : ℕ) (base : ℤ) (c : UInt8) (bytes : List UInt8) (o : Option ℕ) :
    searched (n + 1) base (c :: bytes) (o.map (· + 1)) = searched n (base + 1) bytes o := by
  cases o with
  | none => simp only [Option.map_none, searched, List.length_cons, Nat.succ_le_succ_iff,
      List.drop_succ_cons]
  | some p =>
    simp only [Option.map_some, searched, List.drop_succ_cons]
    congr 2
    push_cast
    ring

/-- **The loop is the matcher** on the bytes of the window. -/
theorem searchLoop_eq (sequence : List UInt8) (bound base : ℤ) (i seqIndex : ℕ)
    (bytes : List UInt8) : searchLoop sequence bound base i seqIndex bytes =
      searched (bound - i).toNat (base + i) bytes
        (scan sequence seqIndex (bytes.take (bound - i).toNat)) := by
  induction bytes generalizing i seqIndex with
  | nil =>
    by_cases hi : (i : ℤ) < bound
    · have hn : ¬(bound - i).toNat ≤ 0 := by omega
      rw [searchLoop, if_pos hi, List.take_nil, scan, searched, List.length_nil, if_neg hn]
    · have hn : (bound - i).toNat = 0 := by omega
      rw [searchLoop, if_neg hi, List.take_nil, scan, searched, hn, if_pos (Nat.zero_le _),
        List.drop_nil]
  | cons c bytes ih =>
    by_cases hi : (i : ℤ) < bound
    · have hn : (bound - i).toNat = (bound - (i + 1 : ℕ)).toNat + 1 := by omega
      have hbase : base + i + 1 = base + (i + 1 : ℕ) := by push_cast; ring
      rw [searchLoop, if_pos hi, hn, List.take_succ_cons, scan]
      split_ifs with hmatch hlast
      · rfl
      · rw [searched_cons, ih, hbase]
      · rw [searched_cons, ih, hbase]
    · have hn : (bound - i).toNat = 0 := by omega
      rw [searchLoop, if_neg hi, hn, List.take_zero, scan, searched, if_pos (Nat.zero_le _),
        List.drop_zero]

/-- `getEndOfSeqeunce` on a stream. -/
theorem getEndOfSeqeunce_run (sequence : List UInt8) (s : MjpegInputStream) :
    (getEndOfSeqeunce sequence).run.run s =
      ((searched frameMaxLength 0 s.rest (scan sequence 0 (s.rest.take frameMaxLength))).1,
        s.moveTo (searched frameMaxLength 0 s.rest
          (scan sequence 0 (s.rest.take frameMaxLength))).2) := by
  have hloop := searchLoop_eq sequence frameMaxLength 0 0 0 s.rest
  rw [Nat.cast_zero, sub_zero, add_zero, Int.toNat_natCast] at hloop
  rw [← hloop]
  rfl

/-- The search returns the position behind the first occurrence of a marker within the first
`FRAME_MAX_LENGTH` bytes, and `-1` if there is none there. -/
def FindsMarker (a b : UInt8) (s : MjpegInputStream) : Prop :=
  (∀ p : ℕ, IsLeast {q | EndsAt a b (s.rest.take frameMaxLength) q} p →
    ((getEndOfSeqeunce [a, b]).run.run s).1 = .ok (p : ℤ)) ∧
  ((∀ q, ¬EndsAt a b (s.rest.take frameMaxLength) q) →
    ((getEndOfSeqeunce [a, b]).run.run s).1 = .ok (-1))

variable {a b : UInt8} {s : MjpegInputStream}

/-- What the search returns determines what the matcher finds. -/
theorem scan_of_search {sequence : List UInt8} {p : ℕ}
    (h : ((getEndOfSeqeunce sequence).run.run s).1 = .ok (p : ℤ)) :
    scan sequence 0 (s.rest.take frameMaxLength) = some p := by
  rw [getEndOfSeqeunce_run] at h
  cases hscan : scan sequence 0 (s.rest.take frameMaxLength) with
  | none =>
    rw [hscan, searched] at h
    split_ifs at h
    have hneg := Except.ok.inj h
    omega
  | some q =>
    rw [hscan, searched] at h
    have heq : (0 : ℤ) + q = p := Except.ok.inj h
    exact congrArg some (by omega)

theorem search_of_scan {sequence : List UInt8} {p : ℕ}
    (h : scan sequence 0 (s.rest.take frameMaxLength) = some p) :
    ((getEndOfSeqeunce sequence).run.run s).1 = .ok (p : ℤ) := by
  rw [getEndOfSeqeunce_run, h]
  exact congrArg Except.ok (zero_add _)

theorem search_of_scan_none {sequence : List UInt8}
    (h : scan sequence 0 (s.rest.take frameMaxLength) = none) :
    ((getEndOfSeqeunce sequence).run.run s).1 =
      if frameMaxLength ≤ s.rest.length then .ok (-1) else .error .eofException := by
  rw [getEndOfSeqeunce_run, h]
  split_ifs with hlength
  · rw [searched, if_pos hlength]
  · rw [searched, if_neg hlength]

/-- The search answers `-1` exactly when the matcher finds nothing and the stream is long enough. -/
theorem search_neg_iff {sequence : List UInt8} :
    ((getEndOfSeqeunce sequence).run.run s).1 = .ok (-1) ↔
      scan sequence 0 (s.rest.take frameMaxLength) = none ∧ frameMaxLength ≤ s.rest.length := by
  cases hscan : scan sequence 0 (s.rest.take frameMaxLength) with
  | none =>
    rw [search_of_scan_none hscan]
    split_ifs with hlength
    · exact ⟨fun _ => ⟨rfl, hlength⟩, fun _ => rfl⟩
    · exact ⟨nofun, fun h => absurd h.2 hlength⟩
  | some p =>
    rw [search_of_scan hscan]
    refine ⟨fun h => ?_, nofun⟩
    have hneg : (p : ℤ) = -1 := Except.ok.inj h
    omega

/-- The marker is found when the matcher finds the first occurrence, and without one the stream is
long enough. -/
theorem findsMarker_iff (hab : a ≠ b) : FindsMarker a b s ↔
    First (EndsAt a b (s.rest.take frameMaxLength))
      (scan [a, b] 0 (s.rest.take frameMaxLength)) ∧
    ((∀ q, ¬EndsAt a b (s.rest.take frameMaxLength) q) → frameMaxLength ≤ s.rest.length) := by
  have hseen := first_scan hab (s.rest.take frameMaxLength)
  constructor
  · rintro ⟨hleast, hneg⟩
    refine ⟨?_, fun hnone => (search_neg_iff.mp (hneg hnone)).2⟩
    by_cases hex : ∃ q, EndsAt a b (s.rest.take frameMaxLength) q
    · have hp := isLeast_of_exists hex
      rw [scan_of_search (hleast _ hp)]
      exact hp
    · have hnone : ∀ q, ¬EndsAt a b (s.rest.take frameMaxLength) q := fun q hq => hex ⟨q, hq⟩
      rw [hseen.eq_none_iff.mpr fun q hq => hnone q hq.endsAt]
      exact hnone
  · rintro ⟨hfirst, hlength⟩
    exact ⟨fun p hp => search_of_scan (hfirst.eq_some_iff.mpr hp),
      fun hnone => search_neg_iff.mpr ⟨hfirst.eq_none_iff.mpr hnone, hlength hnone⟩⟩

end MjpegInputStream

open MjpegInputStream

/-- **The search for a marker** of two distinct bytes does what it is for exactly when an odd number
of the first byte stands before the second one of its first occurrence, and a stream without an
occurrence does not end before the bytes that are searched. One that does ends the search with an
exception. -/
theorem getEndOfSeqeunce_iff {a b : UInt8} (hab : a ≠ b) (s : MjpegInputStream) :
    (FindsMarker a b s ↔
      (∀ p, IsLeast {q | EndsAt a b (s.rest.take frameMaxLength) q} p →
        Odd (runAt a (s.rest.take frameMaxLength) p)) ∧
      ((∀ q, ¬EndsAt a b (s.rest.take frameMaxLength) q) → frameMaxLength ≤ s.rest.length)) ∧
    ((∀ q, ¬EndsAt a b (s.rest.take frameMaxLength) q) → s.rest.length < frameMaxLength →
      ((getEndOfSeqeunce [a, b]).run.run s).1 = .error .eofException) := by
  refine ⟨?_, fun hnone hlength => ?_⟩
  · rw [findsMarker_iff hab, first_endsAt_iff hab]
  · have hscan : scan [a, b] 0 (s.rest.take frameMaxLength) = none :=
      (first_scan hab _).eq_none_iff.mpr fun q hq => hnone q hq.endsAt
    rw [search_of_scan_none hscan, if_neg (Nat.not_le.mpr hlength)]

/-- The start of an image is found. -/
theorem getEndOfSeqeunce_start : FindsMarker 0xFF 0xD8 { rest := [0xFF, 0xD8, 0xFF, 0xDB] } := by
  have hfirst : IsLeast {q | EndsAt (0xFF : UInt8) 0xD8
      ([0xFF, 0xD8, 0xFF, 0xDB].take frameMaxLength) q} 2 := by
    refine ⟨⟨[], [0xFF, 0xDB], rfl, rfl⟩, ?_⟩
    rintro q ⟨pre, post, -, rfl⟩
    exact Nat.le_add_left 2 _
  refine (getEndOfSeqeunce_iff (by decide) _).1.mpr ⟨fun p hp => ?_, fun hnone => ?_⟩
  · obtain rfl := hp.unique hfirst
    decide
  · exact absurd hfirst.1 (hnone 2)

/-- **A fill byte** before the marker: it is found where it occurs again. -/
theorem getEndOfSeqeunce_fails : ¬∀ (a b : UInt8) (s : MjpegInputStream), a ≠ b →
    FindsMarker a b s := by
  intro hall
  obtain ⟨hleast, -⟩ := hall 0xFF 0xD8 { rest := [0xFF, 0xFF, 0xD8, 0xFF, 0xD8] } (by decide)
  have hfirst : IsLeast {q | EndsAt (0xFF : UInt8) 0xD8
      ([0xFF, 0xFF, 0xD8, 0xFF, 0xD8].take frameMaxLength) q} 3 := by
    refine ⟨⟨[0xFF], [0xFF, 0xD8], rfl, rfl⟩, ?_⟩
    rintro q ⟨pre, post, hxs, rfl⟩
    cases pre with
    | nil =>
      have hsecond : (0xFF : UInt8) = 0xD8 := Option.some.inj (congrArg (fun xs => xs[1]?) hxs)
      exact absurd hsecond (by decide)
    | cons c pre =>
      rw [List.length_cons]
      omega
  have hfive : ((getEndOfSeqeunce [0xFF, 0xD8]).run.run
      { rest := [0xFF, 0xFF, 0xD8, 0xFF, 0xD8] }).1 = .ok 5 := by decide
  exact absurd ((hleast 3 hfirst).symm.trans hfive) (by decide)

end LegoCar
