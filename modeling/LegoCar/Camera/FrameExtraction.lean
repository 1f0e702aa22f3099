import Mathlib
import LegoCar.Camera.ReadMjpegFrame

/-!
# The frames that are extracted

A part of the stream is a header and a body, from a start marker to the first end marker. Without
an entry for the length, a call of `readMjpegFrame` searches for the end of the body in a window
around the length of the body before. When there is nothing, it searches again from the mark on,
which is before the header, but takes the position for the length all the same.

`found_of_call` and `exists_call_of_found` say when a call extracts the body: its start must be
found, and its end in the window, or else the position that the full search finds must happen to be
the length (`Part.Found`). With an entry, only the start must be found
(`exists_call_of_entry`). Since a call that succeeds leaves the stream ready for the next one,
`readMjpegFrame_iff` says so for whole streams. Before the first body there is no length, so it is
not extracted when there is a header (`Part.not_found_first`).
-/

namespace LegoCar

open MarkerSearch

namespace MjpegInputStream

variable {s s' : MjpegInputStream}

/-! ### The parts -/

/-- A part of the stream: a header without a start marker and without an entry for the length, and
a body from a start marker to the first end marker. -/
structure Part where
  header : List UInt8
  body : List UInt8
  starts : soiMarker <+: body
  ends : IsLeast {q | EndsAt 0xFF 0xD9 body q} body.length
  noStart : ∀ q, ¬EndsAt 0xFF 0xD8 header q
  noEntry : ∀ entries, Properties.load header = some entries →
    Properties.getProperty entries contentLength = none
  short : header.length + body.length < frameMaxLength

namespace Part

variable (part : Part) (n : ℕ) (later : List UInt8)

/-- The bytes of a part. -/
def bytes : List UInt8 := part.header ++ part.body

/-- The search in the window finds the end: the window reaches it, and has an odd number of `FF`
before the last byte. -/
def EndsInWindow : Prop :=
  part.body.length ≤ windowStart n + n ∧
    Odd (runAt 0xFF (part.body.drop (windowStart n)) (part.body.length - windowStart n))

/-- The search in the window finds nothing, with enough bytes in the stream and after the mark, and
the full search, which begins with the header, finds a marker where it ends as many bytes behind
the mark as the body has. -/
def EndsFromMark : Prop :=
  (∀ q, ¬SeenAt 0xFF 0xD9 (((part.body ++ later).drop (windowStart n)).take n) q) ∧
    windowStart n + n ≤ (part.body ++ later).length ∧
    part.header.length + (windowStart n + n) ≤ frameMaxLength ∧
    IsLeast {q | SeenAt 0xFF 0xD9 (part.bytes ++ later) q} part.body.length

/-- The length of the body is found, after one of another length and before some bytes. -/
def Found : Prop :=
  Even (run 0xFF part.header) ∧ (part.EndsInWindow n ∨ part.EndsFromMark n later)

/-- There is no length in the header. -/
theorem parse_error : ∃ e, parseContentLength part.header = .error e := by
  rw [parseContentLength]
  cases hload : Properties.load part.header with
  | none => exact ⟨_, rfl⟩
  | some entries =>
    simp only [part.noEntry entries hload, Option.bind_none]
    exact ⟨_, rfl⟩

/-- The body begins with a marker. -/
theorem exists_body : ∃ rest, part.body = 0xFF :: 0xD8 :: rest := by
  obtain ⟨rest, hrest⟩ := part.starts
  exact ⟨rest, hrest.symm⟩

/-- The body has two markers. -/
theorem four_le_length : 4 ≤ part.body.length := by
  obtain ⟨rest, hbody⟩ := part.exists_body
  obtain ⟨htwo, hfirst, hsecond⟩ := endsAt_iff_getElem.mp part.ends.1
  by_contra hshort
  have hlength : part.body.length = 2 ∨ part.body.length = 3 := by omega
  rcases hlength with hlength | hlength
  · rw [hlength, hbody] at hsecond
    exact absurd hsecond (by simp)
  · rw [hlength, hbody] at hfirst
    exact absurd hfirst (by simp)

/-- The first start marker is that of the body. -/
theorem first_start : IsLeast {q | EndsAt 0xFF 0xD8 (part.bytes ++ later) q}
    (part.header.length + 2) := by
  obtain ⟨rest, hbody⟩ := part.exists_body
  have hbytes : part.bytes ++ later = part.header ++ 0xFF :: 0xD8 :: (rest ++ later) := by
    rw [bytes, hbody]
    simp
  rw [hbytes]
  refine ⟨⟨part.header, rest ++ later, rfl, rfl⟩, fun q hq => ?_⟩
  by_contra hlt
  by_cases hheader : q ≤ part.header.length
  · exact part.noStart q ((endsAt_append_iff hheader).mp hq)
  · -- it would end at the first byte of the body
    have hq' : q - 1 = part.header.length := by omega
    obtain ⟨-, -, hlast⟩ := endsAt_iff_getElem.mp hq
    rw [hq', List.getElem?_append_right le_rfl, Nat.sub_self] at hlast
    exact absurd hlast (by simp)

/-- The start of the body is found when there is no or an even number of `FF` before it. -/
theorem scan_start_iff :
    scan soiMarker 0 ((part.bytes ++ later).take frameMaxLength) = some (part.header.length + 2) ↔
      Even (run 0xFF part.header) := by
  have hfour := part.four_le_length
  have hshort := part.short
  obtain ⟨rest, hbody⟩ := part.exists_body
  have hbefore : (part.bytes ++ later).take (part.header.length + 2 - 1) =
      part.header ++ [0xFF] := by
    have hsplit : part.bytes ++ later = (part.header ++ [0xFF]) ++ 0xD8 :: (rest ++ later) := by
      rw [bytes, hbody]
      simp
    rw [hsplit]
    exact List.take_left' (by simp)
  rw [soiMarker, (first_scan (by decide) _).eq_some_iff, isLeast_seenAt_take_iff,
    isLeast_seenAt_iff (part.first_start later), runAt, hbefore, run_concat_self,
    Nat.odd_add_one, Nat.not_odd_iff_even, and_iff_left (by omega)]

/-- The first end marker of the body and what follows it, from a place within the body on. -/
theorem first_end {k : ℕ} (hk : k + 2 ≤ part.body.length) :
    IsLeast {q | EndsAt 0xFF 0xD9 ((part.body ++ later).drop k) q} (part.body.length - k) := by
  constructor
  · obtain ⟨-, hfirst, hsecond⟩ := endsAt_iff_getElem.mp part.ends.1
    refine endsAt_iff_getElem.mpr ⟨by omega, ?_, ?_⟩
    · rw [List.getElem?_drop, List.getElem?_append_left (by omega), ← hfirst]
      congr 1
      omega
    · rw [List.getElem?_drop, List.getElem?_append_left (by omega), ← hsecond]
      congr 1
      omega
  · intro q hq
    have hwhole := EndsAt.of_drop hq
    by_contra hlt
    have hbody := (endsAt_append_iff (by omega)).mp hwhole
    have hle := part.ends.2 hbody
    omega

/-- The search in the window finds the end of the body. -/
theorem scan_window_iff {p : ℕ} (hp : windowStart n + p = part.body.length) :
    scan eofMarker 0 (((part.body ++ later).drop (windowStart n)).take n) = some p ↔
      part.EndsInWindow n := by
  have hp' : part.body.length - windowStart n = p := by omega
  have hrun : runAt 0xFF ((part.body ++ later).drop (windowStart n)) p =
      runAt 0xFF (part.body.drop (windowStart n)) p := by
    rw [runAt, List.drop_append_of_le_length (by omega),
      List.take_append_of_le_length (by rw [List.length_drop]; omega), runAt]
  rw [eofMarker, (first_scan (by decide) _).eq_some_iff, isLeast_seenAt_take_iff, EndsInWindow, hp',
    ← hrun, and_comm]
  refine and_congr (by omega) ?_
  by_cases htwo : 2 ≤ p
  · have hfirst := part.first_end later (k := windowStart n) (by omega)
    rw [hp'] at hfirst
    exact isLeast_seenAt_iff hfirst
  · -- there is no room for a marker
    constructor
    · intro hseen
      have hends := endsAt_iff_getElem.mp hseen.1.endsAt
      exact absurd hends.1 htwo
    · intro hodd
      have hzero : p - 1 = 0 := by omega
      rw [runAt, hzero, List.take_zero, run_nil] at hodd
      exact absurd hodd (by decide)

/-- A window in which the body ends begins in the body. -/
theorem windowStart_le (h : part.EndsInWindow n) : windowStart n ≤ part.body.length := by
  by_contra hlt
  have hodd := h.2
  rw [List.drop_eq_nil_of_le (by omega), runAt, List.take_nil, run_nil] at hodd
  exact absurd hodd (by decide)

end Part

/-- The stream between two calls, after a body of length `n`, or before the first one. -/
structure Ready (s : MjpegInputStream) (n : ℕ) : Prop where
  content : s.mContentLength = previous n
  field : s.headerLen = -1
  skip : s.skip = 1
  frameData : ∀ length ∈ s.frameData, (frameMaxLength : ℤ) ≤ length
  header : ∀ bytes ∈ s.header, (bytes.length : ℤ) = s.headerLenPrev
  ne_one : n ≠ 1
  le_max : n ≤ frameMaxLength

/-- The stream is ready when it is opened. -/
theorem ready_init (bytes : List UInt8) : Ready { rest := bytes } 0 where
  content := rfl
  field := rfl
  skip := rfl
  frameData := fun _ h => absurd h (by simp)
  header := fun _ h => absurd h (by simp)
  ne_one := Nat.zero_ne_one
  le_max := Nat.zero_le _

/-! ### A call -/

section Call

variable {part : Part} {n : ℕ} {later : List UInt8}

/-- **A frame is read** when its length is found, and the stream is ready for the next one. -/
theorem readFrame_ready {header body : List UInt8} (hs : Ready s n)
    (hrest : s.rest = header ++ body ++ later) (hone : 2 ≤ body.length)
    (hmax : body.length ≤ frameMaxLength) {rest : List UInt8}
    (hread : s.rest.length - rest.length ≤ frameMaxLength) : ∃ s',
      (readFrame header.length body.length).run.run
        ((s.afterHeader header.length).moveTo rest) = (.ok (.decoded body), s') ∧
          s'.rest = later ∧ Ready s' body.length := by
  have hlength : header.length + body.length ≤ s.rest.length := by
    rw [hrest, List.length_append, List.length_append]
    omega
  have hbody : s.rest.drop header.length = body ++ later := by
    rw [hrest, List.append_assoc, List.drop_left]
  have hheader : s.rest.take header.length = header := by
    rw [hrest, List.append_assoc, List.take_left]
  have hlater : s.rest.drop (header.length + body.length) = later := by
    rw [← List.drop_drop, hbody, List.drop_left]
  obtain ⟨length, hframe, hdata⟩ := readFrame_run
    (s := (s.afterHeader header.length).moveTo rest) rfl hread hs.skip hs.frameData hmax hlength
  rw [hbody, List.take_left, hlater] at hframe
  refine ⟨_, hframe, rfl, ?_⟩
  exact
    { content := (if_neg (by omega)).symm
      field := hs.field
      skip := hs.skip
      frameData := fun l hl => Option.some.inj hl ▸ hdata
      header := fun bytes hbytes => by
        rw [← Option.some.inj hbytes, hheader]
        rfl
      ne_one := by omega
      le_max := hmax }

/-- **A body with an entry** for its length is extracted when its start is found. -/
theorem exists_call_of_entry {header body : List UInt8} (hs : Ready s n)
    (hrest : s.rest = header ++ body ++ later)
    (hscan : scan soiMarker 0 (s.rest.take frameMaxLength) = some (header.length + 2))
    (hentry : parseContentLength header = .ok body.length) (hone : 2 ≤ body.length)
    (hmax : body.length ≤ frameMaxLength) : ∃ s',
      readMjpegFrame.run.run s = (.ok (.decoded body), s') ∧ s'.rest = later ∧
        Ready s' body.length := by
  have hheader : s.rest.take header.length = header := by
    rw [hrest, List.append_assoc, List.take_left]
  have hread : s.rest.length - (s.rest.drop header.length).length ≤ frameMaxLength := by
    obtain ⟨-, -, hle⟩ := bounds_of_scan (by decide) hscan
    rw [List.length_drop]
    omega
  obtain ⟨s', hframe, hlater, hready⟩ := readFrame_ready hs hrest hone hmax hread
  have hrun := readMjpegFrame_of_found hscan hs.header
  rw [hheader, hentry] at hrun
  exact ⟨s', hrun.trans hframe, hlater, hready⟩

/-- **A part that is found** is extracted. -/
theorem exists_call_of_found (hs : Ready s n) (hrest : s.rest = part.bytes ++ later)
    (hfound : part.Found n later) : ∃ s', readMjpegFrame.run.run s =
      (.ok (.decoded part.body), s') ∧ s'.rest = later ∧ Ready s' part.body.length := by
  have hfour := part.four_le_length
  have hshort := part.short
  have hlength : s.rest.length = part.header.length + part.body.length + later.length := by
    rw [hrest, Part.bytes, List.length_append, List.length_append]
  have hscan : scan soiMarker 0 (s.rest.take frameMaxLength) = some (part.header.length + 2) := by
    rw [hrest]
    exact (part.scan_start_iff later).mpr hfound.1
  have hheader : s.rest.take part.header.length = part.header := by
    rw [hrest, Part.bytes, List.append_assoc, List.take_left]
  have hbody : (s.afterHeader part.header.length).rest = part.body ++ later := by
    show s.rest.drop part.header.length = _
    rw [hrest, Part.bytes, List.append_assoc, List.drop_left]
  obtain ⟨e, he⟩ := part.parse_error
  have hrun := readMjpegFrame_of_found hscan hs.header
  rw [hheader, he] at hrun
  -- it is enough that the search returns the length of the body
  have hfinish : ∀ rest : List UInt8, searchContentLength.run.run
      (s.afterHeader part.header.length) = (.ok (part.body.length : ℤ),
        (s.afterHeader part.header.length).moveTo rest) →
      s.rest.length - rest.length ≤ frameMaxLength → ∃ s', readMjpegFrame.run.run s =
        (.ok (.decoded part.body), s') ∧ s'.rest = later ∧ Ready s' part.body.length := by
    intro rest hsearch hread
    obtain ⟨s', hframe, hlater, hready⟩ :=
      readFrame_ready hs hrest (by omega) (by omega) hread
    exact ⟨s', hrun.trans ((run_bind_ok hsearch).trans hframe), hlater, hready⟩
  have hsearch := searchContentLength_run (s := s.afterHeader part.header.length) hs.field
    hs.content hs.ne_one hs.le_max rfl
  rw [hbody] at hsearch
  obtain hwindow | ⟨hnone, hstream, hlimit, hmark⟩ := hfound.2
  · have hp : windowStart n + (part.body.length - windowStart n) = part.body.length :=
      Nat.add_sub_cancel' (part.windowStart_le n hwindow)
    rw [(part.scan_window_iff n later hp).mpr hwindow] at hsearch
    dsimp only at hsearch
    rw [← Nat.cast_add, hp, List.drop_drop, hp, List.drop_left] at hsearch
    exact hfinish later hsearch (by omega)
  · have hscan' : scan eofMarker 0 (((part.body ++ later).drop (windowStart n)).take n) = none :=
      (first_scan (by decide) _).eq_none_iff.mpr hnone
    have hfull : scan eofMarker 0 (s.rest.take frameMaxLength) = some part.body.length := by
      refine (first_scan (by decide) _).eq_some_iff.mpr (isLeast_seenAt_take_iff.mpr ⟨?_, by omega⟩)
      rw [hrest]
      exact hmark
    have hsecond := getEndOfSeqeunce_run eofMarker
      ((s.afterHeader part.header.length).moveTo s.rest)
    rw [rest_moveTo, hfull, searched, moveTo_moveTo, zero_add] at hsecond
    have hstream' : n ≤ ((part.body ++ later).drop (windowStart n)).length := by
      rw [List.length_drop]
      omega
    have hlimit' : s.rest.length - (((part.body ++ later).drop (windowStart n)).drop n).length ≤
        frameMaxLength := by
      rw [List.drop_drop, List.length_drop, hlength, List.length_append]
      omega
    rw [hscan'] at hsearch
    dsimp only at hsearch
    rw [if_pos hstream', if_pos hlimit'] at hsearch
    refine hfinish _ (hsearch.trans hsecond) ?_
    rw [List.length_drop]
    omega

/-- The frame that is extracted determines where it begins and how long it is. -/
theorem eq_of_frame {hl m : ℕ} (hrest : s.rest = part.bytes ++ later)
    (hle : m ≤ (s.rest.drop hl).length) (hframe : part.body = (s.rest.drop hl).take m)
    (hlater : later = (s.rest.drop hl).drop m) :
    hl = part.header.length ∧ m = part.body.length := by
  have hfour := part.four_le_length
  have hlength : s.rest.length = part.header.length + part.body.length + later.length := by
    rw [hrest, Part.bytes, List.length_append, List.length_append]
  have hbody := congrArg List.length hframe
  have hbehind := congrArg List.length hlater
  rw [List.length_take, Nat.min_eq_left hle] at hbody
  rw [List.length_drop, List.length_drop] at hbehind
  rw [List.length_drop] at hle
  omega

/-- What a call extracts, if it is the part, was found. -/
theorem found_of_call (hs : Ready s n) (hrest : s.rest = part.bytes ++ later)
    (h : readMjpegFrame.run.run s = (.ok (.decoded part.body), s')) (hlater : s'.rest = later) :
    part.Found n later := by
  have hshort := part.short
  have hlength : s.rest.length = part.header.length + part.body.length + later.length := by
    rw [hrest, Part.bytes, List.length_append, List.length_append]
  obtain ⟨hl, hscan⟩ : ∃ hl, scan soiMarker 0 (s.rest.take frameMaxLength) = some (hl + 2) := by
    cases hscan : scan soiMarker 0 (s.rest.take frameMaxLength) with
    | none => exact absurd (congrArg Prod.fst h) (readMjpegFrame_of_notFound hscan hs.header _)
    | some p =>
      obtain ⟨htwo, -, -⟩ := bounds_of_scan (by decide) hscan
      exact ⟨p - 2, by rw [Nat.sub_add_cancel htwo]⟩
  have hrun := (readMjpegFrame_of_found hscan hs.header).symm.trans h
  have hmarked : (s.afterHeader hl).marked = some (s.rest, frameMaxLength) := rfl
  -- the header is that of the part, so its length is searched for
  cases hparse : parseContentLength (s.rest.take hl) with
  | ok m =>
    rw [hparse] at hrun
    obtain ⟨hm, hle, hframe, hrest'⟩ := of_readFrame hmarked hrun
    obtain ⟨rfl, -⟩ := eq_of_frame hrest hle hframe (hlater.symm.trans hrest')
    have hheader : s.rest.take part.header.length = part.header := by
      rw [hrest, Part.bytes, List.append_assoc, List.take_left]
    obtain ⟨e, he⟩ := part.parse_error
    rw [hheader, he] at hparse
    exact absurd hparse (by simp)
  | error e =>
    rw [hparse] at hrun
    obtain ⟨m, t, hsearch, hread⟩ := ok_of_bind hrun
    obtain ⟨hmark, hcases⟩ := of_searchContentLength (s := s.afterHeader hl) hs.field hs.content
      hs.ne_one hs.le_max hmarked hsearch
    obtain ⟨hm, hle, hframe, hrest'⟩ := of_readFrame (hmark.trans hmarked) hread
    obtain ⟨rfl, hm'⟩ := eq_of_frame hrest hle hframe (hlater.symm.trans hrest')
    have hbody : (s.afterHeader part.header.length).rest = part.body ++ later := by
      show s.rest.drop part.header.length = _
      rw [hrest, Part.bytes, List.append_assoc, List.drop_left]
    have heven : Even (run 0xFF part.header) := by
      rw [hrest] at hscan
      exact (part.scan_start_iff later).mp hscan
    rw [hbody] at hcases
    refine ⟨heven, ?_⟩
    rcases hcases with ⟨p, hwindow, hp⟩ | ⟨hnone, hstream, hlimit, hfull⟩
    · exact .inl ((part.scan_window_iff n later (by omega)).mp hwindow)
    · have hnone' := (first_scan (by decide) _).eq_none_iff.mp hnone
      have hmark' : IsLeast {q | SeenAt 0xFF 0xD9 (part.bytes ++ later) q} part.body.length := by
        have hcast : m = (part.body.length : ℤ) := by omega
        rw [hcast] at hfull
        have hscan' := scan_of_search hfull
        rw [rest_moveTo, hrest] at hscan'
        exact (isLeast_seenAt_take_iff.mp ((first_scan (by decide) _).eq_some_iff.mp hscan')).1
      have hstart : windowStart n = n / 2 - 1 := rfl
      rw [List.length_drop] at hstream
      rw [List.drop_drop, List.length_drop] at hlimit
      have htotal : (part.body ++ later).length = part.body.length + later.length :=
        List.length_append
      exact .inr ⟨hnone', by omega, by omega, hmark'⟩

end Call

/-! ### The whole stream -/

/-- The bytes of a stream of parts. -/
def streamOf (parts : List Part) : List UInt8 := parts.flatMap Part.bytes

/-- Successive calls hand the bodies to the decoder, and each leaves the stream behind its body,
before the other parts and what follows them. -/
def Extracts (more : List UInt8) : List Part → MjpegInputStream → Prop
  | [], _ => True
  | part :: parts, s => ∃ s', readMjpegFrame.run.run s = (.ok (.decoded part.body), s') ∧
      s'.rest = streamOf parts ++ more ∧ Extracts more parts s'

/-- Every part is found, after the length of the body before it. -/
def AllFound (more : List UInt8) : ℕ → List Part → Prop
  | _, [] => True
  | n, part :: parts =>
    part.Found n (streamOf parts ++ more) ∧ AllFound more part.body.length parts

/-- From a stream that is ready on, by induction on the parts. -/
theorem extracts_iff_allFound {more : List UInt8} {parts : List Part} {n : ℕ} (hs : Ready s n)
    (hrest : s.rest = streamOf parts ++ more) : Extracts more parts s ↔ AllFound more n parts := by
  induction parts generalizing s n with
  | nil => exact Iff.rfl
  | cons part parts ih =>
    have hrest' : s.rest = part.bytes ++ (streamOf parts ++ more) := by
      rw [hrest, streamOf, List.flatMap_cons, List.append_assoc, streamOf]
    constructor
    · rintro ⟨s', hcall, hlater, hparts⟩
      have hfound := found_of_call hs hrest' hcall hlater
      obtain ⟨t, hcall', hlater', hready⟩ := exists_call_of_found hs hrest' hfound
      obtain rfl : s' = t := (state_of_run hcall).trans (state_of_run hcall').symm
      exact ⟨hfound, (ih hready hlater).mp hparts⟩
    · rintro ⟨hfound, hall⟩
      obtain ⟨t, hcall, hlater, hready⟩ := exists_call_of_found hs hrest' hfound
      exact ⟨t, hcall, hlater, (ih hready hlater).mpr hall⟩

/-! ### Headers without an end marker -/

/-- The full search counts from the mark, which is the length of the body when the header is
empty. -/
theorem Part.header_eq_nil {part : Part} {n : ℕ} {later : List UInt8}
    (hplain : ∀ q, ¬EndsAt 0xFF 0xD9 part.header q) (h : part.EndsFromMark n later) :
    part.header = [] := by
  obtain ⟨-, -, -, hseen, -⟩ := h
  obtain ⟨rest, hbody⟩ := part.exists_body
  have hends : EndsAt 0xFF 0xD9 (part.header ++ (part.body ++ later)) part.body.length := by
    rw [← List.append_assoc]
    exact hseen.endsAt
  by_contra hne
  have hpos := List.length_pos_iff.mpr hne
  obtain ⟨htwo, hfirst, hlast⟩ := endsAt_iff_getElem.mp hends
  by_cases hheader : part.body.length ≤ part.header.length
  · exact hplain _ ((endsAt_append_iff hheader).mp hends)
  · by_cases hnext : part.body.length = part.header.length + 1
    · -- it would end at the first byte of the body
      rw [hnext, Nat.add_sub_cancel, List.getElem?_append_right le_rfl, Nat.sub_self,
        hbody] at hlast
      exact absurd hlast (by simp)
    · -- it would end in the body, before its end
      have hinside : EndsAt 0xFF 0xD9 part.body (part.body.length - part.header.length) := by
        have hdrop : EndsAt 0xFF 0xD9 (part.body ++ later)
            (part.body.length - part.header.length) := by
          refine endsAt_iff_getElem.mpr ⟨by omega, ?_, ?_⟩
          · rw [List.getElem?_append_right (by omega)] at hfirst
            rw [← hfirst]
            congr 1
            omega
          · rw [List.getElem?_append_right (by omega)] at hlast
            rw [← hlast]
            congr 1
            omega
        exact (endsAt_append_iff (Nat.sub_le _ _)).mp hdrop
      have hle := part.ends.2 hinside
      omega

/-- **The first body** is not extracted when its header has a byte and no end marker: the window is
empty before the first body. -/
theorem Part.not_found_first {part : Part} {later : List UInt8} (hne : part.header ≠ [])
    (hplain : ∀ q, ¬EndsAt 0xFF 0xD9 part.header q) : ¬part.Found 0 later := by
  rintro ⟨-, hwindow | hmark⟩
  · have hfour := part.four_le_length
    have hle : part.body.length ≤ windowStart 0 + 0 := hwindow.1
    have hstart : windowStart 0 = 0 := rfl
    omega
  · exact hne (Part.header_eq_nil hplain hmark)

end MjpegInputStream

open MjpegInputStream

/-- **The extraction of the frames**: for every stream that begins with some parts, the calls
extract the bodies exactly when every part is found. -/
theorem readMjpegFrame_iff (parts : List Part) (more : List UInt8) :
    Extracts more parts { rest := streamOf parts ++ more } ↔ AllFound more 0 parts :=
  extracts_iff_allFound (ready_init _) rfl

/-- A part with a header of one line. -/
def samplePart : Part where
  header := [0x0A]
  body := [0xFF, 0xD8, 0xFF, 0xD9]
  starts := ⟨[0xFF, 0xD9], rfl⟩
  ends := by
    refine ⟨⟨[0xFF, 0xD8], [], rfl, rfl⟩, fun q hq => ?_⟩
    obtain ⟨htwo, hfirst, hlast⟩ := endsAt_iff_getElem.mp hq
    by_contra hlt
    have hcases : q = 2 ∨ q = 3 := by
      have hlength : ([0xFF, 0xD8, 0xFF, 0xD9] : List UInt8).length = 4 := rfl
      omega
    rcases hcases with rfl | rfl
    · exact absurd hlast (by decide)
    · exact absurd hfirst (by decide)
  noStart := fun _ => not_endsAt_of_length (by decide)
  noEntry := by
    intro entries h
    have hload : Properties.load [0x0A] = some [] := by decide
    obtain rfl := Option.some.inj (hload.symm.trans h)
    rfl
  short := by decide

/-- **The first frame**: its end is found as many bytes too late as the header has. -/
theorem readMjpegFrame_fails : ¬∀ parts : List Part,
    Extracts [] parts { rest := streamOf parts ++ [] } := by
  intro hall
  have hfound := ((extracts_iff_allFound (ready_init _) rfl).mp (hall [samplePart])).1
  exact Part.not_found_first (List.cons_ne_nil _ _)
    (fun _ => not_endsAt_of_length (by decide)) hfound

end LegoCar
