import Mathlib
import LegoCar.Camera.EndOfSequence

/-!
# A call of `readMjpegFrame`

What the steps of a call do to the stream, in the order of the source: the header is read when its
end is found (`readMjpegFrame_of_found`), the search for the end of the frame looks into the window
and then goes on from the mark (`searchContentLength_run`), and a frame of the length that was found
is read (`readFrame_run`, `of_readFrame`).
-/

namespace LegoCar

open MarkerSearch

namespace MjpegInputStream

section Run

variable {α β : Type} {x : JavaM α} {f : α → JavaM β} {a : α} {e : JavaException}
  {s s' : MjpegInputStream}

theorem run_bind_ok (h : x.run.run s = (.ok a, s')) :
    (x >>= f).run.run s = (f a).run.run s' := by
  rw [ExceptT.run_bind, StateT.run_bind, h]
  rfl

theorem run_bind_error (h : x.run.run s = (.error e, s')) :
    (x >>= f).run.run s = (.error e, s') := by
  rw [ExceptT.run_bind, StateT.run_bind, h]
  rfl

/-- A sequence that returns has returned from its first part. -/
theorem ok_of_bind {b : β} (h : (x >>= f).run.run s = (.ok b, s')) :
    ∃ a t, x.run.run s = (.ok a, t) ∧ (f a).run.run t = (.ok b, s') := by
  rcases hx : x.run.run s with ⟨a | a, t⟩
  · rw [run_bind_error hx] at h
    exact absurd (congrArg Prod.fst h) (by simp)
  · rw [run_bind_ok hx] at h
    exact ⟨a, t, rfl, h⟩

theorem state_of_run {r : Except JavaException α} (h : x.run.run s = (r, s')) :
    s' = (x.run.run s).2 := (congrArg Prod.snd h).symm

theorem result_of_run {r : Except JavaException α} (h : x.run.run s = (r, s')) :
    r = (x.run.run s).1 := (congrArg Prod.fst h).symm

end Run

variable {s s' : MjpegInputStream} {whole : List UInt8}

/-! ### The steps of a call -/

/-- The stream after `mark`. -/
def afterMark (s : MjpegInputStream) : MjpegInputStream :=
  { s with marked := some (s.rest, frameMaxLength) }

/-- The stream with another length of the body before. -/
def setContent (s : MjpegInputStream) (n : ℤ) : MjpegInputStream := { s with mContentLength := n }

/-- The stream with another array for the header. -/
def setHeader (s : MjpegInputStream) (bytes : List UInt8) (headerLenPrev : ℤ) : MjpegInputStream :=
  { s with header := some bytes, headerLenPrev := headerLenPrev }

/-- The stream with another array for frames and another count of them. -/
def setFrame (s : MjpegInputStream) (length count : ℤ) : MjpegInputStream :=
  { s with frameData := some length, count := count }

theorem reading_run {α : Type} (f : List UInt8 → Except JavaException α × List UInt8) :
    (reading f).run.run s = ((f s.rest).1, s.moveTo (f s.rest).2) := rfl

theorem reset_run {limit : ℕ} (hm : s.marked = some (whole, limit)) :
    reset.run.run s = if whole.length - s.rest.length ≤ limit then (.ok (), s.moveTo whole)
      else (.error .ioException, s) := by
  have hget : (get : JavaM MjpegInputStream).run.run s = (.ok s, s) := rfl
  rw [reset, run_bind_ok hget, moveTo]
  simp only [hm]
  split_ifs <;> rfl

/-- The way back to the mark from where the stream is. -/
theorem reset_moveTo {limit : ℕ} {bytes : List UInt8} (hm : s.marked = some (whole, limit))
    (hread : whole.length - bytes.length ≤ limit) :
    reset.run.run (s.moveTo bytes) = (.ok (), s.moveTo whole) :=
  (reset_run (s := s.moveTo bytes) hm).trans (if_pos hread)

/-- The array is as long as before, or longer. -/
theorem renewFrameData_run (hdata : ∀ length ∈ s.frameData, (frameMaxLength : ℤ) ≤ length) {n : ℕ}
    (hn : s.mContentLength = n) (hle : n ≤ frameMaxLength) : ∃ length : ℤ,
      renewFrameData.run.run s = (.ok length, s.setFrame length s.count) ∧
        n ≤ length ∧ frameMaxLength ≤ length := by
  have hmax : frameMaxLength = 200000 := rfl
  have hheader : headerMaxLength = 100 := rfl
  have hwanted : toInt (s.mContentLength + headerMaxLength) = n + headerMaxLength := by
    rw [hn]
    exact Int.bmod_eq_of_le_mul_two (by omega) (by omega)
  have hbefore : (frameMaxLength : ℤ) ≤ s.frameData.getD frameMaxLength := by
    cases hlength : s.frameData with
    | none => exact le_rfl
    | some length => exact hdata length hlength
  refine ⟨_, rfl, ?_⟩
  rw [hwanted]
  split_ifs <;> omega

theorem readFully_run {length : ℤ} {n : ℕ} (hle : n ≤ length) (hn : n ≤ s.rest.length) :
    (readFully length n).run.run s = (.ok (s.rest.take n), s.moveTo (s.rest.drop n)) := by
  have hbounds : ¬((n : ℤ) < 0 ∨ length < n) := by omega
  have hend : ¬((s.rest.length : ℤ) < n) := by omega
  rw [readFully, reading_run, if_neg hbounds, if_neg hend]
  rfl

theorem countFrame_run (hskip : s.skip = 1) :
    countFrame.run.run s = (.ok true, { s with count := toInt (s.count + 1) }) := by
  have hget : (get : JavaM MjpegInputStream).run.run s = (.ok s, s) := rfl
  have hset : (set { s with count := toInt (s.count + 1) } : JavaM Unit).run.run s =
      (.ok (), { s with count := toInt (s.count + 1) }) := rfl
  have hzero : ¬(1 : ℤ) = 0 := one_ne_zero
  rw [countFrame, run_bind_ok hget, run_bind_ok hset, hskip, if_neg hzero, Int.tmod_one]
  rfl

/-- **Reading a frame** of a length for which there are bytes. -/
theorem readFrame_run (hm : s.marked = some (whole, frameMaxLength))
    (hread : whole.length - s.rest.length ≤ frameMaxLength) (hskip : s.skip = 1)
    (hdata : ∀ length ∈ s.frameData, (frameMaxLength : ℤ) ≤ length) {hl n : ℕ}
    (hle : n ≤ frameMaxLength) (hlength : hl + n ≤ whole.length) : ∃ length : ℤ,
      (readFrame hl n).run.run s = (.ok (.decoded ((whole.drop hl).take n)),
        ((s.setContent n).moveTo (whole.drop (hl + n))).setFrame length (toInt (s.count + 1))) ∧
          frameMaxLength ≤ length := by
  have hmodify : (modify fun s => { s with mContentLength := n } : JavaM Unit).run.run s =
      (.ok (), s.setContent n) := rfl
  have hreset : reset.run.run (s.setContent n) = (.ok (), (s.setContent n).moveTo whole) :=
    (reset_run (s := s.setContent n) hm).trans (if_pos hread)
  obtain ⟨length, hrenew, hn, hmax⟩ := renewFrameData_run
    (s := (s.setContent n).moveTo whole) hdata rfl hle
  have hskipped : (skipBytes hl).run.run (((s.setContent n).moveTo whole).setFrame length s.count) =
      (.ok (), ((s.setContent n).moveTo (whole.drop hl)).setFrame length s.count) := rfl
  have hfull : (readFully length n).run.run
      (((s.setContent n).moveTo (whole.drop hl)).setFrame length s.count) =
        (.ok ((whole.drop hl).take n),
          ((s.setContent n).moveTo (whole.drop (hl + n))).setFrame length s.count) := by
    rw [← List.drop_drop]
    exact readFully_run hn (by show n ≤ (whole.drop hl).length; rw [List.length_drop]; omega)
  have hcount := countFrame_run
    (s := ((s.setContent n).moveTo (whole.drop (hl + n))).setFrame length s.count) hskip
  refine ⟨length, ?_, hmax⟩
  rw [readFrame, run_bind_ok hmodify, run_bind_ok hreset, run_bind_ok hrenew]
  exact (run_bind_ok hskipped).trans ((run_bind_ok hfull).trans (run_bind_ok hcount))

/-- Bytes that were read are the next ones. -/
theorem of_readFully {length n : ℤ} {bytes : List UInt8}
    (h : (readFully length n).run.run s = (.ok bytes, s')) :
    0 ≤ n ∧ n.toNat ≤ s.rest.length ∧ bytes = s.rest.take n.toNat ∧
      s'.rest = s.rest.drop n.toNat := by
  rw [readFully, reading_run] at h
  obtain ⟨hresult, hstate⟩ := Prod.mk.inj h
  split_ifs at hresult hstate with hbounds hend
  rw [← hstate]
  exact ⟨by omega, by omega, (Except.ok.inj hresult).symm, rfl⟩

theorem rest_of_countFrame {b : Bool} (h : countFrame.run.run s = (.ok b, s')) :
    s'.rest = s.rest := by
  obtain ⟨t, t', hget, h⟩ := ok_of_bind h
  obtain ⟨u, u', hset, h⟩ := ok_of_bind h
  have ht : t = s := Except.ok.inj (result_of_run hget)
  have hu : u' = { t with count := toInt (t.count + 1) } := state_of_run hset
  have hs' : s' = u' := by
    split_ifs at h
    · exact absurd (congrArg Prod.fst h) (by simp)
    · exact (congrArg Prod.snd h).symm
  rw [hs', hu, ht]

/-- A frame that was read has the length that was asked for. -/
theorem of_readFrame {limit : ℕ} {hl n : ℤ} {frame : List UInt8}
    (hm : s.marked = some (whole, limit))
    (h : (readFrame hl n).run.run s = (.ok (.decoded frame), s')) :
    0 ≤ n ∧ n.toNat ≤ (whole.drop hl.toNat).length ∧ frame = (whole.drop hl.toNat).take n.toNat ∧
      s'.rest = (whole.drop hl.toNat).drop n.toNat := by
  obtain ⟨_, t₁, hmodify, h⟩ := ok_of_bind h
  obtain ⟨_, t₂, hreset, h⟩ := ok_of_bind h
  obtain ⟨length, t₃, hrenew, h⟩ := ok_of_bind h
  obtain ⟨_, t₄, hskip, h⟩ := ok_of_bind h
  obtain ⟨bytes, t₅, hfull, h⟩ := ok_of_bind h
  obtain ⟨b, t₆, hcount, h⟩ := ok_of_bind h
  have hm₁ : t₁.marked = some (whole, limit) := by
    rw [state_of_run hmodify]
    exact hm
  have h₂ : t₂.rest = whole := by
    rw [reset_run hm₁] at hreset
    split_ifs at hreset
    · exact congrArg MjpegInputStream.rest (congrArg Prod.snd hreset).symm
    · exact absurd (congrArg Prod.fst hreset) (by simp)
  have h₃ : t₃.rest = whole := by
    rw [state_of_run hrenew]
    exact h₂
  have h₄ : t₄.rest = whole.drop hl.toNat := by
    rw [state_of_run hskip, ← h₃]
    rfl
  obtain ⟨hn, hle, hbytes, h₅⟩ := of_readFully hfull
  rw [h₄] at hle hbytes h₅
  have hlast : bytes = frame ∧ s' = t₆ := by
    cases b with
    | true =>
      obtain ⟨hframe, hs'⟩ := Prod.mk.inj h
      exact ⟨Frame.decoded.inj (Except.ok.inj hframe), hs'.symm⟩
    | false => exact absurd (Except.ok.inj (congrArg Prod.fst h)) (by simp)
  rw [hlast.2, rest_of_countFrame hcount, ← hlast.1]
  exact ⟨hn, hle, hbytes, h₅⟩

/-! ### The header -/

theorem catchIOException_ok {α : Type} {x : JavaM α} {a : α} (h : x.run.run s = (.ok a, s')) :
    (catchIOException x).run.run s = (.ok (some a), s') := by
  rw [catchIOException, ExceptT.run_mk, StateT.run]
  simp only [h]

theorem catchIOException_error {α : Type} {x : JavaM α}
    (h : x.run.run s = (.error .eofException, s')) :
    (catchIOException x).run.run s = (.ok none, s') := by
  rw [catchIOException, ExceptT.run_mk, StateT.run]
  simp only [h]
  rfl

/-- What the matcher finds lies within the text. -/
theorem bounds_of_scan {a b : UInt8} (hab : a ≠ b) {bytes : List UInt8} {n p : ℕ}
    (h : scan [a, b] 0 (bytes.take n) = some p) : 2 ≤ p ∧ p ≤ bytes.length ∧ p ≤ n := by
  obtain ⟨hseen, -⟩ := (first_scan hab _).eq_some_iff.mp h
  obtain ⟨hseen, hn⟩ := seenAt_take_iff.mp hseen
  obtain ⟨pre, post, rfl, rfl⟩ := hseen.endsAt
  refine ⟨Nat.le_add_left 2 _, ?_, hn⟩
  rw [List.length_append, List.length_cons, List.length_cons]
  omega

theorem getStartOfSequence_run {sequence : List UInt8} {start : ℕ}
    (hscan : scan sequence 0 (s.rest.take frameMaxLength) = some (start + sequence.length)) :
    (getStartOfSequence sequence).run.run s =
      (.ok (start : ℤ), s.moveTo (s.rest.drop (start + sequence.length))) := by
  have hsearch := getEndOfSeqeunce_run sequence s
  rw [hscan] at hsearch
  have hpos : ¬(0 + ((start + sequence.length : ℕ) : ℤ) < 0) := by omega
  have hstart : (0 + ((start + sequence.length : ℕ) : ℤ)) - sequence.length = start := by
    push_cast
    ring
  rw [getStartOfSequence, run_bind_ok hsearch, if_neg hpos, hstart]
  rfl

/-- A header is long enough, whether it is a new array or not. -/
theorem renewHeader_run (hl : ℕ)
    (hheader : ∀ bytes ∈ s.header, (bytes.length : ℤ) = s.headerLenPrev) :
    ∃ bytes : List UInt8, bytes.length = hl ∧
      (renewHeader hl).run.run s = (.ok (), s.setHeader bytes s.headerLenPrev) := by
  have hget : (get : JavaM MjpegInputStream).run.run s = (.ok s, s) := rfl
  have hnonneg : ¬((hl : ℤ) < 0) := by omega
  rw [renewHeader, run_bind_ok hget]
  by_cases hnew : s.header = none ∨ (hl : ℤ) ≠ s.headerLenPrev
  · refine ⟨List.replicate hl 0, List.length_replicate, ?_⟩
    rw [if_pos hnew, if_neg hnonneg, Int.toNat_natCast]
    rfl
  · obtain ⟨hsome, hprev⟩ := not_or.mp hnew
    obtain ⟨bytes, hbytes⟩ := Option.ne_none_iff_exists'.mp hsome
    have hlength := hheader bytes hbytes
    refine ⟨bytes, by omega, ?_⟩
    rw [if_neg hnew, setHeader, ← hbytes]
    rfl

theorem readHeader_run {bytes : List UInt8} {n : ℤ} (hlength : bytes.length ≤ s.rest.length) :
    readHeader.run.run (s.setHeader bytes n) = (.ok (s.rest.take bytes.length),
      (s.moveTo (s.rest.drop bytes.length)).setHeader (s.rest.take bytes.length) n) := by
  have hget : (get : JavaM MjpegInputStream).run.run (s.setHeader bytes n) =
      (.ok (s.setHeader bytes n), s.setHeader bytes n) := rfl
  have hfull := readFully_run (s := s.setHeader bytes n) (le_refl (bytes.length : ℤ)) hlength
  rw [readHeader, run_bind_ok hget]
  exact run_bind_ok hfull

/-- The stream behind a header. -/
def afterHeader (s : MjpegInputStream) (hl : ℕ) : MjpegInputStream :=
  (s.afterMark.moveTo (s.rest.drop hl)).setHeader (s.rest.take hl) hl

/-- **The header is read** when its end is found. -/
theorem readMjpegFrame_of_found {hl : ℕ}
    (hscan : scan soiMarker 0 (s.rest.take frameMaxLength) = some (hl + 2))
    (hheader : ∀ bytes ∈ s.header, (bytes.length : ℤ) = s.headerLenPrev) :
    readMjpegFrame.run.run s = (match parseContentLength (s.rest.take hl) with
      | .ok n => readFrame hl n
      | .error _ => searchContentLength >>= readFrame hl).run.run (s.afterHeader hl) := by
  obtain ⟨-, hlength, hmax⟩ := bounds_of_scan (by decide) hscan
  have hmark : (mark frameMaxLength).run.run s = (.ok (), s.afterMark) := rfl
  have hstart : (getStartOfSequence soiMarker).run.run s.afterMark =
      (.ok (hl : ℤ), s.afterMark.moveTo (s.rest.drop (hl + 2))) :=
    getStartOfSequence_run (s := s.afterMark) hscan
  have hread : s.rest.length - (s.rest.drop (hl + 2)).length ≤ frameMaxLength := by
    rw [List.length_drop]
    omega
  have hreset : reset.run.run (s.afterMark.moveTo (s.rest.drop (hl + 2))) = (.ok (), s.afterMark) :=
    reset_moveTo (s := s.afterMark) rfl hread
  obtain ⟨bytes, hbytes, hrenew⟩ := renewHeader_run (s := s.afterMark) hl hheader
  have hmodify : (modify fun s => { s with headerLenPrev := hl } : JavaM Unit).run.run
      (s.afterMark.setHeader bytes s.headerLenPrev) =
        (.ok (), s.afterMark.setHeader bytes hl) := rfl
  have hfull : readHeader.run.run (s.afterMark.setHeader bytes hl) =
      (.ok (s.rest.take hl), s.afterHeader hl) := by
    have hbytes' : bytes.length ≤ s.afterMark.rest.length := by
      show bytes.length ≤ s.rest.length
      omega
    have hread := readHeader_run (n := hl) hbytes'
    rw [hbytes] at hread
    exact hread
  rw [readMjpegFrame, run_bind_ok hmark, run_bind_ok (catchIOException_ok hstart)]
  dsimp only
  rw [run_bind_ok hreset, run_bind_ok hrenew]
  refine (run_bind_ok hmodify).trans ((run_bind_ok hfull).trans ?_)
  cases parseContentLength (s.rest.take hl) <;> rfl

/-- Without a start marker there is no frame. -/
theorem readMjpegFrame_of_notFound
    (hscan : scan soiMarker 0 (s.rest.take frameMaxLength) = none)
    (hheader : ∀ bytes ∈ s.header, (bytes.length : ℤ) = s.headerLenPrev) (frame : List UInt8) :
    (readMjpegFrame.run.run s).1 ≠ .ok (.decoded frame) := by
  have hmark : (mark frameMaxLength).run.run s = (.ok (), s.afterMark) := rfl
  have hsearch := getEndOfSeqeunce_run soiMarker s.afterMark
  have hscan' : scan soiMarker 0 (s.afterMark.rest.take frameMaxLength) = none := hscan
  rw [hscan', searched] at hsearch
  rw [readMjpegFrame, run_bind_ok hmark]
  by_cases hlength : frameMaxLength ≤ s.afterMark.rest.length
  · -- the new array for a header of length -1
    rw [if_pos hlength] at hsearch
    have hstart : (getStartOfSequence soiMarker).run.run s.afterMark =
        (.ok (-1), s.afterMark.moveTo (s.rest.drop frameMaxLength)) := by
      rw [getStartOfSequence, run_bind_ok hsearch]
      rfl
    have hread : s.rest.length - (s.rest.drop frameMaxLength).length ≤ frameMaxLength := by
      rw [List.length_drop]
      omega
    have hreset : reset.run.run (s.afterMark.moveTo (s.rest.drop frameMaxLength)) =
        (.ok (), s.afterMark) := reset_moveTo (s := s.afterMark) rfl hread
    have hnew : s.afterMark.header = none ∨ (-1 : ℤ) ≠ s.afterMark.headerLenPrev := by
      show s.header = none ∨ (-1 : ℤ) ≠ s.headerLenPrev
      cases hbytes : s.header with
      | none => exact .inl rfl
      | some bytes =>
        have hprev := hheader bytes hbytes
        exact .inr (by omega)
    have hget : (get : JavaM MjpegInputStream).run.run s.afterMark =
        (.ok s.afterMark, s.afterMark) := rfl
    have hrenew : (renewHeader (-1)).run.run s.afterMark =
        (.error .negativeArraySizeException, s.afterMark) := by
      rw [renewHeader, run_bind_ok hget, if_pos hnew]
      rfl
    rw [run_bind_ok (catchIOException_ok hstart)]
    dsimp only
    rw [run_bind_ok hreset, run_bind_error hrenew]
    simp
  · -- the end of the stream is caught
    rw [if_neg hlength] at hsearch
    have hstart : (getStartOfSequence soiMarker).run.run s.afterMark =
        (.error .eofException, s.afterMark.moveTo []) := by
      rw [getStartOfSequence, run_bind_error hsearch]
    have hread : s.rest.length - ([] : List UInt8).length ≤ frameMaxLength := by
      have hend : ¬frameMaxLength ≤ s.rest.length := hlength
      rw [List.length_nil]
      omega
    have hreset : reset.run.run (s.afterMark.moveTo []) = (.ok (), s.afterMark) :=
      reset_moveTo (s := s.afterMark) rfl hread
    rw [run_bind_ok (catchIOException_error hstart)]
    dsimp only
    rw [run_bind_ok hreset]
    exact fun h => absurd (Except.ok.inj h) (by simp)

/-! ### The length -/

/-- The length of the body before; zero stands for `-1`, before the first one. -/
def previous (n : ℕ) : ℤ := if n = 0 then -1 else n

/-- Where the window of the first search begins, behind the header. -/
def windowStart (n : ℕ) : ℕ := n / 2 - 1

/-- The search in the window reads from the middle of the length before, as many bytes as it. -/
theorem window_bounds {n : ℕ} (hone : n ≠ 1) (hle : n ≤ frameMaxLength) :
    (-1 + (previous n).tdiv 2).toNat = windowStart n ∧
      ((toInt (3 * previous n)).tdiv 2 - (previous n).tdiv 2).toNat = n ∧
      (n ≠ 0 → -1 + (previous n).tdiv 2 = windowStart n) := by
  by_cases hzero : n = 0
  · subst hzero
    decide
  · have hprevious : previous n = n := if_neg hzero
    have hmax : frameMaxLength = 200000 := rfl
    have hsmall : toInt (3 * (n : ℤ)) = 3 * n :=
      Int.bmod_eq_of_le_mul_two (by push_cast; omega) (by push_cast; omega)
    rw [hprevious, hsmall, Int.tdiv_eq_ediv_of_nonneg (by omega),
      Int.tdiv_eq_ediv_of_nonneg (by omega), windowStart]
    omega

/-- **The search in the window.** -/
theorem getEndOfSeqeunceSimplified_run (sequence : List UInt8) (hlen : s.headerLen = -1) {n : ℕ}
    (hn : s.mContentLength = previous n) (hone : n ≠ 1) (hle : n ≤ frameMaxLength) :
    (getEndOfSeqeunceSimplified sequence).run.run s =
      ((searched n (windowStart n) (s.rest.drop (windowStart n))
          (scan sequence 0 ((s.rest.drop (windowStart n)).take n))).1,
        s.moveTo (searched n (windowStart n) (s.rest.drop (windowStart n))
          (scan sequence 0 ((s.rest.drop (windowStart n)).take n))).2) := by
  obtain ⟨hskip, hbound, hbase⟩ := window_bounds hone hle
  have hget : (get : JavaM MjpegInputStream).run.run s = (.ok s, s) := rfl
  have hloop := searchLoop_eq sequence ((toInt (3 * previous n)).tdiv 2 - (previous n).tdiv 2)
    (-1 + (previous n).tdiv 2) 0 0 (s.rest.drop (windowStart n))
  rw [Nat.cast_zero, sub_zero, add_zero, hbound] at hloop
  have hsearched : searched n (-1 + (previous n).tdiv 2) (s.rest.drop (windowStart n))
      (scan sequence 0 ((s.rest.drop (windowStart n)).take n)) =
      searched n (windowStart n) (s.rest.drop (windowStart n))
      (scan sequence 0 ((s.rest.drop (windowStart n)).take n)) := by
    by_cases hzero : n = 0
    · rw [hzero, List.take_zero]
      rfl
    · rw [hbase hzero]
  rw [hsearched] at hloop
  rw [getEndOfSeqeunceSimplified, run_bind_ok hget]
  dsimp only
  rw [hn, hlen, skipBytes, run_bind_ok (reading_run _), reading_run]
  dsimp only
  rw [hskip]
  rw [rest_moveTo, hloop, moveTo_moveTo]

/-- **The search for the end**: the one in the window, or the full one from the mark on. -/
theorem searchContentLength_run (hlen : s.headerLen = -1) {n : ℕ}
    (hn : s.mContentLength = previous n) (hone : n ≠ 1) (hle : n ≤ frameMaxLength)
    (hm : s.marked = some (whole, frameMaxLength)) : searchContentLength.run.run s =
      match scan eofMarker 0 ((s.rest.drop (windowStart n)).take n) with
      | some p => (.ok ((windowStart n : ℤ) + p), s.moveTo ((s.rest.drop (windowStart n)).drop p))
      | none =>
        if n ≤ (s.rest.drop (windowStart n)).length then
          if whole.length - ((s.rest.drop (windowStart n)).drop n).length ≤ frameMaxLength then
            (getEndOfSeqeunce eofMarker).run.run (s.moveTo whole)
          else (.error .ioException, s.moveTo ((s.rest.drop (windowStart n)).drop n))
        else (.error .eofException, s.moveTo []) := by
  have hwindow := getEndOfSeqeunceSimplified_run eofMarker hlen hn hone hle
  rw [searchContentLength]
  cases hscan : scan eofMarker 0 ((s.rest.drop (windowStart n)).take n) with
  | some p =>
    have hpos : ¬((windowStart n : ℤ) + p < 0) := by omega
    rw [hscan, searched] at hwindow
    rw [run_bind_ok hwindow, if_neg hpos]
    rfl
  | none =>
    rw [hscan, searched] at hwindow
    dsimp only
    split_ifs with hlength hread
    · rw [if_pos hlength] at hwindow
      rw [run_bind_ok hwindow, if_pos (by decide), run_bind_ok (reset_moveTo hm hread)]
    · have hreset : reset.run.run (s.moveTo ((s.rest.drop (windowStart n)).drop n)) =
          (.error .ioException, s.moveTo ((s.rest.drop (windowStart n)).drop n)) :=
        (reset_run (s := s.moveTo ((s.rest.drop (windowStart n)).drop n)) hm).trans (if_neg hread)
      rw [if_pos hlength] at hwindow
      rw [run_bind_ok hwindow, if_pos (by decide), run_bind_error hreset]
    · rw [if_neg hlength] at hwindow
      rw [run_bind_error hwindow]

/-- A length that is found is found in the window or from the mark on. -/
theorem of_searchContentLength (hlen : s.headerLen = -1) {n : ℕ}
    (hn : s.mContentLength = previous n) (hone : n ≠ 1) (hle : n ≤ frameMaxLength)
    (hm : s.marked = some (whole, frameMaxLength)) {m : ℤ}
    (h : searchContentLength.run.run s = (.ok m, s')) : s'.marked = s.marked ∧
      ((∃ p : ℕ, scan eofMarker 0 ((s.rest.drop (windowStart n)).take n) = some p ∧
          m = (windowStart n : ℤ) + p) ∨
        scan eofMarker 0 ((s.rest.drop (windowStart n)).take n) = none ∧
          n ≤ (s.rest.drop (windowStart n)).length ∧
          whole.length - ((s.rest.drop (windowStart n)).drop n).length ≤ frameMaxLength ∧
          ((getEndOfSeqeunce eofMarker).run.run (s.moveTo whole)).1 = .ok m) := by
  rw [searchContentLength_run hlen hn hone hle hm] at h
  cases hscan : scan eofMarker 0 ((s.rest.drop (windowStart n)).take n) with
  | some p =>
    rw [hscan] at h
    obtain ⟨hm', rfl⟩ := Prod.mk.inj h
    exact ⟨rfl, .inl ⟨p, rfl, (Except.ok.inj hm').symm⟩⟩
  | none =>
    rw [hscan] at h
    dsimp only at h
    split_ifs at h with hlength hread
    · refine ⟨?_, .inr ⟨rfl, hlength, hread, congrArg Prod.fst h⟩⟩
      rw [state_of_run h, getEndOfSeqeunce_run]
      rfl
    · exact absurd (congrArg Prod.fst h) (by simp)
    · exact absurd (congrArg Prod.fst h) (by simp)

end MjpegInputStream

end LegoCar
