import Mathlib

/-!
# Playing the video

The activity of the app opens the stream of the camera in the background, and hands it to the view,
which starts a thread that reads the frames and draws them. When the activity is paused, or the
surface is destroyed, the view stops the thread, waits for its end and closes the stream; a paused
activity opens another stream when it is resumed.

A step is a callback on the main thread, or a step of a reader. `stopPlayback` takes two steps, as
the main thread waits in between. `Sound` is the invariant: of the streams that are being opened,
the playback, and a pause there is at most one at a time. So in any order of the callbacks at most
one reader is alive, and it reads an open stream (`safe`); when there is no playback, none is alive
and every stream is closed (`released`); and a stream that arrives is always played (`played`). But
an activity that does nothing of the three never does again (`never_again`).

A frame with missing data keeps the decoder in its loop over the rows, so `readMjpegFrame` may never
return. The main thread waits for ever exactly when it waits for such a call (`waits`).

Streams and readers are numbered. The overlay with the frames per second and the modes of display
are left out, and so is the restart of the activity with other settings.
-/

namespace LegoCar

open Relation

/-- Where a reader is in `run`: not started, at the test of the loop, in its body, in
`readMjpegFrame`, in a call of it that does not return, with a frame to draw, or at its end. -/
inductive Reader where
  | new
  | test
  | body
  | read (mIn : Option ℕ)
  | stuck
  | draw
  | ended
deriving DecidableEq

/-- The reader has been started and has not ended: `isAlive()`. -/
def Reader.Alive : Reader → Prop
  | .new => False
  | .ended => False
  | _ => True

/-- How many steps a reader can still make when the loop is to end. -/
def Reader.steps : Reader → ℕ
  | .test => 1
  | .draw => 2
  | .read _ => 3
  | .body => 4
  | _ => 0

theorem Reader.steps_le (r : Reader) : r.steps ≤ 4 := by
  cases r <;> simp [steps]

/-- The callbacks that stop the playback. -/
inductive Stopping where
  | pause
  | surface
deriving DecidableEq

/-- The view, the activity, and the readers. -/
structure Playback where
  mIn : Option ℕ := none
  thread : Option ℕ := some 0
  mRun : Bool := false
  surfaceDone : Bool := false
  suspending : Bool := false
  /-- `suspending` of the activity -/
  paused : Bool := false
  /-- the tasks `DoRead` that have been started and not finished -/
  reads : ℕ := 1
  /-- the callback in which the main thread waits for a reader -/
  waiting : Option Stopping := none
  /-- whether there is a surface to draw on -/
  surface : Bool := false
  readers : ℕ → Reader := fun _ => .new
  created : ℕ := 1
  opened : ℕ := 0
  closed : List ℕ := []
  /-- how often the memory of the decoder has been freed -/
  freed : ℕ := 0
  /-- whether an exception has ended the app -/
  crashed : Bool := false

namespace Playback

/-! ### The view -/

/-- `thread = new MjpegViewThread(...)`. -/
def newThread (p : Playback) : Playback :=
  { p with thread := some p.created, created := p.created + 1 }

/-- `thread.start()`, which throws an exception unless the thread is new. -/
def start (p : Playback) : Playback :=
  match p.thread with
  | some k =>
    if p.readers k = .new then { p with readers := Function.update p.readers k .test }
    else { p with crashed := true }
  | none => { p with crashed := true }

def startPlayback (p : Playback) : Playback :=
  if p.mIn ≠ none then
    let p := { p with mRun := true }
    let p := if p.thread = none then p.newThread else p
    p.start
  else p

def resumePlayback (p : Playback) : Playback :=
  if p.suspending then
    if p.mIn ≠ none then { ({ p with mRun := true }).newThread.start with suspending := false }
    else p
  else p

def setSource (source : Option ℕ) (p : Playback) : Playback :=
  let p := { p with mIn := source }
  if p.suspending = false then p.startPlayback else p.resumePlayback

/-- `stopPlayback` up to the wait for the reader. -/
def beginStop (p : Playback) : Playback :=
  { p with suspending := p.suspending || p.mRun, mRun := false }

/-- The wait for the reader is over. -/
def Joined (p : Playback) : Prop := ∀ k ∈ p.thread, ¬(p.readers k).Alive

/-- `stopPlayback` after the wait. -/
def endStop (p : Playback) : Playback :=
  { p with thread := none, closed := p.closed ++ p.mIn.toList, mIn := none }

/-! ### The callbacks -/

def onPause (p : Playback) : Playback :=
  if p.mRun then { p.beginStop with waiting := some .pause } else p

def onResume (p : Playback) : Playback :=
  if p.paused then { p with reads := p.reads + 1, paused := false } else p

def surfaceCreated (p : Playback) : Playback := { p with surfaceDone := true, surface := true }

def surfaceDestroyed (p : Playback) : Playback :=
  { ({ p with surfaceDone := false }).beginStop with waiting := some .surface }

/-- The callback that stopped the playback returns. -/
def stopped (c : Stopping) (p : Playback) : Playback :=
  match c with
  | .pause => { p.endStop with waiting := none, paused := true }
  | .surface => { p.endStop with waiting := none, surface := false }

/-- A task `DoRead` hands over a stream, or none when it failed. -/
def onPostExecute (ok : Bool) (p : Playback) : Playback :=
  if ok then { p with reads := p.reads - 1, opened := p.opened + 1 }.setSource (some p.opened)
  else { p with reads := p.reads - 1 }.setSource none

/-- `freeCameraMemory`, where there is a stream. -/
def onDestroy (p : Playback) : Playback :=
  if p.mIn ≠ none then { p with freed := p.freed + 1 } else p

/-! ### Steps -/

/-- A reader moves. -/
def moveTo (k : ℕ) (r : Reader) (p : Playback) : Playback :=
  { p with readers := Function.update p.readers k r }

inductive Step : Playback → Playback → Prop where
  | pause {p : Playback} (hidle : p.waiting = none) : Step p p.onPause
  | resume {p : Playback} (hidle : p.waiting = none) : Step p p.onResume
  | create {p : Playback} (hidle : p.waiting = none) : Step p p.surfaceCreated
  | destroy {p : Playback} (hidle : p.waiting = none) : Step p p.surfaceDestroyed
  | join {p : Playback} {c : Stopping} (hwait : p.waiting = some c) (hjoin : p.Joined) :
      Step p (p.stopped c)
  | deliver {p : Playback} (hidle : p.waiting = none) (hreads : 0 < p.reads) (ok : Bool) :
      Step p (p.onPostExecute ok)
  | leave {p : Playback} (hidle : p.waiting = none) : Step p p.onDestroy
  | loop {p : Playback} {k : ℕ} (hk : p.readers k = .test) :
      Step p (p.moveTo k (if p.mRun then .body else .ended))
  | enter {p : Playback} {k : ℕ} (hk : p.readers k = .body) :
      Step p (p.moveTo k (if p.surfaceDone then .read p.mIn else .test))
  -- `readMjpegFrame` returns a frame, throws an exception, returns -1, or does not return
  | frame {p : Playback} {k : ℕ} {mIn : Option ℕ} (hk : p.readers k = .read mIn) (r : Reader)
      (hr : r ∈ [Reader.draw, .test, .ended, .stuck]) : Step p (p.moveTo k r)
  | drawn {p : Playback} {k : ℕ} (hk : p.readers k = .draw) : Step p (p.moveTo k .test)

variable {p q : Playback}

/-- A stream that arrives while no reader has been started is played by one that has not. -/
theorem setSource_some (hthread : ∀ k ∈ p.thread, p.readers k = .new)
    (hnew : p.readers p.created = .new) (n : ℕ) :
    ∃ k m, (k ∈ p.thread ∧ m = p.created ∨ k = p.created ∧ m = p.created + 1) ∧
      p.readers k = .new ∧ p.setSource (some n) = { p with
        mIn := some n
        mRun := true
        thread := some k
        created := m
        readers := Function.update p.readers k .test
        suspending := false } := by
  by_cases hsuspending : p.suspending = true
  · refine ⟨p.created, p.created + 1, .inr ⟨rfl, rfl⟩, hnew, ?_⟩
    simp [setSource, resumePlayback, newThread, start, hsuspending, hnew]
  · rw [Bool.not_eq_true] at hsuspending
    cases hk : p.thread with
    | none =>
      refine ⟨p.created, p.created + 1, .inr ⟨rfl, rfl⟩, hnew, ?_⟩
      simp [setSource, startPlayback, newThread, start, hsuspending, hk, hnew]
    | some k =>
      refine ⟨k, p.created, .inl ⟨rfl, rfl⟩, hthread k hk, ?_⟩
      simp [setSource, startPlayback, start, hsuspending, hk, hthread k hk]

theorem setSource_none (p : Playback) : p.setSource none = { p with mIn := none } := by
  unfold setSource startPlayback resumePlayback
  dsimp only
  split_ifs <;> first | rfl | contradiction

/-! ### The invariant -/

/-- The invariant of the app. -/
structure Sound (p : Playback) : Prop where
  crashed : p.crashed = false
  /-- A stream is being opened, or played, or will be opened when the activity is resumed. -/
  once : p.reads + p.mRun.toNat + p.paused.toNat + (if p.waiting = some .pause then 1 else 0) ≤ 1
  waiting : p.waiting ≠ none → p.mRun = false
  fresh : ∀ k, p.created ≤ k → p.readers k = .new
  thread : ∀ k ∈ p.thread, k < p.created
  owner : ∀ k, (p.readers k).Alive → p.thread = some k
  started : ∀ k ∈ p.thread, p.readers k ≠ .new → p.mIn ≠ none
  playing : p.mIn ≠ none → p.mRun = true ∨ p.waiting ≠ none
  stream : p.mRun = true → p.mIn ≠ none
  reading : ∀ k mIn, p.readers k = .read mIn → mIn = p.mIn
  surface : p.surfaceDone = true ∨ (∃ k, p.readers k = .draw ∨ ∃ mIn, p.readers k = .read mIn) →
    p.surface = true
  gone : p.waiting = some .surface → p.surfaceDone = false
  streams : ∀ n, n < p.opened ↔ n ∈ p.closed ++ p.mIn.toList
  nodup : (p.closed ++ p.mIn.toList).Nodup

theorem sound_initial : ({} : Playback).Sound where
  crashed := rfl
  once := le_rfl
  waiting h := absurd rfl h
  fresh _ _ := rfl
  thread k hk := by
    obtain rfl : 0 = k := by simpa using hk
    exact Nat.zero_lt_one
  owner k h := h.elim
  started k _ h := absurd rfl h
  playing h := absurd rfl h
  stream h := absurd h Bool.false_ne_true
  reading k mIn h := nomatch h
  surface h := by simp at h
  gone _ := rfl
  streams n := by simp
  nodup := List.nodup_nil

/-- While nothing is played and no callback waits, there is no stream, and no reader is alive. -/
theorem Sound.quiet (h : p.Sound) (hidle : p.waiting = none) (hrun : p.mRun = false) :
    p.mIn = none ∧ (∀ k ∈ p.thread, p.readers k = .new) ∧ ∀ k, ¬(p.readers k).Alive := by
  have hmIn : p.mIn = none := by
    by_contra hne
    rcases h.playing hne with hplay | hwait
    · exact Bool.false_ne_true (hrun.symm.trans hplay)
    · exact hwait hidle
  have hnew : ∀ k ∈ p.thread, p.readers k = .new := fun k hk => by
    by_contra hne
    exact h.started k hk hne hmIn
  refine ⟨hmIn, hnew, fun k halive => ?_⟩
  have hk := hnew k (h.owner k halive)
  rw [hk] at halive
  exact halive

/-- A callback that is not waited for. -/
theorem Sound.beginStop (h : p.Sound) (c : Stopping)
    (honce : c = .pause → p.reads + p.paused.toNat = 0)
    (hgone : c = .surface → p.surfaceDone = false) :
    ({ p.beginStop with waiting := some c } : Playback).Sound where
  crashed := h.crashed
  once := by
    have hbudget := h.once
    cases c with
    | pause =>
      have := honce rfl
      simp only [Playback.beginStop, Bool.toNat_false, if_true]
      omega
    | surface =>
      have hne : (some Stopping.surface : Option Stopping) ≠ some .pause := by decide
      simp only [Playback.beginStop, Bool.toNat_false, if_neg hne]
      omega
  waiting _ := rfl
  fresh := h.fresh
  thread := h.thread
  owner := h.owner
  started := h.started
  playing _ := .inr (Option.some_ne_none c)
  stream hrun := absurd hrun Bool.false_ne_true
  reading := h.reading
  surface := h.surface
  gone hc := hgone (Option.some.inj hc)
  streams := h.streams
  nodup := h.nodup

/-- A callback that has been waited for returns. -/
theorem Sound.endStop (h : p.Sound) (hrun : p.mRun = false) (hjoin : p.Joined)
    {paused surface : Bool} (honce : p.reads + paused.toNat ≤ 1)
    (hsurface : p.surfaceDone = true → surface = true) :
    ({ p.endStop with
        waiting := none, paused := paused, surface := surface } : Playback).Sound := by
  have hended : ∀ k, ¬(p.readers k).Alive := fun k halive =>
    hjoin k (h.owner k halive) halive
  have hclosed : p.endStop.closed ++ p.endStop.mIn.toList = p.closed ++ p.mIn.toList :=
    List.append_nil _
  exact {
    crashed := h.crashed
    once := by
      simp only [Playback.endStop, hrun, Bool.toNat_false]
      simpa using honce
    waiting := fun hne => absurd rfl hne
    fresh := h.fresh
    thread := fun k hk => nomatch hk
    owner := fun k halive => absurd halive (hended k)
    started := fun k hk => nomatch hk
    playing := fun hne => absurd rfl hne
    stream := fun hplay => absurd (hrun.symm.trans hplay) Bool.false_ne_true
    reading := fun k mIn hk => absurd (hk ▸ trivial : (p.readers k).Alive) (hended k)
    surface := by
      rintro (hdone | ⟨k, hk | ⟨mIn, hk⟩⟩)
      · exact hsurface hdone
      · exact absurd (hk ▸ trivial : (p.readers k).Alive) (hended k)
      · exact absurd (hk ▸ trivial : (p.readers k).Alive) (hended k)
    gone := fun hc => nomatch hc
    streams := fun n => (h.streams n).trans (iff_of_eq (congrArg (n ∈ ·) hclosed.symm))
    nodup := by
      have hnodup := h.nodup
      rwa [← hclosed] at hnodup }

theorem Sound.stopped (h : p.Sound) {c : Stopping} (hwait : p.waiting = some c)
    (hjoin : p.Joined) : (p.stopped c).Sound := by
  have hrun : p.mRun = false := h.waiting (by rw [hwait]; exact Option.some_ne_none c)
  have hbudget := h.once
  rw [hrun, hwait] at hbudget
  cases c with
  | pause =>
    refine h.endStop hrun hjoin ?_ fun hdone => h.surface (.inl hdone)
    rw [if_pos rfl] at hbudget
    rw [Bool.toNat_true]
    omega
  | surface =>
    refine h.endStop hrun hjoin ?_ fun hdone => ?_
    · rw [if_neg (by decide), Bool.toNat_false] at hbudget
      exact hbudget
    · exact absurd ((h.gone hwait).symm.trans hdone) Bool.false_ne_true

/-- While a stream is being opened, nothing is played. -/
theorem Sound.opening (h : p.Sound) (hreads : 0 < p.reads) :
    p.mRun = false ∧ p.reads = 1 ∧ p.paused = false := by
  have hbudget := h.once
  have hrun := p.mRun.toNat_le
  refine ⟨?_, by omega, ?_⟩
  · rw [← Bool.toNat_eq_zero]
    omega
  · rw [← Bool.toNat_eq_zero]
    omega

/-- A stream is handed over. -/
theorem Sound.deliver (h : p.Sound) (hidle : p.waiting = none) (hreads : 0 < p.reads) :
    (p.onPostExecute true).Sound := by
  obtain ⟨hrun, hone, hpaused⟩ := h.opening hreads
  obtain ⟨hmIn, hnew, hended⟩ := h.quiet hidle hrun
  obtain ⟨k, m, hkm, hk, heq⟩ := setSource_some
    (p := { p with reads := p.reads - 1, opened := p.opened + 1 }) hnew (h.fresh _ le_rfl) p.opened
  have hdeliver : p.onPostExecute true = _ := heq
  rw [hdeliver]
  dsimp only at hkm hk ⊢
  have hlt : k < m ∧ p.created ≤ m := by
    rcases hkm with ⟨hthread, rfl⟩ | ⟨rfl, rfl⟩
    · exact ⟨h.thread k hthread, le_rfl⟩
    · exact ⟨Nat.lt_succ_self _, Nat.le_succ _⟩
  have hself : Function.update p.readers k .test k = .test := Function.update_self _ _ _
  have hother : ∀ l, l ≠ k → Function.update p.readers k .test l = p.readers l := fun l hl =>
    Function.update_of_ne hl _ _
  have hnone : ∀ l, Function.update p.readers k .test l ≠ .draw ∧
      ∀ mIn, Function.update p.readers k .test l ≠ .read mIn := by
    intro l
    by_cases hl : l = k
    · rw [hl, hself]
      exact ⟨nofun, fun _ => nofun⟩
    · rw [hother l hl]
      exact ⟨fun hdraw => hended l (hdraw ▸ trivial), fun mIn hread => hended l (hread ▸ trivial)⟩
  exact {
    crashed := h.crashed
    once := by simp [hone, hpaused, hidle]
    waiting := fun hne => absurd hidle hne
    fresh := fun l hl => by
      have hle : m ≤ l := hl
      exact (hother l (by omega)).trans (h.fresh l (by omega))
    thread := fun l hl => by
      obtain rfl : k = l := Option.some.inj hl
      exact hlt.1
    owner := fun l halive => by
      by_contra hne
      have hl : l ≠ k := fun hlk => hne (congrArg some hlk.symm)
      exact hended l (hother l hl ▸ halive)
    started := fun _ _ _ => Option.some_ne_none _
    playing := fun _ => .inl rfl
    stream := fun _ => Option.some_ne_none _
    reading := fun l mIn hread => absurd hread ((hnone l).2 mIn)
    surface := by
      rintro (hdone | ⟨l, hdraw | ⟨mIn, hread⟩⟩)
      · exact h.surface (.inl hdone)
      · exact absurd hdraw (hnone l).1
      · exact absurd hread ((hnone l).2 mIn)
    gone := fun hc => h.gone hc
    streams := fun n => by
      have hstream := h.streams n
      rw [hmIn, Option.toList_none, List.append_nil] at hstream
      dsimp only
      rw [Option.toList_some, List.mem_append, List.mem_singleton, ← hstream]
      omega
    nodup := by
      have hlast := (h.streams p.opened).not.mp (lt_irrefl _)
      have hnodup := h.nodup
      rw [hmIn, Option.toList_none, List.append_nil] at hlast hnodup
      dsimp only
      rw [Option.toList_some, List.nodup_append_comm]
      exact List.nodup_cons.mpr ⟨hlast, hnodup⟩ }

/-- The stream could not be opened. -/
theorem Sound.fail (h : p.Sound) (hidle : p.waiting = none) (hreads : 0 < p.reads) :
    (p.onPostExecute false).Sound := by
  obtain ⟨hrun, hone, hpaused⟩ := h.opening hreads
  obtain ⟨hmIn, -, -⟩ := h.quiet hidle hrun
  have hfail : p.onPostExecute false = { p with reads := 0 } := by
    have hsource := setSource_none { p with reads := p.reads - 1 }
    rw [hone] at hsource
    rw [onPostExecute, if_neg Bool.false_ne_true, hone, hsource, ← hmIn]
  rw [hfail]
  refine ⟨h.crashed, ?_, h.waiting, h.fresh, h.thread, h.owner, h.started, h.playing, h.stream,
    h.reading, h.surface, h.gone, h.streams, h.nodup⟩
  have hbudget := h.once
  dsimp only
  omega

/-- A reader that has been started moves. -/
theorem Sound.moveTo (h : p.Sound) {k : ℕ} (hk : (p.readers k).Alive) {r : Reader}
    (hread : ∀ mIn, r = .read mIn → mIn = p.mIn)
    (hsurface : r = .draw ∨ (∃ mIn, r = .read mIn) → p.surface = true) : (p.moveTo k r).Sound := by
  have howner := h.owner k hk
  have hself : (p.moveTo k r).readers k = r := Function.update_self _ _ _
  have hother : ∀ l, l ≠ k → (p.moveTo k r).readers l = p.readers l := fun l hl =>
    Function.update_of_ne hl _ _
  exact {
    crashed := h.crashed
    once := h.once
    waiting := h.waiting
    fresh := fun l hl => by
      have hlt := h.thread k howner
      have hle : p.created ≤ l := hl
      rw [hother l (by omega)]
      exact h.fresh l hle
    thread := h.thread
    owner := fun l halive => by
      by_cases hl : l = k
      · rw [hl]
        exact howner
      · rw [hother l hl] at halive
        exact h.owner l halive
    started := fun l hl _ => by
      have hstarted : p.readers k ≠ .new := fun hnew => by
        rw [hnew] at hk
        exact hk
      exact h.started k howner hstarted
    playing := h.playing
    stream := h.stream
    reading := fun l mIn hl => by
      by_cases hlk : l = k
      · rw [hlk, hself] at hl
        exact hread mIn hl
      · rw [hother l hlk] at hl
        exact h.reading l mIn hl
    surface := by
      rintro (hdone | ⟨l, hl⟩)
      · exact h.surface (.inl hdone)
      · by_cases hlk : l = k
        · rw [hlk, hself] at hl
          exact hsurface hl
        · rw [hother l hlk] at hl
          exact h.surface (.inr ⟨l, hl⟩)
    gone := h.gone
    streams := h.streams
    nodup := h.nodup }

/-- **The step.** -/
theorem Sound.step (h : p.Sound) (hstep : Step p q) : q.Sound := by
  cases hstep with
  | pause hidle =>
    unfold onPause
    split_ifs with hrun
    · refine h.beginStop .pause (fun _ => ?_) nofun
      have hbudget := h.once
      rw [hrun, Bool.toNat_true] at hbudget
      omega
    · exact h
  | resume hidle =>
    unfold onResume
    split_ifs with hpaused
    · refine ⟨h.crashed, ?_, h.waiting, h.fresh, h.thread, h.owner, h.started, h.playing, h.stream,
        h.reading, h.surface, h.gone, h.streams, h.nodup⟩
      have hbudget := h.once
      rw [hpaused, Bool.toNat_true] at hbudget
      rw [Bool.toNat_false]
      dsimp only
      omega
    · exact h
  | create hidle =>
    refine ⟨h.crashed, h.once, h.waiting, h.fresh, h.thread, h.owner, h.started, h.playing,
      h.stream, h.reading, fun _ => rfl, fun hc => ?_, h.streams, h.nodup⟩
    exact absurd (hidle.symm.trans hc) (Option.some_ne_none _).symm
  | destroy hidle =>
    have hgone : ({ p with surfaceDone := false } : Playback).Sound := by
      refine ⟨h.crashed, h.once, h.waiting, h.fresh, h.thread, h.owner, h.started, h.playing,
        h.stream, h.reading, ?_, fun _ => rfl, h.streams, h.nodup⟩
      rintro (hdone | hdraw)
      · exact absurd hdone Bool.false_ne_true
      · exact h.surface (.inr hdraw)
    exact hgone.beginStop .surface nofun fun _ => rfl
  | join hwait hjoin => exact h.stopped hwait hjoin
  | deliver hidle hreads ok =>
    cases ok with
    | true => exact h.deliver hidle hreads
    | false => exact h.fail hidle hreads
  | leave hidle =>
    unfold onDestroy
    split_ifs
    · exact ⟨h.crashed, h.once, h.waiting, h.fresh, h.thread, h.owner, h.started, h.playing,
        h.stream, h.reading, h.surface, h.gone, h.streams, h.nodup⟩
    · exact h
  | loop hk =>
    refine h.moveTo (hk ▸ trivial) ?_ ?_ <;> split_ifs <;> simp
  | enter hk =>
    refine h.moveTo (hk ▸ trivial) ?_ ?_
    · split_ifs <;> simp
    · split_ifs with hdone
      · exact fun _ => h.surface (.inl hdone)
      · simp
  | frame hk r hr =>
    have hsurface := h.surface (.inr ⟨_, .inr ⟨_, hk⟩⟩)
    simp only [List.mem_cons, List.not_mem_nil, or_false] at hr
    refine h.moveTo (hk ▸ trivial) ?_ fun _ => hsurface
    rcases hr with rfl | rfl | rfl | rfl <;> simp
  | drawn hk => exact h.moveTo (hk ▸ trivial) nofun nofun

theorem sound_of_run (hrun : ReflTransGen Step {} p) : p.Sound := by
  induction hrun with
  | refl => exact sound_initial
  | tail _ hstep ih => exact ih.step hstep

/-! ### What the app does and does not -/

/-- The app opens a stream, which is played, and the surface is created. -/
theorem run_playing : ReflTransGen Step {} (surfaceCreated (onPostExecute true {})) :=
  .tail (.single (.deliver rfl Nat.zero_lt_one true)) (.create rfl)

/-- **What a stop leaves behind.** When no callback waits and nothing is played, no reader is alive,
every stream that was opened has been closed, once, and a destroyed activity frees nothing: it frees
the memory of the decoder only while it is played. -/
theorem released (hrun : ReflTransGen Step {} p) (hidle : p.waiting = none) :
    (p.mRun = false → (∀ k, ¬(p.readers k).Alive) ∧ (∀ n, n < p.opened ↔ n ∈ p.closed) ∧
        p.closed.Nodup) ∧
      p.onDestroy.freed = p.freed + p.mRun.toNat := by
  have h := sound_of_run hrun
  refine ⟨fun hrun => ?_, ?_⟩
  · obtain ⟨hmIn, -, hended⟩ := h.quiet hidle hrun
    have hstreams := h.streams
    have hnodup := h.nodup
    rw [hmIn, Option.toList_none, List.append_nil] at hnodup
    simp only [hmIn, Option.toList_none, List.append_nil] at hstreams
    exact ⟨hended, hstreams, hnodup⟩
  · unfold onDestroy
    cases hplay : p.mRun with
    | true => rw [if_pos (h.stream hplay), Bool.toNat_true]
    | false =>
      rw [if_neg (not_not.mpr (h.quiet hidle hplay).1), Bool.toNat_false, Nat.add_zero]

theorem released_playing :
    let p := surfaceCreated (onPostExecute true {})
    (p.mRun = false → (∀ k, ¬(p.readers k).Alive) ∧ (∀ n, n < p.opened ↔ n ∈ p.closed) ∧
        p.closed.Nodup) ∧
      p.onDestroy.freed = p.freed + p.mRun.toNat :=
  released run_playing rfl

/-- **A stream that arrives is played**, by a reader that has just been started. -/
theorem played (hrun : ReflTransGen Step {} p) (hidle : p.waiting = none) (hreads : 0 < p.reads) :
    (p.onPostExecute true).mIn = some p.opened ∧ (p.onPostExecute true).mRun = true ∧
      ∃ k ∈ (p.onPostExecute true).thread,
        p.readers k = .new ∧ (p.onPostExecute true).readers k = .test := by
  have h := sound_of_run hrun
  obtain ⟨-, hnew, -⟩ := h.quiet hidle (h.opening hreads).1
  obtain ⟨k, m, -, hk, heq⟩ := setSource_some
    (p := { p with reads := p.reads - 1, opened := p.opened + 1 }) hnew (h.fresh _ le_rfl) p.opened
  have hdeliver : p.onPostExecute true = _ := heq
  rw [hdeliver]
  exact ⟨rfl, rfl, k, rfl, hk, Function.update_self _ _ _⟩

theorem played_initial :
    (onPostExecute true {}).mIn = some 0 ∧ (onPostExecute true {}).mRun = true ∧
      ∃ k ∈ (onPostExecute true {}).thread,
        ({} : Playback).readers k = .new ∧ (onPostExecute true {}).readers k = .test :=
  played .refl rfl Nat.zero_lt_one

/-- Nothing is played, and nothing will be. -/
structure Dormant (p : Playback) : Prop where
  reads : p.reads = 0
  mRun : p.mRun = false
  paused : p.paused = false
  waiting : p.waiting ≠ some .pause
  ended : ∀ k, ¬(p.readers k).Alive

theorem Dormant.step (h : p.Dormant) (hstep : Step p q) : q.Dormant ∧ q.opened = p.opened := by
  cases hstep with
  | pause hidle =>
    rw [onPause, if_neg (by rw [h.mRun]; exact Bool.false_ne_true)]
    exact ⟨h, rfl⟩
  | resume hidle =>
    rw [onResume, if_neg (by rw [h.paused]; exact Bool.false_ne_true)]
    exact ⟨h, rfl⟩
  | create hidle => exact ⟨⟨h.reads, h.mRun, h.paused, h.waiting, h.ended⟩, rfl⟩
  | destroy hidle => exact ⟨⟨h.reads, rfl, h.paused, nofun, h.ended⟩, rfl⟩
  | @join c hwait hjoin =>
    cases c with
    | pause => exact absurd hwait h.waiting
    | surface => exact ⟨⟨h.reads, h.mRun, h.paused, nofun, h.ended⟩, rfl⟩
  | deliver hidle hreads ok => exact absurd h.reads hreads.ne'
  | leave hidle =>
    unfold onDestroy
    split_ifs
    · exact ⟨⟨h.reads, h.mRun, h.paused, h.waiting, h.ended⟩, rfl⟩
    · exact ⟨h, rfl⟩
  | @loop k hk => exact absurd (hk ▸ trivial) (h.ended k)
  | @enter k hk => exact absurd (hk ▸ trivial) (h.ended k)
  | @frame k _ hk r hr => exact absurd (hk ▸ trivial) (h.ended k)
  | @drawn k hk => exact absurd (hk ▸ trivial) (h.ended k)

/-- **There is no second attempt.** When a stream could not be opened, then whatever happens to the
activity, it does not open another one, and no reader is ever alive again. -/
theorem never_again (hrun : ReflTransGen Step {} p) (hidle : p.waiting = none)
    (hreads : 0 < p.reads) (hrest : ReflTransGen Step (p.onPostExecute false) q) :
    q.reads = 0 ∧ q.mRun = false ∧ q.opened = p.opened ∧ ∀ k, ¬(q.readers k).Alive := by
  have h := sound_of_run hrun
  obtain ⟨hrun, hone, hpaused⟩ := h.opening hreads
  have hfail : p.onPostExecute false = { p with reads := 0, mIn := none } := by
    rw [onPostExecute, if_neg Bool.false_ne_true, setSource_none, hone]
  have hdormant : q.Dormant ∧ q.opened = p.opened := by
    induction hrest with
    | refl =>
      rw [hfail]
      refine ⟨⟨rfl, hrun, hpaused, fun hc => ?_, (h.quiet hidle hrun).2.2⟩, rfl⟩
      exact nomatch hidle.symm.trans hc
    | tail _ hstep ih =>
      obtain ⟨hq, hopened⟩ := ih.1.step hstep
      exact ⟨hq, hopened.trans ih.2⟩
  exact ⟨hdormant.1.reads, hdormant.1.mRun, hdormant.2, hdormant.1.ended⟩

theorem never_again_initial :
    let q := surfaceCreated (onPostExecute false {})
    q.reads = 0 ∧ q.mRun = false ∧ q.opened = 0 ∧ ∀ k, ¬(q.readers k).Alive :=
  never_again .refl rfl Nat.zero_lt_one (.single (.create rfl))

/-! ### The wait for a reader -/

/-- How many steps of the reader the main thread can have to wait for. -/
def patience (p : Playback) : ℕ := (p.thread.map fun k => (p.readers k).steps).getD 0

theorem patience_eq {k : ℕ} (hk : p.thread = some k) : p.patience = (p.readers k).steps := by
  rw [patience, hk, Option.map_some, Option.getD_some]

theorem patience_moveTo {k : ℕ} (hk : p.thread = some k) (r : Reader) :
    (p.moveTo k r).patience = r.steps := by
  have hself : (p.moveTo k r).readers k = r := Function.update_self _ _ _
  rw [patience_eq (p := p.moveTo k r) hk, hself]

theorem patience_le (p : Playback) : p.patience ≤ 4 := by
  cases hk : p.thread with
  | none => rw [patience, hk]; exact Nat.zero_le 4
  | some k =>
    rw [patience_eq hk]
    exact Reader.steps_le _

/-- A reader that has not ended can make a step, unless it is in a call that does not return. -/
theorem exists_step_of_alive {k : ℕ} (hk : (p.readers k).Alive) (hreturns : p.readers k ≠ .stuck) :
    ∃ q, Step p q := by
  cases hr : p.readers k with
  | new => exact absurd hk (hr ▸ id)
  | ended => exact absurd hk (hr ▸ id)
  | test => exact ⟨_, .loop hr⟩
  | body => exact ⟨_, .enter hr⟩
  | read mIn => exact ⟨_, .frame hr .draw List.mem_cons_self⟩
  | stuck => exact absurd hr hreturns
  | draw => exact ⟨_, .drawn hr⟩

/-- What can happen while a callback waits: it returns, or a reader moves that is not in a call that
does not return, and has fewer steps to make than before. -/
theorem step_of_waiting (h : p.Sound) {c : Stopping} (hwait : p.waiting = some c)
    (hstep : Step p q) :
    p.Joined ∧ q = p.stopped c ∨
      ∃ k r, p.thread = some k ∧ (p.readers k).Alive ∧ p.readers k ≠ .stuck ∧
        r.steps < (p.readers k).steps ∧ q = p.moveTo k r := by
  have hbusy : p.waiting ≠ none := by
    rw [hwait]
    exact Option.some_ne_none c
  have hmRun : p.mRun = false := h.waiting hbusy
  have hmove : ∀ k r, (p.readers k).Alive → p.readers k ≠ .stuck →
      r.steps < (p.readers k).steps → ∃ l r', p.thread = some l ∧ (p.readers l).Alive ∧
        p.readers l ≠ .stuck ∧ r'.steps < (p.readers l).steps ∧ p.moveTo k r = p.moveTo l r' :=
    fun k r hk hreturns hlt => ⟨k, r, h.owner k hk, hk, hreturns, hlt, rfl⟩
  cases hstep with
  | pause hidle => exact absurd hidle hbusy
  | resume hidle => exact absurd hidle hbusy
  | create hidle => exact absurd hidle hbusy
  | destroy hidle => exact absurd hidle hbusy
  | deliver hidle => exact absurd hidle hbusy
  | leave hidle => exact absurd hidle hbusy
  | @join c' hwait' hjoin =>
    obtain rfl : c = c' := Option.some.inj (hwait.symm.trans hwait')
    exact .inl ⟨hjoin, rfl⟩
  | @loop k hk =>
    refine .inr (hmove k _ (hk ▸ trivial) (by simp [hk]) ?_)
    rw [hk, if_neg (by rw [hmRun]; exact Bool.false_ne_true)]
    decide
  | @enter k hk =>
    refine .inr (hmove k _ (hk ▸ trivial) (by simp [hk]) ?_)
    rw [hk]
    split_ifs <;> simp [Reader.steps]
  | @frame k mIn hk r hr =>
    refine .inr (hmove k _ (hk ▸ trivial) (by simp [hk]) ?_)
    simp only [List.mem_cons, List.not_mem_nil, or_false] at hr
    rw [hk]
    rcases hr with rfl | rfl | rfl | rfl <;> simp [Reader.steps]
  | @drawn k hk =>
    refine .inr (hmove k _ (hk ▸ trivial) (by simp [hk]) ?_)
    rw [hk]
    decide

/-- **How long the main thread waits.** While a callback waits, some step is possible exactly when
no reader is in a call of `readMjpegFrame` that does not return. Whatever happens next, the callback
returns or the reader has fewer steps to make than before, of which there are at most four. -/
theorem waits (hrun : ReflTransGen Step {} p) {c : Stopping} (hwait : p.waiting = some c) :
    p.patience ≤ 4 ∧ ((∃ q, Step p q) ↔ ∀ k, p.readers k ≠ .stuck) ∧
      ∀ q, Step p q → q = p.stopped c ∨ q.waiting = some c ∧ q.patience < p.patience := by
  have h := sound_of_run hrun
  refine ⟨patience_le p, ⟨?_, fun hreturns => ?_⟩, fun q hstep => ?_⟩
  · rintro ⟨q, hstep⟩ k hk
    -- the reader that is stuck is the one that is waited for
    have halive : (p.readers k).Alive := hk ▸ trivial
    have hthread := h.owner k halive
    rcases step_of_waiting h hwait hstep with ⟨hjoin, -⟩ | ⟨l, r, hl, -, hreturns, -⟩
    · exact hjoin k hthread halive
    · obtain rfl : k = l := Option.some.inj (hthread.symm.trans hl)
      exact hreturns hk
  · by_cases hjoin : p.Joined
    · exact ⟨_, .join hwait hjoin⟩
    · simp only [Joined, not_forall, not_not] at hjoin
      obtain ⟨k, -, hk⟩ := hjoin
      exact exists_step_of_alive hk (hreturns k)
  · rcases step_of_waiting h hwait hstep with ⟨-, rfl⟩ | ⟨k, r, hk, -, -, hlt, rfl⟩
    · exact .inl rfl
    · rw [patience_moveTo hk, patience_eq hk]
      exact .inr ⟨hwait, hlt⟩

/-- The activity is paused while a frame is read. -/
theorem waits_pause :
    let p := (moveTo 0 .body (surfaceCreated (onPostExecute true {}))).onPause
    p.patience ≤ 4 ∧ ((∃ q, Step p q) ↔ ∀ k, p.readers k ≠ .stuck) ∧
      ∀ q, Step p q → q = p.stopped .pause ∨ q.waiting = some .pause ∧ q.patience < p.patience :=
  waits (.tail (.tail run_playing (.loop rfl)) (.pause rfl)) rfl

end Playback

end LegoCar
