import Mathlib

/-!
# The joystick of the web client

`VirtualJoystick` turns touches, and the mouse, into the displacement of a stick from its base. The
base is where a touch begins, unless it is stationary; the stick follows that touch and no other,
and the travel of the stick may be limited.

`follows` says this of a whole gesture: between the beginning and the end of a touch, whatever other
touches do, the displacement is that of the last position of this touch from its first.
In any order of touches and mouse buttons, a joystick with a base that is not stationary has no
displacement unless it is pressed (`centered_run`), and a stick stays where its travel allows
(`confined_run`).

Coordinates are elements of an ordered group; the page uses integers.
-/

namespace LegoCar

namespace Client

/-- An element of `changedTouches`. -/
structure Touch (α : Type*) where
  identifier : ℤ
  pageX : α
  pageY : α
deriving DecidableEq

/-- An event that the container dispatches to the joystick. The listeners of
`touchStartValidation` find a start valid or not. -/
inductive Input (α : Type*) where
  | touchStart (valid : Bool) (changedTouches : List (Touch α))
  | touchEnd (changedTouches : List (Touch α))
  | touchMove (changedTouches : List (Touch α))
  | mouseDown (clientX clientY : α)
  | mouseUp
  | mouseMove (clientX clientY : α)
deriving DecidableEq

/-- The joystick. When the travel of the stick is limited, `limitStickTravel` is the displacement
that is left of one. -/
structure VirtualJoystick (α : Type*) where
  stationaryBase : Bool
  limitStickTravel : Option (α × α → α × α)
  baseX : α
  baseY : α
  stickX : α
  stickY : α
  pressed : Bool
  touchIdx : Option ℤ

namespace VirtualJoystick

variable {α : Type*} [AddCommGroup α]

/-- `new VirtualJoystick(opts)`. -/
def new (stationaryBase : Bool) (limitStickTravel : Option (α × α → α × α)) (baseX baseY : α) :
    VirtualJoystick α where
  stationaryBase := stationaryBase
  limitStickTravel := limitStickTravel
  baseX := baseX
  baseY := baseY
  stickX := baseX
  stickY := baseY
  pressed := false
  touchIdx := none

def deltaX (j : VirtualJoystick α) : α := j.stickX - j.baseX

def deltaY (j : VirtualJoystick α) : α := j.stickY - j.baseY

/-- The displacement of the stick. -/
def delta (j : VirtualJoystick α) : α × α := (j.deltaX, j.deltaY)

/-- The stick is put at a position, or as far in its direction as it may travel. -/
def putStick (x y : α) (j : VirtualJoystick α) : VirtualJoystick α :=
  match j.limitStickTravel with
  | none => { j with stickX := x, stickY := y }
  | some limit =>
    let d := limit (x - j.baseX, y - j.baseY)
    { j with stickX := d.1 + j.baseX, stickY := d.2 + j.baseY }

/-- `_onUp`. -/
def onUp (j : VirtualJoystick α) : VirtualJoystick α :=
  if j.stationaryBase then { j with pressed := false }
  else { j with pressed := false, baseX := 0, baseY := 0, stickX := 0, stickY := 0 }

/-- `_onDown`. -/
def onDown (x y : α) (j : VirtualJoystick α) : VirtualJoystick α :=
  let j := { j with pressed := true }
  let j := if j.stationaryBase then j else { j with baseX := x, baseY := y }
  j.putStick x y

/-- `_onMove`. -/
def onMove (x y : α) (j : VirtualJoystick α) : VirtualJoystick α :=
  if j.pressed then j.putStick x y else j

/-- `_onTouchStart`. A list without a touch raises an error before anything is assigned. -/
def onTouchStart (valid : Bool) (changedTouches : List (Touch α)) (j : VirtualJoystick α) :
    VirtualJoystick α :=
  if j.touchIdx.isSome then j
  else if valid then
    match changedTouches with
    | [] => j
    | touch :: _ => { j with touchIdx := some touch.identifier }.onDown touch.pageX touch.pageY
  else j

/-- The touch that the joystick follows, if it is in the list. -/
def findTouch (changedTouches : List (Touch α)) (j : VirtualJoystick α) : Option (Touch α) :=
  j.touchIdx.bind fun idx => changedTouches.find? fun t => t.identifier = idx

/-- `_onTouchEnd`. -/
def onTouchEnd (changedTouches : List (Touch α)) (j : VirtualJoystick α) : VirtualJoystick α :=
  match j.findTouch changedTouches with
  | none => j
  | some _ => { j with touchIdx := none }.onUp

/-- `_onTouchMove`. -/
def onTouchMove (changedTouches : List (Touch α)) (j : VirtualJoystick α) : VirtualJoystick α :=
  match j.findTouch changedTouches with
  | none => j
  | some touch => j.onMove touch.pageX touch.pageY

/-- An event is handled. -/
def handle (e : Input α) (j : VirtualJoystick α) : VirtualJoystick α :=
  match e with
  | .touchStart valid ts => j.onTouchStart valid ts
  | .touchEnd ts => j.onTouchEnd ts
  | .touchMove ts => j.onTouchMove ts
  | .mouseDown x y => j.onDown x y
  | .mouseUp => j.onUp
  | .mouseMove x y => j.onMove x y

/-- Events are handled, one after the other. -/
def run (es : List (Input α)) (j : VirtualJoystick α) : VirtualJoystick α :=
  es.foldl (fun j e => j.handle e) j

variable {j : VirtualJoystick α} {x y : α} {ts : List (Touch α)} {t last : Touch α}

@[simp]
theorem run_nil : j.run [] = j := rfl

@[simp]
theorem run_cons (e : Input α) (es : List (Input α)) : j.run (e :: es) = (j.handle e).run es := rfl

/-! ### The stick -/

/-- What is left of a displacement. -/
def limited (j : VirtualJoystick α) (d : α × α) : α × α :=
  match j.limitStickTravel with
  | none => d
  | some limit => limit d

/-- The stick is put where the travel allows. -/
theorem delta_putStick (x y : α) (j : VirtualJoystick α) :
    (j.putStick x y).delta = j.limited (x - j.baseX, y - j.baseY) := by
  unfold putStick limited
  cases j.limitStickTravel with
  | none => rfl
  | some limit => simp [delta, deltaX, deltaY]

/-- Putting the stick moves the stick only. -/
theorem putStick_spec (x y : α) (j : VirtualJoystick α) :
    (j.putStick x y).stationaryBase = j.stationaryBase ∧
      (j.putStick x y).limitStickTravel = j.limitStickTravel ∧
      (j.putStick x y).baseX = j.baseX ∧ (j.putStick x y).baseY = j.baseY ∧
      (j.putStick x y).pressed = j.pressed ∧ (j.putStick x y).touchIdx = j.touchIdx := by
  unfold putStick
  split
  · exact ⟨rfl, rfl, rfl, rfl, rfl, rfl⟩
  · exact ⟨rfl, rfl, rfl, rfl, rfl, rfl⟩

@[simp]
theorem pressed_onUp (j : VirtualJoystick α) : j.onUp.pressed = false := by
  unfold onUp
  split_ifs <;> rfl

/-- A stick is pressed by putting it somewhere, with a base that may have moved. -/
theorem onDown_eq (x y : α) (j : VirtualJoystick α) : ∃ baseX baseY : α,
    j.onDown x y = { j with pressed := true, baseX := baseX, baseY := baseY }.putStick x y := by
  unfold onDown
  dsimp only
  split_ifs
  · exact ⟨j.baseX, j.baseY, rfl⟩
  · exact ⟨x, y, rfl⟩

/-- What an event does: nothing, or the stick is pressed, let go or moved. -/
inductive Handled (j : VirtualJoystick α) : VirtualJoystick α → Prop where
  | ignored : Handled j j
  | down (idx : Option ℤ) (x y : α) : Handled j ({ j with touchIdx := idx }.onDown x y)
  | up (idx : Option ℤ) : Handled j { j with touchIdx := idx }.onUp
  | moved (x y : α) (hpressed : j.pressed = true) : Handled j (j.putStick x y)

theorem handled_onMove (x y : α) (j : VirtualJoystick α) : Handled j (j.onMove x y) := by
  unfold onMove
  split_ifs with hpressed
  · exact .moved x y hpressed
  · exact .ignored

theorem handled_onTouchStart (valid : Bool) (ts : List (Touch α)) (j : VirtualJoystick α) :
    Handled j (j.onTouchStart valid ts) := by
  unfold onTouchStart
  split_ifs
  · exact .ignored
  · cases ts with
    | nil => exact .ignored
    | cons t ts => exact .down (some t.identifier) t.pageX t.pageY
  · exact .ignored

theorem handled_handle (e : Input α) (j : VirtualJoystick α) : Handled j (j.handle e) := by
  cases e with
  | touchStart valid ts => exact handled_onTouchStart valid ts j
  | touchEnd ts =>
    rw [handle, onTouchEnd]
    cases j.findTouch ts with
    | none => exact .ignored
    | some t => exact .up none
  | touchMove ts =>
    rw [handle, onTouchMove]
    cases j.findTouch ts with
    | none => exact .ignored
    | some t => exact handled_onMove t.pageX t.pageY j
  | mouseDown x y => exact .down j.touchIdx x y
  | mouseUp => exact .up j.touchIdx
  | mouseMove x y => exact handled_onMove x y j

/-! ### A stick that is let go -/

/-- The base follows the touches, and a joystick that is not pressed has no displacement. -/
structure Centered (j : VirtualJoystick α) : Prop where
  base : j.stationaryBase = false
  released : j.pressed = false → j.delta = 0

theorem centered_putStick (hbase : j.stationaryBase = false) (hpressed : j.pressed = true)
    (x y : α) : (j.putStick x y).Centered := by
  obtain ⟨hbase', -, -, -, hpr, -⟩ := putStick_spec x y j
  refine ⟨hbase'.trans hbase, fun hfree => ?_⟩
  rw [hpr, hpressed] at hfree
  exact absurd hfree (by decide)

theorem Centered.onUp (h : j.Centered) : j.onUp.Centered := by
  have hup : j.onUp =
      { j with pressed := false, baseX := 0, baseY := 0, stickX := 0, stickY := 0 } := by
    rw [VirtualJoystick.onUp, h.base, if_neg Bool.false_ne_true]
  rw [hup]
  exact ⟨h.base, fun _ => by simp [VirtualJoystick.delta, deltaX, deltaY]⟩

theorem Centered.withTouch (h : j.Centered) (idx : Option ℤ) :
    { j with touchIdx := idx }.Centered :=
  ⟨h.base, h.released⟩

theorem Centered.handle (h : j.Centered) (e : Input α) : (j.handle e).Centered := by
  have hhandled := handled_handle e j
  generalize j.handle e = j' at hhandled ⊢
  cases hhandled with
  | ignored => exact h
  | down idx x y =>
    obtain ⟨baseX, baseY, hdown⟩ := { j with touchIdx := idx }.onDown_eq x y
    rw [hdown]
    exact centered_putStick
      (j := { j with touchIdx := idx, pressed := true, baseX := baseX, baseY := baseY }) h.base rfl
      x y
  | up idx => exact (h.withTouch idx).onUp
  | moved x y hpressed => exact centered_putStick h.base hpressed x y

/-- **A stick that is let go has no displacement**, in any order of touches and mouse buttons. -/
theorem centered_run (h : j.Centered) (es : List (Input α)) : (j.run es).Centered := by
  induction es generalizing j with
  | nil => exact h
  | cons e es ih => exact ih (h.handle e)

theorem delta_new (stationaryBase : Bool) (limit : Option (α × α → α × α)) (x y : α) :
    (new stationaryBase limit x y).delta = 0 := by
  simp [new, delta, deltaX, deltaY]

theorem centered_new (limit : Option (α × α → α × α)) (x y : α) : (new false limit x y).Centered :=
  ⟨rfl, fun _ => delta_new false limit x y⟩

/-! ### A stick with limited travel -/

/-- The travel keeps the displacement in `S`, wherever the base is. -/
structure Confined (S : Set (α × α)) (j : VirtualJoystick α) : Prop where
  limit : ∀ d, j.limited d ∈ S
  delta : j.delta ∈ S

section Confined

variable {S : Set (α × α)}

theorem confined_putStick (hlimit : ∀ d, j.limited d ∈ S) (x y : α) :
    (j.putStick x y).Confined S := by
  refine ⟨fun d => ?_, ?_⟩
  · rw [limited, (putStick_spec x y j).2.1]
    exact hlimit d
  · rw [delta_putStick]
    exact hlimit _

/-- Letting go leaves a stick where it is, or brings it back to the base. -/
theorem Confined.onUp (h0 : 0 ∈ S) (h : j.Confined S) : j.onUp.Confined S := by
  unfold VirtualJoystick.onUp
  split_ifs
  · exact ⟨h.limit, h.delta⟩
  · refine ⟨h.limit, ?_⟩
    rwa [VirtualJoystick.delta, deltaX, deltaY, sub_self]

theorem Confined.handle (h0 : 0 ∈ S) (h : j.Confined S) (e : Input α) :
    (j.handle e).Confined S := by
  have hhandled := handled_handle e j
  generalize j.handle e = j' at hhandled ⊢
  cases hhandled with
  | ignored => exact h
  | down idx x y =>
    obtain ⟨baseX, baseY, hdown⟩ := { j with touchIdx := idx }.onDown_eq x y
    rw [hdown]
    exact confined_putStick
      (j := { j with touchIdx := idx, pressed := true, baseX := baseX, baseY := baseY }) h.limit x y
  | up idx =>
    have htouch : { j with touchIdx := idx }.Confined S := ⟨h.limit, h.delta⟩
    exact htouch.onUp h0
  | moved x y => exact confined_putStick h.limit x y

/-- **A stick stays where its travel allows**, in any order of touches and mouse buttons. -/
theorem confined_run (h0 : 0 ∈ S) (h : j.Confined S) (es : List (Input α)) :
    (j.run es).Confined S := by
  induction es generalizing j with
  | nil => exact h
  | cons e es ih => exact ih (h.handle h0 e)

end Confined

/-! ### A gesture -/

/-- The joystick is in a touch that began as `t` and is now at `last`. -/
structure Following (t last : Touch α) (j : VirtualJoystick α) : Prop where
  pressed : j.pressed = true
  touchIdx : j.touchIdx = some t.identifier
  baseX : j.baseX = t.pageX
  baseY : j.baseY = t.pageY
  delta : j.delta = j.limited (last.pageX - t.pageX, last.pageY - t.pageY)

/-- What can happen during a touch: anything that other touches do. The mouse is at rest. -/
def During (idx : ℤ) : Input α → Prop
  | .touchStart _ _ => True
  | .touchEnd ts => ts.find? (fun t => t.identifier = idx) = none
  | .touchMove _ => True
  | _ => False

/-- The positions of a touch, of those to which it moved. -/
def movesOf (idx : ℤ) (es : List (Input α)) : List (Touch α) :=
  es.filterMap fun
    | .touchMove ts => ts.find? fun t => t.identifier = idx
    | _ => none

/-- The stick follows a touch to a position. -/
theorem Following.putStick (h : j.Following t last) (next : Touch α) :
    (j.putStick next.pageX next.pageY).Following t next := by
  obtain ⟨-, hlimit, hx, hy, hpr, hidx⟩ := putStick_spec next.pageX next.pageY j
  refine ⟨hpr.trans h.pressed, hidx.trans h.touchIdx, hx.trans h.baseX, hy.trans h.baseY, ?_⟩
  rw [delta_putStick, h.baseX, h.baseY, limited, limited, hlimit]

theorem Following.findTouch (h : j.Following t last) (ts : List (Touch α)) :
    j.findTouch ts = ts.find? fun s => s.identifier = t.identifier := by
  rw [VirtualJoystick.findTouch, h.touchIdx, Option.bind_some]

/-- An event during a touch: the stick follows the touch if the touch moved. -/
theorem Following.handle (h : j.Following t last) {e : Input α} (he : During t.identifier e) :
    (j.handle e).Following t ((movesOf t.identifier [e]).getLast?.getD last) := by
  cases e with
  | touchStart valid ts =>
    have hsame : j.handle (.touchStart valid ts) = j := by
      simp [VirtualJoystick.handle, onTouchStart, h.touchIdx]
    rwa [hsame]
  | touchEnd ts =>
    have hsame : j.handle (.touchEnd ts) = j := by
      have hnone : ts.find? (fun s => s.identifier = t.identifier) = none := he
      rw [VirtualJoystick.handle, onTouchEnd, h.findTouch, hnone]
    rwa [hsame]
  | touchMove ts =>
    have hfind := h.findTouch ts
    cases hts : ts.find? fun s => s.identifier = t.identifier with
    | none =>
      have hsame : j.handle (.touchMove ts) = j := by
        simp only [VirtualJoystick.handle, onTouchMove, hfind, hts]
      simpa [hsame, movesOf, hts] using h
    | some next =>
      have hmove : j.handle (.touchMove ts) = j.putStick next.pageX next.pageY := by
        simp only [VirtualJoystick.handle, onTouchMove, hfind, hts, onMove, h.pressed, if_true]
      simpa [hmove, movesOf, hts] using h.putStick next
  | mouseDown => exact he.elim
  | mouseUp => exact he.elim
  | mouseMove => exact he.elim

theorem Following.run (h : j.Following t last) {es : List (Input α)}
    (hes : ∀ e ∈ es, During t.identifier e) :
    (j.run es).Following t ((movesOf t.identifier es).getLast?.getD last) := by
  induction es generalizing j last with
  | nil => exact h
  | cons e es ih =>
    have hsplit : movesOf t.identifier (e :: es) =
        movesOf t.identifier [e] ++ movesOf t.identifier es := by
      rw [movesOf, movesOf, movesOf, ← List.filterMap_append, List.singleton_append]
    have hnext := ih (h.handle (hes e List.mem_cons_self)) fun e' he' =>
      hes e' (List.mem_cons_of_mem e he')
    rw [hsplit, List.getLast?_append, Option.getD_or]
    exact hnext

/-- The displacement that is left of `d` when the stick may travel as far as `stickRadius`. -/
noncomputable def travelLimit (stickRadius : ℝ) (d : ℝ × ℝ) : ℝ × ℝ :=
  let stickDistance := √(d.1 * d.1 + d.2 * d.2)
  if stickRadius < stickDistance then
    (d.1 / stickDistance * stickRadius, d.2 / stickDistance * stickRadius)
  else d

/-- The disc in which the stick may be. -/
def disc (stickRadius : ℝ) : Set (ℝ × ℝ) := {d | d.1 ^ 2 + d.2 ^ 2 ≤ stickRadius ^ 2}

theorem travelLimit_mem {stickRadius : ℝ} (h : 0 ≤ stickRadius) (d : ℝ × ℝ) :
    travelLimit stickRadius d ∈ disc stickRadius := by
  have hsquare : √(d.1 * d.1 + d.2 * d.2) ^ 2 = d.1 ^ 2 + d.2 ^ 2 := by
    rw [Real.sq_sqrt (add_nonneg (mul_self_nonneg _) (mul_self_nonneg _)), sq, sq]
  unfold travelLimit
  dsimp only
  set s := √(d.1 * d.1 + d.2 * d.2)
  split_ifs with hfar
  · -- the stick is on the circle
    have hs : s ≠ 0 := (h.trans_lt hfar).ne'
    have hcircle : (d.1 / s * stickRadius) ^ 2 + (d.2 / s * stickRadius) ^ 2 = stickRadius ^ 2 := by
      field_simp
      rw [← hsquare, mul_comm]
    exact hcircle.le
  · have hle : s ^ 2 ≤ stickRadius ^ 2 :=
      pow_le_pow_left₀ (Real.sqrt_nonneg _) (not_lt.mp hfar) 2
    rwa [hsquare] at hle

/-- **The displacement is limited.** In any order of touches and mouse buttons, a stick with limited
travel stays within its radius, wherever its base is, and a joystick whose base is not stationary
has no displacement unless it is pressed, however far its stick may travel. -/
theorem displacement_run {stickRadius : ℝ} (h : 0 ≤ stickRadius) (stationaryBase : Bool)
    (limit : Option (ℝ × ℝ → ℝ × ℝ)) (baseX baseY : ℝ) (es : List (Input ℝ)) :
    let j := (new stationaryBase (some (travelLimit stickRadius)) baseX baseY).run es
    let j' := (new false limit baseX baseY).run es
    j.deltaX ^ 2 + j.deltaY ^ 2 ≤ stickRadius ^ 2 ∧ (j'.pressed = false → j'.delta = 0) := by
  have h0 : (0 : ℝ × ℝ) ∈ disc stickRadius := by
    have hzero : (0 : ℝ) ^ 2 + 0 ^ 2 ≤ stickRadius ^ 2 := by
      rw [zero_pow two_ne_zero, add_zero]
      exact sq_nonneg _
    exact hzero
  have hnew : (new stationaryBase (some (travelLimit stickRadius)) baseX baseY).Confined
      (disc stickRadius) := ⟨travelLimit_mem h, by rwa [delta_new]⟩
  have hcentered := centered_run (centered_new limit baseX baseY) es
  exact ⟨(confined_run h0 hnew es).delta, hcentered.released⟩

theorem displacement_run_hundred :
    let es : List (Input ℝ) := [.mouseDown 0 0, .mouseMove 300 400]
    let j := (new true (some (travelLimit 100)) 50 50).run es
    let j' := (new false none 50 50).run es
    j.deltaX ^ 2 + j.deltaY ^ 2 ≤ 100 ^ 2 ∧ (j'.pressed = false → j'.delta = 0) :=
  displacement_run (by norm_num) true none 50 50 [.mouseDown 0 0, .mouseMove 300 400]

/-! ### Directions -/

section Directions

variable {β : Type*} [AddCommGroup β] [LinearOrder β]

def up (j : VirtualJoystick β) : Bool :=
  if j.pressed = false then false
  else if 0 ≤ j.deltaY then false
  else if 2 • |j.deltaY| < |j.deltaX| then false
  else true

def down (j : VirtualJoystick β) : Bool :=
  if j.pressed = false then false
  else if j.deltaY ≤ 0 then false
  else if 2 • |j.deltaY| < |j.deltaX| then false
  else true

def right (j : VirtualJoystick β) : Bool :=
  if j.pressed = false then false
  else if j.deltaX ≤ 0 then false
  else if 2 • |j.deltaX| < |j.deltaY| then false
  else true

def left (j : VirtualJoystick β) : Bool :=
  if j.pressed = false then false
  else if 0 ≤ j.deltaX then false
  else if 2 • |j.deltaX| < |j.deltaY| then false
  else true

theorem up_or_down (j : VirtualJoystick β) :
    (j.up = true ∨ j.down = true ↔
        j.pressed = true ∧ j.deltaY ≠ 0 ∧ |j.deltaX| ≤ 2 • |j.deltaY|) ∧
      ¬(j.up = true ∧ j.down = true) := by
  unfold up down
  rcases lt_trichotomy j.deltaY 0 with h | h | h
  · simp [h.not_ge, h.le, h.ne]
  · simp [h]
  · simp [h.not_ge, h.le, h.ne']

theorem right_or_left (j : VirtualJoystick β) :
    (j.right = true ∨ j.left = true ↔
        j.pressed = true ∧ j.deltaX ≠ 0 ∧ |j.deltaY| ≤ 2 • |j.deltaX|) ∧
      ¬(j.right = true ∧ j.left = true) := by
  unfold right left
  rcases lt_trichotomy j.deltaX 0 with h | h | h
  · simp [h.not_ge, h.le, h.ne]
  · simp [h]
  · simp [h.not_ge, h.le, h.ne']

/-- **The directions.** A joystick points somewhere exactly when it is pressed and the stick has a
displacement, and it never points in two opposite directions. -/
theorem directions [IsOrderedAddMonoid β] (j : VirtualJoystick β) :
    ((j.up = true ∨ j.down = true) ∨ j.right = true ∨ j.left = true ↔
        j.pressed = true ∧ j.delta ≠ 0) ∧
      ¬(j.up = true ∧ j.down = true) ∧ ¬(j.right = true ∧ j.left = true) := by
  refine ⟨?_, (up_or_down j).2, (right_or_left j).2⟩
  rw [(up_or_down j).1, (right_or_left j).1, ← and_or_left]
  refine and_congr_right fun _ => ?_
  have hne : j.delta ≠ 0 ↔ j.deltaX ≠ 0 ∨ j.deltaY ≠ 0 := by
    rw [← not_and_or, not_iff_not]
    exact Prod.mk_eq_zero
  rw [hne]
  have hdouble : ∀ a : β, |a| ≤ 2 • |a| := fun a => by
    rw [two_nsmul]
    exact le_add_of_nonneg_right (abs_nonneg a)
  refine ⟨fun h => h.elim (fun h => Or.inr h.1) fun h => Or.inl h.1, fun h => ?_⟩
  -- the larger of the two counts
  obtain hle | hle := le_total |j.deltaX| |j.deltaY|
  · have hne : j.deltaY ≠ 0 := by
      rintro hzero
      rw [hzero, abs_zero] at hle
      exact h.elim (· (abs_eq_zero.mp (le_antisymm hle (abs_nonneg _)))) (· hzero)
    exact Or.inl ⟨hne, hle.trans (hdouble _)⟩
  · have hne : j.deltaX ≠ 0 := by
      rintro hzero
      rw [hzero, abs_zero] at hle
      exact h.elim (· hzero) (· (abs_eq_zero.mp (le_antisymm hle (abs_nonneg _))))
    exact Or.inr ⟨hne, hle.trans (hdouble _)⟩

end Directions

end VirtualJoystick

end Client

end LegoCar
