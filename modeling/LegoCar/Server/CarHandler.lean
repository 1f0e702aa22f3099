import Mathlib
import LegoCar.Lib.Rounding
import LegoCar.Wire.Records

/-!
# The car handler of the server

`handle_car` turns the commanded speeds of the two sides into the set values of the four boards.
Three handlers limit a speed: one for the two batteries, one for the distance in front and one for
the distance behind. Each computes a state and a limit for each side from the last records of the
boards that carry its sensors; the settings say which boards these are and which handlers apply.

Speeds and limits have the type `float`, and the ramp of a distance handler is computed in `double`.
How the operations on these types round is a parameter, the `Arithmetic`: the server computes as
IEEE types do, `Arithmetic.ieee`, and what the handlers are for is stated without rounding,
`Arithmetic.exact`. `MAX` and `MIN` are the macros of the source, which have the same body.
-/

namespace LegoCar

/-- How the operations on the two types round. -/
structure Arithmetic where
  float : Rounding
  double : Rounding

/-- Without rounding. -/
def Arithmetic.exact : Arithmetic := ⟨.exact, .exact⟩

@[simp] theorem Arithmetic.float_exact : exact.float = .exact := rfl
@[simp] theorem Arithmetic.double_exact : exact.double = .exact := rfl

/-- To the nearest number of the type. -/
def Arithmetic.ieee : Arithmetic :=
  ⟨BinaryFormat.binary32.rounding, BinaryFormat.binary64.rounding⟩

/-- What the server knows about a board. -/
structure NanoBoard where
  init : Bool
  sd : ℤ
  indat : Indata
  outdat : Outdata
  lastConnAttempt : ℤ
deriving DecidableEq, Inhabited

/-- The settings of the car handler. -/
structure CarConfig where
  ubatP : Fin 4
  ubatC : Fin 4
  distF : Fin 4
  distR : Fin 4
  enDistHandlerFront : Bool
  enDistHandlerRear : Bool
  enBattHandler : Bool
  distMin : ℚ
  distBreakBegin : ℚ

/-- The variables of the car: the commanded speeds and the acceleration. -/
structure Car where
  vLeft : ℚ
  vRight : ℚ
  acc : Fin 3 → ℤ

/-- The sensor values the handlers read. -/
structure Readings where
  ubatPower : UInt16
  ubatCompute : UInt16
  distanceFront : ExtRat
  distanceRear : ExtRat

/-- The sensor values in the last records of the boards. -/
def readings (cfg : CarConfig) (board : Fin 4 → NanoBoard) : Readings where
  ubatPower := (board cfg.ubatP).outdat.ubat
  ubatCompute := (board cfg.ubatC).outdat.ubat
  distanceFront := ExtRat.ofBits (board cfg.distF).outdat.distance
  distanceRear := ExtRat.ofBits (board cfg.distR).outdat.distance

/-- `MAX(a,b)`: `((a) > (b)) ? (a) : (b)`. -/
def macroMAX (a b : ExtRat) : ExtRat := if ExtRat.lt b a then a else b

/-- `MIN(a,b)`: `((a) > (b)) ? (a) : (b)`. -/
def macroMIN (a b : ExtRat) : ExtRat := if ExtRat.lt b a then a else b

/-- The result of a handler: its state, and the limit for each side. -/
structure HandlerState where
  state : ℕ
  vrMax : ExtRat
  vlMax : ExtRat

/-- The states of the handlers; the two kinds of handler share the numbers. -/
def idle : ℕ := 0
def batt1Empty : ℕ := 1
def batt2Empty : ℕ := 2
def distBreaking : ℕ := 1
def distStop : ℕ := 2

/-- `battery_handler`. -/
def batteryHandler (r : Readings) : HandlerState :=
  let state := if r.ubatPower < 1000 then batt1Empty else idle
  let state := if r.ubatCompute < 1000 then batt2Empty else state
  if state ≠ idle then { state := state, vrMax := .fin 0, vlMax := .fin 0 }
  else { state := state, vrMax := .fin 1, vlMax := .fin 1 }

/-- `dist_handler`. -/
def distHandler (A : Arithmetic) (cfg : CarConfig) (distance : ExtRat) : HandlerState :=
  if distance.beq (.fin (-1)) ∨ (ExtRat.fin cfg.distBreakBegin).lt distance then
    { state := idle, vrMax := .fin 1, vlMax := .fin 1 }
  else if distance.lt (.fin cfg.distMin) then
    { state := distStop, vrMax := .fin 0, vlMax := .fin 0 }
  else
    -- the quotient is a `double`, and the limit a `float`
    let v := A.float.apply (A.double.div
      (A.double.mul (A.double.sub distance (.fin cfg.distMin)) (.fin 1))
      (A.double.sub (.fin cfg.distBreakBegin) (.fin cfg.distMin)))
    { state := distBreaking, vrMax := v, vlMax := v }

/-- `acc_handler`: the mean acceleration, in which boards 1 and 2 count negative for x and y. -/
def accHandler (board : Fin 4 → NanoBoard) : Fin 3 → ℤ :=
  let acc := fun i j => ((board i).outdat.Acc.acc j).toInt
  ![(acc 0 0 + acc 3 0 - acc 1 0 - acc 2 0).tdiv 4,
    (acc 0 1 + acc 3 1 - acc 1 1 - acc 2 1).tdiv 4,
    (acc 0 2 + acc 1 2 + acc 2 2 + acc 3 2).tdiv 4]

/-- The speed of a side after the handlers: `v` is the commanded speed, and the limits are those
of the battery, the front and the rear handler for this side. -/
def limitSpeed (A : Arithmetic) (cfg : CarConfig) (v : ℚ) (batt front rear : ExtRat) : ExtRat :=
  let e := ExtRat.fin v
  let e := if cfg.enBattHandler then A.float.mul e batt else e
  let e := if cfg.enDistHandlerFront ∧ 0 < v then macroMIN front e else e
  if cfg.enDistHandlerRear ∧ v < 0 then macroMAX rear.neg e else e

/-- The speeds `vl` and `vr` that `handle_car` turns into set values. -/
def leftSpeed (A : Arithmetic) (cfg : CarConfig) (r : Readings) (vLeft : ℚ) : ExtRat :=
  limitSpeed A cfg vLeft (batteryHandler r).vlMax (distHandler A cfg r.distanceFront).vlMax
    (distHandler A cfg r.distanceRear).vlMax

def rightSpeed (A : Arithmetic) (cfg : CarConfig) (r : Readings) (vRight : ℚ) : ExtRat :=
  limitSpeed A cfg vRight (batteryHandler r).vrMax (distHandler A cfg r.distanceFront).vrMax
    (distHandler A cfg r.distanceRear).vrMax

/-- `V_MAX`. -/
def vMax : ℚ := 200

/-- The set values of the four boards: boards 0 and 1 get `vr`, boards 2 and 3 the negated `vl`. -/
def setValues (A : Arithmetic) (cfg : CarConfig) (r : Readings) (vLeft vRight : ℚ) :
    Fin 4 → Int32 :=
  let vr := rightSpeed A cfg r vRight
  let vl := leftSpeed A cfg r vLeft
  ![.ofInt (A.float.mul vr (.fin vMax)).trunc, .ofInt (A.float.mul vr (.fin vMax)).trunc,
    .ofInt (A.float.mul vl (.fin (-vMax))).trunc, .ofInt (A.float.mul vl (.fin (-vMax))).trunc]

/-- `handle_car`. -/
def handleCar (A : Arithmetic) (cfg : CarConfig) (car : Car) (board : Fin 4 → NanoBoard) :
    Car × (Fin 4 → NanoBoard) :=
  let W := setValues A cfg (readings cfg board) car.vLeft car.vRight
  ({ car with acc := accHandler board }, fun i => { board i with indat.W := W i })

end LegoCar
