import Mathlib
import LegoCar.Server.StatusReply

/-!
# The display of the web client

The web client decodes the reply of the server and shows it: warnings about obstacles and boards,
the speed as the width of a bar, and the battery as one of four images, which `parseMessage` chooses
by a percentage of the two battery readings.

The percentage is meant for readings in volts, 0 at 10 V and 100 at 12 V. The readings that the
server sends are in units of 10 mV, and where they should be cut off at 12 from above they are cut
off from below: `batteryAgrees_never` says that the percentage is right for no pair of readings, and
`battery_statusReply` that every reply shows a full battery.

Numbers are computed without rounding; those that the battery readings lead to are integers.
-/

namespace LegoCar

namespace Client

open Stdio ExtRat Json

/-! ### Numbers -/

/-- `Math.max`. -/
def mathMax (a b : ExtRat) : ExtRat :=
  if a = nan ∨ b = nan then nan else if a.lt b then b else a

/-- `Math.min`. -/
def mathMin (a b : ExtRat) : ExtRat :=
  if a = nan ∨ b = nan then nan else if a.lt b then a else b

/-- `Math.ceil`. -/
def mathCeil : ExtRat → ExtRat
  | fin q => fin ⌈q⌉
  | x => x

theorem mathMax_fin (a b : ℚ) : mathMax (fin a) (fin b) = fin (max a b) := by
  simp only [mathMax, reduceCtorEq, or_self, if_false, lt_fin, decide_eq_true_eq]
  split_ifs with h
  · rw [max_eq_right h.le]
  · rw [max_eq_left (not_lt.mp h)]

theorem mathMin_fin (a b : ℚ) : mathMin (fin a) (fin b) = fin (min a b) := by
  simp only [mathMin, reduceCtorEq, or_self, if_false, lt_fin, decide_eq_true_eq]
  split_ifs with h
  · rw [min_eq_left h.le]
  · rw [min_eq_right (not_lt.mp h)]

/-! ### The page -/

/-- The members of a reply that the client reads. One that the reply does not have is none. -/
structure Data where
  distanceFront : Option ℚ
  distanceRear : Option ℚ
  ubatPower : Option ℚ
  ubatCompute : Option ℚ
  vLeft : Option ℚ
  boardStatus : Option (List ℚ)

/-- The number of a member. -/
def number : Option Value → Option ℚ
  | some (.number q) => some q
  | _ => none

/-- The numbers of a member that is an array of numbers. -/
def numbers : Option Value → Option (List ℚ)
  | some (.array vs) => vs.mapM fun v => number (some v)
  | _ => none

/-- The decoded reply. -/
def Data.ofValue (v : Value) : Data where
  distanceFront := number (v.member (ascii "distance_front"))
  distanceRear := number (v.member (ascii "distance_rear"))
  ubatPower := number (v.member (ascii "ubat_power"))
  ubatCompute := number (v.member (ascii "ubat_compute"))
  vLeft := number (v.member (ascii "v_left"))
  boardStatus := numbers (v.member (ascii "board_status"))

/-- The images of the battery: `battery-full.png`, `battery-.png`, `battery-half.png` and
`battery-empty.png`. -/
inductive BatteryImage where
  | full
  | high
  | half
  | empty
deriving DecidableEq

/-- What the page shows: the image of the battery and the width of the speed bar in percent. -/
structure Page where
  battery : BatteryImage
  speed : ExtRat

/-- A line of the message: `There is an obstacle in the front: … meter.`, the same for the rear, or
`Nano board error! Error message: … .` with the status of the boards. -/
inductive Warning where
  | front (distance : ℚ)
  | rear (distance : ℚ)
  | boards (status : List ℚ)

/-- `batteryDisplay`. -/
def batteryDisplay (percentage : ExtRat) (page : Page) : Page :=
  let battery : BatteryImage :=
    if (fin 80).lt percentage then .full
    else if (fin 65).lt percentage ∧ percentage.le (fin 80) then .high
    else if (fin 20).lt percentage ∧ percentage.le (fin 65) then .half
    else .empty
  if page.battery ≠ battery then { page with battery := battery } else page

/-- `speedDisplay`. -/
def speedDisplay (percentage : ExtRat) (page : Page) : Page := { page with speed := percentage }

/-- The number that a member is in a computation; one that is not there is not-a-number. -/
def operand (x : Option ℚ) : ExtRat := x.elim nan fin

/-- `Math.ceil((Math.max(x, 12) - 10) * 100 / 2)`. -/
def level (x : Option ℚ) : ExtRat :=
  mathCeil ((((mathMax (operand x) (fin 12)).sub (fin 10)).mul (fin 100)).div (fin 2))

/-- The percentage of the batteries. -/
def percentage (ubatPower ubatCompute : Option ℚ) : ExtRat :=
  mathMin (level ubatPower) (level ubatCompute)

/-- The distance of an obstacle that is nearer than a metre. -/
def obstacle (distance : Option ℚ) : Option ℚ := distance.filter fun d => 0 ≤ d ∧ d < 1

/-- `parseMessage`. -/
def parseMessage (data : Data) (page : Page) : Page × List Warning :=
  let page :=
    if data.ubatPower ≠ none ∨ data.ubatCompute ≠ none then
      batteryDisplay (percentage data.ubatPower data.ubatCompute) page
    else page
  let page := data.vLeft.elim page fun v => speedDisplay (mathCeil ((fin v).mul (fin 100))) page
  let boards := data.boardStatus.filter fun status => status ≠ [1, 1, 1, 1]
  (page, ((obstacle data.distanceFront).map .front).toList ++
    ((obstacle data.distanceRear).map .rear).toList ++ (boards.map .boards).toList)

/-! ### The percentage -/

/-- The percentage for two readings of the server, in units of 10 mV. -/
def shown (p c : UInt16) : ExtRat := percentage (some p.toNat) (some c.toNat)

/-- The image for two readings. -/
def image (p c : UInt16) (page : Page) : BatteryImage := (batteryDisplay (shown p c) page).battery

/-- What the display of the battery is for: a percentage that grows with the readings, is 0 with the
image of an empty battery when the battery handler stops the motors, and 100 only if both batteries
have 12 V. -/
structure BatteryAgrees (p c : UInt16) : Prop where
  range : ∃ q : ℚ, shown p c = fin q ∧ 0 ≤ q ∧ q ≤ 100
  mono : ∀ p' c' q q', p ≤ p' → c ≤ c' → shown p c = fin q → shown p' c' = fin q' → q ≤ q'
  stopped : ∀ r : Readings, r.ubatPower = p → r.ubatCompute = c → (batteryHandler r).state ≠ idle →
    shown p c = fin 0 ∧ ∀ page, image p c page = .empty
  charged : shown p c = fin 100 → 1200 ≤ p ∧ 1200 ≤ c

theorem level_reading (n : ℕ) : level (some n) = fin ((max n 12 - 10) * 50 : ℤ) := by
  have hvalue : (max (n : ℚ) 12 - 10) * 100 / 2 = ((max n 12 - 10) * 50 : ℤ) := by
    push_cast
    ring
  rw [level, operand, Option.elim_some, mathMax_fin, sub_fin, mul_fin, div_fin two_ne_zero,
    mathCeil, hvalue, Int.ceil_intCast]

/-- **The percentage**: half a per cent for each unit above 10 units, and never less than 100. -/
theorem shown_eq (p c : UInt16) :
    shown p c = fin (((max (min p.toNat c.toNat) 12 : ℕ) - 10) * 50 : ℤ) := by
  have hmin : ∀ m n : ℕ, min (((max m 12 : ℕ) - 10 : ℤ) * 50) (((max n 12 : ℕ) - 10 : ℤ) * 50) =
      ((max (min m n) 12 : ℕ) - 10 : ℤ) * 50 := by
    intro m n
    omega
  rw [shown, percentage, level_reading, level_reading, mathMin_fin, ← Int.cast_min, hmin]

theorem hundred_le_shown {p c : UInt16} {q : ℚ} (h : shown p c = fin q) : 100 ≤ q := by
  rw [shown_eq] at h
  obtain rfl := fin.inj h
  have hle : (100 : ℤ) ≤ ((max (min p.toNat c.toNat) 12 : ℕ) - 10) * 50 := by omega
  exact_mod_cast hle

/-- The percentage grows with the readings. -/
theorem shown_mono {p c p' c' : UInt16} {q q' : ℚ} (hp : p ≤ p') (hc : c ≤ c')
    (h : shown p c = fin q) (h' : shown p' c' = fin q') : q ≤ q' := by
  rw [shown_eq] at h h'
  obtain rfl := fin.inj h
  obtain rfl := fin.inj h'
  rw [UInt16.le_iff_toNat_le] at hp hc
  have hle : ((max (min p.toNat c.toNat) 12 : ℕ) - 10) * 50 ≤
      (((max (min p'.toNat c'.toNat) 12 : ℕ) - 10) * 50 : ℤ) := by omega
  exact_mod_cast hle

/-- Every pair of readings shows a full battery. -/
theorem image_eq_full (p c : UInt16) (page : Page) : image p c page = .full := by
  have hlt : (fin 80).lt (shown p c) = true := by
    have hle := hundred_le_shown (shown_eq p c)
    rw [shown_eq, lt_fin, decide_eq_true_eq]
    linarith
  unfold image batteryDisplay
  rw [if_pos hlt]
  by_cases hpage : page.battery = .full
  · rw [if_neg (not_not.mpr hpage)]
    exact hpage
  · rw [if_pos hpage]

/-- Twelve units and less, which is 0.12 V, are shown as 100 per cent. -/
theorem le_twelve_of_shown {p c : UInt16} (h : shown p c = fin 100) :
    p.toNat ≤ 12 ∨ c.toNat ≤ 12 := by
  rw [shown_eq] at h
  have heq : ((max (min p.toNat c.toNat) 12 : ℕ) - 10) * 50 = (100 : ℤ) := by
    exact_mod_cast fin.inj h
  omega

theorem battery_parseMessage {data : Data} {p c : UInt16} (hp : data.ubatPower = some p.toNat)
    (hc : data.ubatCompute = some c.toNat) (page : Page) :
    (parseMessage data page).1.battery = image p c page := by
  have hsome : data.ubatPower ≠ none ∨ data.ubatCompute ≠ none := Or.inl (by rw [hp]; simp)
  unfold parseMessage
  rw [if_pos hsome, hp, hc]
  cases data.vLeft <;> rfl

/-- **Every reply shows a full battery.** -/
theorem battery_statusReply {cfg : CarConfig} {car : Car} {nano : Fin 4 → NanoBoard}
    {connBoards : Fin 4 → Bool} {l r : UInt32} {v : Value} (hl : InUnit l) (hr : InUnit r)
    (h : Parses (statusReply cfg car nano connBoards l r) v) (page : Page) :
    (parseMessage (Data.ofValue v) page).1.battery = .full := by
  have hrear : ∃ q, ofBits (nano cfg.distR).outdat.distance = fin q := by
    by_contra hno
    exact not_parses_statusReply (not_exists.mp hno) v h
  obtain ⟨dR, hdR⟩ := hrear
  obtain rfl := h.unique (parses_statusReply hdR (ofBits_eq_speed hl) (ofBits_eq_speed hr))
  rw [battery_parseMessage (p := (nano cfg.ubatP).outdat.ubat)
    (c := (nano cfg.ubatC).outdat.ubat) rfl rfl]
  exact image_eq_full _ _ page

end Client

open Client

/-- **The display of the battery** is right for no pair of readings. -/
theorem batteryAgrees_never (p c : UInt16) : ¬BatteryAgrees p c := by
  intro hagrees
  obtain ⟨q, hq, -, hle⟩ := hagrees.range
  obtain rfl : q = 100 := le_antisymm hle (hundred_le_shown hq)
  obtain ⟨hp, hc⟩ := hagrees.charged hq
  rw [UInt16.le_iff_toNat_le] at hp hc
  have htwelve := le_twelve_of_shown hq
  have hvalue : (1200 : UInt16).toNat = 1200 := rfl
  omega

/-- With both batteries at 9 V the motors are stopped, and the display shows a full battery. -/
theorem batteryAgrees_fails : ¬ ∀ p c : UInt16, BatteryAgrees p c := by
  intro h
  have hstopped : (batteryHandler ⟨900, 900, .fin 1, .fin 1⟩).state ≠ idle := by decide
  obtain ⟨hzero, -⟩ := (h 900 900).stopped ⟨900, 900, .fin 1, .fin 1⟩ rfl rfl hstopped
  have hle := hundred_le_shown hzero
  norm_num at hle

end LegoCar
