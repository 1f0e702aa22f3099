import Mathlib
import LegoCar.Server.CarHandler

/-!
# What the car handler makes of a commanded speed

A speed is safe (`SafeSpeed`) when it does not change direction, is not faster than commanded, and
respects the limit of every enabled handler for its direction. Without rounding, and for rational
distances, the handlers have rational limits, `battLimit` and `distLimit`, and the speed of a side
is a rational number, `limitedSpeed`.

Since `MIN` is a maximum, the front handler raises a forward speed to its limit instead of limiting
it. A forward speed is safe with the front handler enabled only when the two agree anyway
(`FrontAgrees`); everything else is as it should be (`handleCar_safe_iff`).
-/

namespace LegoCar

/-! ### Rational limits -/

/-- Either battery is empty. -/
def BattLow (ubatPower ubatCompute : UInt16) : Prop := ubatPower < 1000 ∨ ubatCompute < 1000

instance (p c : UInt16) : Decidable (BattLow p c) := inferInstanceAs (Decidable (_ ∨ _))

/-- The limit of the battery handler. -/
def battLimit (ubatPower ubatCompute : UInt16) : ℚ :=
  if BattLow ubatPower ubatCompute then 0 else 1

/-- The limit of a distance handler: none without an obstacle or far from it, standstill close to
it, and in proportion to the distance in between. -/
def distLimit (cfg : CarConfig) (d : ℚ) : ℚ :=
  if d = -1 ∨ cfg.distBreakBegin < d then 1
  else if d < cfg.distMin then 0
  else (d - cfg.distMin) / (cfg.distBreakBegin - cfg.distMin)

/-- The speed of a side, of a commanded speed and the limits that apply to it. -/
def limitedSpeed (cfg : CarConfig) (v batt front rear : ℚ) : ℚ :=
  let e := if cfg.enBattHandler then v * batt else v
  let e := if cfg.enDistHandlerFront ∧ 0 < v then max front e else e
  if cfg.enDistHandlerRear ∧ v < 0 then max (-rear) e else e

/-- The sensor values, with rational distances. -/
def rationalReadings (ubatPower ubatCompute : UInt16) (front rear : ℚ) : Readings :=
  ⟨ubatPower, ubatCompute, .fin front, .fin rear⟩

variable {cfg : CarConfig} {p c : UInt16} {df dr d v batt front rear e vl vr : ℚ}

theorem batteryHandler_limits (p c : UInt16) (df dr : ExtRat) :
    (batteryHandler ⟨p, c, df, dr⟩).vlMax = .fin (battLimit p c) ∧
      (batteryHandler ⟨p, c, df, dr⟩).vrMax = .fin (battLimit p c) := by
  unfold batteryHandler battLimit BattLow
  dsimp only
  by_cases hc : c < 1000
  · simp [hc, idle, batt2Empty]
  · by_cases hp : p < 1000
    · simp [hc, hp, idle, batt1Empty]
    · simp [hc, hp, idle]

theorem distHandler_limits (h : cfg.distMin < cfg.distBreakBegin) (d : ℚ) :
    (distHandler .exact cfg (.fin d)).vlMax = .fin (distLimit cfg d) ∧
      (distHandler .exact cfg (.fin d)).vrMax = .fin (distLimit cfg d) := by
  have hne : cfg.distBreakBegin - cfg.distMin ≠ 0 := (sub_pos.mpr h).ne'
  unfold distHandler distLimit
  simp only [Arithmetic.float_exact, Arithmetic.double_exact, Rounding.apply_exact,
    Rounding.sub_exact, Rounding.mul_exact, Rounding.div_exact, ExtRat.beq_fin, ExtRat.lt_fin,
    decide_eq_true_eq, ExtRat.sub_fin, ExtRat.mul_fin, mul_one, ExtRat.div_fin hne]
  split_ifs <;> exact ⟨rfl, rfl⟩

/-- Both macros are the maximum. -/
theorem macroMIN_fin (a b : ℚ) : macroMIN (.fin a) (.fin b) = .fin (max a b) := by
  simp only [macroMIN, ExtRat.lt_fin, decide_eq_true_eq]
  split_ifs with h
  · rw [max_eq_left h.le]
  · rw [max_eq_right (not_lt.mp h)]

theorem macroMAX_fin (a b : ℚ) : macroMAX (.fin a) (.fin b) = .fin (max a b) := macroMIN_fin a b

theorem limitSpeed_fin (cfg : CarConfig) (v batt front rear : ℚ) :
    limitSpeed .exact cfg v (.fin batt) (.fin front) (.fin rear) =
      .fin (limitedSpeed cfg v batt front rear) := by
  unfold limitSpeed limitedSpeed
  dsimp only
  rw [Arithmetic.float_exact, Rounding.mul_exact, ExtRat.mul_fin, ExtRat.neg_fin,
    ← apply_ite ExtRat.fin, macroMIN_fin, ← apply_ite ExtRat.fin, macroMAX_fin,
    ← apply_ite ExtRat.fin]

theorem leftSpeed_eq (h : cfg.distMin < cfg.distBreakBegin) (p c : UInt16) (df dr v : ℚ) :
    leftSpeed .exact cfg (rationalReadings p c df dr) v =
      .fin (limitedSpeed cfg v (battLimit p c) (distLimit cfg df) (distLimit cfg dr)) := by
  rw [leftSpeed, rationalReadings, (batteryHandler_limits _ _ _ _).1, (distHandler_limits h df).1,
    (distHandler_limits h dr).1, limitSpeed_fin]

theorem rightSpeed_eq (h : cfg.distMin < cfg.distBreakBegin) (p c : UInt16) (df dr v : ℚ) :
    rightSpeed .exact cfg (rationalReadings p c df dr) v =
      .fin (limitedSpeed cfg v (battLimit p c) (distLimit cfg df) (distLimit cfg dr)) := by
  rw [rightSpeed, rationalReadings, (batteryHandler_limits _ _ _ _).2, (distHandler_limits h df).2,
    (distHandler_limits h dr).2, limitSpeed_fin]

/-- A limit of a distance handler is a part of the full speed. -/
theorem distLimit_mem (h : cfg.distMin < cfg.distBreakBegin) (d : ℚ) :
    0 ≤ distLimit cfg d ∧ distLimit cfg d ≤ 1 := by
  have hpos : 0 < cfg.distBreakBegin - cfg.distMin := sub_pos.mpr h
  unfold distLimit
  split_ifs with hfar hnear
  · exact ⟨zero_le_one, le_rfl⟩
  · exact ⟨le_rfl, zero_le_one⟩
  · obtain ⟨-, hle⟩ := not_or.mp hfar
    refine ⟨div_nonneg (by linarith) hpos.le, (div_le_one hpos).mpr ?_⟩
    linarith

/-! ### Safe speeds -/

/-- The speed `e` is safe for the commanded speed `v`, under the given limits. -/
structure SafeSpeed (cfg : CarConfig) (v batt front rear e : ℚ) : Prop where
  direction : 0 ≤ e * v
  command : |e| ≤ |v|
  battery : cfg.enBattHandler = true → |e| ≤ batt
  front : cfg.enDistHandlerFront = true → 0 < v → |e| ≤ front
  rear : cfg.enDistHandlerRear = true → v < 0 → |e| ≤ rear

/-- A speed that is not forward is always safe. -/
theorem safe_of_nonpos (hv : v ≤ 0) (hv1 : -1 ≤ v) (hbatt : batt = 0 ∨ batt = 1)
    (hrear : 0 ≤ rear ∧ rear ≤ 1) :
    SafeSpeed cfg v batt front rear (limitedSpeed cfg v batt front rear) := by
  -- the speed lies between the commanded one and zero, and above the limits
  have hmem : v ≤ limitedSpeed cfg v batt front rear ∧
      limitedSpeed cfg v batt front rear ≤ 0 ∧
      (cfg.enBattHandler = true → -batt ≤ limitedSpeed cfg v batt front rear) ∧
      (cfg.enDistHandlerRear = true → v < 0 → -rear ≤ limitedSpeed cfg v batt front rear) := by
    have hfront : ¬(cfg.enDistHandlerFront = true ∧ 0 < v) := fun h => absurd h.2 (not_lt.mpr hv)
    unfold limitedSpeed
    simp only [if_neg hfront]
    rcases hbatt with rfl | rfl <;> split_ifs with hb hr hr <;> grind
  obtain ⟨hle, hnonpos, hb, hr⟩ := hmem
  refine ⟨mul_nonneg_of_nonpos_of_nonpos hnonpos hv, ?_, ?_, ?_, ?_⟩
  · rw [abs_of_nonpos hnonpos, abs_of_nonpos hv]
    linarith
  · intro hen
    rw [abs_of_nonpos hnonpos]
    linarith [hb hen]
  · intro _ hpos
    exact absurd hpos (not_lt.mpr hv)
  · intro hen hneg
    rw [abs_of_nonpos hnonpos]
    linarith [hr hen hneg]

/-- A forward speed is safe exactly when the front handler agrees with it: its limit is at least
the speed that the battery handler allows, and neither the commanded speed nor the limit of the
battery handler is below it. -/
theorem safe_iff_of_pos (hv : 0 < v) (hv1 : v ≤ 1) (hbatt : batt = 0 ∨ batt = 1)
    (hfront : 0 ≤ front) :
    SafeSpeed cfg v batt front rear (limitedSpeed cfg v batt front rear) ↔
      (cfg.enDistHandlerFront = true →
        (if cfg.enBattHandler then v * batt else v) ≤ front ∧ front ≤ v ∧
          (cfg.enBattHandler = true → front ≤ batt)) := by
  have hrear : ¬(cfg.enDistHandlerRear = true ∧ v < 0) := fun h => absurd h.2 (not_lt.mpr hv.le)
  -- `b` is the speed that the battery handler allows
  set b := if cfg.enBattHandler then v * batt else v with hb
  have hbmem : 0 ≤ b ∧ b ≤ v ∧ (cfg.enBattHandler = true → b ≤ batt) := by
    rw [hb]
    rcases hbatt with rfl | rfl <;> split_ifs <;> grind
  obtain ⟨hb0, hbv, hbb⟩ := hbmem
  cases hen : cfg.enDistHandlerFront with
  | false =>
    have heq : limitedSpeed cfg v batt front rear = b := by
      simp [limitedSpeed, hen, hrear, ← hb]
    rw [heq]
    refine iff_of_true ⟨mul_nonneg hb0 hv.le, ?_, ?_, ?_, ?_⟩ (fun h => absurd h (by decide))
    · rwa [abs_of_nonneg hb0, abs_of_pos hv]
    · rwa [abs_of_nonneg hb0]
    · exact fun h => absurd (hen.symm.trans h) (by decide)
    · exact fun _ hneg => absurd hneg (not_lt.mpr hv.le)
  | true =>
    -- the handler takes the larger of its limit and the speed
    have heq : limitedSpeed cfg v batt front rear = max front b := by
      simp [limitedSpeed, hen, hv, hrear, ← hb]
    have hmax : 0 ≤ max front b := hb0.trans (le_max_right _ _)
    rw [heq]
    constructor
    · rintro ⟨-, hcommand, hbattery, hfrontLe, -⟩ -
      rw [abs_of_nonneg hmax] at hcommand hbattery hfrontLe
      rw [abs_of_pos hv] at hcommand
      exact ⟨(le_max_right _ _).trans (hfrontLe hen hv), (le_max_left _ _).trans hcommand,
        fun h => (le_max_left _ _).trans (hbattery h)⟩
    · intro h
      obtain ⟨hle, hfv, hfb⟩ := h rfl
      rw [max_eq_left hle]
      refine ⟨mul_nonneg hfront hv.le, ?_, ?_, ?_, ?_⟩
      · rwa [abs_of_nonneg hfront, abs_of_pos hv]
      · rwa [abs_of_nonneg hfront]
      · exact fun _ _ => (abs_of_nonneg hfront).le
      · exact fun _ hneg => absurd hneg (not_lt.mpr hv.le)

/-! ### When the front handler agrees -/

/-- The front handler agrees with a forward speed: with an empty battery there is an obstacle in
front for which the car has to stop, and otherwise the limit of the handler is the very speed
commanded. -/
def FrontAgrees (cfg : CarConfig) (p c : UInt16) (df v : ℚ) : Prop :=
  cfg.enDistHandlerFront = true → 0 < v →
    if cfg.enBattHandler = true ∧ BattLow p c then df ≠ -1 ∧ df ≤ cfg.distMin
    else
      (v = 1 ∧ (df = -1 ∨ cfg.distBreakBegin < df)) ∨
        (df ≠ -1 ∧ df = cfg.distMin + v * (cfg.distBreakBegin - cfg.distMin))

theorem distLimit_eq_zero_iff (h : cfg.distMin < cfg.distBreakBegin) :
    distLimit cfg df = 0 ↔ df ≠ -1 ∧ df ≤ cfg.distMin := by
  have hpos : 0 < cfg.distBreakBegin - cfg.distMin := sub_pos.mpr h
  unfold distLimit
  split_ifs with hfar hnear
  · refine iff_of_false one_ne_zero fun hstop => ?_
    rcases hfar with hnone | hfar
    · exact hstop.1 hnone
    · linarith [hstop.2]
  · exact iff_of_true rfl ⟨(not_or.mp hfar).1, hnear.le⟩
  · rw [div_eq_zero_iff, or_iff_left hpos.ne', sub_eq_zero]
    exact ⟨fun heq => ⟨(not_or.mp hfar).1, heq.le⟩,
      fun hstop => le_antisymm hstop.2 (not_lt.mp hnear)⟩

theorem distLimit_eq_iff (h : cfg.distMin < cfg.distBreakBegin) (hv : 0 < v) (hv1 : v ≤ 1) :
    distLimit cfg df = v ↔ (v = 1 ∧ (df = -1 ∨ cfg.distBreakBegin < df)) ∨
      (df ≠ -1 ∧ df = cfg.distMin + v * (cfg.distBreakBegin - cfg.distMin)) := by
  have hpos : 0 < cfg.distBreakBegin - cfg.distMin := sub_pos.mpr h
  -- in the breaking zone the limit is linear in the distance
  have hbreak : df = cfg.distMin + v * (cfg.distBreakBegin - cfg.distMin) ↔
      (df - cfg.distMin) / (cfg.distBreakBegin - cfg.distMin) = v := by
    rw [div_eq_iff hpos.ne']
    constructor <;> intro heq <;> linarith
  have hle : v * (cfg.distBreakBegin - cfg.distMin) ≤ cfg.distBreakBegin - cfg.distMin :=
    mul_le_of_le_one_left hpos.le hv1
  have hge : 0 < v * (cfg.distBreakBegin - cfg.distMin) := mul_pos hv hpos
  unfold distLimit
  split_ifs with hfar hnear
  · constructor
    · exact fun hone => Or.inl ⟨hone.symm, hfar⟩
    · rintro (⟨hone, -⟩ | ⟨hsome, heq⟩)
      · exact hone.symm
      · -- a distance in the breaking zone is not beyond it
        rcases hfar with hnone | hfar
        · exact absurd hnone hsome
        · linarith
  · refine iff_of_false hv.ne fun hagree => ?_
    rcases hagree with ⟨-, hfar'⟩ | ⟨-, heq⟩
    · exact hfar hfar'
    · linarith
  · rw [← hbreak]
    constructor
    · exact fun heq => Or.inr ⟨(not_or.mp hfar).1, heq⟩
    · rintro (⟨-, hfar'⟩ | ⟨-, heq⟩)
      · exact absurd hfar' hfar
      · exact heq

theorem battLimit_eq (p c : UInt16) : battLimit p c = 0 ∨ battLimit p c = 1 := by
  unfold battLimit
  split_ifs
  · exact Or.inl rfl
  · exact Or.inr rfl

/-- A speed is safe exactly when the front handler agrees. -/
theorem safe_iff_frontAgrees (h : cfg.distMin < cfg.distBreakBegin) (hv : -1 ≤ v ∧ v ≤ 1) :
    SafeSpeed cfg v (battLimit p c) (distLimit cfg df) (distLimit cfg dr)
        (limitedSpeed cfg v (battLimit p c) (distLimit cfg df) (distLimit cfg dr)) ↔
      FrontAgrees cfg p c df v := by
  obtain ⟨hf0, hf1⟩ := distLimit_mem h df
  rcases lt_or_ge 0 v with hpos | hnonpos
  · rw [safe_iff_of_pos hpos hv.2 (battLimit_eq p c) hf0, FrontAgrees]
    refine imp_congr_right fun _ => ?_
    rw [forall_prop_of_true hpos, ← distLimit_eq_iff h hpos hv.2, ← distLimit_eq_zero_iff h]
    unfold battLimit
    by_cases hlow : BattLow p c <;> cases cfg.enBattHandler <;> simp [hlow] <;> grind
  · exact iff_of_true (safe_of_nonpos hnonpos hv.1 (battLimit_eq p c) (distLimit_mem h dr))
      fun _ hpos => absurd hpos (not_lt.mpr hnonpos)

/-! ### Set values -/

/-- Both speeds are safe; in particular the car stands still on an empty battery, and does not
drive towards an obstacle in front. Forward is positive for boards 0 and 1 and negative for boards
2 and 3. -/
structure SpeedsSafe (cfg : CarConfig) (p c : UInt16) (df dr vl vr : ℚ) : Prop where
  left : ∃ e, leftSpeed .exact cfg (rationalReadings p c df dr) vl = .fin e ∧
    SafeSpeed cfg vl (battLimit p c) (distLimit cfg df) (distLimit cfg dr) e
  right : ∃ e, rightSpeed .exact cfg (rationalReadings p c df dr) vr = .fin e ∧
    SafeSpeed cfg vr (battLimit p c) (distLimit cfg df) (distLimit cfg dr) e
  battery : cfg.enBattHandler = true → BattLow p c →
    ∀ i, setValues .exact cfg (rationalReadings p c df dr) vl vr i = 0
  front : cfg.enDistHandlerFront = true → df ≠ -1 → df < cfg.distMin →
    let W := setValues .exact cfg (rationalReadings p c df dr) vl vr
    W 0 ≤ 0 ∧ W 1 ≤ 0 ∧ 0 ≤ W 2 ∧ 0 ≤ W 3

/-- The set value of a speed in `[-1, 0]` is not positive, and that of its opposite is not
negative. -/
theorem setValue_of_nonpos (he : e ≤ 0) (he1 : -1 ≤ e) :
    Int32.ofInt ((ExtRat.fin e).mul (.fin vMax)).trunc ≤ 0 ∧
      0 ≤ Int32.ofInt ((ExtRat.fin e).mul (.fin (-vMax))).trunc := by
  obtain ⟨hle, hnonpos⟩ := ExtRat.trunc_fin_mem_of_nonpos (q := e * vMax) (n := 200)
    (by unfold vMax; linarith) (by unfold vMax; push_cast; linarith)
  push_cast at hle
  constructor
  · rw [Int32.le_iff_toInt_le, ExtRat.mul_fin, Int32.toInt_ofInt_of_le (by omega) (by omega)]
    exact hnonpos
  · rw [Int32.le_iff_toInt_le, ExtRat.mul_fin, mul_neg, ExtRat.trunc_fin_neg,
      Int32.toInt_ofInt_of_le (by omega) (by omega), Int32.toInt_zero]
    omega

/-- A safe speed is zero on an empty battery. -/
theorem SafeSpeed.eq_zero (h : SafeSpeed cfg v (battLimit p c) front rear e)
    (hen : cfg.enBattHandler = true) (hlow : BattLow p c) : e = 0 := by
  have hle := h.battery hen
  rw [battLimit, if_pos hlow] at hle
  exact abs_nonpos_iff.mp hle

/-- A safe speed is not forward when the car has to stop for an obstacle in front. -/
theorem SafeSpeed.nonpos (h : SafeSpeed cfg v batt front rear e)
    (hen : cfg.enDistHandlerFront = true) (hstop : front = 0) : e ≤ 0 := by
  subst hstop
  rcases lt_or_ge 0 v with hpos | hnonpos
  · exact (abs_nonpos_iff.mp (h.front hen hpos)).le
  · by_contra hpos
    rcases hnonpos.lt_or_eq with hneg | rfl
    · linarith [mul_neg_of_pos_of_neg (not_le.mp hpos) hneg, h.direction]
    · exact hpos (abs_nonpos_iff.mp (h.command.trans_eq abs_zero)).le

theorem SafeSpeed.ge_neg_one (h : SafeSpeed cfg v batt front rear e) (hv : -1 ≤ v ∧ v ≤ 1) :
    -1 ≤ e :=
  (abs_le.mp (h.command.trans (abs_le.mpr hv))).1

/-- **The car handler.** The speeds that `handle_car` turns into set values are safe exactly when
the front handler agrees with both commanded speeds. -/
theorem handleCar_safe_iff (cfg : CarConfig) (p c : UInt16) (df dr vl vr : ℚ)
    (h : cfg.distMin < cfg.distBreakBegin) (hvl : -1 ≤ vl ∧ vl ≤ 1) (hvr : -1 ≤ vr ∧ vr ≤ 1) :
    SpeedsSafe cfg p c df dr vl vr ↔ FrontAgrees cfg p c df vl ∧ FrontAgrees cfg p c df vr := by
  have hleft := leftSpeed_eq h p c df dr vl
  have hright := rightSpeed_eq h p c df dr vr
  rw [← safe_iff_frontAgrees h hvl, ← safe_iff_frontAgrees h hvr]
  constructor
  · rintro ⟨⟨el, hel, hsafel⟩, ⟨er, her, hsafer⟩, -, -⟩
    obtain rfl := ExtRat.fin.inj (hleft.symm.trans hel)
    obtain rfl := ExtRat.fin.inj (hright.symm.trans her)
    exact ⟨hsafel, hsafer⟩
  · rintro ⟨hsafel, hsafer⟩
    refine ⟨⟨_, hleft, hsafel⟩, ⟨_, hright, hsafer⟩, fun hen hlow i => ?_,
      fun hen hsome hnear => ?_⟩
    · have hzero : ((ExtRat.fin 0).mul (.fin vMax)).trunc = 0 ∧
          ((ExtRat.fin 0).mul (.fin (-vMax))).trunc = 0 := by simp [ExtRat.trunc]
      rw [setValues, hleft, hright, hsafel.eq_zero hen hlow, hsafer.eq_zero hen hlow]
      simp only [Arithmetic.float_exact, Rounding.mul_exact, hzero.1, hzero.2]
      fin_cases i <;> rfl
    · have hstop : distLimit cfg df = 0 := (distLimit_eq_zero_iff h).mpr ⟨hsome, hnear.le⟩
      have hel := setValue_of_nonpos (hsafel.nonpos hen hstop) (hsafel.ge_neg_one hvl)
      have her := setValue_of_nonpos (hsafer.nonpos hen hstop) (hsafer.ge_neg_one hvr)
      dsimp only
      rw [setValues, hleft, hright]
      exact ⟨her.1, her.1, hel.2, hel.2⟩

/-- Settings in which all handlers apply, with the distances of the configuration file. -/
def allHandlers : CarConfig where
  ubatP := 2
  ubatC := 1
  distF := 3
  distR := 2
  enDistHandlerFront := true
  enDistHandlerRear := true
  enBattHandler := true
  distMin := 1 / 10
  distBreakBegin := 1

/-- Full speed ahead with nothing in front: the front handler agrees. -/
theorem handleCar_safe_clear : SpeedsSafe allHandlers 1200 1200 (-1) (-1) 1 (-1) :=
  (handleCar_safe_iff allHandlers 1200 1200 (-1) (-1) 1 (-1) (by norm_num [allHandlers])
    (by norm_num) (by norm_num)).mpr
    ⟨fun _ _ => (if_neg (by decide)).mpr (Or.inl ⟨rfl, Or.inl rfl⟩),
      fun _ h => absurd h (by norm_num)⟩

/-- **The front handler does not limit.** At half speed towards an obstacle at 5 cm, where the car
has to stop, it drives on: the set value of board 0 is 100. -/
theorem handleCar_drives_on :
    ¬ ∀ cfg p c df dr vl vr, cfg.distMin < cfg.distBreakBegin → (-1 ≤ vl ∧ vl ≤ 1) →
      (-1 ≤ vr ∧ vr ≤ 1) → SpeedsSafe cfg p c df dr vl vr := by
  intro h
  have hsafe := h allHandlers 1200 1200 (1 / 20) (-1) (1 / 2) (1 / 2) (by norm_num [allHandlers])
    (by norm_num) (by norm_num)
  have hstop := (hsafe.front rfl (by norm_num) (by norm_num [allHandlers])).1
  have hdrive : setValues .exact allHandlers (rationalReadings 1200 1200 (1 / 20) (-1)) (1 / 2)
      (1 / 2) 0 = 100 := by decide +kernel
  rw [hdrive] at hstop
  exact absurd hstop (by decide)

end LegoCar
