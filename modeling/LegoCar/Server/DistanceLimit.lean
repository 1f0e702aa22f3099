import Mathlib
import LegoCar.Server.Configuration
import LegoCar.Server.SpeedLimit

/-!
# The limit of a distance handler

A distance handler has three zones: full speed beyond `Dist_break_begin` and without an obstacle,
standstill below `Dist_min`, and a ramp in between, which is computed here without rounding. The
thresholds come from the configuration file as they are; `init_car` notices when one cannot be read,
and goes on with zeros.

With `Dist_min` below `Dist_break_begin` the limit is the ramp cut off at 0 and 1
(`distLimit_eq_clamp`). If they are equal, the ramp is a single distance at which it divides by
zero, and if they are reversed, the zones overlap. The one exception is a ramp that consists of the
value `-1` alone, which stands for no obstacle and never gets there (`distanceLimit_iff`).
-/

namespace LegoCar

/-- What the limit of a distance handler is for: it is computed without a division by zero and is
a part of the full speed, the same on both sides; it is standstill below the one threshold and full
speed above the other; and a nearer obstacle never allows a higher speed. -/
structure LimitsDistance (cfg : CarConfig) : Prop where
  divisor : ∀ d : ℚ, (distHandler .exact cfg (.fin d)).state = distBreaking →
    cfg.distBreakBegin - cfg.distMin ≠ 0
  part : ∀ d : ℚ, ∃ v : ℚ, (distHandler .exact cfg (.fin d)).vlMax = .fin v ∧
    (distHandler .exact cfg (.fin d)).vrMax = .fin v ∧ 0 ≤ v ∧ v ≤ 1
  stop : ∀ d : ℚ, d ≠ -1 → d < cfg.distMin → (distHandler .exact cfg (.fin d)).vlMax = .fin 0
  full : ∀ d : ℚ, d ≠ -1 → cfg.distBreakBegin < d → (distHandler .exact cfg (.fin d)).vlMax = .fin 1
  mono : ∀ d d' v v' : ℚ, d ≠ -1 → d' ≠ -1 → d ≤ d' →
    (distHandler .exact cfg (.fin d)).vlMax = .fin v →
    (distHandler .exact cfg (.fin d')).vlMax = .fin v' → v ≤ v'

variable {cfg : CarConfig} {d d' : ℚ}

/-! ### The three zones -/

theorem distHandler_far (h : d = -1 ∨ cfg.distBreakBegin < d) :
    distHandler .exact cfg (.fin d) = ⟨idle, .fin 1, .fin 1⟩ := by
  unfold distHandler
  rw [if_pos (by simpa using h)]

theorem distHandler_near (h : ¬(d = -1 ∨ cfg.distBreakBegin < d)) (hd : d < cfg.distMin) :
    distHandler .exact cfg (.fin d) = ⟨distStop, .fin 0, .fin 0⟩ := by
  unfold distHandler
  rw [if_neg (by simpa using h), if_pos (by simpa using hd)]

theorem distHandler_breaking (h : ¬(d = -1 ∨ cfg.distBreakBegin < d)) (hd : ¬d < cfg.distMin) :
    (distHandler .exact cfg (.fin d)).state = distBreaking := by
  unfold distHandler
  rw [if_neg (by simpa using h), if_neg (by simpa using hd)]

/-! ### Thresholds in order -/

/-- Away from the value for no obstacle, the limit is the ramp cut off at standstill and at full
speed. -/
theorem distLimit_eq_clamp (h : cfg.distMin < cfg.distBreakBegin) (hd : d ≠ -1) :
    distLimit cfg d =
      max 0 (min 1 ((d - cfg.distMin) / (cfg.distBreakBegin - cfg.distMin))) := by
  have hpos : 0 < cfg.distBreakBegin - cfg.distMin := sub_pos.mpr h
  unfold distLimit
  split_ifs with hfar hnear
  · have hge : 1 ≤ (d - cfg.distMin) / (cfg.distBreakBegin - cfg.distMin) := by
      rw [one_le_div hpos]
      linarith [hfar.resolve_left hd]
    rw [min_eq_left hge, max_eq_right zero_le_one]
  · have hneg : (d - cfg.distMin) / (cfg.distBreakBegin - cfg.distMin) ≤ 0 :=
      div_nonpos_of_nonpos_of_nonneg (by linarith) hpos.le
    rw [max_eq_left ((min_le_right _ _).trans hneg)]
  · obtain ⟨-, hle⟩ := not_or.mp hfar
    have hnonneg : 0 ≤ (d - cfg.distMin) / (cfg.distBreakBegin - cfg.distMin) :=
      div_nonneg (by linarith) hpos.le
    have hle_one : (d - cfg.distMin) / (cfg.distBreakBegin - cfg.distMin) ≤ 1 := by
      rw [div_le_one hpos]
      linarith
    rw [min_eq_right hle_one, max_eq_right hnonneg]

theorem distLimit_mono (h : cfg.distMin < cfg.distBreakBegin) (hd : d ≠ -1) (hd' : d' ≠ -1)
    (hle : d ≤ d') : distLimit cfg d ≤ distLimit cfg d' := by
  have hpos : 0 < cfg.distBreakBegin - cfg.distMin := sub_pos.mpr h
  rw [distLimit_eq_clamp h hd, distLimit_eq_clamp h hd']
  gcongr

theorem limitsDistance_of_lt (h : cfg.distMin < cfg.distBreakBegin) : LimitsDistance cfg where
  divisor := fun _ _ => (sub_pos.mpr h).ne'
  part := fun d => ⟨distLimit cfg d, (distHandler_limits h d).1, (distHandler_limits h d).2,
    distLimit_mem h d⟩
  stop := fun d hd hlt => by rw [distHandler_near (by simp [hd]; linarith) hlt]
  full := fun d _ hlt => by rw [distHandler_far (Or.inr hlt)]
  mono := fun d d' v v' hd hd' hle hv hv' => by
    rw [(distHandler_limits h d).1] at hv
    rw [(distHandler_limits h d').1] at hv'
    rw [← ExtRat.fin.inj hv, ← ExtRat.fin.inj hv']
    exact distLimit_mono h hd hd' hle

/-! ### Other thresholds -/

/-- Where both thresholds are the value for no obstacle, the ramp is never reached. -/
theorem distHandler_of_empty (hmin : cfg.distMin = -1) (hbreak : cfg.distBreakBegin = -1) (d : ℚ) :
    distHandler .exact cfg (.fin d) = ⟨idle, .fin 1, .fin 1⟩ ∧ -1 ≤ d ∨
      distHandler .exact cfg (.fin d) = ⟨distStop, .fin 0, .fin 0⟩ ∧ d < -1 := by
  rcases lt_or_ge d (-1) with hlt | hge
  · refine Or.inr ⟨distHandler_near ?_ (by rwa [hmin]), hlt⟩
    rw [hbreak]
    exact not_or.mpr ⟨hlt.ne, hlt.not_gt⟩
  · refine Or.inl ⟨distHandler_far ?_, hge⟩
    rw [hbreak]
    exact hge.eq_or_lt.imp Eq.symm id

theorem limitsDistance_of_empty (hmin : cfg.distMin = -1) (hbreak : cfg.distBreakBegin = -1) :
    LimitsDistance cfg where
  divisor := fun d hd => by
    rcases distHandler_of_empty hmin hbreak d with ⟨heq, -⟩ | ⟨heq, -⟩
    · exact absurd (heq ▸ hd) (by decide)
    · exact absurd (heq ▸ hd) (by decide)
  part := fun d => by
    rcases distHandler_of_empty hmin hbreak d with ⟨heq, -⟩ | ⟨heq, -⟩ <;> rw [heq]
    · exact ⟨1, rfl, rfl, zero_le_one, le_rfl⟩
    · exact ⟨0, rfl, rfl, le_rfl, zero_le_one⟩
  stop := fun d _ hlt => by
    rcases distHandler_of_empty hmin hbreak d with ⟨-, hge⟩ | ⟨heq, -⟩
    · exact absurd hge (not_le.mpr (hmin ▸ hlt))
    · rw [heq]
  full := fun d _ hlt => by rw [distHandler_far (Or.inr hlt)]
  mono := fun d d' v v' _ _ hle hv hv' => by
    rcases distHandler_of_empty hmin hbreak d with ⟨heq, hge⟩ | ⟨heq, -⟩ <;>
      rcases distHandler_of_empty hmin hbreak d' with ⟨heq', -⟩ | ⟨heq', hlt'⟩ <;>
      rw [heq] at hv <;> rw [heq'] at hv' <;>
      rw [← ExtRat.fin.inj hv, ← ExtRat.fin.inj hv']
    · exact absurd (hle.trans_lt hlt') (not_lt.mpr hge)
    · exact zero_le_one

/-- Reversed thresholds: what is between them is both too near and far enough. -/
theorem not_limitsDistance_of_gt (h : cfg.distBreakBegin < cfg.distMin) : ¬LimitsDistance cfg := by
  intro hlimits
  -- a distance between the thresholds that is not the value for no obstacle
  obtain ⟨d, hd, hlo, hhi⟩ : ∃ d : ℚ, d ≠ -1 ∧ cfg.distBreakBegin < d ∧ d < cfg.distMin := by
    obtain ⟨d, hlo, hhi⟩ := exists_between h
    obtain ⟨d', hlo', hhi'⟩ := exists_between hlo
    by_cases hd : d = -1
    · exact ⟨d', fun h' => hhi'.ne (h'.trans hd.symm), hlo', hhi'.trans hhi⟩
    · exact ⟨d, hd, hlo, hhi⟩
  have hzero := hlimits.stop d hd hhi
  rw [hlimits.full d hd hlo] at hzero
  exact one_ne_zero (ExtRat.fin.inj hzero)

/-- Equal thresholds: the ramp divides by zero at its only distance. -/
theorem not_limitsDistance_of_eq (h : cfg.distMin = cfg.distBreakBegin)
    (hne : cfg.distBreakBegin ≠ -1) : ¬LimitsDistance cfg := by
  intro hlimits
  refine hlimits.divisor cfg.distBreakBegin (distHandler_breaking ?_ ?_) ?_
  · exact not_or.mpr ⟨hne, lt_irrefl _⟩
  · rw [h]
    exact lt_irrefl _
  · rw [h, sub_self]

/-- **The limit of a distance handler** is what it is for exactly when `Dist_min` is below
`Dist_break_begin` or both are the value for no obstacle. -/
theorem distanceLimit_iff (cfg : CarConfig) :
    LimitsDistance cfg ↔
      cfg.distMin < cfg.distBreakBegin ∨ cfg.distMin = -1 ∧ cfg.distBreakBegin = -1 := by
  constructor
  · intro hlimits
    rcases lt_trichotomy cfg.distMin cfg.distBreakBegin with hlt | heq | hgt
    · exact Or.inl hlt
    · by_cases hbreak : cfg.distBreakBegin = -1
      · exact Or.inr ⟨heq.trans hbreak, hbreak⟩
      · exact absurd hlimits (not_limitsDistance_of_eq heq hbreak)
    · exact absurd hlimits (not_limitsDistance_of_gt hgt)
  · rintro (hlt | ⟨hmin, hbreak⟩)
    · exact limitsDistance_of_lt hlt
    · exact limitsDistance_of_empty hmin hbreak

/-- `init_car` lets every pair of thresholds through. -/
theorem initCar_thresholds {conf : ConfigFile} (h : conf.SensorsRead) (m b : ℚ) :
    ∃ g, Server.initCar { conf with Dist_min := some m, Dist_break_begin := some b } = .ok g ∧
      g.distMin = m ∧ g.distBreakBegin = b :=
  ⟨_, Server.initCar_of_sensorsRead h, rfl, rfl⟩

/-- **Thresholds that cannot be read** are let through: both are zero, and at the distance 0 the
handler divides by zero. -/
theorem distanceLimit_fails : ¬ ∀ (conf : ConfigFile) (g : Settings) (cfg : CarConfig),
    Server.initCar conf = .ok g → cfg.distMin = g.distMin →
      cfg.distBreakBegin = g.distBreakBegin → LimitsDistance cfg := by
  intro h
  have hread : Server.initCar { carserverFile with Dist_min := none } =
      .ok (ConfigFile.settings { carserverFile with Dist_min := none }) :=
    Server.initCar_of_sensorsRead (by decide)
  have hlimits := h _ _ ⟨2, 1, 0, 0, true, true, true, 0, 0⟩ hread rfl rfl
  exact hlimits.divisor 0 (distHandler_breaking (by norm_num) (by norm_num)) (by norm_num)

end LegoCar
