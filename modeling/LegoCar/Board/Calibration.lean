import Mathlib
import LegoCar.Lib.Int32Exact
import LegoCar.Board.Accelerometer
import LegoCar.Board.AccelSums

/-!
# The calibration of the acceleration sensor

The loop of the calibration advances with every sample that it reads, and it is left when a read
fails. A poll without data changes nothing, and a poll whose interrupt source cannot be read counts
as one without data. The calibration returns exactly when one of the ways out is reached
(`calibration_terminates_iff`): a sensor that never has data ready holds up the board for ever.

The offsets are stored only where the diagnostics of `VERBOSE` are compiled in. Without them the
calibration takes effect exactly when it finds nothing to correct (`calibration_iff`).
-/

namespace LegoCar

open Driven Board Transfer Calibration Int32Exact

section

variable (polls : ℕ → Poll)

/-- Data is ready in a poll. -/
abbrev ReadyAt (k : ℕ) : Prop := adxl345SpiIsDataReady (polls k).intSource = true

/-- The samples read in the first `n` polls. -/
abbrev samplesBefore (n : ℕ) : List (Fin 3 → Int16) := observed (fun k => (polls k).sample) n

/-- The sensor delivers the 100 samples: it is initialised, and no read fails before the last. -/
def SamplesDelivered (writes : Fin 5 → Transfer) : Prop :=
  adxl345SpiInit writes = true ∧
    ∃ n, (samplesBefore polls n).length = 100 ∧ ∀ k < n, (polls k).fails = false

/-- The calibration returns, with `-1` if the sensor does not deliver the samples. -/
structure CalibrationReturns (verbose : Bool) (writes : Fin 5 → Transfer)
    (accCali : Fin 3 → Int16) : Prop where
  returns : ∃ fuel, (calibrateAcc verbose writes polls accCali fuel).isSome
  failure : ∀ fuel r, calibrateAcc verbose writes polls accCali fuel = some r →
    ¬SamplesDelivered polls writes → r.1 = -1

end

/-- The exact sum of an axis over samples. -/
def axisSum (samples : List (Fin 3 → Int16)) (j : Fin 3) : ℤ :=
  (samples.map fun szXYZ => (szXYZ j).toInt).sum

/-- The offset that 100 samples stand for: their sum divided by 25, minus 1000 for the z-axis. -/
def exactOffset (samples : List (Fin 3 → Int16)) (j : Fin 3) : ℤ :=
  (axisSum samples j).tdiv 25 - if j = 2 then 1000 else 0

/-- The calibration takes effect: the offsets are those of the samples, and in every run every
reading of the sensor is reported relative to them. -/
structure TakesEffect (samples : List (Fin 3 → Int16)) (accCali : Fin 3 → Int16) : Prop where
  offset : ∀ j, (accCali j).toInt = exactOffset samples j
  reported : ∀ (indat : Indata) (outdat : Outdata) (inp : ℕ → BoardInput) (n : ℕ) (p : Poll)
    (szXYZ : Fin 3 → Int16), n % 10 = 2 → inp n = (inp n).withPoll p → p.sample = some szXYZ →
      ∀ j, (boardAt (boot indat outdat accCali) inp (n + 1)).outdat.Acc.acc j =
        Int16.ofInt ((szXYZ j).toInt * 4 - exactOffset samples j)

/-! ### The loop -/

/-- What a poll comes to: no data, a sample, or a read that fails. -/
inductive Polled (p : Poll) (s : Calibration) : Calibration → Prop where
  | idle (hready : adxl345SpiIsDataReady p.intSource = false) : Polled p s s
  | read (szXYZ : Fin 3 → Int16) (hready : adxl345SpiIsDataReady p.intSource = true)
      (hread : adxl345SpiXYZRead p.xyz = some szXYZ) :
      Polled p s ⟨s.i + 1, true, fun j => s.sumXYZ j + (szXYZ j).toInt32⟩
  | failed (hready : adxl345SpiIsDataReady p.intSource = true)
      (hread : adxl345SpiXYZRead p.xyz = none) : Polled p s { s with bSuccess := false }

theorem body_polled (p : Poll) (s : Calibration) : Polled p s (body p s) := by
  unfold body
  split_ifs with hready
  · split
    · exact .read _ hready ‹_›
    · exact .failed hready ‹_›
  · exact .idle (Bool.not_eq_true _ ▸ hready)

variable {polls : ℕ → Poll} {n : ℕ} {p : Poll} {szXYZ : Fin 3 → Int16}

theorem sample_of_idle (hready : adxl345SpiIsDataReady p.intSource = false) :
    p.sample = none ∧ p.fails = false := by
  simp [Poll.sample, Poll.fails, hready]

theorem sample_of_read (hready : adxl345SpiIsDataReady p.intSource = true)
    (hread : adxl345SpiXYZRead p.xyz = some szXYZ) : p.sample = some szXYZ ∧ p.fails = false := by
  simp [Poll.sample, Poll.fails, hready, hread]

theorem sample_of_failed (hready : adxl345SpiIsDataReady p.intSource = true)
    (hread : adxl345SpiXYZRead p.xyz = none) : p.sample = none ∧ p.fails = true := by
  simp [Poll.sample, Poll.fails, hready, hread]

theorem samplesBefore_succ_of_none (h : (polls n).sample = none) :
    samplesBefore polls (n + 1) = samplesBefore polls n := by
  rw [samplesBefore, observed, h]
  exact List.append_nil _

theorem samplesBefore_succ_of_some (h : (polls n).sample = some szXYZ) :
    samplesBefore polls (n + 1) = samplesBefore polls n ++ [szXYZ] := by
  rw [samplesBefore, observed, h]
  rfl

/-- Where no read fails, every poll with data ready gives a sample. -/
theorem length_samplesBefore (h : ∀ k < n, (polls k).fails = false) :
    (samplesBefore polls n).length = Nat.count (ReadyAt polls) n := by
  induction n with
  | zero => rfl
  | succ n ih =>
    have hlast := h n (Nat.lt_succ_self n)
    rw [Nat.count_succ, ← ih fun k hk => h k (Nat.lt_succ_of_lt hk)]
    by_cases hready : ReadyAt polls n
    · rw [if_pos hready]
      cases hread : adxl345SpiXYZRead (polls n).xyz with
      | none => exact absurd (hlast.symm.trans (sample_of_failed hready hread).2) (by decide)
      | some szXYZ =>
        rw [samplesBefore_succ_of_some (sample_of_read hready hread).1, List.length_append]
        rfl
    · rw [if_neg hready]
      exact congrArg List.length
        (samplesBefore_succ_of_none (sample_of_idle (Bool.not_eq_true _ ▸ hready)).1)

theorem axisSum_append_singleton (samples : List (Fin 3 → Int16)) (szXYZ : Fin 3 → Int16)
    (j : Fin 3) : axisSum (samples ++ [szXYZ]) j = axisSum samples j + (szXYZ j).toInt := by
  simp [axisSum]

theorem abs_axisSum_le (samples : List (Fin 3 → Int16)) (j : Fin 3) :
    |axisSum samples j| ≤ 32768 * samples.length := by
  induction samples with
  | nil => simp [axisSum]
  | cons szXYZ samples ih =>
    have hle : |(szXYZ j).toInt| ≤ 32768 := by
      have hlo := (szXYZ j).le_toInt
      have hhi := (szXYZ j).toInt_lt
      rw [abs_le]
      omega
    have hcons : axisSum (szXYZ :: samples) j = (szXYZ j).toInt + axisSum samples j := by
      simp [axisSum]
    rw [hcons, List.length_cons]
    push_cast
    linarith [abs_add_le (szXYZ j).toInt (axisSum samples j)]

/-- The variables of the loop after `k` polls: the samples are counted and their sums are exact,
and `bSuccess` is cleared by a failure of the sensor only. -/
structure CalibrationInv (polls : ℕ → Poll) (writes : Fin 5 → Transfer) (k : ℕ)
    (s : Calibration) : Prop where
  bound : s.i ≤ 100
  count : s.i = (samplesBefore polls k).length
  sum : ∀ j, Exact (s.sumXYZ j) (axisSum (samplesBefore polls k) j)
  success : s.bSuccess = true →
    adxl345SpiInit writes = true ∧ ∀ m < k, (polls m).fails = false
  failure : s.bSuccess = false → adxl345SpiInit writes = false ∨ ∃ m, (polls m).fails = true

theorem calibrationInv_zero (polls : ℕ → Poll) (writes : Fin 5 → Transfer) :
    CalibrationInv polls writes 0 ⟨0, adxl345SpiInit writes, fun _ => 0⟩ where
  bound := Nat.zero_le _
  count := rfl
  sum := fun _ => rfl
  success := fun h => ⟨h, fun m hm => absurd hm (Nat.not_lt_zero m)⟩
  failure := Or.inl

/-- The step of the calibration. -/
theorem calibrationInv_step {writes : Fin 5 → Transfer} (k : ℕ) (s : Calibration)
    (hguard : s.guard = true) (h : CalibrationInv polls writes k s) :
    CalibrationInv polls writes (k + 1) (body (polls k) s) := by
  obtain ⟨hlt, hsuccess⟩ : s.i < 100 ∧ s.bSuccess = true := by
    simpa [Calibration.guard] using hguard
  obtain ⟨hinit, hfails⟩ := h.success hsuccess
  have hmore : (polls k).fails = false → ∀ m < k + 1, (polls m).fails = false := by
    intro hk m hm
    rcases Nat.lt_succ_iff_lt_or_eq.mp hm with hm | rfl
    · exact hfails m hm
    · exact hk
  have hbody := body_polled (polls k) s
  generalize body (polls k) s = s' at hbody ⊢
  cases hbody with
  | idle hready =>
    obtain ⟨hsample, hok⟩ := sample_of_idle hready
    have hsame := samplesBefore_succ_of_none hsample
    exact ⟨h.bound, hsame ▸ h.count, hsame ▸ h.sum, fun _ => ⟨hinit, hmore hok⟩,
      fun hno => absurd (hsuccess.symm.trans hno) (by decide)⟩
  | read szXYZ hready hread =>
    obtain ⟨hsample, hok⟩ := sample_of_read hready hread
    have hadd := samplesBefore_succ_of_some hsample
    have hlen : s.i + 1 = (samplesBefore polls (k + 1)).length := by
      rw [hadd, List.length_append, ← h.count]
      rfl
    refine ⟨hlt, hlen, fun j => ?_, fun _ => ⟨hinit, hmore hok⟩,
      fun hno => absurd hno.symm Bool.false_ne_true⟩
    have habs := abs_axisSum_le (samplesBefore polls (k + 1)) j
    rw [← hlen] at habs
    have hfits : Fits (axisSum (samplesBefore polls (k + 1)) j) :=
      fits_of_abs_le habs (by push_cast; omega)
    rw [hadd, axisSum_append_singleton] at hfits ⊢
    exact (h.sum j).add (Int16.toInt_toInt32 _) hfits
  | failed hready hread =>
    obtain ⟨hsample, hfail⟩ := sample_of_failed hready hread
    have hsame := samplesBefore_succ_of_none hsample
    exact ⟨h.bound, hsame ▸ h.count, hsame ▸ h.sum, fun hyes => absurd hyes Bool.false_ne_true,
      fun _ => Or.inr ⟨k, hfail⟩⟩

/-- The state in which the loop starts. -/
abbrev startCalibration (writes : Fin 5 → Transfer) : Calibration :=
  ⟨0, adxl345SpiInit writes, fun _ => 0⟩

/-- While the loop runs, its invariant holds. -/
theorem calibrationInv {writes : Fin 5 → Transfer}
    (hrun : ∀ k < n, guard (WhileLoop.after guard body (startCalibration writes) polls k) = true) :
    CalibrationInv polls writes n
      (WhileLoop.after guard body (startCalibration writes) polls n) :=
  WhileLoop.after_induction (calibrationInv_zero polls writes) calibrationInv_step hrun

/-- What is left of the invariant when the loop is left: the sensor failed or 100 samples are in. -/
theorem calibrateAcc_cases {verbose : Bool} {writes : Fin 5 → Transfer}
    {accCali : Fin 3 → Int16} {fuel : ℕ} {r : Int32 × (Fin 3 → Int16)}
    (h : calibrateAcc verbose writes polls accCali fuel = some r) :
    ∃ k s, CalibrationInv polls writes k s ∧ r = finish verbose accCali s ∧
      (s.bSuccess = false ∨ s.bSuccess = true ∧ (samplesBefore polls k).length = 100) := by
  obtain ⟨s, hrun, hr⟩ := Option.map_eq_some_iff.mp h
  obtain ⟨k, hinv, hguard⟩ :=
    WhileLoop.run_induction (calibrationInv_zero polls writes) calibrationInv_step hrun
  refine ⟨k, s, hinv, hr.symm, ?_⟩
  cases hsuccess : s.bSuccess with
  | false => exact Or.inl rfl
  | true =>
    have hle : 100 ≤ s.i := by simpa [Calibration.guard, hsuccess] using hguard
    exact Or.inr ⟨rfl, hinv.count ▸ le_antisymm hinv.bound hle⟩

/-- The ways out of the loop. -/
theorem returns_of_exit {verbose : Bool} {writes : Fin 5 → Transfer} {accCali : Fin 3 → Int16}
    (h : adxl345SpiInit writes = false ∨ (∃ k, (polls k).fails = true) ∨
      ∃ n, 100 ≤ Nat.count (ReadyAt polls) n) :
    ∃ fuel, (calibrateAcc verbose writes polls accCali fuel).isSome := by
  have hmap : ∀ fuel, (calibrateAcc verbose writes polls accCali fuel).isSome =
      (WhileLoop.run guard body (startCalibration writes) polls fuel).isSome :=
    fun fuel => Option.isSome_map
  simp only [hmap, WhileLoop.returns_iff]
  by_contra hnever
  -- the loop runs for ever, so its invariant holds after every poll
  have hrun : ∀ k, guard (WhileLoop.after guard body (startCalibration writes) polls k) = true :=
    fun k => Bool.not_eq_false _ ▸ fun hk => hnever ⟨k, hk⟩
  have hstate : ∀ n, adxl345SpiInit writes = true ∧ (∀ k < n, (polls k).fails = false) ∧
      (samplesBefore polls n).length < 100 := by
    intro n
    have hinv := calibrationInv fun k (_ : k < n) => hrun k
    obtain ⟨hlt, hsuccess⟩ := Bool.and_eq_true_iff.mp (hrun n)
    obtain ⟨hinit, hfails⟩ := hinv.success hsuccess
    exact ⟨hinit, hfails, hinv.count ▸ of_decide_eq_true hlt⟩
  obtain hinit | ⟨k, hk⟩ | ⟨n, hn⟩ := h
  · exact absurd (hinit.symm.trans (hstate 0).1) (by decide)
  · exact absurd (hk.symm.trans ((hstate (k + 1)).2.1 k (Nat.lt_succ_self k))) (by decide)
  · obtain ⟨-, hfails, hlt⟩ := hstate n
    rw [length_samplesBefore hfails] at hlt
    omega

theorem exit_of_returns {verbose : Bool} {writes : Fin 5 → Transfer} {accCali : Fin 3 → Int16}
    {fuel : ℕ} (h : (calibrateAcc verbose writes polls accCali fuel).isSome) :
    adxl345SpiInit writes = false ∨ (∃ k, (polls k).fails = true) ∨
      ∃ n, 100 ≤ Nat.count (ReadyAt polls) n := by
  obtain ⟨r, hr⟩ := Option.isSome_iff_exists.mp h
  obtain ⟨k, s, hinv, -, hfail | ⟨hsuccess, hlen⟩⟩ := calibrateAcc_cases hr
  · exact (hinv.failure hfail).imp_right Or.inl
  · rw [length_samplesBefore (hinv.success hsuccess).2] at hlen
    exact Or.inr (Or.inr ⟨k, hlen.ge⟩)

/-- **The calibration returns**, with `-1` where the samples are not delivered, exactly when the
initialisation fails, a read fails or data is ready 100 times. -/
theorem calibration_terminates_iff (verbose : Bool) (writes : Fin 5 → Transfer)
    (polls : ℕ → Poll) (accCali : Fin 3 → Int16) :
    CalibrationReturns polls verbose writes accCali ↔
      adxl345SpiInit writes = false ∨ (∃ k, (polls k).fails = true) ∨
        ∃ n, 100 ≤ Nat.count (ReadyAt polls) n := by
  constructor
  · intro h
    obtain ⟨fuel, hfuel⟩ := h.returns
    exact exit_of_returns hfuel
  · refine fun h => ⟨returns_of_exit h, fun fuel r hr hnot => ?_⟩
    obtain ⟨k, s, hinv, rfl, hfail | ⟨hsuccess, hlen⟩⟩ := calibrateAcc_cases hr
    · rw [finish, hfail]
      cases verbose <;> rfl
    · obtain ⟨hinit, hfails⟩ := hinv.success hsuccess
      exact absurd ⟨hinit, k, hlen, hfails⟩ hnot

/-- A transfer that is done at once. -/
def Transfer.ofData (data : ℕ → UInt8) : Transfer := ⟨fun _ => 1, data⟩

/-- **A sensor that never has data ready** holds up the board. -/
theorem calibration_hangs : ¬ ∀ verbose writes polls accCali,
    CalibrationReturns polls verbose writes accCali := by
  intro h
  have hbusy : adxl345SpiIsDataReady (.ofData fun _ => 0) = false := by decide
  obtain ⟨fuel, hfuel⟩ := (h false (fun _ => .ofData fun _ => 0)
    (fun _ => ⟨.ofData fun _ => 0, .ofData fun _ => 0⟩) fun _ => 0).returns
  obtain hinit | ⟨k, hk⟩ | ⟨n, hn⟩ := exit_of_returns hfuel
  · exact absurd hinit (by decide)
  · exact absurd (hk.symm.trans (sample_of_idle hbusy).2) (by decide)
  · have hnone : ∀ k, ¬ReadyAt (fun _ => ⟨.ofData fun _ => 0, .ofData fun _ => 0⟩) k :=
      fun _ hready => absurd (hbusy.symm.trans hready) (by decide)
    rw [Nat.count_of_forall_not fun k _ => hnone k] at hn
    exact absurd hn (by decide)

/-! ### The offsets -/

/-- The offsets stored are those of the samples, modulo `2 ^ 16`. -/
theorem offsets_eq {sumXYZ : Fin 3 → Int32} {samples : List (Fin 3 → Int16)}
    (h : ∀ j, Exact (sumXYZ j) (axisSum samples j)) (j : Fin 3) :
    offsets sumXYZ j = Int16.ofInt (exactOffset samples j) := by
  have hdiv : ∀ j, (sumXYZ j / 25).toInt16 = Int16.ofInt ((axisSum samples j).tdiv 25) := by
    intro j
    rw [← Int16.ofInt_int32ToInt, Int32.toInt_div_of_ne_right _ _ (by decide), h j]
    rfl
  rw [offsets, exactOffset]
  dsimp only
  by_cases hj : j = 2
  · subst hj
    rw [Function.update_self, hdiv, if_pos rfl, Int16.ofInt_sub]
    rfl
  · rw [Function.update_of_ne hj, hdiv, if_neg hj, sub_zero]

/-- Offsets that hold the exact values take effect: the readings are relative to them. -/
theorem takesEffect_iff {samples : List (Fin 3 → Int16)} {accCali : Fin 3 → Int16} :
    TakesEffect samples accCali ↔ ∀ j, (accCali j).toInt = exactOffset samples j := by
  refine ⟨TakesEffect.offset, fun h => ⟨h, fun indat outdat inp n p szXYZ hn hp hsample j => ?_⟩⟩
  have htaken : takenAt (boot indat outdat accCali) inp n =
      some fun j => szXYZ j * accMgPerDigit - accCali j := by
    have hready : adxl345SpiIsDataReady p.intSource = true := by
      by_contra hready
      rw [(sample_of_idle (Bool.not_eq_true _ ▸ hready)).1] at hsample
      exact absurd hsample (by simp)
    have hread : adxl345SpiXYZRead p.xyz = some szXYZ := by
      rwa [Poll.sample, if_pos hready] at hsample
    rw [takenAt, hp, if_pos ⟨hn, hready⟩, BoardInput.withPoll, hread]
    rfl
  rw [(sumInv indat outdat accCali inp n).acc htaken, Int16.ofInt_sub, Int16.ofInt_mul,
    Int16.ofInt_toInt, ← h j, Int16.ofInt_toInt]
  rfl

theorem initAccel_eq_some {verbose : Bool} {writes : Fin 5 → Transfer} {A : Acc} {fuel : ℕ}
    {r : AccelStart} (h : initAccel verbose writes polls A fuel = some r) :
    ∃ c, calibrateAcc verbose writes polls (fun _ => 0) fuel = some c ∧ r.accCali = c.2 := by
  obtain ⟨c, hc, rfl⟩ := Option.map_eq_some_iff.mp h
  exact ⟨c, hc, rfl⟩

/-- Without the diagnostics the offsets stay zero, which is what a board boots with by default. -/
theorem initAccel_silent {writes : Fin 5 → Transfer} {A : Acc} {fuel : ℕ} {r : AccelStart}
    (h : initAccel false writes polls A fuel = some r) (indat : Indata) (outdat : Outdata) :
    boot indat outdat r.accCali = boot indat outdat := by
  obtain ⟨c, hc, hcali⟩ := initAccel_eq_some h
  obtain ⟨k, s, -, rfl, -⟩ := calibrateAcc_cases hc
  rw [hcali, finish]
  cases s.bSuccess <;> rfl

/-- **The calibration takes effect** exactly when the diagnostics are compiled in and the offsets
fit in 16 bits, or they are not and there is nothing to correct. -/
theorem calibration_iff (verbose : Bool) {writes : Fin 5 → Transfer} {polls : ℕ → Poll} {A : Acc}
    {fuel : ℕ} {r : AccelStart} (hinit : adxl345SpiInit writes = true)
    (hreads : ∀ k, (polls k).fails = false)
    (hreturn : initAccel verbose writes polls A fuel = some r) :
    ∃ n, (samplesBefore polls n).length = 100 ∧
      (TakesEffect (samplesBefore polls n) r.accCali ↔
        if verbose then ∀ j, -2 ^ 15 ≤ exactOffset (samplesBefore polls n) j ∧
          exactOffset (samplesBefore polls n) j < 2 ^ 15
        else ∀ j, exactOffset (samplesBefore polls n) j = 0) := by
  obtain ⟨c, hc, hcali⟩ := initAccel_eq_some hreturn
  obtain ⟨n, s, hinv, rfl, hfail | ⟨hsuccess, hlen⟩⟩ := calibrateAcc_cases hc
  · -- the sensor failed, which it does not
    obtain hno | ⟨k, hk⟩ := hinv.failure hfail
    · exact absurd (hinit.symm.trans hno) (by decide)
    · exact absurd ((hreads k).symm.trans hk) (by decide)
  · refine ⟨n, hlen, ?_⟩
    rw [takesEffect_iff, hcali, finish, hsuccess]
    cases verbose with
    | false => exact forall_congr' fun j => eq_comm
    | true =>
      refine forall_congr' fun j => ?_
      have hoffset : offsets s.sumXYZ j = Int16.ofInt (exactOffset (samplesBefore polls n) j) :=
        offsets_eq hinv.sum j
      show (offsets s.sumXYZ j).toInt = _ ↔ _
      rw [hoffset]
      exact toInt_ofInt_iff

/-- A sensor at rest that is not level: 10, -6 and 262 digits in every poll. -/
def tilted (_ : ℕ) : Poll :=
  ⟨.ofData fun _ => 0x80, .ofData fun k => [10, 0, 250, 255, 6, 1].getD k 0⟩

theorem tilted_fails (k : ℕ) : (tilted k).fails = false :=
  show (tilted 0).fails = false by decide

theorem tilted_samples (h : (samplesBefore tilted n).length = 100) : n = 100 := by
  have hready : ∀ k < n, ReadyAt tilted k := fun _ _ => show ReadyAt tilted 0 by decide
  rw [length_samplesBefore fun k _ => tilted_fails k, Nat.count_iff_forall.mpr hready] at h
  exact h

/-- With the diagnostics, the sensor at rest is calibrated. -/
theorem calibration_tilted : ∃ n, (samplesBefore tilted n).length = 100 ∧
    TakesEffect (samplesBefore tilted n) ![40, -24, 48] := by
  have hreturn : initAccel true (fun _ => .ofData fun _ => 0) tilted default 100 =
      some ⟨⟨default, fun _ => 0⟩, ![40, -24, 48], 0⟩ := by
    have hcalibrate : calibrateAcc true (fun _ => .ofData fun _ => 0) tilted (fun _ => 0) 100 =
        some (0, ![40, -24, 48]) := by decide +kernel
    rw [initAccel, hcalibrate]
    rfl
  obtain ⟨n, hlen, hiff⟩ := calibration_iff true (by decide) tilted_fails hreturn
  refine ⟨n, hlen, hiff.mpr ?_⟩
  obtain rfl := tilted_samples hlen
  decide +kernel

/-- **Without the diagnostics** it is not: the offsets stay zero. -/
theorem calibration_lost : ¬ ∀ verbose writes polls A fuel r, adxl345SpiInit writes = true →
    (∀ k, (polls k).fails = false) → initAccel verbose writes polls A fuel = some r →
      ∃ n, (samplesBefore polls n).length = 100 ∧
        TakesEffect (samplesBefore polls n) r.accCali := by
  intro h
  have hreturn : initAccel false (fun _ => .ofData fun _ => 0) tilted default 100 =
      some ⟨⟨default, fun _ => 0⟩, fun _ => 0, 0⟩ := by
    have hcalibrate : calibrateAcc false (fun _ => .ofData fun _ => 0) tilted (fun _ => 0) 100 =
        some (0, fun _ => 0) := by decide +kernel
    rw [initAccel, hcalibrate]
    rfl
  obtain ⟨n, hlen, heffect⟩ := h _ _ _ _ _ _ (by decide) tilted_fails hreturn
  obtain rfl := tilted_samples hlen
  exact absurd (heffect.offset 0) (by decide +kernel)

end LegoCar
