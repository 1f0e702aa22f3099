import Mathlib
import LegoCar.Wire.HostStream
import LegoCar.Board.Delivery

/-!
# The sums of the acceleration sensor

Every tenth iteration takes a sample of the acceleration sensor and adds it to the sum of each
axis; a reply sends the sums and clears them. `takenSum` is the exact integer that the sum stands
for: what was taken since the last reply. The field is 16 bits wide and holds this integer modulo
`2 ^ 16` (`sumInv`), so it is the sum exactly while the sum fits (`sums_iff`). How many samples
there are between two replies is up to the host.
-/

namespace LegoCar

open Driven Board

section

variable (b₀ : Board) (inp : ℕ → BoardInput)

/-- The acc values that iteration `n` takes, one for each axis: in every tenth iteration, when the
sensor has a sample that can be read. -/
def takenAt (n : ℕ) : Option (Fin 3 → Int16) :=
  if n % 10 = 2 ∧ (inp n).accelReady then
    (inp n).accelXYZ.map fun szXYZ j => szXYZ j * accMgPerDigit - b₀.accCali j
  else none

/-- The exact sum of the acc values of an axis since the last reply before iteration `n`, since
start-up when there was none. A reply is sent before the sample of its iteration is taken. -/
def takenSum : ℕ → Fin 3 → ℤ
  | 0, _ => 0
  | n + 1, j => (if (replyAt b₀ inp n).isSome then 0 else takenSum n j) +
      (takenAt b₀ inp n).elim 0 fun acc => (acc j).toInt

/-- Before iteration `n` the accumulators hold the exact sums, and so does the reply of iteration
`n`. -/
structure SumsExact (n : ℕ) : Prop where
  accumulator : ∀ j, ((boardAt b₀ inp n).outdat.Acc.sum j).toInt = takenSum b₀ inp n j
  reply : ∀ r, replyAt b₀ inp n = some r →
    ∀ j, ((Outdata.ofSerial r.tail).Acc.sum j).toInt = takenSum b₀ inp n j

end

/-! ### What the stages do to the sums -/

namespace Board

attribute [local irreducible] Uart.readMany Uart.writeMany Uart.writeString

/-- Two states agree on the variables of the acceleration sensor. -/
structure SameAccel (b b' : Board) : Prop where
  Acc : b'.outdat.Acc = b.outdat.Acc
  accCali : b'.accCali = b.accCali
  distCounter : b'.distCounter = b.distCounter

theorem SameAccel.refl (b : Board) : SameAccel b b := ⟨rfl, rfl, rfl⟩

theorem SameAccel.trans {a b c : Board} (h₁ : SameAccel a b) (h₂ : SameAccel b c) :
    SameAccel a c :=
  ⟨h₂.Acc.trans h₁.Acc, h₂.accCali.trans h₁.accCali, h₂.distCounter.trans h₁.distCounter⟩

/-- What the communication does to the sums, by the reply it writes. -/
inductive SumStep (b b' : Board) : Option (List UInt8) → Prop where
  | kept (h : SameAccel b b') : SumStep b b' none
  | sent (o : Outdata) (ho : o.Acc = b.outdat.Acc) (hsum : b'.outdat.Acc.sum = fun _ => 0)
      (hcali : b'.accCali = b.accCali) (hdist : b'.distCounter = b.distCounter) :
      SumStep b b' (some (tagR :: o.serial))

theorem SumStep.frame {a b b' c : Board} {o : Option (List UInt8)} (h₁ : SameAccel a b)
    (h : SumStep b b' o) (h₂ : SameAccel b' c) : SumStep a c o := by
  cases h with
  | kept h => exact .kept (h₁.trans (h.trans h₂))
  | sent o ho hsum hcali hdist =>
    refine .sent o (ho.trans h₁.Acc) ?_ (h₂.accCali.trans (hcali.trans h₁.accCali))
      (h₂.distCounter.trans (hdist.trans h₁.distCounter))
    rw [h₂.Acc, hsum]

theorem blink_sameAccel (b : Board) : SameAccel b b.blink :=
  blink_writes fun _ _ => ⟨rfl, rfl, rfl⟩

theorem countTimeout_sameAccel (b : Board) : SameAccel b b.countTimeout :=
  countTimeout_writes fun _ _ _ => ⟨rfl, rfl, rfl⟩

theorem initCommunication_sameAccel (inp : UartInput) (i : ℕ) (b : Board) :
    SameAccel b (b.initCommunication inp i) := by
  have hclear : SameAccel b b.clearCommand := ⟨rfl, rfl, rfl⟩
  have hread : SameAccel b (b.clearCommand.readStart inp) := ⟨rfl, rfl, rfl⟩
  have hstart : SameAccel b ((b.clearCommand.readStart inp).startLink inp) := ⟨rfl, rfl, rfl⟩
  have hcases := initCommunication_cases inp i b
  generalize b.initCommunication inp i = b' at hcases ⊢
  cases hcases with
  | quiet => exact hclear.trans (blink_sameAccel _)
  | other => exact hread.trans (blink_sameAccel _)
  | started => exact hstart.trans (blink_sameAccel _)

theorem exchange_sumStep (inp : UartInput) (i : ℕ) (b : Board) :
    SumStep b (b.exchange inp i).1 (b.exchange inp i).2.2 := by
  have hcount := countTimeout_sameAccel b
  have hread : SameAccel b.countTimeout (b.countTimeout.readStart inp) := ⟨rfl, rfl, rfl⟩
  have hcases := exchange_cases inp i b
  generalize b.exchange inp i = r at hcases ⊢
  cases hcases with
  | waiting => exact .kept hcount
  | dropped => exact .kept (hcount.trans hread)
  | answered =>
    have hreceive : SameAccel b.countTimeout
        ((b.countTimeout.readStart inp).receiveIndat inp) := ⟨rfl, rfl, rfl⟩
    have hall := hcount.trans hreceive
    exact .sent _ hall.Acc rfl hall.accCali hall.distCounter

theorem communicate_sumStep (inp : UartInput) (b : Board) :
    SumStep b (b.communicate inp).1 (b.communicate inp).2.2 := by
  have hpoll : SameAccel b (b.pollLength inp).2 := ⟨rfl, rfl, rfl⟩
  cases hconn : b.connBroken with
  | true =>
    rw [communicate_of_down hconn]
    exact .kept (hpoll.trans (initCommunication_sameAccel _ _ _))
  | false =>
    rw [communicate_of_up hconn]
    exact (exchange_sumStep inp _ (b.pollLength inp).2).frame hpoll (.refl _)

theorem readUbat_sameAccel (adc : UInt16) (b : Board) : SameAccel b (b.readUbat adc) :=
  readUbat_writes fun _ => ⟨rfl, rfl, rfl⟩

theorem stallCheck_sameAccel (duty : Int32) (b : Board) : SameAccel b (b.stallCheck duty) :=
  stallCheck_writes fun _ _ _ => ⟨rfl, rfl, rfl⟩

theorem control_sameAccel (encoder direction : UInt32) (b : Board) :
    SameAccel b (b.control encoder direction).1 := by
  unfold Board.control
  split
  · have hpid : SameAccel b (b.pid encoder direction) := ⟨rfl, rfl, rfl⟩
    have hdir : ∀ (sum : Int32) (b : Board), SameAccel b (b.getDirection sum) :=
      fun _ _ => ⟨rfl, rfl, rfl⟩
    have hduty : ∀ (duty : Int32) (b : Board), SameAccel b (b.setDuty duty) :=
      fun _ _ => ⟨rfl, rfl, rfl⟩
    exact hpid.trans ((hdir _ _).trans ((stallCheck_sameAccel _ _).trans (hduty _ _)))
  · exact controlDisabled_writes fun _ _ => ⟨rfl, rfl, rfl⟩

/-- The sensor stage takes no sample, or takes one and adds it to the sums. -/
inductive Sampled (b b' : Board) : Option (Fin 3 → Int16) → Prop where
  | kept (h : SameAccel b b') : Sampled b b' none
  | taken (acc : Fin 3 → Int16) (hAcc : b'.outdat.Acc = ⟨acc, fun j => acc j + b.outdat.Acc.sum j⟩)
      (hcali : b'.accCali = b.accCali) (hdist : b'.distCounter = b.distCounter) :
      Sampled b b' (some acc)

/-- The acc values that the sensor stage takes. -/
def sample (inp : BoardInput) (b : Board) : Option (Fin 3 → Int16) :=
  if b.distCounter = 5 ∧ inp.accelReady then
    inp.accelXYZ.map fun szXYZ j => szXYZ j * accMgPerDigit - b.accCali j
  else none

theorem handleMeasuredis_sameAccel (sensorState sensorData : UInt32) (b : Board) :
    SameAccel b (b.handleMeasuredis sensorState sensorData) :=
  handleMeasuredis_writes fun _ _ => ⟨rfl, rfl, rfl⟩

theorem handleSensors_sampled (inp : BoardInput) (b : Board) :
    Sampled b (b.handleSensors inp) (b.sample inp) := by
  rw [sample]
  by_cases haccel : b.distCounter = 5
  · have hdis : b.distCounter ≠ 0 := by omega
    rw [handleSensors, if_neg hdis, if_pos haccel]
    cases inp.accelReady with
    | false =>
      rw [if_neg (not_and_of_not_right _ Bool.false_ne_true)]
      exact .kept (.refl b)
    | true =>
      rw [if_pos ⟨haccel, rfl⟩]
      cases inp.accelXYZ with
      | none => exact .kept (.refl b)
      | some szXYZ => exact .taken _ rfl rfl rfl
  · rw [handleSensors, if_neg haccel, if_neg (not_and_of_not_left _ haccel)]
    split
    · exact .kept (handleMeasuredis_sameAccel _ _ b)
    · exact .kept (.refl b)

/-- The stages before the sensor stage. -/
theorem control_sumStep (inp : BoardInput) (b : Board) :
    SumStep b.countIteration ((b.beforeControl inp).1.control inp.encoder inp.direction).1
      (iteration inp b).2.reply :=
  (communicate_sumStep inp.uart b.countIteration).frame (.refl _)
    ((readUbat_sameAccel inp.adc _).trans (control_sameAccel inp.encoder inp.direction _))

theorem sample_congr {inp : BoardInput} {b b' : Board} (hcali : b'.accCali = b.accCali)
    (hdist : b'.distCounter = b.distCounter) : b'.sample inp = b.sample inp := by
  rw [sample, sample, hcali, hdist]

/-- What the control stages leave for the sensor stage. -/
theorem SumStep.left {b b' : Board} {o : Option (List UInt8)} (h : SumStep b b' o) :
    b'.accCali = b.accCali ∧ b'.distCounter = b.distCounter ∧
      ∀ j, b'.outdat.Acc.sum j = if o.isSome then 0 else b.outdat.Acc.sum j := by
  cases h with
  | kept h => exact ⟨h.accCali, h.distCounter, fun j => by rw [h.Acc]; rfl⟩
  | sent o ho hsum hcali hdist => exact ⟨hcali, hdist, fun j => by rw [hsum]; rfl⟩

/-- What the sensor stage adds. -/
theorem Sampled.added {b b' : Board} {o : Option (Fin 3 → Int16)} (h : Sampled b b' o) :
    b'.accCali = b.accCali ∧ b'.distCounter = b.distCounter ∧
      ∀ j, b'.outdat.Acc.sum j = b.outdat.Acc.sum j + o.elim 0 fun acc => acc j := by
  cases h with
  | kept h =>
    refine ⟨h.accCali, h.distCounter, fun j => ?_⟩
    rw [h.Acc]
    exact (Int16.add_zero _).symm
  | taken acc hAcc hcali hdist =>
    refine ⟨hcali, hdist, fun j => ?_⟩
    rw [hAcc]
    exact Int16.add_comm _ _

/-- **What an iteration does to the sums**: a reply clears them, and what the sensor stage takes is
added to what is left. -/
theorem iteration_sum (inp : BoardInput) (b : Board) :
    (iteration inp b).1.accCali = b.accCali ∧
      (iteration inp b).1.distCounter = (b.distCounter + 1) % 10 ∧
      ∀ j, (iteration inp b).1.outdat.Acc.sum j =
        (if (iteration inp b).2.reply.isSome then 0 else b.outdat.Acc.sum j) +
          (b.countIteration.sample inp).elim 0 fun acc => acc j := by
  obtain ⟨hcali, hdist, hleft⟩ := (control_sumStep inp b).left
  obtain ⟨hcali', hdist', hadded⟩ := (handleSensors_sampled inp
    ((b.beforeControl inp).1.control inp.encoder inp.direction).1).added
  refine ⟨hcali'.trans hcali, hdist'.trans hdist, fun j => ?_⟩
  rw [← sample_congr hcali hdist]
  exact (hadded j).trans (congrArg (· + _) (hleft j))

/-- What the sensor stage takes is in the record after the iteration. -/
theorem iteration_acc {inp : BoardInput} {b : Board} {acc : Fin 3 → Int16}
    (h : b.countIteration.sample inp = some acc) : (iteration inp b).1.outdat.Acc.acc = acc := by
  obtain ⟨hcali, hdist, -⟩ := (control_sumStep inp b).left
  have hstep := handleSensors_sampled inp
    ((b.beforeControl inp).1.control inp.encoder inp.direction).1
  rw [sample_congr hcali hdist, h] at hstep
  cases hstep with
  | taken acc hAcc hcali hdist => exact congrArg Acc.acc hAcc

/-- A reply sends the sums that the iteration found. -/
theorem iteration_sent (inp : BoardInput) {b : Board} {r : List UInt8}
    (h : (iteration inp b).2.reply = some r) :
    (Outdata.ofSerial r.tail).Acc.sum = b.outdat.Acc.sum := by
  have hstep := control_sumStep inp b
  rw [h] at hstep
  cases hstep with
  | sent o ho hsum hcali hdist =>
    rw [List.tail_cons, Outdata.ofSerial_serial, ho]
    rfl

end Board

/-! ### The sums over a run -/

section Run

variable {b₀ : Board} {inp : ℕ → BoardInput} {n : ℕ}

/-- Before iteration `n` the offsets are those of the start, the schedule is at step `n`, and each
accumulator holds the exact sum modulo `2 ^ 16`. -/
structure SumInv (b₀ : Board) (inp : ℕ → BoardInput) (n : ℕ) (b : Board) : Prop where
  accCali : b.accCali = b₀.accCali
  distCounter : b.distCounter = (n + 2) % 10
  sum : ∀ j, b.outdat.Acc.sum j = Int16.ofInt (takenSum b₀ inp n j)

theorem SumInv.sample (h : SumInv b₀ inp n (boardAt b₀ inp n)) :
    (boardAt b₀ inp n).countIteration.sample (inp n) = takenAt b₀ inp n := by
  have hcount : (boardAt b₀ inp n).countIteration.distCounter = 5 ↔ n % 10 = 2 := by
    rw [show (boardAt b₀ inp n).countIteration.distCounter =
      ((boardAt b₀ inp n).distCounter + 1) % 10 from rfl, h.distCounter]
    omega
  have hcali : (boardAt b₀ inp n).countIteration.accCali = b₀.accCali := h.accCali
  rw [Board.sample, takenAt, hcali]
  simp only [hcount]

/-- The record after the iteration contains the acc values taken in it. -/
theorem SumInv.acc {acc : Fin 3 → Int16} (h : SumInv b₀ inp n (boardAt b₀ inp n))
    (htaken : takenAt b₀ inp n = some acc) : (boardAt b₀ inp (n + 1)).outdat.Acc.acc = acc :=
  iteration_acc (h.sample.trans htaken)

/-- The step of the sums. -/
theorem sumInv_step (h : SumInv b₀ inp n (boardAt b₀ inp n)) :
    SumInv b₀ inp (n + 1) (boardAt b₀ inp (n + 1)) := by
  obtain ⟨hcali, hdist, hsum⟩ := iteration_sum (inp n) (boardAt b₀ inp n)
  refine ⟨hcali.trans h.accCali, ?_, fun j => ?_⟩
  · rw [boardAt_succ, hdist, h.distCounter]
    omega
  · rw [boardAt_succ, hsum, h.sample, takenSum, Int16.ofInt_add, h.sum]
    refine congrArg₂ (· + ·) ?_ ?_
    · exact (apply_ite Int16.ofInt ((replyAt b₀ inp n).isSome = true) 0 (takenSum b₀ inp n j)).symm
    · cases takenAt b₀ inp n with
      | none => rfl
      | some acc => exact (Int16.ofInt_toInt (acc j)).symm

theorem sumInv (indat : Indata) (outdat : Outdata) (accCali : Fin 3 → Int16)
    (inp : ℕ → BoardInput) (n : ℕ) : SumInv (boot indat outdat accCali) inp n
      (boardAt (boot indat outdat accCali) inp n) :=
  invariant_index (P := SumInv (boot indat outdat accCali) inp) ⟨rfl, rfl, fun _ => rfl⟩
    (fun _ h => sumInv_step h) n

end Run

/-- A 16-bit value holds an integer exactly when the integer fits. -/
theorem toInt_ofInt_iff {x : ℤ} : (Int16.ofInt x).toInt = x ↔ -2 ^ 15 ≤ x ∧ x < 2 ^ 15 := by
  constructor
  · intro h
    rw [← h]
    exact ⟨Int16.le_toInt _, Int16.toInt_lt _⟩
  · exact fun h => Int16.toInt_ofInt_of_le h.1 h.2

/-- **The sums are exact exactly while they fit**: accumulator and reply of every axis are the sum
of what was taken since the last reply, if and only if this sum is a 16-bit value. -/
theorem sums_iff (indat : Indata) (outdat : Outdata) (accCali : Fin 3 → Int16)
    (inp : ℕ → BoardInput) (n : ℕ) :
    SumsExact (boot indat outdat accCali) inp n ↔
      ∀ j, -2 ^ 15 ≤ takenSum (boot indat outdat accCali) inp n j ∧
        takenSum (boot indat outdat accCali) inp n j < 2 ^ 15 := by
  have hinv := sumInv indat outdat accCali inp n
  have hexact : ∀ j, ((boardAt (boot indat outdat accCali) inp n).outdat.Acc.sum j).toInt =
      takenSum (boot indat outdat accCali) inp n j ↔
        -2 ^ 15 ≤ takenSum (boot indat outdat accCali) inp n j ∧
          takenSum (boot indat outdat accCali) inp n j < 2 ^ 15 := by
    intro j
    rw [hinv.sum j]
    exact toInt_ofInt_iff
  constructor
  · exact fun h j => (hexact j).mp (h.accumulator j)
  · refine fun h => ⟨fun j => (hexact j).mpr (h j), fun r hr j => ?_⟩
    rw [iteration_sent (inp n) hr]
    exact (hexact j).mpr (h j)

/-- A run in which the sensor always has a sample, the host is silent for 163 iterations and then
sends an `'I'` and a record. -/
def longSilence (szXYZ : Fin 3 → Int16) (n : ℕ) : BoardInput :=
  { feed (List.replicate 163 [] ++ [[tagI], framesOf [⟨1, 0, 1, 0, 200⟩]]) n with
    accelReady := true
    accelXYZ := some szXYZ }

/-- **A long silence wraps the sums.** With samples within the range of the sensor, the reply after
17 of them is not their sum. -/
theorem sums_fail : ¬ ∀ inp : ℕ → BoardInput,
    (∀ n, ∀ szXYZ ∈ (inp n).accelXYZ, ∀ j, |(szXYZ j).toInt * 4| ≤ 2048) →
      ∀ n, SumsExact (boot default default) inp n := by
  intro h
  have hexact := (h (longSilence fun _ => 511)
    (fun n szXYZ hmem j => by
      obtain rfl := Option.some.inj hmem
      exact (show |(511 : ℤ) * 4| ≤ 2048 by decide)) 164).reply
    ((replyAt (boot default default) (longSilence fun _ => 511) 164).getD [])
    (by decide +kernel) 0
  exact absurd hexact (by decide +kernel)

end LegoCar
