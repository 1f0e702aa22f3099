import Mathlib
import LegoCar.Board.MainLoop

/-!
# What an iteration of the firmware can do

Two views of an iteration, each saying once what can happen, so that an invariant over runs is a
case analysis and never unfolds the stages again.

* `LinkStep`: the link variables — set value, record of the host, link state, timeout. They are
  written by the communication stage only (`iteration_linkStep`).
* `OffStep`, `OnStep`: the controller variables — enable flag, controller parts, previous values —
  with the controller disabled and enabled. They are written by the motor stage only
  (`iteration_offStep`, `iteration_onStep`).
-/

namespace LegoCar

namespace Board

-- the bytes on the serial port play no part here
attribute [local irreducible] Uart.readMany Uart.writeMany Uart.writeString

/-! ### What a stage writes

A property of the state after a stage, for whatever it writes into the variables it may write. -/

section Writes

variable {P : Board → Prop} {b : Board}

theorem blink_writes (h : ∀ LED ledPort, P { b with LED := LED, ledPort := ledPort }) :
    P b.blink := by
  unfold blink
  split
  · exact h _ _
  · exact h b.LED b.ledPort

theorem countTimeout_writes (h : ∀ uartTimeout network_timeout connBroken,
    P { b with
      uartTimeout := uartTimeout
      outdat.network_timeout := network_timeout
      connBroken := connBroken }) :
    P b.countTimeout := by
  unfold countTimeout
  dsimp only
  split_ifs
  · exact h _ _ _
  · exact h _ _ b.connBroken

theorem readUbat_writes {adc : UInt16} (h : ∀ ubat, P { b with outdat.ubat := ubat }) :
    P (b.readUbat adc) := by
  unfold readUbat
  split
  · exact h _
  · exact h b.outdat.ubat

theorem stallCheck_writes {duty : Int32} (h : ∀ connBroken enMotorController counter,
    P { b with
      outdat.connBroken := connBroken
      outdat.enMotorController := enMotorController
      connectionBrokenCounter := counter }) :
    P (b.stallCheck duty) := by
  unfold stallCheck
  dsimp only
  split_ifs
  · exact h _ _ _
  · exact h b.outdat.connBroken b.outdat.enMotorController _
  · exact h _ _ _
  · exact h b.outdat.connBroken b.outdat.enMotorController _
  · exact h b.outdat.connBroken b.outdat.enMotorController b.connectionBrokenCounter

theorem controlDisabled_writes {encoder direction : UInt32}
    (h : ∀ enMotorController setEnMotorwasoff,
      P { b with
        outdat.I := 0
        outdat.duty := 0
        direction := direction
        outdat.X := xTemp encoder direction
        outdat.enMotorController := enMotorController
        setEnMotorwasoff := setEnMotorwasoff }) :
    P (b.controlDisabled encoder direction).1 := by
  unfold controlDisabled
  dsimp only
  split_ifs
  · exact h _ _
  · exact h b.outdat.enMotorController _
  · exact h _ _
  · exact h b.outdat.enMotorController b.setEnMotorwasoff

theorem handleMeasuredis_writes {sensorState sensorData : UInt32}
    (h : ∀ usState distance, P { b with usState := usState, outdat.distance := distance }) :
    P (b.handleMeasuredis sensorState sensorData) := by
  have hkeep : P b := h b.usState b.outdat.distance
  unfold handleMeasuredis
  split
  · split
    · exact h _ b.outdat.distance
    · exact hkeep
  · split
    · exact h _ _
    · exact hkeep
  · exact hkeep

theorem handleAccel_writes {ready : Bool} {xyz : Option (Fin 3 → Int16)}
    (h : ∀ Acc, P { b with outdat.Acc := Acc }) : P (b.handleAccel ready xyz) := by
  unfold handleAccel
  split
  · exact h _
  · exact h b.outdat.Acc

theorem handleSensors_writes {inp : BoardInput} (h : ∀ usState distance Acc,
    P { b with
      usState := usState
      outdat.distance := distance
      outdat.Acc := Acc }) :
    P (b.handleSensors inp) := by
  unfold handleSensors
  split_ifs
  · exact handleMeasuredis_writes fun usState distance => h usState distance b.outdat.Acc
  · exact handleAccel_writes fun Acc => h b.usState b.outdat.distance Acc
  · exact h b.usState b.outdat.distance b.outdat.Acc

end Writes

/-! ### The communication stage -/

/-- What `INIT COMMUNICATION` comes to: no byte waits, the byte read is not an `'I'`, or the link
comes up. -/
inductive Initialised (inp : UartInput) (i : ℕ) (b : Board) : Board → Prop where
  | quiet (hi : i = 0) : Initialised inp i b b.clearCommand.blink
  | other (hi : 1 ≤ i) (htag : (b.clearCommand.readStart inp).c ≠ tagI) :
      Initialised inp i b (b.clearCommand.readStart inp).blink
  | started (hi : 1 ≤ i) (htag : (b.clearCommand.readStart inp).c = tagI) :
      Initialised inp i b ((b.clearCommand.readStart inp).startLink inp).blink

theorem initCommunication_cases (inp : UartInput) (i : ℕ) (b : Board) :
    Initialised inp i b (b.initCommunication inp i) := by
  unfold initCommunication
  dsimp only
  split_ifs with hi htag
  · exact .started hi htag
  · exact .other hi htag
  · exact .quiet (Nat.lt_one_iff.mp (not_le.mp hi))

/-- What the exchange of records comes to: too few bytes wait, the byte read is not an `'S'`, or a
record is received and answered. -/
inductive Exchanged (inp : UartInput) (i : ℕ) (b : Board) :
    Board × Option Indata × Option (List UInt8) → Prop where
  | waiting (hi : i < 9) : Exchanged inp i b (b.countTimeout, none, none)
  | dropped (hi : 9 ≤ i) (htag : (b.countTimeout.readStart inp).c ≠ tagS) :
      Exchanged inp i b (b.countTimeout.readStart inp, none, none)
  | answered (hi : 9 ≤ i) (htag : (b.countTimeout.readStart inp).c = tagS) :
      Exchanged inp i b
        (((b.countTimeout.readStart inp).receiveIndat inp).sendOutdat inp,
          some ((b.countTimeout.readStart inp).receiveIndat inp).indat,
          some (tagR :: ((b.countTimeout.readStart inp).receiveIndat inp).outdat.serial))

theorem exchange_cases (inp : UartInput) (i : ℕ) (b : Board) :
    Exchanged inp i b (b.exchange inp i) := by
  unfold exchange
  dsimp only
  split_ifs with hi htag
  · exact .answered hi htag
  · exact .dropped hi htag
  · exact .waiting (not_le.mp hi)

/-! ### The link -/

/-- Two states agree on the variables of the link. -/
structure SameLink (b b' : Board) : Prop where
  indat : b'.indat = b.indat
  W : b'.outdat.W = b.outdat.W
  connBroken : b'.connBroken = b.connBroken
  uartTimeout : b'.uartTimeout = b.uartTimeout

theorem SameLink.refl (b : Board) : SameLink b b := ⟨rfl, rfl, rfl, rfl⟩

theorem SameLink.trans {a b c : Board} (h₁ : SameLink a b) (h₂ : SameLink b c) : SameLink a c :=
  ⟨h₂.indat.trans h₁.indat, h₂.W.trans h₁.W, h₂.connBroken.trans h₁.connBroken,
    h₂.uartTimeout.trans h₁.uartTimeout⟩

/-- What an iteration can do to the link, by the record it accepts. -/
inductive LinkStep (b b' : Board) : Option Indata → Prop where
  /-- The link is down: the set value and the enable request are cleared. -/
  | down (hb : b.connBroken = true) (hW : b'.outdat.W = 0)
      (hset : b'.indat.setEnMotorController = 0)
      (hlink : b'.connBroken = true ∨ b'.connBroken = false ∧ b'.uartTimeout = 0) :
      LinkStep b b' none
  /-- The link is up and no record arrives: the timeout advances, and at 50 the link goes
  down. -/
  | idle (hb : b.connBroken = false) (hW : b'.outdat.W = b.outdat.W) (hindat : b'.indat = b.indat)
      (hlink : (b.uartTimeout + 1 < 50 ∧ b'.connBroken = false ∧
          b'.uartTimeout = b.uartTimeout + 1) ∨
        (50 ≤ b.uartTimeout + 1 ∧ b'.connBroken = true)) :
      LinkStep b b' none
  /-- A record is accepted: it restarts the timeout, but a link that timed out in this very
  iteration stays down. -/
  | accept (f : Indata) (hb : b.connBroken = false) (hW : b'.outdat.W = f.W)
      (hindat : b'.indat = f) (htimeout : b'.uartTimeout = 0)
      (hlink : b'.connBroken = decide (50 ≤ b.uartTimeout + 1)) :
      LinkStep b b' (some f)

/-- Stages that leave the link alone may stand before and after the communication. -/
theorem LinkStep.frame {a b b' c : Board} {o : Option Indata} (h₁ : SameLink a b)
    (h : LinkStep b b' o) (h₂ : SameLink b' c) : LinkStep a c o := by
  cases h with
  | down hb hW hset hlink =>
    refine LinkStep.down (h₁.connBroken ▸ hb) (h₂.W.trans hW) ?_ ?_
    · rw [h₂.indat, hset]
    · rwa [h₂.connBroken, h₂.uartTimeout]
  | idle hb hW hindat hlink =>
    refine LinkStep.idle (h₁.connBroken ▸ hb) (h₂.W.trans (hW.trans h₁.W))
      (h₂.indat.trans (hindat.trans h₁.indat)) ?_
    rwa [h₂.connBroken, h₂.uartTimeout, ← h₁.uartTimeout]
  | accept f hb hW hindat htimeout hlink =>
    refine LinkStep.accept f (h₁.connBroken ▸ hb) (h₂.W.trans hW) (h₂.indat.trans hindat)
      (h₂.uartTimeout.trans htimeout) ?_
    rw [h₂.connBroken, hlink, h₁.uartTimeout]

theorem countIteration_sameLink (b : Board) : SameLink b b.countIteration :=
  ⟨rfl, rfl, rfl, rfl⟩

theorem readUbat_sameLink (adc : UInt16) (b : Board) : SameLink b (b.readUbat adc) :=
  readUbat_writes fun _ => ⟨rfl, rfl, rfl, rfl⟩

theorem stallCheck_sameLink (d : Int32) (b : Board) : SameLink b (b.stallCheck d) :=
  stallCheck_writes fun _ _ _ => ⟨rfl, rfl, rfl, rfl⟩

theorem controlEnabled_sameLink (encoder direction : UInt32) (b : Board) :
    SameLink b (b.controlEnabled encoder direction).1 := by
  have hpid : SameLink b (b.pid encoder direction) := ⟨rfl, rfl, rfl, rfl⟩
  have hdir : ∀ (sum : Int32) (b : Board), SameLink b (b.getDirection sum) :=
    fun _ _ => ⟨rfl, rfl, rfl, rfl⟩
  have hduty : ∀ (duty : Int32) (b : Board), SameLink b (b.setDuty duty) :=
    fun _ _ => ⟨rfl, rfl, rfl, rfl⟩
  exact hpid.trans ((hdir _ _).trans ((stallCheck_sameLink _ _).trans (hduty _ _)))

theorem controlDisabled_sameLink (encoder direction : UInt32) (b : Board) :
    SameLink b (b.controlDisabled encoder direction).1 :=
  controlDisabled_writes fun _ _ => ⟨rfl, rfl, rfl, rfl⟩

theorem control_sameLink (encoder direction : UInt32) (b : Board) :
    SameLink b (b.control encoder direction).1 := by
  unfold Board.control
  split
  · exact controlEnabled_sameLink encoder direction b
  · exact controlDisabled_sameLink encoder direction b

theorem handleSensors_sameLink (inp : BoardInput) (b : Board) :
    SameLink b (b.handleSensors inp) :=
  handleSensors_writes fun _ _ _ => ⟨rfl, rfl, rfl, rfl⟩

theorem blink_sameLink (b : Board) : SameLink b b.blink :=
  blink_writes fun _ _ => ⟨rfl, rfl, rfl, rfl⟩

theorem initCommunication_linkStep (inp : UartInput) (i : ℕ) {b : Board}
    (hb : b.connBroken = true) : LinkStep b (b.initCommunication inp i) none := by
  have hclear : LinkStep b b.clearCommand none := .down hb rfl rfl (Or.inl hb)
  have hread : LinkStep b (b.clearCommand.readStart inp) none := .down hb rfl rfl (Or.inl hb)
  have hstart : LinkStep b ((b.clearCommand.readStart inp).startLink inp) none :=
    .down hb rfl rfl (Or.inr ⟨rfl, rfl⟩)
  have hcases := initCommunication_cases inp i b
  generalize b.initCommunication inp i = b' at hcases ⊢
  cases hcases with
  | quiet => exact hclear.frame (.refl b) (blink_sameLink _)
  | other => exact hread.frame (.refl b) (blink_sameLink _)
  | started => exact hstart.frame (.refl b) (blink_sameLink _)

/-- The timeout alone is an iteration without a record. -/
theorem countTimeout_linkStep {b : Board} (hb : b.connBroken = false) :
    LinkStep b b.countTimeout none := by
  unfold countTimeout
  dsimp only
  split_ifs with hto
  · exact .idle hb rfl rfl (Or.inr ⟨hto, rfl⟩)
  · exact .idle hb rfl rfl (Or.inl ⟨not_le.mp hto, hb, rfl⟩)

theorem countTimeout_connBroken {b : Board} (hb : b.connBroken = false) :
    b.countTimeout.connBroken = decide (50 ≤ b.uartTimeout + 1) := by
  unfold countTimeout
  dsimp only
  split_ifs with hto
  · exact (decide_eq_true hto).symm
  · exact hb.trans (decide_eq_false hto).symm

/-- A received record: its set value is forwarded and the timeout restarts. -/
theorem receiveIndat_linkStep (inp : UartInput) {b c : Board} (hb : b.connBroken = false)
    (hc : c.connBroken = decide (50 ≤ b.uartTimeout + 1)) :
    LinkStep b ((c.receiveIndat inp).sendOutdat inp) (some (c.receiveIndat inp).indat) := by
  refine .accept _ hb ?_ ?_ ?_ ?_
  · dsimp only [receiveIndat, sendOutdat]
  · dsimp only [sendOutdat]
  · dsimp only [receiveIndat, sendOutdat]
  · exact hc

theorem exchange_linkStep (inp : UartInput) (i : ℕ) {b : Board} (hb : b.connBroken = false) :
    LinkStep b (b.exchange inp i).1 (b.exchange inp i).2.1 := by
  have hcount := countTimeout_linkStep hb
  have hread : SameLink b.countTimeout (b.countTimeout.readStart inp) := ⟨rfl, rfl, rfl, rfl⟩
  have hcases := exchange_cases inp i b
  generalize b.exchange inp i = r at hcases ⊢
  cases hcases with
  | waiting => exact hcount
  | dropped => exact hcount.frame (.refl b) hread
  | answered => exact receiveIndat_linkStep inp hb (countTimeout_connBroken hb)

theorem communicate_linkStep (inp : UartInput) (b : Board) :
    LinkStep b (b.communicate inp).1 (b.communicate inp).2.1 := by
  have hpoll : SameLink b (b.pollLength inp).2 := ⟨rfl, rfl, rfl, rfl⟩
  unfold communicate
  generalize b.pollLength inp = polled at hpoll
  obtain ⟨i, p⟩ := polled
  cases hp : p.connBroken with
  | true =>
    simp only [hp, if_true]
    exact (initCommunication_linkStep inp i hp).frame hpoll (.refl _)
  | false =>
    simp only [hp, Bool.false_eq_true, if_false]
    exact (exchange_linkStep inp i hp).frame hpoll (.refl _)

/-- The state after an iteration agrees with the state after its communication stage on the
link, and the set value shown is the one the controller used. -/
theorem iteration_sameLink (inp : BoardInput) (b : Board) :
    SameLink (b.countIteration.communicate inp.uart).1 (iteration inp b).1 :=
  (readUbat_sameLink _ _).trans ((control_sameLink _ _ _).trans (handleSensors_sameLink _ _))

theorem iteration_accepted (inp : BoardInput) (b : Board) :
    (iteration inp b).2.accepted = (b.countIteration.communicate inp.uart).2.1 := rfl

/-- **What an iteration can do to the link.** -/
theorem iteration_linkStep (inp : BoardInput) (b : Board) :
    LinkStep b (iteration inp b).1 (iteration inp b).2.accepted :=
  (communicate_linkStep inp.uart b.countIteration).frame (countIteration_sameLink b)
    (iteration_sameLink inp b)

theorem boardAt_linkStep (b₀ : Board) (inp : ℕ → BoardInput) (n : ℕ) :
    LinkStep (boardAt b₀ inp n) (boardAt b₀ inp (n + 1)) (acceptedAt b₀ inp n) :=
  iteration_linkStep (inp n) (boardAt b₀ inp n)

/-- An iteration that starts with the link down clears the set value and the enable request. -/
theorem LinkStep.of_down {b b' : Board} {o : Option Indata} (h : LinkStep b b' o)
    (hdown : b.connBroken = true) : b'.outdat.W = 0 ∧ b'.indat.setEnMotorController = 0 := by
  cases h with
  | down hb hW hset hlink => exact ⟨hW, hset⟩
  | idle hb hW hindat hlink => exact absurd (hdown.symm.trans hb) (by decide)
  | accept f hb hW hindat htimeout hlink => exact absurd (hdown.symm.trans hb) (by decide)

/-- The set value shown by an iteration is the one it leaves behind. -/
theorem iteration_W (inp : BoardInput) (b : Board) :
    (iteration inp b).2.W = (iteration inp b).1.outdat.W :=
  (handleSensors_sameLink inp _).W.symm

/-! ### The motor -/

/-- Two states agree on the variables of the motor controller. -/
structure SameMotor (b b' : Board) : Prop where
  enMotorController : b'.outdat.enMotorController = b.outdat.enMotorController
  setEnMotorwasoff : b'.setEnMotorwasoff = b.setEnMotorwasoff
  I : b'.outdat.I = b.outdat.I
  X : b'.outdat.X = b.outdat.X
  prevW : b'.prevW = b.prevW
  connectionBrokenCounter : b'.connectionBrokenCounter = b.connectionBrokenCounter

theorem SameMotor.trans {a b c : Board} (h₁ : SameMotor a b) (h₂ : SameMotor b c) :
    SameMotor a c :=
  ⟨h₂.enMotorController.trans h₁.enMotorController,
    h₂.setEnMotorwasoff.trans h₁.setEnMotorwasoff, h₂.I.trans h₁.I, h₂.X.trans h₁.X,
    h₂.prevW.trans h₁.prevW, h₂.connectionBrokenCounter.trans h₁.connectionBrokenCounter⟩

theorem blink_sameMotor (b : Board) : SameMotor b b.blink :=
  blink_writes fun _ _ => ⟨rfl, rfl, rfl, rfl, rfl, rfl⟩

theorem initCommunication_sameMotor (inp : UartInput) (i : ℕ) (b : Board) :
    SameMotor b (b.initCommunication inp i) := by
  have hclear : SameMotor b b.clearCommand := ⟨rfl, rfl, rfl, rfl, rfl, rfl⟩
  have hread : SameMotor b (b.clearCommand.readStart inp) := ⟨rfl, rfl, rfl, rfl, rfl, rfl⟩
  have hstart : SameMotor b ((b.clearCommand.readStart inp).startLink inp) :=
    ⟨rfl, rfl, rfl, rfl, rfl, rfl⟩
  have hcases := initCommunication_cases inp i b
  generalize b.initCommunication inp i = b' at hcases ⊢
  cases hcases with
  | quiet => exact hclear.trans (blink_sameMotor _)
  | other => exact hread.trans (blink_sameMotor _)
  | started => exact hstart.trans (blink_sameMotor _)

theorem exchange_sameMotor (inp : UartInput) (i : ℕ) (b : Board) :
    SameMotor b (b.exchange inp i).1 := by
  have hcount : SameMotor b b.countTimeout :=
    countTimeout_writes fun _ _ _ => ⟨rfl, rfl, rfl, rfl, rfl, rfl⟩
  have hread : ∀ b : Board, SameMotor b (b.readStart inp) := fun _ => ⟨rfl, rfl, rfl, rfl, rfl, rfl⟩
  have hreceive : ∀ b : Board, SameMotor b (b.receiveIndat inp) :=
    fun _ => ⟨rfl, rfl, rfl, rfl, rfl, rfl⟩
  have hsend : ∀ b : Board, SameMotor b (b.sendOutdat inp) :=
    fun _ => ⟨rfl, rfl, rfl, rfl, rfl, rfl⟩
  have hcases := exchange_cases inp i b
  generalize b.exchange inp i = r at hcases ⊢
  cases hcases with
  | waiting => exact hcount
  | dropped => exact hcount.trans (hread _)
  | answered => exact hcount.trans ((hread _).trans ((hreceive _).trans (hsend _)))

theorem communicate_sameMotor (inp : UartInput) (b : Board) :
    SameMotor b (b.communicate inp).1 := by
  have hpoll : SameMotor b (b.pollLength inp).2 := ⟨rfl, rfl, rfl, rfl, rfl, rfl⟩
  unfold communicate
  generalize b.pollLength inp = polled at hpoll
  obtain ⟨i, p⟩ := polled
  dsimp only
  split
  · exact hpoll.trans (initCommunication_sameMotor inp i p)
  · exact hpoll.trans (exchange_sameMotor inp i p)

theorem readUbat_sameMotor (adc : UInt16) (b : Board) : SameMotor b (b.readUbat adc) :=
  readUbat_writes fun _ => ⟨rfl, rfl, rfl, rfl, rfl, rfl⟩

theorem beforeControl_sameMotor (inp : BoardInput) (b : Board) :
    SameMotor b (b.beforeControl inp).1 := by
  have hcount : SameMotor b b.countIteration := ⟨rfl, rfl, rfl, rfl, rfl, rfl⟩
  exact hcount.trans ((communicate_sameMotor inp.uart _).trans (readUbat_sameMotor inp.adc _))

theorem handleSensors_sameMotor (inp : BoardInput) (b : Board) :
    SameMotor b (b.handleSensors inp) :=
  handleSensors_writes fun _ _ _ => ⟨rfl, rfl, rfl, rfl, rfl, rfl⟩

/-- An iteration that starts with the controller disabled. -/
structure OffStep (b b' : Board) (out : BoardOutput) : Prop where
  enabled : out.enabled = false
  duty1 : out.motor.duty1 = 0
  duty2 : out.motor.duty2 = 0
  I : b'.outdat.I = 0
  X : b'.outdat.X = out.X
  prevW : b'.prevW = b.prevW
  /-- the controller is enabled by a request after a reset request -/
  enMotorController : b'.outdat.enMotorController =
    if b'.indat.setEnMotorController ≠ 0 ∧ b.setEnMotorwasoff then 1 else 0

/-- An iteration that starts with the controller enabled: the controller parts are formed from
the set value `out.W` and the measured value `out.X`. -/
structure OnStep (b b' : Board) (out : BoardOutput) : Prop where
  enabled : out.enabled = true
  X : b'.outdat.X = out.X
  prevW : b'.prevW = out.W
  P : b'.outdat.P = (out.W - out.X) * pParameter
  I : b'.outdat.I = b.outdat.I + (out.W - out.X) * iParameter
  D : b'.outdat.D = (out.W - out.X - (b.prevW - b.outdat.X)) * dParameter
  FF : b'.outdat.FF = out.W * ffParameter
  direction : out.motor.enable = if b'.controllerSum < 0 then 2 else 1
  duty1 : out.motor.duty1 = (limitDuty b'.controllerSum.abs).toUInt32
  duty2 : out.motor.duty2 = (limitDuty b'.controllerSum.abs).toUInt32
  /-- the controller is disabled by the stall check only -/
  enMotorController : b'.outdat.enMotorController = b.outdat.enMotorController ∨
    b'.outdat.enMotorController = 0 ∧ b'.indat.enConnBrokenCtr ≠ 0 ∧ out.X = 0 ∧
      99000 ≤ limitDuty b'.controllerSum.abs

/-- The motor stage with the controller disabled. -/
theorem controlDisabled_spec (encoder direction : UInt32) {b : Board}
    (hb : b.outdat.enMotorController = 0) :
    let r := b.controlDisabled encoder direction
    r.2.duty1 = 0 ∧ r.2.duty2 = 0 ∧ r.1.outdat.I = 0 ∧ r.1.prevW = b.prevW ∧
      r.1.outdat.enMotorController =
        if b.indat.setEnMotorController ≠ 0 ∧ b.setEnMotorwasoff then 1 else 0 := by
  unfold controlDisabled
  dsimp only
  split_ifs <;> simp_all [motorSetting]

theorem iteration_offStep (inp : BoardInput) {b : Board} (hb : b.outdat.enMotorController = 0) :
    OffStep b (iteration inp b).1 (iteration inp b).2 := by
  have hbefore := beforeControl_sameMotor inp b
  unfold iteration
  generalize b.beforeControl inp = before at hbefore
  obtain ⟨c, accepted, reply⟩ := before
  have hc : c.outdat.enMotorController = 0 := hbefore.enMotorController.trans hb
  have hctl : c.control inp.encoder inp.direction = c.controlDisabled inp.encoder inp.direction :=
    if_neg (not_not.mpr hc)
  obtain ⟨hduty1, hduty2, hI, hprevW, hen⟩ :=
    controlDisabled_spec inp.encoder inp.direction hc
  have hlink := controlDisabled_sameLink inp.encoder inp.direction c
  dsimp only
  rw [hctl]
  generalize c.controlDisabled inp.encoder inp.direction = after at *
  have hsens := handleSensors_sameMotor inp after.1
  have hsensLink := handleSensors_sameLink inp after.1
  refine ⟨decide_eq_false (not_not.mpr hc), hduty1, hduty2, hsens.I.trans hI, hsens.X,
    hsens.prevW.trans (hprevW.trans hbefore.prevW), ?_⟩
  rw [hsens.enMotorController, hsensLink.indat, hen, hlink.indat, hbefore.setEnMotorwasoff]

/-- The four cases of the stall check: the host does not ask for it, the motor does not stall, and
it stalls for at most or for more than 100 times. -/
theorem stallCheck_unchecked {duty : Int32} {b : Board} (hflag : b.indat.enConnBrokenCtr = 0) :
    b.stallCheck duty = b :=
  if_neg (not_not.mpr hflag)

theorem stallCheck_turning {duty : Int32} {b : Board} (hflag : b.indat.enConnBrokenCtr ≠ 0)
    (hturns : ¬(99000 ≤ duty ∧ b.outdat.X = 0)) :
    b.stallCheck duty = { b with connectionBrokenCounter := 0 } := by
  unfold stallCheck
  dsimp only
  rw [if_pos hflag, if_neg hturns]
  exact if_neg (Nat.not_lt_zero 100)

theorem stallCheck_counted {duty : Int32} {b : Board} (hflag : b.indat.enConnBrokenCtr ≠ 0)
    (hstalls : 99000 ≤ duty ∧ b.outdat.X = 0) (hlt : b.connectionBrokenCounter < 100) :
    b.stallCheck duty =
      { b with connectionBrokenCounter := b.connectionBrokenCounter + 1 } := by
  unfold stallCheck
  dsimp only
  rw [if_pos hflag, if_pos hstalls]
  exact if_neg (not_lt.mpr (Nat.succ_le_of_lt hlt))

theorem stallCheck_tripped {duty : Int32} {b : Board} (hflag : b.indat.enConnBrokenCtr ≠ 0)
    (hstalls : 99000 ≤ duty ∧ b.outdat.X = 0) (hle : 100 ≤ b.connectionBrokenCounter) :
    b.stallCheck duty =
      { b with
        outdat.connBroken := 1
        outdat.enMotorController := 0
        connectionBrokenCounter := 0 } := by
  unfold stallCheck
  dsimp only
  rw [if_pos hflag, if_pos hstalls]
  exact if_pos (Nat.lt_succ_of_le hle)

/-- What the stall check can do. -/
theorem stallCheck_cases (duty : Int32) (b : Board) :
    (b.indat.enConnBrokenCtr = 0 ∧ b.stallCheck duty = b) ∨
    (b.indat.enConnBrokenCtr ≠ 0 ∧ ¬(99000 ≤ duty ∧ b.outdat.X = 0) ∧
      b.stallCheck duty = { b with connectionBrokenCounter := 0 }) ∨
    (b.indat.enConnBrokenCtr ≠ 0 ∧ (99000 ≤ duty ∧ b.outdat.X = 0) ∧
      b.connectionBrokenCounter < 100 ∧ b.stallCheck duty =
        { b with connectionBrokenCounter := b.connectionBrokenCounter + 1 }) ∨
    (b.indat.enConnBrokenCtr ≠ 0 ∧ (99000 ≤ duty ∧ b.outdat.X = 0) ∧
      100 ≤ b.connectionBrokenCounter ∧ b.stallCheck duty =
        { b with
          outdat.connBroken := 1
          outdat.enMotorController := 0
          connectionBrokenCounter := 0 }) := by
  by_cases hflag : b.indat.enConnBrokenCtr = 0
  · exact Or.inl ⟨hflag, stallCheck_unchecked hflag⟩
  · by_cases hstalls : 99000 ≤ duty ∧ b.outdat.X = 0
    · rcases Nat.lt_or_ge b.connectionBrokenCounter 100 with hlt | hle
      · exact Or.inr (Or.inr (Or.inl ⟨hflag, hstalls, hlt, stallCheck_counted hflag hstalls hlt⟩))
      · exact Or.inr (Or.inr (Or.inr ⟨hflag, hstalls, hle, stallCheck_tripped hflag hstalls hle⟩))
    · exact Or.inr (Or.inl ⟨hflag, hstalls, stallCheck_turning hflag hstalls⟩)

/-- The stall check leaves the controller parts alone. -/
theorem stallCheck_parts (duty : Int32) (b : Board) :
    let b' := b.stallCheck duty
    b'.outdat.P = b.outdat.P ∧ b'.outdat.I = b.outdat.I ∧ b'.outdat.D = b.outdat.D ∧
      b'.outdat.FF = b.outdat.FF ∧ b'.outdat.X = b.outdat.X ∧ b'.prevW = b.prevW ∧
      b'.enable = b.enable := by
  rcases stallCheck_cases duty b with ⟨-, heq⟩ | ⟨-, -, heq⟩ | ⟨-, -, -, heq⟩ | ⟨-, -, -, heq⟩ <;>
    rw [heq] <;> exact ⟨rfl, rfl, rfl, rfl, rfl, rfl, rfl⟩

/-- The stall check disables the controller at maximal duty without rotation only. -/
theorem stallCheck_enMotorController (duty : Int32) (b : Board) :
    let b' := b.stallCheck duty
    b'.outdat.enMotorController = b.outdat.enMotorController ∨
      b'.outdat.enMotorController = 0 ∧ b.indat.enConnBrokenCtr ≠ 0 ∧ b.outdat.X = 0 ∧
        99000 ≤ duty := by
  rcases stallCheck_cases duty b with ⟨-, heq⟩ | ⟨-, -, heq⟩ | ⟨-, -, -, heq⟩ |
    ⟨hflag, hstalls, -, heq⟩ <;> rw [heq]
  · exact Or.inl rfl
  · exact Or.inl rfl
  · exact Or.inl rfl
  · exact Or.inr ⟨rfl, hflag, hstalls.2, hstalls.1⟩

/-- The sensor stage leaves the controller parts alone. -/
theorem handleSensors_parts (inp : BoardInput) (b : Board) :
    let b' := b.handleSensors inp
    b'.outdat.P = b.outdat.P ∧ b'.outdat.D = b.outdat.D ∧ b'.outdat.FF = b.outdat.FF :=
  handleSensors_writes (P := fun b' => b'.outdat.P = b.outdat.P ∧ b'.outdat.D = b.outdat.D ∧
    b'.outdat.FF = b.outdat.FF) fun _ _ _ => ⟨rfl, rfl, rfl⟩

/-- The motor stage with the controller enabled. -/
theorem controlEnabled_spec (encoder direction : UInt32) (b : Board) :
    let r := b.controlEnabled encoder direction
    let X := xTemp encoder direction
    let W := b.outdat.W
    r.1.outdat.X = X ∧ r.1.prevW = W ∧ r.1.outdat.P = (W - X) * pParameter ∧
      r.1.outdat.I = b.outdat.I + (W - X) * iParameter ∧
      r.1.outdat.D = (W - X - (b.prevW - b.outdat.X)) * dParameter ∧
      r.1.outdat.FF = W * ffParameter ∧
      r.2.enable = (if r.1.controllerSum < 0 then 2 else 1) ∧
      r.2.duty1 = (limitDuty r.1.controllerSum.abs).toUInt32 ∧
      r.2.duty2 = (limitDuty r.1.controllerSum.abs).toUInt32 ∧
      (r.1.outdat.enMotorController = b.outdat.enMotorController ∨
        r.1.outdat.enMotorController = 0 ∧ b.indat.enConnBrokenCtr ≠ 0 ∧ X = 0 ∧
          99000 ≤ limitDuty r.1.controllerSum.abs) := by
  set p := b.pid encoder direction with hp
  set sum := p.controllerSum with hsum
  -- the stall check changes the enable flag only
  obtain ⟨hP, hI, hD, hFF, hX, hprevW, henable⟩ :=
    stallCheck_parts (limitDuty sum.abs) (p.getDirection sum)
  have hsum' : (((p.getDirection sum).stallCheck (limitDuty sum.abs)).setDuty
      (limitDuty sum.abs)).controllerSum = sum := by
    simp only [controllerSum, setDuty, hP, hI, hD, hFF]
    rfl
  simp only [controlEnabled, ← hp, ← hsum, hsum']
  exact ⟨hX, hprevW, hP, hI, hD, hFF, henable, rfl, rfl, stallCheck_enMotorController _ _⟩

theorem control_X (encoder direction : UInt32) (b : Board) :
    (b.control encoder direction).1.outdat.X = xTemp encoder direction := by
  unfold Board.control
  split
  · exact (controlEnabled_spec encoder direction b).1
  · exact controlDisabled_writes (P := fun b' => b'.outdat.X = xTemp encoder direction)
      fun _ _ => rfl

/-- The measured value is that of the encoder. -/
theorem iteration_X (inp : BoardInput) (b : Board) :
    (iteration inp b).2.X = xTemp inp.encoder inp.direction := control_X _ _ _

theorem iteration_onStep (inp : BoardInput) {b : Board} (hb : b.outdat.enMotorController ≠ 0) :
    OnStep b (iteration inp b).1 (iteration inp b).2 := by
  have hbefore := beforeControl_sameMotor inp b
  unfold iteration
  generalize b.beforeControl inp = before at hbefore
  obtain ⟨c, accepted, reply⟩ := before
  have hc : c.outdat.enMotorController ≠ 0 := by rwa [hbefore.enMotorController]
  have hctl : c.control inp.encoder inp.direction = c.controlEnabled inp.encoder inp.direction :=
    if_pos hc
  have hspec := controlEnabled_spec inp.encoder inp.direction c
  have hlink := controlEnabled_sameLink inp.encoder inp.direction c
  dsimp only at hspec ⊢
  rw [hctl]
  generalize c.controlEnabled inp.encoder inp.direction = after at *
  obtain ⟨hX, hprevW, hP, hI, hD, hFF, henable, hduty1, hduty2, hstall⟩ := hspec
  have hsens := handleSensors_sameMotor inp after.1
  obtain ⟨hsP, hsD, hsFF⟩ := handleSensors_parts inp after.1
  have hsum : (after.1.handleSensors inp).controllerSum = after.1.controllerSum := by
    simp only [controllerSum, hsP, hsens.I, hsD, hsFF]
  -- the parts are computed from what the iteration found and from its own X and W
  rw [hbefore.I, ← hX, ← hlink.W] at hI
  rw [hbefore.prevW, hbefore.X, ← hX, ← hlink.W] at hD
  rw [← hX, ← hlink.W] at hP
  rw [← hlink.W] at hFF hprevW
  exact
    { enabled := decide_eq_true hc
      X := hsens.X
      prevW := hsens.prevW.trans hprevW
      P := hsP.trans hP
      I := hsens.I.trans hI
      D := hsD.trans hD
      FF := hsFF.trans hFF
      direction := by rw [hsum]; exact henable
      duty1 := by rw [hsum]; exact hduty1
      duty2 := by rw [hsum]; exact hduty2
      enMotorController := by
        rw [hsum, hsens.enMotorController, ← hbefore.enMotorController,
          (handleSensors_sameLink inp after.1).indat, hlink.indat, hX]
        exact hstall }

/-! ### Iterations of a run -/

section Run

variable {b₀ : Board} {inp : ℕ → BoardInput} {n : ℕ}

theorem boardAt_succ (b₀ : Board) (inp : ℕ → BoardInput) (n : ℕ) :
    boardAt b₀ inp (n + 1) = (iteration (inp n) (boardAt b₀ inp n)).1 := rfl

theorem boardAt_offStep (h : (boardAt b₀ inp n).outdat.enMotorController = 0) :
    OffStep (boardAt b₀ inp n) (boardAt b₀ inp (n + 1)) (showsAt b₀ inp n) :=
  iteration_offStep (inp n) h

theorem boardAt_onStep (h : (boardAt b₀ inp n).outdat.enMotorController ≠ 0) :
    OnStep (boardAt b₀ inp n) (boardAt b₀ inp (n + 1)) (showsAt b₀ inp n) :=
  iteration_onStep (inp n) h

/-- An iteration starts with the controller enabled or disabled. -/
theorem boardAt_onStep_or_offStep (b₀ : Board) (inp : ℕ → BoardInput) (n : ℕ) :
    OnStep (boardAt b₀ inp n) (boardAt b₀ inp (n + 1)) (showsAt b₀ inp n) ∨
      OffStep (boardAt b₀ inp n) (boardAt b₀ inp (n + 1)) (showsAt b₀ inp n) := by
  by_cases hen : (boardAt b₀ inp n).outdat.enMotorController = 0
  · exact Or.inr (boardAt_offStep hen)
  · exact Or.inl (boardAt_onStep hen)

/-- What an iteration does that shows the controller enabled. -/
theorem onStep_of_enabled (h : (showsAt b₀ inp n).enabled = true) :
    OnStep (boardAt b₀ inp n) (boardAt b₀ inp (n + 1)) (showsAt b₀ inp n) :=
  (boardAt_onStep_or_offStep b₀ inp n).resolve_right fun hoff =>
    Bool.false_ne_true (hoff.enabled.symm.trans h)

/-- What an iteration does that shows the controller disabled. -/
theorem offStep_of_disabled (h : (showsAt b₀ inp n).enabled = false) :
    OffStep (boardAt b₀ inp n) (boardAt b₀ inp (n + 1)) (showsAt b₀ inp n) :=
  (boardAt_onStep_or_offStep b₀ inp n).resolve_left fun hon =>
    Bool.false_ne_true (h.symm.trans hon.enabled)

end Run

end Board

end LegoCar
