import Mathlib
import LegoCar.Board.Delivery

/-!
# Uninitialised memory of a board

`main` initialises some fields of the two records `indat` and `outdat`, and leaves the others as
it finds them. Most of these are written before they are first used: the record of the host is
cleared or received before the controller reads it, and the duty and the timeout are written
before the reply that carries them. So two runs from different contents stay equal up to these
fields (`Agree`), which no byte sent and no motor setting depends on.

Two fields of the reply are not written before the first reply: `connBroken`, which only a trip of
the stall check sets, and the accelerations, which are written when the sensor has a sample. So
the board conducts itself the same exactly when the contents agree on them
(`uninitialised_iff`).
-/

namespace LegoCar

open Driven Board

namespace Board

-- the bytes on the serial port play no part here
attribute [local irreducible] Uart.readMany Uart.writeMany Uart.writeString

/-- The board with another record of the host, and another timeout and duty in the reply
record. -/
def withStale (indat : Indata) (timeout duty : UInt32) (b : Board) : Board :=
  { b with
    indat := indat
    outdat.network_timeout := timeout
    outdat.duty := duty }

/-! ### The stages -/

section Stages

variable (indat : Indata) (timeout duty : UInt32) (inp : BoardInput) (b : Board)

theorem readUbat_withStale (adc : UInt16) : (b.withStale indat timeout duty).readUbat adc =
    (b.readUbat adc).withStale indat timeout duty := by
  unfold readUbat
  rw [show (b.withStale indat timeout duty).displayCounter = b.displayCounter from rfl]
  split_ifs <;> rfl

theorem handleMeasuredis_withStale (sensorState sensorData : UInt32) :
    (b.withStale indat timeout duty).handleMeasuredis sensorState sensorData =
      (b.handleMeasuredis sensorState sensorData).withStale indat timeout duty := by
  unfold handleMeasuredis
  rw [show (b.withStale indat timeout duty).usState = b.usState from rfl]
  generalize b.usState = state
  match state with
  | 0 => dsimp only; split_ifs <;> rfl
  | 1 => dsimp only; split_ifs <;> rfl
  | _ + 2 => rfl

theorem handleAccel_withStale (ready : Bool) (xyz : Option (Fin 3 → Int16)) :
    (b.withStale indat timeout duty).handleAccel ready xyz =
      (b.handleAccel ready xyz).withStale indat timeout duty := by
  cases ready <;> cases xyz <;> rfl

theorem handleSensors_withStale : (b.withStale indat timeout duty).handleSensors inp =
    (b.handleSensors inp).withStale indat timeout duty := by
  unfold handleSensors
  rw [show (b.withStale indat timeout duty).distCounter = b.distCounter from rfl]
  split_ifs
  · exact handleMeasuredis_withStale _ _ _ _ _ _
  · exact handleAccel_withStale _ _ _ _ _ _
  · rfl

theorem blink_withStale :
    (b.withStale indat timeout duty).blink = b.blink.withStale indat timeout duty := by
  unfold blink
  rw [show (b.withStale indat timeout duty).displayCounter = b.displayCounter from rfl]
  split_ifs <;> rfl

theorem initCommunication_withStale (inp : UartInput) (i : ℕ) :
    (b.withStale indat timeout duty).initCommunication inp i =
      (b.initCommunication inp i).withStale { indat with setEnMotorController := 0 } timeout
        duty := by
  set c := b.clearCommand with hc
  have hclear : (b.withStale indat timeout duty).clearCommand =
      c.withStale { indat with setEnMotorController := 0 } timeout duty := rfl
  unfold initCommunication
  rw [hclear, ← hc]
  generalize ({ indat with setEnMotorController := 0 } : Indata) = cleared
  have hread : (c.withStale cleared timeout duty).readStart inp =
      (c.readStart inp).withStale cleared timeout duty := rfl
  have hstart : ((c.readStart inp).withStale cleared timeout duty).startLink inp =
      ((c.readStart inp).startLink inp).withStale cleared timeout duty := rfl
  have htag : ((c.readStart inp).withStale cleared timeout duty).c = (c.readStart inp).c := rfl
  dsimp only
  rw [hread, hstart, htag]
  split_ifs <;> exact blink_withStale _ _ _ _

theorem countTimeout_of_le {b : Board} (h : 50 ≤ b.uartTimeout + 1) : b.countTimeout =
    { b with
      uartTimeout := 0
      outdat.network_timeout := UInt32.ofNat (b.uartTimeout + 1)
      connBroken := true } :=
  if_pos h

theorem countTimeout_of_lt {b : Board} (h : b.uartTimeout + 1 < 50) : b.countTimeout =
    { b with
      uartTimeout := b.uartTimeout + 1
      outdat.network_timeout := UInt32.ofNat (b.uartTimeout + 1) } :=
  if_neg (not_le.mpr h)

theorem countTimeout_withStale :
    (b.withStale indat timeout duty).countTimeout =
        b.countTimeout.withStale indat b.countTimeout.outdat.network_timeout duty ∧
      b.countTimeout.indat = b.indat ∧ b.countTimeout.outdat.duty = b.outdat.duty := by
  have hsame : (b.withStale indat timeout duty).uartTimeout = b.uartTimeout := rfl
  rcases Nat.lt_or_ge (b.uartTimeout + 1) 50 with hlt | hle
  · rw [countTimeout_of_lt (hsame ▸ hlt), countTimeout_of_lt hlt]
    exact ⟨rfl, rfl, rfl⟩
  · rw [countTimeout_of_le (hsame ▸ hle), countTimeout_of_le hle]
    exact ⟨rfl, rfl, rfl⟩

theorem exchange_withStale (inp : UartInput) (i : ℕ) :
    ∃ indat', (b.withStale indat timeout b.outdat.duty).exchange inp i =
      ((b.exchange inp i).1.withStale indat' (b.exchange inp i).1.outdat.network_timeout
        (b.exchange inp i).1.outdat.duty, (b.exchange inp i).2) ∧
      (indat' = (b.exchange inp i).1.indat ∨
        indat' = indat ∧ (b.exchange inp i).1.indat = b.indat) := by
  obtain ⟨hcount, hindat, hduty⟩ := countTimeout_withStale indat timeout b.outdat.duty b
  unfold exchange
  rw [hcount, ← hduty]
  set c := b.countTimeout with hc
  have htag : ((c.withStale indat c.outdat.network_timeout c.outdat.duty).readStart inp).c =
      (c.readStart inp).c := rfl
  dsimp only
  rw [htag]
  split_ifs
  · exact ⟨_, rfl, Or.inl rfl⟩
  · exact ⟨_, rfl, Or.inr ⟨rfl, hindat⟩⟩
  · exact ⟨_, rfl, Or.inr ⟨rfl, hindat⟩⟩

theorem controlEnabled_withStale (encoder direction : UInt32) :
    (b.withStale b.indat timeout duty).controlEnabled encoder direction =
      ((b.controlEnabled encoder direction).1.withStale b.indat timeout
        (b.controlEnabled encoder direction).1.outdat.duty,
        (b.controlEnabled encoder direction).2) := by
  have hstall : ∀ (d : Int32) (c : Board), (c.withStale c.indat timeout duty).stallCheck d =
      (c.stallCheck d).withStale c.indat timeout duty := by
    intro d c
    rcases stallCheck_cases d c with ⟨hflag, heq⟩ | ⟨hflag, hturns, heq⟩ |
      ⟨hflag, hstalls, hlt, heq⟩ | ⟨hflag, hstalls, hle, heq⟩ <;> rw [heq]
    · exact stallCheck_unchecked hflag
    · exact stallCheck_turning hflag hturns
    · exact stallCheck_counted hflag hstalls hlt
    · exact stallCheck_tripped hflag hstalls hle
  set p := (b.pid encoder direction).getDirection (b.pid encoder direction).controllerSum with hp
  set d := limitDuty (b.pid encoder direction).controllerSum.abs with hd
  have hctl : (b.withStale b.indat timeout duty).controlEnabled encoder direction =
      ((((p.withStale p.indat timeout duty).stallCheck d).setDuty d),
        (((p.withStale p.indat timeout duty).stallCheck d).setDuty d).motorSetting
          d.toUInt32) := rfl
  have hctl' : b.controlEnabled encoder direction =
      ((p.stallCheck d).setDuty d, ((p.stallCheck d).setDuty d).motorSetting d.toUInt32) := rfl
  have hindat : p.indat = b.indat := rfl
  rw [hctl, hstall, hctl', hindat]
  generalize p.stallCheck d = x
  rfl

theorem controlDisabled_withStale (encoder direction : UInt32)
    (h : indat.setEnMotorController = b.indat.setEnMotorController) :
    (b.withStale indat timeout duty).controlDisabled encoder direction =
      ((b.controlDisabled encoder direction).1.withStale indat timeout
        (b.controlDisabled encoder direction).1.outdat.duty,
        (b.controlDisabled encoder direction).2) := by
  by_cases hset : b.indat.setEnMotorController = 0
  · simp only [controlDisabled, withStale, h, hset, if_true, ne_eq, not_true_eq_false, false_and,
      if_false]
    rfl
  · by_cases hoff : b.setEnMotorwasoff = true
    · simp only [controlDisabled, withStale, h, hset, hoff, if_true, ne_eq, not_false_eq_true,
        true_and, if_false]
      rfl
    · simp only [controlDisabled, withStale, h, hset, hoff, ne_eq, not_false_eq_true, true_and,
        if_false]
      rfl

end Stages

/-! ### Two runs -/

/-- Two states before an iteration agree on what matters: the duty while the link is up, and the
record of the host unless the controller is disabled and no request is pending. -/
structure Agree (b b' : Board) : Prop where
  eq : b' = b.withStale b'.indat b'.outdat.network_timeout b'.outdat.duty
  duty : b.connBroken = false → b'.outdat.duty = b.outdat.duty
  indat : b'.indat = b.indat ∨ b.outdat.enMotorController = 0 ∧
    (b.connBroken = false → b.indat.setEnMotorController = 0 ∧ b'.indat.setEnMotorController = 0)

/-- Two records of the host are the same for the motor stage: they are equal, or the controller is
disabled and neither carries a request. -/
def SameRequest (b : Board) (indat : Indata) : Prop :=
  indat = b.indat ∨ b.outdat.enMotorController = 0 ∧ b.indat.setEnMotorController = 0 ∧
    indat.setEnMotorController = 0

variable {b b' : Board}

theorem initCommunication_indat (inp : UartInput) (i : ℕ) (b : Board) :
    (b.initCommunication inp i).indat = { b.indat with setEnMotorController := 0 } :=
  congrArg Board.indat
    (initCommunication_withStale b.indat b.outdat.network_timeout b.outdat.duty b inp i)

/-- While the link is down, the request is cleared in both states. -/
theorem communicate_agree_of_down (inp : UartInput) (h : Agree b b') (hb : b.connBroken = true) :
    b'.communicate inp = ((b.communicate inp).1.withStale
        { b'.indat with setEnMotorController := 0 } b'.outdat.network_timeout b'.outdat.duty,
          (b.communicate inp).2) ∧
      (b.communicate inp).1.SameRequest { b'.indat with setEnMotorController := 0 } := by
  have hb' : b'.connBroken = true := by
    rw [h.eq]
    exact hb
  have hen := (communicate_sameMotor inp b).enMotorController
  have hset := ((communicate_linkStep inp b).of_down hb).2
  constructor
  · rw [communicate_of_down hb, communicate_of_down hb']
    -- both states poll the same serial port
    have hpoll : (b'.pollLength inp).2 = (b.pollLength inp).2.withStale b'.indat
        b'.outdat.network_timeout b'.outdat.duty :=
      congrArg (fun c : Board => (c.pollLength inp).2) h.eq
    have hlen : (b'.pollLength inp).2.uart = (b.pollLength inp).2.uart := by
      rw [hpoll]
      rfl
    rw [hlen, hpoll, initCommunication_withStale]
  · rcases h.indat with hsame | ⟨hoff, -⟩
    · refine Or.inl ?_
      rw [communicate_of_down hb, initCommunication_indat, hsame]
      rfl
    · exact Or.inr ⟨hen.trans hoff, hset, rfl⟩

/-- While the link is up, the states differ in the record of the host at most, until one is
received. -/
theorem communicate_agree_of_up (inp : UartInput) (h : Agree b b') (hb : b.connBroken = false) :
    ∃ indat timeout duty, b'.communicate inp =
        ((b.communicate inp).1.withStale indat timeout duty, (b.communicate inp).2) ∧
      (b.communicate inp).1.SameRequest indat := by
  have hb' : b'.connBroken = false := by
    rw [h.eq]
    exact hb
  have hen := (communicate_sameMotor inp b).enMotorController
  have hpoll : (b'.pollLength inp).2 = (b.pollLength inp).2.withStale b'.indat
      b'.outdat.network_timeout (b.pollLength inp).2.outdat.duty := by
    have heq := h.eq
    rw [h.duty hb] at heq
    exact congrArg (fun c : Board => (c.pollLength inp).2) heq
  have hlen : (b'.pollLength inp).2.uart = (b.pollLength inp).2.uart := by
    rw [hpoll]
    rfl
  have hindat : (b.pollLength inp).2.indat = b.indat := rfl
  obtain ⟨indat, hexchange, hreceived⟩ := exchange_withStale b'.indat b'.outdat.network_timeout
    (b.pollLength inp).2 inp (b.pollLength inp).2.uart.rx.length
  rw [communicate_of_up hb] at hen ⊢
  rw [communicate_of_up hb', hlen, hpoll]
  refine ⟨indat, _, _, hexchange, ?_⟩
  rcases hreceived with hnew | ⟨hold, hkept⟩
  · exact Or.inl hnew
  · rw [hindat] at hkept
    rw [SameRequest, hold, hkept]
    rcases h.indat with hsame | ⟨hoff, hset⟩
    · exact Or.inl hsame
    · exact Or.inr ⟨hen.trans hoff, hset hb⟩

theorem control_agree (encoder direction : UInt32) {indat : Indata} (timeout duty : UInt32)
    (h : b.SameRequest indat) :
    (b.withStale indat timeout duty).control encoder direction =
        ((b.control encoder direction).1.withStale indat timeout
          (b.control encoder direction).1.outdat.duty, (b.control encoder direction).2) ∧
      (b.control encoder direction).1.SameRequest indat := by
  have hindat := (control_sameLink encoder direction b).indat
  by_cases hen : b.outdat.enMotorController = 0
  · have hctl : b.control encoder direction = b.controlDisabled encoder direction :=
      if_neg (not_not.mpr hen)
    have hctl' : (b.withStale indat timeout duty).control encoder direction =
        (b.withStale indat timeout duty).controlDisabled encoder direction :=
      if_neg (not_not.mpr hen)
    have hset : indat.setEnMotorController = b.indat.setEnMotorController := by
      rcases h with rfl | ⟨-, hzero, hzero'⟩
      · rfl
      · rw [hzero, hzero']
    rw [hctl] at hindat ⊢
    rw [hctl', controlDisabled_withStale _ _ _ _ _ _ hset]
    refine ⟨rfl, ?_⟩
    rcases h with rfl | ⟨hoff, hzero, hzero'⟩
    · exact Or.inl hindat.symm
    · -- without a request the controller stays disabled
      obtain ⟨-, -, -, -, hoff'⟩ := controlDisabled_spec encoder direction hoff
      refine Or.inr ⟨hoff'.trans (if_neg fun hreq => hreq.1 hzero), ?_, hzero'⟩
      rw [hindat, hzero]
  · have hctl : b.control encoder direction = b.controlEnabled encoder direction := if_pos hen
    have hctl' : (b.withStale indat timeout duty).control encoder direction =
        (b.withStale indat timeout duty).controlEnabled encoder direction := if_pos hen
    obtain rfl : indat = b.indat := h.resolve_right fun hoff => hen hoff.1
    rw [hctl] at hindat ⊢
    rw [hctl', controlEnabled_withStale]
    exact ⟨rfl, Or.inl hindat.symm⟩

/-- Up to the control, states that agree show the same and come to differ in stale values only. -/
theorem beforeControl_agree (inp : BoardInput) (h : Agree b b') :
    ∃ indat timeout duty,
      b'.beforeControl inp =
        ((b.beforeControl inp).1.withStale indat timeout duty, (b.beforeControl inp).2) ∧
      (b.beforeControl inp).1.SameRequest indat := by
  have hcount : Agree b.countIteration b'.countIteration :=
    ⟨congrArg Board.countIteration h.eq, h.duty, h.indat⟩
  obtain ⟨indat, timeout, duty, hcomm, hrequest⟩ : ∃ indat timeout duty,
      b'.countIteration.communicate inp.uart =
        ((b.countIteration.communicate inp.uart).1.withStale indat timeout duty,
          (b.countIteration.communicate inp.uart).2) ∧
      (b.countIteration.communicate inp.uart).1.SameRequest indat := by
    cases hb : b.countIteration.connBroken with
    | true => exact ⟨_, _, _, communicate_agree_of_down inp.uart hcount hb⟩
    | false => exact communicate_agree_of_up inp.uart hcount hb
  have hubat := readUbat_withStale indat timeout duty (b.countIteration.communicate inp.uart).1
    inp.adc
  refine ⟨indat, timeout, duty, ?_, ?_⟩
  · rw [beforeControl, hcomm, beforeControl]
    exact Prod.ext hubat rfl
  · have hlink := (readUbat_sameLink inp.adc (b.countIteration.communicate inp.uart).1).indat
    have hmotor :=
      (readUbat_sameMotor inp.adc (b.countIteration.communicate inp.uart).1).enMotorController
    rw [SameRequest, beforeControl, hlink, hmotor]
    exact hrequest

/-- **The step of two runs.** States that agree show the same, and agree afterwards. -/
theorem iteration_agree (inp : BoardInput) (h : Agree b b') :
    Agree (iteration inp b).1 (iteration inp b').1 ∧
      (iteration inp b').2 = (iteration inp b).2 := by
  obtain ⟨indat, timeout, duty, hbefore, hrequest⟩ := beforeControl_agree inp h
  obtain ⟨hctl, hafter⟩ := control_agree inp.encoder inp.direction timeout duty hrequest
  -- the sensors neither read nor write what differs
  set after := (b.beforeControl inp).1.control inp.encoder inp.direction with hafterEq
  have hduty : (after.1.handleSensors inp).outdat.duty = after.1.outdat.duty := by
    have hsens : after.1.handleSensors inp = (after.1.handleSensors inp).withStale after.1.indat
        after.1.outdat.network_timeout after.1.outdat.duty := handleSensors_withStale _ _ _ inp _
    rw [hsens]
    rfl
  have hstep : iteration inp b' = ((iteration inp b).1.withStale indat timeout
      (iteration inp b).1.outdat.duty, (iteration inp b).2) := by
    have hout : (iteration inp b).1.outdat.duty = after.1.outdat.duty := hduty
    rw [hout]
    unfold iteration
    rw [hbefore]
    dsimp only
    rw [hctl, ← hafterEq]
    exact Prod.ext (handleSensors_withStale _ _ _ _ _) rfl
  have hsame : (iteration inp b).1.SameRequest indat := by
    have hen : (iteration inp b).1.outdat.enMotorController = after.1.outdat.enMotorController :=
      (handleSensors_sameMotor inp after.1).enMotorController
    have hindat : (iteration inp b).1.indat = after.1.indat :=
      (handleSensors_sameLink inp after.1).indat
    rw [SameRequest, hen, hindat]
    exact hafter
  rw [hstep]
  exact ⟨⟨rfl, fun _ => rfl, hsame.imp_right fun ⟨hoff, hzero, hzero'⟩ =>
    ⟨hoff, fun _ => ⟨hzero, hzero'⟩⟩⟩, rfl⟩

end Board

/-! ### Runs -/

/-- From two states, on the same inputs, the board writes the same bytes and makes the same
`motor_setting` calls. The serial port has every byte written in its history. -/
def SameConduct (b₀ b₀' : Board) : Prop :=
  ∀ inp n, (boardAt b₀ inp n).uart = (boardAt b₀' inp n).uart ∧
    (showsAt b₀ inp n).motor = (showsAt b₀' inp n).motor

theorem sameConduct_of_agree {b₀ b₀' : Board} (h : Agree b₀ b₀') : SameConduct b₀ b₀' := by
  intro inp n
  have hagree : Agree (boardAt b₀ inp n) (boardAt b₀' inp n) :=
    stateAt_rel h (fun i _ _ hagree => (iteration_agree i hagree).1) n
  refine ⟨?_, congrArg BoardOutput.motor (iteration_agree (inp n) hagree).2.symm⟩
  rw [hagree.eq]
  rfl

/-! ### The fields that are sent before they are written -/

section Sent

attribute [local irreducible] Uart.readMany Uart.writeMany Uart.writeString

/-- What the serial port does while the link is down depends on the serial port only. -/
theorem initCommunication_uart (inp : UartInput) (i : ℕ) (c : Board) :
    (c.initCommunication inp i).uart =
      if 1 ≤ i then
        if (c.uart.readFirst (inp.atRead 0)).1 = tagI then
          (c.uart.readFirst (inp.atRead 0)).2.writeString versionName inp.atWait inp.atWrite
        else (c.uart.readFirst (inp.atRead 0)).2
      else c.uart := by
  unfold initCommunication
  dsimp only
  by_cases hi : 1 ≤ i
  · rw [if_pos hi, if_pos hi]
    by_cases htag : (c.uart.readFirst (inp.atRead 0)).1 = tagI
    · rw [if_pos htag]
      exact (congrArg Board.uart (if_pos htag)).trans (uart_blink _)
    · rw [if_neg htag]
      exact (congrArg Board.uart (if_neg htag)).trans (uart_blink _)
  · rw [if_neg hi, if_neg hi]
    exact uart_blink _

theorem iteration_uart_of_down (inp : BoardInput) {b b' : Board} (hb : b.connBroken = true)
    (hb' : b'.connBroken = true) (h : b'.uart = b.uart) :
    (iteration inp b').1.uart = (iteration inp b).1.uart := by
  have hpoll : (b'.countIteration.pollLength inp.uart).2.uart =
      (b.countIteration.pollLength inp.uart).2.uart :=
    congrArg (fun u : Uart => u.sync inp.uart.atPoll) h
  rw [iteration_uart, iteration_uart, communicate_of_down (b := b'.countIteration) hb',
    communicate_of_down (b := b.countIteration) hb, initCommunication_uart, initCommunication_uart,
    hpoll]

/-- A reply carries the stall flag and the accelerations of the reply record. -/
theorem exchange_reply_fields (inp : UartInput) (i : ℕ) (b : Board) {r : List UInt8}
    (hr : (b.exchange inp i).2.2 = some r) : ∃ o : Outdata, r = tagR :: o.serial ∧
      o.connBroken = b.outdat.connBroken ∧ o.Acc.acc = b.outdat.Acc.acc := by
  have hcount : b.countTimeout.outdat.connBroken = b.outdat.connBroken ∧
      b.countTimeout.outdat.Acc.acc = b.outdat.Acc.acc := by
    rcases Nat.lt_or_ge (b.uartTimeout + 1) 50 with hlt | hle
    · rw [countTimeout_of_lt hlt]
      exact ⟨rfl, rfl⟩
    · rw [countTimeout_of_le hle]
      exact ⟨rfl, rfl⟩
  unfold exchange at hr
  dsimp only at hr
  split_ifs at hr
  · exact ⟨((b.countTimeout.readStart inp).receiveIndat inp).outdat, (Option.some.inj hr).symm,
      hcount.1, hcount.2⟩

/-- The reply to a record that arrives at a board with the link up and nothing waiting. -/
theorem said_oneFrame {inp : BoardInput} {b : Board} {f : Indata} (hb : b.connBroken = false)
    (hrx : b.uart.rx = []) (hpoll : inp.uart.atPoll.rxd = tagS :: f.serial)
    (hread : ∀ j < 9, (inp.uart.atRead j).rxd = [])
    (hwrite : ∀ j < 53, (inp.uart.atWrite j).rxd = []) :
    ∃ o : Outdata, (iteration inp b).1.uart.said = b.uart.said ++ tagR :: o.serial ∧
      o.connBroken = b.outdat.connBroken ∧ o.Acc.acc = b.outdat.Acc.acc := by
  obtain ⟨haccepted, -⟩ := iteration_oneFrame hb hrx hpoll hread hwrite
  obtain ⟨hsome, -⟩ := iteration_reply inp hb
  rw [haccepted] at hsome
  obtain ⟨r, hr⟩ := Option.isSome_iff_exists.mp hsome
  have hexchange : (iteration inp b).2.reply =
      (b.countIteration.communicate inp.uart).2.2 := rfl
  rw [communicate_of_up (b := b.countIteration) hb] at hexchange
  obtain ⟨o, ho, hoconn, hoacc⟩ := exchange_reply_fields _ _ _ (hexchange.symm.trans hr)
  refine ⟨o, ?_, hoconn, hoacc⟩
  rw [iteration_said inp hb, hr, ho]
  rfl

/-- A connection, and then a record. -/
def oneRequest : ℕ → BoardInput := feed [[tagI], framesOf [⟨0, 0, 0, 0, 0⟩]]

set_option maxRecDepth 2000 in
/-- The first iteration brings the link up. -/
theorem boardAt_oneRequest (indat : Indata) (outdat : Outdata) (accCali : Fin 3 → Int16) :
    (boardAt (boot indat outdat accCali) oneRequest 1).connBroken = false ∧
      (boardAt (boot indat outdat accCali) oneRequest 1).outdat.connBroken = outdat.connBroken ∧
      (boardAt (boot indat outdat accCali) oneRequest 1).outdat.Acc.acc = outdat.Acc.acc :=
  ⟨rfl, rfl, rfl⟩

/-- The first reply carries what the records contained before. -/
theorem said_oneRequest (indat : Indata) (outdat : Outdata) (accCali : Fin 3 → Int16) :
    ∃ o : Outdata, (boardAt (boot indat outdat accCali) oneRequest (1 + 1)).uart.said =
        versionName ++ tagR :: o.serial ∧
      o.connBroken = outdat.connBroken ∧ o.Acc.acc = outdat.Acc.acc := by
  have huart : (boardAt (boot indat outdat accCali) oneRequest 1).uart =
      (boardAt (boot default default) oneRequest 1).uart :=
    iteration_uart_of_down (oneRequest 0) rfl rfl rfl
  obtain ⟨hup, hconn, hacc⟩ := boardAt_oneRequest indat outdat accCali
  have hsaid : (boardAt (boot default default) oneRequest 1).uart.said = versionName := by
    decide +kernel
  have hempty : (boardAt (boot default default) oneRequest 1).uart.rx = [] := by decide +kernel
  have hrx : (boardAt (boot indat outdat accCali) oneRequest 1).uart.rx = [] := by
    rw [huart, hempty]
  have hpoll : (oneRequest 1).uart.atPoll.rxd = tagS :: Indata.serial ⟨0, 0, 0, 0, 0⟩ := by
    decide +kernel
  obtain ⟨o, ho, hoconn, hoacc⟩ := said_oneFrame hup hrx hpoll (fun _ _ => rfl)
    (fun _ _ => rfl)
  refine ⟨o, ?_, hoconn.trans hconn, hoacc.trans hacc⟩
  rw [boardAt_succ, ho, huart, hsaid]

/-- Boards that conduct themselves the same show the same contents in their first reply. -/
theorem fields_of_sameConduct {indat indat' : Indata} {outdat outdat' : Outdata}
    {accCali : Fin 3 → Int16}
    (hsame : SameConduct (boot indat outdat accCali) (boot indat' outdat' accCali)) :
    outdat'.connBroken = outdat.connBroken ∧ outdat'.Acc.acc = outdat.Acc.acc := by
  have hsaid := congrArg Uart.said (hsame oneRequest (1 + 1)).1
  obtain ⟨o, ho, hconn, hacc⟩ := said_oneRequest indat outdat accCali
  obtain ⟨o', ho', hconn', hacc'⟩ := said_oneRequest indat' outdat' accCali
  rw [ho, ho', List.append_cancel_left_eq] at hsaid
  have heq : o = o' := by
    rw [← Outdata.ofSerial_serial o, ← Outdata.ofSerial_serial o', (List.cons.inj hsaid).2]
  rw [← hconn, ← hconn', ← hacc, ← hacc', heq]
  exact ⟨rfl, rfl⟩

end Sent

/-- **Uninitialised memory.** From two contents of the records, the board conducts itself the same
on all inputs exactly when they agree on the stall flag and the accelerations. -/
theorem uninitialised_iff (indat indat' : Indata) (outdat outdat' : Outdata)
    (accCali : Fin 3 → Int16) :
    SameConduct (boot indat outdat accCali) (boot indat' outdat' accCali) ↔
      outdat'.connBroken = outdat.connBroken ∧ outdat'.Acc.acc = outdat.Acc.acc := by
  constructor
  · exact fields_of_sameConduct
  · rintro ⟨hconn, hacc⟩
    -- the link is down and the controller disabled
    have hdown : (boot indat outdat accCali).connBroken ≠ false := Bool.noConfusion
    refine sameConduct_of_agree ⟨?_, fun hup => absurd hup hdown,
      Or.inr ⟨rfl, fun hup => absurd hup hdown⟩⟩
    simp only [boot, withStale, hconn, hacc]

/-- A stall flag left in the reply record by an earlier program is sent to the host. -/
theorem uninitialised_fails : ¬ ∀ (indat indat' : Indata) (outdat outdat' : Outdata)
    (accCali : Fin 3 → Int16),
      SameConduct (boot indat outdat accCali) (boot indat' outdat' accCali) := by
  intro hsame
  have hflag : (1 : UInt8) = 0 :=
    (fields_of_sameConduct (hsame default default default
      { (default : Outdata) with connBroken := 1 } fun _ => 0)).1
  exact absurd hflag (by decide)

end LegoCar
