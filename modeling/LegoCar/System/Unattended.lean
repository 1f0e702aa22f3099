import Mathlib
import LegoCar.System.Stop

/-!
# A car that is left alone

The server keeps the speeds of the last command: no timer takes them back, and nothing is done about
them when the client goes away. With the distance handlers off, as they are in `carserver.cfg`, and
no empty battery, the set values are those of the speeds alone: the battery handler multiplies them
by one, which changes no number of their type (`Server.FloatSpeeds`). So a car that is left alone
goes on, whatever else happens (`Vehicle.unattended`).

The battery handler does end this. While the records that the server has stored report an empty
battery, the set values are zero whatever is commanded, and a board has this set value when it has
replied twice (`Vehicle.exhausted`). The front handler has to be off for it, as it raises a forward
speed to its limit.
-/

namespace LegoCar

open Relation Board

/-! ### The handlers -/

section Handlers

/-- The set values of two speeds that no handler limits. -/
def driveValues (A : Arithmetic) (vLeft vRight : ℚ) : Fin 4 → Int32 :=
  let right := Int32.ofInt (A.float.mul (.fin vRight) (.fin vMax)).trunc
  let left := Int32.ofInt (A.float.mul (.fin vLeft) (.fin (-vMax))).trunc
  ![right, right, left, left]

variable {A : Arithmetic} {cfg : CarConfig} {r : Readings} {v batt vLeft vRight : ℚ}
  {front rear : ExtRat}

/-- Without the distance handlers, only the battery handler changes a speed. -/
theorem limitSpeed_of_off (hfront : cfg.enDistHandlerFront = false)
    (hrear : cfg.enDistHandlerRear = false) (front rear : ExtRat) :
    limitSpeed A cfg v (.fin batt) front rear =
      if cfg.enBattHandler then A.float.round (v * batt) else .fin v := by
  unfold limitSpeed
  dsimp only
  rw [hfront, hrear, if_neg (fun h => Bool.false_ne_true h.1),
    if_neg (fun h => Bool.false_ne_true h.1), A.float.mul_fin]

/-- Without the distance handlers and with enough voltage, no speed is limited. -/
theorem setValues_of_off (hfront : cfg.enDistHandlerFront = false)
    (hrear : cfg.enDistHandlerRear = false)
    (hbatt : cfg.enBattHandler = true → ¬BattLow r.ubatPower r.ubatCompute)
    (hl : A.float.round vLeft = .fin vLeft) (hr : A.float.round vRight = .fin vRight) :
    setValues A cfg r vLeft vRight = driveValues A vLeft vRight := by
  obtain ⟨hbl, hbr⟩ := batteryHandler_limits r.ubatPower r.ubatCompute r.distanceFront
    r.distanceRear
  have hfull : ∀ v : ℚ, A.float.round v = .fin v → (if cfg.enBattHandler then
      A.float.round (v * battLimit r.ubatPower r.ubatCompute) else .fin v) = .fin v := by
    intro v hv
    split_ifs with hen
    · rw [battLimit, if_neg (hbatt hen), mul_one, hv]
    · rfl
  have hleft : leftSpeed A cfg r vLeft = .fin vLeft := by
    rw [leftSpeed, hbl, limitSpeed_of_off hfront hrear, hfull vLeft hl]
  have hright : rightSpeed A cfg r vRight = .fin vRight := by
    rw [rightSpeed, hbr, limitSpeed_of_off hfront hrear, hfull vRight hr]
  unfold setValues
  dsimp only
  rw [hleft, hright]
  rfl

/-- The product is rounded before its fraction is dropped: of the `float` next to 0.29 it is 58. -/
example : driveValues .ieee (speed 0x3E947AE1) (speed 0x3E947AE1) = ![58, 58, -58, -58] := by
  decide +kernel

/-- With an empty battery a speed is zero behind the handlers, if the front handler is off. -/
theorem limitSpeed_of_empty (hen : cfg.enBattHandler = true)
    (hfront : cfg.enDistHandlerFront = false) (hrear : PartOrNan rear) :
    limitSpeed A cfg v (.fin 0) front rear = .fin 0 := by
  have hoff : ¬(cfg.enDistHandlerFront = true ∧ 0 < v) := fun h =>
    Bool.false_ne_true (hfront.symm.trans h.1)
  unfold limitSpeed
  dsimp only
  rw [if_pos hen, if_neg hoff, A.float.mul_fin, mul_zero, A.float.round_zero]
  split_ifs with hback
  · obtain rfl | ⟨q, rfl, hq, -⟩ := hrear
    · exact macroMIN_nan _
    · rw [ExtRat.neg_fin, macroMAX_fin, max_eq_right (neg_nonpos.mpr hq)]
  · rfl

theorem setValues_of_empty (hen : cfg.enBattHandler = true)
    (hfront : cfg.enDistHandlerFront = false) (hlow : BattLow r.ubatPower r.ubatCompute) :
    setValues A cfg r vLeft vRight = fun _ => 0 := by
  obtain ⟨hl, hr⟩ := batteryHandler_limits r.ubatPower r.ubatCompute r.distanceFront r.distanceRear
  obtain ⟨hrearLeft, hrearRight⟩ := distHandler_mem A cfg r.distanceRear
  have hleft : leftSpeed A cfg r vLeft = .fin 0 := by
    rw [leftSpeed, hl, battLimit, if_pos hlow, limitSpeed_of_empty hen hfront hrearLeft]
  have hright : rightSpeed A cfg r vRight = .fin 0 := by
    rw [rightSpeed, hr, battLimit, if_pos hlow, limitSpeed_of_empty hen hfront hrearRight]
  exact setValues_of_stopped A cfg r hleft hright

end Handlers

/-! ### The type of the speeds -/

namespace Server

variable {cfg : ServerConfig} {inp : LoopInput} {s : Server}

/-- The stored speeds are numbers of the type `float`. -/
def FloatSpeeds (s : Server) : Prop :=
  Arithmetic.ieee.float.round s.car.vLeft = .fin s.car.vLeft ∧
    Arithmetic.ieee.float.round s.car.vRight = .fin s.car.vRight

theorem floatSpeeds_of_eq {t : Server} (h : t.speeds = s.speeds) (hs : s.FloatSpeeds) :
    t.FloatSpeeds := by
  obtain ⟨hl, hr⟩ := Prod.mk.inj h
  rwa [FloatSpeeds, hl, hr]

/-- The numbers of an accepted command are, terminated or not. -/
theorem floatSpeeds_serveClient (cfg : ServerConfig) (inp : LoopInput) (rfd : Finset ℤ)
    (hs : s.FloatSpeeds) : (s.serveClient (parseCommand cfg.car) inp rfd).1.FloatSpeeds := by
  have hcar := (serveClient_spec (parseCommand cfg.car) inp rfd s).2
  cases hmsg : clientMessage inp rfd s with
  | none =>
    rw [hmsg] at hcar
    exact floatSpeeds_of_eq (by rw [speeds, hcar]; rfl) hs
  | some bs =>
    rw [hmsg] at hcar
    dsimp only at hcar
    cases hread : readSpeeds (cString (bs ++ s.buffer.drop bs.length ++ inp.behind)) with
    | none =>
      obtain ⟨old, hparse⟩ : ∃ old, parseCommand cfg.car s.car s.nano s.connBoards
          (bs ++ s.buffer.drop bs.length) inp.behind = (s.car, writeText defaultReply old, 21) :=
        parseCommand_of_rejected hread
      rw [hparse] at hcar
      exact floatSpeeds_of_eq (by rw [speeds, hcar]; rfl) hs
    | some p =>
      rw [parseCommand_of_accepted hread] at hcar
      obtain ⟨hl, hr⟩ := inUnit_of_readSpeeds hread
      rw [FloatSpeeds, hcar]
      exact ⟨ExtRat.round_of_ofBits (ofBits_eq_speed hl),
        ExtRat.round_of_ofBits (ofBits_eq_speed hr)⟩

theorem floatSpeeds_loopStep (hs : s.FloatSpeeds) :
    (s.loopStep (parseCommand cfg.car) cfg inp).FloatSpeeds := by
  unfold loopStep
  split_ifs
  · refine floatSpeeds_of_eq (s := s.iterate (parseCommand cfg.car) cfg inp) rfl ?_
    rw [iterate_eq]
    cases hsel : s.selected cfg inp with
    | none => exact floatSpeeds_of_eq (sameCommand_prepare cfg inp s).speeds hs
    | some r =>
      have haccept : (r.1.acceptClient inp r.2).FloatSpeeds :=
        floatSpeeds_of_eq ((selected_sameCommand hsel).trans
          (acceptClient_memory inp r.2 r.1).sameCommand).speeds hs
      have hclient := floatSpeeds_serveClient cfg inp r.2 haccept
      dsimp only
      unfold handle
      dsimp only
      split_ifs
      · exact hclient
      · exact floatSpeeds_of_eq (sameCommand_readBoards cfg inp r.2 _ _).speeds hclient
  · exact hs

theorem floatSpeeds_startUp {start : StartInput} {s₀ : Server} (h : startUp start = some s₀) :
    s₀.FloatSpeeds := by
  obtain ⟨hl, hr⟩ := Prod.mk.inj (speeds_startUp h)
  rw [FloatSpeeds, hl, hr]
  exact ⟨Rounding.round_zero _, Rounding.round_zero _⟩

end Server

namespace Vehicle

variable {parse : ParseCommand} {cfg : ServerConfig} {v v' : Vehicle} {i : Fin 4}

/-- The records that the server has stored report an empty battery. -/
def BatteryEmpty (cfg : ServerConfig) (v : Vehicle) : Prop :=
  BattLow (v.server.nano cfg.car.ubatP).outdat.ubat (v.server.nano cfg.car.ubatC).outdat.ubat

instance (cfg : ServerConfig) (v : Vehicle) : Decidable (v.BatteryEmpty cfg) :=
  inferInstanceAs (Decidable (BattLow _ _))

/-! ### Without a client -/

/-- An event in which no command is accepted, while the battery handler limits nothing. The message
of the client, if there is one, is terminated. -/
def Unattended (cfg : ServerConfig) (v : Vehicle) (e : Event) : Prop :=
  (cfg.car.enBattHandler = true → ¬v.BatteryEmpty cfg) ∧
    match e with
    | .board _ _ => True
    | .server inp => Server.Terminated inp ∧ (v.server.answered cfg inp).bind command = none

/-- The server forgets no command. -/
theorem speeds_of_unattended
    (hmoves : MovesWhere (parseCommand cfg.car) cfg (Unattended cfg) v v') :
    v'.server.speeds = v.server.speeds := by
  obtain ⟨e, -, ⟨-, halone⟩, rfl⟩ := hmoves
  cases e with
  | board j inp => rfl
  | server inp => rw [speeds_step halone.1, halone.2, Option.getD_none]

theorem floatSpeeds_of_run {start : Server.StartInput} {s₀ : Server} {board : Fin 4 → Board}
    (hstart : Server.startUp start = some s₀)
    (hrun : ReflTransGen (Moves (parseCommand cfg.car) cfg) (opened s₀ board) v) :
    v.server.FloatSpeeds := by
  induction hrun with
  | refl => exact Server.floatSpeeds_startUp hstart
  | tail _ hmoves ih =>
    obtain ⟨e, -, rfl⟩ := hmoves
    cases e with
    | board j inp => exact ih
    | server inp => exact Server.floatSpeeds_loopStep ih

/-- **A car that is left alone goes on.** In any run of allowed events, with the distance handlers
off, let no command be accepted any more, and no battery be empty that is checked. Whatever else
happens, when a board has replied twice it has the set value of the speeds that were commanded
last. -/
theorem unattended {start : Server.StartInput} {s₀ : Server} {board : Fin 4 → Board}
    (hversion : cfg.nanoInit = versionName) (hstart : Server.startUp start = some s₀)
    (hfresh : ∀ i, Fresh (board i))
    (hrun : ReflTransGen (Moves (parseCommand cfg.car) cfg) (opened s₀ board) v)
    (hfront : cfg.car.enDistHandlerFront = false) (hrear : cfg.car.enDistHandlerRear = false)
    (halone : ReflTransGen (MovesWhere (parseCommand cfg.car) cfg (Unattended cfg)) v v')
    (hheard : (v.dialogue i).heard.length + 2 ≤ (v'.dialogue i).heard.length) :
    (v'.board i).outdat.W = driveValues .ieee v.server.car.vLeft v.server.car.vRight i := by
  have hfloat := floatSpeeds_of_run hstart hrun
  have hsetting : ∀ u : Vehicle, u.server.speeds = v.server.speeds →
      (cfg.car.enBattHandler = true → ¬u.BatteryEmpty cfg) →
        u.setValue cfg i = driveValues .ieee v.server.car.vLeft v.server.car.vRight i := by
    intro u hspeeds hbatt
    obtain ⟨hl, hr⟩ := Prod.mk.inj hspeeds
    rw [setValue_eq, hl, hr, setValues_of_off (r := readings cfg.car u.server.nano) hfront hrear
      hbatt hfloat.1 hfloat.2]
  have hsame := (run_keeps (I := fun u => u.server.speeds = v.server.speeds)
    (Q := Setting cfg i (driveValues .ieee v.server.car.vLeft v.server.car.vRight i))
    (fun _ _ hspeeds hmoves => (speeds_of_unattended hmoves).trans hspeeds)
    (fun u _ hspeeds he => hsetting u hspeeds he.1) rfl halone).2
  exact outdat_of_run hversion hstart hfresh hrun hsame hheard

instance (cfg : ServerConfig) (v : Vehicle) : ∀ e, Decidable (v.Unattended cfg e)
  | .board _ _ => inferInstanceAs (Decidable (_ ∧ True))
  | .server _ => inferInstanceAs (Decidable (_ ∧ _ ∧ _))

/-- The settings of `carserver.cfg`, but with the battery handler off. -/
def uncheckedCfg : ServerConfig :=
  { carserverCfg with car := { carserverCfg.car with enBattHandler := false } }

/-- The client sends a command for half the speed. -/
def clientDrives : LoopInput :=
  { clientStops with clientRecv := some (Stdio.ascii "[0.5, 0.5]" ++ [0]) }

/-- The client goes away. -/
def clientLeaves : LoopInput := { clientStops with clientRecv := some [] }

/-- The vehicle when a client has connected and sent the command. -/
def driven : Vehicle :=
  play (parseCommand uncheckedCfg.car) uncheckedCfg
    [fun _ => .server clientArrives, fun _ => .server clientDrives] switchedOn

theorem unattended_driven :
    ((play (parseCommand uncheckedCfg.car) uncheckedCfg
      ((fun _ => .server clientLeaves) :: (exchange 0 ++ exchange 0 ++ exchange 0)) driven).board
        0).outdat.W = driveValues .ieee driven.server.car.vLeft driven.server.car.vRight 0 ∧
      driveValues .ieee driven.server.car.vLeft driven.server.car.vRight 0 = 100 := by
  have hrun : ReflTransGen (MovesWhere (parseCommand uncheckedCfg.car) uncheckedCfg
      fun _ _ => True) switchedOn driven := run_of_plays (by decide +kernel)
  exact ⟨unattended (i := 0) rfl startUp_started fresh_boot
    (hrun.lift id fun _ _ => MovesWhere.moves) rfl rfl (run_of_plays (by decide +kernel))
    (by decide +kernel), by decide +kernel⟩

/-! ### With an empty battery -/

/-- An event while the server knows of an empty battery. -/
def Exhausted (cfg : ServerConfig) (v : Vehicle) (_ : Event) : Prop := v.BatteryEmpty cfg

instance (cfg : ServerConfig) (v : Vehicle) (e : Event) : Decidable (v.Exhausted cfg e) :=
  inferInstanceAs (Decidable (v.BatteryEmpty cfg))

/-- **An empty battery stops the car.** In any run of allowed events, with the battery handler on
and the front handler off, let the server know of an empty battery. Whatever is commanded, a board
that has replied twice since has the set value zero. -/
theorem exhausted {start : Server.StartInput} {s₀ : Server} {board : Fin 4 → Board}
    (hversion : cfg.nanoInit = versionName) (hstart : Server.startUp start = some s₀)
    (hfresh : ∀ i, Fresh (board i)) (hrun : ReflTransGen (Moves parse cfg) (opened s₀ board) v)
    (hen : cfg.car.enBattHandler = true) (hfront : cfg.car.enDistHandlerFront = false)
    (hempty : ReflTransGen (MovesWhere parse cfg (Exhausted cfg)) v v')
    (hheard : (v.dialogue i).heard.length + 2 ≤ (v'.dialogue i).heard.length) :
    (v'.board i).outdat.W = 0 := by
  have hsetting : ∀ u : Vehicle, u.BatteryEmpty cfg → u.setValue cfg i = 0 := by
    intro u hlow
    rw [setValue_eq, setValues_of_empty (r := readings cfg.car u.server.nano) hen hfront hlow]
  have hsame := (run_keeps (I := fun _ => True) (Q := Setting cfg i 0) (fun _ _ _ _ => trivial)
    (fun u _ _ => hsetting u) trivial hempty).2
  exact outdat_of_run hversion hstart hfresh hrun hsame hheard

theorem exhausted_exchanged : ((play replyDefault carserverCfg (exchange 0 ++ exchange 0)
    (exchanged 2)).board 0).outdat.W = 0 :=
  exhausted rfl startUp_started fresh_boot moves_exchanged rfl rfl
    (run_of_plays (by decide +kernel)) (by decide +kernel)

end Vehicle

end LegoCar
