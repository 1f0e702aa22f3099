import Mathlib
import LegoCar.Client.JoyStick
import LegoCar.Server.CommandInvariant
import LegoCar.System.ClosedLoop

/-!
# From the stick to the wheels

When the stick is let go, the page posts that it is in the middle, the handler of the request turns
this into the command `[0.0, -0.0]`, and the server into the set value zero for each board, whatever
the sensors report. `stop_of_released` is the first half of the way for the page in `remoter`, and
`stop_of_lifted` for the Android app, unless its request throws. `Vehicle.stops` is the second half:
as long as no other command is accepted, each board has a set value of zero when it has replied
twice.
-/

namespace LegoCar

open Relation Board

/-! ### From the stick to the server -/

section Client

open Client Stdio

/-- The command that is written for two zeros, the second of which is negative. -/
theorem command_stop : command (ascii "[0.0, -0.0]" ++ [0]) = some (0, 0) := by decide +kernel

/-- Whatever the handler sends for a stick in the middle is that command. -/
theorem command_of_zero (dumps : ℝ × ℝ → List UInt8) (hdumps : dumps 0 = ascii "[0.0, -0.0]")
    (io : PostIO) : ∀ text ∈ (doPost dumps (message 0) io).sent, command text = some (0, 0) := by
  intro text htext
  rw [(doPost_message dumps 0 io).1 text htext, speeds_eq_zero.mpr rfl, hdumps, command_stop]

/-- **Letting go of the stick commands zero.** Whatever has happened on the page, let a tick find
the joystick not pressed. If anything was posted, every text that the request posted last makes the
handler send, however often it has to try, is a command that the server accepts and that stops both
sides. -/
theorem stop_of_released (dumps : ℝ × ℝ → List UInt8) (hdumps : dumps 0 = ascii "[0.0, -0.0]")
    (es : List PageEvent) (hfree : (Script.opened.play false es).1.joystick.pressed = false)
    {d : ℤ × ℤ} (hd : d ∈ (Script.opened.play false (es ++ [.tick])).2.getLast?) (io : PostIO) :
    ∀ text ∈ (doPost dumps (message d) io).sent, command text = some (0, 0) := by
  have hzero : d = 0 := by
    have hposted := (Script.last_posted es).trans ((Script.centered_play es).released hfree)
    rwa [Option.mem_def.mp hd, Option.getD_some] at hposted
  rw [hzero]
  exact command_of_zero dumps hdumps io

theorem stop_of_released_push :
    let es : List PageEvent :=
      [.input (.mouseDown 0 0), .input (.mouseMove 3 4), .tick, .input .mouseUp]
    (0, 0) ∈ (Script.opened.play false (es ++ [.tick])).2.getLast? ∧ ∀ text ∈
        (doPost (fun _ => ascii "[0.0, -0.0]") (message (0, 0)) ⟨none, true, true, none⟩).sent,
      command text = some (0, 0) :=
  ⟨by decide, stop_of_released (fun _ => ascii "[0.0, -0.0]") rfl
    [.input (.mouseDown 0 0), .input (.mouseMove 3 4), .tick, .input .mouseUp] (by decide)
    (by decide) _⟩

end Client

/-! ### From the server to the boards -/

section Handlers

variable (A : Arithmetic) (cfg : CarConfig) (r : Readings)

/-- A speed of zero is zero behind the handlers. -/
theorem limitSpeed_zero {batt : ℚ} (front rear : ExtRat) :
    limitSpeed A cfg 0 (.fin batt) front rear = .fin 0 := by
  unfold limitSpeed
  dsimp only
  rw [if_neg (fun h => absurd h.2 (lt_irrefl _)), if_neg (fun h => absurd h.2 (lt_irrefl _)),
    A.float.mul_fin, zero_mul, A.float.round_zero, ite_self]

/-- Two speeds that the handlers make zero are set values of zero. -/
theorem setValues_of_stopped {vLeft vRight : ℚ} (hleft : leftSpeed A cfg r vLeft = .fin 0)
    (hright : rightSpeed A cfg r vRight = .fin 0) :
    setValues A cfg r vLeft vRight = fun _ => 0 := by
  have hzero : ∀ q : ℚ, Int32.ofInt (A.float.mul (.fin 0) (.fin q)).trunc = 0 := by
    intro q
    rw [A.float.mul_fin, zero_mul, A.float.round_zero]
    rfl
  unfold setValues
  dsimp only
  rw [hleft, hright, hzero, hzero]
  funext i
  fin_cases i <;> rfl

/-- **Two speeds of zero are set values of zero**, whatever the sensors report. -/
theorem setValues_zero : setValues A cfg r 0 0 = fun _ => 0 := by
  obtain ⟨hl, hr⟩ := batteryHandler_limits r.ubatPower r.ubatCompute r.distanceFront r.distanceRear
  have hleft : leftSpeed A cfg r 0 = .fin 0 := by
    rw [leftSpeed, hl]
    exact limitSpeed_zero A cfg _ _
  have hright : rightSpeed A cfg r 0 = .fin 0 := by
    rw [rightSpeed, hr]
    exact limitSpeed_zero A cfg _ _
  exact setValues_of_stopped A cfg r hleft hright

end Handlers

namespace Vehicle

variable {cfg : ServerConfig} {v v' : Vehicle} {i : Fin 4}

/-- An event in which no command is accepted but the one that stops both sides. The message of the
client, if there is one, is terminated. -/
def Stopping (cfg : ServerConfig) (v : Vehicle) : Event → Prop
  | .board _ _ => True
  | .server inp => Server.Terminated inp ∧
      ∀ w ∈ (v.server.answered cfg inp).bind command, w = (0, 0)

theorem setValue_eq (cfg : ServerConfig) (i : Fin 4) (v : Vehicle) : v.setValue cfg i =
    setValues .ieee cfg.car (readings cfg.car v.server.nano) v.server.car.vLeft
      v.server.car.vRight i :=
  rfl

theorem setValue_of_speeds (h : v.server.speeds = (0, 0)) (i : Fin 4) : v.setValue cfg i = 0 := by
  obtain ⟨hl, hr⟩ := Prod.mk.inj h
  rw [setValue_eq, hl, hr, setValues_zero]

/-- The speeds that the server has stored change by a command only. -/
theorem speeds_step {inp : LoopInput} (hmsg : Server.Terminated inp) :
    (v.step (parseCommand cfg.car) cfg (.server inp)).server.speeds =
      ((v.server.answered cfg inp).bind command).getD v.server.speeds :=
  Server.speeds_loopStep hmsg v.server

/-- A server that commands zero goes on to command zero. -/
theorem speeds_of_stopping (h : v.server.speeds = (0, 0))
    (hmoves : MovesWhere (parseCommand cfg.car) cfg (Stopping cfg) v v') :
    v'.server.speeds = (0, 0) := by
  obtain ⟨e, -, hstop, rfl⟩ := hmoves
  cases e with
  | board j inp => exact h
  | server inp =>
    rw [speeds_step hstop.1]
    cases hcommand : (v.server.answered cfg inp).bind command with
    | none => exact h
    | some w => exact hstop.2 w hcommand

theorem setting_of_stopping (h : v.server.speeds = (0, 0))
    (hrun : ReflTransGen (MovesWhere (parseCommand cfg.car) cfg (Stopping cfg)) v v') (i : Fin 4) :
    ReflTransGen (MovesWhere (parseCommand cfg.car) cfg (Setting cfg i 0)) v v' :=
  (run_keeps (I := fun v => v.server.speeds = (0, 0)) (fun _ _ => speeds_of_stopping)
    (fun _ _ hzero _ => setValue_of_speeds hzero i) h hrun).2

/-- **The stop command reaches the wheels.** In any run of allowed events, let the server answer a
client whose command stops both sides. As long as no other command is accepted, whatever the sensors
report and in whatever order the server and the boards take their steps, a board that has replied
twice since has the set value zero. -/
theorem stops {start : Server.StartInput} {s₀ : Server} {board : Fin 4 → Board}
    (hversion : cfg.nanoInit = versionName) (hstart : Server.startUp start = some s₀)
    (hfresh : ∀ i, Fresh (board i))
    (hrun : ReflTransGen (Moves (parseCommand cfg.car) cfg) (opened s₀ board) v)
    (inp : LoopInput) (hallowed : v.Allowed cfg (.server inp)) (hmsg : Server.Terminated inp)
    (text : List UInt8) (hanswered : v.server.answered cfg inp = some text)
    (hcommand : command text = some (0, 0))
    (hstop : ReflTransGen (MovesWhere (parseCommand cfg.car) cfg (Stopping cfg))
      (v.step (parseCommand cfg.car) cfg (.server inp)) v')
    (hheard : ((v.step (parseCommand cfg.car) cfg (.server inp)).dialogue i).heard.length + 2 ≤
      (v'.dialogue i).heard.length) : (v'.board i).outdat.W = 0 := by
  have hspeeds : (v.step (parseCommand cfg.car) cfg (.server inp)).server.speeds = (0, 0) := by
    rw [speeds_step hmsg, hanswered, Option.bind_some, hcommand, Option.getD_some]
  exact outdat_of_run hversion hstart hfresh (hrun.tail ⟨_, hallowed, rfl⟩)
    (setting_of_stopping hspeeds hstop i) hheard

/-! ### A run -/

instance (inp : LoopInput) : Decidable (Server.Terminated inp) :=
  decidable_of_iff
    (∀ bs ∈ inp.clientRecv, bs.take ethFrameLen = [] ∨ 0 ∈ bs.take ethFrameLen) Iff.rfl

instance (cfg : ServerConfig) (v : Vehicle) : ∀ e, Decidable (v.Stopping cfg e)
  | .board _ _ => inferInstanceAs (Decidable True)
  | .server _ => inferInstanceAs (Decidable (_ ∧ _))

/-- A client connects. -/
def clientArrives : LoopInput := { select := .ready {7}, board := fun _ => { recv := some [] } }

/-- It sends the command that stops both sides. -/
def clientStops : LoopInput :=
  { select := .ready {8}
    clientRecv := some (Stdio.ascii "[0.0, -0.0]" ++ [0])
    board := fun _ => { recv := some [] } }

/-- The vehicle when the client has connected. -/
def withClient : Vehicle :=
  play (parseCommand carserverCfg.car) carserverCfg [fun _ => .server clientArrives] switchedOn

theorem stops_exchanged :
    ((play (parseCommand carserverCfg.car) carserverCfg (exchange 0 ++ exchange 0 ++ exchange 0)
      (withClient.step (parseCommand carserverCfg.car) carserverCfg (.server clientStops))).board
        0).outdat.W = 0 := by
  have hrun : ReflTransGen (MovesWhere (parseCommand carserverCfg.car) carserverCfg
      (Stopping carserverCfg)) switchedOn withClient := run_of_plays (by decide +kernel)
  exact stops (i := 0) rfl startUp_started fresh_boot
    (hrun.lift id fun _ _ => MovesWhere.moves) clientStops (by decide +kernel)
    (by decide +kernel) (Stdio.ascii "[0.0, -0.0]" ++ [0]) (by decide +kernel)
    command_stop (run_of_plays (by decide +kernel)) (by decide +kernel)

end Vehicle

end LegoCar
