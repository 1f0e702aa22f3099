import Mathlib
import LegoCar.Server.Discipline
import LegoCar.Server.Orphans
import LegoCar.System.Link
import LegoCar.System.Visit

/-!
# The server and the boards

The vehicle is one server and four boards, each at the other end of a connection that carries bytes
in order. Their steps interleave freely: an iteration of the loop of the server, or an iteration of
the firmware of one of the boards. Clients, signals, sensors and the times at which bytes arrive are
part of the events.

An event is `Allowed` when the connections carry what was sent, the server receives the messages of
the boards whole, no call for a board fails, no board has sent too few messages when the server
checks, and no board times out. `Vehicle.closedLoop` shows that then each connection is a dialogue,
in whatever order the events come, and `Vehicle.capacity` that no FIFO ever overflows and no
connection is ever closed. `Vehicle.obeys` says how late a set value can be: a set value of the
server is in force at a board when two more replies of the board have been heard.
-/

namespace LegoCar

open Relation Board
open Server (NotRecord)

/-- The server and the four boards, the bytes that passed between them, and the history of the
records. -/
structure Vehicle where
  server : Server
  board : Fin 4 → Board
  sent : Fin 4 → List UInt8
  received : Fin 4 → List UInt8
  dialogue : Fin 4 → Dialogue Indata Outdata

/-- A step of the vehicle: an iteration of a board or of the server. -/
inductive Event where
  | board (i : Fin 4) (inp : BoardInput)
  | server (inp : LoopInput)

namespace Vehicle

/-- The connection of board `i`. -/
def link (i : Fin 4) (v : Vehicle) : Link where
  conn := v.server.conn i
  board := v.board i
  sent := v.sent i
  received := v.received i
  dialogue := v.dialogue i

/-- An iteration of the firmware of board `i`. -/
def boardStep (i : Fin 4) (inp : BoardInput) (v : Vehicle) : Vehicle :=
  let r := iteration inp (v.board i)
  { v with
    board := Function.update v.board i r.1
    dialogue := Function.update v.dialogue i ((v.dialogue i).answer r.2.accepted.toList
      (r.2.reply.toList.map fun bs => Outdata.ofSerial (bs.drop 1))) }

/-- An iteration of the loop of the server. -/
def serverStep (parse : ParseCommand) (cfg : ServerConfig) (inp : LoopInput) (v : Vehicle) :
    Vehicle :=
  { v with
    server := v.server.loopStep parse cfg inp
    sent := fun i => v.sent i ++ (v.server.framesTo parse cfg inp i).flatten
    received := fun i => v.received i ++ (v.server.hears cfg inp i).getD []
    dialogue := fun i => (v.dialogue i).ask (v.server.stores cfg inp i)
      ((v.server.framesTo parse cfg inp i).map fun bs => Indata.ofSerial (bs.drop 1)) }

def step (parse : ParseCommand) (cfg : ServerConfig) (e : Event) (v : Vehicle) : Vehicle :=
  match e with
  | .board i inp => v.boardStep i inp
  | .server inp => v.serverStep parse cfg inp

/-- What an event may do. A board hears what was sent to it, in order, and does not time out. The
server is calm: no call fails, and every board passes the check of its messages when it is made.
And what the server receives from a board is all that the board has written so far: no message comes
in pieces. -/
def Allowed (cfg : ServerConfig) (v : Vehicle) : Event → Prop
  | .board i inp => (iteration inp (v.board i)).1.uart.heard <+: v.sent i ∧
      ((v.board i).connBroken = false → (v.board i).uartTimeout + 1 < 50)
  | .server inp => v.server.Calm cfg inp ∧ ∀ i, ∀ bs ∈ v.server.hears cfg inp i,
      (v.board i).uart.Arrived (v.received i) bs

/-- One allowed event. -/
def Moves (parse : ParseCommand) (cfg : ServerConfig) (v v' : Vehicle) : Prop :=
  ∃ e, v.Allowed cfg e ∧ v' = v.step parse cfg e

/-- The vehicle after start-up: the server has sent an `'I'` to every board. -/
def opened (s₀ : Server) (board : Fin 4 → Board) : Vehicle where
  server := s₀
  board := board
  sent := fun _ => [tagI]
  received := fun _ => []
  dialogue := fun _ => .silent

/-- A board that has just been switched on. -/
def Fresh (b : Board) : Prop := b.connBroken = true ∧ b.uart = {}

/-- **The invariant**: every connection is sound, and a server that runs serves all boards. -/
structure Sound (v : Vehicle) : Prop where
  serving : v.server.run = true → v.server.Serving
  link : ∀ i, (v.link i).Sound

variable {parse : ParseCommand} {cfg : ServerConfig} {v v' : Vehicle} {i j : Fin 4}

/-! ### A board -/

theorem link_boardStep_self (i : Fin 4) (inp : BoardInput) (v : Vehicle) :
    (v.boardStep i inp).link i = (v.link i).iterate inp := by
  simp [link, boardStep, Link.iterate]

theorem link_boardStep_of_ne (h : j ≠ i) (inp : BoardInput) (v : Vehicle) :
    (v.boardStep i inp).link j = v.link j := by
  simp [link, boardStep, Function.update_of_ne h]

theorem Sound.boardStep (h : v.Sound) {inp : BoardInput} (hallowed : v.Allowed cfg (.board i inp)) :
    (v.boardStep i inp).Sound ∧
      ∀ j, ReflTransGen Dialogue.Step (v.dialogue j) ((v.boardStep i inp).dialogue j) := by
  obtain ⟨hsound, hdialogue⟩ := (h.link i).iterate hallowed.1 hallowed.2
  rw [← link_boardStep_self] at hsound hdialogue
  refine ⟨⟨h.serving, fun j => ?_⟩, fun j => ?_⟩
  · obtain rfl | hne := eq_or_ne j i
    · exact hsound
    · rw [link_boardStep_of_ne hne]
      exact h.link j
  · obtain rfl | hne := eq_or_ne j i
    · exact hdialogue
    · have hsame : (v.boardStep i inp).dialogue j = v.dialogue j :=
        congrArg Link.dialogue (link_boardStep_of_ne hne inp v)
      rw [hsame]

/-! ### The server -/

/-- The message of a sound connection is answered. -/
theorem answered_of_arrived (h : (v.link i).Sound) (hattached : v.server.Attached i)
    (hversion : cfg.nanoInit = versionName) {bs : List UInt8}
    (harrived : (v.board i).uart.Arrived (v.received i) bs) : v.server.Answered cfg bs i := by
  obtain ⟨rfl, o, hconn⟩ | ⟨r, o, rfl, -⟩ := h.message harrived
  · have hconn' : v.server.conn i = .greeting o := hconn
    rw [Server.conn_of_attached hattached] at hconn'
    refine Or.inr ⟨?_, fun hother => hother.1 (Link.cString_versionName.trans hversion.symm)⟩
    by_contra hinit
    rw [if_neg hinit] at hconn'
    exact absurd hconn' (by simp)
  · exact Or.inl (not_notRecord_recordFrame r)

/-- What the server does to a connection, when the message on it is answered. -/
theorem link_serverStep (hversion : cfg.nanoInit = versionName) {inp : LoopInput}
    (hserving : v.server.Serving) (hcalm : v.server.Calm cfg inp)
    (hconn : (v.server.loopStep parse cfg inp).conn i =
      (v.server.conn i).next cfg.nanoInit (v.server.hears cfg inp i))
    (hanswered : ∀ bs ∈ v.server.hears cfg inp i, v.server.Answered cfg bs i) :
    (v.serverStep parse cfg inp).link i = (v.link i).serve versionName
      (v.server.hears cfg inp i) ((v.server.handleCar cfg).nano i).indat := by
  have hframes := Server.framesTo_eq parse hserving hcalm i
  rw [hversion] at hconn
  unfold link serverStep Server.stores
  dsimp only
  rw [hconn, hframes]
  cases hears : v.server.hears cfg inp i with
  | none => simp [Link.serve, Conn.next, Dialogue.ask_nil]
  | some bs =>
    rw [hears] at hanswered
    have hstored : ((some bs).filter fun bs => decide ¬NotRecord bs).toList.map
        (fun bs => Outdata.ofSerial (bs.drop 1)) = Link.recordIn bs := by
      rw [Link.recordIn, Option.filter_some]
      by_cases hrecord : NotRecord bs
      · simp [hrecord]
      · simp [hrecord]
    rw [hstored, Option.filter_some, if_pos (decide_eq_true (hanswered bs rfl))]
    simp [Link.serve, Conn.next, Indata.ofSerial_serial]

/-- A server that has stopped does nothing. -/
theorem serverStep_of_stopped {inp : LoopInput} (hrun : ¬v.server.run = true) :
    v.serverStep parse cfg inp = v := by
  have hhears : ∀ i, v.server.hears cfg inp i = none := fun i => if_neg hrun
  have hframes : ∀ i, v.server.framesTo parse cfg inp i = [] := by
    intro i
    rw [Server.framesTo, Server.frames, if_neg hrun]
    rfl
  have hstep : v.server.loopStep parse cfg inp = v.server := if_neg hrun
  unfold serverStep Server.stores
  simp only [hhears, hframes, hstep]
  simp [Dialogue.ask_nil]

/-- The server hears messages that do not take a connection down. -/
theorem recv_ne_down_of_allowed (hversion : cfg.nanoInit = versionName) (h : v.Sound)
    {inp : LoopInput} (hallowed : v.Allowed cfg (.server inp)) (i : Fin 4) (bs : List UInt8)
    (hbs : v.server.hears cfg inp i = some bs) :
    (v.server.conn i).recv cfg.nanoInit bs ≠ .down := by
  rw [hversion]
  exact (h.link i).recv_ne_down (hallowed.2 i bs hbs)

/-- A server that runs serves every connection. -/
theorem link_serverStep_of_allowed (parse : ParseCommand) (hversion : cfg.nanoInit = versionName)
    (h : v.Sound) (hrun : v.server.run = true) {inp : LoopInput}
    (hallowed : v.Allowed cfg (.server inp)) (i : Fin 4) :
    (v.serverStep parse cfg inp).link i = (v.link i).serve versionName
      (v.server.hears cfg inp i) ((v.server.handleCar cfg).nano i).indat := by
  have hserving := h.serving hrun
  have hconn := (Server.serving_loopStep parse hserving hallowed.1
    (recv_ne_down_of_allowed hversion h hallowed)).2
  exact link_serverStep hversion hserving hallowed.1 (hconn i) fun bs hbs =>
    answered_of_arrived (h.link i) (hserving.attached i) hversion (hallowed.2 i bs hbs)

/-- **The server keeps the invariant**, and hears replies and sends requests. -/
theorem Sound.serverStep (hversion : cfg.nanoInit = versionName) (h : v.Sound) {inp : LoopInput}
    (hallowed : v.Allowed cfg (.server inp)) :
    (v.serverStep parse cfg inp).Sound ∧
      ∀ j, ReflTransGen Dialogue.Step (v.dialogue j) ((v.serverStep parse cfg inp).dialogue j) := by
  by_cases hrun : v.server.run = true
  · have hserving' := (Server.serving_loopStep parse (h.serving hrun) hallowed.1
      (recv_ne_down_of_allowed hversion h hallowed)).1
    have hserve : ∀ i, ((v.serverStep parse cfg inp).link i).Sound ∧
        ReflTransGen Dialogue.Step (v.dialogue i) ((v.serverStep parse cfg inp).dialogue i) := by
      intro i
      have hdialogue : (v.serverStep parse cfg inp).dialogue i =
          ((v.serverStep parse cfg inp).link i).dialogue := rfl
      rw [hdialogue, link_serverStep_of_allowed parse hversion h hrun hallowed i]
      cases hbs : v.server.hears cfg inp i with
      | none => exact ⟨h.link i, .refl⟩
      | some bs => exact (h.link i).serve (hallowed.2 i bs hbs) _
    exact ⟨⟨hserving', fun i => (hserve i).1⟩, fun i => (hserve i).2⟩
  · rw [serverStep_of_stopped hrun]
    exact ⟨h, fun _ => .refl⟩

/-- **Every allowed event keeps the invariant**, and moves every dialogue as a dialogue moves. -/
theorem Sound.moves (hversion : cfg.nanoInit = versionName) (h : v.Sound)
    (hmoves : Moves parse cfg v v') :
    v'.Sound ∧ ∀ j, ReflTransGen Dialogue.Step (v.dialogue j) (v'.dialogue j) := by
  obtain ⟨e, hallowed, rfl⟩ := hmoves
  cases e with
  | board i inp => exact h.boardStep hallowed
  | server inp => exact h.serverStep hversion hallowed

/-! ### Runs -/

/-- After start-up every connection has been greeted. -/
theorem sound_opened {start : Server.StartInput} {s₀ : Server} {board : Fin 4 → Board}
    (hstart : Server.startUp start = some s₀) (hfresh : ∀ i, Fresh (board i)) :
    (opened s₀ board).Sound := by
  obtain ⟨hsettled, hconnected⟩ := Server.startUp_settled hstart
  refine ⟨fun hrun => ⟨hsettled, fun fd hfd => ?_, Or.inl (Server.startUp_spec hstart).2,
    fun i => (hconnected i).2.2.2.1, fun i => (hconnected i).1⟩, fun i => ?_⟩
  · obtain ⟨w, hw, -⟩ := (Server.startUp_holding hstart).selected hrun fd hfd
    exact ⟨w, hw⟩
  · obtain ⟨hattached, -, -, -, hinit⟩ := hconnected i
    have hconn : s₀.conn i = .greeting (s₀.nano i).outdat := by
      rw [Server.conn_of_attached hattached, if_pos hinit]
    have hlink : (opened s₀ board).link i = Link.opened (s₀.conn i) (board i) := rfl
    rw [hlink, hconn]
    exact Link.sound_opened (hfresh i).1 (hfresh i).2

/-- Every run keeps the invariant, and is a run of every dialogue. -/
theorem sound_of_run {start : Server.StartInput} {s₀ : Server} {board : Fin 4 → Board}
    (hversion : cfg.nanoInit = versionName) (hstart : Server.startUp start = some s₀)
    (hfresh : ∀ i, Fresh (board i)) (hrun : ReflTransGen (Moves parse cfg) (opened s₀ board) v)
    (i : Fin 4) : v.Sound ∧ ReflTransGen Dialogue.Step .silent (v.dialogue i) :=
  hrun.refines (f := fun v => v.dialogue i) (fun _ _ hs hmoves =>
    ⟨(hs.moves hversion hmoves).1, (hs.moves hversion hmoves).2 i⟩) (sound_opened hstart hfresh)

/-- The set value that the server computes for board `i` from what it knows. -/
def setValue (cfg : ServerConfig) (i : Fin 4) (v : Vehicle) : Int32 :=
  ((v.server.handleCar cfg).nano i).indat.W

/-- An event while the set value for board `i` is `w`. -/
def Setting (cfg : ServerConfig) (i : Fin 4) (w : Int32) (v : Vehicle) (_ : Event) : Prop :=
  v.setValue cfg i = w

/-- One allowed event, of which `P` holds. -/
def MovesWhere (parse : ParseCommand) (cfg : ServerConfig) (P : Vehicle → Event → Prop)
    (v v' : Vehicle) : Prop :=
  ∃ e, v.Allowed cfg e ∧ P v e ∧ v' = v.step parse cfg e

theorem MovesWhere.moves {P : Vehicle → Event → Prop} (h : MovesWhere parse cfg P v v') :
    Moves parse cfg v v' :=
  h.imp fun _ he => ⟨he.1, he.2.2⟩

/-- What the events of a run keep holds after it, and adds to what is known of the events. -/
theorem run_keeps {P Q : Vehicle → Event → Prop} {I : Vehicle → Prop}
    (hkeeps : ∀ v v', I v → MovesWhere parse cfg P v v' → I v')
    (himp : ∀ v e, I v → P v e → Q v e) (h : I v)
    (hrun : ReflTransGen (MovesWhere parse cfg P) v v') :
    I v' ∧ ReflTransGen (MovesWhere parse cfg Q) v v' := by
  induction hrun with
  | refl => exact ⟨h, .refl⟩
  | tail _ hlast ih =>
    obtain ⟨e, hallowed, hP, heq⟩ := id hlast
    exact ⟨hkeeps _ _ ih.1 hlast, ih.2.tail ⟨e, hallowed, himp _ e ih.1 hP, heq⟩⟩

/-! ### Scripts -/

instance (cfg : ServerConfig) (v : Vehicle) : ∀ e, Decidable (v.Allowed cfg e)
  | .board _ _ => inferInstanceAs (Decidable (_ ∧ _))
  | .server _ => inferInstanceAs (Decidable (_ ∧ _))

/-- The state after a list of events, each made from the state before it. -/
def play (parse : ParseCommand) (cfg : ServerConfig) :
    List (Vehicle → Event) → Vehicle → Vehicle
  | [], v => v
  | e :: es, v => play parse cfg es (v.step parse cfg (e v))

/-- Every event of the list is allowed, and `P` holds of it. -/
def Plays (parse : ParseCommand) (cfg : ServerConfig) (P : Vehicle → Event → Prop) :
    List (Vehicle → Event) → Vehicle → Prop
  | [], _ => True
  | e :: es, v => (v.Allowed cfg (e v) ∧ P v (e v)) ∧
    Plays parse cfg P es (v.step parse cfg (e v))

section Plays

variable {P : Vehicle → Event → Prop}

instance [∀ v e, Decidable (P v e)] : ∀ es v, Decidable (Plays parse cfg P es v)
  | [], _ => inferInstanceAs (Decidable True)
  | e :: es, v =>
    have := instDecidablePlays es (v.step parse cfg (e v))
    inferInstanceAs (Decidable ((_ ∧ _) ∧ _))

theorem run_of_plays {es : List (Vehicle → Event)} (h : Plays parse cfg P es v) :
    ReflTransGen (MovesWhere parse cfg P) v (play parse cfg es v) := by
  induction es generalizing v with
  | nil => exact .refl
  | cons e es ih => exact .head ⟨e v, h.1.1, h.1.2, rfl⟩ (ih h.2)

end Plays

instance (cfg : ServerConfig) (i : Fin 4) (w : Int32) (v : Vehicle) (e : Event) :
    Decidable (Setting cfg i w v e) :=
  inferInstanceAs (Decidable (_ = _))

/-- What was sent to board `i` reaches it. -/
def deliver (i : Fin 4) (v : Vehicle) : Event :=
  .board i (feed [(v.sent i).drop (v.board i).uart.heard.length] 0)

/-- The server receives what board `i` has written. -/
def collect (i : Fin 4) (v : Vehicle) : Event :=
  .server
    { select := .ready {(v.server.nano i).sd}
      board := fun _ => { recv := some ((v.board i).uart.said.drop (v.received i).length) } }

/-- A message from the server and the reply of board `i`. -/
def exchange (i : Fin 4) : List (Vehicle → Event) := [deliver i, deliver i, collect i]

theorem fresh_boot (i : Fin 4) : Fresh ((fun _ => boot default default) i) := ⟨rfl, rfl⟩

/-- The vehicle after the boards have been switched on. -/
def switchedOn : Vehicle := opened started fun _ => boot default default

/-- The vehicle after `n` exchanges with the first board. -/
def exchanged (n : ℕ) : Vehicle :=
  play replyDefault carserverCfg (List.replicate n (exchange 0)).flatten switchedOn

theorem moves_exchanged :
    ReflTransGen (Moves replyDefault carserverCfg) switchedOn (exchanged 2) := by
  have hrun : ReflTransGen (MovesWhere replyDefault carserverCfg (Setting carserverCfg 0 0))
      switchedOn (exchanged 2) := run_of_plays (by decide +kernel)
  exact hrun.lift id fun _ _ => MovesWhere.moves

/-- **The connections are dialogues.** In every run of allowed events, in whatever order they come,
requests and replies alternate on each connection, and none is lost, repeated or overtaken. The
server has sent an `'I'` and the frames of the requests, a board has written the version string and
its replies, the reply heard last is stored, and the request taken last is in force. -/
theorem closedLoop {start : Server.StartInput} {s₀ : Server} {board : Fin 4 → Board}
    (hversion : cfg.nanoInit = versionName) (hstart : Server.startUp start = some s₀)
    (hfresh : ∀ i, Fresh (board i)) (hrun : ReflTransGen (Moves parse cfg) (opened s₀ board) v)
    (i : Fin 4) :
    ReflTransGen Dialogue.Step .silent (v.dialogue i) ∧
      v.sent i = tagI :: framesOf (v.dialogue i).asked ∧
      ((v.board i).uart.said = [] ∧ v.dialogue i = .silent ∨
        (v.board i).uart.said = versionName ++ (v.dialogue i).given.flatMap recordFrame) ∧
      (∀ o ∈ (v.dialogue i).heard.getLast?, v.server.conn i = .up o) ∧
      ∀ f ∈ (v.dialogue i).taken.getLast?, (v.board i).outdat.W = f.W := by
  obtain ⟨hsound, hdialogue⟩ := sound_of_run hversion hstart hfresh hrun i
  have hlink := hsound.link i
  exact ⟨hdialogue, hlink.sent, hlink.said, hlink.stored, hlink.obeys⟩

theorem closedLoop_exchanged :
    ReflTransGen Dialogue.Step .silent ((exchanged 2).dialogue 0) ∧
      (exchanged 2).sent 0 = tagI :: framesOf ((exchanged 2).dialogue 0).asked ∧
      (((exchanged 2).board 0).uart.said = [] ∧ (exchanged 2).dialogue 0 = .silent ∨
        ((exchanged 2).board 0).uart.said =
          versionName ++ ((exchanged 2).dialogue 0).given.flatMap recordFrame) ∧
      (∀ o ∈ ((exchanged 2).dialogue 0).heard.getLast?, (exchanged 2).server.conn 0 = .up o) ∧
      ∀ f ∈ ((exchanged 2).dialogue 0).taken.getLast?, ((exchanged 2).board 0).outdat.W = f.W :=
  closedLoop rfl startUp_started fresh_boot moves_exchanged 0

/-- **No FIFO overflows and no connection is closed.** In every run of allowed events no byte that
arrives at a board is lost, no byte that it writes is dropped, no more than one reply waits to be
transmitted, and the server, as long as it runs, keeps every board in the set of descriptors and its
bit set. -/
theorem capacity {start : Server.StartInput} {s₀ : Server} {board : Fin 4 → Board}
    (hversion : cfg.nanoInit = versionName) (hstart : Server.startUp start = some s₀)
    (hfresh : ∀ i, Fresh (board i)) (hrun : ReflTransGen (Moves parse cfg) (opened s₀ board) v)
    (i : Fin 4) :
    (v.board i).uart.lost = 0 ∧ (v.board i).uart.cut = 0 ∧ (v.board i).uart.tx.length ≤ 53 ∧
      v.server.conn i ≠ .down ∧
      (v.server.run = true → v.server.Attached i ∧ v.server.connBoards i = true) := by
  obtain ⟨hsound, -⟩ := sound_of_run hversion hstart hfresh hrun i
  have hlink := hsound.link i
  exact ⟨hlink.healthy.lost, hlink.healthy.whole.room, hlink.healthy.backlog, hlink.ne_down,
    fun hr => ⟨(hsound.serving hr).attached i, (hsound.serving hr).bits i⟩⟩

theorem capacity_exchanged :
    ((exchanged 2).board 0).uart.lost = 0 ∧ ((exchanged 2).board 0).uart.cut = 0 ∧
      ((exchanged 2).board 0).uart.tx.length ≤ 53 ∧ (exchanged 2).server.conn 0 ≠ .down ∧
      ((exchanged 2).server.run = true →
        (exchanged 2).server.Attached 0 ∧ (exchanged 2).server.connBoards 0 = true) :=
  capacity rfl startUp_started fresh_boot moves_exchanged 0

/-! ### How late a set value can be -/

/-- Every request that an event adds has the set value that the server computes. -/
theorem asked_of_moves (hmoves : Moves parse cfg v v') (hserving : v.server.run = true →
    v.server.Serving) (i : Fin 4) : ∃ new, (v'.dialogue i).asked = (v.dialogue i).asked ++ new ∧
      ∀ f ∈ new, f.W = v.setValue cfg i := by
  obtain ⟨e, hallowed, rfl⟩ := hmoves
  cases e with
  | board j inp =>
    refine ⟨[], ?_, fun f hf => absurd hf List.not_mem_nil⟩
    obtain rfl | hne := eq_or_ne i j
    · simp [step, boardStep, Dialogue.answer]
    · simp [step, boardStep, Function.update_of_ne hne]
  | server inp =>
    by_cases hrun : v.server.run = true
    · refine ⟨(v.server.framesTo parse cfg inp i).map fun bs => Indata.ofSerial (bs.drop 1), rfl,
        fun f hf => ?_⟩
      rw [Server.framesTo_eq parse (hserving hrun) hallowed.1 i] at hf
      obtain ⟨bs, hbs, rfl⟩ := List.mem_map.mp hf
      obtain ⟨_, -, rfl⟩ := List.mem_map.mp hbs
      rw [List.drop_one, List.tail_cons, Indata.ofSerial_serial]
      rfl
    · refine ⟨[], ?_, fun f hf => absurd hf List.not_mem_nil⟩
      have hsame : v.step parse cfg (.server inp) = v := serverStep_of_stopped hrun
      rw [hsame, List.append_nil]

/-- While the set value does not change, all new requests have it. -/
theorem asked_of_run {w : Int32} (hversion : cfg.nanoInit = versionName) (hsound : v.Sound)
    (hrun : ReflTransGen (MovesWhere parse cfg (Setting cfg i w)) v v') : v'.Sound ∧
      ∃ new, (v'.dialogue i).asked = (v.dialogue i).asked ++ new ∧ ∀ f ∈ new, f.W = w := by
  induction hrun with
  | refl => exact ⟨hsound, [], (List.append_nil _).symm, fun f hf => absurd hf List.not_mem_nil⟩
  | tail _ hlast ih =>
    obtain ⟨hs, new, hasked, hnew⟩ := ih
    obtain ⟨last, hasked', hlast'⟩ := asked_of_moves hlast.moves hs.serving i
    obtain ⟨e, -, hset, -⟩ := id hlast
    refine ⟨(hs.moves hversion hlast.moves).1, new ++ last, ?_, fun f hf => ?_⟩
    · rw [hasked', hasked, List.append_assoc]
    · obtain hf | hf := List.mem_append.mp hf
      · exact hnew f hf
      · exact (hlast' f hf).trans hset

theorem outdat_of_run {start : Server.StartInput} {s₀ : Server} {board : Fin 4 → Board} {w : Int32}
    (hversion : cfg.nanoInit = versionName) (hstart : Server.startUp start = some s₀)
    (hfresh : ∀ i, Fresh (board i)) (hrun : ReflTransGen (Moves parse cfg) (opened s₀ board) v)
    (hsame : ReflTransGen (MovesWhere parse cfg (Setting cfg i w)) v v')
    (hheard : (v.dialogue i).heard.length + 2 ≤ (v'.dialogue i).heard.length) :
    (v'.board i).outdat.W = w := by
  obtain ⟨hsound, hdialogue⟩ := sound_of_run hversion hstart hfresh hrun i
  have hrun' : ReflTransGen (Moves parse cfg) (opened s₀ board) v' :=
    hrun.trans (hsame.lift id fun _ _ => MovesWhere.moves)
  obtain ⟨-, hdialogue'⟩ := sound_of_run hversion hstart hfresh hrun' i
  obtain ⟨hsound', new, hasked, hnew⟩ := asked_of_run hversion hsound hsame
  have hbefore := Dialogue.alternates_of_run hdialogue
  have hafter := Dialogue.alternates_of_run hdialogue'
  -- the request taken last is one of the new ones
  have hlate : (v.dialogue i).asked.length < (v'.dialogue i).taken.length := by
    have hflight := hbefore.one_in_flight
    have hanswered := hbefore.answered
    have hanswered' := hafter.answered
    have hle := hafter.heard_prefix.1.length_le
    omega
  obtain ⟨f, hf, hmem⟩ := hafter.last_taken hasked hlate
  exact ((hsound'.link i).obeys f hf).trans (hnew f hmem)

/-- **A set value is in force two replies later.** From any state of a run of allowed events, let
the set value that the server computes for a board stay the same, while everything else goes on.
When the server has heard two more replies of the board, the board obeys that set value. -/
theorem obeys {start : Server.StartInput} {s₀ : Server} {board : Fin 4 → Board} {w : Int32}
    (hversion : cfg.nanoInit = versionName) (hstart : Server.startUp start = some s₀)
    (hfresh : ∀ i, Fresh (board i)) (hrun : ReflTransGen (Moves parse cfg) (opened s₀ board) v)
    (hsame : ReflTransGen (MovesWhere parse cfg (Setting cfg i w)) v v')
    (hheard : (v.dialogue i).heard.length + 2 ≤ (v'.dialogue i).heard.length) :
    (v'.board i).outdat.W = w :=
  outdat_of_run hversion hstart hfresh hrun hsame hheard

theorem obeys_exchanged : ((play replyDefault carserverCfg (exchange 0 ++ exchange 0)
    (exchanged 2)).board 0).outdat.W = 0 :=
  obeys rfl startUp_started fresh_boot moves_exchanged
    (run_of_plays (by decide +kernel)) (by decide +kernel)

end Vehicle

end LegoCar
