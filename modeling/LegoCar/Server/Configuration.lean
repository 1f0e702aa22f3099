import Mathlib
import LegoCar.Lib.Sweep
import LegoCar.Server.EventLoop

/-!
# The configuration file

Before its loop the server reads its settings. The function that looks a setting up returns 1, or 0
if the setting is missing, and the variable then keeps its value. Four places test the result, in
four ways: `MIN_MSGS` and `InitString` for a negative result, which there is none of; the entries of
the boards and the assignment of the sensors for a zero; `ClientSocket` and the distances for a
zero, upon which they only print. No place tests the sensors' board indices.

`start` is this part of `main`: it ends with the state and the settings with which the loop is
entered, or stops before. There are three ways to stop (`Stop`): only some tests return with an
error; others clear `run`, upon which `main` goes on, skips the loop and shuts down as usual; and
some variables are used before they are set. The pointer `addr` keeps the address of the board
before, and without `ClientSocket` the descriptor `sd_dom_srv` goes into the set of `select` without
a value. `gate_iff` says for which files the gate is right, and `start_of_allRead` that start-up is
then that of the event loop's model.
-/

namespace LegoCar

/-! ### The file -/

/-- The settings of a board in the file. A setting that is missing, or has another type, is
`none`. -/
structure BoardEntry where
  Address : Option (List UInt8) := none
  Port : Option Int32 := none
  led : Option Int32 := none
  W : Option Int32 := none
  enConnBrokenCtr : Option Bool := none

/-- The settings in the file. -/
structure ConfigFile where
  MIN_MSGS : Option Int32
  Boards : Option (List BoardEntry)
  InitString : Option (List UInt8)
  ClientSocket : Option (List UInt8)
  BatterySensorPower : Option Int32
  BatterySensorCompute : Option Int32
  DistanceSensorFront : Option Int32
  DistanceSensorRear : Option Int32
  EnableDistanceHandlerFront : Option Bool
  EnableDistanceHandlerRear : Option Bool
  EnableBatteryHandler : Option Bool
  Dist_min : Option ℚ
  Dist_break_begin : Option ℚ

/-- What a lookup returns: 1 on success and 0 on failure. -/
def lookup {α : Type} (setting : Option α) : ℤ := if setting.isSome then 1 else 0

/-- The variables the loop uses. -/
structure Settings where
  minMsgs : ℤ
  nanoInit : Option (List UInt8)
  ubatP : ℤ
  ubatC : ℤ
  distF : ℤ
  distR : ℤ
  enDistHandlerFront : Bool
  enDistHandlerRear : Bool
  enBattHandler : Bool
  distMin : ℚ
  distBreakBegin : ℚ

/-- A board index in range. -/
def boardIndex (n : ℤ) : Option (Fin 4) :=
  if h : 0 ≤ n ∧ n < 4 then some ⟨n.toNat, by omega⟩ else none

/-- The settings of the event loop's model, where the version string is set and the sensors are on
the four boards. -/
def Settings.serverConfig (g : Settings) : Option ServerConfig := do
  let nanoInit ← g.nanoInit
  let ubatP ← boardIndex g.ubatP
  let ubatC ← boardIndex g.ubatC
  let distF ← boardIndex g.distF
  let distR ← boardIndex g.distR
  some
    { minMsgs := g.minMsgs
      nanoInit := nanoInit
      car :=
        { ubatP := ubatP
          ubatC := ubatC
          distF := distF
          distR := distR
          enDistHandlerFront := g.enDistHandlerFront
          enDistHandlerRear := g.enDistHandlerRear
          enBattHandler := g.enBattHandler
          distMin := g.distMin
          distBreakBegin := g.distBreakBegin } }

namespace BoardEntry

/-- `config_setting_lookup_...(board, ...)` for the settings of a board. -/
def Read (e : BoardEntry) : Prop :=
  lookup e.Address ≠ 0 ∧ lookup e.Port ≠ 0 ∧ lookup e.led ≠ 0 ∧ lookup e.W ≠ 0 ∧
    lookup e.enConnBrokenCtr ≠ 0

instance (e : BoardEntry) : Decidable e.Read := inferInstanceAs (Decidable (_ ∧ _))

/-- The settings of a board and the system calls for it. -/
def boardStart (e : BoardEntry) (io : Server.BoardStart) : Server.BoardStart :=
  { io with
    settings := e.Read
    led := (e.led.getD 0).toInt8.toUInt8
    W := e.W.getD 0
    enConnBrokenCtr := if e.enConnBrokenCtr.getD false then 1 else 0 }

end BoardEntry

namespace ConfigFile

/-- The entry of a board. -/
def entry (conf : ConfigFile) (i : Fin 4) : BoardEntry := (conf.Boards.getD []).getD i {}

/-- What `init_car` looks up first: the assignment of the sensors and the handlers. -/
def SensorsRead (conf : ConfigFile) : Prop :=
  lookup conf.BatterySensorPower ≠ 0 ∧ lookup conf.BatterySensorCompute ≠ 0 ∧
    lookup conf.DistanceSensorFront ≠ 0 ∧ lookup conf.DistanceSensorRear ≠ 0 ∧
    lookup conf.EnableDistanceHandlerFront ≠ 0 ∧ lookup conf.EnableDistanceHandlerRear ≠ 0 ∧
    lookup conf.EnableBatteryHandler ≠ 0

instance (conf : ConfigFile) : Decidable conf.SensorsRead := inferInstanceAs (Decidable (_ ∧ _))

/-- What start-up reads when the boards have these settings. -/
def startInput (conf : ConfigFile) (inp : Server.StartInput) : Server.StartInput :=
  { inp with board := fun i => (conf.entry i).boardStart (inp.board i) }

/-- The variables after all lookups. The global variables are zero before, and the second distance
is looked up when the first was found. -/
def settings (conf : ConfigFile) : Settings where
  minMsgs := (conf.MIN_MSGS.getD 0).toInt
  nanoInit := conf.InitString
  ubatP := (conf.BatterySensorPower.getD 0).toInt
  ubatC := (conf.BatterySensorCompute.getD 0).toInt
  distF := (conf.DistanceSensorFront.getD 0).toInt
  distR := (conf.DistanceSensorRear.getD 0).toInt
  enDistHandlerFront := conf.EnableDistanceHandlerFront.getD false
  enDistHandlerRear := conf.EnableDistanceHandlerRear.getD false
  enBattHandler := conf.EnableBatteryHandler.getD false
  distMin := conf.Dist_min.getD 0
  distBreakBegin := if lookup conf.Dist_min ≠ 0 then conf.Dist_break_begin.getD 0 else 0

end ConfigFile

/-! ### Start-up -/

/-- How `main` ends without the loop: it returns `-1` after an error message; it skips the loop,
reports `Shutdown complete.` and returns `0`; or it follows a pointer that is null or was never set,
or puts a descriptor that was never set into a set. -/
inductive Stop where
  | exit
  | shutdown
  | undefined
deriving DecidableEq

/-- The variables while the boards are connected. -/
structure Starting where
  run : Bool
  addr : Option (List UInt8)
  server : Server

namespace Server

/-- One iteration of the loop over the boards. Whether or not the lookup succeeds, the address is
used. -/
def startBoard (conf : ConfigFile) (inp : StartInput) (i : Fin 4) (st : Starting) :
    Except Stop Starting :=
  if st.run then
    let addr := (conf.entry i).Address.orElse fun _ => st.addr
    if addr = none then .error .undefined
    else
      match st.server.connectBoard ((conf.entry i).boardStart (inp.board i)) i with
      | none => .ok { st with run := false, addr := addr }
      | some s => .ok { st with addr := addr, server := s }
  else .ok st

/-- The socket for clients. Without its name nothing is opened, and `FD_SET` gets a descriptor that
was never set. -/
def openClientSocket (conf : ConfigFile) (inp : StartInput) (s : Server) : Except Stop Server :=
  if lookup conf.ClientSocket ≠ 0 then
    match s.openDom inp with
    | none => .error .exit
    | some s => .ok s
  else .error .undefined

/-- `init_car`; the distances are not checked. -/
def initCar (conf : ConfigFile) : Except Stop Settings :=
  if ¬conf.SensorsRead then .error .exit else .ok conf.settings

/-- A failed lookup with a negative result clears `run`. -/
def checkNegative (result : ℤ) (st : Starting) : Starting :=
  if 0 > result then { st with run := false } else st

/-- `main`, before the loop. -/
def start (file : Option ConfigFile) (inp : StartInput) : Except Stop (Server × Settings) :=
  match file with
  | none => .error .exit
  | some conf => do
    let st : Starting :=
      checkNegative (lookup conf.MIN_MSGS) ⟨false, none, initial inp.buffer⟩
    -- the length of a missing setting is read from a null pointer
    if conf.Boards = none then .error .undefined
    if (conf.Boards.getD []).length ≠ 4 then .error .exit
    let st ← (List.finRange 4).foldlM (fun (st : Starting) i => startBoard conf inp i st)
      { st with run := true }
    let st := checkNegative (lookup conf.InitString) st
    let s ← openClientSocket conf inp st.server
    let settings ← initCar conf
    if st.run then .ok (s, settings) else .error .shutdown

end Server

/-! ### The gate -/

namespace ConfigFile

/-- Every setting the loop uses is read, and the sensors are on boards 0 to 3. -/
structure AllRead (conf : ConfigFile) : Prop where
  minMsgs : conf.MIN_MSGS ≠ none
  initString : conf.InitString ≠ none
  clientSocket : conf.ClientSocket ≠ none
  boards : (conf.Boards.getD []).length = 4
  entries : ∀ i, (conf.entry i).Read
  sensors : conf.SensorsRead
  indices : ∀ n ∈ [conf.settings.ubatP, conf.settings.ubatC, conf.settings.distF,
    conf.settings.distR], 0 ≤ n ∧ n < 4
  distMin : conf.Dist_min ≠ none
  distBreakBegin : conf.Dist_break_begin ≠ none

end ConfigFile

theorem lookup_ne_zero_iff {α : Type} {setting : Option α} :
    lookup setting ≠ 0 ↔ setting ≠ none := by
  cases setting <;> simp [lookup]

/-- No lookup is negative. -/
theorem checkNegative_lookup {α : Type} (setting : Option α) (st : Starting) :
    Server.checkNegative (lookup setting) st = st := by
  cases setting <;> exact if_neg (by simp [lookup])

/-- The state of the server, as long as the loop over the boards runs. -/
def Starting.connected (st : Starting) : Option Server := if st.run then some st.server else none

namespace Server

section Boards

variable (conf : ConfigFile) (inp : StartInput) {st : Starting}

/-- With an address to use, an iteration connects the board. -/
theorem startBoard_of_addr (i : Fin 4) (h : (conf.entry i).Address ≠ none ∨ st.addr ≠ none) :
    ∃ st', startBoard conf inp i st = .ok st' ∧
      (st.run = true ∨ st.addr ≠ none → st'.addr ≠ none) ∧
      st'.connected = st.connected.bind fun s =>
        s.connectBoard ((conf.entry i).boardStart (inp.board i)) i := by
  by_cases hrun : st.run = true
  · have haddr : ((conf.entry i).Address.orElse fun _ => st.addr) ≠ none := by
      cases hentry : (conf.entry i).Address with
      | none => exact h.resolve_left (not_not.mpr hentry)
      | some addr => exact Option.some_ne_none addr
    have hconn : st.connected = some st.server := if_pos hrun
    unfold startBoard
    rw [if_pos hrun]
    dsimp only
    rw [if_neg haddr, hconn, Option.bind_some]
    cases hboard : st.server.connectBoard ((conf.entry i).boardStart (inp.board i)) i with
    | none => exact ⟨_, rfl, fun _ => haddr, rfl⟩
    | some s => exact ⟨_, rfl, fun _ => haddr, if_pos hrun⟩
  · have hconn : st.connected = none := if_neg hrun
    refine ⟨st, if_neg hrun, fun hst => hst.resolve_left hrun, ?_⟩
    rw [hconn, Option.bind_none]

/-- Once an address was read, the loop connects the boards of its list. -/
theorem startBoards_of_addr (l : List (Fin 4)) (h : st.addr ≠ none) :
    ∃ st', l.foldlM (fun (st : Starting) i => startBoard conf inp i st) st = .ok st' ∧
      st'.connected = st.connected.bind fun s => l.foldlM (fun (s : Server) i =>
        s.connectBoard ((conf.entry i).boardStart (inp.board i)) i) s := by
  induction l generalizing st with
  | nil => exact ⟨st, rfl, (Option.bind_fun_some st.connected).symm⟩
  | cons i l ih =>
    obtain ⟨st₁, hstep, haddr, hconn⟩ := startBoard_of_addr conf inp i (Or.inr h)
    obtain ⟨st', hloop, hconn'⟩ := ih (haddr (Or.inr h))
    refine ⟨st', ?_, ?_⟩
    · rw [List.foldlM_cons, hstep]
      exact hloop
    · rw [hconn', hconn, Option.bind_assoc]
      rfl

/-- The loop over the four boards, when the first has an address. -/
theorem startBoards (st : Starting) (hrun : st.run = true) (h : (conf.entry 0).Address ≠ none) :
    ∃ st', (List.finRange 4).foldlM (fun (st : Starting) i => startBoard conf inp i st) st =
        .ok st' ∧
      st'.connected = (List.finRange 4).foldlM (fun (s : Server) i =>
        s.connectBoard ((conf.entry i).boardStart (inp.board i)) i) st.server := by
  have hconn₀ : st.connected = some st.server := if_pos hrun
  obtain ⟨st₁, hstep, haddr, hconn⟩ := startBoard_of_addr conf inp 0 (Or.inl h)
  obtain ⟨st', hloop, hconn'⟩ := startBoards_of_addr conf inp [1, 2, 3] (haddr (Or.inl hrun))
  rw [hconn₀, Option.bind_some] at hconn
  rw [hconn] at hconn'
  refine ⟨st', ?_, hconn'⟩
  rw [show List.finRange 4 = 0 :: [1, 2, 3] from rfl, List.foldlM_cons, hstep]
  exact hloop

end Boards

section Start

variable {conf : ConfigFile} (inp : StartInput)

/-- Four boards, the first of which has an address, are connected as in the model of the event
loop; then come the socket for clients and the sensors. -/
theorem start_of_address (h : conf.Boards ≠ none) (hlength : (conf.Boards.getD []).length = 4)
    (haddr : (conf.entry 0).Address ≠ none) :
    ∃ st : Starting, st.connected = (List.finRange 4).foldlM (fun (s : Server) i =>
        s.connectBoard ((conf.startInput inp).board i) i) (initial inp.buffer) ∧
      start (some conf) inp = (do
        let s ← openClientSocket conf inp st.server
        let settings ← initCar conf
        if st.run then .ok (s, settings) else .error .shutdown) := by
  obtain ⟨st, hloop, hconn⟩ := startBoards conf inp ⟨true, none, initial inp.buffer⟩ rfl haddr
  refine ⟨st, hconn, ?_⟩
  simp only [start, h, hlength, checkNegative_lookup, hloop, if_false, not_true_eq_false, ne_eq]
  rfl

theorem openClientSocket_of_read (h : conf.ClientSocket ≠ none) (s : Server) :
    openClientSocket conf inp s =
      match s.openDom inp with
      | none => .error .exit
      | some s => .ok s :=
  if_pos (lookup_ne_zero_iff.mpr h)

theorem initCar_of_sensorsRead (h : conf.SensorsRead) : initCar conf = .ok conf.settings :=
  if_neg (not_not.mpr h)

end Start

theorem isSome_connectBoard (start : BoardStart) (i : Fin 4) (s : Server) :
    (s.connectBoard start i).isSome = true ↔
      start.settings ∧ start.socket ∧ start.connect ∧ start.send := by
  unfold connectBoard
  split_ifs with h
  · exact iff_of_true rfl h
  · exact iff_of_false Bool.false_ne_true h

/-- All calls of the loop over the boards succeed. -/
def BoardCallsOk (inp : StartInput) : Prop :=
  ∀ i, (inp.board i).socket = true ∧ (inp.board i).connect = true ∧ (inp.board i).send = true

/-- The boards are connected exactly when their settings are read and the calls succeed. -/
theorem isSome_connectBoards (conf : ConfigFile) (inp : StartInput) (s : Server) :
    ((List.finRange 4).foldlM (fun (s : Server) i =>
        s.connectBoard ((conf.startInput inp).board i) i) s).isSome = true ↔
      (∀ i, (conf.entry i).Read) ∧ BoardCallsOk inp := by
  rw [Sweep.isSome_foldlM fun s i => isSome_connectBoard ((conf.startInput inp).board i) i s,
    BoardCallsOk, ← forall_and]
  refine forall_congr' fun i => ?_
  rw [forall_prop_of_true (List.mem_finRange i)]
  exact and_congr_left fun _ => decide_eq_true_iff

end Server

/-! ### The gate -/

open Server

/-- With everything read, the settings are those of an event loop. -/
theorem serverConfig_of_allRead {conf : ConfigFile} (h : conf.AllRead) :
    ∃ cfg, conf.settings.serverConfig = some cfg := by
  have hindex : ∀ n ∈ [conf.settings.ubatP, conf.settings.ubatC, conf.settings.distF,
      conf.settings.distR], ∃ i, boardIndex n = some i :=
    fun n hn => ⟨_, dif_pos (h.indices n hn)⟩
  simp only [List.forall_mem_cons] at hindex
  obtain ⟨⟨ubatP, hubatP⟩, ⟨ubatC, hubatC⟩, ⟨distF, hdistF⟩, ⟨distR, hdistR⟩, -⟩ := hindex
  obtain ⟨nanoInit, hnanoInit⟩ := Option.ne_none_iff_exists'.mp h.initString
  have hnanoInit' : conf.settings.nanoInit = some nanoInit := hnanoInit
  simp only [Settings.serverConfig, hnanoInit', hubatP, hubatC, hdistF, hdistR]
  exact ⟨_, rfl⟩

/-- With four boards, of which the first has an address, a name for the socket and the sensors
assigned, start-up is that of the event loop's model: it enters the loop with the settings of the
file, or stops where that fails, with an error only if it is the socket for clients that cannot be
opened. -/
theorem start_of_sensorsRead {conf : ConfigFile} (hboards : conf.Boards ≠ none)
    (hlength : (conf.Boards.getD []).length = 4) (haddr : (conf.entry 0).Address ≠ none)
    (hsocket : conf.ClientSocket ≠ none) (hsensors : conf.SensorsRead) (inp : StartInput) :
    start (some conf) inp =
      match startUp (conf.startInput inp) with
      | none => .error (if inp.listen then .shutdown else .exit)
      | some s => .ok (s, conf.settings) := by
  obtain ⟨st, hconn, hstart⟩ := start_of_address inp hboards hlength haddr
  have hup : startUp (conf.startInput inp) = st.connected.bind (openDom inp) := by
    rw [hconn]
    rfl
  rw [hstart, hup, openClientSocket_of_read inp hsocket, initCar_of_sensorsRead hsensors]
  unfold openDom
  by_cases hrun : st.run = true
  · have hsome : st.connected = some st.server := if_pos hrun
    rw [hsome, Option.bind_some]
    split_ifs <;> rfl
  · have hnone : st.connected = none := if_neg hrun
    rw [hnone, Option.bind_none]
    split_ifs <;> rfl

/-- With everything read, start-up is that of the event loop's model. -/
theorem start_of_allRead {conf : ConfigFile} (h : conf.AllRead) (inp : StartInput) :
    start (some conf) inp =
      match startUp (conf.startInput inp) with
      | none => .error (if inp.listen then .shutdown else .exit)
      | some s => .ok (s, conf.settings) := by
  have hboards : conf.Boards ≠ none := by
    intro hnone
    have hlength := h.boards
    rw [hnone] at hlength
    exact absurd hlength (by decide)
  exact start_of_sensorsRead hboards h.boards (lookup_ne_zero_iff.mp (h.entries 0).1)
    h.clientSocket h.sensors inp

/-- **A setting of a board that is missing is no error**: `main` goes on to the shutdown. -/
theorem start_of_entry_missing {conf : ConfigFile} (hboards : conf.Boards ≠ none)
    (hlength : (conf.Boards.getD []).length = 4) (haddr : (conf.entry 0).Address ≠ none)
    (hsocket : conf.ClientSocket ≠ none) (hsensors : conf.SensorsRead)
    (hentry : ∃ i, ¬(conf.entry i).Read) {inp : StartInput} (hlisten : inp.listen = true) :
    start (some conf) inp = .error .shutdown := by
  have hnone : (List.finRange 4).foldlM (fun (s : Server) i =>
      s.connectBoard ((conf.startInput inp).board i) i) (initial inp.buffer) = none := by
    rw [← Option.not_isSome_iff_eq_none, isSome_connectBoards]
    exact fun hall => hentry.elim fun i hi => hi (hall.1 i)
  have hup : startUp (conf.startInput inp) = none := by
    rw [startUp]
    exact congrArg (Option.bind · _) hnone
  rw [start_of_sensorsRead hboards hlength haddr hsocket hsensors, hup, hlisten]
  rfl

/-- The configuration file in the repository. -/
def carserverFile : ConfigFile :=
  let board (address : List UInt8) (led : Int32) : BoardEntry :=
    { Address := some address
      Port := some 23
      led := some led
      W := some 0
      enConnBrokenCtr := some true }
  { MIN_MSGS := some 5
    Boards := some
      [board [49, 57, 50, 46, 49, 54, 56, 46, 48, 46, 55] 1,
        board [49, 57, 50, 46, 49, 54, 56, 46, 48, 46, 49, 48] 3,
        board [49, 57, 50, 46, 49, 54, 56, 46, 48, 46, 56] 7,
        board [49, 57, 50, 46, 49, 54, 56, 46, 48, 46, 57] 15]
    InitString := some versionName
    ClientSocket := some
      [99, 97, 114, 115, 101, 114, 118, 101, 114, 95, 115, 111, 99, 107, 101, 116]
    BatterySensorPower := some 2
    BatterySensorCompute := some 1
    DistanceSensorFront := some 3
    DistanceSensorRear := some 2
    EnableDistanceHandlerFront := some false
    EnableDistanceHandlerRear := some false
    EnableBatteryHandler := some true
    Dist_min := some (1 / 10)
    Dist_break_begin := some 1 }

example : carserverFile.settings.serverConfig = some carserverCfg := rfl

end LegoCar
