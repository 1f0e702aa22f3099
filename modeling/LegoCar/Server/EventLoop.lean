import Mathlib
import LegoCar.Lib.Driven
import LegoCar.Lib.FdTable
import LegoCar.Lib.Sweep
import LegoCar.Server.CarHandler

/-!
# The event loop of the server

The server keeps four connections to boards, a listening socket and at most one client. One
iteration of its loop computes the set values, checks once a second that every board sent enough
messages, tries to reconnect the boards that are not connected, and waits in `select` for something
to read; then it accepts a client, answers the client's command, and reads a message from each
board that has one and sends it a frame.

The iteration is a function of the state before it and of what the system calls return
(`LoopInput`). Descriptors are numbers in a table that hands out the lowest free one; a `select`
with a closed descriptor in its set fails. `parse`, the command parser, is a parameter; it reads on
behind the buffer, where `LoopInput.behind` is.

`log`, `served` and `matched` are histories, which the server does not read: every `close`,
`FD_CLR`, `FD_ISSET` and `recv` on behalf of a board or of the client, with the owner of the
descriptor at that time; every record stored and every frame sent, with the state of the
connection at that time; and whether the version string was received on the connection.
-/

namespace LegoCar

open Posix

/-! ### Data -/

/-- What a descriptor was opened for. -/
inductive Owner where
  | other
  | listener
  | client
  | board (i : Fin 4)
deriving DecidableEq

/-- The calls that take a descriptor. -/
inductive Call where
  | close
  | fdClr
  | fdIsset
  | recv
deriving DecidableEq

/-- A call on behalf of `who`, and the owner of the descriptor at that time. -/
structure Access where
  call : Call
  who : Owner
  fd : ℤ
  found : Option Owner
deriving DecidableEq

/-- A record stored or a frame sent for a board: whether its connection was open at that time, and
whether the version string had been received on it. -/
structure Served where
  board : Fin 4
  isOpen : Bool
  isMatched : Bool
deriving DecidableEq

/-- The settings of the server. -/
structure ServerConfig where
  minMsgs : ℤ
  nanoInit : List UInt8
  car : CarConfig

/-- The variables of `main`. -/
structure Server where
  nano : Fin 4 → NanoBoard
  /-- bit `i` of `conn_boards` -/
  connBoards : Fin 4 → Bool
  connCtr : Fin 4 → ℕ
  rfds : Finset ℤ
  maxfd : ℤ
  sdDomSrv : ℤ
  sdDom : ℤ
  connTimer : ℤ
  run : Bool
  buffer : List UInt8
  car : Car
  fds : FdTable Owner
  matched : Fin 4 → Bool
  log : List Access
  served : List Served

/-- How an attempt to reconnect a board ends. -/
inductive Attempt where
  | socketFailed
  | connectFailed
  | sendFailed
  | connected

/-- How `select` returns: interrupted by a signal, with another error, or with the descriptors
that are ready. -/
inductive Select where
  | interrupted
  | failed
  | ready (fds : Finset ℤ)
deriving DecidableEq

/-- The system calls for a board: the bytes received, none on an error, and whether the frame can
be sent. -/
structure BoardIO where
  recv : Option (List UInt8) := none
  send : Bool := true

/-- What the system calls return in an iteration. The clock is read in the test of the timer, when
the timer is set, and, for each board, in the test for a new attempt and when it is made. `behind`
is the memory behind the buffer, up to the next zero byte. -/
structure LoopInput where
  tickTime : ℤ := 0
  timerTime : ℤ := 0
  retryTest : Fin 4 → ℤ := fun _ => 0
  retryTime : Fin 4 → ℤ := fun _ => 0
  attempt : Fin 4 → Attempt := fun _ => .connected
  select : Select := .ready ∅
  accept : Bool := true
  clientRecv : Option (List UInt8) := none
  clientSend : Bool := true
  behind : List UInt8 := []
  board : Fin 4 → BoardIO := fun _ => {}
  signal : Bool := false

/-- `parse_command`: from the car, the boards, their connection bits, the buffer and the memory
behind it, the car, the buffer with the reply, and its length. -/
abbrev ParseCommand :=
  Car → (Fin 4 → NanoBoard) → (Fin 4 → Bool) → List UInt8 → List UInt8 → Car × List UInt8 × ℤ

/-- `ETH_FRAME_LEN`. -/
def ethFrameLen : ℕ := 1514

/-- The bytes before the terminating zero. -/
def cString (bs : List UInt8) : List UInt8 := bs.takeWhile (· ≠ 0)

namespace Server

/-! ### Descriptors -/

/-- A call on a descriptor. -/
def note (call : Call) (who : Owner) (fd : ℤ) (s : Server) : Server :=
  { s with log := s.log ++ [⟨call, who, fd, s.fds.owner fd⟩] }

/-- `FD_SET(fd,&rfds)`, after which `maxfd` is raised. -/
def fdSet (fd : ℤ) (s : Server) : Server :=
  { s with rfds := insert fd s.rfds, maxfd := max s.maxfd fd }

/-- `FD_CLR(fd,&rfds)`. -/
def fdClr (who : Owner) (fd : ℤ) (s : Server) : Server :=
  { s.note .fdClr who fd with rfds := s.rfds.erase fd }

/-- `close(fd)`. -/
def closeSd (who : Owner) (fd : ℤ) (s : Server) : Server :=
  { s.note .close who fd with fds := s.fds.closeFd fd }

/-- Change what is known about a board. -/
def updateNano (i : Fin 4) (f : NanoBoard → NanoBoard) (s : Server) : Server :=
  { s with nano := Function.update s.nano i (f (s.nano i)) }

@[simp]
theorem nano_updateNano_self (i : Fin 4) (f : NanoBoard → NanoBoard) (s : Server) :
    (s.updateNano i f).nano i = f (s.nano i) :=
  Function.update_self _ _ _

theorem nano_updateNano_of_ne {i j : Fin 4} (h : j ≠ i) (f : NanoBoard → NanoBoard) (s : Server) :
    (s.updateNano i f).nano j = s.nano j :=
  Function.update_of_ne h _ _

/-- Set bit `i` of `conn_boards`. -/
def setBit (i : Fin 4) (value : Bool) (s : Server) : Server :=
  { s with connBoards := Function.update s.connBoards i value }

/-- The socket of a board becomes `fd`, which is a new connection. -/
def setSocket (i : Fin 4) (fd : ℤ) (s : Server) : Server :=
  { s.updateNano i (fun b => { b with sd := fd }) with
    matched := Function.update s.matched i false }

/-- `nano[i].sd = socket(...)`, when it succeeds. -/
def openBoard (i : Fin 4) (s : Server) : Server :=
  setSocket i s.fds.lowest { s with fds := s.fds.openFd (.board i) }

theorem sd_openBoard (i : Fin 4) (s : Server) : ((s.openBoard i).nano i).sd = s.fds.lowest := by
  simp [openBoard, setSocket]

/-- The bytes are written to the beginning of the buffer. -/
def fill (bs : List UInt8) (s : Server) : Server :=
  { s with buffer := bs ++ s.buffer.drop bs.length }

/-! ### Once a second -/

/-- A board that sent too few messages is disconnected. -/
def checkMessages (cfg : ServerConfig) (i : Fin 4) (s : Server) : Server :=
  let s :=
    if (s.connCtr i : ℤ) < cfg.minMsgs then
      ((s.setBit i false).fdClr (.board i) (s.nano i).sd).closeSd (.board i) (s.nano i).sd
    else s
  { s with connCtr := Function.update s.connCtr i 0 }

theorem checkMessages_cases {P : Server → Prop} {cfg : ServerConfig} {i : Fin 4} {s : Server}
    (hdrop : P (((s.setBit i false).fdClr (.board i) (s.nano i).sd).closeSd (.board i)
      (s.nano i).sd))
    (hkeep : P s)
    (hcount : ∀ t : Server, P t → P { t with connCtr := Function.update t.connCtr i 0 }) :
    P (s.checkMessages cfg i) := by
  unfold checkMessages
  dsimp only
  split_ifs
  · exact hcount _ hdrop
  · exact hcount _ hkeep

/-- Make sure that all boards stay connected. -/
def tick (cfg : ServerConfig) (inp : LoopInput) (s : Server) : Server :=
  if s.connTimer < inp.tickTime then
    { (List.finRange 4).foldl (fun s i => s.checkMessages cfg i) s with
      connTimer := inp.timerTime }
  else s

/-- What the check of a board and the restart of its timer keep. -/
theorem tick_invariant {I : Server → Prop} {cfg : ServerConfig} {inp : LoopInput} {s : Server}
    (hcheck : ∀ t i, I t → I (t.checkMessages cfg i))
    (htimer : ∀ t : Server, I t → I { t with connTimer := inp.timerTime }) (hs : I s) :
    I (s.tick cfg inp) := by
  unfold tick
  split_ifs
  · exact htimer _ (Sweep.foldl_invariant hcheck (List.finRange 4) hs)
  · exact hs

/-! ### Reconnecting -/

/-- A disconnected board is due for a new attempt. -/
def RetryDue (inp : LoopInput) (i : Fin 4) (s : Server) : Prop :=
  s.connBoards i = false ∧ (s.nano i).lastConnAttempt + 1 < inp.retryTest i

instance (inp : LoopInput) (i : Fin 4) (s : Server) : Decidable (s.RetryDue inp i) :=
  inferInstanceAs (Decidable (_ ∧ _))

/-- An attempt to reconnect a board. -/
def tryConnect (attempt : Attempt) (i : Fin 4) (s : Server) : Server :=
  match attempt with
  | .socketFailed => s.setSocket i (-1)
  | .connectFailed => s.openBoard i
  | .sendFailed =>
    let s := (s.openBoard i).fill [tagI]
    s.closeSd (.board i) (s.nano i).sd
  | .connected =>
    let s := (s.openBoard i).fill [tagI]
    (s.updateNano i (fun b => { b with init := true })).fdSet (s.nano i).sd

/-- If a board is disconnected, try to reconnect it. -/
def reconnect (inp : LoopInput) (i : Fin 4) (s : Server) : Server :=
  if s.RetryDue inp i then
    (s.updateNano i (fun b => { b with lastConnAttempt := inp.retryTime i })).tryConnect
      (inp.attempt i) i
  else s

/-! ### The client -/

/-- A new client is accepted. -/
def acceptClient (inp : LoopInput) (rfd : Finset ℤ) (s : Server) : Server :=
  if s.sdDomSrv ∈ rfd then
    if inp.accept then
      fdSet s.fds.lowest { s with fds := s.fds.openFd .client, sdDom := s.fds.lowest }
    else fdSet (-1) { s with sdDom := -1, run := false }
  else s

/-- The client is disconnected. -/
def dropClient (s : Server) : Server :=
  { (s.fdClr .client s.sdDom).closeSd .client s.sdDom with sdDom := -1 }

/-- A message of the client, which is not empty, is answered. -/
def answer (parse : ParseCommand) (behind bs : List UInt8) (s : Server) : Server :=
  let s := s.fill bs
  let r := parse s.car s.nano s.connBoards s.buffer behind
  { s with car := r.1, buffer := r.2.1 }

/-- Read something from the client; the result says whether the client was disconnected, after
which the loop continues at its beginning. -/
def serveClient (parse : ParseCommand) (inp : LoopInput) (rfd : Finset ℤ) (s : Server) :
    Server × Bool :=
  if s.sdDom ≠ -1 then
    let s := s.note .fdIsset .client s.sdDom
    if s.sdDom ∈ rfd then
      let s := s.note .recv .client s.sdDom
      match inp.clientRecv.map (List.take ethFrameLen) with
      | none | some [] => (s.dropClient, true)
      | some (b :: bs) =>
        let s := s.answer parse inp.behind (b :: bs)
        if inp.clientSend then (s, false) else (s.dropClient, true)
    else (s, false)
  else (s, false)

/-- The calls of `FD_ISSET` and of `recv` for a client that is ready. -/
def readClient (s : Server) : Server :=
  (s.note .fdIsset .client s.sdDom).note .recv .client s.sdDom

/-- What serving the client comes to, and when: there is no client, it is not ready, it has gone,
its message is answered, or the answer cannot be sent. -/
inductive ClientServed (parse : ParseCommand) (inp : LoopInput) (rfd : Finset ℤ) (s : Server) :
    Server × Bool → Prop
  | absent (hsd : s.sdDom = -1) : ClientServed parse inp rfd s (s, false)
  | silent (hsd : s.sdDom ≠ -1) (hready : s.sdDom ∉ rfd) :
      ClientServed parse inp rfd s (s.note .fdIsset .client s.sdDom, false)
  | gone (hsd : s.sdDom ≠ -1) (hready : s.sdDom ∈ rfd)
      (hmsg : (inp.clientRecv.map (List.take ethFrameLen)).getD [] = []) :
      ClientServed parse inp rfd s (s.readClient.dropClient, true)
  | answered (b : UInt8) (bs : List UInt8) (hsd : s.sdDom ≠ -1) (hready : s.sdDom ∈ rfd)
      (hmsg : inp.clientRecv.map (List.take ethFrameLen) = some (b :: bs))
      (hsend : inp.clientSend = true) :
      ClientServed parse inp rfd s (s.readClient.answer parse inp.behind (b :: bs), false)
  | unanswered (b : UInt8) (bs : List UInt8) (hsd : s.sdDom ≠ -1) (hready : s.sdDom ∈ rfd)
      (hmsg : inp.clientRecv.map (List.take ethFrameLen) = some (b :: bs))
      (hsend : inp.clientSend = false) :
      ClientServed parse inp rfd s
        ((s.readClient.answer parse inp.behind (b :: bs)).dropClient, true)

theorem serveClient_cases (parse : ParseCommand) (inp : LoopInput) (rfd : Finset ℤ) (s : Server) :
    s.ClientServed parse inp rfd (s.serveClient parse inp rfd) := by
  unfold serveClient
  by_cases hsd : s.sdDom = -1
  · rw [if_neg (not_not.mpr hsd)]
    exact .absent hsd
  rw [if_pos hsd]
  dsimp only
  by_cases hready : s.sdDom ∈ rfd
  · have hready' : (s.note .fdIsset .client s.sdDom).sdDom ∈ rfd := hready
    rw [if_pos hready']
    cases hmsg : inp.clientRecv.map (List.take ethFrameLen) with
    | none => exact .gone hsd hready (by rw [hmsg]; rfl)
    | some bs =>
      cases bs with
      | nil => exact .gone hsd hready (by rw [hmsg]; rfl)
      | cons b bs =>
        dsimp only
        split_ifs with hsend
        · exact .answered b bs hsd hready hmsg hsend
        · exact .unanswered b bs hsd hready hmsg (Bool.eq_false_iff.mpr hsend)
  · have hready' : (s.note .fdIsset .client s.sdDom).sdDom ∉ rfd := hready
    rw [if_neg hready']
    exact .silent hsd hready

/-! ### The boards -/

/-- `run = 0`. -/
def stop (s : Server) : Server := { s with run := false }

/-- Note that a record is stored or a frame is sent. -/
def serve (i : Fin 4) (s : Server) : Server :=
  { s with served := s.served ++
      [⟨i, decide (s.fds.owner (s.nano i).sd = some (.board i)), s.matched i⟩] }

/-- Send the `'S'` frame with the board's record. -/
def sendIndat (send : Bool) (i : Fin 4) (s : Server) : Server :=
  let s := s.fill (tagS :: (s.nano i).indat.serial)
  if send then s.serve i
  else
    ((s.fdClr (.board i) s.sdDom).closeSd (.board i) (s.nano i).sd).stop

/-- The message is not a record: it is longer or shorter, or does not begin with an `'R'`. -/
def NotRecord (bs : List UInt8) : Prop := bs.length ≠ 53 ∨ bs.head? ≠ some tagR

instance (bs : List UInt8) : Decidable (NotRecord bs) := inferInstanceAs (Decidable (_ ∨ _))

/-- The first message of a connection has come; the bytes received are terminated. -/
def greet (bs : List UInt8) (i : Fin 4) (s : Server) : Server :=
  (s.updateNano i (fun b => { b with init := false })).fill (bs ++ [0])

/-- Ignore this message: the first message is still to come. -/
def ignore (i : Fin 4) (s : Server) : Server := s.updateNano i (fun b => { b with init := true })

/-- The version string was received: the board is connected. -/
def accept (i : Fin 4) (s : Server) : Server :=
  { s.setBit i true with matched := Function.update s.matched i true }

/-- A message that is not a record on a connection that has not been answered yet: it is compared
with the version string. -/
def handshake (cfg : ServerConfig) (send : Bool) (bs : List UInt8) (i : Fin 4) (s : Server) :
    Server :=
  let s := s.greet bs i
  if cString bs ≠ cfg.nanoInit then
    if bs.head? = some tagI ∨ bs.head? = some tagR then s.ignore i else s.stop.sendIndat send i
  else (s.accept i).sendIndat send i

/-- A message before the version string is ignored, or it ends the connection with the server or
completes the handshake, and is answered. -/
theorem handshake_cases {P : Server → Prop} {cfg : ServerConfig} {send : Bool} {bs : List UInt8}
    {i : Fin 4} {s : Server} (hignore : P ((s.greet bs i).ignore i))
    (hstop : P ((s.greet bs i).stop.sendIndat send i))
    (haccept : P (((s.greet bs i).accept i).sendIndat send i)) :
    P (s.handshake cfg send bs i) := by
  unfold handshake
  dsimp only
  split_ifs
  · exact hignore
  · exact hstop
  · exact haccept

/-- A message that is not a record on a connection that was answered before. -/
def wrongData (i : Fin 4) (s : Server) : Server :=
  let sd := (s.nano i).sd
  let s := (s.fdClr (.board i) sd).closeSd (.board i) sd
  let s := ((s.setBit i false).fdClr (.board i) sd).closeSd (.board i) sd
  if ∀ j, s.connBoards j = false then s.stop else s

/-- What wrong data does to the connection of the board: its descriptor is closed twice. -/
def dropTwice (i : Fin 4) (s : Server) : Server :=
  let sd := (s.nano i).sd
  ((((s.fdClr (.board i) sd).closeSd (.board i) sd).setBit i false).fdClr (.board i) sd).closeSd
    (.board i) sd

/-- Wrong data drops the board, and stops the server when it was the last one. -/
theorem wrongData_cases {P : Server → Prop} {i : Fin 4} {s : Server} (hdrop : P (s.dropTwice i))
    (hstop : P (s.dropTwice i).stop) : P (s.wrongData i) := by
  by_cases hlast : ∀ j, (s.dropTwice i).connBoards j = false
  · rw [show s.wrongData i = (s.dropTwice i).stop from if_pos hlast]
    exact hstop
  · rw [show s.wrongData i = s.dropTwice i from if_neg hlast]
    exact hdrop

/-- A record is stored. -/
def storeOutdat (bs : List UInt8) (i : Fin 4) (s : Server) : Server :=
  (s.updateNano i (fun b => { b with outdat := Outdata.ofSerial (bs.drop 1) })).serve i

/-- A message of a board. -/
def message (cfg : ServerConfig) (send : Bool) (bs : List UInt8) (i : Fin 4) (s : Server) :
    Server :=
  let s := s.fill bs
  if NotRecord bs then
    if (s.nano i).init then s.handshake cfg send bs i else s.wrongData i
  else (s.storeOutdat bs i).sendIndat send i

section Message

variable {cfg : ServerConfig} {send : Bool} {bs : List UInt8} {i : Fin 4} {s : Server}

theorem message_record (h : ¬NotRecord bs) :
    s.message cfg send bs i = ((s.fill bs).storeOutdat bs i).sendIndat send i :=
  if_neg h

theorem message_handshake (h : NotRecord bs) (hinit : (s.nano i).init = true) :
    s.message cfg send bs i = (s.fill bs).handshake cfg send bs i :=
  (if_pos h).trans (if_pos hinit)

theorem message_wrongData (h : NotRecord bs) (hinit : (s.nano i).init = false) :
    s.message cfg send bs i = (s.fill bs).wrongData i :=
  (if_pos h).trans (if_neg (by rw [show ((s.fill bs).nano i).init = false from hinit]; decide))

end Message

/-- `FD_ISSET` for a board. -/
def isSet (i : Fin 4) (s : Server) : Server := s.note .fdIsset (.board i) (s.nano i).sd

/-- The message of a board is counted and received. -/
def receive (i : Fin 4) (s : Server) : Server :=
  note .recv (.board i) (s.nano i).sd
    { s with connCtr := Function.update s.connCtr i (s.connCtr i + 1) }

/-- `recv` failed. -/
def recvError (i : Fin 4) (s : Server) : Server :=
  ((s.setBit i false).fdClr (.board i) (s.nano i).sd).closeSd (.board i) (s.nano i).sd

/-- The message is answered with a frame: it is a record, or it is compared with the version string
and not ignored. -/
def Answered (cfg : ServerConfig) (bs : List UInt8) (i : Fin 4) (s : Server) : Prop :=
  ¬NotRecord bs ∨ (s.nano i).init = true ∧
    ¬(cString bs ≠ cfg.nanoInit ∧ (bs.head? = some tagI ∨ bs.head? = some tagR))

/-- Read from a board. -/
def readBoard (cfg : ServerConfig) (io : BoardIO) (rfd : Finset ℤ) (i : Fin 4) (s : Server) :
    Server :=
  let s := s.isSet i
  if (s.nano i).sd ∈ rfd then
    match io.recv.map (List.take ethFrameLen) with
    | none => (s.receive i).recvError i
    | some bs => (s.receive i).message cfg io.send bs i
  else s

section ReadBoard

variable {cfg : ServerConfig} {io : BoardIO} {rfd : Finset ℤ} {i : Fin 4} {s : Server}

theorem readBoard_of_not_ready (hready : (s.nano i).sd ∉ rfd) :
    s.readBoard cfg io rfd i = s.isSet i :=
  if_neg hready

theorem readBoard_of_ready (hready : (s.nano i).sd ∈ rfd) :
    s.readBoard cfg io rfd i =
      match io.recv.map (List.take ethFrameLen) with
      | none => ((s.isSet i).receive i).recvError i
      | some bs => ((s.isSet i).receive i).message cfg io.send bs i :=
  if_pos hready

end ReadBoard

/-! ### The loop -/

/-- `handle_car()`. -/
def handleCar (cfg : ServerConfig) (s : Server) : Server :=
  let r := LegoCar.handleCar .ieee cfg.car s.car s.nano
  { s with car := r.1, nano := r.2 }

/-- The part of an iteration before `select`. -/
def prepare (cfg : ServerConfig) (inp : LoopInput) (s : Server) : Server :=
  (List.finRange 4).foldl (fun s i => s.reconnect inp i) ((s.handleCar cfg).tick cfg inp)

/-- A descriptor in the set of `select` is not open. -/
def BadSet (s : Server) : Prop := ∃ fd ∈ s.rfds, fd ≤ s.maxfd ∧ s.fds.owner fd = none

instance (s : Server) : Decidable s.BadSet :=
  inferInstanceAs (Decidable (∃ fd ∈ s.rfds, fd ≤ s.maxfd ∧ s.fds.owner fd = none))

/-- `select`, with the set `rfd` it leaves behind: an error leaves it as it was. -/
def select (inp : LoopInput) (s : Server) : Select :=
  if s.BadSet then .failed
  else
    match inp.select with
    | .ready fds => .ready ((s.rfds ∩ fds).filter (· ≤ s.maxfd))
    | other => other

/-- The part of an iteration after `select`. -/
def handle (parse : ParseCommand) (cfg : ServerConfig) (inp : LoopInput) (rfd : Finset ℤ)
    (s : Server) : Server :=
  let r := (s.acceptClient inp rfd).serveClient parse inp rfd
  if r.2 then r.1
  else (List.finRange 4).foldl (fun s i => s.readBoard cfg (inp.board i) rfd i) r.1

/-- One iteration. -/
def iterate (parse : ParseCommand) (cfg : ServerConfig) (inp : LoopInput) (s : Server) : Server :=
  let s := s.prepare cfg inp
  match s.select inp with
  | .interrupted => s
  | .failed => s.stop.handle parse cfg inp s.rfds
  | .ready rfd => s.handle parse cfg inp rfd

/-- `while (run)`; a signal ends the loop. -/
def loopStep (parse : ParseCommand) (cfg : ServerConfig) (inp : LoopInput) (s : Server) : Server :=
  if s.run then
    let s := s.iterate parse cfg inp
    { s with run := s.run && !inp.signal }
  else s

/-! ### Start-up -/

/-- The settings of a board and what the system calls return while it is connected for the first
time. -/
structure BoardStart where
  settings : Bool := true
  socket : Bool := true
  connect : Bool := true
  send : Bool := true
  led : UInt8 := 0
  W : Int32 := 0
  enConnBrokenCtr : UInt8 := 0
  time : ℤ := 0

/-- What start-up reads: the boards, whether the socket for clients can be opened, the clock, and
the contents of the uninitialised buffer. -/
structure StartInput where
  board : Fin 4 → BoardStart := fun _ => {}
  listen : Bool := true
  time : ℤ := 0
  buffer : List UInt8 := List.replicate ethFrameLen 0

/-- The variables before the first board is connected. The standard descriptors are open. -/
def initial (buffer : List UInt8) : Server where
  nano := fun _ => ⟨false, 0, ⟨0, 0, 0, 0, 0⟩, Outdata.ofSerial [], 0⟩
  connBoards := fun _ => false
  connCtr := fun _ => 0
  rfds := ∅
  maxfd := -1
  sdDomSrv := -1
  sdDom := -1
  connTimer := 0
  run := true
  buffer := buffer
  car := ⟨0, 0, fun _ => 0⟩
  fds := ⟨[some .other, some .other, some .other]⟩
  matched := fun _ => false
  log := []
  served := []

/-- The variables of a board are set from its settings. -/
def configure (inp : BoardStart) (b : NanoBoard) : NanoBoard :=
  { b with
    init := true
    indat := ⟨inp.led, inp.enConnBrokenCtr, 1, b.indat.voidData, inp.W⟩
    lastConnAttempt := inp.time + 3 }

/-- A board is connected for the first time. -/
def connectBoard (inp : BoardStart) (i : Fin 4) (s : Server) : Option Server :=
  if inp.settings ∧ inp.socket ∧ inp.connect ∧ inp.send then
    let s := (s.openBoard i).updateNano i (configure inp)
    let s := ((s.fill [tagI]).fdSet (s.nano i).sd).setBit i true
    some { s with connCtr := Function.update s.connCtr i 0 }
  else none

/-- The socket for clients is opened. -/
def openDom (inp : StartInput) (s : Server) : Option Server :=
  if inp.listen then
    some (fdSet s.fds.lowest { s with
      fds := s.fds.openFd .listener
      sdDomSrv := s.fds.lowest
      connTimer := inp.time + 1 })
  else none

/-- Start-up: the state in which the loop is entered. -/
def startUp (inp : StartInput) : Option Server :=
  ((List.finRange 4).foldlM (fun (s : Server) i => s.connectBoard (inp.board i) i)
    (initial inp.buffer)).bind (openDom inp)

/-- Start-up connects the boards, and opens the socket for clients last. -/
theorem startUp_cases {start : StartInput} {s₀ : Server} (h : startUp start = some s₀) :
    ∃ s : Server,
      (List.finRange 4).foldlM (fun (s : Server) i => s.connectBoard (start.board i) i)
        (initial start.buffer) = some s ∧
      s₀ = fdSet s.fds.lowest { s with
        fds := s.fds.openFd .listener
        sdDomSrv := s.fds.lowest
        connTimer := start.time + 1 } := by
  obtain ⟨s, hboards, hdom⟩ := Option.bind_eq_some_iff.mp h
  unfold openDom at hdom
  split_ifs at hdom
  exact ⟨s, hboards, (Option.some.inj hdom).symm⟩

/-- What connecting a board for the first time changes. -/
structure BoardConnected (i : Fin 4) (s s' : Server) : Prop where
  run : s'.run = s.run
  fds : s'.fds = s.fds.openFd (.board i)
  rfds : s'.rfds = insert (s.fds.lowest : ℤ) s.rfds
  maxfd : s'.maxfd = max s.maxfd s.fds.lowest
  connBoards : s'.connBoards = Function.update s.connBoards i true
  matched : s'.matched = Function.update s.matched i false
  sd : (s'.nano i).sd = s.fds.lowest
  init : (s'.nano i).init = true
  nano : ∀ j ≠ i, s'.nano j = s.nano j
  sdDomSrv : s'.sdDomSrv = s.sdDomSrv
  sdDom : s'.sdDom = s.sdDom
  log : s'.log = s.log

theorem connectBoard_spec {start : BoardStart} {i : Fin 4} {s s' : Server}
    (h : s.connectBoard start i = some s') : BoardConnected i s s' := by
  unfold connectBoard at h
  split_ifs at h
  -- all calls succeeded
  obtain rfl := Option.some.inj h
  have hsd : (((s.openBoard i).updateNano i (configure start)).nano i).sd = s.fds.lowest := by
    rw [nano_updateNano_self]
    exact sd_openBoard i s
  have hinit : (((s.openBoard i).updateNano i (configure start)).nano i).init = true := by
    rw [nano_updateNano_self]
    rfl
  have hothers : ∀ j ≠ i, ((s.openBoard i).updateNano i (configure start)).nano j = s.nano j :=
    fun j hj => (nano_updateNano_of_ne hj _ _).trans (Function.update_of_ne hj _ _)
  exact ⟨rfl, rfl, congrArg (insert · s.rfds) hsd, congrArg (max s.maxfd) hsd, rfl, rfl, hsd, hinit,
    hothers, rfl, rfl, rfl⟩

end Server

/-- The state before iteration `n` of a run. -/
abbrev serverAt (parse : ParseCommand) (cfg : ServerConfig) (s₀ : Server) (inp : ℕ → LoopInput)
    (n : ℕ) : Server :=
  Driven.stateAt (fun inp s => (s.loopStep parse cfg inp, ())) s₀ inp n

theorem serverAt_succ {parse : ParseCommand} {cfg : ServerConfig} {s₀ : Server}
    {inp : ℕ → LoopInput} (n : ℕ) :
    serverAt parse cfg s₀ inp (n + 1) = (serverAt parse cfg s₀ inp n).loopStep parse cfg (inp n) :=
  rfl

/-! ### The configuration file -/

/-- The settings of the configuration file in the repository. -/
def carserverCfg : ServerConfig where
  minMsgs := 5
  nanoInit := versionName
  car :=
    { ubatP := 2
      ubatC := 1
      distF := 3
      distR := 2
      enDistHandlerFront := false
      enDistHandlerRear := false
      enBattHandler := true
      distMin := 1 / 10
      distBreakBegin := 1 }

/-- The reply to a command that is not understood, `"Default return value"`. -/
def replyDefault : ParseCommand := fun car _ _ buffer _ =>
  let reply := [68, 101, 102, 97, 117, 108, 116, 32, 114, 101, 116, 117, 114, 110, 32, 118, 97, 108,
    117, 101, 0]
  (car, reply ++ buffer.drop reply.length, 21)

/-- The server after a start-up in which every call succeeds. -/
def started : Server := (Server.startUp {}).getD (Server.initial [])

theorem startUp_started : Server.startUp {} = some started := by
  have hsome : (Server.startUp {}).isSome = true := by decide +kernel
  rw [started, ← Option.some_get hsome, Option.getD_some, Option.some_get]

end LegoCar
