import Mathlib
import LegoCar.Server.EventLoop

/-!
# What the failure of one board does to the others

A board fails when `recv` reports an error or the end of the connection, when it sends something
that is not a record after its handshake, or when a frame cannot be sent to it. `Isolated` says
what should happen: the server goes on, the board is disconnected and its descriptor closed once,
and nothing else changes.

Of the failure exits only the one for an error of `recv` does that (`isolation_iff`): the end of
the connection and wrong data after the handshake close the descriptor twice, and a failed
`send`, like the end of the connection during the handshake, stops the server.
-/

namespace LegoCar

open Posix

namespace Server

/-- A failure of a board's connection. -/
inductive Failure (cfg : ServerConfig) (io : BoardIO) (i : Fin 4) (s : Server) : Prop where
  | recvError (h : io.recv = none)
  | orderlyClose (h : io.recv = some [])
  | wrongMessage (bs : List UInt8) (h : io.recv.map (List.take ethFrameLen) = some bs)
      (hbs : NotRecord bs) (hinit : (s.nano i).init = false)
  | sendFailed (bs : List UInt8) (h : io.recv.map (List.take ethFrameLen) = some bs)
      (hbs : s.Answered cfg bs i) (hsend : io.send = false)

/-- The number of calls of `close` for a descriptor that were made between two states. -/
def closes (s s' : Server) (fd : ℤ) : ℕ :=
  (s'.log.drop s.log.length).countP fun a => decide (a.call = .close ∧ a.fd = fd)

/-- What is known about a descriptor: whether it is selected, and what it is open for. -/
def SameFd (s s' : Server) (fd : ℤ) : Prop :=
  (fd ∈ s'.rfds ↔ fd ∈ s.rfds) ∧ s'.fds.owner fd = s.fds.owner fd

/-- The failure of board `i` is isolated. -/
structure Isolated (s s' : Server) (i : Fin 4) : Prop where
  run : s'.run = true
  bit : s'.connBoards i = false
  unselected : (s.nano i).sd ∉ s'.rfds
  closedOnce : s.closes s' (s.nano i).sd = 1
  closed : s'.fds.owner (s.nano i).sd = none
  others : ∀ j ≠ i, (s'.nano j).sd = (s.nano j).sd ∧ s.SameFd s' (s.nano j).sd ∧
    s'.connBoards j = s.connBoards j ∧ (s'.nano j).init = (s.nano j).init ∧
    (s'.nano j).outdat = (s.nano j).outdat
  client : s'.sdDom = s.sdDom ∧ s.SameFd s' s.sdDom

variable {cfg : ServerConfig} {io : BoardIO} {rfd : Finset ℤ} {i : Fin 4} {s : Server}

/-! ### The failure exits -/

theorem run_sendIndat (send : Bool) (i : Fin 4) (s : Server) :
    (s.sendIndat send i).run = (s.run && send) := by
  cases send with
  | true => exact (Bool.and_true s.run).symm
  | false => exact (Bool.and_false s.run).symm

theorem connBoards_sendIndat (send : Bool) (i : Fin 4) (s : Server) :
    (s.sendIndat send i).connBoards = s.connBoards := by
  cases send <;> rfl

/-- A failed `send` stops the server. -/
theorem run_message_of_sendFailed {bs : List UInt8} (hbs : s.Answered cfg bs i) :
    (s.message cfg false bs i).run = false := by
  by_cases hrecord : NotRecord bs
  · obtain ⟨hinit, hsent⟩ := hbs.resolve_left (not_not.mpr hrecord)
    rw [message_handshake hrecord hinit, handshake]
    split_ifs with hne hignore
    · exact absurd ⟨hne, hignore⟩ hsent
    · exact run_sendIndat _ _ _
    · exact (run_sendIndat _ _ _).trans (Bool.and_false _)
  · rw [message_record hrecord]
    exact (run_sendIndat _ _ _).trans (Bool.and_false _)

/-- The end of the connection during the handshake stops the server, or counts as a match of an
empty version string. -/
theorem message_of_orderlyClose (send : Bool) (hinit : (s.nano i).init = true) :
    (s.message cfg send [] i).run = false ∨ (s.message cfg send [] i).connBoards i = true := by
  have hrecord : NotRecord [] := Or.inl (by decide)
  rw [message_handshake hrecord hinit, handshake]
  split_ifs with hne hignore
  · rcases hignore with h | h <;> exact absurd h (by decide)
  · exact Or.inl (run_sendIndat _ _ _)
  · refine Or.inr ?_
    rw [connBoards_sendIndat]
    exact Function.update_self _ _ _

theorem closes_of_log {s' : Server} {fd : ℤ} {l : List Access} (h : s'.log = s.log ++ l) :
    s.closes s' fd = l.countP fun a => decide (a.call = .close ∧ a.fd = fd) := by
  rw [closes, h, List.drop_left]

/-- Wrong data after the handshake: the descriptor is cleared and closed twice. -/
theorem log_wrongData (i : Fin 4) (s : Server) :
    ∃ found found', (s.wrongData i).log = s.log ++ [⟨.fdClr, .board i, (s.nano i).sd, found⟩,
      ⟨.close, .board i, (s.nano i).sd, found⟩, ⟨.fdClr, .board i, (s.nano i).sd, found'⟩,
      ⟨.close, .board i, (s.nano i).sd, found'⟩] := by
  refine ⟨s.fds.owner (s.nano i).sd, (s.fds.closeFd (s.nano i).sd).owner (s.nano i).sd, ?_⟩
  refine wrongData_cases (P := fun t => t.log = _) ?_ ?_ <;>
    simp [dropTwice, fdClr, closeSd, note, setBit, stop]

theorem log_receive (bs : List UInt8) (i : Fin 4) (s : Server) :
    (((s.isSet i).receive i).fill bs).log = s.log ++
      [⟨.fdIsset, .board i, (s.nano i).sd, s.fds.owner (s.nano i).sd⟩,
        ⟨.recv, .board i, (s.nano i).sd, s.fds.owner (s.nano i).sd⟩] := by
  simp [receive, isSet, note, fill]

/-- An error of `recv` is isolated, unless another descriptor kept by the server has the same
number. -/
theorem isolated_recvError (hrun : s.run = true)
    (hboards : ∀ j ≠ i, (s.nano j).sd ≠ (s.nano i).sd) (hclient : s.sdDom ≠ (s.nano i).sd) :
    Isolated s (((s.isSet i).receive i).recvError i) i := by
  set s' := ((s.isSet i).receive i).recvError i with hs'
  have hrfds : s'.rfds = s.rfds.erase (s.nano i).sd := rfl
  have hfds : s'.fds = s.fds.closeFd (s.nano i).sd := rfl
  have hbits : s'.connBoards = Function.update s.connBoards i false := rfl
  have hlog : s'.log = s.log ++
      [⟨.fdIsset, .board i, (s.nano i).sd, s.fds.owner (s.nano i).sd⟩,
        ⟨.recv, .board i, (s.nano i).sd, s.fds.owner (s.nano i).sd⟩,
        ⟨.fdClr, .board i, (s.nano i).sd, s.fds.owner (s.nano i).sd⟩,
        ⟨.close, .board i, (s.nano i).sd, s.fds.owner (s.nano i).sd⟩] := by
    rw [hs']
    simp [recvError, receive, isSet, fdClr, closeSd, note, setBit]
  -- any other number keeps its owner and its place in the set
  have hsame : ∀ fd, fd ≠ (s.nano i).sd → s.SameFd s' fd := by
    intro fd hne
    rw [SameFd, hrfds, hfds]
    exact ⟨Finset.mem_erase.trans (and_iff_right hne), FdTable.owner_closeFd_of_ne hne⟩
  refine ⟨hrun, ?_, ?_, ?_, ?_, fun j hj => ⟨rfl, hsame _ (hboards j hj), ?_, rfl, rfl⟩,
    rfl, hsame _ hclient⟩
  · rw [hbits, Function.update_self]
  · rw [hrfds]
    exact Finset.notMem_erase _ _
  · rw [closes, hlog, List.drop_left]
    simp
  · rw [hfds]
    exact FdTable.owner_closeFd_self
  · rw [hbits, Function.update_of_ne hj]

/-- Every other failure is not isolated. -/
theorem not_isolated_message {bs : List UInt8}
    (hrecv : io.recv.map (List.take ethFrameLen) = some bs) (hfail : s.Failure cfg io i) :
    ¬Isolated s (((s.isSet i).receive i).message cfg io.send bs i) i := by
  intro hiso
  have hinit : (((s.isSet i).receive i).nano i).init = (s.nano i).init := rfl
  -- wrong data after the handshake
  have hwrong : NotRecord bs → (s.nano i).init = false → False := by
    intro hbs hi
    have heq : ((s.isSet i).receive i).message cfg io.send bs i =
        (((s.isSet i).receive i).fill bs).wrongData i := message_wrongData hbs hi
    obtain ⟨found, found', hlog⟩ := log_wrongData i (((s.isSet i).receive i).fill bs)
    rw [log_receive, List.append_assoc] at hlog
    -- two calls of `close` are in the log
    have hone := hiso.closedOnce
    rw [heq, closes_of_log hlog] at hone
    exact absurd hone (by simp [fill, receive, isSet, note])
  cases hfail with
  | recvError h => rw [h] at hrecv; exact absurd hrecv (by simp)
  | orderlyClose h =>
    obtain rfl : [] = bs := by simpa [h] using hrecv
    cases hi : (s.nano i).init with
    | false => exact hwrong (Or.inl (by decide)) hi
    | true =>
      rcases message_of_orderlyClose io.send (hinit.trans hi) with hstop | hbit
      · exact absurd (hstop.symm.trans hiso.run) (by decide)
      · exact absurd (hbit.symm.trans hiso.bit) (by decide)
  | wrongMessage bs' h hbs hi =>
    obtain rfl : bs' = bs := Option.some.inj (h.symm.trans hrecv)
    exact hwrong hbs hi
  | sendFailed bs' h hsent hsend =>
    obtain rfl : bs' = bs := Option.some.inj (h.symm.trans hrecv)
    have hstop : (((s.isSet i).receive i).message cfg io.send bs' i).run = false := by
      rw [hsend]
      exact run_message_of_sendFailed hsent
    exact absurd (hstop.symm.trans hiso.run) (by decide)

/-- **Failure isolation.** The failure of a board whose descriptor is open is isolated exactly
when it is an error of `recv`, and no other descriptor kept by the server has the same number. -/
theorem isolation_iff (cfg : ServerConfig) (io : BoardIO) (rfd : Finset ℤ) (i : Fin 4) (s : Server)
    (hrun : s.run = true) (hopen : s.fds.owner (s.nano i).sd = some (.board i))
    (hready : (s.nano i).sd ∈ rfd) (hfail : s.Failure cfg io i) :
    Isolated s (s.readBoard cfg io rfd i) i ↔
      io.recv = none ∧ (∀ j ≠ i, (s.nano j).sd ≠ (s.nano i).sd) ∧ s.sdDom ≠ (s.nano i).sd := by
  rw [readBoard_of_ready hready]
  cases hrecv : io.recv.map (List.take ethFrameLen) with
  | none =>
    have hnone : io.recv = none := by simpa using hrecv
    refine ⟨fun hiso => ⟨hnone, fun j hj heq => ?_, fun heq => ?_⟩,
      fun ⟨_, hboards, hclient⟩ => isolated_recvError hrun hboards hclient⟩
    · -- the descriptor of the other board was closed
      have hsame := (hiso.others j hj).2.1.2
      rw [heq, hiso.closed, hopen] at hsame
      exact absurd hsame (by simp)
    · have hsame := hiso.client.2.2
      rw [heq, hiso.closed, hopen] at hsame
      exact absurd hsame (by simp)
  | some bs =>
    refine iff_of_false (not_isolated_message hrecv hfail) fun h => ?_
    rw [h.1] at hrecv
    exact absurd hrecv (by simp)

/-- After start-up, an error of `recv` on the connection of board 0 is isolated. -/
theorem isolation_started :
    Isolated started (started.readBoard carserverCfg {} {3} 0) 0 :=
  (isolation_iff carserverCfg {} {3} 0 started (by decide +kernel) (by decide +kernel)
    (by decide +kernel) (.recvError rfl)).mpr (by decide +kernel)

/-- The server after the version string of board 0 has arrived. -/
def greeted : Server :=
  serverAt replyDefault carserverCfg started
    (fun _ => { select := .ready {3}, board := fun _ => { recv := some versionName } }) 1

/-- **Failures are not isolated.** The end of the connection of board 0 during its handshake stops
the server, although the other boards are connected; after its handshake, a message of the wrong
length closes the descriptor twice, and a failed `send` stops the server. -/
theorem isolation_fails :
    (started.run = true ∧ (∃ j ≠ 0, started.connBoards j = true) ∧
      ¬ ∀ io, started.Failure carserverCfg io 0 →
        Isolated started (started.readBoard carserverCfg io {3} 0) 0) ∧
    (greeted.run = true ∧ (∃ j ≠ 0, greeted.connBoards j = true) ∧
      (¬ ∀ io bs, io.recv = some bs → bs.length = 1 →
        Isolated greeted (greeted.readBoard carserverCfg io {3} 0) 0) ∧
      ¬ ∀ io bs, io.recv = some bs → ¬NotRecord bs → io.send = false →
        Isolated greeted (greeted.readBoard carserverCfg io {3} 0) 0) := by
  refine ⟨⟨by decide +kernel, ⟨1, by decide +kernel⟩, fun h => ?_⟩,
    by decide +kernel, ⟨1, by decide +kernel⟩, fun h => ?_, fun h => ?_⟩
  · have hrun := (h { recv := some [] } (.orderlyClose rfl)).run
    exact absurd hrun (by decide +kernel)
  · have hone := (h { recv := some [0] } [0] rfl rfl).closedOnce
    exact absurd hone (by decide +kernel)
  · have hrun := (h { recv := some (tagR :: List.replicate 52 0), send := false } _ rfl
      (by decide +kernel) rfl).run
    exact absurd hrun (by decide +kernel)

end Server

end LegoCar
