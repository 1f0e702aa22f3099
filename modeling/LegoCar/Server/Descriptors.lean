import Mathlib
import LegoCar.Lib.Sweep
import LegoCar.Server.EventLoop

/-!
# Who a descriptor is open for

A call on a descriptor is proper (`Access.Proper`) when the descriptor is open and was opened for
the board or client on whose behalf the call is made. The server keeps the number of a board's
descriptor after it has closed it, and uses it again in the check of the message counters; the
descriptor of the client is forgotten when it is closed.

This module says which calls are proper before `select` (`prepare_iff`) and while the client is
served (`serveClient_clientOnly`).
-/

namespace LegoCar

open Posix

/-- The descriptor is open and was opened for the one on whose behalf the call is made. -/
def Access.Proper (a : Access) : Prop := a.found = some a.who

instance (a : Access) : Decidable a.Proper := inferInstanceAs (Decidable (_ = _))

namespace Server

/-- All calls so far were proper. -/
def AllProper (s : Server) : Prop := ∀ a ∈ s.log, a.Proper

instance (s : Server) : Decidable s.AllProper := inferInstanceAs (Decidable (∀ a ∈ s.log, a.Proper))

/-- The descriptor of board `i` is open, and was opened for it. -/
def Live (i : Fin 4) (s : Server) : Prop := s.fds.owner (s.nano i).sd = some (.board i)

instance (i : Fin 4) (s : Server) : Decidable (s.Live i) := inferInstanceAs (Decidable (_ = _))

/-- The descriptor of the client, if there is one, is open. -/
def ClientOpen (s : Server) : Prop := s.sdDom = -1 ∨ s.fds.owner s.sdDom = some .client

variable {cfg : ServerConfig} {i j : Fin 4} {s s' : Server} {fd : ℤ} {who : Owner} {call : Call}

/-! ### Calls -/

theorem allProper_note :
    (s.note call who fd).AllProper ↔ s.AllProper ∧ s.fds.owner fd = some who := by
  simp [AllProper, note, Access.Proper, or_imp, forall_and]

theorem allProper_fdClr :
    (s.fdClr who fd).AllProper ↔ s.AllProper ∧ s.fds.owner fd = some who :=
  allProper_note

theorem allProper_closeSd :
    (s.closeSd who fd).AllProper ↔ s.AllProper ∧ s.fds.owner fd = some who :=
  allProper_note

/-- `FD_CLR` followed by `close`. -/
theorem allProper_clr_close :
    ((s.fdClr who fd).closeSd who fd).AllProper ↔ s.AllProper ∧ s.fds.owner fd = some who := by
  rw [allProper_closeSd, allProper_fdClr, and_assoc]
  exact and_congr_right fun _ => and_self_iff

/-! ### Opening and closing -/

/-- Closing the descriptor of another one. -/
theorem live_closeFd {w : Owner} (h : s.fds.owner fd = some w) (hw : w ≠ .board j)
    (hfds : s'.fds = s.fds.closeFd fd) (hsd : (s'.nano j).sd = (s.nano j).sd) :
    s'.Live j ↔ s.Live j := by
  rw [Live, Live, hfds, hsd]
  by_cases heq : (s.nano j).sd = fd
  · rw [heq, FdTable.owner_closeFd_self, h]
    exact iff_of_false (by simp) fun hwj => hw (Option.some.inj hwj)
  · rw [FdTable.owner_closeFd_of_ne heq]

theorem clientOpen_closeFd {w : Owner} (h : s.fds.owner fd = some w) (hw : w ≠ .client)
    (hfds : s'.fds = s.fds.closeFd fd) (hdom : s'.sdDom = s.sdDom) :
    s'.ClientOpen ↔ s.ClientOpen := by
  rw [ClientOpen, ClientOpen, hfds, hdom]
  by_cases heq : s.sdDom = fd
  · rw [heq, FdTable.owner_closeFd_self, h]
    exact or_congr_right (iff_of_false (by simp) fun hwc => hw (Option.some.inj hwc))
  · rw [FdTable.owner_closeFd_of_ne heq]

/-- Opening a descriptor for another one. -/
theorem live_openFd {w : Owner} (hw : w ≠ .board j) (hfds : s'.fds = s.fds.openFd w)
    (hsd : (s'.nano j).sd = (s.nano j).sd) : s'.Live j ↔ s.Live j := by
  rw [Live, Live, hfds, hsd]
  by_cases heq : (s.nano j).sd = s.fds.lowest
  · rw [heq, FdTable.owner_openFd_self, FdTable.owner_lowest]
    exact iff_of_false (fun hwj => hw (Option.some.inj hwj)) (by simp)
  · rw [FdTable.owner_openFd_of_ne heq]

theorem ClientOpen.openFd {w : Owner} (h : s.ClientOpen) (hfds : s'.fds = s.fds.openFd w)
    (hdom : s'.sdDom = s.sdDom) : s'.ClientOpen := by
  rw [ClientOpen, hfds, hdom]
  exact h.imp_right FdTable.owner_openFd_of_owner

/-! ### The check of the message counters -/

/-- A board with too few messages is disconnected by the check, so its descriptor has to be
open. -/
def CheckOk (cfg : ServerConfig) (i : Fin 4) (s : Server) : Prop :=
  (s.connCtr i : ℤ) < cfg.minMsgs → s.Live i

theorem allProper_checkMessages :
    (s.checkMessages cfg i).AllProper ↔ s.AllProper ∧ s.CheckOk cfg i := by
  unfold checkMessages CheckOk
  dsimp only
  split_ifs with hlag
  · exact (allProper_clr_close (s := s.setBit i false)).trans
      (and_congr_right fun _ => ⟨fun hlive _ => hlive, fun hok => hok hlag⟩)
  · exact (and_iff_left fun h => absurd h hlag).symm

/-- What the check of a board changes. -/
theorem checkMessages_eq (cfg : ServerConfig) (i : Fin 4) (s : Server) :
    (s.checkMessages cfg i).nano = s.nano ∧ (s.checkMessages cfg i).sdDom = s.sdDom ∧
      (s.checkMessages cfg i).connCtr = Function.update s.connCtr i 0 ∧
      (s.checkMessages cfg i).fds =
        if (s.connCtr i : ℤ) < cfg.minMsgs then s.fds.closeFd (s.nano i).sd else s.fds := by
  unfold checkMessages
  dsimp only
  split_ifs <;> exact ⟨rfl, rfl, rfl, rfl⟩

theorem clientOpen_checkMessages (h : s.ClientOpen) (hok : s.CheckOk cfg i) :
    (s.checkMessages cfg i).ClientOpen := by
  obtain ⟨-, hdom, -, hfds⟩ := checkMessages_eq cfg i s
  split_ifs at hfds with hlag
  · exact (clientOpen_closeFd (hok hlag) (by simp) hfds hdom).mpr h
  · rwa [ClientOpen, hfds, hdom]

theorem checkOk_checkMessages (hij : i ≠ j) (hok : s.CheckOk cfg i) :
    (s.checkMessages cfg i).CheckOk cfg j ↔ s.CheckOk cfg j := by
  obtain ⟨hnano, -, hctr, hfds⟩ := checkMessages_eq cfg i s
  have hlive : (s.checkMessages cfg i).Live j ↔ s.Live j := by
    split_ifs at hfds with hlag
    · exact live_closeFd (hok hlag) (by simpa using hij) hfds (by rw [hnano])
    · rw [Live, Live, hfds, hnano]
  rw [CheckOk, CheckOk, hctr, Function.update_of_ne hij.symm, hlive]

/-- When the check is due, the descriptors of the boards with too few messages are open. -/
def TickOk (cfg : ServerConfig) (inp : LoopInput) (s : Server) : Prop :=
  s.connTimer < inp.tickTime → ∀ i, s.CheckOk cfg i

theorem tick_iff (cfg : ServerConfig) (inp : LoopInput) (h : s.ClientOpen) :
    ((s.tick cfg inp).AllProper ↔ s.AllProper ∧ s.TickOk cfg inp) ∧
      (s.TickOk cfg inp → (s.tick cfg inp).ClientOpen) := by
  -- the rule for the loop over the boards, with the check as the visit
  obtain ⟨hiff, hinv⟩ := Sweep.sweep_iff (P := AllProper) (I := ClientOpen)
    (C := fun i s => s.CheckOk cfg i) (f := fun s i => s.checkMessages cfg i)
    (fun s i hs => (allProper_checkMessages.mp hs).1) (fun s i _ => allProper_checkMessages)
    (fun s i => clientOpen_checkMessages) (fun s i j hij _ hok => checkOk_checkMessages hij hok)
    (List.nodup_finRange 4) h
  simp only [List.mem_finRange, true_imp_iff] at hiff hinv
  unfold tick TickOk
  split_ifs with hdue
  · rw [forall_prop_of_true hdue]
    exact ⟨hiff, hinv⟩
  · exact ⟨(and_iff_left fun h => absurd h hdue).symm, fun _ => h⟩

/-! ### Reconnecting -/

/-- An attempt to reconnect a board makes proper calls only, and leaves the client alone. -/
theorem tryConnect_proper (attempt : Attempt) (i : Fin 4) (s : Server) :
    ((s.tryConnect attempt i).AllProper ↔ s.AllProper) ∧
      (s.ClientOpen → (s.tryConnect attempt i).ClientOpen) := by
  have hopen : ∀ {t : Server}, t.fds = s.fds.openFd (.board i) → t.sdDom = s.sdDom →
      s.ClientOpen → t.ClientOpen := fun hfds hdom h => h.openFd hfds hdom
  have hown : (s.openBoard i).fds.owner ((s.openBoard i).nano i).sd = some (.board i) := by
    rw [sd_openBoard]
    exact FdTable.owner_openFd_self
  cases attempt with
  | socketFailed => exact ⟨Iff.rfl, id⟩
  | connectFailed => exact ⟨Iff.rfl, hopen rfl rfl⟩
  | sendFailed =>
    -- the new descriptor is closed again at once
    have hclose : (s.tryConnect .sendFailed i).ClientOpen ↔ (s.openBoard i).ClientOpen :=
      clientOpen_closeFd hown (by simp) rfl rfl
    exact ⟨allProper_closeSd.trans (and_iff_left hown), fun h => hclose.mpr (hopen rfl rfl h)⟩
  | connected => exact ⟨Iff.rfl, hopen rfl rfl⟩

theorem reconnect_proper (inp : LoopInput) (i : Fin 4) (s : Server) :
    ((s.reconnect inp i).AllProper ↔ s.AllProper) ∧
      (s.ClientOpen → (s.reconnect inp i).ClientOpen) := by
  unfold reconnect
  split_ifs
  · exact tryConnect_proper _ _ _
  · exact ⟨Iff.rfl, id⟩

/-- The part of an iteration before `select`. -/
theorem prepare_iff (cfg : ServerConfig) (inp : LoopInput) (h : s.ClientOpen) :
    ((s.prepare cfg inp).AllProper ↔ s.AllProper ∧ s.TickOk cfg inp) ∧
      (s.TickOk cfg inp → (s.prepare cfg inp).ClientOpen) := by
  obtain ⟨hiff, hinv⟩ := tick_iff (s := s.handleCar cfg) cfg inp h
  -- the attempts to reconnect make no improper call
  refine ⟨?_, fun hok => Sweep.foldl_invariant (I := ClientOpen)
    (fun s i => (reconnect_proper inp i s).2) _ (hinv hok)⟩
  exact (Sweep.foldl_iff (P := AllProper) (I := fun _ => True) (fun _ _ _ => trivial)
    (fun s i _ => (reconnect_proper inp i s).1) _ trivial).trans hiff

/-! ### The client -/

/-- What accepting and serving a client keep: the calls are proper, the client's descriptor stays
open, and the boards keep theirs. -/
structure ClientOnly (s s' : Server) : Prop where
  proper : s'.AllProper ↔ s.AllProper
  clientOpen : s'.ClientOpen
  nano : s'.nano = s.nano
  live : ∀ j, s'.Live j ↔ s.Live j

theorem ClientOnly.trans {s'' : Server} (h₁ : ClientOnly s s') (h₂ : ClientOnly s' s'') :
    ClientOnly s s'' :=
  ⟨h₂.proper.trans h₁.proper, h₂.clientOpen, h₂.nano.trans h₁.nano,
    fun j => (h₂.live j).trans (h₁.live j)⟩

theorem acceptClient_clientOnly (inp : LoopInput) (rfd : Finset ℤ) (h : s.ClientOpen) :
    ClientOnly s (s.acceptClient inp rfd) := by
  unfold acceptClient
  split_ifs
  · exact ⟨Iff.rfl, Or.inr FdTable.owner_openFd_self, rfl,
      fun j => live_openFd (w := .client) (by simp) rfl rfl⟩
  · exact ⟨Iff.rfl, Or.inl rfl, rfl, fun _ => Iff.rfl⟩
  · exact ⟨Iff.rfl, h, rfl, fun _ => Iff.rfl⟩

theorem dropClient_clientOnly (h : s.fds.owner s.sdDom = some .client) :
    ClientOnly s s.dropClient :=
  ⟨allProper_clr_close.trans (and_iff_left h), Or.inl rfl, rfl,
    fun _ => live_closeFd h (by simp) rfl rfl⟩

theorem note_clientOnly (h : s.ClientOpen) (hsd : s.fds.owner s.sdDom = some .client) :
    ClientOnly s (s.note call .client s.sdDom) :=
  ⟨allProper_note.trans (and_iff_left hsd), h, rfl, fun _ => Iff.rfl⟩

/-- The client is disconnected in this iteration: it is ready, and there is no message of it, or
the answer cannot be sent. -/
def ClientDropped (inp : LoopInput) (rfd : Finset ℤ) (s : Server) : Prop :=
  s.sdDom ≠ -1 ∧ s.sdDom ∈ rfd ∧
    ((inp.clientRecv.map (List.take ethFrameLen)).getD [] = [] ∨ inp.clientSend = false)

instance (inp : LoopInput) (rfd : Finset ℤ) (s : Server) : Decidable (s.ClientDropped inp rfd) :=
  inferInstanceAs (Decidable (_ ∧ _ ∧ (_ ∨ _)))

theorem serveClient_clientOnly (parse : ParseCommand) (inp : LoopInput) (rfd : Finset ℤ)
    (h : s.ClientOpen) :
    ClientOnly s (s.serveClient parse inp rfd).1 ∧
      ((s.serveClient parse inp rfd).2 = true ↔ s.ClientDropped inp rfd) := by
  have hcases := serveClient_cases parse inp rfd s
  generalize s.serveClient parse inp rfd = r at hcases ⊢
  have hset : s.sdDom ≠ -1 → ClientOnly s (s.note .fdIsset .client s.sdDom) :=
    fun hsd => note_clientOnly h (h.resolve_left hsd)
  have hrecv : s.sdDom ≠ -1 → ClientOnly s s.readClient := fun hsd =>
    (hset hsd).trans (note_clientOnly (hset hsd).clientOpen (h.resolve_left hsd))
  have hanswer : ∀ (t : Server) (bs : List UInt8), ClientOnly s t →
      ClientOnly s (t.answer parse inp.behind bs) :=
    fun t bs ht => ⟨ht.proper, ht.clientOpen, ht.nano, ht.live⟩
  cases hcases with
  | absent hsd =>
    exact ⟨⟨Iff.rfl, h, rfl, fun _ => Iff.rfl⟩,
      iff_of_false Bool.false_ne_true fun hdrop => hdrop.1 hsd⟩
  | silent hsd hready =>
    exact ⟨hset hsd, iff_of_false Bool.false_ne_true fun hdrop => hready hdrop.2.1⟩
  | gone hsd hready hmsg =>
    exact ⟨(hrecv hsd).trans (dropClient_clientOnly (h.resolve_left hsd)),
      iff_of_true rfl ⟨hsd, hready, Or.inl hmsg⟩⟩
  | answered b bs hsd hready hmsg hsend =>
    refine ⟨hanswer _ _ (hrecv hsd), iff_of_false Bool.false_ne_true fun hdrop => ?_⟩
    simp [ClientDropped, hmsg, hsend] at hdrop
  | unanswered b bs hsd hready hmsg hsend =>
    exact ⟨(hanswer _ _ (hrecv hsd)).trans (dropClient_clientOnly (h.resolve_left hsd)),
      iff_of_true rfl ⟨hsd, hready, Or.inr hsend⟩⟩

end Server

end LegoCar
