import Mathlib
import LegoCar.Lib.Sweep
import LegoCar.Server.Descriptors

/-!
# The discipline of descriptors

In the loop over the boards the server uses the number of a closed descriptor again: in `FD_ISSET`
after `select`, and in the second `close` after wrong data; and a failed `send` to a board clears
the descriptor of the client.

`IterationOk` collects what an iteration needs so that none of this happens, and
`descriptors_iff` shows that it is exactly what is needed: in a run from start-up all calls are
proper in every state if and only if every iteration meets it. The invariant of such runs is that
the descriptor of the client, if there is one, is open.
-/

namespace LegoCar

open Posix

namespace Server

variable {cfg : ServerConfig} {i j : Fin 4} {s s' : Server}

/-! ### The boards -/

/-- Two states differ in the descriptor of board `i` at most, which may have been closed. -/
structure Touches (i : Fin 4) (s s' : Server) : Prop where
  sdDom : s'.sdDom = s.sdDom
  nano : ∀ j ≠ i, s'.nano j = s.nano j
  fds : s'.fds = s.fds ∨ s'.fds = s.fds.closeFd (s.nano i).sd

theorem Touches.clientOpen (h : Touches i s s') (hlive : s.Live i) :
    s'.ClientOpen ↔ s.ClientOpen := by
  rcases h.fds with hfds | hfds
  · rw [ClientOpen, ClientOpen, hfds, h.sdDom]
  · exact clientOpen_closeFd hlive (by simp) hfds h.sdDom

theorem Touches.live (h : Touches i s s') (hlive : s.Live i) (hij : i ≠ j) :
    s'.Live j ↔ s.Live j := by
  have hnano := h.nano j hij.symm
  rcases h.fds with hfds | hfds
  · rw [Live, Live, hfds, hnano]
  · exact live_closeFd hlive (by simpa using hij) hfds (by rw [hnano])

theorem sendIndat_touches (send : Bool) (i : Fin 4) (s : Server) :
    Touches i s (s.sendIndat send i) := by
  cases send with
  | true => exact ⟨rfl, fun _ _ => rfl, Or.inl rfl⟩
  | false => exact ⟨rfl, fun _ _ => rfl, Or.inr rfl⟩

/-- A frame for a board that cannot be sent clears the descriptor of the client. -/
theorem allProper_sendIndat (send : Bool) (h : s.ClientOpen) :
    (s.sendIndat send i).AllProper ↔ s.AllProper ∧ send = true := by
  cases send with
  | true => exact (and_iff_left rfl).symm
  | false =>
    have hclr :
        ¬((s.fill (tagS :: (s.nano i).indat.serial)).fdClr (.board i) s.sdDom).AllProper := by
      intro hall
      have hown : s.fds.owner s.sdDom = some (.board i) := (allProper_fdClr.mp hall).2
      rcases h with hnone | hclient
      · rw [hnone, FdTable.owner_of_neg (by decide)] at hown
        exact absurd hown (by simp)
      · rw [hclient] at hown
        exact absurd hown (by simp)
    refine iff_of_false (fun hall => hclr ?_) (by simp)
    exact (allProper_closeSd.mp hall).1

/-- Wrong data: the second `FD_CLR` finds the descriptor closed. -/
theorem not_allProper_wrongData : ¬(s.wrongData i).AllProper := by
  intro hall
  have hdrop : (s.dropTwice i).AllProper :=
    wrongData_cases (P := fun t => t.AllProper → (s.dropTwice i).AllProper) id id hall
  have hown := (allProper_fdClr.mp (allProper_closeSd.mp hdrop).1).2
  have hclosed : ((((s.fdClr (.board i) (s.nano i).sd).closeSd (.board i) (s.nano i).sd).setBit i
      false).fds).owner (s.nano i).sd = none := FdTable.owner_closeFd_self
  rw [hclosed] at hown
  exact absurd hown (by simp)

/-- A message that can be handled: before the handshake, or a record; and when it is answered, the
frame is sent. -/
def GoodMessage (cfg : ServerConfig) (send : Bool) (bs : List UInt8) (i : Fin 4) (s : Server) :
    Prop :=
  (NotRecord bs → (s.nano i).init = true) ∧ (s.Answered cfg bs i → send = true)

/-- Only the variables of board `i` and the buffer differ: no call was made, and no descriptor
changed. -/
structure OnlyMemory (i : Fin 4) (s s' : Server) : Prop where
  log : s'.log = s.log
  fds : s'.fds = s.fds
  sdDom : s'.sdDom = s.sdDom
  nano : ∀ j ≠ i, s'.nano j = s.nano j
  sd : (s'.nano i).sd = (s.nano i).sd

theorem OnlyMemory.allProper (h : OnlyMemory i s s') : s'.AllProper ↔ s.AllProper := by
  rw [AllProper, AllProper, h.log]

theorem OnlyMemory.clientOpen (h : OnlyMemory i s s') : s'.ClientOpen ↔ s.ClientOpen := by
  rw [ClientOpen, ClientOpen, h.fds, h.sdDom]

theorem OnlyMemory.live (h : OnlyMemory i s s') : s'.Live i ↔ s.Live i := by
  rw [Live, Live, h.fds, h.sd]

theorem OnlyMemory.touches {s'' : Server} (h : OnlyMemory i s s') (h' : Touches i s' s'') :
    Touches i s s'' :=
  ⟨h'.sdDom.trans h.sdDom, fun j hj => (h'.nano j hj).trans (h.nano j hj), by
    rw [← h.fds, ← h.sd]
    exact h'.fds⟩

theorem OnlyMemory.refl_touches (h : OnlyMemory i s s') : Touches i s s' :=
  ⟨h.sdDom, h.nano, Or.inl h.fds⟩

theorem OnlyMemory.trans {s'' : Server} (h : OnlyMemory i s s') (h' : OnlyMemory i s' s'') :
    OnlyMemory i s s'' :=
  ⟨h'.log.trans h.log, h'.fds.trans h.fds, h'.sdDom.trans h.sdDom,
    fun j hj => (h'.nano j hj).trans (h.nano j hj), h'.sd.trans h.sd⟩

theorem fill_onlyMemory (bs : List UInt8) (i : Fin 4) (s : Server) : OnlyMemory i s (s.fill bs) :=
  ⟨rfl, rfl, rfl, fun _ _ => rfl, rfl⟩

theorem stop_onlyMemory (i : Fin 4) (s : Server) : OnlyMemory i s s.stop :=
  ⟨rfl, rfl, rfl, fun _ _ => rfl, rfl⟩

theorem accept_onlyMemory (i : Fin 4) (s : Server) : OnlyMemory i s (s.accept i) :=
  ⟨rfl, rfl, rfl, fun _ _ => rfl, rfl⟩

theorem serve_onlyMemory (i : Fin 4) (s : Server) : OnlyMemory i s (s.serve i) :=
  ⟨rfl, rfl, rfl, fun _ _ => rfl, rfl⟩

theorem updateNano_onlyMemory {f : NanoBoard → NanoBoard} (hf : ∀ b, (f b).sd = b.sd) (i : Fin 4)
    (s : Server) : OnlyMemory i s (s.updateNano i f) := by
  refine ⟨rfl, rfl, rfl, fun j hj => nano_updateNano_of_ne hj f s, ?_⟩
  rw [nano_updateNano_self, hf]

theorem greet_onlyMemory (bs : List UInt8) (i : Fin 4) (s : Server) :
    OnlyMemory i s (s.greet bs i) :=
  (updateNano_onlyMemory (f := fun b => { b with init := false }) (fun _ => rfl) i s).trans
    (fill_onlyMemory _ i _)

theorem ignore_onlyMemory (i : Fin 4) (s : Server) : OnlyMemory i s (s.ignore i) :=
  updateNano_onlyMemory (f := fun b => { b with init := true }) (fun _ => rfl) i s

theorem storeOutdat_onlyMemory (bs : List UInt8) (i : Fin 4) (s : Server) :
    OnlyMemory i s (s.storeOutdat bs i) :=
  (updateNano_onlyMemory (f := fun b => { b with outdat := Outdata.ofSerial (bs.drop 1) })
    (fun _ => rfl) i s).trans (serve_onlyMemory i _)

/-- **What a message can do.** It is ignored, or answered with a frame, or it is wrong. -/
theorem message_cases (cfg : ServerConfig) (send : Bool) (bs : List UInt8) (i : Fin 4)
    (s : Server) :
    (NotRecord bs ∧ (s.nano i).init = true ∧ ¬s.Answered cfg bs i ∧
        OnlyMemory i s (s.message cfg send bs i)) ∨
      (s.Answered cfg bs i ∧ (NotRecord bs → (s.nano i).init = true) ∧
        ∃ t, OnlyMemory i s t ∧ s.message cfg send bs i = t.sendIndat send i) ∨
      (NotRecord bs ∧ (s.nano i).init = false ∧
        s.message cfg send bs i = (s.fill bs).wrongData i) := by
  by_cases hrecord : NotRecord bs
  · cases hinit : (s.nano i).init with
    | false => exact Or.inr (Or.inr ⟨hrecord, rfl, message_wrongData hrecord hinit⟩)
    | true =>
      have hmem : OnlyMemory i s ((s.fill bs).greet bs i) :=
        (fill_onlyMemory bs i s).trans (greet_onlyMemory bs i _)
      rw [message_handshake hrecord hinit, handshake]
      split_ifs with hne hignore
      · refine Or.inl ⟨hrecord, rfl, ?_, hmem.trans (ignore_onlyMemory i _)⟩
        rintro (hnot | ⟨-, hsent⟩)
        · exact absurd hrecord hnot
        · exact absurd ⟨hne, hignore⟩ hsent
      · exact Or.inr (Or.inl ⟨Or.inr ⟨hinit, fun hboth => hignore hboth.2⟩, fun _ => rfl,
          _, hmem.trans (stop_onlyMemory i _), rfl⟩)
      · exact Or.inr (Or.inl ⟨Or.inr ⟨hinit, fun hboth => hne hboth.1⟩, fun _ => rfl,
          _, hmem.trans (accept_onlyMemory i _), rfl⟩)
  · exact Or.inr (Or.inl ⟨Or.inl hrecord, fun hnot => absurd hnot hrecord, _,
      (fill_onlyMemory bs i s).trans (storeOutdat_onlyMemory bs i _), message_record hrecord⟩)

/-- Calls that were all proper after a frame was sent were proper before. -/
theorem allProper_of_sendIndat {send : Bool} (h : (s.sendIndat send i).AllProper) :
    s.AllProper := by
  cases send with
  | true => exact h
  | false => exact (allProper_fdClr.mp (allProper_closeSd.mp h).1).1

theorem allProper_of_message {send : Bool} {bs : List UInt8}
    (h : (s.message cfg send bs i).AllProper) : s.AllProper := by
  obtain ⟨-, -, -, hmem⟩ | ⟨-, -, t, hmem, heq⟩ | ⟨-, -, heq⟩ := message_cases cfg send bs i s
  · exact hmem.allProper.mp h
  · rw [heq] at h
    exact hmem.allProper.mp (allProper_of_sendIndat h)
  · rw [heq] at h
    exact absurd h not_allProper_wrongData

/-- The calls made for a message are proper exactly when it can be handled. -/
theorem allProper_message (cfg : ServerConfig) (send : Bool) (bs : List UInt8)
    (h : s.ClientOpen) :
    (s.message cfg send bs i).AllProper ↔ s.AllProper ∧ s.GoodMessage cfg send bs i := by
  obtain ⟨hrecord, hi, hnot, hmem⟩ | ⟨hans, hi, t, hmem, heq⟩ | ⟨hrecord, hi, heq⟩ :=
    message_cases cfg send bs i s
  · rw [hmem.allProper]
    exact (and_iff_left ⟨fun _ => hi, fun hans => absurd hans hnot⟩).symm
  · rw [heq, allProper_sendIndat send (hmem.clientOpen.mpr h), hmem.allProper]
    exact and_congr_right fun _ => ⟨fun hsend => ⟨hi, fun _ => hsend⟩, fun hgood => hgood.2 hans⟩
  · rw [heq]
    exact iff_of_false not_allProper_wrongData
      fun hall => absurd ((hall.2.1 hrecord).symm.trans hi) (by decide)

/-- A message that can be handled touches its board only. -/
theorem message_touches {send : Bool} {bs : List UInt8} (hgood : s.GoodMessage cfg send bs i) :
    Touches i s (s.message cfg send bs i) := by
  obtain ⟨-, -, -, hmem⟩ | ⟨-, -, t, hmem, heq⟩ | ⟨hrecord, hi, -⟩ := message_cases cfg send bs i s
  · exact hmem.refl_touches
  · rw [heq]
    exact hmem.touches (sendIndat_touches send i t)
  · exact absurd ((hgood.1 hrecord).symm.trans hi) (by decide)

/-- What the loop over the boards needs of board `i`: its descriptor is open, and a message of it
can be handled. -/
def BoardOk (cfg : ServerConfig) (io : BoardIO) (rfd : Finset ℤ) (i : Fin 4) (s : Server) : Prop :=
  s.Live i ∧ ((s.nano i).sd ∈ rfd →
    ∀ bs, io.recv.map (List.take ethFrameLen) = some bs → s.GoodMessage cfg io.send bs i)

theorem allProper_isSet : (s.isSet i).AllProper ↔ s.AllProper ∧ s.Live i := allProper_note

theorem allProper_receive :
    ((s.isSet i).receive i).AllProper ↔ s.AllProper ∧ s.Live i := by
  have hrecv : ((s.isSet i).receive i).AllProper ↔ (s.isSet i).AllProper ∧ s.Live i :=
    allProper_note
  rw [hrecv, allProper_isSet, and_assoc, and_self_iff]

theorem allProper_recvError :
    (((s.isSet i).receive i).recvError i).AllProper ↔ s.AllProper ∧ s.Live i := by
  have herror : (((s.isSet i).receive i).recvError i).AllProper ↔
      ((s.isSet i).receive i).AllProper ∧ s.Live i := allProper_clr_close
  rw [herror, allProper_receive, and_assoc, and_self_iff]

theorem allProper_of_readBoard {io : BoardIO} {rfd : Finset ℤ}
    (h : (s.readBoard cfg io rfd i).AllProper) : s.AllProper := by
  by_cases hready : (s.nano i).sd ∈ rfd
  · rw [readBoard_of_ready hready] at h
    cases hrecv : io.recv.map (List.take ethFrameLen) with
    | none =>
      rw [hrecv] at h
      exact (allProper_recvError.mp h).1
    | some bs =>
      rw [hrecv] at h
      exact (allProper_receive.mp (allProper_of_message h)).1
  · rw [readBoard_of_not_ready hready] at h
    exact (allProper_isSet.mp h).1

/-- The calls made while a board is read are proper exactly when it meets its condition. -/
theorem allProper_readBoard {io : BoardIO} {rfd : Finset ℤ} (h : s.ClientOpen) :
    (s.readBoard cfg io rfd i).AllProper ↔ s.AllProper ∧ s.BoardOk cfg io rfd i := by
  rw [BoardOk]
  by_cases hready : (s.nano i).sd ∈ rfd
  · rw [readBoard_of_ready hready, forall_prop_of_true hready]
    cases io.recv.map (List.take ethFrameLen) with
    | none =>
      rw [allProper_recvError]
      simp
    | some bs =>
      have hclient : ((s.isSet i).receive i).ClientOpen := h
      refine (allProper_message cfg io.send bs hclient).trans ?_
      rw [allProper_receive, and_assoc]
      refine and_congr_right fun _ => and_congr_right fun _ => ⟨fun hgood bs' hbs' => ?_, ?_⟩
      · obtain rfl := Option.some.inj hbs'
        exact hgood
      · exact fun hall => hall bs rfl
  · rw [readBoard_of_not_ready hready, allProper_isSet]
    exact and_congr_right fun _ => (and_iff_left fun hmem => absurd hmem hready).symm

/-- Reading from a board that meets its condition touches this board only. -/
theorem readBoard_touches {io : BoardIO} {rfd : Finset ℤ} (hok : s.BoardOk cfg io rfd i) :
    Touches i s (s.readBoard cfg io rfd i) := by
  by_cases hready : (s.nano i).sd ∈ rfd
  · rw [readBoard_of_ready hready]
    cases hrecv : io.recv.map (List.take ethFrameLen) with
    | none => exact ⟨rfl, fun _ _ => rfl, Or.inr rfl⟩
    | some bs =>
      have hgood : ((s.isSet i).receive i).GoodMessage cfg io.send bs i := hok.2 hready bs hrecv
      exact ⟨(message_touches hgood).sdDom, (message_touches hgood).nano,
        (message_touches hgood).fds⟩
  · rw [readBoard_of_not_ready hready]
    exact ⟨rfl, fun _ _ => rfl, Or.inl rfl⟩

theorem boardOk_of_touches {io : BoardIO} {rfd : Finset ℤ} (h : Touches i s s') (hlive : s.Live i)
    (hij : i ≠ j) : s'.BoardOk cfg io rfd j ↔ s.BoardOk cfg io rfd j := by
  have hnano := h.nano j hij.symm
  rw [BoardOk, BoardOk, h.live hlive hij, hnano]
  simp only [GoodMessage, Answered, hnano]

theorem readBoards_iff (cfg : ServerConfig) (inp : LoopInput) (rfd : Finset ℤ)
    (h : s.ClientOpen) :
    (((List.finRange 4).foldl (fun s i => s.readBoard cfg (inp.board i) rfd i) s).AllProper ↔
        s.AllProper ∧ ∀ i, s.BoardOk cfg (inp.board i) rfd i) ∧
      ((∀ i, s.BoardOk cfg (inp.board i) rfd i) →
        ((List.finRange 4).foldl (fun s i => s.readBoard cfg (inp.board i) rfd i)
          s).ClientOpen) := by
  have hrule := Sweep.sweep_iff (P := AllProper) (I := ClientOpen)
    (C := fun i s => s.BoardOk cfg (inp.board i) rfd i)
    (f := fun s i => s.readBoard cfg (inp.board i) rfd i)
    (fun s i => allProper_of_readBoard) (fun s i => allProper_readBoard)
    (fun s i hs hok => ((readBoard_touches hok).clientOpen hok.1).mpr hs)
    (fun s i j hij _ hok => boardOk_of_touches (readBoard_touches hok) hok.1 hij)
    (List.nodup_finRange 4) h
  simpa only [List.mem_finRange, true_imp_iff] using hrule

/-! ### An iteration -/

/-- What the part of an iteration after `select` needs: every board meets its condition, unless
the client is disconnected, after which the boards are not read. -/
def HandleOk (cfg : ServerConfig) (inp : LoopInput) (rfd : Finset ℤ) (s : Server) : Prop :=
  ¬(s.acceptClient inp rfd).ClientDropped inp rfd → ∀ i, s.BoardOk cfg (inp.board i) rfd i

theorem ClientOnly.boardOk (h : ClientOnly s s') (io : BoardIO) (rfd : Finset ℤ) (i : Fin 4) :
    s'.BoardOk cfg io rfd i ↔ s.BoardOk cfg io rfd i := by
  rw [BoardOk, BoardOk, h.live, h.nano]
  simp only [GoodMessage, Answered, h.nano]

theorem allProper_of_serveClient {parse : ParseCommand} {inp : LoopInput} {rfd : Finset ℤ}
    (h : (s.serveClient parse inp rfd).1.AllProper) : s.AllProper := by
  have hdrop : ∀ {t : Server}, t.dropClient.AllProper → t.AllProper :=
    fun hall => (allProper_clr_close.mp hall).1
  have hanswer : ∀ {t : Server} {bs : List UInt8},
      (t.answer parse inp.behind bs).AllProper → t.AllProper :=
    fun hall => hall
  have hrecv : s.readClient.AllProper → s.AllProper :=
    fun hall => (allProper_note.mp (allProper_note.mp hall).1).1
  have hcases := serveClient_cases parse inp rfd s
  generalize s.serveClient parse inp rfd = r at hcases h
  cases hcases with
  | absent => exact h
  | silent => exact (allProper_note.mp h).1
  | gone => exact hrecv (hdrop h)
  | answered => exact hrecv (hanswer h)
  | unanswered => exact hrecv (hanswer (hdrop h))

theorem allProper_of_handle {parse : ParseCommand} {inp : LoopInput} {rfd : Finset ℤ}
    (h : (s.handle parse cfg inp rfd).AllProper) : s.AllProper := by
  have haccept : (s.acceptClient inp rfd).log = s.log := by
    unfold acceptClient
    split_ifs <;> rfl
  have hserve : ((s.acceptClient inp rfd).serveClient parse inp rfd).1.AllProper := by
    unfold handle at h
    dsimp only at h
    split_ifs at h
    · exact h
    · exact Sweep.of_foldl (f := fun s i => s.readBoard cfg (inp.board i) rfd i)
        (fun s i => allProper_of_readBoard) _ h
  rw [AllProper, ← haccept]
  exact allProper_of_serveClient hserve

theorem handle_iff (parse : ParseCommand) {inp : LoopInput} {rfd : Finset ℤ} (h : s.ClientOpen) :
    ((s.handle parse cfg inp rfd).AllProper ↔ s.AllProper ∧ s.HandleOk cfg inp rfd) ∧
      (s.HandleOk cfg inp rfd → (s.handle parse cfg inp rfd).ClientOpen) := by
  have haccept := acceptClient_clientOnly inp rfd h
  obtain ⟨hserve, hdrop⟩ := serveClient_clientOnly parse inp rfd haccept.clientOpen
  have hclient := haccept.trans hserve
  unfold handle HandleOk
  dsimp only
  rw [← hdrop]
  split_ifs with hdropped
  · rw [hclient.proper]
    exact ⟨(and_iff_left fun hnot => absurd hdropped hnot).symm, fun _ => hclient.clientOpen⟩
  · obtain ⟨hiff, hinv⟩ := readBoards_iff cfg inp rfd hclient.clientOpen
    simp only [hclient.boardOk, hclient.proper] at hiff hinv
    rw [forall_prop_of_true hdropped]
    exact ⟨hiff, hinv⟩

/-- What the step from `select` on needs, in the state in which `select` is called. -/
def SelectOk (cfg : ServerConfig) (inp : LoopInput) (s : Server) : Prop :=
  match s.select inp with
  | .interrupted => True
  | .failed => s.stop.HandleOk cfg inp s.rfds
  | .ready rfd => s.HandleOk cfg inp rfd

/-- **What an iteration needs.** In the state before the check, if it is due, the descriptors of
the boards with too few messages are open. In the state in which `select` is called, unless it is
interrupted or the client is disconnected after it, the descriptor of every board is open, a
message of a board is a record or belongs to the handshake, and its answer can be sent. -/
def IterationOk (cfg : ServerConfig) (inp : LoopInput) (s : Server) : Prop :=
  s.TickOk cfg inp ∧ (s.prepare cfg inp).SelectOk cfg inp

theorem iterate_iff (parse : ParseCommand) {inp : LoopInput} (h : s.ClientOpen) :
    ((s.iterate parse cfg inp).AllProper ↔ s.AllProper ∧ s.IterationOk cfg inp) ∧
      (s.IterationOk cfg inp → (s.iterate parse cfg inp).ClientOpen) := by
  obtain ⟨hprep, hclient⟩ := prepare_iff cfg inp h
  unfold iterate IterationOk SelectOk
  dsimp only
  by_cases htick : s.TickOk cfg inp
  · rw [and_iff_left htick] at hprep
    rw [and_iff_right htick]
    cases (s.prepare cfg inp).select inp with
    | interrupted => exact ⟨hprep.trans (and_iff_left trivial).symm, fun _ => hclient htick⟩
    | failed =>
      obtain ⟨hiff, hinv⟩ := handle_iff (s := (s.prepare cfg inp).stop) parse (hclient htick)
      exact ⟨hiff.trans (and_congr_left' hprep), hinv⟩
    | ready rfd =>
      obtain ⟨hiff, hinv⟩ := handle_iff parse (hclient htick)
      exact ⟨hiff.trans (and_congr_left' hprep), hinv⟩
  · -- the check has closed a descriptor that was not open
    have hnot : ¬(s.prepare cfg inp).AllProper := fun hall => htick (hprep.mp hall).2
    refine ⟨iff_of_false (fun hall => hnot ?_) fun hok => htick hok.2.1,
      fun hok => absurd hok.1 htick⟩
    cases hsel : (s.prepare cfg inp).select inp <;> rw [hsel] at hall
    · exact hall
    · exact allProper_of_handle (s := (s.prepare cfg inp).stop) hall
    · exact allProper_of_handle hall

theorem loopStep_iff (parse : ParseCommand) {inp : LoopInput} (h : s.ClientOpen) :
    ((s.loopStep parse cfg inp).AllProper ↔
        s.AllProper ∧ (s.run = true → s.IterationOk cfg inp)) ∧
      ((s.run = true → s.IterationOk cfg inp) → (s.loopStep parse cfg inp).ClientOpen) := by
  unfold loopStep
  split_ifs with hrun
  · have hproper : ∀ (t : Server) (run : Bool),
        ({ t with run := run } : Server).AllProper ↔ t.AllProper := fun _ _ => Iff.rfl
    have hopen : ∀ (t : Server) (run : Bool),
        ({ t with run := run } : Server).ClientOpen ↔ t.ClientOpen := fun _ _ => Iff.rfl
    dsimp only
    rw [forall_prop_of_true hrun, hproper, hopen]
    exact iterate_iff parse h
  · exact ⟨(and_iff_left fun hr => absurd hr hrun).symm, fun _ => h⟩

/-! ### Runs -/

/-- Before the loop no call was made on behalf of a board, and there is no client. -/
theorem startUp_spec {start : StartInput} {s₀ : Server} (h : startUp start = some s₀) :
    s₀.log = [] ∧ s₀.sdDom = -1 := by
  obtain ⟨s, hboards, rfl⟩ := startUp_cases h
  have hs : s.log = [] ∧ s.sdDom = -1 := by
    refine Sweep.foldlM_invariant (I := fun s : Server => s.log = [] ∧ s.sdDom = -1)
      (fun s i s' hconn hs => ?_) _ hboards ⟨rfl, rfl⟩
    rw [(connectBoard_spec hconn).log, (connectBoard_spec hconn).sdDom]
    exact hs
  exact hs

section Run

variable {parse : ParseCommand} {start : StartInput} {inp : ℕ → LoopInput} {s₀ : Server}

/-- The descriptor of the client stays open in a run whose iterations meet their condition. -/
theorem clientOpen_serverAt (h : startUp start = some s₀) (n : ℕ)
    (hok : ∀ k < n, (serverAt parse cfg s₀ inp k).run = true →
      (serverAt parse cfg s₀ inp k).IterationOk cfg (inp k)) :
    (serverAt parse cfg s₀ inp n).ClientOpen := by
  induction n with
  | zero => exact Or.inl (startUp_spec h).2
  | succ n ih =>
    rw [serverAt_succ]
    exact (loopStep_iff parse (ih fun k hk => hok k (by omega))).2 (hok n (by omega))

end Run

/-- **Descriptor discipline.** In a run of the server from start-up, all calls made on behalf of a
board or the client find the descriptor open and owned by it, up to a state, exactly when every
iteration before this state meets its condition. -/
theorem descriptors_iff (parse : ParseCommand) (cfg : ServerConfig) (start : StartInput)
    (inp : ℕ → LoopInput) (s₀ : Server) (h : startUp start = some s₀) (n : ℕ) :
    (∀ k ≤ n, (serverAt parse cfg s₀ inp k).AllProper) ↔
      ∀ k < n, (serverAt parse cfg s₀ inp k).run = true →
        (serverAt parse cfg s₀ inp k).IterationOk cfg (inp k) := by
  induction n with
  | zero =>
    refine iff_of_true (fun k hk => ?_) (by simp)
    obtain rfl : k = 0 := by omega
    intro a ha
    rw [serverAt, Driven.stateAt_zero, (startUp_spec h).1] at ha
    exact absurd ha List.not_mem_nil
  | succ n ih =>
    constructor
    · intro hall k hk
      have hbefore := ih.mp fun k hk => hall k (by omega)
      obtain hlt | rfl := Nat.lt_succ_iff_lt_or_eq.mp hk
      · exact hbefore k hlt
      -- the invariant turns the calls of the last iteration into its condition
      · have hnext := hall (k + 1) (by omega)
        rw [serverAt_succ] at hnext
        exact ((loopStep_iff parse (clientOpen_serverAt h k hbefore)).1.mp hnext).2
    · intro hok k hk
      have hbefore : ∀ k < n, (serverAt parse cfg s₀ inp k).run = true →
          (serverAt parse cfg s₀ inp k).IterationOk cfg (inp k) := fun k hk => hok k (by omega)
      obtain hle | rfl := Nat.le_succ_iff.mp hk
      · exact ih.mpr hbefore k hle
      · rw [serverAt_succ]
        exact (loopStep_iff parse (clientOpen_serverAt h n hbefore)).1.mpr
          ⟨ih.mpr hbefore n le_rfl, hok n (by omega)⟩

/-- The check is due, the boards that it disconnects are connected again, and the first one answers
with the version string. -/
def checkedAndGreeted : LoopInput where
  tickTime := 2
  timerTime := 2
  retryTest := fun _ => 5
  retryTime := fun _ => 5
  select := .ready {3}
  board := fun _ => { recv := some (versionName ++ [0]) }

theorem descriptors_started :
    (serverAt replyDefault carserverCfg started (fun _ => checkedAndGreeted) 1).AllProper := by
  refine (descriptors_iff replyDefault carserverCfg {} (fun _ => checkedAndGreeted) started
    startUp_started 1).mpr (fun k hk _ => ?_) 1 le_rfl
  obtain rfl : k = 0 := by omega
  have hlive : ∀ i, started.Live i := by decide +kernel
  have hselect : (started.prepare carserverCfg checkedAndGreeted).select checkedAndGreeted =
      .ready {3} := by decide +kernel
  have hnext : ∀ i, (started.prepare carserverCfg checkedAndGreeted).Live i ∧
      ((started.prepare carserverCfg checkedAndGreeted).nano i).init = true := by decide +kernel
  refine ⟨fun _ i _ => hlive i, ?_⟩
  rw [serverAt, Driven.stateAt_zero, SelectOk, hselect]
  exact fun _ i => ⟨(hnext i).1, fun _ _ _ => ⟨fun _ => (hnext i).2, fun _ => rfl⟩⟩

/-- Two checks, in the first of which the boards are too slow, with a new client between them. -/
def lateBoards : ℕ → LoopInput
  | 0 => { tickTime := 2, timerTime := 2 }
  | 1 => { select := .ready {7} }
  | _ => { tickTime := 4, timerTime := 4 }

/-- **The discipline is not kept.** The first check disconnects board 0 and closes descriptor 3,
the client gets descriptor 3, and the second check closes it on behalf of board 0. -/
theorem descriptors_fails :
    ⟨.close, .board 0, 3, some .client⟩ ∈
        (serverAt replyDefault carserverCfg started lateBoards 3).log ∧
      ¬ ∀ (start : StartInput) (inp : ℕ → LoopInput) (s₀ : Server) (n : ℕ),
        startUp start = some s₀ → (serverAt replyDefault carserverCfg s₀ inp n).AllProper := by
  have hlate : ⟨.close, .board 0, 3, some .client⟩ ∈
      (serverAt replyDefault carserverCfg started lateBoards 3).log := by decide +kernel
  refine ⟨hlate, fun hall => ?_⟩
  have hproper := hall {} lateBoards started 3 startUp_started _ hlate
  exact absurd hproper (by decide)

end Server

end LegoCar
