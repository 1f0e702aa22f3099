import Mathlib
import LegoCar.Server.Isolation

/-!
# The supervision of the boards

The server counts the messages of each board, and about once a second it drops the boards that sent
too few. `Watched` and `Unseen` say what the other parts of an iteration leave alone; so the counter
is the number of calls of `recv` for the board since the last check (`connCtr_serverAt`).

A connection bit is cleared for one of three reasons only: the board sent too few messages, `recv`
failed, or the board sent something that is not a record after its handshake (`disconnected`). And a
board from which nothing is received is not connected after two checks (`silent_dropped`).
-/

namespace LegoCar

namespace Server

/-! ### What is left alone -/

/-- The number of messages that have been received from a board. -/
def recvs (i : Fin 4) (s : Server) : ℕ :=
  s.log.countP fun a => decide (a.call = .recv ∧ a.who = .board i)

/-- The supervision of board `i` is where it was. -/
structure Watched (i : Fin 4) (s s' : Server) : Prop where
  bit : s'.connBoards i = s.connBoards i
  count : s'.connCtr i = s.connCtr i
  recvs : s'.recvs i = s.recvs i

/-- Also, the board is in the same phase of its connection. -/
structure Unseen (i : Fin 4) (s s' : Server) : Prop extends Watched i s s' where
  init : (s'.nano i).init = (s.nano i).init

variable {cfg : ServerConfig} {parse : ParseCommand} {inp : LoopInput} {io : BoardIO}
  {rfd : Finset ℤ} {i j : Fin 4} {s t u : Server}

theorem Watched.refl (i : Fin 4) (s : Server) : Watched i s s := ⟨rfl, rfl, rfl⟩

theorem Watched.trans (h : Watched i s t) (h' : Watched i t u) : Watched i s u :=
  ⟨h'.bit.trans h.bit, h'.count.trans h.count, h'.recvs.trans h.recvs⟩

theorem Unseen.refl (i : Fin 4) (s : Server) : Unseen i s s := ⟨.refl i s, rfl⟩

theorem Unseen.trans (h : Unseen i s t) (h' : Unseen i t u) : Unseen i s u :=
  ⟨h.toWatched.trans h'.toWatched, h'.init.trans h.init⟩

theorem recvs_note (call : Call) (who : Owner) (fd : ℤ) (s : Server) :
    (s.note call who fd).recvs i =
      s.recvs i + if call = .recv ∧ who = .board i then 1 else 0 := by
  simp [recvs, note, List.countP_append, List.countP_singleton]

theorem unseen_note {call : Call} {who : Owner} (h : ¬(call = .recv ∧ who = .board i)) (fd : ℤ)
    (s : Server) : Unseen i s (s.note call who fd) :=
  ⟨⟨rfl, rfl, by rw [recvs_note, if_neg h, add_zero]⟩, rfl⟩

theorem unseen_fdClr (who : Owner) (fd : ℤ) (s : Server) : Unseen i s (s.fdClr who fd) :=
  .trans (t := s.note .fdClr who fd) (unseen_note (by simp) fd s) ⟨⟨rfl, rfl, rfl⟩, rfl⟩

theorem unseen_closeSd (who : Owner) (fd : ℤ) (s : Server) : Unseen i s (s.closeSd who fd) :=
  .trans (t := s.note .close who fd) (unseen_note (by simp) fd s) ⟨⟨rfl, rfl, rfl⟩, rfl⟩

/-- Clearing a descriptor in the set and closing it. -/
theorem unseen_release (who who' : Owner) (fd fd' : ℤ) (s : Server) :
    Unseen i s ((s.fdClr who fd).closeSd who' fd') :=
  (unseen_fdClr who fd s).trans (unseen_closeSd who' fd' _)

theorem unseen_setBit (hne : i ≠ j) (value : Bool) (s : Server) :
    Unseen i s (s.setBit j value) :=
  ⟨⟨Function.update_of_ne hne _ _, rfl, rfl⟩, rfl⟩

theorem unseen_updateNano (hne : i ≠ j) (f : NanoBoard → NanoBoard) (s : Server) :
    Unseen i s (s.updateNano j f) :=
  ⟨⟨rfl, rfl, rfl⟩, by rw [nano_updateNano_of_ne hne]⟩

theorem unseen_sendIndat (send : Bool) (j : Fin 4) (s : Server) :
    Unseen i s (s.sendIndat send j) := by
  cases send with
  | true => exact ⟨⟨rfl, rfl, rfl⟩, rfl⟩
  | false =>
    refine .trans (t := s.fill (tagS :: (s.nano j).indat.serial)) ⟨⟨rfl, rfl, rfl⟩, rfl⟩ ?_
    exact (unseen_release _ _ _ _ _).trans ⟨⟨rfl, rfl, rfl⟩, rfl⟩

/-! ### The check -/

/-- The check of a board. -/
theorem checkMessages_self (cfg : ServerConfig) (i : Fin 4) (s : Server) :
    (s.checkMessages cfg i).connBoards i =
        (s.connBoards i && decide (cfg.minMsgs ≤ s.connCtr i)) ∧
      (s.checkMessages cfg i).connCtr i = 0 ∧
      (s.checkMessages cfg i).recvs i = s.recvs i := by
  unfold checkMessages
  dsimp only
  refine ⟨?_, Function.update_self _ _ _, ?_⟩
  · split_ifs with hfew
    · rw [decide_eq_false (not_le.mpr hfew), Bool.and_false]
      exact Function.update_self _ _ _
    · rw [decide_eq_true (not_lt.mp hfew), Bool.and_true]
  · split_ifs with hfew
    · exact (unseen_release (i := i) _ _ _ _ (s.setBit i false)).recvs
    · rfl

theorem unseen_checkMessages (hne : i ≠ j) (s : Server) : Unseen i s (s.checkMessages cfg j) := by
  have hcount : ∀ t : Server, Unseen i s t →
      Unseen i s { t with connCtr := Function.update t.connCtr j 0 } := fun t h =>
    h.trans ⟨⟨rfl, Function.update_of_ne hne _ _, rfl⟩, rfl⟩
  exact checkMessages_cases (P := Unseen i s)
    ((unseen_setBit hne false s).trans (unseen_release _ _ _ _ _)) (.refl i s) hcount

/-- **The check of all boards.** A board stays connected if it sent enough messages, and its counter
is set back. -/
theorem tick_spec (cfg : ServerConfig) (h : s.connTimer < inp.tickTime) :
    (s.tick cfg inp).connBoards i = (s.connBoards i && decide (cfg.minMsgs ≤ s.connCtr i)) ∧
      (s.tick cfg inp).connCtr i = 0 ∧ (s.tick cfg inp).recvs i = s.recvs i := by
  obtain ⟨t, hbefore, hafter⟩ := Sweep.exists_visit (K := Unseen i)
    (f := fun (s : Server) i => s.checkMessages cfg i) (Unseen.refl i) (fun _ _ _ => Unseen.trans)
    (fun s j hne => unseen_checkMessages (Ne.symm hne) s) (List.nodup_finRange 4)
    (List.mem_finRange i) s
  obtain ⟨hbit, hcount, hreceived⟩ := checkMessages_self cfg i t
  rw [tick, if_pos h]
  refine ⟨?_, hafter.count.trans hcount, (hafter.recvs.trans hreceived).trans hbefore.recvs⟩
  rw [← hbefore.bit, ← hbefore.count]
  exact hafter.bit.trans hbit

/-! ### The other parts of an iteration -/

theorem watched_tryConnect (attempt : Attempt) (j : Fin 4) (s : Server) :
    Watched i s (s.tryConnect attempt j) := by
  cases attempt with
  | socketFailed => exact ⟨rfl, rfl, rfl⟩
  | connectFailed => exact ⟨rfl, rfl, rfl⟩
  | sendFailed =>
    exact .trans (t := (s.openBoard j).fill [tagI]) ⟨rfl, rfl, rfl⟩
      (unseen_closeSd _ _ _).toWatched
  | connected => exact ⟨rfl, rfl, rfl⟩

theorem watched_reconnect (inp : LoopInput) (j : Fin 4) (s : Server) :
    Watched i s (s.reconnect inp j) := by
  unfold reconnect
  split_ifs
  · exact .trans (t := s.updateNano j fun b => { b with lastConnAttempt := inp.retryTime j })
      ⟨rfl, rfl, rfl⟩ (watched_tryConnect _ _ _)
  · exact .refl i s

/-- **Before `select`**, only the check moves the supervision. -/
theorem prepare_spec (cfg : ServerConfig) (inp : LoopInput) (i : Fin 4) (s : Server) :
    (s.prepare cfg inp).connBoards i = (s.connBoards i &&
        decide (s.connTimer < inp.tickTime → cfg.minMsgs ≤ s.connCtr i)) ∧
      (s.prepare cfg inp).connCtr i = (if s.connTimer < inp.tickTime then 0 else s.connCtr i) ∧
      (s.prepare cfg inp).recvs i = s.recvs i := by
  have hreconnect : Watched i ((s.handleCar cfg).tick cfg inp) (s.prepare cfg inp) :=
    Sweep.foldl_invariant (I := Watched i ((s.handleCar cfg).tick cfg inp))
      (fun t j h => h.trans (watched_reconnect inp j t)) _ (.refl i _)
  rw [hreconnect.bit, hreconnect.count, hreconnect.recvs]
  by_cases h : s.connTimer < inp.tickTime
  · obtain ⟨hbit, hcount, hreceived⟩ := tick_spec (i := i) (s := s.handleCar cfg) cfg h
    refine ⟨?_, by rw [if_pos h]; exact hcount, hreceived⟩
    rw [hbit]
    exact congrArg (s.connBoards i && ·) (by simp [h]; rfl)
  · have htick : (s.handleCar cfg).tick cfg inp = s.handleCar cfg := if_neg h
    rw [htick, if_neg h, decide_eq_true fun hdue => absurd hdue h, Bool.and_true]
    exact ⟨rfl, rfl, rfl⟩

theorem unseen_acceptClient (inp : LoopInput) (rfd : Finset ℤ) (s : Server) :
    Unseen i s (s.acceptClient inp rfd) := by
  unfold acceptClient
  split_ifs <;> exact ⟨⟨rfl, rfl, rfl⟩, rfl⟩

theorem unseen_dropClient (s : Server) : Unseen i s s.dropClient :=
  (unseen_release _ _ _ _ s).trans ⟨⟨rfl, rfl, rfl⟩, rfl⟩

theorem unseen_readClient (s : Server) : Unseen i s s.readClient :=
  .trans (t := s.note .fdIsset .client s.sdDom) (unseen_note (by simp) _ s)
    (unseen_note (by simp) _ _)

theorem unseen_serveClient (parse : ParseCommand) (inp : LoopInput) (rfd : Finset ℤ) (s : Server) :
    Unseen i s (s.serveClient parse inp rfd).1 := by
  have hcases := serveClient_cases parse inp rfd s
  generalize s.serveClient parse inp rfd = r at hcases ⊢
  cases hcases with
  | absent => exact .refl i s
  | silent => exact unseen_note (by simp) _ s
  | gone => exact (unseen_readClient s).trans (unseen_dropClient _)
  | answered b bs => exact (unseen_readClient s).trans ⟨⟨rfl, rfl, rfl⟩, rfl⟩
  | unanswered b bs =>
    refine (unseen_readClient s).trans
      (.trans (t := s.readClient.answer parse inp.behind (b :: bs)) ?_ ?_)
    · exact ⟨⟨rfl, rfl, rfl⟩, rfl⟩
    · exact unseen_dropClient _

/-! ### Reading from the boards -/

theorem unseen_dropTwice (hne : i ≠ j) (s : Server) : Unseen i s (s.dropTwice j) :=
  (unseen_release _ _ _ _ s).trans ((unseen_setBit hne false _).trans (unseen_release _ _ _ _ _))

theorem unseen_message (hne : i ≠ j) (send : Bool) (bs : List UInt8) (s : Server) :
    Unseen i s (s.message cfg send bs j) := by
  have hfill : Unseen i s (s.fill bs) := ⟨⟨rfl, rfl, rfl⟩, rfl⟩
  by_cases hrecord : NotRecord bs
  · have hgreet : Unseen i s ((s.fill bs).greet bs j) :=
      .trans (t := (s.fill bs).updateNano j fun b => { b with init := false })
        (hfill.trans (unseen_updateNano hne _ _)) ⟨⟨rfl, rfl, rfl⟩, rfl⟩
    cases hinit : (s.nano j).init with
    | true =>
      rw [message_handshake hrecord hinit]
      refine handshake_cases ?_ ?_ ?_
      · exact hgreet.trans (unseen_updateNano hne _ _)
      · exact .trans (t := ((s.fill bs).greet bs j).stop) (hgreet.trans ⟨⟨rfl, rfl, rfl⟩, rfl⟩)
          (unseen_sendIndat _ _ _)
      · refine (hgreet.trans ((unseen_setBit hne true _).trans ?_)).trans (unseen_sendIndat _ _ _)
        exact ⟨⟨rfl, rfl, rfl⟩, rfl⟩
    | false =>
      rw [message_wrongData hrecord hinit]
      have hdrop := hfill.trans (unseen_dropTwice hne (s.fill bs))
      exact wrongData_cases (P := Unseen i s) hdrop (hdrop.trans ⟨⟨rfl, rfl, rfl⟩, rfl⟩)
  · rw [message_record hrecord]
    have hstore : Unseen i (s.fill bs) ((s.fill bs).storeOutdat bs j) :=
      .trans (t := (s.fill bs).updateNano j fun b => { b with
        outdat := Outdata.ofSerial (bs.drop 1) }) (unseen_updateNano hne _ _)
        ⟨⟨rfl, rfl, rfl⟩, rfl⟩
    exact (hfill.trans hstore).trans (unseen_sendIndat _ _ _)

theorem unseen_readBoard (hne : i ≠ j) (io : BoardIO) (rfd : Finset ℤ) (s : Server) :
    Unseen i s (s.readBoard cfg io rfd j) := by
  have hisSet : Unseen i s (s.isSet j) := unseen_note (by simp) _ s
  have hreceive : Unseen i s ((s.isSet j).receive j) := by
    refine hisSet.trans (.trans (t := { s.isSet j with
      connCtr := Function.update (s.isSet j).connCtr j ((s.isSet j).connCtr j + 1) }) ?_ ?_)
    · exact ⟨⟨rfl, Function.update_of_ne hne _ _, rfl⟩, rfl⟩
    · exact unseen_note (by simp [Ne.symm hne]) _ _
  by_cases hready : (s.nano j).sd ∈ rfd
  · rw [readBoard_of_ready hready]
    cases io.recv.map (List.take ethFrameLen) with
    | none => exact hreceive.trans ((unseen_setBit hne false _).trans (unseen_release _ _ _ _ _))
    | some bs => exact hreceive.trans (unseen_message hne _ _ _)
  · rw [readBoard_of_not_ready hready]
    exact hisSet

/-- What is received from a board in a phase of its connection, and what becomes of its bit, if it
is set or cleared. -/
inductive Heard (cfg : ServerConfig) (io : BoardIO) (init : Bool) : Option Bool → Prop where
  | failed (hrecv : io.recv = none) : Heard cfg io init (some false)
  | record {bs : List UInt8} (hrecv : io.recv.map (List.take ethFrameLen) = some bs)
      (hrecord : ¬NotRecord bs) : Heard cfg io init none
  | greeted {bs : List UInt8} (hrecv : io.recv.map (List.take ethFrameLen) = some bs)
      (hrecord : NotRecord bs) (hinit : init = true) (hmatch : cString bs = cfg.nanoInit) :
      Heard cfg io init (some true)
  | refused {bs : List UInt8} (hrecv : io.recv.map (List.take ethFrameLen) = some bs)
      (hrecord : NotRecord bs) (hinit : init = true) (hmatch : cString bs ≠ cfg.nanoInit) :
      Heard cfg io init none
  | wrong {bs : List UInt8} (hrecv : io.recv.map (List.take ethFrameLen) = some bs)
      (hrecord : NotRecord bs) (hinit : init = false) : Heard cfg io init (some false)

/-- A message of a board counts, and may set or clear its bit. -/
structure Counted (i : Fin 4) (v : Option Bool) (s s' : Server) : Prop where
  bit : s'.connBoards i = v.getD (s.connBoards i)
  count : s'.connCtr i = s.connCtr i + 1
  recvs : s'.recvs i = s.recvs i + 1

theorem Counted.trans {v : Option Bool} (h : Counted i v s t) (h' : Watched i t u) :
    Counted i v s u :=
  ⟨h'.bit.trans h.bit, h'.count.trans h.count, h'.recvs.trans h.recvs⟩

theorem counted_setBit (h : Counted i none s t) (value : Bool) :
    Counted i (some value) s (t.setBit i value) :=
  ⟨Function.update_self _ _ _, h.count, h.recvs⟩

theorem counted_recvError (h : Counted i none s t) : Counted i (some false) s (t.recvError i) :=
  (counted_setBit h false).trans (unseen_release _ _ _ _ _).toWatched

theorem counted_receive (i : Fin 4) (s : Server) : Counted i none s ((s.isSet i).receive i) := by
  refine ⟨rfl, Function.update_self _ _ _, ?_⟩
  have hisSet : (s.isSet i).recvs i = s.recvs i := (unseen_note (by simp) _ s).recvs
  rw [receive, recvs_note, if_pos ⟨rfl, rfl⟩, ← hisSet]
  rfl

theorem counted_message (cfg : ServerConfig) {bs : List UInt8} (h : Counted i none s t)
    (hrecv : io.recv.map (List.take ethFrameLen) = some bs) :
    ∃ v, Heard cfg io (t.nano i).init v ∧ Counted i v s (t.message cfg io.send bs i) := by
  by_cases hrecord : NotRecord bs
  · cases hinit : (t.nano i).init with
    | true =>
      rw [message_handshake hrecord hinit, handshake]
      split_ifs with hne hignore
      · exact ⟨none, .refused hrecv hrecord rfl hne, h.trans ⟨rfl, rfl, rfl⟩⟩
      · refine ⟨none, .refused hrecv hrecord rfl hne, ?_⟩
        exact (h.trans (u := ((t.fill bs).greet bs i).stop) ⟨rfl, rfl, rfl⟩).trans
          (unseen_sendIndat _ _ _).toWatched
      · refine ⟨some true, .greeted hrecv hrecord rfl (not_not.mp hne), ?_⟩
        refine .trans ?_ (unseen_sendIndat _ _ _).toWatched
        exact (counted_setBit (h.trans (u := (t.fill bs).greet bs i) ⟨rfl, rfl, rfl⟩) true).trans
          ⟨rfl, rfl, rfl⟩
    | false =>
      rw [message_wrongData hrecord hinit]
      refine ⟨some false, .wrong hrecv hrecord rfl, ?_⟩
      have hdrop : Counted i (some false) s ((t.fill bs).dropTwice i) := by
        refine .trans (counted_setBit (.trans h ?_) false) (unseen_release _ _ _ _ _).toWatched
        exact .trans (t := t.fill bs) ⟨rfl, rfl, rfl⟩ (unseen_release _ _ _ _ _).toWatched
      exact wrongData_cases (P := Counted i (some false) s) hdrop (hdrop.trans ⟨rfl, rfl, rfl⟩)
  · rw [message_record hrecord]
    refine ⟨none, .record hrecv hrecord, ?_⟩
    exact (h.trans (u := (t.fill bs).storeOutdat bs i) ⟨rfl, rfl, rfl⟩).trans
      (unseen_sendIndat _ _ _).toWatched

/-- Reading from a board: it is silent, or what it sent is counted. -/
theorem readBoard_self (cfg : ServerConfig) (io : BoardIO) (rfd : Finset ℤ) (i : Fin 4)
    (s : Server) : Watched i s (s.readBoard cfg io rfd i) ∨
      ∃ v, Heard cfg io (s.nano i).init v ∧ Counted i v s (s.readBoard cfg io rfd i) := by
  by_cases hready : (s.nano i).sd ∈ rfd
  · right
    rw [readBoard_of_ready hready]
    have hreceive := counted_receive i s
    cases hrecv : io.recv.map (List.take ethFrameLen) with
    | none =>
      exact ⟨some false, .failed (Option.map_eq_none_iff.mp hrecv), counted_recvError hreceive⟩
    | some bs =>
      obtain ⟨v, hheard, hcounted⟩ := counted_message cfg hreceive hrecv
      exact ⟨v, hheard, hcounted⟩
  · rw [readBoard_of_not_ready hready]
    exact .inl (unseen_note (by simp) _ s).toWatched

/-- **After `select`**, a board is silent, or what it sent is counted. -/
theorem handle_spec (parse : ParseCommand) (cfg : ServerConfig) (inp : LoopInput)
    (rfd : Finset ℤ) (i : Fin 4) (s : Server) : Watched i s (s.handle parse cfg inp rfd) ∨
      ∃ v, Heard cfg (inp.board i) (s.nano i).init v ∧
        Counted i v s (s.handle parse cfg inp rfd) := by
  have hclient : Unseen i s ((s.acceptClient inp rfd).serveClient parse inp rfd).1 :=
    (unseen_acceptClient inp rfd s).trans (unseen_serveClient parse inp rfd _)
  unfold handle
  dsimp only
  split_ifs
  · exact .inl hclient.toWatched
  · obtain ⟨t, hbefore, hafter⟩ := Sweep.exists_visit (K := Unseen i)
      (f := fun (s : Server) i => s.readBoard cfg (inp.board i) rfd i) (Unseen.refl i)
      (fun _ _ _ => Unseen.trans) (fun s j hne => unseen_readBoard (Ne.symm hne) _ _ s)
      (List.nodup_finRange 4) (List.mem_finRange i)
      ((s.acceptClient inp rfd).serveClient parse inp rfd).1
    have hseen := hclient.trans hbefore
    rcases readBoard_self cfg (inp.board i) rfd i t with hsilent | ⟨v, hheard, hcounted⟩
    · exact .inl ((hseen.toWatched.trans hsilent).trans hafter.toWatched)
    · rw [hseen.init] at hheard
      refine .inr ⟨v, hheard, .trans ⟨?_, ?_, ?_⟩ hafter.toWatched⟩
      · rw [hcounted.bit, hseen.bit]
      · rw [hcounted.count, hseen.count]
      · rw [hcounted.recvs, hseen.recvs]

/-- **An iteration**: the check and a reconnection, and then a message of the board or none. -/
theorem iterate_spec (parse : ParseCommand) (cfg : ServerConfig) (inp : LoopInput) (i : Fin 4)
    (s : Server) : Watched i (s.prepare cfg inp) (s.iterate parse cfg inp) ∨
      ∃ v, Heard cfg (inp.board i) ((s.prepare cfg inp).nano i).init v ∧
        Counted i v (s.prepare cfg inp) (s.iterate parse cfg inp) := by
  unfold iterate
  dsimp only
  cases (s.prepare cfg inp).select inp with
  | interrupted => exact .inl (.refl i _)
  | failed =>
    rcases handle_spec parse cfg inp (s.prepare cfg inp).rfds i (s.prepare cfg inp).stop with
      h | ⟨v, hheard, h⟩
    · exact .inl ⟨h.bit, h.count, h.recvs⟩
    · exact .inr ⟨v, hheard, h.bit, h.count, h.recvs⟩
  | ready rfd => exact handle_spec parse cfg inp rfd i (s.prepare cfg inp)

/-! ### Runs -/

/-- The boards are checked in an iteration. -/
def Checks (inp : LoopInput) (s : Server) : Prop := s.run = true ∧ s.connTimer < inp.tickTime

instance (inp : LoopInput) (s : Server) : Decidable (s.Checks inp) :=
  inferInstanceAs (Decidable (_ ∧ _))

theorem loopStep_of_stopped (h : s.run = false) : s.loopStep parse cfg inp = s := by
  rw [loopStep, h]
  exact if_neg Bool.false_ne_true

theorem loopStep_spec (parse : ParseCommand) (cfg : ServerConfig) (inp : LoopInput) (i : Fin 4)
    (h : s.run = true) : Watched i (s.prepare cfg inp) (s.loopStep parse cfg inp) ∨
      ∃ v, Heard cfg (inp.board i) ((s.prepare cfg inp).nano i).init v ∧
        Counted i v (s.prepare cfg inp) (s.loopStep parse cfg inp) := by
  rw [loopStep, if_pos h]
  rcases iterate_spec parse cfg inp i s with hsilent | ⟨v, hheard, hcounted⟩
  · exact .inl ⟨hsilent.bit, hsilent.count, hsilent.recvs⟩
  · exact .inr ⟨v, hheard, hcounted.bit, hcounted.count, hcounted.recvs⟩

theorem recvs_loopStep (parse : ParseCommand) (cfg : ServerConfig) (inp : LoopInput)
    (i : Fin 4) (s : Server) : s.recvs i ≤ (s.loopStep parse cfg inp).recvs i := by
  cases hrun : s.run with
  | false => rw [loopStep_of_stopped hrun]
  | true =>
    have hprepare := (prepare_spec cfg inp i s).2.2
    rcases loopStep_spec parse cfg inp i hrun with hsilent | ⟨v, -, hcounted⟩
    · rw [hsilent.recvs, hprepare]
    · rw [hcounted.recvs, hprepare]
      exact Nat.le_succ _

/-- No message has been received, or counted, when the loop is entered. -/
theorem start_recvs {start : StartInput} {s₀ : Server} (h : startUp start = some s₀)
    (i : Fin 4) : s₀.connCtr i = 0 ∧ s₀.recvs i = 0 := by
  obtain ⟨s, hboards, rfl⟩ := startUp_cases h
  have hs : (∀ j, s.connCtr j = 0) ∧ s.log = [] := by
    refine Sweep.foldlM_invariant (I := fun s : Server => (∀ j, s.connCtr j = 0) ∧ s.log = [])
      (fun t j t' hconn ht => ⟨fun k => ?_, ?_⟩) _ hboards ⟨fun _ => rfl, rfl⟩
    · unfold connectBoard at hconn
      split_ifs at hconn
      obtain rfl := Option.some.inj hconn
      dsimp only
      by_cases hk : k = j
      · rw [hk, Function.update_self]
      · rw [Function.update_of_ne hk]
        exact ht.1 k
    · rw [(connectBoard_spec hconn).log, ht.2]
  refine ⟨hs.1 i, ?_⟩
  have hlog : recvs i s = 0 := by rw [recvs, hs.2, List.countP_nil]
  exact hlog

end Server

section Runs

open Server

variable {parse : ParseCommand} {cfg : ServerConfig} {start : StartInput} {s₀ : Server}
  {inp : ℕ → LoopInput} {i : Fin 4}

/-- The last iteration before iteration `n` in which the boards were checked, or the first one. -/
def lastCheck (parse : ParseCommand) (cfg : ServerConfig) (s₀ : Server) (inp : ℕ → LoopInput) :
    ℕ → ℕ
  | 0 => 0
  | n + 1 =>
    if (serverAt parse cfg s₀ inp n).Checks (inp n) then n else lastCheck parse cfg s₀ inp n

/-- The number of messages received from a board since then. -/
def sinceCheck (parse : ParseCommand) (cfg : ServerConfig) (s₀ : Server) (inp : ℕ → LoopInput)
    (i : Fin 4) (n : ℕ) : ℕ :=
  (serverAt parse cfg s₀ inp n).recvs i -
    (serverAt parse cfg s₀ inp (lastCheck parse cfg s₀ inp n)).recvs i

theorem lastCheck_le (n : ℕ) : lastCheck parse cfg s₀ inp n ≤ n := by
  induction n with
  | zero => exact le_rfl
  | succ n ih =>
    rw [lastCheck]
    split_ifs
    · exact n.le_succ
    · exact ih.trans n.le_succ

theorem le_lastCheck {k n : ℕ} (hk : (serverAt parse cfg s₀ inp k).Checks (inp k)) (hkn : k < n) :
    k ≤ lastCheck parse cfg s₀ inp n := by
  induction n, hkn using Nat.le_induction with
  | base => rw [lastCheck, if_pos hk]
  | succ n hkn ih =>
    rw [lastCheck]
    split_ifs
    · exact (Nat.le_succ k).trans hkn
    · exact ih

theorem recvs_serverAt_mono (parse : ParseCommand) (cfg : ServerConfig) (s₀ : Server)
    (inp : ℕ → LoopInput) (i : Fin 4) : Monotone fun n => (serverAt parse cfg s₀ inp n).recvs i :=
  monotone_nat_of_le_succ fun n => by
    rw [serverAt_succ]
    exact recvs_loopStep parse cfg (inp n) i _

/-- The counter of a board, and what was received before the last check. -/
theorem connCtr_add_serverAt (hstart : startUp start = some s₀) (i : Fin 4) (n : ℕ) :
    (serverAt parse cfg s₀ inp n).connCtr i +
        (serverAt parse cfg s₀ inp (lastCheck parse cfg s₀ inp n)).recvs i =
      (serverAt parse cfg s₀ inp n).recvs i := by
  induction n with
  | zero =>
    obtain ⟨hcount, hreceived⟩ := start_recvs hstart i
    exact (congrArg (· + s₀.recvs i) hcount).trans (Nat.zero_add _)
  | succ n ih =>
    rw [lastCheck, serverAt_succ]
    set s := serverAt parse cfg s₀ inp n with hs
    cases hrun : s.run with
    | false =>
      have hchecks : ¬s.Checks (inp n) := fun h => Bool.false_ne_true (hrun.symm.trans h.1)
      rw [loopStep_of_stopped hrun, if_neg hchecks]
      exact ih
    | true =>
      obtain ⟨-, hcount, hreceived⟩ := prepare_spec cfg (inp n) i s
      have hprepared : (s.prepare cfg (inp n)).connCtr i + (serverAt parse cfg s₀ inp
          (if s.Checks (inp n) then n else lastCheck parse cfg s₀ inp n)).recvs i =
          (s.prepare cfg (inp n)).recvs i := by
        rw [hcount, hreceived]
        by_cases hdue : s.connTimer < (inp n).tickTime
        · rw [if_pos hdue, if_pos ⟨hrun, hdue⟩, ← hs, Nat.zero_add]
        · rw [if_neg hdue, if_neg fun h => hdue h.2]
          exact ih
      rcases loopStep_spec parse cfg (inp n) i hrun with hsilent | ⟨v, -, hcounted⟩
      · rw [hsilent.count, hsilent.recvs, hprepared]
      · rw [hcounted.count, hcounted.recvs, ← hprepared]
        exact Nat.add_right_comm _ _ _

/-- **The counter of a board** is the number of messages received from it since the last check. -/
theorem connCtr_serverAt (hstart : startUp start = some s₀) (i : Fin 4) (n : ℕ) :
    (serverAt parse cfg s₀ inp n).connCtr i = sinceCheck parse cfg s₀ inp i n :=
  Nat.eq_sub_of_add_eq (connCtr_add_serverAt hstart i n)

/-- **Why a board is disconnected.** In any run, when the bit of a board is cleared in an iteration,
the boards were checked and fewer messages than `MIN_MSGS` had been received from it since the last
check; or something was received from it: an error, or no record when it had answered before. -/
theorem disconnected (hstart : startUp start = some s₀) {n : ℕ}
    (hup : (serverAt parse cfg s₀ inp n).connBoards i = true)
    (hdown : (serverAt parse cfg s₀ inp (n + 1)).connBoards i = false) :
    ((serverAt parse cfg s₀ inp n).Checks (inp n) ∧
        (sinceCheck parse cfg s₀ inp i n : ℤ) < cfg.minMsgs) ∨
      ((serverAt parse cfg s₀ inp (n + 1)).recvs i =
          (serverAt parse cfg s₀ inp n).recvs i + 1 ∧
        (((inp n).board i).recv = none ∨
          ∃ bs, ((inp n).board i).recv.map (List.take ethFrameLen) = some bs ∧ NotRecord bs ∧
            (((serverAt parse cfg s₀ inp n).prepare cfg (inp n)).nano i).init = false)) := by
  rw [serverAt_succ] at hdown ⊢
  rw [← connCtr_serverAt hstart i n]
  set s := serverAt parse cfg s₀ inp n
  have hrun : s.run = true := by
    by_contra hstopped
    rw [loopStep_of_stopped (Bool.eq_false_iff.mpr hstopped), hup] at hdown
    exact Bool.false_ne_true hdown.symm
  obtain ⟨hbit, -, hreceived⟩ := prepare_spec cfg (inp n) i s
  rw [hup, Bool.true_and] at hbit
  by_cases hfew : s.connTimer < (inp n).tickTime → cfg.minMsgs ≤ s.connCtr i
  · right
    rw [decide_eq_true hfew] at hbit
    rcases loopStep_spec parse cfg (inp n) i hrun with hsilent | ⟨v, hheard, hcounted⟩
    · rw [hsilent.bit, hbit] at hdown
      exact absurd hdown.symm Bool.false_ne_true
    · refine ⟨hcounted.recvs.trans (congrArg (· + 1) hreceived), ?_⟩
      have hcleared := hcounted.bit.symm.trans hdown
      rw [hbit] at hcleared
      cases hheard with
      | failed hrecv => exact .inl hrecv
      | record => exact absurd hcleared.symm Bool.false_ne_true
      | greeted => exact absurd hcleared.symm Bool.false_ne_true
      | refused => exact absurd hcleared.symm Bool.false_ne_true
      | wrong hrecv hrecord hinit => exact .inr ⟨_, hrecv, hrecord, hinit⟩
  · rw [Classical.not_imp, not_le] at hfew
    exact .inl ⟨⟨hrun, hfew.1⟩, hfew.2⟩

/-- A board that is not connected and sends nothing stays so. -/
theorem connBoards_of_silent {m n : ℕ} (hmn : m ≤ n)
    (hsilent : (serverAt parse cfg s₀ inp n).recvs i =
      (serverAt parse cfg s₀ inp m).recvs i)
    (hdown : (serverAt parse cfg s₀ inp m).connBoards i = false) :
    (serverAt parse cfg s₀ inp n).connBoards i = false := by
  induction n, hmn using Nat.le_induction with
  | base => exact hdown
  | succ n hmn ih =>
    have hle := recvs_serverAt_mono parse cfg s₀ inp i
    have hquiet : (serverAt parse cfg s₀ inp n).recvs i =
        (serverAt parse cfg s₀ inp m).recvs i :=
      le_antisymm ((hle n.le_succ).trans_eq hsilent) (hle hmn)
    have hbit := ih hquiet
    rw [serverAt_succ] at hsilent ⊢
    set s := serverAt parse cfg s₀ inp n
    cases hrun : s.run with
    | false => rwa [loopStep_of_stopped hrun]
    | true =>
      obtain ⟨hprepared, -, hreceived⟩ := prepare_spec cfg (inp n) i s
      rcases loopStep_spec parse cfg (inp n) i hrun with hstill | ⟨v, -, hcounted⟩
      · rw [hstill.bit, hprepared, hbit, Bool.false_and]
      · have hmore := hcounted.recvs
        omega

/-- **A silent board is dropped.** In any run with a positive `MIN_MSGS`, a board from which nothing
is received while the boards are checked twice is not connected afterwards. -/
theorem silent_dropped (hstart : startUp start = some s₀) (hmin : 0 < cfg.minMsgs) {m k l n : ℕ}
    (hmk : m ≤ k) (hkl : k < l) (hln : l < n)
    (hk : (serverAt parse cfg s₀ inp k).Checks (inp k))
    (hl : (serverAt parse cfg s₀ inp l).Checks (inp l))
    (hsilent : (serverAt parse cfg s₀ inp n).recvs i =
      (serverAt parse cfg s₀ inp m).recvs i) :
    (serverAt parse cfg s₀ inp n).connBoards i = false := by
  have hle := recvs_serverAt_mono parse cfg s₀ inp i
  have hquiet : ∀ j, m ≤ j → j ≤ n → (serverAt parse cfg s₀ inp j).recvs i =
      (serverAt parse cfg s₀ inp m).recvs i := fun j hmj hjn =>
    le_antisymm ((hle hjn).trans_eq hsilent) (hle hmj)
  have hnone : (serverAt parse cfg s₀ inp l).connCtr i = 0 := by
    rw [connCtr_serverAt hstart, sinceCheck, hquiet l (by omega) hln.le,
      hquiet _ (hmk.trans (le_lastCheck hk hkl)) ((lastCheck_le l).trans hln.le), Nat.sub_self]
  have hdown : (serverAt parse cfg s₀ inp (l + 1)).connBoards i = false := by
    obtain ⟨hbit, -, hreceived⟩ := prepare_spec cfg (inp l) i (serverAt parse cfg s₀ inp l)
    have hfew : ¬((serverAt parse cfg s₀ inp l).connTimer < (inp l).tickTime →
        cfg.minMsgs ≤ ((serverAt parse cfg s₀ inp l).connCtr i : ℤ)) := by
      rw [hnone]
      exact fun h => absurd (h hl.2) (by exact_mod_cast hmin.not_ge)
    rw [decide_eq_false hfew, Bool.and_false] at hbit
    rcases loopStep_spec parse cfg (inp l) i hl.1 with hstill | ⟨v, -, hcounted⟩
    · exact hstill.bit.trans hbit
    · have hmore := hcounted.recvs
      have hbefore := hquiet l (by omega) hln.le
      have hafter := hquiet (l + 1) (by omega) hln
      rw [serverAt_succ] at hafter
      omega
  exact connBoards_of_silent hln (hsilent.trans (hquiet (l + 1) (by omega) hln).symm) hdown

/-- Nothing can be read, and the clock shows a later time in each iteration. -/
def nothing (n : ℕ) : LoopInput := { tickTime := n + 2, timerTime := n + 1 }

theorem silent_dropped_nothing :
    (serverAt replyDefault carserverCfg started nothing 2).connBoards 0 = false :=
  silent_dropped (m := 0) (k := 0) (l := 1) startUp_started (by decide) le_rfl Nat.zero_lt_one
    Nat.one_lt_two (by decide +kernel) (by decide +kernel) (by decide +kernel)

theorem disconnected_nothing :
    ((serverAt replyDefault carserverCfg started nothing 0).Checks (nothing 0) ∧
        (sinceCheck replyDefault carserverCfg started nothing 0 0 : ℤ) < carserverCfg.minMsgs) ∨
      ((serverAt replyDefault carserverCfg started nothing 1).recvs 0 =
          (serverAt replyDefault carserverCfg started nothing 0).recvs 0 + 1 ∧
        (((nothing 0).board 0).recv = none ∨
          ∃ bs, ((nothing 0).board 0).recv.map (List.take ethFrameLen) = some bs ∧ NotRecord bs ∧
            (((serverAt replyDefault carserverCfg started nothing 0).prepare carserverCfg
              (nothing 0)).nano 0).init = false)) :=
  disconnected startUp_started (by decide +kernel) (by decide +kernel)

end Runs

end LegoCar
