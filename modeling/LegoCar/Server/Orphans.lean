import Mathlib
import LegoCar.Lib.Sweep
import LegoCar.Server.Descriptors

/-!
# Orphaned descriptors

The server knows a descriptor by the variables that hold its number: `sd_dom_srv`, `sd_dom` and
the `sd` of each board. `NoOrphans` says of an iteration that every descriptor in the set of
`select` is held by one of them, and that no assignment takes the last variable away from a
descriptor that stays open.

Two assignments do: a client that is accepted while another one is connected replaces it in
`sd_dom`, and a board that is due for a new attempt gets a new socket also while its last one is
open, which it is when `connect` failed or the version string is still to come. In a run in which
neither happens (`AssignOk`) there are no orphans (`noOrphans`). The invariant of such runs is that
every descriptor is held by the variable that belongs to its owner, and that those in the set of
`select` are open.
-/

namespace LegoCar

open Posix

namespace Server

/-! ### References -/

/-- A variable of the server holds the number of the descriptor. -/
def Referenced (fd : ℤ) (s : Server) : Prop :=
  fd = s.sdDomSrv ∨ fd = s.sdDom ∨ ∃ i, fd = (s.nano i).sd

instance (fd : ℤ) (s : Server) : Decidable (s.Referenced fd) :=
  inferInstanceAs (Decidable (_ ∨ _))

/-- Between two states, no descriptor loses its last reference unless it is closed. -/
def KeepsReferences (s s' : Server) : Prop :=
  ∀ fd, s.fds.owner fd ≠ none → s.Referenced fd → s'.Referenced fd ∨ s'.fds.owner fd = none

/-- The state in which board `i` is visited by the loop that reconnects the boards. -/
def beforeRetry (cfg : ServerConfig) (inp : LoopInput) (i : Fin 4) (s : Server) : Server :=
  ((List.finRange 4).take i).foldl (fun s i => s.reconnect inp i) ((s.handleCar cfg).tick cfg inp)

/-- The state after `select`, with the set it leaves behind, unless it was interrupted. -/
def afterSelect (inp : LoopInput) (s : Server) : Option (Server × Finset ℤ) :=
  match s.select inp with
  | .interrupted => none
  | .failed => some (s.stop, s.rfds)
  | .ready rfd => some (s, rfd)

/-- **No orphans** in an iteration: each visit that may assign the `sd` of a board, the acceptance
of a client and the exchange with it keep the references, and every descriptor in the set of
`select` is referenced. -/
structure NoOrphans (parse : ParseCommand) (cfg : ServerConfig) (inp : LoopInput) (s : Server) :
    Prop where
  retry : ∀ i, KeepsReferences (s.beforeRetry cfg inp i) ((s.beforeRetry cfg inp i).reconnect inp i)
  selected : ∀ fd ∈ (s.prepare cfg inp).rfds, (s.prepare cfg inp).Referenced fd
  accept : ∀ p ∈ (s.prepare cfg inp).afterSelect inp,
    KeepsReferences p.1 (p.1.acceptClient inp p.2)
  client : ∀ p ∈ (s.prepare cfg inp).afterSelect inp,
    KeepsReferences (p.1.acceptClient inp p.2)
      ((p.1.acceptClient inp p.2).serveClient parse inp p.2).1

/-- **What the assignments of an iteration need.** After the check of the messages, a board that is
due for a new attempt has no open connection; and no client is accepted while the descriptor of
another one is open. -/
structure AssignOk (cfg : ServerConfig) (inp : LoopInput) (s : Server) : Prop where
  retry : ∀ i, ((s.handleCar cfg).tick cfg inp).RetryDue inp i →
    ¬((s.handleCar cfg).tick cfg inp).Live i
  accept : ∀ p ∈ (s.prepare cfg inp).afterSelect inp,
    p.1.sdDomSrv ∈ p.2 → p.1.fds.owner p.1.sdDom ≠ some .client

variable {parse : ParseCommand} {cfg : ServerConfig} {inp : LoopInput} {i j : Fin 4}
  {s s' s'' : Server} {fd : ℤ} {w : Owner}

/-! ### The invariant -/

/-- The variable that belongs to an owner holds the descriptor. -/
def HolderOk (w : Owner) (fd : ℤ) (s : Server) : Prop :=
  match w with
  | .other => ¬s.Referenced fd
  | .listener => s.sdDomSrv = fd
  | .client => s.sdDom = fd
  | .board i => (s.nano i).sd = fd

/-- Every open descriptor is held by the variable that belongs to its owner. -/
def Held (s : Server) : Prop := ∀ fd w, s.fds.owner fd = some w → s.HolderOk w fd

/-- The descriptors in the set of `select` are open, and none is a standard descriptor. -/
def SelectedOpen (s : Server) : Prop := ∀ fd ∈ s.rfds, ∃ w, s.fds.owner fd = some w ∧ w ≠ .other

/-- The invariant: every descriptor is held, and while the server runs, the selected ones are
open. -/
structure Holding (s : Server) : Prop where
  held : s.Held
  selected : s.run = true → s.SelectedOpen

theorem HolderOk.referenced (h : s.HolderOk w fd) (hw : w ≠ .other) : s.Referenced fd := by
  cases w with
  | other => exact absurd rfl hw
  | listener => exact Or.inl h.symm
  | client => exact Or.inr (Or.inl h.symm)
  | board i => exact Or.inr (Or.inr ⟨i, h.symm⟩)

/-- Where every descriptor is held before and after, no reference is lost. -/
theorem keepsReferences_of_held (h : s.Held) (h' : s'.Held)
    (hother : ∀ fd, s'.fds.owner fd = some .other → s.fds.owner fd = some .other) :
    KeepsReferences s s' := by
  intro fd _ href
  cases hown : s'.fds.owner fd with
  | none => exact Or.inr rfl
  | some w =>
    refine Or.inl ((h' fd w hown).referenced ?_)
    rintro rfl
    exact h fd .other (hother fd hown) href

/-- The variables that hold descriptors are the same. -/
structure SameVariables (s s' : Server) : Prop where
  sdDomSrv : s'.sdDomSrv = s.sdDomSrv
  sdDom : s'.sdDom = s.sdDom
  sd : ∀ i, (s'.nano i).sd = (s.nano i).sd

theorem SameVariables.trans (h : SameVariables s s') (h' : SameVariables s' s'') :
    SameVariables s s'' :=
  ⟨h'.sdDomSrv.trans h.sdDomSrv, h'.sdDom.trans h.sdDom, fun i => (h'.sd i).trans (h.sd i)⟩

theorem SameVariables.holderOk (h : SameVariables s s') :
    s'.HolderOk w fd ↔ s.HolderOk w fd := by
  cases w with
  | other =>
    simp only [HolderOk, Referenced, h.sdDomSrv, h.sdDom, h.sd]
  | listener => exact Eq.congr_left h.sdDomSrv
  | client => exact Eq.congr_left h.sdDom
  | board i => exact Eq.congr_left (h.sd i)

/-- What a step does that assigns no descriptor: it closes some, which it takes out of the set of
`select`, unless the server stops. -/
structure Sheds (s s' : Server) : Prop where
  same : SameVariables s s'
  owner : ∀ fd, s'.fds.owner fd = s.fds.owner fd ∨ s'.fds.owner fd = none
  run : s'.run = true → s.run = true
  rfds : s'.run = true → ∀ fd ∈ s'.rfds, fd ∈ s.rfds ∧ s'.fds.owner fd = s.fds.owner fd

theorem Sheds.refl (s : Server) : Sheds s s :=
  ⟨⟨rfl, rfl, fun _ => rfl⟩, fun _ => Or.inl rfl, id, fun _ _ hfd => ⟨hfd, rfl⟩⟩

theorem Sheds.trans (h : Sheds s s') (h' : Sheds s' s'') : Sheds s s'' := by
  refine ⟨h.same.trans h'.same, fun fd => ?_, fun hrun => h.run (h'.run hrun),
    fun hrun fd hfd => ?_⟩
  · rcases h'.owner fd with heq | hnone
    · rw [heq]
      exact h.owner fd
    · exact Or.inr hnone
  · obtain ⟨hmem, heq⟩ := h'.rfds hrun fd hfd
    obtain ⟨hmem', heq'⟩ := h.rfds (h'.run hrun) fd hmem
    exact ⟨hmem', heq.trans heq'⟩

theorem Sheds.held (h : Sheds s s') (hs : s.Held) : s'.Held := by
  intro fd w hown
  rcases h.owner fd with heq | hnone
  · exact h.same.holderOk.mpr (hs fd w (heq ▸ hown))
  · rw [hnone] at hown
    exact absurd hown (by simp)

theorem Sheds.holding (h : Sheds s s') (hs : s.Holding) : s'.Holding := by
  refine ⟨h.held hs.held, fun hrun fd hfd => ?_⟩
  obtain ⟨hmem, heq⟩ := h.rfds hrun fd hfd
  rw [heq]
  exact hs.selected (h.run hrun) fd hmem

/-! ### The steps that assign no descriptor -/

/-- `FD_CLR` followed by `close`. -/
theorem clr_close_sheds (who : Owner) (fd : ℤ) (s : Server) :
    Sheds s ((s.fdClr who fd).closeSd who fd) := by
  refine ⟨⟨rfl, rfl, fun _ => rfl⟩, fun fd' => ?_, id, fun _ fd' hfd' => ?_⟩
  · obtain rfl | hne := eq_or_ne fd' fd
    · exact Or.inr FdTable.owner_closeFd_self
    · exact Or.inl (FdTable.owner_closeFd_of_ne hne)
  · obtain ⟨hne, hmem⟩ := Finset.mem_erase.mp hfd'
    exact ⟨hmem, FdTable.owner_closeFd_of_ne hne⟩

/-- A step that changes neither descriptors nor the set of `select`. -/
theorem sheds_of_memory (hsame : SameVariables s s') (hfds : s'.fds = s.fds)
    (hrfds : s'.rfds = s.rfds) (hrun : s'.run = true → s.run = true) : Sheds s s' := by
  refine ⟨hsame, fun fd => Or.inl (by rw [hfds]), hrun, fun _ fd hfd => ⟨hrfds ▸ hfd, ?_⟩⟩
  rw [hfds]

theorem updateNano_sheds {f : NanoBoard → NanoBoard} (hf : ∀ b, (f b).sd = b.sd) (i : Fin 4)
    (s : Server) : Sheds s (s.updateNano i f) := by
  refine sheds_of_memory ⟨rfl, rfl, fun j => ?_⟩ rfl rfl id
  obtain rfl | hne := eq_or_ne j i
  · rw [nano_updateNano_self, hf]
  · rw [nano_updateNano_of_ne hne]

/-- Only the buffer, the counters, the bits or the histories change. -/
theorem sheds_of_same (h : s'.nano = s.nano ∧ s'.sdDomSrv = s.sdDomSrv ∧ s'.sdDom = s.sdDom ∧
    s'.fds = s.fds ∧ s'.rfds = s.rfds ∧ s'.run = s.run) : Sheds s s' := by
  obtain ⟨hnano, hsrv, hdom, hfds, hrfds, hrun⟩ := h
  exact sheds_of_memory ⟨hsrv, hdom, fun i => by rw [hnano]⟩ hfds hrfds fun h => hrun ▸ h

theorem checkMessages_sheds (cfg : ServerConfig) (i : Fin 4) (s : Server) :
    Sheds s (s.checkMessages cfg i) := by
  have hcount : ∀ t : Server, Sheds t { t with connCtr := Function.update t.connCtr i 0 } :=
    fun t => sheds_of_same ⟨rfl, rfl, rfl, rfl, rfl, rfl⟩
  have hbit : Sheds s (s.setBit i false) := sheds_of_same ⟨rfl, rfl, rfl, rfl, rfl, rfl⟩
  exact checkMessages_cases (hbit.trans (clr_close_sheds _ _ _)) (Sheds.refl s)
    fun t ht => ht.trans (hcount t)

theorem handleCar_sheds (cfg : ServerConfig) (s : Server) : Sheds s (s.handleCar cfg) :=
  sheds_of_memory ⟨rfl, rfl, fun _ => rfl⟩ rfl rfl id

theorem tick_sheds (cfg : ServerConfig) (inp : LoopInput) (s : Server) :
    Sheds s (s.tick cfg inp) := by
  have htimer : ∀ t : Server, Sheds t { t with connTimer := inp.timerTime } :=
    fun t => sheds_of_same ⟨rfl, rfl, rfl, rfl, rfl, rfl⟩
  exact tick_invariant (fun t i ht => ht.trans (checkMessages_sheds cfg i t))
    (fun t ht => ht.trans (htimer t)) (Sheds.refl s)

theorem stop_sheds (s : Server) : Sheds s s.stop :=
  sheds_of_memory ⟨rfl, rfl, fun _ => rfl⟩ rfl rfl fun h => absurd h Bool.false_ne_true

theorem fill_sheds (bs : List UInt8) (s : Server) : Sheds s (s.fill bs) :=
  sheds_of_same ⟨rfl, rfl, rfl, rfl, rfl, rfl⟩

/-- A frame that cannot be sent closes the descriptor of the board, and stops the server. -/
theorem sendIndat_sheds (send : Bool) (i : Fin 4) (s : Server) : Sheds s (s.sendIndat send i) := by
  cases send with
  | true =>
    exact sheds_of_same ⟨rfl, rfl, rfl, rfl, rfl, rfl⟩
  | false =>
    refine ⟨⟨rfl, rfl, fun _ => rfl⟩, fun fd => ?_, fun h => absurd h Bool.false_ne_true,
      fun h => absurd h Bool.false_ne_true⟩
    obtain rfl | hne := eq_or_ne fd (s.nano i).sd
    · exact Or.inr FdTable.owner_closeFd_self
    · exact Or.inl (FdTable.owner_closeFd_of_ne hne)

theorem handshake_sheds (cfg : ServerConfig) (send : Bool) (bs : List UInt8) (i : Fin 4)
    (s : Server) : Sheds s (s.handshake cfg send bs i) := by
  have hgreet : Sheds s (s.greet bs i) :=
    (updateNano_sheds (f := fun b => { b with init := false }) (fun _ => rfl) i s).trans
      (fill_sheds _ _)
  have haccept : Sheds (s.greet bs i) ((s.greet bs i).accept i) :=
    sheds_of_same ⟨rfl, rfl, rfl, rfl, rfl, rfl⟩
  refine handshake_cases (hgreet.trans ?_)
    ((hgreet.trans (stop_sheds _)).trans (sendIndat_sheds send i _))
    ((hgreet.trans haccept).trans (sendIndat_sheds send i _))
  exact updateNano_sheds (f := fun b => { b with init := true }) (fun _ => rfl) i _

theorem wrongData_sheds (i : Fin 4) (s : Server) : Sheds s (s.wrongData i) := by
  have hbit : ∀ t : Server, Sheds t (t.setBit i false) :=
    fun t => sheds_of_same ⟨rfl, rfl, rfl, rfl, rfl, rfl⟩
  have hclosed := ((clr_close_sheds (.board i) (s.nano i).sd s).trans (hbit _)).trans
    (clr_close_sheds (.board i) (s.nano i).sd _)
  exact wrongData_cases hclosed (hclosed.trans (stop_sheds _))

theorem message_sheds (cfg : ServerConfig) (send : Bool) (bs : List UInt8) (i : Fin 4)
    (s : Server) : Sheds s (s.message cfg send bs i) := by
  by_cases hrecord : NotRecord bs
  · cases hinit : (s.nano i).init with
    | true =>
      rw [message_handshake hrecord hinit]
      exact (fill_sheds bs s).trans (handshake_sheds cfg send bs i _)
    | false =>
      rw [message_wrongData hrecord hinit]
      exact (fill_sheds bs s).trans (wrongData_sheds i _)
  · have hstore : Sheds (s.fill bs) ((s.fill bs).storeOutdat bs i) :=
      (updateNano_sheds (f := fun b => { b with outdat := Outdata.ofSerial (bs.drop 1) })
        (fun _ => rfl) i _).trans (sheds_of_same ⟨rfl, rfl, rfl, rfl, rfl, rfl⟩)
    rw [message_record hrecord]
    exact ((fill_sheds bs s).trans hstore).trans (sendIndat_sheds send i _)

theorem readBoard_sheds (cfg : ServerConfig) (io : BoardIO) (rfd : Finset ℤ) (i : Fin 4)
    (s : Server) : Sheds s (s.readBoard cfg io rfd i) := by
  have hset : Sheds s (s.isSet i) := sheds_of_same ⟨rfl, rfl, rfl, rfl, rfl, rfl⟩
  have hreceive : Sheds s ((s.isSet i).receive i) :=
    hset.trans (sheds_of_same ⟨rfl, rfl, rfl, rfl, rfl, rfl⟩)
  by_cases hready : (s.nano i).sd ∈ rfd
  · rw [readBoard_of_ready hready]
    cases io.recv.map (List.take ethFrameLen) with
    | none =>
      have hbit : ∀ t : Server, Sheds t (t.setBit i false) :=
        fun t => sheds_of_same ⟨rfl, rfl, rfl, rfl, rfl, rfl⟩
      exact (hreceive.trans (hbit _)).trans (clr_close_sheds _ _ _)
    | some bs => exact hreceive.trans (message_sheds cfg io.send bs i _)
  · rw [readBoard_of_not_ready hready]
    exact hset

/-! ### Reconnecting -/

/-- The socket of board `i` becomes `fd`, and the other variables stay. -/
structure Reassigns (i : Fin 4) (fd : ℤ) (s s' : Server) : Prop where
  sdDomSrv : s'.sdDomSrv = s.sdDomSrv
  sdDom : s'.sdDom = s.sdDom
  self : (s'.nano i).sd = fd
  others : ∀ j ≠ i, (s'.nano j).sd = (s.nano j).sd

theorem setSocket_reassigns (i : Fin 4) (fd : ℤ) (s : Server) :
    Reassigns i fd s (s.setSocket i fd) := by
  have hself : (s.setSocket i fd).nano i = { s.nano i with sd := fd } := Function.update_self _ _ _
  have hothers : ∀ j ≠ i, (s.setSocket i fd).nano j = s.nano j :=
    fun j hij => Function.update_of_ne hij _ _
  exact ⟨rfl, rfl, congrArg NanoBoard.sd hself, fun j hij => congrArg NanoBoard.sd (hothers j hij)⟩

/-- A board that has no open connection can be given a new descriptor, or none. -/
theorem Reassigns.held (h : Reassigns i fd s s') (hs : s.Held) (hlive : ¬s.Live i)
    (hnew : ∀ w, s'.fds.owner fd = some w → w = .board i)
    (hold : ∀ fd' ≠ fd, s'.fds.owner fd' = s.fds.owner fd') : s'.Held := by
  intro fd' w hown
  obtain rfl | hne := eq_or_ne fd' fd
  · obtain rfl := hnew w hown
    exact h.self
  · rw [hold fd' hne] at hown
    have hheld := hs fd' w hown
    cases w with
    | other =>
      rintro (hsrv | hdom | ⟨j, hj⟩)
      · exact hheld (Or.inl (hsrv.trans h.sdDomSrv))
      · exact hheld (Or.inr (Or.inl (hdom.trans h.sdDom)))
      · obtain rfl | hij := eq_or_ne j i
        · exact hne (hj.trans h.self)
        · exact hheld (Or.inr (Or.inr ⟨j, hj.trans (h.others j hij)⟩))
    | listener => exact h.sdDomSrv.trans hheld
    | client => exact h.sdDom.trans hheld
    | board j =>
      obtain rfl | hij := eq_or_ne j i
      · have hsd : (s.nano j).sd = fd' := hheld
        rw [← hsd] at hown
        exact absurd hown hlive
      · exact (h.others j hij).trans hheld

theorem held_openBoard (hs : s.Held) (hlive : ¬s.Live i) : (s.openBoard i).Held := by
  have h : Reassigns i s.fds.lowest s (s.openBoard i) := by
    obtain ⟨hsrv, hdom, hself, hothers⟩ :=
      setSocket_reassigns i s.fds.lowest { s with fds := s.fds.openFd (.board i) }
    exact ⟨hsrv, hdom, hself, hothers⟩
  refine h.held hs hlive (fun w hown => ?_) fun fd hne => FdTable.owner_openFd_of_ne hne
  have hself : (s.openBoard i).fds.owner s.fds.lowest = some (.board i) :=
    FdTable.owner_openFd_self
  rw [hself] at hown
  exact (Option.some.inj hown).symm

theorem held_setSocket (hs : s.Held) (hlive : ¬s.Live i) : (s.setSocket i (-1)).Held := by
  refine (setSocket_reassigns i (-1) s).held hs hlive (fun w hown => ?_) fun _ _ => rfl
  rw [FdTable.owner_of_neg (by decide)] at hown
  exact absurd hown (by simp)

theorem selectedOpen_openFd (h : s.SelectedOpen) (hfds : s'.fds = s.fds.openFd w)
    (hrfds : s'.rfds = s.rfds) : s'.SelectedOpen := by
  intro fd hfd
  rw [hrfds] at hfd
  obtain ⟨w', hw', hne⟩ := h fd hfd
  rw [hfds]
  exact ⟨w', FdTable.owner_openFd_of_owner hw', hne⟩

/-- What an attempt to reconnect a board changes in the table of descriptors, and what it
keeps. -/
theorem tryConnect_holding (attempt : Attempt) (hs : s.Held) (hopen : s.SelectedOpen)
    (hlive : ¬s.Live i) :
    (s.tryConnect attempt i).Held ∧ (s.tryConnect attempt i).SelectedOpen := by
  have hheld := held_openBoard hs hlive
  have hselected : (s.openBoard i).SelectedOpen := selectedOpen_openFd hopen rfl rfl
  have hsd := sd_openBoard i s
  cases attempt with
  | socketFailed => exact ⟨held_setSocket hs hlive, hopen⟩
  | connectFailed => exact ⟨hheld, hselected⟩
  | sendFailed =>
    -- the new descriptor, which was not selected, is closed again
    have hclosed : (s.tryConnect .sendFailed i).fds =
        (s.openBoard i).fds.closeFd ((s.openBoard i).nano i).sd := rfl
    have hsame : SameVariables (s.openBoard i) (s.tryConnect .sendFailed i) :=
      ⟨rfl, rfl, fun _ => rfl⟩
    refine ⟨fun fd w hown => ?_, fun fd hfd => ?_⟩
    · rw [hclosed] at hown
      exact hsame.holderOk.mpr (hheld fd w (FdTable.owner_of_closeFd hown))
    · have hfd' : fd ∈ s.rfds := hfd
      obtain ⟨w, hw, -⟩ := hopen fd hfd'
      have hne : fd ≠ ((s.openBoard i).nano i).sd := by
        rw [hsd]
        exact FdTable.ne_lowest_of_owner hw
      rw [hclosed, FdTable.owner_closeFd_of_ne hne]
      exact hselected fd hfd
  | connected =>
    have hsame : SameVariables (s.openBoard i) (s.tryConnect .connected i) :=
      ⟨rfl, rfl, (updateNano_sheds (f := fun b => { b with init := true }) (fun _ => rfl) i
        ((s.openBoard i).fill [tagI])).same.sd⟩
    refine ⟨fun fd w hown => hsame.holderOk.mpr (hheld fd w hown), fun fd hfd => ?_⟩
    obtain rfl | hmem := Finset.mem_insert.mp hfd
    · refine ⟨.board i, ?_, Owner.noConfusion⟩
      exact (congrArg (s.openBoard i).fds.owner hsd).trans FdTable.owner_openFd_self
    · exact hselected fd hmem

/-- An attempt to reconnect a board opens nothing for another one. -/
theorem owner_of_tryConnect {attempt : Attempt} (hw : w ≠ .board i)
    (h : (s.tryConnect attempt i).fds.owner fd = some w) : s.fds.owner fd = some w := by
  cases attempt with
  | socketFailed => exact h
  | connectFailed => exact FdTable.owner_of_openFd h hw
  | sendFailed => exact FdTable.owner_of_openFd (FdTable.owner_of_closeFd h) hw
  | connected => exact FdTable.owner_of_openFd h hw

theorem owner_of_reconnect (hw : w ≠ .board i) (h : (s.reconnect inp i).fds.owner fd = some w) :
    s.fds.owner fd = some w := by
  unfold reconnect at h
  split_ifs at h
  · exact owner_of_tryConnect
      (s := s.updateNano i fun b => { b with lastConnAttempt := inp.retryTime i }) hw h
  · exact h

/-- What the visit of a board needs that may reconnect it. -/
def RetryOk (inp : LoopInput) (i : Fin 4) (s : Server) : Prop := s.RetryDue inp i → ¬s.Live i

theorem reconnect_holding (hs : s.Held ∧ s.SelectedOpen) (hok : s.RetryOk inp i) :
    (s.reconnect inp i).Held ∧ (s.reconnect inp i).SelectedOpen := by
  unfold reconnect
  split_ifs with hdue
  · have hsheds : Sheds s (s.updateNano i fun b => { b with lastConnAttempt := inp.retryTime i }) :=
      updateNano_sheds (f := fun b => { b with lastConnAttempt := inp.retryTime i })
        (fun _ => rfl) i s
    refine tryConnect_holding _ (hsheds.held hs.1) hs.2 fun hlive => hok hdue ?_
    have hsd := hsheds.same.sd i
    rw [Live, hsd] at hlive
    exact hlive
  · exact hs

theorem tryConnect_others (attempt : Attempt) (hij : j ≠ i) (s : Server) :
    (s.tryConnect attempt i).nano j = s.nano j ∧
      (s.tryConnect attempt i).connBoards = s.connBoards := by
  have hopen : (s.openBoard i).nano j = s.nano j := Function.update_of_ne hij _ _
  cases attempt with
  | socketFailed => exact ⟨Function.update_of_ne hij _ _, rfl⟩
  | connectFailed => exact ⟨hopen, rfl⟩
  | sendFailed => exact ⟨hopen, rfl⟩
  | connected => exact ⟨(Function.update_of_ne hij _ _).trans hopen, rfl⟩

/-- The visit of a board leaves the others alone. -/
theorem retryOk_reconnect (hij : i ≠ j) (hok : s.RetryOk inp j) :
    (s.reconnect inp i).RetryOk inp j := by
  intro hdue hlive
  obtain ⟨hnano, hbits⟩ : (s.reconnect inp i).nano j = s.nano j ∧
      (s.reconnect inp i).connBoards = s.connBoards := by
    unfold reconnect
    split_ifs
    · obtain ⟨hnano, hbits⟩ := tryConnect_others (inp.attempt i) hij.symm
        (s.updateNano i fun b => { b with lastConnAttempt := inp.retryTime i })
      exact ⟨hnano.trans (nano_updateNano_of_ne hij.symm _ _), hbits⟩
    · exact ⟨rfl, rfl⟩
  rw [RetryDue, hnano, hbits] at hdue
  rw [Live, hnano] at hlive
  exact hok hdue (owner_of_reconnect (by simpa using hij.symm) hlive)

/-- In a loop over boards that can be reconnected, every descriptor stays held. -/
theorem retries_holding {l : List (Fin 4)} (hl : l.Nodup) (hs : s.Held ∧ s.SelectedOpen)
    (hok : ∀ i ∈ l, s.RetryOk inp i) :
    (l.foldl (fun s i => s.reconnect inp i) s).Held ∧
      (l.foldl (fun s i => s.reconnect inp i) s).SelectedOpen :=
  Sweep.foldl_invariant_of (I := fun s : Server => s.Held ∧ s.SelectedOpen)
    (C := fun i s => s.RetryOk inp i) (fun _ _ => reconnect_holding)
    (fun _ _ _ hij _ _ => retryOk_reconnect hij) hl hs hok

/-! ### The client -/

/-- Where no client is connected, `sd_dom` can become a new descriptor, or none. -/
theorem held_of_sdDom (hs : s.Held) (hclient : ∀ fd, s.fds.owner fd ≠ some .client)
    (hsrv : s'.sdDomSrv = s.sdDomSrv) (hnano : s'.nano = s.nano)
    (hnew : ∀ w, s'.fds.owner s'.sdDom = some w → w = .client)
    (hold : ∀ fd ≠ s'.sdDom, s'.fds.owner fd = s.fds.owner fd) : s'.Held := by
  intro fd w hown
  obtain rfl | hne := eq_or_ne fd s'.sdDom
  · obtain rfl := hnew w hown
    exact rfl
  · rw [hold fd hne] at hown
    have hheld := hs fd w hown
    cases w with
    | other =>
      rintro (heq | heq | ⟨j, hj⟩)
      · exact hheld (Or.inl (heq.trans hsrv))
      · exact hne heq
      · exact hheld (Or.inr (Or.inr ⟨j, hnano ▸ hj⟩))
    | listener => exact hsrv.trans hheld
    | client => exact absurd hown (hclient fd)
    | board j =>
      have hsd : (s.nano j).sd = fd := hheld
      rw [← hnano] at hsd
      exact hsd

/-- What the acceptance of a client needs. -/
def AcceptOk (rfd : Finset ℤ) (s : Server) : Prop :=
  s.sdDomSrv ∈ rfd → s.fds.owner s.sdDom ≠ some .client

theorem acceptClient_holding (inp : LoopInput) {rfd : Finset ℤ} (hs : s.Holding)
    (hok : s.AcceptOk rfd) :
    (s.acceptClient inp rfd).Holding := by
  unfold acceptClient
  split_ifs with hready haccept
  · have hclient : ∀ fd, s.fds.owner fd ≠ some .client := by
      intro fd hown
      have hsd : s.sdDom = fd := hs.held fd .client hown
      exact hok hready (hsd ▸ hown)
    refine ⟨held_of_sdDom hs.held hclient rfl rfl (fun w hown => ?_)
      fun fd hne => FdTable.owner_openFd_of_ne hne, fun hrun fd hfd => ?_⟩
    · exact (Option.some.inj (FdTable.owner_openFd_self.symm.trans hown)).symm
    · obtain rfl | hmem := Finset.mem_insert.mp hfd
      · exact ⟨.client, FdTable.owner_openFd_self, Owner.noConfusion⟩
      · obtain ⟨w, hw, hne⟩ := hs.selected hrun fd hmem
        exact ⟨w, FdTable.owner_openFd_of_owner hw, hne⟩
  · have hclient : ∀ fd, s.fds.owner fd ≠ some .client := by
      intro fd hown
      have hsd : s.sdDom = fd := hs.held fd .client hown
      exact hok hready (hsd ▸ hown)
    refine ⟨held_of_sdDom hs.held hclient rfl rfl (fun w hown => ?_) fun _ _ => rfl,
      fun hrun => absurd hrun Bool.false_ne_true⟩
    have hnone : s.fds.owner (-1) = none := FdTable.owner_of_neg (by decide)
    exact absurd (hnone.symm.trans hown) (by simp)
  · exact hs

theorem owner_of_acceptClient {rfd : Finset ℤ} (hw : w ≠ .client)
    (h : (s.acceptClient inp rfd).fds.owner fd = some w) : s.fds.owner fd = some w := by
  unfold acceptClient at h
  split_ifs at h
  · exact FdTable.owner_of_openFd h hw
  · exact h
  · exact h

theorem dropClient_holding (hs : s.Holding) : s.dropClient.Holding := by
  have hclosed := (clr_close_sheds .client s.sdDom s).holding hs
  refine ⟨held_of_sdDom hclosed.held (fun fd hown => ?_) rfl rfl (fun w hown => ?_) fun _ _ => rfl,
    hclosed.selected⟩
  · -- the descriptor of the client was closed
    have hsd : s.sdDom = fd := hclosed.held fd .client hown
    have hnone : (s.fds.closeFd s.sdDom).owner s.sdDom = none := FdTable.owner_closeFd_self
    rw [hsd] at hnone
    exact absurd (hnone.symm.trans (hsd ▸ hown)) (by simp)
  · have hnone : (s.fds.closeFd s.sdDom).owner (-1) = none := FdTable.owner_of_neg (by decide)
    exact absurd (hnone.symm.trans hown) (by simp)

theorem note_holding {call : Call} {who : Owner} (hs : s.Holding) :
    (s.note call who fd).Holding := by
  have hsheds : Sheds s (s.note call who fd) := sheds_of_same ⟨rfl, rfl, rfl, rfl, rfl, rfl⟩
  exact hsheds.holding hs

theorem answer_holding {behind bs : List UInt8} (hs : s.Holding) :
    (s.answer parse behind bs).Holding := by
  have hsheds : Sheds s (s.answer parse behind bs) := sheds_of_same ⟨rfl, rfl, rfl, rfl, rfl, rfl⟩
  exact hsheds.holding hs

/-- Serving the client closes its descriptor at most. -/
theorem serveClient_holding (parse : ParseCommand) (inp : LoopInput) (rfd : Finset ℤ)
    (hs : s.Holding) :
    (s.serveClient parse inp rfd).1.Holding ∧
      ∀ fd w, (s.serveClient parse inp rfd).1.fds.owner fd = some w → s.fds.owner fd = some w := by
  have hdrop : ∀ t : Server, t.Holding → t.fds = s.fds → t.dropClient.Holding ∧
      ∀ fd w, t.dropClient.fds.owner fd = some w → s.fds.owner fd = some w := by
    intro t ht hfds
    refine ⟨dropClient_holding ht, fun fd w hown => ?_⟩
    rw [← hfds]
    exact FdTable.owner_of_closeFd hown
  have hkeep : ∀ t : Server, t.Holding → t.fds = s.fds → t.Holding ∧
      ∀ fd w, t.fds.owner fd = some w → s.fds.owner fd = some w := by
    intro t ht hfds
    exact ⟨ht, fun fd w hown => hfds ▸ hown⟩
  have hset : (s.note .fdIsset .client s.sdDom).Holding := note_holding hs
  have hrecv : s.readClient.Holding := note_holding hset
  have hcases := serveClient_cases parse inp rfd s
  generalize s.serveClient parse inp rfd = r at hcases ⊢
  cases hcases with
  | absent => exact hkeep _ hs rfl
  | silent => exact hkeep _ hset rfl
  | gone => exact hdrop _ hrecv rfl
  | answered => exact hkeep _ (answer_holding hrecv) rfl
  | unanswered => exact hdrop _ (answer_holding hrecv) rfl

/-! ### An iteration -/

theorem run_tick (cfg : ServerConfig) (inp : LoopInput) (s : Server) :
    (s.tick cfg inp).run = s.run := by
  have hcheck : ∀ (t : Server) (i : Fin 4), (t.checkMessages cfg i).run = t.run := fun t _ =>
    checkMessages_cases (P := fun u => u.run = t.run) rfl rfl fun _ hu => hu
  exact tick_invariant (I := fun t : Server => t.run = s.run)
    (fun t i ht => (hcheck t i).trans ht) (fun _ ht => ht) rfl

/-- The state before the loop that reconnects the boards. -/
theorem tick_holding (cfg : ServerConfig) (inp : LoopInput) (hs : s.Holding) (hrun : s.run = true) :
    ((s.handleCar cfg).tick cfg inp).Held ∧ ((s.handleCar cfg).tick cfg inp).SelectedOpen := by
  have htick := ((handleCar_sheds cfg s).trans (tick_sheds cfg inp _)).holding hs
  exact ⟨htick.held, htick.selected ((run_tick cfg inp _).trans hrun)⟩

/-- Every state of this loop. -/
theorem beforeRetry_holding (hs : s.Holding) (hrun : s.run = true) (hok : s.AssignOk cfg inp)
    (i : Fin 4) : (s.beforeRetry cfg inp i).Held ∧ (s.beforeRetry cfg inp i).SelectedOpen :=
  retries_holding ((List.take_sublist _ _).nodup (List.nodup_finRange 4))
    (tick_holding cfg inp hs hrun) fun j _ => hok.retry j

theorem prepare_holding (hs : s.Holding) (hrun : s.run = true) (hok : s.AssignOk cfg inp) :
    (s.prepare cfg inp).Held ∧ (s.prepare cfg inp).SelectedOpen :=
  retries_holding (List.nodup_finRange 4) (tick_holding cfg inp hs hrun) fun j _ => hok.retry j

/-- The condition of a board holds until it is visited. -/
theorem retryOk_beforeRetry (hok : s.AssignOk cfg inp) (i : Fin 4) :
    (s.beforeRetry cfg inp i).RetryOk inp i := by
  have hbefore : ∀ i : Fin 4, ∀ j ∈ (List.finRange 4).take i, j ≠ i := by decide
  exact Sweep.foldl_invariant_of (I := fun s : Server => s.RetryOk inp i) (C := fun j _ => j ≠ i)
    (fun _ _ hs hij => retryOk_reconnect hij hs) (fun _ _ _ _ _ _ hij => hij)
    ((List.take_sublist _ _).nodup (List.nodup_finRange 4)) (hok.retry i) (hbefore i)

theorem afterSelect_holding {p : Server × Finset ℤ} (hs : s.Held ∧ s.SelectedOpen)
    (hp : p ∈ s.afterSelect inp) : p.1.Holding := by
  have hs' : s.Holding := ⟨hs.1, fun _ => hs.2⟩
  unfold afterSelect at hp
  cases hsel : s.select inp with
  | interrupted =>
    rw [hsel] at hp
    exact absurd hp (by simp)
  | failed =>
    rw [hsel] at hp
    obtain rfl := Option.some.inj hp
    exact (stop_sheds s).holding hs'
  | ready rfd =>
    rw [hsel] at hp
    obtain rfl := Option.some.inj hp
    exact hs'

/-- An iteration in which no board is reconnected and no client accepted too early has no
orphans. -/
theorem Holding.keepsAll (parse : ParseCommand) (hs : s.Holding) (hrun : s.run = true)
    (hok : s.AssignOk cfg inp) : s.NoOrphans parse cfg inp := by
  have hprep := prepare_holding hs hrun hok
  refine ⟨fun i => ?_, fun fd hfd => ?_, fun p hp => ?_, fun p hp => ?_⟩
  · have hbefore := beforeRetry_holding hs hrun hok i
    exact keepsReferences_of_held hbefore.1
      (reconnect_holding hbefore (retryOk_beforeRetry hok i)).1
      fun fd => owner_of_reconnect Owner.noConfusion
  · obtain ⟨w, hown, hw⟩ := hprep.2 fd hfd
    exact (hprep.1 fd w hown).referenced hw
  · have hp' := afterSelect_holding hprep hp
    exact keepsReferences_of_held hp'.held (acceptClient_holding inp hp' (hok.accept p hp)).held
      fun fd => owner_of_acceptClient Owner.noConfusion
  · have haccept := acceptClient_holding inp (afterSelect_holding hprep hp) (hok.accept p hp)
    obtain ⟨hserve, howner⟩ := serveClient_holding parse inp p.2 haccept
    exact keepsReferences_of_held haccept.held hserve.held fun fd => howner fd .other

theorem handle_holding (parse : ParseCommand) {rfd : Finset ℤ} (hs : s.Holding)
    (hok : s.AcceptOk rfd) : (s.handle parse cfg inp rfd).Holding := by
  have hserve := (serveClient_holding parse inp rfd (acceptClient_holding inp hs hok)).1
  unfold handle
  dsimp only
  split_ifs
  · exact hserve
  · exact Sweep.foldl_invariant (I := Holding)
      (fun t i ht => (readBoard_sheds cfg (inp.board i) rfd i t).holding ht) (List.finRange 4)
      hserve

/-- **The step of a run.** -/
theorem loopStep_holding (parse : ParseCommand) (hs : s.Holding)
    (hok : s.run = true → s.AssignOk cfg inp) : (s.loopStep parse cfg inp).Holding := by
  by_cases hrun : s.run = true
  · have hprep := prepare_holding hs hrun (hok hrun)
    have haccept := (hok hrun).accept
    have hiterate : (s.iterate parse cfg inp).Holding := by
      have hholding : ∀ p ∈ (s.prepare cfg inp).afterSelect inp, p.1.Holding :=
        fun p hp => afterSelect_holding hprep hp
      unfold iterate
      dsimp only
      unfold afterSelect at haccept hholding
      cases hsel : (s.prepare cfg inp).select inp with
      | interrupted => exact ⟨hprep.1, fun _ => hprep.2⟩
      | failed =>
        rw [hsel] at haccept hholding
        exact handle_holding parse (hholding _ rfl) (haccept _ rfl)
      | ready rfd =>
        rw [hsel] at haccept hholding
        exact handle_holding parse (hholding _ rfl) (haccept _ rfl)
    have hsignal : Sheds (s.iterate parse cfg inp) (s.loopStep parse cfg inp) := by
      rw [loopStep, if_pos hrun]
      refine sheds_of_memory ⟨rfl, rfl, fun _ => rfl⟩ rfl rfl fun h => ?_
      exact (Bool.and_eq_true_iff.mp h).1
    exact hsignal.holding hiterate
  · have hstop : s.loopStep parse cfg inp = s := if_neg hrun
    rw [hstop]
    exact hs

/-! ### Start-up -/

/-- The boards of a list are still to be connected, and nothing is open but the standard
descriptors and the connections of the others. -/
structure ToConnect (l : List (Fin 4)) (s : Server) : Prop where
  connected : ∀ i ∉ l, s.Live i
  known : ∀ fd w, s.fds.owner fd = some w → w = .other ∨ ∃ i ∉ l, w = .board i ∧ (s.nano i).sd = fd
  selected : s.SelectedOpen
  sdDom : s.sdDom = -1

theorem toConnect_cons {l : List (Fin 4)} (h : BoardConnected i s s') (hs : s.ToConnect (i :: l))
    (hi : i ∉ l) : s'.ToConnect l := by
  have hself : s'.fds.owner s.fds.lowest = some (.board i) := by
    rw [h.fds]
    exact FdTable.owner_openFd_self
  refine ⟨fun j hj => ?_, fun fd w hown => ?_, fun fd hfd => ?_, h.sdDom.trans hs.sdDom⟩
  · obtain rfl | hij := eq_or_ne j i
    · rw [Live, h.sd, hself]
    · rw [Live, h.nano j hij, h.fds]
      exact FdTable.owner_openFd_of_owner
        (hs.connected j (List.not_mem_cons_of_ne_of_not_mem hij hj))
  · obtain rfl | hw := eq_or_ne w (.board i)
    · refine Or.inr ⟨i, hi, rfl, ?_⟩
      obtain rfl | hne := eq_or_ne fd s.fds.lowest
      · exact h.sd
      · rw [h.fds, FdTable.owner_openFd_of_ne hne] at hown
        rcases hs.known fd _ hown with hother | ⟨j, hj, heq, -⟩
        · exact absurd hother Owner.noConfusion
        · obtain rfl := Owner.board.inj heq
          exact absurd List.mem_cons_self hj
    · rw [h.fds] at hown
      refine (hs.known fd w (FdTable.owner_of_openFd hown hw)).imp_right ?_
      rintro ⟨j, hj, rfl, hsd⟩
      obtain ⟨hij, hj⟩ := not_or.mp (fun hmem => hj (List.mem_cons.mpr hmem))
      exact ⟨j, hj, rfl, by rw [h.nano j hij, hsd]⟩
  · rw [h.rfds] at hfd
    obtain rfl | hmem := Finset.mem_insert.mp hfd
    · exact ⟨_, hself, Owner.noConfusion⟩
    · obtain ⟨w, hw, hne⟩ := hs.selected fd hmem
      rw [h.fds]
      exact ⟨w, FdTable.owner_openFd_of_owner hw, hne⟩

theorem toConnect_foldlM {start : StartInput} {l : List (Fin 4)} (hl : l.Nodup)
    (h : l.foldlM (fun (s : Server) i => s.connectBoard (start.board i) i) s = some s')
    (hs : s.ToConnect l) : s'.ToConnect [] := by
  induction l generalizing s with
  | nil =>
    obtain rfl : s = s' := by simpa using h
    exact hs
  | cons i l ih =>
    obtain ⟨hi, hl⟩ := List.nodup_cons.mp hl
    rw [List.foldlM_cons, Option.bind_eq_bind, Option.bind_eq_some_iff] at h
    obtain ⟨t, ht, h⟩ := h
    exact ih hl h (toConnect_cons (connectBoard_spec ht) hs hi)

theorem startUp_holding {start : StartInput} {s₀ : Server} (h : startUp start = some s₀) :
    s₀.Holding := by
  obtain ⟨s, hboards, rfl⟩ := startUp_cases h
  have hinitial : (initial start.buffer).ToConnect (List.finRange 4) := by
    refine ⟨fun i hi => absurd (List.mem_finRange i) hi, fun fd w hown => Or.inl ?_,
      fun fd hfd => absurd hfd (Finset.notMem_empty fd), rfl⟩
    have hmem : some w ∈ [some Owner.other, some Owner.other, some Owner.other] :=
      FdTable.mem_slots_of_owner hown
    simpa using hmem
  have hs := toConnect_foldlM (List.nodup_finRange 4) hboards hinitial
  -- the listening socket is opened last
  have hother : ∀ fd, s.fds.owner fd = some .other → fd ≠ s.fds.lowest →
      ¬(fd = s.fds.lowest ∨ fd = s.sdDom ∨ ∃ i, fd = (s.nano i).sd) := by
    rintro fd hown hne (hlisten | hdom | ⟨i, hi⟩)
    · exact hne hlisten
    · rw [hdom, hs.sdDom, FdTable.owner_of_neg (by decide)] at hown
      exact absurd hown (by simp)
    · have hlive : s.fds.owner (s.nano i).sd = some (.board i) := hs.connected i List.not_mem_nil
      rw [hi, hlive] at hown
      exact Owner.noConfusion (Option.some.inj hown)
  refine ⟨fun fd w hown => ?_, fun _ fd hfd => ?_⟩
  · have hown' : (s.fds.openFd .listener).owner fd = some w := hown
    obtain rfl | hne := eq_or_ne fd s.fds.lowest
    · rw [FdTable.owner_openFd_self] at hown'
      obtain rfl := Option.some.inj hown'
      exact rfl
    · rw [FdTable.owner_openFd_of_ne hne] at hown'
      obtain rfl | ⟨i, -, rfl, hsd⟩ := hs.known fd w hown'
      · exact hother fd hown' hne
      · exact hsd
  · obtain rfl | hmem := Finset.mem_insert.mp hfd
    · exact ⟨.listener, FdTable.owner_openFd_self, Owner.noConfusion⟩
    · obtain ⟨w, hw, hne⟩ := hs.selected fd hmem
      exact ⟨w, FdTable.owner_openFd_of_owner hw, hne⟩

/-- The invariant of a run whose iterations meet their condition. -/
theorem holding_serverAt {start : StartInput} {inp : ℕ → LoopInput} {s₀ : Server}
    (h : startUp start = some s₀) (n : ℕ)
    (hok : ∀ k < n, (serverAt parse cfg s₀ inp k).run = true →
      (serverAt parse cfg s₀ inp k).AssignOk cfg (inp k)) :
    (serverAt parse cfg s₀ inp n).Holding := by
  induction n with
  | zero => exact startUp_holding h
  | succ n ih =>
    rw [serverAt_succ]
    exact loopStep_holding parse (ih fun k hk => hok k (by omega)) (hok n (by omega))

/-- **No orphaned descriptors.** In a run of the server from start-up in which no board is
reconnected while its connection is open, and no client is accepted while another one is connected,
no iteration has orphans. -/
theorem noOrphans (parse : ParseCommand) (cfg : ServerConfig) (start : StartInput)
    (inp : ℕ → LoopInput) (s₀ : Server) (h : startUp start = some s₀) (n : ℕ)
    (hok : ∀ k ≤ n, (serverAt parse cfg s₀ inp k).run = true →
      (serverAt parse cfg s₀ inp k).AssignOk cfg (inp k))
    (hrun : (serverAt parse cfg s₀ inp n).run = true) :
    (serverAt parse cfg s₀ inp n).NoOrphans parse cfg (inp n) :=
  (holding_serverAt h n fun k hk => hok k hk.le).keepsAll parse hrun (hok n le_rfl hrun)

/-- A client connects; then the boards, which have sent nothing, are disconnected and at once due
for a new attempt. -/
def clientThenRetry : ℕ → LoopInput
  | 0 => { select := .ready {7} }
  | _ + 1 => { tickTime := 5, timerTime := 5, retryTest := fun _ => 10, retryTime := fun _ => 10 }

theorem noOrphans_clientThenRetry :
    (serverAt replyDefault carserverCfg started clientThenRetry 1).NoOrphans replyDefault
      carserverCfg (clientThenRetry 1) := by
  refine noOrphans replyDefault carserverCfg {} clientThenRetry started startUp_started 1
    (fun k hk _ => ?_) (by decide +kernel)
  obtain rfl | rfl : k = 0 ∨ k = 1 := by omega
  · exact ⟨by decide +kernel, by decide +kernel⟩
  · exact ⟨by decide +kernel, by decide +kernel⟩

/-- Two clients connect, one after the other. -/
def twoClients : ℕ → LoopInput := fun _ => { select := .ready {7} }

/-- The second client replaces the first one, whose descriptor stays selected. -/
theorem noOrphans_fails : ¬∀ (start : StartInput) (inp : ℕ → LoopInput) (s₀ : Server) (n : ℕ),
    startUp start = some s₀ → (serverAt replyDefault carserverCfg s₀ inp n).run = true →
      (serverAt replyDefault carserverCfg s₀ inp n).NoOrphans replyDefault carserverCfg
        (inp n) := by
  intro hall
  have hselected := (hall {} twoClients started 2 startUp_started (by decide +kernel)).selected
  have hfirst : (8 : ℤ) ∈
      ((serverAt replyDefault carserverCfg started twoClients 2).prepare carserverCfg
        (twoClients 2)).rfds := by
    decide +kernel
  have hlost : ¬((serverAt replyDefault carserverCfg started twoClients 2).prepare carserverCfg
      (twoClients 2)).Referenced 8 := by
    decide +kernel
  exact hlost (hselected 8 hfirst)

end Server

end LegoCar
