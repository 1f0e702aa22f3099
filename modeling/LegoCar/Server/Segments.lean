import Mathlib
import LegoCar.Lib.Sweep
import LegoCar.Server.BoardVisit

/-!
# Where the stream of a board is cut

TCP may cut the bytes of a board anywhere, or join them. The server takes what one call of `recv`
returns for one message. `conn_loopStep` shows that the connections of the boards, as the server
keeps them, follow the machine `Conn` when nothing else disturbs the loop, and `segments_iff` that
the boards are connected at the end of their streams exactly when each call of `recv` returned one
message.
-/

namespace LegoCar

open Posix

namespace Server

/-- The descriptors that `select` reports. -/
def reported (inp : LoopInput) : Finset ℤ :=
  match inp.select with
  | .ready fds => fds
  | _ => ∅

/-- What `recv` returns for board `i`, if its descriptor is reported. -/
def received (inp : LoopInput) (i : Fin 4) (s : Server) : Option (List UInt8) :=
  readyMessage inp (reported inp) i s

/-- Nothing but messages happens in an iteration: no board is too slow, no attempt to reconnect is
due, no client comes or goes, and no call for a board fails. -/
@[mk_iff]
structure Undisturbed (cfg : ServerConfig) (inp : LoopInput) (s : Server) : Prop where
  check : s.connTimer < inp.tickTime → ∀ i, cfg.minMsgs ≤ s.connCtr i
  retry : ∀ i, ¬s.RetryDue inp i
  select : inp.select ≠ .failed
  accept : s.sdDomSrv ∉ reported inp
  client : ¬s.ClientDropped inp (reported inp)
  board : ∀ i, (inp.board i).recv ≠ none ∧ (inp.board i).send = true
  signal : inp.signal = false

instance (cfg : ServerConfig) (inp : LoopInput) (s : Server) : Decidable (s.Undisturbed cfg inp) :=
  decidable_of_iff _ (undisturbed_iff cfg inp s).symm

variable {cfg : ServerConfig} {inp : LoopInput} {rfd : Finset ℤ} {i j : Fin 4} {s s' : Server}
  {bs : List UInt8}

/-! ### Before `select` -/

/-- No board is too slow. -/
theorem tick_eq (h : s.connTimer < inp.tickTime → ∀ i, cfg.minMsgs ≤ s.connCtr i) :
    ∃ ctr timer, s.tick cfg inp = { s with connCtr := ctr, connTimer := timer } := by
  unfold tick
  split_ifs with hdue
  · have hloop : ∃ ctr, (List.finRange 4).foldl (fun s i => s.checkMessages cfg i) s =
        { s with connCtr := ctr } := by
      refine Sweep.foldl_invariant_of (I := fun t => ∃ ctr, t = { s with connCtr := ctr })
        (C := fun i t => cfg.minMsgs ≤ t.connCtr i) ?_ ?_ (List.nodup_finRange 4) ⟨_, rfl⟩
        fun i _ => h hdue i
      · rintro _ i ⟨ctr, rfl⟩ hi
        refine ⟨Function.update ctr i 0, ?_⟩
        unfold checkMessages
        dsimp only at hi ⊢
        rw [if_neg (not_lt.mpr hi)]
      · rintro t i j hij ⟨ctr, rfl⟩ hi hj
        rw [(checkMessages_eq cfg i _).2.2.1, Function.update_of_ne hij.symm]
        exact hj
    obtain ⟨ctr, hctr⟩ := hloop
    exact ⟨ctr, inp.timerTime, by rw [hctr]⟩
  · exact ⟨s.connCtr, s.connTimer, rfl⟩

theorem prepare_alike (hu : s.Undisturbed cfg inp) :
    Alike s (s.prepare cfg inp) ∧ (s.prepare cfg inp).sdDomSrv = s.sdDomSrv ∧
      (s.prepare cfg inp).sdDom = s.sdDom := by
  obtain ⟨ctr, timer, htick⟩ := tick_eq (s := s.handleCar cfg) hu.check
  -- no attempt to reconnect is due
  have hretry : (List.finRange 4).foldl (fun s i => s.reconnect inp i)
      { s.handleCar cfg with connCtr := ctr, connTimer := timer } =
      { s.handleCar cfg with connCtr := ctr, connTimer := timer } := by
    refine Sweep.foldl_invariant
      (I := (· = { s.handleCar cfg with connCtr := ctr, connTimer := timer })) ?_ _ rfl
    rintro _ i rfl
    exact if_neg (hu.retry i)
  rw [prepare, htick, hretry]
  exact ⟨⟨rfl, rfl, rfl, rfl, rfl, fun _ => rfl, fun _ => rfl, fun _ => rfl⟩, rfl, rfl⟩

/-! ### An iteration -/

/-- When no client comes or goes, `select` is followed by the loop over the boards. -/
theorem handle_eq (parse : ParseCommand) (cfg : ServerConfig) (inp : LoopInput)
    (hsrv : s.sdDomSrv ∉ rfd) (hclient : ¬s.ClientDropped inp rfd) :
    ∃ t, Alike s t ∧ s.handle parse cfg inp rfd =
      (List.finRange 4).foldl (fun s i => s.readBoard cfg (inp.board i) rfd i) t := by
  have haccept : s.acceptClient inp rfd = s := if_neg hsrv
  have hserve : ∃ t, Alike s t ∧ s.serveClient parse inp rfd = (t, false) := by
    have hcases := serveClient_cases parse inp rfd s
    generalize s.serveClient parse inp rfd = r at hcases ⊢
    cases hcases with
    | absent => exact ⟨s, .refl s, rfl⟩
    | silent =>
      refine ⟨_, ?_, rfl⟩
      exact ⟨rfl, rfl, rfl, rfl, rfl, fun _ => rfl, fun _ => rfl, fun _ => rfl⟩
    | gone hsd hready hmsg => exact absurd ⟨hsd, hready, Or.inl hmsg⟩ hclient
    | answered =>
      refine ⟨_, ?_, rfl⟩
      exact ⟨rfl, rfl, rfl, rfl, rfl, fun _ => rfl, fun _ => rfl, fun _ => rfl⟩
    | unanswered b bs hsd hready hmsg hsend =>
      exact absurd ⟨hsd, hready, Or.inr hsend⟩ hclient
  obtain ⟨t, halike, hserve⟩ := hserve
  refine ⟨t, halike, ?_⟩
  rw [handle, haccept, hserve]
  rfl

/-- The machine sees the same messages before the part of the loop that handles `rfd` and in it. -/
theorem next_readyMessage {t : Server} {fds : Finset ℤ} (hs : s.Settled) (ht : Alike s t)
    (hreported : reported inp = fds) (hrfd : rfd = (s.rfds ∩ fds).filter (· ≤ s.maxfd))
    (i : Fin 4) :
    (t.conn i).next cfg.nanoInit (readyMessage inp rfd i t) =
      (s.conn i).next cfg.nanoInit (received inp i s) := by
  rw [ht.conn, received, hreported, readyMessage, readyMessage, ht.sd]
  by_cases hi : (s.nano i).sd ∈ s.rfds
  · have hiff : (s.nano i).sd ∈ rfd ↔ (s.nano i).sd ∈ fds := by
      rw [hrfd, Finset.mem_filter, Finset.mem_inter]
      exact ⟨fun h => h.1.2, fun h => ⟨⟨hi, h⟩, (hs.attached i hi).2.1⟩⟩
    exact congrArg (fun r => Conn.next cfg.nanoInit r (s.conn i)) (if_congr hiff rfl rfl)
  · rw [show s.conn i = .down from if_neg hi, Conn.next_down, Conn.next_down]

theorem conn_iterate (parse : ParseCommand) (hs : s.Settled) (hu : s.Undisturbed cfg inp) :
    ((s.iterate parse cfg inp).Settled ∧ ∀ i, (s.iterate parse cfg inp).conn i =
        (s.conn i).next cfg.nanoInit (received inp i s)) ∨
    ((s.iterate parse cfg inp).run = false ∧ ∃ i,
      (s.conn i).next cfg.nanoInit (received inp i s) = .down ∧ s.conn i ≠ .down) := by
  obtain ⟨hprep, hsrv, hdom⟩ := prepare_alike hu
  have hopen : ¬(s.prepare cfg inp).BadSet := (hprep.settled hs).selectable
  unfold iterate select
  dsimp only
  rw [if_neg hopen]
  cases hsel : inp.select with
  | failed => exact absurd hsel hu.select
  | interrupted =>
    have hnothing : ∀ i, received inp i s = none := fun i => by
      rw [received, readyMessage, reported, hsel]
      exact if_neg (Finset.notMem_empty _)
    refine Or.inl ⟨hprep.settled hs, fun i => ?_⟩
    rw [hnothing, hprep.conn]
    rfl
  | ready fds =>
    dsimp only
    rw [hprep.rfds, hprep.maxfd]
    set rfd := (s.rfds ∩ fds).filter (· ≤ s.maxfd) with hrfd
    have hmem : ∀ fd, fd ∈ rfd → fd ∈ s.rfds ∧ fd ∈ fds := fun fd h =>
      Finset.mem_inter.mp (Finset.mem_filter.mp h).1
    have hreported : reported inp = fds := by rw [reported, hsel]
    have hsrv' := hu.accept
    have hclient := hu.client
    rw [hreported] at hsrv' hclient
    have hkept : ¬(s.prepare cfg inp).ClientDropped inp rfd := by
      rintro ⟨hnone, hready, hdropped⟩
      exact hclient ⟨hdom ▸ hnone, hdom ▸ (hmem _ hready).2, hdropped⟩
    obtain ⟨t, halike, hhandle⟩ := handle_eq (s := s.prepare cfg inp) parse cfg inp
      (fun h => hsrv' (hsrv ▸ (hmem _ h).2)) hkept
    have ht : Alike s t := hprep.trans halike
    have hnext : ∀ i, (t.conn i).next cfg.nanoInit (readyMessage inp rfd i t) =
        (s.conn i).next cfg.nanoInit (received inp i s) :=
      next_readyMessage hs ht hreported hrfd
    have hready : ∀ i ∈ List.finRange 4, (t.nano i).sd ∈ rfd → t.conn i ≠ .down := by
      intro i _ hi
      rw [ht.sd] at hi
      rw [ht.conn, conn_of_attached (hmem _ hi).1]
      split_ifs <;> simp
    rw [hhandle]
    obtain ⟨hloop, hconns⟩ | ⟨hrun, i, -, hdown, hup⟩ :=
      conn_readBoards cfg hu.board (List.nodup_finRange 4) (ht.settled hs) hready
    · refine Or.inl ⟨hloop, fun i => ?_⟩
      rw [hconns, if_pos (List.mem_finRange i), hnext]
    · rw [hnext] at hdown
      rw [ht.conn] at hup
      exact Or.inr ⟨hrun, i, hdown, hup⟩

/-- **The loop follows the machine.** In an undisturbed iteration every connection moves by what
`recv` returned for it, or the server stops when one of them goes down. -/
theorem conn_loopStep (parse : ParseCommand) (hs : s.Settled) (hu : s.Undisturbed cfg inp) :
    ((s.loopStep parse cfg inp).Settled ∧ ∀ i, (s.loopStep parse cfg inp).conn i =
        (s.conn i).next cfg.nanoInit (received inp i s)) ∨
    ((s.loopStep parse cfg inp).run = false ∧ ∃ i,
      (s.conn i).next cfg.nanoInit (received inp i s) = .down ∧ s.conn i ≠ .down) := by
  have hstep : s.loopStep parse cfg inp = { s.iterate parse cfg inp with
      run := (s.iterate parse cfg inp).run && !inp.signal } := if_pos hs.run
  have halike : Alike (s.iterate parse cfg inp) (s.loopStep parse cfg inp) := by
    rw [hstep]
    refine ⟨?_, rfl, rfl, rfl, rfl, fun _ => rfl, fun _ => rfl, fun _ => rfl⟩
    rw [hu.signal, Bool.not_false, Bool.and_true]
  rw [halike.run, halike.conn]
  obtain ⟨hsettled, hconns⟩ | hstopped := conn_iterate parse hs hu
  · exact Or.inl ⟨halike.settled hsettled, hconns⟩
  · exact Or.inr hstopped

/-! ### Start-up -/

/-- The descriptor of board `i` is selected: there is a connection to it. -/
def Attached (i : Fin 4) (s : Server) : Prop := (s.nano i).sd ∈ s.rfds

instance (i : Fin 4) (s : Server) : Decidable (s.Attached i) := inferInstanceAs (Decidable (_ ∈ _))

/-- There is a new connection to board `i`, which has a bit. -/
def Fresh (i : Fin 4) (s : Server) : Prop :=
  s.Attached i ∧ s.Live i ∧ (s.nano i).sd ≤ s.maxfd ∧ s.connBoards i = true ∧
    (s.nano i).init = true

/-- A board that was connected has a new connection. -/
theorem BoardConnected.fresh {s' : Server} {i : Fin 4} (h : BoardConnected i s s') :
    s'.Fresh i := by
  rw [Fresh, Attached, Live, h.fds, h.rfds, h.maxfd, h.connBoards, h.sd, h.init,
    Function.update_self]
  exact ⟨Finset.mem_insert_self _ _, FdTable.owner_openFd_self, le_max_right _ _, rfl, rfl⟩

/-- New connections stay new while another board is connected. -/
theorem BoardConnected.fresh_of_fresh {s' : Server} {i j : Fin 4} (h : BoardConnected i s s')
    (hj : s.Fresh j) : s'.Fresh j := by
  obtain rfl | hne := eq_or_ne j i
  · exact h.fresh
  · obtain ⟨hattached, hlive, hle, hbit, hinit⟩ := hj
    rw [Fresh, Attached, Live, h.fds, h.rfds, h.maxfd, h.connBoards, h.nano j hne,
      Function.update_of_ne hne]
    exact ⟨Finset.mem_insert_of_mem hattached, FdTable.owner_openFd_of_owner hlive,
      hle.trans (le_max_left _ _), hbit, hinit⟩

/-- Start-up leads to a settled state with a new connection to every board. -/
theorem startUp_settled {start : StartInput} {s₀ : Server} (h : startUp start = some s₀) :
    s₀.Settled ∧ ∀ i, s₀.Fresh i := by
  obtain ⟨s, hboards, rfl⟩ := startUp_cases h
  -- the invariant of the loop: it runs, and the selected descriptors are open
  have hloop : s.run = true ∧ ∀ fd ∈ s.rfds, ∃ w, s.fds.owner fd = some w := by
    refine Sweep.foldlM_invariant (I := fun s : Server => s.run = true ∧
      ∀ fd ∈ s.rfds, ∃ w, s.fds.owner fd = some w) (fun s i s' hconn hs => ?_) _ hboards
      ⟨rfl, fun fd hfd => absurd hfd (Finset.notMem_empty fd)⟩
    have hspec := connectBoard_spec hconn
    rw [hspec.run, hspec.fds, hspec.rfds]
    refine ⟨hs.1, fun fd hfd => ?_⟩
    obtain rfl | hmem := Finset.mem_insert.mp hfd
    · exact ⟨_, FdTable.owner_openFd_self⟩
    · obtain ⟨w, hw⟩ := hs.2 fd hmem
      exact ⟨w, FdTable.owner_openFd_of_owner hw⟩
  have hfresh : ∀ i ∈ List.finRange 4, s.Fresh i :=
    Sweep.foldlM_establish (C := Fresh) (fun _ _ _ hconn => (connectBoard_spec hconn).fresh)
      (fun _ _ _ _ hconn hj => (connectBoard_spec hconn).fresh_of_fresh hj) _ hboards
  -- the socket for clients is opened last
  have hfresh' : ∀ i, Fresh i (fdSet s.fds.lowest { s with
      fds := s.fds.openFd .listener
      sdDomSrv := s.fds.lowest
      connTimer := start.time + 1 }) := by
    intro i
    obtain ⟨hattached, hlive, hle, hbit, hinit⟩ := hfresh i (List.mem_finRange i)
    exact ⟨Finset.mem_insert_of_mem hattached, FdTable.owner_openFd_of_owner hlive,
      hle.trans (le_max_left _ _), hbit, hinit⟩
  refine ⟨⟨hloop.1, ?_, fun i hi => absurd (hfresh' i).1 hi, fun i _ => ?_⟩, hfresh'⟩
  · rintro ⟨fd, hfd, -, hclosed⟩
    have hnone : (s.fds.openFd .listener).owner fd = none := hclosed
    obtain rfl | hmem := Finset.mem_insert.mp hfd
    · rw [FdTable.owner_openFd_self] at hnone
      exact absurd hnone (by simp)
    · obtain ⟨w, hw⟩ := hloop.2 fd hmem
      rw [FdTable.owner_openFd_of_owner hw] at hnone
      exact absurd hnone (by simp)
  · obtain ⟨-, hlive, hle, hbit, -⟩ := hfresh' i
    exact ⟨hlive, hle, fun _ => hbit⟩

/-! ### Runs -/

/-- What the calls of `recv` for board `i` return before iteration `n`. -/
def segments (parse : ParseCommand) (cfg : ServerConfig) (s₀ : Server) (inp : ℕ → LoopInput)
    (i : Fin 4) (n : ℕ) : List (List UInt8) :=
  Driven.observed (fun k => received (inp k) i (serverAt parse cfg s₀ inp k)) n

/-- The loop runs, the handshake with board `i` is over, the board is connected, and `o` is its
last record. -/
structure Connected (i : Fin 4) (o : Outdata) (s : Server) : Prop where
  run : s.run = true
  bit : s.connBoards i = true
  attached : s.Attached i
  live : s.Live i
  greeted : (s.nano i).init = false
  outdat : (s.nano i).outdat = o

section Run

variable {parse : ParseCommand} {s₀ : Server} {input : ℕ → LoopInput} {n : ℕ}

/-- The connections in a run, and why a server stops. -/
theorem conn_serverAt (hs₀ : s₀.Settled)
    (hquiet : ∀ k < n, (serverAt parse cfg s₀ input k).Undisturbed cfg (input k)) :
    ((serverAt parse cfg s₀ input n).Settled ∧ ∀ i, (serverAt parse cfg s₀ input n).conn i =
        Conn.recvAll cfg.nanoInit (segments parse cfg s₀ input i n) (s₀.conn i)) ∨
    ((serverAt parse cfg s₀ input n).run = false ∧ ∃ i,
      Conn.recvAll cfg.nanoInit (segments parse cfg s₀ input i n) (s₀.conn i) = .down ∧
        s₀.conn i ≠ .down) := by
  induction n with
  | zero => exact Or.inl ⟨hs₀, fun _ => rfl⟩
  | succ n ih =>
    have hnext : ∀ i, Conn.recvAll cfg.nanoInit (segments parse cfg s₀ input i (n + 1))
        (s₀.conn i) = (Conn.recvAll cfg.nanoInit (segments parse cfg s₀ input i n)
          (s₀.conn i)).next cfg.nanoInit
            (received (input n) i (serverAt parse cfg s₀ input n)) :=
      fun i => Conn.recvAll_append_toList _ _
    rw [serverAt_succ]
    obtain ⟨hsettled, hconns⟩ | ⟨hrun, i, hdown, hup⟩ := ih fun k hk => hquiet k (by omega)
    -- the loop runs, and follows the machine
    · obtain ⟨hsettled', hconns'⟩ | ⟨hrun, i, hdown, hup⟩ :=
        conn_loopStep parse hsettled (hquiet n (by omega))
      · exact Or.inl ⟨hsettled', fun i => by rw [hconns', hconns, hnext]⟩
      · refine Or.inr ⟨hrun, i, by rw [hnext, ← hconns, hdown], fun h₀ => hup ?_⟩
        rw [hconns, h₀, Conn.recvAll_down]
    -- the loop has stopped, and the connection that is down stays down
    · have hstop : (serverAt parse cfg s₀ input n).loopStep parse cfg (input n) =
          serverAt parse cfg s₀ input n := if_neg (by rw [hrun]; exact Bool.false_ne_true)
      refine Or.inr ⟨by rw [hstop, hrun], i, ?_, hup⟩
      rw [hnext, hdown, Conn.next_down]

theorem Connected.conn {o : Outdata} (h : s.Connected i o) : s.conn i = .up o := by
  rw [conn_of_attached h.attached, h.greeted, if_neg Bool.false_ne_true, h.outdat]

theorem connected_of_conn {o : Outdata} (hs : s.Settled) (h : s.conn i = .up o) :
    s.Connected i o := by
  have hattached : s.Attached i := by
    by_contra hnot
    rw [show s.conn i = .down from if_neg hnot] at h
    exact absurd h (by simp)
  obtain ⟨hlive, -, hbit⟩ := hs.attached i hattached
  rw [conn_of_attached hattached] at h
  split_ifs at h with hinit
  have hgreeted : (s.nano i).init = false := Bool.not_eq_true _ ▸ hinit
  exact ⟨hs.run, hbit hgreeted, hattached, hlive, hgreeted, Conn.up.inj h⟩

theorem flatten_messages (isNew : Bool) (records : List Outdata) :
    (messages isNew records).flatten =
      (if isNew then versionName else []) ++ records.flatMap recordFrame := by
  cases isNew <;> simp [messages, List.flatMap_def]

/-- The machine on the messages of an attached board. -/
theorem conn_of_messages (h : s.Attached i) (records : List Outdata) :
    Conn.recvAll versionName (messages (s.nano i).init records) (s.conn i) =
      .up (records.getLastD (s.nano i).outdat) := by
  rw [conn_of_attached h]
  cases (s.nano i).init with
  | true => exact Conn.up_of_messages records _
  | false => exact Conn.recvAll_recordFrames records _

/-- An attached board that is connected at the end sent its messages one by one. -/
theorem messages_of_conn {segs : List (List UInt8)} {records : List Outdata} {o : Outdata}
    (h : s.Attached i) (hne : [] ∉ segs)
    (hstream : segs.flatten = (messages (s.nano i).init records).flatten)
    (hup : Conn.recvAll versionName segs (s.conn i) = .up o) :
    segs = messages (s.nano i).init records := by
  rw [conn_of_attached h] at hup
  rw [flatten_messages] at hstream
  cases hinit : (s.nano i).init with
  | true =>
    rw [hinit] at hup hstream
    exact Conn.messages_of_up hne hup hstream
  | false =>
    rw [hinit] at hup hstream
    exact Conn.recordFrames_of_up hup hstream

end Run

/-- **Where the streams may be cut.** Let every connection carry the version string, unless it has
been greeted before, and records. At the end of the streams all boards are connected, with their
last record stored, exactly when each call of `recv` returned one message; and no board is
connected whose own stream was cut in another way. -/
theorem segments_iff (parse : ParseCommand) (cfg : ServerConfig) (s₀ : Server)
    (inp : ℕ → LoopInput) (n : ℕ) (records : Fin 4 → List Outdata)
    (hversion : cfg.nanoInit = versionName) (hs₀ : s₀.Settled)
    (hquiet : ∀ k < n, (serverAt parse cfg s₀ inp k).Undisturbed cfg (inp k))
    (hne : ∀ i, s₀.Attached i → [] ∉ segments parse cfg s₀ inp i n)
    (hstream : ∀ i, s₀.Attached i → (segments parse cfg s₀ inp i n).flatten =
      (messages (s₀.nano i).init (records i)).flatten) :
    ((∀ i, s₀.Attached i →
        (serverAt parse cfg s₀ inp n).Connected i ((records i).getLastD (s₀.nano i).outdat)) ↔
      ∀ i, s₀.Attached i →
        segments parse cfg s₀ inp i n = messages (s₀.nano i).init (records i)) ∧
    ∀ i, s₀.Attached i →
      (serverAt parse cfg s₀ inp n).Connected i ((records i).getLastD (s₀.nano i).outdat) →
      segments parse cfg s₀ inp i n = messages (s₀.nano i).init (records i) := by
  have hrun := conn_serverAt hs₀ hquiet
  rw [hversion] at hrun
  have hown : ∀ i, s₀.Attached i →
      (serverAt parse cfg s₀ inp n).Connected i ((records i).getLastD (s₀.nano i).outdat) →
      segments parse cfg s₀ inp i n = messages (s₀.nano i).init (records i) := by
    intro i hi hconnected
    obtain ⟨-, hconns⟩ | ⟨hstop, -⟩ := hrun
    · refine messages_of_conn (o := (records i).getLastD (s₀.nano i).outdat) hi (hne i hi)
        (hstream i hi) ?_
      rw [← hconns, hconnected.conn]
    · exact absurd (hstop.symm.trans hconnected.run) Bool.false_ne_true
  refine ⟨⟨fun hall i hi => hown i hi (hall i hi), fun hmessages i hi => ?_⟩, hown⟩
  have hup : ∀ j, s₀.Attached j →
      Conn.recvAll versionName (segments parse cfg s₀ inp j n) (s₀.conn j) =
        .up ((records j).getLastD (s₀.nano j).outdat) := by
    intro j hj
    rw [hmessages j hj, conn_of_messages hj]
  obtain ⟨hsettled, hconns⟩ | ⟨-, j, hdown, hattached⟩ := hrun
  · exact connected_of_conn hsettled ((hconns i).trans (hup i hi))
  · -- a server that stopped has lost a connection
    have hj : s₀.Attached j := by
      by_contra hnot
      exact hattached (if_neg hnot)
    rw [hup j hj] at hdown
    exact absurd hdown (by simp)

/-- One call of `recv` for every board after start-up, which returns `bs`. -/
def allReceive (bs : List UInt8) : LoopInput where
  select := .ready {3, 4, 5, 6}
  board := fun _ => { recv := some bs }

/-- The version strings arrive, and then a record of every board, one message at a time. -/
def wholeMessages : ℕ → LoopInput
  | 0 => allReceive versionName
  | _ => allReceive (recordFrame default)

/-- The version strings arrive, and then a record of every board in two parts. -/
def splitRecord : ℕ → LoopInput
  | 0 => allReceive versionName
  | 1 => allReceive ((recordFrame default).take 20)
  | _ => allReceive ((recordFrame default).drop 20)

/-- The version strings arrive together with a record. -/
def joinedMessages : ℕ → LoopInput :=
  fun _ => allReceive (versionName ++ recordFrame default)

/-- After start-up, when the messages arrive one by one. -/
theorem segments_wholeMessages :
    (serverAt replyDefault carserverCfg started wholeMessages 2).Connected 0
      (([default] : List Outdata).getLastD (started.nano 0).outdat) := by
  refine (segments_iff replyDefault carserverCfg started wholeMessages 2 (fun _ => [default]) rfl
    (startUp_settled startUp_started).1 ?_ ?_ ?_).1.mpr ?_ 0 ?_
  · decide +kernel
  · decide +kernel
  · decide +kernel
  · decide +kernel
  · decide +kernel

/-- **The outcome depends on where the streams are cut.** When the version string and a record
arrive together, the server stops; when a record arrives in two parts, its board is
disconnected. -/
theorem segments_fails :
    (serverAt replyDefault carserverCfg started joinedMessages 1).run = false ∧
      (serverAt replyDefault carserverCfg started splitRecord 3).connBoards 0 = false ∧
      ¬ ∀ (inp : ℕ → LoopInput) (n : ℕ) (records : Fin 4 → List Outdata),
        (∀ k < n, (serverAt replyDefault carserverCfg started inp k).Undisturbed carserverCfg
          (inp k)) →
        (∀ i, [] ∉ segments replyDefault carserverCfg started inp i n) →
        (∀ i, (segments replyDefault carserverCfg started inp i n).flatten =
          (messages true (records i)).flatten) →
        ∀ i, (serverAt replyDefault carserverCfg started inp n).Connected i
          ((records i).getLastD (started.nano i).outdat) := by
  have hjoined : (serverAt replyDefault carserverCfg started joinedMessages 1).run = false := by
    decide +kernel
  refine ⟨hjoined, by decide +kernel, fun hall => ?_⟩
  have hconnected := hall joinedMessages 1 (fun _ => [default]) (by decide +kernel)
    (by decide +kernel) (by decide +kernel) 0
  exact absurd (hjoined.symm.trans hconnected.run) Bool.false_ne_true

end Server

end LegoCar
