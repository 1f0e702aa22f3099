import Mathlib
import LegoCar.Server.BufferBounds
import LegoCar.Server.Segments

/-!
# An iteration of the server, seen from a board

Clients come and go and send commands, signals interrupt the loop, and boards are ready in any
combination. As long as no board is too slow and no call for a board fails, none of this concerns
the connections: `serving_loopStep` shows that each of them moves by the message that is received
on it (`hears`), and `frames_to` that a board is sent one frame for each message that is answered.
A client that is disconnected puts the boards off to the next iteration.
-/

namespace LegoCar

open Posix

namespace Server

/-- What `recv` returns for board `i` in an iteration, if it is called: the loop over the boards is
left out when the client is disconnected. -/
def hears (cfg : ServerConfig) (inp : LoopInput) (i : Fin 4) (s : Server) : Option (List UInt8) :=
  if s.run then
    match s.selected cfg inp with
    | none => none
    | some (t, rfd) =>
      if (t.acceptClient inp rfd).ClientDropped inp rfd then none else readyMessage inp rfd i t
  else none

/-- The record that board `i` has sent, if it is stored. -/
def stores (cfg : ServerConfig) (inp : LoopInput) (i : Fin 4) (s : Server) : List Outdata :=
  ((s.hears cfg inp i).filter fun bs => decide ¬NotRecord bs).toList.map fun bs =>
    Outdata.ofSerial (bs.drop 1)

/-- The frames that are sent to board `i`. -/
def framesTo (parse : ParseCommand) (cfg : ServerConfig) (inp : LoopInput) (i : Fin 4)
    (s : Server) : List (List UInt8) :=
  ((s.frames parse cfg inp).filter fun f => decide (f.1 = i)).map Prod.snd

/-- Nothing happens to the boards but messages: none is too slow, and no call fails. -/
structure Calm (cfg : ServerConfig) (inp : LoopInput) (s : Server) : Prop where
  check : s.connTimer < inp.tickTime → ∀ i, cfg.minMsgs ≤ s.connCtr i
  select : inp.select ≠ .failed
  accept : inp.accept = true
  board : ∀ i, (inp.board i).recv ≠ none ∧ (inp.board i).send = true

instance (cfg : ServerConfig) (inp : LoopInput) (s : Server) : Decidable (s.Calm cfg inp) :=
  decidable_of_iff ((s.connTimer < inp.tickTime → ∀ i, cfg.minMsgs ≤ s.connCtr i) ∧
      inp.select ≠ .failed ∧ inp.accept = true ∧
      ∀ i, (inp.board i).recv ≠ none ∧ (inp.board i).send = true)
    ⟨fun h => ⟨h.1, h.2.1, h.2.2.1, h.2.2.2⟩, fun h => ⟨h.check, h.select, h.accept, h.board⟩⟩

/-- The server runs, is connected to all boards, and selects open descriptors only. -/
structure Serving (s : Server) : Prop where
  settled : s.Settled
  selected : ∀ fd ∈ s.rfds, ∃ w, s.fds.owner fd = some w
  client : s.ClientOpen
  bits : ∀ i, s.connBoards i = true
  attached : ∀ i, s.Attached i

variable {parse : ParseCommand} {cfg : ServerConfig} {inp : LoopInput} {rfd : Finset ℤ}
  {i j : Fin 4} {s s' : Server} {bs : List UInt8}

/-- Two states that agree on the variables of the boards agree on the connections. -/
theorem Serving.conn_eq (hs : s.Serving) (hs' : s'.Serving) (hnano : s'.nano = s.nano) :
    s'.conn = s.conn := by
  funext i
  rw [conn_of_attached (hs.attached i), conn_of_attached (hs'.attached i), hnano]

/-- What a server that is connected to all boards keeps when it changes other things. -/
theorem Alike.serving (h : Alike s s') (hclient : s'.ClientOpen) (hs : s.Serving) : s'.Serving where
  settled := h.settled hs.settled
  selected := by
    rw [h.rfds, h.fds]
    exact hs.selected
  client := hclient
  bits i := by
    rw [h.connBoards]
    exact hs.bits i
  attached i := by
    rw [Attached, h.sd, h.rfds]
    exact hs.attached i

/-- The conditions that are left when the boards keep their variables. -/
theorem Serving.of_nano (hs : s.Serving) (hrun : s'.run = true) (hnano : s'.nano = s.nano)
    (hbits : s'.connBoards = s.connBoards) (hmax : s.maxfd ≤ s'.maxfd)
    (hlive : ∀ j, s'.Live j ↔ s.Live j) (hattached : ∀ j, s'.Attached j)
    (hselected : ∀ fd ∈ s'.rfds, ∃ w, s'.fds.owner fd = some w) (hclient : s'.ClientOpen) :
    s'.Serving where
  settled :=
    { run := hrun
      selectable := by
        rintro ⟨fd, hfd, -, hclosed⟩
        obtain ⟨w, hw⟩ := hselected fd hfd
        exact absurd (hclosed.symm.trans hw) (by simp)
      absent := fun j hj => absurd (hattached j) hj
      attached := fun j _ => by
        obtain ⟨hlive', hle, hbit⟩ := hs.settled.attached j (hs.attached j)
        rw [hlive, hnano, hbits]
        exact ⟨hlive', hle.trans hmax, hbit⟩ }
  selected := hselected
  client := hclient
  bits := by
    rw [hbits]
    exact hs.bits
  attached := hattached

/-! ### Before `select` -/

/-- No board is too slow, and none is due for a new attempt. -/
theorem prepare_serving (hs : s.Serving) (hcalm : Calm cfg inp s) :
    Alike s (s.prepare cfg inp) ∧ (s.prepare cfg inp).Serving := by
  obtain ⟨ctr, timer, htick⟩ := tick_eq (s := s.handleCar cfg) hcalm.check
  have hretry : (List.finRange 4).foldl (fun s i => s.reconnect inp i)
      { s.handleCar cfg with connCtr := ctr, connTimer := timer } =
      { s.handleCar cfg with connCtr := ctr, connTimer := timer } := by
    refine Sweep.foldl_invariant
      (I := (· = { s.handleCar cfg with connCtr := ctr, connTimer := timer })) ?_ _ rfl
    rintro _ i rfl
    refine if_neg fun hdue => ?_
    exact absurd ((hs.bits i).symm.trans hdue.1) (by decide)
  have halike : Alike s (s.prepare cfg inp) := by
    rw [prepare, htick, hretry]
    exact ⟨rfl, rfl, rfl, rfl, rfl, fun _ => rfl, fun _ => rfl, fun _ => rfl⟩
  have hdom : (s.prepare cfg inp).sdDom = s.sdDom := by
    rw [prepare, htick, hretry]
    rfl
  refine ⟨halike, halike.serving ?_ hs⟩
  rw [ClientOpen, hdom, halike.fds]
  exact hs.client

/-! ### The client -/

theorem serving_acceptClient (haccept : inp.accept = true) (hs : s.Serving) :
    (s.acceptClient inp rfd).Serving := by
  have honly := acceptClient_clientOnly inp rfd hs.client
  by_cases hready : s.sdDomSrv ∈ rfd
  · -- a descriptor is added to those that are selected
    have heq : s.acceptClient inp rfd =
        fdSet s.fds.lowest { s with fds := s.fds.openFd .client, sdDom := s.fds.lowest } :=
      (if_pos hready).trans (if_pos haccept)
    rw [heq] at honly ⊢
    refine hs.of_nano hs.settled.run rfl rfl (le_max_left _ _) honly.live
      (fun j => Finset.mem_insert_of_mem (hs.attached j)) (fun fd hfd => ?_) honly.clientOpen
    obtain rfl | hmem := Finset.mem_insert.mp hfd
    · exact ⟨_, FdTable.owner_openFd_self⟩
    · obtain ⟨w, hw⟩ := hs.selected fd hmem
      exact ⟨w, FdTable.owner_openFd_of_owner hw⟩
  · rw [show s.acceptClient inp rfd = s from if_neg hready]
    exact hs

theorem serving_dropClient (hsd : s.sdDom ≠ -1) (hs : s.Serving) : s.dropClient.Serving := by
  have howner := hs.client.resolve_left hsd
  have honly := dropClient_clientOnly howner
  -- the descriptor of a board is another one
  have hne : ∀ j, (s.nano j).sd ≠ s.sdDom := by
    intro j heq
    have hlive : s.fds.owner (s.nano j).sd = some (.board j) :=
      (hs.settled.attached j (hs.attached j)).1
    rw [heq, howner] at hlive
    exact absurd hlive (by simp)
  refine hs.of_nano hs.settled.run rfl rfl le_rfl honly.live
    (fun j => Finset.mem_erase.mpr ⟨hne j, hs.attached j⟩) (fun fd hfd => ?_) honly.clientOpen
  obtain ⟨hfd, hmem⟩ := Finset.mem_erase.mp hfd
  obtain ⟨w, hw⟩ := hs.selected fd hmem
  exact ⟨w, (FdTable.owner_closeFd_of_ne hfd).trans hw⟩

theorem serving_serveClient (parse : ParseCommand) (inp : LoopInput) (rfd : Finset ℤ)
    (hs : s.Serving) : (s.serveClient parse inp rfd).1.Serving := by
  have hsame : ∀ {t : Server}, Alike s t → t.sdDom = s.sdDom → t.Serving := by
    intro t halike hdom
    refine halike.serving ?_ hs
    rw [ClientOpen, halike.fds, hdom]
    exact hs.client
  have hread : s.readClient.Serving :=
    hsame ⟨rfl, rfl, rfl, rfl, rfl, fun _ => rfl, fun _ => rfl, fun _ => rfl⟩ rfl
  have hanswer : ∀ bs, (s.readClient.answer parse inp.behind bs).Serving := fun _ =>
    hsame ⟨rfl, rfl, rfl, rfl, rfl, fun _ => rfl, fun _ => rfl, fun _ => rfl⟩ rfl
  have hcases := serveClient_cases parse inp rfd s
  generalize s.serveClient parse inp rfd = r at hcases ⊢
  cases hcases with
  | absent => exact hs
  | silent => exact hsame ⟨rfl, rfl, rfl, rfl, rfl, fun _ => rfl, fun _ => rfl, fun _ => rfl⟩ rfl
  | gone hsd => exact serving_dropClient (s := s.readClient) hsd hread
  | answered b bs => exact hanswer (b :: bs)
  | unanswered b bs hsd =>
    exact serving_dropClient (s := s.readClient.answer parse inp.behind (b :: bs)) hsd
      (hanswer (b :: bs))

/-- Accepting and serving a client leaves the boards as they are. -/
theorem nano_client (parse : ParseCommand) (inp : LoopInput) (rfd : Finset ℤ) (s : Server) :
    ((s.acceptClient inp rfd).serveClient parse inp rfd).1.nano = s.nano :=
  (serveClient_spec parse inp rfd _).1.trans (acceptClient_memory inp rfd s).nano

/-! ### The boards -/

/-- What a message on a connection that does not go down leaves alone. -/
structure Kept (s s' : Server) : Prop where
  fds : s'.fds = s.fds
  rfds : s'.rfds = s.rfds
  sdDom : s'.sdDom = s.sdDom
  bits : (∀ j, s.connBoards j = true) → ∀ j, s'.connBoards j = true

theorem kept_handshake (cfg : ServerConfig) (bs : List UInt8) (i : Fin 4) (s : Server) :
    Kept s (s.handshake cfg true bs i) := by
  refine handshake_cases (P := Kept s) ⟨rfl, rfl, rfl, id⟩ ⟨rfl, rfl, rfl, id⟩
    ⟨rfl, rfl, rfl, fun hbits j => ?_⟩
  obtain rfl | hne := eq_or_ne j i
  · exact Function.update_self _ _ _
  · exact (Function.update_of_ne hne _ _).trans (hbits j)

theorem kept_message (cfg : ServerConfig) (hgood : NotRecord bs → (s.nano i).init = true) :
    Kept s (s.message cfg true bs i) := by
  have hfill : Kept s (s.fill bs) := ⟨rfl, rfl, rfl, id⟩
  by_cases hbs : NotRecord bs
  · rw [message_handshake hbs (hgood hbs)]
    obtain ⟨hfds, hrfds, hdom, hbits⟩ := kept_handshake cfg bs i (s.fill bs)
    exact ⟨hfds, hrfds, hdom, hbits⟩
  · rw [message_record hbs]
    exact ⟨rfl, rfl, rfl, id⟩

/-- Board `i` is not ready, or its message keeps its connection up. -/
def GoodVisit (inp : LoopInput) (rfd : Finset ℤ) (i : Fin 4) (s : Server) : Prop :=
  ∀ bs, readyMessage inp rfd i s = some bs → NotRecord bs → (s.nano i).init = true

theorem kept_readBoard (cfg : ServerConfig)
    (hboard : (inp.board i).recv ≠ none ∧ (inp.board i).send = true)
    (hgood : s.GoodVisit inp rfd i) : Kept s (s.readBoard cfg (inp.board i) rfd i) := by
  by_cases hready : (s.nano i).sd ∈ rfd
  · rw [readBoard_of_ready hready, hboard.2]
    obtain ⟨bs, hbs⟩ := Option.ne_none_iff_exists'.mp hboard.1
    have hmsg : readyMessage inp rfd i s = some (bs.take ethFrameLen) := by
      rw [readyMessage, if_pos hready, hbs, Option.map_some]
    rw [hbs, Option.map_some]
    have hkept := kept_message (s := (s.isSet i).receive i) cfg (hgood _ hmsg)
    exact ⟨hkept.fds, hkept.rfds, hkept.sdDom, hkept.bits⟩
  · rw [readBoard_of_not_ready hready]
    exact ⟨rfl, rfl, rfl, id⟩

theorem kept_readBoards (cfg : ServerConfig)
    (hboard : ∀ i, (inp.board i).recv ≠ none ∧ (inp.board i).send = true)
    (hgood : ∀ i, s.GoodVisit inp rfd i) :
    Kept s ((List.finRange 4).foldl (fun s i => s.readBoard cfg (inp.board i) rfd i) s) := by
  refine Sweep.foldl_invariant_of (I := Kept s) (C := fun i t => t.GoodVisit inp rfd i)
    (fun t i ht hgood => ?_) (fun t i j hij _ _ hj => ?_) (List.nodup_finRange 4)
    ⟨rfl, rfl, rfl, id⟩ fun i _ => hgood i
  · obtain ⟨hfds, hrfds, hdom, hbits⟩ := kept_readBoard cfg (hboard i) hgood
    exact ⟨hfds.trans ht.fds, hrfds.trans ht.rfds, hdom.trans ht.sdDom, fun h => hbits (ht.bits h)⟩
  · -- the visit of board `i` leaves the variables of the others alone
    rw [GoodVisit, readyMessage, nano_readBoard_of_ne hij.symm]
    exact hj

/-- A message that does not take the connection down is a good one. -/
theorem goodVisit_of_recv (hs : s.Serving)
    (h : ∀ bs, readyMessage inp rfd i s = some bs → (s.conn i).recv cfg.nanoInit bs ≠ .down) :
    s.GoodVisit inp rfd i := by
  intro bs hbs hrecord
  by_contra hinit
  refine h bs hbs ?_
  rw [conn_of_attached (hs.attached i), if_neg hinit, Conn.recv, if_pos hrecord]

/-! ### An iteration -/

theorem hears_of_none (h : s.selected cfg inp = none) : s.hears cfg inp i = none := by
  unfold hears
  rw [h]
  exact ite_self _

theorem hears_of_some {t : Server} (hrun : s.run = true) (h : s.selected cfg inp = some (t, rfd)) :
    s.hears cfg inp i =
      if (t.acceptClient inp rfd).ClientDropped inp rfd then none
      else readyMessage inp rfd i t := by
  unfold hears
  rw [if_pos hrun, h]

theorem serving_readBoards (hs : s.Serving)
    (hboard : ∀ i, (inp.board i).recv ≠ none ∧ (inp.board i).send = true)
    (hgood : ∀ i bs, readyMessage inp rfd i s = some bs →
      (s.conn i).recv cfg.nanoInit bs ≠ .down) :
    ((List.finRange 4).foldl (fun s i => s.readBoard cfg (inp.board i) rfd i) s).Serving ∧
      ∀ i, ((List.finRange 4).foldl (fun s i => s.readBoard cfg (inp.board i) rfd i) s).conn i =
        (s.conn i).next cfg.nanoInit (readyMessage inp rfd i s) := by
  have hup : ∀ i, s.conn i ≠ .down := by
    intro i
    rw [conn_of_attached (hs.attached i)]
    split_ifs <;> simp
  have hnext : ∀ i, (s.conn i).next cfg.nanoInit (readyMessage inp rfd i s) ≠ .down := by
    intro i
    cases hmsg : readyMessage inp rfd i s with
    | none => exact hup i
    | some bs => exact hgood i bs hmsg
  have hkept := kept_readBoards cfg hboard fun i => goodVisit_of_recv hs (hgood i)
  obtain ⟨hsettled, hconns⟩ | ⟨-, i, -, hdown, -⟩ :=
    conn_readBoards cfg hboard (List.nodup_finRange 4) hs.settled fun i _ _ => hup i
  · set s' := (List.finRange 4).foldl (fun s i => s.readBoard cfg (inp.board i) rfd i) s
    have hconn : ∀ i, s'.conn i = (s.conn i).next cfg.nanoInit (readyMessage inp rfd i s) := by
      intro i
      rw [hconns, if_pos (List.mem_finRange i)]
    refine ⟨⟨hsettled, ?_, ?_, hkept.bits hs.bits, fun i => ?_⟩, hconn⟩
    · rw [hkept.rfds, hkept.fds]
      exact hs.selected
    · rw [ClientOpen, hkept.sdDom, hkept.fds]
      exact hs.client
    · by_contra hnot
      exact hnext i ((hconn i).symm.trans (if_neg hnot))
  · exact absurd hdown (hnext i)

theorem serving_handle (parse : ParseCommand) (hs : s.Serving) (haccept : inp.accept = true)
    (hboard : ∀ i, (inp.board i).recv ≠ none ∧ (inp.board i).send = true)
    (hgood : ¬(s.acceptClient inp rfd).ClientDropped inp rfd → ∀ i bs,
      readyMessage inp rfd i s = some bs → (s.conn i).recv cfg.nanoInit bs ≠ .down) :
    (s.handle parse cfg inp rfd).Serving ∧ ∀ i, (s.handle parse cfg inp rfd).conn i =
      (s.conn i).next cfg.nanoInit (if (s.acceptClient inp rfd).ClientDropped inp rfd then none
        else readyMessage inp rfd i s) := by
  have hclient : (s.acceptClient inp rfd).Serving := serving_acceptClient haccept hs
  have hserved := serving_serveClient parse inp rfd hclient
  have hnano := nano_client parse inp rfd s
  have hdropped := (serveClient_clientOnly parse inp rfd hclient.client).2
  have hconn := hs.conn_eq hserved hnano
  rw [handle]
  by_cases hdrop : (s.acceptClient inp rfd).ClientDropped inp rfd
  · rw [if_pos (hdropped.mpr hdrop), hconn]
    exact ⟨hserved, fun i => by rw [if_pos hdrop]; rfl⟩
  · have hmsg : ∀ i, readyMessage inp rfd i
        ((s.acceptClient inp rfd).serveClient parse inp rfd).1 = readyMessage inp rfd i s := by
      intro i
      rw [readyMessage, readyMessage, hnano]
    rw [if_neg fun h => hdrop (hdropped.mp h), ← hconn]
    obtain ⟨hserving, hconns⟩ := serving_readBoards hserved hboard fun i bs hbs => by
      rw [hmsg] at hbs
      rw [hconn]
      exact hgood hdrop i bs hbs
    refine ⟨hserving, fun i => ?_⟩
    rw [hconns, hmsg, if_neg hdrop]

theorem serving_iterate (parse : ParseCommand) (hs : s.Serving) (hcalm : Calm cfg inp s)
    (hgood : ∀ i bs, s.hears cfg inp i = some bs → (s.conn i).recv cfg.nanoInit bs ≠ .down) :
    (s.iterate parse cfg inp).Serving ∧ ∀ i, (s.iterate parse cfg inp).conn i =
      (s.conn i).next cfg.nanoInit (s.hears cfg inp i) := by
  obtain ⟨halike, hprep⟩ := prepare_serving hs hcalm
  have hrun : s.run = true := hs.settled.run
  rw [iterate_eq]
  have hselect : s.selected cfg inp = none ∨
      ∃ rfd, s.selected cfg inp = some (s.prepare cfg inp, rfd) := by
    unfold selected select
    dsimp only
    rw [if_neg hprep.settled.selectable]
    cases hsel : inp.select with
    | interrupted => exact Or.inl rfl
    | failed => exact absurd hsel hcalm.select
    | ready fds => exact Or.inr ⟨_, rfl⟩
  obtain hnone | ⟨rfd, hsome⟩ := hselect
  · rw [hnone]
    exact ⟨hprep, fun i => by rw [hears_of_none hnone, halike.conn]; rfl⟩
  · obtain ⟨hserving, hconns⟩ := serving_handle parse hprep hcalm.accept hcalm.board
      fun hdrop i bs hbs => by
        rw [halike.conn]
        exact hgood i bs ((hears_of_some hrun hsome).trans ((if_neg hdrop).trans hbs))
    rw [hsome]
    exact ⟨hserving, fun i => by rw [hears_of_some hrun hsome, hconns, halike.conn]⟩

theorem loopStep_of_run (parse : ParseCommand) (cfg : ServerConfig) (inp : LoopInput)
    (hrun : s.run = true) : s.loopStep parse cfg inp =
      { s.iterate parse cfg inp with run := (s.iterate parse cfg inp).run && !inp.signal } :=
  if_pos hrun

/-- **An iteration, seen from the boards.** Whatever the client does, every connection moves by the
message that is received on it. -/
theorem serving_loopStep (parse : ParseCommand) (hs : s.Serving) (hcalm : Calm cfg inp s)
    (hgood : ∀ i bs, s.hears cfg inp i = some bs → (s.conn i).recv cfg.nanoInit bs ≠ .down) :
    ((s.loopStep parse cfg inp).run = true → (s.loopStep parse cfg inp).Serving) ∧
      ∀ i, (s.loopStep parse cfg inp).conn i =
        (s.conn i).next cfg.nanoInit (s.hears cfg inp i) := by
  have hiterate := serving_iterate parse hs hcalm hgood
  have hstep := loopStep_of_run parse cfg inp hs.settled.run
  have hsame : (s.loopStep parse cfg inp).conn = (s.iterate parse cfg inp).conn := by
    rw [hstep]
    rfl
  refine ⟨fun hrun => ?_, fun i => by rw [hsame, hiterate.2]⟩
  have halike' : Alike (s.iterate parse cfg inp) (s.loopStep parse cfg inp) := by
    rw [hstep] at hrun ⊢
    exact ⟨hrun.trans hiterate.1.settled.run.symm, rfl, rfl, rfl, rfl, fun _ => rfl, fun _ => rfl,
      fun _ => rfl⟩
  refine halike'.serving ?_ hiterate.1
  rw [hstep]
  exact hiterate.1.client

/-- Without a signal the server goes on. -/
theorem run_loopStep (parse : ParseCommand) (hs : s.Serving) (hcalm : Calm cfg inp s)
    (hgood : ∀ i bs, s.hears cfg inp i = some bs → (s.conn i).recv cfg.nanoInit bs ≠ .down)
    (hsignal : inp.signal = false) : (s.loopStep parse cfg inp).run = true := by
  rw [loopStep_of_run parse cfg inp hs.settled.run, hsignal]
  exact (Bool.and_true _).trans (serving_iterate parse hs hcalm hgood).1.settled.run

/-! ### The frames -/

/-- The frame of a visit is made of the record for the board. -/
theorem frameTo_eq (io : BoardIO) : s.frameTo cfg io rfd i =
    if (s.nano i).sd ∈ rfd then (io.recv.map (List.take ethFrameLen)).bind fun bs =>
      if s.Answered cfg bs i ∧ io.send = true then some (tagS :: (s.nano i).indat.serial) else none
    else none := by
  by_cases hready : (s.nano i).sd ∈ rfd
  · cases hbs : io.recv.map (List.take ethFrameLen) with
    | none => rw [frameTo, if_pos hready, if_pos hready, hbs]; rfl
    | some bs =>
      rw [if_pos hready, Option.bind_some]
      by_cases hanswered : s.Answered cfg bs i ∧ io.send = true
      · have hframe : s.frameTo cfg io rfd i = some ((s.readBoard cfg io rfd i).buffer.take 9) := by
          rw [frameTo, if_pos hready, hbs, Option.bind_some, if_pos hanswered]
        rw [if_pos hanswered, hframe, eq_of_frameTo hframe]
      · rw [frameTo, if_pos hready, hbs, Option.bind_some, if_neg hanswered, if_neg hanswered]
  · rw [frameTo, if_neg hready, if_neg hready]

/-- It depends on the variables of its board only. -/
theorem frameTo_congr (io : BoardIO) (h : s'.nano i = s.nano i) :
    s'.frameTo cfg io rfd i = s.frameTo cfg io rfd i := by
  have hanswered : ∀ bs, s'.Answered cfg bs i ↔ s.Answered cfg bs i := fun bs => by
    rw [Answered, Answered, h]
  rw [frameTo_eq, frameTo_eq, h]
  simp only [hanswered]

/-- The loop over the boards sends each of them the frame of its visit. -/
theorem framesOf_filter {l : List (Fin 4)} (hl : l.Nodup) :
    ((framesOf cfg inp rfd l s).filter fun f => decide (f.1 = i)).map Prod.snd =
      if i ∈ l then (s.frameTo cfg (inp.board i) rfd i).toList else [] := by
  induction l generalizing s with
  | nil => rfl
  | cons k l ih =>
    obtain ⟨hk, hl⟩ := List.nodup_cons.mp hl
    rw [framesOf, List.filter_append, List.map_append, ih hl]
    by_cases hki : k = i
    · subst hki
      rw [if_neg hk, if_pos List.mem_cons_self, List.append_nil]
      cases s.frameTo cfg (inp.board k) rfd k with
      | none => rfl
      | some f => simp
    · have hothers : ((((s.frameTo cfg (inp.board k) rfd k).map fun f => (k, f)).toList).filter
          fun f => decide (f.1 = i)) = [] := by
        cases s.frameTo cfg (inp.board k) rfd k with
        | none => rfl
        | some f => simp [hki]
      rw [hothers, List.map_nil, List.nil_append,
        frameTo_congr _ (nano_readBoard_of_ne (Ne.symm hki) cfg (inp.board k) rfd s)]
      exact if_congr (by simp [Ne.symm hki]) rfl rfl

/-- **The frames of an iteration**: board `i` is sent one for a message that is answered, with the
set value that `handle_car` has computed in this iteration. -/
theorem framesTo_eq (parse : ParseCommand) (hs : s.Serving) (hcalm : Calm cfg inp s) (i : Fin 4) :
    s.framesTo parse cfg inp i =
      ((s.hears cfg inp i).filter fun bs => decide (s.Answered cfg bs i)).toList.map fun _ =>
        tagS :: ((s.handleCar cfg).nano i).indat.serial := by
  obtain ⟨halike, hprep⟩ := prepare_serving hs hcalm
  have hrun : s.run = true := hs.settled.run
  unfold framesTo frames
  rw [if_pos hrun]
  cases hselected : s.selected cfg inp with
  | none => rw [hears_of_none hselected]; rfl
  | some r =>
    obtain ⟨t, rfd⟩ := r
    have hnano : t.nano = (s.prepare cfg inp).nano := by
      obtain rfl | rfl := eq_of_selected hselected <;> rfl
    have hserved := (nano_client parse inp rfd t).trans hnano
    have hanswered (bs : List UInt8) :
        (s.prepare cfg inp).Answered cfg bs i ↔ s.Answered cfg bs i := by
      rw [Answered, Answered, halike.init]
    rw [hears_of_some hrun hselected]
    dsimp only
    by_cases hdrop : (t.acceptClient inp rfd).ClientDropped inp rfd
    · rw [if_pos ((serveClient_dropped parse inp rfd _).mpr hdrop), if_pos hdrop]
      rfl
    · rw [if_neg fun h => hdrop ((serveClient_dropped parse inp rfd _).mp h), if_neg hdrop,
        framesOf_filter (List.nodup_finRange 4), if_pos (List.mem_finRange i),
        frameTo_congr _ (congrFun hserved i), frameTo_eq, (hcalm.board i).2, readyMessage, hnano,
        (sameCommand_prepare cfg inp s).indat]
      split_ifs
      · cases (inp.board i).recv.map (List.take ethFrameLen) with
        | none => rfl
        | some bs =>
          simp only [Option.bind_some, hanswered, and_true, Option.filter_some, decide_eq_true_eq]
          split_ifs <;> rfl
      · rfl

end Server

end LegoCar
