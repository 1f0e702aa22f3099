import Mathlib
import LegoCar.Lib.Sweep
import LegoCar.Server.Connection
import LegoCar.Server.Descriptors

/-!
# What a message does to the connection of its board

The server keeps the connection of a board in several places: the set of descriptors it selects,
the flag of the board that waits for the version string, and the record stored last. `conn` reads
them as a state of the machine `Conn`.

`conn_readBoards` shows that the loop over the boards moves each connection as the machine does,
unless the server stops there.
-/

namespace LegoCar

open Posix

namespace Server

/-- The connection of a board as the server keeps it. -/
def conn (s : Server) (i : Fin 4) : Conn :=
  if (s.nano i).sd ∈ s.rfds then
    if (s.nano i).init then .greeting (s.nano i).outdat else .up (s.nano i).outdat
  else .down

/-- The loop runs, the selected descriptors are open, and the bits agree with the connections: a
board that is not selected has none, and one that was greeted has one. -/
structure Settled (s : Server) : Prop where
  run : s.run = true
  selectable : ¬s.BadSet
  absent : ∀ i, (s.nano i).sd ∉ s.rfds → s.connBoards i = false
  attached : ∀ i, (s.nano i).sd ∈ s.rfds → s.Live i ∧ (s.nano i).sd ≤ s.maxfd ∧
    ((s.nano i).init = false → s.connBoards i = true)

/-- What `recv` returns for board `i` when the descriptors in `rfd` are ready. -/
def readyMessage (inp : LoopInput) (rfd : Finset ℤ) (i : Fin 4) (s : Server) :
    Option (List UInt8) :=
  if (s.nano i).sd ∈ rfd then (inp.board i).recv.map (List.take ethFrameLen) else none

variable {cfg : ServerConfig} {inp : LoopInput} {rfd : Finset ℤ} {i j : Fin 4} {s s' : Server}
  {bs : List UInt8}

/-- Two attached boards have different descriptors. -/
theorem Settled.sd_ne (hs : s.Settled) (hi : (s.nano i).sd ∈ s.rfds)
    (hj : (s.nano j).sd ∈ s.rfds) (hij : i ≠ j) : (s.nano j).sd ≠ (s.nano i).sd := by
  intro heq
  have hlive : s.fds.owner (s.nano i).sd = some (.board i) := (hs.attached i hi).1
  have hlive' : s.fds.owner (s.nano j).sd = some (.board j) := (hs.attached j hj).1
  rw [heq, hlive] at hlive'
  exact hij (by simpa using hlive')

/-- Two states agree on the connections. -/
structure Alike (s s' : Server) : Prop where
  run : s'.run = s.run
  connBoards : s'.connBoards = s.connBoards
  rfds : s'.rfds = s.rfds
  maxfd : s'.maxfd = s.maxfd
  fds : s'.fds = s.fds
  sd : ∀ i, (s'.nano i).sd = (s.nano i).sd
  init : ∀ i, (s'.nano i).init = (s.nano i).init
  outdat : ∀ i, (s'.nano i).outdat = (s.nano i).outdat

theorem Alike.refl (s : Server) : Alike s s :=
  ⟨rfl, rfl, rfl, rfl, rfl, fun _ => rfl, fun _ => rfl, fun _ => rfl⟩

theorem Alike.trans {s'' : Server} (h : Alike s s') (h' : Alike s' s'') : Alike s s'' :=
  ⟨h'.run.trans h.run, h'.connBoards.trans h.connBoards, h'.rfds.trans h.rfds,
    h'.maxfd.trans h.maxfd, h'.fds.trans h.fds, fun i => (h'.sd i).trans (h.sd i),
    fun i => (h'.init i).trans (h.init i), fun i => (h'.outdat i).trans (h.outdat i)⟩

theorem Alike.settled (h : Alike s s') (hs : s.Settled) : s'.Settled where
  run := h.run.trans hs.run
  selectable := by
    rw [BadSet, h.rfds, h.maxfd, h.fds]
    exact hs.selectable
  absent i := by
    rw [h.sd, h.rfds, h.connBoards]
    exact hs.absent i
  attached i := by
    rw [Live, h.sd, h.rfds, h.fds, h.maxfd, h.init, h.connBoards]
    exact hs.attached i

theorem Alike.conn (h : Alike s s') : s'.conn = s.conn := by
  funext i
  rw [Server.conn, Server.conn, h.sd, h.rfds, h.init, h.outdat]

/-! ### A message -/

/-- Two states differ in the variables of board `i`, and in what is not about connections. -/
structure OnlyBoard (i : Fin 4) (s s' : Server) : Prop where
  run : s'.run = s.run
  rfds : s'.rfds = s.rfds
  maxfd : s'.maxfd = s.maxfd
  fds : s'.fds = s.fds
  sd : (s'.nano i).sd = (s.nano i).sd
  nano : ∀ j ≠ i, s'.nano j = s.nano j
  connBoards : ∀ j ≠ i, s'.connBoards j = s.connBoards j

theorem OnlyBoard.settled (h : OnlyBoard i s s') (hs : s.Settled) (hi : (s.nano i).sd ∈ s.rfds)
    (hbit : (s'.nano i).init = false → s'.connBoards i = true) : s'.Settled where
  run := h.run.trans hs.run
  selectable := by
    rw [BadSet, h.rfds, h.maxfd, h.fds]
    exact hs.selectable
  absent j hj := by
    rw [h.rfds] at hj
    obtain rfl | hne := eq_or_ne j i
    · rw [h.sd] at hj
      exact absurd hi hj
    · rw [h.nano j hne] at hj
      rw [h.connBoards j hne]
      exact hs.absent j hj
  attached j hj := by
    rw [h.rfds] at hj
    rw [Live, h.fds, h.maxfd]
    obtain rfl | hne := eq_or_ne j i
    · rw [h.sd]
      obtain ⟨hlive, hle, -⟩ := hs.attached j hi
      exact ⟨hlive, hle, hbit⟩
    · rw [h.nano j hne] at hj ⊢
      rw [h.connBoards j hne]
      exact hs.attached j hj

theorem OnlyBoard.conn (h : OnlyBoard i s s') (hi : (s.nano i).sd ∈ s.rfds) :
    s'.conn = Function.update s.conn i
      (if (s'.nano i).init then .greeting (s'.nano i).outdat else .up (s'.nano i).outdat) := by
  funext j
  obtain rfl | hne := eq_or_ne j i
  · rw [Function.update_self, Server.conn, h.sd, h.rfds, if_pos hi]
  · rw [Function.update_of_ne hne, Server.conn, Server.conn, h.nano j hne, h.rfds]

/-- The connection of board `i` was closed, and its bit cleared. -/
structure Dropped (i : Fin 4) (s s' : Server) : Prop where
  rfds : s'.rfds = s.rfds.erase (s.nano i).sd
  maxfd : s'.maxfd = s.maxfd
  owner : ∀ fd ≠ (s.nano i).sd, s'.fds.owner fd = s.fds.owner fd
  nano : s'.nano = s.nano
  connBoards : s'.connBoards = Function.update s.connBoards i false

theorem Dropped.settled (h : Dropped i s s') (hs : s.Settled) (hi : (s.nano i).sd ∈ s.rfds)
    (hrun : s'.run = true) : s'.Settled where
  run := hrun
  selectable := by
    rintro ⟨fd, hfd, hle, hclosed⟩
    rw [h.rfds] at hfd
    obtain ⟨hne, hmem⟩ := Finset.mem_erase.mp hfd
    rw [h.owner fd hne] at hclosed
    rw [h.maxfd] at hle
    exact hs.selectable ⟨fd, hmem, hle, hclosed⟩
  absent j hj := by
    rw [h.nano, h.rfds, Finset.mem_erase, not_and_or, not_not] at hj
    rw [h.connBoards]
    obtain rfl | hne := eq_or_ne j i
    · exact Function.update_self _ _ _
    · rw [Function.update_of_ne hne]
      refine hs.absent j fun hmem => ?_
      rcases hj with heq | hnot
      · exact hs.sd_ne hi hmem hne.symm heq
      · exact hnot hmem
  attached j hj := by
    rw [h.nano, h.rfds, Finset.mem_erase] at hj
    have hne : j ≠ i := by
      rintro rfl
      exact hj.1 rfl
    rw [Live, h.nano, h.owner _ hj.1, h.maxfd, h.connBoards, Function.update_of_ne hne]
    exact hs.attached j hj.2

theorem Dropped.conn (h : Dropped i s s') (hs : s.Settled) (hi : (s.nano i).sd ∈ s.rfds) :
    s'.conn = Function.update s.conn i .down := by
  funext j
  rw [Server.conn, h.nano, h.rfds]
  obtain rfl | hne := eq_or_ne j i
  · rw [Function.update_self, if_neg (Finset.notMem_erase _ _)]
  · rw [Function.update_of_ne hne, Server.conn]
    by_cases hj : (s.nano j).sd ∈ s.rfds
    · rw [if_pos (Finset.mem_erase.mpr ⟨hs.sd_ne hi hj hne.symm, hj⟩), if_pos hj]
    · rw [if_neg fun hmem => hj (Finset.mem_erase.mp hmem).2, if_neg hj]

theorem dropped_wrongData (i : Fin 4) (s : Server) : Dropped i s (s.wrongData i) := by
  -- closing it again changes neither the set nor the other descriptors
  have hdrop : Dropped i s (s.dropTwice i) :=
    ⟨Finset.erase_idem, rfl, fun fd hne => (FdTable.owner_closeFd_of_ne hne).trans
      (FdTable.owner_closeFd_of_ne hne), rfl, rfl⟩
  exact wrongData_cases hdrop ⟨hdrop.rfds, hdrop.maxfd, hdrop.owner, hdrop.nano, hdrop.connBoards⟩

/-- What the server keeps about an attached board. -/
theorem conn_of_attached (hi : (s.nano i).sd ∈ s.rfds) :
    s.conn i = if (s.nano i).init then .greeting (s.nano i).outdat else .up (s.nano i).outdat :=
  if_pos hi

theorem conn_record (hs : s.Settled) (hi : (s.nano i).sd ∈ s.rfds) (hbs : ¬NotRecord bs) :
    (s.message cfg true bs i).Settled ∧ (s.message cfg true bs i).conn =
      Function.update s.conn i ((s.conn i).recv cfg.nanoInit bs) := by
  have hnano : (s.message cfg true bs i).nano = Function.update s.nano i
      { s.nano i with outdat := Outdata.ofSerial (bs.drop 1) } := by
    rw [message_record hbs]
    rfl
  have honly : OnlyBoard i s (s.message cfg true bs i) := by
    rw [message_record hbs] at hnano ⊢
    refine ⟨rfl, rfl, rfl, rfl, ?_, fun j hj => ?_, fun _ _ => rfl⟩
    · rw [hnano, Function.update_self]
    · rw [hnano, Function.update_of_ne hj]
  have hbits : (s.message cfg true bs i).connBoards = s.connBoards := by
    rw [message_record hbs]
    rfl
  refine ⟨honly.settled hs hi fun hinit => ?_, ?_⟩
  · rw [hnano, Function.update_self] at hinit
    rw [hbits]
    exact (hs.attached i hi).2.2 hinit
  · rw [honly.conn hi, hnano, Function.update_self, conn_of_attached hi]
    dsimp only
    split_ifs
    · rw [Conn.recv, if_neg hbs]
    · rw [Conn.recv, if_neg hbs]

/-- A message that is compared with the version string. -/
theorem conn_handshake (hs : s.Settled) (hi : (s.nano i).sd ∈ s.rfds) (hbs : NotRecord bs)
    (hinit : (s.nano i).init = true) :
    ((s.handshake cfg true bs i).Settled ∧ (s.handshake cfg true bs i).conn =
      Function.update s.conn i ((s.conn i).recv cfg.nanoInit bs)) ∨
    ((s.handshake cfg true bs i).run = false ∧ (s.conn i).recv cfg.nanoInit bs = .down) := by
  have hrecv : (s.conn i).recv cfg.nanoInit bs =
      if cString bs = cfg.nanoInit then .up (s.nano i).outdat
      else if bs.head? = some tagI ∨ bs.head? = some tagR then .greeting (s.nano i).outdat
      else .down := by
    rw [conn_of_attached hi, if_pos hinit, Conn.recv, if_pos hbs]
  rw [hrecv, handshake]
  by_cases hversion : cString bs = cfg.nanoInit
  · -- the board is connected
    left
    rw [if_pos hversion, if_neg (not_not.mpr hversion)]
    set t := ((s.greet bs i).accept i).sendIndat true i with ht
    have hnano : t.nano = Function.update s.nano i { s.nano i with init := false } := rfl
    have hbits : t.connBoards = Function.update s.connBoards i true := rfl
    have honly : OnlyBoard i s t := by
      refine ⟨rfl, rfl, rfl, rfl, ?_, fun j hj => ?_, fun j hj => ?_⟩
      · rw [hnano, Function.update_self]
      · rw [hnano, Function.update_of_ne hj]
      · rw [hbits, Function.update_of_ne hj]
    refine ⟨honly.settled hs hi fun _ => ?_, ?_⟩
    · rw [hbits, Function.update_self]
    · rw [honly.conn hi, hnano, Function.update_self]
      rfl
  · rw [if_neg hversion, if_pos hversion]
    by_cases htag : bs.head? = some tagI ∨ bs.head? = some tagR
    · -- the message is ignored
      left
      rw [if_pos htag, if_pos htag]
      set t := (s.greet bs i).ignore i with ht
      have hnano : t.nano =
          Function.update (Function.update s.nano i { s.nano i with init := false }) i
            { Function.update s.nano i { s.nano i with init := false } i with init := true } := rfl
      rw [Function.update_idem, Function.update_self] at hnano
      have honly : OnlyBoard i s t := by
        refine ⟨rfl, rfl, rfl, rfl, ?_, fun j hj => ?_, fun _ _ => rfl⟩
        · rw [hnano, Function.update_self]
        · rw [hnano, Function.update_of_ne hj]
      refine ⟨honly.settled hs hi fun hinit' => ?_, ?_⟩
      · rw [hnano, Function.update_self] at hinit'
        exact absurd hinit' (by simp)
      · rw [honly.conn hi, hnano, Function.update_self]
        rfl
    · -- the server stops
      right
      rw [if_neg htag, if_neg htag]
      exact ⟨rfl, rfl⟩

/-- **What a message does to the connections.** It moves the connection of its board, or stops the
server when this connection goes down. -/
theorem conn_message (cfg : ServerConfig) (bs : List UInt8) (hs : s.Settled)
    (hi : (s.nano i).sd ∈ s.rfds) :
    ((s.message cfg true bs i).Settled ∧
      (s.message cfg true bs i).conn =
        Function.update s.conn i ((s.conn i).recv cfg.nanoInit bs)) ∨
    ((s.message cfg true bs i).run = false ∧ (s.conn i).recv cfg.nanoInit bs = .down) := by
  by_cases hbs : NotRecord bs
  · have hfill : Alike s (s.fill bs) :=
      ⟨rfl, rfl, rfl, rfl, rfl, fun _ => rfl, fun _ => rfl, fun _ => rfl⟩
    cases hinit : (s.nano i).init with
    | true =>
      rw [message_handshake hbs hinit, ← hfill.conn]
      exact conn_handshake (hfill.settled hs) hi hbs hinit
    | false =>
      -- wrong data
      have hdown : (s.conn i).recv cfg.nanoInit bs = .down := by
        rw [conn_of_attached hi, hinit, if_neg Bool.false_ne_true, Conn.recv, if_pos hbs]
      rw [message_wrongData hbs hinit, hdown, ← hfill.conn]
      have hdrop := dropped_wrongData i (s.fill bs)
      cases hrun : ((s.fill bs).wrongData i).run with
      | true =>
        exact Or.inl ⟨hdrop.settled (hfill.settled hs) hi hrun, hdrop.conn (hfill.settled hs) hi⟩
      | false => exact Or.inr ⟨rfl, rfl⟩
  · exact Or.inl (conn_record hs hi hbs)

/-! ### The loop over the boards -/

/-- The boards keep their descriptors, and a server that was stopped stays so. -/
structure Keeps (s s' : Server) : Prop where
  sd : ∀ j, (s'.nano j).sd = (s.nano j).sd
  stopped : s.run = false → s'.run = false

theorem Keeps.trans {s'' : Server} (h : Keeps s s') (h' : Keeps s' s'') : Keeps s s'' :=
  ⟨fun j => (h'.sd j).trans (h.sd j), fun hrun => h'.stopped (h.stopped hrun)⟩

theorem keeps_updateNano {f : NanoBoard → NanoBoard} (hf : ∀ b, (f b).sd = b.sd) (i : Fin 4)
    (s : Server) : Keeps s (s.updateNano i f) := by
  refine ⟨fun j => ?_, id⟩
  obtain rfl | hne := eq_or_ne j i
  · rw [nano_updateNano_self, hf]
  · rw [nano_updateNano_of_ne hne]

theorem keeps_sendIndat (send : Bool) (i : Fin 4) (s : Server) : Keeps s (s.sendIndat send i) := by
  cases send with
  | true => exact ⟨fun _ => rfl, id⟩
  | false => exact ⟨fun _ => rfl, fun _ => rfl⟩

theorem keeps_handshake (cfg : ServerConfig) (send : Bool) (bs : List UInt8) (i : Fin 4)
    (s : Server) : Keeps s (s.handshake cfg send bs i) := by
  have hnano := keeps_updateNano (f := fun b => { b with init := false }) (fun _ => rfl) i s
  have hgreet : Keeps s (s.greet bs i) := ⟨hnano.sd, hnano.stopped⟩
  have hstop : Keeps s (s.greet bs i).stop := ⟨hgreet.sd, fun _ => rfl⟩
  have haccept : Keeps s ((s.greet bs i).accept i) := ⟨hgreet.sd, hgreet.stopped⟩
  refine handshake_cases (hgreet.trans ?_) (hstop.trans (keeps_sendIndat send i _))
    (haccept.trans (keeps_sendIndat send i _))
  exact keeps_updateNano (f := fun b => { b with init := true }) (fun _ => rfl) i _

theorem keeps_wrongData (i : Fin 4) (s : Server) : Keeps s (s.wrongData i) := by
  refine ⟨fun j => by rw [(dropped_wrongData i s).nano], fun hrun => ?_⟩
  exact wrongData_cases (P := fun t => t.run = false) hrun rfl

theorem keeps_message (cfg : ServerConfig) (send : Bool) (bs : List UInt8) (i : Fin 4)
    (s : Server) : Keeps s (s.message cfg send bs i) := by
  have hfill : Keeps s (s.fill bs) := ⟨fun _ => rfl, id⟩
  by_cases hbs : NotRecord bs
  · cases hinit : (s.nano i).init with
    | true =>
      rw [message_handshake hbs hinit]
      exact hfill.trans (keeps_handshake cfg send bs i _)
    | false =>
      rw [message_wrongData hbs hinit]
      exact hfill.trans (keeps_wrongData i _)
  · have hnano := keeps_updateNano (f := fun b => { b with outdat := Outdata.ofSerial (bs.drop 1) })
      (fun _ => rfl) i (s.fill bs)
    have hstore : Keeps (s.fill bs) ((s.fill bs).storeOutdat bs i) := ⟨hnano.sd, hnano.stopped⟩
    rw [message_record hbs]
    exact (hfill.trans hstore).trans (keeps_sendIndat send i _)

theorem keeps_readBoard (cfg : ServerConfig) (io : BoardIO) (rfd : Finset ℤ) (i : Fin 4)
    (s : Server) : Keeps s (s.readBoard cfg io rfd i) := by
  by_cases hready : (s.nano i).sd ∈ rfd
  · have hreceive : Keeps s ((s.isSet i).receive i) := ⟨fun _ => rfl, id⟩
    rw [readBoard_of_ready hready]
    cases io.recv.map (List.take ethFrameLen) with
    | none => exact ⟨fun _ => rfl, id⟩
    | some bs => exact hreceive.trans (keeps_message cfg io.send bs i _)
  · rw [readBoard_of_not_ready hready]
    exact ⟨fun _ => rfl, id⟩

/-- Reading from a board moves its connection, or stops the server when this connection goes
down. -/
theorem conn_readBoard (cfg : ServerConfig) (hs : s.Settled) (hrecv : (inp.board i).recv ≠ none)
    (hsend : (inp.board i).send = true) (hi : (s.nano i).sd ∈ rfd → (s.nano i).sd ∈ s.rfds) :
    ((s.readBoard cfg (inp.board i) rfd i).Settled ∧
      (s.readBoard cfg (inp.board i) rfd i).conn =
        Function.update s.conn i ((s.conn i).next cfg.nanoInit (readyMessage inp rfd i s))) ∨
    ((s.readBoard cfg (inp.board i) rfd i).run = false ∧
      (s.conn i).next cfg.nanoInit (readyMessage inp rfd i s) = .down ∧ s.conn i ≠ .down) := by
  rw [readyMessage]
  by_cases hready : (s.nano i).sd ∈ rfd
  · rw [readBoard_of_ready hready, if_pos hready, hsend]
    obtain ⟨bs, hbs⟩ := Option.ne_none_iff_exists'.mp hrecv
    rw [hbs, Option.map_some]
    have halike : Alike s ((s.isSet i).receive i) :=
      ⟨rfl, rfl, rfl, rfl, rfl, fun _ => rfl, fun _ => rfl, fun _ => rfl⟩
    have hattached : s.conn i ≠ .down := by
      rw [conn_of_attached (hi hready)]
      split_ifs <;> simp
    have hmessage := conn_message cfg (bs.take ethFrameLen) (halike.settled hs) (hi hready)
    rw [halike.conn] at hmessage
    exact hmessage.imp_right fun ⟨hrun, hdown⟩ => ⟨hrun, hdown, hattached⟩
  · have halike : Alike s (s.isSet i) :=
      ⟨rfl, rfl, rfl, rfl, rfl, fun _ => rfl, fun _ => rfl, fun _ => rfl⟩
    rw [readBoard_of_not_ready hready, if_neg hready, Conn.next, halike.conn,
      Function.update_eq_self]
    exact Or.inl ⟨halike.settled hs, rfl⟩

theorem conn_readBoards (cfg : ServerConfig)
    (hboard : ∀ i, (inp.board i).recv ≠ none ∧ (inp.board i).send = true)
    {l : List (Fin 4)} (hl : l.Nodup) (hs : s.Settled)
    (hready : ∀ i ∈ l, (s.nano i).sd ∈ rfd → s.conn i ≠ .down) :
    ((l.foldl (fun s i => s.readBoard cfg (inp.board i) rfd i) s).Settled ∧
      ∀ i, (l.foldl (fun s i => s.readBoard cfg (inp.board i) rfd i) s).conn i =
        if i ∈ l then (s.conn i).next cfg.nanoInit (readyMessage inp rfd i s) else s.conn i) ∨
    ((l.foldl (fun s i => s.readBoard cfg (inp.board i) rfd i) s).run = false ∧
      ∃ i ∈ l, (s.conn i).next cfg.nanoInit (readyMessage inp rfd i s) = .down ∧
        s.conn i ≠ .down) := by
  induction l generalizing s with
  | nil => exact Or.inl ⟨hs, fun i => (if_neg List.not_mem_nil).symm⟩
  | cons k l ih =>
    obtain ⟨hk, hl⟩ := List.nodup_cons.mp hl
    have hattached : (s.nano k).sd ∈ rfd → (s.nano k).sd ∈ s.rfds := by
      intro hmem
      by_contra hnot
      exact hready k List.mem_cons_self hmem (if_neg hnot)
    have hkeeps := keeps_readBoard cfg (inp.board k) rfd k s
    rw [List.foldl_cons]
    obtain ⟨hsettled, hconn⟩ | ⟨hrun, hdown⟩ :=
      conn_readBoard cfg hs (hboard k).1 (hboard k).2 hattached
    -- the visit of board `k` leaves the others as they are
    · have hmsg : ∀ i, readyMessage inp rfd i (s.readBoard cfg (inp.board k) rfd k) =
          readyMessage inp rfd i s := by
        intro i
        rw [readyMessage, readyMessage, hkeeps.sd]
      have hothers : ∀ i ≠ k, (s.readBoard cfg (inp.board k) rfd k).conn i = s.conn i := by
        intro i hne
        rw [hconn, Function.update_of_ne hne]
      have hne : ∀ i ∈ l, i ≠ k := by
        rintro i hi rfl
        exact hk hi
      obtain ⟨hloop, hconns⟩ | ⟨hrun, i, hi, hdown, hup⟩ := ih hl hsettled fun i hi hmem => by
        rw [hkeeps.sd] at hmem
        rw [hothers i (hne i hi)]
        exact hready i (List.mem_cons_of_mem k hi) hmem
      · refine Or.inl ⟨hloop, fun i => ?_⟩
        rw [hconns i, hmsg]
        obtain rfl | hik := eq_or_ne i k
        · rw [if_neg hk, if_pos List.mem_cons_self, hconn, Function.update_self]
        · rw [hothers i hik]
          exact if_congr (by simp [hik]) rfl rfl
      · rw [hmsg, hothers i (hne i hi)] at hdown
        rw [hothers i (hne i hi)] at hup
        exact Or.inr ⟨hrun, i, List.mem_cons_of_mem k hi, hdown, hup⟩
    · refine Or.inr ⟨?_, k, List.mem_cons_self, hdown⟩
      exact Sweep.foldl_invariant (I := fun t : Server => t.run = false)
        (fun t i => (keeps_readBoard cfg (inp.board i) rfd i t).stopped) l hrun

end Server

end LegoCar
