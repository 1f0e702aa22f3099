import Mathlib
import LegoCar.Lib.Sweep
import LegoCar.Server.Discipline

/-!
# The handshake with a board

A connection to a board is up once the version string was received on it. Only then should the bit
of the board be set, its records be stored, and frames be sent to it (`HandshakeSafe`).

The attempt to reconnect a board leaves its bit alone until then. Start-up does not: it sets the
bit of every board when the `'I'` is sent, so no run of the server is safe (`handshake_never`).
Nor does the server look at the handshake before it stores a record, and it sends a frame after a
wrong version string too: `servedSafe_readBoard` says exactly which messages are served safely.
-/

namespace LegoCar

open Posix

namespace Server

/-- All records were stored, and all frames were sent, on open connections on which the version
string was received. -/
def ServedSafe (s : Server) : Prop := ∀ e ∈ s.served, e.isOpen = true ∧ e.isMatched = true

/-- The connection of board `i` is open, and the version string was received on it. -/
def Up (i : Fin 4) (s : Server) : Prop := s.Live i ∧ s.matched i = true

/-- The bits stand for connections that are up, and only such connections are served. -/
def HandshakeSafe (s : Server) : Prop := (∀ i, s.connBoards i = true → s.Up i) ∧ s.ServedSafe

variable {cfg : ServerConfig} {io : BoardIO} {rfd : Finset ℤ} {i : Fin 4} {s s' : Server}

/-! ### Messages -/

theorem servedSafe_serve : (s.serve i).ServedSafe ↔ s.ServedSafe ∧ s.Up i :=
  List.forall_mem_append.trans (and_congr_right fun _ => by simp [Up, Live])

theorem servedSafe_sendIndat {send : Bool} :
    (s.sendIndat send i).ServedSafe ↔ s.ServedSafe ∧ (send = true → s.Up i) := by
  cases send with
  | true =>
    rw [forall_prop_of_true rfl]
    exact servedSafe_serve (s := s.fill (tagS :: (s.nano i).indat.serial))
  | false => exact (and_iff_left fun h => absurd h Bool.false_ne_true).symm

/-- A message is served safely: a record on a connection that is up, and a message that is compared
with the version string, and answered, if it is the version string or the connection is up. -/
def SafeMessage (cfg : ServerConfig) (send : Bool) (bs : List UInt8) (i : Fin 4) (s : Server) :
    Prop :=
  if NotRecord bs then
    s.Answered cfg bs i → send = true →
      s.Live i ∧ (cString bs = cfg.nanoInit ∨ s.matched i = true)
  else s.Up i

theorem servedSafe_wrongData : (s.wrongData i).ServedSafe ↔ s.ServedSafe :=
  wrongData_cases (P := fun t => t.ServedSafe ↔ s.ServedSafe) Iff.rfl Iff.rfl

/-- A message that is not a record, before the version string was received. -/
theorem servedSafe_handshake {send : Bool} {bs : List UInt8} (hrecord : NotRecord bs)
    (hinit : (s.nano i).init = true) :
    (s.handshake cfg send bs i).ServedSafe ↔ s.ServedSafe ∧ s.SafeMessage cfg send bs i := by
  have hlive : (s.greet bs i).Live i ↔ s.Live i := (greet_onlyMemory bs i s).live
  rw [SafeMessage, if_pos hrecord, handshake]
  split_ifs with hne hignore
  · -- ignored, hence not answered
    refine (and_iff_left fun hans => ?_).symm
    rcases hans with hnot | ⟨-, hsent⟩
    · exact absurd hrecord hnot
    · exact absurd ⟨hne, hignore⟩ hsent
  · have hans : s.Answered cfg bs i := Or.inr ⟨hinit, fun hboth => hignore hboth.2⟩
    rw [servedSafe_sendIndat, forall_prop_of_true hans, or_iff_right hne]
    exact and_congr_right fun _ => forall_congr' fun _ => and_congr_left fun _ => hlive
  · have hans : s.Answered cfg bs i := Or.inr ⟨hinit, fun hboth => hne hboth.1⟩
    have hmatched : ((s.greet bs i).accept i).matched i = true := Function.update_self _ _ _
    rw [servedSafe_sendIndat, forall_prop_of_true hans]
    refine and_congr_right fun _ => forall_congr' fun _ => ?_
    exact and_congr hlive (iff_of_true hmatched (Or.inl (not_not.mp hne)))

theorem servedSafe_message {send : Bool} {bs : List UInt8} :
    (s.message cfg send bs i).ServedSafe ↔ s.ServedSafe ∧ s.SafeMessage cfg send bs i := by
  by_cases hrecord : NotRecord bs
  · cases hinit : (s.nano i).init with
    | true =>
      rw [message_handshake hrecord hinit]
      exact servedSafe_handshake (s := s.fill bs) hrecord hinit
    | false =>
      -- wrong data is not answered
      have hnot : ¬s.Answered cfg bs i := by
        rintro (hnot | ⟨hinit', -⟩)
        · exact hnot hrecord
        · exact absurd (hinit.symm.trans hinit') Bool.false_ne_true
      rw [message_wrongData hrecord hinit, servedSafe_wrongData, SafeMessage, if_pos hrecord]
      exact (and_iff_left fun hans => absurd hans hnot).symm
  · have hup : ((s.fill bs).storeOutdat bs i).Up i ↔ s.Up i :=
      and_congr_left fun _ => (storeOutdat_onlyMemory bs i (s.fill bs)).live
    have hstore : ((s.fill bs).storeOutdat bs i).ServedSafe ↔ s.ServedSafe ∧ s.Up i :=
      servedSafe_serve.trans (and_congr_right fun _ => hup)
    rw [message_record hrecord, servedSafe_sendIndat, hup, hstore, SafeMessage, if_neg hrecord,
      and_assoc]
    exact and_congr_right fun _ => and_iff_left_of_imp fun hs _ => hs

/-- **Which messages are served safely.** -/
theorem servedSafe_readBoard :
    (s.readBoard cfg io rfd i).ServedSafe ↔ s.ServedSafe ∧ ((s.nano i).sd ∈ rfd →
      ∀ bs, io.recv.map (List.take ethFrameLen) = some bs → s.SafeMessage cfg io.send bs i) := by
  by_cases hready : (s.nano i).sd ∈ rfd
  · rw [readBoard_of_ready hready, forall_prop_of_true hready]
    cases hrecv : io.recv.map (List.take ethFrameLen) with
    | none => exact (and_iff_left fun bs hbs => absurd hbs (by simp)).symm
    | some bs =>
      refine servedSafe_message.trans (and_congr_right fun _ => ?_)
      refine ⟨fun hsafe bs' hbs => ?_, fun hall => hall bs rfl⟩
      obtain rfl := Option.some.inj hbs
      exact hsafe
  · rw [readBoard_of_not_ready hready]
    exact (and_iff_left fun hmem => absurd hmem hready).symm

/-! ### Start-up -/

/-- Start-up sets the bits of all boards before anything was received. -/
theorem startUp_unmatched {start : StartInput} {s₀ : Server} (h : startUp start = some s₀) :
    ∀ i, s₀.connBoards i = true ∧ s₀.matched i = false := by
  obtain ⟨s, hboards, rfl⟩ := startUp_cases h
  have hs : ∀ i ∈ List.finRange 4, s.connBoards i = true ∧ s.matched i = false := by
    -- every board gets its bit, and the later ones leave it alone
    refine Sweep.foldlM_establish
      (C := fun i (s : Server) => s.connBoards i = true ∧ s.matched i = false)
      (fun s i s' hconn => ?_) (fun s i j s' hconn hj => ?_) _ hboards
    · rw [(connectBoard_spec hconn).connBoards, (connectBoard_spec hconn).matched]
      exact ⟨Function.update_self _ _ _, Function.update_self _ _ _⟩
    · rw [(connectBoard_spec hconn).connBoards, (connectBoard_spec hconn).matched]
      obtain rfl | hij := eq_or_ne j i
      · exact ⟨Function.update_self _ _ _, Function.update_self _ _ _⟩
      · rw [Function.update_of_ne hij, Function.update_of_ne hij]
        exact hj
  exact fun i => hs i (List.mem_finRange i)

/-- **No run is safe.** Already when the loop is entered, the bits stand for connections on which
nothing was received. -/
theorem handshake_never (parse : ParseCommand) (cfg : ServerConfig) (start : StartInput)
    (inp : ℕ → LoopInput) (s₀ : Server) (h : startUp start = some s₀) :
    ¬ ∀ n, (serverAt parse cfg s₀ inp n).HandshakeSafe := by
  intro hall
  obtain ⟨hbit, hmatched⟩ := startUp_unmatched h 0
  have hup : s₀.Up 0 := (hall 0).1 0 hbit
  exact absurd (hmatched.symm.trans hup.2) Bool.false_ne_true

/-- The start-up in which every call succeeds. -/
theorem handshake_never_started :
    ¬ ∀ n, (serverAt replyDefault carserverCfg started (fun _ => {}) n).HandshakeSafe :=
  handshake_never replyDefault carserverCfg {} (fun _ => {}) started startUp_started

/-- Board 0 sends a record before the version string. -/
def recordFirst : LoopInput where
  select := .ready {3}
  board := fun _ => { recv := some (tagR :: List.replicate 52 1) }

/-- **The handshake is not respected.** When the loop is entered the bit of board 0 is set and
nothing was received from it; a record it sends before the version string is stored and answered. -/
theorem handshake_fails :
    (started.connBoards 0 = true ∧ started.matched 0 = false) ∧
      (serverAt replyDefault carserverCfg started (fun _ => recordFirst) 1).served =
        [⟨0, true, false⟩, ⟨0, true, false⟩] ∧
      ¬ ∀ (start : StartInput) (inp : ℕ → LoopInput) (s₀ : Server) (n : ℕ),
        startUp start = some s₀ → (serverAt replyDefault carserverCfg s₀ inp n).HandshakeSafe := by
  have hbit : started.connBoards 0 = true ∧ started.matched 0 = false := by decide +kernel
  refine ⟨hbit, by decide +kernel, fun hall => ?_⟩
  have hup : started.Up 0 := (hall {} (fun _ => {}) started 0 startUp_started).1 0 hbit.1
  exact absurd (hbit.2.symm.trans hup.2) Bool.false_ne_true

end Server

end LegoCar
