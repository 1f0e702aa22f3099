import Mathlib
import LegoCar.Lib.Sweep
import LegoCar.Server.ParseCommand
import LegoCar.Server.SpeedLimit

/-!
# What the server commands

The stored speeds of the car are those of the last command that was accepted, and the set values
that the boards receive never exceed 200.

The bound needs every branch of the handlers: a distance that is not a number takes no branch of
the distance handler but the last, whose limit is then not a number, and the macros return their
second argument, the speed without the limit (`limitSpeed_mem`). It holds for every `Arithmetic`,
since rounding keeps the order and the bounds. Between `handle_car` and the frames of an iteration
nothing changes the set values (`SameCommand`).
-/

namespace LegoCar

open Stdio ExtRat

/-! ### The range of the set values -/

/-- A limit of a handler: a part of the full speed, or not a number. -/
def PartOrNan (x : ExtRat) : Prop := x = .nan ∨ ∃ q : ℚ, x = .fin q ∧ 0 ≤ q ∧ q ≤ 1

theorem partOrNan_zero : PartOrNan (.fin 0) := Or.inr ⟨0, rfl, le_rfl, zero_le_one⟩

theorem partOrNan_one : PartOrNan (.fin 1) := Or.inr ⟨1, rfl, zero_le_one, le_rfl⟩

/-- A part of the full speed stays one when it is converted to another type. -/
theorem PartOrNan.apply {x : ExtRat} (h : PartOrNan x) (R : Rounding) : PartOrNan (R.apply x) := by
  obtain rfl | ⟨q, rfl, hq, hq'⟩ := h
  · exact Or.inl rfl
  · obtain ⟨p, hp, hlo, hhi⟩ := R.round_mem (m := 0) (n := 1) (by norm_num) (by norm_num)
      (by exact_mod_cast hq) (by exact_mod_cast hq')
    exact Or.inr ⟨p, hp, by exact_mod_cast hlo, by exact_mod_cast hhi⟩

/-- The ramp of a distance handler, at a distance on it. -/
theorem ramp_mem (A : Arithmetic) {cfg : CarConfig} {d : ℚ} (hmin : cfg.distMin ≤ d)
    (hbreak : d ≤ cfg.distBreakBegin) :
    PartOrNan (A.float.apply (A.double.div
      (A.double.mul (A.double.sub (.fin d) (.fin cfg.distMin)) (.fin 1))
      (A.double.sub (.fin cfg.distBreakBegin) (.fin cfg.distMin)))) := by
  have hzero := A.double.mono (sub_nonneg.mpr hmin)
  rw [A.double.round_zero] at hzero
  have hone : A.double.mul (A.double.sub (.fin d) (.fin cfg.distMin)) (.fin 1) =
      A.double.sub (.fin d) (.fin cfg.distMin) := A.double.mul_fin_one _
  rw [hone]
  exact PartOrNan.apply (A.double.div_mem hzero
    (A.double.mono (sub_le_sub_right hbreak cfg.distMin))) A.float

/-- Whatever distance a board reports, and whatever the thresholds are, the limits of the handler
are parts of the full speed, or not a number. -/
theorem distHandler_mem (A : Arithmetic) (cfg : CarConfig) (d : ExtRat) :
    PartOrNan (distHandler A cfg d).vlMax ∧ PartOrNan (distHandler A cfg d).vrMax := by
  unfold distHandler
  split_ifs with hfar hnear
  · exact ⟨partOrNan_one, partOrNan_one⟩
  · exact ⟨partOrNan_zero, partOrNan_zero⟩
  cases d with
  | fin q =>
    obtain ⟨-, hbreak⟩ := not_or.mp hfar
    have hramp := ramp_mem A (d := q) (by simpa using hnear) (by simpa using hbreak)
    exact ⟨hramp, hramp⟩
  | nan => exact ⟨Or.inl rfl, Or.inl rfl⟩
  | inf negative =>
    -- infinite distances are far, or near
    cases negative
    · exact absurd (Or.inr rfl) hfar
    · exact absurd rfl hnear

/-- The macros return a speed that is not a number only if their second argument is not one. -/
theorem macroMIN_nan (e : ExtRat) : macroMIN .nan e = e := by
  rw [macroMIN, lt_nan_right, if_neg Bool.false_ne_true]

/-- The speed of a side is at most the full speed. -/
theorem limitSpeed_mem (A : Arithmetic) (cfg : CarConfig) {v batt : ℚ} {front rear : ExtRat}
    (hv : -1 ≤ v ∧ v ≤ 1) (hbatt : batt = 0 ∨ batt = 1) (hfront : PartOrNan front)
    (hrear : PartOrNan rear) :
    ∃ e : ℚ, limitSpeed A cfg v (.fin batt) front rear = .fin e ∧ -1 ≤ e ∧ e ≤ 1 := by
  obtain ⟨b, hb, hb1, hb2⟩ : ∃ b : ℚ,
      (if cfg.enBattHandler then A.float.mul (.fin v) (.fin batt) else .fin v) = .fin b ∧
        -1 ≤ b ∧ b ≤ 1 := by
    split_ifs
    · have hpart : ((-1 : ℤ) : ℚ) ≤ v * batt ∧ v * batt ≤ (1 : ℤ) := by
        push_cast
        rcases hbatt with rfl | rfl <;> constructor <;> linarith [hv.1, hv.2]
      obtain ⟨b, hround, hlo, hhi⟩ := A.float.round_mem (by norm_num) (by norm_num) hpart.1 hpart.2
      exact ⟨b, hround, by exact_mod_cast hlo, by exact_mod_cast hhi⟩
    · exact ⟨v, rfl, hv.1, hv.2⟩
  -- the front handler
  obtain ⟨f, hf, hf1, hf2⟩ : ∃ f : ℚ,
      (if cfg.enDistHandlerFront ∧ 0 < v then macroMIN front (.fin b) else .fin b) = .fin f ∧
        -1 ≤ f ∧ f ≤ 1 := by
    by_cases hen : cfg.enDistHandlerFront ∧ 0 < v
    · rw [if_pos hen]
      obtain rfl | ⟨q, rfl, hq1, hq2⟩ := hfront
      · exact ⟨b, macroMIN_nan _, hb1, hb2⟩
      · exact ⟨max q b, macroMIN_fin q b, hb1.trans (le_max_right q b), max_le hq2 hb2⟩
    · rw [if_neg hen]
      exact ⟨b, rfl, hb1, hb2⟩
  unfold limitSpeed
  dsimp only
  rw [hb, hf]
  by_cases hen : cfg.enDistHandlerRear ∧ v < 0
  · rw [if_pos hen]
    obtain rfl | ⟨q, rfl, hq1, hq2⟩ := hrear
    · exact ⟨f, macroMIN_nan _, hf1, hf2⟩
    · refine ⟨max (-q) f, macroMAX_fin (-q) f, hf1.trans (le_max_right _ _), ?_⟩
      exact max_le (by linarith) hf2
  · rw [if_neg hen]
    exact ⟨f, rfl, hf1, hf2⟩

/-- A set value is at most 200. -/
def Bounded (W : Int32) : Prop := -200 ≤ W.toInt ∧ W.toInt ≤ 200

instance (W : Int32) : Decidable (Bounded W) := inferInstanceAs (Decidable (_ ∧ _))

theorem bounded_of_speed (R : Rounding) {e : ℚ} (h : -1 ≤ e ∧ e ≤ 1) {top : ℚ}
    (htop : top = 200 ∨ top = -200) :
    Bounded (Int32.ofInt (R.mul (.fin e) (.fin top)).trunc) := by
  have hproduct : ((-200 : ℤ) : ℚ) ≤ e * top ∧ e * top ≤ (200 : ℤ) := by
    push_cast
    rcases htop with rfl | rfl <;> constructor <;> linarith [h.1, h.2]
  obtain ⟨w, hround, hlo, hhi⟩ := R.round_mem (by norm_num) (by norm_num) hproduct.1 hproduct.2
  push_cast at hlo hhi
  have hmem : -200 ≤ (ExtRat.fin w).trunc ∧ (ExtRat.fin w).trunc ≤ 200 := by
    rcases le_total 0 w with hpos | hneg
    · obtain ⟨h0, hle⟩ := trunc_fin_mem_of_nonneg (n := 200) hpos (by exact_mod_cast hhi)
      exact ⟨by omega, by exact_mod_cast hle⟩
    · obtain ⟨hge, h0⟩ := trunc_fin_mem_of_nonpos (n := 200) hneg (by exact_mod_cast hlo)
      exact ⟨by exact_mod_cast hge, by omega⟩
  rw [R.mul_fin, hround, Bounded, Int32.toInt_ofInt_of_le (by omega) (by omega)]
  exact hmem

/-- The set values of `handle_car`: one for the boards on the right and one for those on the left,
both at most 200. -/
theorem setValues_bounded (A : Arithmetic) (cfg : CarConfig) (r : Readings) {vLeft vRight : ℚ}
    (hl : -1 ≤ vLeft ∧ vLeft ≤ 1) (hr : -1 ≤ vRight ∧ vRight ≤ 1) :
    ∃ vr vl, Bounded vr ∧ Bounded vl ∧ setValues A cfg r vLeft vRight = ![vr, vr, vl, vl] := by
  obtain ⟨hbl, hbr⟩ := batteryHandler_limits r.ubatPower r.ubatCompute r.distanceFront
    r.distanceRear
  obtain ⟨el, hel, hel'⟩ := limitSpeed_mem A cfg hl (battLimit_eq r.ubatPower r.ubatCompute)
    (distHandler_mem A cfg r.distanceFront).1 (distHandler_mem A cfg r.distanceRear).1
  obtain ⟨er, her, her'⟩ := limitSpeed_mem A cfg hr (battLimit_eq r.ubatPower r.ubatCompute)
    (distHandler_mem A cfg r.distanceFront).2 (distHandler_mem A cfg r.distanceRear).2
  refine ⟨_, _, bounded_of_speed A.float her' (Or.inl rfl),
    bounded_of_speed A.float hel' (Or.inr rfl), ?_⟩
  rw [← hbl] at hel
  rw [← hbr] at her
  rw [setValues, leftSpeed, rightSpeed, hel, her]
  rfl

/-! ### What an iteration receives and sends -/

namespace Server

instance (cfg : ServerConfig) (bs : List UInt8) (i : Fin 4) (s : Server) :
    Decidable (s.Answered cfg bs i) :=
  inferInstanceAs (Decidable (_ ∨ _))

/-- The state after `select`, and the descriptors that are handled; none when a signal interrupted
the call. -/
def selected (cfg : ServerConfig) (inp : LoopInput) (s : Server) : Option (Server × Finset ℤ) :=
  let s := s.prepare cfg inp
  match s.select inp with
  | .interrupted => none
  | .failed => some (s.stop, s.rfds)
  | .ready rfd => some (s, rfd)

/-- The message of the client that is answered when the descriptors in `rfd` are ready. -/
def clientMessage (inp : LoopInput) (rfd : Finset ℤ) (s : Server) : Option (List UInt8) :=
  if s.sdDom ≠ -1 ∧ s.sdDom ∈ rfd then
    (inp.clientRecv.map (List.take ethFrameLen)).filter fun bs => decide (bs ≠ [])
  else none

/-- The message of the client that an iteration answers. -/
def answered (cfg : ServerConfig) (inp : LoopInput) (s : Server) : Option (List UInt8) :=
  if s.run then
    (s.selected cfg inp).bind fun r => clientMessage inp r.2 (r.1.acceptClient inp r.2)
  else none

/-- The frame that a visit sends to its board. -/
def frameTo (cfg : ServerConfig) (io : BoardIO) (rfd : Finset ℤ) (i : Fin 4) (s : Server) :
    Option (List UInt8) :=
  if (s.nano i).sd ∈ rfd then
    (io.recv.map (List.take ethFrameLen)).bind fun bs =>
      if s.Answered cfg bs i ∧ io.send = true then some ((s.readBoard cfg io rfd i).buffer.take 9)
      else none
  else none

/-- The frames that the loop over the boards sends. -/
def framesOf (cfg : ServerConfig) (inp : LoopInput) (rfd : Finset ℤ) :
    List (Fin 4) → Server → List (Fin 4 × List UInt8)
  | [], _ => []
  | i :: l, s => ((s.frameTo cfg (inp.board i) rfd i).map fun f => (i, f)).toList ++
      framesOf cfg inp rfd l (s.readBoard cfg (inp.board i) rfd i)

/-- The frames that an iteration sends, each with its board. -/
def frames (parse : ParseCommand) (cfg : ServerConfig) (inp : LoopInput) (s : Server) :
    List (Fin 4 × List UInt8) :=
  if s.run then
    match s.selected cfg inp with
    | none => []
    | some (t, rfd) =>
      let r := (t.acceptClient inp rfd).serveClient parse inp rfd
      if r.2 then [] else framesOf cfg inp rfd (List.finRange 4) r.1
  else []

variable {parse : ParseCommand} {cfg : ServerConfig} {inp : LoopInput} {io : BoardIO}
  {rfd : Finset ℤ} {i : Fin 4} {s s' : Server} {bs : List UInt8} {vr vl : Int32}

theorem iterate_eq (parse : ParseCommand) (cfg : ServerConfig) (inp : LoopInput) (s : Server) :
    s.iterate parse cfg inp =
      match s.selected cfg inp with
      | none => s.prepare cfg inp
      | some r => r.1.handle parse cfg inp r.2 := by
  unfold iterate selected
  dsimp only
  cases (s.prepare cfg inp).select inp with
  | interrupted => rfl
  | failed => rfl
  | ready rfd => rfl

/-! ### What an iteration leaves alone -/

/-- The memory that the car, the boards and the buffer are in is the same. -/
structure SameMemory (s s' : Server) : Prop where
  nano : s'.nano = s.nano
  car : s'.car = s.car
  buffer : s'.buffer = s.buffer

theorem SameMemory.refl (s : Server) : SameMemory s s := ⟨rfl, rfl, rfl⟩

theorem SameMemory.trans {s'' : Server} (h : SameMemory s s') (h' : SameMemory s' s'') :
    SameMemory s s'' :=
  ⟨h'.nano.trans h.nano, h'.car.trans h.car, h'.buffer.trans h.buffer⟩

theorem checkMessages_memory (cfg : ServerConfig) (i : Fin 4) (s : Server) :
    SameMemory s (s.checkMessages cfg i) :=
  checkMessages_cases ⟨rfl, rfl, rfl⟩ (.refl s) fun _ ht => ht.trans ⟨rfl, rfl, rfl⟩

theorem tick_memory (cfg : ServerConfig) (inp : LoopInput) (s : Server) :
    SameMemory s (s.tick cfg inp) :=
  tick_invariant (fun t i ht => ht.trans (checkMessages_memory cfg i t))
    (fun _ ht => ht.trans ⟨rfl, rfl, rfl⟩) (.refl s)

theorem acceptClient_memory (inp : LoopInput) (rfd : Finset ℤ) (s : Server) :
    SameMemory s (s.acceptClient inp rfd) := by
  unfold acceptClient
  split_ifs <;> exact ⟨rfl, rfl, rfl⟩

theorem clr_close_memory (who : Owner) (fd : ℤ) (s : Server) :
    SameMemory s ((s.fdClr who fd).closeSd who fd) := ⟨rfl, rfl, rfl⟩

theorem setBit_memory (i : Fin 4) (b : Bool) (s : Server) : SameMemory s (s.setBit i b) :=
  ⟨rfl, rfl, rfl⟩

theorem dropTwice_memory (i : Fin 4) (s : Server) : SameMemory s (s.dropTwice i) :=
  ((clr_close_memory _ _ s).trans (setBit_memory i false _)).trans (clr_close_memory _ _ _)

theorem wrongData_memory (i : Fin 4) (s : Server) : SameMemory s (s.wrongData i) :=
  wrongData_cases (dropTwice_memory i s) ((dropTwice_memory i s).trans ⟨rfl, rfl, rfl⟩)

/-- The commanded speeds and the records for the boards are the same. -/
structure SameCommand (s s' : Server) : Prop where
  vLeft : s'.car.vLeft = s.car.vLeft
  vRight : s'.car.vRight = s.car.vRight
  indat : ∀ i, (s'.nano i).indat = (s.nano i).indat

theorem SameCommand.refl (s : Server) : SameCommand s s := ⟨rfl, rfl, fun _ => rfl⟩

theorem SameCommand.trans {s'' : Server} (h : SameCommand s s') (h' : SameCommand s' s'') :
    SameCommand s s'' :=
  ⟨h'.vLeft.trans h.vLeft, h'.vRight.trans h.vRight, fun i => (h'.indat i).trans (h.indat i)⟩

theorem sameCommand_of_eq (hcar : s'.car = s.car) (hnano : s'.nano = s.nano) :
    SameCommand s s' :=
  ⟨by rw [hcar], by rw [hcar], fun _ => by rw [hnano]⟩

theorem SameMemory.sameCommand (h : SameMemory s s') : SameCommand s s' :=
  sameCommand_of_eq h.car h.nano

theorem sameCommand_updateNano {f : NanoBoard → NanoBoard} (hf : ∀ b, (f b).indat = b.indat)
    (i : Fin 4) (s : Server) : SameCommand s (s.updateNano i f) := by
  refine ⟨rfl, rfl, fun j => ?_⟩
  obtain rfl | hne := eq_or_ne j i
  · rw [nano_updateNano_self, hf]
  · rw [nano_updateNano_of_ne hne]

theorem sameCommand_openBoard (i : Fin 4) (s : Server) : SameCommand s (s.openBoard i) := by
  have h := sameCommand_updateNano (f := fun b => { b with sd := (s.fds.lowest : ℤ) })
    (fun _ => rfl) i s
  exact ⟨h.vLeft, h.vRight, h.indat⟩

theorem sameCommand_tryConnect (attempt : Attempt) (i : Fin 4) (s : Server) :
    SameCommand s (s.tryConnect attempt i) := by
  have hopen := sameCommand_openBoard i s
  cases attempt with
  | socketFailed =>
    have hsocket := sameCommand_updateNano (f := fun b => { b with sd := -1 }) (fun _ => rfl) i s
    exact ⟨hsocket.vLeft, hsocket.vRight, hsocket.indat⟩
  | connectFailed => exact hopen
  | sendFailed => exact hopen.trans (sameCommand_of_eq rfl rfl)
  | connected =>
    have hinit := sameCommand_updateNano (f := fun b => { b with init := true }) (fun _ => rfl) i
      ((s.openBoard i).fill [tagI])
    exact hopen.trans ⟨hinit.vLeft, hinit.vRight, hinit.indat⟩

theorem sameCommand_reconnect (inp : LoopInput) (i : Fin 4) (s : Server) :
    SameCommand s (s.reconnect inp i) := by
  unfold reconnect
  split_ifs
  · have htime := sameCommand_updateNano
      (f := fun b => { b with lastConnAttempt := inp.retryTime i }) (fun _ => rfl) i s
    exact htime.trans (sameCommand_tryConnect (inp.attempt i) i _)
  · exact .refl s

/-- After `handle_car`, the part before `select` leaves the set values alone. -/
theorem sameCommand_prepare (cfg : ServerConfig) (inp : LoopInput) (s : Server) :
    SameCommand (s.handleCar cfg) (s.prepare cfg inp) :=
  Sweep.foldl_invariant (I := SameCommand (s.handleCar cfg))
    (fun t i ht => ht.trans (sameCommand_reconnect inp i t)) _
    (tick_memory cfg inp _).sameCommand

theorem sameCommand_sendIndat (send : Bool) (i : Fin 4) (s : Server) :
    SameCommand s (s.sendIndat send i) := by
  cases send <;> exact sameCommand_of_eq rfl rfl

theorem sameCommand_greet (bs : List UInt8) (i : Fin 4) (s : Server) :
    SameCommand s (s.greet bs i) := by
  have hinit := sameCommand_updateNano (f := fun b => { b with init := false }) (fun _ => rfl) i s
  exact ⟨hinit.vLeft, hinit.vRight, hinit.indat⟩

theorem sameCommand_handshake (cfg : ServerConfig) (send : Bool) (bs : List UInt8) (i : Fin 4)
    (s : Server) : SameCommand s (s.handshake cfg send bs i) := by
  have hgreet := sameCommand_greet bs i s
  have hstop : SameCommand s (s.greet bs i).stop := hgreet.trans (sameCommand_of_eq rfl rfl)
  have haccept : SameCommand s ((s.greet bs i).accept i) := hgreet.trans (sameCommand_of_eq rfl rfl)
  refine handshake_cases (hgreet.trans ?_) (hstop.trans (sameCommand_sendIndat send i _))
    (haccept.trans (sameCommand_sendIndat send i _))
  exact sameCommand_updateNano (f := fun b => { b with init := true }) (fun _ => rfl) i _

theorem sameCommand_storeOutdat (bs : List UInt8) (i : Fin 4) (s : Server) :
    SameCommand s (s.storeOutdat bs i) := by
  have hstore := sameCommand_updateNano
    (f := fun b => { b with outdat := Outdata.ofSerial (bs.drop 1) }) (fun _ => rfl) i s
  exact ⟨hstore.vLeft, hstore.vRight, hstore.indat⟩

theorem sameCommand_message (cfg : ServerConfig) (send : Bool) (bs : List UInt8) (i : Fin 4)
    (s : Server) : SameCommand s (s.message cfg send bs i) := by
  have hfill : SameCommand s (s.fill bs) := sameCommand_of_eq rfl rfl
  by_cases hrecord : NotRecord bs
  · cases hinit : (s.nano i).init with
    | true =>
      rw [message_handshake hrecord hinit]
      exact hfill.trans (sameCommand_handshake cfg send bs i _)
    | false =>
      rw [message_wrongData hrecord hinit]
      exact hfill.trans (wrongData_memory i _).sameCommand
  · rw [message_record hrecord]
    have hstore := hfill.trans (sameCommand_storeOutdat bs i _)
    exact hstore.trans (sameCommand_sendIndat send i _)

theorem sameCommand_readBoard (cfg : ServerConfig) (io : BoardIO) (rfd : Finset ℤ) (i : Fin 4)
    (s : Server) : SameCommand s (s.readBoard cfg io rfd i) := by
  by_cases hready : (s.nano i).sd ∈ rfd
  · have hreceive : SameCommand s ((s.isSet i).receive i) := sameCommand_of_eq rfl rfl
    rw [readBoard_of_ready hready]
    cases io.recv.map (List.take ethFrameLen) with
    | none => exact hreceive.trans (sameCommand_of_eq rfl rfl)
    | some bs => exact hreceive.trans (sameCommand_message cfg io.send bs i _)
  · rw [readBoard_of_not_ready hready]
    exact sameCommand_of_eq rfl rfl

theorem sameCommand_readBoards (cfg : ServerConfig) (inp : LoopInput) (rfd : Finset ℤ)
    (l : List (Fin 4)) (s : Server) :
    SameCommand s (l.foldl (fun s i => s.readBoard cfg (inp.board i) rfd i) s) :=
  Sweep.foldl_invariant (I := SameCommand s)
    (fun t i ht => ht.trans (sameCommand_readBoard cfg (inp.board i) rfd i t)) l (.refl s)

/-! ### The frames -/

theorem take_sendIndat (i : Fin 4) (s : Server) :
    (s.sendIndat true i).buffer.take 9 = tagS :: (s.nano i).indat.serial :=
  List.take_left' (by rw [List.length_cons, Indata.length_serial])

/-- An answered message ends with the frame. -/
theorem message_of_answered (h : s.Answered cfg bs i) (send : Bool) :
    ∃ t, SameCommand s t ∧ s.message cfg send bs i = t.sendIndat send i := by
  have hfill : SameCommand s (s.fill bs) := sameCommand_of_eq rfl rfl
  by_cases hrecord : NotRecord bs
  · obtain ⟨hinit, hsent⟩ := h.resolve_left (not_not.mpr hrecord)
    have hgreet := hfill.trans (sameCommand_greet bs i _)
    rw [message_handshake hrecord hinit, handshake]
    split_ifs with hne hignore
    · exact absurd ⟨hne, hignore⟩ hsent
    · exact ⟨((s.fill bs).greet bs i).stop, hgreet.trans (sameCommand_of_eq rfl rfl), rfl⟩
    · exact ⟨((s.fill bs).greet bs i).accept i, hgreet.trans (sameCommand_of_eq rfl rfl), rfl⟩
  · exact ⟨_, hfill.trans (sameCommand_storeOutdat bs i _), message_record hrecord⟩

/-- The frame of a visit carries the record for the board. -/
theorem eq_of_frameTo {f : List UInt8} (h : s.frameTo cfg io rfd i = some f) :
    f = tagS :: (s.nano i).indat.serial := by
  unfold frameTo at h
  split_ifs at h with hready
  obtain ⟨bs, hbs, hframe⟩ := Option.bind_eq_some_iff.mp h
  split_ifs at hframe with hanswered
  obtain ⟨hans, hsend⟩ := hanswered
  have hreceive : SameCommand s ((s.isSet i).receive i) := sameCommand_of_eq rfl rfl
  obtain ⟨t, ht, hmessage⟩ := message_of_answered (s := (s.isSet i).receive i) hans true
  rw [readBoard_of_ready hready, hbs, hsend] at hframe
  dsimp only at hframe
  rw [hmessage, take_sendIndat, (hreceive.trans ht).indat] at hframe
  exact (Option.some.inj hframe).symm

theorem eq_of_mem_framesOf {l : List (Fin 4)} {f : List UInt8}
    (h : (i, f) ∈ framesOf cfg inp rfd l s) : f = tagS :: (s.nano i).indat.serial := by
  induction l generalizing s with
  | nil => exact absurd h List.not_mem_nil
  | cons j l ih =>
    rw [framesOf, List.mem_append, Option.mem_toList, Option.map_eq_some_iff] at h
    rcases h with ⟨g, hg, heq⟩ | hrest
    · obtain ⟨rfl, rfl⟩ := Prod.mk.inj heq
      exact eq_of_frameTo hg
    · rw [ih hrest, (sameCommand_readBoard cfg (inp.board j) rfd j s).indat]

/-! ### The client -/

/-- A call that serves the client does to the memory what the answer to its message does. -/
theorem serveClient_memory (parse : ParseCommand) (inp : LoopInput) (rfd : Finset ℤ) (s : Server) :
    SameMemory ((clientMessage inp rfd s).elim s fun bs => s.answer parse inp.behind bs)
      (s.serveClient parse inp rfd).1 := by
  have hdrop : ∀ t : Server, SameMemory t t.dropClient := fun _ => ⟨rfl, rfl, rfl⟩
  have hread : SameMemory s s.readClient := ⟨rfl, rfl, rfl⟩
  have hanswer : ∀ bs, SameMemory (s.answer parse inp.behind bs)
      (s.readClient.answer parse inp.behind bs) :=
    fun _ => ⟨rfl, rfl, rfl⟩
  unfold clientMessage
  have hcases := serveClient_cases parse inp rfd s
  generalize s.serveClient parse inp rfd = r at hcases ⊢
  cases hcases with
  | absent hsd =>
    rw [if_neg fun h => h.1 hsd]
    exact ⟨rfl, rfl, rfl⟩
  | silent hsd hready =>
    rw [if_neg fun h => hready h.2]
    exact ⟨rfl, rfl, rfl⟩
  | gone hsd hready hmsg =>
    have hnone : (inp.clientRecv.map (List.take ethFrameLen)).filter (fun bs => decide (bs ≠ [])) =
        none := by
      cases hrecv : inp.clientRecv.map (List.take ethFrameLen) with
      | none => rfl
      | some bs =>
        rw [hrecv] at hmsg
        rw [show bs = [] from hmsg]
        rfl
    rw [if_pos ⟨hsd, hready⟩, hnone]
    exact hread.trans (hdrop _)
  | answered b bs hsd hready hmsg =>
    rw [if_pos ⟨hsd, hready⟩, hmsg, Option.filter_some,
      if_pos (decide_eq_true (List.cons_ne_nil b bs))]
    exact hanswer (b :: bs)
  | unanswered b bs hsd hready hmsg =>
    rw [if_pos ⟨hsd, hready⟩, hmsg, Option.filter_some,
      if_pos (decide_eq_true (List.cons_ne_nil b bs))]
    exact (hanswer (b :: bs)).trans (hdrop _)

/-- What a client message does to the car. -/
theorem serveClient_spec (parse : ParseCommand) (inp : LoopInput) (rfd : Finset ℤ) (s : Server) :
    (s.serveClient parse inp rfd).1.nano = s.nano ∧
      (s.serveClient parse inp rfd).1.car =
        match clientMessage inp rfd s with
        | none => s.car
        | some bs =>
          (parse s.car s.nano s.connBoards (bs ++ s.buffer.drop bs.length) inp.behind).1 := by
  have hmemory := serveClient_memory parse inp rfd s
  cases hmsg : clientMessage inp rfd s with
  | none =>
    rw [hmsg] at hmemory
    exact ⟨hmemory.nano, hmemory.car⟩
  | some bs =>
    rw [hmsg] at hmemory
    exact ⟨hmemory.nano, hmemory.car⟩

/-- The stored speeds. -/
def speeds (s : Server) : ℚ × ℚ := (s.car.vLeft, s.car.vRight)

theorem SameCommand.speeds (h : SameCommand s s') : s'.speeds = s.speeds := by
  rw [Server.speeds, Server.speeds, h.vLeft, h.vRight]

end Server

/-- A terminated message stores its speeds when it is an accepted command, and nothing
otherwise. -/
theorem speeds_parseCommand {bs : List UInt8} (h : 0 ∈ bs) (cfg : CarConfig) (car : Car)
    (nano : Fin 4 → NanoBoard) (connBoards : Fin 4 → Bool) (rest behind : List UInt8) :
    ((parseCommand cfg car nano connBoards (bs ++ rest) behind).1.vLeft,
        (parseCommand cfg car nano connBoards (bs ++ rest) behind).1.vRight) =
      (command bs).getD (car.vLeft, car.vRight) := by
  rw [command, ← cString_append_of_mem h (rest ++ behind), ← List.append_assoc]
  cases hread : readSpeeds (cString (bs ++ rest ++ behind)) with
  | none =>
    obtain ⟨old, hold⟩ : ∃ old, parseCommand cfg car nano connBoards (bs ++ rest) behind =
        (car, writeText defaultReply old, 21) := parseCommand_of_rejected hread
    rw [hold]
    rfl
  | some p =>
    rw [parseCommand_of_accepted hread]
    rfl

namespace Server

variable {cfg : ServerConfig} {inp : LoopInput} {rfd : Finset ℤ} {i : Fin 4} {s t : Server}
  {bs : List UInt8}

/-! ### An iteration -/

/-- The message of the client, if there is one, is terminated. -/
def Terminated (inp : LoopInput) : Prop :=
  ∀ bs, inp.clientRecv = some bs → bs.take ethFrameLen = [] ∨ 0 ∈ bs.take ethFrameLen

theorem zero_mem_clientMessage (h : Terminated inp) (hbs : clientMessage inp rfd s = some bs) :
    0 ∈ bs := by
  unfold clientMessage at hbs
  split_ifs at hbs
  obtain ⟨hmap, hne⟩ := Option.filter_eq_some_iff.mp hbs
  obtain ⟨raw, hraw, rfl⟩ := Option.map_eq_some_iff.mp hmap
  exact (h raw hraw).resolve_left (of_decide_eq_true hne)

/-- After `select`, the loop may have been stopped; nothing else has changed. -/
theorem eq_of_selected (h : s.selected cfg inp = some (t, rfd)) :
    t = s.prepare cfg inp ∨ t = (s.prepare cfg inp).stop := by
  unfold selected at h
  dsimp only at h
  split at h
  · exact absurd h (by simp)
  · obtain ⟨rfl, -⟩ := Prod.mk.inj (Option.some.inj h)
    exact Or.inr rfl
  · obtain ⟨rfl, -⟩ := Prod.mk.inj (Option.some.inj h)
    exact Or.inl rfl

theorem selected_sameCommand (h : s.selected cfg inp = some (t, rfd)) :
    SameCommand (s.handleCar cfg) t := by
  have hprepare := sameCommand_prepare cfg inp s
  obtain rfl | rfl := eq_of_selected h
  · exact hprepare
  · exact ⟨hprepare.vLeft, hprepare.vRight, hprepare.indat⟩

/-- The stored speeds after the client has been served. -/
theorem speeds_serveClient (cfg : ServerConfig) (h : Terminated inp) (t : Server) :
    (t.serveClient (parseCommand cfg.car) inp rfd).1.speeds =
      ((clientMessage inp rfd t).bind command).getD t.speeds := by
  obtain ⟨-, hcar⟩ := serveClient_spec (parseCommand cfg.car) inp rfd t
  rw [speeds, hcar]
  cases hmsg : clientMessage inp rfd t with
  | none => rfl
  | some bs => exact speeds_parseCommand (zero_mem_clientMessage h hmsg) _ _ _ _ _ _

theorem speeds_handle (h : Terminated inp) (t : Server) :
    (t.handle (parseCommand cfg.car) cfg inp rfd).speeds =
      ((clientMessage inp rfd (t.acceptClient inp rfd)).bind command).getD t.speeds := by
  rw [← (acceptClient_memory inp rfd t).sameCommand.speeds, ← speeds_serveClient cfg h]
  unfold handle
  dsimp only
  split_ifs
  · rfl
  · exact (sameCommand_readBoards cfg inp rfd _ _).speeds

/-- **A step of the loop** stores the speeds of the command that it answers, if it is accepted, and
leaves them alone otherwise. -/
theorem speeds_loopStep (h : Terminated inp) (s : Server) :
    (s.loopStep (parseCommand cfg.car) cfg inp).speeds =
      ((s.answered cfg inp).bind command).getD s.speeds := by
  unfold loopStep answered
  split_ifs with hrun
  · have hstep : ∀ (t : Server) (run : Bool), Server.speeds { t with run := run } = t.speeds :=
      fun _ _ => rfl
    dsimp only
    rw [hstep, iterate_eq]
    cases hsel : s.selected cfg inp with
    | none => exact (sameCommand_prepare cfg inp s).speeds
    | some r =>
      dsimp only [Option.bind_some]
      rw [speeds_handle h, (selected_sameCommand hsel).speeds]
      rfl
  · rfl

/-- The frames of an iteration carry a set value for the right boards and one for the left boards,
both at most 200. -/
theorem frames_bounded (parse : ParseCommand) (inp : LoopInput)
    (hl : -1 ≤ s.car.vLeft ∧ s.car.vLeft ≤ 1) (hr : -1 ≤ s.car.vRight ∧ s.car.vRight ≤ 1) :
    ∃ vr vl, Bounded vr ∧ Bounded vl ∧ ∀ i f, (i, f) ∈ s.frames parse cfg inp →
      ∃ d : Indata, f = tagS :: d.serial ∧ d.W = ![vr, vr, vl, vl] i := by
  obtain ⟨vr, vl, hvr, hvl, hvalues⟩ := setValues_bounded .ieee cfg.car (readings cfg.car s.nano)
    hl hr
  refine ⟨vr, vl, hvr, hvl, fun i f hf => ?_⟩
  have hW : ((s.handleCar cfg).nano i).indat.W = ![vr, vr, vl, vl] i := congrFun hvalues i
  unfold frames at hf
  split_ifs at hf
  · cases hsel : s.selected cfg inp with
    | none =>
      rw [hsel] at hf
      exact absurd hf List.not_mem_nil
    | some r =>
      obtain ⟨t, rfd⟩ := r
      rw [hsel] at hf
      dsimp only at hf
      split_ifs at hf
      · exact absurd hf List.not_mem_nil
      · -- the set values are those of `handle_car`
        have hsame := (selected_sameCommand hsel).trans (acceptClient_memory inp rfd t).sameCommand
        obtain ⟨hnano, -⟩ := serveClient_spec parse inp rfd (t.acceptClient inp rfd)
        refine ⟨_, eq_of_mem_framesOf hf, ?_⟩
        rw [hnano, hsame.indat, hW]
  · exact absurd hf List.not_mem_nil

/-! ### Runs -/

theorem speeds_startUp {start : StartInput} {s₀ : Server} (h : startUp start = some s₀) :
    s₀.speeds = (0, 0) := by
  obtain ⟨s, hboards, rfl⟩ := startUp_cases h
  have hspeeds : s.speeds = (0, 0) := by
    refine Sweep.foldlM_invariant (I := fun s : Server => s.speeds = (0, 0))
      (fun s i s' hconn hs => ?_) _ hboards rfl
    unfold connectBoard at hconn
    split_ifs at hconn
    obtain rfl := Option.some.inj hconn
    exact hs
  exact hspeeds

/-- **The command invariant.** In every run from start-up with terminated messages of the client,
whatever the settings of the handlers are, the stored speeds are those of the last accepted command,
or zero before there is one; a rejected message changes neither; and the frames of an iteration
carry set values of at most 200, one for the boards 0 and 1 and one for the boards 2 and 3. -/
theorem commandInvariant (start : StartInput) (cfg : ServerConfig) (inp : ℕ → LoopInput)
    (s₀ : Server) (hstart : startUp start = some s₀) (hmsg : ∀ n, Terminated (inp n)) (n : ℕ) :
    let s := serverAt (parseCommand cfg.car) cfg s₀ inp
    (s n).speeds =
        (Driven.lastSome (fun k => ((s k).answered cfg (inp k)).bind command) n).getD (0, 0) ∧
      (∀ bs, (s n).answered cfg (inp n) = some bs → command bs = none →
        (s (n + 1)).speeds = (s n).speeds) ∧
      ∃ vr vl, Bounded vr ∧ Bounded vl ∧
        ∀ i f, (i, f) ∈ (s n).frames (parseCommand cfg.car) cfg (inp n) →
          ∃ d : Indata, f = tagS :: d.serial ∧ d.W = ![vr, vr, vl, vl] i := by
  intro s
  have hstep : ∀ k, (s (k + 1)).speeds =
      (((s k).answered cfg (inp k)).bind command).getD (s k).speeds := fun k =>
    speeds_loopStep (hmsg k) (s k)
  have hlast : (s n).speeds =
      (Driven.lastSome (fun k => ((s k).answered cfg (inp k)).bind command) n).getD (0, 0) := by
    induction n with
    | zero => exact speeds_startUp hstart
    | succ n ih =>
      rw [hstep, Driven.lastSome, ih]
      cases ((s n).answered cfg (inp n)).bind command <;> rfl
  have hmem : ∀ k, (-1 ≤ (s k).speeds.1 ∧ (s k).speeds.1 ≤ 1) ∧
      (-1 ≤ (s k).speeds.2 ∧ (s k).speeds.2 ≤ 1) := by
    intro k
    induction k with
    | zero =>
      rw [show (s 0).speeds = (0, 0) from speeds_startUp hstart]
      norm_num
    | succ k ih =>
      rw [hstep]
      cases hcommand : ((s k).answered cfg (inp k)).bind command with
      | none => exact ih
      | some v =>
        obtain ⟨bs, -, hbs⟩ := Option.bind_eq_some_iff.mp hcommand
        exact command_mem hbs
  refine ⟨hlast, fun bs hbs hnone => ?_, frames_bounded _ (inp n) (hmem n).1 (hmem n).2⟩
  rw [hstep, hbs, Option.bind_some, hnone]
  rfl

/-- The record of a board with a full battery. -/
def fullBattery : List UInt8 := [tagR, 0, 0, 0xB0, 4] ++ List.replicate 48 0

/-- A client connects and commands `[0.5,-1]`, in each iteration; the boards answer with the
version string first, and then with records of full batteries. -/
def commands (n : ℕ) : LoopInput :=
  if n = 0 then { select := .ready {7} }
  else
    { select := .ready {3, 4, 5, 6, 8}
      clientRecv := some (ascii "[0.5,-1]" ++ [0])
      board := fun _ => ⟨if n = 1 then some versionName else some fullBattery, true⟩ }

/-- The command is stored, and drives the boards in the next iteration. -/
theorem commandInvariant_commands :
    let s := serverAt (parseCommand carserverCfg.car) carserverCfg started commands
    (s 3).speeds = (1 / 2, -1) ∧
      ∃ vr vl, Bounded vr ∧ Bounded vl ∧
        ∀ i f, (i, f) ∈ (s 3).frames (parseCommand carserverCfg.car) carserverCfg (commands 3) →
          ∃ d : Indata, f = tagS :: d.serial ∧ d.W = ![vr, vr, vl, vl] i := by
  have hmsg : ∀ n, Terminated (commands n) := by
    intro n bs hbs
    by_cases hn : n = 0
    · rw [commands, if_pos hn] at hbs
      exact absurd hbs (by simp)
    · rw [commands, if_neg hn] at hbs
      obtain rfl := Option.some.inj hbs
      exact Or.inr (by decide +kernel)
  obtain ⟨hlast, -, hframes⟩ := commandInvariant {} carserverCfg commands started startUp_started
    hmsg 3
  exact ⟨hlast.trans (by decide +kernel), hframes⟩

example : ((serverAt (parseCommand carserverCfg.car) carserverCfg started commands 3).frames
    (parseCommand carserverCfg.car) carserverCfg (commands 3)).map
      (fun (i, f) => (i, (Indata.ofSerial (f.drop 1)).W.toInt)) =
    [(0, -200), (1, -200), (2, -100), (3, -100)] := by
  decide +kernel

end Server

end LegoCar
