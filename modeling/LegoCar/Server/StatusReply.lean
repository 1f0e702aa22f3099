import Mathlib
import LegoCar.Lib.Printed
import LegoCar.Server.ParseCommand

/-!
# The status reply

The reply to a command that is accepted is meant to be a JSON object with the state of the car, for
the web client. Each of its members is printed from a value of the state, except the distance in
front, which is a constant in the format. `statusReply_faithful_iff` says what that comes to: the
members decode to the current values when the distance in front is that constant and the distance
behind is a number; an infinity or not-a-number from a board makes a text that is not JSON.
-/

namespace LegoCar

open Stdio ExtRat Json

/-! ### A faithful reply -/

/-- A member is the number `x`, up to half a unit of the sixth decimal. -/
def ShowsReal (v : Option Value) (x : ExtRat) : Prop :=
  ∃ p q : ℚ, v = some (.number p) ∧ x = .fin q ∧ |p - q| ≤ 1 / 2 * (1 / 10 ^ 6)

/-- The members of the reply decode to the current values. -/
structure StatusFaithful (cfg : CarConfig) (car : Car) (nano : Fin 4 → NanoBoard)
    (connBoards : Fin 4 → Bool) (v : Value) : Prop where
  distanceFront : ShowsReal (v.member (ascii "distance_front")) (readings cfg nano).distanceFront
  distanceRear : ShowsReal (v.member (ascii "distance_rear")) (readings cfg nano).distanceRear
  ubatPower : v.member (ascii "ubat_power") = some (.number (readings cfg nano).ubatPower.toNat)
  ubatCompute : v.member (ascii "ubat_compute") =
    some (.number (readings cfg nano).ubatCompute.toNat)
  vLeft : ShowsReal (v.member (ascii "v_left")) (.fin car.vLeft)
  vRight : ShowsReal (v.member (ascii "v_right")) (.fin car.vRight)
  boardStatus : v.member (ascii "board_status") =
    some (.array (List.ofFn fun i => .number (if connBoards i then 1 else 0 : ℤ)))
  acc : v.member (ascii "acc") = some (.array (List.ofFn fun j => .number (car.acc j)))

/-- What `parse_command` returns for an accepted command: the text in the buffer is a JSON object
that decodes to the current values, and the length is the length of the text. -/
structure ReplyFaithful (cfg : CarConfig) (nano : Fin 4 → NanoBoard) (connBoards : Fin 4 → Bool)
    (r : Car × List UInt8 × ℤ) : Prop where
  decodes : ∃ v, Parses (cString r.2.1) v ∧ StatusFaithful cfg r.1 nano connBoards v
  length : r.2.2 = (cString r.2.1).length

section

variable (cfg : CarConfig) (car : Car) (nano : Fin 4 → NanoBoard) (connBoards : Fin 4 → Bool)
  (l r : UInt32)

/-! ### The members -/

/-- The names and the texts of the members. -/
def statusMembers : List (List UInt8 × List UInt8) :=
  [(ascii "distance_front", ascii "-1.0"),
    (ascii "distance_rear", showFloat (nano cfg.distR).outdat.distance),
    (ascii "ubat_power", showInt (nano cfg.ubatP).outdat.ubat.toNat),
    (ascii "ubat_compute", showInt (nano cfg.ubatC).outdat.ubat.toNat),
    (ascii "v_left", showFloat l), (ascii "v_right", showFloat r),
    (ascii "board_status", arrayText (List.ofFn fun i => showInt (if connBoards i then 1 else 0))),
    (ascii "acc", arrayText (List.ofFn fun j => showInt (car.acc j)))]

theorem statusReply_eq : statusReply cfg car nano connBoards l r =
    objectText (statusMembers cfg car nano connBoards l r) := by
  -- the texts between the values, taken apart at the names
  have hdistance : ascii "\x7b\"distance_front\":-1.0,\"distance_rear\":" =
      123 :: 34 :: ascii "distance_front" ++ 34 :: 58 :: ascii "-1.0" ++
        44 :: 34 :: ascii "distance_rear" ++ [34, 58] := by decide
  have hpower : ascii ",\"ubat_power\":" = 44 :: 34 :: ascii "ubat_power" ++ [34, 58] := by decide
  have hcompute : ascii ",\"ubat_compute\":" = 44 :: 34 :: ascii "ubat_compute" ++ [34, 58] := by
    decide
  have hleft : ascii ",\"v_left\":" = 44 :: 34 :: ascii "v_left" ++ [34, 58] := by decide
  have hright : ascii ",\"v_right\":" = 44 :: 34 :: ascii "v_right" ++ [34, 58] := by decide
  have hstatus : ascii ",\"board_status\":[" =
      44 :: 34 :: ascii "board_status" ++ [34, 58, 91] := by decide
  have hacc : ascii "],\"acc\":[" = 93 :: 44 :: 34 :: ascii "acc" ++ [34, 58, 91] := by decide
  have hend : ascii "]\x7d" = [93, 125] := by decide
  have hcomma : ascii "," = [44] := by decide
  unfold statusReply
  simp only [hdistance, hpower, hcompute, hleft, hright, hstatus, hacc, hend, hcomma]
  simp [statusMembers, objectText, sprintf, Item.render, commaSeparated, memberText, arrayText]

/-- The values of the members, when the distance behind and the speeds are numbers. -/
def statusValues (dR vL vR : ℚ) : List (List UInt8 × Value) :=
  [(ascii "distance_front", .number (-1)),
    (ascii "distance_rear", .number (printed (nano cfg.distR).outdat.distance dR)),
    (ascii "ubat_power", .number (nano cfg.ubatP).outdat.ubat.toNat),
    (ascii "ubat_compute", .number (nano cfg.ubatC).outdat.ubat.toNat),
    (ascii "v_left", .number (printed l vL)), (ascii "v_right", .number (printed r vR)),
    (ascii "board_status", .array (List.ofFn fun i => .number (if connBoards i then 1 else 0 : ℤ))),
    (ascii "acc", .array (List.ofFn fun j => .number (car.acc j)))]

end

variable {cfg : CarConfig} {car : Car} {nano : Fin 4 → NanoBoard} {connBoards : Fin 4 → Bool}
  {buffer behind : List UInt8} {l r : UInt32}

theorem reads_minusOne : Reads (ascii "-1.0") (.number (-1)) := by
  have hreads : Reads (numberText true (decimal 1) (decimal 0)) _ :=
    reads_number (isInteger_decimal 1) (isDigit_decimal 0)
  have htext : numberText true (decimal 1) (decimal 0) = ascii "-1.0" := by decide
  have hdigits : digitsValue (decimal 1 ++ decimal 0) = 10 := by decide
  have hlength : (decimal 0).length = 1 := by decide
  have hvalue : (if true then -1 else 1 : ℚ) * ((10 : ℕ) / 10 ^ 1) = -1 := by norm_num
  rwa [htext, hdigits, hlength, hvalue] at hreads

theorem reads_ints {n : ℕ} (z : Fin (n + 1) → ℤ) :
    Reads (arrayText (List.ofFn fun i => showInt (z i)))
      (.array (List.ofFn fun i => .number (z i))) := by
  refine reads_array ?_ (by simp)
  rw [List.forall₂_iff_get]
  refine ⟨by simp, fun i hi hi' => ?_⟩
  simp only [List.get_eq_getElem, List.getElem_ofFn]
  exact reads_showInt _

/-- The members are read as their values. -/
theorem reads_statusMembers {dR vL vR : ℚ}
    (hrear : ofBits (nano cfg.distR).outdat.distance = .fin dR) (hleft : ofBits l = .fin vL)
    (hright : ofBits r = .fin vR) :
    List.Forall₂ ReadsMember (statusMembers cfg car nano connBoards l r)
      (statusValues cfg car nano connBoards l r dR vL vR) := by
  have hstatus := reads_ints fun i => if connBoards i then 1 else 0
  have hacc := reads_ints car.acc
  exact .cons (readsMember (by decide) reads_minusOne)
    (.cons (readsMember (by decide) (reads_showFloat hrear))
    (.cons (readsMember (by decide) (reads_showInt _))
    (.cons (readsMember (by decide) (reads_showInt _))
    (.cons (readsMember (by decide) (reads_showFloat hleft))
    (.cons (readsMember (by decide) (reads_showFloat hright))
    (.cons (readsMember (by decide) hstatus)
    (.cons (readsMember (by decide) hacc) .nil)))))))

theorem parses_statusReply {dR vL vR : ℚ}
    (hrear : ofBits (nano cfg.distR).outdat.distance = .fin dR) (hleft : ofBits l = .fin vL)
    (hright : ofBits r = .fin vR) : Parses (statusReply cfg car nano connBoards l r)
      (.object (statusValues cfg car nano connBoards l r dR vL vR)) := by
  rw [statusReply_eq]
  exact (reads_object (reads_statusMembers hrear hleft hright) (List.cons_ne_nil _ _)).parses

/-- With an infinity or not-a-number behind, the reply is not a JSON text. -/
theorem not_parses_statusReply (hrear : ∀ q, ofBits (nano cfg.distR).outdat.distance ≠ .fin q)
    (v : Value) : ¬Parses (statusReply cfg car nano connBoards l r) v := by
  rw [statusReply_eq]
  have hfront : ∀ m ∈ [(ascii "distance_front", ascii "-1.0")], ∃ x, ReadsMember m x := by
    intro m hm
    rw [List.mem_singleton.mp hm]
    exact ⟨_, readsMember (by decide) reads_minusOne⟩
  exact not_parses_object hfront (by decide) (fails_showFloat hrear) v

/-! ### The text in the buffer -/

theorem zero_notMem_statusReply : 0 ∉ statusReply cfg car nano connBoards l r := by
  simp [statusReply, sprintf, Item.render, zero_notMem_showInt, zero_notMem_showFloat]
  decide

/-- The string in the buffer is the text that was written. -/
theorem cString_writeText {text : List UInt8} (h : 0 ∉ text) (buffer : List UInt8) :
    cString (writeText text buffer) = text := by
  rw [writeText, cString_append_of_notMem h]
  exact List.append_nil text

/-! ### The condition -/

/-- The constant in the format is the distance in front. -/
def FrontIsConstant (x : ExtRat) : Prop := ∃ q : ℚ, x = .fin q ∧ |-1 - q| ≤ 1 / 2 * (1 / 10 ^ 6)

theorem showsReal_printed {b : UInt32} {q : ℚ} (h : ofBits b = .fin q) :
    ShowsReal (some (.number (printed b q))) (.fin q) :=
  ⟨_, q, rfl, rfl, abs_printed_sub_le h⟩

/-- The values of the members are faithful, but for the distance in front. -/
theorem statusFaithful_iff {dR vL vR : ℚ}
    (hrear : ofBits (nano cfg.distR).outdat.distance = .fin dR) (hleft : ofBits l = .fin vL)
    (hright : ofBits r = .fin vR) :
    StatusFaithful cfg { car with vLeft := vL, vRight := vR } nano connBoards
        (.object (statusValues cfg car nano connBoards l r dR vL vR)) ↔
      FrontIsConstant (readings cfg nano).distanceFront := by
  constructor
  · intro h
    obtain ⟨p, q, hp, hq, hle⟩ := h.distanceFront
    have hminus : p = -1 := (Value.number.inj (Option.some.inj hp)).symm
    exact ⟨q, hq, hminus ▸ hle⟩
  · rintro ⟨q, hq, hle⟩
    exact
      { distanceFront := ⟨-1, q, rfl, hq, hle⟩
        distanceRear := by
          rw [show (readings cfg nano).distanceRear = .fin dR from hrear]
          exact showsReal_printed hrear
        ubatPower := rfl
        ubatCompute := rfl
        vLeft := showsReal_printed hleft
        vRight := showsReal_printed hright
        boardStatus := rfl
        acc := rfl }

/-- The text of the reply, whatever it is. -/
theorem replyFaithful_iff (h : readSpeeds (cString (buffer ++ behind)) = some (l, r)) :
    ReplyFaithful cfg nano connBoards (parseCommand cfg car nano connBoards buffer behind) ↔
      ∃ v, Parses (statusReply cfg car nano connBoards l r) v ∧
        StatusFaithful cfg { car with vLeft := speed l, vRight := speed r } nano connBoards v := by
  have htext : cString (writeText (statusReply cfg car nano connBoards l r) buffer) =
      statusReply cfg car nano connBoards l r := cString_writeText zero_notMem_statusReply buffer
  rw [parseCommand_of_accepted h]
  constructor
  · intro hfaithful
    obtain ⟨v, hv, hstatus⟩ := hfaithful.decodes
    exact ⟨v, htext ▸ hv, hstatus⟩
  · rintro ⟨v, hv, hstatus⟩
    exact ⟨⟨v, htext.symm ▸ hv, hstatus⟩, by rw [htext]⟩

/-- A faithful reply needs both conditions. -/
theorem of_replyFaithful (h : readSpeeds (cString (buffer ++ behind)) = some (l, r))
    (hfaithful : ReplyFaithful cfg nano connBoards
      (parseCommand cfg car nano connBoards buffer behind)) :
    (∃ q, (readings cfg nano).distanceRear = .fin q) ∧
      FrontIsConstant (readings cfg nano).distanceFront := by
  obtain ⟨hl, hr⟩ := inUnit_of_readSpeeds h
  obtain ⟨v, hv, hstatus⟩ := (replyFaithful_iff h).mp hfaithful
  have hrear : ∃ q, (readings cfg nano).distanceRear = .fin q := by
    by_contra hno
    exact not_parses_statusReply (not_exists.mp hno) v hv
  obtain ⟨dR, hdR⟩ := hrear
  obtain rfl := hv.unique (parses_statusReply hdR (ofBits_eq_speed hl) (ofBits_eq_speed hr))
  exact ⟨⟨dR, hdR⟩,
    (statusFaithful_iff hdR (ofBits_eq_speed hl) (ofBits_eq_speed hr)).mp hstatus⟩

/-- **The status reply is faithful** exactly when the distance behind is a number and the one in
front is the constant in the format. -/
theorem statusReply_faithful_iff (h : readSpeeds (cString (buffer ++ behind)) = some (l, r)) :
    ReplyFaithful cfg nano connBoards (parseCommand cfg car nano connBoards buffer behind) ↔
      (∃ q, (readings cfg nano).distanceRear = .fin q) ∧
        FrontIsConstant (readings cfg nano).distanceFront := by
  obtain ⟨hl, hr⟩ := inUnit_of_readSpeeds h
  refine ⟨of_replyFaithful h, fun ⟨⟨dR, hdR⟩, hfront⟩ => ?_⟩
  exact (replyFaithful_iff h).mpr
    ⟨_, parses_statusReply hdR (ofBits_eq_speed hl) (ofBits_eq_speed hr),
      (statusFaithful_iff hdR (ofBits_eq_speed hl) (ofBits_eq_speed hr)).mpr hfront⟩

/-- Board `i` with the distance behind the bit pattern `bits`. -/
def boardAtDistance (bits : Fin 4 → UInt32) (i : Fin 4) : NanoBoard :=
  { (default : NanoBoard) with outdat.distance := bits i }

/-- A car without an obstacle in front and one two metres behind. -/
theorem statusReply_faithful_clear : ReplyFaithful carserverCfg.car
    (boardAtDistance ![0, 0, 0x40000000, 0xBF800000]) (fun _ => true)
    (parseCommand carserverCfg.car ⟨0, 0, fun _ => 0⟩
      (boardAtDistance ![0, 0, 0x40000000, 0xBF800000]) (fun _ => true)
      (ascii "[0.5,-0.25]") []) := by
  have hread : readSpeeds (cString (ascii "[0.5,-0.25]" ++ [])) =
      some (0x3F000000, 0xBE800000) := by
    decide +kernel
  refine (statusReply_faithful_iff hread).mpr ⟨⟨2, ?_⟩, -1, ?_, by norm_num⟩
  · show ofBits 0x40000000 = .fin 2
    decide +kernel
  · show ofBits 0xBF800000 = .fin (-1)
    decide +kernel

/-- **An obstacle in front is not shown.** -/
theorem statusReply_hides_front : ¬ ∀ (cfg : CarConfig) (car : Car) (nano : Fin 4 → NanoBoard)
    (connBoards : Fin 4 → Bool) (buffer behind : List UInt8) (l r : UInt32),
    readSpeeds (cString (buffer ++ behind)) = some (l, r) →
      ReplyFaithful cfg nano connBoards (parseCommand cfg car nano connBoards buffer behind) := by
  intro h
  have hread : readSpeeds (cString (ascii "[0.5,-0.25]" ++ [])) =
      some (0x3F000000, 0xBE800000) := by
    decide +kernel
  obtain ⟨-, q, hq, hle⟩ := of_replyFaithful hread (h carserverCfg.car ⟨0, 0, fun _ => 0⟩
    (boardAtDistance ![0, 0, 0x40000000, 0x3F000000]) (fun _ => true) _ _ _ _ hread)
  have hhalf : ofBits 0x3F000000 = .fin (1 / 2) := by decide +kernel
  obtain rfl : 1 / 2 = q := fin.inj (hhalf.symm.trans hq)
  norm_num [abs_le] at hle

end LegoCar
