import Mathlib
import LegoCar.Lib.Stdio
import LegoCar.Server.EventLoop

/-!
# The commands of the client

A command is a text that begins with two numbers in brackets, `[left,right]`. `parse_command` reads
it from the buffer, up to a terminating zero, and writes the reply to the same buffer: the status
of the car when both numbers are between `-1` and `1`, which become the commanded speeds, and a
fixed text otherwise.

The length of the message is not known to it, nor that of the buffer: without a terminating zero in
the buffer it reads on in the memory behind.
-/

namespace LegoCar

open Stdio ExtRat

/-- The format of `sscanf`, `"[%f,%f]"`. -/
def commandFormat : List Directive := [.literal 91, .float, .literal 44, .float, .literal 93]

/-- `check == 2 && l <= 1 && r <= 1 && l >= -1 && r >= -1`. -/
def acceptSpeeds : List UInt32 → Option (UInt32 × UInt32)
  | [l, r] => if InUnit l ∧ InUnit r then some (l, r) else none
  | _ => none

/-- The two numbers of a command that is accepted. -/
def readSpeeds (cmd : List UInt8) : Option (UInt32 × UInt32) :=
  acceptSpeeds (sscanf commandFormat cmd)

/-- The speed with a bit pattern; that of an accepted command is a number. -/
def speed (b : UInt32) : ℚ :=
  match ofBits b with
  | .fin q => q
  | _ => 0

/-- The speeds, left and right, of a text that is an accepted command. -/
def command (text : List UInt8) : Option (ℚ × ℚ) :=
  (readSpeeds (cString text)).map fun (l, r) => (speed l, speed r)

/-- `sprintf(cmd,...)`, or `strcpy`: a text is written to the buffer, with a terminating zero. -/
def writeText (text buffer : List UInt8) : List UInt8 :=
  text ++ 0 :: buffer.drop (text.length + 1)

/-- The status of the car, where `l` and `r` are the speeds just stored. -/
def statusReply (cfg : CarConfig) (car : Car) (nano : Fin 4 → NanoBoard)
    (connBoards : Fin 4 → Bool) (l r : UInt32) : List UInt8 :=
  let connected := fun i => Item.int (if connBoards i then 1 else 0)
  let comma := Item.text (ascii ",")
  sprintf
    [.text (ascii "\x7b\"distance_front\":-1.0,\"distance_rear\":"),
      .float (nano cfg.distR).outdat.distance,
      .text (ascii ",\"ubat_power\":"), .int (nano cfg.ubatP).outdat.ubat.toNat,
      .text (ascii ",\"ubat_compute\":"), .int (nano cfg.ubatC).outdat.ubat.toNat,
      .text (ascii ",\"v_left\":"), .float l, .text (ascii ",\"v_right\":"), .float r,
      .text (ascii ",\"board_status\":["), connected 0, comma, connected 1, comma, connected 2,
      comma, connected 3,
      .text (ascii "],\"acc\":["), .int (car.acc 0), comma, .int (car.acc 1), comma,
      .int (car.acc 2), .text (ascii "]\x7d")]

/-- The acceleration, which the next text overwrites. -/
def accReply (car : Car) : List UInt8 :=
  sprintf [.text (ascii "\x7bAccX:"), .int (car.acc 0), .text (ascii ",AccY:"), .int (car.acc 1),
    .text (ascii ",AccZ:"), .int (car.acc 2)]

/-- The reply to a command that is not accepted. -/
def defaultReply : List UInt8 := ascii "Default return value"

/-- `parse_command`. -/
def parseCommand (cfg : CarConfig) : ParseCommand := fun car nano connBoards buffer behind =>
  let cmd := cString (buffer ++ behind)
  match readSpeeds cmd with
  | some (l, r) =>
    let reply := statusReply cfg car nano connBoards l r
    ({ car with vLeft := speed l, vRight := speed r }, writeText reply buffer, (reply.length : ℤ))
  | none =>
    let buffer := if cmd ≠ ascii "GetValues" then writeText (accReply car) buffer else buffer
    (car, writeText defaultReply buffer, 21)

section

variable {cfg : CarConfig} {car : Car} {nano : Fin 4 → NanoBoard} {connBoards : Fin 4 → Bool}
  {buffer behind : List UInt8} {l r : UInt32}

theorem parseCommand_of_accepted (h : readSpeeds (cString (buffer ++ behind)) = some (l, r)) :
    parseCommand cfg car nano connBoards buffer behind =
      ({ car with vLeft := speed l, vRight := speed r },
        writeText (statusReply cfg car nano connBoards l r) buffer,
        ((statusReply cfg car nano connBoards l r).length : ℤ)) := by
  rw [parseCommand]
  dsimp only
  rw [h]

theorem parseCommand_of_rejected (h : readSpeeds (cString (buffer ++ behind)) = none) :
    ∃ old, parseCommand cfg car nano connBoards buffer behind =
      (car, writeText defaultReply old, 21) := by
  refine ⟨if cString (buffer ++ behind) ≠ ascii "GetValues" then writeText (accReply car) buffer
    else buffer, ?_⟩
  rw [parseCommand]
  dsimp only
  rw [h]

/-- The speed is the number. -/
theorem ofBits_eq_speed {b : UInt32} (h : InUnit b) : ofBits b = .fin (speed b) := by
  have hbits := inUnit_iff.mp h
  rw [speed, ofBits_of_finite (by omega)]

/-- The speed of an accepted command is a part of the full speed. -/
theorem speed_mem {b : UInt32} (h : InUnit b) : -1 ≤ speed b ∧ speed b ≤ 1 := by
  have hvalue := ofBits_eq_speed h
  obtain ⟨hle, hge⟩ := h
  rw [hvalue, le_fin] at hle hge
  exact ⟨of_decide_eq_true hge, of_decide_eq_true hle⟩

theorem inUnit_of_readSpeeds {cmd : List UInt8} (h : readSpeeds cmd = some (l, r)) :
    InUnit l ∧ InUnit r := by
  unfold readSpeeds acceptSpeeds at h
  split at h
  · split_ifs at h with hunit
    obtain ⟨rfl, rfl⟩ := Prod.mk.inj (Option.some.inj h)
    exact hunit
  · exact absurd h (by simp)

theorem command_mem {text : List UInt8} {v : ℚ × ℚ} (h : command text = some v) :
    (-1 ≤ v.1 ∧ v.1 ≤ 1) ∧ (-1 ≤ v.2 ∧ v.2 ≤ 1) := by
  obtain ⟨⟨l, r⟩, hread, rfl⟩ := Option.map_eq_some_iff.mp h
  obtain ⟨hl, hr⟩ := inUnit_of_readSpeeds hread
  exact ⟨speed_mem hl, speed_mem hr⟩

/-- A terminating zero in the message hides what is behind the message. -/
theorem cString_append_of_mem {bs : List UInt8} (h : 0 ∈ bs) (rest : List UInt8) :
    cString (bs ++ rest) = cString bs := by
  have hne : (bs.takeWhile (· ≠ 0)).length ≠ bs.length := by
    intro heq
    have hall := List.takeWhile_eq_self_iff.mp ((List.takeWhile_prefix _).eq_of_length heq)
    exact absurd (hall 0 h) (by decide)
  rw [cString, List.takeWhile_append, if_neg hne, cString]

/-- Without one, the command goes on behind the message. -/
theorem cString_append_of_notMem {bs : List UInt8} (h : 0 ∉ bs) (rest : List UInt8) :
    cString (bs ++ rest) = bs ++ cString rest :=
  List.takeWhile_append_of_pos fun _ hb => decide_eq_true fun heq => h (heq ▸ hb)

end

end LegoCar
