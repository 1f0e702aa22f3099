import Mathlib
import LegoCar.Lib.Printed
import LegoCar.Client.Script

/-!
# From the displacement to the speeds

The page posts the displacement of the stick as a text, `Values: dx: … dy: …`. The handler of the
requests picks the integers out of the text (`readValues_message`) and computes the speeds of the
two sides: the displacement, cut off at 200, is turned by 45 degrees, so that the sum of the speeds
is how far the stick is pushed forward, and their difference how far to the right (`speeds_spec`).

The speeds are sent to the server as JSON. When the server does not answer, the socket is opened
again and the request repeated once.

Speeds are computed exactly, over the real numbers, where the handler has floating point numbers.
How they are written, which is the library's, is a parameter.
-/

namespace LegoCar

namespace Client

open Stdio Json

/-! ### The text -/

/-- `'Values:' + ' dx: ' + deltaX + ' dy: ' + deltaY`. -/
def message (d : ℤ × ℤ) : List UInt8 :=
  ascii "Values:" ++ ascii " dx: " ++ showInt d.1 ++ ascii " dy: " ++ showInt d.2

/-- `str.split()`: the words between blanks. -/
def split (text : List UInt8) : List (List UInt8) :=
  (text.splitOnP Stdio.isSpace).filter fun w => decide (w ≠ [])

/-- `int(t)` of digits. -/
def readDigits (ds : List UInt8) : Option ℕ :=
  if ds ≠ [] ∧ ds.all isDigit then some (digitsValue ds) else none

/-- `int(t)` of a word; none where it raises `ValueError`. -/
def readInt : List UInt8 → Option ℤ
  | 45 :: ds => (readDigits ds).map fun n : ℕ => -(n : ℤ)
  | 43 :: ds => (readDigits ds).map fun n : ℕ => (n : ℤ)
  | ds => (readDigits ds).map fun n : ℕ => (n : ℤ)

/-- The values in a request: the words that are integers, if there are two. -/
def readValues (postData : List UInt8) : Option (ℤ × ℤ) :=
  match (split postData).filterMap readInt with
  | [dx, dy] => some (dx, dy)
  | _ => none

theorem readDigits_decimal (n : ℕ) : readDigits (decimal n) = some n := by
  have hne : decimal n ≠ [] := by
    intro h
    have hinteger := (isInteger_decimal n).2
    rw [h] at hinteger
    simp at hinteger
  rw [readDigits, if_pos ⟨hne, List.all_eq_true.mpr (isDigit_decimal n)⟩, digitsValue_decimal]

/-- Digits do not begin with a sign. -/
theorem readInt_of_isDigit {ds : List UInt8} (h : ∀ c ∈ ds, isDigit c = true) :
    readInt ds = (readDigits ds).map fun n : ℕ => (n : ℤ) := by
  unfold readInt
  split
  · exact absurd (h 45 List.mem_cons_self) (by decide)
  · exact absurd (h 43 List.mem_cons_self) (by decide)
  · rfl

/-- Reading a number that was written. -/
theorem readInt_showInt (z : ℤ) : readInt (showInt z) = some z := by
  unfold showInt
  split_ifs with hneg
  · rw [readInt, readDigits_decimal, Option.map_some]
    exact congrArg some (by omega)
  · rw [readInt_of_isDigit (isDigit_decimal _), readDigits_decimal, Option.map_some]
    exact congrArg some (by omega)

/-- A number that was written has no blanks. -/
theorem isSpace_showInt (z : ℤ) : ∀ c ∈ showInt z, Stdio.isSpace c = false := by
  have hdigit : ∀ c : UInt8, isDigit c = true → Stdio.isSpace c = false := by decide +kernel
  have hdecimal : ∀ c ∈ decimal z.natAbs, Stdio.isSpace c = false := fun c hc =>
    hdigit c (isDigit_decimal _ c hc)
  unfold showInt
  split_ifs
  · exact List.forall_mem_cons.mpr ⟨by decide, hdecimal⟩
  · exact hdecimal

/-- The words of a message. -/
theorem split_message (d : ℤ × ℤ) :
    split (message d) = [ascii "Values:", ascii "dx:", showInt d.1, ascii "dy:", showInt d.2] := by
  have htext : message d = ascii "Values:" ++ 32 :: (ascii "dx:" ++ 32 :: (showInt d.1 ++ 32 ::
      (ascii "dy:" ++ 32 :: showInt d.2))) := by
    have hdx : ascii " dx: " = 32 :: (ascii "dx:" ++ [32]) := by decide +kernel
    have hdy : ascii " dy: " = 32 :: (ascii "dy:" ++ [32]) := by decide +kernel
    simp [message, hdx, hdy]
  have hspace : Stdio.isSpace 32 = true := by decide
  have hne : ∀ z, showInt z ≠ [] := by
    intro z h
    have hread := readInt_showInt z
    rw [h] at hread
    exact absurd hread.symm (Option.some_ne_none z)
  have hvalues : ∀ c ∈ ascii "Values:", Stdio.isSpace c = false := by decide +kernel
  have hdx : ∀ c ∈ ascii "dx:", Stdio.isSpace c = false := by decide +kernel
  have hdy : ∀ c ∈ ascii "dy:", Stdio.isSpace c = false := by decide +kernel
  rw [split, htext, List.splitOnP_append_cons_of_forall_mem hvalues _ hspace,
    List.splitOnP_append_cons_of_forall_mem hdx _ hspace,
    List.splitOnP_append_cons_of_forall_mem (isSpace_showInt _) _ hspace,
    List.splitOnP_append_cons_of_forall_mem hdy _ hspace,
    List.splitOnP_eq_singleton (isSpace_showInt _)]
  simp [hne, ascii]

/-- **Reading a message.** The handler reads the displacement that the page has posted. -/
theorem readValues_message (d : ℤ × ℤ) : readValues (message d) = some d := by
  have hvalues : readInt (ascii "Values:") = none := by decide +kernel
  have hdx : readInt (ascii "dx:") = none := by decide +kernel
  have hdy : readInt (ascii "dy:") = none := by decide +kernel
  rw [readValues, split_message]
  simp only [List.filterMap_cons, List.filterMap_nil, hvalues, hdx, hdy, readInt_showInt]

/-! ### The speeds -/

/-- The speeds, left and right, of a displacement. -/
noncomputable def speeds (d : ℤ × ℤ) : ℝ × ℝ :=
  let dx : ℝ := d.1
  let dy : ℝ := d.2
  let phi := Complex.arg ⟨dx, dy⟩
  let v := √(dx ^ 2 + dy ^ 2)
  let v := if 200 < v then 200 else v
  let vr := Real.cos (phi + 3 * Real.pi / 4) * v / 200
  let vl := Real.cos (phi + Real.pi / 4) * v / 200
  (vl, vr)

/-- The distance of the stick from the middle. -/
noncomputable def distance (d : ℤ × ℤ) : ℝ := √((d.1 : ℝ) ^ 2 + (d.2 : ℝ) ^ 2)

theorem distance_sq (d : ℤ × ℤ) : distance d ^ 2 = (d.1 : ℝ) ^ 2 + (d.2 : ℝ) ^ 2 :=
  Real.sq_sqrt (add_nonneg (sq_nonneg _) (sq_nonneg _))

theorem distance_eq_zero {d : ℤ × ℤ} : distance d = 0 ↔ d = 0 := by
  rw [← sq_eq_zero_iff, distance_sq,
    add_eq_zero_iff_of_nonneg (sq_nonneg _) (sq_nonneg _), sq_eq_zero_iff, sq_eq_zero_iff,
    Int.cast_eq_zero, Int.cast_eq_zero, Prod.ext_iff]
  rfl

/-- The part of the full speed that a displacement commands. -/
noncomputable def part (d : ℤ × ℤ) : ℝ := min (distance d) 200 / 200

theorem part_nonneg (d : ℤ × ℤ) : 0 ≤ part d :=
  div_nonneg (le_min (Real.sqrt_nonneg _) (by norm_num)) (by norm_num)

theorem part_le_one (d : ℤ × ℤ) : part d ≤ 1 := by
  rw [part, div_le_one (by norm_num)]
  exact min_le_right _ _

theorem speeds_eq (d : ℤ × ℤ) :
    speeds d = (Real.cos (Complex.arg ⟨d.1, d.2⟩ + Real.pi / 4) * part d,
      Real.cos (Complex.arg ⟨d.1, d.2⟩ + 3 * Real.pi / 4) * part d) := by
  have hlimit : (if 200 < distance d then 200 else distance d) = min (distance d) 200 := by
    rw [min_comm, min_def_lt]
  unfold speeds part
  dsimp only
  rw [← distance, hlimit, mul_div_assoc, mul_div_assoc]

/-- The speeds without the trigonometry: the displacement is turned by 45 degrees. -/
theorem distance_mul_speeds (d : ℤ × ℤ) :
    distance d * (speeds d).1 = √2 / 2 * (d.1 - d.2) * part d ∧
      distance d * (speeds d).2 = -(√2 / 2 * (d.1 + d.2)) * part d := by
  by_cases hd : d = 0
  · have hzero := distance_eq_zero.mpr hd
    subst hd
    rw [hzero]
    simp
  · have hz : (⟨d.1, d.2⟩ : ℂ) ≠ 0 := by
      rintro h
      obtain ⟨hre, him⟩ := Complex.ext_iff.mp h
      exact hd (Prod.ext (Int.cast_eq_zero.mp hre) (Int.cast_eq_zero.mp him))
    have hnorm : ‖(⟨d.1, d.2⟩ : ℂ)‖ = distance d := by
      rw [Complex.norm_def, Complex.normSq_mk, distance, sq, sq]
    have hne : distance d ≠ 0 := fun h => hd (distance_eq_zero.mp h)
    have hcos : distance d * Real.cos (Complex.arg ⟨d.1, d.2⟩) = d.1 := by
      rw [Complex.cos_arg hz, hnorm, mul_div_cancel₀ _ hne]
    have hsin : distance d * Real.sin (Complex.arg ⟨d.1, d.2⟩) = d.2 := by
      rw [Complex.sin_arg, hnorm, mul_div_cancel₀ _ hne]
    have hthree : 3 * Real.pi / 4 = Real.pi - Real.pi / 4 := by ring
    rw [speeds_eq, hthree, Real.cos_add, Real.cos_add, Real.cos_pi_sub, Real.sin_pi_sub,
      Real.cos_pi_div_four, Real.sin_pi_div_four]
    constructor
    · linear_combination (√2 / 2 * part d) * hcos - (√2 / 2 * part d) * hsin
    · linear_combination -(√2 / 2 * part d) * hcos - (√2 / 2 * part d) * hsin

/-- Together the speeds are as large as the displacement, up to the full speed. -/
theorem speeds_sq (d : ℤ × ℤ) : (speeds d).1 ^ 2 + (speeds d).2 ^ 2 = part d ^ 2 := by
  have hthree : 3 * Real.pi / 4 = Real.pi / 4 + Real.pi / 2 := by ring
  rw [speeds_eq, hthree, ← add_assoc, Real.cos_add_pi_div_two]
  dsimp only
  linear_combination part d ^ 2 *
    Real.sin_sq_add_cos_sq (Complex.arg ⟨d.1, d.2⟩ + Real.pi / 4)

theorem part_eq_zero {d : ℤ × ℤ} : part d = 0 ↔ d = 0 := by
  rw [part, div_eq_zero_iff, or_iff_left (by norm_num), ← distance_eq_zero]
  constructor
  · intro hzero
    rcases min_choice (distance d) 200 with h | h
    · exact h.symm.trans hzero
    · exact absurd (h.symm.trans hzero) (by norm_num)
  · intro hzero
    rw [hzero, min_eq_left (by norm_num)]

theorem speeds_eq_zero {d : ℤ × ℤ} : speeds d = 0 ↔ d = 0 := by
  constructor
  · intro hzero
    have hsquare := speeds_sq d
    rw [hzero] at hsquare
    exact part_eq_zero.mp (by simpa using hsquare.symm)
  · intro hzero
    rw [speeds_eq, part_eq_zero.mpr hzero, mul_zero, mul_zero]
    rfl

/-- **The speeds of a displacement.** Their sum is how far the stick is pushed forward, which is
up on the screen, and their difference is how far it is pushed to the right; together they are as
large as the displacement, up to the full speed; and they are zero in the middle only. -/
theorem speeds_spec (d : ℤ × ℤ) :
    distance d * ((speeds d).1 + (speeds d).2) = √2 * -d.2 * part d ∧
      distance d * ((speeds d).1 - (speeds d).2) = √2 * d.1 * part d ∧
      (speeds d).1 ^ 2 + (speeds d).2 ^ 2 = part d ^ 2 ∧
      |(speeds d).1| ≤ 1 ∧ |(speeds d).2| ≤ 1 ∧ (speeds d = 0 ↔ d = 0) := by
  obtain ⟨hl, hr⟩ := distance_mul_speeds d
  have hsquare := speeds_sq d
  have hpart : part d ^ 2 ≤ 1 := pow_le_one₀ (part_nonneg d) (part_le_one d)
  refine ⟨by linear_combination hl + hr, by linear_combination hl - hr, hsquare, ?_, ?_,
    speeds_eq_zero⟩
  · rw [← sq_le_one_iff_abs_le_one]
    linarith [sq_nonneg (speeds d).2]
  · rw [← sq_le_one_iff_abs_le_one]
    linarith [sq_nonneg (speeds d).1]

/-! ### The request -/

/-- What happens to the socket of the server: the replies to the first request and to the repeated
one, none where `socket.error` is raised, and whether the socket exists and can be connected. -/
structure PostIO where
  reply : Option (List UInt8)
  pathExists : Bool := true
  connect : Bool := true
  retry : Option (List UInt8) := none

/-- The texts sent to the server, and the body of the response, none where an exception ends the
handler. -/
structure PostResult where
  sent : List (List UInt8)
  body : Option (List UInt8)

/-- The response when there is no socket. -/
def noSocketReply : List UInt8 :=
  ascii "\x7b\"distance_front\":0,\"distance_rear\":0,\"ubat_power\":0,\"ubat_compute\":0," ++
    ascii "\"v_left\":0,\"v_right\":0,\"board_status\":[0,0,0,0],\"acc\":[0,0,0]\x7d"

/-- `do_POST`, where `dumps` is `json.dumps`. -/
noncomputable def doPost (dumps : ℝ × ℝ → List UInt8) (postData : List UInt8) (io : PostIO) :
    PostResult :=
  match readValues postData with
  | none => ⟨[], none⟩
  | some d =>
    let text := dumps (speeds d) ++ [0]
    match io.reply with
    | some r => ⟨[text], some (r.take 1024)⟩
    | none =>
      if io.pathExists then
        if io.connect then
          match io.retry with
          | some r => ⟨[text, text], some (r.take 1024)⟩
          | none => ⟨[text, text], some (ascii "Could not connect to Carserver.c")⟩
        else ⟨[text], none⟩
      else ⟨[text], some noSocketReply⟩

/-- A request with a displacement sends its speeds, once or twice, and nothing else; it is not
answered exactly when the socket has to be connected again and cannot be. -/
theorem doPost_message (dumps : ℝ × ℝ → List UInt8) (d : ℤ × ℤ) (io : PostIO) :
    (∀ text ∈ (doPost dumps (message d) io).sent, text = dumps (speeds d) ++ [0]) ∧
      (doPost dumps (message d) io).sent.length ∈ ({1, 2} : Set ℕ) ∧
      ((doPost dumps (message d) io).body = none ↔
        io.reply = none ∧ io.pathExists = true ∧ io.connect = false) := by
  unfold doPost
  rw [readValues_message]
  dsimp only
  cases io.reply with
  | some r => simp
  | none =>
    cases io.pathExists <;> cases io.connect <;> cases io.retry <;> simp

end Client

end LegoCar
