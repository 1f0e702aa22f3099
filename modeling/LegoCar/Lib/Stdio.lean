import Mathlib
import LegoCar.Lib.FloatBits

/-!
# Formatted input and output

`sscanf` and `sprintf` of the C library, with literal characters, `%f` and `%d`.

A scan is an automaton that is fed one byte after the other, so that what it has read so far is a
state. An input item of `%f` is the longest sequence of bytes that is a number or the beginning of
one; when it is only the beginning of one, such as `1e`, the directive fails. A number is a decimal
or hexadecimal mantissa with an optional exponent, or one of the words `inf`, `infinity`, `nan` and
`nan(...)`; it is rounded to the nearest `float`.
-/

namespace Stdio

open ExtRat

/-- The bytes of a text. -/
def ascii (s : String) : List UInt8 := s.toList.map fun c => UInt8.ofNat c.toNat

/-! ### Characters -/

/-- White space. -/
def isSpace (c : UInt8) : Bool := c = 32 ∨ 9 ≤ c ∧ c ≤ 13

/-- The lower-case form of a letter. -/
def lower (c : UInt8) : UInt8 := if 65 ≤ c ∧ c ≤ 90 then c + 32 else c

/-- The value of a decimal, or hexadecimal, digit. -/
def digit (hex : Bool) (c : UInt8) : Option ℕ :=
  if 48 ≤ c ∧ c ≤ 57 then some (c.toNat - 48)
  else if hex ∧ 97 ≤ lower c ∧ lower c ≤ 102 then some ((lower c).toNat - 87)
  else none

/-- A letter, a digit or an underscore. -/
def isNameChar (c : UInt8) : Bool := (48 ≤ c ∧ c ≤ 57) ∨ (97 ≤ lower c ∧ lower c ≤ 122) ∨ c = 95

/-! ### Numbers -/

/-- A mantissa: its sign, whether it is hexadecimal, the number of digits read, whether the point
was read, the digits as one number, and how many of them are behind the point. -/
structure Mantissa where
  negative : Bool
  hex : Bool := false
  count : ℕ := 0
  point : Bool := false
  value : ℕ := 0
  fraction : ℕ := 0
  value_of_empty : count = 0 → value = 0 := by simp
deriving DecidableEq

namespace Mantissa

/-- The base of the digits, and that of the exponent. -/
def base (m : Mantissa) : ℕ := if m.hex then 16 else 10
def expBase (m : Mantissa) : ℕ := if m.hex then 2 else 10

/-- The letter before the exponent, `e` or `p`. -/
def expLetter (m : Mantissa) : UInt8 := if m.hex then 112 else 101

/-- The size of the number with this mantissa and the exponent `e`. -/
def size (m : Mantissa) (e : ℤ) : ℚ := m.value / m.base ^ m.fraction * m.expBase ^ e

/-- The number with this mantissa and the exponent `e`. -/
def bits (m : Mantissa) (e : ℤ) : UInt32 := signedBits m.negative (m.size e)

/-- The digit `d` is read. -/
def push (m : Mantissa) (d : ℕ) : Mantissa :=
  { m with
    count := m.count + 1
    value := m.value * m.base + d
    fraction := if m.point then m.fraction + 1 else m.fraction
    value_of_empty := fun h => absurd h (Nat.succ_ne_zero _) }

/-- At most a sign was read. -/
def Empty (m : Mantissa) : Prop := m.hex = false ∧ m.count = 0 ∧ m.point = false

instance (m : Mantissa) : Decidable m.Empty := inferInstanceAs (Decidable (_ ∧ _))

/-- A zero was read, which may be the beginning of `0x`. -/
def OnlyZero (m : Mantissa) : Prop :=
  m.hex = false ∧ m.count = 1 ∧ m.value = 0 ∧ m.point = false

instance (m : Mantissa) : Decidable m.OnlyZero := inferInstanceAs (Decidable (_ ∧ _))

/-- The `x` of a hexadecimal number is read behind the zero, which is not a digit then. -/
def toHex (m : Mantissa) (h : m.OnlyZero) : Mantissa :=
  { m with hex := true, count := 0, value_of_empty := fun _ => h.2.2.1 }

end Mantissa

/-- A word instead of a number: how much of `infinity` or of `nan` was read, the characters behind
`nan(`, and the closed parenthesis. -/
inductive Word where
  | inf (read : ℕ)
  | nan (read : ℕ)
  | nanChars
  | nanClosed
deriving DecidableEq

namespace Word

/-- The next letter of a word. -/
def step (c : UInt8) : Word → Option Word
  | inf read => if (ascii "infinity")[read]? = some (lower c) then some (inf (read + 1)) else none
  | nan read =>
    if (ascii "nan")[read]? = some (lower c) then some (nan (read + 1))
    else if read = 3 ∧ c = 40 then some nanChars
    else none
  | nanChars => if isNameChar c then some nanChars else if c = 41 then some nanClosed else none
  | nanClosed => none

/-- The value of a word: the bit pattern of infinity or of not-a-number. -/
def finish : Word → Option ℕ
  | inf read => if read = 3 ∨ read = 8 then some (255 * 2 ^ 23) else none
  | nan read => if read = 3 then some (255 * 2 ^ 23 + 2 ^ 22) else none
  | nanChars => none
  | nanClosed => some (255 * 2 ^ 23 + 2 ^ 22)

end Word

/-- What was read of a number: nothing, a mantissa, the letter before the exponent, the sign of
the exponent, digits of the exponent, or letters of a word. -/
inductive Numeral where
  | start
  | mantissa (m : Mantissa)
  | expMark (m : Mantissa)
  | expSign (m : Mantissa) (down : Bool)
  | exponent (m : Mantissa) (down : Bool) (e : ℕ)
  | word (negative : Bool) (w : Word)
deriving DecidableEq

namespace Numeral

/-- The next character after a mantissa. -/
def stepMantissa (c : UInt8) (m : Mantissa) : Option Numeral :=
  match digit m.hex c with
  | some d => some (mantissa (m.push d))
  | none =>
    if c = 46 ∧ m.point = false then some (mantissa { m with point := true })
    else if lower c = m.expLetter ∧ 0 < m.count then some (expMark m)
    else if h : lower c = 120 ∧ m.OnlyZero then some (mantissa (m.toHex h.2))
    else if lower c = 105 ∧ m.Empty then some (word m.negative (.inf 1))
    else if lower c = 110 ∧ m.Empty then some (word m.negative (.nan 1))
    else none

/-- The next character of a number, if it is the beginning of one with this character. -/
def step (c : UInt8) : Numeral → Option Numeral
  | start =>
    if c = 43 ∨ c = 45 then some (mantissa { negative := c = 45 })
    else stepMantissa c { negative := false }
  | mantissa m => stepMantissa c m
  | expMark m =>
    if c = 43 ∨ c = 45 then some (expSign m (c = 45)) else (digit false c).map (exponent m false)
  | expSign m down => (digit false c).map (exponent m down)
  | exponent m down e => (digit false c).map fun d => exponent m down (e * 10 + d)
  | word negative w => (w.step c).map (word negative)

/-- The number that was read, if it is one. -/
def finish : Numeral → Option UInt32
  | mantissa m => if 0 < m.count then some (m.bits 0) else none
  | exponent m down e => some (m.bits (if down then -e else e))
  | word negative w => w.finish.map fun k => UInt32.ofNat (k + if negative then 2 ^ 31 else 0)
  | _ => none

end Numeral

/-! ### Input -/

/-- A directive of a format. -/
inductive Directive where
  | literal (c : UInt8)
  | float
deriving DecidableEq

/-- A scan: the numbers stored, what was read of the next number, and the directives left. A scan
that failed has none left. -/
structure Scan where
  values : List UInt32
  current : Numeral
  rest : List Directive
deriving DecidableEq

namespace Scan

/-- The next character: a number ends with the first character that does not belong to it, which
the next directive reads. -/
def consume (c : UInt8) : List UInt32 → Numeral → List Directive → Scan
  | values, _, [] => ⟨values, .start, []⟩
  | values, _, .literal d :: rest => if c = d then ⟨values, .start, rest⟩ else ⟨values, .start, []⟩
  | values, current, .float :: rest =>
    if current = .start ∧ isSpace c then ⟨values, .start, .float :: rest⟩
    else
      match current.step c with
      | some next => ⟨values, next, .float :: rest⟩
      | none =>
        match current.finish with
        | some b => consume c (values ++ [b]) .start rest
        | none => ⟨values, .start, []⟩

/-- The next character. -/
def step (s : Scan) (c : UInt8) : Scan := consume c s.values s.current s.rest

/-- The numbers stored at the end of the text. -/
def finish (s : Scan) : List UInt32 :=
  match s.rest with
  | .float :: _ => s.values ++ s.current.finish.toList
  | _ => s.values

end Scan

/-- `sscanf`: the numbers it stores. -/
def sscanf (format : List Directive) (text : List UInt8) : List UInt32 :=
  (text.foldl Scan.step ⟨[], .start, format⟩).finish

/-! ### Output -/

/-- A number in decimal. -/
def decimal (n : ℕ) : List UInt8 :=
  if n = 0 then [48] else (Nat.digits 10 n).reverse.map fun d => UInt8.ofNat (48 + d)

/-- `%d`. -/
def showInt (z : ℤ) : List UInt8 := if z < 0 then 45 :: decimal z.natAbs else decimal z.natAbs

/-- `%f` of a `float`: the number with that bit pattern, rounded to six decimals. -/
def showFloat (b : UInt32) : List UInt8 :=
  let sign := if 2 ^ 31 ≤ b.toNat then [45] else []
  match ofBits b with
  | .nan => sign ++ ascii "nan"
  | .inf _ => sign ++ ascii "inf"
  | .fin q =>
    let n := (roundEven (|q| * 10 ^ 6)).toNat
    let decimals := decimal (n % 10 ^ 6)
    sign ++ decimal (n / 10 ^ 6) ++ [46] ++ List.replicate (6 - decimals.length) 48 ++ decimals

/-- A part of a formatted text. -/
inductive Item where
  | text (s : List UInt8)
  | int (z : ℤ)
  | float (b : UInt32)

/-- The text of a part. -/
def Item.render : Item → List UInt8
  | text s => s
  | int z => showInt z
  | float b => showFloat b

/-- `sprintf`: the text, without the terminating zero. -/
def sprintf (items : List Item) : List UInt8 := items.flatMap Item.render

example : sscanf [.literal 91, .float, .literal 44, .float, .literal 93] (ascii "[0.5, -1e0]") =
    [0x3F000000, 0xBF800000] := by decide +kernel

example : sprintf [.text (ascii "v: "), .float 0xBF800000, .text (ascii ","), .int (-20)] =
    ascii "v: -1.000000,-20" := by decide +kernel

end Stdio
