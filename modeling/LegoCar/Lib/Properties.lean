import Mathlib

/-!
# Property lists

The texts that `java.util.Properties` loads: logical lines of a key and an element, which may be
continued on the next line behind a backslash, with comments, blank lines, separators and escapes.
A text is a list of bytes, each of which is a character, and a string is a list of UTF-16 code
units, so that an escape can denote any of them. `load` fails on an escape that is malformed.

`parseInt` reads a decimal integer of 32 bits, for the digits of ASCII.
-/

namespace Properties

/-- A string of UTF-16 code units. -/
abbrev JString := List ℕ

/-- A text of ASCII characters. -/
def ofString (s : String) : JString := s.toList.map Char.toNat

/-- White space within a line: a blank, a tab or a form feed. -/
def IsWhite (c : ℕ) : Prop := c = 32 ∨ c = 9 ∨ c = 12

instance (c : ℕ) : Decidable (IsWhite c) := inferInstanceAs (Decidable (_ ∨ _))

/-- The end of a key: `=` or `:`. -/
def IsSeparator (c : ℕ) : Prop := c = 61 ∨ c = 58

instance (c : ℕ) : Decidable (IsSeparator c) := inferInstanceAs (Decidable (_ ∨ _))

/-- The text without the white space at its beginning. -/
def dropWhite (line : JString) : JString := line.dropWhile fun c => IsWhite c

/-- The lines that end with a line feed, a carriage return, or both. -/
def naturalLines : JString → List JString
  | [] => [[]]
  | 13 :: 10 :: cs => [] :: naturalLines cs
  | c :: cs =>
    if c = 10 ∨ c = 13 then [] :: naturalLines cs
    else ((naturalLines cs).head?.elim [c] (List.cons c)) :: (naturalLines cs).tail

/-- The line ends with an odd number of backslashes. -/
def Continued (line : JString) : Prop := Odd (line.reverse.takeWhile (· = 92)).length

instance (line : JString) : Decidable (Continued line) := inferInstanceAs (Decidable (Odd _))

/-- The line is blank or, with `#` or `!`, a comment. -/
def Ignored (line : JString) : Prop :=
  line = [] ∨ line.head? = some 35 ∨ line.head? = some 33

instance (line : JString) : Decidable (Ignored line) := inferInstanceAs (Decidable (_ ∨ _))

/-- The logical lines, when the last line is continued or not. One without characters is none. -/
def logicalLines : Option JString → List JString → List JString
  | before, [] => (before.filter fun line => decide (line ≠ [])).toList
  | none, line :: lines =>
    let line := dropWhite line
    if Ignored line then logicalLines none lines
    else if Continued line then logicalLines (some line.dropLast) lines
    else line :: logicalLines none lines
  | some before, line :: lines =>
    let line := dropWhite line
    if Continued line then logicalLines (some (before ++ line.dropLast)) lines
    else if before ++ line = [] then logicalLines none lines
    else (before ++ line) :: logicalLines none lines

/-- The key, with its escapes, and the rest of the line from its end on. -/
def splitKey : Bool → JString → JString × JString
  | _, [] => ([], [])
  | escaped, c :: cs =>
    if escaped = false ∧ (IsSeparator c ∨ IsWhite c) then ([], c :: cs)
    else
      let (key, rest) := splitKey (!escaped && decide (c = 92)) cs
      (c :: key, rest)

/-- The element behind a key. -/
def element (rest : JString) : JString :=
  let rest := dropWhite rest
  if rest.head?.any fun c => decide (IsSeparator c) then dropWhite rest.tail else rest

/-- The value of a hexadecimal digit. -/
def hexDigit (c : ℕ) : Option ℕ :=
  if 48 ≤ c ∧ c ≤ 57 then some (c - 48)
  else if 65 ≤ c ∧ c ≤ 70 then some (c - 55)
  else if 97 ≤ c ∧ c ≤ 102 then some (c - 87)
  else none

/-- The character that a backslash and a letter denote. -/
def escape (c : ℕ) : ℕ :=
  if c = 116 then 9 else if c = 114 then 13 else if c = 110 then 10 else if c = 102 then 12 else c

/-- The string that a text with escapes denotes. A `u` is followed by four hexadecimal digits. -/
def unescape : JString → Option JString
  | [] => some []
  | [92] => some []
  | 92 :: 117 :: a :: b :: c :: d :: cs => do
    let a ← hexDigit a
    let b ← hexDigit b
    let c ← hexDigit c
    let d ← hexDigit d
    let rest ← unescape cs
    some ((4096 * a + 256 * b + 16 * c + d) :: rest)
  | 92 :: c :: cs => if c = 117 then none else (unescape cs).map (List.cons (escape c))
  | c :: cs => (unescape cs).map (List.cons c)

/-- The key and the element of a logical line. -/
def entry (line : JString) : Option (JString × JString) := do
  let (key, rest) := splitKey false line
  let key ← unescape key
  let value ← unescape (element rest)
  some (key, value)

/-- `load`: the entries in their order; none if an escape is malformed. -/
def load (bytes : List UInt8) : Option (List (JString × JString)) :=
  (logicalLines none (naturalLines (bytes.map UInt8.toNat))).mapM entry

/-- `getProperty`: a later entry for a key replaces an earlier one. -/
def getProperty (entries : List (JString × JString)) (key : JString) : Option JString :=
  entries.reverse.lookup key

/-- The number that decimal digits denote. -/
def digits (cs : JString) : Option ℕ :=
  if cs ≠ [] ∧ ∀ c ∈ cs, 48 ≤ c ∧ c ≤ 57 then some (Nat.ofDigits 10 (cs.reverse.map (· - 48)))
  else none

/-- `Integer.parseInt`; none is a `NumberFormatException`. -/
def parseInt (cs : JString) : Option ℤ :=
  let value : Option ℤ :=
    if cs.head? = some 45 then (digits cs.tail).map fun n => -(n : ℤ)
    else if cs.head? = some 43 then (digits cs.tail).map Nat.cast
    else (digits cs).map Nat.cast
  value.filter fun z => decide (-2 ^ 31 ≤ z ∧ z < 2 ^ 31)

end Properties
