import Mathlib

/-!
# JSON texts

A reader of JSON texts given as bytes, by the rules of the format: white space between the tokens,
numbers without leading zeros and with an optional fraction and exponent, strings with escapes. A
number is read as a rational number, and the characters of a string are kept as they are written.

The reader is bounded by the number of its calls. `Parses text v` says that the text is a JSON text
with the value `v`, whatever the bound; there is at most one such value (`Parses.unique`). The rules
`reads_number`, `reads_array` and `reads_object` put the text of a value together from the texts of
its parts, and `not_parses_object` says that one member without a value is enough to make an object
not a JSON text.
-/

namespace Json

/-- A JSON value. -/
inductive Value where
  | null
  | bool (b : Bool)
  | number (q : ℚ)
  | string (chars : List UInt8)
  | array (elements : List Value)
  | object (members : List (List UInt8 × Value))

/-- The member of an object. -/
def Value.member (name : List UInt8) : Value → Option Value
  | object members => members.lookup name
  | _ => none

/-- What reads something from the beginning of a text, and leaves the rest. -/
abbrev Reader (α : Type) := List UInt8 → Option (α × List UInt8)

/-! ### Tokens -/

/-- White space. -/
def isSpace (c : UInt8) : Bool := c = 32 ∨ c = 9 ∨ c = 10 ∨ c = 13

/-- The text without white space at its beginning. -/
def skip (text : List UInt8) : List UInt8 := text.dropWhile isSpace

def isDigit (c : UInt8) : Bool := 48 ≤ c ∧ c ≤ 57

def isHexDigit (c : UInt8) : Bool := isDigit c ∨ 65 ≤ c ∧ c ≤ 70 ∨ 97 ≤ c ∧ c ≤ 102

/-- The number behind digits. -/
def digitsValue (ds : List UInt8) : ℕ := ds.foldl (fun v d => v * 10 + (d.toNat - 48)) 0

/-- One digit or more. -/
def digits : Reader (List UInt8) := fun text =>
  if text.takeWhile isDigit = [] then none
  else some (text.takeWhile isDigit, text.dropWhile isDigit)

/-- The integer part of a number: a zero, or digits that do not begin with one. -/
def integer : Reader (List UInt8)
  | 48 :: rest => some ([48], rest)
  | text => digits text

/-- The fraction of a number, if it has one. -/
def fraction : Reader (List UInt8)
  | 46 :: rest => digits rest
  | text => some ([], text)

/-- The digits of an exponent, with a sign or without. -/
def exponentDigits : Reader ℤ
  | 43 :: rest => (digits rest).map fun (ds, rest) => (digitsValue ds, rest)
  | 45 :: rest => (digits rest).map fun (ds, rest) => (-digitsValue ds, rest)
  | text => (digits text).map fun (ds, rest) => (digitsValue ds, rest)

/-- The exponent of a number, if it has one. -/
def exponent : Reader ℤ
  | 69 :: rest => exponentDigits rest
  | 101 :: rest => exponentDigits rest
  | text => some (0, text)

/-- A number without its sign. -/
def magnitude : Reader ℚ := fun text => do
  let (ds, text) ← integer text
  let (fs, text) ← fraction text
  let (e, text) ← exponent text
  some (digitsValue (ds ++ fs) / 10 ^ fs.length * 10 ^ e, text)

/-- A number. -/
def number : Reader ℚ
  | 45 :: rest => (magnitude rest).map fun (q, rest) => (-q, rest)
  | text => magnitude text

/-- The characters of a string behind its opening quotation mark. -/
def string : Reader (List UInt8)
  | 34 :: rest => some ([], rest)
  | 92 :: 117 :: a :: b :: c :: d :: rest =>
    if isHexDigit a ∧ isHexDigit b ∧ isHexDigit c ∧ isHexDigit d then
      (string rest).map fun (s, rest) => ([92, 117, a, b, c, d] ++ s, rest)
    else none
  | 92 :: c :: rest =>
    -- a quotation mark, a backslash, a slash, or one of the letters b, f, n, r and t
    if c ∈ [34, 92, 47, 98, 102, 110, 114, 116] then
      (string rest).map fun (s, rest) => (92 :: c :: s, rest)
    else none
  | c :: rest =>
    if 32 ≤ c ∧ c ≠ 92 then (string rest).map fun (s, rest) => (c :: s, rest) else none
  | [] => none

/-! ### Values -/

/-- A value, given the readers of elements and of members. -/
def valueWith (elements : Reader (List Value)) (members : Reader (List (List UInt8 × Value))) :
    Reader Value := fun text =>
  match skip text with
  | 123 :: rest =>
    match skip rest with
    | 125 :: rest => some (.object [], rest)
    | _ => (members rest).map fun (ms, rest) => (.object ms, rest)
  | 91 :: rest =>
    match skip rest with
    | 93 :: rest => some (.array [], rest)
    | _ => (elements rest).map fun (vs, rest) => (.array vs, rest)
  | 34 :: rest => (string rest).map fun (s, rest) => (.string s, rest)
  | 110 :: 117 :: 108 :: 108 :: rest => some (.null, rest)
  | 116 :: 114 :: 117 :: 101 :: rest => some (.bool true, rest)
  | 102 :: 97 :: 108 :: 115 :: 101 :: rest => some (.bool false, rest)
  | text => (number text).map fun (q, rest) => (.number q, rest)

/-- One element or more, up to the closing bracket. -/
def elementsWith (value : Reader Value) (elements : Reader (List Value)) : Reader (List Value) :=
  fun text => do
    let (v, rest) ← value text
    match skip rest with
    | 44 :: rest => (elements rest).map fun (vs, rest) => (v :: vs, rest)
    | 93 :: rest => some ([v], rest)
    | _ => none

/-- One member or more, up to the closing brace. -/
def membersWith (value : Reader Value) (members : Reader (List (List UInt8 × Value))) :
    Reader (List (List UInt8 × Value)) := fun text =>
  match skip text with
  | 34 :: rest => do
    let (name, rest) ← string rest
    match skip rest with
    | 58 :: rest => do
      let (v, rest) ← value rest
      match skip rest with
      | 44 :: rest => (members rest).map fun (ms, rest) => ((name, v) :: ms, rest)
      | 125 :: rest => some ([(name, v)], rest)
      | _ => none
    | _ => none
  | _ => none

mutual

/-- The reader of values, with so many calls below each other. -/
def value : ℕ → Reader Value
  | 0 => fun _ => none
  | fuel + 1 => valueWith (elements fuel) (members fuel)

def elements : ℕ → Reader (List Value)
  | 0 => fun _ => none
  | fuel + 1 => elementsWith (value fuel) (elements fuel)

def members : ℕ → Reader (List (List UInt8 × Value))
  | 0 => fun _ => none
  | fuel + 1 => membersWith (value fuel) (members fuel)

end

/-- The text is a JSON text with this value. -/
def Parses (text : List UInt8) (v : Value) : Prop :=
  ∃ fuel rest, value fuel text = some (v, rest) ∧ skip rest = []

/-! ### The bound does not matter -/

/-- A reader that reads what another one reads. -/
def Below {α : Type} (r r' : Reader α) : Prop := ∀ text x, r text = some x → r' text = some x

variable {e e' : Reader (List Value)} {m m' : Reader (List (List UInt8 × Value))}
  {v v' : Reader Value}

theorem Below.map {α β : Type} {r r' : Reader α} (h : Below r r') {f : α × List UInt8 → β}
    {text : List UInt8} {y : β} (hy : (r text).map f = some y) : (r' text).map f = some y := by
  obtain ⟨x, hx, rfl⟩ := Option.map_eq_some_iff.mp hy
  rw [h text x hx]
  rfl

theorem valueWith_mono (he : Below e e') (hm : Below m m') :
    Below (valueWith e m) (valueWith e' m') := by
  intro text x h
  unfold valueWith at h ⊢
  generalize skip text = t at h ⊢
  split at h
  · split at h
    · exact h
    · exact hm.map h
  · split at h
    · exact h
    · exact he.map h
  · exact h
  · exact h
  · exact h
  · exact h
  · exact h

theorem elementsWith_mono (hv : Below v v') (he : Below e e') :
    Below (elementsWith v e) (elementsWith v' e') := by
  intro text x h
  obtain ⟨⟨w, rest⟩, hw, h⟩ := Option.bind_eq_some_iff.mp h
  refine Option.bind_eq_some_iff.mpr ⟨_, hv _ _ hw, ?_⟩
  dsimp only at h ⊢
  generalize skip rest = t at h ⊢
  split at h
  · exact he.map h
  · exact h
  · exact absurd h (by simp)

theorem membersWith_mono (hv : Below v v') (hm : Below m m') :
    Below (membersWith v m) (membersWith v' m') := by
  intro text x h
  unfold membersWith at h ⊢
  generalize skip text = t at h ⊢
  split at h
  · obtain ⟨⟨name, rest⟩, hname, h⟩ := Option.bind_eq_some_iff.mp h
    refine Option.bind_eq_some_iff.mpr ⟨_, hname, ?_⟩
    dsimp only at h ⊢
    generalize skip rest = t at h ⊢
    split at h
    · obtain ⟨⟨w, rest⟩, hw, h⟩ := Option.bind_eq_some_iff.mp h
      refine Option.bind_eq_some_iff.mpr ⟨_, hv _ _ hw, ?_⟩
      dsimp only at h ⊢
      generalize skip rest = t at h ⊢
      split at h
      · exact hm.map h
      · exact h
      · exact absurd h (by simp)
    · exact absurd h (by simp)
  · exact absurd h (by simp)

theorem readers_succ (fuel : ℕ) : Below (value fuel) (value (fuel + 1)) ∧
    Below (elements fuel) (elements (fuel + 1)) ∧ Below (members fuel) (members (fuel + 1)) := by
  induction fuel with
  | zero =>
    exact ⟨fun _ _ h => absurd h (by simp [value]), fun _ _ h => absurd h (by simp [elements]),
      fun _ _ h => absurd h (by simp [members])⟩
  | succ fuel ih =>
    obtain ⟨hv, he, hm⟩ := ih
    exact ⟨valueWith_mono he hm, elementsWith_mono hv he, membersWith_mono hv hm⟩

/-- A larger bound reads the same. -/
theorem readers_mono {fuel fuel' : ℕ} (h : fuel ≤ fuel') : Below (value fuel) (value fuel') ∧
    Below (elements fuel) (elements fuel') ∧ Below (members fuel) (members fuel') := by
  induction fuel', h using Nat.le_induction with
  | base => exact ⟨fun _ _ h => h, fun _ _ h => h, fun _ _ h => h⟩
  | succ fuel' _ ih =>
    obtain ⟨hv, he, hm⟩ := ih
    obtain ⟨hv', he', hm'⟩ := readers_succ fuel'
    exact ⟨fun _ _ h => hv' _ _ (hv _ _ h), fun _ _ h => he' _ _ (he _ _ h),
      fun _ _ h => hm' _ _ (hm _ _ h)⟩

theorem value_unique {fuel fuel' : ℕ} {text : List UInt8} {x x' : Value × List UInt8}
    (h : value fuel text = some x) (h' : value fuel' text = some x') : x = x' := by
  have hx := (readers_mono (le_max_left fuel fuel')).1 text x h
  rw [(readers_mono (le_max_right fuel fuel')).1 text x' h'] at hx
  exact (Option.some.inj hx).symm

/-- A JSON text has one value. -/
theorem Parses.unique {text : List UInt8} {x x' : Value} (h : Parses text x)
    (h' : Parses text x') : x = x' := by
  obtain ⟨fuel, rest, hx, -⟩ := h
  obtain ⟨fuel', rest', hx', -⟩ := h'
  exact congrArg Prod.fst (value_unique hx hx')

/-! ### Numbers -/

/-- The text does not continue a number. -/
def Stops (rest : List UInt8) : Prop :=
  ∀ c ∈ rest.head?, isDigit c = false ∧ c ≠ 46 ∧ c ≠ 69 ∧ c ≠ 101

/-- The digits of an integer part. -/
structure IsInteger (ds : List UInt8) : Prop where
  digits : ∀ c ∈ ds, isDigit c = true
  head : ds = [48] ∨ ∃ c t, ds = c :: t ∧ c ≠ 48

/-- The text of a number without exponent. -/
def numberText (negative : Bool) (ds fs : List UInt8) : List UInt8 :=
  (if negative then [45] else []) ++ ds ++ (if fs = [] then [] else 46 :: fs)

section Number

variable {ds fs rest : List UInt8} {negative : Bool}

theorem digits_append (hds : ∀ c ∈ ds, isDigit c = true) (hne : ds ≠ [])
    (hrest : ∀ c ∈ rest.head?, isDigit c = false) : digits (ds ++ rest) = some (ds, rest) := by
  have htake : (ds ++ rest).takeWhile isDigit = ds := by
    rw [List.takeWhile_append_of_pos hds]
    cases rest with
    | nil => rw [List.takeWhile_nil, List.append_nil]
    | cons c rest =>
      rw [List.takeWhile_cons, hrest c rfl]
      exact List.append_nil ds
  have hdrop : (ds ++ rest).dropWhile isDigit = rest := by
    rw [List.dropWhile_append_of_pos hds]
    cases rest with
    | nil => rfl
    | cons c rest =>
      rw [List.dropWhile_cons, hrest c rfl]
      rfl
  rw [digits, htake, hdrop, if_neg hne]

theorem integer_append (hds : IsInteger ds) (hrest : ∀ c ∈ rest.head?, isDigit c = false) :
    integer (ds ++ rest) = some (ds, rest) := by
  obtain rfl | ⟨c, t, rfl, hc⟩ := hds.head
  · rfl
  · have hdigits := digits_append hds.digits (List.cons_ne_nil c t) hrest
    rw [List.cons_append] at hdigits ⊢
    unfold integer
    split
    · next heq => exact absurd (List.cons.inj heq).1 hc
    · exact hdigits

theorem fraction_append (hfs : ∀ c ∈ fs, isDigit c = true) (hrest : Stops rest) :
    fraction ((if fs = [] then [] else 46 :: fs) ++ rest) = some (fs, rest) := by
  split_ifs with hnil
  · subst hnil
    rw [List.nil_append]
    unfold fraction
    split
    · next heq => exact absurd rfl (hrest 46 rfl).2.1
    · rfl
  · exact digits_append hfs hnil fun c hc => (hrest c hc).1

theorem exponent_of_stops (hrest : Stops rest) : exponent rest = some (0, rest) := by
  unfold exponent
  split
  · exact absurd rfl (hrest 69 rfl).2.2.1
  · exact absurd rfl (hrest 101 rfl).2.2.2
  · rfl

/-- The text of a number is read as its digits say. -/
theorem number_append (hds : IsInteger ds) (hfs : ∀ c ∈ fs, isDigit c = true)
    (hrest : Stops rest) : number (numberText negative ds fs ++ rest) =
      some ((if negative then -1 else 1) * ((digitsValue (ds ++ fs) : ℚ) / 10 ^ fs.length),
        rest) := by
  have hpoint : ∀ c ∈ ((if fs = [] then [] else 46 :: fs) ++ rest).head?, isDigit c = false := by
    split_ifs
    · exact fun c hc => (hrest c hc).1
    · intro c hc
      obtain rfl := Option.some.inj hc
      rfl
  have hmagnitude : magnitude (ds ++ ((if fs = [] then [] else 46 :: fs) ++ rest)) =
      some ((digitsValue (ds ++ fs) : ℚ) / 10 ^ fs.length, rest) := by
    rw [magnitude, integer_append hds hpoint]
    simp [fraction_append hfs hrest, exponent_of_stops hrest]
  cases negative with
  | true =>
    show (magnitude (ds ++ (if fs = [] then [] else 46 :: fs) ++ rest)).map _ = _
    rw [List.append_assoc, hmagnitude]
    simp
  | false =>
    have hhead : ∀ t, ds ++ ((if fs = [] then [] else 46 :: fs) ++ rest) ≠ 45 :: t := by
      intro t heq
      obtain rfl | ⟨c, t', rfl, -⟩ := hds.head
      · exact absurd (List.cons.inj heq).1 (by decide)
      · have hdigit := hds.digits c List.mem_cons_self
        rw [(List.cons.inj heq).1] at hdigit
        exact absurd hdigit (by decide)
    show number (ds ++ (if fs = [] then [] else 46 :: fs) ++ rest) = _
    rw [List.append_assoc]
    unfold number
    split
    · next heq => exact absurd heq (hhead _)
    · rw [hmagnitude]
      simp

end Number

/-! ### Texts of values -/

/-- The text of a value: whatever follows it, if it does not continue a number, the value is read
and the rest is left. -/
def Reads (t : List UInt8) (v : Value) : Prop :=
  ∃ fuel, ∀ rest, Stops rest → value fuel (t ++ rest) = some (v, rest)

/-- A text that is not the beginning of any value. -/
def Fails (t : List UInt8) : Prop := ∀ fuel rest, value fuel (t ++ rest) = none

/-- Texts with commas between them. -/
def commaSeparated : List (List UInt8) → List UInt8
  | [] => []
  | [t] => t
  | t :: ts => t ++ 44 :: commaSeparated ts

/-- The text of an array. -/
def arrayText (ts : List (List UInt8)) : List UInt8 := 91 :: commaSeparated ts ++ [93]

/-- The text of a member. -/
def memberText (name t : List UInt8) : List UInt8 := 34 :: name ++ 34 :: 58 :: t

/-- The text of an object. -/
def objectText (ms : List (List UInt8 × List UInt8)) : List UInt8 :=
  123 :: commaSeparated (ms.map fun m => memberText m.1 m.2) ++ [125]

/-- A name without characters that are escaped. -/
def PlainName (name : List UInt8) : Prop := ∀ c ∈ name, 32 ≤ c ∧ c ≠ 34 ∧ c ≠ 92

instance (name : List UInt8) : Decidable (PlainName name) :=
  decidable_of_iff (name.all fun c => 32 ≤ c ∧ c ≠ 34 ∧ c ≠ 92) (by simp [PlainName])

section Texts

variable {t name rest : List UInt8} {ts : List (List UInt8)} {w : Value} {ws : List Value} {q : ℚ}

theorem stops_cons {c : UInt8} (hc : c = 44 ∨ c = 93 ∨ c = 125) (rest : List UInt8) :
    Stops (c :: rest) := by
  intro c' hc'
  obtain rfl := Option.some.inj hc'
  rcases hc with rfl | rfl | rfl <;> decide

theorem commaSeparated_cons (t : List UInt8) (h : ts ≠ []) :
    commaSeparated (t :: ts) = t ++ 44 :: commaSeparated ts := by
  cases ts with
  | nil => exact absurd rfl h
  | cons t' ts => rfl

/-- What begins with a digit or the minus sign is a number. -/
theorem valueWith_of_number {c : UInt8} (hc : c = 45 ∨ isDigit c = true) (t : List UInt8) :
    valueWith e m (c :: t) = (number (c :: t)).map fun (q, rest) => (.number q, rest) := by
  have hspace : isSpace c = false := by
    simp only [isDigit, isSpace, decide_eq_true_eq, decide_eq_false_iff_not] at hc ⊢
    rintro (rfl | rfl | rfl | rfl) <;> revert hc <;> decide
  have hskip : skip (c :: t) = c :: t := List.dropWhile_cons_of_neg (by simp [hspace])
  have hne : ∀ {d : UInt8} {t' : List UInt8}, ¬(d = 45 ∨ isDigit d = true) → c :: t ≠ d :: t' :=
    fun hd heq => hd ((List.cons.inj heq).1 ▸ hc)
  unfold valueWith
  rw [hskip]
  split
  · next heq => exact absurd heq (hne (by decide))
  · next heq => exact absurd heq (hne (by decide))
  · next heq => exact absurd heq (hne (by decide))
  · next heq => exact absurd heq (hne (by decide))
  · next heq => exact absurd heq (hne (by decide))
  · next heq => exact absurd heq (hne (by decide))
  · rfl

theorem reads_of_number {c : UInt8} (hc : c = 45 ∨ isDigit c = true)
    (h : ∀ rest, Stops rest → number (c :: t ++ rest) = some (q, rest)) :
    Reads (c :: t) (.number q) := by
  refine ⟨1, fun rest hrest => ?_⟩
  rw [List.cons_append, value, valueWith_of_number hc, ← List.cons_append, h rest hrest]
  rfl

/-- A number is read as its digits say. -/
theorem reads_number {negative : Bool} {ds fs : List UInt8} (hds : IsInteger ds)
    (hfs : ∀ c ∈ fs, isDigit c = true) : Reads (numberText negative ds fs)
      (.number ((if negative then -1 else 1) *
        ((digitsValue (ds ++ fs) : ℚ) / 10 ^ fs.length))) := by
  obtain ⟨c, t, htext, hc⟩ : ∃ c t, numberText negative ds fs = c :: t ∧
      (c = 45 ∨ isDigit c = true) := by
    obtain ⟨d, ds', rfl⟩ : ∃ d ds', ds = d :: ds' := by
      obtain rfl | ⟨c, t, rfl, -⟩ := hds.head
      · exact ⟨_, _, rfl⟩
      · exact ⟨_, _, rfl⟩
    cases negative with
    | true => exact ⟨_, _, rfl, Or.inl rfl⟩
    | false => exact ⟨_, _, rfl, Or.inr (hds.digits d List.mem_cons_self)⟩
  have hnumber : ∀ rest, Stops rest → number (numberText negative ds fs ++ rest) = _ :=
    fun _ hrest => number_append hds hfs hrest
  rw [htext] at hnumber ⊢
  exact reads_of_number hc hnumber

theorem valueWith_array (h : ∀ rest, skip t ≠ 93 :: rest) :
    valueWith e m (91 :: t) = (e t).map fun (vs, rest) => (.array vs, rest) := by
  show (match skip t with
    | 93 :: rest => some (Value.array [], rest)
    | _ => (e t).map fun (vs, rest) => (Value.array vs, rest)) = _
  split
  · next heq => exact absurd heq (h _)
  · rfl

theorem valueWith_object (h : ∀ rest, skip t ≠ 125 :: rest) :
    valueWith e m (123 :: t) = (m t).map fun (ms, rest) => (.object ms, rest) := by
  show (match skip t with
    | 125 :: rest => some (Value.object [], rest)
    | _ => (m t).map fun (ms, rest) => (Value.object ms, rest)) = _
  split
  · next heq => exact absurd heq (h _)
  · rfl

/-- No element begins with a closing bracket. -/
theorem elements_of_bracket {fuel : ℕ} {text : List UInt8} (h : skip text = 93 :: rest) :
    elements fuel text = none := by
  have hvalue : ∀ fuel, value fuel text = none := by
    intro fuel
    cases fuel with
    | zero => rfl
    | succ fuel =>
      show valueWith _ _ text = none
      unfold valueWith
      rw [h]
      rfl
  cases fuel with
  | zero => rfl
  | succ fuel =>
    show elementsWith _ _ text = none
    rw [elementsWith, hvalue]
    rfl

theorem elements_last {fuel : ℕ} (h : ∀ rest, Stops rest → value fuel (t ++ rest) = some (w, rest))
    (rest : List UInt8) : elements (fuel + 1) (t ++ 93 :: rest) = some ([w], rest) := by
  show elementsWith (value fuel) (elements fuel) (t ++ 93 :: rest) = _
  rw [elementsWith, h _ (stops_cons (by simp) rest)]
  rfl

theorem elements_cons {fuel : ℕ} (h : ∀ rest, Stops rest → value fuel (t ++ rest) = some (w, rest))
    (rest : List UInt8) : elements (fuel + 1) (t ++ 44 :: rest) =
      (elements fuel rest).map fun (vs, rest) => (w :: vs, rest) := by
  show elementsWith (value fuel) (elements fuel) (t ++ 44 :: rest) = _
  rw [elementsWith, h _ (stops_cons (by simp) rest)]
  rfl

theorem reads_elements (h : List.Forall₂ Reads ts ws) (hne : ts ≠ []) :
    ∃ fuel, ∀ rest, elements fuel (commaSeparated ts ++ 93 :: rest) = some (ws, rest) := by
  induction h with
  | nil => exact absurd rfl hne
  | @cons t w ts ws ht hts ih =>
    obtain ⟨fuel, hvalue⟩ := ht
    by_cases hlast : ts = []
    · subst hlast
      obtain rfl := List.forall₂_nil_left_iff.mp hts
      exact ⟨fuel + 1, elements_last hvalue⟩
    · obtain ⟨fuel', hrest⟩ := ih hlast
      have hmono := readers_mono (le_max_left fuel fuel')
      have hmono' := readers_mono (le_max_right fuel fuel')
      refine ⟨max fuel fuel' + 1, fun rest => ?_⟩
      rw [commaSeparated_cons t hlast, List.append_assoc, List.cons_append,
        elements_cons fun rest hrest => hmono.1 _ _ (hvalue rest hrest),
        hmono'.2.1 _ _ (hrest rest)]
      rfl

/-- **The text of an array** is read as the values of its parts. -/
theorem reads_array (h : List.Forall₂ Reads ts ws) (hne : ts ≠ []) :
    Reads (arrayText ts) (.array ws) := by
  obtain ⟨fuel, helements⟩ := reads_elements h hne
  refine ⟨fuel + 1, fun rest _ => ?_⟩
  have htext : arrayText ts ++ rest = 91 :: (commaSeparated ts ++ 93 :: rest) := by
    simp [arrayText]
  have hfirst : ∀ rest', skip (commaSeparated ts ++ 93 :: rest) ≠ 93 :: rest' := fun rest' heq =>
    absurd ((elements_of_bracket heq).symm.trans (helements rest)) (by simp)
  rw [htext, value, valueWith_array hfirst, helements]
  rfl

/-! ### Texts of objects -/

theorem string_append (h : PlainName name) (rest : List UInt8) :
    string (name ++ 34 :: rest) = some (name, rest) := by
  induction name with
  | nil => rfl
  | cons c name ih =>
    obtain ⟨hc, hquote, hslash⟩ := h c List.mem_cons_self
    have hrest := ih fun d hd => h d (List.mem_cons_of_mem _ hd)
    rw [List.cons_append, string.eq_def]
    split
    · next heq => exact absurd (List.cons.inj heq).1 hquote
    · next heq => exact absurd (List.cons.inj heq).1 hslash
    · next heq => exact absurd (List.cons.inj heq).1 hslash
    · next heq =>
      obtain ⟨rfl, rfl⟩ := List.cons.inj heq
      rw [if_pos ⟨hc, hslash⟩, hrest]
      rfl
    · next heq => exact absurd heq (by simp)

/-- What a member leaves to be read, when its value is. -/
theorem members_memberText {fuel : ℕ} (hname : PlainName name) (text : List UInt8) :
    members (fuel + 1) (memberText name t ++ text) =
      (value fuel (t ++ text)).bind fun (v, rest) =>
        match skip rest with
        | 44 :: rest => (members fuel rest).map fun (ms, rest) => ((name, v) :: ms, rest)
        | 125 :: rest => some ([(name, v)], rest)
        | _ => none := by
  have htext : memberText name t ++ text = 34 :: (name ++ 34 :: 58 :: (t ++ text)) := by
    simp [memberText]
  rw [htext]
  show (string (name ++ 34 :: 58 :: (t ++ text))).bind _ = _
  rw [string_append hname]
  rfl

theorem members_last {fuel : ℕ} (hname : PlainName name)
    (h : ∀ rest, Stops rest → value fuel (t ++ rest) = some (w, rest)) (rest : List UInt8) :
    members (fuel + 1) (memberText name t ++ 125 :: rest) = some ([(name, w)], rest) := by
  rw [members_memberText hname, h _ (stops_cons (by simp) rest)]
  rfl

theorem members_cons {fuel : ℕ} (hname : PlainName name)
    (h : ∀ rest, Stops rest → value fuel (t ++ rest) = some (w, rest)) (rest : List UInt8) :
    members (fuel + 1) (memberText name t ++ 44 :: rest) =
      (members fuel rest).map fun (ms, rest) => ((name, w) :: ms, rest) := by
  rw [members_memberText hname, h _ (stops_cons (by simp) rest)]
  rfl

/-- The text of a member, and the member. -/
structure ReadsMember (m : List UInt8 × List UInt8) (x : List UInt8 × Value) : Prop where
  plain : PlainName m.1
  name : x.1 = m.1
  reads : Reads m.2 x.2

theorem readsMember (hname : PlainName name) (h : Reads t w) : ReadsMember (name, t) (name, w) :=
  ⟨hname, rfl, h⟩

variable {ms : List (List UInt8 × List UInt8)} {xs : List (List UInt8 × Value)}

theorem reads_members (h : List.Forall₂ ReadsMember ms xs) (hne : ms ≠ []) :
    ∃ fuel, ∀ rest, members fuel (commaSeparated (ms.map fun m => memberText m.1 m.2) ++
      125 :: rest) = some (xs, rest) := by
  induction h with
  | nil => exact absurd rfl hne
  | @cons m x ms xs hm hms ih =>
    obtain ⟨name, t⟩ := m
    obtain ⟨_, w⟩ := x
    obtain ⟨hplain, rfl, fuel, hvalue⟩ := hm
    by_cases hlast : ms = []
    · subst hlast
      obtain rfl := List.forall₂_nil_left_iff.mp hms
      exact ⟨fuel + 1, members_last hplain hvalue⟩
    · obtain ⟨fuel', hrest⟩ := ih hlast
      have hmono := readers_mono (le_max_left fuel fuel')
      have hmono' := readers_mono (le_max_right fuel fuel')
      refine ⟨max fuel fuel' + 1, fun rest => ?_⟩
      rw [List.map_cons, commaSeparated_cons _ (by simpa using hlast), List.append_assoc,
        List.cons_append, members_cons hplain fun rest hrest => hmono.1 _ _ (hvalue rest hrest),
        hmono'.2.2 _ _ (hrest rest)]
      rfl

/-- The members of an object, behind the opening brace. -/
theorem objectText_append (ms : List (List UInt8 × List UInt8)) (rest : List UInt8) :
    objectText ms ++ rest =
      123 :: (commaSeparated (ms.map fun m => memberText m.1 m.2) ++ 125 :: rest) := by
  simp [objectText]

theorem skip_members (hne : ms ≠ []) (rest rest' : List UInt8) :
    skip (commaSeparated (ms.map fun m => memberText m.1 m.2) ++ rest) ≠ 125 :: rest' := by
  intro heq
  obtain ⟨t, ht⟩ : ∃ t, commaSeparated (ms.map fun m => memberText m.1 m.2) = 34 :: t := by
    obtain _ | ⟨m, _ | ⟨m', ms⟩⟩ := ms
    · exact absurd rfl hne
    · exact ⟨_, rfl⟩
    · exact ⟨_, rfl⟩
  rw [ht] at heq
  exact absurd (List.cons.inj heq).1 (by decide)

/-- **The text of an object** is read as the members of its parts. -/
theorem reads_object (h : List.Forall₂ ReadsMember ms xs) (hne : ms ≠ []) :
    Reads (objectText ms) (.object xs) := by
  obtain ⟨fuel, hmembers⟩ := reads_members h hne
  refine ⟨fuel + 1, fun rest _ => ?_⟩
  rw [objectText_append, value, valueWith_object (skip_members hne _), hmembers]
  rfl

theorem Reads.parses (h : Reads t w) : Parses t w := by
  obtain ⟨fuel, hvalue⟩ := h
  refine ⟨fuel, [], ?_, rfl⟩
  have hnil := hvalue [] fun c hc => absurd hc (by simp)
  rwa [List.append_nil] at hnil

/-- A member without a value stops the reader. -/
theorem members_fail {pre post : List (List UInt8 × List UInt8)}
    (hpre : ∀ m ∈ pre, ∃ x, ReadsMember m x) (hname : PlainName name) (hfail : Fails t) (fuel : ℕ)
    (rest : List UInt8) : members fuel (commaSeparated
      ((pre ++ (name, t) :: post).map fun m => memberText m.1 m.2) ++ rest) = none := by
  induction pre generalizing fuel with
  | nil =>
    obtain ⟨text, htext⟩ : ∃ text, commaSeparated (memberText name t ::
        post.map fun m => memberText m.1 m.2) ++ rest = memberText name t ++ text := by
      cases post with
      | nil => exact ⟨_, rfl⟩
      | cons m post => exact ⟨_, List.append_assoc _ _ _⟩
    rw [List.nil_append, List.map_cons, htext]
    cases fuel with
    | zero => rfl
    | succ fuel =>
      rw [members_memberText hname, hfail]
      rfl
  | cons m pre ih =>
    obtain ⟨x, hplain, -, k, hvalue⟩ := hpre m List.mem_cons_self
    have htail := ih fun m hm => hpre m (List.mem_cons_of_mem _ hm)
    cases fuel with
    | zero => rfl
    | succ fuel =>
      rw [List.cons_append, List.map_cons, commaSeparated_cons _ (by simp), List.append_assoc,
        List.cons_append, members_memberText hplain]
      -- what this member is read as does not depend on the bound
      rw [Option.bind_eq_none_iff]
      intro y hy
      rw [value_unique hy (hvalue _ (stops_cons (by simp) _))]
      show (members fuel _).map _ = none
      rw [htail fuel]
      rfl

/-- **An object with a member that has no value** is not a JSON text. -/
theorem not_parses_object {pre post : List (List UInt8 × List UInt8)}
    (hpre : ∀ m ∈ pre, ∃ x, ReadsMember m x) (hname : PlainName name) (hfail : Fails t)
    (v : Value) :
    ¬Parses (objectText (pre ++ (name, t) :: post)) v := by
  rintro ⟨fuel, rest, hvalue, -⟩
  rw [← List.append_nil (objectText _), objectText_append] at hvalue
  cases fuel with
  | zero => exact absurd hvalue (by simp [value])
  | succ fuel =>
    rw [value, valueWith_object (skip_members (by simp) _), members_fail hpre hname hfail] at hvalue
    exact absurd hvalue (by simp)

end Texts

end Json
