import Mathlib

/-!
# The record codec of the simulator

The simulator of a board reads the layout of the two records from a text: a section of lines
`type name` for each, which `get_in_out` finds and `parse_Variables` turns into a format for
`struct` and a list of names. `write` packs the values of a dictionary by the format, and `read`
unpacks a record to a dictionary.

`struct.pack` and `struct.unpack` are parameters: they are inverse on the values that a format
consumes, and `struct.pack` counts its arguments. A padding byte consumes no value, but its line has
a name, for which `write` passes a value: `roundTrips_iff` says that what is written is read back
exactly for the sections that have a line and no padding.
-/

namespace LegoCar

namespace Simulator

/-- A text without its end of line. -/
abbrev Line := List Char

/-- What a function raises. -/
inductive PyError where
  | valueError
  | keyError
  | structError
  | overflowError
deriving DecidableEq

/-- A dictionary with names as keys. -/
abbrev Dict (V : Type) := Line → Option V

section Codec

variable {V : Type}

/-- `struct.pack`, from a format and its arguments. -/
abbrev Pack (V : Type) := List Char → List V → Except PyError (List UInt8)

/-- `struct.unpack`. -/
abbrev Unpack (V : Type) := List Char → List UInt8 → Except PyError (List V)

/-- `dict(zip(names, values))`: of two values for a name, the later one stays. -/
def dictZip (names : List Line) (values : List V) : Dict V :=
  (names.zip values).foldl (fun d (name, value) => Function.update d name (some value))
    fun _ => none

/-- `read`. -/
def read (unpack : Unpack V) (x : List Char × List Line) (bytes : List UInt8) :
    Except PyError (Dict V) :=
  (unpack x.1 bytes).map fun values => dictZip x.2 values

/-- `dict[name]`. -/
def get (d : Dict V) (name : Line) : Except PyError V :=
  match d name with
  | some value => .ok value
  | none => .error .keyError

/-- `write`. -/
def write (pack : Pack V) (x : List Char × List Line) (d : Dict V) :
    Except PyError (List UInt8) := do
  let y ← x.2.mapM (get d)
  pack x.1 y

end Codec

/-- The format characters of the types. -/
def typeTable : List (Line × Char) :=
  [("padding".toList, 'x'), ("char".toList, 'b'), ("alt_8".toList, 'b'), ("alt_u8".toList, 'B'),
    ("bool".toList, '?'), ("short".toList, 'h'), ("ushort".toList, 'H'), ("alt_u16".toList, 'H'),
    ("int".toList, 'i'), ("uint".toList, 'I'), ("long".toList, 'l'), ("ulong".toList, 'L'),
    ("longlong".toList, 'q'), ("ulonglong".toList, 'Q'), ("float".toList, 'f'),
    ("double".toList, 'd')]

/-- `str.split(' ',1)`, which has two parts when there is a blank. -/
def splitOnce (str : Line) : Except PyError (Line × Line) :=
  match str.dropWhile (· ≠ ' ') with
  | [] => .error .valueError
  | _ :: rest => .ok (str.takeWhile (· ≠ ' '), rest)

/-- The format character and the name of a line. -/
def parseLine (str : Line) : Except PyError (Char × Line) := do
  let (dt, name) ← splitOnce str
  match typeTable.lookup dt with
  | some c => .ok (c, name)
  | none => .error .keyError

/-- `parse_Variables`; there must be a line, since the result of `zip(*x)` is taken apart. -/
def parseVariables (strs : List Line) : Except PyError (List Char × List Line) := do
  let x ← strs.mapM parseLine
  if x = [] then .error .valueError else .ok (x.map Prod.fst, x.map Prod.snd)

/-- The loop of `get_in_out` from line `i` on, with the variables `n1`, `n2` and `n3`: the last
lines that begin the sections, and the empty line, at which the loop ends. -/
def scanLines : ℕ → List Line → ℕ × ℕ × ℕ → ℕ × ℕ × ℕ
  | _, [], n => n
  | i, str :: strs, (n1, n2, n3) =>
    let n1 := if str = "OUTPUT:".toList then i else n1
    let n2 := if str = "INPUT:".toList then i else n2
    if str = [] then (n1, n2, i) else scanLines (i + 1) strs (n1, n2, n3)

/-- `strs[a:b]`. -/
def slice (strs : List Line) (a b : ℕ) : List Line := (strs.take b).drop a

/-- `get_in_out`. -/
def getInOut (str : List Char) : List Line × List Line :=
  let strs := str.splitOn '\n'
  let (n1, n2, n3) := scanLines 0 strs (0, 0, strs.length)
  (slice strs (n1 + 1) n2, slice strs (n2 + 1) n3)

/-! ### Descriptions -/

/-- A line of a section: a type and a name. -/
structure Entry where
  type : Line
  name : Line
deriving DecidableEq

/-- The line. -/
def Entry.line (e : Entry) : Line := e.type ++ ' ' :: e.name

/-- The type is that of a padding byte. -/
def Entry.IsPadding (e : Entry) : Prop := e.type = "padding".toList

instance (e : Entry) : Decidable e.IsPadding := inferInstanceAs (Decidable (_ = _))

/-- A section: the types are known, and the names are distinct. -/
structure Section where
  entries : List Entry
  known : ∀ e ∈ entries, e.type ∈ typeTable.map Prod.fst
  oneLine : ∀ e ∈ entries, '\n' ∉ e.name
  distinct : (entries.map Entry.name).Nodup

/-- The lines of a section. -/
def Section.lines (s : Section) : List Line := s.entries.map Entry.line

/-- A description: some lines, the two sections, and whatever stands behind an empty line. -/
structure Description where
  header : List Line
  output : Section
  input : Section
  rest : Option (List Line)
  header_ne : ∀ str ∈ header, str ≠ []
  header_oneLine : ∀ str ∈ header, '\n' ∉ str
  rest_oneLine : ∀ strs ∈ rest, ∀ str ∈ strs, '\n' ∉ str

/-- The lines of a description. -/
def Description.lines (D : Description) : List Line :=
  D.header ++ "OUTPUT:".toList :: (D.output.lines ++ "INPUT:".toList ::
    (D.input.lines ++ D.rest.elim [] fun strs => [] :: strs))

/-- The text of a description. -/
def Description.text (D : Description) : List Char := ['\n'].intercalate D.lines

/-- One of the two sections. -/
inductive Side where
  | output
  | input

/-- A section of a description. -/
def Description.part (D : Description) : Side → Section
  | .output => D.output
  | .input => D.input

/-- The lines of a section, as they are found in the text. -/
def Description.found (D : Description) : Side → List Line
  | .output => (getInOut D.text).1
  | .input => (getInOut D.text).2

/-! ### The sections are found -/

theorem blank_notMem_types : ∀ t ∈ typeTable.map Prod.fst, ' ' ∉ t ∧ '\n' ∉ t := by decide

theorem splitOnce_line {e : Entry} (h : ' ' ∉ e.type) :
    splitOnce e.line = .ok (e.type, e.name) := by
  have hblank : ∀ c ∈ e.type, decide (c ≠ ' ') = true := fun c hc =>
    decide_eq_true fun heq => h (heq ▸ hc)
  rw [splitOnce, Entry.line, List.dropWhile_append_of_pos hblank,
    List.takeWhile_append_of_pos hblank]
  simp

/-- A line without a blank begins a section or the header; a line of a section has one. -/
theorem Section.line_ne (s : Section) : ∀ str ∈ s.lines,
    str ≠ [] ∧ str ≠ "OUTPUT:".toList ∧ str ≠ "INPUT:".toList := by
  have hmarkers : ' ' ∉ "OUTPUT:".toList ∧ ' ' ∉ "INPUT:".toList := by decide
  intro str hstr
  obtain ⟨e, -, rfl⟩ := List.mem_map.mp hstr
  have hblank : ' ' ∈ e.line := List.mem_append_right _ List.mem_cons_self
  exact ⟨List.ne_nil_of_mem hblank, fun h => hmarkers.1 (h ▸ hblank),
    fun h => hmarkers.2 (h ▸ hblank)⟩

theorem Section.line_oneLine (s : Section) : ∀ str ∈ s.lines, '\n' ∉ str := by
  intro str hstr
  obtain ⟨e, he, rfl⟩ := List.mem_map.mp hstr
  have htype := (blank_notMem_types _ (s.known e he)).2
  have hname := s.oneLine e he
  simp [Entry.line, htype, hname]

/-- The lines of a section do not change what the loop has found. -/
theorem scanLines_section {strs : List Line} (h : ∀ str ∈ strs,
    str ≠ [] ∧ str ≠ "OUTPUT:".toList ∧ str ≠ "INPUT:".toList) (i : ℕ) (rest : List Line)
    (n : ℕ × ℕ × ℕ) : scanLines i (strs ++ rest) n = scanLines (i + strs.length) rest n := by
  induction strs generalizing i with
  | nil => rfl
  | cons str strs ih =>
    obtain ⟨⟨hne, hout, hin⟩, hstrs⟩ := List.forall_mem_cons.mp h
    rw [List.cons_append, scanLines, if_neg hout, if_neg hin, if_neg hne, ih hstrs,
      List.length_cons, Nat.add_right_comm, Nat.add_assoc]

/-- Whatever the header contains, the loop goes on behind it. -/
theorem scanLines_header {strs : List Line} (h : ∀ str ∈ strs, str ≠ []) (i : ℕ)
    (rest : List Line) (n : ℕ × ℕ × ℕ) : ∃ n1 n2,
      scanLines i (strs ++ rest) n = scanLines (i + strs.length) rest (n1, n2, n.2.2) := by
  induction strs generalizing i n with
  | nil => exact ⟨n.1, n.2.1, rfl⟩
  | cons str strs ih =>
    obtain ⟨hne, hstrs⟩ := List.forall_mem_cons.mp h
    obtain ⟨n1, n2, n3⟩ := n
    obtain ⟨n1', n2', hscan⟩ := ih hstrs (i + 1) (if str = "OUTPUT:".toList then i else n1,
      if str = "INPUT:".toList then i else n2, n3)
    refine ⟨n1', n2', ?_⟩
    rw [List.cons_append, scanLines, if_neg hne, hscan, List.length_cons, Nat.add_right_comm,
      Nat.add_assoc]

theorem Description.line_oneLine (D : Description) : ∀ str ∈ D.lines, '\n' ∉ str := by
  have hmarkers : '\n' ∉ "OUTPUT:".toList ∧ '\n' ∉ "INPUT:".toList := by decide
  have hrest : ∀ str ∈ D.rest.elim [] fun strs => [] :: strs, '\n' ∉ str := by
    cases hstrs : D.rest with
    | none => exact fun str hstr => absurd hstr List.not_mem_nil
    | some strs => exact List.forall_mem_cons.mpr ⟨List.not_mem_nil, D.rest_oneLine strs hstrs⟩
  simp only [Description.lines, List.forall_mem_append, List.forall_mem_cons]
  exact ⟨D.header_oneLine, hmarkers.1, D.output.line_oneLine, hmarkers.2, D.input.line_oneLine,
    hrest⟩

theorem slice_append (as bs cs : List Line) :
    slice (as ++ (bs ++ cs)) as.length (as.length + bs.length) = bs := by
  simp [slice, List.take_append]

/-- The loop finds the beginnings of the sections and the end of the second one. -/
theorem Description.scanLines_lines (D : Description) :
    scanLines 0 D.lines (0, 0, D.lines.length) =
      (D.header.length, D.header.length + 1 + D.output.lines.length,
        D.header.length + 1 + D.output.lines.length + 1 + D.input.lines.length) := by
  have hmarkers : "OUTPUT:".toList ≠ "INPUT:".toList ∧ "OUTPUT:".toList ≠ [] ∧
      "INPUT:".toList ≠ "OUTPUT:".toList ∧ "INPUT:".toList ≠ [] := by decide
  obtain ⟨houtput, houtput', hinput, hinput'⟩ := hmarkers
  generalize hn : D.lines.length = n
  obtain ⟨n1, n2, hheader⟩ := scanLines_header D.header_ne 0
    ("OUTPUT:".toList :: (D.output.lines ++ "INPUT:".toList ::
      (D.input.lines ++ D.rest.elim [] fun strs => [] :: strs))) (0, 0, n)
  rw [Description.lines, hheader, Nat.zero_add]
  -- the line that begins the first section, its lines, and the same for the second one
  rw [scanLines, if_pos rfl, if_neg houtput, if_neg houtput', scanLines_section D.output.line_ne]
  rw [scanLines, if_neg hinput, if_pos rfl, if_neg hinput', scanLines_section D.input.line_ne]
  cases hrest : D.rest with
  | none =>
    rw [Description.lines, hrest] at hn
    simp only [List.length_append, List.length_cons, Option.elim_none, List.length_nil] at hn
    simp only [Option.elim_none, scanLines, Prod.mk.injEq, true_and]
    omega
  | some strs =>
    rw [Option.elim_some, scanLines, if_neg houtput'.symm, if_neg hinput'.symm, if_pos rfl]

/-- **The sections are found.** -/
theorem Description.getInOut_text (D : Description) :
    getInOut D.text = (D.output.lines, D.input.lines) := by
  have hlines : D.text.splitOn '\n' = D.lines :=
    List.splitOn_intercalate '\n' D.line_oneLine
      (List.append_ne_nil_of_right_ne_nil _ (List.cons_ne_nil _ _))
  have houtput := slice_append (D.header ++ ["OUTPUT:".toList]) D.output.lines
    ("INPUT:".toList :: (D.input.lines ++ D.rest.elim [] fun strs => [] :: strs))
  have hinput := slice_append
    (D.header ++ "OUTPUT:".toList :: (D.output.lines ++ ["INPUT:".toList])) D.input.lines
    (D.rest.elim [] fun strs => [] :: strs)
  have hbefore : (D.header ++ ["OUTPUT:".toList]).length = D.header.length + 1 := by
    rw [List.length_append, List.length_singleton]
  have hbefore' : (D.header ++ "OUTPUT:".toList :: (D.output.lines ++
      ["INPUT:".toList])).length = D.header.length + 1 + D.output.lines.length + 1 := by
    simp only [List.length_append, List.length_cons, List.length_nil]
    omega
  rw [hbefore] at houtput
  rw [hbefore'] at hinput
  rw [getInOut, hlines, D.scanLines_lines]
  refine Prod.ext ?_ ?_
  · simpa only [Description.lines, List.append_assoc, List.cons_append, List.nil_append]
      using houtput
  · simpa only [Description.lines, List.append_assoc, List.cons_append, List.nil_append]
      using hinput

/-! ### The section is parsed -/

/-- The format character of an entry. -/
def Entry.code (e : Entry) : Char := (typeTable.lookup e.type).getD 'x'

/-- The values that a format consumes: one for each character, except for padding. -/
def consumed (format : List Char) : List Char := format.filter (· ≠ 'x')

theorem code_eq_iff {e : Entry} (h : e.type ∈ typeTable.map Prod.fst) :
    typeTable.lookup e.type = some e.code ∧ (e.code = 'x' ↔ e.IsPadding) := by
  have hall : ∀ t ∈ typeTable.map Prod.fst, typeTable.lookup t =
      some ((typeTable.lookup t).getD 'x') ∧
        ((typeTable.lookup t).getD 'x' = 'x' ↔ t = "padding".toList) := by decide
  exact hall e.type h

/-- A loop that succeeds on every member collects the results. -/
theorem mapM_of_forall₂ {α β ε : Type} {f : α → Except ε β} {l : List α} {l' : List β}
    (h : List.Forall₂ (fun a b => f a = .ok b) l l') : l.mapM f = .ok l' := by
  induction h with
  | nil => rfl
  | cons hb _ ih =>
    rw [List.mapM_cons, hb, ih]
    rfl

theorem parseLine_line {e : Entry} (h : e.type ∈ typeTable.map Prod.fst) :
    parseLine e.line = .ok (e.code, e.name) := by
  rw [parseLine, splitOnce_line (blank_notMem_types e.type h).1]
  simp only [bind, Except.bind, (code_eq_iff h).1]

/-- A section is parsed to the format characters and the names of its lines, if it has any. -/
theorem Section.parseVariables_lines (s : Section) : parseVariables s.lines =
    if s.entries = [] then .error .valueError
    else .ok (s.entries.map Entry.code, s.entries.map Entry.name) := by
  have hloop : s.lines.mapM parseLine = .ok (s.entries.map fun e => (e.code, e.name)) := by
    refine mapM_of_forall₂ (List.forall₂_map_left_iff.mpr (List.forall₂_map_right_iff.mpr ?_))
    exact List.forall₂_same.mpr fun e he => parseLine_line (s.known e he)
  have hempty : (s.entries.map fun e => (e.code, e.name)) = [] ↔ s.entries = [] :=
    List.map_eq_nil_iff
  rw [parseVariables, hloop]
  simp only [bind, Except.bind, hempty, List.map_map, Function.comp_def]

/-! ### Writing and reading -/

section Codec

variable {V : Type}

/-- `struct.pack` and `struct.unpack` are inverse on values that fit the characters that consume
them. -/
def InverseOn (pack : Pack V) (unpack : Unpack V) (Fits : Char → V → Prop) : Prop :=
  ∀ format values, List.Forall₂ Fits (consumed format) values →
    ∃ bytes, pack format values = .ok bytes ∧ unpack format bytes = .ok values

/-- `struct.pack` expects as many values as the format consumes. -/
def CountsArguments (pack : Pack V) : Prop :=
  ∀ format values, values.length ≠ (consumed format).length →
    pack format values = .error .structError

/-- The dictionary gives each name a value, which fits unless the entry is padding. -/
def Gives (Fits : Char → V → Prop) (s : Section) (d : Dict V) : Prop :=
  ∀ e ∈ s.entries, ∃ value, d e.name = some value ∧ (¬e.IsPadding → Fits e.code value)

/-- Writing a dictionary by the parse of some lines and reading it back succeeds, and gives the
values that the dictionary has for the names. -/
def RoundTrips (pack : Pack V) (unpack : Unpack V) (strs : List Line) (s : Section) (d : Dict V) :
    Prop :=
  ∃ p bytes r, parseVariables strs = .ok p ∧ write pack p d = .ok bytes ∧
    read unpack p bytes = .ok r ∧ ∀ e ∈ s.entries, ¬e.IsPadding → r e.name = d e.name

variable {pack : Pack V} {unpack : Unpack V} {Fits : Char → V → Prop} {s : Section} {d : Dict V}

theorem exists_forall₂ {α β : Type} {R : α → β → Prop} {l : List α} (h : ∀ a ∈ l, ∃ b, R a b) :
    ∃ l', List.Forall₂ R l l' := by
  induction l with
  | nil => exact ⟨[], .nil⟩
  | cons a l ih =>
    obtain ⟨⟨b, hb⟩, hl⟩ := List.forall_mem_cons.mp h
    obtain ⟨l', hl'⟩ := ih hl
    exact ⟨b :: l', .cons hb hl'⟩

/-- Entering values for distinct names into a dictionary: the names have these values, and nothing
changes for the others. -/
theorem foldl_update_of_nodup {names : List Line} {values : List V} (hnodup : names.Nodup)
    (h : List.Forall₂ (fun name value => d name = some value) names values) (d₀ : Dict V)
    (name : Line) : (names.zip values).foldl
      (fun d (name, value) => Function.update d name (some value)) d₀ name =
        if name ∈ names then d name else d₀ name := by
  induction h generalizing d₀ with
  | nil => rfl
  | @cons n value names values hvalue _ ih =>
    obtain ⟨hn, hnodup⟩ := List.nodup_cons.mp hnodup
    rw [List.zip_cons_cons, List.foldl_cons, ih hnodup]
    dsimp only
    by_cases hname : name = n
    · subst hname
      rw [if_neg hn, Function.update_self, if_pos List.mem_cons_self, hvalue]
    · simp only [Function.update_of_ne hname, List.mem_cons, hname, false_or]

/-- Distinct names keep their values in a dictionary. -/
theorem dictZip_of_nodup {names : List Line} {values : List V} (hnodup : names.Nodup)
    (h : List.Forall₂ (fun name value => d name = some value) names values) :
    ∀ name ∈ names, dictZip names values name = d name := fun name hname =>
  (foldl_update_of_nodup hnodup h _ name).trans (if_pos hname)

/-- Every name has a value, also that of padding: all values are passed to `struct.pack`. -/
theorem write_of_values {names : List Line} {values : List V} {format : List Char}
    (h : List.Forall₂ (fun name value => d name = some value) names values) :
    write pack (format, names) d = pack format values := by
  have hloop : names.mapM (get d) = .ok values := by
    refine mapM_of_forall₂ (h.imp fun name value hvalue => ?_)
    rw [get, hvalue]
  rw [write, hloop]
  rfl

theorem consumed_codes (s : Section) : consumed (s.entries.map Entry.code) =
    (s.entries.filter fun e => ¬e.IsPadding).map Entry.code := by
  rw [consumed, List.filter_map]
  congr 1
  refine List.filter_congr fun e he => ?_
  simp [(code_eq_iff (s.known e he)).2]

/-- **What is written is read back** when no entry is padding. -/
theorem roundTrips_of_noPadding (hinverse : InverseOn pack unpack Fits) (hd : Gives Fits s d)
    (hne : s.entries ≠ []) (hpadding : ∀ e ∈ s.entries, ¬e.IsPadding) :
    RoundTrips pack unpack s.lines s d := by
  have hvalue : ∀ e ∈ s.entries, ∃ value, d e.name = some value ∧ Fits e.code value := by
    intro e he
    obtain ⟨value, hvalue, hfits⟩ := hd e he
    exact ⟨value, hvalue, hfits (hpadding e he)⟩
  obtain ⟨values, hvalues⟩ := exists_forall₂ hvalue
  have hnames : List.Forall₂ (fun name value => d name = some value) (s.entries.map Entry.name)
      values := List.forall₂_map_left_iff.mpr (hvalues.imp fun _ _ h => h.1)
  have hfits : List.Forall₂ Fits (consumed (s.entries.map Entry.code)) values := by
    rw [consumed_codes, List.filter_eq_self.mpr fun e he => decide_eq_true (hpadding e he)]
    exact List.forall₂_map_left_iff.mpr (hvalues.imp fun _ _ h => h.2)
  obtain ⟨bytes, hpack, hunpack⟩ := hinverse _ _ hfits
  refine ⟨_, bytes, dictZip (s.entries.map Entry.name) values,
    s.parseVariables_lines.trans (if_neg hne), (write_of_values hnames).trans hpack, ?_, ?_⟩
  · rw [read, hunpack]
    rfl
  · exact fun e he _ => dictZip_of_nodup s.distinct hnames _ (List.mem_map_of_mem he)

/-- **Padding is not written**: there are more values than the format consumes. -/
theorem not_roundTrips_of_padding (hcounts : CountsArguments pack) (hd : Gives Fits s d)
    {e : Entry} (he : e ∈ s.entries) (hpadding : e.IsPadding) :
    ¬RoundTrips pack unpack s.lines s d := by
  rintro ⟨p, bytes, r, hparse, hwrite, -⟩
  obtain ⟨values, hvalues⟩ := exists_forall₂ hd
  have hnames : List.Forall₂ (fun name value => d name = some value) (s.entries.map Entry.name)
      values := List.forall₂_map_left_iff.mpr (hvalues.imp fun _ _ h => h.1)
  have hlength : values.length ≠ (consumed (s.entries.map Entry.code)).length := by
    have hlt : (s.entries.filter fun e => ¬e.IsPadding).length < s.entries.length :=
      List.length_filter_lt_length_iff_exists.mpr ⟨e, he, by simpa using hpadding⟩
    rw [consumed_codes, List.length_map, ← hvalues.length_eq]
    exact hlt.ne'
  rw [s.parseVariables_lines, if_neg (List.ne_nil_of_mem he)] at hparse
  obtain rfl := Except.ok.inj hparse
  rw [write_of_values hnames, hcounts _ _ hlength] at hwrite
  exact absurd hwrite (by simp)

theorem not_roundTrips_of_empty (h : s.entries = []) : ¬RoundTrips pack unpack s.lines s d := by
  rintro ⟨p, bytes, r, hparse, -⟩
  rw [s.parseVariables_lines, if_pos h] at hparse
  exact absurd hparse (by simp)

/-- What is written is read back exactly when there is an entry and none is padding. -/
theorem roundTrips_iff (hinverse : InverseOn pack unpack Fits) (hcounts : CountsArguments pack)
    (hd : Gives Fits s d) : RoundTrips pack unpack s.lines s d ↔
      s.entries ≠ [] ∧ ∀ e ∈ s.entries, ¬e.IsPadding := by
  constructor
  · intro h
    exact ⟨fun hempty => not_roundTrips_of_empty hempty h,
      fun e he hpadding => not_roundTrips_of_padding hcounts hd he hpadding h⟩
  · rintro ⟨hne, hpadding⟩
    exact roundTrips_of_noPadding hinverse hd hne hpadding

end Codec

theorem Description.found_eq (D : Description) (side : Side) :
    D.found side = (D.part side).lines := by
  cases side with
  | output => exact congrArg Prod.fst D.getInOut_text
  | input => exact congrArg Prod.snd D.getInOut_text

end Simulator

open Simulator

/-- **The codec round trip**: for either section of a description, and every dictionary that gives
its names values that fit, what is written is read back exactly when the section has a line and
none is padding. -/
theorem codec_iff {V : Type} {pack : Pack V} {unpack : Unpack V} {Fits : Char → V → Prop}
    (hinverse : InverseOn pack unpack Fits) (hcounts : CountsArguments pack) (D : Description)
    (side : Side) (d : Dict V) (hd : Gives Fits (D.part side) d) :
    RoundTrips pack unpack (D.found side) (D.part side) d ↔
      (D.part side).entries ≠ [] ∧ ∀ e ∈ (D.part side).entries, ¬e.IsPadding := by
  rw [D.found_eq]
  exact roundTrips_iff hinverse hcounts hd

/-! ### Formats of one-byte types -/

namespace Simulator

/-- A value fits a one-byte type: it is the number of an unsigned byte, or of a signed one. -/
def FitsByte (c : Char) (v : ℤ) : Prop := c = 'B' ∧ 0 ≤ v ∧ v < 256 ∨ c = 'b' ∧ -128 ≤ v ∧ v < 128

instance (c : Char) (v : ℤ) : Decidable (FitsByte c v) := inferInstanceAs (Decidable (_ ∨ _))

/-- `struct.pack` for formats of one-byte types and padding. -/
def packBytes : Pack ℤ
  | [], values => if values = [] then .ok [] else .error .structError
  | c :: format, values =>
    if c = 'x' then (packBytes format values).map fun bytes => 0 :: bytes
    else
      values.head?.elim (.error .structError) fun v =>
        if FitsByte c v then
          (packBytes format values.tail).map fun bytes => UInt8.ofNat (v % 256).toNat :: bytes
        else .error .structError

/-- The value of a byte. -/
def byteValue (c : Char) (b : UInt8) : ℤ :=
  if c = 'B' ∨ b.toNat < 128 then b.toNat else b.toNat - 256

/-- `struct.unpack` for such formats. -/
def unpackBytes : Unpack ℤ
  | [], bytes => if bytes = [] then .ok [] else .error .structError
  | c :: format, bytes =>
    bytes.head?.elim (.error .structError) fun b =>
      if c = 'x' then unpackBytes format bytes.tail
      else (unpackBytes format bytes.tail).map fun values => byteValue c b :: values

theorem consumed_cons (c : Char) (format : List Char) : consumed (c :: format) =
    if c = 'x' then consumed format else c :: consumed format := by
  by_cases hc : c = 'x'
  · rw [if_pos hc, consumed, List.filter_cons_of_neg (by simpa using hc), consumed]
  · rw [if_neg hc, consumed, List.filter_cons_of_pos (by simpa using hc), consumed]

theorem byteValue_of_fits {c : Char} {v : ℤ} (h : FitsByte c v) :
    byteValue c (UInt8.ofNat (v % 256).toNat) = v := by
  have hnat : (UInt8.ofNat (v % 256).toNat).toNat = (v % 256).toNat := by
    rw [UInt8.toNat_ofNat']
    omega
  simp only [byteValue, hnat]
  obtain ⟨hc, h0, h1⟩ | ⟨hc, h0, h1⟩ := h
  · rw [if_pos (Or.inl hc)]
    omega
  · have hne : c ≠ 'B' := by
      rw [hc]
      decide
    simp only [hne, false_or]
    split_ifs <;> omega

theorem inverseOn_bytes : InverseOn packBytes unpackBytes FitsByte := by
  intro format
  induction format with
  | nil =>
    intro values h
    obtain rfl := List.forall₂_nil_left_iff.mp h
    exact ⟨[], rfl, rfl⟩
  | cons c format ih =>
    intro values h
    rw [consumed_cons] at h
    by_cases hc : c = 'x'
    · rw [if_pos hc] at h
      obtain ⟨bytes, hpack, hunpack⟩ := ih values h
      refine ⟨0 :: bytes, ?_, ?_⟩
      · rw [packBytes, if_pos hc, hpack]
        rfl
      · rw [unpackBytes, List.head?_cons, Option.elim_some, if_pos hc]
        exact hunpack
    · rw [if_neg hc] at h
      obtain ⟨v, values, hfits, hrest, rfl⟩ := List.forall₂_cons_left_iff.mp h
      obtain ⟨bytes, hpack, hunpack⟩ := ih values hrest
      refine ⟨UInt8.ofNat (v % 256).toNat :: bytes, ?_, ?_⟩
      · rw [packBytes, if_neg hc, List.head?_cons, Option.elim_some, if_pos hfits, List.tail_cons,
          hpack]
        rfl
      · rw [unpackBytes, List.head?_cons, Option.elim_some, if_neg hc, List.tail_cons, hunpack,
          byteValue_of_fits hfits]
        rfl

theorem countsArguments_bytes : CountsArguments packBytes := by
  intro format
  induction format with
  | nil =>
    intro values h
    exact if_neg fun heq => h (by rw [heq]; rfl)
  | cons c format ih =>
    intro values h
    rw [consumed_cons] at h
    by_cases hc : c = 'x'
    · rw [if_pos hc] at h
      rw [packBytes, if_pos hc, ih values h]
      rfl
    · rw [if_neg hc] at h
      rw [packBytes, if_neg hc]
      cases values with
      | nil => rfl
      | cons v values =>
        have hlength : values.length ≠ (consumed format).length := fun heq => h (by simp [heq])
        rw [List.head?_cons, Option.elim_some, List.tail_cons, ih values hlength]
        split_ifs <;> rfl

/-- A description in which the input has an unnamed byte. -/
def sampleDescription : Description where
  header := ["FRONT LEFT SIDE".toList]
  output := ⟨[⟨"char".toList, "accX".toList⟩, ⟨"alt_u8".toList, "duty".toList⟩], by decide,
    by decide, by decide⟩
  input := ⟨[⟨"alt_u8".toList, "LED".toList⟩, ⟨"padding".toList, "pad".toList⟩], by decide,
    by decide, by decide⟩
  rest := some []
  header_ne := by decide
  header_oneLine := by decide
  rest_oneLine := by decide

/-- The values of its names. -/
def sampleDict : Dict ℤ := fun name => if name = "accX".toList then some (-3) else some 200

end Simulator

/-- The output of the sample is written and read back. -/
theorem codec_sample : RoundTrips packBytes unpackBytes (sampleDescription.found .output)
    (sampleDescription.part .output) sampleDict := by
  have hgives : Gives FitsByte (sampleDescription.part .output) sampleDict :=
    List.forall_mem_cons.mpr ⟨⟨-3, by decide, fun _ => by decide⟩,
      List.forall_mem_singleton.mpr ⟨200, by decide, fun _ => by decide⟩⟩
  exact (codec_iff inverseOn_bytes countsArguments_bytes sampleDescription .output sampleDict
    hgives).mpr ⟨List.cons_ne_nil _ _, by decide⟩

/-- **A line of padding** makes writing fail. -/
theorem codec_fails : ¬ ∀ (V : Type) (pack : Pack V) (unpack : Unpack V) (Fits : Char → V → Prop),
    InverseOn pack unpack Fits → CountsArguments pack →
      ∀ (D : Description) (side : Side) (d : Dict V), Gives Fits (D.part side) d →
        RoundTrips pack unpack (D.found side) (D.part side) d := by
  intro h
  have hgives : Gives FitsByte (sampleDescription.part .input) sampleDict :=
    List.forall_mem_cons.mpr ⟨⟨200, by decide, fun _ => by decide⟩,
      List.forall_mem_singleton.mpr ⟨200, by decide, fun h => absurd rfl h⟩⟩
  have htrip := h ℤ packBytes unpackBytes FitsByte inverseOn_bytes countsArguments_bytes
    sampleDescription .input sampleDict hgives
  rw [sampleDescription.found_eq] at htrip
  exact not_roundTrips_of_padding countsArguments_bytes hgives
    (e := ⟨"padding".toList, "pad".toList⟩) (by decide) rfl htrip

end LegoCar
