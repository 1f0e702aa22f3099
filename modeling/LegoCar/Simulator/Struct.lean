import Mathlib
import LegoCar.Lib.FloatBits
import LegoCar.Lib.LittleEndian
import LegoCar.Lib.StructLayout
import LegoCar.Simulator.Codec

/-!
# `struct` with native alignment

`struct.pack` and `struct.unpack` for a format without a byte order: the values are laid out as a C
compiler lays out a struct, little-endian, with zeros for padding, but without padding at the end.

Every value is converted to the type of its format character, so what is unpacked is the converted
values (`unpack_of_pack`). Values of the type itself are not changed by the conversion, except that
a number is rounded to a `float`. On values that are not changed the two functions are inverse, as
the codec needs (`codec_native`). The formats `l`, `L` and `d` are left out.
-/

namespace LegoCar

namespace Simulator

open LittleEndian StructLayout ExtRat

/-! ### Values -/

/-- A value of a dictionary. -/
inductive PyValue where
  | bool (b : Bool)
  | int (z : ℤ)
  | float (x : ExtRat)
deriving DecidableEq

namespace PyValue

/-- `bool(v)`. -/
def truth : PyValue → Bool
  | bool b => b
  | int z => decide (z ≠ 0)
  | float x => decide (x ≠ fin 0)

/-- `int(v)`. -/
def toInt : PyValue → Except PyError ℤ
  | bool b => .ok (if b then 1 else 0)
  | int z => .ok z
  | float (fin q) => .ok (trunc (fin q))
  | float nan => .error .valueError
  | float (inf _) => .error .overflowError

/-- The `double` nearest to an integer, if there were no largest one. -/
def nearestDouble (z : ℤ) : ℚ :=
  let ulp : ℚ := 2 ^ max (Int.log 2 |(z : ℚ)| - 52) 0
  roundEven (z / ulp) * ulp

/-- `float(v)`, as `struct` calls it. -/
def toFloat : PyValue → Except PyError ExtRat
  | bool b => .ok (fin (if b then 1 else 0))
  | int z =>
    if |nearestDouble z| < 2 ^ 1024 then .ok (fin (nearestDouble z)) else .error .structError
  | float x => .ok x

end PyValue

/-! ### Formats -/

/-- What a format character stands for. -/
inductive Code where
  | pad
  | bool
  | int (signed : Bool) (size : ℕ)
  | float
deriving DecidableEq

/-- The table of the native formats. -/
def codeTable : List (Char × Code) :=
  [('x', .pad), ('?', .bool), ('b', .int true 1), ('B', .int false 1), ('h', .int true 2),
    ('H', .int false 2), ('i', .int true 4), ('I', .int false 4), ('q', .int true 8),
    ('Q', .int false 8), ('f', .float)]

def codeOf (c : Char) : Except PyError Code :=
  match codeTable.lookup c with
  | some k => .ok k
  | none => .error .structError

namespace Code

/-- The bytes of a value. -/
def size : Code → ℕ
  | pad | bool => 1
  | int _ n => n
  | float => 4

/-- A number fits an integer type. -/
def Fits (signed : Bool) (n : ℕ) (z : ℤ) : Prop :=
  if signed then -256 ^ n ≤ 2 * z ∧ 2 * z < 256 ^ n else 0 ≤ z ∧ z < 256 ^ n

instance (signed : Bool) (n : ℕ) (z : ℤ) : Decidable (Fits signed n z) :=
  inferInstanceAs (Decidable (ite _ _ _))

/-- A value is converted to the type: to a truth value, to an integer, which must fit, or to a
`float`. -/
def convert : Code → PyValue → Except PyError PyValue
  | pad, _ => .error .structError
  | bool, v => .ok (.bool v.truth)
  | int signed n, v => do
    let z ← v.toInt
    if Fits signed n z then .ok (.int z) else .error .structError
  | float, v => v.toFloat.map fun x => .float (ofBits (toBits x))

/-- The bytes of a value. -/
def encode : Code → PyValue → Except PyError (List UInt8)
  | pad, _ => .error .structError
  | bool, v => .ok [if v.truth then 1 else 0]
  | int signed n, v => do
    let z ← v.toInt
    if Fits signed n z then .ok (toLE n (z % 256 ^ n).toNat) else .error .structError
  | float, v => v.toFloat.map fun x => toLE 4 (toBits x).toNat

/-- The value of some bytes. -/
def decode : Code → List UInt8 → PyValue
  | pad, _ => .int 0
  | bool, bs => .bool (decide (bs.getD 0 0 ≠ 0))
  | int signed n, bs => .int (if signed then (ofLE bs : ℤ).bmod (256 ^ n) else ofLE bs)
  | float, bs => .float (ofBits (UInt32.ofNat (ofLE bs)))

end Code

/-- The codes that consume a value. -/
def consuming (codes : List Code) : List Code := codes.filter (· ≠ .pad)

/-- The members of the struct with some types. -/
def layoutOf (codes : List Code) : List (Member Code) :=
  codes.map fun k => ⟨k, scalar k.size⟩

/-- The members with their bytes. -/
def members (codes : List Code) (data : List (List UInt8)) : List (Member (Code × List UInt8)) :=
  (codes.zip data).map fun p => ⟨p, scalar p.1.size⟩

/-- `struct.calcsize`. -/
def calcsize (codes : List Code) : ℕ := endOf (layoutOf codes) 0

/-- The bytes of the members, where a byte of padding is zero. -/
def encodeAll : List Code → List PyValue → Except PyError (List (List UInt8))
  | [], _ => .ok []
  | .pad :: ks, vs => (encodeAll ks vs).map fun data => [0] :: data
  | _ :: _, [] => .error .structError
  | k :: ks, v :: vs => do
    let bs ← k.encode v
    let data ← encodeAll ks vs
    .ok (bs :: data)

/-- `struct.pack`. -/
def nativePack : Pack PyValue := fun format values => do
  let codes ← format.mapM codeOf
  if values.length ≠ (consuming codes).length then .error .structError
  else
    let data ← encodeAll codes values
    .ok (image Prod.snd (members codes data) 0)

/-- The values of the members that are no padding. -/
def valuesOf (read : List (Code × List UInt8)) : List PyValue :=
  (read.filter fun p => p.1 ≠ .pad).map fun p => p.1.decode p.2

/-- `struct.unpack`. -/
def nativeUnpack : Unpack PyValue := fun format bytes => do
  let codes ← format.mapM codeOf
  if bytes.length ≠ calcsize codes then .error .structError
  else
    let read := (place (layoutOf codes) 0).map fun p =>
      (p.1.name, (bytes.drop p.2).take p.1.layout.size)
    .ok (valuesOf read)

/-! ### What is packed -/

namespace Code

variable {k : Code} {v : PyValue} {bs : List UInt8}

/-- A number that fits is determined by its bytes. -/
theorem decode_int {signed : Bool} {n : ℕ} {z : ℤ} (h : Fits signed n z) :
    (int signed n).decode (toLE n (z % 256 ^ n).toNat) = .int z := by
  have hpos : (0 : ℤ) < 256 ^ n := by positivity
  have hmod : (ofLE (toLE n (z % 256 ^ n).toNat) : ℤ) = z % 256 ^ n := by
    have hnonneg := Int.emod_nonneg z hpos.ne'
    have hlt := Int.emod_lt_of_pos z hpos
    rw [ofLE_toLE_of_lt (by zify; rwa [Int.toNat_of_nonneg hnonneg]), Int.toNat_of_nonneg hnonneg]
  cases signed with
  | true =>
    obtain ⟨hlow, hhigh⟩ : -256 ^ n ≤ 2 * z ∧ 2 * z < 256 ^ n := h
    have hbmod : z.bmod (256 ^ n) = z :=
      Int.bmod_eq_of_le_mul_two (by push_cast; omega) (by push_cast; omega)
    simp only [decode, hmod, if_true]
    have hread := Int.emod_bmod z (256 ^ n)
    push_cast at hread
    rw [hread, hbmod]
  | false =>
    obtain ⟨hlow, hhigh⟩ : 0 ≤ z ∧ z < 256 ^ n := h
    simp only [decode, hmod, Bool.false_eq_true, if_false]
    rw [Int.emod_eq_of_lt hlow hhigh]

/-- What is decoded is the converted value. -/
theorem exists_convert (h : k.encode v = .ok bs) :
    k.convert v = .ok (k.decode bs) ∧ bs.length = k.size := by
  cases k with
  | pad => exact absurd h (by simp [encode])
  | bool =>
    obtain rfl := Except.ok.inj h
    cases hv : v.truth <;> simp [convert, decode, size, hv]
  | int signed n =>
    simp only [encode, convert] at h ⊢
    cases hz : v.toInt with
    | error e => simp [hz, bind, Except.bind] at h
    | ok z =>
      simp only [hz, bind, Except.bind] at h ⊢
      split_ifs at h with hfits
      obtain rfl := Except.ok.inj h
      rw [if_pos hfits, decode_int hfits]
      exact ⟨rfl, length_toLE _ _⟩
  | float =>
    simp only [encode, convert] at h ⊢
    cases hx : v.toFloat with
    | error e => simp [hx, Except.map] at h
    | ok x =>
      simp only [hx, Except.map] at h ⊢
      obtain rfl := Except.ok.inj h
      refine ⟨?_, length_toLE _ _⟩
      rw [decode, ofLE_toLE_of_lt (toBits x).toNat_lt, UInt32.ofNat_toNat]

/-- What can be converted has bytes. -/
theorem exists_encode {w : PyValue} (h : k.convert v = .ok w) : ∃ bs, k.encode v = .ok bs := by
  cases k with
  | pad => exact absurd h (by simp [convert])
  | bool => exact ⟨_, rfl⟩
  | int signed n =>
    simp only [encode, convert] at h ⊢
    cases hz : v.toInt with
    | error e => simp [hz, bind, Except.bind] at h
    | ok z =>
      simp only [hz, bind, Except.bind] at h ⊢
      split_ifs at h with hfits
      exact ⟨_, if_pos hfits⟩
  | float =>
    simp only [encode, convert] at h ⊢
    cases hx : v.toFloat with
    | error e => simp [hx, Except.map] at h
    | ok x => exact ⟨_, rfl⟩

end Code

variable {codes : List Code} {values : List PyValue} {data : List (List UInt8)}

theorem consuming_cons (k : Code) (ks : List Code) :
    consuming (k :: ks) = if k = .pad then consuming ks else k :: consuming ks := by
  by_cases hk : k = .pad
  · rw [if_pos hk, consuming, List.filter_cons_of_neg (by simpa using hk), consuming]
  · rw [if_neg hk, consuming, List.filter_cons_of_pos (by simpa using hk), consuming]

/-- A value is converted to another one. -/
def Converts (k : Code) (v w : PyValue) : Prop := k.convert v = .ok w

instance (k : Code) (v w : PyValue) : Decidable (Converts k v w) :=
  inferInstanceAs (Decidable (_ = _))

/-- The members have their sizes, and the converted values are decoded. -/
theorem encodeAll_spec (h : encodeAll codes values = .ok data)
    (hlength : values.length = (consuming codes).length) :
    data.length = codes.length ∧ (∀ p ∈ codes.zip data, p.2.length = p.1.size) ∧
      List.Forall₂ (fun p w => Converts p.1 p.2 w) ((consuming codes).zip values)
        (valuesOf (codes.zip data)) := by
  fun_induction encodeAll codes values generalizing data with
  | case1 vs =>
    obtain rfl := Except.ok.inj h
    exact ⟨rfl, List.forall_mem_nil _, .nil⟩
  | case2 ks vs ih =>
    rw [consuming_cons, if_pos rfl] at hlength
    cases hrest : encodeAll ks vs with
    | error e => simp [hrest, Except.map] at h
    | ok rest =>
      rw [hrest] at h
      obtain rfl := Except.ok.inj h
      obtain ⟨hdata, hsize, hvalues⟩ := ih hrest hlength
      rw [consuming_cons, if_pos rfl]
      exact ⟨congrArg (· + 1) hdata, List.forall_mem_cons.mpr ⟨rfl, hsize⟩, hvalues⟩
  | case3 => exact absurd h (by simp)
  | case4 k ks v vs hk ih =>
    rw [consuming_cons, if_neg hk] at hlength ⊢
    cases hbs : k.encode v with
    | error e => simp [hbs, bind, Except.bind] at h
    | ok bs =>
      cases hrest : encodeAll ks vs with
      | error e => simp [hbs, hrest, bind, Except.bind] at h
      | ok rest =>
        simp only [hbs, hrest, bind, Except.bind] at h
        obtain rfl := Except.ok.inj h
        obtain ⟨hdata, hsize, hvalues⟩ := ih hrest (Nat.succ.inj hlength)
        obtain ⟨hconvert, hbs'⟩ := Code.exists_convert hbs
        have hfirst : valuesOf ((k :: ks).zip (bs :: rest)) =
            k.decode bs :: valuesOf (ks.zip rest) := by
          rw [List.zip_cons_cons, valuesOf, List.filter_cons_of_pos (by simpa using hk),
            List.map_cons, valuesOf]
        rw [hfirst, List.zip_cons_cons]
        exact ⟨congrArg (· + 1) hdata, List.forall_mem_cons.mpr ⟨hbs', hsize⟩,
          .cons hconvert hvalues⟩

/-- Values that can be converted have bytes. -/
theorem exists_encodeAll {values' : List PyValue}
    (h : List.Forall₂ (fun p w => Converts p.1 p.2 w) ((consuming codes).zip values) values')
    (hlength : values.length = (consuming codes).length) :
    ∃ data, encodeAll codes values = .ok data := by
  fun_induction encodeAll codes values generalizing values' with
  | case1 vs => exact ⟨[], rfl⟩
  | case2 ks vs ih =>
    rw [consuming_cons, if_pos rfl] at h hlength
    obtain ⟨rest, hrest⟩ := ih h hlength
    exact ⟨_, congrArg (Except.map _) hrest⟩
  | case3 k ks hk =>
    rw [consuming_cons, if_neg hk] at hlength
    exact absurd hlength (by simp)
  | case4 k ks v vs hk ih =>
    rw [consuming_cons, if_neg hk] at h hlength
    obtain ⟨w, ws, hconvert, hrest, -⟩ := List.forall₂_cons_left_iff.mp h
    obtain ⟨bs, hbs⟩ := Code.exists_encode hconvert
    obtain ⟨rest, hrest⟩ := ih hrest (Nat.succ.inj hlength)
    exact ⟨bs :: rest, by rw [hbs, hrest]; rfl⟩

/-- What was packed is read back member by member. -/
theorem read_image (hlength : data.length = codes.length)
    (hsize : ∀ p ∈ codes.zip data, p.2.length = p.1.size) :
    (image Prod.snd (members codes data) 0).length = calcsize codes ∧
      ((place (layoutOf codes) 0).map fun p => (p.1.name,
        ((image Prod.snd (members codes data) 0).drop p.2).take p.1.layout.size)) =
        codes.zip data := by
  have hval : ∀ m ∈ members codes data, m.name.2.length = m.layout.size := by
    intro m hm
    obtain ⟨p, hp, rfl⟩ := List.mem_map.mp hm
    exact hsize p hp
  have hlayout : layoutOf codes = (members codes data).map (Member.rename Prod.fst) := by
    have hfst : (codes.zip data).map Prod.fst = codes := List.map_fst_zip hlength.ge
    rw [members, List.map_map, layoutOf]
    conv_lhs => rw [← hfst, List.map_map]
    rfl
  constructor
  · have hend := length_image hval 0
    rwa [Nat.zero_add, ← endOf_rename Prod.fst, ← hlayout] at hend
  · have hread := congrArg (List.map fun q => (q.1.1, q.2)) (map_slice_image hval)
    rw [List.map_map, List.map_map] at hread
    rw [hlayout, place_rename, List.map_map]
    refine hread.trans ?_
    rw [members, List.map_map]
    exact List.map_id' _

/-! ### Packing and unpacking -/

variable {format : List Char} {bytes : List UInt8}

theorem nativePack_eq (hcodes : format.mapM codeOf = .ok codes)
    (hlength : values.length = (consuming codes).length) :
    nativePack format values =
      (encodeAll codes values).map fun data => image Prod.snd (members codes data) 0 := by
  rw [nativePack, hcodes]
  exact if_neg (not_not.mpr hlength)

/-- As many values are packed as the format consumes. -/
theorem length_of_pack (hcodes : format.mapM codeOf = .ok codes)
    (h : nativePack format values = .ok bytes) : values.length = (consuming codes).length := by
  by_contra hlength
  rw [nativePack, hcodes] at h
  simp only [bind, Except.bind, if_pos hlength] at h
  exact absurd h (by simp)

/-- **What is packed is unpacked to the converted values.** -/
theorem unpack_of_pack (hcodes : format.mapM codeOf = .ok codes)
    (h : nativePack format values = .ok bytes) :
    bytes.length = calcsize codes ∧ ∃ values', nativeUnpack format bytes = .ok values' ∧
      List.Forall₂ (fun p w => Converts p.1 p.2 w) ((consuming codes).zip values) values' := by
  have hlength := length_of_pack hcodes h
  rw [nativePack_eq hcodes hlength] at h
  cases hdata : encodeAll codes values with
  | error e => simp [hdata, Except.map] at h
  | ok data =>
    rw [hdata] at h
    obtain rfl := Except.ok.inj h
    obtain ⟨hdata', hsize, hvalues⟩ := encodeAll_spec hdata hlength
    obtain ⟨hbytes, hread⟩ := read_image hdata' hsize
    refine ⟨hbytes, _, ?_, hvalues⟩
    rw [nativeUnpack, hcodes]
    simp only [bind, Except.bind, hbytes, ne_eq, not_true_eq_false, if_false, hread]

/-- **Packing succeeds** for as many values as the format consumes, if each can be converted. -/
theorem exists_pack (hcodes : format.mapM codeOf = .ok codes)
    (hlength : values.length = (consuming codes).length) {values' : List PyValue}
    (h : List.Forall₂ (fun p w => Converts p.1 p.2 w) ((consuming codes).zip values) values') :
    ∃ bytes, nativePack format values = .ok bytes := by
  obtain ⟨data, hdata⟩ := exists_encodeAll h hlength
  exact ⟨_, by rw [nativePack_eq hcodes hlength, hdata]; rfl⟩

/-- The values are read at the offsets of the members. -/
theorem nativeUnpack_eq (hcodes : format.mapM codeOf = .ok codes)
    (hlength : bytes.length = calcsize codes) :
    nativeUnpack format bytes = .ok ((((place (layoutOf codes) 0).map fun p =>
      (p.1.name, p.2)).filter fun q => q.1 ≠ .pad).map fun q =>
        q.1.decode ((bytes.drop q.2).take q.1.size)) := by
  have hsize : ∀ p ∈ place (layoutOf codes) 0, p.1.layout.size = p.1.name.size := by
    intro p hp
    have hmem : p.1 ∈ (place (layoutOf codes) 0).map Prod.fst := List.mem_map_of_mem hp
    rw [map_fst_place] at hmem
    obtain ⟨k, -, hk⟩ := List.mem_map.mp hmem
    rw [← hk]
    rfl
  have hread : ((place (layoutOf codes) 0).map fun p =>
      (p.1.name, (bytes.drop p.2).take p.1.layout.size)) =
        ((place (layoutOf codes) 0).map fun p => (p.1.name, p.2)).map fun q =>
          (q.1, (bytes.drop q.2).take q.1.size) := by
    rw [List.map_map]
    exact List.map_congr_left fun p hp => by rw [hsize p hp]; rfl
  rw [nativeUnpack, hcodes]
  simp only [bind, Except.bind, hlength, ne_eq, not_true_eq_false, if_false, hread]
  rw [valuesOf, List.filter_map, List.map_map]
  rfl

/-! ### The parameters of the codec -/

/-- A value is of the type of its format character: the conversion does not change it. -/
def Exact (c : Char) (v : PyValue) : Prop := ∃ k, codeOf c = .ok k ∧ Converts k v v

/-- The format characters of values that are of their types have codes. -/
theorem exists_codes (h : List.Forall₂ Exact (consumed format) values) :
    ∃ codes, format.mapM codeOf = .ok codes ∧ values.length = (consuming codes).length ∧
      List.Forall₂ (fun p w => Converts p.1 p.2 w) ((consuming codes).zip values) values := by
  induction format generalizing values with
  | nil =>
    obtain rfl := List.forall₂_nil_left_iff.mp h
    exact ⟨[], rfl, rfl, .nil⟩
  | cons c format ih =>
    rw [consumed_cons] at h
    by_cases hc : c = 'x'
    · rw [if_pos hc] at h
      obtain ⟨codes, hcodes, hvalues⟩ := ih h
      refine ⟨.pad :: codes, ?_, by rwa [consuming_cons, if_pos rfl]⟩
      rw [List.mapM_cons, hc, hcodes]
      rfl
    · rw [if_neg hc] at h
      obtain ⟨v, vs, ⟨k, hk, hconvert⟩, hrest, rfl⟩ := List.forall₂_cons_left_iff.mp h
      obtain ⟨codes, hcodes, hlength, hvalues⟩ := ih hrest
      have hpad : k ≠ .pad := by
        rintro rfl
        exact absurd hconvert (by simp [Converts, Code.convert])
      refine ⟨k :: codes, ?_, ?_⟩
      · rw [List.mapM_cons, hk, hcodes]
        rfl
      · rw [consuming_cons, if_neg hpad]
        exact ⟨congrArg (· + 1) hlength, .cons hconvert hvalues⟩

/-- Conversion is a function. -/
theorem eq_of_converts {ps : List (Code × PyValue)} {ws ws' : List PyValue}
    (h : List.Forall₂ (fun p w => Converts p.1 p.2 w) ps ws)
    (h' : List.Forall₂ (fun p w => Converts p.1 p.2 w) ps ws') : ws = ws' := by
  induction h generalizing ws' with
  | nil => exact (List.forall₂_nil_left_iff.mp h').symm
  | cons hw _ ih =>
    obtain ⟨w', ws', hw', hrest, rfl⟩ := List.forall₂_cons_left_iff.mp h'
    rw [ih hrest, Except.ok.inj (hw.symm.trans hw')]

/-- The two functions are inverse on values of their types. -/
theorem inverseOn_native : InverseOn nativePack nativeUnpack Exact := by
  intro format values h
  obtain ⟨codes, hcodes, hlength, hvalues⟩ := exists_codes h
  obtain ⟨bytes, hbytes⟩ := exists_pack hcodes hlength hvalues
  obtain ⟨-, values', hunpack, hvalues'⟩ := unpack_of_pack hcodes hbytes
  exact ⟨bytes, hbytes, eq_of_converts hvalues hvalues' ▸ hunpack⟩

/-- A format has codes, of which as many consume a value as characters do, or there is an error. -/
theorem mapM_codeOf (format : List Char) : format.mapM codeOf = .error .structError ∨
    ∃ codes, format.mapM codeOf = .ok codes ∧
      (consuming codes).length = (consumed format).length := by
  have hcode : ∀ c, codeOf c = .error .structError ∨
      ∃ k, codeOf c = .ok k ∧ (k = .pad ↔ c = 'x') := by
    intro c
    rw [codeOf]
    cases hk : codeTable.lookup c with
    | none => exact .inl rfl
    | some k =>
      have htable : ∀ p ∈ codeTable, (p.2 = .pad ↔ p.1 = 'x') := by decide
      obtain ⟨l₁, l₂, hsplit, -⟩ := List.lookup_eq_some_iff.mp hk
      exact .inr ⟨k, rfl, htable (c, k) (hsplit ▸ List.mem_append_cons_self)⟩
  induction format with
  | nil => exact .inr ⟨[], rfl, rfl⟩
  | cons c format ih =>
    rw [List.mapM_cons]
    obtain hc | ⟨k, hc, hpad⟩ := hcode c
    · exact .inl (by rw [hc]; rfl)
    · rw [hc]
      obtain hrest | ⟨codes, hrest, hlength⟩ := ih
      · exact .inl (by rw [hrest]; rfl)
      · refine .inr ⟨k :: codes, by rw [hrest]; rfl, ?_⟩
        rw [consuming_cons, consumed_cons]
        by_cases hx : c = 'x'
        · rw [if_pos (hpad.mpr hx), if_pos hx, hlength]
        · rw [if_neg (mt hpad.mp hx), if_neg hx, List.length_cons, List.length_cons, hlength]

/-- The arguments are counted. -/
theorem countsArguments_native : CountsArguments nativePack := by
  intro format values hlength
  rw [nativePack]
  obtain hcodes | ⟨codes, hcodes, hcount⟩ := mapM_codeOf format
  · rw [hcodes]
    rfl
  · rw [hcodes]
    exact if_pos (hcount ▸ hlength)

/-- **The codec of the simulator**: with values of the types of a section, what is written is read
back exactly when the section has a line and none is padding. -/
theorem codec_native (D : Description) (side : Side) (d : Dict PyValue)
    (hd : Gives Exact (D.part side) d) :
    RoundTrips nativePack nativeUnpack (D.found side) (D.part side) d ↔
      (D.part side).entries ≠ [] ∧ ∀ e ∈ (D.part side).entries, ¬e.IsPadding := by
  rw [D.found_eq]
  exact roundTrips_iff inverseOn_native countsArguments_native hd

end Simulator

end LegoCar
