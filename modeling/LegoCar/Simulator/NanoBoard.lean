import Mathlib
import LegoCar.Server.CommandInvariant
import LegoCar.Simulator.Struct
import LegoCar.Wire.Layout

/-!
# The simulator of the boards

A simulated board greets the server as a board does, answers every frame with a record, and takes
only the layout of the two from a text, `string`. The records of the server are declared in C. Here
both are read: what the server sends is the dictionary of the simulator (`read_serial`), and what
the simulator sends is as long as `outdata` and holds, at the place of each member, the value of the
dictionary after conversion to the type of its line (`record_of_write`).

Of a value that is already of its type nothing is lost; the number `distance` is rounded to a
`float`, so the record has another number than the dictionary when that is not a `float`, as the
default is not (`sameValues_fails`).
-/

namespace LegoCar

namespace Simulator

open LittleEndian StructLayout ExtRat

/-! ### The description -/

/-- `string`. -/
def string : List Char :=
  ["FRONT LEFT SIDE\n", "OUTPUT:\n", "bool connBroken\n", "bool enMotorController\n",
    "ushort ubat\n", "short accX\n", "short accY\n", "short accZ\n", "short accXsum\n",
    "short accYsum\n", "short accZsum\n", "uint duty\n", "uint network_timeout\n", "int X\n",
    "int W\n", "int P\n", "int I\n", "int D\n", "int FF\n", "float distance\n", "INPUT:\n",
    "alt_u8 LED\n", "bool enConnBrokenCtr\n", "bool setEnMotorController\n", "int W\n",
    "\n"].flatMap String.toList

theorem boardHeader_ne : ∀ str ∈ ["FRONT LEFT SIDE".toList], str ≠ [] := by decide

theorem boardHeader_oneLine : ∀ str ∈ ["FRONT LEFT SIDE".toList], '\n' ∉ str := by decide

/-- The sections of the text. -/
def boardDescription : Description where
  header := ["FRONT LEFT SIDE".toList]
  output := ⟨[⟨"bool".toList, "connBroken".toList⟩, ⟨"bool".toList, "enMotorController".toList⟩,
    ⟨"ushort".toList, "ubat".toList⟩, ⟨"short".toList, "accX".toList⟩,
    ⟨"short".toList, "accY".toList⟩, ⟨"short".toList, "accZ".toList⟩,
    ⟨"short".toList, "accXsum".toList⟩, ⟨"short".toList, "accYsum".toList⟩,
    ⟨"short".toList, "accZsum".toList⟩, ⟨"uint".toList, "duty".toList⟩,
    ⟨"uint".toList, "network_timeout".toList⟩, ⟨"int".toList, "X".toList⟩,
    ⟨"int".toList, "W".toList⟩, ⟨"int".toList, "P".toList⟩, ⟨"int".toList, "I".toList⟩,
    ⟨"int".toList, "D".toList⟩, ⟨"int".toList, "FF".toList⟩,
    ⟨"float".toList, "distance".toList⟩], by decide, by decide, by decide⟩
  input := ⟨[⟨"alt_u8".toList, "LED".toList⟩, ⟨"bool".toList, "enConnBrokenCtr".toList⟩,
    ⟨"bool".toList, "setEnMotorController".toList⟩, ⟨"int".toList, "W".toList⟩], by decide,
    by decide, by decide⟩
  rest := some [[]]
  header_ne := boardHeader_ne
  header_oneLine := boardHeader_oneLine
  rest_oneLine := by decide

/-- `output_p`. -/
def outputP : List Char × List Line :=
  (boardDescription.output.entries.map Entry.code, boardDescription.output.entries.map Entry.name)

/-- `input_p`. -/
def inputP : List Char × List Line :=
  (boardDescription.input.entries.map Entry.code, boardDescription.input.entries.map Entry.name)

theorem text_boardDescription : boardDescription.text = string := by decide +kernel

/-- The text is parsed to the formats and the names. -/
theorem parse_string :
    parseVariables (getInOut string).1 = .ok outputP ∧
      parseVariables (getInOut string).2 = .ok inputP := by
  rw [← text_boardDescription, Description.getInOut_text]
  exact ⟨Section.parseVariables_lines _, Section.parseVariables_lines _⟩

example : outputP.1 = "??HhhhhhhIIiiiiiif".toList := by decide
example : inputP.1 = "B??i".toList := by decide

/-! ### The records as dictionaries -/

/-- `dict([...])`. -/
def dictOf (l : List (Line × PyValue)) : Dict PyValue :=
  dictZip (l.map Prod.fst) (l.map Prod.snd)

/-- The members of an `indata` under their names in the text, and the flags as truth values. -/
def indataDict (d : Indata) : Dict PyValue :=
  dictOf [("LED".toList, .int d.led.toNat),
    ("enConnBrokenCtr".toList, .bool (d.enConnBrokenCtr ≠ 0)),
    ("setEnMotorController".toList, .bool (d.setEnMotorController ≠ 0)),
    ("W".toList, .int d.W.toInt)]

/-- The members of an `outdata`. -/
def outdataDict (o : Outdata) : Dict PyValue :=
  dictOf [("connBroken".toList, .bool (o.connBroken ≠ 0)),
    ("enMotorController".toList, .bool (o.enMotorController ≠ 0)),
    ("ubat".toList, .int o.ubat.toNat), ("accX".toList, .int (o.Acc.acc 0).toInt),
    ("accY".toList, .int (o.Acc.acc 1).toInt), ("accZ".toList, .int (o.Acc.acc 2).toInt),
    ("accXsum".toList, .int (o.Acc.sum 0).toInt), ("accYsum".toList, .int (o.Acc.sum 1).toInt),
    ("accZsum".toList, .int (o.Acc.sum 2).toInt), ("duty".toList, .int o.duty.toNat),
    ("network_timeout".toList, .int o.network_timeout.toNat), ("X".toList, .int o.X.toInt),
    ("W".toList, .int o.W.toInt), ("P".toList, .int o.P.toInt), ("I".toList, .int o.I.toInt),
    ("D".toList, .int o.D.toInt), ("FF".toList, .int o.FF.toInt),
    ("distance".toList, .float (ofBits o.distance))]

section Decode

variable (bytes : List UInt8) (n : ℕ)

theorem decode_bool : Code.bool.decode ((bytes.drop n).take 1) =
    .bool (decide (bytes.getD n 0 ≠ 0)) := by
  have hfirst : ((bytes.drop n).take 1).getD 0 0 = bytes.getD n 0 := by
    rw [List.getD_eq_getElem?_getD, List.getElem?_take_of_lt Nat.zero_lt_one, List.getElem?_drop,
      List.getD_eq_getElem?_getD, Nat.add_zero]
  rw [Code.decode, hfirst]

theorem ofLE_take_lt (k : ℕ) : ofLE ((bytes.drop n).take k) < 256 ^ k :=
  lt_of_lt_of_le (ofLE_lt _) (Nat.pow_le_pow_right (by decide) (List.length_take_le _ _))

theorem toNat_field16 : (Outdata.field16 bytes n).toNat = ofLE ((bytes.drop n).take 2) :=
  UInt16.toNat_ofNat_of_lt' (ofLE_take_lt bytes n 2)

theorem toNat_field32 : (Outdata.field32 bytes n).toNat = ofLE ((bytes.drop n).take 4) :=
  UInt32.toNat_ofNat_of_lt' (ofLE_take_lt bytes n 4)

theorem decode_ushort : (Code.int false 2).decode ((bytes.drop n).take 2) =
    .int (Outdata.field16 bytes n).toNat := by
  rw [toNat_field16]
  rfl

theorem decode_short : (Code.int true 2).decode ((bytes.drop n).take 2) =
    .int (Outdata.field16 bytes n).toInt16.toInt := by
  have hvalue : (Outdata.field16 bytes n).toInt16.toInt =
      ((Outdata.field16 bytes n).toNat : ℤ).bmod (2 ^ 16) :=
    BitVec.toInt_eq_toNat_bmod (Outdata.field16 bytes n).toBitVec
  have hsize : 256 ^ 2 = 2 ^ 16 := by decide
  rw [hvalue, toNat_field16, Code.decode, if_pos rfl, hsize]

theorem decode_uint : (Code.int false 4).decode ((bytes.drop n).take 4) =
    .int (Outdata.field32 bytes n).toNat := by
  rw [toNat_field32]
  rfl

theorem decode_int : (Code.int true 4).decode ((bytes.drop n).take 4) =
    .int (Outdata.field32 bytes n).toInt32.toInt := by
  have hvalue : (Outdata.field32 bytes n).toInt32.toInt =
      ((Outdata.field32 bytes n).toNat : ℤ).bmod (2 ^ 32) :=
    BitVec.toInt_eq_toNat_bmod (Outdata.field32 bytes n).toBitVec
  have hsize : 256 ^ 4 = 2 ^ 32 := by decide
  rw [hvalue, toNat_field32, Code.decode, if_pos rfl, hsize]

end Decode

/-- The types of the lines of the second section. -/
def inputCodes : List Code := [.int false 1, .bool, .bool, .int true 4]

/-- The types of the lines of the first section. -/
def outputCodes : List Code :=
  [.bool, .bool, .int false 2, .int true 2, .int true 2, .int true 2, .int true 2, .int true 2,
    .int true 2, .int false 4, .int false 4, .int true 4, .int true 4, .int true 4, .int true 4,
    .int true 4, .int true 4, .float]

theorem mapM_codeOf_inputP : inputP.1.mapM codeOf = .ok inputCodes := by decide
theorem mapM_codeOf_outputP : outputP.1.mapM codeOf = .ok outputCodes := by decide

theorem calcsize_input : calcsize inputCodes = 8 := by decide
theorem calcsize_output : calcsize outputCodes = 52 := by decide

/-- The simulator reads any 52 bytes as the server does. -/
theorem unpack_outputP {bytes : List UInt8} (h : bytes.length = 52) :
    read nativeUnpack outputP bytes = .ok (outdataDict (Outdata.ofSerial bytes)) := by
  have hplace : ((place (layoutOf outputCodes) 0).map fun p => (p.1.name, p.2)) =
      [(.bool, 0), (.bool, 1), (.int false 2, 2), (.int true 2, 4), (.int true 2, 6),
        (.int true 2, 8), (.int true 2, 10), (.int true 2, 12), (.int true 2, 14),
        (.int false 4, 16), (.int false 4, 20), (.int true 4, 24), (.int true 4, 28),
        (.int true 4, 32), (.int true 4, 36), (.int true 4, 40), (.int true 4, 44),
        (.float, 48)] := by decide
  have hlength : bytes.length = calcsize outputCodes := h.trans calcsize_output.symm
  have hvalues : nativeUnpack outputP.1 bytes = .ok
      [.bool (bytes.getD 0 0 ≠ 0), .bool (bytes.getD 1 0 ≠ 0),
        .int (Outdata.field16 bytes 2).toNat, .int (Outdata.field16 bytes 4).toInt16.toInt,
        .int (Outdata.field16 bytes 6).toInt16.toInt, .int (Outdata.field16 bytes 8).toInt16.toInt,
        .int (Outdata.field16 bytes 10).toInt16.toInt,
        .int (Outdata.field16 bytes 12).toInt16.toInt,
        .int (Outdata.field16 bytes 14).toInt16.toInt, .int (Outdata.field32 bytes 16).toNat,
        .int (Outdata.field32 bytes 20).toNat, .int (Outdata.field32 bytes 24).toInt32.toInt,
        .int (Outdata.field32 bytes 28).toInt32.toInt,
        .int (Outdata.field32 bytes 32).toInt32.toInt,
        .int (Outdata.field32 bytes 36).toInt32.toInt,
        .int (Outdata.field32 bytes 40).toInt32.toInt,
        .int (Outdata.field32 bytes 44).toInt32.toInt,
        .float (ofBits (Outdata.field32 bytes 48))] := by
    rw [nativeUnpack_eq mapM_codeOf_outputP hlength, hplace]
    simp only [← decode_bool, ← decode_ushort, ← decode_short, ← decode_uint, ← decode_int]
    rfl
  rw [read, hvalues]
  rfl

theorem decode_byte (bytes : List UInt8) (n : ℕ) :
    (Code.int false 1).decode ((bytes.drop n).take 1) = .int (bytes.getD n 0).toNat := by
  have hfirst : ofLE ((bytes.drop n).take 1) = (bytes.getD n 0).toNat := by
    rw [List.getD_eq_getElem?_getD, ← Nat.add_zero n, ← List.getElem?_drop, Nat.add_zero]
    cases bytes.drop n <;> simp
  rw [Code.decode, hfirst]
  rfl

/-- The simulator reads a record of the server as its members. -/
theorem read_serial (d : Indata) : read nativeUnpack inputP d.serial = .ok (indataDict d) := by
  have hplace : ((place (layoutOf inputCodes) 0).map fun p => (p.1.name, p.2)) =
      [(.int false 1, 0), (.bool, 1), (.bool, 2), (.int true 4, 4)] := by decide
  have hlength : d.serial.length = calcsize inputCodes :=
    d.length_serial.trans calcsize_input.symm
  have hvalues : nativeUnpack inputP.1 d.serial = .ok
      [.int (d.serial.getD 0 0).toNat, .bool (d.serial.getD 1 0 ≠ 0),
        .bool (d.serial.getD 2 0 ≠ 0), .int (Outdata.field32 d.serial 4).toInt32.toInt] := by
    rw [nativeUnpack_eq mapM_codeOf_inputP hlength, hplace]
    simp only [← decode_bool, ← decode_byte, ← decode_int]
    rfl
  rw [read, hvalues]
  conv_rhs => rw [← Indata.ofSerial_serial d]
  rfl

/-! ### What is written -/

/-- The dictionary has a value for the line, which is converted to another one. -/
def Entry.Holds (e : Entry) (d : Dict PyValue) (w : PyValue) : Prop :=
  ∃ k v, codeOf e.code = .ok k ∧ d e.name = some v ∧ Converts k v w

variable {d : Dict PyValue} {bytes : List UInt8}

/-- A loop that succeeds has succeeded on every member. -/
theorem forall₂_of_mapM {α β ε : Type} {f : α → Except ε β} {l : List α} {l' : List β}
    (h : l.mapM f = .ok l') : List.Forall₂ (fun a b => f a = .ok b) l l' := by
  induction l generalizing l' with
  | nil =>
    obtain rfl := Except.ok.inj h
    exact .nil
  | cons a l ih =>
    rw [List.mapM_cons] at h
    cases hb : f a with
    | error e => simp [hb, bind, Except.bind] at h
    | ok b =>
      cases hrest : l.mapM f with
      | error e => simp [hb, hrest, bind, Except.bind] at h
      | ok rest =>
        simp only [hb, hrest, bind, Except.bind, pure, Except.pure] at h
        obtain rfl := Except.ok.inj h
        exact .cons hb (ih hrest)

/-- Distinct names have the values of some dictionary. -/
theorem exists_dict {names : List Line} {values : List PyValue} (hnodup : names.Nodup)
    (hlength : names.length = values.length) :
    ∃ d : Dict PyValue, List.Forall₂ (fun name value => d name = some value) names values := by
  induction names generalizing values with
  | nil =>
    obtain rfl := List.length_eq_zero_iff.mp hlength.symm
    exact ⟨fun _ => none, .nil⟩
  | cons name names ih =>
    obtain ⟨value, values, rfl⟩ := List.exists_cons_of_length_eq_add_one hlength.symm
    obtain ⟨hname, hnodup⟩ := List.nodup_cons.mp hnodup
    obtain ⟨d, hd⟩ := ih hnodup (Nat.succ.inj hlength)
    have hother : ∀ n ∈ names, n ≠ name := fun n hn heq => hname (heq ▸ hn)
    refine ⟨Function.update d name (some value), .cons (Function.update_self ..) ?_⟩
    refine (List.forall₂_and_left _ _ |>.mpr ⟨hother, hd⟩).imp fun n v h => ?_
    rw [Function.update_of_ne h.1, h.2]

/-- The names have the values that are entered for them. -/
theorem dictZip_zip {names : List Line} {values : List PyValue} (hnodup : names.Nodup)
    (hlength : names.length = values.length) :
    List.Forall₂ (fun name value => dictZip names values name = some value) names values := by
  obtain ⟨d, hd⟩ := exists_dict hnodup hlength
  have hentered : ∀ name ∈ names, dictZip names values name = d name :=
    dictZip_of_nodup hnodup hd
  refine (List.forall₂_and_left _ _ |>.mpr ⟨hentered, hd⟩).imp fun n v h => ?_
  rw [h.1, h.2]

/-- What the rows of four columns have in common. -/
theorem exists_of_columns {α β γ δ : Type} {R : α → β → Prop} {S : α → γ → Prop}
    {T : β × γ → δ → Prop} {U : α → δ → Prop} {as : List α} {bs : List β} {cs : List γ}
    {ws : List δ} (hR : List.Forall₂ R as bs) (hS : List.Forall₂ S as cs)
    (hT : List.Forall₂ T (bs.zip cs) ws) (hU : List.Forall₂ U as ws) :
    ∀ a ∈ as, ∃ b c w, R a b ∧ S a c ∧ T (b, c) w ∧ U a w := by
  induction hR generalizing cs ws with
  | nil => exact List.forall_mem_nil _
  | cons hb _ ih =>
    obtain ⟨c, cs, hc, hcs, rfl⟩ := List.forall₂_cons_left_iff.mp hS
    obtain ⟨w, ws, hw, hws, rfl⟩ := List.forall₂_cons_left_iff.mp hT
    obtain ⟨hu, hus⟩ := List.forall₂_cons.mp hU
    exact List.forall_mem_cons.mpr ⟨⟨_, c, w, hb, hc, hw, hu⟩, ih hcs hws hus⟩

theorem consuming_output : consuming outputCodes = outputCodes := by decide

/-- **What is written**: the server receives a record of the values of the dictionary, converted
to the types of their lines. -/
theorem record_of_write (h : write nativePack outputP d = .ok bytes) :
    bytes.length = hostOutdata.sizeof ∧
      ∀ e ∈ boardDescription.output.entries, ∃ w, e.Holds d w ∧
        outdataDict (Outdata.ofSerial bytes) e.name = some w := by
  obtain ⟨values, hvalues, hpack⟩ : ∃ values, outputP.2.mapM (get d) = .ok values ∧
      nativePack outputP.1 values = .ok bytes := by
    cases hloop : outputP.2.mapM (get d) with
    | error e => simp [write, hloop, bind, Except.bind] at h
    | ok values =>
      rw [write, hloop] at h
      exact ⟨values, rfl, h⟩
  have hgot := List.forall₂_map_left_iff.mp (forall₂_of_mapM hvalues)
  have hcodes := List.forall₂_map_left_iff.mp (forall₂_of_mapM mapM_codeOf_outputP)
  obtain ⟨hlength, values', hunpack, hconverted⟩ := unpack_of_pack mapM_codeOf_outputP hpack
  rw [consuming_output] at hconverted
  have hread : dictZip outputP.2 values' = outdataDict (Outdata.ofSerial bytes) := by
    have hunpacked := unpack_outputP hlength
    rw [read, hunpack] at hunpacked
    exact Except.ok.inj hunpacked
  have hcount : outputP.2.length = values'.length := by
    rw [← hconverted.length_eq, List.length_zip, ← hcodes.length_eq, ← hgot.length_eq, min_self,
      outputP, List.length_map]
  have hentered := List.forall₂_map_left_iff.mp
    (dictZip_zip boardDescription.output.distinct hcount)
  refine ⟨hlength, fun e he => ?_⟩
  obtain ⟨k, v, w, hk, hv, hconvert, hw⟩ := exists_of_columns hcodes hgot hconverted hentered e he
  refine ⟨w, ⟨k, v, hk, ?_, hconvert⟩, hread ▸ hw⟩
  cases hd : d e.name with
  | none => simp [get, hd] at hv
  | some v' =>
    rw [get, hd] at hv
    exact congrArg some (Except.ok.inj hv)

/-- Writing succeeds when the dictionary has a value for each line that can be converted. -/
theorem exists_write_iff : (∃ bytes, write nativePack outputP d = .ok bytes) ↔
    ∀ e ∈ boardDescription.output.entries, ∃ w, e.Holds d w := by
  constructor
  · rintro ⟨bytes, h⟩ e he
    obtain ⟨w, hw, -⟩ := (record_of_write h).2 e he
    exact ⟨w, hw⟩
  · intro h
    have hrow : ∀ e ∈ boardDescription.output.entries, ∃ t : Code × PyValue × PyValue,
        codeOf e.code = .ok t.1 ∧ d e.name = some t.2.1 ∧ Converts t.1 t.2.1 t.2.2 := by
      intro e he
      obtain ⟨w, k, v, hk, hv, hconvert⟩ := h e he
      exact ⟨(k, v, w), hk, hv, hconvert⟩
    obtain ⟨rows, hrows⟩ := exists_forall₂ hrow
    have hcodes : outputP.1.mapM codeOf = .ok (rows.map Prod.fst) :=
      mapM_of_forall₂ (List.forall₂_map_left_iff.mpr
        (List.forall₂_map_right_iff.mpr (hrows.imp fun _ _ h => h.1)))
    have hconsuming : consuming (rows.map Prod.fst) = rows.map Prod.fst := by
      rw [Except.ok.inj (hcodes.symm.trans mapM_codeOf_outputP), consuming_output]
    have hvalues : List.Forall₂ (fun name value => d name = some value)
        (boardDescription.output.entries.map Entry.name) (rows.map fun t => t.2.1) :=
      List.forall₂_map_left_iff.mpr (List.forall₂_map_right_iff.mpr (hrows.imp fun _ _ h => h.2.1))
    have hconverted : ∀ t ∈ rows, Converts t.1 t.2.1 t.2.2 := by
      intro t ht
      obtain ⟨i, rfl⟩ := List.get_of_mem ht
      exact (hrows.get (by rw [hrows.length_eq]; exact i.2) i.2).2.2
    have hall : List.Forall₂ (fun p w => Converts p.1 p.2 w)
        ((consuming (rows.map Prod.fst)).zip (rows.map fun t => t.2.1))
        (rows.map fun t => t.2.2) := by
      rw [hconsuming, List.zip_map']
      exact List.forall₂_map_left_iff.mpr (List.forall₂_map_right_iff.mpr
        (List.forall₂_same.mpr hconverted))
    have hcount : (rows.map fun t => t.2.1).length = (consuming (rows.map Prod.fst)).length := by
      rw [hconsuming, List.length_map, List.length_map]
    obtain ⟨bytes, hbytes⟩ := exists_pack hcodes hcount hall
    exact ⟨bytes, (write_of_values hvalues).trans hbytes⟩

/-! ### What conversion changes -/

/-- A value is of a type. -/
def Code.OfType : Code → PyValue → Prop
  | .bool, .bool _ => True
  | .int signed n, .int z => Code.Fits signed n z
  | .float, .float x => ∃ b, ofBits b = x
  | _, _ => False

/-- A value of the type is not changed. -/
theorem Code.OfType.converts {k : Code} {v : PyValue} (h : k.OfType v) : Converts k v v := by
  cases k with
  | pad => exact h.elim
  | bool =>
    cases v with
    | bool b => exact rfl
    | int z => exact h.elim
    | float x => exact h.elim
  | int signed n =>
    cases v with
    | bool b => exact h.elim
    | int z =>
      have hfits : Code.Fits signed n z := h
      exact if_pos hfits
    | float x => exact h.elim
  | float =>
    cases v with
    | bool b => exact h.elim
    | int z => exact h.elim
    | float x =>
      obtain ⟨b, hb⟩ := h
      have hround : ofBits (toBits x) = x := ofBits_toBits hb
      show Except.ok (PyValue.float (ofBits (toBits x))) = _
      rw [hround]

/-- A line has one converted value. -/
theorem Entry.Holds.unique {e : Entry} {w w' : PyValue} (h : e.Holds d w) (h' : e.Holds d w') :
    w = w' := by
  obtain ⟨k, v, hk, hv, hw⟩ := h
  obtain ⟨k', v', hk', hv', hw'⟩ := h'
  obtain rfl := Except.ok.inj (hk.symm.trans hk')
  obtain rfl := Option.some.inj (hv.symm.trans hv')
  exact Except.ok.inj (hw.symm.trans hw')

/-! ### The thread of a board -/

/-- `Nano_Board`: its two dictionaries. -/
structure NanoBoard where
  input : Dict PyValue
  output : Dict PyValue

/-- `1.23`, which is read as the nearest `double`. -/
def defaultDistance : ℚ := 5539427541665710 / 2 ^ 52

namespace NanoBoard

/-- `__init__`. -/
def init : NanoBoard where
  input := dictOf []
  output := dictOf [("connBroken".toList, .bool false), ("enMotorController".toList, .bool false),
    ("ubat".toList, .int 1203), ("accX".toList, .int 0), ("accY".toList, .int 0),
    ("accZ".toList, .int 980), ("duty".toList, .int 123), ("network_timeout".toList, .int 23),
    ("X".toList, .int 21), ("W".toList, .int 32), ("P".toList, .int 33), ("I".toList, .int 3),
    ("D".toList, .int 0), ("FF".toList, .int 0), ("distance".toList, .float (fin defaultDistance)),
    ("accXsum".toList, .int 1), ("accYsum".toList, .int 2), ("accZsum".toList, .int 3)]

/-- `insize`. -/
def insize : ℕ := calcsize inputCodes + 1

/-- A pass of the inner loop of `run`, for what `recv` returns: the board, the bytes received, and
those sent. -/
def pass (b : NanoBoard) (indat chunk : List UInt8) :
    Except PyError (NanoBoard × List UInt8 × List UInt8) := do
  let indat := indat ++ chunk.take (insize - indat.length)
  let input ← read nativeUnpack inputP (indat.drop 1)
  let w ← get input "W".toList
  let output := Function.update b.output "W".toList (some w)
  let bytes ← write nativePack outputP output
  .ok (⟨input, output⟩, indat, tagR :: bytes)

/-- What the loops of `run` send, for what the calls of `recv` return. The thread ends when a pass
raises, and a frame begins when the last one is complete. -/
def run : NanoBoard → List UInt8 → List (List UInt8) → List (List UInt8)
  | _, _, [] => []
  | b, indat, chunk :: chunks =>
    match b.pass (if indat.length = insize then [] else indat) chunk with
    | .error _ => []
    | .ok (b', indat', reply) => reply :: run b' indat' chunks

/-- Every line of the output has a value that can be converted. -/
def Writable (b : NanoBoard) : Prop :=
  ∀ e ∈ boardDescription.output.entries, ∃ w, e.Holds b.output w

variable {b : NanoBoard}

/-- The value of a line after an entry into the dictionary. -/
theorem holds_update {z : ℤ} (hz : Code.Fits true 4 z) {e : Entry}
    (he : e ∈ boardDescription.output.entries) (hb : ∃ w, e.Holds b.output w) :
    ∃ w, e.Holds (Function.update b.output "W".toList (some (.int z))) w ∧
      (e.name = "W".toList → w = .int z) := by
  by_cases hname : e.name = "W".toList
  · have hcode : ∀ e ∈ boardDescription.output.entries, e.name = "W".toList →
        codeOf e.code = .ok (.int true 4) := by decide
    refine ⟨.int z, ⟨_, .int z, hcode e he hname, ?_, Code.OfType.converts hz⟩, fun _ => rfl⟩
    rw [hname, Function.update_self]
  · obtain ⟨w, k, v, hk, hv, hw⟩ := hb
    refine ⟨w, ⟨k, v, hk, ?_, hw⟩, fun h => absurd h hname⟩
    rw [Function.update_of_ne hname, hv]

/-- **A pass** over a frame of the server: the answer is a record with the same `W`. -/
theorem pass_frame (hb : b.Writable) (d : Indata) : ∃ b' payload,
    b.pass [] (tagS :: d.serial) = .ok (b', tagS :: d.serial, tagR :: payload) ∧
      b'.input = indataDict d ∧ b'.Writable ∧ payload.length = hostOutdata.sizeof ∧
        (Outdata.ofSerial payload).W = d.W := by
  have hlow := d.W.le_toInt
  have hhigh := d.W.toInt_lt
  have hfits : Code.Fits true 4 d.W.toInt := by
    show -256 ^ 4 ≤ 2 * d.W.toInt ∧ 2 * d.W.toInt < 256 ^ 4
    omega
  have hholds := fun e he => holds_update hfits he (hb e he)
  have hwritable : ∀ e ∈ boardDescription.output.entries, ∃ w,
      e.Holds (Function.update b.output "W".toList (some (.int d.W.toInt))) w := by
    intro e he
    obtain ⟨w, hw, -⟩ := hholds e he
    exact ⟨w, hw⟩
  obtain ⟨payload, hpayload⟩ := exists_write_iff.mpr hwritable
  obtain ⟨hlength, hrecord⟩ := record_of_write hpayload
  have hW : (Outdata.ofSerial payload).W = d.W := by
    have hmem : Entry.mk "int".toList "W".toList ∈ boardDescription.output.entries := by decide
    obtain ⟨w, hw, hread⟩ := hrecord _ hmem
    obtain ⟨w', hw', hvalue⟩ := hholds _ hmem
    rw [hw.unique hw', hvalue rfl] at hread
    have hmember : outdataDict (Outdata.ofSerial payload) "W".toList =
        some (.int (Outdata.ofSerial payload).W.toInt) := rfl
    exact Int32.toInt.inj (PyValue.int.inj (Option.some.inj (hmember.symm.trans hread)))
  have htake : (tagS :: d.serial).take (insize - 0) = tagS :: d.serial :=
    List.take_of_length_le (by rw [List.length_cons, d.length_serial]; decide)
  have hget : get (indataDict d) "W".toList = .ok (.int d.W.toInt) := rfl
  refine ⟨⟨indataDict d, Function.update b.output "W".toList (some (.int d.W.toInt))⟩, payload, ?_,
    rfl, hwritable, hlength, hW⟩
  rw [pass, List.length_nil, htake, List.nil_append, List.drop_one, List.tail_cons, read_serial]
  simp only [bind, Except.bind, hget, hpayload]

theorem writable_init : init.Writable := by
  intro e he
  fin_cases he <;> exact ⟨_, _, _, rfl, rfl, rfl⟩

/-- **Every frame is answered** with the `W` that it carries. -/
theorem run_frames (hb : b.Writable) (ds : List Indata) {indat : List UInt8}
    (hindat : indat = [] ∨ indat.length = insize) :
    List.Forall₂ (fun d reply => ∃ payload, reply = tagR :: payload ∧
      payload.length = hostOutdata.sizeof ∧ (Outdata.ofSerial payload).W = d.W) ds
        (b.run indat (ds.map fun d => tagS :: d.serial)) := by
  induction ds generalizing b indat with
  | nil => exact .nil
  | cons d ds ih =>
    have hbegin : (if indat.length = insize then [] else indat) = [] := by
      rcases hindat with rfl | hfull
      · exact ite_self _
      · exact if_pos hfull
    obtain ⟨b', payload, hpass, -, hb', hlength, hW⟩ := pass_frame hb d
    have hfull : (tagS :: d.serial).length = insize := by
      rw [List.length_cons, d.length_serial]
      decide
    rw [List.map_cons, run, hbegin, hpass]
    exact .cons ⟨payload, rfl, hlength, hW⟩ (ih hb' (.inr hfull))

end NanoBoard

/-! ### The two sides -/

/-- The server receives a record with the values of the dictionary. -/
def SameValues (d : Dict PyValue) (bytes : List UInt8) : Prop :=
  bytes.length = hostOutdata.sizeof ∧ ∀ rest object : List UInt8, ∃ o,
    hostOutdat (tagR :: bytes).length ((tagR :: bytes) ++ rest) object = some o ∧
      ∀ e ∈ boardDescription.output.entries, outdataDict o e.name = d e.name

/-- The server receives a record with the values of the dictionary after conversion to the types of
their lines, and a value of the type itself is not changed. -/
def ConvertedValues (d : Dict PyValue) (bytes : List UInt8) : Prop :=
  bytes.length = hostOutdata.sizeof ∧ ∀ rest object : List UInt8, ∃ o,
    hostOutdat (tagR :: bytes).length ((tagR :: bytes) ++ rest) object = some o ∧
      ∀ e ∈ boardDescription.output.entries, ∃ k v w, codeOf e.code = .ok k ∧
        d e.name = some v ∧ k.convert v = .ok w ∧ outdataDict o e.name = some w ∧
          (k.OfType v → w = v)

theorem convertedValues_of_write (h : write nativePack outputP d = .ok bytes) :
    ConvertedValues d bytes := by
  obtain ⟨hlength, hrecord⟩ := record_of_write h
  refine ⟨hlength, fun rest object => ⟨_, hostOutdat_payload hlength rest object, ?_⟩⟩
  intro e he
  obtain ⟨w, ⟨k, v, hk, hv, hw⟩, hread⟩ := hrecord e he
  exact ⟨k, v, w, hk, hv, hw, hread, fun htype =>
    Except.ok.inj (hw.symm.trans htype.converts)⟩

end Simulator

open Simulator ExtRat

/-- **The simulator and the server agree on the wire.** The text gives the two formats; what the
server sends is read as its record; and what the simulator sends, which it does when every value
can be converted, is as long as `outdata` and is received as the converted values. -/
theorem simulator_agrees :
    (parseVariables (getInOut string).1 = .ok outputP ∧
      parseVariables (getInOut string).2 = .ok inputP) ∧
    (∀ d : Indata, read nativeUnpack inputP d.serial = .ok (indataDict d)) ∧
    (∀ (cfg : ServerConfig) (io : BoardIO) (rfd : Finset ℤ) (i : Fin 4) (s : Server)
      (f : List UInt8), s.frameTo cfg io rfd i = some f →
        f.length = NanoBoard.insize ∧
          read nativeUnpack inputP (f.drop 1) = .ok (indataDict (s.nano i).indat)) ∧
    hostOutdata.sizeof = 52 ∧
    ∀ d : Dict PyValue,
      ((∃ bytes, write nativePack outputP d = .ok bytes) ↔
        ∀ e ∈ boardDescription.output.entries, ∃ w, e.Holds d w) ∧
      ∀ bytes, write nativePack outputP d = .ok bytes → ConvertedValues d bytes := by
  refine ⟨parse_string, read_serial, ?_, sizeof_host, fun d =>
    ⟨exists_write_iff, fun bytes => convertedValues_of_write⟩⟩
  intro cfg io rfd i s f hf
  rw [Server.eq_of_frameTo hf]
  exact ⟨by rw [List.length_cons, Indata.length_serial]; decide, read_serial _⟩

/-- **The default distance** is not a `float`: the server receives another number. -/
theorem sameValues_fails : ¬∀ (d : Dict PyValue) (bytes : List UInt8),
    write nativePack outputP d = .ok bytes → SameValues d bytes := by
  intro hall
  obtain ⟨bytes, hbytes⟩ := exists_write_iff.mpr NanoBoard.writable_init
  obtain ⟨-, hsame⟩ := hall _ _ hbytes
  obtain ⟨-, hconverted⟩ := convertedValues_of_write hbytes
  obtain ⟨o, ho, hd⟩ := hsame [] []
  obtain ⟨o', ho', hd'⟩ := hconverted [] []
  obtain rfl := Option.some.inj (ho.symm.trans ho')
  have hmem : Entry.mk "float".toList "distance".toList ∈ boardDescription.output.entries := by
    decide
  obtain ⟨k, v, w, hk, hv, hw, hread, -⟩ := hd' _ hmem
  obtain rfl : .float = k := Except.ok.inj hk
  obtain rfl : .float (fin defaultDistance) = v := Option.some.inj hv
  have hkept := (hread.symm.trans (hd _ hmem)).trans hv
  rw [Option.some.inj hkept] at hw
  have hround : (ofBits (toBits (fin defaultDistance)) : ExtRat) ≠ fin defaultDistance := by
    decide +kernel
  exact hround (PyValue.float.inj (Except.ok.inj hw))

end LegoCar
