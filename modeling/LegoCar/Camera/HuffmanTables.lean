import Mathlib

/-!
# Loading Huffman tables

A frame of a camera may come without Huffman tables, so `processimage` loads those of
`my_jpeg_odml_dht`. The loader reads segments: a byte with the class and the index of a table, the
number of codes of each of sixteen lengths, and the symbols.

`my_jpeg_load_dht` accepts a table exactly when its contents are such segments, and then each of the
eight slots has the last segment for it, or what it had before; it reads no byte behind the contents
(`load_dht`). The length field counts its own two bytes, and the number of bytes behind it is
unsigned: a smaller field is not one of a table. Symbols that a segment does not have are those of
an earlier segment, or whatever was on the stack.

`jpeg_alloc_huff_table` does not return a null pointer: it leaves by the error exit.
-/

namespace LegoCar

/-- `JHUFF_TBL`. -/
structure JHuffTbl where
  bits : List UInt8
  huffval : List UInt8
deriving DecidableEq

/-- `ac_huff_tbl_ptrs` and `dc_huff_tbl_ptrs`. -/
structure HuffTables where
  ac : Fin 4 → Option JHuffTbl := fun _ => none
  dc : Fin 4 → Option JHuffTbl := fun _ => none

namespace HuffTables

/-- The table of a class and an index. -/
def get (tables : HuffTables) (ac : Bool) (index : Fin 4) : Option JHuffTbl :=
  if ac then tables.ac index else tables.dc index

/-- A table is copied to its place. -/
def put (ac : Bool) (index : Fin 4) (table : JHuffTbl) (tables : HuffTables) : HuffTables :=
  if ac then { tables with ac := Function.update tables.ac index (some table) }
  else { tables with dc := Function.update tables.dc index (some table) }

theorem get_put_self (ac : Bool) (index : Fin 4) (table : JHuffTbl) (tables : HuffTables) :
    (tables.put ac index table).get ac index = some table := by
  cases ac <;> exact Function.update_self _ _ _

theorem get_put_of_ne {ac ac' : Bool} {index index' : Fin 4} (h : ¬(ac = ac' ∧ index = index'))
    (table : JHuffTbl) (tables : HuffTables) :
    (tables.put ac index table).get ac' index' = tables.get ac' index' := by
  cases ac <;> cases ac'
  · exact Function.update_of_ne (fun heq => h ⟨rfl, heq.symm⟩) _ _
  · rfl
  · rfl
  · exact Function.update_of_ne (fun heq => h ⟨rfl, heq.symm⟩) _ _

end HuffTables

/-! ### The loader -/

/-- `n` bytes from a place on. -/
def bytes (dht : ℕ → UInt8) (pos n : ℕ) : List UInt8 := (List.range n).map fun k => dht (pos + k)

/-- The loop over the segments, with `length` bytes left. -/
def segments (dht : ℕ → UInt8) : ℕ → ℕ → ℕ → (ℕ → UInt8) → HuffTables → HuffTables × ℤ
  | 0, length, _, _, tables => (tables, if length ≠ 0 then -1 else 0)
  | fuel + 1, length, pos, huffval, tables =>
    if 16 < length then
      let index := (dht pos).toNat
      let bits := bytes dht (pos + 1) 16
      let count := (bits.map UInt8.toNat).sum
      let length := length - 17
      if 256 < count ∨ length < count then (tables, -1)
      else
        let huffval := fun i => if i < count then dht (pos + 17 + i) else huffval i
        let ac := decide (index &&& 0x10 ≠ 0)
        let index := if ac then index - 0x10 else index
        if h : index < 4 then
          segments dht fuel (length - count) (pos + 17 + count) huffval
            (tables.put ac ⟨index, h⟩ ⟨0 :: bits, (List.range 256).map huffval⟩)
        else (tables, -1)
    else (tables, if length ≠ 0 then -1 else 0)

/-- The length field of a table. -/
def lengthField (dht : ℕ → UInt8) : ℕ := (dht 2).toNat * 256 + (dht 3).toNat

/-- The length of the segments, which is unsigned. -/
def dhtLength (dht : ℕ → UInt8) : ℕ := (((lengthField dht : ℤ) - 2) % 2 ^ 32).toNat

/-- `my_jpeg_load_dht`, where `memory` is what is in `huffval` before. -/
def myJpegLoadDht (dht : ℕ → UInt8) (memory : ℕ → UInt8) (tables : HuffTables) : HuffTables × ℤ :=
  segments dht (dhtLength dht) (dhtLength dht) 4 memory tables

/-- `my_jpeg_odml_dht`, the tables that `processimage` loads. -/
def myJpegOdmlDht : List UInt8 :=
  [0xff, 0xc4, 0x01, 0xa2, 0x00, 0x00, 0x01, 0x05, 0x01, 0x01, 0x01, 0x01, 0x01, 0x01, 0x00,
  0x00, 0x00, 0x00, 0x00, 0x00, 0x00, 0x00, 0x01, 0x02, 0x03, 0x04, 0x05, 0x06, 0x07, 0x08,
  0x09, 0x0a, 0x0b, 0x01, 0x00, 0x03, 0x01, 0x01, 0x01, 0x01, 0x01, 0x01, 0x01, 0x01, 0x01,
  0x00, 0x00, 0x00, 0x00, 0x00, 0x00, 0x01, 0x02, 0x03, 0x04, 0x05, 0x06, 0x07, 0x08, 0x09,
  0x0a, 0x0b, 0x10, 0x00, 0x02, 0x01, 0x03, 0x03, 0x02, 0x04, 0x03, 0x05, 0x05, 0x04, 0x04,
  0x00, 0x00, 0x01, 0x7d, 0x01, 0x02, 0x03, 0x00, 0x04, 0x11, 0x05, 0x12, 0x21, 0x31, 0x41,
  0x06, 0x13, 0x51, 0x61, 0x07, 0x22, 0x71, 0x14, 0x32, 0x81, 0x91, 0xa1, 0x08, 0x23, 0x42,
  0xb1, 0xc1, 0x15, 0x52, 0xd1, 0xf0, 0x24, 0x33, 0x62, 0x72, 0x82, 0x09, 0x0a, 0x16, 0x17,
  0x18, 0x19, 0x1a, 0x25, 0x26, 0x27, 0x28, 0x29, 0x2a, 0x34, 0x35, 0x36, 0x37, 0x38, 0x39,
  0x3a, 0x43, 0x44, 0x45, 0x46, 0x47, 0x48, 0x49, 0x4a, 0x53, 0x54, 0x55, 0x56, 0x57, 0x58,
  0x59, 0x5a, 0x63, 0x64, 0x65, 0x66, 0x67, 0x68, 0x69, 0x6a, 0x73, 0x74, 0x75, 0x76, 0x77,
  0x78, 0x79, 0x7a, 0x83, 0x84, 0x85, 0x86, 0x87, 0x88, 0x89, 0x8a, 0x92, 0x93, 0x94, 0x95,
  0x96, 0x97, 0x98, 0x99, 0x9a, 0xa2, 0xa3, 0xa4, 0xa5, 0xa6, 0xa7, 0xa8, 0xa9, 0xaa, 0xb2,
  0xb3, 0xb4, 0xb5, 0xb6, 0xb7, 0xb8, 0xb9, 0xba, 0xc2, 0xc3, 0xc4, 0xc5, 0xc6, 0xc7, 0xc8,
  0xc9, 0xca, 0xd2, 0xd3, 0xd4, 0xd5, 0xd6, 0xd7, 0xd8, 0xd9, 0xda, 0xe1, 0xe2, 0xe3, 0xe4,
  0xe5, 0xe6, 0xe7, 0xe8, 0xe9, 0xea, 0xf1, 0xf2, 0xf3, 0xf4, 0xf5, 0xf6, 0xf7, 0xf8, 0xf9,
  0xfa, 0x11, 0x00, 0x02, 0x01, 0x02, 0x04, 0x04, 0x03, 0x04, 0x07, 0x05, 0x04, 0x04, 0x00,
  0x01, 0x02, 0x77, 0x00, 0x01, 0x02, 0x03, 0x11, 0x04, 0x05, 0x21, 0x31, 0x06, 0x12, 0x41,
  0x51, 0x07, 0x61, 0x71, 0x13, 0x22, 0x32, 0x81, 0x08, 0x14, 0x42, 0x91, 0xa1, 0xb1, 0xc1,
  0x09, 0x23, 0x33, 0x52, 0xf0, 0x15, 0x62, 0x72, 0xd1, 0x0a, 0x16, 0x24, 0x34, 0xe1, 0x25,
  0xf1, 0x17, 0x18, 0x19, 0x1a, 0x26, 0x27, 0x28, 0x29, 0x2a, 0x35, 0x36, 0x37, 0x38, 0x39,
  0x3a, 0x43, 0x44, 0x45, 0x46, 0x47, 0x48, 0x49, 0x4a, 0x53, 0x54, 0x55, 0x56, 0x57, 0x58,
  0x59, 0x5a, 0x63, 0x64, 0x65, 0x66, 0x67, 0x68, 0x69, 0x6a, 0x73, 0x74, 0x75, 0x76, 0x77,
  0x78, 0x79, 0x7a, 0x82, 0x83, 0x84, 0x85, 0x86, 0x87, 0x88, 0x89, 0x8a, 0x92, 0x93, 0x94,
  0x95, 0x96, 0x97, 0x98, 0x99, 0x9a, 0xa2, 0xa3, 0xa4, 0xa5, 0xa6, 0xa7, 0xa8, 0xa9, 0xaa,
  0xb2, 0xb3, 0xb4, 0xb5, 0xb6, 0xb7, 0xb8, 0xb9, 0xba, 0xc2, 0xc3, 0xc4, 0xc5, 0xc6, 0xc7,
  0xc8, 0xc9, 0xca, 0xd2, 0xd3, 0xd4, 0xd5, 0xd6, 0xd7, 0xd8, 0xd9, 0xda, 0xe2, 0xe3, 0xe4,
  0xe5, 0xe6, 0xe7, 0xe8, 0xe9, 0xea, 0xf2, 0xf3, 0xf4, 0xf5, 0xf6, 0xf7, 0xf8, 0xf9, 0xfa]

/-! ### Segments -/

/-- A segment: its class and index, the number of codes of each length, and their symbols. -/
structure Segment where
  ac : Bool
  index : Fin 4
  bits : List UInt8
  huffval : List UInt8
  length_bits : bits.length = 16
  length_huffval : huffval.length = (bits.map UInt8.toNat).sum
  huffval_le : huffval.length ≤ 256

namespace Segment

/-- The byte with the class and the index. -/
def tag (s : Segment) : UInt8 := UInt8.ofNat (s.index + if s.ac then 0x10 else 0)

def encode (s : Segment) : List UInt8 := s.tag :: (s.bits ++ s.huffval)

theorem length_encode (s : Segment) : s.encode.length = 17 + s.huffval.length := by
  rw [encode, List.length_cons, List.length_append, s.length_bits]
  omega

/-- What is in `huffval` after a segment. -/
def keep (s : Segment) (huffval : ℕ → UInt8) (i : ℕ) : UInt8 := s.huffval[i]?.getD (huffval i)

/-- The table of a segment. -/
def table (s : Segment) (huffval : ℕ → UInt8) : JHuffTbl :=
  ⟨0 :: s.bits, (List.range 256).map (s.keep huffval)⟩

/-- A tag says what the class and the index are. -/
theorem tag_spec (s : Segment) : decide (s.tag.toNat &&& 0x10 ≠ 0) = s.ac ∧
    (if s.ac then s.tag.toNat - 0x10 else s.tag.toNat) = s.index := by
  have hall : ∀ (ac : Bool) (index : Fin 4),
      let tag := UInt8.ofNat (index + if ac then 0x10 else 0)
      decide (tag.toNat &&& 0x10 ≠ 0) = ac ∧
        (if ac then tag.toNat - 0x10 else tag.toNat) = index := by decide
  exact hall s.ac s.index

/-- A class and an index are those of one byte. -/
theorem ofNat_tag {b : UInt8} {index : ℕ}
    (h : (if decide (b.toNat &&& 0x10 ≠ 0) then b.toNat - 0x10 else b.toNat) = index) :
    UInt8.ofNat (index + if decide (b.toNat &&& 0x10 ≠ 0) then 0x10 else 0) = b := by
  rw [← h]
  by_cases hac : b.toNat &&& 0x10 ≠ 0
  · have hand : b.toNat &&& 2 ^ 4 ≠ 0 := hac
    rw [Nat.and_two_pow] at hand
    have hbit : b.toNat.testBit 4 = true := by
      by_contra hbit
      rw [eq_false_of_ne_true hbit] at hand
      exact hand (Nat.zero_mul _)
    have hle : 0x10 ≤ b.toNat := Nat.ge_two_pow_of_testBit hbit
    rw [decide_eq_true hac, if_pos rfl, if_pos rfl, Nat.sub_add_cancel hle, UInt8.ofNat_toNat]
  · rw [decide_eq_false hac, if_neg Bool.false_ne_true, if_neg Bool.false_ne_true, Nat.add_zero,
      UInt8.ofNat_toNat]

theorem take_table (s : Segment) (huffval : ℕ → UInt8) :
    (s.table huffval).huffval.length = 256 ∧
      (s.table huffval).huffval.take s.huffval.length = s.huffval := by
  refine ⟨by rw [table, List.length_map, List.length_range], ?_⟩
  refine List.ext_getElem? fun i => ?_
  rw [List.getElem?_take, table, List.getElem?_map]
  by_cases hi : i < s.huffval.length
  · have hle := s.huffval_le
    rw [if_pos hi, List.getElem?_range (by omega), Option.map_some, keep,
      List.getElem?_eq_getElem hi, Option.getD_some]
  · rw [if_neg hi, List.getElem?_eq_none (not_lt.mp hi)]

end Segment

/-- The tables after some segments. -/
def store : List Segment → (ℕ → UInt8) → HuffTables → HuffTables
  | [], _, tables => tables
  | s :: segs, huffval, tables =>
    store segs (s.keep huffval) (tables.put s.ac s.index (s.table huffval))

/-- The last of some segments for a class and an index. -/
def lastFor (ac : Bool) (index : Fin 4) (segs : List Segment) : Option Segment :=
  (segs.filter fun s => decide (s.ac = ac ∧ s.index = index)).getLast?

/-- A slot has the table of the last segment for it, or what it had before. -/
theorem get_store (ac : Bool) (index : Fin 4) (segs : List Segment) (huffval : ℕ → UInt8)
    (tables : HuffTables) :
    (lastFor ac index segs = none → (store segs huffval tables).get ac index =
        tables.get ac index) ∧
      ∀ s ∈ lastFor ac index segs, ∃ table, (store segs huffval tables).get ac index = some table ∧
        table.bits = 0 :: s.bits ∧ table.huffval.length = 256 ∧
          table.huffval.take s.huffval.length = s.huffval := by
  induction segs generalizing huffval tables with
  | nil => exact ⟨fun _ => rfl, fun s hs => absurd hs (Option.not_mem_none s)⟩
  | cons s segs ih =>
    obtain ⟨hnone, hsome⟩ := ih (s.keep huffval) (tables.put s.ac s.index (s.table huffval))
    have hlast : lastFor ac index (s :: segs) = (lastFor ac index segs).or
        (if s.ac = ac ∧ s.index = index then some s else none) := by
      unfold lastFor
      rw [List.filter_cons]
      split_ifs with h h' h'
      · rw [List.getLast?_cons]
        cases (segs.filter fun s => decide (s.ac = ac ∧ s.index = index)).getLast? <;> rfl
      · exact absurd (of_decide_eq_true h) h'
      · exact absurd (decide_eq_true h') h
      · rw [Option.or_none]
    rw [hlast, store]
    cases hrest : lastFor ac index segs with
    | some t =>
      rw [Option.some_or]
      exact ⟨fun h => absurd h (Option.some_ne_none t), fun t' ht' => hsome t' (hrest ▸ ht')⟩
    | none =>
      rw [Option.none_or]
      split_ifs with h
      · obtain ⟨rfl, rfl⟩ := h
        refine ⟨fun h => absurd h (by simp), fun t ht => ?_⟩
        obtain rfl : s = t := by simpa using ht
        obtain ⟨hlength, htake⟩ := s.take_table huffval
        exact ⟨_, (hnone hrest).trans (HuffTables.get_put_self _ _ _ _), rfl, hlength, htake⟩
      · refine ⟨fun _ => (hnone hrest).trans (HuffTables.get_put_of_ne h _ _), fun t ht => ?_⟩
        exact absurd ht (Option.not_mem_none t)

/-! ### What the loader accepts -/

section Bytes

variable (dht : ℕ → UInt8)

theorem length_bytes (pos n : ℕ) : (bytes dht pos n).length = n := by
  rw [bytes, List.length_map, List.length_range]

theorem bytes_add (pos m n : ℕ) :
    bytes dht pos (m + n) = bytes dht pos m ++ bytes dht (pos + m) n := by
  unfold bytes
  rw [List.range_add, List.map_append, List.map_map]
  exact congrArg _ (List.map_congr_left fun k _ => congrArg dht (Nat.add_assoc pos m k).symm)

theorem getElem?_bytes {n i : ℕ} (pos : ℕ) (hi : i < n) :
    (bytes dht pos n)[i]? = some (dht (pos + i)) := by
  rw [bytes, List.getElem?_map, List.getElem?_range hi, Option.map_some]

theorem bytes_congr {dht dht' : ℕ → UInt8} {pos n : ℕ}
    (h : ∀ k < pos + n, dht k = dht' k) : bytes dht pos n = bytes dht' pos n :=
  List.map_congr_left fun _ hk => h _ (Nat.add_lt_add_left (List.mem_range.mp hk) pos)

/-- The bytes of a part are a part of the bytes. -/
theorem bytes_eq_append {pos n : ℕ} {front rest : List UInt8}
    (h : bytes dht pos n = front ++ rest) :
    n = front.length + rest.length ∧ bytes dht pos front.length = front ∧
      bytes dht (pos + front.length) rest.length = rest := by
  have hn : n = front.length + rest.length := by
    rw [← List.length_append, ← h, length_bytes]
  rw [hn, bytes_add] at h
  exact ⟨hn, List.append_inj h (length_bytes dht _ _)⟩

end Bytes

section Segments

variable {dht : ℕ → UInt8} {length pos : ℕ} {huffval : ℕ → UInt8} {tables : HuffTables}

/-- A segment is loaded in one pass. -/
theorem segments_encode (huffval : ℕ → UInt8) (tables : HuffTables) (fuel : ℕ) {s : Segment}
    {rest : List UInt8} (h : bytes dht pos length = s.encode ++ rest) :
    segments dht (fuel + 1) length pos huffval tables =
        segments dht fuel rest.length (pos + s.encode.length) (s.keep huffval)
          (tables.put s.ac s.index (s.table huffval)) ∧
      bytes dht (pos + s.encode.length) rest.length = rest := by
  obtain ⟨hlength, hencode, hrest⟩ := bytes_eq_append dht h
  refine ⟨?_, hrest⟩
  obtain ⟨-, htag, hbody⟩ := bytes_eq_append dht
    (show bytes dht pos s.encode.length = [s.tag] ++ (s.bits ++ s.huffval) from hencode)
  obtain ⟨-, hbits, hhuffval⟩ := bytes_eq_append dht hbody
  rw [s.length_encode] at hlength ⊢
  rw [s.length_bits] at hbits hhuffval
  have hpos : dht pos = s.tag := List.singleton_inj.mp htag
  have hkeep : (fun i => if i < s.huffval.length then dht (pos + 17 + i) else huffval i) =
      s.keep huffval := by
    funext i
    rw [Segment.keep]
    by_cases hi : i < s.huffval.length
    · have hget : s.huffval[i]? = some (dht (pos + 17 + i)) :=
        (congrArg (·[i]?) hhuffval).symm.trans (getElem?_bytes dht _ hi)
      rw [if_pos hi, hget, Option.getD_some]
    · rw [if_neg hi, List.getElem?_eq_none (not_lt.mp hi), Option.getD_none]
  obtain ⟨hac, hindex⟩ := s.tag_spec
  have hle := s.huffval_le
  have hcount : ¬(256 < s.huffval.length ∨ length - 17 < s.huffval.length) := by omega
  have hdone : length - 17 - s.huffval.length = rest.length := by omega
  have hnext : pos + 17 + s.huffval.length = pos + (17 + s.huffval.length) := by omega
  rw [segments, if_pos (by omega)]
  dsimp only
  rw [show bytes dht (pos + 1) 16 = s.bits from hbits, ← s.length_huffval, if_neg hcount, hkeep,
    hpos, hac]
  simp only [hindex]
  rw [dif_pos s.index.isLt, hdone, hnext]
  rfl

/-- When the loader accepts, a pass has loaded a segment. -/
theorem exists_encode_of_segments {fuel : ℕ} (h16 : 16 < length)
    (h : (segments dht (fuel + 1) length pos huffval tables).2 = 0) :
    ∃ (s : Segment) (rest : List UInt8), bytes dht pos length = s.encode ++ rest := by
  rw [segments, if_pos h16] at h
  dsimp only at h
  set ac := decide ((dht pos).toNat &&& 0x10 ≠ 0) with hac
  set bits := bytes dht (pos + 1) 16 with hbits
  set count := (bits.map UInt8.toNat).sum with hcount
  have hle : ¬(256 < count ∨ length - 17 < count) := by
    intro hle
    rw [if_pos hle] at h
    exact absurd h (show (-1 : ℤ) ≠ 0 by decide)
  rw [if_neg hle] at h
  have hindex : (if ac then (dht pos).toNat - 0x10 else (dht pos).toNat) < 4 := by
    by_contra hindex
    rw [dif_neg hindex] at h
    exact absurd h (show (-1 : ℤ) ≠ 0 by decide)
  rw [not_or, not_lt, not_lt] at hle
  let s : Segment := ⟨ac, ⟨_, hindex⟩, bits, bytes dht (pos + 17) count, length_bytes dht _ _,
    length_bytes dht _ _, (length_bytes dht _ _).trans_le hle.1⟩
  have hencode : bytes dht pos (17 + count) = s.encode := by
    have htag : s.tag = dht pos := Segment.ofNat_tag rfl
    have hfront : bytes dht pos 17 = dht pos :: bits := bytes_add dht pos 1 16
    rw [Segment.encode, htag, bytes_add, hfront, List.cons_append]
  refine ⟨s, bytes dht (pos + (17 + count)) (length - (17 + count)), ?_⟩
  rw [← hencode, ← bytes_add, Nat.add_sub_cancel' (by omega)]

/-- Segments are loaded one after the other. -/
theorem segments_flatten {fuel : ℕ} {segs : List Segment} (hfuel : length ≤ fuel)
    (h : bytes dht pos length = (segs.map Segment.encode).flatten) :
    segments dht fuel length pos huffval tables = (store segs huffval tables, 0) := by
  induction segs generalizing fuel length pos huffval tables with
  | nil =>
    have hlength : length = 0 := by
      rw [← length_bytes dht pos length, h]
      rfl
    subst hlength
    cases fuel <;> rfl
  | cons s segs ih =>
    rw [List.map_cons, List.flatten_cons] at h
    have hlength := (bytes_eq_append dht h).1
    rw [s.length_encode] at hlength
    obtain ⟨fuel, rfl⟩ : ∃ k, fuel = k + 1 := Nat.exists_eq_succ_of_ne_zero (by omega)
    obtain ⟨hpass, hrest⟩ := segments_encode huffval tables fuel h
    rw [hpass, ih (by omega) hrest, store]

/-- What the loader accepts is segments. -/
theorem exists_segments {fuel : ℕ} (hfuel : length ≤ fuel)
    (h : (segments dht fuel length pos huffval tables).2 = 0) :
    ∃ segs : List Segment, bytes dht pos length = (segs.map Segment.encode).flatten := by
  induction fuel generalizing length pos huffval tables with
  | zero => exact ⟨[], by rw [Nat.le_zero.mp hfuel]; rfl⟩
  | succ fuel ih =>
    by_cases h16 : 16 < length
    · obtain ⟨s, rest, hs⟩ := exists_encode_of_segments h16 h
      have hlength := (bytes_eq_append dht hs).1
      rw [s.length_encode] at hlength
      obtain ⟨hpass, hrest⟩ := segments_encode huffval tables fuel hs
      rw [hpass] at h
      obtain ⟨segs, hsegs⟩ := ih (by omega) h
      exact ⟨s :: segs, by rw [hs, ← hrest, hsegs]; rfl⟩
    · rw [segments, if_neg h16] at h
      have hlength : length = 0 := by
        by_contra hlength
        rw [if_pos hlength] at h
        exact absurd h (show (-1 : ℤ) ≠ 0 by decide)
      exact ⟨[], by rw [hlength]; rfl⟩

/-- The loop reads no byte behind its contents. -/
theorem segments_congr {dht' : ℕ → UInt8} (fuel : ℕ) (h : ∀ k < pos + length, dht k = dht' k) :
    segments dht fuel length pos huffval tables = segments dht' fuel length pos huffval tables := by
  induction fuel generalizing length pos huffval tables with
  | zero => rfl
  | succ fuel ih =>
    by_cases h16 : 16 < length
    · have hpos : dht pos = dht' pos := h pos (by omega)
      have hbits : bytes dht (pos + 1) 16 = bytes dht' (pos + 1) 16 :=
        bytes_congr fun k hk => h k (by omega)
      rw [segments, segments, if_pos h16, if_pos h16, hpos, hbits]
      dsimp only
      set count := ((bytes dht' (pos + 1) 16).map UInt8.toNat).sum
      by_cases hle : 256 < count ∨ length - 17 < count
      · rw [if_pos hle, if_pos hle]
      rw [if_neg hle, if_neg hle]
      rw [not_or, not_lt, not_lt] at hle
      have hkeep : (fun i => if i < count then dht (pos + 17 + i) else huffval i) =
          fun i => if i < count then dht' (pos + 17 + i) else huffval i := by
        funext i
        by_cases hi : i < count
        · rw [if_pos hi, if_pos hi, h _ (by omega)]
        · rw [if_neg hi, if_neg hi]
      rw [hkeep]
      refine dite_congr rfl (fun _ => ih fun k hk => h k (by omega)) fun _ => rfl
    · rw [segments, segments, if_neg h16, if_neg h16]

end Segments

theorem lengthField_le (dht : ℕ → UInt8) : lengthField dht < 2 ^ 16 := by
  have h2 := (dht 2).toNat_lt
  have h3 := (dht 3).toNat_lt
  unfold lengthField
  omega

theorem dhtLength_of_le {dht : ℕ → UInt8} (h : 2 ≤ lengthField dht) :
    dhtLength dht = lengthField dht - 2 := by
  have hlt := lengthField_le dht
  unfold dhtLength
  omega

/-- The loader accepts a table, whose length field counts itself, exactly when its contents are
segments, and every slot then has the last segment for it, or what it had before. No byte behind the
contents is read. -/
theorem load_dht (dht memory : ℕ → UInt8) (tables : HuffTables) (h : 2 ≤ lengthField dht) :
    ((myJpegLoadDht dht memory tables).2 = 0 ↔ ∃ segs : List Segment,
      bytes dht 4 (lengthField dht - 2) = (segs.map Segment.encode).flatten) ∧
    (∀ segs : List Segment,
      bytes dht 4 (lengthField dht - 2) = (segs.map Segment.encode).flatten →
      ∀ (ac : Bool) (index : Fin 4),
        (lastFor ac index segs = none →
          (myJpegLoadDht dht memory tables).1.get ac index = tables.get ac index) ∧
        ∀ s ∈ lastFor ac index segs, ∃ table,
          (myJpegLoadDht dht memory tables).1.get ac index = some table ∧
            table.bits = 0 :: s.bits ∧ table.huffval.length = 256 ∧
              table.huffval.take s.huffval.length = s.huffval) ∧
    ∀ dht' : ℕ → UInt8, (∀ k < 2 + lengthField dht, dht k = dht' k) →
      myJpegLoadDht dht' memory tables = myJpegLoadDht dht memory tables := by
  have hlength := dhtLength_of_le h
  have hload : ∀ segs : List Segment,
      bytes dht 4 (lengthField dht - 2) = (segs.map Segment.encode).flatten →
        myJpegLoadDht dht memory tables = (store segs memory tables, 0) := by
    intro segs hsegs
    rw [myJpegLoadDht, hlength]
    exact segments_flatten le_rfl hsegs
  refine ⟨⟨fun hok => ?_, fun ⟨segs, hsegs⟩ => by rw [hload segs hsegs]⟩, ?_, ?_⟩
  · rw [myJpegLoadDht, hlength] at hok
    exact exists_segments le_rfl hok
  · intro segs hsegs ac index
    rw [hload segs hsegs]
    exact get_store ac index segs memory tables
  · intro dht' hsame
    have hfield : lengthField dht' = lengthField dht := by
      rw [lengthField, lengthField, hsame 2 (by omega), hsame 3 (by omega)]
    have hlength' : dhtLength dht' = lengthField dht - 2 :=
      by rw [dhtLength_of_le (h.trans_eq hfield.symm), hfield]
    rw [myJpegLoadDht, myJpegLoadDht, hlength, hlength']
    exact (segments_congr _ fun k hk => hsame k (by omega)).symm

/-- The tables that `processimage` loads are segments. -/
theorem load_dht_odml :
    2 ≤ lengthField (myJpegOdmlDht.getD · 0) ∧
      ∃ segs : List Segment,
        bytes (myJpegOdmlDht.getD · 0) 4 (lengthField (myJpegOdmlDht.getD · 0) - 2) =
          (segs.map Segment.encode).flatten := by
  have hfield : 2 ≤ lengthField (myJpegOdmlDht.getD · 0) := by decide +kernel
  have hok : (myJpegLoadDht (myJpegOdmlDht.getD · 0) (fun _ => 0) {}).2 = 0 := by decide +kernel
  exact ⟨hfield, (load_dht _ _ _ hfield).1.mp hok⟩

end LegoCar
