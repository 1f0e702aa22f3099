import Mathlib

/-!
# Layout of C structs

A compiler that aligns naturally places the members of a struct one after the other, each at the
next multiple of its alignment, and pads the whole to a multiple of its own. `place` computes the
offsets, and `image` lays the values of the members out at them. A member is read back at its
offset (`slice_image`).
-/

namespace StructLayout

/-- What a type takes in memory. -/
structure Layout where
  size : ℕ
  align : ℕ
deriving DecidableEq

/-- A type of `n` bytes with natural alignment. -/
def scalar (n : ℕ) : Layout := ⟨n, n⟩

/-- An array of `n` elements. -/
def array (elem : Layout) (n : ℕ) : Layout := ⟨n * elem.size, elem.align⟩

/-- The next multiple of an alignment. -/
def alignUp (off align : ℕ) : ℕ := off + (align - off % align) % align

/-- A member of a struct. -/
structure Member (ι : Type*) where
  name : ι
  layout : Layout

variable {ι : Type*}

/-- The members from an offset on, with their offsets. -/
def place : List (Member ι) → ℕ → List (Member ι × ℕ)
  | [], _ => []
  | m :: ms, off =>
    let here := alignUp off m.layout.align
    (m, here) :: place ms (here + m.layout.size)

/-- The end of the last member, when the first is placed from an offset on. -/
def endOf : List (Member ι) → ℕ → ℕ
  | [], off => off
  | m :: ms, off => endOf ms (alignUp off m.layout.align + m.layout.size)

/-- The strictest alignment. -/
def maxAlign (ls : List Layout) : ℕ := (ls.map Layout.align).foldr max 1

/-- A struct. -/
def struct (ms : List (Member ι)) : Layout :=
  let align := maxAlign (ms.map Member.layout)
  ⟨alignUp (endOf ms 0) align, align⟩

/-- A union, whose members all begin at offset zero. -/
def union (ls : List Layout) : Layout :=
  ⟨alignUp ((ls.map Layout.size).foldr max 0) (maxAlign ls), maxAlign ls⟩

/-- The offset of the first member with a name. -/
def offsetOf [DecidableEq ι] (ms : List (Member ι)) (name : ι) : ℕ :=
  (((place ms 0).find? fun p => p.1.name = name).map Prod.snd).getD 0

/-- The bytes of a struct from an offset on, where padding is zero. -/
def image (val : ι → List UInt8) : List (Member ι) → ℕ → List UInt8
  | [], _ => []
  | m :: ms, off =>
    let here := alignUp off m.layout.align
    List.replicate (here - off) 0 ++ val m.name ++ image val ms (here + m.layout.size)

theorem le_alignUp (off align : ℕ) : off ≤ alignUp off align := Nat.le_add_right _ _

/-- The members take at least their own sizes. -/
theorem add_sum_le_endOf (ms : List (Member ι)) (off : ℕ) :
    off + (ms.map fun m => m.layout.size).sum ≤ endOf ms off := by
  induction ms generalizing off with
  | nil => exact le_rfl
  | cons m ms ih =>
    have hoff := le_alignUp off m.layout.align
    have htail := ih (alignUp off m.layout.align + m.layout.size)
    rw [List.map_cons, List.sum_cons, endOf]
    omega

/-- Members are placed after the offset, and within the struct. -/
theorem bounds_of_mem_place {ms : List (Member ι)} {off : ℕ} {p : Member ι × ℕ}
    (h : p ∈ place ms off) : off ≤ p.2 ∧ p.2 + p.1.layout.size ≤ endOf ms off := by
  induction ms generalizing off with
  | nil => cases h
  | cons m ms ih =>
    have hoff := le_alignUp off m.layout.align
    rcases List.mem_cons.mp h with rfl | htail
    · exact ⟨hoff, le_trans (Nat.le_add_right _ _) (add_sum_le_endOf ms _)⟩
    · obtain ⟨hlow, hhigh⟩ := ih htail
      exact ⟨by omega, hhigh⟩

/-- The image of a struct ends where its last member does. -/
theorem length_image {val : ι → List UInt8} {ms : List (Member ι)}
    (hval : ∀ m ∈ ms, (val m.name).length = m.layout.size) (off : ℕ) :
    off + (image val ms off).length = endOf ms off := by
  induction ms generalizing off with
  | nil => rfl
  | cons m ms ih =>
    have hhead := hval m List.mem_cons_self
    have htail := ih (fun m' hm' => hval m' (List.mem_cons_of_mem m hm'))
      (alignUp off m.layout.align + m.layout.size)
    have hoff := le_alignUp off m.layout.align
    rw [image, endOf, ← htail]
    simp only [List.length_append, List.length_replicate, hhead]
    omega

/-- Without padding, the image is the values one after the other. -/
theorem image_of_packed {val : ι → List UInt8} {ms : List (Member ι)} {off : ℕ}
    (h : endOf ms off = off + (ms.map fun m => m.layout.size).sum) :
    image val ms off = ms.flatMap fun m => val m.name := by
  induction ms generalizing off with
  | nil => rfl
  | cons m ms ih =>
    have hoff := le_alignUp off m.layout.align
    have hend := add_sum_le_endOf ms (alignUp off m.layout.align + m.layout.size)
    rw [endOf, List.map_cons, List.sum_cons] at h
    have haligned : alignUp off m.layout.align = off := by omega
    rw [haligned] at h
    rw [image, haligned, Nat.sub_self, List.replicate_zero, List.nil_append, ih (by omega),
      List.flatMap_cons]

/-- A member is read back at its offset. -/
theorem slice_image {val : ι → List UInt8} {ms : List (Member ι)}
    (hval : ∀ m ∈ ms, (val m.name).length = m.layout.size) {off : ℕ} {p : Member ι × ℕ}
    (h : p ∈ place ms off) :
    ((image val ms off).drop (p.2 - off)).take p.1.layout.size = val p.1.name := by
  induction ms generalizing off with
  | nil => cases h
  | cons m ms ih =>
    have hhead := hval m List.mem_cons_self
    have hoff := le_alignUp off m.layout.align
    rw [image]
    rcases List.mem_cons.mp h with rfl | htail
    · -- the padding is dropped
      rw [List.append_assoc, List.drop_left' List.length_replicate, List.take_left' hhead]
    · -- the padding and the first member are dropped
      have hlow := (bounds_of_mem_place htail).1
      have hskip : p.2 - off = (List.replicate (alignUp off m.layout.align - off) (0 : UInt8) ++
          val m.name).length + (p.2 - (alignUp off m.layout.align + m.layout.size)) := by
        simp only [List.length_append, List.length_replicate, hhead]
        omega
      rw [hskip, List.drop_length_add_append]
      exact ih (fun m' hm' => hval m' (List.mem_cons_of_mem m hm')) htail

/-! ### Several members at once -/

/-- The members are placed in their order. -/
theorem map_fst_place (ms : List (Member ι)) (off : ℕ) : (place ms off).map Prod.fst = ms := by
  induction ms generalizing off with
  | nil => rfl
  | cons m ms ih => rw [place, List.map_cons, ih]

/-- All members are read back. -/
theorem map_slice_image {val : ι → List UInt8} {ms : List (Member ι)}
    (hval : ∀ m ∈ ms, (val m.name).length = m.layout.size) :
    (place ms 0).map (fun p => (p.1.name, ((image val ms 0).drop p.2).take p.1.layout.size)) =
      ms.map fun m => (m.name, val m.name) := by
  have hslice : ∀ p ∈ place ms 0,
      (p.1.name, ((image val ms 0).drop p.2).take p.1.layout.size) = (p.1.name, val p.1.name) :=
    fun p hp => congrArg (Prod.mk p.1.name) (slice_image hval hp)
  calc _ = (place ms 0).map fun p => (p.1.name, val p.1.name) := List.map_congr_left hslice
    _ = ((place ms 0).map Prod.fst).map fun m => (m.name, val m.name) := by rw [List.map_map]; rfl
    _ = ms.map fun m => (m.name, val m.name) := by rw [map_fst_place]

variable {κ : Type*}

/-- The member with another name. -/
def Member.rename (f : ι → κ) (m : Member ι) : Member κ := ⟨f m.name, m.layout⟩

/-- The names do not matter for the place. -/
theorem place_rename (f : ι → κ) (ms : List (Member ι)) (off : ℕ) :
    place (ms.map (Member.rename f)) off =
      (place ms off).map fun p => (p.1.rename f, p.2) := by
  induction ms generalizing off with
  | nil => rfl
  | cons m ms ih =>
    rw [List.map_cons, place, place, List.map_cons, ih]
    rfl

theorem endOf_rename (f : ι → κ) (ms : List (Member ι)) (off : ℕ) :
    endOf (ms.map (Member.rename f)) off = endOf ms off := by
  induction ms generalizing off with
  | nil => rfl
  | cons m ms ih =>
    rw [List.map_cons, endOf, endOf, ih]
    rfl

end StructLayout
