import Mathlib
import LegoCar.Camera.ImageProc
import LegoCar.Lib.Driven

/-!
# The bounds of the frame buffer

A pass of the row loop writes a row of the array, which is as long as `IMG_WIDTH`, and the loop ends
with the rows of the frame. So a call stays inside the array when its last pass does (`RowsFit`):
the frame is at most as high as the one for which the array was allocated, and has all its rows. The
copy to the bitmap reads as many cells as the globals say, also when there is no array.

`rgb_inBounds_iff` says this for every sequence of calls: all accesses are inside the array
exactly when every call fits (`Fits`). What holds between the calls is that an array has the cells
that were allocated for the dimensions (`Sized`).
-/

namespace LegoCar

/-- An array that is used with dimensions. -/
structure FrameBuffer where
  width : ℤ
  height : ℤ
  size : ℕ

/-- The array that is allocated for an image. Its bytes are counted in 32 bits, so its size modulo
`2 ^ 30`. -/
def FrameBuffer.ofImage (image : JpegImage) : FrameBuffer :=
  ⟨image.image_width, image.image_height, image.image_width * image.image_height % 2 ^ 30⟩

namespace JpegFrame

/-- The number of passes of the row loop when `h` rows are missing: up to the call that delivers the
last one or takes the error exit. -/
def passesFrom : ℕ → List Scanline → ℕ
  | 0, _ => 0
  | _ + 1, [] => 0
  | h + 1, .line _ :: scanlines => passesFrom h scanlines + 1
  | h + 1, .suspended :: scanlines => passesFrom (h + 1) scanlines + 1
  | _ + 1, .error :: _ => 0

/-- The number of passes of the row loop. -/
def passes : JpegFrame → ℕ
  | .started image _ (some _) scanlines => passesFrom image.image_height scanlines
  | _ => 0

/-- The row loop is left when `h` rows are missing. -/
def leavesFrom : ℕ → List Scanline → Bool
  | 0, _ => true
  | _ + 1, [] => false
  | h + 1, .line _ :: scanlines => leavesFrom h scanlines
  | h + 1, .suspended :: scanlines => leavesFrom (h + 1) scanlines
  | _ + 1, .error :: _ => true

/-- The row loop is left, or not entered. -/
def leaves : JpegFrame → Bool
  | .started image _ (some _) scanlines => leavesFrom image.image_height scanlines
  | _ => true

/-- The number of pixels of a row. -/
def width : JpegFrame → ℕ
  | .started image _ _ _ => image.image_width
  | .failed => 0

end JpegFrame

namespace ImageProc

/-! ### When a call fits -/

/-- The array that is there. -/
def current (g : ImageProc) : FrameBuffer := ⟨g.IMG_WIDTH, g.IMG_HEIGHT, g.allocated⟩

/-- The array that a call uses: the one that is there, or that of the frame, if `malloc` gives it. A
frame that fails finds what is there. -/
def buffer (g : ImageProc) : JpegFrame → FrameBuffer
  | .started image malloc _ _ =>
    if g.rgb.isSome then g.current
    else if malloc.isSome then FrameBuffer.ofImage image
    else { FrameBuffer.ofImage image with size := 0 }
  | .failed => g.current

/-- Passes over rows of which `columns` cells are written stay inside the array. -/
def RowsFit (b : FrameBuffer) (passes columns : ℕ) : Prop :=
  passes = 0 ∨ (passes - 1) * b.width + min b.width columns ≤ b.size

/-- The copy of the array stays inside it. -/
def CopyFits (b : FrameBuffer) : Bitmap → Prop
  | .bitmap info _ =>
    info.format = formatRgba8888 → info.width.toNat = b.width % 2 ^ 32 →
      info.height.toNat = b.height % 2 ^ 32 → int32 (b.width * b.height) ≤ b.size
  | _ => True

/-- A call stays inside the array. -/
def Fits (g : ImageProc) : Call → Prop
  | .pixeltobmp frame bmp =>
    RowsFit (g.buffer frame) frame.passes frame.width ∧
      (frame.leaves = true → CopyFits (g.buffer frame) bmp)
  | .freeCameraMemory => True

/-- An array is that of an image. -/
def Sized (g : ImageProc) : Prop :=
  g.rgb.isSome → ∃ image : JpegImage, g.current = FrameBuffer.ofImage image

/-! ### The rows -/

section Rows

variable {image : JpegImage} {W w n : ℕ} {y : ℤ}

theorem int32_of_le {z : ℤ} (h₀ : 0 ≤ z) (h : z < 2 ^ 31) : int32 z = z :=
  Int.bmod_eq_of_le_mul_two (by omega) (by omega)

/-- `malloc` is asked for four bytes for each pixel, counted in 32 bits. -/
theorem rgbBytes_div (w h : ℕ) : rgbBytes w h / 4 = w * h % 2 ^ 30 := by
  rw [rgbBytes, int32, ← Nat.cast_mul, Int.bmod_def]
  split_ifs <;> omega

theorem columns_eq (W w : ℕ) : columns W (w * 3) = List.range (min W w) := by
  rw [columns, Int.toNat_natCast]
  rcases le_total W w with hle | hle
  · rw [min_eq_left hle, List.takeWhile_eq_self_iff]
    intro xx hxx
    have hlt := List.mem_range.mp hxx
    exact decide_eq_true (by omega)
  · obtain ⟨k, rfl⟩ := Nat.exists_eq_add_of_le hle
    have hpos : ∀ xx ∈ List.range w, decide (3 * xx < w * 3) = true := fun xx hxx =>
      decide_eq_true (by have hlt := List.mem_range.mp hxx; omega)
    have hrest : ((List.range k).map (w + ·)).takeWhile (fun xx => 3 * xx < w * 3) = [] := by
      refine List.takeWhile_eq_nil_iff.mpr fun h => ?_
      simp only [List.get_eq_getElem, List.getElem_map, decide_eq_true_eq]
      omega
    rw [min_eq_right hle, List.range_add, List.takeWhile_append_of_pos hpos, hrest,
      List.append_nil]

/-- A row stays inside the array exactly when its end does. -/
theorem rowWrites_inside_iff (hW : 0 < W) (hw : 0 < w) (hW' : W ≤ 65500) (hy : 0 ≤ y)
    (hy' : y ≤ 2 ^ 30 + 65500) (row : ℕ → UInt8) :
    (∀ p ∈ rowWrites W (w * 3) y row, 0 ≤ p.1 ∧ p.1 < n) ↔ y + min W w ≤ n := by
  have hexact : ∀ xx < min W w, int32 (y + xx) = y + xx := fun xx hxx =>
    int32_of_le (by omega) (by omega)
  rw [rowWrites, columns_eq, List.forall_mem_map]
  constructor
  · intro h
    have hlast := (h (min W w - 1) (List.mem_range.mpr (by omega))).2
    rw [hexact _ (by omega)] at hlast
    omega
  · intro h xx hxx
    have hlt := List.mem_range.mp hxx
    rw [hexact xx hlt]
    omega

/-- The pass that comes next fits, and those after it fit from the next row on. -/
theorem rowsFit_succ_iff {p c : ℕ} (hW : 0 < W) :
    (y + c ≤ n ∧ (p = 0 ∨ y + W + ((p : ℤ) - 1) * W + c ≤ n)) ↔ y + (p : ℤ) * W + c ≤ n := by
  rcases Nat.eq_zero_or_pos p with rfl | hp
  · simp
  · have hle : (0 : ℤ) ≤ ((p : ℤ) - 1) * W := mul_nonneg (by omega) (Nat.cast_nonneg _)
    have hmul : ((p : ℤ) - 1) * W = p * W - W := by ring
    constructor
    · rintro ⟨-, rfl | h⟩ <;> omega
    · intro h
      exact ⟨by omega, .inr (by omega)⟩

/-- **The row loop** stays inside an array exactly when its last pass does. -/
theorem rowLoop_inside_iff (hW : 0 < W) (hW' : W ≤ 65500) (hn : n ≤ 2 ^ 30)
    (scanlines : List Scanline) {missing output_scanline : ℕ}
    (hmissing : output_scanline + missing = image.image_height) (hy : 0 ≤ y)
    (hy' : y ≤ 2 ^ 30 + 65500) (jpegbuffer : ℕ → UInt8) :
    (∀ p ∈ (rowLoop image W (image.image_width * 3) scanlines output_scanline y jpegbuffer).1,
        0 ≤ p.1 ∧ p.1 < n) ↔
      JpegFrame.passesFrom missing scanlines = 0 ∨
        y + ((JpegFrame.passesFrom missing scanlines : ℤ) - 1) * W +
          min W image.image_width ≤ n := by
  have hw := image.width_pos
  induction scanlines generalizing missing output_scanline y jpegbuffer with
  | nil => cases missing <;> simp [rowLoop, JpegFrame.passesFrom]
  | cons call scanlines ih =>
    cases missing with
    | zero =>
      have hguard : ¬output_scanline < image.image_height := by omega
      simp [rowLoop, JpegFrame.passesFrom, hguard]
    | succ missing =>
      have hguard : output_scanline < image.image_height := by omega
      -- a pass, and the passes after it
      have hpass : ∀ (row : ℕ → UInt8) (scanline missing' : ℕ),
          scanline + missing' = image.image_height →
          ((∀ p ∈ rowWrites W (image.image_width * 3) y row ++
                (rowLoop image W (image.image_width * 3) scanlines scanline (int32 (y + W)) row).1,
              0 ≤ p.1 ∧ p.1 < n) ↔
            y + (JpegFrame.passesFrom missing' scanlines : ℤ) * W +
              min W image.image_width ≤ n) := by
        intro row scanline missing' hmissing'
        rw [List.forall_mem_append, rowWrites_inside_iff hW hw hW' hy hy' row,
          ← rowsFit_succ_iff hW]
        refine and_congr_right fun hfits => ?_
        have hnext : int32 (y + W) = y + W := int32_of_le (by omega) (by omega)
        rw [hnext]
        exact ih hmissing' (by omega) (by omega) row
      cases call with
      | line row =>
        simpa [rowLoop, JpegFrame.passesFrom, hguard] using hpass row _ missing (by omega)
      | suspended =>
        simpa [rowLoop, JpegFrame.passesFrom, hguard] using
          hpass jpegbuffer _ (missing + 1) (by omega)
      | error => simp [rowLoop, JpegFrame.passesFrom, hguard]

theorem rowLoop_leaves {width : ℤ} {row_stride : ℕ} (scanlines : List Scanline)
    {missing output_scanline : ℕ} (hmissing : output_scanline + missing = image.image_height)
    (jpegbuffer : ℕ → UInt8) :
    (rowLoop image width row_stride scanlines output_scanline y jpegbuffer).2 =
      JpegFrame.leavesFrom missing scanlines := by
  induction scanlines generalizing missing output_scanline y jpegbuffer with
  | nil =>
    cases missing with
    | zero => simp [rowLoop, JpegFrame.leavesFrom, ← hmissing]
    | succ missing => simp [rowLoop, JpegFrame.leavesFrom, ← hmissing]
  | cons call scanlines ih =>
    cases missing with
    | zero =>
      have hguard : ¬output_scanline < image.image_height := by omega
      simp [rowLoop, JpegFrame.leavesFrom, hguard]
    | succ missing =>
      have hguard : output_scanline < image.image_height := by omega
      cases call with
      | line row =>
        simpa [rowLoop, JpegFrame.leavesFrom, hguard] using ih (by omega) row
      | suspended =>
        simpa [rowLoop, JpegFrame.leavesFrom, hguard] using ih (by omega) jpegbuffer
      | error => simp [rowLoop, JpegFrame.leavesFrom, hguard]

end Rows

/-! ### `processimage` -/

section Process

variable {g : ImageProc}

theorem length_foldl_store (writes : List (ℤ × UInt32)) (cells : List UInt32) :
    (writes.foldl store cells).length = cells.length := by
  induction writes generalizing cells with
  | nil => rfl
  | cons p writes ih =>
    rw [List.foldl_cons, ih, store]
    split_ifs
    · exact List.length_set
    · rfl

/-- What is written does not change the array otherwise. -/
theorem current_store (g : ImageProc) (writes : List (ℤ × UInt32)) :
    ({ g with rgb := g.rgb.map fun cells => writes.foldl store cells } : ImageProc).current =
      g.current := by
  have hlength : (List.length ∘ fun cells => writes.foldl store cells) = List.length :=
    funext (length_foldl_store writes)
  rw [current, current, allocated, allocated, Option.map_map, hlength]

theorem current_allocate (g : ImageProc) (image : JpegImage) (malloc : Option (ℕ → UInt32))
    (jpegbuffer : Option (ℕ → UInt8)) (scanlines : List Scanline) :
    (g.allocate image malloc).current = g.buffer (.started image malloc jpegbuffer scanlines) := by
  obtain ⟨width, height, rgb⟩ := g
  cases rgb with
  | some cells => rfl
  | none =>
    cases malloc with
    | none => rfl
    | some memory =>
      simp [allocate, current, buffer, FrameBuffer.ofImage, allocated, rgbBytes_div]

/-- The globals after `processimage` are those of the array that the call uses. -/
theorem current_processimage (g : ImageProc) (frame : JpegFrame) :
    (g.processimage frame).1.current = g.buffer frame := by
  cases frame with
  | failed => rfl
  | started image malloc jpegbuffer scanlines =>
    rw [← g.current_allocate image malloc jpegbuffer scanlines]
    cases jpegbuffer with
    | none => rfl
    | some row => exact current_store _ _

theorem sized_allocate (h : g.Sized) (image : JpegImage) (malloc : Option (ℕ → UInt32)) :
    (g.allocate image malloc).Sized := by
  intro hsome
  rw [g.current_allocate image malloc none []]
  by_cases hrgb : g.rgb.isSome
  · rw [buffer, if_pos hrgb]
    exact h hrgb
  · have hnone : g.rgb = none := Option.not_isSome_iff_eq_none.mp hrgb
    have hmalloc : malloc.isSome := by
      rw [allocate, hnone] at hsome
      simpa using hsome
    rw [buffer, if_neg hrgb, if_pos hmalloc]
    exact ⟨image, rfl⟩

theorem sized_processimage (h : g.Sized) (frame : JpegFrame) : (g.processimage frame).1.Sized := by
  cases frame with
  | failed => exact h
  | started image malloc jpegbuffer scanlines =>
    have hallocate := sized_allocate h image malloc
    cases jpegbuffer with
    | none => exact hallocate
    | some row =>
      intro hsome
      rw [current_processimage, ← g.current_allocate]
      refine hallocate ?_
      simpa [processimage] using hsome

/-- The array that a started frame uses has the width of an image, and is not longer than the bytes
can be counted. -/
theorem buffer_started (h : g.Sized) (image : JpegImage) (malloc : Option (ℕ → UInt32))
    (jpegbuffer : Option (ℕ → UInt8)) (scanlines : List Scanline) :
    ∃ image' : JpegImage, (g.buffer (.started image malloc jpegbuffer scanlines)).width =
        image'.image_width ∧
      (g.buffer (.started image malloc jpegbuffer scanlines)).size ≤ 2 ^ 30 := by
  have hsize : ∀ image : JpegImage, (FrameBuffer.ofImage image).size ≤ 2 ^ 30 := fun image =>
    (Nat.mod_lt _ (by norm_num)).le
  rw [buffer]
  split_ifs with hrgb hmalloc
  · obtain ⟨image', himage⟩ := h hrgb
    rw [himage]
    exact ⟨image', rfl, hsize image'⟩
  · exact ⟨image, rfl, hsize image⟩
  · exact ⟨image, rfl, Nat.zero_le _⟩

theorem processimage_leaves (g : ImageProc) (frame : JpegFrame) :
    (g.processimage frame).2.2 = frame.leaves := by
  cases frame with
  | failed => rfl
  | started image malloc jpegbuffer scanlines =>
    cases jpegbuffer with
    | none => rfl
    | some row => exact rowLoop_leaves scanlines (Nat.zero_add _) row

/-- **The writes of a frame** are inside the array exactly when its last row is. -/
theorem processimage_inBounds_iff (h : g.Sized) (frame : JpegFrame) :
    (∀ a ∈ (g.processimage frame).2.1, a.InBounds) ↔
      RowsFit (g.buffer frame) frame.passes frame.width := by
  cases frame with
  | failed => simp [processimage, RowsFit, JpegFrame.passes]
  | started image malloc jpegbuffer scanlines =>
    cases jpegbuffer with
    | none => simp [processimage, RowsFit, JpegFrame.passes]
    | some row =>
      obtain ⟨image', hwidth, hsize⟩ := buffer_started h image malloc (some row) scanlines
      have hcurrent := g.current_allocate image malloc (some row) scanlines
      have hW : (g.allocate image malloc).IMG_WIDTH = image'.image_width :=
        (congrArg FrameBuffer.width hcurrent).trans hwidth
      have hn : (g.allocate image malloc).allocated =
          (g.buffer (.started image malloc (some row) scanlines)).size :=
        congrArg FrameBuffer.size hcurrent
      have hloop := rowLoop_inside_iff image'.width_pos image'.width_le hsize scanlines
        (Nat.zero_add image.image_height) le_rfl (by norm_num) row
      rw [zero_add] at hloop
      simp only [processimage, image.three_components, hW, hn, List.forall_mem_map]
      rw [RowsFit, hwidth]
      exact_mod_cast hloop

end Process

/-! ### The calls -/

section Calls

variable {g g' : ImageProc} {call : Call}

/-- The copy reads the cells from the beginning on. -/
theorem copyPixels_inBounds_iff (bmp : Bitmap) (g : ImageProc) :
    (∀ i < (g.copyPixels bmp).1, i < g.allocated) ↔ CopyFits g.current bmp := by
  cases bmp with
  | null => simp [copyPixels, CopyFits]
  | noInfo error => simp [copyPixels, CopyFits]
  | bitmap info lockPixels =>
    have hnothing : ∀ i < 0, i < g.allocated := fun i hi => absurd hi (Nat.not_lt_zero i)
    by_cases hformat : info.format = formatRgba8888
    · by_cases hsize : g.SameSize info
      · have hcount : (∀ i < (int32 (g.IMG_WIDTH * g.IMG_HEIGHT)).toNat, i < g.allocated) ↔
            int32 (g.IMG_WIDTH * g.IMG_HEIGHT) ≤ g.allocated :=
          forall_lt_iff_le.trans Int.toNat_le
        rw [copyPixels, if_neg (not_not.mpr hformat), if_neg (not_not.mpr hsize)]
        exact hcount.trans ⟨fun hle _ _ _ => hle, fun h => h hformat hsize.1 hsize.2⟩
      · rw [copyPixels, if_neg (not_not.mpr hformat), if_pos hsize]
        exact iff_of_true hnothing fun _ hwidth hheight => absurd ⟨hwidth, hheight⟩ hsize
    · rw [copyPixels, if_pos hformat]
      exact iff_of_true hnothing fun h => absurd h hformat

/-- **A call** stays inside the array exactly when it fits. -/
theorem step_inBounds_iff (h : g.Sized) (call : Call) :
    (∀ a ∈ (step call (some g)).2, a.InBounds) ↔ g.Fits call := by
  cases call with
  | freeCameraMemory => simp [step, Fits]
  | pixeltobmp frame bmp =>
    have hwrites := processimage_inBounds_iff h frame
    have hcopy := copyPixels_inBounds_iff bmp (g.processimage frame).1
    rw [current_processimage] at hcopy
    rw [Fits, ← hwrites, ← hcopy, ← g.processimage_leaves frame]
    rcases hresult : g.processimage frame with ⟨t, writes, left⟩
    cases left with
    | false => simp [step, pixeltobmp, hresult]
    | true =>
      simp only [step, pixeltobmp, hresult, List.forall_mem_append, List.forall_mem_map,
        List.mem_range, forall_const]
      refine and_congr_right fun _ => forall₂_congr fun i _ => ?_
      rw [RgbAccess.InBounds, and_iff_right (Int.natCast_nonneg i), Nat.cast_lt]

theorem sized_step (h : g.Sized) (hstep : (step call (some g)).1 = some g') : g'.Sized := by
  cases call with
  | freeCameraMemory =>
    obtain rfl := Option.some.inj hstep
    exact fun hsome => absurd hsome Bool.false_ne_true
  | pixeltobmp frame bmp =>
    have hsized := sized_processimage h frame
    rcases hresult : g.processimage frame with ⟨t, writes, left⟩
    rw [hresult] at hsized
    cases left with
    | false => simp [step, pixeltobmp, hresult] at hstep
    | true =>
      simp only [step, pixeltobmp, hresult, if_true, Option.some.injEq] at hstep
      rwa [← hstep]

/-- After every sequence of calls an array is that of an image. -/
theorem sized_stateAt (calls : ℕ → Call) (n : ℕ) :
    ∀ g ∈ Driven.stateAt step (some {}) calls n, g.Sized := by
  refine Driven.invariant_index (P := fun _ s => ∀ g ∈ s, Sized g) ?_ (fun n ih => ?_) n
  · intro g hg hsome
    obtain rfl := Option.some.inj hg
    exact absurd hsome Bool.false_ne_true
  · intro g' hg'
    cases hs : Driven.stateAt step (some {}) calls n with
    | none => simp [hs, step] at hg'
    | some g =>
      rw [hs] at hg'
      exact sized_step (ih g hs) hg'

end Calls

/-! ### Frames that are not taller than the array -/

variable {g : ImageProc} {image : JpegImage}

/-- Of an array whose pixels can be counted, as many rows can be written as it is high. -/
theorem rowsFit_ofImage_iff (h : image.image_width * image.image_height < 2 ^ 30)
    {passes columns : ℕ} (hcolumns : 0 < columns) :
    RowsFit (FrameBuffer.ofImage image) passes columns ↔ passes ≤ image.image_height := by
  have hw := image.width_pos
  have hwidth : (FrameBuffer.ofImage image).width = image.image_width := rfl
  have hsize : (FrameBuffer.ofImage image).size = image.image_width * image.image_height :=
    Nat.mod_eq_of_lt h
  rw [RowsFit, hwidth, hsize]
  cases passes with
  | zero => simp
  | succ p =>
    rw [Nat.succ_le_iff, or_iff_right (Nat.succ_ne_zero p), Nat.cast_succ, add_sub_cancel_right]
    norm_cast
    constructor
    · intro hle
      by_contra hge
      have hmul : image.image_width * image.image_height ≤ p * image.image_width := by
        rw [mul_comm p]
        exact Nat.mul_le_mul_left _ (not_lt.mp hge)
      omega
    · intro hlt
      have hmul : (p + 1) * image.image_width ≤ image.image_height * image.image_width :=
        Nat.mul_le_mul_right _ hlt
      rw [mul_comm image.image_width]
      rw [Nat.succ_mul] at hmul
      omega

/-- The copy of such an array reads the cells that there are. -/
theorem copyFits_ofImage (h : image.image_width * image.image_height < 2 ^ 30) (bmp : Bitmap) :
    CopyFits (FrameBuffer.ofImage image) bmp := by
  cases bmp with
  | null => trivial
  | noInfo error => trivial
  | bitmap info lockPixels =>
    intro _ _ _
    rw [FrameBuffer.ofImage, Nat.mod_eq_of_lt h, ← Nat.cast_mul]
    exact (int32_of_le (Nat.cast_nonneg _) (by omega)).le

/-- While an array is there, a frame fits exactly when the loop makes no more passes than the array
is high. -/
theorem fits_pixeltobmp_iff (hrgb : g.rgb.isSome) (hcurrent : g.current = FrameBuffer.ofImage image)
    (h : image.image_width * image.image_height < 2 ^ 30) (frame : JpegFrame) (bmp : Bitmap) :
    g.Fits (.pixeltobmp frame bmp) ↔ frame.passes ≤ image.image_height := by
  cases frame with
  | failed =>
    rw [Fits, buffer, hcurrent]
    exact iff_of_true ⟨.inl rfl, fun _ => copyFits_ofImage h bmp⟩ (Nat.zero_le _)
  | started image' malloc jpegbuffer scanlines =>
    rw [Fits, buffer, if_pos hrgb, hcurrent]
    exact (and_iff_left fun _ => copyFits_ofImage h bmp).trans
      (rowsFit_ofImage_iff h image'.width_pos)

end ImageProc

open ImageProc

/-- **The bounds of the frame buffer**: in every sequence of calls, the accesses to `rgb` are inside
the array that is allocated exactly when every call fits. -/
theorem rgb_inBounds_iff (calls : ℕ → Call) (N : ℕ) :
    (∀ n < N, ∀ a ∈ Driven.outAt step (some {}) calls n, a.InBounds) ↔
      ∀ n < N, ∀ g ∈ Driven.stateAt step (some {}) calls n, g.Fits (calls n) := by
  refine forall₂_congr fun n _ => ?_
  have hsized := sized_stateAt calls n
  rw [Driven.outAt]
  cases hs : Driven.stateAt step (some {}) calls n with
  | none => simp [step]
  | some g =>
    rw [step_inBounds_iff (hsized g hs)]
    simp

/-- An image of one column. -/
def columnImage (height : ℕ) (h : 0 < height ∧ height ≤ 65500) : JpegImage where
  image_width := 1
  image_height := height
  num_components := 3
  width_pos := by norm_num
  width_le := by norm_num
  height_pos := h.1
  height_le := h.2
  three_components := rfl

/-- A frame of one pixel, and then frames of two rows. -/
def growingFrames : ℕ → Call
  | 0 => .pixeltobmp (.started (columnImage 1 (by norm_num)) (some fun _ => 0) (some fun _ => 0)
      [.line fun _ => 0]) .null
  | _ + 1 => .pixeltobmp (.started (columnImage 2 (by norm_num)) (some fun _ => 0) (some fun _ => 0)
      [.line fun _ => 0, .line fun _ => 0]) .null

/-- **A frame that is taller than the first one** is written behind the end of the array. -/
theorem rgb_inBounds_fails : ¬∀ (calls : ℕ → Call) (N : ℕ), ∀ n < N,
    ∀ a ∈ Driven.outAt step (some {}) calls n, a.InBounds := by
  intro h
  have hmem : (⟨1, 1⟩ : RgbAccess) ∈ Driven.outAt step (some {}) growingFrames 1 := by decide
  exact absurd (h growingFrames 2 1 (by norm_num) _ hmem) (by decide)

end LegoCar
