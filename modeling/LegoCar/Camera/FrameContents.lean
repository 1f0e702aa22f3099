import Mathlib
import LegoCar.Camera.FrameBuffer
import LegoCar.Lib.LittleEndian

/-!
# What the bitmap shows

A pass of the row loop writes the row that is in the row buffer. A call that stays inside the array
therefore leaves the rows of its passes there, one below the other and as wide as they are, and
beside and below them what was there before (`getElem?_processimage`). After a call that returns 0
the bitmap has the same pixels, unless they could not be locked, and the four bytes of a pixel that
was written are its red, green and blue samples and a full alpha (`bitmap_pixels`).
-/

namespace LegoCar

namespace JpegFrame

/-- The rows that the passes of the row loop write when `h` rows are missing. A pass in which
nothing was read writes the last row again. -/
def rowsFrom : ℕ → List Scanline → (ℕ → UInt8) → List (ℕ → UInt8)
  | 0, _, _ => []
  | _ + 1, [], _ => []
  | h + 1, .line row :: scanlines, _ => row :: rowsFrom h scanlines row
  | h + 1, .suspended :: scanlines, row => row :: rowsFrom (h + 1) scanlines row
  | _ + 1, .error :: _, _ => []

/-- A frame that has all its rows writes them. -/
theorem rowsFrom_lines (rows : List (ℕ → UInt8)) (row : ℕ → UInt8) :
    rowsFrom rows.length (rows.map .line) row = rows := by
  induction rows generalizing row with
  | nil => rfl
  | cons r rows ih => exact congrArg (r :: ·) (ih r)

end JpegFrame

namespace ImageProc

/-! ### The writes -/

section Writes

variable {image : JpegImage} {W w y : ℕ}

/-- Writing `m` values one after the other. -/
theorem getElem?_foldl_store_range (f : ℕ → UInt32) (hy : y + W < 2 ^ 31) {m : ℕ} (hm : m ≤ W)
    (cells : List UInt32) (k : ℕ) :
    (((List.range m).map fun xx : ℕ => (int32 (y + xx), f xx)).foldl store cells)[k]? =
      if y ≤ k ∧ k < y + m then cells[k]?.map fun _ => f (k - y) else cells[k]? := by
  induction m with
  | zero =>
    have hnone : ¬(y ≤ k ∧ k < y + 0) := by omega
    rw [if_neg hnone]
    rfl
  | succ m ih =>
    have hlast : int32 (y + m) = ((y + m : ℕ) : ℤ) := by
      rw [int32_of_le (by omega) (by omega)]
      rfl
    rw [List.range_succ, List.map_append, List.foldl_append, List.map_singleton, List.foldl_cons,
      List.foldl_nil, store, hlast, if_pos (Int.natCast_nonneg _), Int.toNat_natCast,
      List.getElem?_set', ih (by omega)]
    by_cases hk : y + m = k
    · have hout : ¬(y ≤ k ∧ k < y + m) := by omega
      have hin : y ≤ k ∧ k < y + (m + 1) := by omega
      have hkm : k - y = m := by omega
      rw [if_pos hk, if_neg hout, if_pos hin, hkm]
      rfl
    · have hsame : (y ≤ k ∧ k < y + (m + 1)) ↔ (y ≤ k ∧ k < y + m) := by omega
      rw [if_neg hk]
      simp only [hsame]

/-- What is in the cell `k` when some rows have been written from the cell `y` on: the pixel of its
row and column, if there is such a row and it is long enough. -/
def painted (W w y : ℕ) (rows : List (ℕ → UInt8)) (k : ℕ) (cell : UInt32) : UInt32 :=
  if y ≤ k ∧ (k - y) % W < w then
    (rows[(k - y) / W]?.map fun row => pixel row (3 * ((k - y) % W))).getD cell
  else cell

theorem painted_nil (W w y k : ℕ) : painted W w y [] k = id := by
  funext cell
  simp [painted]

theorem painted_cons (hW : 0 < W) (row : ℕ → UInt8) (rows : List (ℕ → UInt8)) (k : ℕ) :
    painted W w y (row :: rows) k = painted W w (y + W) rows k ∘ fun cell =>
      if y ≤ k ∧ k < y + min W w then pixel row (3 * (k - y)) else cell := by
  funext cell
  rw [Function.comp_apply]
  unfold painted
  rcases lt_or_ge k (y + W) with hk | hk
  · -- not behind the first row
    have hbehind : ¬(y + W ≤ k ∧ (k - (y + W)) % W < w) := by omega
    rw [if_neg hbehind]
    by_cases hyk : y ≤ k
    · have hmod : (k - y) % W = k - y := Nat.mod_eq_of_lt (by omega)
      have hdiv : (k - y) / W = 0 := Nat.div_eq_of_lt (by omega)
      have hin : (y ≤ k ∧ k - y < w) ↔ (y ≤ k ∧ k < y + min W w) := by omega
      rw [hmod, hdiv]
      simp only [hin]
      rfl
    · rw [if_neg fun h => hyk h.1, if_neg fun h => hyk h.1]
  · obtain ⟨d, rfl⟩ := Nat.exists_eq_add_of_le hk
    have hout : ¬(y ≤ y + W + d ∧ y + W + d < y + min W w) := by omega
    have hsub : y + W + d - y = d + W := by omega
    have hsub' : y + W + d - (y + W) = d := by omega
    have hle : y ≤ y + W + d ↔ y + W ≤ y + W + d := by omega
    rw [if_neg hout, hsub, hsub', Nat.add_mod_right, Nat.add_div_right d hW,
      List.getElem?_cons_succ]
    simp only [hle]

/-- **The row loop** writes the rows of its passes, one below the other. -/
theorem getElem?_rowLoop (hW : 0 < W) (scanlines : List Scanline) {missing output_scanline : ℕ}
    (hmissing : output_scanline + missing = image.image_height) (jpegbuffer : ℕ → UInt8)
    (hy : y + JpegFrame.passesFrom missing scanlines * W < 2 ^ 31) (cells : List UInt32) (k : ℕ) :
    ((rowLoop image W (image.image_width * 3) scanlines output_scanline y jpegbuffer).1.foldl
        store cells)[k]? =
      cells[k]?.map (painted W image.image_width y
        (JpegFrame.rowsFrom missing scanlines jpegbuffer) k) := by
  induction scanlines generalizing missing output_scanline y jpegbuffer cells with
  | nil => cases missing <;> simp [rowLoop, JpegFrame.rowsFrom, painted_nil]
  | cons call scanlines ih =>
    cases missing with
    | zero =>
      have hguard : ¬output_scanline < image.image_height := by omega
      simp [rowLoop, JpegFrame.rowsFrom, hguard, painted_nil]
    | succ missing =>
      have hguard : output_scanline < image.image_height := by omega
      -- a pass, and the passes after it
      have hpass : ∀ (row : ℕ → UInt8) (scanline missing' : ℕ),
          scanline + missing' = image.image_height →
          y + (JpegFrame.passesFrom missing' scanlines + 1) * W < 2 ^ 31 →
          ((rowWrites W (image.image_width * 3) y row ++ (rowLoop image W (image.image_width * 3)
              scanlines scanline (int32 (y + W)) row).1).foldl store cells)[k]? =
            cells[k]?.map (painted W image.image_width y
              (row :: JpegFrame.rowsFrom missing' scanlines row) k) := by
        intro row scanline missing' hmissing' hfits
        rw [Nat.succ_mul] at hfits
        have hnext : int32 (y + W) = ((y + W : ℕ) : ℤ) := by
          rw [int32_of_le (by omega) (by omega)]
          rfl
        rw [List.foldl_append, hnext, ih hmissing' row (by omega), rowWrites, columns_eq,
          getElem?_foldl_store_range _ (by omega) (min_le_left W _)]
        rw [painted_cons hW, ← Option.map_map]
        split_ifs
        · rfl
        · rw [Option.map_id']
      cases call with
      | line row =>
        simpa [rowLoop, JpegFrame.rowsFrom, hguard] using hpass row _ missing (by omega) hy
      | suspended =>
        simpa [rowLoop, JpegFrame.rowsFrom, hguard] using
          hpass jpegbuffer _ (missing + 1) (by omega) hy
      | error => simp [rowLoop, JpegFrame.rowsFrom, hguard, painted_nil]

end Writes

/-! ### The array -/

variable {g : ImageProc} {image : JpegImage} {malloc : Option (ℕ → UInt32)} {buffer : ℕ → UInt8}
  {scanlines : List Scanline} {cells : List UInt32} {bmp : Bitmap}

/-- **The array after a frame.** A frame that stays inside the array leaves the rows of its passes
there, and beside and below them what was there before. -/
theorem getElem?_processimage (h : g.Sized)
    (hfit : RowsFit (g.buffer (.started image malloc (some buffer) scanlines))
      (JpegFrame.passesFrom image.image_height scanlines) image.image_width)
    (hcells : (g.allocate image malloc).rgb = some cells) :
    ∃ W : ℕ, 0 < W ∧ (g.allocate image malloc).IMG_WIDTH = W ∧ ∃ cells',
      (g.processimage (.started image malloc (some buffer) scanlines)).1.rgb = some cells' ∧
        ∀ k, cells'[k]? = cells[k]?.map (painted W image.image_width 0
          (JpegFrame.rowsFrom image.image_height scanlines buffer) k) := by
  obtain ⟨image', hwidth, hsize⟩ := buffer_started h image malloc (some buffer) scanlines
  have hcurrent := g.current_allocate image malloc (some buffer) scanlines
  have hW : (g.allocate image malloc).IMG_WIDTH = image'.image_width :=
    (congrArg FrameBuffer.width hcurrent).trans hwidth
  refine ⟨image'.image_width, image'.width_pos, hW, _, ?_, getElem?_rowLoop image'.width_pos
    scanlines (Nat.zero_add image.image_height) buffer ?_ cells⟩
  · simp [processimage, image.three_components, hW, hcells]
  · -- the last pass is inside the array, which is not longer than `2 ^ 30`
    rw [RowsFit, hwidth] at hfit
    have hle := image'.width_le
    rcases hfit with hnone | hfit
    · rw [hnone]
      norm_num
    · rcases Nat.eq_zero_or_pos (JpegFrame.passesFrom image.image_height scanlines) with
        hnone | hpos
      · rw [hnone]
        norm_num
      · obtain ⟨p, hp⟩ := Nat.exists_eq_add_of_lt hpos
        rw [Nat.zero_add] at hp
        rw [hp] at hfit ⊢
        have hmul : (p : ℤ) * image'.image_width ≤ 2 ^ 30 := by
          push_cast at hfit
          rw [add_sub_cancel_right] at hfit
          omega
        rw [Nat.succ_mul]
        have hmul' : p * image'.image_width ≤ 2 ^ 30 := by exact_mod_cast hmul
        omega

/-! ### The bitmap -/

/-- A copy that succeeds takes as many cells as the globals say. -/
theorem copyPixels_of_ret (hret : (g.copyPixels bmp).2.1 = some 0) :
    (g.copyPixels bmp).1 = (int32 (g.IMG_WIDTH * g.IMG_HEIGHT)).toNat := by
  cases bmp with
  | null => exact absurd hret (by simp [copyPixels])
  | noInfo error => exact absurd hret (by simp [copyPixels])
  | bitmap info lockPixels =>
    by_cases hformat : info.format = formatRgba8888
    · by_cases hsize : g.SameSize info
      · rw [copyPixels, if_neg (not_not.mpr hformat), if_neg (not_not.mpr hsize)]
      · rw [copyPixels, if_neg (not_not.mpr hformat), if_pos hsize] at hret
        exact absurd hret (by simp)
    · rw [copyPixels, if_pos hformat] at hret
      exact absurd hret (by simp)

/-- A call that could lock the pixels and returns 0 has copied the array. -/
theorem pixeltobmp_of_ret {frame : JpegFrame} (hlocked : ¬bmp.LockFails)
    (hret : (g.pixeltobmp frame bmp).ret = some 0) :
    frame.leaves = true ∧ ((g.processimage frame).1.copyPixels bmp).2.1 = some 0 ∧
      (g.pixeltobmp frame bmp).colors =
        some ((List.range ((g.processimage frame).1.copyPixels bmp).1).map
          fun i => (g.processimage frame).1.rgb.bind fun cells => cells[i]?) := by
  rw [← g.processimage_leaves frame]
  rcases hresult : g.processimage frame with ⟨t, writes, left⟩
  cases left with
  | false => simp [pixeltobmp, hresult] at hret
  | true =>
    rw [pixeltobmp, hresult] at hret ⊢
    exact ⟨rfl, hret, if_neg hlocked⟩

/-- A place of the array in a row and a column. -/
theorem painted_place {W w x : ℕ} (hx : x < W) (y : ℕ) (rows : List (ℕ → UInt8)) (cell : UInt32) :
    (∀ row ∈ rows[y]?, x < w → painted W w 0 rows (y * W + x) cell = pixel row (3 * x)) ∧
      (rows.length ≤ y ∨ w ≤ x → painted W w 0 rows (y * W + x) cell = cell) := by
  have hmod : (y * W + x - 0) % W = x := by
    rw [Nat.sub_zero, Nat.mul_add_mod_of_lt hx]
  have hdiv : (y * W + x - 0) / W = y := by
    rw [Nat.sub_zero, Nat.mul_comm, Nat.mul_add_div (by omega), Nat.div_eq_of_lt hx, Nat.add_zero]
  rw [painted, hmod, hdiv]
  refine ⟨fun row hrow hlt => ?_, ?_⟩
  · rw [if_pos ⟨Nat.zero_le _, hlt⟩, Option.mem_def.mp hrow]
    rfl
  · rintro (hle | hle)
    · rw [List.getElem?_eq_none hle]
      split_ifs <;> rfl
    · rw [if_neg fun h => absurd h.2 hle.not_gt]

/-- The four samples of a pixel do not overlap. -/
theorem toNat_pixel (row : ℕ → UInt8) (k : ℕ) :
    (pixel row k).toNat = LittleEndian.ofLE [row k, row (k + 1), row (k + 2), 255] := by
  have hred := (row k).toNat_lt
  have hgreen := (row (k + 1)).toNat_lt
  have hblue := (row (k + 2)).toNat_lt
  have hexp16 : (16 : UInt32).toNat % 32 = 16 := rfl
  have hexp8 : (8 : UInt32).toNat % 32 = 8 := rfl
  have hshift16 : ((row (k + 2)).toUInt32 <<< 16).toNat = (row (k + 2)).toNat * 2 ^ 16 := by
    rw [UInt32.toNat_shiftLeft, UInt8.toNat_toUInt32, hexp16, Nat.shiftLeft_eq]
    exact Nat.mod_eq_of_lt (by omega)
  have hshift8 : ((row (k + 1)).toUInt32 <<< 8).toNat = (row (k + 1)).toNat * 2 ^ 8 := by
    rw [UInt32.toNat_shiftLeft, UInt8.toNat_toUInt32, hexp8, Nat.shiftLeft_eq]
    exact Nat.mod_eq_of_lt (by omega)
  have halpha : (0xff000000 : UInt32).toNat = 2 ^ 24 * 255 := by decide
  have h24 := Nat.two_pow_add_eq_or_of_lt (i := 24)
    (show (row (k + 2)).toNat * 2 ^ 16 < 2 ^ 24 by omega) 255
  have h16 := Nat.two_pow_add_eq_or_of_lt (i := 16)
    (show (row (k + 1)).toNat * 2 ^ 8 < 2 ^ 16 by omega) (255 * 2 ^ 8 + (row (k + 2)).toNat)
  have h8 := Nat.two_pow_add_eq_or_of_lt (i := 8)
    (show (row k).toNat < 2 ^ 8 by omega)
    ((255 * 2 ^ 8 + (row (k + 2)).toNat) * 2 ^ 8 + (row (k + 1)).toNat)
  have hlow : 2 ^ 24 * 255 + (row (k + 2)).toNat * 2 ^ 16 =
      2 ^ 16 * (255 * 2 ^ 8 + (row (k + 2)).toNat) := by ring
  have hmid : 2 ^ 16 * (255 * 2 ^ 8 + (row (k + 2)).toNat) + (row (k + 1)).toNat * 2 ^ 8 =
      2 ^ 8 * ((255 * 2 ^ 8 + (row (k + 2)).toNat) * 2 ^ 8 + (row (k + 1)).toNat) := by ring
  rw [pixel, UInt32.toNat_or, UInt32.toNat_or, UInt32.toNat_or, hshift16, hshift8, halpha,
    UInt8.toNat_toUInt32, ← h24, hlow, ← h16, hmid, ← h8]
  have hfull : (255 : UInt8).toNat = 255 := rfl
  simp only [LittleEndian.ofLE_cons, LittleEndian.ofLE_nil, hfull]
  ring

/-- The bytes of a pixel in memory. -/
theorem toLE_pixel (row : ℕ → UInt8) (k : ℕ) :
    LittleEndian.toLE 4 (pixel row k).toNat = [row k, row (k + 1), row (k + 2), 255] := by
  rw [toNat_pixel]
  exact LittleEndian.toLE_ofLE [row k, row (k + 1), row (k + 2), 255]

end ImageProc

open ImageProc

/-- **What the bitmap shows.** In every sequence of calls, let a frame stay inside the array, let
the pixels of the bitmap be locked, and let the call return 0. Then the bitmap has a pixel for each
cell that is copied: where a row was written that is long enough, its bytes are the red, green and
blue samples of that place and a full alpha; elsewhere it is what was in the array before. -/
theorem bitmap_pixels (calls : ℕ → Call) (n : ℕ) {g : ImageProc}
    (hg : g ∈ Driven.stateAt step (some {}) calls n) {image : JpegImage}
    {malloc : Option (ℕ → UInt32)} {buffer : ℕ → UInt8} {scanlines : List Scanline} {bmp : Bitmap}
    (hcall : calls n = .pixeltobmp (.started image malloc (some buffer) scanlines) bmp)
    (hfits : g.Fits (calls n)) {cells : List UInt32}
    (hcells : (g.allocate image malloc).rgb = some cells) (hlocked : ¬bmp.LockFails)
    (hret : (g.pixeltobmp (.started image malloc (some buffer) scanlines) bmp).ret = some 0) :
    let rows := JpegFrame.rowsFrom image.image_height scanlines buffer
    ∃ colors, (g.pixeltobmp (.started image malloc (some buffer) scanlines) bmp).colors =
        some colors ∧
      ∃ W : ℕ, (g.allocate image malloc).IMG_WIDTH = W ∧
        colors.length = (int32 (W * (g.allocate image malloc).IMG_HEIGHT)).toNat ∧
        ∀ y, ∀ x < W, y * W + x < colors.length → ∃ v, colors[y * W + x]? = some (some v) ∧
          (∀ row ∈ rows[y]?, x < image.image_width → LittleEndian.toLE 4 v.toNat =
            [row (3 * x), row (3 * x + 1), row (3 * x + 2), 255]) ∧
          (rows.length ≤ y ∨ image.image_width ≤ x → cells[y * W + x]? = some v) := by
  intro rows
  have hsized := sized_stateAt calls n g hg
  rw [hcall] at hfits
  obtain ⟨hrows, hcopy⟩ := hfits
  obtain ⟨W, -, hW, cells', hcells', hpainted⟩ := getElem?_processimage hsized hrows hcells
  obtain ⟨hleaves, hcopied, hcolors⟩ := pixeltobmp_of_ret hlocked hret
  refine ⟨_, hcolors, ?_⟩
  set t := (g.processimage (.started image malloc (some buffer) scanlines)).1 with ht
  have hcurrent : t.current = (g.allocate image malloc).current := by
    rw [ht, current_processimage, ← g.current_allocate]
  set colors := (List.range (t.copyPixels bmp).1).map fun i => t.rgb.bind fun cells => cells[i]?
    with hcopy'
  have hlength : colors.length = (t.copyPixels bmp).1 := by
    rw [hcopy', List.length_map, List.length_range]
  have hbounds := (copyPixels_inBounds_iff bmp t).mpr (by
    rw [ht, current_processimage]
    exact hcopy hleaves)
  have hallocated : t.allocated = cells'.length := by
    rw [allocated, hcells', Option.map_some, Option.getD_some]
  refine ⟨W, hW, ?_, fun y x hx hlt => ?_⟩
  · have hwidth : t.IMG_WIDTH = W := (congrArg FrameBuffer.width hcurrent).trans hW
    have hheight : t.IMG_HEIGHT = (g.allocate image malloc).IMG_HEIGHT :=
      congrArg FrameBuffer.height hcurrent
    rw [hlength, copyPixels_of_ret hcopied, hwidth, hheight]
  · rw [hlength] at hlt
    have hinside : y * W + x < cells'.length := by
      rw [← hallocated]
      exact hbounds _ hlt
    obtain ⟨v, hv⟩ : ∃ v, cells'[y * W + x]? = some v := ⟨_, List.getElem?_eq_getElem hinside⟩
    obtain ⟨cell, hcell, rfl⟩ := Option.map_eq_some_iff.mp ((hpainted _).symm.trans hv)
    obtain ⟨hwritten, hkept⟩ := painted_place hx (w := image.image_width) y rows cell
    refine ⟨painted W image.image_width 0 rows (y * W + x) cell, ?_, fun row hrow hlong => ?_,
      fun hout => ?_⟩
    · rw [hcopy', List.getElem?_map, List.getElem?_range hlt, Option.map_some, hcells',
        Option.bind_some, hv]
    · rw [hwritten row hrow hlong, toLE_pixel]
    · rw [hkept hout, hcell]

/-- A frame of one orange pixel. -/
def orange : ℕ → UInt8
  | 0 => 255
  | 1 => 128
  | _ => 0

theorem bitmap_pixels_orange :
    let frame : JpegFrame := .started (columnImage 1 (by norm_num)) (some fun _ => 0)
      (some fun _ => 0) [.line orange]
    let rows := JpegFrame.rowsFrom 1 [.line orange] fun _ => 0
    ∃ colors, (({} : ImageProc).pixeltobmp frame (.bitmap ⟨1, 1, 1⟩ 0)).colors = some colors ∧
      ∃ W : ℕ, (allocate (columnImage 1 (by norm_num)) (some fun _ => 0) {}).IMG_WIDTH = W ∧
        colors.length = (int32 (W *
          (allocate (columnImage 1 (by norm_num)) (some fun _ => 0) {}).IMG_HEIGHT)).toNat ∧
        ∀ y, ∀ x < W, y * W + x < colors.length → ∃ v, colors[y * W + x]? = some (some v) ∧
          (∀ row ∈ rows[y]?, x < 1 → LittleEndian.toLE 4 v.toNat =
            [row (3 * x), row (3 * x + 1), row (3 * x + 2), 255]) ∧
          (rows.length ≤ y ∨ 1 ≤ x → [(0 : UInt32)][y * W + x]? = some v) :=
  bitmap_pixels (fun _ => .pixeltobmp (.started (columnImage 1 (by norm_num)) (some fun _ => 0)
      (some fun _ => 0) [.line orange]) (.bitmap ⟨1, 1, 1⟩ 0)) 0 rfl rfl
    ⟨.inr (by decide), fun _ _ _ _ => by decide⟩ (by decide) (by decide) (by decide)

end LegoCar
