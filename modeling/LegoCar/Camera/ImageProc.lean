import Mathlib

/-!
# The decoder of the frames

`pixeltobmp` has libjpeg decode a frame into the array `rgb`, one `int` for each pixel, and copies
the array to a bitmap. The array is allocated by the first frame after the start or after
`freeCameraMemory`, and the globals `IMG_WIDTH` and `IMG_HEIGHT` stay the dimensions of that frame.

What libjpeg, `malloc` and the bitmap answer is the input of a call. A read or write of `rgb` is
recorded with the number of cells that are allocated (`RgbAccess`), and a write outside the array
changes none of its cells, and neither does a copy to a bitmap whose pixels could not be locked. The
library is built for 32-bit processors only, so a `size_t` has 32 bits, as an `int` has.
-/

namespace LegoCar

/-- A read or write of `rgb`: its index, and the number of cells allocated, which is 0 for a null
pointer. -/
structure RgbAccess where
  index : ℤ
  allocated : ℕ
deriving DecidableEq

/-- The index lies inside the array. -/
def RgbAccess.InBounds (a : RgbAccess) : Prop := 0 ≤ a.index ∧ a.index < a.allocated

instance (a : RgbAccess) : Decidable a.InBounds := inferInstanceAs (Decidable (_ ∧ _))

/-- The globals. -/
structure ImageProc where
  IMG_WIDTH : ℤ := -1
  IMG_HEIGHT : ℤ := -1
  rgb : Option (List UInt32) := none

/-- The header of an image whose decompression starts. libjpeg rejects other dimensions, and other
numbers of components than that of `JCS_YCbCr`. -/
structure JpegImage where
  image_width : ℕ
  image_height : ℕ
  num_components : ℕ
  width_pos : 0 < image_width
  width_le : image_width ≤ 65500
  height_pos : 0 < image_height
  height_le : image_height ≤ 65500
  three_components : num_components = 3

/-- What a call of `jpeg_read_scanlines` does: it fills `jpegbuffer[0]` with the next row, returns
without one since the input is used up, or leaves by the error exit. -/
inductive Scanline where
  | line (row : ℕ → UInt8)
  | suspended
  | error

/-- What libjpeg and `malloc` make of a frame: the error exit is taken before the decompression
starts, or it starts, with what `malloc` would give (the contents of the memory), the row buffer
(its contents, if there is no error exit) and the calls of `jpeg_read_scanlines`. A frame of which
the list has too few calls keeps `processimage` in its loop. -/
inductive JpegFrame where
  | failed
  | started (image : JpegImage) (malloc : Option (ℕ → UInt32)) (jpegbuffer : Option (ℕ → UInt8))
    (scanlines : List Scanline)

/-- `AndroidBitmapInfo`. -/
structure AndroidBitmapInfo where
  width : UInt32
  height : UInt32
  format : ℤ

/-- The bitmap of a call: null, one of which `AndroidBitmap_getInfo` fails with an error, or one
with its info and the result of `AndroidBitmap_lockPixels`. -/
inductive Bitmap where
  | null
  | noInfo (error : ℤ)
  | bitmap (info : AndroidBitmapInfo) (lockPixels : ℤ)

/-- `AndroidBitmap_lockPixels` fails. The pointer to the pixels is then not initialised. -/
def Bitmap.LockFails : Bitmap → Prop
  | .bitmap _ lockPixels => lockPixels < 0
  | _ => False

instance : ∀ bmp : Bitmap, Decidable bmp.LockFails
  | .null => isFalse id
  | .noInfo _ => isFalse id
  | .bitmap _ lockPixels => inferInstanceAs (Decidable (lockPixels < 0))

namespace ImageProc

/-- The `int` of a number. -/
def int32 (z : ℤ) : ℤ := z.bmod (2 ^ 32)

/-- `ANDROID_BITMAP_FORMAT_RGBA_8888`. -/
def formatRgba8888 : ℤ := 1

/-- The number of cells allocated for `rgb`. -/
def allocated (g : ImageProc) : ℕ := (g.rgb.map List.length).getD 0

/-! ### `processimage` -/

/-- `sizeof(int) * (IMG_WIDTH*IMG_HEIGHT)`. -/
def rgbBytes (width height : ℤ) : ℕ := (4 * int32 (width * height) % 2 ^ 32).toNat

/-- `rgb` is allocated with the dimensions of the image, if it is null. -/
def allocate (image : JpegImage) (malloc : Option (ℕ → UInt32)) (g : ImageProc) : ImageProc :=
  match g.rgb with
  | some _ => g
  | none =>
    { IMG_WIDTH := image.image_width
      IMG_HEIGHT := image.image_height
      rgb := malloc.map fun memory =>
        (List.range (rgbBytes image.image_width image.image_height / 4)).map memory }

/-- The values of `xx` in the loop over a row. -/
def columns (width : ℤ) (row_stride : ℕ) : List ℕ :=
  (List.range width.toNat).takeWhile fun xx => 3 * xx < row_stride

/-- The pixel of three samples. -/
def pixel (row : ℕ → UInt8) (x3 : ℕ) : UInt32 :=
  (0xff000000 : UInt32) ||| (row (x3 + 2)).toUInt32 <<< 16 ||| (row (x3 + 1)).toUInt32 <<< 8 |||
    (row x3).toUInt32

/-- The writes of a row, each an index and a value. -/
def rowWrites (width : ℤ) (row_stride : ℕ) (y : ℤ) (row : ℕ → UInt8) : List (ℤ × UInt32) :=
  (columns width row_stride).map fun (xx : ℕ) => (int32 (y + xx), pixel row (3 * xx))

/-- The writes of the loop over the rows, and whether it is left. -/
def rowLoop (image : JpegImage) (width : ℤ) (row_stride : ℕ) :
    List Scanline → ℕ → ℤ → (ℕ → UInt8) → List (ℤ × UInt32) × Bool
  | [], output_scanline, _, _ => ([], !decide (output_scanline < image.image_height))
  | call :: scanlines, output_scanline, y, jpegbuffer =>
    if output_scanline < image.image_height then
      match call with
      | .line row =>
        let rest := rowLoop image width row_stride scanlines (output_scanline + 1)
          (int32 (y + width)) row
        (rowWrites width row_stride y row ++ rest.1, rest.2)
      | .suspended =>
        -- nothing was read, but the row of the buffer is written, and `y` goes on
        let rest := rowLoop image width row_stride scanlines output_scanline
          (int32 (y + width)) jpegbuffer
        (rowWrites width row_stride y jpegbuffer ++ rest.1, rest.2)
      | .error => ([], true)
    else ([], true)

/-- A value is stored in the array. -/
def store (cells : List UInt32) (w : ℤ × UInt32) : List UInt32 :=
  if 0 ≤ w.1 then cells.set w.1.toNat w.2 else cells

/-- `processimage`: the globals, the accesses, and whether it returns. -/
def processimage (frame : JpegFrame) (g : ImageProc) : ImageProc × List RgbAccess × Bool :=
  match frame with
  | .failed => (g, [], true)
  | .started image malloc jpegbuffer scanlines =>
    let g := g.allocate image malloc
    match jpegbuffer with
    | none => (g, [], true)
    | some buffer =>
      let loop := rowLoop image g.IMG_WIDTH (image.image_width * image.num_components) scanlines
        0 0 buffer
      ({ g with rgb := g.rgb.map fun cells => loop.1.foldl store cells },
        loop.1.map fun w => ⟨w.1, g.allocated⟩, loop.2)

/-! ### `pixeltobmp` and `freeCameraMemory` -/

/-- What a call of `pixeltobmp` does. It may not return, or return without a value. -/
structure PixelToBmp where
  globals : ImageProc
  accesses : List RgbAccess
  returns : Bool
  ret : Option ℤ
  /-- The pixels that are copied to the bitmap, none for what is read outside the array. When the
  pixels could not be locked, they are copied to wherever the pointer points. -/
  colors : Option (List (Option UInt32))
  log : List String

/-- The dimensions of the bitmap are those of the globals, which are compared as unsigned. -/
def SameSize (info : AndroidBitmapInfo) (g : ImageProc) : Prop :=
  info.width.toNat = g.IMG_WIDTH % 2 ^ 32 ∧ info.height.toNat = g.IMG_HEIGHT % 2 ^ 32

instance (info : AndroidBitmapInfo) (g : ImageProc) : Decidable (g.SameSize info) :=
  inferInstanceAs (Decidable (_ ∧ _))

/-- `pixeltobmp` after `processimage`: the number of cells copied from the beginning of `rgb`, the
value returned, and the messages. -/
def copyPixels (bmp : Bitmap) (g : ImageProc) : ℕ × Option ℤ × List String :=
  match bmp with
  | .null => (0, none, [])
  | .noInfo error => (0, some (-1), [s!"AndroidBitmap_getInfo() failed ! error={error}"])
  | .bitmap info lockPixels =>
    if info.format ≠ formatRgba8888 then (0, some (-1), ["Bitmap format is not RGBA_8888 !"])
    else if ¬g.SameSize info then (0, some (-1), ["Bitmap size differs !"])
    else
      ((int32 (g.IMG_WIDTH * g.IMG_HEIGHT)).toNat, some 0,
        if lockPixels < 0 then [s!"AndroidBitmap_lockPixels() failed ! error={lockPixels}"]
        else [])

/-- `pixeltobmp`. -/
def pixeltobmp (frame : JpegFrame) (bmp : Bitmap) (g : ImageProc) : PixelToBmp :=
  match g.processimage frame with
  | (g, writes, false) => ⟨g, writes, false, none, some [], []⟩
  | (g, writes, true) =>
    let copy := g.copyPixels bmp
    { globals := g
      accesses := writes ++ (List.range copy.1).map fun (i : ℕ) => ⟨i, g.allocated⟩
      returns := true
      ret := copy.2.1
      colors :=
        if bmp.LockFails then none
        else some ((List.range copy.1).map fun i => g.rgb.bind fun cells => cells[i]?)
      log := copy.2.2 }

/-- `freeCameraMemory`: the dimensions stay. -/
def freeCameraMemory (g : ImageProc) : ImageProc := { g with rgb := none }

/-! ### Sequences of calls -/

/-- A call of the library. -/
inductive Call where
  | pixeltobmp (frame : JpegFrame) (bmp : Bitmap)
  | freeCameraMemory

/-- A call is made. A call that does not return leaves no state for others. -/
def step (call : Call) : Option ImageProc → Option ImageProc × List RgbAccess
  | none => (none, [])
  | some g =>
    match call with
    | .pixeltobmp frame bmp =>
      let result := g.pixeltobmp frame bmp
      (if result.returns then some result.globals else none, result.accesses)
    | .freeCameraMemory => (some g.freeCameraMemory, [])

end ImageProc

end LegoCar
