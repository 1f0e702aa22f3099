import Mathlib
import LegoCar.Lib.MarkerSearch
import LegoCar.Lib.Properties

/-!
# The stream of the camera

`MjpegInputStream` reads a stream of parts, each a header and the bytes of an image. The end of the
header is the first start marker, and the end of the image is given by an entry `Content-Length` of
the header, or else found by searching for the end marker: first in a window around the length of
the image before, and then from the position on that was marked before the header.

A stream is the list of the bytes that are still to be read, so a call that reads behind the end
throws. `mark` remembers the position and how many bytes may be read until it is forgotten; the
field `headerLen`, which a local variable of `readMjpegFrame` hides, stays `-1`. What is handed to
the decoder is the result of `readMjpegFrame`, for both overloads.
-/

namespace LegoCar

open MarkerSearch

/-- What a method throws. -/
inductive JavaException where
  | eofException
  | ioException
  | numberFormatException
  | illegalArgumentException
  | negativeArraySizeException
  | indexOutOfBoundsException
  | arithmeticException
deriving DecidableEq

/-- The exception is caught as an `IOException`. -/
def JavaException.IsIO (e : JavaException) : Prop := e = .eofException ∨ e = .ioException

instance (e : JavaException) : Decidable e.IsIO := inferInstanceAs (Decidable (_ ∨ _))

/-- The stream with its position and its mark, and the other fields of the class: of the array
`frameData` the length. -/
structure MjpegInputStream where
  rest : List UInt8
  marked : Option (List UInt8 × ℕ) := none
  mContentLength : ℤ := -1
  header : Option (List UInt8) := none
  frameData : Option ℤ := none
  headerLen : ℤ := -1
  headerLenPrev : ℤ := -1
  skip : ℤ := 1
  count : ℤ := 0

/-- A method of the stream. -/
abbrev JavaM (α : Type) := ExceptT JavaException (StateM MjpegInputStream) α

/-- What a call of `readMjpegFrame` does: it returns without a frame, skips one, or hands one to the
decoder. -/
inductive Frame where
  | noFrame
  | skipped
  | decoded (frameData : List UInt8)
deriving DecidableEq

namespace MjpegInputStream

/-- `SOI_MARKER`. -/
def soiMarker : List UInt8 := [0xFF, 0xD8]

/-- `EOF_MARKER`. -/
def eofMarker : List UInt8 := [0xFF, 0xD9]

/-- `CONTENT_LENGTH`. -/
def contentLength : Properties.JString := Properties.ofString "Content-Length"

/-- `HEADER_MAX_LENGTH`. -/
def headerMaxLength : ℕ := 100

/-- `FRAME_MAX_LENGTH`. -/
def frameMaxLength : ℕ := 200000

/-- The `int` of a number. -/
def toInt (z : ℤ) : ℤ := z.bmod (2 ^ 32)

/-! ### The stream -/

/-- A method that reads, and whose result depends on the bytes only. -/
def reading {α : Type} (f : List UInt8 → Except JavaException α × List UInt8) : JavaM α :=
  ExceptT.mk fun s => ((f s.rest).1, { s with rest := (f s.rest).2 })

/-- `mark`. -/
def mark (readlimit : ℕ) : JavaM Unit :=
  modify fun s => { s with marked := some (s.rest, readlimit) }

/-- `reset`: the mark is forgotten when more bytes were read than it allowed. -/
def reset : JavaM Unit := do
  let s ← get
  match s.marked with
  | none => throw .ioException
  | some (bytes, readlimit) =>
    if bytes.length - s.rest.length ≤ readlimit then set { s with rest := bytes }
    else throw .ioException

/-- `skipBytes`, which stops at the end. -/
def skipBytes (n : ℤ) : JavaM Unit := reading fun bytes => (.ok (), bytes.drop n.toNat)

/-- `readFully` of `len` bytes into an array with a length. -/
def readFully (length len : ℤ) : JavaM (List UInt8) :=
  reading fun bytes =>
    if len < 0 ∨ length < len then (.error .indexOutOfBoundsException, bytes)
    else if bytes.length < len then (.error .eofException, [])
    else (.ok (bytes.take len.toNat), bytes.drop len.toNat)

/-- `try { ... } catch (IOException e)`: none when it is caught. -/
def catchIOException {α : Type} (x : JavaM α) : JavaM (Option α) :=
  ExceptT.mk fun s =>
    match x.run.run s with
    | (.ok a, s) => (.ok (some a), s)
    | (.error e, s) => (if e.IsIO then .ok none else .error e, s)

/-! ### The searches -/

/-- The loop of both searches from an index on. A match that ends at `i` is returned as
`base + i + 1`. -/
def searchLoop (sequence : List UInt8) (bound base : ℤ) :
    ℕ → ℕ → List UInt8 → Except JavaException ℤ × List UInt8
  | i, _, [] => if i < bound then (.error .eofException, []) else (.ok (-1), [])
  | i, seqIndex, c :: bytes =>
    if i < bound then
      if sequence[seqIndex]? = some c then
        if seqIndex + 1 = sequence.length then (.ok (base + i + 1), bytes)
        else searchLoop sequence bound base (i + 1) (seqIndex + 1) bytes
      else searchLoop sequence bound base (i + 1) 0 bytes
    else (.ok (-1), c :: bytes)

/-- `getEndOfSeqeunce`. -/
def getEndOfSeqeunce (sequence : List UInt8) : JavaM ℤ :=
  reading (searchLoop sequence frameMaxLength 0 0 0)

/-- `getStartOfSequence`. -/
def getStartOfSequence (sequence : List UInt8) : JavaM ℤ := do
  let e ← getEndOfSeqeunce sequence
  pure (if e < 0 then -1 else e - sequence.length)

/-- `getEndOfSeqeunceSimplified`. -/
def getEndOfSeqeunceSimplified (sequence : List UInt8) : JavaM ℤ := do
  let s ← get
  let startPos := s.mContentLength.tdiv 2
  let endPos := (toInt (3 * s.mContentLength)).tdiv 2
  skipBytes (s.headerLen + startPos)
  reading (searchLoop sequence (endPos - startPos) (s.headerLen + startPos) 0 0)

/-! ### A frame -/

/-- `parseContentLength`. -/
def parseContentLength (headerBytes : List UInt8) : Except JavaException ℤ :=
  match Properties.load headerBytes with
  | none => .error .illegalArgumentException
  | some props =>
    match (Properties.getProperty props contentLength).bind Properties.parseInt with
    | none => .error .numberFormatException
    | some n => .ok n

/-- The header is a new array when its length is another one. -/
def renewHeader (headerLen : ℤ) : JavaM Unit := do
  let s ← get
  if s.header = none ∨ headerLen ≠ s.headerLenPrev then
    if headerLen < 0 then throw .negativeArraySizeException
    else set { s with header := some (List.replicate headerLen.toNat 0) }

/-- `readFully(header)`. -/
def readHeader : JavaM (List UInt8) := do
  let s ← get
  let length : ℤ := (s.header.getD []).length
  let header ← readFully length length
  modify fun s => { s with header := some header }
  pure header

/-- The length when the header has none: the search in the window, and the full search. -/
def searchContentLength : JavaM ℤ := do
  let n ← getEndOfSeqeunceSimplified eofMarker
  if n < 0 then
    reset
    getEndOfSeqeunce eofMarker
  else pure n

/-- The arrays for the frame. -/
def renewFrameData : JavaM ℤ := do
  let s ← get
  let length := s.frameData.getD frameMaxLength
  let wanted := toInt (s.mContentLength + headerMaxLength)
  let length := if frameMaxLength < wanted then wanted else length
  set { s with frameData := some length }
  pure length

/-- `count++%skip==0`. -/
def countFrame : JavaM Bool := do
  let s ← get
  set { s with count := toInt (s.count + 1) }
  if s.skip = 0 then throw .arithmeticException else pure (s.count.tmod s.skip = 0)

/-- What follows the search for the length: the header is skipped again, and the frame is read. -/
def readFrame (headerLen contentLengthNew : ℤ) : JavaM Frame := do
  modify fun s => { s with mContentLength := contentLengthNew }
  reset
  let length ← renewFrameData
  skipBytes headerLen
  let frame ← readFully length contentLengthNew
  if ← countFrame then pure (.decoded frame) else pure .skipped

/-- `readMjpegFrame`. -/
def readMjpegFrame : JavaM Frame := do
  mark frameMaxLength
  match ← catchIOException (getStartOfSequence soiMarker) with
  | none =>
    reset
    pure .noFrame
  | some headerLen =>
    reset
    renewHeader headerLen
    modify fun s => { s with headerLenPrev := headerLen }
    let header ← readHeader
    match parseContentLength header with
    | .ok n => readFrame headerLen n
    | .error _ => readFrame headerLen (← searchContentLength)

end MjpegInputStream

end LegoCar
