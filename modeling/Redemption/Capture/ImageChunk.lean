import Redemption.Foundation.Buffer
import Redemption.Foundation.ByteStream

/-! The chunks of a recording: a header, and what it announces. -/
namespace Redemption.Capture

open Redemption.Foundation

/-- What the capture and the player throw. -/
inductive Error where
  | errWrm
  | errTransportNoMoreData
  deriving DecidableEq, Repr

/-- `enum class WrmChunkType : uint16_t`; a recording may have any value there. -/
abbrev WrmChunkType := BitVec 16

namespace WrmChunkType

def lastImageChunk : WrmChunkType := 0x1000

def partialImageChunk : WrmChunkType := 0x1001

end WrmChunkType

/-- `WRM_HEADER_SIZE` -/
def wrmHeaderSize : Nat := 8

/-- `send_wrm_chunk`: the header of a chunk; the size of its data is a `uint16_t`. -/
def sendWrmChunk (chunktype : WrmChunkType) (dataSize count : Nat) : List Byte :=
  leBytes 2 chunktype.toNat ++ leBytes 4 (wrmHeaderSize + dataSize % 2 ^ 16) ++ leBytes 2 count

/-- `Transport::recv_boom`, into a buffer of `size` bytes. -/
def recvBoom (size len : Nat) (trans : List Byte) : Checked Error (List Byte × List Byte) :=
  if size < len ∧ size < trans.length then .error .outOfBounds
  else if trans.length < len then .error (.raised .errTransportNoMoreData)
  else .ok (trans.take len, trans.drop len)

/-- What the header of a chunk holds: its type, its size and its count. -/
structure WrmHeader where
  chunkType : WrmChunkType
  chunkSize : BitVec 32
  chunkCount : BitVec 16
  deriving DecidableEq, Repr

def WrmHeader.ofBytes (header : List Byte) : WrmHeader :=
  ⟨BitVec.ofNat 16 (leValue (header.take 2)),
    BitVec.ofNat 32 (leValue ((header.drop 2).take 4)),
    BitVec.ofNat 16 (leValue ((header.drop 6).take 2))⟩

theorem length_sendWrmChunk (chunktype : WrmChunkType) (dataSize count : Nat) :
    (sendWrmChunk chunktype dataSize count).length = 8 := by
  simp [sendWrmChunk]

theorem recvBoom_append {size len : Nat} {front : List Byte} (length : front.length = len)
    (fits : len ≤ size) (rest : List Byte) : recvBoom size len (front ++ rest) = .ok (front, rest) := by
  have inside : ¬ (size < len ∧ size < (front ++ rest).length) := fun beyond => by omega
  have enough : ¬ (front ++ rest).length < len := by
    rw [List.length_append]
    omega
  rw [recvBoom, if_neg inside, if_neg enough, List.take_left' length, List.drop_left' length]

theorem ofBytes_sendWrmChunk (chunktype : WrmChunkType) {dataSize count : Nat}
    (small : dataSize < 2 ^ 16) (few : count < 2 ^ 16) :
    WrmHeader.ofBytes (sendWrmChunk chunktype dataSize count) =
      ⟨chunktype, BitVec.ofNat 32 (wrmHeaderSize + dataSize), BitVec.ofNat 16 count⟩ := by
  have type := length_leBytes 2 chunktype.toNat
  have size := length_leBytes 4 (wrmHeaderSize + dataSize % 2 ^ 16)
  have number := length_leBytes 2 count
  have both : (leBytes 2 chunktype.toNat ++
      leBytes 4 (wrmHeaderSize + dataSize % 2 ^ 16)).length = _ := List.length_append
  rw [type, size] at both
  rw [WrmHeader.ofBytes, sendWrmChunk, List.append_assoc, List.take_left' type,
    List.drop_left' type, List.take_left' size, ← List.append_assoc, List.drop_left' both,
    List.take_of_length_le number.le, leValue_leBytes, leValue_leBytes, leValue_leBytes,
    Nat.mod_eq_of_lt small, Nat.mod_eq_of_lt (few : count < 2 ^ (8 * 2)),
    Nat.mod_eq_of_lt (chunktype.isLt : chunktype.toNat < 2 ^ (8 * 2)), Nat.mod_eq_of_lt,
    BitVec.ofNat_toNat, BitVec.setWidth_eq]
  rw [wrmHeaderSize]
  omega

/-! The images embedded in a recording: `send_image_chunk`, and `set_rows_from_image_chunk`. -/

/-- `OutChunkedBufferingTransport<65536>`: what is buffered, and what has been sent. -/
structure OutChunkedBuffering where
  stream : List Byte
  sent : List Byte
  deriving DecidableEq, Repr

namespace OutChunkedBuffering

/-- `max` -/
def max : Nat := 65536 - 8

/-- `flush` -/
def flush (trans : OutChunkedBuffering) : OutChunkedBuffering :=
  if 0 < trans.stream.length then
    ⟨[], trans.sent ++ sendWrmChunk .lastImageChunk trans.stream.length 1 ++ trans.stream⟩
  else trans

/-- `do_send` -/
def doSend (trans : OutChunkedBuffering) (buffer : List Byte) : OutChunkedBuffering :=
  if max < trans.stream.length + buffer.length then
    let toSend := max - trans.stream.length
    doSend ⟨[], trans.sent ++ sendWrmChunk .partialImageChunk max 1 ++ trans.stream ++
      buffer.take toSend⟩ (buffer.drop toSend)
  else { trans with stream := trans.stream ++ buffer }
termination_by trans.stream.length + buffer.length
decreasing_by
  rw [List.length_nil, List.length_drop]
  rw [max] at *
  omega

end OutChunkedBuffering

/-- `libpng`, as far as it is used: what it gives to the write function for the header, for a row and
for the end, and what it asks the read function for: for the header, with the height and the size of
a row, for a row, and for the end. -/
structure Libpng where
  Writer : Type
  Reader : Type
  writeInfo : Nat → Nat → List (List Byte) × Writer
  writeRow : Writer → List Byte → List (List Byte) × Writer
  writeEnd : Writer → List (List Byte)
  readInfo : Demand Byte (Nat × Nat × Reader)
  readRow : Reader → Demand Byte (List Byte × Reader)
  readEnd : Reader → Demand Byte Unit

section Write

/-- A pixel, its first and its last byte swapped, in the `switch`. -/
def bgrPixels : Nat → List Byte → Checked Error (List Byte × List Byte)
  | 0, s => .ok ([], s)
  | count + 1, s0 :: s1 :: s2 :: s => do
    let (t, s) ← bgrPixels count s
    return (s2 :: s1 :: s0 :: t, s)
  | _ + 1, _ => .error .outOfBounds

/-- Four pixels in each turn of the loop. -/
def bgrGroups : Nat → List Byte → Checked Error (List Byte)
  | 0, _ => .ok []
  | count + 1,
    s0 :: s1 :: s2 :: s3 :: s4 :: s5 :: s6 :: s7 :: s8 :: s9 :: s10 :: s11 :: s => do
    let t ← bgrGroups count s
    return s2 :: s1 :: s0 :: s5 :: s4 :: s3 :: s8 :: s7 :: s6 :: s11 :: s10 :: s9 :: t
  | _ + 1, _ => .error .outOfBounds

/-- `bgrtmp` -/
def bgrRow (width : Nat) (row : List Byte) : Checked Error (List Byte) := do
  let (t, s) ← bgrPixels (width % 4) row
  let t' ← bgrGroups (width / 4) s
  return t ++ t'

variable (png : Libpng)

/-- What is given to the write function is sent. -/
def sendAll (trans : OutChunkedBuffering) (buffers : List (List Byte)) : OutChunkedBuffering :=
  buffers.foldl OutChunkedBuffering.doSend trans

def dumpRows (bgr : Bool) (width : Nat) :
    List (List Byte) → png.Writer → OutChunkedBuffering →
      Checked Error (png.Writer × OutChunkedBuffering)
  | [], writer, pngTrans => .ok (writer, pngTrans)
  | row :: rows, writer, pngTrans => do
    let row ← if bgr then bgrRow width row else .ok row
    let (buffers, writer) := png.writeRow writer row
    dumpRows bgr width rows writer (sendAll pngTrans buffers)

/-- `dump_png24`, of the rows of a drawable. -/
def dumpPng24 (trans : OutChunkedBuffering) (width : Nat) (rows : List (List Byte)) (bgr : Bool) :
    Checked Error OutChunkedBuffering := do
  let (buffers, writer) := png.writeInfo width rows.length
  let (writer, pngTrans) ← dumpRows png bgr width rows writer (sendAll trans buffers)
  return (sendAll pngTrans (png.writeEnd writer)).flush

/-- `send_image_chunk`: what is sent. -/
def sendImageChunk (width : Nat) (rows : List (List Byte)) (bgr : Bool) :
    Checked Error (List Byte) := do
  let trans ← dumpPng24 png ⟨[], []⟩ width rows bgr
  return trans.sent

end Write

/-- `InChunkedImage`, and what is left of the recording. -/
structure InChunkedImage where
  chunkType : WrmChunkType
  chunkSize : BitVec 32
  chunkCount : BitVec 16
  inStream : List Byte
  trans : List Byte
  deriving DecidableEq, Repr

namespace InChunkedImage

/-- `sizeof(buf)` -/
def bufSize : Nat := 65536

/-- The data of a chunk; the subtraction is unsigned. -/
def receive (chunkType : WrmChunkType) (chunkSize : BitVec 32) (chunkCount : BitVec 16)
    (trans : List Byte) : Checked Error InChunkedImage := do
  let (buf, rest) ← recvBoom bufSize (chunkSize - 8).toNat trans
  return ⟨chunkType, chunkSize, chunkCount, buf, rest⟩

/-- The constructor. -/
def start (chunkType : WrmChunkType) (chunkSize : BitVec 32) (trans : List Byte) :
    Checked Error InChunkedImage := receive chunkType chunkSize 1 trans

/-- The next chunk, if there is one; `png_error` ends in the `throw` behind `setjmp`. -/
def nextChunk (image : InChunkedImage) : Checked Error InChunkedImage :=
  if image.chunkType = .partialImageChunk then do
    let (headerBuf, rest) ← recvBoom wrmHeaderSize wrmHeaderSize image.trans
    let header := WrmHeader.ofBytes headerBuf
    receive header.chunkType header.chunkSize header.chunkCount rest
  else .error (.raised .errTransportNoMoreData)

/-- The loop of `png_read_data_fn`: there are less chunks than bytes. -/
def readLoop : Nat → Nat → InChunkedImage → Checked Error (List Byte × InChunkedImage)
  | 0, _, _ => .error (.raised .errTransportNoMoreData)
  | chunks + 1, len, image =>
    if len ≤ image.inStream.length then
      .ok (image.inStream.take len, { image with inStream := image.inStream.drop len })
    else do
      let next ← image.nextChunk
      let (bytes, last) ← readLoop chunks (len - image.inStream.length) next
      return (image.inStream ++ bytes, last)

/-- `png_read_data_fn` -/
def readData (len : Nat) (image : InChunkedImage) : Checked Error (List Byte × InChunkedImage) :=
  readLoop (image.trans.length + 1) len image

end InChunkedImage

section Read

/-- `sizeof(tmp)` -/
def tmpSize : Nat := 8192 * 4

/-- `swap`, of two cells of `tmp`. -/
def swapCells (tmp : Buffer Byte tmpSize) (i j : Nat) : Checked Error (Buffer Byte tmpSize) := do
  let first ← tmp.load i
  let second ← tmp.load j
  let tmp ← tmp.store i second
  tmp.store j first

/-- Four pixels in each turn of the loop, from `t` on. -/
def swapGroups : Nat → Nat → Buffer Byte tmpSize → Checked Error (Buffer Byte tmpSize)
  | 0, _, tmp => .ok tmp
  | count + 1, t, tmp => do
    let tmp ← swapCells tmp t (t + 2)
    let tmp ← swapCells tmp (t + 3) (t + 5)
    let tmp ← swapCells tmp (t + 6) (t + 8)
    let tmp ← swapCells tmp (t + 9) (t + 11)
    swapGroups count (t + 12) tmp

/-- A call of `set_row` of a consumer. -/
structure SetRow (γ : Type) where
  consumer : γ
  rownum : Nat
  data : List Byte
  deriving DecidableEq, Repr

variable {γ : Type} (png : Libpng)

/-- The loop over the rows, from the row `k` on. -/
def readRows (width rowsize : Nat) (consumers : List γ) :
    Nat → Nat → png.Reader → Buffer Byte tmpSize → InChunkedImage →
      Checked Error (List (SetRow γ) × png.Reader × InChunkedImage)
  | 0, _, reader, _, image => .ok ([], reader, image)
  | rows + 1, k, reader, tmp, image => do
    let ((row, reader), image) ← (png.readRow reader).serve InChunkedImage.readData image
    let tmp ← tmp.storeBlock 0 row
    let tmp ← swapGroups (width / 4) 0 tmp
    let data ← tmp.loadBlock 0 rowsize
    let (calls, reader, image) ← readRows width rowsize consumers rows (k + 1) reader tmp image
    return (consumers.map (⟨·, k, data⟩) ++ calls, reader, image)

/-- `set_rows_from_image_chunk`: the calls of `set_row`, and what is left of the recording. -/
def setRowsFromImageChunk (chunkType : WrmChunkType) (chunkSize : BitVec 32) (width : Nat)
    (consumers : List γ) (tmp : Buffer Byte tmpSize) (trans : List Byte) :
    Checked Error (List (SetRow γ) × List Byte) := do
  let image ← InChunkedImage.start chunkType chunkSize trans
  let ((height, rowsize, reader), image) ← png.readInfo.serve InChunkedImage.readData image
  let (calls, reader, image) ← readRows png width rowsize consumers height 0 reader tmp image
  let (_, image) ← (png.readEnd reader).serve InChunkedImage.readData image
  return (calls, image.trans)

end Read

end Redemption.Capture
