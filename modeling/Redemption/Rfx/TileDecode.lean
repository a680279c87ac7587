import Redemption.Foundation.Sound
import Redemption.Rfx.Rlgr

/-! The components of a tile: what `TS_RFX_TILE::draw` does with their data. -/
namespace Redemption.Rfx

open Redemption.Foundation

inductive RfxError where
  | errMcsPduTruncated
  deriving DecidableEq, Repr

/-- `TS_RFX_CODEC_QUANT` -/
structure TsRfxCodecQuant where
  ll3 : BitVec 8
  lh3 : BitVec 8
  hl3 : BitVec 8
  hh3 : BitVec 8
  lh2 : BitVec 8
  hl2 : BitVec 8
  hh2 : BitVec 8
  lh1 : BitVec 8
  hl1 : BitVec 8
  hh1 : BitVec 8
  deriving DecidableEq, Repr

/-- `int16_t[4096+16+8]` -/
abbrev Coefficients := Buffer (BitVec 16) (4096 + 16 + 8)

/-- `int16_t[4096]` -/
abbrev DwtBuffer := Buffer (BitVec 16) 4096

/-- What is left of an `int` in an `int16_t`. -/
def toInt16 (value : Int) : BitVec 16 := BitVec.ofInt 16 value

section Dwt

variable {size : Nat}

/-- An even coefficient of a line: `low` and `high` are where the line starts in the sub-bands. -/
def evenInRow (buffer : Buffer (BitVec 16) size) (low high dst n : Nat) (idwt : DwtBuffer) :
    Checked RfxError DwtBuffer := do
  let l ← buffer.load (low + n)
  let before ← buffer.load (if n = 0 then high else high + (n - 1))
  let h ← buffer.load (high + n)
  idwt.store (dst + n * 2) (toInt16 (l.toInt - ((before.toInt + h.toInt + 1) >>> (1 : Nat))))

/-- An odd coefficient of a line; the last one has no even one behind it. -/
def oddInRow (buffer : Buffer (BitVec 16) size) (subbandWidth high dst n : Nat) (idwt : DwtBuffer) :
    Checked RfxError DwtBuffer := do
  let h ← buffer.load (high + n)
  let before ← idwt.load (dst + n * 2)
  if n + 1 < subbandWidth then do
    let behind ← idwt.load (dst + (n * 2 + 2))
    idwt.store (dst + (n * 2 + 1)) (toInt16 (h.toInt * 2 + ((before.toInt + behind.toInt) >>> (1 : Nat))))
  else idwt.store (dst + (n * 2 + 1)) (toInt16 (h.toInt * 2 + before.toInt))

/-- A line of the transform in horizontal direction, for one of the two parts. -/
def decodeRow (buffer : Buffer (BitVec 16) size) (subbandWidth low high dst : Nat) (idwt : DwtBuffer) :
    Checked RfxError DwtBuffer := do
  let idwt ← (List.range subbandWidth).foldlM (fun idwt n => evenInRow buffer low high dst n idwt)
    idwt
  (List.range subbandWidth).foldlM (fun idwt n => oddInRow buffer subbandWidth high dst n idwt) idwt

/-- The transform in horizontal direction, of the block at `start`. -/
def decodeRows (buffer : Buffer (BitVec 16) size) (start subbandWidth : Nat) (idwt : DwtBuffer) :
    Checked RfxError DwtBuffer :=
  let size := subbandWidth * subbandWidth
  (List.range subbandWidth).foldlM (fun idwt y => do
    let idwt ← decodeRow buffer subbandWidth (start + size * 3 + y * subbandWidth)
      (start + y * subbandWidth) (y * (subbandWidth * 2)) idwt
    decodeRow buffer subbandWidth (start + size + y * subbandWidth)
      (start + size * 2 + y * subbandWidth) (size * 2 + y * (subbandWidth * 2)) idwt) idwt

/-- An even coefficient of a column. -/
def evenInColumn (idwt : DwtBuffer) (start subbandWidth x n : Nat) (buffer : Buffer (BitVec 16) size) :
    Checked RfxError (Buffer (BitVec 16) size) := do
  let l ← idwt.load (n * (subbandWidth * 2) + x)
  let before ← idwt.load ((if n = 0 then subbandWidth else n - 1 + subbandWidth) *
    (subbandWidth * 2) + x)
  let h ← idwt.load ((n + subbandWidth) * (subbandWidth * 2) + x)
  buffer.store (start + (n * 2 * (subbandWidth * 2) + x))
    (toInt16 (l.toInt - ((before.toInt + h.toInt + 1) >>> (1 : Nat))))

/-- An odd coefficient of a column. -/
def oddInColumn (idwt : DwtBuffer) (start subbandWidth x n : Nat) (buffer : Buffer (BitVec 16) size) :
    Checked RfxError (Buffer (BitVec 16) size) := do
  let h ← idwt.load ((n + subbandWidth) * (subbandWidth * 2) + x)
  let before ← buffer.load (start + (n * 2 * (subbandWidth * 2) + x))
  let behind ← buffer.load (start + ((if n + 1 < subbandWidth then n * 2 + 2 else n * 2) *
    (subbandWidth * 2) + x))
  buffer.store (start + ((n * 2 + 1) * (subbandWidth * 2) + x))
    (toInt16 (h.toInt * 2 + ((before.toInt + behind.toInt) >>> (1 : Nat))))

/-- The transform in vertical direction, into the block at `start`. -/
def decodeColumns (idwt : DwtBuffer) (start subbandWidth : Nat) (buffer : Buffer (BitVec 16) size) :
    Checked RfxError (Buffer (BitVec 16) size) :=
  (List.range (subbandWidth * 2)).foldlM (fun buffer x => do
    let buffer ← (List.range subbandWidth).foldlM
      (fun buffer n => evenInColumn idwt start subbandWidth x n buffer) buffer
    (List.range subbandWidth).foldlM
      (fun buffer n => oddInColumn idwt start subbandWidth x n buffer) buffer) buffer

/-- `rfx_dwt_2d_decode_block` -/
def rfxDwt2dDecodeBlock (start subbandWidth : Nat) (buffers : Buffer (BitVec 16) size × DwtBuffer) :
    Checked RfxError (Buffer (BitVec 16) size × DwtBuffer) := do
  let idwt ← decodeRows buffers.1 start subbandWidth buffers.2
  let buffer ← decodeColumns idwt start subbandWidth buffers.1
  return (buffer, idwt)

/-- `Dwt::decode_2d` -/
def decode2d (buffer : Buffer (BitVec 16) size) (dwtBuffer : DwtBuffer) :
    Checked RfxError (Buffer (BitVec 16) size) := do
  let buffers ← rfxDwt2dDecodeBlock 3840 8 (buffer, dwtBuffer)
  let buffers ← rfxDwt2dDecodeBlock 3072 16 buffers
  let buffers ← rfxDwt2dDecodeBlock 0 32 buffers
  return buffers.1

end Dwt

section Component

/-- `differential_decode`, of the last 64 coefficients. -/
def differentialDecode (buffer : Coefficients) : Checked RfxError Coefficients :=
  (List.range' 4032 63).foldlM (fun buffer place => do
    let before ← buffer.load place
    let value ← buffer.load (place + 1)
    buffer.store (place + 1) (value + before)) buffer

/-- `rfx_quantization_decode_block`; a shift of an `int16_t` by sixteen or more stops the run as a
bad access does. -/
def rfxQuantizationDecodeBlock (start size : Nat) (factor : BitVec 32) (buffer : Coefficients) :
    Checked RfxError Coefficients :=
  if factor = 0 then .ok buffer
  else if 16 ≤ factor.toNat then .error .outOfBounds
  else
    (List.range' start size).foldlM (fun buffer place => do
      let value ← buffer.load place
      buffer.store place (value <<< factor.toNat)) buffer

/-- `quants.hl1 - 1`, an `int` that becomes a `uint32_t`. -/
def quantFactor (quant : BitVec 8) : BitVec 32 := quant.setWidth 32 - 1

/-- The sub-bands: where they start, their sizes and their quantization values. -/
def TsRfxCodecQuant.subBands (quants : TsRfxCodecQuant) : List (Nat × Nat × BitVec 8) :=
  [(0, 1024, quants.hl1), (1024, 1024, quants.lh1), (2048, 1024, quants.hh1),
    (3072, 256, quants.hl2), (3328, 256, quants.lh2), (3584, 256, quants.hh2),
    (3840, 64, quants.hl3), (3904, 64, quants.lh3), (3968, 64, quants.hh3), (4032, 64, quants.ll3)]

/-- `quantization_decode` -/
def quantizationDecode (quants : TsRfxCodecQuant) (buffer : Coefficients) :
    Checked RfxError Coefficients :=
  quants.subBands.foldlM (fun buffer (start, size, quant) =>
    rfxQuantizationDecodeBlock start size (quantFactor quant) buffer) buffer

/-- `Rlgr::decode`, into a buffer: what it does not write stays as memory happens to be. -/
def rlgrDecode (mode : RlgrMode) (data : List Byte) (output : Coefficients) :
    Checked RfxError Coefficients :=
  match Rlgr.decode mode data 4096 with
  | .ok (_, written) => output.storeBlock 0 written
  | .error _ => .error .outOfBounds

/-- `decodeComponent` -/
def decodeComponent (quant : TsRfxCodecQuant) (mode : RlgrMode) (data : List Byte)
    (memory : Nat → BitVec 16) : Checked RfxError Coefficients := do
  let output ← rlgrDecode mode data ⟨memory⟩
  let output ← differentialDecode output
  let output ← quantizationDecode quant output
  decode2d output ⟨memory⟩

end Component

section Draw

/-- `CLIP` -/
def clip (value : BitVec 32) : Byte :=
  if 255 < value.toInt then 255 else if value.toInt < 0 then 0 else value.setWidth 8

/-- A component of a pixel: the sixteen bits above the divisor, shifted. -/
def component (value : BitVec 32) : Byte :=
  clip ((((value.sshiftRight 16).setWidth 16).signExtend 32).sshiftRight 5)

/-- `writePixelBGRX`, of the conversion from `YCbCr`. -/
def pixelOf (y cb cr : BitVec 16) : List Byte :=
  let y32 := (y.signExtend 32 + 4096) <<< 16
  let crR := cr.signExtend 32 * 91915
  let crG := cr.signExtend 32 * 46818
  let cbG := cb.signExtend 32 * 22526
  let cbB := cb.signExtend 32 * 115992
  [component (cbB + y32), component (y32 - cbG - crG), component (crR + y32), 0xFF]

/-- `yCbCrToRGB_16s8u_P3AC4R`, of 64 lines of 64 pixels that are written from `dest` on. -/
def yCbCrToRGB {size : Nat} (y cb cr : Coefficients) (dest stride : Nat) (data : Buffer Byte size) :
    Checked RfxError (Buffer Byte size) :=
  (List.range 64).foldlM (fun data row =>
    (List.range 64).foldlM (fun data x => do
      let yValue ← y.load (row * 64 + x)
      let cbValue ← cb.load (row * 64 + x)
      let crValue ← cr.load (row * 64 + x)
      data.storeBlock (dest + row * stride + x * 4) (pixelOf yValue cbValue crValue)) data) data

end Draw

end Redemption.Rfx
