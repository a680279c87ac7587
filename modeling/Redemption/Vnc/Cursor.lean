import Redemption.Vnc.Encoder

/-! `Cursor`: the encoder that makes a pointer of the pixels and the mask of a cursor, and
`PointerLoaderVnc`. -/
namespace Redemption.Vnc

open Redemption.Foundation Redemption.Utils

/-- `nbbytes`; its result is a `uint8_t`. -/
def nbbytes (value : Nat) : Nat := (value + 7) / 8 % 2 ^ 8

def xorMaskSize : Nat := 96 * 96 * 3

def andMaskSize : Nat := 96 * 96 / 8

/-- A colour of the pixel format of the server. -/
structure Channel where
  shift : Nat
  max : Nat
  deriving DecidableEq, Repr

structure PixelFormat where
  red : Channel
  green : Channel
  blue : Channel
  deriving DecidableEq, Repr

/-- The masks of a `PointerLoaderVnc`. -/
structure PointerMasks where
  xorMask : Buffer Byte xorMaskSize
  andMask : Buffer Byte andMaskSize

/-- The pointer that is handed on: `width` and `height`, the hotspot and the masks. -/
structure VncPointer where
  width : Nat
  height : Nat
  hsx : BitVec 16
  hsy : BitVec 16
  masks : PointerMasks

def byteAt (view : List Byte) (offset : Nat) : Checked VncError Byte :=
  match view[offset]? with
  | some byte => .ok byte
  | none => .error .outOfBounds

namespace PointerLoaderVnc

/-- What a cursor is loaded from. -/
structure Source where
  Bpp : Nat
  width : Nat
  vncdata : List Byte
  vncmask : List Byte
  format : PixelFormat

def minwidth : Nat := 32

variable (source : Source)

/-- The byte `x` of a line of the mask. -/
def maskByte (sourceMaskOffsetLine x : Nat) : Checked VncError Byte :=
  if x < nbbytes source.width then do
    let byte ← byteAt source.vncmask (sourceMaskOffsetLine + x)
    return 0xFF ^^^ byte
  else .ok 0xFF

def maskLine (sourceMaskOffsetLine targetMaskOffsetLine : Nat)
    (andMask : Buffer Byte andMaskSize) : Checked VncError (Buffer Byte andMaskSize) :=
  (List.range (nbbytes minwidth)).foldlM (fun andMask x => do
    let byte ← maskByte source sourceMaskOffsetLine x
    andMask.store (targetMaskOffsetLine + x) byte) andMask

def channel (format : Channel) (pixel : Nat) : Nat := (pixel >>> format.shift) &&& format.max

def pixelBytes (format : PixelFormat) (pixel : Nat) : List Byte :=
  let red := channel format.red pixel
  let green := channel format.green pixel
  let blue := channel format.blue pixel
  [BitVec.ofNat 8 ((blue <<< 3) ||| (blue >>> 2)), BitVec.ofNat 8 ((green <<< 2) ||| (green >>> 4)),
    BitVec.ofNat 8 ((red <<< 3) ||| (red >>> 2))]

/-- The bytes of the pixel `x`; a pixel that is hidden is not read. -/
def pixelAt (hidden : Bool) (sourceOffset : Nat) : Checked VncError (List Byte) :=
  if hidden then .ok [0, 0, 0]
  else do
    let bytes ← bytesAt source.vncdata sourceOffset source.Bpp
    return pixelBytes source.format (leValue bytes)

def pixelLine (sourceOffsetLine targetOffsetLine targetMaskOffsetLine : Nat)
    (andMask : Buffer Byte andMaskSize) (xorMask : Buffer Byte xorMaskSize) :
    Checked VncError (Buffer Byte xorMaskSize) :=
  (List.range minwidth).foldlM (fun xorMask x => do
    let mask ← andMask.load (targetMaskOffsetLine + x / 8)
    let hidden := decide (source.width ≤ x) || (mask.toNat &&& (0x80 >>> (x % 8)) != 0)
    let bytes ← pixelAt source hidden (sourceOffsetLine + x * source.Bpp)
    xorMask.storeBlock (targetOffsetLine + x * 3) bytes) xorMask

/-- The line `y`; the lines of the source run from the top down. -/
def line (minheight y : Nat) (masks : PointerMasks) : Checked VncError PointerMasks := do
  let targetMaskOffsetLine := y * nbbytes minwidth
  let andMask ← maskLine source ((minheight - 1 - y) * nbbytes source.width) targetMaskOffsetLine
    masks.andMask
  let xorMask ← pixelLine source ((minheight - 1 - y) * (source.width * source.Bpp))
    (y * (minwidth * 3)) targetMaskOffsetLine andMask masks.xorMask
  return { xorMask, andMask }

/-- `load`; `masks` is what the arrays happen to hold. -/
def load (height : Nat) (masks : PointerMasks) : Checked VncError PointerMasks :=
  let minheight := min height 32
  (List.range minheight).foldlM (fun masks y => line source minheight y masks) masks

variable {source}

theorem maskLine_ok {sourceMaskOffsetLine targetMaskOffsetLine : Nat}
    (readable : sourceMaskOffsetLine + nbbytes source.width ≤ source.vncmask.length)
    (writable : targetMaskOffsetLine + nbbytes minwidth ≤ andMaskSize)
    (andMask : Buffer Byte andMaskSize) :
    ∃ mask, maskLine source sourceMaskOffsetLine targetMaskOffsetLine andMask = .ok mask := by
  apply foldlM_range_total
  intro x column andMask
  have read : ∃ byte, maskByte source sourceMaskOffsetLine x = .ok byte := by
    unfold maskByte
    by_cases inside : x < nbbytes source.width
    · have known : sourceMaskOffsetLine + x < source.vncmask.length := by omega
      rw [if_pos inside, byteAt, List.getElem?_eq_getElem known]
      exact ⟨_, rfl⟩
    · rw [if_neg inside]
      exact ⟨_, rfl⟩
  obtain ⟨byte, taken⟩ := read
  exact ⟨_, by rw [taken, ok_bind, Buffer.store_of_lt _ (by omega)]⟩

theorem pixelLine_ok {sourceOffsetLine targetOffsetLine targetMaskOffsetLine : Nat}
    (readable : sourceOffsetLine + source.width * source.Bpp ≤ source.vncdata.length)
    (writable : targetOffsetLine + minwidth * 3 ≤ xorMaskSize)
    (known : targetMaskOffsetLine + nbbytes minwidth ≤ andMaskSize)
    (andMask : Buffer Byte andMaskSize) (xorMask : Buffer Byte xorMaskSize) :
    ∃ mask, pixelLine source sourceOffsetLine targetOffsetLine targetMaskOffsetLine andMask
      xorMask = .ok mask := by
  apply foldlM_range_total
  intro x column xorMask
  have mask : x / 8 < nbbytes minwidth := by
    unfold minwidth at column
    simp only [nbbytes, minwidth]
    omega
  rw [Buffer.load_of_lt _ (show targetMaskOffsetLine + x / 8 < andMaskSize by omega), ok_bind]
  generalize hides : (decide (source.width ≤ x) ||
    (andMask.cell (targetMaskOffsetLine + x / 8)).toNat &&& (0x80 >>> (x % 8)) != 0) = hidden
  have read : ∃ bytes, pixelAt source hidden (sourceOffsetLine + x * source.Bpp) = .ok bytes ∧
      bytes.length = 3 := by
    unfold pixelAt
    by_cases shown : hidden = true
    · exact ⟨_, if_pos shown, rfl⟩
    · have inside : x < source.width := by
        by_contra outside
        apply shown
        rw [← hides, decide_eq_true (Nat.not_lt.mp outside), Bool.true_or]
      have room : x * source.Bpp + source.Bpp ≤ source.width * source.Bpp := by
        rw [← Nat.succ_mul]
        exact Nat.mul_le_mul_right _ inside
      rw [if_neg shown, bytesAt_of_le (by omega)]
      exact ⟨_, rfl, rfl⟩
  obtain ⟨bytes, taken, length⟩ := read
  simp only [taken, ok_bind]
  exact ⟨_, Buffer.storeBlock_of_le _ (by omega)⟩

/-- Where the views cover the cursor, the masks are loaded: all of it is read inside of the views
and written inside of the masks. -/
theorem load_ok {height : Nat}
    (data : height * (source.width * source.Bpp) ≤ source.vncdata.length)
    (mask : height * nbbytes source.width ≤ source.vncmask.length) (masks : PointerMasks) :
    ∃ loaded, load source height masks = .ok loaded := by
  apply foldlM_range_total
  intro y row masks
  have columns : nbbytes minwidth = 4 := by decide
  have inside : ∀ width, (min height 32 - 1 - y) * width + width ≤ height * width := by
    intro width
    rw [← Nat.succ_mul]
    exact Nat.mul_le_mul_right _ (by omega)
  have writable : y * nbbytes minwidth + nbbytes minwidth ≤ andMaskSize := by
    rw [columns]
    unfold andMaskSize
    omega
  obtain ⟨andMask, masked⟩ := maskLine_ok (Nat.le_trans (inside _) mask) writable masks.andMask
  obtain ⟨xorMask, filled⟩ := pixelLine_ok (Nat.le_trans (inside _) data)
    (by unfold minwidth xorMaskSize; omega : y * (minwidth * 3) + minwidth * 3 ≤ xorMaskSize)
    writable andMask masks.xorMask
  exact ⟨_, by rw [line, masked, ok_bind, filled]; rfl⟩

end PointerLoaderVnc

structure Cursor where
  Bpp : Nat
  rect : Rect
  format : PixelFormat
  deriving DecidableEq, Repr

namespace Cursor

variable (masks : PointerMasks) (cursor : Cursor)

/-- `operator()`. The sizes are products of `int`s, and their sum is a `size_t`. -/
def call (buf : List Byte) : Checked VncError (Answer Cursor VncPointer) :=
  if cursor.rect.isEmpty then .ok ⟨.exit, cursor, buf, []⟩
  else
    let szPixelArray := sizeOfInt (cursor.rect.cx * cursor.rect.cy * cursor.Bpp)
    let szBitmask := sizeOfInt (nbbytes cursor.rect.cx * cursor.rect.cy)
    let size := (szPixelArray + szBitmask) % 2 ^ 64
    if 65536 < size then .error (.raised .bufferTooSmall)
    else if buf.length < size then .ok ⟨.needMoreData, cursor, buf, []⟩
    else do
      let (cursorBuf, buf) ← inBytes size buf
      let loaded ← PointerLoaderVnc.load
        { Bpp := cursor.Bpp
          width := cursor.rect.cx
          vncdata := cursorBuf.take szPixelArray
          vncmask := cursorBuf.drop szPixelArray
          format := cursor.format } cursor.rect.cy masks
      return ⟨.exit, cursor, buf, [⟨PointerLoaderVnc.minwidth, min cursor.rect.cy 32, cursor.rect.x,
        cursor.rect.y, loaded⟩]⟩

variable {masks cursor}

/-- Where the number of bytes of the pixels fits an `int`, a call stays inside of the cursor. -/
theorem call_sound (fits : cursor.rect.cx * cursor.rect.cy * cursor.Bpp < 2 ^ 31)
    (lines : cursor.rect.cy ≤ 32768) (buf : List Byte) :
    Sound (cursor.call masks buf) fun answer => answer.encoder = cursor := by
  have mask : nbbytes cursor.rect.cx * cursor.rect.cy < 2 ^ 31 := by
    have small : nbbytes cursor.rect.cx ≤ 255 := by
      unfold nbbytes
      omega
    calc nbbytes cursor.rect.cx * cursor.rect.cy ≤ 255 * 32768 := Nat.mul_le_mul small lines
      _ < 2 ^ 31 := by decide
  unfold call
  simp only [sizeOfInt_eq fits, sizeOfInt_eq mask]
  rw [Nat.mod_eq_of_lt (by omega)]
  apply sound_ite
  · intro _
    exact sound_ok rfl
  · intro _
    apply sound_ite
    · intro _
      exact sound_raised _
    · intro _
      apply sound_ite
      · intro _
        exact sound_ok rfl
      · intro long
        apply (sound_inBytes (Nat.not_lt.mp long)).bind
        intro ⟨cursorBuf, rest⟩ ⟨length, _⟩
        simp only at length ⊢
        obtain ⟨loaded, ran⟩ := @PointerLoaderVnc.load_ok
          { Bpp := cursor.Bpp
            width := cursor.rect.cx
            vncdata := cursorBuf.take (cursor.rect.cx * cursor.rect.cy * cursor.Bpp)
            vncmask := cursorBuf.drop (cursor.rect.cx * cursor.rect.cy * cursor.Bpp)
            format := cursor.format } cursor.rect.cy
          (by
            rw [List.length_take_of_le (by omega)]
            exact Nat.le_of_eq (by ring))
          (by rw [List.length_drop, length, Nat.add_sub_cancel_left, Nat.mul_comm]) masks
        rw [ran]
        exact sound_ok rfl

end Cursor

end Redemption.Vnc
