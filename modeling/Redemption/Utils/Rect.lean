import Redemption.Foundation.TileGrid
import Redemption.Foundation.ByteStream

/-! `Rect`, and the `Bitmap` that is made of a part of a raw image. -/
namespace Redemption.Utils

open Redemption.Foundation

/-- `Rect`; its coordinates are 16-bit numbers with a sign. -/
structure Rect where
  x : BitVec 16
  y : BitVec 16
  cx : Nat
  cy : Nat
  deriving DecidableEq, Repr

theorem toInt_ofNat_small {value : Nat} (small : value < 2 ^ 15) :
    (BitVec.ofNat 16 value).toInt = value := by
  rw [BitVec.toInt_eq_toNat_of_lt (by rw [BitVec.toNat_ofNat]; omega), BitVec.toNat_ofNat,
    Nat.mod_eq_of_lt (by omega)]

namespace Rect

/-- The constructor: widths and heights outside of 1 to 32768 make an empty rectangle. -/
def of (left top : BitVec 16) (width height : Nat) : Rect :=
  if (0 < width ∧ width ≤ 32768) ∧ (0 < height ∧ height ≤ 32768) then ⟨left, top, width, height⟩
  else ⟨left, top, 0, 0⟩

def isEmpty (rect : Rect) : Bool := rect.cx == 0 || rect.cy == 0

/-- The pixels that a rectangle stands for. -/
def area (rect : Rect) : Area := ⟨rect.x.toInt, rect.y.toInt, rect.cx, rect.cy⟩

theorem of_eq {left top : BitVec 16} {width height : Nat}
    (wide : 0 < width ∧ width ≤ 32768) (high : 0 < height ∧ height ≤ 32768) :
    of left top width height = ⟨left, top, width, height⟩ := if_pos ⟨wide, high⟩

theorem of_nonEmpty {left top : BitVec 16} {width height : Nat}
    (some' : (of left top width height).isEmpty = false) :
    ((0 < width ∧ width ≤ 32768) ∧ 0 < height ∧ height ≤ 32768) ∧
      of left top width height = ⟨left, top, width, height⟩ := by
  unfold of at some' ⊢
  split at some'
  · rename_i sizes
    exact ⟨sizes, if_pos sizes⟩
  · cases some'

theorem isEmpty_eq_false {rect : Rect} :
    rect.isEmpty = false ↔ 0 < rect.cx ∧ 0 < rect.cy := by
  simp [isEmpty, Nat.pos_iff_ne_zero]

end Rect

/-- `Bitmap`: its lines from the bottom up, padded to a width that is a multiple of four. -/
structure Bitmap where
  cx : Nat
  cy : Nat
  Bpp : Nat
  lines : List (List Byte)
  deriving DecidableEq, Repr

def align4 (value : Nat) : Nat := (value + 3) / 4 * 4

/-- The bytes that stand at an offset of a block of memory. -/
def bytesAt {ε : Type} (memory : List Byte) (offset length : Nat) : Checked ε (List Byte) :=
  if offset + length ≤ memory.length then .ok ((memory.drop offset).take length)
  else .error .outOfBounds

/-- The pixel of a raw image, whose lines run from the top down. -/
def rawPixel (raw : List Byte) (width Bpp x y : Nat) : Nat :=
  leValue ((raw.drop ((y * width + x) * Bpp)).take Bpp)

namespace Bitmap

/-- The line of the loop that copies the lower lines first. -/
def copiedLine {ε : Type} (raw : List Byte) (vncCx Bpp left top cx cy index : Nat) :
    Checked ε (List Byte) := do
  let line ← bytesAt raw (vncCx * Bpp * (top + cy - 1 - index) + left * Bpp) (cx * Bpp)
  return line ++ List.replicate (align4 cx * Bpp - cx * Bpp) 0

/-- `Bitmap(vnc_raw, vnc_cx, vnc_cy, vnc_bpp, tile)`. -/
def ofRaw {ε : Type} (raw : List Byte) (vncCx Bpp left top cx cy : Nat) : Checked ε Bitmap := do
  let lines ← (List.range cy).mapM (copiedLine raw vncCx Bpp left top cx cy)
  return { cx := align4 cx, cy, Bpp, lines }

/-- The pixel in column `x` of the line `y` from the top. -/
def pixel (bmp : Bitmap) (x y : Nat) : Nat :=
  leValue (((bmp.lines.getD (bmp.cy - 1 - y) []).drop (x * bmp.Bpp)).take bmp.Bpp)

end Bitmap

theorem bytesAt_of_le {ε : Type} {memory : List Byte} {offset length : Nat}
    (room : offset + length ≤ memory.length) :
    (bytesAt memory offset length : Checked ε _) = .ok ((memory.drop offset).take length) :=
  if_pos room

namespace Bitmap

variable {ε : Type} {raw : List Byte} {vncCx Bpp left top cx cy : Nat}

private theorem line_room (wide : left + cx ≤ vncCx) (room : vncCx * (top + cy) * Bpp ≤ raw.length)
    {line : Nat} (bounded : line < top + cy) :
    vncCx * Bpp * line + left * Bpp + cx * Bpp ≤ raw.length := by
  calc vncCx * Bpp * line + left * Bpp + cx * Bpp
      = vncCx * Bpp * line + (left + cx) * Bpp := by rw [Nat.add_mul]; omega
    _ ≤ vncCx * Bpp * line + vncCx * Bpp :=
        Nat.add_le_add_left (Nat.mul_le_mul_right _ wide) _
    _ = vncCx * (line + 1) * Bpp := by ring
    _ ≤ vncCx * (top + cy) * Bpp :=
        Nat.mul_le_mul_right _ (Nat.mul_le_mul_left _ bounded)
    _ ≤ raw.length := room

private theorem pixel_of_padded {line padding : List Byte} {width start length : Nat}
    (within : start + length ≤ width) (long : width ≤ line.length) :
    ((line.take width ++ padding).drop start).take length =
      (line.drop start).take length := by
  have front : (line.take width).length = width := List.length_take_of_le long
  rw [List.drop_append_of_le_length (by omega),
    List.take_append_of_le_length (by rw [List.length_drop]; omega), List.drop_take,
    List.take_take]
  congr 1
  omega

private theorem ofRaw_eq (wide : left + cx ≤ vncCx)
    (room : vncCx * (top + cy) * Bpp ≤ raw.length) :
    (ofRaw raw vncCx Bpp left top cx cy : Checked ε _) = .ok
      { cx := align4 cx, cy, Bpp,
        lines := (List.range cy).map fun index =>
          (raw.drop (vncCx * Bpp * (top + cy - 1 - index) + left * Bpp)).take (cx * Bpp) ++
            List.replicate (align4 cx * Bpp - cx * Bpp) 0 } := by
  have lines : (List.range cy).mapM (copiedLine (ε := ε) raw vncCx Bpp left top cx cy) =
      .ok ((List.range cy).map fun index =>
        (raw.drop (vncCx * Bpp * (top + cy - 1 - index) + left * Bpp)).take (cx * Bpp) ++
          List.replicate (align4 cx * Bpp - cx * Bpp) 0) := by
    apply mapM_ok
    intro index member
    have bounded := List.mem_range.mp member
    rw [copiedLine, bytesAt_of_le (line_room wide room (by omega))]
    rfl
  rw [ofRaw, lines]
  rfl

theorem ofRaw_append (wide : left + cx ≤ vncCx) (room : vncCx * (top + cy) * Bpp ≤ raw.length)
    (behind : List Byte) :
    (ofRaw (raw ++ behind) vncCx Bpp left top cx cy : Checked ε _) =
      ofRaw raw vncCx Bpp left top cx cy := by
  rw [ofRaw_eq wide room, ofRaw_eq wide (by rw [List.length_append]; omega)]
  congr 2
  apply List.map_congr_left
  intro index member
  have bounded := List.mem_range.mp member
  have line := line_room wide room (show top + cy - 1 - index < top + cy by omega)
  rw [List.drop_append_of_le_length (by omega),
    List.take_append_of_le_length (by rw [List.length_drop]; omega)]

/-- A part that lies inside of the image is copied pixel by pixel. -/
theorem ofRaw_ok (wide : left + cx ≤ vncCx) (room : vncCx * (top + cy) * Bpp ≤ raw.length) :
    ∃ bmp : Bitmap, (ofRaw raw vncCx Bpp left top cx cy : Checked ε _) = .ok bmp ∧
      ∀ x y, x < cx → y < cy → bmp.pixel x y = rawPixel raw vncCx Bpp (left + x) (top + y) := by
  refine ⟨_, ofRaw_eq wide room, ?_⟩
  intro x y inside high
  have line : top + cy - 1 - (cy - 1 - y) = top + y := by omega
  have whole : vncCx * Bpp * (top + y) + left * Bpp + cx * Bpp ≤ raw.length :=
    line_room wide room (by omega)
  have within : x * Bpp + Bpp ≤ cx * Bpp := by
    rw [← Nat.succ_mul]
    exact Nat.mul_le_mul_right _ inside
  have place : vncCx * Bpp * (top + y) + left * Bpp + x * Bpp =
      ((top + y) * vncCx + (left + x)) * Bpp := by ring
  rw [pixel, rawPixel, List.getD_eq_getElem?_getD,
    List.getElem?_eq_getElem (by simp only [List.length_map, List.length_range]; omega),
    Option.getD_some, List.getElem_map, List.getElem_range, line,
    pixel_of_padded within (by rw [List.length_drop]; omega), List.drop_drop, place]

end Bitmap

end Redemption.Utils
