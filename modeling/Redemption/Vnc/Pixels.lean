import Redemption.Foundation.Region
import Redemption.Vnc.Encoder

/-! Pixels as bytes, and the orders that draw them. -/
namespace Redemption.Vnc

open Redemption.Foundation Redemption.Utils

def pixelBytes (Bpp : Nat) (pixels : List Nat) : List Byte := pixels.flatMap (leBytes Bpp)

section Pixels

variable {Bpp : Nat}

theorem pixelBytes_append (front back : List Nat) :
    pixelBytes Bpp (front ++ back) = pixelBytes Bpp front ++ pixelBytes Bpp back :=
  List.flatMap_append

@[simp] theorem length_pixelBytes (pixels : List Nat) :
    (pixelBytes Bpp pixels).length = pixels.length * Bpp :=
  Buffer.length_flatMap_group (length_leBytes Bpp) pixels

theorem bytes_at_pixel {pixels : List Nat} {index pixel : Nat}
    (stands : pixels[index]? = some pixel) (rest : List Byte) :
    ((pixelBytes Bpp pixels ++ rest).drop (index * Bpp)).take Bpp = leBytes Bpp pixel := by
  obtain ⟨bounded, value⟩ := List.getElem?_eq_some_iff.mp stands
  have within : index * Bpp + Bpp ≤ (pixelBytes Bpp pixels).length := by
    rw [length_pixelBytes, ← Nat.succ_mul]
    exact Nat.mul_le_mul_right _ bounded
  rw [List.drop_append_of_le_length (by omega),
    List.take_append_of_le_length (by rw [List.length_drop]; omega), pixelBytes,
    Buffer.flatMap_group (length_leBytes Bpp) pixels bounded, value]

end Pixels

/-- An order that draws the pixels, line by line, on an area. -/
def Draws (area : Area) (pixels : List Nat) (drawn : Drawn) : Prop :=
  drawn.area = area ∧
    ∀ x y, x < area.width → y < area.height → pixels[y * area.width + x]? = some (drawn.pixel x y)

section Draw

variable {Bpp : Nat} {tile : Rect}

theorem place_lt {width height x y : Nat} (inside : x < width) (high : y < height) :
    y * width + x < width * height := by
  calc y * width + x < y * width + width := Nat.add_lt_add_left inside _
    _ = width * (y + 1) := by ring
    _ ≤ width * height := Nat.mul_le_mul_left _ high

theorem drawTile_ok {pixels : List Nat} (count : pixels.length = tile.cx * tile.cy)
    (small : ∀ pixel ∈ pixels, pixel < 2 ^ (8 * Bpp)) (behind : List Byte) :
    ∃ drawn, drawTile Bpp tile (pixelBytes Bpp pixels ++ behind) = .ok drawn ∧
      Draws tile.area pixels drawn := by
  have room : tile.cx * (0 + tile.cy) * Bpp ≤ (pixelBytes Bpp pixels ++ behind).length := by
    rw [List.length_append, length_pixelBytes, count, Nat.zero_add]
    exact Nat.le_add_right _ _
  obtain ⟨bmp, copied, same⟩ := @Bitmap.ofRaw_ok VncError _ tile.cx Bpp 0 0 tile.cx tile.cy
    (Nat.le_of_eq (Nat.zero_add _)) room
  refine ⟨.memBlt tile bmp, by rw [drawTile, copied]; rfl, rfl, ?_⟩
  intro x y inside high
  have bounded : y * tile.cx + x < pixels.length := by
    rw [count]
    exact place_lt inside high
  have known := List.getElem?_eq_getElem bounded
  have value : bmp.pixel x y = pixels[y * tile.cx + x] := by
    rw [same x y inside high, Nat.zero_add, Nat.zero_add, rawPixel, bytes_at_pixel known,
      leValue_leBytes, Nat.mod_eq_of_lt (small _ (List.getElem_mem bounded))]
  change pixels[y * tile.cx + x]? = some (bmp.pixel x y)
  rw [known, value]

theorem drawTile_append {pixels : List Nat} (count : pixels.length = tile.cx * tile.cy)
    (behind : List Byte) :
    drawTile Bpp tile (pixelBytes Bpp pixels ++ behind) =
      drawTile Bpp tile (pixelBytes Bpp pixels) := by
  rw [drawTile, Bitmap.ofRaw_append (Nat.le_of_eq (Nat.zero_add _))
    (by rw [length_pixelBytes, count, Nat.zero_add]), ← drawTile]

end Draw

end Redemption.Vnc
