import Redemption.Planar.Bitmap60

/-! `rle_decompress60` on an image whose lines are padded: where the pixels of a bitmap are. -/
namespace Redemption.Planar

open Redemption.Foundation

/-- A bitmap as it is sent: its planes, and the bits and bytes that mean nothing. -/
structure EncodedBitmap where
  srcCx : Nat
  srcCy : Nat
  narrow : srcCx < 2 ^ 16
  flat : srcCy < 2 ^ 16
  alpha : Option (Plane srcCx srcCy)
  red : Plane srcCx srcCy
  green : Plane srcCx srcCy
  blue : Plane srcCx srcCy
  reserved : Byte
  pad : Byte

namespace EncodedBitmap

variable (bitmap : EncodedBitmap)

def formatHeader (rle : Bool) : Byte :=
  (bitmap.reserved &&& 0xC0) ||| (if rle then 0x10 else 0) |||
    (if bitmap.alpha.isNone then 0x20 else 0)

/-- With run-length encoded planes. -/
def rleStream : List Byte :=
  bitmap.formatHeader true :: ((match bitmap.alpha with | some alpha => alpha.bytes | none => []) ++
    (bitmap.red.bytes ++ (bitmap.green.bytes ++ (bitmap.blue.bytes ++ []))))

/-- With raw planes. -/
def rawStream : List Byte :=
  bitmap.formatHeader false :: ((match bitmap.alpha with | some alpha => alpha.raw | none => []) ++
    (bitmap.red.raw ++ (bitmap.green.raw ++ (bitmap.blue.raw ++ [bitmap.pad]))))

def pixel (bitsPerPixel : BitsPerPixel) (x y : Nat) : List Byte :=
  pixelBytes bitsPerPixel.bytesPerColor (bitmap.red.value x y) (bitmap.green.value x y)
    (bitmap.blue.value x y)

/-- The width of an image for the bitmap. -/
abbrev cx : Nat := align4 bitmap.srcCx

/-- The image of a run-length encoded bitmap has its pixels, and so has the image of the raw one,
whatever was in the memory that is allocated for the planes. -/
def PutsPixels (bitsPerPixel : BitsPerPixel) : Prop :=
  ∀ memory other, ∃ pixels raw,
    rleDecompress60 bitsPerPixel bitmap.cx bitmap.srcCy bitmap.srcCx bitmap.srcCy memory
        bitmap.rleStream = .ok (some pixels) ∧
      rleDecompress60 bitsPerPixel bitmap.cx bitmap.srcCy bitmap.srcCx bitmap.srcCy other
        bitmap.rawStream = .ok (some raw) ∧
      ∀ x < bitmap.srcCx, ∀ y < bitmap.srcCy,
        pixels[bitmap.cx * y + x]? = some (bitmap.pixel bitsPerPixel x y) ∧
          raw[bitmap.cx * y + x]? = some (bitmap.pixel bitsPerPixel x y)

/-- The image has lines as long as those of the bitmap, or one line, and neither its width nor
the size of its planes wraps; or there is no line. -/
def StrideAgrees : Prop :=
  bitmap.srcCy = 0 ∨
    bitmap.srcCx ≤ 65532 ∧ bitmap.cx * bitmap.srcCy * 3 < 2 ^ 32 ∧
      (bitmap.srcCx % 4 = 0 ∨ bitmap.srcCy = 1)

private theorem header_flags : ∀ reserved : Byte, ∀ rle noAlpha : Bool,
    ((reserved &&& 0xC0) ||| (if rle then 0x10 else 0) ||| (if noAlpha then 0x20 else 0)) &&&
        0x07 = 0 ∧
      (((((reserved &&& 0xC0) ||| (if rle then 0x10 else 0) ||| (if noAlpha then 0x20 else 0)) &&&
        0x08) >>> 3 == 1) = false) ∧
      (((((reserved &&& 0xC0) ||| (if rle then 0x10 else 0) ||| (if noAlpha then 0x20 else 0)) &&&
        0x10) >>> 4 == 1) = rle) ∧
      (((((reserved &&& 0xC0) ||| (if rle then 0x10 else 0) ||| (if noAlpha then 0x20 else 0)) &&&
        0x20) >>> 5 == 1) = noAlpha) := by decide

/-- The pixels that are made of planes of this size. -/
def planePixels {capacity : Nat} (bitsPerPixel : BitsPerPixel) (colorPlaneSize : Nat)
    (memory : Buffer Byte capacity) : List (List Byte) :=
  (List.range colorPlaneSize).map fun index => pixelBytes bitsPerPixel.bytesPerColor
    (memory.cell index) (memory.cell (colorPlaneSize + index))
    (memory.cell (colorPlaneSize * 2 + index))

private theorem copyPlanes_run {capacity : Nat} (bitsPerPixel : BitsPerPixel)
    {colorPlaneSize : Nat} (memory : Buffer Byte capacity)
    (room : colorPlaneSize * 3 ≤ capacity) :
    copyPlanes bitsPerPixel.bytesPerColor colorPlaneSize 0 colorPlaneSize (colorPlaneSize * 2)
      memory = .ok (planePixels bitsPerPixel colorPlaneSize memory) := by
  apply mapM_ok
  intro index member
  have inside := List.mem_range.mp member
  simp only [Nat.zero_add, Buffer.load_of_lt memory (by omega : index < capacity),
    Buffer.load_of_lt memory (by omega : colorPlaneSize + index < capacity),
    Buffer.load_of_lt memory (by omega : colorPlaneSize * 2 + index < capacity), ok_bind, pure_ok]

/-- What `rle_decompress60` does once the header is read. -/
private theorem rleDecompress60_eq (bitsPerPixel : BitsPerPixel) (rle : Bool) (data : List Byte)
    {cx cy srcCx srcCy : Nat} (memory : Buffer Byte (planesSize cx cy)) :
    rleDecompress60 bitsPerPixel cx cy srcCx srcCy memory (bitmap.formatHeader rle :: data) =
      (do
        let (dataSize, memory) ←
          colorPlanes rle bitmap.alpha.isNone srcCx srcCy cx (cx * cy) data memory
        if dataSize ≠ 0 then .error (.raised .assertionFailed)
        else
          let pixels ← copyPlanes bitsPerPixel.bytesPerColor (cx * cy) 0 (cx * cy)
            (cx * cy * 2 % 2 ^ 32) memory
          return some pixels) := by
  obtain ⟨loss, subsampling, flag, alpha⟩ :=
    header_flags bitmap.reserved rle bitmap.alpha.isNone
  unfold rleDecompress60 formatHeader
  simp only [inUint8, ok_bind, loss, subsampling, flag, alpha]
  rfl

section Planes

variable {capacity : Nat} (memory : Buffer Byte capacity)

/-- The memory after the planes have been decompressed into it; that of the red plane is used for
the alpha plane before. -/
def laidPlanes : Buffer Byte capacity :=
  let colorPlaneSize := bitmap.cx * bitmap.srcCy
  let memory := match bitmap.alpha with
    | some alpha => alpha.laid bitmap.cx 0 memory
    | none => memory
  bitmap.blue.laid bitmap.cx (colorPlaneSize * 2)
    (bitmap.green.laid bitmap.cx colorPlaneSize (bitmap.red.laid bitmap.cx 0 memory))

variable {bitmap}

private theorem colorPlanes_rle (fits : bitmap.srcCx ≤ bitmap.cx ∨ bitmap.srcCy = 0)
    (small : bitmap.cx * bitmap.srcCy * 3 < 2 ^ 32)
    (room : bitmap.cx * bitmap.srcCy * 3 ≤ capacity) :
    colorPlanes true bitmap.alpha.isNone bitmap.srcCx bitmap.srcCy bitmap.cx
        (bitmap.cx * bitmap.srcCy) bitmap.rleStream.tail memory =
      .ok (0, bitmap.laidPlanes memory) := by
  have unwrapped : bitmap.cx * bitmap.srcCy * 2 % 2 ^ 32 = bitmap.cx * bitmap.srcCy * 2 :=
    Nat.mod_eq_of_lt (by omega)
  have plane : ∀ (plane : Plane bitmap.srcCx bitmap.srcCy) (colorPlane : Nat)
      (memory : Buffer Byte capacity) (rest : List Byte),
      colorPlane + bitmap.cx * bitmap.srcCy ≤ capacity →
      decompressColorPlane bitmap.srcCx bitmap.srcCy bitmap.cx colorPlane (plane.bytes ++ rest)
        memory = .ok (rest, plane.laid bitmap.cx colorPlane memory) :=
    fun plane colorPlane memory rest room =>
      decompressColorPlane_run plane bitmap.narrow bitmap.flat fits room rest
  unfold colorPlanes rleStream laidPlanes
  cases bitmap.alpha with
  | none =>
    simp only [if_true, List.tail_cons, List.nil_append, Option.isNone_none, ok_bind, unwrapped]
    rw [plane _ _ _ _ (by omega)]
    simp only [ok_bind]
    rw [plane _ _ _ _ (by omega)]
    simp only [ok_bind]
    rw [plane _ _ _ _ (by omega)]
    rfl
  | some alpha =>
    simp only [if_true, List.tail_cons, Option.isNone_some, Bool.false_eq_true, if_false,
      unwrapped]
    rw [plane _ _ _ _ (by omega)]
    simp only [ok_bind]
    rw [plane _ _ _ _ (by omega)]
    simp only [ok_bind]
    rw [plane _ _ _ _ (by omega)]
    simp only [ok_bind]
    rw [plane _ _ _ _ (by omega)]
    rfl

/-- The three planes have their values. -/
structure HasPlanes (bitmap : EncodedBitmap) (memory : Buffer Byte capacity) : Prop where
  red : ∀ x < bitmap.srcCx, ∀ y < bitmap.srcCy,
    memory.cell (bitmap.cx * y + x) = bitmap.red.value x y
  green : ∀ x < bitmap.srcCx, ∀ y < bitmap.srcCy,
    memory.cell (bitmap.cx * bitmap.srcCy + (bitmap.cx * y + x)) = bitmap.green.value x y
  blue : ∀ x < bitmap.srcCx, ∀ y < bitmap.srcCy,
    memory.cell (bitmap.cx * bitmap.srcCy * 2 + (bitmap.cx * y + x)) = bitmap.blue.value x y

private theorem place_lt {cx width height x y : Nat} (fits : width ≤ cx) (inside : x < width)
    (below : y < height) : cx * y + x < cx * height := by
  have reach : cx * (y + 1) ≤ cx * height := Nat.mul_le_mul_left cx below
  have span : cx * (y + 1) = cx * y + cx := Nat.mul_succ cx y
  omega

private theorem colorPlanes_raw (fits : bitmap.srcCx ≤ bitmap.cx ∨ bitmap.srcCy = 0)
    (small : bitmap.cx * bitmap.srcCy * 3 < 2 ^ 32)
    (room : bitmap.cx * bitmap.srcCy * 3 ≤ capacity) :
    ∃ memory', colorPlanes false bitmap.alpha.isNone bitmap.srcCx bitmap.srcCy bitmap.cx
        (bitmap.cx * bitmap.srcCy) bitmap.rawStream.tail memory = .ok (0, memory') ∧
      HasPlanes bitmap memory' := by
  have unwrapped : bitmap.cx * bitmap.srcCy * 2 % 2 ^ 32 = bitmap.cx * bitmap.srcCy * 2 :=
    Nat.mod_eq_of_lt (by omega)
  obtain ⟨memory₁, red, reds, _⟩ := @inCopyColorPlan_run _ _ _ bitmap.red bitmap.cx 0 fits memory
    (by omega) (bitmap.green.raw ++ (bitmap.blue.raw ++ [bitmap.pad]))
  obtain ⟨memory₂, green, greens, beside⟩ := @inCopyColorPlan_run _ _ _ bitmap.green bitmap.cx
    (bitmap.cx * bitmap.srcCy) fits memory₁ (by omega) (bitmap.blue.raw ++ [bitmap.pad])
  obtain ⟨memory₃, blue, blues, beside'⟩ := @inCopyColorPlan_run _ _ _ bitmap.blue bitmap.cx
    (bitmap.cx * bitmap.srcCy * 2) fits memory₂ (by omega) [bitmap.pad]
  have padding : ([bitmap.pad].length + 2 ^ 64 - 1) % 2 ^ 64 = 0 := by simp
  refine ⟨memory₃, ?_, ?_, ?_, ?_⟩
  · unfold colorPlanes rawStream
    cases bitmap.alpha with
    | none =>
      simp only [Bool.false_eq_true, if_false, List.tail_cons, List.nil_append,
        Option.isNone_none, if_true, ok_bind, unwrapped, red, green, blue, padding, pure_ok]
    | some alpha =>
      simp only [Bool.false_eq_true, if_false, List.tail_cons, Option.isNone_some,
        inBytes_append alpha.length_raw, ok_bind, unwrapped, red, green, blue, padding, pure_ok]
  · intro x inside y below
    have bounded := @place_lt bitmap.cx _ _ _ _ (by omega) inside below
    rw [beside' _ (.inl (by omega)), beside _ (.inl (by omega)), ← reds x inside y below,
      Nat.zero_add]
  · intro x inside y below
    have bounded := @place_lt bitmap.cx _ _ _ _ (by omega) inside below
    rw [beside' _ (.inl (by omega)), ← greens x inside y below, Nat.add_assoc]
  · intro x inside y below
    rw [← blues x inside y below, Nat.add_assoc]

private theorem hasPlanes_laid (fits : bitmap.srcCx ≤ bitmap.cx ∨ bitmap.srcCy = 0)
    (stride : bitmap.srcCx = bitmap.cx ∨ bitmap.srcCy ≤ 1) :
    HasPlanes bitmap (bitmap.laidPlanes memory) := by
  refine ⟨?_, ?_, ?_⟩
  · intro x inside y below
    have bounded := @place_lt bitmap.cx _ _ _ _ (by omega) inside below
    have value := @cell_laid _ _ _ bitmap.red bitmap.cx 0
      (match bitmap.alpha with
        | some alpha => alpha.laid bitmap.cx 0 memory
        | none => memory) x y (by omega) (by omega) inside below
    rw [Nat.zero_add] at value
    rw [laidPlanes, cell_laid_other _ _ fits (.inl (by omega)),
      cell_laid_other _ _ fits (.inl (by omega)), value]
  · intro x inside y below
    have bounded := @place_lt bitmap.cx _ _ _ _ (by omega) inside below
    rw [laidPlanes, cell_laid_other _ _ fits (.inl (by omega)), ← Nat.add_assoc,
      cell_laid _ _ (by omega) (by omega) inside below]
  · intro x inside y below
    rw [laidPlanes, ← Nat.add_assoc, cell_laid _ _ (by omega) (by omega) inside below]

end Planes

section Runs

variable {bitmap} (bitsPerPixel : BitsPerPixel)
  (memory : Buffer Byte (planesSize bitmap.cx bitmap.srcCy))

section Small

variable (fits : bitmap.srcCx ≤ bitmap.cx ∨ bitmap.srcCy = 0)
  (small : bitmap.cx * bitmap.srcCy * 3 < 2 ^ 32)

include fits small

private theorem rle_run :
    rleDecompress60 bitsPerPixel bitmap.cx bitmap.srcCy bitmap.srcCx bitmap.srcCy memory
        bitmap.rleStream =
      .ok (some (planePixels bitsPerPixel (bitmap.cx * bitmap.srcCy)
        (bitmap.laidPlanes memory))) := by
  have room : bitmap.cx * bitmap.srcCy * 3 ≤ planesSize bitmap.cx bitmap.srcCy :=
    Nat.le_of_eq (Nat.mod_eq_of_lt small).symm
  have unwrapped : bitmap.cx * bitmap.srcCy * 2 % 2 ^ 32 = bitmap.cx * bitmap.srcCy * 2 :=
    Nat.mod_eq_of_lt (by omega)
  have stream : bitmap.rleStream = bitmap.formatHeader true :: bitmap.rleStream.tail := rfl
  rw [stream, rleDecompress60_eq]
  simp only [colorPlanes_rle memory fits small room, ok_bind, ne_eq, not_true_eq_false, if_false,
    unwrapped, copyPlanes_run bitsPerPixel (bitmap.laidPlanes memory) room, pure_ok]

private theorem raw_run :
    ∃ memory' : Buffer Byte (planesSize bitmap.cx bitmap.srcCy),
      rleDecompress60 bitsPerPixel bitmap.cx bitmap.srcCy bitmap.srcCx bitmap.srcCy memory
          bitmap.rawStream =
        .ok (some (planePixels bitsPerPixel (bitmap.cx * bitmap.srcCy) memory')) ∧
      HasPlanes bitmap memory' := by
  have room : bitmap.cx * bitmap.srcCy * 3 ≤ planesSize bitmap.cx bitmap.srcCy :=
    Nat.le_of_eq (Nat.mod_eq_of_lt small).symm
  have unwrapped : bitmap.cx * bitmap.srcCy * 2 % 2 ^ 32 = bitmap.cx * bitmap.srcCy * 2 :=
    Nat.mod_eq_of_lt (by omega)
  obtain ⟨memory', copied, has⟩ := colorPlanes_raw memory fits small room
  have stream : bitmap.rawStream = bitmap.formatHeader false :: bitmap.rawStream.tail := rfl
  refine ⟨memory', ?_, has⟩
  rw [stream, rleDecompress60_eq]
  simp only [copied, ok_bind, ne_eq, not_true_eq_false, if_false, unwrapped,
    copyPlanes_run bitsPerPixel memory' room, pure_ok]

end Small

private theorem pixel_of_planes {capacity : Nat} {memory : Buffer Byte capacity}
    (has : HasPlanes bitmap memory) (fits : bitmap.srcCx ≤ bitmap.cx) {x y : Nat}
    (inside : x < bitmap.srcCx) (below : y < bitmap.srcCy) :
    (planePixels bitsPerPixel (bitmap.cx * bitmap.srcCy) memory)[bitmap.cx * y + x]? =
      some (bitmap.pixel bitsPerPixel x y) := by
  have bounded := place_lt fits inside below
  rw [planePixels, List.getElem?_map, List.getElem?_range bounded, Option.map_some,
    has.red x inside y below, has.green x inside y below, has.blue x inside y below]
  rfl

theorem align4_cases (srcCx : Nat) (narrow : srcCx < 2 ^ 16) :
    (srcCx ≤ 65532 ∧ srcCx ≤ align4 srcCx ∧ (srcCx % 4 = 0 ↔ srcCx = align4 srcCx)) ∨
      (65532 < srcCx ∧ align4 srcCx = 0) := by
  unfold align4
  omega

/-- The pixels are at their places where the lines of the planes are. -/
private theorem puts_of_agrees (agrees : bitmap.StrideAgrees) :
    bitmap.PutsPixels bitsPerPixel := by
  intro memory other
  have narrow := bitmap.narrow
  rcases agrees with none | ⟨bounded, small, stride⟩
  · have nothing : bitmap.cx * bitmap.srcCy * 3 < 2 ^ 32 := by simp [none]
    obtain ⟨memory', copied, _⟩ := raw_run bitsPerPixel other (.inr none) nothing
    refine ⟨_, _, rle_run bitsPerPixel memory (.inr none) nothing, copied, ?_⟩
    intro x _ y below
    omega
  · rcases align4_cases bitmap.srcCx narrow with ⟨_, within, aligned⟩ | ⟨wide, _⟩
    · obtain ⟨memory', copied, has⟩ := raw_run bitsPerPixel other (.inl within) small
      have laid : HasPlanes bitmap (bitmap.laidPlanes memory) :=
        hasPlanes_laid memory (.inl within) (by
          rcases stride with whole | one
          · exact .inl (aligned.mp whole)
          · exact .inr (Nat.le_of_eq one))
      refine ⟨_, _, rle_run bitsPerPixel memory (.inl within) small, copied, ?_⟩
      intro x inside y below
      exact ⟨pixel_of_planes bitsPerPixel laid within inside below,
        pixel_of_planes bitsPerPixel has within inside below⟩
    · omega

end Runs

section Fails

variable {bitmap} {bitsPerPixel : BitsPerPixel}

private theorem mapM_ok_each {α β : Type} {step : α → Checked ErrorId β} {items : List α}
    {values : List β} (ran : items.mapM step = .ok values) :
    values.length = items.length ∧ ∀ item ∈ items, ∃ value, step item = .ok value := by
  induction items generalizing values with
  | nil =>
    cases ran
    exact ⟨rfl, fun _ member => (List.not_mem_nil member).elim⟩
  | cons item others ih =>
    rw [List.mapM_cons] at ran
    obtain ⟨value, first, later⟩ := bind_ok_iff.mp ran
    obtain ⟨rest, ran', last⟩ := bind_ok_iff.mp later
    obtain ⟨length, each⟩ := ih ran'
    cases last
    refine ⟨by rw [List.length_cons, List.length_cons, length], ?_⟩
    intro other member
    rcases List.mem_cons.mp member with rfl | later
    · exact ⟨value, first⟩
    · exact each other later

private theorem load_ok {capacity index : Nat} {memory : Buffer Byte capacity} {value : Byte}
    (read : (memory.load index : Checked ErrorId Byte) = .ok value) : index < capacity := by
  by_contra beyond
  rw [Buffer.load_of_le _ (Nat.not_lt.mp beyond)] at read
  cases read

/-- An image has as many pixels as it has room for, and two planes were read for them. -/
private theorem pixels_given {cx cy srcCx srcCy : Nat} {memory : Buffer Byte (planesSize cx cy)}
    {rle : Bool} {data : List Byte} {pixels : List (List Byte)}
    (given : rleDecompress60 bitsPerPixel cx cy srcCx srcCy memory
      (bitmap.formatHeader rle :: data) = .ok (some pixels)) :
    pixels.length = cx * cy ∧ cx * cy * 2 ≤ planesSize cx cy := by
  rw [rleDecompress60_eq] at given
  obtain ⟨⟨dataSize, memory'⟩, _, later⟩ := bind_ok_iff.mp given
  simp only at later
  split at later
  · cases later
  · obtain ⟨pixels', copied, last⟩ := bind_ok_iff.mp later
    cases last
    obtain ⟨length, each⟩ := mapM_ok_each copied
    rw [List.length_range] at length
    refine ⟨length, ?_⟩
    by_cases none : cx * cy = 0
    · simp [none]
    · obtain ⟨pixel, read⟩ := each (cx * cy - 1) (List.mem_range.mpr (by omega))
      obtain ⟨r, _, later⟩ := bind_ok_iff.mp read
      obtain ⟨g, green, _⟩ := bind_ok_iff.mp later
      have bounded := load_ok green
      omega

theorem columnSum_congr {capacity : Nat} {memory other : Buffer Byte capacity}
    {colorPlane cx x y : Nat}
    (same : ∀ line ≤ y, memory.cell (colorPlane + cx * line + x) =
      other.cell (colorPlane + cx * line + x)) :
    columnSum memory colorPlane cx x y = columnSum other colorPlane cx x y := by
  induction y with
  | zero => exact same 0 (Nat.le_refl _)
  | succ y ih =>
    rw [columnSum, columnSum, ih fun line less => same line (by omega),
      same (y + 1) (Nat.le_refl _)]

private theorem head_pixelBytes (bitsPerPixel : BitsPerPixel) (r g b : Byte) :
    (pixelBytes bitsPerPixel.bytesPerColor r g b).head? = some b := by
  have low : BitVec.ofNat 8 (0xFF <<< 24 ||| r.toNat <<< 16 ||| g.toNat <<< 8 ||| b.toNat) = b := by
    apply BitVec.eq_of_getLsbD_eq
    intro bit small
    have places : ¬ 24 ≤ bit ∧ ¬ 16 ≤ bit ∧ ¬ 8 ≤ bit := by omega
    simp only [BitVec.getLsbD_ofNat, small, decide_true, Bool.true_and, Nat.testBit_or,
      Nat.testBit_shiftLeft, places, decide_false, Bool.false_and, Bool.false_or,
      BitVec.testBit_toNat]
  cases bitsPerPixel <;> simp only [BitsPerPixel.bytesPerColor, pixelBytes, leBytes, low,
    List.head?_cons]

section Last

variable {capacity : Nat} (bitmap) (memory : Buffer Byte capacity)

/-- Where the last pixel of the bitmap has its blue byte. -/
private def lastBlue : Nat :=
  bitmap.cx * bitmap.srcCy * 2 + bitmap.cx * (bitmap.srcCy - 2 + 1) + (bitmap.srcCx - 1)

/-- The memory when the lines of the blue plane are there, but still its deltas. -/
private def beforeBlue : Buffer Byte capacity :=
  (bitmap.green.laid bitmap.cx (bitmap.cx * bitmap.srcCy)
    (bitmap.red.laid bitmap.cx 0 (match bitmap.alpha with
      | some alpha => alpha.laid bitmap.cx 0 memory
      | none => memory))).splice (bitmap.cx * bitmap.srcCy * 2) bitmap.blue.values

variable {bitmap}

/-- Neither the other planes nor the lines of this one reach so far. -/
private theorem beforeBlue_other {index : Nat} (fits : bitmap.srcCx ≤ bitmap.cx)
    (behind : bitmap.cx * bitmap.srcCy * 2 + bitmap.srcCx * bitmap.srcCy ≤ index) :
    (beforeBlue bitmap memory).cell index = memory.cell index := by
  rw [beforeBlue, Buffer.cell_splice_after _ _ _ (by rw [Plane.length_values]; exact behind),
    cell_laid_other _ _ (.inl fits) (.inr (by omega)),
    cell_laid_other _ _ (.inl fits) (.inr (by omega))]
  cases bitmap.alpha with
  | none => rfl
  | some alpha => exact cell_laid_other _ _ (.inl fits) (.inr (by omega))

/-- What is in the last place does not matter elsewhere in the blue plane. -/
private theorem beforeBlue_set (fits : bitmap.srcCx ≤ bitmap.cx) {index place : Nat} (byte : Byte)
    (blue : bitmap.cx * bitmap.srcCy * 2 ≤ index) (apart : index ≠ place) :
    (beforeBlue bitmap (memory.set place byte)).cell index =
      (beforeBlue bitmap memory).cell index := by
  by_cases behind : bitmap.cx * bitmap.srcCy * 2 + bitmap.srcCx * bitmap.srcCy ≤ index
  · rw [beforeBlue_other _ fits behind, beforeBlue_other _ fits behind,
      Buffer.cell_set_other _ _ apart]
  · have within : index - bitmap.cx * bitmap.srcCy * 2 < bitmap.blue.values.length := by
      rw [Plane.length_values]
      omega
    obtain ⟨offset, same⟩ := Nat.exists_eq_add_of_le blue
    subst same
    rw [Nat.add_sub_cancel_left] at within
    rw [beforeBlue, beforeBlue, Buffer.cell_splice_inside _ _ _ within,
      Buffer.cell_splice_inside _ _ _ within]

/-- The last blue byte is made of the ones above and of what happened to be in the memory. -/
private theorem lastBlue_eq (fits : bitmap.srcCx < bitmap.cx) (some : 0 < bitmap.srcCx)
    (lines : 2 ≤ bitmap.srcCy) :
    (bitmap.laidPlanes memory).cell (lastBlue bitmap) =
      columnSum (beforeBlue bitmap memory) (bitmap.cx * bitmap.srcCy * 2) bitmap.cx
          (bitmap.srcCx - 1) (bitmap.srcCy - 2) +
        undelta (memory.cell (lastBlue bitmap)) := by
  have passed : Passed bitmap.srcCx (bitmap.srcCy - 1) 0 (bitmap.srcCy - 2 + 1)
      (bitmap.srcCx - 1) := ⟨by omega, .inl (by omega)⟩
  have behind : bitmap.cx * bitmap.srcCy * 2 + bitmap.srcCx * bitmap.srcCy ≤ lastBlue bitmap := by
    obtain ⟨more, wider⟩ := Nat.exists_eq_add_of_lt fits
    obtain ⟨others, count⟩ := Nat.exists_eq_add_of_le lines
    have index : bitmap.srcCy - 2 + 1 = others + 1 := by omega
    rw [lastBlue, index]
    have long : bitmap.srcCx * bitmap.srcCy = bitmap.srcCx * (others + 1) + bitmap.srcCx := by
      rw [count]
      ring
    have wide : bitmap.cx * (others + 1) =
        bitmap.srcCx * (others + 1) + (more + 1) * (others + 1) := by
      rw [wider]
      ring
    have positive : 0 < (more + 1) * (others + 1) := Nat.mul_pos (by omega) (by omega)
    omega
  show (bitmap.blue.laid bitmap.cx (bitmap.cx * bitmap.srcCy * 2) _).cell (lastBlue bitmap) = _
  rw [Plane.laid, lastBlue, cell_summed _ _ (by omega), if_pos passed, columnSum, ← lastBlue,
    ← beforeBlue, beforeBlue_other memory (by omega) behind]

end Last

/-- The last blue byte is to be that of the bitmap, whatever was in the memory. -/
private theorem lastBlue_given (puts : bitmap.PutsPixels bitsPerPixel)
    (fits : bitmap.srcCx ≤ bitmap.cx) (some : 0 < bitmap.srcCx) (lines : 2 ≤ bitmap.srcCy)
    (small : bitmap.cx * bitmap.srcCy * 3 < 2 ^ 32)
    (memory : Buffer Byte (planesSize bitmap.cx bitmap.srcCy)) :
    (bitmap.laidPlanes memory).cell (lastBlue bitmap) =
      bitmap.blue.value (bitmap.srcCx - 1) (bitmap.srcCy - 2 + 1) := by
  obtain ⟨pixels, raw, given, _, places⟩ := puts memory (.filled 0)
  rw [rle_run bitsPerPixel memory (.inl fits) small] at given
  cases given
  have bounded := @place_lt bitmap.cx bitmap.srcCx bitmap.srcCy (bitmap.srcCx - 1)
    (bitmap.srcCy - 2 + 1) fits (by omega) (by omega)
  have placed := (places (bitmap.srcCx - 1) (by omega) (bitmap.srcCy - 2 + 1) (by omega)).1
  rw [planePixels, List.getElem?_map, List.getElem?_range bounded, Option.map_some,
    Option.some.injEq] at placed
  have heads := congrArg List.head? placed
  rw [pixel, head_pixelBytes, head_pixelBytes, Option.some.injEq, ← Nat.add_assoc] at heads
  exact heads

/-- Elsewhere something in the memory, or out of it, takes the place of a pixel. -/
private theorem agrees_of_puts (puts : bitmap.PutsPixels bitsPerPixel) : bitmap.StrideAgrees := by
  have narrow := bitmap.narrow
  by_cases none : bitmap.srcCy = 0
  · exact .inl none
  obtain ⟨pixels, raw, given, _, places⟩ := puts (.filled 0) (.filled 0)
  obtain ⟨count, read⟩ := pixels_given given
  rcases align4_cases bitmap.srcCx narrow with ⟨bounded, within, aligned⟩ | ⟨wide, wraps⟩
  · change bitmap.srcCx ≤ bitmap.cx at within
    change bitmap.srcCx % 4 = 0 ↔ bitmap.srcCx = bitmap.cx at aligned
    by_cases small : bitmap.cx * bitmap.srcCy * 3 < 2 ^ 32
    · refine .inr ⟨bounded, small, ?_⟩
      by_contra apart
      have shorter : bitmap.srcCx < bitmap.cx := by omega
      have lines : 2 ≤ bitmap.srcCy := by omega
      have some : 0 < bitmap.srcCx := by omega
      let memory : Buffer Byte (planesSize bitmap.cx bitmap.srcCy) := .filled 0
      have zero := lastBlue_given puts within some lines small memory
      have two := lastBlue_given puts within some lines small (memory.set (lastBlue bitmap) 2)
      rw [lastBlue_eq _ shorter some lines] at zero two
      have same : columnSum (beforeBlue bitmap (memory.set (lastBlue bitmap) 2))
            (bitmap.cx * bitmap.srcCy * 2) bitmap.cx (bitmap.srcCx - 1) (bitmap.srcCy - 2) =
          columnSum (beforeBlue bitmap memory) (bitmap.cx * bitmap.srcCy * 2) bitmap.cx
            (bitmap.srcCx - 1) (bitmap.srcCy - 2) := by
        apply columnSum_congr
        intro line above
        have reach : bitmap.cx * line ≤ bitmap.cx * (bitmap.srcCy - 2) :=
          Nat.mul_le_mul_left _ above
        have span : bitmap.cx * (bitmap.srcCy - 2 + 1) =
            bitmap.cx * (bitmap.srcCy - 2) + bitmap.cx := Nat.mul_succ _ _
        exact beforeBlue_set _ within _ (by omega) (by rw [lastBlue]; omega)
      rw [same, Buffer.cell_set_same, ← zero] at two
      have differs : undelta 2 = undelta 0 := (BitVec.add_right_inj _).mp two
      exact absurd differs (by decide)
    · have wrapped : 1 ≤ bitmap.cx * bitmap.srcCy * 3 / 2 ^ 32 :=
        Nat.div_pos (Nat.le_of_not_lt small) (by decide)
      unfold planesSize at read
      omega
  · have empty : bitmap.cx = 0 := wraps
    have first := (places 0 (by omega) 0 (by omega)).1
    rw [empty, Nat.zero_mul, List.length_eq_zero_iff] at count
    rw [count] at first
    cases first

/-- Where the pixels of a run-length encoded bitmap are, whatever is in the memory: at their
places exactly if its lines are as long as those of the image, or there is only one. -/
theorem putsPixels_iff (bitmap : EncodedBitmap) (bitsPerPixel : BitsPerPixel) :
    bitmap.PutsPixels bitsPerPixel ↔ bitmap.StrideAgrees :=
  ⟨agrees_of_puts, puts_of_agrees bitsPerPixel⟩

/-- A line of one raw byte. -/
private def dot (byte : Byte) : Line 1 where
  segments := [⟨[byte], 0, .inl ⟨Nat.le_add_left 1 14, .inl rfl⟩⟩]
  fills := ⟨Nat.one_pos, Nat.le_refl 1, rfl⟩

private def dots : Plane 1 2 := ⟨[dot 1, dot 2], rfl⟩

/-- One column of two pixels. -/
def column : EncodedBitmap :=
  ⟨1, 2, by decide, by decide, none, dots, dots, dots, 0, 0⟩

/-- In an image of four columns, the second pixel is not at its place. -/
theorem column_misplaced : ¬ column.PutsPixels .bpp24 := by
  intro puts
  have agrees := agrees_of_puts puts
  simp [StrideAgrees, column] at agrees

end Fails

end EncodedBitmap

end Redemption.Planar
