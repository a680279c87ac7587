import Redemption.Vnc.Pixels

/-! The ZRLE encoding as the protocol defines it: what tiles are made of, how they are spelled
and which pixels they stand for. -/
namespace Redemption.Vnc

open Redemption.Foundation

/-- A run of a palette tile; one of a single pixel need not spell its length. -/
inductive PaletteRun where
  | single (index : Nat)
  | long (index length : Nat)
  deriving DecidableEq, Repr

/-- The contents of a tile. The lines of a packed tile are given byte by byte, and these field
by field; the fields behind the width of the tile are padding. -/
inductive TileCode where
  | raw (pixels : List Nat)
  | solid (pixel : Nat)
  | packed (palette : List Nat) (lines : List (List (List Nat)))
  | plainRle (runs : List (Nat × Nat))
  | paletteRle (palette : List Nat) (runs : List PaletteRun)
  deriving DecidableEq, Repr

/-- The bits of a field, by the size of the palette. -/
def fieldBits (paletteSize : Nat) : Nat :=
  if paletteSize ≤ 2 then 1 else if paletteSize ≤ 4 then 2 else 4

/-- A byte of fields, the leftmost in the highest bits. -/
def packFields (bits : Nat) (fields : List Nat) : Byte :=
  BitVec.ofNat 8 (fields.foldl (fun number field => number * 2 ^ bits + field) 0)

/-- A length is one more than the sum of the bytes, all of them 255 but the last. -/
def runLengthBytes (length : Nat) : List Byte :=
  List.replicate ((length - 1) / 255) 255 ++ [BitVec.ofNat 8 ((length - 1) % 255)]

namespace PaletteRun

def index : PaletteRun → Nat
  | single index => index
  | long index _ => index

def length : PaletteRun → Nat
  | single _ => 1
  | long _ length => length

def bytes : PaletteRun → List Byte
  | single index => [BitVec.ofNat 8 index]
  | long index length => BitVec.ofNat 8 (index + 128) :: runLengthBytes length

end PaletteRun

namespace TileCode

/-- How a tile is spelled. -/
def bytes (Bpp : Nat) : TileCode → List Byte
  | raw pixels => 0 :: pixelBytes Bpp pixels
  | solid pixel => 1 :: leBytes Bpp pixel
  | packed palette lines =>
    BitVec.ofNat 8 palette.length :: pixelBytes Bpp palette ++
      lines.flatMap fun line => line.map (packFields (fieldBits palette.length))
  | plainRle runs => 128 :: runs.flatMap fun run => leBytes Bpp run.1 ++ runLengthBytes run.2
  | paletteRle palette runs =>
    BitVec.ofNat 8 (palette.length + 128) :: pixelBytes Bpp palette ++
      runs.flatMap PaletteRun.bytes

/-- The pixels of a line of a packed tile. -/
def linePixels (palette : List Nat) (width : Nat) (line : List (List Nat)) : List Nat :=
  (line.flatten.take width).map fun index => palette.getD index 0

/-- The pixels that a tile of the width and the height stands for, line by line. -/
def pixels (width height : Nat) : TileCode → List Nat
  | raw pixels => pixels
  | solid pixel => List.replicate (width * height) pixel
  | packed palette lines => lines.flatMap (linePixels palette width)
  | plainRle runs => runs.flatMap fun run => List.replicate run.2 run.1
  | paletteRle palette runs =>
    runs.flatMap fun run => List.replicate run.length (palette.getD run.index 0)

/-- A line of a packed tile: as many bytes as its pixels need, each full of fields. -/
structure LineFits (paletteSize width : Nat) (line : List (List Nat)) : Prop where
  length : line.length = (width + (8 / fieldBits paletteSize - 1)) / (8 / fieldBits paletteSize)
  full : ∀ fields ∈ line, fields.length = 8 / fieldBits paletteSize ∧
    ∀ field ∈ fields, field < 2 ^ fieldBits paletteSize
  defined : ∀ index ∈ line.flatten.take width, index < paletteSize

/-- What makes a tile well formed. -/
def WellFormed (Bpp width height : Nat) : TileCode → Prop
  | raw pixels => pixels.length = width * height ∧ ∀ pixel ∈ pixels, pixel < 2 ^ (8 * Bpp)
  | solid pixel => pixel < 2 ^ (8 * Bpp)
  | packed palette lines =>
    (2 ≤ palette.length ∧ palette.length ≤ 16) ∧ (∀ pixel ∈ palette, pixel < 2 ^ (8 * Bpp)) ∧
      lines.length = height ∧ ∀ line ∈ lines, LineFits palette.length width line
  | plainRle runs =>
    (∀ run ∈ runs, run.1 < 2 ^ (8 * Bpp) ∧ 1 ≤ run.2) ∧
      ((plainRle runs).pixels width height).length = width * height
  | paletteRle palette runs =>
    (2 ≤ palette.length ∧ palette.length ≤ 127) ∧ (∀ pixel ∈ palette, pixel < 2 ^ (8 * Bpp)) ∧
      (∀ run ∈ runs, run.index < palette.length ∧ 1 ≤ run.length) ∧
      ((paletteRle palette runs).pixels width height).length = width * height

end TileCode

/-- A well-formed tile for each tile of 64 pixels of the area, from the tile `first` on. -/
def StreamFrom (Bpp : Nat) (area : Area) (first : Nat) (codes : List TileCode) : Prop :=
  first + codes.length = TileGrid.count 64 area ∧
    ∀ (offset : Nat) (code : TileCode), codes[offset]? = some code →
      code.WellFormed Bpp (TileGrid.tile 64 area (first + offset)).width
        (TileGrid.tile 64 area (first + offset)).height

/-- A stream for an area. -/
def StreamFor (Bpp : Nat) (area : Area) (codes : List TileCode) : Prop :=
  StreamFrom Bpp area 0 codes

/-- The inflated data of a stream. -/
def streamBytes (Bpp : Nat) (codes : List TileCode) : List Byte :=
  codes.flatMap (TileCode.bytes Bpp)

end Redemption.Vnc
