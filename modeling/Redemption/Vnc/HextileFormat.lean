import Redemption.Vnc.Hextile
import Redemption.Vnc.Pixels

/-! The Hextile encoding as the protocol defines it: what tiles are made of, which colours they
take over from the tile before, how they are spelled and which pixels they stand for. -/
namespace Redemption.Vnc

open Redemption.Foundation Redemption.Utils

/-- A subrectangle of a tile; its own colour counts where the subrectangles are coloured. -/
structure Subrect where
  color : Nat
  x : Nat
  y : Nat
  w : Nat
  h : Nat
  deriving DecidableEq, Repr

namespace Subrect

/-- The pixel in a column and a line is one of the subrectangle's. -/
def Covers (subrect : Subrect) (column line : Nat) : Prop :=
  (subrect.x ≤ column ∧ column < subrect.x + subrect.w) ∧
    subrect.y ≤ line ∧ line < subrect.y + subrect.h

instance (subrect : Subrect) (column line : Nat) : Decidable (subrect.Covers column line) :=
  inferInstanceAs (Decidable (_ ∧ _))

/-- A subrectangle is not empty and lies inside of its tile. -/
structure Inside (subrect : Subrect) (width height : Nat) : Prop where
  wide : 0 < subrect.w
  high : 0 < subrect.h
  right : subrect.x + subrect.w ≤ width
  bottom : subrect.y + subrect.h ≤ height

instance (subrect : Subrect) (width height : Nat) : Decidable (subrect.Inside width height) :=
  decidable_of_iff ((0 < subrect.w ∧ 0 < subrect.h) ∧ subrect.x + subrect.w ≤ width ∧
    subrect.y + subrect.h ≤ height)
    ⟨fun fits => ⟨fits.1.1, fits.1.2, fits.2.1, fits.2.2⟩,
      fun fits => ⟨⟨fits.wide, fits.high⟩, fits.right, fits.bottom⟩⟩

def bytes (Bpp : Nat) (coloured : Bool) (subrect : Subrect) : List Byte :=
  (if coloured then leBytes Bpp subrect.color else []) ++
    [BitVec.ofNat 8 (subrect.x * 16 + subrect.y),
      BitVec.ofNat 8 ((subrect.w - 1) * 16 + (subrect.h - 1))]

end Subrect

/-- The contents of a tile; a colour that the type does not announce is not spelled. -/
inductive HextileCode where
  | raw (tileType : Byte) (pixels : List Nat)
  | subrects (tileType : Byte) (background foreground : Nat) (list : List Subrect)
  deriving DecidableEq, Repr

/-- The colours that the next tile may take over. -/
structure Carried where
  background : Option Nat
  foreground : Option Nat
  deriving DecidableEq, Repr

/-- The colour of a pixel: that of the last subrectangle that covers it, or the background. -/
def colorAt (background : Nat) (color : Subrect → Nat) (list : List Subrect)
    (column line : Nat) : Nat :=
  list.foldl (fun pixel subrect => if subrect.Covers column line then color subrect else pixel)
    background

/-- The pixels of a tile, line by line. -/
def tilePixels (width height : Nat) (pixel : Nat → Nat → Nat) : List Nat :=
  (List.range (width * height)).map fun place => pixel (place % width) (place / width)

namespace HextileCode

/-- What stands between the type of a tile and its subrectangles. -/
def header (Bpp : Nat) (tileType : Byte) (background foreground count : Nat) : List Byte :=
  (if specifies tileType hextileBackgroundSpecified then leBytes Bpp background else []) ++
    ((if specifies tileType hextileForegroundSpecified then leBytes Bpp foreground else []) ++
      (if specifies tileType hextileAnySubrects then [BitVec.ofNat 8 count] else []))

/-- How a tile is spelled. -/
def bytes (Bpp : Nat) : HextileCode → List Byte
  | raw tileType pixels => tileType :: pixelBytes Bpp pixels
  | subrects tileType background foreground list =>
    tileType :: (header Bpp tileType background foreground list.length ++
      list.flatMap (Subrect.bytes Bpp (specifies tileType hextileSubrectsColoured)))

/-- The background of a tile of subrectangles. -/
def background (carried : Carried) (tileType : Byte) (given : Nat) : Nat :=
  if specifies tileType hextileBackgroundSpecified then given else carried.background.getD 0

/-- The foreground that is common to the subrectangles of a tile. -/
def foreground (carried : Carried) (tileType : Byte) (given : Nat) : Option Nat :=
  if specifies tileType hextileForegroundSpecified then some given else carried.foreground

/-- The colour of a subrectangle of a tile. -/
def subrectColor (carried : Carried) (tileType : Byte) (given : Nat) (subrect : Subrect) : Nat :=
  if specifies tileType hextileSubrectsColoured then subrect.color
  else (foreground carried tileType given).getD 0

/-- The pixels that a tile of the width and the height stands for, line by line. -/
def pixels (carried : Carried) (width height : Nat) : HextileCode → List Nat
  | raw _ pixels => pixels
  | subrects tileType given givenForeground list =>
    tilePixels width height
      (colorAt (background carried tileType given) (subrectColor carried tileType givenForeground)
        list)

/-- What the next tile may take over. Nothing is taken over from a raw tile, and no foreground
from one with coloured subrectangles. -/
def carries (carried : Carried) : HextileCode → Carried
  | raw _ _ => ⟨none, none⟩
  | subrects tileType given givenForeground _ =>
    ⟨some (background carried tileType given),
      if specifies tileType hextileSubrectsColoured then none
      else foreground carried tileType givenForeground⟩

/-- What makes a tile of subrectangles well formed: a colour that is not given can be taken
over, and every subrectangle lies inside of the tile. -/
structure SubrectsFit (Bpp : Nat) (carried : Carried) (width height : Nat) (tileType : Byte)
    (background foreground : Nat) (list : List Subrect) : Prop where
  notRaw : specifies tileType hextileRaw = false
  givenBackground : background < 2 ^ (8 * Bpp)
  givenForeground : foreground < 2 ^ (8 * Bpp)
  backgroundKnown : specifies tileType hextileBackgroundSpecified = true ∨
    carried.background.isSome
  oneForeground : specifies tileType hextileForegroundSpecified = true →
    specifies tileType hextileSubrectsColoured = false
  announced : list ≠ [] → specifies tileType hextileAnySubrects = true
  foregroundKnown : list ≠ [] → specifies tileType hextileSubrectsColoured = true ∨
    (HextileCode.foreground carried tileType foreground).isSome
  few : list.length ≤ 255
  inside : ∀ subrect ∈ list, subrect.Inside width height
  colors : ∀ subrect ∈ list, subrect.color < 2 ^ (8 * Bpp)

def WellFormed (Bpp : Nat) (carried : Carried) (width height : Nat) : HextileCode → Prop
  | raw tileType pixels =>
    specifies tileType hextileRaw = true ∧ pixels.length = width * height ∧
      ∀ pixel ∈ pixels, pixel < 2 ^ (8 * Bpp)
  | subrects tileType background foreground list =>
    SubrectsFit Bpp carried width height tileType background foreground list

end HextileCode

/-- A well-formed tile for each tile of 16 pixels of the area, from the tile `index` on. -/
def HextileFrom (Bpp : Nat) (area : Area) : Nat → Carried → List HextileCode → Prop
  | index, _, [] => index = TileGrid.count 16 area
  | index, carried, code :: codes =>
    code.WellFormed Bpp carried (TileGrid.tile 16 area index).width
      (TileGrid.tile 16 area index).height ∧
      HextileFrom Bpp area (index + 1) (code.carries carried) codes

/-- A stream for an area; the first tile takes over nothing. -/
def HextileFor (Bpp : Nat) (area : Area) (codes : List HextileCode) : Prop :=
  HextileFrom Bpp area 0 ⟨none, none⟩ codes

def hextileBytes (Bpp : Nat) (codes : List HextileCode) : List Byte :=
  codes.flatMap (HextileCode.bytes Bpp)

/-- One order for each tile of the grid from the tile `index` on, with the pixels that its code
stands for. -/
def HextileDraws (area : Area) : Nat → Carried → List HextileCode → List Drawn → Prop
  | _, _, [], [] => True
  | index, carried, code :: codes, order :: orders =>
    Draws (TileGrid.tile 16 area index)
      (code.pixels carried (TileGrid.tile 16 area index).width
        (TileGrid.tile 16 area index).height) order ∧
      HextileDraws area (index + 1) (code.carries carried) codes orders
  | _, _, _, _ => False

end Redemption.Vnc
