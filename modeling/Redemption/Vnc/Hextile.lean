import Redemption.Vnc.Encoder

/-! `Hextile`: the encoder of tiles of 16 pixels, each raw or made of subrectangles. -/
namespace Redemption.Vnc

open Redemption.Foundation Redemption.Utils

def hexTileDataSize : Nat := 16 * 16 * 4

abbrev HexTileData := Buffer Byte hexTileDataSize

/-- The bits of a type of tile. -/
def hextileRaw : Nat := 1
def hextileBackgroundSpecified : Nat := 2
def hextileForegroundSpecified : Nat := 4
def hextileAnySubrects : Nat := 8
def hextileSubrectsColoured : Nat := 16

def specifies (tileType : Byte) (bit : Nat) : Bool := tileType.toNat &&& bit != 0

/-- `Hextile`; the walk holds its rectangle and its current tile. -/
structure Hextile where
  Bpp : Nat
  walk : TileWalk
  fgPixel : Nat
  bgPixel : Nat
  deriving DecidableEq, Repr

namespace Hextile

def make (Bpp : Nat) (rect : Rect) : Hextile := ⟨Bpp, TileWalk.start 16 rect, 0, 0⟩

/-- The copies that double the part of the array that is filled. -/
def fill (Bpp bgPixel : Nat) (memory : HexTileData) : Checked VncError HexTileData := do
  let tileData ← memory.storeBlock (0 * Bpp) (leBytes Bpp bgPixel)
  [1, 2, 4, 8, 16, 32, 64, 128].foldlM (fun tileData count => do
    let block ← tileData.loadBlock 0 (count * Bpp)
    tileData.storeBlock (count * Bpp) block) tileData

/-- Lay the first line of a subrectangle pixel by pixel and copy it to the others. -/
def laySubrect (Bpp cx fgPixel x y w h : Nat) (tileData : HexTileData) :
    Checked VncError HexTileData := do
  let ptr := (y * cx + x) * Bpp
  let tileData ← (List.range w).foldlM (fun tileData qx =>
    tileData.storeBlock (ptr + qx * Bpp) (leBytes Bpp fgPixel)) tileData
  (List.range' 1 (h - 1)).foldlM (fun tileData qy => do
    let line ← tileData.loadBlock ptr (w * Bpp)
    tileData.storeBlock (ptr + cx * qy * Bpp) line) tileData

/-- The next pixel, where it is given. -/
def pixelIf (given : Bool) (Bpp pixel : Nat) (parser : List Byte) :
    Checked VncError (Nat × List Byte) :=
  if given then inLe Bpp parser else .ok (pixel, parser)

/-- So many subrectangles; the foreground that was set last is kept. -/
def subrects (Bpp cx : Nat) (coloured : Bool) :
    Nat → List Byte → Nat → HexTileData → Checked VncError (HexTileData × Nat)
  | 0, _, fgPixel, tileData => .ok (tileData, fgPixel)
  | count + 1, parser, fgPixel, tileData => do
    let (fgPixel, parser) ← pixelIf coloured Bpp fgPixel parser
    let (xy, parser) ← inUint8 parser
    let (wh, parser) ← inUint8 parser
    let x := (xy.toNat >>> 4) &&& 0xF
    let y := xy.toNat &&& 0xF
    let w := ((wh.toNat >>> 4) &&& 0xF) + 1
    let h := (wh.toNat &&& 0xF) + 1
    if x + w > 16 ∨ y + h > 16 then .error (.raised .hextileProtocol)
    else
      let tileData ← laySubrect Bpp cx fgPixel x y w h tileData
      subrects Bpp cx coloured count parser fgPixel tileData

/-- What became of the tile in front of the buffer: it was drawn, or more data is needed. -/
abbrev TileStep := Hextile × Option (Drawn × List Byte)

variable (memory : HexTileData) (hextile : Hextile)

def rawTile (buf : List Byte) : Checked VncError TileStep :=
  let tile := hextile.walk.tile
  let rawLength := tile.cx * tile.cy * hextile.Bpp
  if buf.length < rawLength + 1 then .ok (hextile, none)
  else do
    let raw ← bytesAt buf 1 rawLength
    let order ← drawTile hextile.Bpp tile raw
    return (hextile, some (order, buf.drop (rawLength + 1)))

/-- The number of subrectangles, where there are any. -/
def subrectCount (given : Bool) (parser : List Byte) : Checked VncError (Nat × List Byte) :=
  if given then do
    let (byte, parser) ← inUint8 parser
    return (byte.toNat, parser)
  else .ok (0, parser)

/-- A tile of a background and subrectangles. -/
def subrectTile (tileType : Byte) (buf parser : List Byte) : Checked VncError TileStep := do
  let Bpp := hextile.Bpp
  let background := specifies tileType hextileBackgroundSpecified
  let foreground := specifies tileType hextileForegroundSpecified
  let any := specifies tileType hextileAnySubrects
  let coloured := specifies tileType hextileSubrectsColoured
  let headerBytes := 1 + (if any then 1 else 0) + (if background then Bpp else 0) +
    (if foreground then Bpp else 0)
  if buf.length < headerBytes then .ok (hextile, none)
  else
    let (bgPixel, parser) ← pixelIf background Bpp hextile.bgPixel parser
    let (fgPixel, parser) ← pixelIf foreground Bpp hextile.fgPixel parser
    let (nSubRects, parser) ← subrectCount any parser
    let tileBytes := headerBytes + nSubRects * (2 + if coloured then Bpp else 0)
    if buf.length < tileBytes then .ok ({ hextile with bgPixel, fgPixel }, none)
    else
      let tileData ← fill Bpp bgPixel memory
      let (tileData, fgPixel) ←
        subrects Bpp hextile.walk.tile.cx coloured nSubRects parser fgPixel tileData
      let order ← drawTile Bpp hextile.walk.tile (tileData.slice 0 hexTileDataSize)
      return ({ hextile with bgPixel, fgPixel }, some (order, buf.drop tileBytes))

def decodeTile (buf : List Byte) : Checked VncError TileStep := do
  let (tileType, parser) ← inUint8 buf
  if specifies tileType hextileRaw then hextile.rawTile buf
  else hextile.subrectTile memory tileType buf parser

/-- The loop over the tiles. Every tile takes at least a byte, so that as many rounds as there
are bytes are enough. -/
def tiles : Nat → Hextile → List Byte → Nat → List Drawn →
    Checked VncError (Answer Hextile Drawn)
  | 0, _, _, _, _ => .error (.raised .unfinished)
  | fuel + 1, hextile, buf, lastRemaining, drawn =>
    if buf.length = 0 then .ok ⟨.needMoreData, hextile, buf, drawn⟩
    else if buf.length = lastRemaining then .error (.raised .hextileProtocol)
    else do
      let (hextile, step) ← hextile.decodeTile memory buf
      match step with
      | none => return ⟨.needMoreData, hextile, buf, drawn⟩
      | some (order, rest) =>
        match hextile.walk.nextTile 16 with
        | none => return ⟨.exit, hextile, rest, drawn ++ [order]⟩
        | some walk => tiles fuel { hextile with walk } rest buf.length (drawn ++ [order])

/-- `operator()`. -/
def call (buf : List Byte) : Checked VncError (Answer Hextile Drawn) :=
  if hextile.walk.r.isEmpty then .ok ⟨.exit, hextile, buf, []⟩
  else tiles memory (buf.length + 1) hextile buf 0 []

/-- A pixel has one to four bytes, and a tile no more than 16 columns and lines. -/
structure Fits : Prop where
  pixel : hextile.Bpp ≤ 4
  tile : TileWalk.Bounded 16 hextile.walk

variable {memory hextile}

theorem fill_sound {Bpp : Nat} (pixel : Bpp ≤ 4) (bgPixel : Nat) :
    Sound (fill Bpp bgPixel memory) fun _ => True := by
  apply (sound_storeBlock _ (by rw [length_leBytes]; unfold hexTileDataSize; omega)).bind
  intro tileData _
  apply sound_foldlM
  · intro count member tileData _
    have most : count ≤ 128 := by
      simp only [List.mem_cons, List.not_mem_nil, or_false] at member
      omega
    have half : count * Bpp ≤ 128 * 4 := Nat.mul_le_mul most pixel
    have size : hexTileDataSize = 1024 := rfl
    apply (sound_loadBlock tileData (by omega)).bind
    intro block length
    exact sound_storeBlock _ (by omega)
  · trivial

private theorem pixels_room {Bpp : Nat} (pixel : Bpp ≤ 4) {place count : Nat}
    (inside : place + count ≤ 256) : place * Bpp + count * Bpp ≤ hexTileDataSize := by
  rw [← Nat.add_mul]
  exact Nat.mul_le_mul inside pixel

theorem laySubrect_sound {Bpp cx x y w h : Nat} (pixel : Bpp ≤ 4) (columns : cx ≤ 16)
    (wide : x + w ≤ 16) (high : y + h ≤ 16) (some' : 1 ≤ h) (fgPixel : Nat)
    (tileData : HexTileData) :
    Sound (laySubrect Bpp cx fgPixel x y w h tileData) fun _ => True := by
  have line : ∀ row, row < 16 → row * cx ≤ 240 := by
    intro row bounded
    calc row * cx ≤ 15 * 16 := Nat.mul_le_mul (by omega) columns
      _ = 240 := rfl
  have first := line y (by omega)
  refine (@sound_foldlM _ _ _ _ (fun _ => True) _ ?_ _ trivial).bind ?_
  · intro qx member tileData _
    have inside := List.mem_range.mp member
    have room : (y * cx + x + qx) * Bpp + 1 * Bpp ≤ hexTileDataSize :=
      pixels_room pixel (by omega)
    apply sound_storeBlock
    rw [length_leBytes, ← Nat.add_mul]
    omega
  · intro tileData _
    refine sound_foldlM _ ?_ trivial
    intro qy member tileData _
    obtain ⟨_, upper⟩ := List.mem_range'_1.mp member
    have later := line (y + qy) (by omega)
    rw [Nat.add_mul] at later
    have source : (y * cx + x) * Bpp + w * Bpp ≤ hexTileDataSize :=
      pixels_room pixel (by omega)
    apply (sound_loadBlock tileData source).bind
    intro block length
    have target : (y * cx + x + qy * cx) * Bpp + w * Bpp ≤ hexTileDataSize :=
      pixels_room pixel (by omega)
    apply sound_storeBlock
    rw [length, ← Nat.add_mul, Nat.mul_comm cx qy]
    exact target

theorem pixelIf_sound {given : Bool} {Bpp : Nat} (pixel : Nat) {parser : List Byte}
    (room : (if given then Bpp else 0) ≤ parser.length) :
    Sound (pixelIf given Bpp pixel parser) fun result =>
      result.2.length = parser.length - if given then Bpp else 0 := by
  cases given with
  | true =>
    apply (sound_inBytes room).bind
    intro ⟨bytes, rest⟩ ⟨_, left⟩
    exact sound_ok left
  | false => exact sound_ok (by simp)

theorem subrectCount_sound {given : Bool} {parser : List Byte}
    (room : (if given then 1 else 0) ≤ parser.length) :
    Sound (subrectCount given parser) fun result =>
      result.2.length = parser.length - if given then 1 else 0 := by
  cases given with
  | true =>
    apply (sound_inUint8 room).bind
    intro ⟨byte, rest⟩ left
    exact sound_ok left
  | false => exact sound_ok (by simp)

theorem subrects_sound {Bpp cx : Nat} (pixel : Bpp ≤ 4) (columns : cx ≤ 16) (coloured : Bool)
    (count : Nat) {parser : List Byte} (fgPixel : Nat) (tileData : HexTileData)
    (room : count * (2 + if coloured then Bpp else 0) ≤ parser.length) :
    Sound (subrects Bpp cx coloured count parser fgPixel tileData) fun _ => True := by
  induction count generalizing parser fgPixel tileData with
  | zero => exact sound_ok trivial
  | succ count ih =>
    rw [Nat.succ_mul] at room
    apply (pixelIf_sound fgPixel (by omega)).bind
    intro ⟨fgPixel, parser₁⟩ left₁
    simp only at left₁ ⊢
    apply (sound_inUint8 (by omega)).bind
    intro ⟨xy, parser₂⟩ left₂
    simp only at left₂ ⊢
    apply (sound_inUint8 (by omega)).bind
    intro ⟨wh, parser₃⟩ left₃
    apply sound_ite
    · intro _
      exact sound_raised _
    · intro inside
      apply (laySubrect_sound pixel columns (by omega) (by omega) (by omega) _ _).bind
      intro tileData _
      exact ih _ _ (by omega)

/-- A step keeps the walk and the size of a pixel. -/
def Kept (hextile : Hextile) (step : TileStep) : Prop :=
  step.1.walk = hextile.walk ∧ step.1.Bpp = hextile.Bpp

theorem rawTile_sound (hextile : Hextile) (buf : List Byte) :
    Sound (hextile.rawTile buf) (Kept hextile) := by
  unfold rawTile
  apply sound_ite
  · intro _
    exact sound_ok ⟨rfl, rfl⟩
  · intro long
    rw [bytesAt_of_le (by omega)]
    apply (drawTile_sound (by
      rw [List.length_take, List.length_drop]
      omega)).bind
    intro order _
    exact sound_ok ⟨rfl, rfl⟩

theorem tile_room (fits : hextile.Fits) :
    hextile.walk.tile.cx * hextile.walk.tile.cy * hextile.Bpp ≤ hexTileDataSize :=
  Nat.mul_le_mul (Nat.mul_le_mul fits.tile.1 fits.tile.2) fits.pixel

theorem subrectTile_sound (fits : hextile.Fits) (tileType : Byte) {buf parser : List Byte}
    (left : parser.length = buf.length - 1) :
    Sound (hextile.subrectTile memory tileType buf parser) (Kept hextile) := by
  unfold subrectTile
  generalize specifies tileType hextileSubrectsColoured = coloured
  apply sound_ite
  · intro _
    exact sound_ok ⟨rfl, rfl⟩
  · intro header
    apply (pixelIf_sound hextile.bgPixel (by omega)).bind
    intro ⟨bgPixel, parser₁⟩ left₁
    simp only at left₁ ⊢
    apply (pixelIf_sound hextile.fgPixel (by omega)).bind
    intro ⟨fgPixel, parser₂⟩ left₂
    simp only at left₂ ⊢
    apply (subrectCount_sound (by omega)).bind
    intro ⟨nSubRects, parser₃⟩ left₃
    simp only at left₃ ⊢
    apply sound_ite
    · intro _
      exact sound_ok ⟨rfl, rfl⟩
    · intro whole
      apply (fill_sound fits.pixel bgPixel).bind
      intro tileData _
      apply (subrects_sound fits.pixel fits.tile.1 coloured nSubRects fgPixel tileData
        (by omega)).bind
      intro ⟨tileData, fgPixel⟩ _
      apply (drawTile_sound (by
        rw [Buffer.length_slice]
        exact tile_room fits)).bind
      intro order _
      exact sound_ok ⟨rfl, rfl⟩

theorem decodeTile_sound (fits : hextile.Fits) {buf : List Byte} (some' : buf.length ≠ 0) :
    Sound (hextile.decodeTile memory buf) (Kept hextile) := by
  apply (sound_inUint8 (by omega)).bind
  intro ⟨tileType, parser⟩ left
  apply sound_ite
  · intro _
    exact rawTile_sound hextile buf
  · intro _
    exact subrectTile_sound fits tileType left

theorem tiles_sound (fits : hextile.Fits) (fuel : Nat) (buf : List Byte) (lastRemaining : Nat)
    (drawn : List Drawn) :
    Sound (tiles memory fuel hextile buf lastRemaining drawn) fun answer =>
      answer.encoder.Fits := by
  induction fuel generalizing hextile buf lastRemaining drawn with
  | zero => exact sound_raised _
  | succ fuel ih =>
    apply sound_ite
    · intro _
      exact sound_ok fits
    · intro some'
      apply sound_ite
      · intro _
        exact sound_raised _
      · intro _
        apply (decodeTile_sound fits some').bind
        intro ⟨hextile', step⟩ ⟨walk, pixel⟩
        have fits' : hextile'.Fits := ⟨by rw [pixel]; exact fits.pixel, by rw [walk]; exact fits.tile⟩
        cases step with
        | none => exact sound_ok fits'
        | some result =>
          obtain ⟨order, rest⟩ := result
          simp only
          split
          · exact sound_ok fits'
          · rename_i next stepped
            have kept : Fits { hextile' with walk := next } :=
              ⟨fits'.pixel, fits'.tile.next stepped⟩
            exact ih kept _ _ _

theorem call_sound (fits : hextile.Fits) (buf : List Byte) :
    Sound (hextile.call memory buf) fun answer => answer.encoder.Fits := by
  apply sound_ite
  · intro _
    exact sound_ok fits
  · intro _
    exact tiles_sound fits _ _ _ _

theorem make_fits {Bpp : Nat} (pixel : Bpp ≤ 4) (rect : Rect) : (make Bpp rect).Fits :=
  ⟨pixel, TileWalk.bounded_start 16 rect⟩

end Hextile

end Redemption.Vnc
