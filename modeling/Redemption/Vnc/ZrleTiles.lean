import Redemption.Vnc.Encoder
import Redemption.Vnc.Zdecompressor

/-! The tiles of the ZRLE encoding, as `Zrle` decodes them from the inflated data. -/
namespace Redemption.Vnc

open Redemption.Foundation Redemption.Utils

/-- The size of the arrays `tile_data`. -/
def tileDataSize : Nat := 64 * 64 * 4

abbrev TileData := Buffer Byte tileDataSize

/-- A tile that was drawn, and the data behind it. -/
abbrev TileResult := Checked VncError (Drawn × List Byte)

section Tiles

variable (Bpp : Nat) (tile : Rect)

def rawTile (stream : List Byte) : TileResult := do
  let tileDataLength := tile.cx * tile.cy * Bpp % 2 ^ 16
  checkThrow stream tileDataLength .zrleProtocol
  let (tileData, stream) ← inBytes tileDataLength stream
  let drawn ← drawTile Bpp tile tileData
  return (drawn, stream)

/-- `solidTile`; the two bytes of the colour are read whatever the size of a pixel is. -/
def solidTile (stream : List Byte) : TileResult := do
  let (_, rest) ← inBytes Bpp stream
  let cpixelPattern ← bytesAt stream 0 2
  return (.opaqueRect tile (leValue cpixelPattern), rest)

/-- An entry of a palette; it is read from where the palette lies, without a check. -/
def paletteEntry (palette : List Byte) (index : Nat) : Checked VncError (List Byte) :=
  bytesAt palette (index * Bpp) Bpp

def pixelsPerByte (subencoding : Nat) : Nat :=
  if 4 < subencoding then 2 else if 2 < subencoding then 4 else 8

def lineBytesWidth (subencoding cx : Nat) : Nat :=
  if 4 < subencoding then (cx + 1) >>> 1
  else if 2 < subencoding then (cx + 3) >>> 2
  else (cx + 7) >>> 3

/-- The `switch (q)` for a palette of 5 to 16 colours. -/
def halfField (byte : Nat) : Nat → Nat
  | 0 => byte >>> 4
  | 1 => byte &&& 0xF
  | _ => 0

/-- The `switch (q)` for a palette of 3 or 4 colours. -/
def pairField (byte : Nat) : Nat → Nat
  | 0 => (byte >>> 6) &&& 3
  | 1 => (byte >>> 4) &&& 3
  | 2 => (byte >>> 2) &&& 3
  | 3 => byte &&& 3
  | _ => 0

/-- The `switch (q)` for a palette of two colours. -/
def bitField (byte : Nat) : Nat → Nat
  | 0 => (byte >>> 7) &&& 1
  | 1 => (byte >>> 6) &&& 1
  | 2 => (byte >>> 5) &&& 1
  | 3 => (byte >>> 4) &&& 1
  | 4 => (byte >>> 3) &&& 1
  | 5 => (byte >>> 2) &&& 1
  | 6 => (byte >>> 1) &&& 1
  | 7 => byte &&& 1
  | _ => 0

/-- The field `q` of a byte of packed pixels. -/
def paletteIndex (subencoding q : Nat) (currentByte : Byte) : Nat :=
  if 4 < subencoding then halfField currentByte.toNat q
  else if 2 < subencoding then pairField currentByte.toNat q
  else bitField currentByte.toNat q

/-- The pixels of one byte, up to the end of the line `y`. -/
def packedByte (subencoding : Nat) (palette : List Byte) (y : Nat) (currentByte : Byte) :
    List Nat → TileData → Nat → Checked VncError (TileData × Nat)
  | [], tileData, x => .ok (tileData, x)
  | q :: rest, tileData, x =>
    if tile.cx ≤ x then .ok (tileData, x)
    else do
      let index := paletteIndex subencoding q currentByte
      -- An index that the palette does not have is drawn as the first.
      let entry ← paletteEntry Bpp palette (if subencoding ≤ index then 0 else index)
      let tileData ← tileData.storeBlock ((y * tile.cx + x) * Bpp) entry
      packedByte subencoding palette y currentByte rest tileData (x + 1)

def packedLine (subencoding : Nat) (palette : List Byte) (y : Nat) :
    List Byte → TileData → Nat → Checked VncError TileData
  | [], tileData, _ => .ok tileData
  | currentByte :: bytes, tileData, x => do
    let (tileData, x) ← packedByte Bpp tile subencoding palette y currentByte
      (List.range (pixelsPerByte subencoding)) tileData x
    packedLine subencoding palette y bytes tileData x

/-- So many lines, from the line `y` on. -/
def packedLines (subencoding : Nat) (palette : List Byte) :
    Nat → Nat → List Byte → TileData → Checked VncError TileData
  | 0, _, _, tileData => .ok tileData
  | lines + 1, y, packedPixels, tileData => do
    let (line, packedPixels) ← inBytes (lineBytesWidth subencoding tile.cx) packedPixels
    let tileData ← packedLine Bpp tile subencoding palette y line tileData 0
    packedLines subencoding palette lines (y + 1) packedPixels tileData

variable (memory : TileData)

/-- `packedPalette`; `memory` is what its array happens to hold. -/
def packedPalette (subencoding : Nat) (stream : List Byte) : TileResult := do
  checkThrow stream (subencoding * Bpp) .zrleProtocol
  let (palette, stream) ← inBytes (subencoding * Bpp) stream
  let packedPixelsLength := lineBytesWidth subencoding tile.cx * tile.cy
  checkThrow stream packedPixelsLength .zrleProtocol
  let (packedPixels, stream) ← inBytes packedPixelsLength stream
  let tileData ← packedLines Bpp tile subencoding palette tile.cy 0 packedPixels memory
  let drawn ← drawTile Bpp tile (tileData.slice 0 tileDataSize)
  return (drawn, stream)

/-- The bytes behind the first of a run length, each but the last being 255. -/
def longLength : Nat → List Byte → Checked VncError (Nat × List Byte)
  | _, [] => .error (.raised .zrleProtocol)
  | length, tmp :: stream =>
    if tmp.toNat ≠ 255 then .ok (length + tmp.toNat + 1, stream)
    else longLength (length + tmp.toNat + 1 - 1) stream

/-- A run length, of which at least one byte is there. -/
def runLength (stream : List Byte) : Checked VncError (Nat × List Byte) := do
  let (byte, stream) ← inUint8 stream
  let length := byte.toNat + 1
  if length = 256 then longLength (length - 1) stream
  else return (length, stream)

/-- Lay a pixel so many times; `at'` is `tmp_tile_data`, counted from the start of the array. -/
def writeRun (pattern : List Byte) :
    Nat → TileData → Nat → Checked VncError (TileData × Nat)
  | 0, tileData, at' => .ok (tileData, at')
  | length + 1, tileData, at' =>
    if at' = tile.cx * tile.cy * Bpp then .error (.raised .zrleProtocol)
    else do
      let tileData ← tileData.storeBlock at' pattern
      writeRun pattern length tileData (at' + Bpp)

/-- A run of `plainRLE`. -/
def plainRun (stream : List Byte) : Checked VncError ((List Byte × Nat) × List Byte) := do
  checkThrow stream (Bpp + 1) .zrleProtocol
  let (cpixelPattern, stream) ← inBytes Bpp stream
  let (length, stream) ← runLength stream
  return ((cpixelPattern, length), stream)

/-- The length of a run of `paletteRLE`: one, unless the top bit of the index is set. -/
def paletteRunLength (index : Nat) (stream : List Byte) :
    Checked VncError (Nat × List Byte) :=
  if index &&& 0x80 ≠ 0 then do
    checkThrow stream 1 .zrleProtocol
    runLength stream
  else .ok (1, stream)

/-- A run of `paletteRLE`. -/
def paletteRun (palette stream : List Byte) :
    Checked VncError ((List Byte × Nat) × List Byte) := do
  checkThrow stream 1 .zrleProtocol
  let (index, stream) ← inUint8 stream
  let (length, stream) ← paletteRunLength index.toNat stream
  let entry ← paletteEntry Bpp palette (index.toNat &&& 0x7F)
  return ((entry, length), stream)

/-- The loop over the runs of a tile. Every run takes at least a byte, so that as many rounds
as there are bytes are enough. -/
def runs (nextRun : List Byte → Checked VncError ((List Byte × Nat) × List Byte)) :
    Nat → List Byte → TileData → Nat → Checked VncError (TileData × List Byte)
  | 0, _, _, _ => .error (.raised .unfinished)
  | fuel + 1, stream, tileData, at' => do
    let (run, stream) ← nextRun stream
    let (tileData, at') ← writeRun Bpp tile run.1 run.2 tileData at'
    if at' = tile.cx * tile.cy * Bpp then return (tileData, stream)
    else runs nextRun fuel stream tileData at'

def plainRLE (stream : List Byte) : TileResult := do
  let (tileData, stream) ← runs Bpp tile (plainRun Bpp) (stream.length + 1) stream memory 0
  let drawn ← drawTile Bpp tile (tileData.slice 0 tileDataSize)
  return (drawn, stream)

def paletteRLE (subencoding : Nat) (stream : List Byte) : TileResult := do
  let paletteSize := (subencoding &&& 0x7F) * Bpp
  checkThrow stream paletteSize .zrleProtocol
  let (palette, stream) ← inBytes paletteSize stream
  let (tileData, stream) ←
    runs Bpp tile (paletteRun Bpp palette) (stream.length + 1) stream memory 0
  let drawn ← drawTile Bpp tile (tileData.slice 0 tileDataSize)
  return (drawn, stream)

/-- The body of the loop of `lib_framebuffer_update_zrle`, up to the next tile. -/
def decodeTile (stream : List Byte) : TileResult := do
  let (byte, stream) ← inUint8 stream
  let subencoding := byte.toNat
  if subencoding = 0 then rawTile Bpp tile stream
  else if subencoding = 1 then solidTile Bpp tile stream
  else if subencoding ≤ 16 then packedPalette Bpp tile memory subencoding stream
  else if subencoding ≤ 127 ∨ subencoding = 129 then .error (.raised .zrleProtocol)
  else if subencoding = 128 then plainRLE Bpp tile memory stream
  else paletteRLE Bpp tile memory subencoding stream

end Tiles

/-- The loop of `lib_framebuffer_update_zrle`; data that ends before the last tile is an error.
Every tile takes at least a byte. -/
def updateTiles (Bpp : Nat) (memory : TileData) :
    Nat → TileWalk → List Byte → List Drawn → Checked VncError (List Drawn)
  | 0, _, _, _ => .error (.raised .unfinished)
  | fuel + 1, walk, stream, drawn => do
    checkThrow stream 1 .zrleProtocol
    let (order, stream) ← decodeTile Bpp walk.tile memory stream
    match walk.nextTile 64 with
    | none => return drawn ++ [order]
    | some next => updateTiles Bpp memory fuel next stream (drawn ++ [order])

/-- `lib_framebuffer_update_zrle`. -/
def libFramebufferUpdateZrle (Bpp : Nat) (memory : TileData) (walk : TileWalk)
    (stream : List Byte) : Checked VncError (List Drawn) :=
  updateTiles Bpp memory (stream.length + 1) walk stream []

/-! `Zrle`: the encoder that collects the compressed data of a rectangle, inflates it and draws
its tiles. -/

inductive ZrleState where
  | header
  | data
  | exit
  deriving DecidableEq, Repr

/-- `Zrle`, with the decompressor that it refers to. -/
structure Zrle (σ : Type) where
  walk : TileWalk
  zd : Zdecompressor σ
  state : ZrleState
  zlibCompressedDataLength : Nat
  accumulator : List Byte

/-- What a call does with the memory and the rounds it is given: the contents of the arrays, and
how many rounds of a loop are followed. -/
structure ZrleSetup (σ : Type) where
  Bpp : Nat
  inflater : Inflater σ Byte
  outsize : Nat
  memory : TileData
  rounds : Nat

namespace Zrle

variable {σ : Type}

def new (rect : Rect) (zd : Zdecompressor σ) : Zrle σ where
  walk := TileWalk.start 64 rect
  zd := zd
  state := .header
  zlibCompressedDataLength := 0
  accumulator := []

/-- The state `Header`. -/
def header (zrle : Zrle σ) (buf : List Byte) : Answer (Zrle σ) Drawn :=
  if buf.length < 4 then ⟨.needMoreData, zrle, buf, []⟩
  else
    ⟨.ready, { zrle with
      zlibCompressedDataLength := beValue (buf.take 4)
      accumulator := []
      state := .data }, buf.drop 4, []⟩

/-- The state `Data`, once all of the data has come in. -/
def complete (setup : ZrleSetup σ) (zrle : Zrle σ) (accumulator buf : List Byte) :
    Checked VncError (Answer (Zrle σ) Drawn) :=
  match zrle.zd.inflateAll setup.inflater setup.outsize setup.rounds accumulator with
  | none => .error (.raised .unfinished)
  | some (zd, uncompressed) => do
    let drawn ← libFramebufferUpdateZrle setup.Bpp setup.memory zrle.walk uncompressed
    return ⟨.exit, { zrle with zd, accumulator := [], state := .exit }, buf, drawn⟩

/-- The state `Data`. -/
def data (setup : ZrleSetup σ) (zrle : Zrle σ) (buf : List Byte) :
    Checked VncError (Answer (Zrle σ) Drawn) :=
  if zrle.accumulator.length + buf.length < zrle.zlibCompressedDataLength then
    .ok ⟨.needMoreData, { zrle with accumulator := zrle.accumulator ++ buf }, [], []⟩
  else
    let interestingPart := zrle.zlibCompressedDataLength - zrle.accumulator.length
    complete setup zrle (zrle.accumulator ++ buf.take interestingPart) (buf.drop interestingPart)

/-- `operator()`. -/
def call (setup : ZrleSetup σ) (zrle : Zrle σ) (buf : List Byte) :
    Checked VncError (Answer (Zrle σ) Drawn) :=
  if zrle.walk.r.isEmpty then .ok ⟨.exit, zrle, buf, []⟩
  else
    match zrle.state with
    | .header => .ok (zrle.header buf)
    | .data => zrle.data setup buf
    | .exit => .error (.raised .zrleProtocol)

end Zrle

end Redemption.Vnc
