import Redemption.Rfx.TileDecode

/-! The messages of RemoteFX, and `RfxDecoder::recv`. -/
namespace Redemption.Rfx

open Redemption.Foundation

def wbtSync : Nat := 0xCCC0
def wbtCodecVersion : Nat := 0xCCC1
def wbtChannels : Nat := 0xCCC2
def wbtContext : Nat := 0xCCC3
def wbtFrameBegin : Nat := 0xCCC4
def wbtFrameEnd : Nat := 0xCCC5
def wbtRegion : Nat := 0xCCC6
def wbtExtension : Nat := 0xCCC7

def wfVersion10 : Nat := 0x0100
def wfMagic : Nat := 0xCACCACCA
def cbtRegion : Nat := 0xCAC1
def cbtTileset : Nat := 0xCAC2
def cbtTile : Nat := 0xCAC3

def ctTile64x64 : Nat := 0x0040

/-- `throw Error(ERR_MCS_PDU_TRUNCATED)`, where something is not as it has to be. -/
def expect (right : Prop) [Decidable right] : Checked RfxError Unit :=
  if right then .ok () else .error (.raised .errMcsPduTruncated)

/-- `::check_throw` -/
def check (stream : List Byte) (needed : Nat) : Checked RfxError Unit :=
  checkThrow stream needed .errMcsPduTruncated

/-- `TS_RFX_RECT` -/
structure TsRfxRect where
  x : Nat
  y : Nat
  width : Nat
  height : Nat
  deriving DecidableEq, Repr

/-- `TS_RFX_RECT::recv` -/
def TsRfxRect.recv (stream : List Byte) : Checked RfxError (TsRfxRect × List Byte) := do
  check stream 8
  let (x, stream) ← inLe 2 stream
  let (y, stream) ← inLe 2 stream
  let (width, stream) ← inLe 2 stream
  let (height, stream) ← inLe 2 stream
  return (⟨x, y, width, height⟩, stream)

/-- `TS_RFX_SYNC::recv` -/
def recvSync (stream : List Byte) : Checked RfxError Unit := do
  check stream 6
  let (magic, stream) ← inLe 4 stream
  expect (magic = wfMagic)
  let (version, _) ← inLe 2 stream
  expect (version = wfVersion10)

/-- `TS_RFX_CODEC_VERSIONS::recv` -/
def recvCodecVersions (stream : List Byte) : Checked RfxError Unit := do
  check stream 4
  let (numCodecs, stream) ← inUint8 stream
  expect (numCodecs = 1)
  let (codecId, stream) ← inUint8 stream
  expect (codecId = 1)
  let (version, _) ← inLe 2 stream
  expect (version = wfVersion10)

/-- `TS_RFX_CODEC_CHANNELT::recv` -/
def recvCodecChannelt (stream : List Byte) : Checked RfxError (List Byte) := do
  check stream 2
  let (_, stream) ← inUint8 stream
  let (_, stream) ← inUint8 stream
  return stream

/-- `TS_RFX_CONTEXT::recv` -/
def recvContext (stream : List Byte) : Checked RfxError Unit := do
  let stream ← recvCodecChannelt stream
  check stream 5
  let (_, stream) ← inUint8 stream
  let (tileSize, stream) ← inLe 2 stream
  expect (tileSize = ctTile64x64)
  let (_, _) ← inLe 2 stream

/-- `TS_RFX_CHANNELT::recv` -/
def recvChannelt (stream : List Byte) : Checked RfxError (List Byte) := do
  check stream 5
  let (channelId, stream) ← inUint8 stream
  expect (channelId = 0)
  let (_, stream) ← inLe 2 stream
  let (_, stream) ← inLe 2 stream
  return stream

/-- `TS_RFX_CHANNELS::recv` -/
def recvChannels (stream : List Byte) : Checked RfxError Unit := do
  check stream 1
  let (numChannels, stream) ← inUint8 stream
  let _ ← (List.range numChannels.toNat).foldlM (fun stream _ => recvChannelt stream) stream

/-- `TS_RFX_FRAME_BEGIN::recv` -/
def recvFrameBegin (stream : List Byte) : Checked RfxError Unit := do
  let stream ← recvCodecChannelt stream
  check stream 6
  let (_, stream) ← inLe 4 stream
  let (_, _) ← inLe 2 stream

/-- `TS_RFX_FRAME_END::recv` -/
def recvFrameEnd (stream : List Byte) : Checked RfxError Unit := do
  let _ ← recvCodecChannelt stream

/-- `TS_RFX_REGION`, as far as it is kept: its rectangles in the array that was allocated last. -/
structure TsRfxRegion where
  numRects : Nat
  rects : List TsRfxRect
  deriving DecidableEq, Repr

/-- What stays when an error is thrown. -/
def keep {ε σ α : Type} (state : σ) : Checked ε α → Checked (ε × σ) α
  | .ok value => .ok value
  | .error .outOfBounds => .error .outOfBounds
  | .error (.raised error) => .error (.raised (error, state))

/-- The loop over the rectangles: those that have not been read are zeros. -/
def recvRects : Nat → List TsRfxRect → List Byte →
    Checked (RfxError × List TsRfxRect) (List TsRfxRect × List Byte)
  | 0, rects, stream => .ok (rects, stream)
  | count + 1, rects, stream => do
    let (rect, stream) ← keep (rects ++ List.replicate (count + 1) ⟨0, 0, 0, 0⟩)
      (TsRfxRect.recv stream)
    recvRects count (rects ++ [rect]) stream

/-- The array that is allocated, and filled, if there are rectangles. -/
def TsRfxRegion.recvRects (region : TsRfxRegion) (numRects : Nat) (stream : List Byte) :
    Checked (RfxError × TsRfxRegion) (TsRfxRegion × List Byte) :=
  if numRects ≠ 0 then
    match Rfx.recvRects numRects [] stream with
    | .ok (rects, stream) => .ok (⟨numRects, rects⟩, stream)
    | .error .outOfBounds => .error .outOfBounds
    | .error (.raised (error, rects)) => .error (.raised (error, ⟨numRects, rects⟩))
  else .ok (⟨0, region.rects⟩, stream)

/-- `TS_RFX_REGION::recv` -/
def TsRfxRegion.recv (region : TsRfxRegion) (stream : List Byte) :
    Checked (RfxError × TsRfxRegion) TsRfxRegion := do
  let (numRects, stream) ← keep region do
    let stream ← recvCodecChannelt stream
    check stream 3
    let (regionFlags, stream) ← inUint8 stream
    expect (regionFlags &&& 1 = 1)
    inLe 2 stream
  let (region, stream) ← region.recvRects numRects stream
  keep region do
    check stream 4
    let (regionType, stream) ← inLe 2 stream
    expect (regionType = cbtRegion)
    let (numTilesets, _) ← inLe 2 stream
    expect (numTilesets = 1)
    return region

/-- The values in the two numbers that are read, of four bits each. -/
def TsRfxCodecQuant.ofNats (val val' : Nat) : TsRfxCodecQuant :=
  let field := fun (val index : Nat) => BitVec.ofNat 8 (val / 16 ^ index % 16)
  { ll3 := field val 0, lh3 := field val 1, hl3 := field val 2, hh3 := field val 3
    lh2 := field val 4, hl2 := field val 5, hh2 := field val 6, lh1 := field val 7
    hl1 := field val' 0, hh1 := field val' 1 }

/-- `TS_RFX_CODEC_QUANT::recv` -/
def TsRfxCodecQuant.recv (stream : List Byte) : Checked RfxError (TsRfxCodecQuant × List Byte) := do
  check stream 5
  let (val, stream) ← inLe 4 stream
  let (val', stream) ← inUint8 stream
  return (.ofNats val val'.toNat, stream)

/-- `TS_RFX_TILE` -/
structure TsRfxTile where
  quantIdxY : Nat
  quantIdxCb : Nat
  quantIdxCr : Nat
  xIdx : Nat
  yIdx : Nat
  yData : List Byte
  cbData : List Byte
  crData : List Byte
  deriving DecidableEq, Repr

/-- `TS_RFX_TILE::recv` -/
def TsRfxTile.recv (stream : List Byte) : Checked RfxError (TsRfxTile × List Byte) := do
  check stream 13
  let (blockType, stream) ← inLe 2 stream
  expect (blockType = cbtTile)
  let (len, stream) ← inLe 4 stream
  let blockLen := len % 2 ^ 16
  expect (6 ≤ blockLen ∧ blockLen - 6 ≤ stream.length)
  let tileStream := stream.take (blockLen - 6)
  let (quantIdxY, tileStream) ← inUint8 tileStream
  let (quantIdxCb, tileStream) ← inUint8 tileStream
  let (quantIdxCr, tileStream) ← inUint8 tileStream
  let (xIdx, tileStream) ← inLe 2 tileStream
  let (yIdx, tileStream) ← inLe 2 tileStream
  let (yLen, tileStream) ← inLe 2 tileStream
  let (cbLen, tileStream) ← inLe 2 tileStream
  let (crLen, tileStream) ← inLe 2 tileStream
  check stream (yLen + cbLen + crLen)
  let (yData, tileStream) ← inBytes yLen tileStream
  let (cbData, tileStream) ← inBytes cbLen tileStream
  let (crData, _) ← inBytes crLen tileStream
  return ({ quantIdxY := quantIdxY.toNat, quantIdxCb := quantIdxCb.toNat,
            quantIdxCr := quantIdxCr.toNat, xIdx, yIdx, yData, cbData, crData },
    stream.drop (blockLen - 6))

/-- `RDPSetSurfaceCommand`, as far as the decoder reads it. -/
structure RDPSetSurfaceCommand where
  width : BitVec 16
  height : BitVec 16
  deriving DecidableEq, Repr

/-- `RDPSurfaceContent`: a stride, the data, and the rectangles of the region. -/
structure RDPSurfaceContent where
  stride : Nat
  size : Nat
  data : Buffer Byte size
  region : List TsRfxRect

/-- `roundTo` -/
def roundTo (l mod : Nat) : Nat := (l + mod - 1) / mod * mod

/-- The stride of the content of a command, a `uint16_t` as the width is. -/
def RDPSetSurfaceCommand.stride (cmd : RDPSetSurfaceCommand) : Nat :=
  roundTo cmd.width.toNat 64 % 2 ^ 16 * 4 % 2 ^ 16

/-- The size of the content of a command, an `int`. -/
def RDPSetSurfaceCommand.size (cmd : RDPSetSurfaceCommand) : Nat :=
  cmd.stride * (roundTo cmd.height.toNat 64 % 2 ^ 16) * 4

/-- The constructor of `RDPSurfaceContent`; the overflow of an `int` stops the run. -/
def RDPSurfaceContent.make (cmd : RDPSetSurfaceCommand) (region : List TsRfxRect) :
    Checked RfxError RDPSurfaceContent :=
  if cmd.size ≤ Rlgr.intMax then .ok ⟨cmd.stride, cmd.size, .filled 0, region⟩
  else .error .outOfBounds

/-- An access of an array. -/
def at' {α : Type} (values : List α) (index : Nat) : Checked RfxError α :=
  match values[index]? with
  | some value => .ok value
  | none => .error .outOfBounds

/-- `TS_RFX_TILE::draw` -/
def TsRfxTile.draw (memory : Nat → BitVec 16) (mode : RlgrMode) (quantVals : List TsRfxCodecQuant)
    (tile : TsRfxTile) (content : RDPSurfaceContent) : Checked RfxError RDPSurfaceContent := do
  let quantY ← at' quantVals tile.quantIdxY
  let y ← decodeComponent quantY mode tile.yData memory
  let quantCb ← at' quantVals tile.quantIdxCb
  let cb ← decodeComponent quantCb mode tile.cbData memory
  let quantCr ← at' quantVals tile.quantIdxCr
  let cr ← decodeComponent quantCr mode tile.crData memory
  let dest := tile.xIdx * 64 * 4 + tile.yIdx * content.stride * 64
  let data ← yCbCrToRGB y cb cr dest content.stride content.data
  return { content with data }

/-- Arrays of so many values. -/
def recvArray {α : Type} (recv : List Byte → Checked RfxError (α × List Byte)) :
    Nat → List Byte → Checked RfxError (List α × List Byte)
  | 0, stream => .ok ([], stream)
  | count + 1, stream => do
    let (value, stream) ← recv stream
    let (values, stream) ← recvArray recv count stream
    return (value :: values, stream)

/-- The `switch` of the mode. -/
def rlgrModeOf (properties : Nat) : Checked RfxError RlgrMode :=
  match properties / 2 ^ 10 % 16 with
  | 0x01 => .ok .rlgr1
  | 0x04 => .ok .rlgr3
  | _ => .error (.raised .errMcsPduTruncated)

/-- `TS_RFX_TILESET::recv`: what is given to `drawable.draw`. -/
def recvTileset (memory : Nat → BitVec 16) (cmd : RDPSetSurfaceCommand) (region : List TsRfxRect)
    (stream : List Byte) : Checked RfxError RDPSurfaceContent := do
  let stream ← recvCodecChannelt stream
  check stream 12
  let (subType, stream) ← inLe 2 stream
  expect (subType = cbtTileset)
  let (idx, stream) ← inLe 2 stream
  expect (idx = 0)
  let (properties, stream) ← inLe 2 stream
  let mode ← rlgrModeOf properties
  let (numQuant, stream) ← inUint8 stream
  let (tileSize, stream) ← inUint8 stream
  expect (tileSize = 0x40)
  let (numTiles, stream) ← inLe 2 stream
  let (tileDataSize, stream) ← inLe 4 stream
  let (quantVals, stream) ← recvArray TsRfxCodecQuant.recv numQuant.toNat stream
  check stream tileDataSize
  let (tiles, _) ← recvArray TsRfxTile.recv numTiles (stream.take tileDataSize)
  let content ← RDPSurfaceContent.make cmd region
  tiles.foldlM (fun content tile => tile.draw memory mode quantVals content) content

inductive DecoderState where
  | rfxWaitingSync
  | rfxWaitingProperties
  | rfxWaitingFrame
  deriving DecidableEq, Repr

/-- `RfxDecoder` -/
structure RfxDecoder where
  decoderState : DecoderState
  haveFlags : BitVec 8
  currentRegion : TsRfxRegion
  deriving DecidableEq, Repr

def flagContext : BitVec 8 := 1
def flagVersions : BitVec 8 := 2
def flagChannels : BitVec 8 := 4
def flagHaveAll : BitVec 8 := 7

namespace RfxDecoder

/-- The constructor. -/
def new : RfxDecoder := ⟨.rfxWaitingSync, 0, ⟨0, []⟩⟩

/-- The rectangles of the current region, each read from the array. -/
def region (decoder : RfxDecoder) : Checked RfxError (List TsRfxRect) :=
  (List.range decoder.currentRegion.numRects).mapM (at' decoder.currentRegion.rects)

/-- The flag that a message in the state `RFX_WAITING_PROPERTIES` sets. -/
def propertiesFlag (blockType : Nat) (packet : List Byte) : Checked RfxError (BitVec 8) :=
  if blockType = wbtContext then do
    recvContext packet
    return flagContext
  else if blockType = wbtCodecVersion then do
    recvCodecVersions packet
    return flagVersions
  else if blockType = wbtChannels then do
    recvChannels packet
    return flagChannels
  else .error (.raised .errMcsPduTruncated)

/-- A message in the state `RFX_WAITING_PROPERTIES`. -/
def recvProperties (decoder : RfxDecoder) (blockType : Nat) (packet : List Byte) :
    Checked RfxError RfxDecoder := do
  let flag ← propertiesFlag blockType packet
  let haveFlags := decoder.haveFlags ||| flag
  return { decoder with
    haveFlags
    decoderState := if haveFlags = flagHaveAll then .rfxWaitingFrame else decoder.decoderState }

/-- A message in the state `RFX_WAITING_FRAME`, and what is drawn. -/
def recvFrame (memory : Nat → BitVec 16) (cmd : RDPSetSurfaceCommand) (decoder : RfxDecoder)
    (blockType : Nat) (packet : List Byte) :
    Checked (RfxError × RfxDecoder) (RfxDecoder × Option RDPSurfaceContent) :=
  if blockType = wbtFrameBegin then keep decoder do
    recvFrameBegin packet
    return (decoder, none)
  else if blockType = wbtFrameEnd then keep decoder do
    recvFrameEnd packet
    return (decoder, none)
  else if blockType = wbtRegion then
    match decoder.currentRegion.recv packet with
    | .ok currentRegion => .ok ({ decoder with currentRegion }, none)
    | .error .outOfBounds => .error .outOfBounds
    | .error (.raised (error, currentRegion)) =>
      .error (.raised (error, { decoder with currentRegion }))
  else if blockType = wbtExtension then keep decoder do
    let region ← decoder.region
    let content ← recvTileset memory cmd region packet
    return (decoder, some content)
  else .ok (decoder, none)

/-- The `switch` of `recv`. -/
def recvBlock (memory : Nat → BitVec 16) (cmd : RDPSetSurfaceCommand) (decoder : RfxDecoder)
    (blockType : Nat) (packet : List Byte) :
    Checked (RfxError × RfxDecoder) (RfxDecoder × Option RDPSurfaceContent) :=
  match decoder.decoderState with
  | .rfxWaitingSync => keep decoder do
    expect (blockType = wbtSync)
    recvSync packet
    return ({ decoder with decoderState := .rfxWaitingProperties }, none)
  | .rfxWaitingProperties => keep decoder do
    let decoder ← decoder.recvProperties blockType packet
    return (decoder, none)
  | .rfxWaitingFrame => recvFrame memory cmd decoder blockType packet

/-- The header of the next block, and the packet in it. -/
def nextBlock (stream : List Byte) : Checked RfxError (Nat × List Byte × List Byte) := do
  check stream 6
  let (blockType, stream) ← inLe 2 stream
  let (blockLen, stream) ← inLe 4 stream
  expect (6 ≤ blockLen)
  check stream (blockLen - 6)
  return (blockType, stream.take (blockLen - 6), stream.drop (blockLen - 6))

/-- The loop of `recv`: each turn takes bytes. -/
def recvLoop (memory : Nat → BitVec 16) (cmd : RDPSetSurfaceCommand) :
    Nat → RfxDecoder → List Byte →
      Checked (RfxError × RfxDecoder) (RfxDecoder × List RDPSurfaceContent)
  | 0, decoder, _ => .ok (decoder, [])
  | turns + 1, decoder, stream =>
    if 6 ≤ stream.length then do
      let (blockType, packet, stream) ← keep decoder (nextBlock stream)
      let (decoder, drawn) ← decoder.recvBlock memory cmd blockType packet
      let (decoder, more) ← recvLoop memory cmd turns decoder stream
      return (decoder, drawn.toList ++ more)
    else .ok (decoder, [])

/-- `RfxDecoder::recv` -/
def recv (memory : Nat → BitVec 16) (cmd : RDPSetSurfaceCommand) (decoder : RfxDecoder)
    (stream : List Byte) : Checked (RfxError × RfxDecoder) (RfxDecoder × List RDPSurfaceContent) :=
  recvLoop memory cmd stream.length decoder stream

end RfxDecoder

end Redemption.Rfx
