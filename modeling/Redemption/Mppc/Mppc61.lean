import Redemption.Mppc.Encoder
import Redemption.Mppc.MatchDetails

/-! `rdp_mppc_61_enc` and `rdp_mppc_61_dec`: match details over a large history, and
RDP 5.0 compression of the result. -/
namespace Redemption.Mppc

open Redemption.Foundation

def l1Compressed : Flags := 0x01
def l1NoCompression : Flags := 0x02
def l1PacketAtFront : Flags := 0x04
def l1InnerCompression : Flags := 0x10

/-- Where `outputBuffer` points. -/
inductive OutputBuffer where
  | null
  | level1
  | level2
  deriving DecidableEq, Repr

/-- The fields of `rdp_mppc_61_enc`; the level 1 output is what was written to it. -/
structure Encoder61 where
  historyBuffer : Buffer Byte historyBufferLength61
  historyOffset : Nat
  level2Compressor : Encoder format50
  level1OutputBuffer : List Byte
  level1ComprFlagsHold : Flags
  level1ComprFlags : Flags
  level2ComprFlags : Flags
  outputBuffer : OutputBuffer
  bytesInOutputBuffer : Nat
  hashTabMgr : HashTableManager

namespace Encoder61

def fresh : Encoder61 where
  historyBuffer := .filled 0
  historyOffset := 0
  level2Compressor := .fresh format50
  level1OutputBuffer := []
  level1ComprFlagsHold := l1PacketAtFront
  level1ComprFlags := 0
  level2ComprFlags := 0
  outputBuffer := .null
  bytesInOutputBuffer := 0
  hashTabMgr := .empty

/-- The state that `compress_61` starts from. -/
def begin (enc : Encoder61) : Encoder61 :=
  { enc with
    level1ComprFlags := l1InnerCompression
    level2ComprFlags := 0
    level1OutputBuffer := []
    outputBuffer := .null
    bytesInOutputBuffer := 0 }

/-- A packet that does not fit behind the others goes to the front of the history. -/
def markFront (enc : Encoder61) (dataSize : Nat) : Encoder61 :=
  if historyBufferLength61 ≤ enc.historyOffset + dataSize + 1 then
    { enc with level1ComprFlagsHold := enc.level1ComprFlagsHold ||| l1PacketAtFront }
  else enc

def rewind (enc : Encoder61) : Encoder61 :=
  if enc.level1ComprFlagsHold.has l1PacketAtFront then
    { enc with
      historyOffset := 0
      historyBuffer := .filled 0
      hashTabMgr := enc.hashTabMgr.reset }
  else enc

/-- The packet is put behind the others. -/
def place (enc : Encoder61) (data : List Byte) : Checked ErrorId Encoder61 := do
  let historyBuffer ← enc.historyBuffer.storeBlock enc.historyOffset data
  return { enc with historyBuffer }

/-- The search, and what is written for it. The hash at the last positions runs over up
to five bytes `behind` the history. -/
def compressLevel1 (behind : Nat → Byte) (enc : Encoder61) (data : List Byte) :
    Checked ErrorId Encoder61 :=
  if data.length < minimumMatchLength61 then
    .ok { enc with level1ComprFlags := enc.level1ComprFlags ||| l1NoCompression }
  else do
    let (hashTabMgr, matchDetails) ← findMatch61 (enc.historyBuffer.withBehind 5 behind)
      enc.historyOffset data.length enc.hashTabMgr
    let level1OutputBuffer ← writeLevel1 data matchDetails
    let flag := if data.length ≤ level1OutputBuffer.length then l1NoCompression else l1Compressed
    return { enc with
      hashTabMgr
      level1OutputBuffer
      level1ComprFlags := enc.level1ComprFlags ||| flag }

def compressLevel2 (enc : Encoder61) (input : List Byte) (maxCompressedDataSize : Nat) :
    Checked ErrorId Encoder61 := do
  let inner ← compress50 enc.level2Compressor input maxCompressedDataSize
  if inner.flags.has packetCompressed then
    return { enc with
      level2Compressor := inner
      level2ComprFlags := inner.flags
      outputBuffer := .level2
      bytesInOutputBuffer := inner.bytesInOpb }
  else return { enc with level2Compressor := inner, level2ComprFlags := 0 }

/-- The packet stays in the history; held flags go out with it, if it goes out. -/
def finish (enc : Encoder61) (dataSize : Nat) : Encoder61 :=
  let enc := { enc with historyOffset := enc.historyOffset + dataSize }
  if enc.bytesInOutputBuffer ≠ 0 then
    { enc with
      level1ComprFlags := enc.level1ComprFlags ||| enc.level1ComprFlagsHold
      level1ComprFlagsHold := 0 }
  else enc

/-- Nothing is sent: what the search did to the table is taken back, and where that is not
possible, the next packet goes to the front. -/
def giveUp (enc : Encoder61) (dataSize : Nat) : Encoder61 :=
  match enc.hashTabMgr.undoLastChanges with
  | some hashTabMgr => { enc with hashTabMgr }
  | none =>
    { enc with
      level1ComprFlagsHold := enc.level1ComprFlagsHold ||| l1PacketAtFront }.finish dataSize

/-- Level 1 was of no use: the packet itself is compressed, or given up on. -/
def sendPlain (enc : Encoder61) (data : List Byte) : Checked ErrorId Encoder61 := do
  let enc ← enc.compressLevel2 data (data.length - 2)
  if enc.level2ComprFlags.has packetCompressed then return enc.finish data.length
  else return enc.giveUp data.length

/-- What level 1 wrote is compressed again, or sent as it is. -/
def sendLevel1 (enc : Encoder61) (data : List Byte) : Checked ErrorId Encoder61 := do
  let enc ← enc.compressLevel2 enc.level1OutputBuffer (2 ^ 16 - 1)
  if enc.level2ComprFlags.has packetCompressed then return enc.finish data.length
  else return { enc with
    outputBuffer := .level1
    bytesInOutputBuffer := enc.level1OutputBuffer.length }.finish data.length

/-- What follows once the packet has its place in the history. -/
def encodePacket (behind : Nat → Byte) (enc : Encoder61) (data : List Byte) :
    Checked ErrorId Encoder61 := do
  let enc ← enc.compressLevel1 behind data
  if enc.level1ComprFlags.has l1NoCompression then enc.sendPlain data else enc.sendLevel1 data

/-- The bytes that `outputBuffer` points to. -/
def output (enc : Encoder61) : Checked ErrorId (List Byte) :=
  match enc.outputBuffer with
  | .null => .error .outOfBounds
  | .level1 => do
    let (bytes, _) ← inBytes enc.bytesInOutputBuffer enc.level1OutputBuffer
    return bytes
  | .level2 => enc.level2Compressor.outputBuffer.loadBlock 0 enc.bytesInOutputBuffer

/-- `get_compressed_data`, where `do_compress` reports a packet as compressed. -/
def result (enc : Encoder61) : Checked ErrorId (Option (List Byte)) :=
  if enc.bytesInOutputBuffer ≠ 0 then do
    let bytes ← enc.output
    return some (enc.level1ComprFlags :: enc.level2ComprFlags :: bytes)
  else return none

end Encoder61

/-- `compress_61`. -/
def compress61 (behind : Nat → Byte) (enc : Encoder61) (uncompressedData : List Byte) :
    Checked ErrorId Encoder61 :=
  if maxDataBlockSize61 < uncompressedData.length then .error (.raised .rdpProtocol)
  else
    let enc := enc.begin
    if uncompressedData.length ≤ 2 then .ok enc
    else do
      let enc ← (enc.markFront uncompressedData.length).rewind.place uncompressedData
      enc.encodePacket behind uncompressedData

/-- The fields of `rdp_mppc_61_dec`. -/
structure Decoder61 where
  historyBuffer : Buffer Byte historyBufferLength61
  historyOffset : Nat
  level2Decompressor : Decoder format50

namespace Decoder61

def fresh : Decoder61 := ⟨.filled 0, 0, .fresh format50⟩

/-- The level 1 data, behind level 2 compression where there is any. -/
def level1Data (dec : Decoder61) (level1ComprFlags level2ComprFlags : Flags)
    (stream : List Byte) : Checked ErrorId (Decoder format50 × List Byte) :=
  if level1ComprFlags.has l1InnerCompression ∧ level2ComprFlags.has packetCompressed then
    decompress50 dec.level2Decompressor stream level2ComprFlags >>= Decoder.view
  else .ok (dec.level2Decompressor, stream)

/-- What follows once the flags are read: the new state, and where the packet is. -/
def decode (dec : Decoder61) (level1ComprFlags level2ComprFlags : Flags) (stream : List Byte) :
    Checked ErrorId (Decoder61 × Nat × Nat) :=
  if level1ComprFlags.has (l1Compressed ||| l1NoCompression) then do
    let (level2Decompressor, stream) ← dec.level1Data level1ComprFlags level2ComprFlags stream
    let historyOffset :=
      if level1ComprFlags.has l1PacketAtFront then 0 else dec.historyOffset
    let (historyBuffer, length) ← decompressLevel1 (!level1ComprFlags.has l1NoCompression) stream
      dec.historyBuffer historyOffset
    return (⟨historyBuffer, historyOffset + length, level2Decompressor⟩, historyOffset, length)
  else .error (.raised .rdp61Decompress)

/-- The bytes that the view returned by `decompress` shows. -/
def view (result : Decoder61 × Nat × Nat) : Checked ErrorId (Decoder61 × List Byte) := do
  let (dec, offset, length) := result
  let bytes ← dec.historyBuffer.loadBlock offset length
  return (dec, bytes)

end Decoder61

/-- `rdp_mppc_61_dec::decompress`. -/
def decompress61 (dec : Decoder61) (compressedData : List Byte) :
    Checked ErrorId (Decoder61 × Nat × Nat) := do
  checkThrow compressedData 2 .rdp61DecompressDataTruncated
  let (level1ComprFlags, stream) ← inUint8 compressedData
  let (level2ComprFlags, stream) ← inUint8 stream
  dec.decode level1ComprFlags level2ComprFlags stream

end Redemption.Mppc
