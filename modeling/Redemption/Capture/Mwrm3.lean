import Redemption.Foundation.ByteStream
import Redemption.Foundation.FrontReader

/-! The packets of the index of a recording: `Mwrm3Serial`, and `parse_packet`. -/
namespace Redemption.Capture.Mwrm3

open Redemption.Foundation

inductive Direction where
  | unknown
  | clientToServer
  | serverToClient
  /-- Three, which two bits hold, and no enumerator has. -/
  | unnamed
  deriving DecidableEq, Repr

def Direction.toByte : Direction → Byte
  | unknown => 0
  | clientToServer => 1
  | serverToClient => 2
  | unnamed => 3

def Direction.ofByte (byte : Byte) : Direction :=
  if byte = 0 then unknown else if byte = 1 then clientToServer
  else if byte = 2 then serverToClient else unnamed

inductive TransferedStatus where
  | unknown
  | completed
  | broken
  /-- Three, which two bits hold, and no enumerator has. -/
  | unnamed
  deriving DecidableEq, Repr

def TransferedStatus.toByte : TransferedStatus → Byte
  | unknown => 0
  | completed => 1
  | broken => 2
  | unnamed => 3

def TransferedStatus.ofByte (byte : Byte) : TransferedStatus :=
  if byte = 0 then unknown else if byte = 1 then completed
  else if byte = 2 then broken else unnamed

/-- What the callback of `parse_packet` is given, of each type; absent hashes are empty. -/
inductive Packet where
  | wrmNew (filename : List Byte)
  | wrmState (fileSize duration : BitVec 64) (quickHash fullHash : List Byte)
  | fdxNew (filename : List Byte)
  | tflNew (idx fileSize : BitVec 64) (direction : Direction) (transferedStatus : TransferedStatus)
      (originalFilename tflFilename quickHash fullHash signature : List Byte)
  | mwrmHeaderCompatibility
  deriving DecidableEq, Repr

/-- `enum class Type`. -/
inductive PacketType where
  | wrmNew
  | wrmState
  | fdxNew
  | tflNew
  | mwrmHeaderCompatibility
  deriving DecidableEq, Repr

def PacketType.toNat : PacketType → Nat
  | wrmNew => 1
  | wrmState => 2
  | fdxNew => 3
  | tflNew => 4
  | mwrmHeaderCompatibility => 118 + 51 * 2 ^ 8

/-- The `switch` of `serial_for_type`. -/
def PacketType.ofNat? (type : Nat) : Option PacketType :=
  if type = wrmNew.toNat then some wrmNew
  else if type = wrmState.toNat then some wrmState
  else if type = fdxNew.toNat then some fdxNew
  else if type = tflNew.toNat then some tflNew
  else if type = mwrmHeaderCompatibility.toNat then some mwrmHeaderCompatibility
  else none

namespace Readers

/-- A reader, and the size that its group counts for it. -/
structure Reader (α : Type) where
  size : Nat
  read : FrontReader (Fault Empty) Byte α

def u8 : Reader Byte where
  size := 1
  read stream := some <$> inUint8 stream

def u16 : Reader Nat where
  size := 2
  read stream := some <$> inLe 2 stream

def u64 : Reader (BitVec 64) where
  size := 8
  read stream := (fun (value, stream) => some (BitVec.ofNat 64 value, stream)) <$> inLe 8 stream

/-- `static_bytes`. -/
def staticBytes (len : Nat) : Reader (List Byte) := ⟨len, .cells len⟩

/-- `optional_value`, for a bit of a mask. -/
def optionalValue (bit : Bool) (reader : Reader (List Byte)) : Reader (List Byte) where
  size := 0
  read := if bit then FrontReader.guard reader.size reader.read else FrontReader.give []

/-- `u16bytes_data`: the size is that of its length, which another reader has read. -/
def u16bytesData (len : Nat) : Reader (List Byte) := ⟨2, .cells len⟩

/-- `u16bytes`. -/
def u16bytes : Reader (List Byte) := ⟨2, u16.read.andThen fun len => .cells len⟩

/-- `bits_from`: nothing is read. -/
def bitsFromSize : Nat := 0

/-- `mask::bit`. -/
def bit (mask : Byte) (leftShift : Nat) : Bool := mask &&& (1 <<< leftShift) ≠ 0

end Readers

open Readers

def hashLen : Nat := 32

/-- What `unserialize` reads behind the type. -/
abbrev Unserialize := FrontReader (Fault Empty) Byte Packet

/-- The hashes and the signature, each a group of its own. -/
def optionalHash (mask : Byte) (leftShift : Nat) : FrontReader (Fault Empty) Byte (List Byte) :=
  (optionalValue (bit mask leftShift) (staticBytes hashLen)).read

namespace WrmNew

def unserialize : Unserialize :=
  FrontReader.andThen (.guard u16bytes.size u16bytes.read) fun filename => .give (.wrmNew filename)

end WrmNew

namespace FdxNew

def unserialize : Unserialize :=
  FrontReader.andThen (.guard u16bytes.size u16bytes.read) fun filename => .give (.fdxNew filename)

end FdxNew

namespace WrmState

/-- The fields of the first group. -/
def fields : FrontReader (Fault Empty) Byte (BitVec 64 × BitVec 64 × Byte) :=
  u64.read.andThen fun fileSize => u64.read.andThen fun duration => u8.read.andThen fun mask =>
    .give (fileSize, duration, mask)

def unserialize : Unserialize :=
  FrontReader.guard (u64.size + u64.size + u8.size) <|
    fields.andThen fun (fileSize, duration, mask) =>
      (optionalHash mask 0).andThen fun quickHash =>
        (optionalHash mask 1).andThen fun fullHash =>
          .give (.wrmState fileSize duration quickHash fullHash)

end WrmState

namespace TflNew

/-- The fields of the first group, but for the original file name. -/
structure Fields where
  idx : BitVec 64
  fileSize : BitVec 64
  mask : Byte
  originalFilenameLen : Nat
  tflFilenameLen : Nat

def fields : FrontReader (Fault Empty) Byte Fields :=
  u64.read.andThen fun idx => u64.read.andThen fun fileSize => u8.read.andThen fun mask =>
    u16.read.andThen fun originalFilenameLen => u16.read.andThen fun tflFilenameLen =>
      .give ⟨idx, fileSize, mask, originalFilenameLen, tflFilenameLen⟩

/-- The direction, in two bits of the mask. -/
def direction (mask : Byte) : Direction := .ofByte ((mask &&& 0b11000) >>> 3)

def transferedStatus (mask : Byte) : TransferedStatus := .ofByte ((mask &&& 0b1100000) >>> 5)

def firstGroup : FrontReader (Fault Empty) Byte (Fields × List Byte) :=
  .guard (u64.size + u64.size + u8.size + bitsFromSize + bitsFromSize + u16.size + u16.size +
      (u16bytesData 0).size) <|
    fields.andThen fun fields =>
      (u16bytesData fields.originalFilenameLen).read.andThen fun originalFilename =>
        .give (fields, originalFilename)

def secondGroup (len : Nat) : FrontReader (Fault Empty) Byte (List Byte) :=
  .guard (u16bytesData len).size (u16bytesData len).read

def unserialize : Unserialize :=
  firstGroup.andThen fun (fields, originalFilename) =>
    (secondGroup fields.tflFilenameLen).andThen fun tflFilename =>
      (optionalHash fields.mask 0).andThen fun quickHash =>
        (optionalHash fields.mask 1).andThen fun fullHash =>
          (optionalHash fields.mask 2).andThen fun signature =>
            .give (.tflNew fields.idx fields.fileSize (direction fields.mask)
              (transferedStatus fields.mask) originalFilename tflFilename quickHash fullHash
              signature)

end TflNew

namespace MwrmHeaderCompatibility

/-- The newline is not looked at. -/
def unserialize : Unserialize :=
  FrontReader.andThen (.cells 1) fun _ => .give .mwrmHeaderCompatibility

end MwrmHeaderCompatibility

/-- `unserialize`, of each type. -/
def unserialize : PacketType → Unserialize
  | .wrmNew => WrmNew.unserialize
  | .wrmState => WrmState.unserialize
  | .fdxNew => FdxNew.unserialize
  | .tflNew => TflNew.unserialize
  | .mwrmHeaderCompatibility => MwrmHeaderCompatibility.unserialize

/-- `ParserResult`, with what the callback has been given. -/
inductive ParserResult where
  | ok (packet : Packet) (remaining : List Byte)
  | unknownType
  | needMoreData
  deriving DecidableEq, Repr

/-- `parse_packet`. -/
def parsePacket (av : List Byte) : Checked Empty ParserResult :=
  if 2 ≤ av.length then do
    let (type, buf) ← inLe 2 av
    match PacketType.ofNat? type with
    | none => return .unknownType
    | some type =>
      match ← unserialize type buf with
      | some (packet, remaining) => return .ok packet remaining
      | none => return .needMoreData
  else .ok .needMoreData

section Serialize

/-- A bit for a hash that is there. -/
def presence (hash : List Byte) : Byte := if hash.isEmpty then 0 else 1

/-- `serialize`, of each type: what is given to its callback, one piece behind the other. -/
def serialize : Packet → List Byte
  | .wrmNew filename =>
    leBytes 2 PacketType.wrmNew.toNat ++ leBytes 2 filename.length ++ filename
  | .wrmState fileSize duration quickHash fullHash =>
    leBytes 2 PacketType.wrmState.toNat ++ leBytes 8 fileSize.toNat ++ leBytes 8 duration.toNat ++
      [presence quickHash <<< 0 ||| presence fullHash <<< 1] ++ quickHash ++ fullHash
  | .fdxNew filename =>
    leBytes 2 PacketType.fdxNew.toNat ++ leBytes 2 filename.length ++ filename
  | .tflNew idx fileSize direction transferedStatus originalFilename tflFilename quickHash fullHash
      signature =>
    leBytes 2 PacketType.tflNew.toNat ++ leBytes 8 idx.toNat ++ leBytes 8 fileSize.toNat ++
      [presence quickHash <<< 0 ||| presence fullHash <<< 1 ||| presence signature <<< 2 |||
        (direction.toByte &&& 0b11) <<< 3 ||| (transferedStatus.toByte &&& 0b11) <<< 5] ++
      leBytes 2 originalFilename.length ++ leBytes 2 tflFilename.length ++ originalFilename ++
      tflFilename ++ quickHash ++ fullHash ++ signature
  | .mwrmHeaderCompatibility => leBytes 2 PacketType.mwrmHeaderCompatibility.toNat ++ [10]

end Serialize

end Redemption.Capture.Mwrm3
