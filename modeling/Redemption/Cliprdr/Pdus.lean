import Redemption.Foundation.ByteStream

/-! The header of the PDUs of the clipboard, and the capabilities: `CliprdrReader`, and
`GeneralFlagsCapability`. -/
namespace Redemption.Cliprdr

open Redemption.Foundation

/-- `CliprdrHeader`. -/
structure CliprdrHeader where
  msgType : BitVec 16
  msgFlags : BitVec 16
  dataLen : BitVec 32
  deriving DecidableEq, Repr

namespace CliprdrHeader

/-- `CliprdrHeader::pdu_len()`. -/
def pduLen : Nat := 8

/-- `total_len`; the sum is one of 32 bits. -/
def totalLen (header : CliprdrHeader) : Nat := (header.dataLen + BitVec.ofNat 32 pduLen).toNat

/-- `read`. -/
def read (stream : List Byte) : Checked Empty (Option (CliprdrHeader × List Byte)) :=
  if stream.length < pduLen then .ok none
  else do
    let (msgType, stream) ← inLe 2 stream
    let (msgFlags, stream) ← inLe 2 stream
    let (dataLen, stream) ← inLe 4 stream
    return some (⟨BitVec.ofNat 16 msgType, BitVec.ofNat 16 msgFlags, BitVec.ofNat 32 dataLen⟩,
      stream)

end CliprdrHeader

/-- The flags of a chunk that say where it lies in its PDU. -/
structure ChannelFlags where
  first : Bool
  last : Bool
  deriving DecidableEq, Repr

namespace CliprdrReader

/-- `Result::ErrorCode`. -/
inductive ErrorCode where
  | ok
  | insufficientData
  | totalLenTooShort
  | dataTruncated
  deriving DecidableEq, Repr

/-- `Result`. -/
structure Result where
  ec : ErrorCode
  partialData : List Byte
  deriving DecidableEq, Repr

/-- What `read` does behind the header: what the header announces is taken from the chunk, which may
be longer. -/
def readData (header : CliprdrHeader) (stream : List Byte) (channelFlags : ChannelFlags) :
    Checked Empty (Result × CliprdrHeader) := do
  let realChunkLen := min stream.length header.dataLen.toNat
  let (partialData, _) ← inBytes realChunkLen stream
  let header := { header with dataLen := header.dataLen - BitVec.ofNat 32 realChunkLen }
  if channelFlags.last ∧ header.dataLen ≠ 0 then return (⟨.dataTruncated, partialData⟩, header)
  else return (⟨.ok, partialData⟩, header)

/-- `read`; the header stays in the reader. -/
def read (header : CliprdrHeader) (chunk : List Byte) (totalLen : BitVec 32)
    (channelFlags : ChannelFlags) : Checked Empty (Result × CliprdrHeader) :=
  if channelFlags.first then do
    match ← CliprdrHeader.read chunk with
    | none => return (⟨.insufficientData, []⟩, header)
    | some (header, stream) =>
      if totalLen.toNat < header.totalLen then return (⟨.totalLenTooShort, []⟩, header)
      else readData header stream channelFlags
  else readData header chunk channelFlags

end CliprdrReader

/-- `CliprdrCapabilitiesSet`. -/
structure CliprdrCapabilitiesSet where
  capabilitySetType : BitVec 16
  lengthCapability : BitVec 16
  deriving DecidableEq, Repr

/-- `GeneralFlagsCapability`. -/
structure GeneralFlagsCapability where
  ok : Bool
  generalFlagsOrExpectedLen : BitVec 32
  ctx : String
  deriving DecidableEq, Repr

namespace GeneralFlagsCapability

/-- `CliprdrCapabilities::pdu_len()`. -/
def capsLen : Nat := 4

/-- `CliprdrCapabilitiesSet::pdu_len()`, which the length of a set counts. -/
def capsSetLen : Nat := 4

/-- `CliprdrGeneralCapability::pdu_len()`. -/
def generalCapLen : Nat := 8

/-- `CbCapabilityType::General`. -/
def general : BitVec 16 := 0x0001

/-- `CliprdrCapabilities::read`: the number of the sets. -/
def readCaps (stream : List Byte) : Checked Empty (Option (Nat × List Byte)) :=
  if stream.length < capsLen then .ok none
  else do
    let (cCapabilitiesSets, stream) ← inLe 2 stream
    let (_, stream) ← inBytes 2 stream
    return some (cCapabilitiesSets, stream)

/-- `CliprdrCapabilitiesSet::read`. -/
def readCapsSet (stream : List Byte) :
    Checked Empty (Option (CliprdrCapabilitiesSet × List Byte)) :=
  if stream.length < capsSetLen then .ok none
  else do
    let (capabilitySetType, stream) ← inLe 2 stream
    let (lengthCapability, stream) ← inLe 2 stream
    return some (⟨BitVec.ofNat 16 capabilitySetType, BitVec.ofNat 16 lengthCapability⟩, stream)

/-- `CliprdrGeneralCapability::read`: the flags. -/
def readGeneralCap (stream : List Byte) : Checked Empty (Option (BitVec 32 × List Byte)) :=
  if stream.length < generalCapLen then .ok none
  else do
    let (_, stream) ← inLe 4 stream
    let (generalFlags, stream) ← inLe 4 stream
    return some (BitVec.ofNat 32 generalFlags, stream)

/-- What is left to skip of a set, in 32 bits without a sign. -/
def skipLen (capsSet : CliprdrCapabilitiesSet) (nbSkip : Nat) : Nat :=
  (capsSet.lengthCapability.setWidth 32 - BitVec.ofNat 32 capsSetLen - BitVec.ofNat 32 nbSkip).toNat

/-- `READ_OR_RETURN`, where there is too little. -/
def tooShort (ctx : String) : GeneralFlagsCapability := ⟨false, BitVec.ofNat 32 capsLen, ctx⟩

/-- The loop over the sets. -/
def parseSets : Nat → List Byte → BitVec 32 → Checked Empty GeneralFlagsCapability
  | 0, _, generalFlags => .ok ⟨true, generalFlags, ""⟩
  | count + 1, stream, generalFlags => do
    match ← readCapsSet stream with
    | none => return tooShort "VNC::CliprdrCapabilitiesSet"
    | some (capsSet, stream) =>
      if capsSet.lengthCapability.toNat < capsSetLen ∨
          stream.length < capsSet.lengthCapability.toNat - capsSetLen then
        return ⟨false, capsSet.lengthCapability.setWidth 32,
          "VNC::CliprdrCapabilitiesSet::lengthCapability"⟩
      else if capsSet.capabilitySetType = general then do
        match ← readGeneralCap stream with
        | none => return tooShort "VNC::CliprdrGeneralCapability"
        | some (flags, stream) => do
          let (_, stream) ← inBytes (skipLen capsSet generalCapLen) stream
          parseSets count stream (generalFlags ||| flags)
      else do
        let (_, stream) ← inBytes (skipLen capsSet 0) stream
        parseSets count stream generalFlags

/-- `parse`. -/
def parse (data : List Byte) : Checked Empty GeneralFlagsCapability := do
  match ← readCaps data with
  | none => return tooShort "VNC::CliprdrCapabilities"
  | some (cCapabilitiesSets, stream) => parseSets cCapabilitiesSets stream 0

end GeneralFlagsCapability

end Redemption.Cliprdr
