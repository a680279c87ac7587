import Redemption.Channels.DynamicAuthorizations

/-! `drdynvc`: what the proxy does with the messages of the server about dynamic channels. -/
namespace Redemption.Channels

open Redemption.Foundation

inductive ErrorId where
  | rdpDataTruncated
  | rdpdrPduTruncated
  | rdpProtocol
  | rdpInternal
  | fsccDataTruncated
  | unexpected
  deriving DecidableEq, Repr

def CHANNEL_FLAG_FIRST : BitVec 32 := 0x00000001
def CHANNEL_FLAG_LAST : BitVec 32 := 0x00000002
def CHANNEL_FLAG_SUSPEND : BitVec 32 := 0x00000020
def CHANNEL_FLAG_RESUME : BitVec 32 := 0x00000040

/-- A chunk of a static channel, with what goes with it. -/
structure Chunk where
  totalLength : Nat
  flags : BitVec 32
  data : List Byte
  deriving DecidableEq, Repr

inductive Sent where
  | toClient (chunk : Chunk)
  | toServer (chunk : Chunk)
  deriving DecidableEq, Repr

def CMD_CREATE : Byte := 0x01

/-- The width of the channel id, as `cbId` gives it. -/
def idWidth (cbId : Byte) : Checked ErrorId Nat :=
  if cbId = 0 then .ok 1
  else if cbId = 1 then .ok 2
  else if cbId = 2 then .ok 4
  else .error (.raised .rdpProtocol)

/-- The first byte of a PDU, in its three parts. -/
structure DVCHeader where
  cbId : Byte
  sp : Byte
  cmd : Byte
  deriving DecidableEq, Repr

def DVCHeader.ofByte (tmp : Byte) : DVCHeader :=
  ⟨tmp &&& 0x03, (tmp &&& 0x0C) >>> 2, (tmp &&& 0xF0) >>> 4⟩

def DVCHeader.toByte (header : DVCHeader) : Byte :=
  (header.cbId &&& 0x03) ||| ((header.sp &&& 0x03) <<< 2) ||| ((header.cmd &&& 0x0F) <<< 4)

/-- The header and the channel id, which all PDUs begin with. -/
def receiveChannelId (stream : List Byte) : Checked ErrorId (DVCHeader × Nat × List Byte) := do
  checkThrow stream 1 .rdpdrPduTruncated
  let (tmp, stream) ← inUint8 stream
  let header := DVCHeader.ofByte tmp
  let width ← idWidth header.cbId
  checkThrow stream width .rdpdrPduTruncated
  let (channelId, stream) ← inLe width stream
  return (header, channelId, stream)

structure DVCCreateRequestPDU where
  header : DVCHeader
  channelId : Nat
  channelName : List Byte
  deriving DecidableEq, Repr

def DVCCreateRequestPDU.receive (stream : List Byte) :
    Checked ErrorId (DVCCreateRequestPDU × List Byte) := do
  let (header, channelId, stream) ← receiveChannelId stream
  let len := (stream.takeWhile (· ≠ 0)).length
  if len = stream.length then .error (.raised .rdpProtocol)
  else return (⟨header, channelId, stream.take len⟩, stream.drop (len + 1))

structure DVCCreateResponsePDU where
  header : DVCHeader
  channelId : Nat
  creationStatus : Nat
  deriving DecidableEq, Repr

namespace DVCCreateResponsePDU

/-- The constructor, which takes the smallest width for the channel id. -/
def make (channelId creationStatus : Nat) : DVCCreateResponsePDU :=
  let cbId := if channelId ≤ 0xFF then 0 else if channelId ≤ 0xFFFF then 1 else 2
  ⟨⟨cbId, 0, CMD_CREATE⟩, channelId, creationStatus⟩

def emit (response : DVCCreateResponsePDU) : Checked ErrorId (List Byte) := do
  let width ← idWidth response.header.cbId
  return response.header.toByte ::
    (leBytes width response.channelId ++ leBytes 4 response.creationStatus)

/-- Only one byte is checked for before the four of the status. -/
def receive (stream : List Byte) : Checked ErrorId (DVCCreateResponsePDU × List Byte) := do
  let (header, channelId, stream) ← receiveChannelId stream
  checkThrow stream 1 .rdpdrPduTruncated
  let (creationStatus, stream) ← inLe 4 stream
  return (⟨header, channelId, creationStatus⟩, stream)

end DVCCreateResponsePDU

/-- The status of a channel that is not to be opened. -/
def REFUSED : Nat := 0xC0000001

namespace Chunk

def isFirst (chunk : Chunk) : Prop := chunk.flags &&& CHANNEL_FLAG_FIRST ≠ 0

def isLast (chunk : Chunk) : Prop := chunk.flags &&& CHANNEL_FLAG_LAST ≠ 0

/-- A message in one chunk. -/
def isWhole (chunk : Chunk) : Prop :=
  chunk.flags &&& (CHANNEL_FLAG_FIRST ||| CHANNEL_FLAG_LAST) =
    CHANNEL_FLAG_FIRST ||| CHANNEL_FLAG_LAST

/-- A chunk that only suspends or resumes the channel. -/
def onlySuspends (chunk : Chunk) : Prop :=
  chunk.flags ≠ 0 ∧ chunk.flags &&& ~~~(CHANNEL_FLAG_SUSPEND ||| CHANNEL_FLAG_RESUME) = 0

instance (chunk : Chunk) : Decidable chunk.isFirst := inferInstanceAs (Decidable (_ ≠ _))
instance (chunk : Chunk) : Decidable chunk.isLast := inferInstanceAs (Decidable (_ ≠ _))
instance (chunk : Chunk) : Decidable chunk.isWhole := inferInstanceAs (Decidable (_ = _))
instance (chunk : Chunk) : Decidable chunk.onlySuspends := inferInstanceAs (Decidable (_ ∧ _))

/-- The command of a message, which is in its first chunk. -/
def cmd (chunk : Chunk) : Checked ErrorId Byte :=
  if chunk.isFirst then do
    checkThrow chunk.data 1 .rdpDataTruncated
    let (byte, _) ← inUint8 chunk.data
    return (DVCHeader.ofByte byte).cmd
  else .ok 0

end Chunk

/-- `process_server_message`. -/
def processServerMessage (authorizations : DynamicChannelsAuthorizations) (chunk : Chunk) :
    Checked ErrorId (List Sent) :=
  if chunk.onlySuspends then .ok [.toClient chunk]
  else do
    let cmd ← chunk.cmd
    if cmd = CMD_CREATE ∧ chunk.isWhole then
      let (request, _) ← DVCCreateRequestPDU.receive chunk.data
      if authorizations.isAuthorized request.channelName then return [.toClient chunk]
      else
        let response ← (DVCCreateResponsePDU.make request.channelId REFUSED).emit
        return [.toServer ⟨response.length, CHANNEL_FLAG_FIRST ||| CHANNEL_FLAG_LAST, response⟩]
    else return [.toClient chunk]

/-- One chunk after the other, up to the first that raises an error. -/
def processServerMessages (authorizations : DynamicChannelsAuthorizations) :
    List Chunk → List Sent × Option (Fault ErrorId)
  | [] => ([], none)
  | chunk :: rest =>
    match processServerMessage authorizations chunk with
    | .error fault => ([], some fault)
    | .ok sent =>
      let (more, stopped) := processServerMessages authorizations rest
      (sent ++ more, stopped)

end Redemption.Channels
