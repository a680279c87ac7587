import Redemption.FastPath.Pdu
import Redemption.Foundation.Region

/-! `OutReservedStreamHelper`: a stream with room before its payload, over memory that
several of them share. -/
namespace Redemption.FastPath

open Redemption.Foundation

/-- The fields of `OutReservedStreamHelper` and of its `payload_stream`, as positions in the
memory that they point into. -/
structure OutReservedStreamHelper where
  headPtr : Nat
  reservedLeadingSpace : Nat
  payloadBegin : Nat
  current : Nat
  payloadEnd : Nat

namespace OutReservedStreamHelper

/-- The constructor, for a buffer at `data`. -/
def make (data reservedLeadingSpace bufLen : Nat) : OutReservedStreamHelper where
  headPtr := data + reservedLeadingSpace
  reservedLeadingSpace := reservedLeadingSpace
  payloadBegin := data + reservedLeadingSpace
  current := data + reservedLeadingSpace
  payloadEnd := data + bufLen

/-- `payload_stream.rewind(offset)`. -/
def rewind (stream : OutReservedStreamHelper) (offset : Nat) : OutReservedStreamHelper :=
  { stream with current := stream.payloadBegin + offset }

/-- The size of `get_packet()`. -/
def packetSize (stream : OutReservedStreamHelper) : Nat := stream.current - stream.headPtr

def getSubStream (stream : OutReservedStreamHelper) (offset len : Nat) :
    OutReservedStreamHelper :=
  let len := if len = 0 then stream.current - stream.payloadBegin - offset else len
  let originalBuf := stream.headPtr - stream.reservedLeadingSpace
  (make originalBuf (stream.reservedLeadingSpace + offset)
    (stream.reservedLeadingSpace + offset + len)).rewind len

section Memory

variable {size : Nat} (stream : OutReservedStreamHelper) (memory : Buffer Byte size)

/-- The bytes of `get_packet()`. -/
def getPacket : Checked ErrorId (List Byte) :=
  memory.loadBlock stream.headPtr stream.packetSize

/-- `copy_to_head`; its assertion is that there is room. -/
def copyToHead (data : List Byte) :
    Checked ErrorId (OutReservedStreamHelper × Buffer Byte size) :=
  if stream.reservedLeadingSpace < data.length then .error .outOfBounds
  else do
    let headPtr := stream.headPtr - data.length
    let memory ← memory.storeBlock headPtr data
    return ({ stream with
      headPtr
      reservedLeadingSpace := stream.reservedLeadingSpace - data.length }, memory)

/-- `payload_stream.out_copy_bytes` of what `get_compressed_data` writes. -/
def outCompressed (data : List Byte) :
    Checked ErrorId (OutReservedStreamHelper × Buffer Byte size) :=
  if stream.payloadEnd - stream.current < data.length then .error (.raised .bufferTooSmall)
  else do
    let memory ← memory.storeBlock stream.current data
    return ({ stream with current := stream.current + data.length }, memory)

/-- The packet of a stream, inside the memory and behind the room that is reserved. -/
structure Holds (packet : List Byte) : Prop where
  reserved : stream.reservedLeadingSpace ≤ stream.headPtr
  inside : stream.headPtr + packet.length ≤ size
  ends : stream.current = stream.headPtr + packet.length
  bytes : memory.slice stream.headPtr packet.length = packet

end Memory

namespace Holds

variable {size : Nat} {stream : OutReservedStreamHelper} {memory : Buffer Byte size}
  {packet : List Byte}

theorem packetSize_eq (holds : Holds stream memory packet) :
    stream.packetSize = packet.length := by
  rw [packetSize, holds.ends, Nat.add_sub_cancel_left]

theorem getPacket_run (holds : Holds stream memory packet) :
    stream.getPacket memory = .ok packet := by
  rw [getPacket, holds.packetSize_eq, Buffer.loadBlock_of_le _ holds.inside, holds.bytes]

/-- A header in the room before a packet extends it, and touches nothing else. -/
theorem copyToHead_run (holds : Holds stream memory packet) {header : List Byte}
    (room : header.length ≤ stream.reservedLeadingSpace) :
    ∃ stream' memory', stream.copyToHead memory header = .ok (stream', memory') ∧
      Holds stream' memory' (header ++ packet) ∧
      stream'.headPtr + header.length = stream.headPtr ∧
      stream'.reservedLeadingSpace + header.length = stream.reservedLeadingSpace ∧
      memory.AgreesOutside memory' stream'.headPtr stream.headPtr := by
  have reserved := holds.reserved
  have inside := holds.inside
  have ends := holds.ends
  have before : stream.headPtr - header.length + header.length = stream.headPtr :=
    Nat.sub_add_cancel (room.trans reserved)
  have stored : stream.headPtr - header.length + header.length ≤ size := by omega
  refine ⟨{ stream with
      headPtr := stream.headPtr - header.length
      reservedLeadingSpace := stream.reservedLeadingSpace - header.length },
    memory.splice (stream.headPtr - header.length) header, ?_, ⟨?_, ?_, ?_, ?_⟩, before, ?_, ?_⟩
  · simp only [copyToHead, if_neg (Nat.not_lt.mpr room), Buffer.storeBlock_of_le _ stored,
      ok_bind, pure_ok]
  · show stream.reservedLeadingSpace - header.length ≤ stream.headPtr - header.length
    omega
  · show stream.headPtr - header.length + (header ++ packet).length ≤ size
    rw [List.length_append]
    omega
  · show stream.current = stream.headPtr - header.length + (header ++ packet).length
    rw [List.length_append]
    omega
  · rw [List.length_append, Buffer.slice_splice_head, before, holds.bytes]
  · exact Nat.sub_add_cancel room
  · have agrees := memory.agreesOutside_splice (stream.headPtr - header.length) header
    rwa [before] at agrees

/-- A packet that is changed where it stands, such as by encryption. -/
theorem replace (holds : Holds stream memory packet) {changed : List Byte}
    (length : changed.length = packet.length) :
    (memory.storeBlock stream.headPtr changed : Checked ErrorId _) =
        .ok (memory.splice stream.headPtr changed) ∧
      Holds stream (memory.splice stream.headPtr changed) changed ∧
      memory.AgreesOutside (memory.splice stream.headPtr changed) stream.headPtr
        (stream.headPtr + packet.length) := by
  have inside := holds.inside
  have stored : stream.headPtr + changed.length ≤ size := by omega
  refine ⟨Buffer.storeBlock_of_le _ stored, ⟨holds.reserved, stored, ?_, ?_⟩, ?_⟩
  · rw [length]
    exact holds.ends
  · exact Buffer.slice_splice memory stream.headPtr changed
  · rw [← length]
    exact memory.agreesOutside_splice stream.headPtr changed

end Holds

end OutReservedStreamHelper

/-! `send_fast_path_data`: a payload is cut into fragments, and each is sent with headers that
are written in place before it. -/

/-- `rdp_mppc_enc`. What is reported compressed is at most one byte longer than it was. -/
structure RdpMppcEnc where
  State : Type
  maxDataBlockSize : Nat
  compress : State → List Byte → Checked Mppc.ErrorId (State × Mppc.Flags)
  compressedData : State → Checked Mppc.ErrorId (List Byte)
  block : 20 < maxDataBlockSize
  short : ∀ {state next flags data bytes}, compress state data = .ok (next, flags) →
    flags.has Mppc.packetCompressed = true → compressedData next = .ok bytes →
    bytes.length ≤ data.length + 1

/-- The arguments of `send_fast_path_data` that it does not change. `uninitialised` is what
`data_common_compressed` finds on the stack. -/
structure Settings where
  compressionSupport : Bool
  encryptionLevel : Int
  updateCode : UpdateType
  dataCommon : OutReservedStreamHelper
  uninitialised : Buffer Byte 65536

/-- The variables of the loop, with what has been sent; `used` is whether `compression` is
`FASTPATH_OUTPUT_COMPRESSION_USED`. -/
structure Sending (enc : RdpMppcEnc) (ssl : Ssl) (size : Nat) where
  memory : Buffer Byte size
  mppcEnc : enc.State
  crypt : CryptContext ssl
  used : Bool
  fragmentId : Nat
  startAt : Nat
  remaining : Nat
  transport : List (List Byte)

section Model

variable {enc : RdpMppcEnc} {ssl : Ssl} {size : Nat}

/-- The headers of one fragment, each written before what is there, and what is sent. -/
def sendUpdate (memory : Buffer Byte size) (fragmentPayload : OutReservedStreamHelper)
    (crypt : CryptContext ssl) (encryptionLevel : Int)
    (updateCode fragFlags compression compressionFlags : Byte) :
    Checked ErrorId (Buffer Byte size × CryptContext ssl × List Byte) := do
  let updateHeader := updateSend (fragmentPayload.packetSize % 2 ^ 16) updateCode fragFlags
    compression compressionFlags
  let (fragmentPayload, memory) ← fragmentPayload.copyToHead memory updateHeader
  let data ← fragmentPayload.getPacket memory
  let (crypt, serverUpdateHeader, data) :=
    serverUpdatePDUSend crypt data (secFlagsOf encryptionLevel)
  let memory ← memory.storeBlock fragmentPayload.headPtr data
  let (fragmentPayload, memory) ← fragmentPayload.copyToHead memory serverUpdateHeader
  let packet ← fragmentPayload.getPacket memory
  return (memory, crypt, packet)

namespace Settings

variable (settings : Settings)

def fragmentMax (enc : RdpMppcEnc) : Nat :=
  if settings.compressionSupport then min (0x3fff - 20) (enc.maxDataBlockSize - 20)
  else 0x3fff - 20

/-- `checked_int` of the size of the packet, as a `uint32_t`. -/
def payloadSize : Nat := settings.dataCommon.packetSize % 2 ^ 32

/-- `fragFlags`, by what is sent before and with this fragment. -/
def fragFlags (fragmentId startAt : Nat) : Fragmentation :=
  if fragmentId ≠ 0 then (if startAt = settings.payloadSize then .last else .next)
  else (if startAt = settings.payloadSize then .single else .first)

/-- The compressor, where it is used. -/
def compress (mppcEnc : enc.State) (data : List Byte) :
    Checked ErrorId (enc.State × Mppc.Flags) :=
  if settings.compressionSupport then liftMppc (enc.compress mppcEnc data)
  else .ok (mppcEnc, 0)

/-- The body of the loop. -/
def sendFragment (loop : Sending enc ssl size) : Checked ErrorId (Sending enc ssl size) := do
  let fragmentSize :=
    if settings.fragmentMax enc < loop.remaining then settings.fragmentMax enc else loop.remaining
  let packetFragment := settings.dataCommon.getSubStream loop.startAt fragmentSize
  let data ← loop.memory.loadBlock packetFragment.payloadBegin fragmentSize
  let (mppcEnc, compressionFlags) ← settings.compress loop.mppcEnc data
  let startAt := loop.startAt + fragmentSize
  let fragFlags := (settings.fragFlags loop.fragmentId startAt).code
  let fragmentId := loop.fragmentId + 1
  let remaining := loop.remaining - fragmentSize
  if compressionFlags.has Mppc.packetCompressed then do
    let compressed ← liftMppc (enc.compressedData mppcEnc)
    let (dataCommonCompressed, memory) ← (OutReservedStreamHelper.make 0 1024 65536).outCompressed
      settings.uninitialised compressed
    let (_, crypt, packet) ← sendUpdate memory dataCommonCompressed loop.crypt
      settings.encryptionLevel settings.updateCode.code fragFlags (compressionOf true)
      compressionFlags
    return ⟨loop.memory, mppcEnc, crypt, true, fragmentId, startAt, remaining,
      loop.transport ++ [packet]⟩
  else do
    let (memory, crypt, packet) ← sendUpdate loop.memory packetFragment loop.crypt
      settings.encryptionLevel settings.updateCode.code fragFlags (compressionOf loop.used)
      compressionFlags
    return ⟨memory, mppcEnc, crypt, loop.used, fragmentId, startAt, remaining,
      loop.transport ++ [packet]⟩

/-- The `do … while (remaining)`, for at most so many rounds. -/
def sendFragments : Nat → Sending enc ssl size →
    Option (Checked ErrorId (Sending enc ssl size))
  | 0, _ => none
  | rounds + 1, loop =>
    match settings.sendFragment loop with
    | .error fault => some (.error fault)
    | .ok next => if next.remaining = 0 then some (.ok next) else sendFragments rounds next

/-- The variables before the loop. -/
def start (memory : Buffer Byte size) (mppcEnc : enc.State) (crypt : CryptContext ssl) :
    Sending enc ssl size :=
  ⟨memory, mppcEnc, crypt, false, 0, 0, settings.payloadSize, []⟩

/-- `send_fast_path_data`, with a bound on the rounds of its loop. -/
def sendFastPathData (rounds : Nat) (memory : Buffer Byte size) (mppcEnc : enc.State)
    (crypt : CryptContext ssl) : Option (Checked ErrorId (Sending enc ssl size)) :=
  settings.sendFragments rounds (settings.start memory mppcEnc crypt)

end Settings

end Model

end Redemption.FastPath
