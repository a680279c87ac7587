import Redemption.Foundation.Chunks
import Redemption.Foundation.Machine
import Redemption.Rdpdr.DeviceStream
import Redemption.Rdpdr.FileSystemChannel

/-! Which files of the drives of a client a server may open. -/
namespace Redemption.Rdpdr

open Redemption.Foundation Redemption.Channels Redemption.Utils
open ChannelsAuthorizations (RDPDR_DTYP_FILESYSTEM)
open FileSystemChannel (accessDenied)

/-- The drives that a client has announced, whatever has become of them, and where its messages
are. -/
structure ClientDrives where
  packetId : BitVec 16
  parser : Parser
  drives : List (BitVec 32)

namespace ClientDrives

def initial : ClientDrives := ⟨PAKID_CORE_SERVER_ANNOUNCE, .header [], []⟩

/-- Devices of all types are looked for. -/
def everyType : Params := ⟨true, true, true, true, true, true, true⟩

def step (client : ClientDrives) : ChannelInput → ClientDrives
  | .server _ => client
  | .client chunk =>
    let first : Prop := chunk.flags &&& CHANNEL_FLAG_FIRST ≠ 0
    let packetId :=
      if first then BitVec.ofNat 16 (leValue ((chunk.data.drop 2).take 2)) else client.packetId
    let stream := if first then chunk.data.drop 4 else chunk.data
    if packetId = PAKID_CORE_DEVICELIST_ANNOUNCE then
      let scanned := (Message.deviceListAnnounce chunk.flags stream).scanned everyType client.parser
      ⟨packetId, scanned.1, client.drives ++
        ((arrivals scanned.2).filter (·.header.deviceType = RDPDR_DTYP_FILESYSTEM)).map Device.id⟩
    else { client with packetId }

end ClientDrives

def drivesAnnounced (inputs : List ChannelInput) : List (BitVec 32) :=
  (inputs.foldl ClientDrives.step .initial).drives

namespace DeviceIORequest

/-- The request in the first twenty bytes of a stream. -/
def decode (stream : List Byte) : DeviceIORequest :=
  ⟨BitVec.ofNat 32 (leValue (stream.take 4)), BitVec.ofNat 32 (leValue ((stream.drop 4).take 4)),
    BitVec.ofNat 32 (leValue ((stream.drop 8).take 4)),
    BitVec.ofNat 32 (leValue ((stream.drop 12).take 4)),
    BitVec.ofNat 32 (leValue ((stream.drop 16).take 4))⟩

end DeviceIORequest

/-- The fields of a create request, and its path as it is written. -/
structure CreateFields where
  desiredAccess : BitVec 32
  createDisposition : BitVec 32
  createOptions : BitVec 32
  pathLength : Nat
  behind : List Byte
  deriving DecidableEq, Repr

namespace CreateFields

def decode (stream : List Byte) : CreateFields :=
  ⟨BitVec.ofNat 32 (leValue (stream.take 4)), BitVec.ofNat 32 (leValue ((stream.drop 20).take 4)),
    BitVec.ofNat 32 (leValue ((stream.drop 24).take 4)), leValue ((stream.drop 28).take 4),
    stream.drop 32⟩

variable (fields : CreateFields)

def path : List Byte := fields.behind.take fields.pathLength

/-- The root of the drive: a slash of either kind, and nothing behind it. -/
def namesRoot : Prop :=
  (fields.path.take 2 = [0x5C, 0] ∨ fields.path.take 2 = [0x2F, 0]) ∧
    (fields.path.length < 4 ∨ (fields.path.drop 2).take 2 = [0, 0])

instance : Decidable fields.namesRoot := inferInstanceAs (Decidable (_ ∧ _))

/-- Read access to a file. -/
def asksRead : Prop :=
  Smb2.readAccessIsRequired fields.desiredAccess ∧
    fields.createOptions &&& Smb2.FILE_DIRECTORY_FILE = 0 ∧ ¬ fields.namesRoot

/-- Write access, or a disposition that creates, overwrites or supersedes a file. -/
def asksWrite : Prop :=
  Smb2.writeAccessIsRequired fields.desiredAccess ∨
    fields.createDisposition ∈ [Smb2.FILE_SUPERSEDE, Smb2.FILE_CREATE, Smb2.FILE_OPEN_IF,
      Smb2.FILE_OVERWRITE, Smb2.FILE_OVERWRITE_IF]

instance : Decidable fields.asksRead := inferInstanceAs (Decidable (_ ∧ _))

instance : Decidable fields.asksWrite := inferInstanceAs (Decidable (_ ∨ _))

end CreateFields

/-- What a chunk says that begins a message: the id of the packet, the request and its fields. -/
structure Opening where
  request : DeviceIORequest
  fields : CreateFields
  deriving DecidableEq, Repr

/-- A create request. -/
def opening (content : List Byte) : Option Opening :=
  let request := DeviceIORequest.decode (content.drop 4)
  let fields := CreateFields.decode (content.drop 24)
  if 56 + fields.pathLength ≤ content.length ∧
      BitVec.ofNat 16 (leValue ((content.drop 2).take 2)) = PAKID_CORE_DEVICE_IOREQUEST ∧
      request.majorFunction = IRP_MJ_CREATE then
    some ⟨request, fields⟩
  else none

/-- Control of the flow, not a part of a message. -/
def isControl (chunk : Chunk) : Prop :=
  chunk.flags ≠ 0 ∧ chunk.flags &&& ~~~(CHANNEL_FLAG_SUSPEND ||| CHANNEL_FLAG_RESUME) = 0

instance : DecidablePred isControl := fun _ => inferInstanceAs (Decidable (_ ∧ _))

/-- The later chunks of a message that the server has begun. -/
def laterChunks : List ChannelInput → List Chunk
  | [] => []
  | .client _ :: rest => laterChunks rest
  | .server chunk :: rest =>
    if isControl chunk then laterChunks rest
    else if chunk.flags &&& CHANNEL_FLAG_FIRST ≠ 0 then []
    else if chunk.flags &&& CHANNEL_FLAG_LAST ≠ 0 then [chunk]
    else chunk :: laterChunks rest

/-- All chunks of a message. -/
def messageChunks (chunk : Chunk) (after : List ChannelInput) : List Chunk :=
  chunk :: if chunk.flags &&& CHANNEL_FLAG_LAST ≠ 0 then [] else laterChunks after

section Session

variable (params : ChannelParams) (outside : Outside)

/-- The request is to be denied. -/
def Forbids (opened : Opening) : Prop :=
  params.fileSystemReadAuthorized = false ∧ opened.fields.asksRead ∨
    params.fileSystemWriteAuthorized = false ∧ opened.fields.asksWrite

instance : DecidablePred (Forbids params) := fun _ => inferInstanceAs (Decidable (_ ∨ _))

/-- Where the session is after some messages, unless it has ended. -/
def reached (inputs : List ChannelInput) : Option FileSystemChannel :=
  (FileSystemChannel.session params outside).run (some .initial) inputs

/-- The answer to a request that is denied. -/
def denial (request : DeviceIORequest) : Chunk :=
  ⟨(accessDenied request).length, CHANNEL_FLAG_FIRST ||| CHANNEL_FLAG_LAST, accessDenied request⟩

/-- None of the later chunks of a message is passed on to the client. -/
def LaterKept : Option FileSystemChannel → List ChannelInput → Prop
  | _, [] => True
  | channel, .client chunk :: rest =>
    LaterKept ((FileSystemChannel.session params outside).next channel (.client chunk)) rest
  | channel, .server chunk :: rest =>
    if isControl chunk then
      LaterKept ((FileSystemChannel.session params outside).next channel (.server chunk)) rest
    else if chunk.flags &&& CHANNEL_FLAG_FIRST ≠ 0 then True
    else
      (∀ sent, .toClient sent ∉
        (FileSystemChannel.session params outside).output channel (.server chunk)) ∧
      (chunk.flags &&& CHANNEL_FLAG_LAST = 0 →
        LaterKept ((FileSystemChannel.session params outside).next channel (.server chunk)) rest)

/-- No later chunk of a message comes while the session goes on. -/
def Unfollowed : Option FileSystemChannel → List ChannelInput → Prop
  | _, [] => True
  | channel, .client chunk :: rest =>
    Unfollowed ((FileSystemChannel.session params outside).next channel (.client chunk)) rest
  | channel, .server chunk :: rest =>
    if isControl chunk then
      Unfollowed ((FileSystemChannel.session params outside).next channel (.server chunk)) rest
    else chunk.flags &&& CHANNEL_FLAG_FIRST ≠ 0 ∨ channel = none

/-- A message of the server that is to be denied: a create request for a drive that the client has
announced. -/
structure ToBeDenied (before : List ChannelInput) (channel : FileSystemChannel) (chunk : Chunk)
    (after : List ChannelInput) (opened : Opening) : Prop where
  alive : reached params outside before = some channel
  first : chunk.flags &&& CHANNEL_FLAG_FIRST ≠ 0
  opening : opening ((messageChunks chunk after).flatMap (·.data)) = some opened
  announced : opened.request.deviceId ∈ drivesAnnounced before
  unmanaged : outside.isManagedDrive opened.request.deviceId = false
  forbidden : Forbids params opened

/-- What is answered to the first chunk of a message. -/
def Answered (channel : FileSystemChannel) (chunk : Chunk) (request : DeviceIORequest) : Prop :=
  (FileSystemChannel.session params outside).output (some channel) (.server chunk) =
    [.toServer (denial request)]

/-- The device is known as a drive, the first chunk holds the whole request, and it asks for read
access to a file that is not authorised, or by its mask or `FILE_CREATE` for write access that is
not. -/
structure Deniable (channel : FileSystemChannel) (chunk : Chunk) (opened : Opening) : Prop where
  known : channel.getDeviceType opened.request.deviceId = RDPDR_DTYP_FILESYSTEM
  readable : ∃ create, DeviceCreateRequest.receive (chunk.data.drop 24) = .ok create ∧
    (params.fileSystemReadAuthorized = false ∧ Smb2.readAccessIsRequired create.desiredAccess ∧
        create.createOptions &&& Smb2.FILE_DIRECTORY_FILE = 0 ∧ create.path ≠ [0x2F] ∨
      params.fileSystemWriteAuthorized = false ∧
        (Smb2.writeAccessIsRequired create.desiredAccess ∨
          create.createDisposition = Smb2.FILE_CREATE))

/-- Where a session is once it has answered to a chunk. -/
def behind (channel : FileSystemChannel) (chunk : Chunk) : Option FileSystemChannel :=
  (FileSystemChannel.session params outside).next (some channel) (.server chunk)

/-- Every request that is to be denied is denied, and no chunk of it is passed on. -/
def Enforced (inputs : List ChannelInput) : Prop :=
  ∀ before chunk after channel opened, inputs = before ++ .server chunk :: after →
    ToBeDenied params outside before channel chunk after opened →
      Answered params outside channel chunk opened.request ∧
        (chunk.flags &&& CHANNEL_FLAG_LAST = 0 →
          LaterKept params outside (behind params outside channel chunk) after)

end Session

/-! Exactly which create requests are denied. -/

section Read

variable {stream : List Byte}

theorem receivePacketId_ok (room : 4 ≤ stream.length) :
    receivePacketId stream =
      .ok (BitVec.ofNat 16 (leValue ((stream.drop 2).take 2)), stream.drop 4) := by
  have second : 2 ≤ (stream.drop 2).length := by
    rw [List.length_drop]
    omega
  rw [receivePacketId, checkThrow_of_le _ room, ok_bind, inLe_ok (Nat.le_trans (by decide) room)]
  simp only [ok_bind, inLe_ok second, pure_ok, List.drop_drop]

theorem receivePacketId_short (short : stream.length < 4) :
    receivePacketId stream = .error (.raised .rdpdrPduTruncated) := by
  rw [receivePacketId, checkThrow_of_lt _ short, error_bind]

theorem DeviceIORequest.receive_ok (room : 20 ≤ stream.length) :
    DeviceIORequest.receive stream = .ok (decode stream, stream.drop 20) := by
  have behind (skipped : Nat) (more : skipped + 4 ≤ 20) : 4 ≤ (stream.drop skipped).length := by
    rw [List.length_drop]
    omega
  rw [receive, checkThrow_of_le _ room, ok_bind, inUint32_ok (Nat.le_trans (by decide) room)]
  simp only [ok_bind, inUint32_ok (behind 4 (by decide)), List.drop_drop, Nat.reduceAdd,
    inUint32_ok (behind 8 (by decide)), inUint32_ok (behind 12 (by decide)),
    inUint32_ok (behind 16 (by decide)), pure_ok]
  rfl

theorem DeviceIORequest.receive_short (short : stream.length < 20) :
    DeviceIORequest.receive stream = .error (.raised .rdpdrPduTruncated) := by
  rw [receive, checkThrow_of_lt _ short, error_bind]

theorem DeviceCreateRequest.receive_short (short : stream.length < 32) :
    DeviceCreateRequest.receive stream = .error (.raised .rdpdrPduTruncated) := by
  rw [receive, checkThrow_of_lt _ short, error_bind]

end Read

end Redemption.Rdpdr
