import Redemption.Foundation.SwapRemove
import Redemption.Channels.ChannelsAuthorizations
import Redemption.Channels.Drdynvc

/-! `DeviceRedirectionManager`: the devices that a client announces are announced to the server, one
after the other. -/
namespace Redemption.Rdpdr

open Redemption.Foundation Redemption.Channels
open ChannelsAuthorizations (RDPDR_DTYP_SERIAL RDPDR_DTYP_PARALLEL RDPDR_DTYP_PRINT
  RDPDR_DTYP_FILESYSTEM RDPDR_DTYP_SMARTCARD)

def RDPDR_CTYP_CORE : BitVec 16 := 0x4472
def PAKID_CORE_DEVICELIST_ANNOUNCE : BitVec 16 := 0x4441
def PAKID_CORE_DEVICE_REPLY : BitVec 16 := 0x6472
def PAKID_CORE_DEVICELIST_REMOVE : BitVec 16 := 0x444D

def STATUS_SUCCESS : BitVec 32 := 0x00000000
def STATUS_UNSUCCESSFUL : BitVec 32 := 0xC0000001

def CHANNEL_CHUNK_LENGTH : Nat := 1600

def inUint32 (stream : List Byte) : Checked ErrorId (BitVec 32 × List Byte) := do
  let (value, stream) ← inLe 4 stream
  return (BitVec.ofNat 32 value, stream)

def uint32 (value : BitVec 32) : List Byte := leBytes 4 value.toNat

/-- `SharedHeader::emit`. -/
def sharedHeader (packetId : BitVec 16) : List Byte :=
  leBytes 2 RDPDR_CTYP_CORE.toNat ++ leBytes 2 packetId.toNat

/-- An `OutStream`: what has been written to a buffer. -/
structure OutStream where
  capacity : Nat
  produced : List Byte
  deriving DecidableEq, Repr

namespace OutStream

/-- `OutStream()`. -/
def none : OutStream := ⟨0, []⟩

def outCopyBytes (stream : OutStream) (bytes : List Byte) : Checked ErrorId OutStream :=
  if stream.produced.length + bytes.length ≤ stream.capacity then
    .ok { stream with produced := stream.produced ++ bytes }
  else .error .outOfBounds

end OutStream

/-- What the session is configured with: the types of devices that are authorised, and whether
smart cards are announced before the user is logged on. -/
structure Params where
  fileSystemAuthorized : Bool
  parallelPortAuthorized : Bool
  printAuthorized : Bool
  serialPortAuthorized : Bool
  smartCardAuthorized : Bool
  smartcardPassthrough : Bool
  userLoggedOn : Bool

/-- The condition on the type of a device in `process_client_device_list_announce_request`. -/
def Params.authorized (params : Params) (deviceType : BitVec 32) : Prop :=
  deviceType = RDPDR_DTYP_FILESYSTEM ∧ params.fileSystemAuthorized ∨
    deviceType = RDPDR_DTYP_PARALLEL ∧ params.parallelPortAuthorized ∨
    deviceType = RDPDR_DTYP_PRINT ∧ params.printAuthorized ∨
    deviceType = RDPDR_DTYP_SERIAL ∧ params.serialPortAuthorized ∨
    deviceType = RDPDR_DTYP_SMARTCARD ∧ params.smartCardAuthorized

instance (params : Params) : DecidablePred params.authorized :=
  fun _ => inferInstanceAs (Decidable (_ ∨ _))

structure DeviceInfo where
  deviceId : BitVec 32
  deviceType : BitVec 32
  preferredDosName : List Byte
  deriving DecidableEq, Repr

/-- The members that keep a partial device from one chunk to the next: the stream of its announce,
what is still to be copied or skipped of its data, and a partial header. -/
structure Reading where
  current : OutStream
  toBeProcessed : Nat
  toBeSkipped : Nat
  header : List Byte
  deriving DecidableEq, Repr

/-- The members of `DeviceRedirectionManager`. Between two messages, none of the queued announces
can be removed. -/
structure Manager where
  reading : Reading
  deviceAnnounces : List (List Byte)
  deviceInfoInventory : List DeviceInfo
  waitingForResponse : Bool
  deriving DecidableEq, Repr

namespace Manager

def initial : Manager := ⟨⟨.none, 0, 0, []⟩, [], [], false⟩

end Manager

/-- `DeviceType`, `DeviceId`, `PreferredDosName` and `DeviceDataLength`. -/
structure DeviceHeader where
  deviceType : BitVec 32
  deviceId : BitVec 32
  preferredDosName : List Byte
  deviceDataLength : BitVec 32
  deriving DecidableEq, Repr

def DeviceHeader.receive (stream : List Byte) : Checked ErrorId (DeviceHeader × List Byte) := do
  let (deviceType, stream) ← inUint32 stream
  let (deviceId, stream) ← inUint32 stream
  let (preferredDosName, stream) ← inBytes 8 stream
  let (deviceDataLength, stream) ← inUint32 stream
  return (⟨deviceType, deviceId, preferredDosName, deviceDataLength⟩, stream)

/-- The stream for the announce of a device. Its size is a number of 32 bits. -/
def openStream (current : OutStream) (header : DeviceHeader) : OutStream :=
  let length : BitVec 32 := 4 + 24 + header.deviceDataLength
  if current.capacity < length.toNat then ⟨length.toNat, []⟩ else { current with produced := [] }

/-- What is written before the data of the device. -/
def emitAnnounce (stream : OutStream) (header : DeviceHeader) : Checked ErrorId OutStream := do
  let stream ← stream.outCopyBytes (sharedHeader PAKID_CORE_DEVICELIST_ANNOUNCE)
  let stream ← stream.outCopyBytes (uint32 1)
  let stream ← stream.outCopyBytes (uint32 header.deviceType)
  let stream ← stream.outCopyBytes (uint32 header.deviceId)
  let stream ← stream.outCopyBytes header.preferredDosName
  stream.outCopyBytes (uint32 header.deviceDataLength)

/-- The answer to the announce of a device that is not authorised. -/
def refusal (deviceId : BitVec 32) : Sent :=
  let reply := sharedHeader PAKID_CORE_DEVICE_REPLY ++ uint32 deviceId ++ uint32 STATUS_UNSUCCESSFUL
  .toClient ⟨reply.length, CHANNEL_FLAG_FIRST ||| CHANNEL_FLAG_LAST, reply⟩

/-- The first half of the loop: the header of a device, a part of which may be kept from the chunks
before. If it is to be kept again, nothing is left of the chunk. -/
def receiveHeader (params : Params) (reading : Reading) (chunk : List Byte) :
    Checked ErrorId (Reading × List Sent × Option (List Byte)) :=
  if reading.toBeProcessed ≠ 0 ∨ reading.toBeSkipped ≠ 0 then .ok (reading, [], some chunk)
  else if chunk.length < 20 ∧ reading.header = [] then
    .ok ({ reading with header := chunk }, [], none)
  else do
    let (more, chunk) ← inBytes (20 - reading.header.length) chunk
    let (header, _) ← DeviceHeader.receive (reading.header ++ more)
    if params.authorized header.deviceType then
      let current ← emitAnnounce (openStream reading.current header) header
      return (⟨current, header.deviceDataLength.toNat, 0, []⟩, [], some chunk)
    else
      return (⟨reading.current, 0, header.deviceDataLength.toNat, []⟩,
        [refusal header.deviceId], some chunk)

/-- The second half of the loop: data of the device is copied or skipped, and an announce that is
complete is queued. -/
def receiveData (reading : Reading) (chunk : List Byte) :
    Checked ErrorId (Reading × List (List Byte) × List Byte) :=
  if reading.current.produced ≠ [] ∨ reading.toBeProcessed ≠ 0 then do
    let length := min reading.toBeProcessed chunk.length
    let (data, chunk) ← inBytes length chunk
    let current ← reading.current.outCopyBytes data
    let toBeProcessed := reading.toBeProcessed - length
    if toBeProcessed = 0 then
      return ({ reading with current := .none, toBeProcessed }, [current.produced], chunk)
    else return ({ reading with current, toBeProcessed }, [], chunk)
  else if reading.toBeSkipped ≠ 0 then do
    let length := min reading.toBeSkipped chunk.length
    let (_, chunk) ← inBytes length chunk
    return ({ reading with toBeSkipped := reading.toBeSkipped - length }, [], chunk)
  else .ok (reading, [], chunk)

/-- The loop over a chunk, each turn of which takes at least a byte of it: what is queued, and what
is sent. -/
def receiveDevices (params : Params) :
    Nat → Reading → List Byte → Checked ErrorId (Reading × List (List Byte) × List Sent)
  | 0, reading, _ => .ok (reading, [], [])
  | turns + 1, reading, chunk =>
    if chunk = [] then .ok (reading, [], [])
    else do
      let (reading, replies, rest) ← receiveHeader params reading chunk
      match rest with
      | none => return (reading, [], replies)
      | some chunk => do
        let (reading, announces, chunk) ← receiveData reading chunk
        let (reading, later, sent) ← receiveDevices params turns reading chunk
        return (reading, announces ++ later, replies ++ sent)

/-- The loop that sends an announce to the server in chunks. -/
def sendChunks (totalLength : Nat) : Nat → BitVec 32 → List Byte → List Sent
  | 0, _, _ => []
  | turns + 1, flags, data =>
    let chunkData := data.take CHANNEL_CHUNK_LENGTH
    let flags :=
      if chunkData.length ≤ CHANNEL_CHUNK_LENGTH then flags ||| CHANNEL_FLAG_LAST else flags
    let rest := data.drop CHANNEL_CHUNK_LENGTH
    .toServer ⟨totalLength, flags, chunkData⟩ ::
      if rest = [] then []
      else sendChunks totalLength turns (flags &&& ~~~CHANNEL_FLAG_FIRST) rest

/-- What `announce_device` reads of a queued announce. -/
def receiveAnnounce (data : List Byte) : Checked ErrorId DeviceInfo := do
  checkThrow data 4 .rdpdrPduTruncated
  let (_, stream) ← inLe 2 data
  let (_, stream) ← inLe 2 stream
  let (_, stream) ← inUint32 stream
  checkThrow stream 20 .rdpdrPduTruncated
  let (header, stream) ← DeviceHeader.receive stream
  checkThrow stream header.deviceDataLength.toNat .rdpdrPduTruncated
  return ⟨header.deviceId, header.deviceType, header.preferredDosName.take 7 ++ [0]⟩

/-- A device that is kept back until the user is logged on. -/
def Params.keepsBack (params : Params) (deviceType : BitVec 32) : Prop :=
  params.userLoggedOn = false ∧ deviceType ≠ RDPDR_DTYP_SERIAL ∧ deviceType ≠ RDPDR_DTYP_SMARTCARD

instance (params : Params) : DecidablePred params.keepsBack :=
  fun _ => inferInstanceAs (Decidable (_ ∧ _))

/-- What the loop of `announce_device` comes to. -/
structure Announced where
  kept : List (List Byte)
  inventory : List DeviceInfo
  waiting : Bool
  sent : List Sent
  deriving DecidableEq, Repr

/-- The loop of `announce_device`, with `add_known_device`: a device that is known already is
dropped, and the first one that is not is sent. -/
def announceQueue (params : Params) (inventory : List DeviceInfo) :
    List (List Byte) → Checked ErrorId Announced
  | [] => .ok ⟨[], inventory, false, []⟩
  | data :: rest => do
    let info ← receiveAnnounce data
    if params.keepsBack info.deviceType then
      let later ← announceQueue params inventory rest
      return { later with kept := data :: later.kept }
    else if ∃ known ∈ inventory, known.deviceId = info.deviceId then
      announceQueue params inventory rest
    else
      return ⟨rest, inventory ++ [info], true,
        sendChunks data.length (data.length + 1) CHANNEL_FLAG_FIRST data⟩

namespace Manager

variable (params : Params) (manager : Manager)

def announceDevice : Checked ErrorId (Manager × List Sent) :=
  if manager.waitingForResponse then .ok (manager, [])
  else do
    let announced ← announceQueue params manager.deviceInfoInventory manager.deviceAnnounces
    return ({ manager with
      deviceAnnounces := announced.kept
      deviceInfoInventory := announced.inventory
      waitingForResponse := announced.waiting }, announced.sent)

/-- `process_client_device_list_announce_request`. -/
def processClientDeviceListAnnounceRequest (flags : BitVec 32) (chunk : List Byte) :
    Checked ErrorId (Manager × List Sent) := do
  let (reading, chunk) ←
    if flags &&& CHANNEL_FLAG_FIRST ≠ 0 then do
      checkThrow chunk 4 .rdpDataTruncated
      let (_, chunk) ← inUint32 chunk
      pure ({ manager.reading with header := [] }, chunk)
    else pure (manager.reading, chunk)
  let (reading, announces, replies) ← receiveDevices params chunk.length reading chunk
  let manager := { manager with reading, deviceAnnounces := manager.deviceAnnounces ++ announces }
  if params.smartcardPassthrough ∨ params.userLoggedOn then do
    let (manager, sent) ← manager.announceDevice params
    return (manager, replies ++ sent)
  else return (manager, replies)

def removeKnownDevice (deviceId : BitVec 32) : Manager :=
  match manager.deviceInfoInventory.findIdx? (·.deviceId = deviceId) with
  | some index => { manager with
      deviceInfoInventory := SwapRemove.removeAt manager.deviceInfoInventory index }
  | none => manager

end Manager

/-- The id in a queued announce. -/
def queuedId (data : List Byte) : Checked ErrorId (BitVec 32) := do
  let (stream, _) ← inBytes 16 data
  let (_, stream) ← inBytes 12 stream
  let (deviceId, _) ← inUint32 stream
  return deviceId

/-- The search for the announce of a device in the queue. -/
def findQueued (deviceId : BitVec 32) : List (List Byte) → Checked ErrorId (Option Nat)
  | [] => .ok none
  | data :: rest => do
    let current ← queuedId data
    if deviceId = current then return some 0
    else do
      let found ← findQueued deviceId rest
      return found.map (· + 1)

def MAX_NUMBER_OF_REMOVABLE_DEVICE : Nat := 128

/-- The variables of the loop of `process_client_drive_device_list_remove`. -/
structure Removal where
  manager : Manager
  stream : OutStream
  numberOfRemovableDevice : Nat

def removeDevices : Nat → List Byte → Removal → Checked ErrorId Removal
  | 0, _, removal => .ok removal
  | count + 1, chunk, removal => do
    let (deviceId, chunk) ← inUint32 chunk
    match ← findQueued deviceId removal.manager.deviceAnnounces with
    | some index => removeDevices count chunk { removal with
        manager.deviceAnnounces := SwapRemove.removeAt removal.manager.deviceAnnounces index }
    | none =>
      if removal.numberOfRemovableDevice < MAX_NUMBER_OF_REMOVABLE_DEVICE then do
        let stream ← removal.stream.outCopyBytes (uint32 deviceId)
        removeDevices count chunk
          ⟨removal.manager.removeKnownDevice deviceId, stream, removal.numberOfRemovableDevice + 1⟩
      else removeDevices count chunk removal

namespace Manager

variable (params : Params) (manager : Manager)

/-- `process_client_drive_device_list_remove`. The room that is checked for is a number of 32
bits. -/
def processClientDriveDeviceListRemove (chunk : List Byte) : Checked ErrorId (Manager × List Sent) := do
  checkThrow chunk 4 .rdpDataTruncated
  let (deviceCount, chunk) ← inUint32 chunk
  let stream ← OutStream.outCopyBytes ⟨64 + 4 + 4 * MAX_NUMBER_OF_REMOVABLE_DEVICE, []⟩
    (sharedHeader PAKID_CORE_DEVICELIST_REMOVE)
  let stream ← stream.outCopyBytes (List.replicate 4 0)
  checkThrow chunk (deviceCount * 4).toNat .rdpDataTruncated
  let removal ← removeDevices deviceCount.toNat chunk ⟨manager, stream, 0⟩
  if removal.numberOfRemovableDevice ≠ 0 then
    let produced := removal.stream.produced.take 4 ++
      leBytes 4 removal.numberOfRemovableDevice ++ removal.stream.produced.drop 8
    return (removal.manager,
      [.toServer ⟨produced.length, CHANNEL_FLAG_FIRST ||| CHANNEL_FLAG_LAST, produced⟩])
  else return (removal.manager, [])

/-- `process_server_device_announce_response`. -/
def processServerDeviceAnnounceResponse (chunk : List Byte) :
    Checked ErrorId (Manager × List Sent) := do
  let (manager, sent) ← { manager with waitingForResponse := false }.announceDevice params
  checkThrow chunk 8 .rdpdrPduTruncated
  let (deviceId, chunk) ← inUint32 chunk
  let (resultCode, _) ← inUint32 chunk
  if resultCode ≠ STATUS_SUCCESS then return (manager.removeKnownDevice deviceId, sent)
  else return (manager, sent)

end Manager

/-- The messages about devices, behind their common header. -/
inductive Message where
  | deviceListAnnounce (flags : BitVec 32) (chunk : List Byte)
  | deviceListRemove (chunk : List Byte)
  | deviceAnnounceResponse (chunk : List Byte)
  deriving DecidableEq, Repr

end Redemption.Rdpdr
