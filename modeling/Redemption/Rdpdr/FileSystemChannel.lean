import Redemption.Foundation.Buffer
import Redemption.Foundation.Machine
import Redemption.Rdpdr.IoPdus
import Redemption.Utils.IdManager

/-! `FileSystemVirtualChannel`: what the client and the server say of drives goes through the
proxy. The channel of the client is open, and answers before the timeout. -/
namespace Redemption.Rdpdr

open Redemption.Foundation Redemption.Channels Redemption.Utils
open ChannelsAuthorizations (RDPDR_DTYP_FILESYSTEM)

def RDPDR_DTYP_UNSPECIFIED : BitVec 32 := 0x00000000

/-- `END_OF_FILE_READING` and `END_OF_FILE_UNREAD`, numbers of 64 bits with a sign. -/
def END_OF_FILE_READING : BitVec 64 := -1
def END_OF_FILE_UNREAD : BitVec 64 := -2

/-- `FileSystemVirtualChannelParams`. -/
structure ChannelParams where
  fileSystemReadAuthorized : Bool
  fileSystemWriteAuthorized : Bool
  parallelPortAuthorized : Bool
  printAuthorized : Bool
  serialPortAuthorized : Bool
  smartCardAuthorized : Bool
  smartcardPassthrough : Bool

/-- What the manager of the devices is constructed with. -/
def ChannelParams.manager (params : ChannelParams) (userLoggedOn : Bool) : Params :=
  ⟨params.fileSystemReadAuthorized || params.fileSystemWriteAuthorized,
    params.parallelPortAuthorized, params.printAuthorized, params.serialPortAuthorized,
    params.smartCardAuthorized, params.smartcardPassthrough, userLoggedOn⟩

/-- What is not a part of the channel: the hash of a library, the drives that the proxy manages
itself, and the capabilities of the client, which are rewritten. -/
structure Outside where
  sha256 : List Byte → List Byte
  isManagedDrive : BitVec 32 → Bool
  processDeviceIORequest : DeviceIORequest → Bool → List Byte → List Chunk
  announceDrive : Bool → List (List Byte)
  coreCapabilityResponse : List Byte → Checked ErrorId (List Byte × Bool)

/-- `device_io_request_info_type`. -/
structure RequestInfo where
  deviceId : BitVec 32
  fileId : BitVec 32
  completionId : BitVec 32
  filePath : List Byte
  majorFunction : BitVec 32
  extraData : BitVec 32
  offset : BitVec 64
  length : BitVec 32
  remaining : Nat
  deriving DecidableEq, Repr

/-- `device_io_target_info_type`. Of the hash, the bytes that it has been updated with. -/
structure TargetInfo where
  deviceId : BitVec 32
  fileId : BitVec 32
  filePath : List Byte
  forReading : Bool
  forWriting : Bool
  forSequentialAccess : Bool
  endOfFile : BitVec 64
  sequentialAccessOffset : BitVec 64
  sha256 : List Byte
  deriving DecidableEq, Repr

/-- What is written to the log of the session. -/
inductive LogEntry where
  | driveRedirectionUse (deviceName : List Byte) (deviceType : BitVec 32)
  | driveRedirectionRead (fileName : List Byte) (sizeAndSha256 : Option (Int × List Byte))
  | driveRedirectionWrite (fileName : List Byte) (sizeAndSha256 : Int × List Byte)
  | driveRedirectionDelete (fileName : List Byte)
  | driveRedirectionRename (oldFileName newFileName : List Byte)
  deriving DecidableEq, Repr

inductive Output where
  | toClient (chunk : Chunk)
  | toServer (chunk : Chunk)
  | log (entry : LogEntry)
  deriving DecidableEq, Repr

/-- What the manager of the devices sends. -/
def Output.sent : Sent → Output
  | .toClient chunk => .toClient chunk
  | .toServer chunk => .toServer chunk

/-- The ids that the server and the proxy complete requests with. -/
def completionIds : IdRange 32 := ⟨0x00000001, 0xFFFFFFFF, 0x00000000⟩

/-- The members of `FileSystemVirtualChannel`. -/
structure FileSystemChannel where
  clientPacketId : BitVec 16
  serverPacketId : BitVec 16
  serverDeviceIORequest : DeviceIORequest
  clientDeviceIOResponse : DeviceIOResponse
  completionIdManager : IdManager 32
  requests : List RequestInfo
  targets : List TargetInfo
  deviceCapabilityVersion02Supported : Bool
  userLoggedOn : Bool
  manager : Manager
  serverCoreCapabilityRequestReceived : Bool
  serverClientIdConfirmReceived : Bool
  savedServerClientIdConfirm : Chunk
  deriving DecidableEq, Repr

abbrev Emits (α : Type) := Emitting Output ErrorId α

/-- What the manager of the devices comes to. -/
def Emits.ofManager (result : Checked ErrorId (Manager × List Sent)) : Emits Manager :=
  match result with
  | .error fault => ⟨[], .error fault⟩
  | .ok (manager, sent) => ⟨sent.map .sent, .ok manager⟩

/-- A loop that goes on for ever. Nothing more is said. -/
def Emits.ofLoop {α : Type} : Option α → Emits α
  | none => Emitting.lift (.error .outOfBounds)
  | some value => pure value

@[simp] theorem Emits.ofLoop_none_bind {α β : Type} (next : α → Emits β) :
    (Emits.ofLoop none >>= next) = Emitting.lift (.error .outOfBounds) := rfl

@[simp] theorem Emits.ofLoop_some_bind {α β : Type} (value : α) (next : α → Emits β) :
    (Emits.ofLoop (some value) >>= next) = next value := rfl

namespace FileSystemChannel

def initial : FileSystemChannel where
  clientPacketId := PAKID_CORE_SERVER_ANNOUNCE
  serverPacketId := PAKID_CORE_SERVER_ANNOUNCE
  serverDeviceIORequest := .initial
  clientDeviceIOResponse := .initial
  completionIdManager := .initial completionIds
  requests := []
  targets := []
  deviceCapabilityVersion02Supported := false
  userLoggedOn := false
  manager := .initial
  serverCoreCapabilityRequestReceived := false
  serverClientIdConfirmReceived := false
  savedServerClientIdConfirm := ⟨0, 0, []⟩

variable (params : ChannelParams) (outside : Outside) (channel : FileSystemChannel)

/-- `get_device_type`. -/
def getDeviceType (deviceId : BitVec 32) : BitVec 32 :=
  match channel.manager.deviceInfoInventory.find? (·.deviceId = deviceId) with
  | some info => info.deviceType
  | none => RDPDR_DTYP_UNSPECIFIED

/-- `get_device_name`. -/
def getDeviceName (deviceId : BitVec 32) : Option (List Byte) :=
  (channel.manager.deviceInfoInventory.find? (·.deviceId = deviceId)).map
    (·.preferredDosName.takeWhile (· ≠ 0))

/-- `find_request_info`. -/
def findRequestInfo (deviceId completionId : BitVec 32) : Option Nat :=
  channel.requests.findIdx? fun request =>
    request.deviceId = deviceId ∧ request.completionId = completionId

/-- `find_target_info`. -/
def findTargetInfo (deviceId fileId : BitVec 32) : Option Nat :=
  channel.targets.findIdx? fun target => target.deviceId = deviceId ∧ target.fileId = fileId

def setRequest (index : Nat) (request : RequestInfo) : FileSystemChannel :=
  { channel with requests := channel.requests.set index request }

def setTarget (index : Nat) (target : TargetInfo) : FileSystemChannel :=
  { channel with targets := channel.targets.set index target }

/-- Later chunks of a write request: their data is hashed. -/
def continueWriteRequest (chunk : List Byte) : FileSystemChannel :=
  let request := channel.serverDeviceIORequest
  if request.majorFunction = IRP_MJ_WRITE then
    match channel.findTargetInfo request.deviceId request.fileId with
    | none => channel
    | some targetIndex =>
      match channel.targets[targetIndex]? with
      | none => channel
      | some target =>
        if target.forSequentialAccess then
          match channel.findRequestInfo request.deviceId request.completionId with
          | none => channel
          | some requestIndex =>
            match channel.requests[requestIndex]? with
            | none => channel
            | some info =>
              let length := min chunk.length info.remaining
              let channel := channel.setTarget targetIndex
                { target with sha256 := target.sha256 ++ chunk.take length }
              channel.setRequest requestIndex { info with remaining := info.remaining - length }
        else channel
  else channel

/-- The request of the proxy for the size of a file. -/
def queryStandardInformation (request : DeviceIORequest) (completionId : BitVec 32) : List Byte :=
  sharedHeader PAKID_CORE_DEVICE_IOREQUEST ++
    DeviceIORequest.bytes ⟨request.deviceId, request.fileId, completionId,
      IRP_MJ_QUERY_INFORMATION, 0⟩ ++
    uint32 FileStandardInformation ++ uint32 0 ++ List.replicate 24 0

/-- Before the first read or write of a file on a drive, the proxy asks for its size. -/
def askEndOfFile (flags : BitVec 32) (targetIndex : Option Nat) (filePath : List Byte) :
    Emits FileSystemChannel := do
  let request := channel.serverDeviceIORequest
  if request.majorFunction = IRP_MJ_READ ∨ request.majorFunction = IRP_MJ_WRITE then
    match targetIndex.bind fun index => (channel.targets[index]?).map (index, ·) with
    | none => return channel
    | some (index, target) =>
      if channel.getDeviceType request.deviceId = RDPDR_DTYP_FILESYSTEM ∧
          target.endOfFile = END_OF_FILE_UNREAD then do
        let (completionId, ids) ←
          Emits.ofLoop (channel.completionIdManager.regDestOnlyId completionIds)
        let query := queryStandardInformation request completionId
        Emitting.emit (.toClient ⟨query.length, flags, query⟩)
        return { channel.setTarget index { target with endOfFile := END_OF_FILE_READING } with
          completionIdManager := ids
          requests := channel.requests ++ [⟨request.deviceId, request.fileId, completionId, filePath,
            IRP_MJ_QUERY_INFORMATION, FileStandardInformation, 0, 0, 0⟩] }
      else return channel
  else return channel

/-- What is refused by `process_server_create_drive_request`. -/
def refuses (create : DeviceCreateRequest) : Prop :=
  channel.getDeviceType channel.serverDeviceIORequest.deviceId = RDPDR_DTYP_FILESYSTEM ∧
    (params.fileSystemReadAuthorized = false ∧ Smb2.readAccessIsRequired create.desiredAccess ∧
        create.createOptions &&& Smb2.FILE_DIRECTORY_FILE = 0 ∧ create.path ≠ [0x2F] ∨
      params.fileSystemWriteAuthorized = false ∧
        (Smb2.writeAccessIsRequired create.desiredAccess ∨
          create.createDisposition = Smb2.FILE_CREATE))

instance (create : DeviceCreateRequest) : Decidable (channel.refuses params create) :=
  inferInstanceAs (Decidable (_ ∧ _))

def accessDenied (request : DeviceIORequest) : List Byte :=
  sharedHeader PAKID_CORE_DEVICE_IOCOMPLETION ++
    DeviceIOResponse.bytes ⟨request.deviceId, request.completionId, STATUS_ACCESS_DENIED⟩ ++
    uint32 (-1) ++ [0]

/-- `process_server_create_drive_request`: the path of the file, where the request is not refused. -/
def processServerCreateDriveRequest (chunk : List Byte) : Emits (Option (List Byte)) := do
  let create ← Emitting.lift (DeviceCreateRequest.receive chunk)
  if channel.refuses params create then do
    let reply := accessDenied channel.serverDeviceIORequest
    Emitting.emit (.toServer ⟨reply.length, CHANNEL_FLAG_FIRST ||| CHANNEL_FLAG_LAST, reply⟩)
    return none
  else return some create.path

/-- What is kept of a request: its path, the class of information, the offset, the length and what
remains of it. Nothing is kept of some requests. -/
structure Noted where
  filePath : List Byte
  extraData : BitVec 32
  offset : BitVec 64
  length : BitVec 32
  remaining : Nat
  deriving DecidableEq, Repr

/-- The data of a write request is hashed, if it goes on where the one before has ended. -/
def beginWriteRequest (targetIndex : Option Nat) (offset : BitVec 64) (length : BitVec 32)
    (chunk : List Byte) : FileSystemChannel × Nat :=
  match targetIndex.bind fun index => (channel.targets[index]?).map (index, ·) with
  | none => (channel, length.toNat)
  | some (index, target) =>
    if target.forSequentialAccess then
      if target.forReading = false ∧ target.sequentialAccessOffset = offset then
        let effective := min chunk.length length.toNat
        (channel.setTarget index { target with
            sha256 := target.sha256 ++ chunk.take effective
            sequentialAccessOffset := target.sequentialAccessOffset + length.setWidth 64 },
          length.toNat - effective)
      else (channel.setTarget index { target with forSequentialAccess := false }, length.toNat)
    else (channel, length.toNat)

/-- The `switch` over the function of a request. A request that is refused is not passed on, and
one that changes are asked to be notified with is not kept. -/
def dispatchRequest (targetIndex : Option Nat) (filePath chunk : List Byte) :
    Emits (FileSystemChannel × Bool × Option Noted) := do
  let request := channel.serverDeviceIORequest
  if request.majorFunction = IRP_MJ_CREATE then do
    match ← channel.processServerCreateDriveRequest params chunk with
    | none => return (channel, false, none)
    | some path => return (channel, true, some ⟨path, 0, 0, 0, 0⟩)
  else if request.majorFunction = IRP_MJ_READ then do
    let (length, offset) ← Emitting.lift (receiveReadRequest chunk)
    return (channel, true, some ⟨filePath, 0, offset, length, length.toNat⟩)
  else if request.majorFunction = IRP_MJ_WRITE then do
    let (length, offset, data) ← Emitting.lift (receiveWriteRequest chunk)
    let (channel, remaining) := channel.beginWriteRequest targetIndex offset length data
    return (channel, true, some ⟨filePath, 0, offset, length, remaining⟩)
  else if request.majorFunction = IRP_MJ_QUERY_VOLUME_INFORMATION ∨
      request.majorFunction = IRP_MJ_QUERY_INFORMATION then do
    let fsInformationClass ← Emitting.lift (receiveQueryRequest chunk)
    return (channel, true, some ⟨filePath, fsInformationClass, 0, 0, 0⟩)
  else if request.majorFunction = IRP_MJ_DIRECTORY_CONTROL then
    if request.minorFunction = IRP_MN_QUERY_DIRECTORY then do
      let fsInformationClass ← Emitting.lift (receiveQueryDirectoryRequest chunk)
      return (channel, true, some ⟨filePath, fsInformationClass, 0, 0, 0⟩)
    else return (channel, true, none)
  else if request.majorFunction = IRP_MJ_SET_INFORMATION then do
    let (fsInformationClass, chunk) ← Emitting.lift (receiveSetInformationRequest chunk)
    let noted : Noted := ⟨filePath, fsInformationClass, 0, 0, 0⟩
    if fsInformationClass = FileEndOfFileInformation then do
      let endOfFile ← Emitting.lift (receiveEndOfFile chunk)
      match targetIndex.bind fun index => (channel.targets[index]?).map (index, ·) with
      | none => return (channel, true, some noted)
      | some (index, target) =>
        return (channel.setTarget index { target with endOfFile }, true, some noted)
    else if fsInformationClass = FileRenameInformation then do
      let fileName ← Emitting.lift (receiveRenameInformation chunk)
      match channel.getDeviceName request.deviceId with
      | none => return (channel, true, some noted)
      | some deviceName => return (channel, true, some { noted with filePath := deviceName ++ fileName })
    else return (channel, true, some noted)
  else return (channel, true, some ⟨filePath, 0, 0, 0, 0⟩)

/-- Some bytes of a chunk are written anew. -/
def replaced (chunk : List Byte) (offset : Nat) (bytes : List Byte) : List Byte :=
  chunk.take offset ++ bytes ++ chunk.drop (offset + bytes.length)

/-- The request is passed on with an id of the proxy, and is kept under it. -/
def passRequestOn (chunk : Chunk) (offset : Nat) (passes : Bool) (noted : Option Noted) :
    Emits (FileSystemChannel × Bool) := do
  if passes then do
    let request := channel.serverDeviceIORequest
    let (completionId, ids) ←
      Emits.ofLoop (channel.completionIdManager.getDestIdEx completionIds request.completionId)
    let mapped := { request with completionId }
    let requests := match noted with
      | none => channel.requests
      | some noted => channel.requests ++ [⟨request.deviceId, request.fileId, completionId,
          noted.filePath, request.majorFunction, noted.extraData, noted.offset, noted.length,
          noted.remaining⟩]
    let channel := { channel with
      completionIdManager := ids, serverDeviceIORequest := mapped, requests }
    if completionId ≠ request.completionId then do
      Emitting.emit (.toClient { chunk with data := replaced chunk.data offset mapped.bytes })
      return (channel, false)
    else return (channel, true)
  else return (channel, false)

/-- `process_server_drive_io_request`: whether the chunk is still to be sent to the client. -/
def processServerDriveIORequest (chunk : Chunk) (stream : List Byte) :
    Emits (FileSystemChannel × Bool) := do
  let offset := chunk.data.length - stream.length
  let first : Bool := chunk.flags &&& CHANNEL_FLAG_FIRST ≠ 0
  let (channel, stream) ←
    if first then do
      let (request, stream) ← Emitting.lift (DeviceIORequest.receive stream)
      pure ({ channel with serverDeviceIORequest := request }, stream)
    else pure (channel, stream)
  let request := channel.serverDeviceIORequest
  if outside.isManagedDrive request.deviceId then
    ⟨(outside.processDeviceIORequest request first stream).map .toServer, .ok (channel, false)⟩
  else if first = false then return (channel.continueWriteRequest stream, true)
  else do
    let targetIndex :=
      if request.majorFunction ≠ IRP_MJ_CREATE then
        channel.findTargetInfo request.deviceId request.fileId
      else none
    let filePath := ((targetIndex.bind (channel.targets[·]?)).map (·.filePath)).getD []
    let channel ← channel.askEndOfFile chunk.flags targetIndex filePath
    let (channel, passes, noted) ← channel.dispatchRequest params targetIndex filePath stream
    channel.passRequestOn chunk offset passes noted

/-- Later chunks of a read response: their data is hashed. -/
def continueReadResponse (requestIndex : Nat) (info : RequestInfo) (targetIndex : Option Nat)
    (chunk : List Byte) : FileSystemChannel :=
  match targetIndex.bind fun index => (channel.targets[index]?).map (index, ·) with
  | none => channel
  | some (index, target) =>
    if target.forSequentialAccess then
      let length := min chunk.length info.remaining
      let channel := channel.setTarget index
        { target with sha256 := target.sha256 ++ chunk.take length }
      channel.setRequest requestIndex { info with remaining := info.remaining - length }
    else channel

/-- A file that has been created or opened. -/
def createResponded (info : RequestInfo) (chunk : List Byte) : Emits FileSystemChannel := do
  let response := channel.clientDeviceIOResponse
  let fileId ← Emitting.lift (receiveCreateResponse response.ioStatus chunk)
  if response.ioStatus = STATUS_SUCCESS then do
    let deviceName := channel.getDeviceName response.deviceId
    let deviceType := channel.getDeviceType response.deviceId
    if deviceType ≠ RDPDR_DTYP_FILESYSTEM then
      Emitting.emit (.log (.driveRedirectionUse (deviceName.getD []) deviceType))
    match deviceName with
    | none => return channel
    | some deviceName => return { channel with
        targets := channel.targets ++ [⟨response.deviceId, fileId, deviceName ++ info.filePath, false,
          false, true, END_OF_FILE_UNREAD, 0, []⟩] }
  else return channel

/-- `"/DESKTOP.INI"`. -/
def desktopIni : List Byte := [0x2F, 0x44, 0x45, 0x53, 0x4B, 0x54, 0x4F, 0x50, 0x2E, 0x49, 0x4E, 0x49]

def upperAscii (char : Byte) : Byte := if 0x61 ≤ char ∧ char ≤ 0x7A then char - 0x20 else char

/-- `insensitive_ends_with(file_path, "/desktop.ini")`. -/
def endsWithDesktopIni (filePath : List Byte) : Prop :=
  desktopIni.length ≤ filePath.length ∧
    (filePath.drop (filePath.length - desktopIni.length)).map upperAscii = desktopIni

instance : DecidablePred endsWithDesktopIni := fun _ => inferInstanceAs (Decidable (_ ∧ _))

/-- What is logged when a file is closed. -/
def closeLog (filePath : List Byte) (target : TargetInfo) : List LogEntry :=
  let sizeAndSha256 := (target.endOfFile.toInt, outside.sha256 target.sha256)
  if channel.getDeviceType channel.clientDeviceIOResponse.deviceId = RDPDR_DTYP_FILESYSTEM ∧
      target.forReading ≠ target.forWriting ∧ target.sequentialAccessOffset ≠ 0 ∧
      ¬ endsWithDesktopIni filePath then
    if target.forReading then
      [.driveRedirectionRead filePath
        (if target.sequentialAccessOffset = target.endOfFile then some sizeAndSha256 else none)]
    else if target.endOfFile.toInt ≤ target.sequentialAccessOffset.toInt then
      [.driveRedirectionWrite filePath sizeAndSha256]
    else []
  else []

/-- A file that has been closed. -/
def closeResponded (info : RequestInfo) (targetIndex : Option Nat) : Emits FileSystemChannel :=
  match targetIndex.bind fun index => (channel.targets[index]?).map (index, ·) with
  | none => pure channel
  | some (index, target) =>
    ⟨(channel.closeLog outside info.filePath target).map .log,
      .ok { channel with targets := SwapRemove.removeAt channel.targets index }⟩

/-- Data that has been read is hashed, if it goes on where the one before has ended. -/
def readResponded (requestIndex : Nat) (info : RequestInfo) (targetIndex : Option Nat)
    (chunk : List Byte) : Emits FileSystemChannel := do
  let (length, data) ← Emitting.lift (receiveLength chunk)
  let channel := channel.setRequest requestIndex { info with remaining := length.toNat }
  if channel.clientDeviceIOResponse.ioStatus = STATUS_SUCCESS then
    match targetIndex.bind fun index => (channel.targets[index]?).map (index, ·) with
    | none => return channel
    | some (index, target) =>
      if target.forSequentialAccess then
        if target.forWriting = false ∧ target.sequentialAccessOffset = info.offset then
          let effective := min data.length length.toNat
          let channel := channel.setRequest requestIndex
            { info with remaining := length.toNat - effective }
          return channel.setTarget index { target with
            sha256 := target.sha256 ++ data.take effective
            sequentialAccessOffset := target.sequentialAccessOffset + length.setWidth 64
            forReading := true }
        else
          return channel.setTarget index
            { target with forSequentialAccess := false, forReading := true }
      else return channel.setTarget index { target with forReading := true }
  else return channel

/-- Data has been written. -/
def writeResponded (targetIndex : Option Nat) : FileSystemChannel :=
  match targetIndex.bind fun index => (channel.targets[index]?).map (index, ·) with
  | none => channel
  | some (index, target) =>
    if channel.clientDeviceIOResponse.ioStatus = STATUS_SUCCESS then
      channel.setTarget index { target with forWriting := true }
    else channel

/-- `process_client_drive_query_volume_information_response`. -/
def queryVolumeInformationResponded (fsInformationClass : BitVec 32) (chunk : List Byte) :
    Emits FileSystemChannel := do
  if fsInformationClass = FileFsVolumeInformation ∨
      fsInformationClass = FileFsAttributeInformation then do
    let _ ← Emitting.lift (receiveLength chunk)
    return channel
  else return channel

/-- `process_client_drive_query_information_response`: the size of a file. -/
def queryInformationResponded (fsInformationClass fileId : BitVec 32) (chunk : List Byte) :
    Emits FileSystemChannel := do
  if fsInformationClass = FileBasicInformation then do
    let _ ← Emitting.lift (receiveLength chunk)
    return channel
  else if fsInformationClass = FileStandardInformation then do
    let (length, chunk) ← Emitting.lift (receiveLength chunk)
    if length ≠ 0 then do
      let endOfFile ← Emitting.lift (receiveStandardInformation chunk)
      let targetIndex := channel.findTargetInfo channel.clientDeviceIOResponse.deviceId fileId
      match targetIndex.bind fun index => (channel.targets[index]?).map (index, ·) with
      | none => return channel
      | some (index, target) => return channel.setTarget index { target with endOfFile }
    else return channel
  else return channel

/-- `process_client_drive_directory_control_response`. -/
def directoryControlResponded (fsInformationClass : BitVec 32) (chunk : List Byte) :
    Emits FileSystemChannel := do
  if fsInformationClass = FileFullDirectoryInformation ∨
      fsInformationClass = FileBothDirectoryInformation then do
    let _ ← Emitting.lift (receiveLength chunk)
    return channel
  else if fsInformationClass = FileNamesInformation then do
    let (length, chunk) ← Emitting.lift (receiveLength chunk)
    if length ≠ 0 then Emitting.lift (receiveNamesInformation chunk)
    return channel
  else return channel

/-- A file that has been deleted or renamed. -/
def setInformationLog (info : RequestInfo) (targetIndex : Option Nat) : List LogEntry :=
  match targetIndex.bind (channel.targets[·]?) with
  | none => []
  | some target =>
    if channel.clientDeviceIOResponse.ioStatus = STATUS_SUCCESS then
      if info.extraData = FileDispositionInformation then [.driveRedirectionDelete info.filePath]
      else if info.extraData = FileRenameInformation then
        [.driveRedirectionRename target.filePath info.filePath]
      else []
    else []

/-- The `switch` over the function of the request that is answered. -/
def dispatchResponse (requestIndex : Nat) (info : RequestInfo) (targetIndex : Option Nat)
    (chunk : List Byte) : Emits FileSystemChannel :=
  if info.majorFunction = IRP_MJ_CREATE then channel.createResponded info chunk
  else if info.majorFunction = IRP_MJ_CLOSE then channel.closeResponded outside info targetIndex
  else if info.majorFunction = IRP_MJ_READ then
    channel.readResponded requestIndex info targetIndex chunk
  else if info.majorFunction = IRP_MJ_WRITE then pure (channel.writeResponded targetIndex)
  else if info.majorFunction = IRP_MJ_QUERY_VOLUME_INFORMATION then
    channel.queryVolumeInformationResponded info.extraData chunk
  else if info.majorFunction = IRP_MJ_QUERY_INFORMATION then
    channel.queryInformationResponded info.extraData info.fileId chunk
  else if info.majorFunction = IRP_MJ_DIRECTORY_CONTROL then
    channel.directoryControlResponded info.extraData chunk
  else if info.majorFunction = IRP_MJ_SET_INFORMATION then
    ⟨(channel.setInformationLog info targetIndex).map .log, .ok channel⟩
  else pure channel

/-- The response is passed on with the id of the server, unless the proxy has asked. -/
def passResponseOn (chunk : Chunk) (offset : Nat) : Emits (FileSystemChannel × Bool) := do
  let response := channel.clientDeviceIOResponse
  let destOnly ← Emitting.lift
    (channel.completionIdManager.isDestOnlyId .unexpected response.completionId)
  if destOnly then do
    let ids ← Emitting.lift
      (channel.completionIdManager.unregDestOnlyId .unexpected response.completionId)
    return ({ channel with completionIdManager := ids }, false)
  else do
    let completionId ← Emitting.lift
      (channel.completionIdManager.getSrcId .unexpected response.completionId)
    let ids ← Emitting.lift (channel.completionIdManager.unregSrcId .unexpected completionId)
    let mapped := { response with completionId }
    let channel := { channel with completionIdManager := ids, clientDeviceIOResponse := mapped }
    if completionId ≠ response.completionId then do
      Emitting.emit (.toServer { chunk with data := replaced chunk.data offset mapped.bytes })
      return (channel, false)
    else return (channel, true)

/-- Behind the last chunk of a response, the request is forgotten. -/
def forgetRequest (flags : BitVec 32) (requestIndex : Nat) : FileSystemChannel :=
  if flags &&& CHANNEL_FLAG_LAST ≠ 0 then
    { channel with requests := SwapRemove.removeAt channel.requests requestIndex }
  else channel

/-- `process_client_drive_io_response`: whether the chunk is still to be sent to the server. -/
def processClientDriveIOResponse (chunk : Chunk) (stream : List Byte) :
    Emits (FileSystemChannel × Bool) := do
  let offset := chunk.data.length - stream.length
  let first : Bool := chunk.flags &&& CHANNEL_FLAG_FIRST ≠ 0
  let (channel, stream) ←
    if first then do
      let (response, stream) ← Emitting.lift (DeviceIOResponse.receive stream)
      pure ({ channel with clientDeviceIOResponse := response }, stream)
    else pure (channel, stream)
  let response := channel.clientDeviceIOResponse
  let requestIndex := channel.findRequestInfo response.deviceId response.completionId
  match requestIndex.bind fun index => (channel.requests[index]?).map (index, ·) with
  | none => return (channel, true)
  | some (requestIndex, info) =>
    let targetIndex := channel.findTargetInfo response.deviceId info.fileId
    if first = false then
      let channel :=
        if info.majorFunction = IRP_MJ_READ then
          channel.continueReadResponse requestIndex info targetIndex stream
        else channel
      return (channel.forgetRequest chunk.flags requestIndex, true)
    else do
      let channel ← channel.dispatchResponse outside requestIndex info targetIndex stream
      (channel.forgetRequest chunk.flags requestIndex).passResponseOn chunk offset

/-- `process_client_message`. -/
def processClientMessage (chunk : Chunk) : Emits FileSystemChannel := do
  let (channel, stream) ←
    if chunk.flags &&& CHANNEL_FLAG_FIRST ≠ 0 then do
      let (packetId, stream) ← Emitting.lift (receivePacketId chunk.data)
      pure ({ channel with clientPacketId := packetId }, stream)
    else pure (channel, chunk.data)
  let manager := params.manager channel.userLoggedOn
  if channel.clientPacketId = PAKID_CORE_DEVICELIST_ANNOUNCE then do
    let manager ← Emits.ofManager
      (channel.manager.processClientDeviceListAnnounceRequest manager chunk.flags stream)
    return { channel with manager }
  else if channel.clientPacketId = PAKID_CORE_DEVICELIST_REMOVE then do
    let manager ← Emits.ofManager (channel.manager.processClientDriveDeviceListRemove stream)
    return { channel with manager }
  else if channel.clientPacketId = PAKID_CORE_DEVICE_IOCOMPLETION then do
    let (channel, sends) ← channel.processClientDriveIOResponse outside chunk stream
    if sends then Emitting.emit (.toServer chunk)
    return channel
  else if channel.clientPacketId = PAKID_CORE_CLIENT_CAPABILITY then do
    let (data, version02) ← Emitting.lift (outside.coreCapabilityResponse chunk.data)
    Emitting.emit (.toServer { chunk with data })
    return { channel with deviceCapabilityVersion02Supported :=
      channel.deviceCapabilityVersion02Supported || version02 }
  else do
    Emitting.emit (.toServer chunk)
    return channel

/-- `process_server_announce_request`. The devices that are known are forgotten. -/
def processServerAnnounceRequest (stream : List Byte) : Emits FileSystemChannel := do
  let manager := { channel.manager with deviceInfoInventory := [] }
  Emitting.lift (checkThrow stream 8 .rdpdrPduTruncated)
  return { channel with manager }

/-- The user is logged on: the drives of the proxy are announced with those of the client. -/
def processServerUserLoggedOn : Emits FileSystemChannel := do
  let manager :=
    if channel.userLoggedOn then channel.manager
    else { channel.manager with
      deviceAnnounces := channel.manager.deviceAnnounces ++
        outside.announceDrive channel.deviceCapabilityVersion02Supported }
  let manager ← Emits.ofManager (manager.announceDevice (params.manager true))
  return { channel with userLoggedOn := true, manager }

/-- The capabilities of the server and the confirmation of the id of the client are passed on in
this order. -/
def processServerClientIdConfirm (chunk : Chunk) : Emits FileSystemChannel := do
  if channel.serverCoreCapabilityRequestReceived then do
    Emitting.emit (.toClient chunk)
    return { channel with
      serverCoreCapabilityRequestReceived := false, serverClientIdConfirmReceived := false }
  else return { channel with
    serverClientIdConfirmReceived := true, savedServerClientIdConfirm := chunk }

def processServerCapability (chunk : Chunk) : Emits FileSystemChannel := do
  Emitting.emit (.toClient chunk)
  if channel.serverClientIdConfirmReceived then
    Emitting.emit (.toClient channel.savedServerClientIdConfirm)
  return { channel with serverCoreCapabilityRequestReceived := true }

/-- `process_server_message`. -/
def processServerMessage (chunk : Chunk) : Emits FileSystemChannel := do
  if chunk.flags ≠ 0 ∧ chunk.flags &&& ~~~(CHANNEL_FLAG_SUSPEND ||| CHANNEL_FLAG_RESUME) = 0 then do
    Emitting.emit (.toClient chunk)
    return channel
  else do
    let (channel, stream) ←
      if chunk.flags &&& CHANNEL_FLAG_FIRST ≠ 0 then do
        let (packetId, stream) ← Emitting.lift (receivePacketId chunk.data)
        pure ({ channel with serverPacketId := packetId }, stream)
      else pure (channel, chunk.data)
    if channel.serverPacketId = PAKID_CORE_SERVER_ANNOUNCE then do
      let channel ← channel.processServerAnnounceRequest stream
      Emitting.emit (.toClient chunk)
      return channel
    else if channel.serverPacketId = PAKID_CORE_CLIENTID_CONFIRM then
      channel.processServerClientIdConfirm chunk
    else if channel.serverPacketId = PAKID_CORE_DEVICE_REPLY then do
      let manager ← Emits.ofManager (channel.manager.processServerDeviceAnnounceResponse
        (params.manager channel.userLoggedOn) stream)
      Emitting.emit (.toClient chunk)
      return { channel with manager }
    else if channel.serverPacketId = PAKID_CORE_DEVICE_IOREQUEST then do
      let (channel, sends) ← channel.processServerDriveIORequest params outside chunk stream
      if sends then Emitting.emit (.toClient chunk)
      return channel
    else if channel.serverPacketId = PAKID_CORE_SERVER_CAPABILITY then
      channel.processServerCapability chunk
    else if channel.serverPacketId = PAKID_CORE_USER_LOGGEDON then do
      let channel ← channel.processServerUserLoggedOn params outside
      Emitting.emit (.toClient chunk)
      return channel
    else do
      Emitting.emit (.toClient chunk)
      return channel

end FileSystemChannel

/-- A message of one side or the other. -/
inductive ChannelInput where
  | client (chunk : Chunk)
  | server (chunk : Chunk)
  deriving DecidableEq, Repr

namespace FileSystemChannel

def process (params : ChannelParams) (outside : Outside) (channel : FileSystemChannel) :
    ChannelInput → Emits FileSystemChannel
  | .client chunk => channel.processClientMessage params outside chunk
  | .server chunk => channel.processServerMessage params outside chunk

/-- The session: a fault ends it, and nothing is said after its end. -/
def session (params : ChannelParams) (outside : Outside) :
    Machine (Option FileSystemChannel) ChannelInput (List Output) where
  step
    | none, _ => (none, [])
    | some channel, input =>
      let emitted := channel.process params outside input
      (emitted.result.toOption, emitted.outputs)

end FileSystemChannel

end Redemption.Rdpdr
