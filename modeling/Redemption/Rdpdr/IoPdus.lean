import Redemption.Rdpdr.DeviceManager
import Redemption.Utf.Legacy

/-! The PDUs of drive I/O, as the channel reads and writes them. -/
namespace Redemption.Rdpdr

open Redemption.Foundation Redemption.Channels

def PAKID_CORE_SERVER_ANNOUNCE : BitVec 16 := 0x496E
def PAKID_CORE_CLIENTID_CONFIRM : BitVec 16 := 0x4343
def PAKID_CORE_CLIENT_NAME : BitVec 16 := 0x434E
def PAKID_CORE_DEVICE_IOREQUEST : BitVec 16 := 0x4952
def PAKID_CORE_DEVICE_IOCOMPLETION : BitVec 16 := 0x4943
def PAKID_CORE_SERVER_CAPABILITY : BitVec 16 := 0x5350
def PAKID_CORE_CLIENT_CAPABILITY : BitVec 16 := 0x4350
def PAKID_CORE_USER_LOGGEDON : BitVec 16 := 0x554C

def IRP_MJ_CREATE : BitVec 32 := 0x00000000
def IRP_MJ_CLOSE : BitVec 32 := 0x00000002
def IRP_MJ_READ : BitVec 32 := 0x00000003
def IRP_MJ_WRITE : BitVec 32 := 0x00000004
def IRP_MJ_QUERY_INFORMATION : BitVec 32 := 0x00000005
def IRP_MJ_SET_INFORMATION : BitVec 32 := 0x00000006
def IRP_MJ_QUERY_VOLUME_INFORMATION : BitVec 32 := 0x0000000A
def IRP_MJ_DIRECTORY_CONTROL : BitVec 32 := 0x0000000C
def IRP_MJ_DEVICE_CONTROL : BitVec 32 := 0x0000000E

def IRP_MN_QUERY_DIRECTORY : BitVec 32 := 0x00000001

def STATUS_ACCESS_DENIED : BitVec 32 := 0xC0000022

/-- `FsInformationClass` of files. -/
def FileBasicInformation : BitVec 32 := 0x00000004
def FileStandardInformation : BitVec 32 := 0x00000005
def FileEndOfFileInformation : BitVec 32 := 0x00000014
def FileDispositionInformation : BitVec 32 := 0x0000000D
def FileRenameInformation : BitVec 32 := 0x0000000A

/-- `FsInformationClass` of volumes. -/
def FileFsVolumeInformation : BitVec 32 := 0x00000001
def FileFsAttributeInformation : BitVec 32 := 0x00000005

/-- `FsInformationClass` of directories. -/
def FileFullDirectoryInformation : BitVec 32 := 0x00000002
def FileBothDirectoryInformation : BitVec 32 := 0x00000003
def FileNamesInformation : BitVec 32 := 0x0000000C

namespace Smb2

def FILE_SUPERSEDE : BitVec 32 := 0x00000000
def FILE_OPEN : BitVec 32 := 0x00000001
def FILE_CREATE : BitVec 32 := 0x00000002
def FILE_OPEN_IF : BitVec 32 := 0x00000003
def FILE_OVERWRITE : BitVec 32 := 0x00000004
def FILE_OVERWRITE_IF : BitVec 32 := 0x00000005

def FILE_DIRECTORY_FILE : BitVec 32 := 0x00000001

def FILE_READ_DATA : BitVec 32 := 0x00000001
def FILE_WRITE_DATA : BitVec 32 := 0x00000002
def FILE_APPEND_DATA : BitVec 32 := 0x00000004
def FILE_EXECUTE : BitVec 32 := 0x00000020
def FILE_DELETE_CHILD : BitVec 32 := 0x00000040
def DELETE : BitVec 32 := 0x00010000
def GENERIC_ALL : BitVec 32 := 0x10000000
def GENERIC_EXECUTE : BitVec 32 := 0x20000000
def GENERIC_WRITE : BitVec 32 := 0x40000000
def GENERIC_READ : BitVec 32 := 0x80000000

/-- `read_access_is_required` without the strict check. -/
def readAccessIsRequired (desiredAccess : BitVec 32) : Prop :=
  desiredAccess &&& (FILE_READ_DATA ||| FILE_EXECUTE ||| GENERIC_ALL ||| GENERIC_EXECUTE |||
    GENERIC_READ) ≠ 0

/-- `write_access_is_required` without the strict check. -/
def writeAccessIsRequired (desiredAccess : BitVec 32) : Prop :=
  desiredAccess &&& (FILE_WRITE_DATA ||| FILE_APPEND_DATA ||| FILE_DELETE_CHILD ||| DELETE |||
    GENERIC_ALL ||| GENERIC_WRITE) ≠ 0

instance : DecidablePred readAccessIsRequired := fun _ => inferInstanceAs (Decidable (_ ≠ _))

instance : DecidablePred writeAccessIsRequired := fun _ => inferInstanceAs (Decidable (_ ≠ _))

end Smb2

/-- What a converter writes; it does not check that the units are in the source. -/
def converted {α : Type} : Utf.Legacy.Converting α → Checked ErrorId α
  | .ok target => .ok target
  | .error _ => .error .outOfBounds

/-- Paths are written the unix way. -/
def normalizePath (path : List Byte) : List Byte :=
  path.map fun char => if char = 0x5C then 0x2F else char

/-- `SharedHeader::receive`: the id of the packet; nothing is made of the component. -/
def receivePacketId (stream : List Byte) : Checked ErrorId (BitVec 16 × List Byte) := do
  checkThrow stream 4 .rdpdrPduTruncated
  let (_, stream) ← inLe 2 stream
  let (packetId, stream) ← inLe 2 stream
  return (BitVec.ofNat 16 packetId, stream)

structure DeviceIORequest where
  deviceId : BitVec 32
  fileId : BitVec 32
  completionId : BitVec 32
  majorFunction : BitVec 32
  minorFunction : BitVec 32
  deriving DecidableEq, Repr

namespace DeviceIORequest

def initial : DeviceIORequest := ⟨0, 0, 0, 0, 0⟩

def receive (stream : List Byte) : Checked ErrorId (DeviceIORequest × List Byte) := do
  checkThrow stream 20 .rdpdrPduTruncated
  let (deviceId, stream) ← inUint32 stream
  let (fileId, stream) ← inUint32 stream
  let (completionId, stream) ← inUint32 stream
  let (majorFunction, stream) ← inUint32 stream
  let (minorFunction, stream) ← inUint32 stream
  return (⟨deviceId, fileId, completionId, majorFunction, minorFunction⟩, stream)

/-- `emit`. -/
def bytes (request : DeviceIORequest) : List Byte :=
  uint32 request.deviceId ++ uint32 request.fileId ++ uint32 request.completionId ++
    uint32 request.majorFunction ++ uint32 request.minorFunction

end DeviceIORequest

structure DeviceIOResponse where
  deviceId : BitVec 32
  completionId : BitVec 32
  ioStatus : BitVec 32
  deriving DecidableEq, Repr

namespace DeviceIOResponse

def initial : DeviceIOResponse := ⟨0, 0, STATUS_SUCCESS⟩

def receive (stream : List Byte) : Checked ErrorId (DeviceIOResponse × List Byte) := do
  checkThrow stream 12 .rdpdrPduTruncated
  let (deviceId, stream) ← inUint32 stream
  let (completionId, stream) ← inUint32 stream
  let (ioStatus, stream) ← inUint32 stream
  return (⟨deviceId, completionId, ioStatus⟩, stream)

/-- `emit`. -/
def bytes (response : DeviceIOResponse) : List Byte :=
  uint32 response.deviceId ++ uint32 response.completionId ++ uint32 response.ioStatus

end DeviceIOResponse

/-- `DeviceCreateRequest`, with what is read of it. -/
structure DeviceCreateRequest where
  desiredAccess : BitVec 32
  createDisposition : BitVec 32
  createOptions : BitVec 32
  path : List Byte
  deriving DecidableEq, Repr

/-- The path is converted as if its length in bytes were one in code units, and the last byte is
taken for the null character. -/
def DeviceCreateRequest.receive (stream : List Byte) : Checked ErrorId DeviceCreateRequest := do
  checkThrow stream 32 .rdpdrPduTruncated
  let (desiredAccess, stream) ← inUint32 stream
  let (_, stream) ← inLe 8 stream
  let (_, stream) ← inUint32 stream
  let (_, stream) ← inUint32 stream
  let (createDisposition, stream) ← inUint32 stream
  let (createOptions, stream) ← inUint32 stream
  let (pathLength, stream) ← inUint32 stream
  if pathLength ≠ 0 then do
    checkThrow stream pathLength.toNat .rdpdrPduTruncated
    let path ← converted (Utf.Legacy.utf16ToUtf8 stream pathLength.toNat 65536)
    return ⟨desiredAccess, createDisposition, createOptions, normalizePath path.dropLast⟩
  else return ⟨desiredAccess, createDisposition, createOptions, []⟩

/-- `DeviceCreateResponse::receive`: the id of the file. -/
def receiveCreateResponse (ioStatus : BitVec 32) (stream : List Byte) :
    Checked ErrorId (BitVec 32) := do
  checkThrow stream (4 + if ioStatus ≠ STATUS_SUCCESS then 1 else 0) .rdpdrPduTruncated
  let (fileId, _) ← inUint32 stream
  return fileId

/-- `ServerDriveQueryInformationRequest` and `ServerDriveQueryVolumeInformationRequest`: the class
of information. -/
def receiveQueryRequest (stream : List Byte) : Checked ErrorId (BitVec 32) := do
  checkThrow stream 32 .rdpdrPduTruncated
  let (fsInformationClass, stream) ← inUint32 stream
  let (length, stream) ← inUint32 stream
  let (_, stream) ← inBytes 24 stream
  checkThrow stream length.toNat .rdpdrPduTruncated
  return fsInformationClass

/-- `ServerDriveQueryDirectoryRequest`: the class of information. -/
def receiveQueryDirectoryRequest (stream : List Byte) : Checked ErrorId (BitVec 32) := do
  checkThrow stream 32 .rdpdrPduTruncated
  let (fsInformationClass, stream) ← inUint32 stream
  let (_, stream) ← inLe 1 stream
  let (pathLength, stream) ← inUint32 stream
  let (_, stream) ← inBytes 23 stream
  if pathLength ≠ 0 then checkThrow stream pathLength.toNat .rdpdrPduTruncated
  return fsInformationClass

/-- `ServerDriveSetInformationRequest`: the class of information, and what is behind. -/
def receiveSetInformationRequest (stream : List Byte) :
    Checked ErrorId (BitVec 32 × List Byte) := do
  checkThrow stream 32 .rdpdrPduTruncated
  let (fsInformationClass, stream) ← inUint32 stream
  let (_, stream) ← inUint32 stream
  let (_, stream) ← inBytes 24 stream
  return (fsInformationClass, stream)

/-- The length and the offset of a read request. -/
def receiveReadRequest (stream : List Byte) : Checked ErrorId (BitVec 32 × BitVec 64) := do
  checkThrow stream 12 .rdpdrPduTruncated
  let (length, stream) ← inUint32 stream
  let (offset, _) ← inLe 8 stream
  return (length, BitVec.ofNat 64 offset)

/-- The length and the offset of a write request, and its data. -/
def receiveWriteRequest (stream : List Byte) :
    Checked ErrorId (BitVec 32 × BitVec 64 × List Byte) := do
  checkThrow stream 32 .rdpdrPduTruncated
  let (length, stream) ← inUint32 stream
  let (offset, stream) ← inLe 8 stream
  let (_, stream) ← inBytes 20 stream
  return (length, BitVec.ofNat 64 offset, stream)

/-- The end that is set for a file. -/
def receiveEndOfFile (stream : List Byte) : Checked ErrorId (BitVec 64) := do
  checkThrow stream 8 .rdpdrPduTruncated
  let (endOfFile, _) ← inLe 8 stream
  return BitVec.ofNat 64 endOfFile

/-- `RDPFileRenameInformation::receive`: the new name, in a buffer of 500 bytes. The null character
behind it may be written behind the buffer, and where there is no name the buffer is not written. -/
def receiveRenameInformation (stream : List Byte) : Checked ErrorId (List Byte) := do
  checkThrow stream 6 .rdpdrPduTruncated
  let (_, stream) ← inLe 1 stream
  let (_, stream) ← inLe 1 stream
  let (fileNameLength, stream) ← inUint32 stream
  if fileNameLength ≠ 0 then do
    checkThrow stream fileNameLength.toNat .rdpdrPduTruncated
    let fileName ← converted (Utf.Legacy.utf16ToUtf8 stream (fileNameLength.toNat / 2) 500)
    if fileName.length < 500 then return (normalizePath fileName).takeWhile (· ≠ 0)
    else .error .outOfBounds
  else .error .outOfBounds

/-- The length of what is answered. -/
def receiveLength (stream : List Byte) : Checked ErrorId (BitVec 32 × List Byte) := do
  checkThrow stream 4 .rdpDataTruncated
  inUint32 stream

/-- `FileStandardInformation::receive`: the end of the file. -/
def receiveStandardInformation (stream : List Byte) : Checked ErrorId (BitVec 64) := do
  checkThrow stream 22 .fsccDataTruncated
  let (_, stream) ← inLe 8 stream
  let (endOfFile, _) ← inLe 8 stream
  return BitVec.ofNat 64 endOfFile

/-- `FileNamesInformation::receive`. -/
def receiveNamesInformation (stream : List Byte) : Checked ErrorId Unit := do
  checkThrow stream 12 .fsccDataTruncated
  let (_, stream) ← inUint32 stream
  let (_, stream) ← inUint32 stream
  let (fileNameLength, stream) ← inUint32 stream
  checkThrow stream fileNameLength.toNat .fsccDataTruncated
  if fileNameLength.toNat > 65536 then .error (.raised .rdpInternal) else return ()

end Redemption.Rdpdr
