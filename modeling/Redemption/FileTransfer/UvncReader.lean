import Redemption.Foundation.Resumable
import Redemption.Vnc.Encoder
import Redemption.FileTransfer.Packets

/-! `UVNCFileTransferReader`: the messages of the file transfer that a server sends. -/
namespace Redemption.FileTransfer

open Redemption.Foundation Redemption.Vnc

inductive ServerToClientContentType where
  | dirPacket
  | fileHeader
  | filePacket
  | endOfFile
  | abortFileTransfer
  | fileAcceptHeader
  | commandReturn
  | fileChecksums
  | fileTransferAccess
  | fileTransferProtocolVersion
  deriving DecidableEq, Repr

/-- The values of `ServerToClientContentType`. -/
def ServerToClientContentType.ofByte? (contentType : Byte) : Option ServerToClientContentType :=
  match contentType.toNat with
  | 2 => some dirPacket
  | 4 => some fileHeader
  | 5 => some filePacket
  | 6 => some endOfFile
  | 7 => some abortFileTransfer
  | 9 => some fileAcceptHeader
  | 11 => some commandReturn
  | 12 => some fileChecksums
  | 14 => some fileTransferAccess
  | 17 => some fileTransferProtocolVersion
  | _ => none

inductive ResponseDrive where
  | endList
  | file
  | drivesList
  deriving DecidableEq, Repr

def ResponseDrive.ofParam? (contentParam : BitVec 16) : Option ResponseDrive :=
  match contentParam.toNat with
  | 0 => some endList
  | 1 => some file
  | 3 => some drivesList
  | _ => none

inductive FilePacketType where
  | uncompressed
  | compressed
  | skipData
  deriving DecidableEq, Repr

def FilePacketType.ofSize? (sizeOrOther : BitVec 32) : Option FilePacketType :=
  match sizeOrOther.toNat with
  | 0 => some uncompressed
  | 1 => some compressed
  | 2 => some skipData
  | _ => none

/-- `ProtocolError::Type`. -/
inductive ProtocolErrorType where
  | blockSizeTooHigh
  | tooLargeDataLength
  | tooSmallDataLength
  | unknownType
  | unknownSubType
  | invalidFileListSequence
  | unknownFilePacketType
  deriving DecidableEq, Repr

/-- `FileTransferHeader`. -/
structure FileTransferHeader where
  contentType : Byte
  contentParam : BitVec 16
  sizeOrOther : BitVec 32
  dataLen : Nat
  deriving DecidableEq, Repr

/-- `FileInfoPDU`. -/
structure FileInfo where
  attributes : Nat
  creationTime : Nat
  lastAccessTime : Nat
  lastWriteTime : Nat
  fileSizeHigh : Nat
  fileSizeLow : Nat
  fileName : List Byte
  deriving DecidableEq, Repr

/-- The calls of `ReceivePacketCallbacks`, and a byte that begins another message. -/
inductive ReaderEvent where
  | error (type : ProtocolErrorType) (maxOrMinLen : Nat)
  | parsingHeader
  | driveList (drives : List Byte)
  | startListDir (path : List Byte)
  | fileInfo (info : FileInfo)
  | endListDir
  | fileHeader (fileNameWithOptionalDate : List Byte) (sizeOrError : Nat)
  | filePartialPacket (data : List Byte) (type : FilePacketType)
  | endOfFile
  | abortedFile
  | filePartialChecksums (checksums : List Byte) (remaining : Nat)
  | fileAcceptHeader (tmpFileName : List Byte) (accepted : Bool)
  | commandReturn (response : List Byte) (ok : Bool)
  | fileTransferAccess (enabled : Bool)
  | protocolVersion (version : BitVec 16) (supported : Bool)
  | otherMessage (type : Byte)
  deriving DecidableEq, Repr

def maxBlockSizeUvnc16 : Nat := 8192

def maxBlockSizeAuthorized : Nat := 0xffff

/-- `UVNC_FT_DRIVE_LIST_MAX_PACKET_LEN`. -/
def driveListMaxPacketLen : Nat := 26 * 4

/-- `FileInfoPDU::pdu_min_len`: the fields before the name, and two bytes behind it. -/
def fileInfoPduMinLen : Nat := 44 + 2

def fileInfoPduMaxLen : Nat := 44 + maxPathLength + 2

/-- The bound of `file_name_with_optional_date`. -/
def maxFileNameWithDate : Nat := maxPathLength + 17

/-- `FileHeaderWithOptionalDataPDU::pdu_max_len`. -/
def fileHeaderPduMaxLen : Nat := maxFileNameWithDate + 4

/-- The next number of so many bytes, the highest first. -/
def inBe (width : Nat) (stream : List Byte) : Checked Empty (Nat × List Byte) := do
  let (bytes, stream) ← inBytes width stream
  return (Vnc.beValue bytes, stream)

/-- `FileTransferHeader::from_unchecked_read`. -/
def FileTransferHeader.read (stream : List Byte) : Checked Empty FileTransferHeader := do
  let (contentType, stream) ← inUint8 stream
  let (contentParam, stream) ← inLe 2 stream
  let (sizeOrOther, stream) ← inBe 4 stream
  let (dataLen, _) ← inBe 4 stream
  return ⟨contentType, BitVec.ofNat 16 contentParam, BitVec.ofNat 32 sizeOrOther, dataLen⟩

/-- `FileInfoPDU::read`. -/
def FileInfo.read (data : List Byte) : Checked Empty (Option FileInfo) :=
  if data.length < fileInfoPduMinLen then .ok none
  else do
    let (attributes, stream) ← inLe 4 data
    let (creationTime, stream) ← inLe 8 stream
    let (lastAccessTime, stream) ← inLe 8 stream
    let (lastWriteTime, stream) ← inLe 8 stream
    let (fileSizeHigh, stream) ← inLe 4 stream
    let (fileSizeLow, stream) ← inLe 4 stream
    let (_, stream) ← inBytes 8 stream
    let (fileName, stream) ← inBytes (stream.length - 2) stream
    let _ ← inBytes 2 stream
    return some ⟨attributes, creationTime, lastAccessTime, lastWriteTime, fileSizeHigh, fileSizeLow,
      fileName⟩

/-- `DrivesList`: whole items, and no more than there are letters. -/
def drivesList (list : List Byte) : List Byte :=
  let len := min driveListMaxPacketLen list.length
  list.take (len - len % 4)

/-- `UVNCFileTransferReader`; a content type of zero stands for no header. -/
structure UvncReader where
  firstPduSequence : Bool
  contentType : Byte
  contentParam : BitVec 16
  sizeOrOther : BitVec 32
  textLen : Nat
  blockSize : Nat
  deriving DecidableEq, Repr

abbrev ReadPacket := Checked Empty (Call UvncReader Byte ReaderEvent)

namespace UvncReader

/-- The constructor. -/
def make : UvncReader := ⟨false, 0, 0, 0, 0, maxBlockSizeUvnc16⟩

variable (reader : UvncReader) (buf : List Byte)

/-- The `goto`s: the error is told. -/
def fail (type : ProtocolErrorType) (maxOrMinLen : Nat) : ReadPacket :=
  .ok ⟨.stops, [.error type maxOrMinLen], reader, buf⟩

/-- A message has been read. -/
def complete (event : ReaderEvent) : ReadPacket := .ok ⟨.completed, [event], reader, buf⟩

/-- `m_content_type = 0`. -/
def ended : UvncReader := { reader with contentType := 0 }

/-- `CHECK_MAX_LEN`. -/
def checkMaxLen (maxLen : Nat) (next : ReadPacket) : ReadPacket :=
  if maxLen < reader.textLen then reader.fail buf .tooLargeDataLength maxLen else next

/-- `WAIT_PDU`. -/
def waitPdu (len maxLen : Nat) (next : List Byte → List Byte → ReadPacket) : ReadPacket :=
  reader.checkMaxLen buf maxLen <|
    if buf.length < len then .ok ⟨.waits, [], reader, buf⟩
    else do
      let (data, buf) ← inBytes len buf
      next data buf

/-- `consume_partial_data`; `event` is made of what there is, and of what is to come. -/
def consumePartialData (event : List Byte → Nat → ReaderEvent) : ReadPacket := do
  let len := min reader.textLen buf.length
  let (data, buf) ← inBytes len buf
  let reader := { reader with textLen := reader.textLen - len }
  if reader.textLen = 0 then
    return ⟨.completed, [event data reader.textLen], reader.ended, buf⟩
  else return ⟨.waits, [event data reader.textLen], reader, buf⟩

/-- `ServerToClientContentType::DirPacket`. -/
def readDirPacket : ReadPacket :=
  match ResponseDrive.ofParam? reader.contentParam with
  | some .drivesList =>
    reader.waitPdu buf reader.textLen driveListMaxPacketLen fun data buf =>
      reader.ended.complete buf (.driveList (drivesList data))
  | some .file =>
    reader.waitPdu buf reader.textLen fileInfoPduMaxLen fun data buf =>
      if reader.firstPduSequence then do
        match ← FileInfo.read data with
        | some info => reader.ended.complete buf (.fileInfo info)
        | none => reader.ended.fail buf .tooSmallDataLength fileInfoPduMaxLen
      else
        reader.checkMaxLen buf maxPathLength <|
          -- an empty path is an error of the server
          complete { reader.ended with firstPduSequence := decide (data ≠ []) } buf
            (.startListDir data)
  | some .endList =>
    reader.checkMaxLen buf 0 <|
      complete { reader.ended with firstPduSequence := false } buf .endListDir
  | none => reader.fail buf .unknownSubType 0

/-- `ServerToClientContentType::FileHeader`, with four bytes behind the text. `WAIT_PDU` does not
check the bound of the name, which is asserted only. -/
def readFileHeader : ReadPacket :=
  reader.waitPdu buf (reader.textLen + 4) fileHeaderPduMaxLen fun data buf => do
    let (fileName, stream) ← inBytes (data.length - 4) data
    let (fileSizeHigh, _) ← inBe 4 stream
    reader.ended.complete buf
      (.fileHeader fileName (fileSizeHigh * 2 ^ 32 + reader.sizeOrOther.toNat))

/-- `ServerToClientContentType::FilePacket`. -/
def readFilePacket : ReadPacket :=
  reader.checkMaxLen buf reader.blockSize <|
    match FilePacketType.ofSize? reader.sizeOrOther with
    | some type => reader.consumePartialData buf fun data _ => .filePartialPacket data type
    | none => do
      let call ← reader.consumePartialData buf fun _ _ => .error .unknownFilePacketType 0
      return { call with status := .stops }

/-- A message without a text. -/
def readEmpty (event : ReaderEvent) : ReadPacket :=
  reader.checkMaxLen buf 0 <| reader.ended.complete buf event

/-- Whether `m_size_or_other` is no error. -/
def accepted : Bool := reader.sizeOrOther ≠ uvncFtErrorCode32

/-- `ServerToClientContentType::FileTransferProtocolVersion`. -/
def readProtocolVersion : ReadPacket :=
  reader.checkMaxLen buf 0 <|
    let event := ReaderEvent.protocolVersion reader.contentParam (reader.contentParam = 3)
    let reader' := { reader.ended with blockSize := maxBlockSizeUvnc16 }
    if reader.contentParam = 3 ∧ reader.sizeOrOther ≠ 0 then
      if maxBlockSizeAuthorized < reader.sizeOrOther.toNat then
        reader'.fail buf .blockSizeTooHigh 0
      else complete { reader' with blockSize := reader.sizeOrOther.toNat } buf event
    else reader'.complete buf event

/-- The `switch` of `read_packet`. -/
def readContent : ReadPacket :=
  match ServerToClientContentType.ofByte? reader.contentType with
  | some .dirPacket => reader.readDirPacket buf
  | some .fileHeader => reader.readFileHeader buf
  | some .filePacket => reader.readFilePacket buf
  | some .endOfFile => reader.readEmpty buf .endOfFile
  | some .abortFileTransfer => reader.readEmpty buf .abortedFile
  | some .fileAcceptHeader =>
    reader.waitPdu buf reader.textLen (maxPathLength + 52) fun data buf =>
      reader.ended.complete buf (.fileAcceptHeader data reader.accepted)
  | some .fileChecksums =>
    reader.checkMaxLen buf reader.blockSize <|
      reader.consumePartialData buf .filePartialChecksums
  | some .commandReturn =>
    reader.waitPdu buf reader.textLen (maxPathLength * 2 + 1) fun data buf =>
      reader.ended.complete buf (.commandReturn data reader.accepted)
  | some .fileTransferAccess => reader.readEmpty buf (.fileTransferAccess reader.accepted)
  | some .fileTransferProtocolVersion => reader.readProtocolVersion buf
  | none => reader.fail buf .unknownType 0

/-- The state behind a header. -/
def withHeader (header : FileTransferHeader) : UvncReader :=
  { reader with
    contentType := header.contentType
    contentParam := header.contentParam
    sizeOrOther := header.sizeOrOther
    textLen := header.dataLen }

/-- A message that may not come while the files of a directory are listed. -/
def outOfSequence : Bool :=
  reader.firstPduSequence ∧ (reader.contentType ≠ 2 ∨ reader.contentParam = 3)

/-- `read_packet`. -/
def readPacket : ReadPacket :=
  if reader.contentType = 0 then
    if buf.length < fileTransferHeaderLen then .ok ⟨.waits, [], reader, buf⟩
    else do
      let (data, buf) ← inBytes fileTransferHeaderLen buf
      let header ← FileTransferHeader.read data
      let reader := reader.withHeader header
      if reader.outOfSequence then reader.fail buf .invalidFileListSequence 0
      else do
        let call ← reader.readContent buf
        return { call with events := .parsingHeader :: call.events }
  else reader.readContent buf

end UvncReader

/-- What `UpAndRunningCtx` keeps: whether the type of a message of the file transfer has been read. -/
structure FileTransferCtx where
  reader : UvncReader
  inPacket : Bool
  deriving DecidableEq, Repr

namespace FileTransferCtx

/-- The type of the messages of the file transfer. -/
def fileTransferMessage : Byte := 7

/-- `consume_file_transfer_packet`. -/
def consumeFileTransferPacket (reader : UvncReader) (buf : List Byte) :
    Checked Empty (Call FileTransferCtx Byte ReaderEvent) := do
  let call ← reader.readPacket buf
  return ⟨call.status, call.events, ⟨call.state, call.status ≠ .completed⟩, call.rest⟩

/-- `run`, for the messages of the file transfer. -/
def run (ctx : FileTransferCtx) (buf : List Byte) :
    Checked Empty (Call FileTransferCtx Byte ReaderEvent) :=
  if ctx.inPacket then consumeFileTransferPacket ctx.reader buf
  else
    match buf with
    | [] => .ok ⟨.waits, [], ctx, []⟩
    | type :: buf =>
      if type = fileTransferMessage then consumeFileTransferPacket ctx.reader buf
      else .ok ⟨.stops, [.otherMessage type], ctx, buf⟩

/-- The loop over `run`: a message that has been begun may end without more data. -/
def stream : Resumable FileTransferCtx Byte ReaderEvent (Fault Empty) where
  call := run
  weight := fun ctx => if ctx.inPacket then 1 else 0

end FileTransferCtx

end Redemption.FileTransfer
