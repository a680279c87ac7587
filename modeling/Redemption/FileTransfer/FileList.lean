import Redemption.FileTransfer.Packets

/-! `VncFileList`: the transfer of a file of the VNC server to the RDP client. -/
namespace Redemption.FileTransfer

open Redemption.Foundation

inductive TransferStatus where
  | nothing
  | waitAcceptAndContinue
  | waitAcceptAndReject
  | transferInProgress
  | waitAbortResponse
  | finished
  deriving DecidableEq, Repr

abbrev CbLindex := BitVec 32

abbrev CbStreamId := BitVec 32

/-- `D::INVALID_LINDEX`. -/
def invalidLindex : CbLindex := BitVec.allOnes 32

/-- `CbFileContentsType::Size`; every other value asks for a range. -/
def fileContentsSize : BitVec 32 := 1

inductive CbMsgFlags where
  | responseOk
  | responseFail
  deriving DecidableEq, Repr

/-- A response to the RDP client: the size of a file, or a range of it. -/
inductive RdpPdu where
  | fileSize (flags : CbMsgFlags) (streamId : CbStreamId) (size : Nat)
  | fileRange (flags : CbMsgFlags) (streamId : CbStreamId) (data : List Byte)
  deriving DecidableEq, Repr

def RdpPdu.streamId : RdpPdu → CbStreamId
  | fileSize _ streamId _ => streamId
  | fileRange _ streamId _ => streamId

structure FileContentsRequest where
  streamId : CbStreamId
  lindex : CbLindex
  dwFlags : BitVec 32
  position : BitVec 64
  cbRequested : BitVec 32
  deriving DecidableEq, Repr

/-- `VncFileList::File`; `push_file_in_current_dir` takes no longer names. -/
structure File where
  name : List Byte
  fileSize : Nat
  isDir : Bool
  short : name.length ≤ maxPathLength

/-- `FileListWithoutArray::max_items`. -/
def maxItems : Nat := 7255012

/-- `m_internal_files`; `push_file_in_current_dir` takes no more of them. -/
structure Files where
  items : List File
  few : items.length ≤ maxItems

/-- What a result is logged as; `Nothing` is left out. -/
inductive ResponseType where
  | invalidLindex
  | rdpResponseUnsequenced
  | rdpResponseFailure
  | rdpResponseSize
  | rdpResponseData
  | vncRequestFile
  | vncConfirmFile
  | vncAbortFile
  deriving DecidableEq, Repr

/-- `TransferResult`: what is sent to the RDP client and to the VNC server. -/
structure TransferResult where
  rdpData : List RdpPdu
  vncData : List FtPacket
  responseTypes : List ResponseType
  deriving DecidableEq, Repr

namespace TransferResult

def empty : TransferResult := ⟨[], [], []⟩

end TransferResult

inductive FileListError where
  | assertFailed
  deriving DecidableEq, Repr

/-- `assert`. -/
def assertThat (condition : Prop) [Decidable condition] : Checked FileListError Unit :=
  if condition then .ok () else .error (.raised .assertFailed)

/-- `VncFileList`, with what its transfer functions use. `received` is what stands behind
`rdp_file_data_offset` in `m_transfer_buffer`, and `dataOffset` how much of it has been consumed. -/
structure FileList where
  status : TransferStatus
  continuationLindex : CbLindex
  lindex : CbLindex
  streamId : CbStreamId
  requested : BitVec 32
  position : BitVec 64
  lindexFileSize : Nat
  received : List Byte
  dataOffset : Nat
  files : Files

/-- `D::vnc_pdus_stream_size`: a request, and one of the packets without a text. -/
def vncPdusStreamSize : Nat := fileRequestPduMaxLen + headerPacketSize

/-- `D::rdp_pdus_stream_size`: two headers, a range without its data, and a size. -/
def rdpPdusStreamSize : Nat := 2 * 8 + 4 + 12

def rdpFileDataOffset : Nat := vncPdusStreamSize + rdpPdusStreamSize

def vncStream : PacketStream := ⟨vncPdusStreamSize, []⟩

namespace FileList

/-- The constructor; the files have been pushed. -/
def make (files : Files) : FileList where
  status := .nothing
  continuationLindex := invalidLindex
  lindex := invalidLindex
  streamId := 0
  requested := 0
  position := 0
  lindexFileSize := 0
  received := []
  dataOffset := 0
  files := files

variable (list : FileList)

/-- The file that can be asked for under an index. -/
def file? (lindex : CbLindex) : Option File :=
  match list.files.items[lindex.toNat]? with
  | none => none
  | some file => if file.isDir then none else some file

/-- `has_sufficient_data`. -/
def hasSufficientData : Checked FileListError Bool := do
  assertThat (list.dataOffset ≤ list.received.length)
  return decide (list.requested.toNat ≤ list.received.length - list.dataOffset)

/-- `write_rdp_response_range_and_consume_data`. -/
def writeRdpResponseRangeAndConsumeData : Checked FileListError (FileList × RdpPdu) := do
  assertThat (list.dataOffset ≤ list.received.length)
  let dataLen := min (list.received.length - list.dataOffset) list.requested.toNat
  let data := (list.received.drop list.dataOffset).take dataLen
  return ({ list with dataOffset := list.dataOffset + dataLen },
    .fileRange .responseOk list.streamId data)

/-- `write_rdp_response_data`. -/
def writeRdpResponseData : Checked FileListError (FileList × TransferResult) := do
  let (list, pdu) ← list.writeRdpResponseRangeAndConsumeData
  return (list, ⟨[pdu], [], [.rdpResponseData]⟩)

/-- `write_vnc_file_request`: ask for the file that is requested, if there is one. -/
def writeVncFileRequest (stream : PacketStream) :
    Checked FileListError (Option PacketStream) :=
  if list.lindex = invalidLindex then .ok none
  else
    match list.files.items[list.lindex.toNat]? with
    | none => .error .outOfBounds
    | some file =>
      match stream.writeUncompressedFileRequest file.name with
      | none => .error (.raised .assertFailed)
      | some stream => .ok (some stream)

/-- `set_rdp_response_fail`. -/
def setRdpResponseFail : Checked FileListError (FileList × RdpPdu) := do
  assertThat (list.lindex ≠ invalidLindex)
  assertThat (list.continuationLindex ≠ invalidLindex)
  return ({ list with lindex := invalidLindex, continuationLindex := invalidLindex },
    .fileRange .responseFail list.streamId [])

/-- What `rdp_requested_file` does first: a request before the response to the previous one. -/
def previousRequest (req : FileContentsRequest) : FileList × TransferResult :=
  if list.lindex = invalidLindex then (list, .empty)
  else
    let list' := { list with lindex := invalidLindex, continuationLindex := invalidLindex }
    let rdpData := if list.streamId = req.streamId then []
      else [RdpPdu.fileRange .responseFail list.streamId []]
    let types := if list.streamId = req.streamId then [] else [ResponseType.rdpResponseFailure]
    match list.status with
    -- there is no `break` behind the first three
    | .nothing | .waitAcceptAndReject | .waitAbortResponse | .transferInProgress =>
      ({ list' with status := .waitAbortResponse }, ⟨rdpData, [abortFileTransferPdu], types⟩)
    | .waitAcceptAndContinue => ({ list' with status := .waitAcceptAndReject }, ⟨rdpData, [], types⟩)
    | .finished => ({ list' with status := .nothing }, ⟨rdpData, [], types⟩)

/-- A response without data to a request. -/
def respond (req : FileContentsRequest) (flags : CbMsgFlags) (size : Nat) (type : ResponseType) :
    TransferResult :=
  let pdu := if req.dwFlags = fileContentsSize then RdpPdu.fileSize flags req.streamId size
    else .fileRange flags req.streamId []
  ⟨[pdu], [], [type]⟩

/-- The request of a new file, or of the same from its start. -/
def requestNewFile (req : FileContentsRequest) (file : File) :
    Checked FileListError (FileList × TransferResult) :=
  let list := { list with continuationLindex := invalidLindex }
  if req.position ≠ 0 then .ok (list, respond req .responseFail 0 .rdpResponseUnsequenced)
  else if file.fileSize = 0 then .ok (list, respond req .responseOk 0 .rdpResponseData)
  else
    let list := { list with
      lindex := req.lindex
      streamId := req.streamId
      requested := req.cbRequested
      position := req.position
      continuationLindex := req.lindex
      lindexFileSize := file.fileSize
      received := []
      dataOffset := 0 }
    match list.status with
    | .nothing =>
      match vncStream.writeUncompressedFileRequest file.name with
      | none => .error (.raised .assertFailed)
      | some stream =>
        .ok ({ list with status := .waitAcceptAndContinue },
          ⟨[], stream.packets, [.vncRequestFile]⟩)
    | .waitAcceptAndReject | .waitAbortResponse => .ok (list, .empty)
    | .waitAcceptAndContinue | .transferInProgress | .finished =>
      .error (.raised .assertFailed)

/-- The request of the range that follows the last one. -/
def requestContinuation (req : FileContentsRequest) :
    Checked FileListError (FileList × TransferResult) := do
  assertThat (list.continuationLindex = req.lindex)
  if req.position ≠ list.position + list.requested.setWidth 64 then
    return ({ list with lindex := invalidLindex, continuationLindex := invalidLindex },
      respond req .responseFail 0 .rdpResponseUnsequenced)
  else
    let list := { list with
      streamId := req.streamId
      requested := req.cbRequested
      position := req.position }
    match list.status with
    | .transferInProgress =>
      let sufficient ← list.hasSufficientData
      if sufficient then list.writeRdpResponseData
      else return (list, .empty)
    | .waitAbortResponse | .finished | .nothing =>
      writeRdpResponseData { list with
        status := .nothing
        lindex := invalidLindex
        continuationLindex := invalidLindex }
    | .waitAcceptAndReject | .waitAcceptAndContinue => .error (.raised .assertFailed)

/-- What `rdp_requested_file` does behind that. -/
def manageRequest (req : FileContentsRequest) :
    Checked FileListError (FileList × TransferResult) :=
  match list.file? req.lindex with
  | none => .ok (list, respond req .responseFail 0 .invalidLindex)
  | some file =>
    if req.dwFlags = fileContentsSize then
      .ok (list, respond req .responseOk file.fileSize .rdpResponseSize)
    else if list.continuationLindex ≠ req.lindex ∨ req.position = 0 then
      list.requestNewFile req file
    else list.requestContinuation req

/-- A request that is answered with nothing yet, but with a transfer. -/
def startsFile (req : FileContentsRequest) : Bool :=
  match list.file? req.lindex with
  | none => false
  | some file => req.dwFlags ≠ fileContentsSize ∧ req.position = 0 ∧ file.fileSize ≠ 0

/-- `rdp_requested_file`. -/
def rdpRequestedFile (req : FileContentsRequest) :
    Checked FileListError (FileList × TransferResult) := do
  let (list, first) := list.previousRequest req
  let (list, second) ← list.manageRequest req
  return (list, ⟨first.rdpData ++ second.rdpData, first.vncData ++ second.vncData,
    first.responseTypes ++ second.responseTypes⟩)

/-- `receive_vnc_file_request_response`. -/
def receiveVncFileRequestResponse (ok : Bool) :
    Checked FileListError (FileList × TransferResult) :=
  match list.status with
  | .waitAcceptAndReject => do
    let stream := vncStream.copy confirmRequestedFileFailure
    match ← list.writeVncFileRequest stream with
    | some stream =>
      return ({ list with status := .waitAcceptAndContinue },
        ⟨[], stream.packets, [.vncAbortFile, .vncRequestFile]⟩)
    | none => return ({ list with status := .nothing }, ⟨[], stream.packets, [.vncAbortFile]⟩)
  | .waitAcceptAndContinue =>
    if ok then .ok ({ list with status := .transferInProgress },
      ⟨[], [confirmRequestedFileOk], [.vncConfirmFile]⟩)
    else do
      let (list, pdu) ← list.setRdpResponseFail
      return ({ list with status := .nothing }, ⟨[pdu], [], [.rdpResponseFailure]⟩)
  | .finished => .error (.raised .assertFailed)
  | .nothing | .waitAbortResponse | .transferInProgress => .ok (list, .empty)

/-- More data than the file has: what is left of it is sent, and the transfer aborted. -/
def receiveLastData (data : List Byte) : Checked FileListError (FileList × TransferResult) := do
  let remaining := list.lindexFileSize - list.received.length
  let (list, result) ← writeRdpResponseData { list with
    received := list.received ++ data.take remaining
    lindex := invalidLindex
    status := .waitAbortResponse }
  return (list, ⟨result.rdpData, [abortFileTransferPdu], result.responseTypes ++ [.vncAbortFile]⟩)

/-- Data of the file: sent when there is enough of it. -/
def receiveMoreData (data : List Byte) : Checked FileListError (FileList × TransferResult) := do
  let list := { list with received := list.received ++ data }
  let sufficient ← list.hasSufficientData
  if sufficient then writeRdpResponseData { list with lindex := invalidLindex, status := .nothing }
  else return (list, .empty)

/-- `receive_vnc_file_data`. -/
def receiveVncFileData (data : List Byte) : Checked FileListError (FileList × TransferResult) :=
  match list.status with
  | .transferInProgress =>
    if list.lindexFileSize < list.received.length + data.length then list.receiveLastData data
    else list.receiveMoreData data
  | .finished => .error (.raised .assertFailed)
  | .nothing | .waitAbortResponse | .waitAcceptAndReject | .waitAcceptAndContinue =>
    .ok (list, .empty)

/-- The answer to an abort: the file that has been requested since is asked for. -/
def abortAnswered : Checked FileListError (FileList × TransferResult) := do
  let list := { list with status := .nothing }
  match ← list.writeVncFileRequest ⟨rdpFileDataOffset + list.received.length, []⟩ with
  | some stream =>
    return ({ list with status := .waitAcceptAndContinue },
      ⟨[], stream.packets, [.vncRequestFile]⟩)
  | none => return (list, .empty)

/-- The end of a file: what there is of it is sent. -/
def endTransfer : Checked FileListError (FileList × TransferResult) := do
  assertThat (list.lindex ≠ invalidLindex)
  let (list, result) ← list.writeRdpResponseData
  let status := if list.dataOffset = list.received.length then TransferStatus.nothing else .finished
  return ({ list with lindex := invalidLindex, status }, result)

/-- `receive_vnc_end_of_file`. -/
def receiveVncEndOfFile : Checked FileListError (FileList × TransferResult) :=
  match list.status with
  | .transferInProgress => list.endTransfer
  | .waitAbortResponse => list.abortAnswered
  | .finished | .waitAcceptAndReject | .waitAcceptAndContinue => .error (.raised .assertFailed)
  | .nothing => .ok (list, .empty)

/-- `receive_vnc_file_abort`. -/
def receiveVncFileAbort : Checked FileListError (FileList × TransferResult) :=
  match list.status with
  | .waitAbortResponse => list.receiveVncEndOfFile
  | .finished | .waitAcceptAndReject | .waitAcceptAndContinue => .error (.raised .assertFailed)
  | .transferInProgress => do
    let (list, pdu) ← setRdpResponseFail { list with status := .nothing }
    return (list, ⟨[pdu], [], [.rdpResponseFailure]⟩)
  | .nothing => .ok (list, .empty)

/-- `stop_file_transfer`, from a status on in which a request waits for its response. -/
def stopWith (status : TransferStatus) (vncData : List FtPacket) (types : List ResponseType) :
    Checked FileListError (FileList × TransferResult) := do
  let list := { list with status }
  assertThat (list.lindex ≠ invalidLindex)
  let (list, pdu) ← list.setRdpResponseFail
  return (list, ⟨[pdu], vncData, .rdpResponseFailure :: types⟩)

/-- `stop_file_transfer`. -/
def stopFileTransfer : Checked FileListError (FileList × TransferResult) :=
  match list.status with
  | .transferInProgress =>
    list.stopWith .waitAbortResponse [abortFileTransferPdu] [.vncAbortFile]
  | .waitAcceptAndContinue => list.stopWith .waitAcceptAndReject [] []
  | .finished => list.stopWith .nothing [] []
  | .nothing | .waitAbortResponse | .waitAcceptAndReject => .ok (list, .empty)

end FileList

end Redemption.FileTransfer
