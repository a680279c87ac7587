import Redemption.FileTransfer.FileListSpec

/-! What each message of the server, and a stop, does to the transfer. -/
namespace Redemption.FileTransfer

open Redemption.Foundation

namespace FileList

variable {list : FileList}

/-- What a call leaves: the status, the packets it sends, and each request that waited is answered
or still waits. -/
structure Leaves (list : FileList)
    (called : Checked FileListError (FileList × TransferResult)) (status : TransferStatus)
    (packets : List FtPacket) (list' : FileList) (result : TransferResult) : Prop where
  called : called = .ok (list', result)
  inv : list'.Inv
  status : list'.status = status
  packets : result.vncData = packets
  answers : answered result ++ list'.waiting = list.waiting

/-- `Leaves`, for some list and result. -/
def LeadsTo (list : FileList) (called : Checked FileListError (FileList × TransferResult))
    (status : TransferStatus) (packets : List FtPacket) : Prop :=
  ∃ list' result, Leaves list called status packets list' result

theorem gives_up (inv : list.Inv) (pending : list.lindex ≠ invalidLindex)
    {status : TransferStatus} (allowed : status = .nothing ∨ status = .waitAcceptAndReject ∨
      status = .waitAbortResponse) (packets : List FtPacket) (types : List ResponseType) :
    Leaves list (.ok (list.dropped status,
      ⟨[.fileRange .responseFail list.streamId []], packets, types⟩)) status packets
      (list.dropped status) ⟨[.fileRange .responseFail list.streamId []], packets, types⟩ where
  called := rfl
  inv := by
    refine @Inv.of_free (list.dropped status) inv.consumed rfl ?_
    rcases allowed with idle | rejects | aborts
    · exact .inl idle
    · exact .inr (.inl ⟨rejects, rfl⟩)
    · exact .inr (.inr aborts)
  status := rfl
  packets := rfl
  answers := (waiting_pending pending).symm

theorem stopWith_leads (inv : list.Inv) (pending : list.lindex ≠ invalidLindex)
    {status : TransferStatus} (allowed : status = .nothing ∨ status = .waitAcceptAndReject ∨
      status = .waitAbortResponse) (packets : List FtPacket) (types : List ResponseType) :
    LeadsTo list (list.stopWith status packets types) status packets := by
  have called : list.stopWith status packets types = .ok (list.dropped status,
      ⟨[.fileRange .responseFail list.streamId []], packets, .rdpResponseFailure :: types⟩) := by
    have failed := @setRdpResponseFail_ok { list with status } pending (inv.continues pending)
    simp only [stopWith, assertThat, ne_eq, pending, not_false_eq_true, if_true, ok_bind, failed,
      pure_ok]
    rfl
  rw [called]
  exact ⟨_, _, gives_up inv pending allowed packets (.rdpResponseFailure :: types)⟩

theorem stopFileTransfer_leads (inv : list.Inv) :
    match list.status with
    | .waitAcceptAndContinue => LeadsTo list list.stopFileTransfer .waitAcceptAndReject []
    | .transferInProgress =>
      LeadsTo list list.stopFileTransfer .waitAbortResponse [abortFileTransferPdu]
    | _ => list.stopFileTransfer = .ok (list, .empty) := by
  unfold stopFileTransfer
  cases status : list.status with
  | nothing => rfl
  | waitAcceptAndReject => rfl
  | waitAbortResponse => rfl
  | finished => exact absurd status inv.unfinished
  | waitAcceptAndContinue =>
    exact stopWith_leads inv (inv.busy (.inl status)) (.inr (.inl rfl)) _ _
  | transferInProgress =>
    exact stopWith_leads inv (inv.busy (.inr status)) (.inr (.inr rfl)) _ _

section Responses

theorem accepted_leads (inv : list.Inv) (accepts : list.status = .waitAcceptAndContinue) :
    LeadsTo list (list.receiveVncFileRequestResponse true) .transferInProgress
      [confirmRequestedFileOk] := by
  have pending := inv.busy (.inl accepts)
  unfold receiveVncFileRequestResponse
  simp only [accepts, if_true]
  refine ⟨_, _, rfl, ?_, rfl, rfl, rfl⟩
  constructor
  · exact inv.consumed
  · exact inv.continues
  · exact inv.known
  · intro waits
    obtain ⟨start, none | ⟨transfers, _⟩⟩ := inv.waits waits
    · exact ⟨start, .inl none⟩
    · rw [accepts] at transfers
      cases transfers
  · exact TransferStatus.noConfusion
  · exact fun _ => pending
  · exact TransferStatus.noConfusion
  · exact TransferStatus.noConfusion

/-- The server does not send the file: the request is answered with a failure. -/
theorem refused_leads (inv : list.Inv) (accepts : list.status = .waitAcceptAndContinue) :
    LeadsTo list (list.receiveVncFileRequestResponse false) .nothing [] := by
  have pending := inv.busy (.inl accepts)
  have called : list.receiveVncFileRequestResponse false = .ok (list.dropped .nothing,
      ⟨[.fileRange .responseFail list.streamId []], [], [.rdpResponseFailure]⟩) := by
    unfold receiveVncFileRequestResponse
    simp only [accepts, setRdpResponseFail_ok pending (inv.continues pending), ok_bind, pure_ok,
      Bool.false_eq_true, if_false]
    rfl
  rw [called]
  exact ⟨_, _, gives_up inv pending (.inl rfl) [] _⟩

theorem rejected_leads (inv : list.Inv) (rejects : list.status = .waitAcceptAndReject)
    (free : list.lindex = invalidLindex) (ok : Bool) :
    LeadsTo list (list.receiveVncFileRequestResponse ok) .nothing [confirmRequestedFileFailure] := by
  unfold receiveVncFileRequestResponse
  simp only [rejects, writeVncFileRequest, free, if_true, ok_bind]
  refine ⟨_, _, rfl, ?_, rfl, rfl, (waiting_free free).symm⟩
  exact Inv.of_free inv.consumed rfl (.inl rfl)

theorem Inv.asked (inv : list.Inv) (pending : list.lindex ≠ invalidLindex)
    (waits : list.status ≠ .transferInProgress) :
    Inv { list with status := .waitAcceptAndContinue } where
  consumed := inv.consumed
  continues := inv.continues
  known := inv.known
  waits := by
    intro _
    obtain ⟨start, none | ⟨transfers, _⟩⟩ := inv.waits pending
    · exact ⟨start, .inl none⟩
    · exact absurd transfers waits
  idle := TransferStatus.noConfusion
  busy := fun _ => pending
  rejects := TransferStatus.noConfusion
  unfinished := TransferStatus.noConfusion

/-- The file of the request that waits is asked for, where there is room. -/
theorem writeVncFileRequest_ok (pending : list.lindex ≠ invalidLindex) {file : File}
    (known : list.file? list.lindex = some file) {stream : PacketStream}
    (room : stream.used + (fileRequest file.name).size ≤ stream.capacity) :
    list.writeVncFileRequest stream = .ok (some (stream.copy (fileRequest file.name))) := by
  rw [writeVncFileRequest, if_neg pending, items_of_file? known]
  simp only [PacketStream.writeUncompressedFileRequest, if_pos room]

/-- The file is rejected, and the one that is wanted now is asked for. There is no room for the
longest name. -/
theorem replaced_leads (inv : list.Inv) (rejects : list.status = .waitAcceptAndReject)
    (pending : list.lindex ≠ invalidLindex)
    (short : ∀ file, list.file? list.lindex = some file → file.name.length < maxPathLength)
    (ok : Bool) :
    ∃ path, LeadsTo list (list.receiveVncFileRequestResponse ok) .waitAcceptAndContinue
      [confirmRequestedFileFailure, fileRequest path] := by
  obtain ⟨file, known⟩ := inv.known pending
  have fits := short file known
  have room : (vncStream.copy confirmRequestedFileFailure).used + (fileRequest file.name).size ≤
      (vncStream.copy confirmRequestedFileFailure).capacity := by
    simp only [vncStream, PacketStream.copy, PacketStream.used, List.nil_append, List.map_cons,
      List.map_nil, List.sum_cons, List.sum_nil, FtPacket.size, confirmRequestedFileFailure,
      fileRequest, List.length_nil, vncPdusStreamSize, fileRequestPduMaxLen, fileTransferHeaderLen,
      headerPacketSize, maxPathLength] at fits ⊢
    omega
  refine ⟨file.name, ?_⟩
  unfold receiveVncFileRequestResponse
  simp only [rejects, writeVncFileRequest_ok pending known room, ok_bind, pure_ok]
  refine ⟨_, _, rfl, inv.asked pending ?_, rfl, rfl, rfl⟩
  rw [rejects]
  exact TransferStatus.noConfusion

theorem response_ignored (other : list.status = .nothing ∨ list.status = .transferInProgress ∨
    list.status = .waitAbortResponse) (ok : Bool) :
    list.receiveVncFileRequestResponse ok = .ok (list, .empty) := by
  unfold receiveVncFileRequestResponse
  rcases other with is | is | is <;> simp only [is]

end Responses

section Data

/-- The list behind a response with data, after which no request waits. -/
theorem Inv.consumes (consumed : list.dataOffset ≤ list.received.length)
    {status : TransferStatus} (ready : status = .nothing ∨ status = .waitAbortResponse) :
    Inv { list with
      lindex := invalidLindex
      status
      dataOffset := list.dataOffset + list.available } := by
  refine @Inv.of_free { list with
    lindex := invalidLindex, status, dataOffset := list.dataOffset + list.available }
    (available_le consumed) rfl ?_
  rcases ready with idle | aborts
  · exact .inl idle
  · exact .inr (.inr aborts)

theorem hasSufficientData_ok (consumed : list.dataOffset ≤ list.received.length) :
    list.hasSufficientData =
      .ok (decide (list.requested.toNat ≤ list.received.length - list.dataOffset)) := by
  rw [hasSufficientData, assertThat, if_pos consumed]
  rfl

/-- More data than the file has is the end of it: the transfer is aborted. -/
theorem lastData_leads (inv : list.Inv) (transfers : list.status = .transferInProgress)
    (data : List Byte) :
    LeadsTo list (list.receiveLastData data) .waitAbortResponse [abortFileTransferPdu] := by
  have pending := inv.busy (.inr transfers)
  have consumed : list.dataOffset ≤ (list.received ++
      data.take (list.lindexFileSize - list.received.length)).length := by
    rw [List.length_append]
    exact inv.consumed.trans (Nat.le_add_right _ _)
  unfold receiveLastData
  simp only [@writeRdpResponseData_ok { list with
    received := list.received ++ data.take (list.lindexFileSize - list.received.length)
    lindex := invalidLindex
    status := .waitAbortResponse } consumed, ok_bind, pure_ok]
  refine ⟨_, _, rfl, ?_, rfl, rfl, (waiting_pending pending).symm⟩
  exact @Inv.consumes { list with
    received := list.received ++ data.take (list.lindexFileSize - list.received.length) } consumed
    .waitAbortResponse (.inr rfl)

/-- Data is kept until there is enough of it for the request; then no more is waited for. -/
theorem moreData_leads (inv : list.Inv) (transfers : list.status = .transferInProgress)
    (data : List Byte) :
    LeadsTo list (list.receiveMoreData data) .transferInProgress [] ∨
      LeadsTo list (list.receiveMoreData data) .nothing [] := by
  have pending := inv.busy (.inr transfers)
  have consumed : list.dataOffset ≤ (list.received ++ data).length := by
    rw [List.length_append]
    exact inv.consumed.trans (Nat.le_add_right _ _)
  unfold receiveMoreData
  simp only [@hasSufficientData_ok { list with received := list.received ++ data } consumed,
    ok_bind]
  by_cases enough : list.requested.toNat ≤ (list.received ++ data).length - list.dataOffset
  · right
    rw [if_pos (decide_eq_true enough), @writeRdpResponseData_ok { list with
      received := list.received ++ data, lindex := invalidLindex, status := .nothing } consumed]
    refine ⟨_, _, rfl, ?_, rfl, rfl, (waiting_pending pending).symm⟩
    exact @Inv.consumes { list with received := list.received ++ data } consumed .nothing (.inl rfl)
  · left
    rw [if_neg (by simpa using enough)]
    refine ⟨_, _, rfl, ?_, transfers, rfl, rfl⟩
    constructor
    · exact consumed
    · exact inv.continues
    · exact inv.known
    · intro waits
      have start := (inv.waits waits).1
      refine ⟨start, .inr ⟨transfers, ?_⟩⟩
      rw [start, Nat.sub_zero] at enough
      exact Nat.lt_of_not_le enough
    · exact inv.idle
    · exact inv.busy
    · exact inv.rejects
    · exact inv.unfinished

theorem data_leads (inv : list.Inv) (transfers : list.status = .transferInProgress)
    (data : List Byte) :
    LeadsTo list (list.receiveVncFileData data) .transferInProgress [] ∨
      LeadsTo list (list.receiveVncFileData data) .nothing [] ∨
      LeadsTo list (list.receiveVncFileData data) .waitAbortResponse [abortFileTransferPdu] := by
  unfold receiveVncFileData
  simp only [transfers]
  by_cases beyond : list.lindexFileSize < list.received.length + data.length
  · rw [if_pos beyond]
    exact .inr (.inr (lastData_leads inv transfers data))
  · rw [if_neg beyond]
    exact (moreData_leads inv transfers data).imp_right .inl

theorem data_ignored (inv : list.Inv) (other : list.status ≠ .transferInProgress)
    (data : List Byte) : list.receiveVncFileData data = .ok (list, .empty) := by
  unfold receiveVncFileData
  cases status : list.status with
  | transferInProgress => exact absurd status other
  | finished => exact absurd status inv.unfinished
  | nothing => rfl
  | waitAbortResponse => rfl
  | waitAcceptAndReject => rfl
  | waitAcceptAndContinue => rfl

end Data

section Ends

theorem endTransfer_leads (inv : list.Inv) (transfers : list.status = .transferInProgress) :
    LeadsTo list list.endTransfer .nothing [] := by
  have pending := inv.busy (.inr transfers)
  obtain ⟨start, kept⟩ := inv.waits pending
  have all : list.dataOffset + list.available = list.received.length := by
    unfold available
    rw [start]
    rcases kept with none | ⟨_, less⟩
    · rw [none]
      simp
    · omega
  unfold endTransfer
  simp only [assertThat, ne_eq, pending, not_false_eq_true, if_true, ok_bind,
    writeRdpResponseData_ok inv.consumed, pure_ok, all]
  refine ⟨_, _, rfl, ?_, rfl, rfl, (waiting_pending pending).symm⟩
  exact @Inv.of_free { list with
    lindex := invalidLindex, status := .nothing, dataOffset := list.received.length }
    (Nat.le_refl _) rfl (.inl rfl)

/-- The end of an aborted transfer: the file that is wanted now is asked for. -/
theorem abortAnswered_leads (inv : list.Inv) (aborts : list.status = .waitAbortResponse) :
    LeadsTo list list.abortAnswered .nothing [] ∨
      ∃ path, LeadsTo list list.abortAnswered .waitAcceptAndContinue [fileRequest path] := by
  unfold abortAnswered
  by_cases free : list.lindex = invalidLindex
  · left
    simp only [writeVncFileRequest, free, if_true, ok_bind]
    refine ⟨_, _, rfl, ?_, rfl, rfl, (waiting_free free).symm⟩
    exact Inv.of_free inv.consumed rfl (.inl rfl)
  · right
    obtain ⟨file, known⟩ := inv.known free
    have room : (PacketStream.mk (rdpFileDataOffset + list.received.length) []).used +
        (fileRequest file.name).size ≤ rdpFileDataOffset + list.received.length := by
      have short := file.short
      simp only [PacketStream.used, List.map_nil, List.sum_nil, FtPacket.size, fileRequest,
        rdpFileDataOffset, rdpPdusStreamSize, vncPdusStreamSize, fileRequestPduMaxLen,
        fileTransferHeaderLen, headerPacketSize, maxPathLength] at short ⊢
      omega
    refine ⟨file.name, ?_⟩
    simp only [@writeVncFileRequest_ok { list with status := .nothing } free file known _ room,
      ok_bind, pure_ok]
    refine ⟨_, _, rfl, inv.asked free ?_, rfl, rfl, rfl⟩
    rw [aborts]
    exact TransferStatus.noConfusion

/-- The server aborts a transfer: the request that waits is given up. -/
theorem aborted_leads (inv : list.Inv) (transfers : list.status = .transferInProgress) :
    LeadsTo list list.receiveVncFileAbort .nothing [] := by
  have pending := inv.busy (.inr transfers)
  have called : list.receiveVncFileAbort = .ok (list.dropped .nothing,
      ⟨[.fileRange .responseFail list.streamId []], [], [.rdpResponseFailure]⟩) := by
    unfold receiveVncFileAbort
    simp only [transfers, @setRdpResponseFail_ok { list with status := .nothing } pending
      (inv.continues pending), ok_bind, pure_ok]
    rfl
  rw [called]
  exact ⟨_, _, gives_up inv pending (.inl rfl) [] _⟩

end Ends

end FileList

end Redemption.FileTransfer
