import Redemption.FileTransfer.FileList

/-! What each transfer function does: the status it leads to, the packets it sends and the
requests it answers. -/
namespace Redemption.FileTransfer

open Redemption.Foundation

namespace FileList

/-- What holds between two calls. -/
structure Inv (list : FileList) : Prop where
  consumed : list.dataOffset ≤ list.received.length
  continues : list.lindex ≠ invalidLindex → list.continuationLindex = list.lindex
  known : list.lindex ≠ invalidLindex → ∃ file, list.file? list.lindex = some file
  waits : list.lindex ≠ invalidLindex → list.dataOffset = 0 ∧
    (list.received = [] ∨
      (list.status = .transferInProgress ∧ list.received.length < list.requested.toNat))
  idle : list.status = .nothing → list.lindex = invalidLindex
  busy : list.status = .waitAcceptAndContinue ∨ list.status = .transferInProgress →
    list.lindex ≠ invalidLindex
  rejects : list.status = .waitAcceptAndReject → list.continuationLindex = list.lindex
  unfinished : list.status ≠ .finished

/-- The stream id of the request that waits for its response. -/
def waiting (list : FileList) : List CbStreamId :=
  if list.lindex = invalidLindex then [] else [list.streamId]

def answered (result : TransferResult) :
    List CbStreamId := result.rdpData.map RdpPdu.streamId

section Files

variable {list : FileList}

theorem file?_invalidLindex : list.file? invalidLindex = none := by
  have few := list.files.few
  have large : invalidLindex.toNat = 2 ^ 32 - 1 := by
    rw [invalidLindex, BitVec.toNat_allOnes]
  have beyond : list.files.items[invalidLindex.toNat]? = none := by
    apply List.getElem?_eq_none
    rw [large]
    unfold maxItems at few
    omega
  rw [file?, beyond]

theorem lindex_valid {lindex : CbLindex} {file : File} (known : list.file? lindex = some file) :
    lindex ≠ invalidLindex := by
  intro same
  rw [same, file?_invalidLindex] at known
  cases known

theorem items_of_file? {lindex : CbLindex} {file : File}
    (known : list.file? lindex = some file) :
    list.files.items[lindex.toNat]? = some file := by
  unfold file? at known
  cases found : list.files.items[lindex.toNat]? with
  | none =>
    rw [found] at known
    cases known
  | some other =>
    rw [found] at known
    simp only at known
    split at known
    · cases known
    · rw [Option.some.inj known]

theorem write_fits (file : File) :
    vncStream.writeUncompressedFileRequest file.name =
      some (vncStream.copy (fileRequest file.name)) := by
  have short := file.short
  unfold PacketStream.writeUncompressedFileRequest
  rw [if_pos]
  simp only [vncStream, PacketStream.used, List.map_nil, List.sum_nil, FtPacket.size, fileRequest,
    vncPdusStreamSize, fileRequestPduMaxLen, fileTransferHeaderLen, headerPacketSize,
    maxPathLength] at short ⊢
  omega

end Files

section Responses

variable {list : FileList} {req : FileContentsRequest}

@[simp] theorem answered_respond (flags : CbMsgFlags) (size : Nat) (type : ResponseType) :
    answered (respond req flags size type) = [req.streamId] := by
  unfold answered respond
  split <;> rfl

/-- How much of what has been received goes into a response. -/
def available (list : FileList) : Nat :=
  min (list.received.length - list.dataOffset) list.requested.toNat

/-- Data is sent to the request that is remembered, and consumed. -/
theorem writeRdpResponseData_ok (consumed : list.dataOffset ≤ list.received.length) :
    list.writeRdpResponseData =
      .ok ({ list with dataOffset := list.dataOffset + list.available },
        ⟨[.fileRange .responseOk list.streamId
          ((list.received.drop list.dataOffset).take list.available)], [], [.rdpResponseData]⟩) := by
  rw [writeRdpResponseData, writeRdpResponseRangeAndConsumeData, assertThat, if_pos consumed]
  rfl

theorem available_le (consumed : list.dataOffset ≤ list.received.length) :
    list.dataOffset + list.available ≤ list.received.length := by
  unfold available
  omega

theorem setRdpResponseFail_ok (pending : list.lindex ≠ invalidLindex)
    (continues : list.continuationLindex = list.lindex) :
    list.setRdpResponseFail =
      .ok ({ list with lindex := invalidLindex, continuationLindex := invalidLindex },
        .fileRange .responseFail list.streamId []) := by
  rw [setRdpResponseFail, assertThat, if_pos pending, assertThat,
    if_pos (by rwa [continues])]
  rfl

end Responses

section Requests

variable {list : FileList} {req : FileContentsRequest}

/-- The request has been answered, and none waits. -/
structure Answered (list : FileList) (req : FileContentsRequest) (list' : FileList)
    (result : TransferResult) : Prop where
  other : list.startsFile req = false
  free : list'.lindex = invalidLindex
  silent : result.vncData = []
  answers : answered result = [req.streamId]
  status : list'.status = list.status ∨
    (list.status = .waitAbortResponse ∧ list'.status = .nothing)

/-- The request waits for a file, which is asked for at once where nothing is under way. -/
structure Started (list : FileList) (req : FileContentsRequest) (list' : FileList)
    (result : TransferResult) : Prop where
  starts : list.startsFile req = true
  pending : list'.lindex ≠ invalidLindex
  streamId : list'.streamId = req.streamId
  answers : answered result = []
  status : (list.status = .nothing ∧ list'.status = .waitAcceptAndContinue ∧
      ∃ path, result.vncData = [fileRequest path]) ∨
    (list.status ≠ .nothing ∧ list'.status = list.status ∧ result.vncData = [])

theorem Inv.of_free (consumed : list.dataOffset ≤ list.received.length)
    (free : list.lindex = invalidLindex)
    (ready : list.status = .nothing ∨
      (list.status = .waitAcceptAndReject ∧ list.continuationLindex = invalidLindex) ∨
      list.status = .waitAbortResponse) : list.Inv where
  consumed := consumed
  continues := fun pending => absurd free pending
  known := fun pending => absurd free pending
  waits := fun pending => absurd free pending
  idle := fun _ => free
  busy := by
    rintro (accepts | runs) <;> simp_all
  rejects := by
    intro rejects
    simp_all
  unfinished := by
    intro finished
    simp_all

theorem Inv.ready (inv : list.Inv) (free : list.lindex = invalidLindex) :
    list.status = .nothing ∨
      (list.status = .waitAcceptAndReject ∧ list.continuationLindex = invalidLindex) ∨
      list.status = .waitAbortResponse := by
  cases status : list.status with
  | nothing => exact .inl rfl
  | waitAcceptAndContinue => exact absurd free (inv.busy (.inl status))
  | waitAcceptAndReject => exact .inr (.inl ⟨rfl, by rw [inv.rejects status, free]⟩)
  | transferInProgress => exact absurd free (inv.busy (.inr status))
  | waitAbortResponse => exact .inr (.inr rfl)
  | finished => exact absurd status inv.unfinished

theorem requestNewFile_ok (inv : list.Inv) (free : list.lindex = invalidLindex) {file : File}
    (known : list.file? req.lindex = some file) (range : req.dwFlags ≠ fileContentsSize) :
    ∃ list' result, list.requestNewFile req file = .ok (list', result) ∧ list'.Inv ∧
      (Answered list req list' result ∨ Started list req list' result) := by
  have starts : list.startsFile req = decide (req.position = 0 ∧ file.fileSize ≠ 0) := by
    unfold startsFile
    rw [known]
    simp [range]
  have valid := lindex_valid known
  have ready := inv.ready free
  have restarted : Inv { list with continuationLindex := invalidLindex } := by
    refine @Inv.of_free { list with continuationLindex := invalidLindex } inv.consumed free ?_
    rcases ready with idle | ⟨rejects, _⟩ | aborts
    · exact .inl idle
    · exact .inr (.inl ⟨rejects, rfl⟩)
    · exact .inr (.inr aborts)
  unfold requestNewFile
  by_cases start : req.position = 0
  · rw [if_neg (not_not.mpr start)]
    by_cases empty : file.fileSize = 0
    · rw [if_pos empty]
      refine ⟨_, _, rfl, restarted, .inl ⟨?_, free, rfl, answered_respond _ _ _, .inl rfl⟩⟩
      rw [starts]
      exact decide_eq_false fun both => both.2 empty
    · rw [if_neg empty]
      have some' : list.startsFile req = true := by
        rw [starts]
        exact decide_eq_true ⟨start, empty⟩
      have waits : ∀ status, status = .waitAcceptAndContinue ∨ status = .waitAcceptAndReject ∨
          status = .waitAbortResponse → Inv { list with
            lindex := req.lindex
            streamId := req.streamId
            requested := req.cbRequested
            position := req.position
            continuationLindex := req.lindex
            lindexFileSize := file.fileSize
            received := []
            dataOffset := 0
            status } := by
        intro status allowed
        constructor
        · exact Nat.zero_le _
        · exact fun _ => rfl
        · exact fun _ => ⟨file, known⟩
        · exact fun _ => ⟨rfl, .inl rfl⟩
        · intro idle
          rcases allowed with same | same | same <;> rw [same] at idle <;> cases idle
        · exact fun _ => valid
        · exact fun _ => rfl
        · intro finished
          rcases allowed with same | same | same <;> rw [same] at finished <;> cases finished
      rcases ready with idle | ⟨rejects, _⟩ | aborts
      · simp only [idle, write_fits]
        refine ⟨_, _, rfl, waits _ (.inl rfl), .inr ⟨some', valid, rfl, rfl, .inl ⟨idle, rfl,
          file.name, rfl⟩⟩⟩
      · simp only [rejects]
        refine ⟨_, _, rfl, waits _ (.inr (.inl rfl)), .inr ⟨some', valid, rfl, rfl, .inr ⟨?_,
          rejects.symm, rfl⟩⟩⟩
        rw [rejects]
        exact TransferStatus.noConfusion
      · simp only [aborts]
        refine ⟨_, _, rfl, waits _ (.inr (.inr rfl)), .inr ⟨some', valid, rfl, rfl, .inr ⟨?_,
          aborts.symm, rfl⟩⟩⟩
        rw [aborts]
        exact TransferStatus.noConfusion
  · rw [if_pos start]
    refine ⟨_, _, rfl, restarted, .inl ⟨?_, free, rfl, answered_respond _ _ _, .inl rfl⟩⟩
    rw [starts]
    exact decide_eq_false fun both => start both.1

/-- The list behind a range that is the last to be answered of its file. -/
def lastRange (list : FileList) (req : FileContentsRequest) : FileList :=
  { list with
    status := .nothing
    lindex := invalidLindex
    continuationLindex := invalidLindex
    streamId := req.streamId
    requested := req.cbRequested
    position := req.position }

/-- The range that follows the last one is answered with what is left. -/
theorem requestContinuation_follows (same : list.continuationLindex = req.lindex)
    (follows : req.position = list.position + list.requested.setWidth 64)
    (ready : list.status = .nothing ∨ list.status = .waitAbortResponse) :
    list.requestContinuation req = (list.lastRange req).writeRdpResponseData := by
  rw [requestContinuation, assertThat, if_pos same, ok_bind, if_neg (not_not.mpr follows)]
  rcases ready with idle | aborts
  · simp only [idle]
    rfl
  · simp only [aborts]
    rfl

/-- A range behind the last one is answered, and nothing is expected any more. -/
theorem requestContinuation_ok (inv : list.Inv) (free : list.lindex = invalidLindex) {file : File}
    (known : list.file? req.lindex = some file) (later : req.position ≠ 0)
    (same : list.continuationLindex = req.lindex) :
    ∃ list' result, list.requestContinuation req = .ok (list', result) ∧ list'.Inv ∧
      Answered list req list' result := by
  have other : list.startsFile req = false := by
    unfold startsFile
    rw [known]
    exact decide_eq_false fun all => later all.2.1
  have ready : list.status = .nothing ∨ list.status = .waitAbortResponse := by
    rcases inv.ready free with idle | ⟨_, none⟩ | aborts
    · exact .inl idle
    · rw [same] at none
      exact absurd none (lindex_valid known)
    · exact .inr aborts
  by_cases follows : req.position = list.position + list.requested.setWidth 64
  · have consumed : (list.lastRange req).dataOffset ≤ (list.lastRange req).received.length :=
      inv.consumed
    rw [requestContinuation_follows same follows ready, writeRdpResponseData_ok consumed]
    refine ⟨_, _, rfl, ?_, other, rfl, rfl, rfl, ?_⟩
    · exact Inv.of_free (available_le consumed) rfl (.inl rfl)
    · rcases ready with idle | aborts
      · exact .inl idle.symm
      · exact .inr ⟨aborts, rfl⟩
  · rw [requestContinuation, assertThat, if_pos same, ok_bind, if_pos follows]
    refine ⟨_, _, rfl, ?_, other, rfl, rfl, answered_respond _ _ _, .inl rfl⟩
    refine @Inv.of_free { list with lindex := invalidLindex, continuationLindex := invalidLindex }
      inv.consumed rfl ?_
    rcases ready with idle | aborts
    · exact .inl idle
    · exact .inr (.inr aborts)

theorem manageRequest_ok (inv : list.Inv) (free : list.lindex = invalidLindex)
    (req : FileContentsRequest) :
    ∃ list' result, list.manageRequest req = .ok (list', result) ∧ list'.Inv ∧
      (Answered list req list' result ∨ Started list req list' result) := by
  unfold manageRequest
  cases known : list.file? req.lindex with
  | none =>
    refine ⟨list, _, rfl, inv, .inl ⟨?_, free, rfl, answered_respond _ _ _, .inl rfl⟩⟩
    unfold startsFile
    rw [known]
  | some file =>
    simp only
    by_cases size : req.dwFlags = fileContentsSize
    · rw [if_pos size]
      refine ⟨list, _, rfl, inv, .inl ⟨?_, free, rfl, answered_respond _ _ _, .inl rfl⟩⟩
      unfold startsFile
      rw [known]
      simp [size]
    · rw [if_neg size]
      by_cases new : list.continuationLindex ≠ req.lindex ∨ req.position = 0
      · rw [if_pos new]
        exact requestNewFile_ok inv free known size
      · rw [if_neg new]
        obtain ⟨same, later⟩ := not_or.mp new
        obtain ⟨list', result, called, inv', answers⟩ :=
          requestContinuation_ok inv free known later (not_not.mp same)
        exact ⟨list', result, called, inv', .inl answers⟩

/-- Where a request leads, by the status before it. -/
def Requested (list : FileList) (req : FileContentsRequest) (list' : FileList)
    (packets : List FtPacket) : Prop :=
  match list.status with
  | .nothing =>
    (list.startsFile req = false ∧ list'.status = .nothing ∧ packets = []) ∨
      (list.startsFile req = true ∧ list'.status = .waitAcceptAndContinue ∧
        ∃ path, packets = [fileRequest path])
  | .waitAcceptAndContinue | .waitAcceptAndReject =>
    list'.status = .waitAcceptAndReject ∧ packets = []
  | .transferInProgress =>
    (list'.status = .waitAbortResponse ∨ list'.status = .nothing) ∧
      packets = [abortFileTransferPdu]
  | .waitAbortResponse =>
    (list'.status = .waitAbortResponse ∨ list'.status = .nothing) ∧
      (packets = [] ∨ packets = [abortFileTransferPdu] ∧ list.lindex ≠ invalidLindex)
  | .finished => False

theorem waiting_free (free : list.lindex = invalidLindex) : list.waiting = [] := if_pos free

theorem waiting_pending (pending : list.lindex ≠ invalidLindex) :
    list.waiting = [list.streamId] := if_neg pending

theorem managed_answers {list' : FileList} {result : TransferResult}
    (managed : Answered list req list' result ∨ Started list req list' result) :
    answered result ++ list'.waiting = [req.streamId] := by
  rcases managed with answers | starts
  · rw [answers.answers, waiting_free answers.free]
    rfl
  · rw [starts.answers, waiting_pending starts.pending, starts.streamId]
    rfl

theorem rdpRequestedFile_free (inv : list.Inv) (free : list.lindex = invalidLindex)
    (req : FileContentsRequest) :
    ∃ list' result, list.rdpRequestedFile req = .ok (list', result) ∧ list'.Inv ∧
      answered result ++ list'.waiting = list.waiting ++ [req.streamId] ∧
      Requested list req list' result.vncData := by
  obtain ⟨list', result, managed, inv', outcome⟩ := manageRequest_ok inv free req
  refine ⟨list', result, ?_, inv', ?_, ?_⟩
  · rw [rdpRequestedFile, previousRequest, if_pos free]
    simp only [managed, ok_bind, TransferResult.empty, List.nil_append, pure_ok]
  · rw [managed_answers outcome, waiting_free free]
    rfl
  · unfold Requested
    rcases inv.ready free with idle | ⟨rejects, _⟩ | aborts
    · rw [idle]
      rcases outcome with answers | starts
      · refine .inl ⟨answers.other, ?_, answers.silent⟩
        rcases answers.status with same | ⟨aborts, _⟩
        · rw [same, idle]
        · rw [idle] at aborts
          cases aborts
      · rcases starts.status with ⟨_, accepts, path, packets⟩ | ⟨busy, _⟩
        · exact .inr ⟨starts.starts, accepts, path, packets⟩
        · exact absurd idle busy
    · rw [rejects]
      rcases outcome with answers | starts
      · refine ⟨?_, answers.silent⟩
        rcases answers.status with same | ⟨aborts, _⟩
        · rw [same, rejects]
        · rw [rejects] at aborts
          cases aborts
      · rcases starts.status with ⟨idle, _⟩ | ⟨_, same, silent⟩
        · rw [rejects] at idle
          cases idle
        · exact ⟨same.trans rejects, silent⟩
    · rw [aborts]
      rcases outcome with answers | starts
      · refine ⟨?_, .inl answers.silent⟩
        rcases answers.status with same | ⟨_, idle⟩
        · exact .inl (same.trans aborts)
        · exact .inr idle
      · rcases starts.status with ⟨idle, _⟩ | ⟨_, same, silent⟩
        · rw [aborts] at idle
          cases idle
        · exact ⟨.inl (same.trans aborts), .inl silent⟩

/-- The failure of the request that waits, for another one. -/
def failedFor (list : FileList) (req : FileContentsRequest) : TransferResult :=
  ⟨if list.streamId = req.streamId then [] else [.fileRange .responseFail list.streamId []], [],
    if list.streamId = req.streamId then [] else [.rdpResponseFailure]⟩

/-- The list behind the failure of the request that waits. -/
def dropped (list : FileList) (status : TransferStatus) : FileList :=
  { list with status, lindex := invalidLindex, continuationLindex := invalidLindex }

/-- A request that replaces another one: that one is answered with a failure, and its transfer
rejected or aborted. -/
theorem rdpRequestedFile_replaces (inv : list.Inv) (pending : list.lindex ≠ invalidLindex)
    {status : TransferStatus} {packets : List FtPacket}
    (allowed : status = .waitAcceptAndReject ∨ status = .waitAbortResponse)
    (previous : list.previousRequest req = (list.dropped status,
      { list.failedFor req with vncData := packets })) :
    ∃ list' result, list.rdpRequestedFile req = .ok (list', result) ∧ list'.Inv ∧
      (list.streamId ≠ req.streamId →
        answered result ++ list'.waiting = list.waiting ++ [req.streamId]) ∧
      (list'.status = status ∨ (status = .waitAbortResponse ∧ list'.status = .nothing)) ∧
      result.vncData = packets := by
  have inv' : (list.dropped status).Inv := by
    refine @Inv.of_free (list.dropped status) inv.consumed rfl ?_
    rcases allowed with rejects | aborts
    · exact .inr (.inl ⟨rejects, rfl⟩)
    · exact .inr (.inr aborts)
  obtain ⟨list', result, managed, left, outcome⟩ := manageRequest_ok inv' rfl req
  refine ⟨list', ⟨(list.failedFor req).rdpData ++ result.rdpData, packets ++ result.vncData,
    (list.failedFor req).responseTypes ++ result.responseTypes⟩, ?_, left, ?_, ?_, ?_⟩
  · simp only [rdpRequestedFile, previous, managed, ok_bind, pure_ok]
  · intro distinct
    have answers := managed_answers outcome
    simp only [answered, failedFor, if_neg distinct, List.map_append,
      waiting_pending pending] at answers ⊢
    rw [List.append_assoc, answers]
    rfl
  · rcases outcome with answers | starts
    · exact answers.status
    · rcases starts.status with ⟨idle, _⟩ | ⟨_, same, _⟩
      · rcases allowed with rejects | aborts
        · exact absurd (rejects.symm.trans idle) TransferStatus.noConfusion
        · exact absurd (aborts.symm.trans idle) TransferStatus.noConfusion
      · exact .inl same
  · have silent : result.vncData = [] := by
      rcases outcome with answers | starts
      · exact answers.silent
      · rcases starts.status with ⟨idle, _⟩ | ⟨_, _, silent⟩
        · rcases allowed with rejects | aborts
          · exact absurd (rejects.symm.trans idle) TransferStatus.noConfusion
          · exact absurd (aborts.symm.trans idle) TransferStatus.noConfusion
        · exact silent
    rw [silent, List.append_nil]

/-- A request while another waits for the answer of the server, or for data. One that waits for the
rejection of a file to be sent is left out. -/
theorem rdpRequestedFile_waiting (inv : list.Inv) (pending : list.lindex ≠ invalidLindex)
    (runs : list.status ≠ .waitAcceptAndReject) (req : FileContentsRequest) :
    ∃ list' result, list.rdpRequestedFile req = .ok (list', result) ∧ list'.Inv ∧
      (list.streamId ≠ req.streamId →
        answered result ++ list'.waiting = list.waiting ++ [req.streamId]) ∧
      Requested list req list' result.vncData := by
  have aborts : ∀ status, list.status = status →
      (status = .transferInProgress ∨ status = .waitAbortResponse) →
      list.previousRequest req = (list.dropped .waitAbortResponse,
        { list.failedFor req with vncData := [abortFileTransferPdu] }) := by
    intro status is cases'
    rw [previousRequest, if_neg pending]
    rcases cases' with same | same <;> simp only [is, same] <;> rfl
  cases status : list.status with
  | nothing => exact absurd (inv.idle status) pending
  | waitAcceptAndReject => exact absurd status runs
  | finished => exact absurd status inv.unfinished
  | waitAcceptAndContinue =>
    have previous : list.previousRequest req = (list.dropped .waitAcceptAndReject,
        { list.failedFor req with vncData := [] }) := by
      rw [previousRequest, if_neg pending]
      simp only [status]
      rfl
    obtain ⟨list', result, called, inv', answers, leads, packets⟩ :=
      rdpRequestedFile_replaces inv pending (.inl rfl) previous
    refine ⟨list', result, called, inv', answers, ?_⟩
    unfold Requested
    rw [status]
    rcases leads with rejects | ⟨other, _⟩
    · exact ⟨rejects, packets⟩
    · cases other
  | transferInProgress =>
    obtain ⟨list', result, called, inv', answers, leads, packets⟩ :=
      rdpRequestedFile_replaces inv pending (.inr rfl) (aborts _ status (.inl rfl))
    refine ⟨list', result, called, inv', answers, ?_⟩
    unfold Requested
    rw [status]
    exact ⟨leads.imp_right And.right, packets⟩
  | waitAbortResponse =>
    obtain ⟨list', result, called, inv', answers, leads, packets⟩ :=
      rdpRequestedFile_replaces inv pending (.inr rfl) (aborts _ status (.inr rfl))
    refine ⟨list', result, called, inv', answers, ?_⟩
    unfold Requested
    rw [status]
    exact ⟨leads.imp_right And.right, .inr ⟨packets, pending⟩⟩

end Requests

end FileList

end Redemption.FileTransfer
