import Redemption.FileTransfer.FileSession

/-! A client that reads one file by consecutive ranges: what it gets of the data of the server. -/
namespace Redemption.FileTransfer

open Redemption.Foundation

def RdpPdu.data : RdpPdu → List Byte
  | fileSize .. => []
  | fileRange _ _ data => data

/-- The transfer, with where the next range of the client begins and where the last one that has been
answered ends; what the server has sent of the file, whether it has accepted it and ended it; and
what the client has got. -/
structure Reading where
  list : FileList
  position : Nat
  answered : Nat
  stream : List Byte
  accepted : Bool
  ended : Bool
  collected : List Byte

/-- The client asks for a range, or the server accepts the file, sends data of it or ends it. -/
inductive ReadEvent where
  | ask (req : FileContentsRequest)
  | accept
  | packet (data : List Byte)
  | finish

namespace Reading

def start (list : FileList) : Reading := ⟨list, 0, 0, [], false, false, []⟩

def absorb (reading : Reading) (called : Checked FileListError (FileList × TransferResult)) :
    Reading × Checked FileListError TransferResult :=
  match called with
  | .error fault => (reading, .error fault)
  | .ok (list, result) =>
    ({ reading with
      list
      answered := if result.rdpData = [] then reading.answered else reading.position
      collected := reading.collected ++ result.rdpData.flatMap RdpPdu.data }, .ok result)

def step (reading : Reading) : ReadEvent → Reading × Checked FileListError TransferResult
  | .ask req =>
    absorb { reading with position := reading.position + req.cbRequested.toNat }
      (reading.list.rdpRequestedFile req)
  | .accept =>
    absorb { reading with accepted := true } (reading.list.receiveVncFileRequestResponse true)
  | .packet data =>
    absorb { reading with stream := reading.stream ++ data } (reading.list.receiveVncFileData data)
  | .finish => absorb { reading with ended := true } reading.list.receiveVncEndOfFile

def machine : Machine Reading ReadEvent (Checked FileListError TransferResult) := ⟨step⟩

/-- The client asks for the next range of the file when it has the last one; the server accepts the
file once, and sends all of it or more before the end. -/
def WellFormed (lindex : CbLindex) (size : Nat) (reading : Reading) : ReadEvent → Prop
  | .ask req => reading.answered = reading.position ∧ req.lindex = lindex ∧
    req.dwFlags ≠ fileContentsSize ∧ req.cbRequested ≠ 0 ∧ req.position.toNat = reading.position
  | .accept => reading.accepted = false ∧ 0 < reading.position
  | .packet _ => reading.accepted = true ∧ reading.ended = false
  | .finish => reading.accepted = true ∧ reading.ended = false ∧ size ≤ reading.stream.length

/-- After the step, the client has got what the server has sent, up to the end of the last range that
has been answered or of the file. -/
structure Exact (size : Nat) (reading : Reading) (event : ReadEvent) : Prop where
  runs : (machine.output reading event).isOk = true
  all : (machine.next reading event).collected =
    (machine.next reading event).stream.take (min size (machine.next reading event).answered)
  sent : min size (machine.next reading event).answered ≤
    (machine.next reading event).stream.length

/-- Each range behind the first, if it does not begin behind the end of the file, is the second one,
and finds all of its data in the buffer. -/
def Available (size : Nat) (reading : Reading) : ReadEvent → Prop
  | .ask req => reading.position = 0 ∨ size ≤ reading.position ∨
    (reading.list.continuationLindex = req.lindex ∧
      min size (reading.position + req.cbRequested.toNat) ≤ reading.list.received.length)
  | _ => True

instance (lindex : CbLindex) (size : Nat) (reading : Reading) (event : ReadEvent) :
    Decidable (reading.WellFormed lindex size event) := by
  unfold WellFormed
  split <;> infer_instance

instance (size : Nat) (reading : Reading) (event : ReadEvent) :
    Decidable (reading.Available size event) := by
  unfold Available
  split <;> infer_instance

section Stages

/-- The file has been asked for, and has not been accepted yet when `accepted` does not hold. -/
structure Receiving (lindex : CbLindex) (size : Nat) (reading : Reading) (accepted : Bool) :
    Prop where
  status : reading.list.status =
    if accepted then .transferInProgress else .waitAcceptAndContinue
  accepts : reading.accepted = accepted
  lindex_eq : reading.list.lindex = lindex
  continues : reading.list.continuationLindex = lindex
  first : reading.list.position = 0
  size_eq : reading.list.lindexFileSize = size
  offset : reading.list.dataOffset = 0
  position : reading.position = reading.list.requested.toNat
  answered : reading.answered = 0
  received : reading.list.received = reading.stream
  few : reading.stream.length < reading.list.requested.toNat
  fits : reading.stream.length ≤ size
  collected : reading.collected = []
  unstarted : accepted = false → reading.stream = []

/-- Nothing is waited for any more. -/
structure Ready (reading : Reading) : Prop where
  status : reading.list.status = .nothing ∨ reading.list.status = .waitAbortResponse
  free : reading.list.lindex = invalidLindex
  accepts : reading.accepted = true
  answered : reading.answered = reading.position
  later : 0 < reading.position

/-- The first range has been answered, and the rest of what had come by then is kept. -/
structure Kept (lindex : CbLindex) (size : Nat) (reading : Reading) : Prop extends
    reading.Ready where
  continues : reading.list.continuationLindex = lindex
  first : reading.list.position = 0
  position : reading.position = reading.list.requested.toNat
  received : reading.list.received <+: reading.stream
  fits : reading.list.received.length ≤ size
  enough : min size reading.position ≤ reading.list.received.length
  offset : reading.list.dataOffset = min size reading.position
  collected : reading.collected = reading.stream.take (min size reading.position)

/-- The second range has been answered, and nothing is kept. -/
structure Over (lindex : CbLindex) (size : Nat) (reading : Reading) : Prop extends
    reading.Ready where
  dropped : reading.list.continuationLindex ≠ lindex
  sent : min size reading.position ≤ reading.stream.length
  collected : reading.collected = reading.stream.take (min size reading.position)

/-- The stage of a reading that has been exact so far. -/
inductive Stage (lindex : CbLindex) (size : Nat) (reading : Reading) : Prop where
  | fresh (idle : reading.list.status = .nothing) (free : reading.list.lindex = invalidLindex)
    (is : reading = start reading.list)
  | asked (stage : reading.Receiving lindex size false)
  | reads (stage : reading.Receiving lindex size true)
  | kept (stage : reading.Kept lindex size)
  | gone (stage : reading.Over lindex size)

variable {lindex : CbLindex} {size : Nat} {reading : Reading}

theorem Stage.exact (stage : reading.Stage lindex size) :
    reading.collected = reading.stream.take (min size reading.answered) ∧
      min size reading.answered ≤ reading.stream.length := by
  have none : reading.collected = [] → reading.answered = 0 →
      reading.collected = reading.stream.take (min size reading.answered) ∧
        min size reading.answered ≤ reading.stream.length := by
    intro collected answered
    rw [collected, answered, Nat.min_zero]
    exact ⟨rfl, Nat.zero_le _⟩
  cases stage with
  | fresh idle free is =>
    rw [is]
    exact ⟨List.take_nil.symm, Nat.min_le_right _ _⟩
  | asked stage => exact none stage.collected stage.answered
  | reads stage => exact none stage.collected stage.answered
  | kept stage =>
    rw [stage.answered]
    exact ⟨stage.collected, stage.enough.trans stage.received.length_le⟩
  | gone stage =>
    rw [stage.answered]
    exact ⟨stage.collected, stage.sent⟩

end Stages

end Reading

namespace FileList

variable {list : FileList} {req : FileContentsRequest} {file : File}

/-- The list that has asked for a file. -/
def askedFor (list : FileList) (req : FileContentsRequest) (file : File) : FileList :=
  { list with
    status := .waitAcceptAndContinue
    lindex := req.lindex
    streamId := req.streamId
    requested := req.cbRequested
    position := req.position
    continuationLindex := req.lindex
    lindexFileSize := file.fileSize
    received := []
    dataOffset := 0 }

theorem rdpRequestedFile_range (free : list.lindex = invalidLindex)
    (known : list.file? req.lindex = some file) (range : req.dwFlags ≠ fileContentsSize) :
    list.rdpRequestedFile req =
      if list.continuationLindex ≠ req.lindex ∨ req.position = 0 then list.requestNewFile req file
      else list.requestContinuation req := by
  have first : list.previousRequest req = (list, .empty) := by
    rw [previousRequest, if_pos free]
  have same : list.rdpRequestedFile req = list.manageRequest req := by
    rw [rdpRequestedFile, first]
    simp only [TransferResult.empty]
    cases list.manageRequest req <;> rfl
  rw [same, manageRequest, known]
  simp only [if_neg range]

theorem rdpRequestedFile_first (idle : list.status = .nothing)
    (free : list.lindex = invalidLindex) (known : list.file? req.lindex = some file)
    (range : req.dwFlags ≠ fileContentsSize) (start : req.position = 0)
    (some' : file.fileSize ≠ 0) :
    list.rdpRequestedFile req =
      .ok (list.askedFor req file, ⟨[], [fileRequest file.name], [.vncRequestFile]⟩) := by
  rw [rdpRequestedFile_range free known range, if_pos (.inr start), requestNewFile,
    if_neg (not_not.mpr start), if_neg some']
  simp only [idle, write_fits]
  rfl

theorem rdpRequestedFile_unsequenced (free : list.lindex = invalidLindex)
    (known : list.file? req.lindex = some file) (range : req.dwFlags ≠ fileContentsSize)
    (later : req.position ≠ 0) (other : list.continuationLindex ≠ req.lindex) :
    list.rdpRequestedFile req = .ok ({ list with continuationLindex := invalidLindex },
      respond req .responseFail 0 .rdpResponseUnsequenced) := by
  rw [rdpRequestedFile_range free known range, if_pos (.inl other), requestNewFile, if_pos later]

theorem rdpRequestedFile_follows (free : list.lindex = invalidLindex)
    (known : list.file? req.lindex = some file) (range : req.dwFlags ≠ fileContentsSize)
    (later : req.position ≠ 0) (same : list.continuationLindex = req.lindex)
    (follows : req.position = list.position + list.requested.setWidth 64)
    (ready : list.status = .nothing ∨ list.status = .waitAbortResponse) :
    list.rdpRequestedFile req = (list.lastRange req).writeRdpResponseData := by
  rw [rdpRequestedFile_range free known range, if_neg, requestContinuation_follows same follows ready]
  rintro (other | start)
  · exact other same
  · exact later start

/-- The first response of a file takes from the start of the buffer. -/
theorem writeRdpResponseData_start (offset : list.dataOffset = 0) :
    list.writeRdpResponseData =
      .ok ({ list with dataOffset := min list.received.length list.requested.toNat },
        ⟨[.fileRange .responseOk list.streamId
          (list.received.take (min list.received.length list.requested.toNat))], [],
          [.rdpResponseData]⟩) := by
  have consumed : list.dataOffset ≤ list.received.length := by
    rw [offset]
    exact Nat.zero_le _
  rw [writeRdpResponseData_ok consumed, available, offset, Nat.sub_zero, Nat.zero_add,
    List.drop_zero]

theorem receiveLastData_start (offset : list.dataOffset = 0) (data : List Byte) {received : List Byte}
    (is : list.received ++ data.take (list.lindexFileSize - list.received.length) = received) :
    list.receiveLastData data =
      .ok ({ list with
          received
          lindex := invalidLindex
          status := .waitAbortResponse
          dataOffset := min received.length list.requested.toNat },
        ⟨[.fileRange .responseOk list.streamId
          (received.take (min received.length list.requested.toNat))], [abortFileTransferPdu],
          [.rdpResponseData, .vncAbortFile]⟩) := by
  subst is
  have written := @writeRdpResponseData_start { list with
    received := list.received ++ data.take (list.lindexFileSize - list.received.length)
    lindex := invalidLindex
    status := .waitAbortResponse } offset
  rw [receiveLastData, written]
  rfl

/-- The end of a file of which less has come than the first range asks for. -/
theorem receiveVncEndOfFile_start (transfers : list.status = .transferInProgress)
    (valid : list.lindex ≠ invalidLindex) (offset : list.dataOffset = 0)
    (few : list.received.length < list.requested.toNat) {received : List Byte}
    (is : list.received = received) :
    list.receiveVncEndOfFile =
      .ok ({ list with
          received
          lindex := invalidLindex
          status := .nothing
          dataOffset := min received.length list.requested.toNat },
        ⟨[.fileRange .responseOk list.streamId
          (received.take (min received.length list.requested.toNat))], [],
          [.rdpResponseData]⟩) := by
  subst is
  have all : min list.received.length list.requested.toNat = list.received.length :=
    Nat.min_eq_left (Nat.le_of_lt few)
  unfold receiveVncEndOfFile
  simp only [transfers]
  rw [endTransfer, assertThat, if_pos valid, ok_bind, writeRdpResponseData_start offset, all]
  simp only [ok_bind, pure_ok, if_true]

theorem receiveMoreData_start (offset : list.dataOffset = 0) (data : List Byte) {received : List Byte}
    (is : list.received ++ data = received) :
    list.receiveMoreData data =
      if list.requested.toNat ≤ received.length then
        .ok ({ list with
            received
            lindex := invalidLindex
            status := .nothing
            dataOffset := min received.length list.requested.toNat },
          ⟨[.fileRange .responseOk list.streamId
            (received.take (min received.length list.requested.toNat))], [], [.rdpResponseData]⟩)
      else .ok ({ list with received }, .empty) := by
  subst is
  have consumed : list.dataOffset ≤ (list.received ++ data).length := by
    rw [offset]
    exact Nat.zero_le _
  have sufficient := @hasSufficientData_ok { list with received := list.received ++ data } consumed
  simp only [offset, Nat.sub_zero] at sufficient
  rw [receiveMoreData]
  simp only [offset, sufficient, ok_bind, decide_eq_true_eq]
  rw [writeRdpResponseData_start rfl]
  rfl

end FileList

namespace Reading

variable {lindex : CbLindex} {file : File} {reading : Reading}

/-- What holds between two events of a reading that has been exact so far. -/
structure Progress (lindex : CbLindex) (file : File) (reading : Reading) : Prop where
  known : reading.list.file? lindex = some file
  stage : reading.Stage lindex file.fileSize

/-- A step that fails nowhere and keeps the progress. -/
def Proceeds (lindex : CbLindex) (file : File)
    (stepped : Reading × Checked FileListError TransferResult) : Prop :=
  stepped.2.isOk = true ∧ Progress lindex file stepped.1

section Receiving

theorem ask_fresh (known : reading.list.file? lindex = some file) (some' : file.fileSize ≠ 0)
    (idle : reading.list.status = .nothing) (free : reading.list.lindex = invalidLindex)
    (is : reading = start reading.list) {req : FileContentsRequest}
    (formed : reading.WellFormed lindex file.fileSize (.ask req)) :
    Proceeds lindex file (reading.step (.ask req)) := by
  obtain ⟨_, rfl, range, positive, position⟩ := formed
  have start : req.position = 0 := by
    rw [is] at position
    exact BitVec.eq_of_toNat_eq position
  have more : 0 < req.cbRequested.toNat := by
    refine Nat.pos_of_ne_zero fun none => positive (BitVec.eq_of_toNat_eq none)
  rw [step, FileList.rdpRequestedFile_first idle free known range start some', is]
  refine ⟨rfl, known, .asked ?_⟩
  constructor
  · rfl
  · rfl
  · rfl
  · rfl
  · exact start
  · rfl
  · rfl
  · exact Nat.zero_add _
  · rfl
  · rfl
  · exact more
  · exact Nat.zero_le _
  · rfl
  · exact fun _ => rfl

theorem accept_asked (known : reading.list.file? lindex = some file)
    (stage : reading.Receiving lindex file.fileSize false) :
    Proceeds lindex file (reading.step .accept) := by
  have called : reading.list.receiveVncFileRequestResponse true =
      .ok ({ reading.list with status := .transferInProgress },
        ⟨[], [confirmRequestedFileOk], [.vncConfirmFile]⟩) := by
    unfold FileList.receiveVncFileRequestResponse
    simp only [stage.status, Bool.false_eq_true, if_false, if_true]
  rw [step, called]
  refine ⟨rfl, known, .reads ?_⟩
  constructor
  · rfl
  · rfl
  · exact stage.lindex_eq
  · exact stage.continues
  · exact stage.first
  · exact stage.size_eq
  · exact stage.offset
  · exact stage.position
  · exact stage.answered
  · exact stage.received
  · exact stage.few
  · exact stage.fits
  · exact (List.append_nil _).trans stage.collected
  · exact nofun

/-- The first range is answered with what has come, when that is all of it or of the file. -/
theorem answers_first (known : reading.list.file? lindex = some file)
    (stage : reading.Receiving lindex file.fileSize true) {status : TransferStatus}
    (ready : status = .nothing ∨ status = .waitAbortResponse) {received stream : List Byte}
    (begins : received <+: stream) (fits : received.length ≤ file.fileSize)
    (enough : min file.fileSize reading.list.requested.toNat ≤ received.length) {ended : Bool}
    {called : Checked FileListError (FileList × TransferResult)} {packets : List FtPacket}
    {types : List ResponseType}
    (is : called = .ok ({ reading.list with
        received
        lindex := invalidLindex
        status
        dataOffset := min received.length reading.list.requested.toNat },
      ⟨[.fileRange .responseOk reading.list.streamId
        (received.take (min received.length reading.list.requested.toNat))], packets, types⟩)) :
    Proceeds lindex file (absorb { reading with stream, ended } called) := by
  have amount : min received.length reading.list.requested.toNat =
      min file.fileSize reading.position := by
    rw [stage.position]
    omega
  rw [← stage.position] at enough
  have positive : 0 < reading.position := by
    rw [stage.position]
    exact Nat.lt_of_le_of_lt (Nat.zero_le _) stage.few
  rw [amount] at is
  rw [is]
  refine ⟨rfl, known, .kept ?_⟩
  constructor
  · constructor
    · exact ready
    · rfl
    · exact stage.accepts
    · rfl
    · exact positive
  · exact stage.continues
  · exact stage.first
  · exact stage.position
  · exact begins
  · exact fits
  · exact enough
  · rfl
  · simp only [absorb, stage.collected, List.nil_append, List.flatMap_cons, List.flatMap_nil,
      List.append_nil, RdpPdu.data]
    obtain ⟨rest, rfl⟩ := begins
    rw [List.take_append_of_le_length enough]

theorem packet_reads (known : reading.list.file? lindex = some file)
    (stage : reading.Receiving lindex file.fileSize true) (data : List Byte) :
    Proceeds lindex file (reading.step (.packet data)) := by
  have transfers : reading.list.status = .transferInProgress := stage.status
  have short := stage.fits
  rw [step]
  unfold FileList.receiveVncFileData
  simp only [transfers, stage.size_eq, stage.received]
  by_cases beyond : file.fileSize < reading.stream.length + data.length
  · rw [if_pos beyond]
    have fits : (reading.stream ++
        data.take (file.fileSize - reading.stream.length)).length = file.fileSize := by
      rw [List.length_append, List.length_take]
      omega
    have least : min file.fileSize reading.list.requested.toNat ≤ (reading.stream ++
        data.take (file.fileSize - reading.stream.length)).length := by
      rw [fits]
      exact Nat.min_le_left _ _
    have begins : reading.stream ++ data.take (file.fileSize - reading.stream.length) <+:
        reading.stream ++ data :=
      (List.prefix_append_right_inj _).mpr (List.take_prefix _ _)
    refine answers_first known stage (.inr rfl) begins (Nat.le_of_eq fits) least
      (FileList.receiveLastData_start stage.offset data ?_)
    rw [stage.size_eq, stage.received]
  · have joined : reading.list.received ++ data = reading.stream ++ data := by rw [stage.received]
    have total : (reading.stream ++ data).length ≤ file.fileSize := by
      rw [List.length_append]
      exact Nat.le_of_not_lt beyond
    rw [if_neg beyond, FileList.receiveMoreData_start stage.offset data joined]
    by_cases enough : reading.list.requested.toNat ≤ (reading.stream ++ data).length
    · rw [if_pos enough]
      exact answers_first known stage (.inl rfl) (List.prefix_refl _) total
        ((Nat.min_le_right _ _).trans enough) rfl
    · rw [if_neg enough]
      refine ⟨rfl, known, .reads ?_⟩
      constructor
      · exact transfers
      · exact stage.accepts
      · exact stage.lindex_eq
      · exact stage.continues
      · exact stage.first
      · exact stage.size_eq
      · exact stage.offset
      · exact stage.position
      · exact stage.answered
      · rfl
      · exact Nat.lt_of_not_le enough
      · exact total
      · exact (List.append_nil _).trans stage.collected
      · exact nofun

theorem finish_reads (known : reading.list.file? lindex = some file)
    (stage : reading.Receiving lindex file.fileSize true)
    (whole : file.fileSize ≤ reading.stream.length) :
    Proceeds lindex file (reading.step .finish) := by
  have transfers : reading.list.status = .transferInProgress := stage.status
  have valid : reading.list.lindex ≠ invalidLindex := by
    rw [stage.lindex_eq]
    exact FileList.lindex_valid known
  have few : reading.list.received.length < reading.list.requested.toNat := by
    rw [stage.received]
    exact stage.few
  exact answers_first known stage (.inl rfl) (List.prefix_refl _) stage.fits
    ((Nat.min_le_left _ _).trans whole)
    (FileList.receiveVncEndOfFile_start transfers valid stage.offset few stage.received)

end Receiving

section Answered

/-- What the server does no longer changes the stage: its data is dropped, and its end is as well. -/
theorem ignores (ready : reading.Ready) (data : List Byte) :
    reading.list.receiveVncFileData data = .ok (reading.list, .empty) ∧
      ∃ status, (status = .nothing ∨ status = .waitAbortResponse) ∧
        reading.list.receiveVncEndOfFile = .ok ({ reading.list with status }, .empty) := by
  rcases ready.status with idle | aborts
  · constructor
    · unfold FileList.receiveVncFileData
      simp only [idle]
    · refine ⟨.nothing, .inl rfl, ?_⟩
      unfold FileList.receiveVncEndOfFile
      simp only [idle]
      rw [← idle]
  · constructor
    · unfold FileList.receiveVncFileData
      simp only [aborts]
    · refine ⟨.nothing, .inl rfl, ?_⟩
      unfold FileList.receiveVncEndOfFile
      simp only [aborts, FileList.abortAnswered, FileList.writeVncFileRequest, ready.free, if_true,
        ok_bind, pure_ok]

/-- A stage behind the first response stays what it is when the server sends more. -/
theorem Kept.more (stage : reading.Kept lindex file.fileSize) {status : TransferStatus}
    (ready : status = .nothing ∨ status = .waitAbortResponse) (data : List Byte) (ended : Bool) :
    Kept lindex file.fileSize { reading with
      list := { reading.list with status }, stream := reading.stream ++ data, ended } := by
  constructor
  · exact ⟨ready, stage.free, stage.accepts, stage.answered, stage.later⟩
  · exact stage.continues
  · exact stage.first
  · exact stage.position
  · exact stage.received.trans (List.prefix_append _ _)
  · exact stage.fits
  · exact stage.enough
  · exact stage.offset
  · have inside := stage.enough.trans stage.received.length_le
    rw [List.take_append_of_le_length inside]
    exact stage.collected

theorem Over.more (stage : reading.Over lindex file.fileSize) {status : TransferStatus}
    (ready : status = .nothing ∨ status = .waitAbortResponse) (data : List Byte) (ended : Bool) :
    Over lindex file.fileSize { reading with
      list := { reading.list with status }, stream := reading.stream ++ data, ended } := by
  constructor
  · exact ⟨ready, stage.free, stage.accepts, stage.answered, stage.later⟩
  · exact stage.dropped
  · have sent := stage.sent
    change min file.fileSize reading.position ≤ (reading.stream ++ data).length
    rw [List.length_append]
    omega
  · rw [List.take_append_of_le_length stage.sent]
    exact stage.collected

theorem server_answered (known : reading.list.file? lindex = some file) (ready : reading.Ready)
    (stays : ∀ (status : TransferStatus), (status = .nothing ∨ status = .waitAbortResponse) →
      ∀ (data : List Byte) (ended : Bool), Stage lindex file.fileSize { reading with
        list := { reading.list with status }, stream := reading.stream ++ data, ended })
    {event : ReadEvent} (server : (∃ data, event = .packet data) ∨ event = .finish) :
    Proceeds lindex file (reading.step event) := by
  rcases server with ⟨data, rfl⟩ | rfl
  · rw [step, (ignores ready data).1]
    have stage := stays reading.list.status ready.status data reading.ended
    refine ⟨rfl, known, ?_⟩
    simp only [absorb, TransferResult.empty, List.flatMap_nil, List.append_nil, if_true]
    exact stage
  · obtain ⟨status, next, called⟩ := (ignores ready []).2
    rw [step, called]
    have stage := stays status next [] true
    refine ⟨rfl, known, ?_⟩
    simp only [absorb, TransferResult.empty, List.flatMap_nil, List.append_nil, if_true] at stage ⊢
    exact stage

variable {req : FileContentsRequest}

theorem position_ne_zero (ready : reading.Ready)
    (formed : reading.WellFormed lindex file.fileSize (.ask req)) : req.position ≠ 0 := by
  intro start
  obtain ⟨_, _, _, _, position⟩ := formed
  rw [start] at position
  exact absurd ready.later (by rw [← position]; decide)

/-- A range was answered when nothing more is kept for it, and there is so much of the file. -/
structure Answers (lindex : CbLindex) (file : File) (reading : Reading) (req : FileContentsRequest)
    (collected : List Byte) (stepped : Reading × Checked FileListError TransferResult) :
    Prop where
  runs : stepped.2.isOk = true
  known : stepped.1.list.file? lindex = some file
  ready : stepped.1.Ready
  dropped : stepped.1.list.continuationLindex ≠ lindex
  position : stepped.1.position = reading.position + req.cbRequested.toNat
  stream : stepped.1.stream = reading.stream
  collected : stepped.1.collected = collected

/-- The second range is answered with what there is in the buffer. -/
theorem ask_kept (known : reading.list.file? lindex = some file)
    (stage : reading.Kept lindex file.fileSize)
    (formed : reading.WellFormed lindex file.fileSize (.ask req)) :
    Answers lindex file reading req (reading.stream.take
      (min reading.list.received.length (reading.position + req.cbRequested.toNat)))
      (reading.step (.ask req)) := by
  have later := position_ne_zero stage.toReady formed
  obtain ⟨_, rfl, range, _, position⟩ := formed
  have follows : req.position = reading.list.position +
      reading.list.requested.setWidth 64 := by
    have sum : reading.list.position + reading.list.requested.setWidth 64 =
        reading.list.requested.setWidth 64 := by
      rw [stage.first]
      exact BitVec.zero_add _
    apply BitVec.eq_of_toNat_eq
    rw [sum, position, stage.position, BitVec.toNat_setWidth, Nat.mod_eq_of_lt]
    exact Nat.lt_of_lt_of_le reading.list.requested.isLt (by decide)
  have enough := stage.enough
  have fits := stage.fits
  have consumed : (reading.list.lastRange req).dataOffset ≤
      (reading.list.lastRange req).received.length := by
    change reading.list.dataOffset ≤ reading.list.received.length
    rw [stage.offset]
    exact enough
  have called := FileList.rdpRequestedFile_follows stage.free known range later stage.continues
    follows stage.status
  rw [FileList.writeRdpResponseData_ok consumed] at called
  rw [step, called]
  refine ⟨rfl, known, ⟨.inl rfl, rfl, stage.accepts, rfl, Nat.add_pos_left stage.later _⟩, ?_, rfl,
    rfl, ?_⟩
  · exact (FileList.lindex_valid known).symm
  · have amount : (reading.list.lastRange req).available =
        min (reading.list.received.length - reading.list.dataOffset) req.cbRequested.toNat := rfl
    simp only [absorb, List.flatMap_cons, List.flatMap_nil, List.append_nil, RdpPdu.data, amount]
    change reading.collected ++ (reading.list.received.drop reading.list.dataOffset).take _ = _
    obtain ⟨rest, is⟩ := stage.received
    have held : reading.stream.take (min file.fileSize reading.position) =
        reading.list.received.take (min file.fileSize reading.position) := by
      rw [← is, List.take_append_of_le_length enough]
    rw [stage.collected, held, stage.offset, ← List.take_add, ← is,
      List.take_append_of_le_length (Nat.min_le_left _ _)]
    congr 1
    omega

theorem ask_over (known : reading.list.file? lindex = some file)
    (stage : reading.Over lindex file.fileSize)
    (formed : reading.WellFormed lindex file.fileSize (.ask req)) :
    Answers lindex file reading req reading.collected (reading.step (.ask req)) := by
  have later := position_ne_zero stage.toReady formed
  obtain ⟨_, rfl, range, _, position⟩ := formed
  have called := FileList.rdpRequestedFile_unsequenced stage.free known range later stage.dropped
  have responds : FileList.respond req .responseFail 0 .rdpResponseUnsequenced =
      ⟨[.fileRange .responseFail req.streamId []], [], [.rdpResponseUnsequenced]⟩ := by
    rw [FileList.respond, if_neg range]
  rw [responds] at called
  rw [step, called]
  refine ⟨rfl, known, ⟨stage.status, stage.free, stage.accepts, rfl,
    Nat.add_pos_left stage.later _⟩, (FileList.lindex_valid known).symm, rfl, rfl, ?_⟩
  exact List.append_nil _

end Answered

section Run

variable {event : ReadEvent}

theorem Receiving.no_ask {accepted : Bool}
    (stage : reading.Receiving lindex file.fileSize accepted) {req : FileContentsRequest}
    (formed : reading.WellFormed lindex file.fileSize (.ask req)) : False := by
  have same := formed.1
  rw [stage.answered, stage.position] at same
  have few := stage.few
  omega

/-- Once the first range has been answered, a step goes on as its ranges are answered. -/
theorem Ready.step (ready : reading.Ready) (known : reading.list.file? lindex = some file)
    (stays : ∀ (status : TransferStatus), (status = .nothing ∨ status = .waitAbortResponse) →
      ∀ (data : List Byte) (ended : Bool), Stage lindex file.fileSize { reading with
        list := { reading.list with status }, stream := reading.stream ++ data, ended })
    (formed : reading.WellFormed lindex file.fileSize event)
    (asks : ∀ req, event = .ask req → ∃ collected,
      Answers lindex file reading req collected (reading.step event) ∧
      min file.fileSize (reading.position + req.cbRequested.toNat) ≤ reading.stream.length ∧
      collected = reading.stream.take
        (min file.fileSize (reading.position + req.cbRequested.toNat))) :
    Proceeds lindex file (reading.step event) := by
  cases event with
  | accept => exact absurd (ready.accepts.symm.trans formed.1) (by decide)
  | packet data => exact server_answered known ready stays (.inl ⟨data, rfl⟩)
  | finish => exact server_answered known ready stays (.inr rfl)
  | ask req =>
    obtain ⟨collected, after, sent, all⟩ := asks req rfl
    rw [← after.position, ← after.stream] at sent all
    exact ⟨after.runs, after.known, .gone ⟨after.ready, after.dropped, sent,
      after.collected.trans all⟩⟩

theorem Kept.step (known : reading.list.file? lindex = some file)
    (stage : reading.Kept lindex file.fileSize)
    (formed : reading.WellFormed lindex file.fileSize event)
    (available : reading.Available file.fileSize event) :
    Proceeds lindex file (reading.step event) := by
  refine stage.toReady.step known (fun _ ready data ended => .kept (stage.more ready data ended))
    formed ?_
  rintro req rfl
  have fits := stage.fits
  have enough := stage.enough
  have inside := stage.received.length_le
  have all : min reading.list.received.length (reading.position + req.cbRequested.toNat) =
      min file.fileSize (reading.position + req.cbRequested.toNat) := by
    rcases available with none | beyond | ⟨_, held⟩
    · exact absurd none (Nat.ne_of_gt stage.later)
    · omega
    · omega
  refine ⟨_, ask_kept known stage formed, ?_, ?_⟩
  · rw [← all]
    exact (Nat.min_le_left _ _).trans inside
  · rw [← all]

theorem Over.step (known : reading.list.file? lindex = some file)
    (stage : reading.Over lindex file.fileSize)
    (formed : reading.WellFormed lindex file.fileSize event)
    (available : reading.Available file.fileSize event) :
    Proceeds lindex file (reading.step event) := by
  refine stage.toReady.step known (fun _ ready data ended => .gone (stage.more ready data ended))
    formed ?_
  rintro req rfl
  have same : min file.fileSize (reading.position + req.cbRequested.toNat) =
      min file.fileSize reading.position := by
    rcases available with none | beyond | ⟨same, _⟩
    · exact absurd none (Nat.ne_of_gt stage.later)
    · omega
    · rw [formed.2.1] at same
      exact absurd same stage.dropped
  refine ⟨_, ask_over known stage formed, ?_, ?_⟩
  · rw [same]
    exact stage.sent
  · rw [same]
    exact stage.collected

theorem Progress.step (progress : reading.Progress lindex file) (some' : file.fileSize ≠ 0)
    (formed : reading.WellFormed lindex file.fileSize event)
    (available : reading.Available file.fileSize event) :
    Proceeds lindex file (reading.step event) := by
  have known := progress.known
  cases progress.stage with
  | fresh idle free is =>
    cases event with
    | ask req => exact ask_fresh known some' idle free is formed
    | accept =>
      rw [is] at formed
      exact absurd formed.2 (Nat.lt_irrefl 0)
    | packet data =>
      rw [is] at formed
      exact absurd formed.1 Bool.false_ne_true
    | finish =>
      rw [is] at formed
      exact absurd formed.1 Bool.false_ne_true
  | asked stage =>
    cases event with
    | ask req => exact (stage.no_ask formed).elim
    | accept => exact accept_asked known stage
    | packet data => exact absurd (stage.accepts.symm.trans formed.1) (by decide)
    | finish => exact absurd (stage.accepts.symm.trans formed.1) (by decide)
  | reads stage =>
    cases event with
    | ask req => exact (stage.no_ask formed).elim
    | accept => exact absurd (stage.accepts.symm.trans formed.1) (by decide)
    | packet data => exact packet_reads known stage data
    | finish => exact finish_reads known stage formed.2.2
  | kept stage => exact stage.step known formed available
  | gone stage => exact stage.step known formed available

theorem Proceeds.exact (proceeds : Proceeds lindex file (reading.step event)) :
    reading.Exact file.fileSize event :=
  ⟨proceeds.1, proceeds.2.stage.exact.1, proceeds.2.stage.exact.2⟩

theorem take_inj {stream : List Byte} {first second : Nat} (inside : first ≤ stream.length)
    (inside' : second ≤ stream.length) (same : stream.take first = stream.take second) :
    first = second := by
  have lengths := congrArg List.length same
  rw [List.length_take, List.length_take, Nat.min_eq_left inside,
    Nat.min_eq_left inside'] at lengths
  exact lengths

theorem Progress.available (progress : reading.Progress lindex file)
    (formed : reading.WellFormed lindex file.fileSize event)
    (exactly : reading.Exact file.fileSize event) : reading.Available file.fileSize event := by
  cases event with
  | accept => trivial
  | packet data => trivial
  | finish => trivial
  | ask req =>
    have known := progress.known
    have sent := exactly.sent
    have all := exactly.all
    change min file.fileSize (reading.step (.ask req)).1.answered ≤
      (reading.step (.ask req)).1.stream.length at sent
    change (reading.step (.ask req)).1.collected = (reading.step (.ask req)).1.stream.take
      (min file.fileSize (reading.step (.ask req)).1.answered) at all
    cases progress.stage with
    | fresh idle free is =>
      rw [is]
      exact .inl rfl
    | asked stage => exact (stage.no_ask formed).elim
    | reads stage => exact (stage.no_ask formed).elim
    | kept stage =>
      have after := ask_kept known stage formed
      rw [after.ready.answered, after.position, after.stream] at sent
      rw [after.ready.answered, after.position, after.stream, after.collected] at all
      have inside := stage.received.length_le
      have same := take_inj ((Nat.min_le_left _ _).trans inside) sent all
      refine .inr (.inr ⟨stage.continues.trans formed.2.1.symm, ?_⟩)
      rw [← same]
      exact Nat.min_le_left _ _
    | gone stage =>
      have after := ask_over known stage formed
      rw [after.ready.answered, after.position, after.stream] at sent
      rw [after.ready.answered, after.position, after.stream, after.collected,
        stage.collected] at all
      have same := take_inj stage.sent sent all
      have positive : 0 < req.cbRequested.toNat :=
        Nat.pos_of_ne_zero fun none => formed.2.2.2.1 (BitVec.eq_of_toNat_eq none)
      refine .inr (.inl ?_)
      omega

/-- A client that reads a file by consecutive ranges gets the data of the server, up to the end of
the file, exactly when it needs two ranges at most, and the second one finds all of its data in the
buffer. -/
theorem read_exact (list : FileList) (lindex : CbLindex) (file : File)
    (known : list.file? lindex = some file) (some' : file.fileSize ≠ 0)
    (idle : list.status = .nothing) (free : list.lindex = invalidLindex) (events : List ReadEvent)
    (formed : machine.EveryStep (WellFormed lindex file.fileSize) (start list) events) :
    machine.EveryStep (Exact file.fileSize) (start list) events ↔
      machine.EveryStep (Available file.fileSize) (start list) events := by
  have keeps : ∀ reading event, Progress lindex file reading →
      WellFormed lindex file.fileSize reading event ∧ Available file.fileSize reading event →
      Progress lindex file (machine.next reading event) :=
    fun _ _ progress allowed => (progress.step some' allowed.1 allowed.2).2
  have exactly : ∀ reading event, Progress lindex file reading →
      (WellFormed lindex file.fileSize reading event ∧ Exact file.fileSize reading event ↔
        WellFormed lindex file.fileSize reading event ∧ Available file.fileSize reading event) :=
    fun _ _ progress => and_congr_right fun formed =>
      ⟨progress.available formed, fun available => (progress.step some' formed available).exact⟩
  have fresh : Progress lindex file (start list) := ⟨known, .fresh idle free rfl⟩
  have steps := Machine.everyStep_iff keeps exactly fresh events
  rw [Machine.everyStep_and, Machine.everyStep_and] at steps
  constructor
  · intro every
    exact (steps.mp ⟨formed, every⟩).2
  · intro every
    exact (steps.mpr ⟨formed, every⟩).2

/-- A file of three bytes is read, two bytes at a time. -/
theorem read_exact_two :
    machine.EveryStep (Exact 3) (start (.make FileSession.twoFiles))
      [.ask ⟨1, 0, 2, 0, 2⟩, .accept, .packet [10, 20, 30], .ask ⟨2, 0, 2, 2, 2⟩, .finish] :=
  (read_exact (.make FileSession.twoFiles) 0 ⟨[97], 3, false, by decide⟩ rfl (by decide) rfl rfl _
    (by decide)).mpr (by decide)

/-- What comes between the response to a range and the request of the next one is lost. -/
theorem read_exact_lost :
    machine.EveryStep (WellFormed 0 3) (start (.make FileSession.twoFiles))
        [.ask ⟨1, 0, 2, 0, 1⟩, .accept, .packet [10], .packet [20, 30], .ask ⟨2, 0, 2, 1, 2⟩] ∧
      ¬ machine.EveryStep (Exact 3) (start (.make FileSession.twoFiles))
        [.ask ⟨1, 0, 2, 0, 1⟩, .accept, .packet [10], .packet [20, 30], .ask ⟨2, 0, 2, 1, 2⟩] := by
  refine ⟨by decide, ?_⟩
  rintro ⟨_, _, _, _, last, _⟩
  exact absurd last.all (by decide)

end Run

end Reading

end Redemption.FileTransfer
