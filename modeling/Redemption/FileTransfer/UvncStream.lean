import Redemption.FileTransfer.UvncReaderSpec

/-! What the reader of the file transfer takes of its buffer, and the messages that it refuses. -/
namespace Redemption.FileTransfer

open Redemption.Foundation

namespace UvncReader

/-- What the messages of a type have behind their text. -/
def behindText (reader : UvncReader) : Nat :=
  if ServerToClientContentType.ofByte? reader.contentType = some .fileHeader then 4 else 0

/-- What is to come of the message that is being read. -/
def left (reader : UvncReader) : Nat :=
  if reader.contentType = 0 then 0 else reader.textLen + reader.behindText

/-- A call takes what it reads from the front of the buffer, and so much less is to come. -/
structure Takes (len : Nat) (read : List Byte → ReadPacket) : Prop where
  used : ∀ {buf call}, read buf = .ok call → call.status ≠ .stops →
    ∃ used, used + call.state.left = len ∧ used ≤ buf.length ∧ call.rest = buf.drop used ∧
      (call.status = .completed → call.state.left = 0)

variable {reader : UvncReader} {len : Nat}

theorem Takes.congr {read read' : List Byte → ReadPacket} (takes : Takes len read')
    (same : ∀ buf, read buf = read' buf) : Takes len read := by
  rw [funext same]
  exact takes

theorem takes_fail (reader : UvncReader) (type : ProtocolErrorType) (maxOrMinLen len : Nat) :
    Takes len fun buf => reader.fail buf type maxOrMinLen := by
  constructor
  intro buf call called goes
  cases called
  exact absurd rfl goes

theorem takes_complete (event : ReaderEvent) (none : reader.left = 0) :
    Takes 0 fun buf => reader.complete buf event := by
  constructor
  intro buf call called _
  cases called
  exact ⟨0, (Nat.zero_add _).trans none, Nat.zero_le _, rfl, fun _ => none⟩

theorem takes_checkMaxLen {maxLen : Nat} {next : List Byte → ReadPacket}
    (takes : reader.textLen ≤ maxLen → Takes len next) :
    Takes len fun buf => reader.checkMaxLen buf maxLen (next buf) := by
  by_cases long : maxLen < reader.textLen
  · exact (reader.takes_fail .tooLargeDataLength maxLen len).congr fun buf => if_pos long
  · exact (takes (Nat.le_of_not_lt long)).congr fun buf => if_neg long

theorem takes_waitPdu {maxLen : Nat} {next : List Byte → List Byte → ReadPacket}
    (left : reader.left = len) (takes : ∀ data : List Byte, data.length = len → Takes 0 (next data)) :
    Takes len fun buf => reader.waitPdu buf len maxLen next := by
  apply takes_checkMaxLen
  intro _
  constructor
  intro buf call called goes
  beta_reduce at called
  by_cases short : buf.length < len
  · rw [if_pos short] at called
    cases called
    exact ⟨0, (Nat.zero_add _).trans left, Nat.zero_le _, rfl, CallStatus.noConfusion⟩
  · have enough := Nat.le_of_not_lt short
    rw [if_neg short, inBytes_ok enough, ok_bind] at called
    have length : (buf.take len).length = len := by
      rw [List.length_take, Nat.min_eq_left enough]
    obtain ⟨used, none, less, rest, ends⟩ := (takes _ length).used called goes
    have nothing : used = 0 := by omega
    rw [nothing, Nat.zero_add] at none
    rw [nothing, List.drop_zero] at rest
    refine ⟨len, ?_, enough, rest, ends⟩
    rw [none, Nat.add_zero]

theorem takes_consumePartialData {event : List Byte → Nat → ReaderEvent}
    (left : ∀ textLen, { reader with textLen := textLen }.left = textLen) :
    Takes reader.textLen fun buf => reader.consumePartialData buf event := by
  constructor
  intro buf call called _
  beta_reduce at called
  by_cases part : buf.length < reader.textLen
  · rw [consumePartialData_part part] at called
    cases called
    refine ⟨buf.length, ?_, Nat.le_refl _, List.drop_length.symm, CallStatus.noConfusion⟩
    rw [left]
    exact Nat.add_sub_cancel' (Nat.le_of_lt part)
  · have all := Nat.le_of_not_lt part
    rw [consumePartialData_all all] at called
    cases called
    exact ⟨reader.textLen, rfl, all, rfl, fun _ => rfl⟩

theorem left_of_type {type : ServerToClientContentType}
    (is : ServerToClientContentType.ofByte? reader.contentType = some type)
    (other : type ≠ .fileHeader) : reader.left = reader.textLen := by
  have known : reader.contentType ≠ 0 := fun zero => by
    rw [zero] at is
    cases is
  have nothing : reader.behindText = 0 := if_neg (by
    rw [is]
    exact fun same => other (Option.some.inj same))
  rw [left, if_neg known, nothing, Nat.add_zero]

theorem left_fileHeader
    (is : ServerToClientContentType.ofByte? reader.contentType = some .fileHeader) :
    reader.left = reader.textLen + 4 := by
  have known : reader.contentType ≠ 0 := fun zero => by
    rw [zero] at is
    cases is
  rw [left, if_neg known, behindText, if_pos is]

theorem takes_readEmpty (event : ReaderEvent) (left : reader.left = reader.textLen) :
    Takes reader.left fun buf => reader.readEmpty buf event := by
  apply takes_checkMaxLen
  intro none
  rw [left, Nat.le_zero.mp none]
  exact takes_complete event rfl

theorem takes_readDirPacket (left : reader.left = reader.textLen) :
    Takes reader.left fun buf => reader.readDirPacket buf := by
  cases drive : ResponseDrive.ofParam? reader.contentParam with
  | none =>
    exact (reader.takes_fail .unknownSubType 0 _).congr fun buf => by rw [readDirPacket, drive]
  | some drive' =>
    cases drive' with
    | drivesList =>
      refine Takes.congr (takes_waitPdu rfl fun data _ => ?_) fun buf => by
        rw [readDirPacket, drive, left]
      exact takes_complete _ rfl
    | endList =>
      refine Takes.congr (takes_checkMaxLen fun none => ?_) fun buf => by
        rw [readDirPacket, drive]
      rw [left, Nat.le_zero.mp none]
      exact takes_complete _ rfl
    | file =>
      refine Takes.congr (takes_waitPdu rfl fun data _ => ?_) fun buf => by
        rw [readDirPacket, drive, left]
      by_cases first : reader.firstPduSequence = true
      · obtain ⟨info, read⟩ := FileInfo.read_ok data
        cases info with
        | none =>
          refine (reader.ended.takes_fail .tooSmallDataLength fileInfoPduMaxLen 0).congr ?_
          intro buf
          rw [if_pos first, read]
          rfl
        | some info =>
          refine Takes.congr (@takes_complete reader.ended (.fileInfo info) rfl) ?_
          intro buf
          rw [if_pos first, read]
          rfl
      · exact (takes_checkMaxLen fun _ => takes_complete _ rfl).congr fun buf => if_neg first

theorem takes_readFileHeader
    (is : ServerToClientContentType.ofByte? reader.contentType = some .fileHeader) :
    Takes reader.left fun buf => reader.readFileHeader buf := by
  rw [left_fileHeader is]
  apply takes_waitPdu (left_fileHeader is)
  intro data length
  constructor
  intro buf call called goes
  have front : data.length - 4 ≤ data.length := Nat.sub_le _ _
  have behind : 4 ≤ (data.drop (data.length - 4)).length := by
    rw [List.length_drop]
    omega
  rw [inBytes_ok front, ok_bind] at called
  simp only at called
  rw [inBe_ok behind] at called
  cases called
  exact ⟨0, rfl, Nat.zero_le _, rfl, fun _ => rfl⟩

theorem takes_readFilePacket
    (is : ServerToClientContentType.ofByte? reader.contentType = some .filePacket) :
    Takes reader.left fun buf => reader.readFilePacket buf := by
  rw [left_of_type is (by nofun)]
  apply takes_checkMaxLen
  intro _
  cases type : FilePacketType.ofSize? reader.sizeOrOther with
  | some type' =>
    apply takes_consumePartialData
    exact fun textLen => @left_of_type { reader with textLen := textLen } _ is (by nofun)
  | none =>
    constructor
    intro buf call called goes
    obtain ⟨inner, _, result⟩ := bind_ok_iff.mp called
    cases result
    exact absurd rfl goes

theorem takes_readProtocolVersion (left : reader.left = reader.textLen) :
    Takes reader.left fun buf => reader.readProtocolVersion buf := by
  apply takes_checkMaxLen
  intro none
  rw [left, Nat.le_zero.mp none]
  by_cases sized : reader.contentParam = 3 ∧ reader.sizeOrOther ≠ 0
  · by_cases high : maxBlockSizeAuthorized < reader.sizeOrOther.toNat
    · refine (takes_fail { reader.ended with blockSize := maxBlockSizeUvnc16 }
        .blockSizeTooHigh 0 0).congr fun buf => ?_
      rw [if_pos sized, if_pos high]
    · refine Takes.congr (@takes_complete
        { reader.ended with blockSize := reader.sizeOrOther.toNat }
        (.protocolVersion reader.contentParam (reader.contentParam = 3)) rfl) fun buf => ?_
      rw [if_pos sized, if_neg high]
  · exact (takes_complete _ rfl).congr fun buf => if_neg sized

theorem takes_readContent (reader : UvncReader) : Takes reader.left reader.readContent := by
  cases is : ServerToClientContentType.ofByte? reader.contentType with
  | none => exact (reader.takes_fail .unknownType 0 _).congr fun buf => by rw [readContent, is]
  | some type =>
    cases type with
    | dirPacket =>
      exact (takes_readDirPacket (left_of_type is (by decide))).congr fun buf => by
        rw [readContent, is]
    | fileHeader => exact (takes_readFileHeader is).congr fun buf => by rw [readContent, is]
    | filePacket => exact (takes_readFilePacket is).congr fun buf => by rw [readContent, is]
    | fileChecksums =>
      refine Takes.congr (takes_checkMaxLen fun _ => ?_) fun buf => by rw [readContent, is]
      rw [left_of_type is (by decide)]
      apply takes_consumePartialData
      exact fun textLen => @left_of_type { reader with textLen := textLen } _ is (by decide)
    | fileTransferProtocolVersion =>
      exact (takes_readProtocolVersion (left_of_type is (by decide))).congr fun buf => by
        rw [readContent, is]
    | endOfFile =>
      exact (takes_readEmpty .endOfFile (left_of_type is (by decide))).congr fun buf => by
        rw [readContent, is]
    | abortFileTransfer =>
      exact (takes_readEmpty .abortedFile (left_of_type is (by decide))).congr fun buf => by
        rw [readContent, is]
    | fileTransferAccess =>
      exact (takes_readEmpty (.fileTransferAccess reader.accepted)
        (left_of_type is (by decide))).congr fun buf => by rw [readContent, is]
    | fileAcceptHeader =>
      refine Takes.congr (takes_waitPdu rfl fun data _ => ?_) fun buf => by
        rw [readContent, is, left_of_type is (by decide)]
      exact takes_complete _ rfl
    | commandReturn =>
      refine Takes.congr (takes_waitPdu rfl fun data _ => ?_) fun buf => by
        rw [readContent, is, left_of_type is (by decide)]
      exact takes_complete _ rfl

/-- A call that begins a message waits for its header, or takes it and then its message. -/
theorem takes_readPacket {buf : List Byte} {call} (unknown : reader.contentType = 0)
    (called : reader.readPacket buf = .ok call) (goes : call.status ≠ .stops) :
    (call = ⟨.waits, [], reader, buf⟩ ∧ buf.length < fileTransferHeaderLen) ∨
      ∃ header used, FileTransferHeader.read (buf.take fileTransferHeaderLen) = .ok header ∧
        used + call.state.left = fileTransferHeaderLen + (reader.withHeader header).left ∧
        used ≤ buf.length ∧ call.rest = buf.drop used ∧
          (call.status = .completed → call.state.left = 0) := by
  rw [readPacket_await unknown, Resumable.await] at called
  by_cases short : buf.length < fileTransferHeaderLen
  · rw [if_pos short] at called
    cases called
    exact .inl ⟨rfl, short⟩
  · have enough := Nat.le_of_not_lt short
    have length : (buf.take fileTransferHeaderLen).length = fileTransferHeaderLen := by
      rw [List.length_take, Nat.min_eq_left enough]
    obtain ⟨header, read⟩ := FileTransferHeader.read_ok length
    rw [if_neg short, behindHeader, read, ok_bind] at called
    by_cases out : (reader.withHeader header).outOfSequence = true
    · simp only [if_pos out] at called
      cases called
      exact absurd rfl goes
    · simp only [if_neg out] at called
      obtain ⟨inner, answered, result⟩ := bind_ok_iff.mp called
      cases result
      obtain ⟨used, sum, less, rest, ends⟩ :=
        (reader.withHeader header).takes_readContent.used answered goes
      refine .inr ⟨header, fileTransferHeaderLen + used, read, ?_, ?_, ?_, ends⟩
      · rw [Nat.add_assoc, ← sum]
      · rw [List.length_drop] at less
        omega
      · rw [← List.drop_drop]
        exact rest

/-- What a call has read of the message that it goes on with, or begins. -/
structure Accounts (reader : UvncReader) (buf : List Byte) (call : Call UvncReader Byte ReaderEvent)
    (used : Nat) : Prop where
  room : used ≤ buf.length
  rest : call.rest = buf.drop used
  completed : call.status = .completed → call.state.left = 0
  goesOn : reader.contentType ≠ 0 → used + call.state.left = reader.left
  begins : reader.contentType = 0 → (used = 0 ∧ call.state = reader) ∨
    ∃ header, FileTransferHeader.read (buf.take fileTransferHeaderLen) = .ok header ∧
      used + call.state.left = fileTransferHeaderLen + (reader.withHeader header).left

theorem accounts {buf : List Byte} {call} (called : reader.readPacket buf = .ok call)
    (goes : call.status ≠ .stops) : ∃ used, reader.Accounts buf call used := by
  by_cases unknown : reader.contentType = 0
  · obtain ⟨rfl, _⟩ | ⟨header, used, read, sum, room, rest, ends⟩ :=
      takes_readPacket unknown called goes
    · exact ⟨0, Nat.zero_le _, rfl, CallStatus.noConfusion, fun known => absurd unknown known,
        fun _ => .inl ⟨rfl, rfl⟩⟩
    · exact ⟨used, room, rest, ends, fun known => absurd unknown known,
        fun _ => .inr ⟨header, read, sum⟩⟩
  · have answered : reader.readContent buf = .ok call := by
      rwa [readPacket, if_neg unknown] at called
    obtain ⟨used, sum, room, rest, ends⟩ := reader.takes_readContent.used answered goes
    exact ⟨used, room, rest, ends, fun _ => sum, fun zero => absurd zero unknown⟩

/-- The longest text of the messages of a type; there is none for an unknown type. -/
def maxTextLen? (reader : UvncReader) : Option Nat :=
  match ServerToClientContentType.ofByte? reader.contentType with
  | some .dirPacket =>
    match ResponseDrive.ofParam? reader.contentParam with
    | some .drivesList => some driveListMaxPacketLen
    | some .file => some fileInfoPduMaxLen
    | some .endList => some 0
    | none => none
  | some .fileHeader => some maxFileNameWithDate
  | some .filePacket => (FilePacketType.ofSize? reader.sizeOrOther).map fun _ => reader.blockSize
  | some .fileChecksums => some reader.blockSize
  | some .fileAcceptHeader => some (maxPathLength + 52)
  | some .commandReturn => some (maxPathLength * 2 + 1)
  | some .endOfFile => some 0
  | some .abortFileTransfer => some 0
  | some .fileTransferAccess => some 0
  | some .fileTransferProtocolVersion => some 0
  | none => none

/-- A message of no known type, or with a longer text than its type allows. -/
def Malformed (reader : UvncReader) : Prop := ∀ maxLen ∈ reader.maxTextLen?, maxLen < reader.textLen

/-- The name of a file that is too long, though not by more than the four bytes that follow it; in
a list of files it is refused because of the sequence. -/
def PassesLong (reader : UvncReader) : Prop :=
  ServerToClientContentType.ofByte? reader.contentType = some .fileHeader ∧
    (maxFileNameWithDate < reader.textLen ∧ reader.textLen ≤ fileHeaderPduMaxLen) ∧
    reader.outOfSequence = false

/-- A call that says an error and stops. -/
def Refuses (answer : ReadPacket) : Prop :=
  ∃ call type maxOrMinLen, answer = .ok call ∧ call.status = .stops ∧
    call.events = [.error type maxOrMinLen]

theorem refuses_fail (buf : List Byte) (type : ProtocolErrorType) (maxOrMinLen : Nat) :
    Refuses (reader.fail buf type maxOrMinLen) := ⟨_, type, maxOrMinLen, rfl, rfl, rfl⟩

theorem refuses_checkMaxLen {maxLen : Nat} (long : maxLen < reader.textLen) (buf : List Byte)
    (next : ReadPacket) : Refuses (reader.checkMaxLen buf maxLen next) := by
  rw [checkMaxLen, if_pos long]
  exact refuses_fail buf _ _

theorem readContent_malformed (malformed : reader.Malformed)
    (inSequence : reader.outOfSequence = false) (stops : ¬ reader.PassesLong) (buf : List Byte) :
    Refuses (reader.readContent buf) := by
  cases is : ServerToClientContentType.ofByte? reader.contentType with
  | none =>
    rw [readContent, is]
    exact refuses_fail buf _ _
  | some type =>
    rw [readContent, is]
    rw [Malformed, maxTextLen?, is] at malformed
    cases type with
    | dirPacket =>
      cases drive : ResponseDrive.ofParam? reader.contentParam with
      | none =>
        rw [readDirPacket, drive]
        exact refuses_fail buf _ _
      | some drive' =>
        rw [readDirPacket, drive]
        rw [drive] at malformed
        cases drive' <;> exact refuses_checkMaxLen (malformed _ rfl) buf _
    | filePacket =>
      by_cases long : reader.blockSize < reader.textLen
      · exact refuses_checkMaxLen long buf _
      · cases known : FilePacketType.ofSize? reader.sizeOrOther with
        | some type' =>
          rw [known] at malformed
          exact absurd (malformed _ rfl) long
        | none =>
          rw [readFilePacket, checkMaxLen_fits (Nat.le_of_not_lt long), known]
          by_cases part : buf.length < reader.textLen
          · rw [consumePartialData_part part]
            exact ⟨_, _, _, rfl, rfl, rfl⟩
          · rw [consumePartialData_all (Nat.le_of_not_lt part)]
            exact ⟨_, _, _, rfl, rfl, rfl⟩
    | fileHeader =>
      have long : fileHeaderPduMaxLen < reader.textLen :=
        Nat.lt_of_not_le fun passes => stops ⟨is, ⟨malformed _ rfl, passes⟩, inSequence⟩
      exact refuses_checkMaxLen long buf _
    | _ => exact refuses_checkMaxLen (malformed _ rfl) buf _

theorem readPacket_header {data : List Byte} (unknown : reader.contentType = 0)
    (length : data.length = fileTransferHeaderLen) (buf : List Byte) :
    reader.readPacket (data ++ buf) = reader.behindHeader data buf := by
  have enough : fileTransferHeaderLen ≤ (data ++ buf).length := by
    rw [List.length_append]
    exact Nat.le_add_right_of_le length.ge
  rw [readPacket_await unknown, Resumable.await_enough enough, List.take_left' length,
    List.drop_left' length]

theorem behindHeader_content {data : List Byte} {header : FileTransferHeader}
    (read : FileTransferHeader.read data = .ok header)
    (inSequence : (reader.withHeader header).outOfSequence = false) (buf : List Byte) :
    reader.behindHeader data buf =
      Call.after [.parsingHeader] <$> (reader.withHeader header).readContent buf := by
  rw [behindHeader, read, ok_bind]
  simp only [inSequence, Bool.false_eq_true, if_false]
  rfl

/-- A malformed message is refused as soon as its header has come, or is a name that passes. -/
theorem readPacket_malformed {data : List Byte} {header : FileTransferHeader}
    (unknown : reader.contentType = 0) (length : data.length = fileTransferHeaderLen)
    (read : FileTransferHeader.read data = .ok header)
    (malformed : (reader.withHeader header).Malformed)
    (short : ¬ (reader.withHeader header).PassesLong) (buf : List Byte) :
    ∃ call type maxOrMinLen, reader.readPacket (data ++ buf) = .ok call ∧ call.status = .stops ∧
      .error type maxOrMinLen ∈ call.events := by
  rw [readPacket_header unknown length]
  by_cases out : (reader.withHeader header).outOfSequence = true
  · rw [behindHeader, read, ok_bind]
    simp only [if_pos out]
    exact ⟨_, _, _, rfl, rfl, List.mem_singleton.mpr rfl⟩
  · have inSequence := Bool.eq_false_of_not_eq_true out
    obtain ⟨call, type, maxOrMinLen, refused, stops, events⟩ :=
      readContent_malformed malformed inSequence short buf
    rw [behindHeader_content read inSequence, refused]
    refine ⟨call.after [.parsingHeader], type, maxOrMinLen, rfl, stops, ?_⟩
    rw [Call.after, events]
    exact List.mem_cons_of_mem _ (List.mem_singleton.mpr rfl)

/-- The name is waited for, and given as it is. -/
theorem readPacket_passesLong {data : List Byte} {header : FileTransferHeader}
    (unknown : reader.contentType = 0) (length : data.length = fileTransferHeaderLen)
    (read : FileTransferHeader.read data = .ok header)
    (passes : (reader.withHeader header).PassesLong) (buf : List Byte) :
    ∃ call, reader.readPacket (data ++ buf) = .ok call ∧ call.status ≠ .stops := by
  obtain ⟨is, ⟨-, most⟩, inSequence⟩ := passes
  have fits : ¬ fileHeaderPduMaxLen < (reader.withHeader header).textLen := Nat.not_lt.mpr most
  rw [readPacket_header unknown length, behindHeader_content read inSequence, readContent, is]
  rw [readFileHeader, waitPdu, checkMaxLen, if_neg fits]
  by_cases part : buf.length < (reader.withHeader header).textLen + 4
  · rw [if_pos part]
    exact ⟨_, rfl, CallStatus.noConfusion⟩
  · have room : (reader.withHeader header).textLen + 4 ≤ buf.length := Nat.le_of_not_lt part
    have data := List.length_take_of_le room
    rw [if_neg part, inBytes_ok room, ok_bind]
    simp only
    rw [inBytes_ok (Nat.sub_le _ _), ok_bind]
    rw [inBe_ok (by rw [List.length_drop]; omega)]
    exact ⟨_, rfl, CallStatus.noConfusion⟩

end UvncReader

end Redemption.FileTransfer
