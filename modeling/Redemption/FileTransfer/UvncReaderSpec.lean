import Redemption.FileTransfer.UvncReader

/-! The reader of the file transfer can be called again at any point of a message. -/
namespace Redemption.FileTransfer

open Redemption.Foundation

/-- Two parts of the data of a packet, or of checksums, whose last part tells what is to come. -/
def ReaderEvent.glue : ReaderEvent → ReaderEvent → Option ReaderEvent
  | .filePartialPacket first type, second =>
    match second with
    | .filePartialPacket second type' =>
      if type = type' then some (.filePartialPacket (first ++ second) type) else none
    | _ => none
  | .filePartialChecksums first _, second =>
    match second with
    | .filePartialChecksums second remaining =>
      some (.filePartialChecksums (first ++ second) remaining)
    | _ => none
  | _, _ => none

theorem ReaderEvent.glue_some {first second whole : ReaderEvent}
    (glued : first.glue second = some whole) :
    (∃ data data' type, first = .filePartialPacket data type ∧
      second = .filePartialPacket data' type ∧ whole = .filePartialPacket (data ++ data') type) ∨
    (∃ data data' count remaining, first = .filePartialChecksums data count ∧
      second = .filePartialChecksums data' remaining ∧
        whole = .filePartialChecksums (data ++ data') remaining) := by
  cases first with
  | filePartialPacket data type =>
    cases second with
    | filePartialPacket data' type' =>
      by_cases same : type = type'
      · rw [ReaderEvent.glue, if_pos same, Option.some.injEq] at glued
        subst same
        exact .inl ⟨data, data', type, rfl, rfl, glued.symm⟩
      · rw [ReaderEvent.glue, if_neg same] at glued
        cases glued
    | _ => cases glued
  | filePartialChecksums data count =>
    cases second with
    | filePartialChecksums data' remaining =>
      rw [ReaderEvent.glue, Option.some.injEq] at glued
      exact .inr ⟨data, data', count, remaining, rfl, rfl, glued.symm⟩
    | _ => cases glued
  | _ => cases glued

/-- The data of a packet, and checksums, come in parts. -/
def readerFragments : Fragments ReaderEvent where
  glue := ReaderEvent.glue
  follows := by
    intro first second whole glued third
    obtain ⟨data, data', type, rfl, rfl, rfl⟩ | ⟨data, data', count, remaining, rfl, rfl, rfl⟩ :=
      ReaderEvent.glue_some glued
    · cases third with
      | filePartialPacket data'' type' =>
        simp only [ReaderEvent.glue]
        split <;> rfl
      | _ => rfl
    · cases third <;> rfl
  assoc := by
    intro first second whole third both glued next
    obtain ⟨data, data', type, rfl, rfl, rfl⟩ | ⟨data, data', count, remaining, rfl, rfl, rfl⟩ :=
      ReaderEvent.glue_some glued
    · obtain ⟨_, data'', _, same, rfl, rfl⟩ | ⟨_, _, _, _, other, _⟩ := ReaderEvent.glue_some next
      · cases same
        simp only [ReaderEvent.glue, if_true, List.append_assoc]
      · cases other
    · obtain ⟨_, _, _, other, _⟩ | ⟨_, data'', _, last, same, rfl, rfl⟩ :=
        ReaderEvent.glue_some next
      · cases other
      · cases same
        simp only [ReaderEvent.glue, List.append_assoc]

theorem inBe_ok {width : Nat} {stream : List Byte} (room : width ≤ stream.length) :
    inBe width stream = .ok (Vnc.beValue (stream.take width), stream.drop width) := by
  rw [inBe, inBytes_ok room]
  rfl

theorem FileTransferHeader.read_ok {data : List Byte}
    (length : data.length = fileTransferHeaderLen) :
    ∃ header, FileTransferHeader.read data = .ok header := by
  rw [fileTransferHeaderLen] at length
  cases data with
  | nil => cases length
  | cons contentType stream =>
    rw [List.length_cons] at length
    have two : 2 ≤ stream.length := by omega
    have four : 4 ≤ (stream.drop 2).length := by
      rw [List.length_drop]
      omega
    have last : 4 ≤ ((stream.drop 2).drop 4).length := by
      rw [List.length_drop, List.length_drop]
      omega
    refine exists_ok_bind rfl (exists_ok_bind (inLe_ok two) (exists_ok_bind (inBe_ok four) ?_))
    exact exists_ok_bind (inBe_ok last) ⟨_, rfl⟩

theorem FileInfo.read_ok (data : List Byte) : ∃ info, FileInfo.read data = .ok info := by
  unfold FileInfo.read
  by_cases short : data.length < fileInfoPduMinLen
  · exact ⟨none, if_pos short⟩
  · rw [if_neg short]
    rw [fileInfoPduMinLen] at short
    refine exists_ok_bind (inLe_ok (by omega)) ?_
    refine exists_ok_bind (inLe_ok (by simp only [List.length_drop]; omega)) ?_
    refine exists_ok_bind (inLe_ok (by simp only [List.length_drop]; omega)) ?_
    refine exists_ok_bind (inLe_ok (by simp only [List.length_drop]; omega)) ?_
    refine exists_ok_bind (inLe_ok (by simp only [List.length_drop]; omega)) ?_
    refine exists_ok_bind (inLe_ok (by simp only [List.length_drop]; omega)) ?_
    refine exists_ok_bind (inBytes_ok (by simp only [List.length_drop]; omega)) ?_
    refine exists_ok_bind (inBytes_ok (by simp only [List.length_drop]; omega)) ?_
    refine exists_ok_bind (inBytes_ok (by simp only [List.length_drop]; omega)) ?_
    exact ⟨_, rfl⟩

/-- What makes a part of `read_packet` one that can be called again. -/
abbrev Steady (read : List Byte → ReadPacket) : Prop :=
  Resumable.Lawful UvncReader.readPacket readerFragments read

theorem Steady.congr {read read' : List Byte → ReadPacket} (steady : Steady read')
    (same : ∀ buf, read buf = read' buf) : Steady read := by
  rw [funext same]
  exact steady

namespace UvncReader

variable {reader : UvncReader}

theorem steady_fail (reader : UvncReader) (type : ProtocolErrorType) (maxOrMinLen : Nat) :
    Steady fun buf => reader.fail buf type maxOrMinLen :=
  Resumable.Decided.lawful
    ⟨.stops, [.error type maxOrMinLen], reader, CallStatus.noConfusion, fun _ => rfl⟩

theorem steady_complete (reader : UvncReader) (event : ReaderEvent) :
    Steady fun buf => reader.complete buf event :=
  Resumable.Decided.lawful ⟨.completed, [event], reader, CallStatus.noConfusion, fun _ => rfl⟩

theorem steady_checkMaxLen {maxLen : Nat} {next : List Byte → ReadPacket}
    (steady : reader.textLen ≤ maxLen → Steady next) :
    Steady fun buf => reader.checkMaxLen buf maxLen (next buf) := by
  by_cases long : maxLen < reader.textLen
  · exact (reader.steady_fail .tooLargeDataLength maxLen).congr fun buf => if_pos long
  · exact (steady (Nat.le_of_not_lt long)).congr fun buf => if_neg long

theorem steady_waitPdu {len maxLen : Nat} {next : List Byte → List Byte → ReadPacket}
    (again : ∀ buf, reader.readPacket buf = reader.waitPdu buf len maxLen next)
    (steady : ∀ data : List Byte, data.length = len → Steady (next data)) :
    Steady fun buf => reader.waitPdu buf len maxLen next := by
  have awaits : ∀ buf : List Byte, (if buf.length < len then .ok ⟨.waits, [], reader, buf⟩
      else inBytes len buf >>= fun data => next data.1 data.2 : ReadPacket) =
        Resumable.await len reader next buf := by
    intro buf
    rw [Resumable.await]
    by_cases short : buf.length < len
    · rw [if_pos short, if_pos short]
    · rw [if_neg short, if_neg short, inBytes_ok (Nat.le_of_not_lt short)]
      rfl
  apply steady_checkMaxLen
  intro fits
  apply Steady.congr _ awaits
  apply Resumable.lawful_await _ steady
  funext buf
  rw [again, waitPdu, checkMaxLen, if_neg (Nat.not_lt.mpr fits)]
  exact awaits buf

variable {event : List Byte → Nat → ReaderEvent}

/-- What there is of a message that is read in parts, and what is left of it. -/
theorem consumePartialData_all {buf : List Byte}
    (all : reader.textLen ≤ buf.length) :
    reader.consumePartialData buf event =
      .ok ⟨.completed, [event (buf.take reader.textLen) 0],
        { reader.ended with textLen := 0 }, buf.drop reader.textLen⟩ := by
  rw [consumePartialData, Nat.min_eq_left all, inBytes_ok all]
  simp only [ok_bind, Nat.sub_self, if_true]
  rfl

theorem consumePartialData_part {buf : List Byte}
    (part : buf.length < reader.textLen) :
    reader.consumePartialData buf event =
      .ok ⟨.waits, [event buf (reader.textLen - buf.length)],
        { reader with textLen := reader.textLen - buf.length }, []⟩ := by
  have left : reader.textLen - buf.length ≠ 0 := by omega
  rw [consumePartialData, Nat.min_eq_right (Nat.le_of_lt part), inBytes_ok (Nat.le_refl _)]
  simp only [ok_bind, if_neg left, List.take_length, List.drop_length]
  rfl

/-- A message that is read in parts is the same, however it is cut. -/
theorem steady_consumePartialData
    (again : ∀ textLen ≤ reader.textLen, ∀ buf,
      { reader with textLen := textLen }.readPacket buf =
        { reader with textLen := textLen }.consumePartialData buf event)
    (glued : ∀ data data' count count',
      readerFragments.glue (event data count) (event data' count') =
        some (event (data ++ data') count')) :
    Steady fun buf => reader.consumePartialData buf event := by
  constructor
  · intro buf
    by_cases part : buf.length < reader.textLen
    · exact ⟨_, consumePartialData_part part, Nat.zero_le _⟩
    · refine ⟨_, consumePartialData_all (Nat.le_of_not_lt part), ?_⟩
      rw [List.length_drop]
      exact Nat.sub_le _ _
  · intro buf call called completed more
    by_cases part : buf.length < reader.textLen
    · rw [consumePartialData_part part] at called
      cases called
      cases completed
    · have all := Nat.le_of_not_lt part
      rw [consumePartialData_all all] at called
      cases called
      rw [consumePartialData_all (by rw [List.length_append]; exact Nat.le_add_right_of_le all),
        List.take_append_of_le_length all, List.drop_append_of_le_length all]
  · intro buf call called stops
    by_cases part : buf.length < reader.textLen
    · rw [consumePartialData_part part] at called
      cases called
      cases stops
    · rw [consumePartialData_all (Nat.le_of_not_lt part)] at called
      cases called
      cases stops
  · intro buf call called waits more
    by_cases part : buf.length < reader.textLen
    · rw [consumePartialData_part part] at called
      cases called
      rw [again _ (Nat.sub_le _ _), List.nil_append]
      by_cases short : (buf ++ more).length < reader.textLen
      · have less : more.length < reader.textLen - buf.length := by
          rw [List.length_append] at short
          omega
        refine ⟨_, _, consumePartialData_part short,
          @consumePartialData_part { reader with textLen := reader.textLen - buf.length } _ _ less,
          rfl, ?_, fun _ => ⟨?_, rfl⟩⟩
        · rw [List.length_append, ← Nat.sub_sub]
          exact (Fragments.coalesce_glued (glued _ _ _ _)).symm
        · rw [List.length_append, ← Nat.sub_sub]
      · have all := Nat.le_of_not_lt short
        have enough : reader.textLen - buf.length ≤ more.length := by
          rw [List.length_append] at all
          omega
        refine ⟨_, _, consumePartialData_all all,
          @consumePartialData_all { reader with textLen := reader.textLen - buf.length } _ _ enough,
          rfl, ?_, fun _ => ⟨rfl, ?_⟩⟩
        · rw [List.take_append, List.take_of_length_le (Nat.le_of_lt part)]
          exact (Fragments.coalesce_glued (glued _ _ _ _)).symm
        · rw [List.drop_append, List.drop_of_length_le (Nat.le_of_lt part), List.nil_append]
    · rw [consumePartialData_all (Nat.le_of_not_lt part)] at called
      cases called
      cases waits

theorem readPacket_content {type : ServerToClientContentType}
    (is : ServerToClientContentType.ofByte? reader.contentType = some type) (buf : List Byte) :
    reader.readPacket buf = reader.readContent buf := by
  apply if_neg
  intro zero
  rw [zero] at is
  cases is

theorem steady_readEmpty (reader : UvncReader) (event : ReaderEvent) :
    Steady fun buf => reader.readEmpty buf event :=
  steady_checkMaxLen fun _ => reader.ended.steady_complete event

theorem steady_readDirPacket
    (is : ServerToClientContentType.ofByte? reader.contentType = some .dirPacket) :
    Steady fun buf => reader.readDirPacket buf := by
  have again' : ∀ buf, reader.readPacket buf = reader.readDirPacket buf := fun buf => by
    rw [readPacket_content is, readContent, is]
  cases drive : ResponseDrive.ofParam? reader.contentParam with
  | none =>
    exact (reader.steady_fail .unknownSubType 0).congr fun buf => by rw [readDirPacket, drive]
  | some drive' =>
    cases drive' with
    | drivesList =>
      have same : ∀ buf, reader.readDirPacket buf =
          reader.waitPdu buf reader.textLen driveListMaxPacketLen fun data buf =>
            reader.ended.complete buf (.driveList (drivesList data)) := fun buf => by
        rw [readDirPacket, drive]
      apply (steady_waitPdu _ _).congr same
      · exact fun buf => (again' buf).trans (same buf)
      · exact fun data _ => reader.ended.steady_complete _
    | endList =>
      have same : ∀ buf, reader.readDirPacket buf = reader.checkMaxLen buf 0
          (complete { reader.ended with firstPduSequence := false } buf .endListDir) := fun buf => by
        rw [readDirPacket, drive]
      exact (steady_checkMaxLen fun _ => steady_complete _ _).congr same
    | file =>
      obtain ⟨next, same, steady⟩ : ∃ next, (∀ buf, reader.readDirPacket buf =
          reader.waitPdu buf reader.textLen fileInfoPduMaxLen next) ∧
            ∀ data, Steady (next data) := by
        refine ⟨_, fun buf => by rw [readDirPacket, drive], ?_⟩
        intro data
        by_cases first : reader.firstPduSequence = true
        · obtain ⟨info, read⟩ := FileInfo.read_ok data
          cases info with
          | none =>
            refine (reader.ended.steady_fail .tooSmallDataLength fileInfoPduMaxLen).congr ?_
            intro buf
            rw [if_pos first, read]
            rfl
          | some info =>
            refine (reader.ended.steady_complete (.fileInfo info)).congr ?_
            intro buf
            rw [if_pos first, read]
            rfl
        · exact (steady_checkMaxLen fun _ => steady_complete _ _).congr fun buf => if_neg first
      exact (steady_waitPdu (fun buf => (again' buf).trans (same buf)) fun data _ =>
        steady data).congr same

theorem steady_readFileHeader
    (is : ServerToClientContentType.ofByte? reader.contentType = some .fileHeader) :
    Steady fun buf => reader.readFileHeader buf := by
  apply steady_waitPdu
  · intro buf
    rw [readPacket_content is, readContent, is]
    rfl
  · intro data length
    have front : data.length - 4 ≤ data.length := Nat.sub_le _ _
    have behind : 4 ≤ (data.drop (data.length - 4)).length := by
      rw [List.length_drop]
      omega
    refine (reader.ended.steady_complete
      (.fileHeader (data.take (data.length - 4))
        (Vnc.beValue ((data.drop (data.length - 4)).take 4) * 2 ^ 32 +
          reader.sizeOrOther.toNat))).congr ?_
    intro buf
    rw [inBytes_ok front, ok_bind]
    simp only
    rw [inBe_ok behind]
    rfl

/-- Data of a packet of no known type are an error, where some of them are read. -/
theorem steady_unknownFilePacket
    (same : ∀ data data' count count', event data count = event data' count') :
    Steady fun buf => do
      let call ← reader.consumePartialData buf event
      return { call with status := .stops } := by
  have stops : ∀ buf, ∃ state rest, (do
      let call ← reader.consumePartialData buf event
      return { call with status := .stops } : ReadPacket) =
        .ok ⟨.stops, [event [] 0], state, rest⟩ ∧ rest.length ≤ buf.length := by
    intro buf
    by_cases part : buf.length < reader.textLen
    · rw [consumePartialData_part part, same buf [] _ 0]
      exact ⟨_, _, rfl, Nat.zero_le _⟩
    · rw [consumePartialData_all (Nat.le_of_not_lt part), same _ [] _ 0]
      refine ⟨_, _, rfl, ?_⟩
      rw [List.length_drop]
      exact Nat.sub_le _ _
  constructor
  · intro buf
    obtain ⟨state, rest, answers, less⟩ := stops buf
    exact ⟨_, answers, less⟩
  · intro buf call called completed
    obtain ⟨state, rest, answers, _⟩ := stops buf
    rw [answers] at called
    cases called
    cases completed
  · intro buf call called _ more
    obtain ⟨state, rest, answers, _⟩ := stops buf
    obtain ⟨state', rest', answers', _⟩ := stops (buf ++ more)
    rw [answers] at called
    cases called
    exact ⟨_, answers', rfl, rfl⟩
  · intro buf call called waits
    obtain ⟨state, rest, answers, _⟩ := stops buf
    rw [answers] at called
    cases called
    cases waits

theorem checkMaxLen_fits {maxLen : Nat} {buf : List Byte} {next : ReadPacket}
    (fits : reader.textLen ≤ maxLen) : reader.checkMaxLen buf maxLen next = next :=
  if_neg (Nat.not_lt.mpr fits)

theorem steady_readFilePacket
    (is : ServerToClientContentType.ofByte? reader.contentType = some .filePacket) :
    Steady fun buf => reader.readFilePacket buf := by
  apply steady_checkMaxLen
  intro fits
  cases type : FilePacketType.ofSize? reader.sizeOrOther with
  | some type' =>
    apply steady_consumePartialData
    · intro textLen less buf
      rw [@readPacket_content { reader with textLen := textLen } _ is, readContent]
      simp only [is]
      rw [readFilePacket, checkMaxLen_fits (Nat.le_trans less fits)]
      simp only [type]
    · exact fun data data' _ _ => if_pos rfl
  | none => exact steady_unknownFilePacket fun _ _ _ _ => rfl

theorem steady_readChecksums
    (is : ServerToClientContentType.ofByte? reader.contentType = some .fileChecksums) :
    Steady fun buf => reader.checkMaxLen buf reader.blockSize
      (reader.consumePartialData buf .filePartialChecksums) := by
  apply steady_checkMaxLen
  intro fits
  apply steady_consumePartialData
  · intro textLen less buf
    rw [@readPacket_content { reader with textLen := textLen } _ is, readContent]
    simp only [is]
    rw [checkMaxLen_fits (Nat.le_trans less fits)]
  · exact fun _ _ _ _ => rfl

theorem steady_readProtocolVersion (reader : UvncReader) :
    Steady fun buf => reader.readProtocolVersion buf := by
  apply steady_checkMaxLen
  intro _
  by_cases sized : reader.contentParam = 3 ∧ reader.sizeOrOther ≠ 0
  · by_cases high : maxBlockSizeAuthorized < reader.sizeOrOther.toNat
    · refine (steady_fail { reader.ended with blockSize := maxBlockSizeUvnc16 }
        .blockSizeTooHigh 0).congr fun buf => ?_
      rw [if_pos sized, if_pos high]
    · refine (steady_complete { reader.ended with blockSize := reader.sizeOrOther.toNat }
        (.protocolVersion reader.contentParam (reader.contentParam = 3))).congr fun buf => ?_
      rw [if_pos sized, if_neg high]
  · exact (steady_complete _ _).congr fun buf => if_neg sized

theorem steady_readContent (reader : UvncReader) : Steady reader.readContent := by
  cases is : ServerToClientContentType.ofByte? reader.contentType with
  | none => exact (reader.steady_fail .unknownType 0).congr fun buf => by rw [readContent, is]
  | some type =>
    cases type with
    | dirPacket => exact (steady_readDirPacket is).congr fun buf => by rw [readContent, is]
    | fileHeader => exact (steady_readFileHeader is).congr fun buf => by rw [readContent, is]
    | filePacket => exact (steady_readFilePacket is).congr fun buf => by rw [readContent, is]
    | fileChecksums => exact (steady_readChecksums is).congr fun buf => by rw [readContent, is]
    | fileTransferProtocolVersion =>
      exact reader.steady_readProtocolVersion.congr fun buf => by rw [readContent, is]
    | endOfFile =>
      exact (reader.steady_readEmpty .endOfFile).congr fun buf => by rw [readContent, is]
    | abortFileTransfer =>
      exact (reader.steady_readEmpty .abortedFile).congr fun buf => by rw [readContent, is]
    | fileTransferAccess =>
      exact (reader.steady_readEmpty (.fileTransferAccess reader.accepted)).congr fun buf => by
        rw [readContent, is]
    | fileAcceptHeader =>
      have same : ∀ buf, reader.readContent buf =
          reader.waitPdu buf reader.textLen (maxPathLength + 52) fun data buf =>
            reader.ended.complete buf (.fileAcceptHeader data reader.accepted) := fun buf => by
        rw [readContent, is]
      apply (steady_waitPdu _ _).congr same
      · exact fun buf => (readPacket_content is buf).trans (same buf)
      · exact fun data _ => reader.ended.steady_complete _
    | commandReturn =>
      have same : ∀ buf, reader.readContent buf =
          reader.waitPdu buf reader.textLen (maxPathLength * 2 + 1) fun data buf =>
            reader.ended.complete buf (.commandReturn data reader.accepted) := fun buf => by
        rw [readContent, is]
      apply (steady_waitPdu _ _).congr same
      · exact fun buf => (readPacket_content is buf).trans (same buf)
      · exact fun data _ => reader.ended.steady_complete _

/-- What is done with a header. -/
def behindHeader (reader : UvncReader) (data buf : List Byte) : ReadPacket := do
  let header ← FileTransferHeader.read data
  let reader := reader.withHeader header
  if reader.outOfSequence then reader.fail buf .invalidFileListSequence 0
  else do
    let call ← reader.readContent buf
    return { call with events := .parsingHeader :: call.events }

theorem readPacket_await (unknown : reader.contentType = 0) :
    reader.readPacket = Resumable.await fileTransferHeaderLen reader reader.behindHeader := by
  funext buf
  rw [readPacket, if_pos unknown, Resumable.await]
  by_cases short : buf.length < fileTransferHeaderLen
  · rw [if_pos short, if_pos short]
  · rw [if_neg short, if_neg short, inBytes_ok (Nat.le_of_not_lt short)]
    rfl

theorem steady_behindHeader {data : List Byte} (length : data.length = fileTransferHeaderLen) :
    Steady (reader.behindHeader data) := by
  obtain ⟨header, read⟩ := FileTransferHeader.read_ok length
  by_cases out : (reader.withHeader header).outOfSequence = true
  · refine (steady_fail (reader.withHeader header) .invalidFileListSequence 0).congr fun buf => ?_
    rw [behindHeader, read]
    exact if_pos out
  · refine Steady.congr ((reader.withHeader header).steady_readContent.after [.parsingHeader]) ?_
    intro buf
    rw [behindHeader, read]
    exact if_neg out

/-- `read_packet` can be called again wherever it has stopped. -/
theorem steady_readPacket (reader : UvncReader) : Steady reader.readPacket := by
  by_cases unknown : reader.contentType = 0
  · rw [readPacket_await unknown]
    exact Resumable.lawful_await (readPacket_await unknown) fun _ => steady_behindHeader
  · exact reader.steady_readContent.congr fun buf => if_neg unknown

end UvncReader

namespace FileTransferCtx

/-- Where a message has been begun, the next call goes on with it. -/
def wrapper (status : CallStatus) (reader : UvncReader) : FileTransferCtx :=
  ⟨reader, status ≠ .completed⟩

theorem consumeFileTransferPacket_wrap (reader : UvncReader) :
    consumeFileTransferPacket reader = fun buf => Call.wrap wrapper <$> reader.readPacket buf := by
  funext buf
  rw [consumeFileTransferPacket]
  cases reader.readPacket buf <;> rfl

theorem lawful_consume (reader : UvncReader) :
    Resumable.Lawful run readerFragments (consumeFileTransferPacket reader) := by
  rw [consumeFileTransferPacket_wrap]
  apply reader.steady_readPacket.wrap
  intro state
  rw [← consumeFileTransferPacket_wrap]
  rfl

variable {ctx : FileTransferCtx}

theorem run_nil (idle : ctx.inPacket = false) :
    run ctx [] = .ok ⟨.waits, [], ctx, []⟩ := by
  unfold run
  rw [if_neg (by rw [idle]; exact Bool.false_ne_true)]

theorem run_cons (idle : ctx.inPacket = false) (type : Byte)
    (buf : List Byte) :
    run ctx (type :: buf) =
      if type = fileTransferMessage then consumeFileTransferPacket ctx.reader buf
      else .ok ⟨.stops, [.otherMessage type], ctx, buf⟩ := by
  unfold run
  rw [if_neg (by rw [idle]; exact Bool.false_ne_true)]

theorem run_inPacket (inPacket : ctx.inPacket = true) :
    run ctx = consumeFileTransferPacket ctx.reader := by
  funext buf
  unfold run
  rw [if_pos inPacket]

theorem run_await (idle : ctx.inPacket = false) :
    run ctx = Resumable.await 1 ctx fun type buf =>
      if type = [fileTransferMessage] then consumeFileTransferPacket ctx.reader buf
      else .ok ⟨.stops, type.map .otherMessage, ctx, buf⟩ := by
  funext buf
  cases buf with
  | nil => exact run_nil idle
  | cons type buf =>
    rw [run_cons idle, Resumable.await_enough (Nat.le_add_left _ _)]
    by_cases ours : type = fileTransferMessage
    · rw [ours]
      rfl
    · have other : (type :: buf).take 1 ≠ [fileTransferMessage] := fun same => ours (by
        injection same)
      rw [if_neg other]
      exact if_neg ours

theorem lawful_run (ctx : FileTransferCtx) : Resumable.Lawful run readerFragments (run ctx) := by
  cases idle : ctx.inPacket with
  | true =>
    rw [run_inPacket idle]
    exact lawful_consume ctx.reader
  | false =>
    rw [run_await idle]
    apply Resumable.lawful_await (run_await idle)
    intro type _
    by_cases ours : type = [fileTransferMessage]
    · simp only [if_pos ours]
      exact lawful_consume ctx.reader
    · simp only [if_neg ours]
      exact Resumable.Decided.lawful
        ⟨.stops, type.map .otherMessage, ctx, CallStatus.noConfusion, fun _ => rfl⟩

/-- A call within a message reads some of it, and ends it or not. -/
theorem consume_call {reader : UvncReader} {buf : List Byte} {call}
    (called : consumeFileTransferPacket reader buf = .ok call) :
    call.rest.length ≤ buf.length ∧ call.state.inPacket = decide (call.status ≠ .completed) := by
  obtain ⟨inner, answered, less⟩ := reader.steady_readPacket.total buf
  rw [consumeFileTransferPacket, answered] at called
  cases called
  exact ⟨less, rfl⟩

theorem stream_weight (ctx : FileTransferCtx) :
    stream.weight ctx = if ctx.inPacket then 1 else 0 := rfl

theorem run_size {buf : List Byte} {call}
    (called : run ctx buf = .ok call) (goes : call.status ≠ .stops) :
    call = ⟨.waits, [], ctx, []⟩ ∧ buf = [] ∧ ctx.inPacket = false ∨
      call.rest.length + 1 ≤ stream.size ctx buf ∧
        call.state.inPacket = decide (call.status ≠ .completed) := by
  rw [Resumable.size, stream_weight]
  cases idle : ctx.inPacket with
  | true =>
    rw [run_inPacket idle] at called
    obtain ⟨less, inPacket⟩ := consume_call called
    refine .inr ⟨?_, inPacket⟩
    rw [if_pos rfl]
    omega
  | false =>
    cases buf with
    | nil =>
      rw [run_nil idle] at called
      cases called
      exact .inl ⟨rfl, rfl, rfl⟩
    | cons type buf =>
      rw [run_cons idle] at called
      by_cases ours : type = fileTransferMessage
      · rw [if_pos ours] at called
        obtain ⟨less, inPacket⟩ := consume_call called
        refine .inr ⟨?_, inPacket⟩
        rw [List.length_cons]
        omega
      · rw [if_neg ours] at called
        cases called
        exact absurd rfl goes

/-- The loop over `run` comes to an end. -/
theorem resumes : stream.Resumes readerFragments := by
  constructor
  · exact lawful_run
  · intro ctx buf call called completed
    obtain ⟨rfl, _⟩ | ⟨less, inPacket⟩ := run_size called (by rw [completed]; decide)
    · cases completed
    · have weight : stream.weight call.state = 0 := by
        rw [stream_weight, inPacket, completed]
        rfl
      rw [Resumable.size, weight, Nat.zero_add]
      exact less
  · intro ctx buf call called waits
    obtain ⟨rfl, rfl, _⟩ | ⟨less, inPacket⟩ := run_size called (by rw [waits]; decide)
    · exact Nat.le_refl _
    · have weight : stream.weight call.state = 1 := by
        rw [stream_weight, inPacket, waits]
        rfl
      rw [Resumable.size, weight, Nat.add_comm]
      exact less

end FileTransferCtx

end Redemption.FileTransfer
