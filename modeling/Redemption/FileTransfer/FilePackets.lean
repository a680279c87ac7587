import Redemption.FileTransfer.UvncStream

/-! The packets that the data of a file are written to, and what the reader makes of a stream of
packets, however it comes. -/
namespace Redemption.FileTransfer

open Redemption.Foundation

/-- A number of so many bytes, the highest first. -/
def beBytes (width value : Nat) : List Byte := (leBytes width value).reverse

@[simp] theorem length_beBytes (width value : Nat) : (beBytes width value).length = width := by
  rw [beBytes, List.length_reverse, length_leBytes]

theorem inBe_append (width value : Nat) (rest : List Byte) :
    inBe width (beBytes width value ++ rest) = .ok (value % 2 ^ (8 * width), rest) := by
  rw [inBe, inBytes_append (length_beBytes width value), ok_bind]
  simp only [Vnc.beValue, beBytes, List.reverse_reverse, leValue_leBytes, pure_ok]

/-- `FilePacketType`, as a number. -/
def FilePacketType.toNat : FilePacketType → Nat
  | .uncompressed => 0
  | .compressed => 1
  | .skipData => 2

/-- The fields of `pkt::Header`. -/
def headerFields (contentType : Byte) (contentParam sizeOrOther textLen : Nat) : List Byte :=
  contentType :: leBytes 2 contentParam ++ beBytes 4 sizeOrOther ++ beBytes 4 textLen

/-- `pkt::Header::serialize`. -/
def headerBytes (contentType : Byte) (contentParam sizeOrOther textLen : Nat) : List Byte :=
  FileTransferCtx.fileTransferMessage :: headerFields contentType contentParam sizeOrOther textLen

/-- `FilePacketResult`, and what has been written. -/
structure FilePacketResult where
  written : List Byte
  tooSmallBuffer : Bool
  remainingInData : List Byte
  deriving DecidableEq, Repr

/-- `write_file_packet`, to a stream with so much room. -/
def writeFilePacket (tailroom : Nat) (type : FilePacketType) (inData : List Byte)
    (blockSize : BitVec 32) : FilePacketResult :=
  if headerPacketSize < tailroom then
    let partialLen := min (min (tailroom - headerPacketSize) inData.length) blockSize.toNat
    ⟨headerBytes 5 0 type.toNat partialLen ++ inData.take partialLen, false, inData.drop partialLen⟩
  else ⟨[], true, inData⟩

theorem length_headerBytes (contentType : Byte) (contentParam sizeOrOther textLen : Nat) :
    (headerBytes contentType contentParam sizeOrOther textLen).length = headerPacketSize := by
  simp [headerBytes, headerFields, headerPacketSize]

def filePacket (data : List Byte) : List Byte :=
  headerBytes 5 0 FilePacketType.uncompressed.toNat data.length ++ data

theorem writeFilePacket_split {tailroom : Nat} (inData : List Byte) (blockSize : BitVec 32)
    (room : headerPacketSize < tailroom) :
    ∃ data, data.length ≤ blockSize.toNat ∧
      (writeFilePacket tailroom .uncompressed inData blockSize).written = filePacket data ∧
      data ++ (writeFilePacket tailroom .uncompressed inData blockSize).remainingInData = inData := by
  have length : (inData.take (min (min (tailroom - headerPacketSize) inData.length)
      blockSize.toNat)).length =
        min (min (tailroom - headerPacketSize) inData.length) blockSize.toNat := by
    rw [List.length_take]
    omega
  rw [writeFilePacket, if_pos room]
  refine ⟨inData.take (min (min (tailroom - headerPacketSize) inData.length) blockSize.toNat),
    ?_, ?_, List.take_append_drop _ _⟩
  · rw [length]
    exact Nat.min_le_right _ _
  · rw [filePacket, length]

/-- `write_multi_uncompressed_file_packets`. -/
def writeMultiUncompressedFilePackets (tailroom : Nat) (inData : List Byte)
    (blockSize : BitVec 32) : FilePacketResult :=
  if inData = [] then ⟨[], false, inData⟩
  else if headerPacketSize < tailroom then
    let result := writeFilePacket tailroom .uncompressed inData blockSize
    let later := writeMultiUncompressedFilePackets (tailroom - result.written.length)
      result.remainingInData blockSize
    { later with written := result.written ++ later.written }
  else writeFilePacket tailroom .uncompressed inData blockSize
termination_by tailroom
decreasing_by
  obtain ⟨data, _, written, _⟩ := writeFilePacket_split inData blockSize ‹_›
  rw [written, filePacket, List.length_append, length_headerBytes]
  rw [headerPacketSize] at *
  omega

/-- What is written is packets of the data, as far as there is room for them. -/
theorem writeMulti_packets (tailroom : Nat) (inData : List Byte) (blockSize : BitVec 32) :
    ∃ packets : List (List Byte), (∀ data ∈ packets, data.length ≤ blockSize.toNat) ∧
      (writeMultiUncompressedFilePackets tailroom inData blockSize).written =
        packets.flatMap filePacket ∧
      packets.flatten ++ (writeMultiUncompressedFilePackets tailroom inData blockSize).remainingInData =
        inData ∧
      ((writeMultiUncompressedFilePackets tailroom inData blockSize).tooSmallBuffer = false →
        (writeMultiUncompressedFilePackets tailroom inData blockSize).remainingInData = []) := by
  fun_induction writeMultiUncompressedFilePackets tailroom inData blockSize with
  | case1 tailroom =>
    exact ⟨[], nofun, rfl, rfl, fun _ => rfl⟩
  | case2 tailroom inData some room result later ih =>
    obtain ⟨packets, fit, written, whole, done⟩ := ih
    obtain ⟨data, fits, first, split⟩ := writeFilePacket_split inData blockSize room
    refine ⟨data :: packets, ?_, ?_, ?_, done⟩
    · intro data' mem
      obtain rfl | mem := List.mem_cons.mp mem
      · exact fits
      · exact fit data' mem
    · rw [List.flatMap_cons, ← written, ← first]
    · rw [List.flatten_cons, List.append_assoc]
      rw [whole]
      exact split
  | case3 tailroom inData some full =>
    rw [writeFilePacket, if_neg full]
    exact ⟨[], nofun, rfl, rfl, nofun⟩

/-- With room for the data and for the headers of their packets, all of them are written. -/
theorem writeMulti_complete {tailroom : Nat} {inData : List Byte} {blockSize : BitVec 32}
    (some : 0 < blockSize.toNat)
    (room : inData.length + headerPacketSize *
      ((inData.length + blockSize.toNat - 1) / blockSize.toNat) ≤ tailroom) :
    (writeMultiUncompressedFilePackets tailroom inData blockSize).tooSmallBuffer = false := by
  fun_induction writeMultiUncompressedFilePackets tailroom inData blockSize with
  | case1 tailroom => rfl
  | case2 tailroom inData more _ result later ih =>
    have first : 0 < inData.length := List.length_pos_iff.mpr more
    have packets : (inData.length + blockSize.toNat - 1) / blockSize.toNat =
        (inData.length - 1) / blockSize.toNat + 1 := by
      rw [← Nat.add_div_right _ some]
      congr 1
      omega
    rw [packets, Nat.mul_succ] at room
    have full : min (min (tailroom - headerPacketSize) inData.length) blockSize.toNat =
        min inData.length blockSize.toNat := by omega
    have split : result = ⟨headerBytes 5 0 FilePacketType.uncompressed.toNat
        (min inData.length blockSize.toNat) ++ inData.take (min inData.length blockSize.toNat), false,
        inData.drop (min inData.length blockSize.toNat)⟩ := by
      rw [← full]
      exact if_pos (by omega)
    apply ih
    rw [split]
    simp only [List.length_append, length_headerBytes, List.length_take, List.length_drop]
    by_cases last : inData.length ≤ blockSize.toNat
    · rw [Nat.min_eq_left last, Nat.sub_self, Nat.zero_add, Nat.div_eq_of_lt (by omega)]
      omega
    · rw [Nat.min_eq_right (by omega), Nat.sub_add_cancel (by omega)]
      omega
  | case3 tailroom inData more full =>
    have first : 0 < inData.length := List.length_pos_iff.mpr more
    have packet : 0 < (inData.length + blockSize.toNat - 1) / blockSize.toNat :=
      Nat.div_pos (by omega) some
    have header := Nat.mul_le_mul_left headerPacketSize packet
    omega

theorem FileTransferHeader.read_headerFields (contentType : Byte)
    (contentParam sizeOrOther textLen : Nat) :
    FileTransferHeader.read (headerFields contentType contentParam sizeOrOther textLen) =
      .ok ⟨contentType, BitVec.ofNat 16 contentParam, BitVec.ofNat 32 sizeOrOther,
        textLen % 2 ^ 32⟩ := by
  have last : inBe 4 (beBytes 4 textLen) = .ok (textLen % 2 ^ 32, []) := by
    have read := inBe_append 4 textLen []
    rwa [List.append_nil] at read
  rw [FileTransferHeader.read, headerFields, List.cons_append, List.cons_append, inUint8, ok_bind,
    List.append_assoc]
  simp only
  rw [inLe_append, ok_bind]
  rw [inBe_append, ok_bind]
  rw [last, ok_bind, pure_ok]
  congr 2
  · apply BitVec.eq_of_toNat_eq
    simp only [BitVec.toNat_ofNat, Nat.mod_mod]
  · apply BitVec.eq_of_toNat_eq
    simp only [BitVec.toNat_ofNat, Nat.mod_mod]

namespace FileTransferCtx

/-- A state between two messages. -/
structure Between (ctx : FileTransferCtx) : Prop where
  inPacket : ctx.inPacket = false
  contentType : ctx.reader.contentType = 0

/-- A state between two messages, where no directory is being listed. -/
structure Idle (ctx : FileTransferCtx) : Prop extends Between ctx where
  sequence : ctx.reader.firstPduSequence = false

variable {ctx : FileTransferCtx}

theorem run_message (between : ctx.Between) (buf : List Byte) :
    run ctx (fileTransferMessage :: buf) =
      Call.wrap wrapper <$> ctx.reader.readPacket buf := by
  rw [run_cons between.inPacket, if_pos rfl, consumeFileTransferPacket_wrap]

/-- What the reader says of a packet of data. -/
def packetEvents (data : List Byte) : List ReaderEvent :=
  [.parsingHeader, .filePartialPacket data .uncompressed]

def packetHeader (data : List Byte) : FileTransferHeader := ⟨5, 0, 0, data.length⟩

theorem read_packetHeader {data : List Byte} (short : data.length < 2 ^ 32) :
    FileTransferHeader.read (headerFields 5 0 FilePacketType.uncompressed.toNat data.length) =
      .ok (packetHeader data) := by
  rw [FileTransferHeader.read_headerFields, Nat.mod_eq_of_lt short]
  rfl

theorem readContent_packet (reader : UvncReader) {data : List Byte}
    (fits : data.length ≤ reader.blockSize) (more : List Byte) :
    (reader.withHeader (packetHeader data)).readContent (data ++ more) =
      .ok ⟨.completed, [.filePartialPacket data .uncompressed],
        { (reader.withHeader (packetHeader data)).ended with textLen := 0 }, more⟩ := by
  have all : (reader.withHeader (packetHeader data)).textLen ≤ (data ++ more).length := by
    rw [List.length_append]
    exact Nat.le_add_right _ _
  have front : (data ++ more).take (reader.withHeader (packetHeader data)).textLen = data :=
    List.take_left
  have back : (data ++ more).drop (reader.withHeader (packetHeader data)).textLen = more :=
    List.drop_left
  change (reader.withHeader (packetHeader data)).readFilePacket (data ++ more) = _
  rw [UvncReader.readFilePacket, UvncReader.checkMaxLen_fits fits]
  change (reader.withHeader (packetHeader data)).consumePartialData (data ++ more)
    (fun data _ => .filePartialPacket data .uncompressed) = _
  rw [UvncReader.consumePartialData_all all, front, back]

theorem run_filePacket (idle : ctx.Idle) {data : List Byte}
    (fits : data.length ≤ ctx.reader.blockSize) (short : data.length < 2 ^ 32) (more : List Byte) :
    ∃ call, run ctx (filePacket data ++ more) = .ok call ∧ call.status = .completed ∧
      call.events = packetEvents data ∧ call.state.Idle ∧
        call.state.reader.blockSize = ctx.reader.blockSize ∧ call.rest = more := by
  have length : (headerFields 5 0 FilePacketType.uncompressed.toNat data.length).length =
      fileTransferHeaderLen := by
    simp [headerFields, fileTransferHeaderLen]
  have inSequence : (ctx.reader.withHeader (packetHeader data)).outOfSequence = false := by
    rw [UvncReader.outOfSequence, UvncReader.withHeader]
    simp only [idle.sequence, Bool.false_eq_true, false_and, decide_false]
  rw [filePacket, headerBytes, List.cons_append, List.cons_append, run_message idle.toBetween,
    List.append_assoc, UvncReader.readPacket_header idle.contentType length,
    UvncReader.behindHeader_content (read_packetHeader short) inSequence,
    readContent_packet ctx.reader fits]
  exact ⟨_, rfl, rfl, rfl, ⟨⟨rfl, rfl⟩, idle.sequence⟩, rfl, rfl⟩

theorem receive_nil (between : ctx.Between) : stream.receive ctx [] = .ok ⟨[], ctx, [], false⟩ := by
  have called : stream.call ctx [] = .ok ⟨.waits, [], ctx, []⟩ := run_nil between.inPacket
  exact Resumable.drain_waits called rfl _

theorem receive_packets (idle : ctx.Idle) {packets : List (List Byte)}
    (fit : ∀ data ∈ packets, data.length ≤ ctx.reader.blockSize)
    (short : ∀ data ∈ packets, data.length < 2 ^ 32) :
    ∃ state, stream.receive ctx (packets.flatMap filePacket) =
      .ok ⟨packets.flatMap packetEvents, state, [], false⟩ ∧ state.Idle := by
  induction packets generalizing ctx with
  | nil => exact ⟨ctx, receive_nil idle.toBetween, idle⟩
  | cons data packets ih =>
    have mem := @List.mem_cons_self _ data packets
    obtain ⟨call, called, completed, events, idle', blockSize, rest⟩ :=
      run_filePacket idle (fit data mem) (short data mem) (packets.flatMap filePacket)
    obtain ⟨state, received, still⟩ := ih idle'
      (fun data' later => blockSize ▸ fit data' (List.mem_cons_of_mem _ later))
      (fun data' later => short data' (List.mem_cons_of_mem _ later))
    have called' : stream.call ctx (filePacket data ++ packets.flatMap filePacket) = .ok call := called
    refine ⟨state, ?_, still⟩
    rw [List.flatMap_cons, resumes.receive_completed called' completed, rest, received, events]
    rfl

theorem coalesce_packets (packets : List (List Byte)) :
    readerFragments.coalesce (packets.flatMap packetEvents) = packets.flatMap packetEvents := by
  induction packets with
  | nil => rfl
  | cons data packets ih =>
    rw [List.flatMap_cons, packetEvents, List.cons_append, List.cons_append, List.nil_append,
      Fragments.coalesce_cons, Fragments.coalesce_cons, ih]
    cases packets <;> rfl

theorem mem_coalesce_error {type : ProtocolErrorType} {maxOrMinLen : Nat}
    {events : List ReaderEvent} :
    .error type maxOrMinLen ∈ readerFragments.coalesce events ↔
      .error type maxOrMinLen ∈ events := by
  constructor
  · apply Fragments.mem_of_mem_coalesce
    intro first second glued
    obtain ⟨_, _, _, _, _, whole⟩ | ⟨_, _, _, _, _, _, whole⟩ := ReaderEvent.glue_some glued
    · cases whole
    · cases whole
  · apply Fragments.mem_coalesce
    · exact fun _ => rfl
    · intro other
      cases other <;> rfl

/-- A message that is malformed stops the reader, behind any messages, or is a name that passes. -/
theorem refuses_malformed {front data rest : List Byte} {header : FileTransferHeader} {before whole}
    (received : stream.receive ctx front = .ok before) (goes : before.stopped = false)
    (between : before.state.Between) (taken : before.rest = [])
    (length : data.length = fileTransferHeaderLen)
    (read : FileTransferHeader.read data = .ok header)
    (malformed : (before.state.reader.withHeader header).Malformed)
    (short : ¬ (before.state.reader.withHeader header).PassesLong)
    (ran : stream.receive ctx (front ++ fileTransferMessage :: (data ++ rest)) = .ok whole) :
    whole.stopped = true ∧ ∃ type maxOrMinLen, .error type maxOrMinLen ∈ whole.events := by
  obtain ⟨call, type, maxOrMinLen, refused, stops, mem⟩ :=
    before.state.reader.readPacket_malformed between.contentType length read malformed short rest
  have ran' : run before.state (fileTransferMessage :: (data ++ rest)) =
      .ok (call.wrap wrapper) := by
    rw [run_message between, refused]
    rfl
  have called : stream.call before.state (fileTransferMessage :: (data ++ rest)) =
      .ok (call.wrap wrapper) := ran'
  obtain ⟨cut, same, delivered, again, alike⟩ :=
    resumes.deliver_alike [fileTransferMessage :: (data ++ rest)] ctx [] front
  have whole_same : same = whole := by
    rw [List.nil_append, List.flatten_singleton, ran] at again
    exact (Except.ok.inj again).symm
  subst whole_same
  rw [Resumable.deliver, List.nil_append, received, ok_bind, if_neg (by rw [goes]; exact Bool.false_ne_true), taken,
    Resumable.deliver, List.nil_append, Resumable.receive, Resumable.drain_stops called stops,
    ok_bind] at delivered
  cases delivered
  refine ⟨alike.stopped.symm, type, maxOrMinLen, ?_⟩
  rw [← mem_coalesce_error, ← alike.events, mem_coalesce_error]
  exact List.mem_append_right _ mem

/-- However a stream is cut, the reader makes of it what it makes of it in one piece, without reading
past its buffer. A call accounts for every byte that it reads. A malformed message stops the reader
with an error, behind any messages, if and only if it is no name of 277 to 280 bytes. Packets of data
give the data that were written, and these are all if there is room for them. -/
theorem cut_anywhere (ctx : FileTransferCtx) (buf chunk : List Byte) (chunks : List (List Byte)) :
    ∃ cut whole, stream.deliver ctx buf (chunk :: chunks) = .ok cut ∧
      stream.receive ctx (buf ++ chunk ++ chunks.flatten) = .ok whole ∧
      Resumable.Alike readerFragments cut whole ∧
      (∀ (reader : UvncReader) (buffer : List Byte), ∃ call, reader.readPacket buffer = .ok call ∧
        (call.status ≠ .stops → ∃ used, reader.Accounts buffer call used)) ∧
      (∀ front data rest header before,
        buf ++ chunk ++ chunks.flatten = front ++ fileTransferMessage :: (data ++ rest) →
        stream.receive ctx front = .ok before → before.stopped = false → before.state.Between →
        before.rest = [] → data.length = fileTransferHeaderLen →
        FileTransferHeader.read data = .ok header →
        (before.state.reader.withHeader header).Malformed →
        ¬ (before.state.reader.withHeader header).PassesLong →
          cut.stopped = true ∧ ∃ type maxOrMinLen, .error type maxOrMinLen ∈ cut.events) ∧
      (∀ (reader : UvncReader) (data rest : List Byte) (header : FileTransferHeader),
        reader.contentType = 0 → data.length = fileTransferHeaderLen →
        FileTransferHeader.read data = .ok header → (reader.withHeader header).Malformed →
        ((∃ call type maxOrMinLen, reader.readPacket (data ++ rest) = .ok call ∧
          call.status = .stops ∧ .error type maxOrMinLen ∈ call.events) ↔
            ¬ (reader.withHeader header).PassesLong)) ∧
      (∀ tailroom inData blockSize, ctx.Idle → blockSize.toNat ≤ ctx.reader.blockSize →
        buf ++ chunk ++ chunks.flatten =
          (writeMultiUncompressedFilePackets tailroom inData blockSize).written →
        cut.stopped = false ∧ cut.rest = [] ∧ cut.state.Idle ∧ ∃ packets : List (List Byte),
          readerFragments.coalesce cut.events = packets.flatMap packetEvents ∧
          packets.flatten ++
            (writeMultiUncompressedFilePackets tailroom inData blockSize).remainingInData = inData ∧
          ((writeMultiUncompressedFilePackets tailroom inData blockSize).tooSmallBuffer = false →
            packets.flatten = inData) ∧
          (0 < blockSize.toNat → inData.length + headerPacketSize *
              ((inData.length + blockSize.toNat - 1) / blockSize.toNat) ≤ tailroom →
            packets.flatten = inData)) := by
  obtain ⟨cut, whole, delivered, received, alike⟩ := resumes.deliver_alike chunks ctx buf chunk
  refine ⟨cut, whole, delivered, received, alike, ?_, ?_, ?_, ?_⟩
  · intro reader buffer
    obtain ⟨call, called, _⟩ := reader.steady_readPacket.total buffer
    exact ⟨call, called, UvncReader.accounts called⟩
  · intro front data rest header before same first goes between taken length read malformed short
    rw [same] at received
    obtain ⟨stopped, type, maxOrMinLen, mem⟩ :=
      refuses_malformed first goes between taken length read malformed short received
    refine ⟨alike.stopped.trans stopped, type, maxOrMinLen, ?_⟩
    rwa [← mem_coalesce_error, alike.events, mem_coalesce_error]
  · intro reader data rest header unknown length read malformed
    constructor
    · rintro ⟨call, _, _, called, stops, _⟩ passes
      obtain ⟨call', called', goes⟩ :=
        reader.readPacket_passesLong unknown length read passes rest
      cases called.symm.trans called'
      exact goes stops
    · exact fun short => reader.readPacket_malformed unknown length read malformed short rest
  · intro tailroom inData blockSize idle small same
    obtain ⟨packets, fit, written, all, done⟩ := writeMulti_packets tailroom inData blockSize
    obtain ⟨state, ran, still⟩ := receive_packets idle
      (fun data mem => Nat.le_trans (fit data mem) small)
      (fun data mem => Nat.lt_of_le_of_lt (fit data mem) blockSize.isLt)
    rw [same, written, ran] at received
    cases received
    have goes : cut.stopped = false := alike.stopped
    have given : (writeMultiUncompressedFilePackets tailroom inData blockSize).tooSmallBuffer =
        false → packets.flatten = inData := by
      intro complete
      rwa [done complete, List.append_nil] at all
    refine ⟨goes, alike.rest goes, alike.state goes ▸ still, packets, ?_, all, given, ?_⟩
    · exact alike.events.trans (coalesce_packets packets)
    · exact fun some room => given (writeMulti_complete some room)

/-- A name of 277 bytes is one more than a header may announce, and does not stop the reader. -/
theorem longName_passes :
    FileTransferHeader.read (headerFields 4 0 0 277) = .ok ⟨4, 0, 0, 277⟩ ∧
      (UvncReader.make.withHeader ⟨4, 0, 0, 277⟩).Malformed ∧
      (stream.receive ⟨.make, false⟩ (headerBytes 4 0 0 277 ++ List.replicate 281 0x61)).map
          (fun whole => (whole.events, whole.stopped)) =
        .ok ([.parsingHeader, .fileHeader (List.replicate 277 0x61) (0x61616161 * 2 ^ 32)], false) := by
  refine ⟨by decide, fun maxLen same => ?_, by decide +kernel⟩
  cases same
  decide

end FileTransferCtx

end Redemption.FileTransfer
