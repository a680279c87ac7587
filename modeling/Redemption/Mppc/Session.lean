import Redemption.Foundation.Machine
import Redemption.Mppc.Decoder
import Redemption.Mppc.Encoder

/-! A compressor and a decompressor that only sees what was reported compressed. -/
namespace Redemption.Mppc

open Redemption.Foundation
open Redemption.Foundation.Lz

variable {format : Format}

/-- A packet of at most `limit` bytes. -/
structure Packet (limit : Nat) where
  data : List Byte
  bounded : data.length ≤ limit

/-- Where the index of the output ends: at the end of the buffer, or of its 16 bits. -/
def Format.outputLimit (format : Format) : Nat := min format.outputCapacity (2 ^ 16)

/-- A packet that is refused outright, or whose bytes would not reach the limit as literals. -/
def Format.Safe (format : Format) (data : List Byte) : Prop :=
  data.length = 0 ∨ format.histBufLen - 2 ≤ data.length ∨ plainBits data / 8 < format.outputLimit

instance (format : Format) (data : List Byte) : Decidable (format.Safe data) :=
  inferInstanceAs (Decidable (_ ∨ _ ∨ _))

theorem Format.safe_of_short {format : Format} {data : List Byte}
    (short : 9 * data.length / 8 < format.outputLimit) : format.Safe data :=
  .inr (.inr (Nat.lt_of_le_of_lt (Nat.div_le_div_right (plainBits_bounds data).2) short))

namespace Encoder

/-- No insertion for this packet starts below the limit on the output and crosses the
end of the buffer or of the 16-bit index. -/
def PacketFits (enc : Encoder format) (data : List Byte) : Prop :=
  data.length = 0 ∨ format.histBufLen - 2 ≤ data.length ∨
    ∀ prepared tokens, enc.begin.prepare data = .ok prepared →
      prepared.packetTokens data = .ok tokens →
      Output.Fits format.outputBufferSize format.outputLimit 0
        (tokens.flatMap format.tokenInsertions)

/-- The next packet that is sent starts at the front of the history. -/
def Pending (enc : Encoder format) : Prop :=
  enc.firstPkt = true ∨ enc.flagsHold.has packetAtFront = true

end Encoder

/-- The decompressor holds the history up to the compressor's offset, and is there
unless it will be told to go to the front. -/
structure Lockstep (enc : Encoder format) (dec : Decoder format) : Prop where
  below : enc.hashTabMgr.Below (max 1 enc.historyOffset)
  agree : AgreeBelow dec.historyBuf.cell enc.historyBuffer.cell enc.historyOffset
  front : enc.Pending → enc.historyOffset = 0
  following : ¬ enc.Pending → dec.historyPtr = enc.historyOffset
  flushed : enc.flagsHold.has packetFlushed = true → enc.Pending

theorem lockstep_fresh (format : Format) : Lockstep (.fresh format) (.fresh format) where
  below := HashTableManager.below_empty Nat.one_pos
  agree := fun _ bounded => (Nat.not_lt_zero _ bounded).elim
  front := fun _ => rfl
  following := fun settled => (settled (.inl rfl)).elim
  flushed := fun _ => .inl rfl

private theorem has_or_atFront : ∀ hold : Flags, (hold ||| packetAtFront).has packetAtFront = true := by
  decide

namespace Lockstep

variable {enc : Encoder format} {dec : Decoder format} {data : List Byte}

theorem begin (lockstep : Lockstep enc dec) : Lockstep enc.begin dec :=
  ⟨lockstep.below, lockstep.agree, lockstep.front, lockstep.following, lockstep.flushed⟩

private theorem markFirst (lockstep : Lockstep enc dec) : Lockstep enc.markFirst dec := by
  unfold Encoder.markFirst
  split
  · rename_i first
    exact ⟨lockstep.below, lockstep.agree, fun _ => lockstep.front (.inl first),
      fun settled => (settled (.inr (has_or_atFront _))).elim,
      fun _ => .inr (has_or_atFront _)⟩
  · exact lockstep

private theorem rewind (lockstep : Lockstep enc dec) (dataSize : Nat) :
    Lockstep (enc.rewind dataSize) dec := by
  unfold Encoder.rewind
  split
  · exact ⟨HashTableManager.below_empty Nat.one_pos,
      fun _ bounded => (Nat.not_lt_zero _ bounded).elim, fun _ => rfl,
      fun settled => (settled (.inr (has_or_atFront _))).elim,
      fun _ => .inr (has_or_atFront _)⟩
  · exact lockstep

theorem giveUp (lockstep : Lockstep enc dec) {manager : HashTableManager}
    (undoes : manager.Undoes enc.hashTabMgr.table) (out : Output format.outputCapacity) :
    Lockstep (enc.giveUp manager out) dec := by
  unfold Encoder.giveUp
  cases undone : manager.undoLastChanges with
  | some restored =>
    have same := undoes.rollback_eq undone
    subst same
    exact ⟨lockstep.below.congr rfl, lockstep.agree, lockstep.front, lockstep.following,
      lockstep.flushed⟩
  | none =>
    exact ⟨HashTableManager.below_empty Nat.one_pos,
      fun _ bounded => (Nat.not_lt_zero _ bounded).elim, fun _ => rfl,
      fun settled => (settled (.inl rfl)).elim, fun _ => .inl rfl⟩

end Lockstep

/-- What going to the front, where it is due, does to the other fields. -/
private theorem arrange_run (enc : Encoder format) {dataSize : Nat}
    (short : dataSize + 2 < format.histBufLen)
    (undoes : enc.hashTabMgr.Undoes enc.hashTabMgr.table) :
    (enc.markFirst.rewind dataSize).historyOffset + dataSize + 2 < format.histBufLen ∧
      (enc.markFirst.rewind dataSize).firstPkt = false ∧
      (enc.markFirst.rewind dataSize).flags = enc.flags ∧
      (enc.markFirst.rewind dataSize).outputBuffer = enc.outputBuffer ∧
      (enc.markFirst.rewind dataSize).hashTabMgr.Undoes
        (enc.markFirst.rewind dataSize).hashTabMgr.table := by
  have marked : enc.markFirst.firstPkt = false ∧ enc.markFirst.flags = enc.flags ∧
      enc.markFirst.outputBuffer = enc.outputBuffer ∧
      enc.markFirst.hashTabMgr = enc.hashTabMgr := by
    unfold Encoder.markFirst
    cases first : enc.firstPkt <;> simp [first]
  obtain ⟨first, flags, outputBuffer, manager⟩ := marked
  unfold Encoder.rewind
  split
  · exact ⟨by simpa using short, first, flags, outputBuffer, HashTableManager.undoes_empty⟩
  · refine ⟨by omega, first, flags, outputBuffer, ?_⟩
    rw [manager]
    exact undoes

variable {enc : Encoder format}

/-- A packet that is worth a try is put behind what both sides have. -/
theorem prepare_run (lawful : format.Lawful)
    {dec : Decoder format} {data : List Byte} (lockstep : Lockstep enc dec)
    (undoes : enc.hashTabMgr.Undoes enc.hashTabMgr.table) (nonempty : 0 < data.length)
    (short : data.length + 2 < format.histBufLen) :
    ∃ prepared, enc.prepare data = .ok prepared ∧ prepared.Prepared data ∧
      prepared.firstPkt = false ∧ prepared.flags = enc.flags ∧ Lockstep prepared dec := by
  have capacity := lawful.histBufLen_le_capacity
  have zeros : 0 + (List.replicate data.length (0 : Byte)).length ≤ format.outputCapacity := by
    rw [List.length_replicate]
    omega
  let cleared : Encoder format :=
    { enc with outputBuffer := enc.outputBuffer.splice 0 (List.replicate data.length 0) }
  obtain ⟨room, first, flags, outputBuffer, undoes'⟩ :=
    arrange_run cleared short undoes
  have arranged : Lockstep (cleared.markFirst.rewind data.length) dec :=
    ((⟨lockstep.below, lockstep.agree, lockstep.front, lockstep.following,
      lockstep.flushed⟩ : Lockstep cleared dec).markFirst).rewind data.length
  let ready := cleared.markFirst.rewind data.length
  have inside : ready.historyOffset + data.length ≤ format.histBufLen := by
    show (cleared.markFirst.rewind data.length).historyOffset + data.length ≤ format.histBufLen
    omega
  refine ⟨{ ready with historyBuffer := ready.historyBuffer.splice ready.historyOffset data },
    ?_, ?_, first, flags, ?_⟩
  · rw [Encoder.prepare, Buffer.storeBlock_of_le _ zeros, ok_bind]
    show (do
      let historyBuffer ← ready.historyBuffer.storeBlock ready.historyOffset data
      pure { ready with historyBuffer }) = _
    rw [Buffer.storeBlock_of_le _ inside, ok_bind, pure_ok]
  · refine ⟨nonempty, room, fun index bounded => ?_, arranged.below, undoes', ?_⟩
    · exact Buffer.cell_splice_inside _ _ _ bounded
    · have zeroed := @Buffer.cell_splice_inside _ _ enc.outputBuffer 0
        (List.replicate data.length (0 : Byte)) 0 (by simpa using nonempty)
      rw [outputBuffer]
      simpa [cleared] using zeroed
  · refine ⟨arranged.below, fun index bounded => ?_, arranged.front, arranged.following,
      arranged.flushed⟩
    rw [arranged.agree index bounded]
    exact (Buffer.cell_splice_before _ _ _ bounded).symm

theorem flags_run (lawful : format.Lawful) (hold : Flags) :
    (format.comprType ||| packetCompressed ||| hold).has packetCompressed = true ∧
      (format.comprType ||| packetCompressed ||| hold) &&& packetCompressed = packetCompressed ∧
      (format.comprType ||| packetCompressed ||| hold).has packetAtFront =
        hold.has packetAtFront ∧
      (format.comprType ||| packetCompressed ||| hold).has packetFlushed =
        hold.has packetFlushed := by
  rcases lawful.comprType with type | type <;> rw [type] <;> revert hold <;> decide

theorem settled_flags (lawful : format.Lawful) :
    format.comprType.has packetCompressed = false := by
  rcases lawful.comprType with type | type <;> rw [type] <;> decide

/-- A packet that is reported compressed is decompressed to itself. -/
private theorem succeed_run (lawful : format.Lawful)
    {dec : Decoder format} {data : List Byte} (prepared : enc.Prepared data)
    (lockstep : Lockstep enc dec) (first : enc.firstPkt = false)
    (flags : enc.flags = format.comprType) {tokens : List (Token Byte)}
    {manager : HashTableManager} {out : Output format.outputCapacity}
    (below : manager.Below (enc.historyOffset + data.length))
    (parse : Parses enc.historyBuffer.cell enc.historyOffset
      (enc.historyOffset + data.length) tokens)
    (valid : ∀ token ∈ tokens, format.Valid token)
    (packs : out.Packs (tokens.flatMap format.tokenBits))
    (counted : out.byteCount ≤ format.outputCapacity) :
    ∃ bytes, (enc.succeed data manager out).result =
        .ok (some ((enc.succeed data manager out).flags, bytes)) ∧
      ∃ dec', dec.decompressed bytes (enc.succeed data manager out).flags = .ok (dec', data) ∧
        Lockstep (enc.succeed data manager out) dec' := by
  obtain ⟨reported, compressed, atFront, flushed⟩ := flags_run lawful enc.flagsHold
  rw [← flags] at reported compressed atFront flushed
  have room := prepared.room
  refine ⟨out.outputBuffer.slice 0 out.byteCount, ?_, ?_⟩
  · have inside : 0 + out.byteCount ≤ format.outputCapacity := by omega
    show (if (enc.flags ||| packetCompressed ||| enc.flagsHold).has packetCompressed then _
      else _) = _
    rw [if_pos reported]
    show (out.outputBuffer.loadBlock 0 out.byteCount >>= _) = _
    rw [Buffer.loadBlock_of_le _ inside, ok_bind]
    rfl
  · obtain ⟨padding, short, bits⟩ := packs.bytes
    have position : dec.position (enc.flags ||| packetCompressed ||| enc.flagsHold) =
        enc.historyOffset := by
      unfold Decoder.position
      rw [atFront]
      split
      · rename_i held
        exact (lockstep.front (.inr held)).symm
      · rename_i free
        apply lockstep.following
        rintro (again | held)
        · rw [first] at again
          cases again
        · exact free held
    have toFront : (enc.flags ||| packetCompressed ||| enc.flagsHold).has packetFlushed = true →
        (enc.flags ||| packetCompressed ||| enc.flagsHold).has packetAtFront = true := by
      rw [atFront, flushed]
      intro held
      rcases lockstep.flushed held with again | waiting
      · rw [first] at again
        cases again
      · exact waiting
    obtain ⟨dec', run, reached, agree⟩ := Decoder.decompressed_run lawful dec compressed toFront
      bits short (by rw [position]; exact parse) valid (by omega)
      (by rw [position]; exact lockstep.agree)
    rw [position] at run
    have whole : (List.range (enc.historyOffset + data.length - enc.historyOffset)).map
        (fun index => enc.historyBuffer.cell (enc.historyOffset + index)) = data := by
      rw [Nat.add_sub_cancel_left]
      exact enc.historyBuffer.slice_eq_of_getElem enc.historyOffset data prepared.text
    rw [whole] at run
    refine ⟨dec', run, below.mono (Nat.le_max_right _ _), agree, ?_, fun _ => reached, ?_⟩
    · rintro (again | held)
      · exact (Bool.eq_false_iff.mp first again).elim
      · exact absurd held (show ¬ (0 : Flags).has packetAtFront = true by decide)
    · exact fun held => absurd held (show ¬ (0 : Flags).has packetFlushed = true by decide)

private theorem giveUp_flags (enc : Encoder format) (manager : HashTableManager)
    (out : Output format.outputCapacity) : (enc.giveUp manager out).flags = enc.flags := by
  unfold Encoder.giveUp
  cases manager.undoLastChanges <;> rfl

private theorem result_none (lawful : format.Lawful)
    (flags : enc.flags = format.comprType) : enc.result = .ok none := by
  have silent := settled_flags lawful
  rw [← flags] at silent
  simp [Encoder.result, silent]

private theorem out_nonempty (lawful : format.Lawful) {text : Nat → Byte} {start size : Nat}
    {tokens : List (Token Byte)} (parse : Parses text start (start + size) tokens)
    (nonempty : 0 < size) (valid : ∀ token ∈ tokens, format.Valid token)
    {out : Output format.outputCapacity} (packs : out.Packs (tokens.flatMap format.tokenBits)) :
    0 < out.byteCount := by
  have many := Format.eight_mul_le lawful valid
  have length := packs.length
  cases tokens with
  | nil =>
    have reached := parse.finish_eq
    simp only [List.map_nil, List.sum_nil] at reached
    omega
  | cons token rest =>
    rw [List.length_cons] at many
    unfold Output.byteCount
    split <;> omega

/-- Wherever it is put, no encoding of a safe packet reaches the limit. -/
theorem Lockstep.packetFits (lawful : format.Lawful)
    {dec : Decoder format} (lockstep : Lockstep enc dec) {data : List Byte}
    (safe : format.Safe data) : enc.PacketFits data := by
  by_cases skipped : data.length = 0 ∨ format.histBufLen - 2 ≤ data.length
  · exact skipped.imp_right .inl
  · have short : plainBits data / 8 < format.outputLimit := by
      rcases safe with empty | long | short
      · exact (skipped (.inl empty)).elim
      · exact (skipped (.inr long)).elim
      · exact short
    refine .inr (.inr fun prepared tokens arranged tokenized => ?_)
    have enough : 2 < format.outputLimit := by
      have capacity := lawful.histBufLen_le_capacity
      simp only [Format.outputLimit]
      omega
    obtain ⟨other, arranged', ready, _, _, _⟩ := prepare_run lawful lockstep.begin
      (HashTableManager.undoes_clear enc.hashTabMgr) (show 0 < data.length by omega) (by omega)
    rw [arranged] at arranged'
    cases arranged'
    obtain ⟨tokens', manager, tokenized', undoes, valid, two, few, parses, attempts⟩ :=
      Encoder.encodePacket_run ready
    rw [tokenized] at tokenized'
    cases tokenized'
    apply Output.fits_of_total
    rw [format.insertedBits_tokens, Nat.zero_add]
    by_cases tiny : data.length ≤ 2
    · obtain ⟨bytes, rfl, pair⟩ := few tiny
      have literals : ((bytes.map Token.literal).flatMap format.tokenBits).length =
          plainBits bytes := by
        simp [plainBits, List.flatMap_map, Format.tokenBits, Format.tokenInsertions,
          Output.insertedBits, List.length_flatMap]
      have most := Nat.le_trans (plainBits_bounds bytes).2 (Nat.mul_le_mul_left 9 pair)
      rw [literals]
      exact Nat.lt_of_le_of_lt (Nat.div_le_div_right most) enough
    · obtain ⟨_, parse⟩ := parses (.inr (by omega))
      have total := Format.le_plainBits lawful parse valid
      have whole := prepared.historyBuffer.slice_eq_of_getElem prepared.historyOffset data ready.text
      rw [Nat.add_sub_cancel_left, ← Buffer.slice, whole] at total
      exact Nat.lt_of_le_of_lt (Nat.div_le_div_right total) short

/-- One packet: either it is given up on, or the decompressor gives it back. -/
theorem compress_run (lawful : format.Lawful) {dec : Decoder format}
    (lockstep : Lockstep enc dec) {data : List Byte} (fits : enc.PacketFits data)
    {worth : Nat} (worthwhile : worth ≤ data.length) :
    ∃ next wire, enc.compress data worth = .ok next ∧ next.result = .ok wire ∧
      match wire with
      | none => Lockstep next dec
      | some (flags, bytes) => 0 < next.bytesInOpb ∧
        ∃ dec', dec.decompressed bytes flags = .ok (dec', data) ∧ Lockstep next dec' := by
  by_cases skipped : data.length = 0 ∨ format.histBufLen - 2 ≤ data.length
  · exact ⟨enc.begin, none, if_pos skipped, result_none lawful rfl, lockstep.begin⟩
  · have capacity := lawful.histBufLen_le_capacity
    rcases fits with empty | long | fits
    · exact (skipped (.inl empty)).elim
    · exact (skipped (.inr long)).elim
    have nonempty : 0 < data.length := by omega
    have short : data.length + 2 < format.histBufLen := by omega
    obtain ⟨prepared, arranged, ready, first, flags, lockstep'⟩ := prepare_run lawful
      lockstep.begin (HashTableManager.undoes_clear enc.hashTabMgr) nonempty short
    obtain ⟨tokens, manager, tokenized, undoes, valid, two, -, parses, attempts⟩ :=
      Encoder.encodePacket_run ready
    have attempt := attempts (.start prepared.outputBuffer)
    have limit : 0 < format.outputLimit := by
      simp only [Format.outputLimit]
      omega
    have small : ∀ insertion ∈ tokens.flatMap format.tokenInsertions,
        insertion.2 < 2 ^ insertion.1 := by
      intro insertion member
      obtain ⟨token, within, inserted⟩ := List.mem_flatMap.mp member
      exact Format.tokenInsertions_small lawful (valid token within) insertion inserted
    have written := Output.insertAll_run (Output.packs_start prepared.outputBuffer ready.clear)
      (tokens.flatMap format.tokenInsertions) (Nat.min_le_left _ _) (Nat.min_le_right _ _)
      limit small (fits prepared tokens arranged tokenized)
    simp only [List.nil_append, format.insertedBits_tokens] at written
    rcases written with ⟨out, inserted, packs, _⟩ | ⟨_, out, overflowed⟩
    · rw [inserted] at attempt
      by_cases worthless : worth ≤ out.opbIndex
      · refine ⟨prepared.giveUp manager out, none, ?_,
          result_none lawful ((giveUp_flags _ _ _).trans flags), lockstep'.giveUp undoes out⟩
        simp only [Encoder.compress, skipped, if_false, arranged, ok_bind, attempt, worthless,
          if_true, pure_ok]
      · have long : 0 < prepared.historyOffset ∨ 2 ≤ data.length := by
          by_cases front : prepared.historyOffset = 0
          · have many := Format.eight_mul_le lawful valid
            have length := packs.length
            omega
          · omega
        obtain ⟨below, parse⟩ := parses long
        have counted : out.byteCount ≤ format.outputCapacity := by
          unfold Output.byteCount
          split <;> omega
        obtain ⟨bytes, reported, received⟩ := succeed_run lawful ready lockstep' first flags
          below parse valid packs counted
        have written : 0 < out.byteCount := out_nonempty lawful parse nonempty valid packs
        refine ⟨prepared.succeed data manager out, some (_, bytes), ?_, reported, written,
          received⟩
        simp only [Encoder.compress, skipped, if_false, arranged, ok_bind, attempt, worthless,
          pure_ok]
    · rw [overflowed] at attempt
      obtain ⟨stopped, undoes', ran⟩ := attempt
      refine ⟨prepared.giveUp stopped out, none, ?_,
        result_none lawful ((giveUp_flags _ _ _).trans flags), lockstep'.giveUp undoes' out⟩
      simp only [Encoder.compress, skipped, if_false, arranged, ok_bind, ran, pure_ok]

end Redemption.Mppc
