import Redemption.Mppc.MatchDetails
import Redemption.Mppc.Mppc61
import Redemption.Mppc.Session

/-! Sessions of the RDP 6.1 compressor and decompressor. -/
namespace Redemption.Mppc

open Redemption.Foundation
open Redemption.Foundation.Lz

/-- Taking the latest changes back leaves a table of offsets below a position. -/
def UndoesBelow (manager : HashTableManager) (position : Nat) : Prop :=
  ∃ base, manager.Undoes base ∧ ∀ hash, base hash < position

/-- The decompressor has the history up to where the next packet goes. -/
structure Settled (enc : Encoder61) (dec : Decoder61) : Prop where
  position : (if enc.level1ComprFlagsHold.has l1PacketAtFront then 0 else dec.historyOffset) =
    enc.historyOffset
  agree : AgreeBelow dec.historyBuffer.cell enc.historyBuffer.cell enc.historyOffset
  below : enc.hashTabMgr.Below (max 1 enc.historyOffset)
  undoes : UndoesBelow enc.hashTabMgr (max 1 enc.historyOffset)

/-- Both levels are in step, unless the next packet starts the history anew. -/
structure Lockstep61 (enc : Encoder61) (dec : Decoder61) : Prop where
  inner : Lockstep enc.level2Compressor dec.level2Decompressor
  held : enc.level1ComprFlagsHold = 0 ∨ enc.level1ComprFlagsHold = l1PacketAtFront
  settled : enc.level1ComprFlagsHold.has l1PacketAtFront = false → Settled enc dec

theorem lockstep61_fresh : Lockstep61 .fresh .fresh where
  inner := lockstep_fresh format50
  held := .inr rfl
  settled := fun free => absurd free (by decide)

/-- A packet has its place in the history. -/
structure Placed (enc : Encoder61) (dec : Decoder61) (data : List Byte) : Prop extends
    Settled enc dec where
  inner : Lockstep enc.level2Compressor dec.level2Decompressor
  held : enc.level1ComprFlagsHold = 0 ∨ enc.level1ComprFlagsHold = l1PacketAtFront
  room : enc.historyOffset + data.length + 1 < historyBufferLength61
  spells : SpellsAt enc.historyBuffer.cell enc.historyOffset data
  unset : enc.bytesInOutputBuffer = 0

section Place

variable {enc : Encoder61} {dec : Decoder61}

private theorem undoesBelow_empty {position : Nat} (positive : 0 < position) :
    UndoesBelow .empty position := ⟨_, HashTableManager.undoes_empty, fun _ => positive⟩

private theorem held_front : ∀ hold : Flags, hold = 0 ∨ hold = l1PacketAtFront →
    hold ||| l1PacketAtFront = l1PacketAtFront := by decide

private theorem rewind_run (lockstep : Lockstep61 enc dec) {dataSize : Nat}
    (small : dataSize ≤ maxDataBlockSize61) :
    Settled (enc.markFront dataSize).rewind dec ∧
      (enc.markFront dataSize).rewind.historyOffset + dataSize + 1 < historyBufferLength61 ∧
      ((enc.markFront dataSize).rewind.level1ComprFlagsHold = 0 ∨
        (enc.markFront dataSize).rewind.level1ComprFlagsHold = l1PacketAtFront) ∧
      (enc.markFront dataSize).rewind.level2Compressor = enc.level2Compressor ∧
      (enc.markFront dataSize).rewind.level1ComprFlags = enc.level1ComprFlags ∧
      (enc.markFront dataSize).rewind.bytesInOutputBuffer = enc.bytesInOutputBuffer := by
  simp only [maxDataBlockSize61, Nat.reduceSub] at small
  have anew : ∀ marked : Encoder61, marked.level1ComprFlagsHold = l1PacketAtFront →
      Settled marked.rewind dec ∧
        marked.rewind.historyOffset + dataSize + 1 < historyBufferLength61 ∧
        (marked.rewind.level1ComprFlagsHold = 0 ∨
          marked.rewind.level1ComprFlagsHold = l1PacketAtFront) ∧
        marked.rewind.level2Compressor = marked.level2Compressor ∧
        marked.rewind.level1ComprFlags = marked.level1ComprFlags ∧
        marked.rewind.bytesInOutputBuffer = marked.bytesInOutputBuffer := by
    intro marked hold
    have front : marked.level1ComprFlagsHold.has l1PacketAtFront = true := by
      rw [hold]
      decide
    unfold Encoder61.rewind
    rw [if_pos front]
    refine ⟨⟨if_pos front, fun index before => (Nat.not_lt_zero index before).elim,
      HashTableManager.below_empty Nat.one_pos, undoesBelow_empty Nat.one_pos⟩, ?_, .inr hold, rfl,
      rfl, rfl⟩
    simp only [historyBufferLength61]
    omega
  by_cases full : historyBufferLength61 ≤ enc.historyOffset + dataSize + 1
  · have again := anew
      { enc with level1ComprFlagsHold := enc.level1ComprFlagsHold ||| l1PacketAtFront }
      (held_front _ lockstep.held)
    unfold Encoder61.markFront
    rw [if_pos full]
    exact again
  · unfold Encoder61.markFront
    rw [if_neg full]
    rcases lockstep.held with free | hold
    · have absent : enc.level1ComprFlagsHold.has l1PacketAtFront = false := by
        rw [free]
        decide
      have settled := lockstep.settled absent
      unfold Encoder61.rewind
      rw [if_neg (Bool.eq_false_iff.mp absent)]
      exact ⟨settled, Nat.lt_of_not_le full, .inl free, rfl, rfl, rfl⟩
    · exact anew enc hold

theorem begin (lockstep : Lockstep61 enc dec) : Lockstep61 enc.begin dec where
  inner := lockstep.inner
  held := lockstep.held
  settled := fun free =>
    have settled := lockstep.settled free
    ⟨settled.position, settled.agree, settled.below, settled.undoes⟩

private theorem place_run (lockstep : Lockstep61 enc dec) {data : List Byte}
    (small : data.length ≤ maxDataBlockSize61) :
    ∃ placed, (enc.begin.markFront data.length).rewind.place data = .ok placed ∧
      Placed placed dec data ∧ placed.level1ComprFlags = l1InnerCompression := by
  obtain ⟨settled, room, held, inner, flags, bytes⟩ := rewind_run (begin lockstep) small
  generalize (enc.begin.markFront data.length).rewind = front at *
  refine ⟨{ front with historyBuffer := front.historyBuffer.splice front.historyOffset data }, ?_,
    ⟨⟨settled.position, ?_, settled.below, settled.undoes⟩, ?_, held, room, ?_, bytes⟩, flags⟩
  · rw [Encoder61.place, Buffer.storeBlock_of_le _ (by omega), ok_bind, pure_ok]
  · intro index before
    rw [settled.agree index before]
    exact (Buffer.cell_splice_before _ _ _ before).symm
  · rw [inner]
    exact lockstep.inner
  · intro index bounded
    exact Buffer.cell_splice_inside _ _ _ bounded

end Place

/-- Compression at one level leaves the place of the packet alone. -/
structure SamePlace (before after : Encoder61) : Prop where
  historyBuffer : after.historyBuffer = before.historyBuffer
  historyOffset : after.historyOffset = before.historyOffset
  hold : after.level1ComprFlagsHold = before.level1ComprFlagsHold

section Level1

variable {enc : Encoder61} {dec : Decoder61} {data : List Byte}

/-- What is left of the first level: a table that can be taken back. -/
structure Searched (enc after : Encoder61) (data : List Byte) : Prop extends
    SamePlace enc after where
  level2Compressor : after.level2Compressor = enc.level2Compressor
  unset : after.bytesInOutputBuffer = enc.bytesInOutputBuffer
  below : after.hashTabMgr.Below (enc.historyOffset + data.length)
  undoes : UndoesBelow after.hashTabMgr (max 1 enc.historyOffset)

/-- The first level either marks the packet as not compressed, or has written details
that describe it and take less room. -/
private theorem compressLevel1_run (placed : Placed enc dec data)
    (flags : enc.level1ComprFlags = l1InnerCompression) (nonempty : 0 < data.length)
    (small : data.length ≤ maxDataBlockSize61) (behind : Nat → Byte) :
    ∃ after, enc.compressLevel1 behind data = .ok after ∧ Searched enc after data ∧
      (after.level1ComprFlags = l1InnerCompression ||| l1NoCompression ∨
        after.level1ComprFlags = l1InnerCompression ||| l1Compressed ∧
        after.level1OutputBuffer.length < data.length ∧
        ∃ details, after.level1OutputBuffer = level1Bytes data details ∧
          Describes (enc.historyBuffer.withBehind 5 behind).cell enc.historyOffset data.length 0
            details) := by
  have room := placed.room
  by_cases short : data.length < minimumMatchLength61
  · refine ⟨_, if_pos short, ⟨⟨rfl, rfl, rfl⟩, rfl, rfl, ?_, placed.undoes⟩, .inl ?_⟩
    · exact placed.below.mono (by omega)
    · simp only [flags]
  · obtain ⟨manager, details, found, describes, below, undoes⟩ :=
      @findMatch61_run _ enc.historyOffset data.length (enc.historyBuffer.withBehind 5 behind)
        (Nat.le_of_not_lt short) small (by simp only [minimumMatchLength61]; omega) _ placed.below
    have few := describes.length_le
    have near : enc.historyOffset + data.length < 2 ^ 32 := by
      simp only [historyBufferLength61] at room
      omega
    have written := writeLevel1_run small near describes (by
      simp only [maxDataBlockSize61, Nat.reduceSub] at small
      omega)
    have back : UndoesBelow manager (max 1 enc.historyOffset) := ⟨_, undoes, placed.below⟩
    by_cases useless : data.length ≤ (level1Bytes data details).length
    · refine ⟨{ enc with
          hashTabMgr := manager
          level1OutputBuffer := level1Bytes data details
          level1ComprFlags := enc.level1ComprFlags ||| l1NoCompression }, ?_,
        ⟨⟨rfl, rfl, rfl⟩, rfl, rfl, below, back⟩, .inl ?_⟩
      · simp only [Encoder61.compressLevel1, short, if_false, found, ok_bind, written, useless,
          if_true, pure_ok]
      · simp only [flags]
    · refine ⟨{ enc with
          hashTabMgr := manager
          level1OutputBuffer := level1Bytes data details
          level1ComprFlags := enc.level1ComprFlags ||| l1Compressed }, ?_,
        ⟨⟨rfl, rfl, rfl⟩, rfl, rfl, below, back⟩,
        .inr ⟨?_, Nat.lt_of_not_le useless, details, rfl, describes⟩⟩
      · simp only [Encoder61.compressLevel1, short, if_false, found, ok_bind, written, useless,
          pure_ok]
      · simp only [flags]

end Level1

section Level2

variable {enc : Encoder61} {dec : Decoder61}

/-- What is left of the second level when it has compressed its input. -/
structure Packed (after : Encoder61) (dec : Decoder61) (input : List Byte) : Prop where
  compressed : after.level2ComprFlags.has packetCompressed = true
  positive : after.bytesInOutputBuffer ≠ 0
  sent : ∃ bytes dec', after.output = .ok bytes ∧
    dec.level2Decompressor.decompressed bytes after.level2ComprFlags = .ok (dec', input) ∧
    Lockstep after.level2Compressor dec'

/-- What is left of it when it has not. -/
structure Unpacked (enc after : Encoder61) (dec : Decoder61) : Prop where
  plain : after.level2ComprFlags = 0
  unset : after.bytesInOutputBuffer = enc.bytesInOutputBuffer
  inner : Lockstep after.level2Compressor dec.level2Decompressor

private theorem compressLevel2_run (inner : Lockstep enc.level2Compressor dec.level2Decompressor)
    {input : List Byte} (short : input.length ≤ maxDataBlockSize61)
    (maxCompressedDataSize : Nat) :
    ∃ after, enc.compressLevel2 input maxCompressedDataSize = .ok after ∧ SamePlace enc after ∧
      after.level1ComprFlags = enc.level1ComprFlags ∧ after.hashTabMgr = enc.hashTabMgr ∧
      after.level1OutputBuffer = enc.level1OutputBuffer ∧
      (Packed after dec input ∨ Unpacked enc after dec) := by
  simp only [maxDataBlockSize61, Nat.reduceSub] at short
  have fits := inner.packetFits format50_lawful (Format.safe_of_short
    (show 9 * input.length / 8 < 65544 ⊓ 65536 by omega))
  obtain ⟨next, wire, compressed, reported, agrees⟩ := compress_run format50_lawful inner fits
    (Nat.min_le_left input.length maxCompressedDataSize)
  have run : compress50 enc.level2Compressor input maxCompressedDataSize = .ok next := compressed
  cases flagged : next.flags.has packetCompressed with
  | true =>
    rw [Encoder.result, if_pos flagged] at reported
    obtain ⟨bytes, loaded, rest⟩ := bind_ok_iff.mp reported
    cases rest
    obtain ⟨positive, dec', received, lockstep⟩ := agrees
    refine ⟨{ enc with
        level2Compressor := next
        level2ComprFlags := next.flags
        outputBuffer := .level2
        bytesInOutputBuffer := next.bytesInOpb }, ?_, ⟨rfl, rfl, rfl⟩, rfl, rfl, rfl,
      .inl ⟨flagged, Nat.pos_iff_ne_zero.mp positive, bytes, dec', loaded, received, lockstep⟩⟩
    simp only [Encoder61.compressLevel2, run, ok_bind, flagged, if_true, pure_ok]
  | false =>
    rw [Encoder.result, if_neg (Bool.eq_false_iff.mp flagged)] at reported
    cases reported
    refine ⟨{ enc with level2Compressor := next, level2ComprFlags := 0 }, ?_, ⟨rfl, rfl, rfl⟩,
      rfl, rfl, rfl, .inr ⟨rfl, rfl, agrees⟩⟩
    simp only [Encoder61.compressLevel2, run, ok_bind, flagged, Bool.false_eq_true, if_false,
      pure_ok]

end Level2

section Send

variable {enc after : Encoder61} {dec : Decoder61} {data : List Byte}

/-- What a decompressor makes of flags and bytes, once both levels are known. -/
private theorem decode_run {l1 l2 : Flags} {bytes input : List Byte}
    {level2 : Decoder format50} {offset : Nat} {history : Buffer Byte historyBufferLength61}
    {text : Nat → Byte} (marked : l1.has (l1Compressed ||| l1NoCompression) = true)
    (carried : dec.level1Data l1 l2 bytes = .ok (level2, input))
    (position : (if l1.has l1PacketAtFront then 0 else dec.historyOffset) = offset)
    (rebuilt : decompressLevel1 (!l1.has l1NoCompression) input dec.historyBuffer offset =
      .ok (history, data.length))
    (agree : AgreeBelow history.cell text (offset + data.length))
    (spells : SpellsAt text offset data)
    (room : offset + data.length ≤ historyBufferLength61) :
    (decompress61 dec (l1 :: l2 :: bytes) >>= Decoder61.view) =
      .ok (⟨history, offset + data.length, level2⟩, data) := by
  have two : 2 ≤ (l1 :: l2 :: bytes).length := by simp
  have shown : history.slice offset data.length = data := by
    apply Buffer.slice_eq_of_getElem
    intro index bounded
    rw [agree _ (by omega)]
    exact spells index bounded
  simp only [decompress61, checkThrow_of_le _ two, ok_bind, inUint8, Decoder61.decode, marked,
    if_true, carried, position, rebuilt, pure_ok, Decoder61.view,
    Buffer.loadBlock_of_le history room, shown]

private theorem sent_flags : ∀ mark hold : Flags, mark = l1NoCompression ∨ mark = l1Compressed →
    hold = 0 ∨ hold = l1PacketAtFront →
    (l1InnerCompression ||| mark ||| hold).has (l1Compressed ||| l1NoCompression) = true ∧
      (l1InnerCompression ||| mark ||| hold).has l1InnerCompression = true ∧
      (l1InnerCompression ||| mark ||| hold).has l1NoCompression = mark.has l1NoCompression ∧
      (l1InnerCompression ||| mark ||| hold).has l1PacketAtFront = hold.has l1PacketAtFront := by
  intro mark hold marked held
  rcases marked with rfl | rfl <;> rcases held with rfl | rfl <;> decide

private theorem finish_run (placed : Placed enc dec data) (same : SamePlace enc after)
    {mark : Flags} (marked : mark = l1NoCompression ∨ mark = l1Compressed)
    (flags : after.level1ComprFlags = l1InnerCompression ||| mark)
    (positive : after.bytesInOutputBuffer ≠ 0) {bytes : List Byte} (input : List Byte)
    {level2 : Decoder format50} (loaded : after.output = .ok bytes)
    (carried : ∀ l1 : Flags, l1.has l1InnerCompression = true →
      dec.level1Data l1 after.level2ComprFlags bytes = .ok (level2, input))
    (rebuilt : ∃ history, decompressLevel1 (!mark.has l1NoCompression) input dec.historyBuffer
        enc.historyOffset = .ok (history, data.length) ∧
      AgreeBelow history.cell enc.historyBuffer.cell (enc.historyOffset + data.length))
    (below : after.hashTabMgr.Below (enc.historyOffset + data.length))
    (undoes : UndoesBelow after.hashTabMgr (max 1 enc.historyOffset))
    (inner : Lockstep after.level2Compressor level2) :
    ∃ wire, (after.finish data.length).result = .ok (some wire) ∧
      ∃ dec', (decompress61 dec wire >>= Decoder61.view) = .ok (dec', data) ∧
        Lockstep61 (after.finish data.length) dec' := by
  obtain ⟨history, decompressed, agree⟩ := rebuilt
  obtain ⟨known, wrapped, plain, front⟩ := sent_flags mark _ marked placed.held
  rw [← plain] at decompressed
  have room := placed.room
  have finished : after.finish data.length = { after with
      historyOffset := after.historyOffset + data.length
      level1ComprFlags := after.level1ComprFlags ||| after.level1ComprFlagsHold
      level1ComprFlagsHold := 0 } := if_pos positive
  refine ⟨(after.level1ComprFlags ||| after.level1ComprFlagsHold) :: after.level2ComprFlags ::
    bytes, ?_, ⟨history, enc.historyOffset + data.length, level2⟩, ?_, ?_⟩
  · rw [finished, Encoder61.result, if_pos positive]
    show (after.output >>= _) = _
    rw [loaded, ok_bind, pure_ok]
  · rw [flags, same.hold]
    refine decode_run known (carried _ wrapped) ?_ decompressed agree placed.spells (by omega)
    rw [front]
    exact placed.position
  · rw [finished]
    obtain ⟨base, tracks, low⟩ := undoes
    refine ⟨inner, .inl rfl, fun _ => ⟨?_, ?_, ?_, base, tracks, fun hash => ?_⟩⟩
    · show (if (0 : Flags).has l1PacketAtFront then 0 else enc.historyOffset + data.length) =
        after.historyOffset + data.length
      rw [same.historyOffset]
      exact if_neg (by decide)
    · intro index before
      simp only [same.historyOffset] at before
      simp only [same.historyBuffer]
      exact agree index before
    · simp only [same.historyOffset]
      exact below.mono (Nat.le_max_right _ _)
    · have small := low hash
      simp only [same.historyOffset]
      omega

private theorem front_held : ∀ hold : Flags, hold = 0 ∨ hold = l1PacketAtFront →
    (hold ||| l1PacketAtFront = 0 ∨ hold ||| l1PacketAtFront = l1PacketAtFront) ∧
      (hold ||| l1PacketAtFront).has l1PacketAtFront = true := by decide

/-- A packet that is given up on leaves both sides in step: either the table is as
before, or the next packet starts the history anew. -/
private theorem giveUp_run (placed : Placed enc dec data) (same : SamePlace enc after)
    (unset : after.bytesInOutputBuffer = 0)
    (undoes : UndoesBelow after.hashTabMgr (max 1 enc.historyOffset))
    (inner : Lockstep after.level2Compressor dec.level2Decompressor) :
    (after.giveUp data.length).result = .ok none ∧ Lockstep61 (after.giveUp data.length) dec := by
  have held := placed.held
  rw [← same.hold] at held
  obtain ⟨base, tracks, low⟩ := undoes
  cases undone : after.hashTabMgr.undoLastChanges with
  | some restored =>
    have plain := tracks.rollback_eq undone
    subst plain
    simp only [Encoder61.giveUp, undone]
    refine ⟨if_neg (not_not.mpr unset), inner, held, fun free => ⟨?_, ?_, ?_, base, ?_, ?_⟩⟩
    · rw [same.historyOffset]
      have position := placed.position
      rw [← same.hold] at position
      exact position
    · intro index before
      simp only [same.historyOffset] at before
      simp only [same.historyBuffer]
      exact placed.agree index before
    · intro hash
      simp only [same.historyOffset]
      exact low hash
    · exact HashTableManager.undoes_clear ⟨base, []⟩
    · simp only [same.historyOffset]
      exact low
  | none =>
    obtain ⟨flags, front⟩ := front_held _ held
    have finished : after.giveUp data.length = { after with
        historyOffset := after.historyOffset + data.length
        level1ComprFlagsHold := after.level1ComprFlagsHold ||| l1PacketAtFront } := by
      rw [Encoder61.giveUp, undone]
      exact if_neg (not_not.mpr unset)
    rw [finished]
    exact ⟨if_neg (not_not.mpr unset), inner, flags,
      fun free => absurd front (Bool.eq_false_iff.mp free)⟩

/-- The packet itself goes through the second level, or is given up on. -/
private theorem sendPlain_run (placed : Placed enc dec data) (searched : Searched enc after data)
    (flags : after.level1ComprFlags = l1InnerCompression ||| l1NoCompression)
    (short : data.length ≤ maxDataBlockSize61) :
    ∃ next wire, after.sendPlain data = .ok next ∧ next.result = .ok wire ∧
      match wire with
      | none => Lockstep61 next dec
      | some wire => ∃ dec', (decompress61 dec wire >>= Decoder61.view) = .ok (dec', data) ∧
          Lockstep61 next dec' := by
  have inner := placed.inner
  rw [← searched.level2Compressor] at inner
  obtain ⟨last, run, same, flags', manager, _, outcome⟩ :=
    compressLevel2_run inner short (data.length - 2)
  have place : SamePlace enc last :=
    ⟨same.historyBuffer.trans searched.historyBuffer,
      same.historyOffset.trans searched.historyOffset, same.hold.trans searched.hold⟩
  have undoes := searched.undoes
  have below := searched.below
  rw [← manager] at undoes below
  have room := placed.room
  rcases outcome with packed | unpacked
  · obtain ⟨bytes, dec', loaded, received, inner'⟩ := packed.sent
    have small : data.length < 2 ^ 16 := Nat.lt_of_le_of_lt short (by decide)
    obtain ⟨wire, reported, next⟩ := finish_run placed place (.inl rfl) (flags'.trans flags)
      packed.positive data loaded
      (fun l1 wrapped => by
        simp only [Decoder61.level1Data, wrapped, packed.compressed, and_self, if_true]
        exact received)
      (decompressLevel1_plain placed.spells (by omega) small placed.agree) below undoes inner'
    refine ⟨last.finish data.length, some wire, ?_, reported, next⟩
    simp only [Encoder61.sendPlain, run, ok_bind, packed.compressed, if_true, pure_ok]
  · have unset := unpacked.unset.trans (searched.unset.trans placed.unset)
    obtain ⟨reported, lockstep⟩ := giveUp_run placed place unset undoes unpacked.inner
    refine ⟨last.giveUp data.length, none, ?_, reported, lockstep⟩
    have plain : ¬ last.level2ComprFlags.has packetCompressed = true := by
      rw [unpacked.plain]
      decide
    simp only [Encoder61.sendPlain, run, ok_bind, plain, Bool.false_eq_true, if_false, pure_ok]

/-- The match details rebuild the packet behind what the decompressor has. -/
private theorem rebuilt_run (placed : Placed enc dec data) (small : data.length < 2 ^ 16)
    {behind : Nat → Byte} {details : List MatchDetails}
    (describes : Describes (enc.historyBuffer.withBehind 5 behind).cell enc.historyOffset
      data.length 0 details) :
    ∃ history, decompressLevel1 true (level1Bytes data details) dec.historyBuffer
        enc.historyOffset = .ok (history, data.length) ∧
      AgreeBelow history.cell enc.historyBuffer.cell (enc.historyOffset + data.length) := by
  have room := placed.room
  have inside : ∀ index < enc.historyOffset + data.length,
      (enc.historyBuffer.withBehind 5 behind).cell index = enc.historyBuffer.cell index :=
    fun index before => Buffer.cell_withBehind _ _ _ (by omega)
  have spells : SpellsAt (enc.historyBuffer.withBehind 5 behind).cell enc.historyOffset data := by
    intro index bounded
    rw [inside _ (by omega)]
    exact placed.spells index bounded
  have agree : AgreeBelow dec.historyBuffer.cell (enc.historyBuffer.withBehind 5 behind).cell
      enc.historyOffset := by
    intro index before
    rw [inside _ (by omega)]
    exact placed.agree index before
  obtain ⟨history, run, agree'⟩ := decompressLevel1_run spells (by omega) small describes agree
  refine ⟨history, run, fun index before => ?_⟩
  rw [agree' index before]
  exact inside index before

/-- What the first level wrote goes through the second level, or is sent as it is. -/
private theorem sendLevel1_run (placed : Placed enc dec data) (searched : Searched enc after data)
    (flags : after.level1ComprFlags = l1InnerCompression ||| l1Compressed)
    (shorter : after.level1OutputBuffer.length < data.length)
    (short : data.length ≤ maxDataBlockSize61) {behind : Nat → Byte}
    {details : List MatchDetails} (written : after.level1OutputBuffer = level1Bytes data details)
    (describes : Describes (enc.historyBuffer.withBehind 5 behind).cell enc.historyOffset
      data.length 0 details) :
    ∃ next wire, after.sendLevel1 data = .ok next ∧ next.result = .ok (some wire) ∧
      ∃ dec', (decompress61 dec wire >>= Decoder61.view) = .ok (dec', data) ∧
        Lockstep61 next dec' := by
  have inner := placed.inner
  rw [← searched.level2Compressor] at inner
  have long : 2 ≤ after.level1OutputBuffer.length := by
    rw [written, level1Bytes, List.length_append, List.length_append, length_leBytes]
    omega
  obtain ⟨last, run, same, flags', manager, output, outcome⟩ :=
    compressLevel2_run inner
      (show after.level1OutputBuffer.length ≤ maxDataBlockSize61 by omega) (2 ^ 16 - 1)
  have place : SamePlace enc last :=
    ⟨same.historyBuffer.trans searched.historyBuffer,
      same.historyOffset.trans searched.historyOffset, same.hold.trans searched.hold⟩
  have undoes := searched.undoes
  have below := searched.below
  rw [← manager] at undoes below
  have small : data.length < 2 ^ 16 := Nat.lt_of_le_of_lt short (by decide)
  have rebuilt := rebuilt_run placed small describes
  rw [← written] at rebuilt
  rcases outcome with packed | unpacked
  · obtain ⟨bytes, dec', loaded, received, inner'⟩ := packed.sent
    obtain ⟨wire, reported, next⟩ := finish_run placed place (.inr rfl) (flags'.trans flags)
      packed.positive after.level1OutputBuffer loaded
      (fun l1 wrapped => by
        simp only [Decoder61.level1Data, wrapped, packed.compressed, and_self, if_true]
        exact received)
      rebuilt below undoes inner'
    refine ⟨last.finish data.length, wire, ?_, reported, next⟩
    simp only [Encoder61.sendLevel1, run, ok_bind, packed.compressed, if_true, pure_ok]
  · have plain : ¬ last.level2ComprFlags.has packetCompressed = true := by
      rw [unpacked.plain]
      decide
    let sent : Encoder61 := { last with
      outputBuffer := .level1
      bytesInOutputBuffer := last.level1OutputBuffer.length }
    have loaded : sent.output = .ok after.level1OutputBuffer := by
      show (inBytes last.level1OutputBuffer.length last.level1OutputBuffer >>= _) = _
      have all := @inBytes_append ErrorId _ last.level1OutputBuffer rfl []
      rw [List.append_nil] at all
      rw [all, ok_bind]
      exact congrArg Except.ok output
    obtain ⟨wire, reported, next⟩ := @finish_run enc sent dec data placed
      ⟨place.historyBuffer, place.historyOffset, place.hold⟩ _ (.inr rfl) (flags'.trans flags)
      (show last.level1OutputBuffer.length ≠ 0 by rw [output]; omega)
      after.level1OutputBuffer after.level1OutputBuffer dec.level2Decompressor loaded
      (fun l1 wrapped => by
        show dec.level1Data l1 last.level2ComprFlags _ = _
        simp only [Decoder61.level1Data, plain, Bool.false_eq_true, and_false, if_false])
      rebuilt below undoes unpacked.inner
    refine ⟨sent.finish data.length, wire, ?_, reported, next⟩
    simp only [Encoder61.sendLevel1, run, ok_bind, plain, Bool.false_eq_true, if_false, pure_ok,
      sent]

end Send

/-- `compress_61` with `get_compressed_data`, and `decompress` of what was reported. What
lies behind the history is any function of the compressor's state. -/
def channel61 (behind : Encoder61 → Nat → Byte) : Channel MppcFault Encoder61 Decoder61
    (Packet maxDataBlockSize61) (List Byte) (List Byte) where
  send enc packet := do
    let enc ← compress61 (behind enc) enc packet.data
    let wire ← enc.result
    return (enc, wire)
  receive dec wire := decompress61 dec wire >>= Decoder61.view
  payload := Packet.data

theorem compress61_run {enc : Encoder61} {dec : Decoder61}
    (lockstep : Lockstep61 enc dec) (behind : Nat → Byte) {data : List Byte}
    (short : data.length ≤ maxDataBlockSize61) :
    ∃ next wire, compress61 behind enc data = .ok next ∧ next.result = .ok wire ∧
      match wire with
      | none => Lockstep61 next dec
      | some wire => ∃ dec', (decompress61 dec wire >>= Decoder61.view) = .ok (dec', data) ∧
          Lockstep61 next dec' := by
  have accepted : ¬ maxDataBlockSize61 < data.length := Nat.not_lt.mpr short
  by_cases tiny : data.length ≤ 2
  · refine ⟨enc.begin, none, ?_, if_neg (not_not.mpr rfl), begin lockstep⟩
    simp only [compress61, accepted, if_false, tiny, if_true]
  · obtain ⟨placed, arranged, ready, flags⟩ := place_run lockstep short
    obtain ⟨after, run, searched, outcome⟩ :=
      compressLevel1_run ready flags (by omega) short behind
    have opened : compress61 behind enc data =
        if after.level1ComprFlags.has l1NoCompression then after.sendPlain data
        else after.sendLevel1 data := by
      simp only [compress61, accepted, if_false, tiny, arranged, ok_bind,
        Encoder61.encodePacket, run]
    rw [opened]
    rcases outcome with plain | ⟨compressed, shorter, details, written, describes⟩
    · have marked : after.level1ComprFlags.has l1NoCompression = true := by
        rw [plain]
        decide
      rw [if_pos marked]
      exact sendPlain_run ready searched plain short
    · have marked : ¬ after.level1ComprFlags.has l1NoCompression = true := by
        rw [compressed]
        decide
      rw [if_neg marked]
      obtain ⟨next, wire, sent, reported, received⟩ :=
        sendLevel1_run ready searched compressed shorter short written describes
      exact ⟨next, some wire, sent, reported, received⟩

/-- Every session round trips, whichever level compresses a packet, and whatever is given
up on, sent to the front or could not be taken back in between. -/
theorem session61_roundTrip (behind : Encoder61 → Nat → Byte)
    (packets : List (Packet maxDataBlockSize61)) :
    (channel61 behind).RoundTrip .fresh .fresh packets := by
  refine (channel61 behind).roundTrip_of_lockstep Lockstep61 (fun _ _ => True) ?_
    lockstep61_fresh packets (Channel.everyStep_of_forall _ (fun _ _ => trivial) _ _)
  intro enc dec packet lockstep _
  obtain ⟨next, wire, compressed, reported, agrees⟩ :=
    compress61_run lockstep (behind enc) packet.bounded
  refine ⟨next, wire, ?_, ?_⟩
  · simp only [channel61, compressed, ok_bind, reported, pure_ok]
  · cases wire with
    | none => exact agrees
    | some wire => exact agrees

end Redemption.Mppc
