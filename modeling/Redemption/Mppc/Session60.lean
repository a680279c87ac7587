import Redemption.Foundation.Machine
import Redemption.Mppc.Encoder60Spec
import Redemption.Mppc.Session

/-! Sessions of the RDP 6.0 compressor and decompressor. -/
namespace Redemption.Mppc

open Redemption.Foundation
open Redemption.Foundation.Lz

namespace Encoder60

/-- Where a packet does not fit behind the history, half of the history is there to be
moved to the front, and the packet fits behind that half. -/
def Slides (enc : Encoder60) (dataSize : Nat) : Prop :=
  histBufLen60 ≤ enc.historyOffset + dataSize + 1 →
    histBufMiddle60 ≤ enc.historyOffset ∧ dataSize < histBufMiddle60

/-- The history, and behind it a packet. -/
def textWith (enc : Encoder60) (data : List Byte) (index : Nat) : Byte :=
  if index < enc.historyOffset then enc.historyBuffer.cell index
  else data.getD (index - enc.historyOffset) 0

/-- The bits are a way to write the packet behind the history: literals and copies of earlier
bytes that spell it, with the cached offsets, and the end of stream marker. -/
def Encodes (enc : Encoder60) (data : List Byte) (bits : List Bool) : Prop :=
  ∃ tokens cache insertions marker,
    Parses (enc.textWith data) enc.historyOffset (enc.historyOffset + data.length) tokens ∧
    (∀ token ∈ tokens, Valid60 token) ∧
    tokensInsertions60 enc.offsetCache tokens = .ok (cache, insertions) ∧
    lecCode 256 = .ok marker ∧
    bits = Output.insertedBits60 (insertions ++ [marker])

/-- The packet has a place in the history, and no way to write it reaches the end of the 16-bit
index or, where it is short enough to be sent, has a first load that is not turned round. -/
def Safe (enc : Encoder60) (data : List Byte) : Prop :=
  data.length = 0 ∨ histBufLen60 - 1 ≤ data.length ∨
    enc.Slides data.length ∧ ∀ bits, enc.Encodes data bits →
      bits.length < 8 * 2 ^ 16 ∧ (bits.length / 8 < data.length → TurnsRound bits)

end Encoder60

/-- The decompressor will have the history up to the compressor's offset and the same
cached offsets, once it has done what it will be told with the next packet. -/
structure Lockstep60 (enc : Encoder60) (dec : Decoder60) : Prop where
  below : enc.hashTabMgr.Below (max 1 enc.historyOffset)
  four : enc.offsetCache.length = 4
  inside : enc.historyOffset ≤ histBufLen60
  held : enc.flagsHold = 0 ∨ (enc.flagsHold = packetAtFront ∧ enc.historyOffset = histBufMiddle60) ∨
    (enc.flagsHold = packetFlushed ∧ enc.historyOffset = 0)
  arranges : ∃ placed thisPtr, dec.Arranges enc.flagsHold enc.historyBuffer.cell enc.historyOffset
    enc.offsetCache placed thisPtr

/-- The second half of a history, up to a position, at its front. -/
private theorem cell_slid (history : Buffer Byte histBufLen60) (start : Nat) {index : Nat}
    (bounded : index < histBufMiddle60) :
    (history.splice 0 (history.slice start histBufMiddle60)).cell index =
      history.cell (start + index) := by
  have inside : index < (history.slice start histBufMiddle60).length := by
    rw [Buffer.length_slice]
    exact bounded
  have cell := Buffer.cell_splice_inside history 0 _ inside
  rw [Nat.zero_add, Buffer.getElem_slice] at cell
  exact cell

private theorem length_slid (history : Buffer Byte histBufLen60) (start : Nat) :
    0 + (history.slice start histBufMiddle60).length ≤ histBufLen60 := by
  rw [Buffer.length_slice, Nat.zero_add]
  exact Nat.div_le_self _ _

namespace Encoder60

/-- The compressor with the second half of its history at the front. -/
def slid (enc : Encoder60) : Encoder60 :=
  { enc with
    historyBuffer := enc.historyBuffer.splice 0
      (enc.historyBuffer.slice (enc.historyOffset - histBufMiddle60) histBufMiddle60)
    historyOffset := histBufMiddle60
    flagsHold := enc.flagsHold ||| packetAtFront
    hashTabMgr := enc.hashTabMgr.reset }

theorem slide_eq (enc : Encoder60) (enough : histBufMiddle60 ≤ enc.historyOffset)
    (inside : enc.historyOffset ≤ histBufLen60) : enc.slide = .ok enc.slid := by
  have source : enc.historyOffset - histBufMiddle60 + histBufMiddle60 ≤ histBufLen60 := by omega
  have recent : (enc.historyBuffer.loadBlock (enc.historyOffset - histBufMiddle60) histBufMiddle60 :
      Checked ErrorId _) = _ := Buffer.loadBlock_of_le _ source
  have moved : ∀ start, (enc.historyBuffer.storeBlock 0
      (enc.historyBuffer.slice start histBufMiddle60) : Checked ErrorId _) = _ :=
    fun start => Buffer.storeBlock_of_le _ (length_slid _ start)
  rw [slide, if_neg (Nat.not_lt.mpr enough), recent, ok_bind, moved, ok_bind, pure_ok, slid]

@[simp] theorem slid_flags (enc : Encoder60) : enc.slid.flags = enc.flags := by
  rw [slid]

@[simp] theorem slid_outputBuffer (enc : Encoder60) :
    enc.slid.outputBuffer = enc.outputBuffer := by rw [slid]

@[simp] theorem slid_historyOffset (enc : Encoder60) :
    enc.slid.historyOffset = histBufMiddle60 := by simp only [slid]

@[simp] theorem slid_hashTabMgr (enc : Encoder60) : enc.slid.hashTabMgr = .empty := by
  simp only [slid, HashTableManager.reset]

@[simp] theorem slid_flagsHold (enc : Encoder60) :
    enc.slid.flagsHold = enc.flagsHold ||| packetAtFront := by simp only [slid]

@[simp] theorem slid_offsetCache (enc : Encoder60) : enc.slid.offsetCache = enc.offsetCache := by
  rw [slid]

/-- The other compressor's history is the end of this one's. -/
def Moved (enc other : Encoder60) : Prop :=
  other.offsetCache = enc.offsetCache ∧ ∃ shift,
    enc.historyOffset = other.historyOffset + shift ∧
      ∀ index < other.historyOffset,
        enc.historyBuffer.cell (index + shift) = other.historyBuffer.cell index

/-- What parses a packet behind the moved history parses it where the history was. -/
theorem Moved.encodes {enc other : Encoder60} {data : List Byte} (moved : enc.Moved other)
    {tokens : List (Token Byte)} {cache : OffsetCache} {insertions : List (Nat × Nat)}
    {marker : Nat × Nat}
    (parse : Parses (other.textWith data) other.historyOffset
      (other.historyOffset + data.length) tokens)
    (valid : ∀ token ∈ tokens, Valid60 token)
    (written : tokensInsertions60 other.offsetCache tokens = .ok (cache, insertions))
    (isMarker : lecCode 256 = .ok marker) :
    enc.Encodes data (Output.insertedBits60 (insertions ++ [marker])) := by
  obtain ⟨cached, shift, offset, same⟩ := moved
  refine ⟨tokens, cache, insertions, marker, ?_, valid, cached ▸ written, isMarker, rfl⟩
  rw [offset, Nat.add_right_comm]
  refine parse.shift shift fun index _ => ?_
  unfold textWith
  by_cases before : index < other.historyOffset
  · rw [if_pos (by omega), if_pos before]
    exact same index before
  · rw [if_neg (by omega), if_neg before, offset, Nat.add_sub_add_right]

end Encoder60

namespace Decoder60

private theorem arranges_settled {dec : Decoder60} {text : Nat → Byte}
    (agree : AgreeBelow dec.historyBuf.cell text dec.historyPtr) :
    dec.Arranges 0 text dec.historyPtr dec.offsetCache dec dec.historyPtr where
  arranged := rfl
  historyPtr := rfl
  offsetCache := rfl
  agree := agree
  flushed := fun absurd => (Bool.false_ne_true absurd).elim
  settled := fun _ => rfl

private theorem arranges_flushed (dec : Decoder60) (text : Nat → Byte) :
    dec.Arranges packetFlushed text 0 .empty ⟨.filled 0, 0, .empty⟩ dec.historyPtr where
  arranged := rfl
  historyPtr := rfl
  offsetCache := rfl
  agree := fun _ before => (Nat.not_lt_zero _ before).elim
  flushed := fun _ => rfl
  settled := fun absurd => (absurd rfl).elim

private theorem arranges_slid {dec : Decoder60} {text : Buffer Byte histBufLen60}
    (enough : histBufMiddle60 ≤ dec.historyPtr) (inside : dec.historyPtr ≤ histBufLen60)
    (agree : AgreeBelow dec.historyBuf.cell text.cell dec.historyPtr) :
    dec.Arranges packetAtFront
      (text.splice 0 (text.slice (dec.historyPtr - histBufMiddle60) histBufMiddle60)).cell
      histBufMiddle60 dec.offsetCache
      ⟨dec.historyBuf.splice 0
        (dec.historyBuf.slice (dec.historyPtr - histBufMiddle60) histBufMiddle60), histBufMiddle60,
        dec.offsetCache⟩ histBufMiddle60 := by
  have source : dec.historyPtr - histBufMiddle60 + histBufMiddle60 ≤ histBufLen60 := by omega
  refine ⟨?_, rfl, rfl, ?_, fun absurd => (Bool.false_ne_true absurd).elim, fun _ => rfl⟩
  · have recent : (dec.historyBuf.loadBlock (dec.historyPtr - histBufMiddle60) histBufMiddle60 :
        Checked ErrorId _) = _ := Buffer.loadBlock_of_le _ source
    have moved : ∀ start, (dec.historyBuf.storeBlock 0
        (dec.historyBuf.slice start histBufMiddle60) : Checked ErrorId _) = _ :=
      fun start => Buffer.storeBlock_of_le _ (length_slid _ start)
    have arrange : dec.arrange packetAtFront =
        (dec.slide >>= fun dec => Except.ok (dec, dec.historyPtr)) := rfl
    rw [arrange, slide, if_neg (Nat.not_lt.mpr enough), recent, ok_bind, moved, ok_bind, pure_ok,
      ok_bind]
  · intro index before
    rw [cell_slid _ _ before, cell_slid _ _ before, agree _ (by omega)]

private theorem Arranges.congr {dec placed : Decoder60} {ctype other : Flags} {text : Nat → Byte}
    {position thisPtr : Nat} {cache : OffsetCache}
    (arranges : dec.Arranges ctype text position cache placed thisPtr)
    (atFront : other.has packetAtFront = ctype.has packetAtFront)
    (flushed : other.has packetFlushed = ctype.has packetFlushed) :
    dec.Arranges other text position cache placed thisPtr where
  arranged := by
    rw [arrange, atFront, flushed]
    exact arranges.arranged
  historyPtr := arranges.historyPtr
  offsetCache := arranges.offsetCache
  agree := arranges.agree
  flushed := by
    rw [flushed]
    exact arranges.flushed
  settled := by
    rw [flushed]
    exact arranges.settled

end Decoder60

namespace Lockstep60

variable {enc : Encoder60} {dec : Decoder60} {data : List Byte}

theorem fresh : Lockstep60 .fresh .fresh where
  below := HashTableManager.below_empty Nat.one_pos
  four := rfl
  inside := Nat.zero_le _
  held := .inr (.inr ⟨rfl, rfl⟩)
  arranges := ⟨_, _, Decoder60.arranges_flushed .fresh _⟩

theorem begin (lockstep : Lockstep60 enc dec) : Lockstep60 enc.begin dec :=
  ⟨lockstep.below, lockstep.four, lockstep.inside, lockstep.held, lockstep.arranges⟩

/-- Moving half of the history to the front is what the decompressor will be told. -/
private theorem slide_run (lockstep : Lockstep60 enc dec)
    (enough : histBufMiddle60 ≤ enc.historyOffset) :
    enc.slide = .ok enc.slid ∧ Lockstep60 enc.slid dec := by
  have inside := lockstep.inside
  obtain ⟨placed, thisPtr, arranges⟩ := lockstep.arranges
  refine ⟨enc.slide_eq enough inside, ?_, ?_, ?_, ?_, ?_⟩
  · rw [enc.slid_hashTabMgr, enc.slid_historyOffset]
    exact HashTableManager.below_empty (Nat.lt_of_lt_of_le Nat.one_pos (Nat.le_max_left _ _))
  · rw [enc.slid_offsetCache]
    exact lockstep.four
  · rw [enc.slid_historyOffset]
    exact Nat.div_le_self _ _
  · refine .inr (.inl ⟨?_, enc.slid_historyOffset⟩)
    rw [enc.slid_flagsHold]
    rcases lockstep.held with none | ⟨front, _⟩ | ⟨_, place⟩
    · exact congrArg (· ||| packetAtFront) none
    · exact congrArg (· ||| packetAtFront) front
    · rw [place] at enough
      exact absurd enough (by decide)
  · rw [enc.slid_flagsHold, enc.slid_historyOffset, enc.slid_offsetCache]
    rcases lockstep.held with none | ⟨front, place⟩ | ⟨_, place⟩
    · rw [none] at arranges
      cases arranges.arranged
      have reached := arranges.historyPtr
      have told := Decoder60.arranges_slid (by rw [reached]; exact enough)
        (by rw [reached]; exact inside) (show AgreeBelow dec.historyBuf.cell
          enc.historyBuffer.cell dec.historyPtr by rw [reached]; exact arranges.agree)
      rw [reached, arranges.offsetCache] at told
      have flags : enc.flagsHold ||| packetAtFront = packetAtFront :=
        congrArg (· ||| packetAtFront) none
      rw [flags]
      exact ⟨_, _, told⟩
    · have flags : enc.flagsHold ||| packetAtFront = packetAtFront :=
        congrArg (· ||| packetAtFront) front
      rw [front, place] at arranges
      rw [flags]
      refine ⟨placed, thisPtr, arranges.arranged, arranges.historyPtr, arranges.offsetCache, ?_,
        arranges.flushed, arranges.settled⟩
      intro index before
      simp only [Encoder60.slid]
      rw [cell_slid _ _ before, arranges.agree index before, place, Nat.sub_self, Nat.zero_add]
    · rw [place] at enough
      exact absurd enough (by decide)

private theorem rewind_run (lockstep : Lockstep60 enc dec)
    (undoes : enc.hashTabMgr.Undoes enc.hashTabMgr.table) {dataSize : Nat}
    (slides : enc.Slides dataSize) :
    ∃ enc', enc.rewind dataSize = .ok enc' ∧ Lockstep60 enc' dec ∧
      enc'.historyOffset + dataSize < histBufLen60 ∧ enc'.flags = enc.flags ∧
      enc'.outputBuffer = enc.outputBuffer ∧
      enc'.hashTabMgr.Undoes enc'.hashTabMgr.table ∧ enc.Moved enc' := by
  unfold Encoder60.rewind
  split
  · rename_i full
    obtain ⟨enough, small⟩ := slides full
    obtain ⟨slid, lockstep'⟩ := slide_run lockstep enough
    refine ⟨enc.slid, slid, lockstep', ?_, enc.slid_flags, enc.slid_outputBuffer, ?_,
      enc.slid_offsetCache, enc.historyOffset - histBufMiddle60, ?_, fun index before => ?_⟩
    · rw [enc.slid_historyOffset]
      have middle : histBufLen60 = histBufMiddle60 + histBufMiddle60 := rfl
      omega
    · rw [enc.slid_hashTabMgr]
      exact HashTableManager.undoes_empty
    · rw [enc.slid_historyOffset]
      omega
    · simp only [Encoder60.slid]
      rw [cell_slid _ _ before, Nat.add_comm]
  · exact ⟨enc, rfl, lockstep, by omega, rfl, rfl, undoes, rfl, 0, rfl, fun _ _ => rfl⟩

/-- A packet that is worth a try is put behind what both sides will have. -/
theorem prepare_run (lockstep : Lockstep60 enc dec)
    (undoes : enc.hashTabMgr.Undoes enc.hashTabMgr.table) (nonempty : 0 < data.length)
    (slides : enc.Slides data.length) :
    ∃ prepared, enc.prepare data = .ok prepared ∧ prepared.Prepared data ∧
      prepared.flags = enc.flags ∧ Lockstep60 prepared dec ∧ enc.Moved prepared := by
  have cleared : Lockstep60 { enc with outputBuffer := .filled 0 } dec :=
    ⟨lockstep.below, lockstep.four, lockstep.inside, lockstep.held, lockstep.arranges⟩
  obtain ⟨enc', rewound, lockstep', room, flags, outputBuffer, undoes', cached, shift, offset,
    same⟩ := rewind_run cleared undoes slides
  refine ⟨{ enc' with historyBuffer := enc'.historyBuffer.splice enc'.historyOffset data }, ?_, ?_,
    flags, ?_, cached, shift, offset, fun index before => ?_⟩
  · simp only [Encoder60.prepare, rewound, ok_bind, Buffer.storeBlock_of_le _ (Nat.le_of_lt room),
      pure_ok]
  · refine ⟨nonempty, room, fun index bounded => Buffer.cell_splice_inside _ _ _ bounded,
      lockstep'.below, undoes', fun index => ?_, lockstep'.four⟩
    simp only [outputBuffer, Buffer.cell_filled]
  · obtain ⟨placed, thisPtr, arranges⟩ := lockstep'.arranges
    refine ⟨lockstep'.below, lockstep'.four, lockstep'.inside, lockstep'.held, placed, thisPtr,
      arranges.arranged, arranges.historyPtr, arranges.offsetCache, fun index before => ?_,
      arranges.flushed, arranges.settled⟩
    rw [arranges.agree index before]
    exact (Buffer.cell_splice_before _ _ _ before).symm
  · rw [Buffer.cell_splice_before _ _ _ before]
    exact same index before

theorem giveUp (lockstep : Lockstep60 enc dec) {manager : HashTableManager}
    (undoes : manager.Undoes enc.hashTabMgr.table) (out : Output histBufLen60) :
    Lockstep60 (enc.giveUp manager out) dec := by
  unfold Encoder60.giveUp
  cases undone : manager.undoLastChanges with
  | some restored =>
    have same := undoes.rollback_eq undone
    subst same
    exact ⟨lockstep.below.congr rfl, lockstep.four, lockstep.inside, lockstep.held, lockstep.arranges⟩
  | none =>
    have flags : (enc.flagsHold &&& ~~~packetAtFront) ||| packetFlushed = packetFlushed := by
      rcases lockstep.held with none | ⟨front, _⟩ | ⟨flushed, _⟩
      · rw [none]
        rfl
      · rw [front]
        rfl
      · rw [flushed]
        rfl
    refine ⟨HashTableManager.below_empty Nat.one_pos, rfl, Nat.zero_le _,
      .inr (.inr ⟨flags, rfl⟩), ?_⟩
    simp only [flags]
    exact ⟨_, _, Decoder60.arranges_flushed dec _⟩

end Lockstep60

section Send

variable {enc : Encoder60} {dec : Decoder60} {data : List Byte}

private theorem sent60_flags : ∀ hold : Flags,
    (packetComprTypeRdp6 ||| packetCompressed ||| hold).has packetCompressed = true ∧
      (packetComprTypeRdp6 ||| packetCompressed ||| hold) &&& packetCompressed = packetCompressed ∧
      (packetComprTypeRdp6 ||| packetCompressed ||| hold).has packetAtFront =
        hold.has packetAtFront ∧
      (packetComprTypeRdp6 ||| packetCompressed ||| hold).has packetFlushed =
        hold.has packetFlushed := by decide

private theorem turnsRound_padded {bits : List Bool} (turns : TurnsRound bits) (padding : Nat) :
    TurnsRound (bits ++ List.replicate padding false) := by
  rcases turns with ⟨index, above, bounded, set⟩ | clear
  · obtain ⟨inside, _⟩ := List.getElem?_eq_some_iff.mp set
    exact .inl ⟨index, above, bounded, by rw [List.getElem?_append_left inside]; exact set⟩
  · refine .inr fun index bounded set => ?_
    rw [List.getElem?_append] at set
    split at set
    · exact clear index bounded set
    · rw [List.getElem?_replicate] at set
      split at set <;> cases set

/-- A packet that is reported compressed is decompressed to itself. -/
private theorem succeed60_run (prepared : enc.Prepared data) (lockstep : Lockstep60 enc dec)
    (flags : enc.flags = packetComprTypeRdp6) {tokens : List (Token Byte)}
    {manager : HashTableManager} {cache : OffsetCache} {insertions : List (Nat × Nat)}
    {marker : Nat × Nat} (parts : enc.Parts data tokens manager cache insertions marker)
    (enough : 0 < enc.historyOffset ∨ 2 ≤ data.length) {out : Output histBufLen60}
    (packs : out.Packs60 (Output.insertedBits60 (insertions ++ [marker])))
    (turns : TurnsRound (Output.insertedBits60 (insertions ++ [marker])))
    (counted : out.byteCount ≤ histBufLen60) :
    ∃ wire, (enc.succeed data manager (cache, out)).result = .ok (some wire) ∧
      ∃ dec', (decompress60 dec wire.2 wire.1 >>= Decoder60.view) = .ok (dec', data) ∧
        Lockstep60 (enc.succeed data manager (cache, out)) dec' := by
  obtain ⟨reported, compressed, atFront, flushed⟩ := sent60_flags enc.flagsHold
  have room := prepared.room
  obtain ⟨padding, _, bits⟩ := packs.bytes counted
  obtain ⟨placed, thisPtr, arranges⟩ := lockstep.arranges
  have turned := turnsRound_padded turns padding
  rw [← bits] at turned
  rw [Output.insertedBits60_append, List.append_assoc] at bits
  obtain ⟨dec', run, reached, cached, agree⟩ := Decoder60.decompress_run
    (arranges.congr atFront flushed) compressed lockstep.four (parts.parse enough) parts.valid
    (Nat.le_of_lt room) parts.written parts.isMarker bits turned
  have whole : (List.range (enc.historyOffset + data.length - enc.historyOffset)).map
      (fun index => enc.historyBuffer.cell (enc.historyOffset + index)) = data := by
    rw [Nat.add_sub_cancel_left]
    exact enc.historyBuffer.slice_eq_of_getElem enc.historyOffset data prepared.text
  rw [whole] at run
  refine ⟨(enc.flags ||| packetCompressed ||| enc.flagsHold,
    out.outputBuffer.slice 0 out.byteCount), ?_, dec', ?_, ?_⟩
  · have inside : 0 + out.byteCount ≤ histBufLen60 := by omega
    simp only [Encoder60.result, Encoder60.succeed, flags, reported, if_true,
      Buffer.loadBlock_of_le _ inside, ok_bind, pure_ok]
  · rw [flags]
    exact run
  · have offset : (enc.historyOffset + data.length) % 2 ^ 16 = enc.historyOffset + data.length :=
      Nat.mod_eq_of_lt room
    obtain ⟨_, _, written, four, _⟩ := tokens_written lockstep.four parts.valid
    rw [parts.written] at written
    cases written
    have settled := Decoder60.arranges_settled (show AgreeBelow dec'.historyBuf.cell
      enc.historyBuffer.cell dec'.historyPtr by rw [reached]; exact agree)
    rw [reached, cached] at settled
    refine ⟨?_, four, ?_, .inl rfl, dec', dec'.historyPtr, ?_⟩
    · show manager.Below (max 1 ((enc.historyOffset + data.length) % 2 ^ 16))
      rw [offset]
      exact (parts.below enough).mono (Nat.le_max_right _ _)
    · show (enc.historyOffset + data.length) % 2 ^ 16 ≤ histBufLen60
      rw [offset]
      exact Nat.le_of_lt room
    · simp only [Encoder60.succeed, offset, reached]
      exact settled

/-- Too few bytes for a match at the front of the history are given up on. -/
private theorem tiny_worthless {tokens : List (Token Byte)} {manager : HashTableManager}
    {cache : OffsetCache} {insertions : List (Nat × Nat)} {marker : Nat × Nat}
    (prepared : enc.Prepared data) (parts : enc.Parts data tokens manager cache insertions marker)
    (worth : (Output.insertedBits60 (insertions ++ [marker])).length / 8 < data.length) :
    0 < enc.historyOffset ∨ 2 ≤ data.length := by
  by_cases front : enc.historyOffset = 0
  · right
    have two := parts.two front
    obtain ⟨_, _, written, _, _, wide⟩ := tokens_written prepared.four parts.valid
    rw [parts.written] at written
    cases written
    rw [Output.insertedBits60_append, List.length_append] at worth
    omega
  · exact .inl (Nat.pos_of_ne_zero front)

private theorem marker_length {marker : Nat × Nat} (isMarker : lecCode 256 = .ok marker) :
    (Output.insertedBits60 [marker]).length = 13 := by
  obtain ⟨code, isCode, _⟩ := endOfStream_run
  cases isMarker
  simp only [Output.insertedBits60, List.flatMap_cons, List.flatMap_nil, List.append_nil,
    length_lsbBits]

/-- The bits that are written for a packet are a way to write it, or they are too many. -/
private theorem safe_bits {prepared : Encoder60} (ready : prepared.Prepared data)
    (moved : enc.Moved prepared) {tokens : List (Token Byte)} {manager : HashTableManager}
    {cache : OffsetCache} {insertions : List (Nat × Nat)} {marker : Nat × Nat}
    (parts : prepared.Parts data tokens manager cache insertions marker)
    (safe : ∀ bits, enc.Encodes data bits →
      bits.length < 8 * 2 ^ 16 ∧ (bits.length / 8 < data.length → TurnsRound bits)) :
    (Output.insertedBits60 (insertions ++ [marker])).length < 8 * 2 ^ 16 ∧
      ((Output.insertedBits60 (insertions ++ [marker])).length / 8 < data.length →
        TurnsRound (Output.insertedBits60 (insertions ++ [marker]))) := by
  by_cases enough : 0 < prepared.historyOffset ∨ 2 ≤ data.length
  · refine safe _ (moved.encodes ?_ parts.valid parts.written parts.isMarker)
    refine (parts.parse enough).shift 0 fun index before => ?_
    unfold Encoder60.textWith
    rw [Nat.add_zero]
    split
    · rfl
    · rename_i behind
      have inside : index - prepared.historyOffset < data.length := by omega
      have text := ready.text _ inside
      rw [Nat.add_sub_cancel' (Nat.not_lt.mp behind)] at text
      rw [text, List.getD_eq_getElem _ _ inside]
  · -- one byte at the front, for which two literals are written
    refine ⟨?_, fun worth => (enough (tiny_worthless ready parts worth)).elim⟩
    have two := parts.few (by omega)
    obtain ⟨_, _, written, _, _, _, most⟩ := tokens_written ready.four parts.valid
    rw [parts.written] at written
    cases written
    rw [Output.insertedBits60_append, List.length_append, marker_length parts.isMarker]
    omega

/-- One packet: either it is given up on, or the decompressor gives it back. -/
private theorem compress60_run (lockstep : Lockstep60 enc dec) (safe : enc.Safe data) :
    ∃ next wire, compress60 enc data = .ok next ∧ next.result = .ok wire ∧
      match wire with
      | none => Lockstep60 next dec
      | some wire => ∃ dec', (decompress60 dec wire.2 wire.1 >>= Decoder60.view) = .ok (dec', data) ∧
          Lockstep60 next dec' := by
  have silent : ∀ enc : Encoder60, enc.flags = packetComprTypeRdp6 → enc.result = .ok none := by
    intro enc flags
    rw [Encoder60.result, flags]
    rfl
  by_cases skipped : data.length = 0 ∨ histBufLen60 - 1 ≤ data.length
  · exact ⟨enc.begin, none, if_pos skipped, silent _ rfl, lockstep.begin⟩
  · obtain ⟨slides, inserts⟩ : enc.Slides data.length ∧ _ := by
      rcases safe with empty | long | safe
      · exact (skipped (.inl empty)).elim
      · exact (skipped (.inr long)).elim
      · exact safe
    obtain ⟨prepared, arranged, ready, flags, lockstep', moved⟩ := lockstep.begin.prepare_run
      (HashTableManager.undoes_clear enc.hashTabMgr) (by omega) slides
    obtain ⟨tokens, manager, cache, insertions, marker, parts⟩ :=
      Encoder60.encodePacket_run ready
    obtain ⟨short, turns⟩ := safe_bits ready moved parts inserts
    have fitting : Output.FitsWidth (insertions ++ [marker]) := by
      obtain ⟨_, _, written, _, fitsTokens, _⟩ := tokens_written lockstep'.four parts.valid
      rw [parts.written] at written
      cases written
      obtain ⟨code, isCode, fitsCode, _⟩ := endOfStream_run
      have isMarker := parts.isMarker
      rw [isCode] at isMarker
      cases isMarker
      intro insertion member
      rcases List.mem_append.mp member with early | last
      · exact fitsTokens insertion early
      · rw [List.mem_singleton.mp last]
        exact fitsCode
    obtain ⟨out, inserted, packs⟩ := Output.insertAll60_run
      (Output.packs60_start ready.clear) fitting
      (by rw [List.length_nil, Nat.zero_add]; show _ < 65536; omega)
      (by rw [List.length_nil, Nat.zero_add]; omega)
    rw [List.nil_append] at packs
    have attempt := parts.encoded (prepared.offsetCache, .start prepared.outputBuffer) out rfl inserted
    have length := packs.length
    have positive := packs.positive
    by_cases worthless : data.length ≤ out.opbIndex
    · refine ⟨prepared.giveUp manager out, none, ?_, silent _ ?_, lockstep'.giveUp parts.undoes out⟩
      · simp only [compress60, skipped, if_false, arranged, ok_bind, attempt, worthless, if_true,
          pure_ok]
      · rw [Encoder60.giveUp]
        cases manager.undoLastChanges <;> exact flags
    · have worth : (Output.insertedBits60 (insertions ++ [marker])).length / 8 < data.length := by
        omega
      have counted : out.byteCount ≤ histBufLen60 := by
        unfold Output.byteCount
        split <;> omega
      obtain ⟨wire, reported, received⟩ := succeed60_run ready lockstep' flags parts
        (tiny_worthless ready parts worth) packs (turns worth) counted
      refine ⟨prepared.succeed data manager (cache, out), some wire, ?_, reported, received⟩
      simp only [compress60, skipped, if_false, arranged, ok_bind, attempt, worthless, pure_ok]

end Send

/-- `compress_60` with `get_compressed_data`, and `decompress` of what was reported. -/
def channel60 : Channel MppcFault Encoder60 Decoder60 (Packet 65535) (Flags × List Byte)
    (List Byte) where
  send enc packet := do
    let enc ← compress60 enc packet.data
    let wire ← enc.result
    return (enc, wire)
  receive dec wire := decompress60 dec wire.2 wire.1 >>= Decoder60.view
  payload := Packet.data

/-- As long as every packet is safe, a session round trips, whatever was given up on, moved to
the front or flushed in between. -/
theorem session60_roundTrip (packets : List (Packet 65535))
    (safe : channel60.EveryStep (fun enc packet => enc.Safe packet.data) .fresh packets) :
    channel60.RoundTrip .fresh .fresh packets := by
  refine channel60.roundTrip_of_lockstep Lockstep60 _ ?_ .fresh packets safe
  intro enc dec packet lockstep packetSafe
  obtain ⟨next, wire, compressed, reported, agrees⟩ := compress60_run lockstep packetSafe
  refine ⟨next, wire, ?_, ?_⟩
  · simp only [channel60, compressed, ok_bind, reported, pure_ok]
  · cases wire with
    | none => exact agrees
    | some wire => exact agrees

/-- Bytes that have not been there before are written as literals. -/
private theorem freshLiterals {text : Nat → Byte} {finish : Nat} {cache cache' : OffsetCache}
    {first : List Byte} {codes : List (Nat × Nat)}
    (spelled : tokensInsertions60 cache (first.map .literal) = .ok (cache, codes))
    {start : Nat} {tokens : List (Token Byte)} {insertions : List (Nat × Nat)}
    (parse : Parses text start finish tokens) (valid : ∀ token ∈ tokens, Valid60 token)
    (written : tokensInsertions60 cache tokens = .ok (cache', insertions))
    (inside : start + first.length ≤ finish)
    (here : ∀ index < first.length, text (start + index) = first.getD index 0)
    (fresh : ∀ index < first.length, ∀ before < start + index,
      text before ≠ first.getD index 0) : ∃ back, insertions = codes ++ back := by
  induction first generalizing start tokens insertions codes with
  | nil =>
    cases spelled
    exact ⟨insertions, rfl⟩
  | cons value first ih =>
    rw [List.length_cons] at inside here fresh
    have head : text start = value := here 0 (Nat.succ_pos _)
    obtain ⟨rest, rfl, later⟩ := parse.fresh (by omega)
      (fun token member => (valid token member).span) (by rw [head]; exact fresh 0 (Nat.succ_pos _))
    rw [head] at written
    obtain ⟨⟨cache₁, code⟩, first₁, last⟩ := bind_ok_iff.mp spelled
    obtain ⟨⟨cache₂, back⟩, first₂, all⟩ := bind_ok_iff.mp last
    obtain ⟨⟨cache₃, other⟩, written₁, last⟩ := bind_ok_iff.mp written
    obtain ⟨⟨cache₄, tail⟩, written₂, all'⟩ := bind_ok_iff.mp last
    rw [written₁] at first₁
    obtain ⟨symbol, _, same⟩ := bind_ok_iff.mp written₁
    cases first₁
    cases same
    cases all
    cases all'
    obtain ⟨back', rfl⟩ := ih first₂ later (fun token member => valid token (.tail _ member)) written₂
      (by omega)
      (fun index bounded => by
        rw [Nat.add_assoc, Nat.add_comm 1]
        exact here (index + 1) (by omega))
      (fun index bounded before earlier => fresh (index + 1) (by omega) before (by omega))
    exact ⟨back', (List.append_assoc ..).symm⟩

/-- A packet with room behind the history is safe where its first bytes are new and a bit of
their codes among the bits 16 to 31 is set. -/
private theorem safe_of_fresh {enc : Encoder60} {first rest : List Byte} {codes : List (Nat × Nat)}
    (four : enc.offsetCache.length = 4)
    (room : enc.historyOffset + (first ++ rest).length + 1 < histBufLen60)
    (small : 53 * (first ++ rest).length + 13 < 8 * 2 ^ 16)
    (fresh : ∀ index < first.length, ∀ before < enc.historyOffset + index,
      enc.textWith (first ++ rest) before ≠ first.getD index 0)
    (spelled : tokensInsertions60 enc.offsetCache (first.map .literal) =
      .ok (enc.offsetCache, codes))
    (index : Nat) (above : 16 ≤ index) (below : index < 32)
    (set : (Output.insertedBits60 codes)[index]? = some true) : enc.Safe (first ++ rest) := by
  refine .inr (.inr ⟨fun full => absurd full (by omega), ?_⟩)
  rintro bits ⟨tokens, cache, insertions, marker, parse, valid, written, isMarker, rfl⟩
  obtain ⟨back, rfl⟩ := freshLiterals spelled parse valid written
    (by rw [List.length_append]; omega)
    (fun index bounded => by
      unfold Encoder60.textWith
      rw [if_neg (Nat.not_lt.mpr (Nat.le_add_right _ _)), Nat.add_sub_cancel_left,
        List.getD_append _ _ _ _ bounded]) fresh
  obtain ⟨inside, _⟩ := List.getElem?_eq_some_iff.mp set
  constructor
  · obtain ⟨_, _, written', _, _, _, most⟩ := tokens_written four valid
    rw [written] at written'
    cases written'
    have count := parse.length_le fun token member => (valid token member).span
    rw [Output.insertedBits60_append, List.length_append, marker_length isMarker]
    omega
  · rw [List.append_assoc, Output.insertedBits60_append]
    exact fun _ => .inl ⟨index, above, below, by rw [List.getElem?_append_left inside]; exact set⟩

/-- The bytes from 1 to 8, twice. -/
def repeatPacket : Packet 65535 := ⟨[1, 2, 3, 4] ++ [5, 6, 7, 8, 1, 2, 3, 4, 5, 6, 7, 8], by decide⟩

/-- A session of one packet, which is sent with a copy. -/
theorem session60_roundTrip_repeats : channel60.RoundTrip .fresh .fresh [repeatPacket] :=
  session60_roundTrip _ ⟨safe_of_fresh rfl (by decide) (by decide) (by decide) rfl 16 (by decide)
    (by decide) (by decide), fun _ _ _ => trivial⟩

def zeroPacket : Packet 65535 := ⟨List.replicate 10 0, by decide⟩

private theorem rewind_short {enc : Encoder60} {dataSize : Nat}
    (short : enc.historyOffset < histBufMiddle60)
    (full : histBufLen60 ≤ enc.historyOffset + dataSize + 1) :
    enc.rewind dataSize = .error .outOfBounds := by
  rw [Encoder60.rewind, if_pos full, Encoder60.slide, if_pos short]

/-- There is not enough history before a packet that does not fit behind it. -/
private theorem underrun_run {enc : Encoder60} {packet : Packet 65535}
    (short : enc.historyOffset < histBufMiddle60) (nonempty : packet.data.length ≠ 0)
    (tried : packet.data.length < histBufLen60 - 1)
    (full : histBufLen60 ≤ enc.historyOffset + packet.data.length + 1) :
    channel60.send enc packet = .error .outOfBounds := by
  have skipped : ¬ (packet.data.length = 0 ∨ histBufLen60 - 1 ≤ packet.data.length) := by omega
  have rewound := @rewind_short { enc.begin with outputBuffer := .filled 0 } packet.data.length
    short full
  simp only [channel60, compress60, skipped, if_false, Encoder60.prepare, rewound, error_bind]

private theorem zero_send : ∃ next wire, channel60.send .fresh zeroPacket = .ok (next, wire) ∧
    next.historyOffset = 10 := by
  have sent : (channel60.send .fresh zeroPacket).map (fun result => result.1.historyOffset) =
      .ok 10 := by decide +kernel
  cases run : channel60.send .fresh zeroPacket with
  | error fault =>
    rw [run] at sent
    cases sent
  | ok result =>
    rw [run] at sent
    exact ⟨result.1, result.2, rfl, Except.ok.inj sent⟩

def equalPacket (size : Nat) (bounded : size ≤ 65535) : Packet 65535 :=
  ⟨List.replicate size 1, by simpa using bounded⟩

private theorem underrun_session {size : Nat} (count : size = 65534) (bounded : size ≤ 65535) :
    ¬ channel60.RoundTrip .fresh .fresh [zeroPacket, equalPacket size bounded] := by
  rintro ⟨entries, sent, _⟩
  obtain ⟨next, wire, first, offset⟩ := zero_send
  have length : (equalPacket size bounded).data.length = size := List.length_replicate
  have second : channel60.send next (equalPacket size bounded) = .error .outOfBounds := by
    apply underrun_run
    · rw [offset]
      decide
    · omega
    · show _ < 65535
      omega
    · show 65536 ≤ _
      omega
  simp only [Channel.sendAll, first, second] at sent
  cases sent

/-- A long packet behind a short one makes the compressor read before its history. -/
theorem session60_underrun :
    ¬ channel60.RoundTrip .fresh .fresh [zeroPacket, equalPacket 65534 (by decide)] :=
  underrun_session rfl _

end Redemption.Mppc
