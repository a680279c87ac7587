import Redemption.FastPath.Delivery
import Redemption.Mppc.Session
import Redemption.Mppc.Encoder60
import Redemption.Mppc.Session61

/-! The compressors of the repository as `rdp_mppc_enc`: what each reports compressed is short,
and for RDP 6.1 the decompressor stays in step. -/
namespace Redemption.FastPath

open Redemption.Foundation
open Redemption.Mppc

section Mppc4050

variable {format : Format}

/-- `markFirst`, `rewind` and the copies keep the flags of a packet. -/
private theorem prepare_flags {enc prepared : Encoder format} {data : List Byte}
    (run : enc.prepare data = .ok prepared) : prepared.flags = enc.flags := by
  rw [Encoder.prepare, bind_ok_iff] at run
  obtain ⟨outputBuffer, _, run⟩ := run
  rw [bind_ok_iff] at run
  obtain ⟨historyBuffer, _, run⟩ := run
  cases run
  unfold Encoder.rewind Encoder.markFirst
  split <;> split <;> rfl

theorem compress_short (lawful : format.Lawful) {enc next : Encoder format} {data : List Byte}
    {worth : Nat} (run : enc.compress data worth = .ok next)
    (flagged : next.flags.has packetCompressed = true) : next.bytesInOpb ≤ worth := by
  have silent := settled_flags lawful
  unfold Encoder.compress at run
  split at run
  · cases run
    have quiet : enc.begin.flags.has packetCompressed = false := silent
    rw [quiet] at flagged
    cases flagged
  · rw [bind_ok_iff] at run
    obtain ⟨prepared, arranged, run⟩ := run
    have kept : prepared.flags.has packetCompressed = false := by
      rw [prepare_flags arranged]
      exact silent
    have givenUp : ∀ manager out, (prepared.giveUp manager out).flags = prepared.flags := by
      intro manager out
      unfold Encoder.giveUp
      cases manager.undoLastChanges <;> rfl
    split at run
    · cases run
    · cases run
      rw [givenUp, kept] at flagged
      cases flagged
    · split at run
      · cases run
        rw [givenUp, kept] at flagged
        cases flagged
      · cases run
        show Output.byteCount _ ≤ worth
        unfold Output.byteCount
        split <;> omega

/-- `compressedType` of `do_compress`. -/
def reported (flags : Flags) : Flags := if flags.has packetCompressed then flags else 0

theorem has_reported (flags : Flags) :
    (reported flags).has packetCompressed = flags.has packetCompressed := by
  unfold reported
  cases flagged : flags.has packetCompressed with
  | true => exact flagged
  | false =>
    rw [if_neg Bool.false_ne_true]
    decide

private theorem loadBlock_length {size start length : Nat} {buffer : Buffer Byte size}
    {bytes : List Byte} (run : (buffer.loadBlock start length : Checked Mppc.ErrorId _) = .ok bytes) :
    bytes.length = length := by
  unfold Buffer.loadBlock at run
  split at run
  · cases run
    exact buffer.length_slice start length
  · cases run

end Mppc4050

private theorem prepare60_flags {enc prepared : Encoder60} {data : List Byte}
    (run : enc.prepare data = .ok prepared) : prepared.flags = enc.flags := by
  rw [Encoder60.prepare, bind_ok_iff] at run
  obtain ⟨moved, slid, run⟩ := run
  rw [bind_ok_iff] at run
  obtain ⟨historyBuffer, _, run⟩ := run
  cases run
  unfold Encoder60.rewind at slid
  split at slid
  · unfold Encoder60.slide at slid
    split at slid
    · cases slid
    · rw [bind_ok_iff] at slid
      obtain ⟨recent, _, slid⟩ := slid
      rw [bind_ok_iff] at slid
      obtain ⟨historyBuffer, _, slid⟩ := slid
      cases slid
      rfl
  · cases slid
    rfl

/-- `rdp_mppc_40_enc`. -/
def rdpMppc40Enc : RdpMppcEnc where
  State := Encoder format40
  maxDataBlockSize := format40.histBufLen - 1
  compress enc data := do
    let enc ← compress40 enc data
    return (enc, reported enc.flags)
  compressedData enc := enc.outputBuffer.loadBlock 0 enc.bytesInOpb
  block := by decide
  short := by
    intro enc next flags data bytes run flagged written
    rw [bind_ok_iff] at run
    obtain ⟨next', compressed, run⟩ := run
    cases run
    rw [has_reported] at flagged
    rw [loadBlock_length written]
    unfold compress40 at compressed
    split at compressed
    · cases compressed
    · exact (compress_short format40_lawful compressed flagged).trans (Nat.le_succ _)

/-- `rdp_mppc_50_enc`. -/
def rdpMppc50Enc : RdpMppcEnc where
  State := Encoder format50
  maxDataBlockSize := format50.histBufLen - 1
  compress enc data := do
    let enc ← compress50 enc data (2 ^ 16 - 1)
    return (enc, reported enc.flags)
  compressedData enc := enc.outputBuffer.loadBlock 0 enc.bytesInOpb
  block := by decide
  short := by
    intro enc next flags data bytes run flagged written
    rw [bind_ok_iff] at run
    obtain ⟨next', compressed, run⟩ := run
    cases run
    rw [has_reported] at flagged
    rw [loadBlock_length written]
    have worth := compress_short format50_lawful compressed flagged
    omega

/-- Output of RDP 6.0 that is not worth it is not reported either. -/
theorem compress60_short {enc next : Encoder60} {data : List Byte}
    (run : compress60 enc data = .ok next)
    (flagged : next.flags.has packetCompressed = true) : next.bytesInOpb ≤ data.length := by
  have silent : packetComprTypeRdp6.has packetCompressed = false := by decide
  unfold compress60 at run
  split at run
  · cases run
    have quiet : enc.begin.flags.has packetCompressed = false := silent
    rw [quiet] at flagged
    cases flagged
  · rw [bind_ok_iff] at run
    obtain ⟨prepared, arranged, run⟩ := run
    have kept : prepared.flags.has packetCompressed = false := by
      rw [prepare60_flags arranged]
      exact silent
    rw [bind_ok_iff] at run
    obtain ⟨⟨manager, coding⟩, _, run⟩ := run
    have givenUp : (prepared.giveUp manager coding.2).flags = prepared.flags := by
      unfold Encoder60.giveUp
      cases manager.undoLastChanges <;> rfl
    simp only at run
    split at run
    · cases run
      rw [givenUp, kept] at flagged
      cases flagged
    · cases run
      show Output.byteCount _ ≤ data.length
      unfold Output.byteCount
      split <;> omega

/-- `rdp_mppc_60_enc`. -/
def rdpMppc60Enc : RdpMppcEnc where
  State := Encoder60
  maxDataBlockSize := histBufLen60 - 1
  compress enc data := do
    let enc ← compress60 enc data
    return (enc, reported enc.flags)
  compressedData enc := enc.outputBuffer.loadBlock 0 enc.bytesInOpb
  block := by decide
  short := by
    intro enc next flags data bytes run flagged written
    rw [bind_ok_iff] at run
    obtain ⟨next', compressed, run⟩ := run
    cases run
    rw [has_reported] at flagged
    rw [loadBlock_length written]
    exact (compress60_short compressed flagged).trans (Nat.le_succ _)

section Mppc61

/-- Data that level 2 reports compressed are at most as long as is worth it; else nothing but
the inner compressor changes. -/
private theorem compressLevel2_run {enc after : Encoder61} {input : List Byte} {worth : Nat}
    (run : enc.compressLevel2 input worth = .ok after) :
    (after.level2ComprFlags.has packetCompressed = true ∧
        after.bytesInOutputBuffer ≤ min input.length worth) ∨
      (after.level2ComprFlags.has packetCompressed = false ∧
        after.bytesInOutputBuffer = enc.bytesInOutputBuffer) := by
  rw [Encoder61.compressLevel2, bind_ok_iff] at run
  obtain ⟨inner, compressed, run⟩ := run
  cases flagged : inner.flags.has packetCompressed with
  | true =>
    simp only [flagged, if_true, pure_ok, Except.ok.injEq] at run
    subst run
    exact .inl ⟨flagged, compress_short format50_lawful compressed flagged⟩
  | false =>
    simp only [flagged, Bool.false_eq_true, if_false, pure_ok, Except.ok.injEq] at run
    subst run
    exact .inr ⟨(show (0 : Flags).has packetCompressed = false by decide), rfl⟩

private theorem finish_bytes (enc : Encoder61) (dataSize : Nat) :
    (enc.finish dataSize).bytesInOutputBuffer = enc.bytesInOutputBuffer := by
  unfold Encoder61.finish
  simp only
  split <;> rfl

private theorem giveUp_bytes (enc : Encoder61) (dataSize : Nat) :
    (enc.giveUp dataSize).bytesInOutputBuffer = enc.bytesInOutputBuffer := by
  unfold Encoder61.giveUp
  cases enc.hashTabMgr.undoLastChanges with
  | some manager => rfl
  | none => exact finish_bytes _ _

/-- Before level 2 nothing is in the output, and where level 1 was of use it is short. -/
private theorem compressLevel1_bytes {behind : Nat → Byte} {enc after : Encoder61}
    {data : List Byte} (run : enc.compressLevel1 behind data = .ok after) :
    after.bytesInOutputBuffer = enc.bytesInOutputBuffer ∧
      (after.level1ComprFlags.has l1NoCompression = false →
        after.level1OutputBuffer.length < data.length) := by
  have marked : ∀ flags : Flags, (flags ||| l1NoCompression).has l1NoCompression = true := by
    decide
  unfold Encoder61.compressLevel1 at run
  split at run
  · cases run
    refine ⟨rfl, fun useful => ?_⟩
    rw [marked] at useful
    cases useful
  · rw [bind_ok_iff] at run
    obtain ⟨⟨hashTabMgr, matchDetails⟩, _, run⟩ := run
    rw [bind_ok_iff] at run
    obtain ⟨level1OutputBuffer, _, run⟩ := run
    cases run
    refine ⟨rfl, fun useful => ?_⟩
    by_cases long : data.length ≤ level1OutputBuffer.length
    · simp only [if_pos long, marked] at useful
      cases useful
    · exact Nat.lt_of_not_le long

theorem compress61_short {behind : Nat → Byte} {enc next : Encoder61} {data : List Byte}
    (run : compress61 behind enc data = .ok next) (some' : next.bytesInOutputBuffer ≠ 0) :
    next.bytesInOutputBuffer + 1 ≤ data.length := by
  unfold compress61 at run
  split at run
  · cases run
  · split at run
    · cases run
      exact absurd rfl some'
    · rw [bind_ok_iff] at run
      obtain ⟨placed, arranged, run⟩ := run
      have empty : placed.bytesInOutputBuffer = 0 := by
        rw [Encoder61.place, bind_ok_iff] at arranged
        obtain ⟨historyBuffer, _, arranged⟩ := arranged
        cases arranged
        unfold Encoder61.rewind Encoder61.markFront
        split <;> split <;> rfl
      rw [Encoder61.encodePacket, bind_ok_iff] at run
      obtain ⟨after, searched, run⟩ := run
      obtain ⟨kept, useful⟩ := compressLevel1_bytes searched
      cases plain : after.level1ComprFlags.has l1NoCompression with
      | true =>
        rw [if_pos plain, Encoder61.sendPlain, bind_ok_iff] at run
        obtain ⟨packed, level2, run⟩ := run
        rcases compressLevel2_run level2 with ⟨flagged, worth⟩ | ⟨flagged, same⟩
        · simp only [flagged, if_true, pure_ok, Except.ok.injEq] at run
          rw [← run, finish_bytes] at some' ⊢
          omega
        · simp only [flagged, Bool.false_eq_true, if_false, pure_ok, Except.ok.injEq] at run
          rw [← run, giveUp_bytes, same, kept, empty] at some'
          exact absurd rfl some'
      | false =>
        have shorter := useful plain
        rw [plain, if_neg Bool.false_ne_true, Encoder61.sendLevel1, bind_ok_iff] at run
        obtain ⟨packed, level2, run⟩ := run
        have level1 : packed.level1OutputBuffer = after.level1OutputBuffer := by
          rw [Encoder61.compressLevel2, bind_ok_iff] at level2
          obtain ⟨inner, _, level2⟩ := level2
          split at level2 <;> cases level2 <;> rfl
        rcases compressLevel2_run level2 with ⟨flagged, worth⟩ | ⟨flagged, same⟩
        · simp only [flagged, if_true, pure_ok, Except.ok.injEq] at run
          rw [← run, finish_bytes]
          omega
        · simp only [flagged, Bool.false_eq_true, if_false, pure_ok, Except.ok.injEq] at run
          rw [← run, finish_bytes]
          rw [level1]
          exact shorter

private theorem output_length {enc : Encoder61} {bytes : List Byte}
    (run : enc.output = .ok bytes) : bytes.length = enc.bytesInOutputBuffer := by
  unfold Encoder61.output at run
  split at run
  · cases run
  · rw [bind_ok_iff] at run
    obtain ⟨⟨front, back⟩, taken, run⟩ := run
    cases run
    unfold inBytes at taken
    split at taken
    · rename_i room
      cases taken
      rw [List.length_take]
      exact Nat.min_eq_left room
    · cases taken
  · exact loadBlock_length run

/-- `compressedType` of `do_compress`. -/
def reported61 (enc : Encoder61) : Flags :=
  if enc.bytesInOutputBuffer ≠ 0 then packetCompressed ||| packetComprTypeRdp61 else 0

theorem has_reported61 (enc : Encoder61) :
    (reported61 enc).has packetCompressed = true ↔ enc.bytesInOutputBuffer ≠ 0 := by
  unfold reported61
  split
  · rename_i some'
    exact ⟨fun _ => some', fun _ => by decide⟩
  · rename_i none'
    exact ⟨fun claimed => absurd claimed (by decide), fun some' => absurd some' none'⟩

end Mppc61

/-- `rdp_mppc_61_enc_hash_based`. What lies behind the history is any function of the state. -/
def rdpMppc61Enc (behind : Encoder61 → Nat → Byte) : RdpMppcEnc where
  State := Encoder61
  maxDataBlockSize := maxDataBlockSize61
  compress enc data := do
    let enc ← compress61 (behind enc) enc data
    return (enc, reported61 enc)
  compressedData enc := do
    let bytes ← enc.output
    return enc.level1ComprFlags :: enc.level2ComprFlags :: bytes
  block := by decide
  short := by
    intro enc next flags data bytes run flagged written
    rw [bind_ok_iff] at run
    obtain ⟨next', compressed, run⟩ := run
    cases run
    rw [has_reported61] at flagged
    rw [bind_ok_iff] at written
    obtain ⟨output, loaded, written⟩ := written
    cases written
    have shorter := compress61_short compressed flagged
    rw [List.length_cons, List.length_cons, output_length loaded]
    omega

/-- `rdp_mppc_61_dec`. -/
def rdpMppc61Dec : RdpMppcDec where
  State := Decoder61
  decompress dec data _ := decompress61 dec data >>= Decoder61.view

theorem inStep61_agrees {settings : Settings} (support : settings.compressionSupport = true)
    (behind : Encoder61 → Nat → Byte) {enc next : (rdpMppc61Enc behind).State}
    {dec : rdpMppc61Dec.State} {chunk data : List Byte} {flags : Mppc.Flags}
    (lockstep : Lockstep61 enc dec) (run : settings.chunkData enc chunk = .ok (next, flags, data)) :
    (flags.has packetCompressed = false → Lockstep61 next dec) ∧
      (flags.has packetCompressed = true → ∃ dec',
        rdpMppc61Dec.decompress dec data flags = .ok (dec', chunk) ∧ Lockstep61 next dec') := by
  rw [Settings.chunkData, bind_ok_iff] at run
  obtain ⟨⟨next', flags'⟩, compressed, run⟩ := run
  simp only [Settings.compress, support, if_true] at compressed
  have compressed' := liftMppc_eq_ok compressed
  change (compress61 (behind enc) enc chunk >>= fun enc => pure (enc, reported61 enc)) =
    .ok (next', flags') at compressed'
  rw [bind_ok_iff] at compressed'
  obtain ⟨after, ran, same⟩ := compressed'
  obtain ⟨rfl, rfl⟩ := Prod.mk.inj (Except.ok.inj same)
  change (if (reported61 after).has packetCompressed then
      liftMppc ((rdpMppc61Enc behind).compressedData after) >>= fun compressed =>
        pure (after, reported61 after, compressed)
    else pure (after, reported61 after, chunk)) = .ok (next, flags, data) at run
  have short : chunk.length ≤ maxDataBlockSize61 := by
    unfold compress61 at ran
    split at ran
    · cases ran
    · omega
  obtain ⟨other, wire, again, result, agrees⟩ := compress61_run lockstep (behind enc) short
  rw [ran] at again
  cases again
  cases flagged : (reported61 after).has packetCompressed with
  | false =>
    have none' : ¬ after.bytesInOutputBuffer ≠ 0 := by
      rw [← has_reported61, flagged]
      exact Bool.false_ne_true
    rw [Encoder61.result, if_neg none'] at result
    cases result
    rw [flagged, if_neg Bool.false_ne_true] at run
    cases run
    refine ⟨fun _ => agrees, fun claimed => ?_⟩
    rw [flagged] at claimed
    cases claimed
  | true =>
    have some' := (has_reported61 after).mp flagged
    rw [flagged, if_pos rfl, bind_ok_iff] at run
    obtain ⟨bytes, written, run⟩ := run
    have written' := liftMppc_eq_ok written
    change (after.output >>= fun bytes =>
      pure (after.level1ComprFlags :: after.level2ComprFlags :: bytes)) = .ok bytes at written'
    rw [bind_ok_iff] at written'
    obtain ⟨output, loaded, same⟩ := written'
    rw [Encoder61.result, if_pos some', loaded, ok_bind] at result
    cases same
    cases result
    cases run
    refine ⟨fun claimed => ?_, fun _ => agrees⟩
    rw [flagged] at claimed
    cases claimed

/-- The decompressor of RDP 6.1 stays in step with the compressor. -/
def inStep61 (settings : Settings) (support : settings.compressionSupport = true)
    (behind : Encoder61 → Nat → Byte) :
    InStep settings (rdpMppc61Enc behind) rdpMppc61Dec where
  related := Lockstep61
  agrees := inStep61_agrees support behind

end Redemption.FastPath
