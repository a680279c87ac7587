import Redemption.Mppc.Incompressible

/-! Sessions of the RDP 5.0 compressor and decompressor. -/
namespace Redemption.Mppc

open Redemption.Foundation

/-- `compress_50` with `get_compressed_data`, and `decompress` of what was reported. A
message is a packet with the limit on the compressed data. -/
def channel50 : Channel MppcFault (Encoder format50) (Decoder format50) (Packet 65535 × Nat)
    (Flags × List Byte) (List Byte) where
  send enc message := do
    let enc ← compress50 enc message.1.data message.2
    let wire ← enc.result
    return (enc, wire)
  receive dec wire := decompress50 dec wire.2 wire.1 >>= Decoder.view
  payload message := message.1.data

/-- A session of safe packets round trips, whatever the limits are and whatever was given up on in
between. -/
theorem session50_roundTrip (messages : List (Packet 65535 × Nat))
    (safe : ∀ message ∈ messages, format50.Safe message.1.data) :
    channel50.RoundTrip (.fresh format50) (.fresh format50) messages := by
  refine channel50.roundTrip_of_lockstep Lockstep _ ?_ (lockstep_fresh format50) messages
    (channel50.everyStep_of_mem _ safe)
  intro enc dec message lockstep safe
  obtain ⟨next, wire, compressed, reported, agrees⟩ := compress_run format50_lawful lockstep
    (lockstep.packetFits format50_lawful safe) (Nat.min_le_left _ message.2)
  refine ⟨next, wire, ?_, ?_⟩
  · simp only [channel50, compress50, compressed, ok_bind, reported, pure_ok]
  · cases wire with
    | none => exact agrees
    | some wire => exact agrees.2

/-- A packet with a repeat, one that is given up on, and one that repeats the first. -/
theorem session50_roundTrip_repeats :
    channel50.RoundTrip (.fresh format50) (.fresh format50)
      [(⟨[1, 2, 3, 1, 2, 3, 1], by decide⟩, 7), (⟨[0x80, 0x90, 0xa0], by decide⟩, 65535),
        (⟨[9, 1, 2, 3, 1, 2, 3, 1], by decide⟩, 65535)] :=
  session50_roundTrip _ (by decide)

/-- Seven literals of eight bits, and from then on literals of nine bits. -/
def wrapByte (index : Nat) : Byte :=
  if index < 7 then BitVec.ofNat 8 index else triadByte (index - 7)

private theorem wrapByte_low {index : Nat} (low : index < 7) :
    (wrapByte index).toNat = index := by
  rw [wrapByte, if_pos low, BitVec.toNat_ofNat]
  omega

private theorem wrapByte_high {index : Nat} (high : 7 ≤ index) :
    wrapByte index = triadByte (index - 7) := if_neg (by omega)

private theorem wrapByte_noRepeat {size : Nat} (small : size ≤ 65536) :
    NoRepeat wrapByte size := by
  intro first second before inside same
  have start := congrArg BitVec.toNat (same 0 (by decide))
  rw [Nat.add_zero, Nat.add_zero] at start
  by_cases low : first < 7
  · rw [wrapByte_low low] at start
    by_cases both : second < 7
    · rw [wrapByte_low both] at start
      omega
    · have high := triad_bounds (show second - 7 < 196608 by omega)
      rw [wrapByte_high (by omega), toNat_triadByte (by omega)] at start
      omega
  · refine triadByte_noRepeat (Nat.le_refl 196608) (first - 7) (second - 7) (by omega) (by omega)
      fun index bounded => ?_
    have byte := same index bounded
    rw [wrapByte_high (by omega), wrapByte_high (by omega)] at byte
    rw [show first - 7 + index = first + index - 7 by omega, byte]
    congr 1
    omega

private theorem width_wrap {size : Nat} (small : size ≤ 65536) :
    (Output.insertedBits (literalsOf wrapByte (7 + size))).length = 56 + 9 * size := by
  have shifted : (fun index => wrapByte (7 + index)) = triadByte := by
    funext index
    rw [wrapByte_high (by omega), Nat.add_sub_cancel_left]
  rw [literalsOf_add, Output.insertedBits_append, List.length_append, shifted,
    width_triad (by omega)]
  rfl

/-- Nine bits that start in the last bit of the last byte but one: the index wraps. -/
private theorem insert_wraps (out : Output format50.outputCapacity) (data : Nat)
    (left : out.bitsLeft = 1) (last : out.opbIndex = 65534) :
    ∃ buffer, out.insertNBits4050 format50.outputBufferSize 9 data = .ok ⟨buffer, 8, 0⟩ := by
  obtain ⟨buffer, bitsLeft, opbIndex⟩ := out
  subst left last
  have first : 65534 < format50.outputCapacity := by decide
  have second : 65535 < format50.outputCapacity := by decide
  have front : 0 < format50.outputCapacity := by decide
  have room : ¬ format50.outputBufferSize < 65534 + 1 := by decide
  simp only [Output.insertNBits4050, Nat.reduceLT, if_false, room, Output.orAssign,
    Buffer.load_of_lt _ first, Output.assign_of_lt ⟨_, _, 65534⟩ _ first, Output.advance,
    Nat.reduceSub, Nat.reduceAdd, Nat.reducePow, Nat.reduceMod, Output.assignBytes,
    Nat.reduceLeDiff, if_true, Output.assign_of_lt ⟨_, _, 65535⟩ _ second,
    Output.assign_of_lt ⟨_, _, 0⟩ _ front]
  exact ⟨_, rfl⟩

/-- The last of 58248 literals of nine bits sets the index back to zero. -/
private theorem wrap_inserts {out : Output format50.outputCapacity} (packs : out.Packs [])
    {size : Nat} (count : size = 58247) :
    ∃ buffer, out.insertAll format50.outputBufferSize (literalsOf wrapByte (7 + size + 1)) =
      .ok ⟨buffer, 8, 0⟩ := by
  have width := width_wrap (show size ≤ 65536 by omega)
  obtain ⟨out', inserted, bits, packs', length⟩ := literalsOf_pack packs wrapByte (7 + size) width
    (show (56 + 9 * size) / 8 < 65544 ⊓ 65536 by omega)
    (show (56 + 9 * size) / 8 < 65535 by omega)
  have total := packs'.length
  have atMost := packs'.atMost
  have wide := literalBits_wide (wrapByte (7 + size))
    (by rw [wrapByte_high (by omega), toNat_triadByte (by omega)]
        exact (triad_bounds (by omega)).1)
  obtain ⟨buffer, wrapped⟩ := insert_wraps out' (Output.literalBits (wrapByte (7 + size))).2
    (by omega) (by omega)
  have tail : literalsOf (fun index => wrapByte (7 + size + index)) 1 =
      [(9, (Output.literalBits (wrapByte (7 + size))).2)] := by
    rw [← wide]
    rfl
  refine ⟨buffer, ?_⟩
  rw [literalsOf_add, Output.insertAll_append, inserted, tail]
  simp only [Output.insertAll, wrapped]

/-- A packet of such bytes, with a limit that its literals would exceed. -/
def wrapPacket (size : Nat) (bounded : size ≤ 65535) : Packet 65535 × Nat :=
  (⟨(List.range size).map wrapByte, by simpa using bounded⟩, 65535)

private theorem wrap_compress {size : Nat} (count : size = 58255) (bounded : size ≤ 65535) :
    ∃ next flags, flags &&& packetCompressed = packetCompressed ∧
      channel50.send (.fresh format50) (wrapPacket size bounded) =
        .ok (next, some (flags, [])) := by
  obtain ⟨prepared, arranged, type, clear, manager, attempts⟩ := fresh_run format50_lawful
    (show 2 ≤ size by omega) (show size + 2 < 65536 by omega)
    (wrapByte_noRepeat (show size ≤ 65536 by omega))
  have attempt := attempts (.start prepared.outputBuffer)
  obtain ⟨buffer, wrapped⟩ := wrap_inserts (Output.packs_start prepared.outputBuffer clear)
    (show size - 8 = 58247 by omega)
  have restored : 7 + (size - 8) + 1 = size := by omega
  rw [restored] at wrapped
  rw [wrapped] at attempt
  have length : ((List.range size).map wrapByte).length = size := by simp
  have tried : ¬ (((List.range size).map wrapByte).length = 0 ∨
      format50.histBufLen - 2 ≤ ((List.range size).map wrapByte).length) := by
    rw [length]
    show ¬ (size = 0 ∨ 65534 ≤ size)
    omega
  have worth : ¬ min ((List.range size).map wrapByte).length 65535 ≤ 0 := by
    omega
  obtain ⟨has, compressed, _, _⟩ := flags_run format50_lawful prepared.flagsHold
  rw [← type] at has compressed
  have run : compress50 (.fresh format50) ((List.range size).map wrapByte) 65535 =
      .ok (prepared.succeed ((List.range size).map wrapByte) manager ⟨buffer, 8, 0⟩) := by
    simp only [compress50, Encoder.compress, tried, if_false, arranged, ok_bind, attempt, worth,
      pure_ok]
  have reported : (prepared.succeed ((List.range size).map wrapByte) manager
      ⟨buffer, 8, 0⟩).result =
      .ok (some (prepared.flags ||| packetCompressed ||| prepared.flagsHold, [])) := by
    exact if_pos has
  refine ⟨prepared.succeed ((List.range size).map wrapByte) manager ⟨buffer, 8, 0⟩, _,
    compressed, ?_⟩
  show (compress50 (.fresh format50) ((List.range size).map wrapByte) 65535 >>= _) = _
  rw [run, ok_bind, reported, ok_bind, pure_ok]

private theorem receive_nothing {flags : Flags}
    (compressed : flags &&& packetCompressed = packetCompressed) :
    ∃ next, channel50.receive (.fresh format50) (flags, []) = .ok (next, []) := by
  have still : ¬ flags &&& packetCompressed ≠ packetCompressed := not_not.mpr compressed
  cases atFront : flags.has packetAtFront <;> cases flushed : flags.has packetFlushed <;>
    exact ⟨_, by
      simp only [channel50, decompress50, Decoder.decompress, atFront, flushed, still, if_false,
        if_true, Bool.false_eq_true]
      rfl⟩

private theorem wrap_session {size : Nat} (count : size = 58255) (bounded : size ≤ 65535) :
    ¬ channel50.RoundTrip (.fresh format50) (.fresh format50) [wrapPacket size bounded] := by
  rintro ⟨entries, sent, received⟩
  obtain ⟨next, flags, compressed, once⟩ := wrap_compress count bounded
  obtain ⟨receiver, nothing⟩ := receive_nothing compressed
  simp only [Channel.sendAll, once] at sent
  cases sent
  simp only [Channel.wires, Channel.delivered, List.filterMap_cons, List.filterMap_nil,
    Option.map_some, Channel.receiveAll, nothing] at received
  have same : [([] : List Byte)] = [(List.range size).map wrapByte] := Except.ok.inj received
  have length := congrArg List.length (List.cons.inj same).1
  rw [List.length_map, List.length_range, List.length_nil] at length
  omega

/-- A packet whose encoding ends with the last byte that the index can count is
reported as compressed to nothing. -/
theorem session50_wrap :
    ¬ channel50.RoundTrip (.fresh format50) (.fresh format50) [wrapPacket 58255 (by decide)] :=
  wrap_session rfl _

end Redemption.Mppc
