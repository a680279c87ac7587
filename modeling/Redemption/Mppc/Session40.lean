import Redemption.Mppc.Incompressible

/-! Sessions of the RDP 4.0 compressor and decompressor. -/
namespace Redemption.Mppc

open Redemption.Foundation

/-- `compress_40` with `get_compressed_data`, and `decompress` of what was reported. -/
def channel40 : Channel MppcFault (Encoder format40) (Decoder format40) (Packet 8191)
    (Flags × List Byte) (List Byte) where
  send enc packet := do
    let enc ← compress40 enc packet.data
    let wire ← enc.result
    return (enc, wire)
  receive dec wire := decompress40 dec wire.2 wire.1 >>= Decoder.view
  payload := Packet.data

private theorem accepted (packet : Packet 8191) :
    ¬ format40.histBufLen ≤ packet.data.length := by
  have bounded := packet.bounded
  show ¬ 8192 ≤ packet.data.length
  omega

private theorem send_agrees {enc : Encoder format40} {dec : Decoder format40}
    {packet : Packet 8191} (lockstep : Lockstep enc dec) (safe : format40.Safe packet.data) :
    ∃ next wire, channel40.send enc packet = .ok (next, wire) ∧
      channel40.StepAgrees Lockstep dec packet next wire := by
  obtain ⟨next, wire, compressed, reported, agrees⟩ := compress_run format40_lawful lockstep
    (lockstep.packetFits format40_lawful safe) (Nat.le_refl packet.data.length)
  refine ⟨next, wire, ?_, ?_⟩
  · simp only [channel40, compress40, accepted packet, if_false, compressed, ok_bind, reported,
      pure_ok]
  · cases wire with
    | none => exact agrees
    | some wire => exact agrees.2

/-- A session of safe packets round trips, whatever was given up on, sent to the front or flushed
in between. -/
theorem session40_roundTrip {packets : List (Packet 8191)}
    (safe : ∀ packet ∈ packets, format40.Safe packet.data) :
    channel40.RoundTrip (.fresh format40) (.fresh format40) packets :=
  channel40.roundTrip_of_lockstep Lockstep _ (fun _ _ _ => send_agrees)
    (lockstep_fresh format40) packets (channel40.everyStep_of_mem _ safe)

private theorem compress40_inside {enc : Encoder format40} {dec : Decoder format40}
    {packet : Packet 8191} (lockstep : Lockstep enc dec) (safe : format40.Safe packet.data) :
    compress40 enc packet.data ≠ .error .outOfBounds := by
  obtain ⟨next, wire, compressed, _, _⟩ := compress_run format40_lawful lockstep
    (lockstep.packetFits format40_lawful safe) (Nat.le_refl packet.data.length)
  simp only [compress40, accepted packet, if_false, compressed]
  exact fun absurd => by cases absurd

/-- A packet of bytes from 0x80 on, without a repeat. -/
def overrunPacket (size : Nat) (bounded : size ≤ 8191) : Packet 8191 where
  data := (List.range size).map triadByte
  bounded := by simpa using bounded

/-- In a session of safe packets nothing is written outside the output buffer. -/
theorem session40_inside (packets : List (Packet 8191))
    (safe : ∀ packet ∈ packets, format40.Safe packet.data) :
    channel40.EveryStep (fun enc packet => compress40 enc packet.data ≠ .error .outOfBounds)
      (.fresh format40) packets :=
  channel40.everyStep_of_lockstep Lockstep _ (fun _ _ _ => send_agrees) (lockstep_fresh format40)
    packets (channel40.everyStep_of_mem _ safe) (fun _ _ _ => compress40_inside)

/-- Literals that fill the buffer up to its last byte, and a packet with a repeat. -/
theorem session40_inside_full :
    channel40.EveryStep (fun enc packet => compress40 enc packet.data ≠ .error .outOfBounds)
      (.fresh format40) [overrunPacket 7288 (by decide), ⟨[1, 2, 3, 1, 2, 3], by decide⟩] := by
  have full : format40.Safe (overrunPacket 7288 (by decide)).data := by
    apply Format.safe_of_short
    rw [overrunPacket, List.length_map, List.length_range]
    decide
  exact session40_inside _ (List.forall_mem_cons.mpr ⟨full, by decide⟩)

/-- The 7289th literal of nine bits starts in the last byte and ends behind it. -/
private theorem overrun_inserts {out : Output format40.outputCapacity} (packs : out.Packs [])
    {size : Nat} (count : size = 7288) :
    ∃ out', out.insertAll format40.outputBufferSize (literalsOf triadByte (size + 2)) =
      .error (.outOfBounds, out') := by
  obtain ⟨out', inserted, bits, packs', width⟩ := literalsOf_pack packs triadByte
    size (width_triad (by omega)) (show 9 * size / 8 < 65536 ⊓ 8200 by omega)
    (show 9 * size / 8 < 8200 by omega)
  have length := packs'.length
  have atMost := packs'.atMost
  have wide := literalBits_wide (triadByte size)
    (by rw [toNat_triadByte (by omega)]; exact (triad_bounds (by omega)).1)
  have small := literalBits_small (triadByte size)
  rw [wide] at small
  have last : out'.opbIndex < 8200 := by omega
  obtain ⟨stopped, outside⟩ := Output.insert_outside packs' format40.outputBufferSize 9
    (Output.literalBits (triadByte size)).2 small (by omega) last last
    (show 8200 ≤ (bits.length + 9) / 8 by omega) (by omega)
  have tail : literalsOf (fun index => triadByte (size + index)) 2 =
      [(9, (Output.literalBits (triadByte size)).2),
        Output.literalBits (triadByte (size + 1))] := by
    rw [← wide]
    rfl
  refine ⟨stopped, ?_⟩
  rw [literalsOf_add, Output.insertAll_append, inserted, tail]
  simp only [Output.insertAll, outside]

private theorem overrun_compress {size : Nat} (count : size = 7290) :
    compress40 (.fresh format40) ((List.range size).map triadByte) = .error .outOfBounds := by
  obtain ⟨prepared, arranged, flags, clear, manager, attempts⟩ := fresh_run format40_lawful
    (show 2 ≤ size by omega) (show size + 2 < 8192 by omega)
    (triadByte_noRepeat (show size ≤ 196608 by omega))
  have attempt := attempts (.start prepared.outputBuffer)
  obtain ⟨out', outside⟩ := overrun_inserts (Output.packs_start prepared.outputBuffer clear)
    (show size - 2 = 7288 by omega)
  have restored : size - 2 + 2 = size := by omega
  rw [restored] at outside
  rw [outside] at attempt
  obtain ⟨stopped, ran⟩ := attempt
  have length : ((List.range size).map triadByte).length = size := by simp
  have accepted : ¬ format40.histBufLen ≤ ((List.range size).map triadByte).length := by
    rw [length]
    show ¬ 8192 ≤ size
    omega
  have tried : ¬ (((List.range size).map triadByte).length = 0 ∨
      format40.histBufLen - 2 ≤ ((List.range size).map triadByte).length) := by
    rw [length]
    show ¬ (size = 0 ∨ 8190 ≤ size)
    omega
  simp only [compress40, accepted, if_false, Encoder.compress, tried, arranged, ok_bind, ran]

private theorem overrun_leaves {size : Nat} (count : size = 7290) (bounded : size ≤ 8191) :
    ¬ channel40.EveryStep (fun enc packet => compress40 enc packet.data ≠ .error .outOfBounds)
      (.fresh format40) [overrunPacket size bounded] :=
  fun inside => inside.1 (overrun_compress count)

/-- The buffer is left instead of raising `ERR_RDP45_COMPRESS_BUFFER_OVERFLOW`. -/
theorem session40_leaves :
    ¬ channel40.EveryStep (fun enc packet => compress40 enc packet.data ≠ .error .outOfBounds)
      (.fresh format40) [overrunPacket 7290 (by decide)] :=
  overrun_leaves rfl _

end Redemption.Mppc
