import Redemption.FastPath.Encoders

/-! Fragmentation of fast-path updates: what is sent for a payload, and what becomes of the
memory that it stands in. -/
namespace Redemption.FastPath

open Redemption.Foundation

variable {enc : RdpMppcEnc} {ssl : Ssl} {size : Nat}

/-- What the PDUs for a payload are. -/
structure Delivers (settings : Settings) (mppcEnc : enc.State) (crypt : CryptContext ssl)
    (payload : List Byte) (pdus : List (List Byte)) : Prop where
  /-- They carry the chunks of the payload, as they are where nothing was compressed. -/
  carried : ∃ chunks last pieces, chunks.flatten = payload ∧
    (∀ chunk ∈ chunks, chunk.length ≤ settings.fragmentMax enc) ∧
    settings.compressAll mppcEnc chunks = .ok (last, pieces) ∧
    List.Forall₂ (fun chunk piece =>
      piece.1.has Mppc.packetCompressed = false → piece.2 = chunk) chunks pieces ∧
    pdus = (emitAll settings.encryptionLevel crypt
      (partsOf settings.updateCode false true pieces)).2 ∧
    (partsOf settings.updateCode false true pieces).map UpdateParts.fragmentation =
      fragmentations pdus.length
  lengths : ∀ pdu ∈ pdus, lengthField pdu = some pdu.length ∧ pdu.length ≤ 0x3fff
  /-- A client with the keys and a decompressor in step gets the payload. -/
  received : ∀ (dec : RdpMppcDec) (inStep : InStep settings enc dec) (state : dec.State),
    inStep.related mppcEnc state → crypt.encryptionMethod ≠ ENCRYPTION_METHOD_FIPS →
      ∃ updates, receiveAll dec crypt state pdus = .ok updates ∧
        (updates.map Update.payload).flatten = payload ∧
        updates.map Update.fragmentation =
          (fragmentations pdus.length).map Fragmentation.code ∧
        ∀ update ∈ updates, update.updateCode = settings.updateCode.code

/-- The bytes of the payload that are still to be sent are as they were given, and a round
touches its own fragment and 15 bytes before it. -/
structure KeepsUnsent (settings : Settings) (payload : List Byte)
    (loop : Sending enc ssl size) : Prop where
  unsent : loop.memory.slice (settings.dataCommon.headPtr + loop.startAt)
    (payload.drop loop.startAt).length = payload.drop loop.startAt
  remaining : loop.remaining = payload.length - loop.startAt
  touched : ∀ next, settings.sendFragment loop = .ok next →
    loop.memory.AgreesOutside next.memory (settings.dataCommon.headPtr + loop.startAt - 15)
      (settings.dataCommon.headPtr + next.startAt)

theorem length_emitAll (encryptionLevel : Int) (crypt : CryptContext ssl)
    (updates : List UpdateParts) :
    (emitAll encryptionLevel crypt updates).2.length = updates.length := by
  induction updates generalizing crypt with
  | nil => rfl
  | cons parts rest ih => rw [emitAll, List.length_cons, List.length_cons, ih]

theorem length_partsOf (updateCode : UpdateType) (used isFirst : Bool)
    (pieces : List (Mppc.Flags × List Byte)) :
    (partsOf updateCode used isFirst pieces).length = pieces.length := by
  induction pieces generalizing used isFirst with
  | nil => rfl
  | cons piece rest ih => rw [partsOf, List.length_cons, List.length_cons, ih]

namespace Settings

variable {settings : Settings}

theorem compressAll_error {mppcEnc : enc.State} {chunks : List (List Byte)}
    {fault : Fault ErrorId} (run : settings.compressAll mppcEnc chunks = .error fault) :
    settings.compressionSupport = true := by
  cases support : settings.compressionSupport with
  | true => rfl
  | false =>
    have silent : (0 : Mppc.Flags).has Mppc.packetCompressed = false := by decide
    have fine : ∃ pieces, settings.compressAll mppcEnc chunks = .ok (mppcEnc, pieces) := by
      induction chunks with
      | nil => exact ⟨[], rfl⟩
      | cons chunk rest ih =>
        cases others : settings.compressAll mppcEnc rest with
        | error other =>
          rw [compressAll, chunkData, compress, support] at run
          simp only [Bool.false_eq_true, if_false, ok_bind, silent, pure_ok, others,
            error_bind] at run
          obtain ⟨pieces, same⟩ := ih (others.trans run)
          rw [others] at same
          cases same
        | ok result =>
          obtain ⟨last, pieces⟩ := result
          rw [compressAll, chunkData, compress, support] at run
          simp only [Bool.false_eq_true, if_false, ok_bind, silent, pure_ok, others] at run
          cases run
    obtain ⟨pieces, same⟩ := fine
    rw [same] at run
    cases run

theorem delivers_run {mppcEnc last : enc.State} {crypt : CryptContext ssl}
    {payload : List Byte} {chunks : List (List Byte)} {pieces : List (Mppc.Flags × List Byte)}
    (chunked : Chunked (settings.fragmentMax enc) payload chunks)
    (run : settings.compressAll mppcEnc chunks = .ok (last, pieces)) :
    Delivers settings mppcEnc crypt payload (emitAll settings.encryptionLevel crypt
      (partsOf settings.updateCode false true pieces)).2 := by
  have limit := (settings.fragmentMax_pos enc).2
  have small := chunked.length_le
  obtain ⟨sizes, plain⟩ := compressAll_run small run
  have count : (emitAll settings.encryptionLevel crypt
      (partsOf settings.updateCode false true pieces)).2.length = pieces.length := by
    rw [length_emitAll, length_partsOf]
  refine ⟨⟨chunks, last, pieces, chunked.flatten_eq, small, run, plain, rfl, ?_⟩, ?_, ?_⟩
  · rw [count, fragmentation_partsOf]
  · intro pdu member
    obtain ⟨crypt', parts, present, same⟩ := mem_emitAll member
    obtain ⟨piece, among, data⟩ := mem_partsOf present
    have size := sizes piece among
    have header := parts.length_bytes_le
    rw [data] at header
    have room : parts.bytes.length + 11 < 2 ^ 15 := by omega
    obtain ⟨length, field⟩ := serverUpdatePDU_length crypt' settings.encryptionLevel room
    have bound := pduLength_le (secFlagsOf settings.encryptionLevel) room
    rw [same, length]
    exact ⟨field, by omega⟩
  · intro dec inStep state related supported
    obtain ⟨updates, received, payloads, fragments, codes⟩ := receiveAll_run inStep related
      supported (fun chunk member => (small chunk member).trans limit) run false true
    refine ⟨updates, received, ?_, ?_, codes⟩
    · rw [payloads, chunked.flatten_eq]
    · rw [fragments, count, ← fragmentation_partsOf settings.updateCode pieces, List.map_map]
      rfl

/-- `send_fast_path_data`, for a payload of any length with room before it. The loop ends, and
unless the compressor fails, the payload is delivered; no round touches what is unsent. -/
theorem fast_path_update {memory : Buffer Byte size} {payload : List Byte}
    (given : settings.Given size payload.length)
    (stands : memory.slice settings.dataCommon.headPtr payload.length = payload)
    (mppcEnc : enc.State) (crypt : CryptContext ssl) :
    (∃ result, (∀ rounds, payload.length < rounds →
        settings.sendFastPathData rounds memory mppcEnc crypt = some result) ∧
      match result with
      | .error fault => settings.compressionSupport = true ∧ ∃ chunks,
          Chunked (settings.fragmentMax enc) payload chunks ∧
            settings.compressAll mppcEnc chunks = .error fault
      | .ok final => Delivers settings mppcEnc crypt payload final.transport) ∧
    ∀ loop, Reached settings (settings.start memory mppcEnc crypt) loop →
      KeepsUnsent settings payload loop := by
  have positive := (settings.fragmentMax_pos enc).1
  have ready := ready_start given stands mppcEnc crypt
  refine ⟨?_, ?_⟩
  · obtain ⟨chunks, chunked⟩ := Chunked.exists_chunks positive payload
    have count := chunked.count_le positive
    have ran := sendFragments_run given chunked ready (Nat.le_refl chunks.length)
    have state : (settings.start memory mppcEnc crypt).mppcEnc = mppcEnc := rfl
    rw [state] at ran
    cases run : settings.compressAll mppcEnc chunks with
    | error fault =>
      simp only [run] at ran
      exact ⟨.error fault, fun rounds enough => sendFragments_mono ran (by omega),
        compressAll_error run, chunks, chunked, run⟩
    | ok result =>
      obtain ⟨last, pieces⟩ := result
      simp only [run] at ran
      obtain ⟨final, ended, _, sent⟩ := ran
      refine ⟨.ok final, fun rounds enough => sendFragments_mono ended (by omega), ?_⟩
      show Delivers settings mppcEnc crypt payload final.transport
      rw [sent]
      exact delivers_run chunked run
  · intro loop reached
    have now := reached.ready given stands
    refine ⟨now.unsent, ?_, fun next round => (sendFragment_inv given now round).1⟩
    rw [now.remaining, List.length_drop]

end Settings

/-- A library that is not called without encryption. -/
def plainSsl : Ssl where
  Rc4 := Unit
  setKey _ := ()
  crypt rc4 data := (rc4, data)
  sha1 _ := List.replicate 20 0
  md5 _ := List.replicate 16 0
  length_crypt _ _ := rfl
  crypt_crypt _ _ := rfl
  length_md5 _ := List.length_replicate

def plainContext : CryptContext plainSsl := ⟨0, [], [], [], (), 0⟩

/-- A cipher that inverts every bit. -/
def invertingSsl : Ssl where
  Rc4 := Unit
  setKey _ := ()
  crypt rc4 data := (rc4, data.map (· ^^^ 0xFF))
  sha1 _ := List.replicate 20 0
  md5 _ := List.replicate 16 0
  length_crypt _ _ := List.length_map _
  crypt_crypt _ data := by
    have twice : ((· ^^^ 0xFF) ∘ (· ^^^ 0xFF) : Byte → Byte) = id := by
      funext byte
      change byte ^^^ 0xFF ^^^ 0xFF = byte
      rw [BitVec.xor_assoc, BitVec.xor_self, BitVec.xor_zero]
    rw [List.map_map, twice, List.map_id]
  length_md5 := plainSsl.length_md5

def invertingContext : CryptContext invertingSsl := ⟨0, [], [], [], (), 0⟩

/-- So many bytes in a `StaticOutReservedStreamHelper`, neither compressed nor encrypted. -/
def plainSettings (total : Nat) : Settings where
  compressionSupport := false
  encryptionLevel := 0
  updateCode := .orders
  dataCommon := ⟨1024, 1024, 1024, 1024 + total, 65536⟩
  uninitialised := .filled 0

def plainMemory (payload : List Byte) : Buffer Byte 65536 := (Buffer.filled 0).splice 1024 payload

theorem given_plain {total : Nat} (short : total ≤ 64512) :
    (plainSettings total).Given 65536 total := by
  refine ⟨Nat.le_refl _, ?_, Nat.le_refl _, rfl, ?_, by omega⟩
  · show 15 ≤ 1024
    omega
  · show 1024 + total ≤ 65536
    omega

theorem stands_plain (payload : List Byte) :
    (plainMemory payload).slice (plainSettings payload.length).dataCommon.headPtr payload.length =
      payload := Buffer.slice_splice _ _ _

def fresh40 : rdpMppc40Enc.State := Mppc.Encoder.fresh Mppc.format40

/-- Three fragments. -/
theorem fast_path_update_fragments : ∃ final, (plainSettings 40000).sendFastPathData 40001
        (plainMemory (List.replicate 40000 1)) fresh40 plainContext = some (.ok final) ∧
      Delivers (plainSettings 40000) fresh40 plainContext (List.replicate 40000 1)
        final.transport := by
  have length : (List.replicate 40000 (1 : Byte)).length = 40000 := List.length_replicate
  generalize List.replicate 40000 (1 : Byte) = payload at length ⊢
  rw [← length]
  obtain ⟨⟨result, ended, outcome⟩, _⟩ := @Settings.fast_path_update rdpMppc40Enc plainSsl 65536
    _ _ payload (given_plain (by omega)) (stands_plain payload) fresh40 plainContext
  cases result with
  | error fault => exact absurd outcome.1 Bool.false_ne_true
  | ok final => exact ⟨final, ended _ (by omega), outcome⟩

/-- No round changes the bytes of the payload that were handed over before it. -/
def KeepsHandedOver (settings : Settings) (start : Sending enc ssl size) : Prop :=
  ∀ loop next, settings.Reached start loop → settings.sendFragment loop = .ok next →
    ∀ index, settings.dataCommon.headPtr ≤ index →
      index < settings.dataCommon.headPtr + loop.startAt →
        next.memory.cell index = loop.memory.cell index

theorem serverUpdatePDU_plain (crypt : CryptContext ssl) {encryptionLevel : Int}
    (plain : encryptionLevel ≤ 1) (update : List Byte) :
    ∃ header, (serverUpdatePDU crypt encryptionLevel update).2 = header ++ update := by
  have off : secFlagsOf encryptionLevel = 0 := if_neg (by omega)
  have clear : ¬ ((0 : Byte) &&& FASTPATH_OUTPUT_ENCRYPTED ≠ 0) := by decide
  refine ⟨(FASTPATH_OUTPUT_ACTION_FASTPATH ||| (((0 : Byte) &&& 0x03) <<< 6)) ::
    out2BUE (pduLength 0 update.length), ?_⟩
  simp only [serverUpdatePDU, serverUpdatePDUSend, off, if_neg clear]

namespace Settings

/-- A fragment that is neither compressed nor encrypted ends with its data, where they were, and
the byte before them is the high one of their size. -/
theorem sendFragment_stands {total : Nat} (short : total ≤ 64512)
    {loop : Sending rdpMppc40Enc plainSsl 65536} {rest : List Byte}
    (ready : (plainSettings total).Ready total loop rest) (unused : loop.used = false) :
    ∃ next, (plainSettings total).sendFragment loop = .ok next ∧
      next.startAt = loop.startAt + (rest.take 16363).length ∧ next.used = false ∧
      next.memory.slice (1024 + loop.startAt - 1) (1 + (rest.take 16363).length) =
        BitVec.ofNat 8 ((rest.take 16363).length / 2 ^ 8) :: rest.take 16363 := by
  have limit : (plainSettings total).fragmentMax rdpMppc40Enc = 16363 := rfl
  have compressed : (plainSettings total).compress loop.mppcEnc (rest.take 16363) =
      .ok (loop.mppcEnc, 0) := rfl
  have silent : (0 : Mppc.Flags).has Mppc.packetCompressed = false := by decide
  obtain ⟨memory', sent, _, position, places, bytes⟩ :=
    sendFragment_plain (given_plain short) ready compressed silent
  rw [limit] at sent places bytes
  obtain ⟨header, pdu⟩ := serverUpdatePDU_plain loop.crypt
    (show (0 : Int) ≤ 1 by decide)
    ((plainSettings total).nextParts loop (rest.take 16363).length 0 (rest.take 16363)).bytes
  have off : ¬ (compressionOf false &&& FASTPATH_OUTPUT_COMPRESSION_USED ≠ 0) := by decide
  obtain ⟨updateHeader, low, update⟩ : ∃ updateHeader low, ((plainSettings total).nextParts loop
      (rest.take 16363).length 0 (rest.take 16363)).bytes = [updateHeader, low] ++
        (BitVec.ofNat 8 ((rest.take 16363).length / 2 ^ 8) :: rest.take 16363) := by
    simp only [nextParts, UpdateParts.bytes, updateSend, unused, silent, Bool.or_self, if_neg off,
      leBytes]
    exact ⟨_, _, rfl⟩
  change (serverUpdatePDU loop.crypt (plainSettings total).encryptionLevel _).2 = _ at pdu
  rw [pdu, update, ← List.append_assoc] at places bytes
  have tail := Buffer.slice_tail places bytes
  refine ⟨_, sent, rfl, ?_, ?_⟩
  · show (loop.used || (0 : Mppc.Flags).has Mppc.packetCompressed) = false
    rw [unused, silent]
    rfl
  · have place : 1024 + loop.startAt - 1 =
        1024 + loop.startAt + (rest.take 16363).length - ((rest.take 16363).length + 1) := by
      omega
    rw [place, Nat.add_comm 1]
    exact tail

end Settings

/-- The headers of the second of two fragments are written over the end of the first, which
has been handed over. -/
theorem handed_over_overwritten : ¬ KeepsHandedOver (plainSettings 16364)
    ((plainSettings 16364).start (plainMemory (List.replicate 16364 1)) fresh40 plainContext) := by
  intro keeps
  have short : 16364 ≤ 64512 := by omega
  have length : (List.replicate 16364 (1 : Byte)).length = 16364 := List.length_replicate
  have given := given_plain short
  have stands := stands_plain (List.replicate 16364 (1 : Byte))
  rw [length] at stands
  have ready : (plainSettings 16364).Ready 16364 ((plainSettings 16364).start
      (plainMemory (List.replicate 16364 1)) fresh40 plainContext) (List.replicate 16364 1) := by
    refine ⟨?_, ?_, ?_⟩
    · rw [length]
      exact stands
    · rw [length]
      exact given.payloadSize_eq
    · rw [length]
      rfl
  have front : (List.replicate 16364 (1 : Byte)).take 16363 = List.replicate 16363 1 := by
    rw [List.take_replicate, Nat.min_eq_left (by omega)]
  have back : (List.replicate 16364 (1 : Byte)).drop 16363 = [1] := by
    rw [List.drop_replicate]
    rfl
  obtain ⟨first, round, reached, unused, before⟩ :=
    Settings.sendFragment_stands short ready rfl
  have ready' := (Settings.sendFragment_inv given ready round).2.2
  change (plainSettings 16364).Ready 16364 first ((List.replicate 16364 1).drop 16363) at ready'
  rw [back] at ready'
  obtain ⟨second, round', _, _, after⟩ := Settings.sendFragment_stands short ready' unused
  rw [front, List.length_replicate] at reached before
  have same := keeps first second (.next .start (.inl rfl) round) round' (1024 + 16362)
    (by show 1024 ≤ _; omega) (by show _ < 1024 + first.startAt; omega)
  have old : first.memory.cell (1024 + 16362) = 1 := by
    have cell := Buffer.cell_of_slice before (show 16363 < 1 + 16363 by omega)
    rw [List.getElem?_cons_succ, List.getElem?_replicate, if_pos (by omega)] at cell
    exact (Option.some.inj cell).symm
  have new : second.memory.cell (1024 + 16362) = 0 := by
    rw [reached] at after
    have cell := Buffer.cell_of_slice after (show 0 < 1 + _ by omega)
    exact (Option.some.inj cell).symm
  rw [old, new] at same
  exact absurd same (by decide)

end Redemption.FastPath
