import Redemption.FastPath.FastPathUpdate
import Redemption.Tpdu.Framing

/-! Updates sent one after the other: what a client gets of a session, and how its PDUs are found
in the stream of bytes. -/
namespace Redemption.FastPath

open Redemption.Foundation

/-- A payload in the reserved stream that `send_fast_path_data` is called with. -/
structure Outgoing where
  settings : Settings
  size : Nat
  memory : Buffer Byte size
  payload : List Byte
  given : settings.Given size payload.length
  stands : memory.slice settings.dataCommon.headPtr payload.length = payload

variable {enc : RdpMppcEnc} {ssl : Ssl}

/-- What is sent for payloads, one after the other. The compressor and the keys go on from call to
call; each loop has as many rounds as it can take. -/
def sendAll : enc.State → CryptContext ssl → List Outgoing →
    Option (Checked ErrorId (List (List Byte)))
  | _, _, [] => some (.ok [])
  | mppcEnc, crypt, outgoing :: rest =>
    match outgoing.settings.sendFastPathData (outgoing.payload.length + 1) outgoing.memory mppcEnc
        crypt with
    | none => none
    | some (.error fault) => some (.error fault)
    | some (.ok final) =>
      (sendAll final.mppcEnc final.crypt rest).map fun others => others.map (final.transport ++ ·)

/-- The updates that a client reads for a payload. -/
structure Carries (outgoing : Outgoing) (updates : List Update) : Prop where
  payload : (updates.map Update.payload).flatten = outgoing.payload
  fragmentation : updates.map Update.fragmentation =
    (fragmentations updates.length).map Fragmentation.code
  code : ∀ update ∈ updates, update.updateCode = outgoing.settings.updateCode.code

section Call

variable {size : Nat} {settings : Settings} {memory : Buffer Byte size} {payload : List Byte}

/-- One call: what is sent, and what the compressor and the keys have become. -/
theorem Settings.sendFastPathData_run (given : settings.Given size payload.length)
    (stands : memory.slice settings.dataCommon.headPtr payload.length = payload)
    (mppcEnc : enc.State) (crypt : CryptContext ssl) {chunks : List (List Byte)}
    (chunked : Chunked (settings.fragmentMax enc) payload chunks) :
    match settings.compressAll mppcEnc chunks with
    | .error fault => settings.sendFastPathData (payload.length + 1) memory mppcEnc crypt =
        some (.error fault)
    | .ok (last, pieces) => ∃ final,
        settings.sendFastPathData (payload.length + 1) memory mppcEnc crypt = some (.ok final) ∧
        (final.mppcEnc = last ∧ final.crypt = (emitAll settings.encryptionLevel crypt
          (partsOf settings.updateCode false true pieces)).1) ∧
        final.transport = (emitAll settings.encryptionLevel crypt
          (partsOf settings.updateCode false true pieces)).2 :=
  sendFragments_run given chunked (ready_start given stands mppcEnc crypt)
    (chunked.count_le (settings.fragmentMax_pos enc).1)

theorem emitAll_encryptionMethod (encryptionLevel : Int) (crypt : CryptContext ssl)
    (updates : List UpdateParts) :
    (emitAll encryptionLevel crypt updates).1.encryptionMethod = crypt.encryptionMethod := by
  induction updates generalizing crypt with
  | nil => rfl
  | cons parts rest ih => rw [emitAll, ih, serverUpdatePDU_encryptionMethod]

end Call

section Delivered

variable {behind : Mppc.Encoder61 → Nat → Byte} {settings : Settings}
  {mppcEnc : (rdpMppc61Enc behind).State} {state : Mppc.Decoder61}

/-- The compressor of RDP 6.1 takes every chunk that is not too long. -/
theorem chunkData61_ok (lockstep : Mppc.Lockstep61 mppcEnc state)
    (support : settings.compressionSupport = true) {chunk : List Byte}
    (short : chunk.length ≤ Mppc.maxDataBlockSize61) :
    ∃ result, settings.chunkData mppcEnc chunk = .ok result := by
  obtain ⟨next, wire, compressed, result, _⟩ :=
    Mppc.compress61_run lockstep (behind mppcEnc) short
  have taken : settings.compress mppcEnc chunk = .ok (next, reported61 next) := by
    simp only [Settings.compress, support, if_true]
    change liftMppc (Mppc.compress61 (behind mppcEnc) mppcEnc chunk >>= _) = _
    rw [compressed]
    rfl
  rw [Settings.chunkData, taken, ok_bind]
  dsimp only
  cases flagged : (reported61 next).has Mppc.packetCompressed with
  | false => exact ⟨_, if_neg Bool.false_ne_true⟩
  | true =>
    have some' := (has_reported61 next).mp flagged
    rw [Mppc.Encoder61.result, if_pos some', bind_ok_iff] at result
    obtain ⟨bytes, loaded, _⟩ := result
    have written : (rdpMppc61Enc behind).compressedData next =
        .ok (next.level1ComprFlags :: next.level2ComprFlags :: bytes) := by
      change (next.output >>= _) = _
      rw [loaded]
      rfl
    rw [if_pos rfl, written, liftMppc_ok, ok_bind]
    exact ⟨_, rfl⟩

theorem compressAll61_ok (lockstep : Mppc.Lockstep61 mppcEnc state)
    (support : settings.compressionSupport = true) {chunks : List (List Byte)}
    (short : ∀ chunk ∈ chunks, chunk.length ≤ Mppc.maxDataBlockSize61) :
    ∃ last pieces, settings.compressAll mppcEnc chunks = .ok (last, pieces) := by
  induction chunks generalizing mppcEnc state with
  | nil => exact ⟨mppcEnc, [], rfl⟩
  | cons chunk rest ih =>
    obtain ⟨⟨next, flags, data⟩, taken⟩ :=
      chunkData61_ok lockstep support (short chunk List.mem_cons_self)
    obtain ⟨plain, decompressed⟩ := (inStep61 settings support behind).agrees lockstep taken
    obtain ⟨state', lockstep'⟩ : ∃ state', Mppc.Lockstep61 next state' := by
      cases flagged : flags.has Mppc.packetCompressed with
      | false => exact ⟨state, plain flagged⟩
      | true =>
        obtain ⟨state', _, lockstep'⟩ := decompressed flagged
        exact ⟨state', lockstep'⟩
    obtain ⟨last, pieces, others⟩ :=
      ih lockstep' fun other member => short other (List.mem_cons_of_mem _ member)
    refine ⟨last, (flags, data) :: pieces, ?_⟩
    rw [Settings.compressAll, taken, ok_bind]
    simp only [others, ok_bind, pure_ok]

/-- With RDP 6.1, from any states in lockstep, no call of a session fails, and a client with the
keys reads back each payload, in order and marked as one update. -/
theorem session61_delivered (lockstep : Mppc.Lockstep61 mppcEnc state) {session : List Outgoing}
    (compressed : ∀ outgoing ∈ session, outgoing.settings.compressionSupport = true)
    (crypt : CryptContext ssl) (supported : crypt.encryptionMethod ≠ ENCRYPTION_METHOD_FIPS) :
    ∃ pdus groups, sendAll mppcEnc crypt session = some (.ok pdus) ∧
      receiveAll rdpMppc61Dec crypt state pdus = .ok groups.flatten ∧
      List.Forall₂ Carries session groups := by
  induction session generalizing mppcEnc state crypt with
  | nil => exact ⟨[], [], rfl, rfl, .nil⟩
  | cons outgoing rest ih =>
    have support := compressed outgoing List.mem_cons_self
    have positive := outgoing.settings.fragmentMax_pos (rdpMppc61Enc behind)
    have block : outgoing.settings.fragmentMax (rdpMppc61Enc behind) ≤ Mppc.maxDataBlockSize61 := by
      rw [Settings.fragmentMax, if_pos support]
      exact (Nat.min_le_right _ _).trans (Nat.sub_le _ _)
    obtain ⟨chunks, chunked⟩ := Chunked.exists_chunks positive.1 outgoing.payload
    have small := chunked.length_le
    obtain ⟨last, pieces, ran⟩ := compressAll61_ok lockstep support
      fun chunk member => (small chunk member).trans block
    have called := outgoing.settings.sendFastPathData_run outgoing.given outgoing.stands mppcEnc
      crypt chunked
    simp only [ran] at called
    obtain ⟨final, sent, ⟨rfl, keys⟩, transport⟩ := called
    have method : final.crypt.encryptionMethod ≠ ENCRYPTION_METHOD_FIPS := by
      rw [keys, emitAll_encryptionMethod]
      exact supported
    obtain ⟨updates, state', lockstep', received, payloads, fragments, codes⟩ :=
      Settings.receiveAll_append (inStep61 outgoing.settings support behind) lockstep supported
        (fun chunk member => (small chunk member).trans positive.2) ran false true
    obtain ⟨pdus, groups, later, others, carried⟩ := ih lockstep'
      (fun other member => compressed other (List.mem_cons_of_mem _ member)) final.crypt method
    have length := congrArg List.length fragments
    rw [List.length_map, List.length_map] at length
    refine ⟨final.transport ++ pdus, updates :: groups, ?_, ?_, .cons ⟨?_, ?_, codes⟩ carried⟩
    · rw [sendAll, sent]
      simp only [later]
      rfl
    · rw [transport, received pdus, ← keys, others]
      rfl
    · rw [payloads, chunked.flatten_eq]
    · rw [fragments, length, length_partsOf, ← fragmentation_partsOf outgoing.settings.updateCode,
        List.map_map]
      rfl

end Delivered

/-- A payload in a stream of the largest size. -/
def outgoing (payload : List Byte) (short : payload.length ≤ 64512) (compressionSupport : Bool)
    (encryptionLevel : Int) : Outgoing where
  settings := { plainSettings payload.length with compressionSupport, encryptionLevel }
  size := 65536
  memory := plainMemory payload
  payload := payload
  given := by
    obtain ⟨reserved, room, begins, ends, inside, short⟩ := given_plain short
    exact ⟨reserved, room, begins, ends, inside, short⟩
  stands := stands_plain payload

/-- The second part is in a fragment of its own. -/
def twoFragments : List Byte := List.replicate 16363 1 ++ [2, 3]

theorem length_twoFragments : twoFragments.length ≤ 64512 := by
  rw [twoFragments, List.length_append, List.length_replicate]
  decide

/-- Two encrypted payloads, of which the first is worth compressing and has several fragments. -/
def encryptedSession : List Outgoing :=
  [outgoing twoFragments length_twoFragments true 2, outgoing [1, 2, 3] (by decide) true 2]

theorem session61_delivered_encrypted : ∃ pdus groups,
    @sendAll (rdpMppc61Enc fun _ _ => 0) invertingSsl .fresh invertingContext encryptedSession =
        some (.ok pdus) ∧
      receiveAll rdpMppc61Dec invertingContext .fresh pdus = .ok groups.flatten ∧
      List.Forall₂ Carries encryptedSession groups := by
  refine session61_delivered Mppc.lockstep61_fresh ?_ invertingContext (by decide)
  intro outgoing member
  rcases List.mem_pair.mp member with rfl | rfl
  · rfl
  · rfl

section Framed

/-- The length that a PDU says it has is the one that is read in the stream. -/
theorem wellFormed_of_field {pdu rest : List Byte} {header : Byte} (long : 4 ≤ pdu.length)
    (begins : pdu = header :: rest) (action : header &&& 0x03 = 0)
    (field : lengthField pdu = some pdu.length) : Tpdu.WellFormed pdu Tpdu.fastpath := by
  subst begins
  refine .fastPath long action ?_
  rcases rest with _ | ⟨second, _ | ⟨third, rest⟩⟩
  · simp at long
  · simp at long
  · show (Tpdu.X224Extractor.fastPathLength second third).1 = _
    rw [Tpdu.X224Extractor.fastPathLength]
    by_cases two : second &&& 0x80 ≠ 0
    · have known : lengthField (header :: second :: third :: rest) =
          some (((second &&& 0x7F).toNat <<< 8) + third.toNat) := by
        simp only [lengthField, List.drop_succ_cons, List.drop_zero, in2BUE, inUint8, ok_bind,
          if_pos two, pure_ok]
      rw [if_pos two, ← Option.some.inj (known.symm.trans field), Nat.shiftLeft_eq]
    · have known : lengthField (header :: second :: third :: rest) = some second.toNat := by
        simp only [lengthField, List.drop_succ_cons, List.drop_zero, in2BUE, inUint8, ok_bind,
          if_neg two, pure_ok]
      rw [if_neg two, ← Option.some.inj (known.symm.trans field)]

theorem serverUpdatePDU_wellFormed (crypt : CryptContext ssl) (encryptionLevel : Int)
    (parts : UpdateParts) (room : parts.bytes.length + 11 < 2 ^ 15) :
    Tpdu.WellFormed (serverUpdatePDU crypt encryptionLevel parts.bytes).2 Tpdu.fastpath := by
  obtain ⟨length, field⟩ := serverUpdatePDU_length crypt encryptionLevel room
  have least : 3 ≤ parts.bytes.length := by
    simp only [UpdateParts.bytes, updateSend, List.length_append, List.length_singleton,
      length_leBytes]
    omega
  have exactly := pduLength_eq (secFlagsOf encryptionLevel) room
  have long : 4 ≤ (serverUpdatePDU crypt encryptionLevel parts.bytes).2.length := by
    rw [length, exactly]
    split <;> omega
  obtain ⟨rest, begins⟩ : ∃ rest, (serverUpdatePDU crypt encryptionLevel parts.bytes).2 =
      (FASTPATH_OUTPUT_ACTION_FASTPATH ||| ((secFlagsOf encryptionLevel &&& 0x03) <<< 6)) ::
        rest := by
    by_cases encrypted : secFlagsOf encryptionLevel &&& FASTPATH_OUTPUT_ENCRYPTED ≠ 0
    · simp only [serverUpdatePDU, serverUpdatePDUSend, if_pos encrypted]
      exact ⟨_, rfl⟩
    · simp only [serverUpdatePDU, serverUpdatePDUSend, if_neg encrypted]
      exact ⟨_, rfl⟩
  refine wellFormed_of_field long begins ?_ (by rw [field, length])
  unfold secFlagsOf
  split <;> decide

/-- All that a session sends are fast-path packets of the length that they say. -/
theorem sendAll_wellFormed {session : List Outgoing} {mppcEnc : enc.State}
    {crypt : CryptContext ssl} {pdus : List (List Byte)}
    (sent : sendAll mppcEnc crypt session = some (.ok pdus)) :
    ∀ pdu ∈ pdus, Tpdu.WellFormed pdu Tpdu.fastpath := by
  induction session generalizing mppcEnc crypt pdus with
  | nil =>
    cases sent
    intro pdu member
    cases member
  | cons outgoing rest ih =>
    obtain ⟨positive, limit⟩ := outgoing.settings.fragmentMax_pos enc
    obtain ⟨chunks, chunked⟩ := Chunked.exists_chunks positive outgoing.payload
    have called := outgoing.settings.sendFastPathData_run outgoing.given outgoing.stands mppcEnc
      crypt chunked
    cases ran : outgoing.settings.compressAll mppcEnc chunks with
    | error fault =>
      simp only [ran] at called
      rw [sendAll, called] at sent
      cases sent
    | ok result =>
      obtain ⟨last, pieces⟩ := result
      simp only [ran] at called
      obtain ⟨final, done, _, transport⟩ := called
      rw [sendAll, done] at sent
      cases later : sendAll final.mppcEnc final.crypt rest with
      | none =>
        simp only [later] at sent
        cases sent
      | some others =>
        cases others with
        | error fault =>
          simp only [later] at sent
          cases sent
        | ok others =>
          simp only [later] at sent
          cases sent
          intro pdu member
          rcases List.mem_append.mp member with here | behind
          · rw [transport] at here
            obtain ⟨crypt', parts, present, rfl⟩ := Settings.mem_emitAll here
            obtain ⟨piece, among, data⟩ := Settings.mem_partsOf present
            have size := (Settings.compressAll_run chunked.length_le ran).1 piece among
            have header := parts.length_bytes_le
            rw [data] at header
            exact serverUpdatePDU_wellFormed crypt' _ parts (by omega)
          · exact ih later pdu behind

theorem exists_packets {pdus : List (List Byte)}
    (wellFormed : ∀ pdu ∈ pdus, Tpdu.WellFormed pdu Tpdu.fastpath) :
    ∃ packets : List Tpdu.Pdu, packets.map Tpdu.Pdu.bytes = pdus ∧
      ∀ packet ∈ packets, packet.type = Tpdu.fastpath := by
  induction pdus with
  | nil => exact ⟨[], rfl, fun _ member => absurd member List.not_mem_nil⟩
  | cons pdu rest ih =>
    obtain ⟨packets, same, types⟩ := ih fun other member =>
      wellFormed other (List.mem_cons_of_mem _ member)
    refine ⟨⟨pdu, _, wellFormed pdu List.mem_cons_self⟩ :: packets, ?_, ?_⟩
    · rw [List.map_cons, same]
    · intro packet member
      rcases List.mem_cons.mp member with rfl | behind
      · rfl
      · exact types packet behind

/-- However the bytes of a session arrive, a `TpduBuffer` gives out its PDUs as they were sent, each
once it is there. -/
theorem session_framed {session : List Outgoing} {mppcEnc : enc.State}
    {crypt : CryptContext ssl} {pdus : List (List Byte)}
    (sent : sendAll mppcEnc crypt session = some (.ok pdus)) (memory : Nat → Byte)
    (extractors : Tpdu.X224Extractor) (sizes : List Nat) :
    ∃ whole rest last left, pdus = whole ++ rest ∧
      Tpdu.TpduBuffer.Receives (.fresh memory extractors) pdus.flatten sizes
        (whole.map fun pdu => (pdu, Tpdu.fastpath)) last left ∧
      (∀ pdu ∈ rest.head?, last.pending.length < pdu.length) ∧ (left = [] → rest = []) := by
  obtain ⟨packets, same, types⟩ := exists_packets (sendAll_wellFormed sent)
  have spelled : Tpdu.stream packets = pdus.flatten := by
    rw [Tpdu.stream, List.flatMap_def, same]
  obtain ⟨whole, rest, last, left, parts, receives, _, more, missing⟩ :=
    @Tpdu.TpduBuffer.receives_run packets (Tpdu.stream packets) (.fresh memory extractors) sizes
      (Tpdu.TpduBuffer.expects_of_header rfl packets) rfl rfl
      fun pdu _ => Nat.lt_of_lt_of_le (Nat.succ_pos 3) pdu.wellFormed.four_le
  refine ⟨whole.map Tpdu.Pdu.bytes, rest.map Tpdu.Pdu.bytes, last, left, ?_, ?_, ?_, ?_⟩
  · rw [← List.map_append, ← parts, same]
  · have seen : whole.map Tpdu.Pdu.seen =
        (whole.map Tpdu.Pdu.bytes).map fun pdu => (pdu, Tpdu.fastpath) := by
      rw [List.map_map]
      refine List.map_congr_left fun packet member => ?_
      rw [Tpdu.Pdu.seen, types packet (parts ▸ List.mem_append_left _ member)]
      rfl
    rwa [← spelled, ← seen]
  · intro pdu first
    rw [List.head?_map] at first
    obtain ⟨packet, found, rfl⟩ := Option.map_eq_some_iff.mp first
    exact missing packet found
  · rintro rfl
    cases rest with
    | nil => rfl
    | cons packet rest =>
      have short := missing packet rfl
      rw [List.append_nil] at more
      rw [more, Tpdu.stream, List.flatMap_cons, List.length_append] at short
      omega

end Framed

/-- Three PDUs of two payloads. -/
def plainSession : List Outgoing :=
  [outgoing twoFragments length_twoFragments false 0, outgoing [1, 2, 3] (by decide) false 0]

theorem session_framed_fragments : ∃ pdus,
    sendAll fresh40 plainContext plainSession = some (.ok pdus) ∧
      ∃ whole rest last left, pdus = whole ++ rest ∧
        Tpdu.TpduBuffer.Receives (.fresh (fun _ => 0) ⟨false, 0⟩) pdus.flatten [1, 0, 20000, 65535]
          (whole.map fun pdu => (pdu, Tpdu.fastpath)) last left ∧
        (∀ pdu ∈ rest.head?, last.pending.length < pdu.length) ∧ (left = [] → rest = []) := by
  have chunked : Chunked 16363 twoFragments [List.replicate 16363 1, [2, 3]] :=
    .more List.length_replicate (List.cons_ne_nil _ _) (.last (by decide))
  have large := (outgoing twoFragments length_twoFragments false 0).settings.sendFastPathData_run
    (outgoing twoFragments length_twoFragments false 0).given
    (outgoing twoFragments length_twoFragments false 0).stands fresh40 plainContext chunked
  obtain ⟨first, done, _⟩ := large
  have small := (outgoing [1, 2, 3] (by decide) false 0).settings.sendFastPathData_run
    (outgoing [1, 2, 3] (by decide) false 0).given (outgoing [1, 2, 3] (by decide) false 0).stands
    first.mppcEnc first.crypt (.last (by decide))
  obtain ⟨second, done', _⟩ := small
  have sent : sendAll fresh40 plainContext plainSession =
      some (.ok (first.transport ++ (second.transport ++ []))) := by
    rw [plainSession, sendAll, done]
    simp only [sendAll, done']
    rfl
  exact ⟨_, sent, session_framed sent _ _ _⟩

end Redemption.FastPath
