import Redemption.FastPath.Fragments

/-! A payload of any length arrives: what the fragments are, and what a client makes of them. -/
namespace Redemption.FastPath

open Redemption.Foundation

variable {enc : RdpMppcEnc} {ssl : Ssl} {size : Nat}

/-- A client that reads one PDU after the other. -/
def receiveAll (dec : RdpMppcDec) :
    CryptContext ssl → dec.State → List (List Byte) → Checked ErrorId (List Update)
  | _, _, [] => .ok []
  | decrypt, state, pdu :: rest => do
    let (decrypt, state, update) ← receive dec decrypt state pdu
    let updates ← receiveAll dec decrypt state rest
    return update :: updates

/-- A decompressor that keeps up with what is done to chunks: it gives back what was reported
compressed, and does not see the rest. -/
structure InStep (settings : Settings) (enc : RdpMppcEnc) (dec : RdpMppcDec) where
  related : enc.State → dec.State → Prop
  agrees : ∀ {mppcEnc next : enc.State} {state : dec.State} {chunk data : List Byte}
    {flags : Mppc.Flags}, related mppcEnc state →
      settings.chunkData mppcEnc chunk = .ok (next, flags, data) →
      (flags.has Mppc.packetCompressed = false → related next state) ∧
        (flags.has Mppc.packetCompressed = true → ∃ state',
          dec.decompress state data flags = .ok (state', chunk) ∧ related next state')

namespace Settings

variable {settings : Settings}

theorem chunkData_plain {mppcEnc next : enc.State} {chunk data : List Byte}
    {flags : Mppc.Flags} (run : settings.chunkData mppcEnc chunk = .ok (next, flags, data))
    (plain : flags.has Mppc.packetCompressed = false) : data = chunk := by
  rw [chunkData, bind_ok_iff] at run
  obtain ⟨⟨mppcEnc', flags'⟩, _, run⟩ := run
  cases flagged : flags'.has Mppc.packetCompressed with
  | false =>
    simp only [flagged, Bool.false_eq_true, if_false, pure_ok, Except.ok.injEq,
      Prod.mk.injEq] at run
    exact run.2.2.symm
  | true =>
    simp only [flagged, if_true] at run
    rw [bind_ok_iff] at run
    obtain ⟨_, _, run⟩ := run
    cases run
    rw [flagged] at plain
    cases plain

variable {pieces : List (Mppc.Flags × List Byte)}

/-- What is sent for chunks of a size: at most one byte more, and the chunks themselves where
nothing was compressed. -/
theorem compressAll_run {limit : Nat} {mppcEnc last : enc.State} {chunks : List (List Byte)}
    (small : ∀ chunk ∈ chunks, chunk.length ≤ limit)
    (run : settings.compressAll mppcEnc chunks = .ok (last, pieces)) :
    (∀ piece ∈ pieces, piece.2.length ≤ limit + 1) ∧
      List.Forall₂ (fun chunk piece =>
        piece.1.has Mppc.packetCompressed = false → piece.2 = chunk) chunks pieces := by
  induction chunks generalizing mppcEnc last pieces with
  | nil =>
    cases run
    exact ⟨fun _ member => absurd member List.not_mem_nil, .nil⟩
  | cons chunk rest ih =>
    rw [compressAll, bind_ok_iff] at run
    obtain ⟨⟨next, flags, data⟩, first, run⟩ := run
    rw [bind_ok_iff] at run
    obtain ⟨⟨last', pieces'⟩, later, run⟩ := run
    cases run
    have bounded := settings.length_chunkData_le first
    have head := small chunk List.mem_cons_self
    obtain ⟨sizes, plain⟩ := ih (fun other member => small other (List.mem_cons_of_mem _ member))
      later
    refine ⟨?_, .cons (fun silent => chunkData_plain first silent) plain⟩
    intro piece member
    rcases List.mem_cons.mp member with same | behind
    · rw [same]
      exact bounded.trans (Nat.succ_le_succ head)
    · exact sizes piece behind

theorem mem_partsOf {updateCode : UpdateType} {used isFirst : Bool}
    {parts : UpdateParts}
    (member : parts ∈ partsOf updateCode used isFirst pieces) :
    ∃ piece ∈ pieces, parts.data = piece.2 := by
  induction pieces generalizing used isFirst with
  | nil => cases member
  | cons piece rest ih =>
    rcases List.mem_cons.mp member with same | later
    · exact ⟨piece, List.mem_cons_self, by rw [same]⟩
    · obtain ⟨other, present, same⟩ := ih later
      exact ⟨other, List.mem_cons_of_mem _ present, same⟩

variable {crypt : CryptContext ssl}

theorem mem_emitAll {encryptionLevel : Int}
    {updates : List UpdateParts} {pdu : List Byte}
    (member : pdu ∈ (emitAll encryptionLevel crypt updates).2) :
    ∃ crypt', ∃ parts ∈ updates,
      pdu = (serverUpdatePDU crypt' encryptionLevel parts.bytes : CryptContext ssl × _).2 := by
  induction updates generalizing crypt with
  | nil => cases member
  | cons parts rest ih =>
    rcases List.mem_cons.mp member with same | later
    · exact ⟨crypt, parts, List.mem_cons_self, same⟩
    · obtain ⟨crypt', other, present, same⟩ := ih later
      exact ⟨crypt', other, List.mem_cons_of_mem _ present, same⟩

section Receiving

variable {dec : RdpMppcDec} (inStep : InStep settings enc dec)
  {mppcEnc last : enc.State} {state : dec.State} (related : inStep.related mppcEnc state)
  (supported : crypt.encryptionMethod ≠ ENCRYPTION_METHOD_FIPS)
  {chunks : List (List Byte)}
  (small : ∀ chunk ∈ chunks, chunk.length ≤ 0x3fff - 20)
  (run : settings.compressAll mppcEnc chunks = .ok (last, pieces)) (used isFirst : Bool)

include inStep related supported small run

/-- A client in step reads the chunks, in order, with the flags that they were sent with, and is in
step for what is behind them. -/
theorem receiveAll_append :
    ∃ updates state', inStep.related last state' ∧
      (∀ behind, receiveAll dec crypt state ((emitAll settings.encryptionLevel crypt
          (partsOf settings.updateCode used isFirst pieces)).2 ++ behind) =
        receiveAll dec (emitAll settings.encryptionLevel crypt
          (partsOf settings.updateCode used isFirst pieces)).1 state' behind >>= fun others =>
            pure (updates ++ others)) ∧
      updates.map Update.payload = chunks ∧
      updates.map Update.fragmentation =
        (partsOf settings.updateCode used isFirst pieces).map (·.fragmentation.code) ∧
      ∀ update ∈ updates, update.updateCode = settings.updateCode.code := by
  induction chunks generalizing mppcEnc state crypt pieces last used isFirst with
  | nil =>
    cases run
    exact ⟨[], state, related, fun _ => (bind_pure _).symm, rfl, rfl,
      fun _ member => absurd member List.not_mem_nil⟩
  | cons chunk rest ih =>
    rw [compressAll, bind_ok_iff] at run
    obtain ⟨⟨next, flags, data⟩, first, run⟩ := run
    rw [bind_ok_iff] at run
    obtain ⟨⟨last', pieces'⟩, later, run⟩ := run
    cases run
    have bounded := settings.length_chunkData_le first
    have head := small chunk List.mem_cons_self
    obtain ⟨plain, decompressed⟩ := inStep.agrees related first
    let used' := used || flags.has Mppc.packetCompressed
    let fragmentation : Fragmentation :=
      if pieces' = [] then (if isFirst then .single else .last)
      else (if isFirst then .first else .next)
    let parts : UpdateParts := ⟨settings.updateCode, fragmentation, used', flags, data⟩
    have compressed : parts.compressed = flags.has Mppc.packetCompressed := by
      show ((used || flags.has Mppc.packetCompressed) && flags.has Mppc.packetCompressed) = _
      cases flags.has Mppc.packetCompressed <;> simp
    obtain ⟨state', received, related'⟩ : ∃ state',
        receive dec crypt state (serverUpdatePDU crypt settings.encryptionLevel parts.bytes).2 =
          .ok ((serverUpdatePDU crypt settings.encryptionLevel parts.bytes).1, state',
            ⟨settings.updateCode.code, fragmentation.code, chunk⟩) ∧
        inStep.related next state' := by
      have room : parts.data.length + 15 < 2 ^ 15 := by
        show data.length + 15 < 2 ^ 15
        omega
      cases flagged : flags.has Mppc.packetCompressed with
      | false =>
        refine ⟨state, receive_run crypt settings.encryptionLevel dec state parts room supported
          (fun _ => ⟨rfl, (chunkData_plain first flagged).symm⟩) (fun claimed => ?_),
          plain flagged⟩
        rw [compressed, flagged] at claimed
        cases claimed
      | true =>
        obtain ⟨state', opened, related'⟩ := decompressed flagged
        refine ⟨state', receive_run crypt settings.encryptionLevel dec state parts room supported
          (fun claimed => ?_) (fun _ => opened), related'⟩
        rw [compressed, flagged] at claimed
        cases claimed
    have supported' : (serverUpdatePDU crypt settings.encryptionLevel
        parts.bytes).1.encryptionMethod ≠ ENCRYPTION_METHOD_FIPS := by
      rw [serverUpdatePDU_encryptionMethod]
      exact supported
    obtain ⟨updates, last', inStep', others, payloads, fragments, codes⟩ := ih related' supported'
      (fun other member => small other (List.mem_cons_of_mem _ member)) later used' false
    refine ⟨⟨settings.updateCode.code, fragmentation.code, chunk⟩ :: updates, last', inStep',
      ?_, ?_, ?_, ?_⟩
    · intro behind
      simp only [partsOf, emitAll, List.cons_append, receiveAll]
      rw [received, ok_bind]
      rw [others behind, bind_assoc]
      rfl
    · rw [List.map_cons, payloads]
    · rw [List.map_cons, fragments]
      rfl
    · intro update member
      rcases List.mem_cons.mp member with same | behind
      · rw [same]
      · exact codes update behind

/-- A client in step reads the chunks. -/
theorem receiveAll_run :
    ∃ updates, receiveAll dec crypt state (emitAll settings.encryptionLevel crypt
          (partsOf settings.updateCode used isFirst pieces)).2 = .ok updates ∧
      updates.map Update.payload = chunks ∧
      updates.map Update.fragmentation =
        (partsOf settings.updateCode used isFirst pieces).map (·.fragmentation.code) ∧
      ∀ update ∈ updates, update.updateCode = settings.updateCode.code := by
  obtain ⟨updates, _, _, received, carried⟩ :=
    receiveAll_append inStep related supported small run used isFirst
  have alone := received []
  rw [List.append_nil, receiveAll, ok_bind, List.append_nil, pure_ok] at alone
  exact ⟨updates, alone, carried⟩

end Receiving

/-- The rounds of the loop, from before the first. -/
inductive Reached (settings : Settings) (start : Sending enc ssl size) :
    Sending enc ssl size → Prop where
  | start : Reached settings start start
  | next {loop after : Sending enc ssl size} (before : Reached settings start loop)
      (goes : loop.fragmentId = 0 ∨ loop.remaining ≠ 0)
      (round : settings.sendFragment loop = .ok after) : Reached settings start after

theorem ready_start {memory : Buffer Byte size} {payload : List Byte}
    (given : settings.Given size payload.length)
    (stands : memory.slice settings.dataCommon.headPtr payload.length = payload)
    (mppcEnc : enc.State) (crypt : CryptContext ssl) :
    settings.Ready payload.length (settings.start memory mppcEnc crypt) payload :=
  ⟨stands, given.payloadSize_eq, Nat.zero_add _⟩

theorem Reached.ready {memory : Buffer Byte size} {payload : List Byte}
    (given : settings.Given size payload.length)
    (stands : memory.slice settings.dataCommon.headPtr payload.length = payload)
    {mppcEnc : enc.State} {loop : Sending enc ssl size}
    (reached : Reached settings (settings.start memory mppcEnc crypt) loop) :
    settings.Ready payload.length loop (payload.drop loop.startAt) := by
  have general : ∃ count, settings.Ready payload.length loop (payload.drop count) := by
    induction reached with
    | start => exact ⟨0, ready_start given stands mppcEnc crypt⟩
    | next before goes round ih =>
      obtain ⟨count, ready⟩ := ih
      have after := (sendFragment_inv given ready round).2.2
      rw [List.drop_drop] at after
      exact ⟨_, after⟩
  obtain ⟨count, ready⟩ := general
  have same : payload.drop loop.startAt = payload.drop count := by
    have total := ready.total
    rw [List.length_drop] at total
    by_cases inside : count ≤ payload.length
    · congr 1
      omega
    · rw [List.drop_eq_nil_of_le (by omega : payload.length ≤ count),
        List.drop_eq_nil_of_le (by omega : payload.length ≤ loop.startAt)]
  rw [same]
  exact ready

end Settings

end Redemption.FastPath
