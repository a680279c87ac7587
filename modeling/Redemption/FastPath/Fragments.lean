import Redemption.FastPath.SendFastPath
import Redemption.Foundation.Chunks

/-! What the loop of `send_fast_path_data` does: the chunks of the payload go through the
compressor, and each is sent with its headers. -/
namespace Redemption.FastPath

open Redemption.Foundation

/-- The flags of so many fragments. -/
def fragmentations : Nat → List Fragmentation
  | 0 => []
  | 1 => [.single]
  | count + 2 => .first :: List.replicate count .next ++ [.last]

/-- The updates that pieces are sent in: the flags of a compressor, and data. `used` and
`isFirst` are about what was sent before. -/
def partsOf (updateCode : UpdateType) :
    (used isFirst : Bool) → List (Mppc.Flags × List Byte) → List UpdateParts
  | _, _, [] => []
  | used, isFirst, (flags, data) :: rest =>
    let used := used || flags.has Mppc.packetCompressed
    let fragmentation : Fragmentation :=
      if rest = [] then (if isFirst then .single else .last)
      else (if isFirst then .first else .next)
    ⟨updateCode, fragmentation, used, flags, data⟩ :: partsOf updateCode used false rest

/-- The PDUs of some updates, one after the other. -/
def emitAll {ssl : Ssl} (encryptionLevel : Int) :
    CryptContext ssl → List UpdateParts → CryptContext ssl × List (List Byte)
  | crypt, [] => (crypt, [])
  | crypt, parts :: rest =>
    let (crypt, pdu) := serverUpdatePDU crypt encryptionLevel parts.bytes
    let (crypt, pdus) := emitAll encryptionLevel crypt rest
    (crypt, pdu :: pdus)

theorem fragmentation_partsOf_next (updateCode : UpdateType) (used : Bool)
    (piece : Mppc.Flags × List Byte) (rest : List (Mppc.Flags × List Byte)) :
    (partsOf updateCode used false (piece :: rest)).map UpdateParts.fragmentation =
      List.replicate rest.length .next ++ [.last] := by
  induction rest generalizing used piece with
  | nil => rfl
  | cons other rest ih =>
    rw [partsOf, List.map_cons, ih, List.length_cons, List.replicate_succ]
    rfl

/-- One fragment is single; of several, the first is first, and the last is last. -/
theorem fragmentation_partsOf (updateCode : UpdateType)
    (pieces : List (Mppc.Flags × List Byte)) :
    (partsOf updateCode false true pieces).map UpdateParts.fragmentation =
      fragmentations pieces.length := by
  match pieces with
  | [] => rfl
  | [_] => rfl
  | first :: second :: rest =>
    rw [partsOf, List.map_cons, fragmentation_partsOf_next]
    rfl

section Model

variable {enc : RdpMppcEnc} {ssl : Ssl} {size : Nat}

/-- The headers take at most 15 bytes before the data, and nothing else is touched. -/
theorem sendUpdate_run {memory : Buffer Byte size} {fragmentPayload : OutReservedStreamHelper}
    (parts : UpdateParts) (holds : fragmentPayload.Holds memory parts.data)
    (room : 15 ≤ fragmentPayload.reservedLeadingSpace) (small : parts.data.length < 2 ^ 16)
    (crypt : CryptContext ssl) (encryptionLevel : Int) :
    ∃ memory', sendUpdate memory fragmentPayload crypt encryptionLevel parts.updateCode.code
          parts.fragmentation.code (compressionOf parts.used) parts.compressionFlags =
        .ok (memory', serverUpdatePDU crypt encryptionLevel parts.bytes) ∧
      memory.AgreesOutside memory' (fragmentPayload.headPtr - 15)
        (fragmentPayload.headPtr + parts.data.length) ∧
      ∃ position, position + (serverUpdatePDU crypt encryptionLevel parts.bytes).2.length =
          fragmentPayload.headPtr + parts.data.length ∧
        memory'.slice position (serverUpdatePDU crypt encryptionLevel parts.bytes).2.length =
          (serverUpdatePDU crypt encryptionLevel parts.bytes).2 := by
  have header := length_updateSend_le parts.data.length parts.updateCode.code
    parts.fragmentation.code (compressionOf parts.used) parts.compressionFlags
  have sized : fragmentPayload.packetSize % 2 ^ 16 = parts.data.length := by
    rw [holds.packetSize_eq]
    exact Nat.mod_eq_of_lt small
  obtain ⟨withUpdate, memory₁, copied, holds₁, head₁, reserved₁, agrees₁⟩ :=
    holds.copyToHead_run (header.trans (by omega))
  obtain ⟨short, same⟩ := length_serverUpdatePDUSend crypt parts.bytes
    (secFlagsOf encryptionLevel)
  change withUpdate.Holds memory₁ parts.bytes at holds₁
  obtain ⟨stored, holds₂, agrees₂⟩ := holds₁.replace same
  obtain ⟨withServer, memory₃, copied', holds₃, head₃, reserved₃, agrees₃⟩ :=
    holds₂.copyToHead_run (short.trans (by omega))
  have whole : parts.bytes.length = (updateSend parts.data.length parts.updateCode.code
      parts.fragmentation.code (compressionOf parts.used) parts.compressionFlags).length +
        parts.data.length := by
    rw [UpdateParts.bytes, List.length_append]
  refine ⟨memory₃, ?_, ?_, withServer.headPtr, ?_, ?_⟩
  · simp only [sendUpdate, sized, copied, ok_bind, holds₁.getPacket_run, stored, copied',
      holds₃.getPacket_run, pure_ok]
    rfl
  · refine ((agrees₁.widen ?_ ?_).trans (agrees₂.widen ?_ ?_)).trans (agrees₃.widen ?_ ?_) <;>
      omega
  · have length : (serverUpdatePDU crypt encryptionLevel parts.bytes).2.length =
        (serverUpdatePDUSend crypt parts.bytes (secFlagsOf encryptionLevel)).2.1.length +
          (serverUpdatePDUSend crypt parts.bytes (secFlagsOf encryptionLevel)).2.2.length :=
      List.length_append
    omega
  · exact holds₃.bytes

namespace Settings

variable (settings : Settings)

/-- What is sent of a chunk. -/
def chunkData (mppcEnc : enc.State) (chunk : List Byte) :
    Checked ErrorId (enc.State × Mppc.Flags × List Byte) := do
  let (mppcEnc, flags) ← settings.compress mppcEnc chunk
  if flags.has Mppc.packetCompressed then do
    let compressed ← liftMppc (enc.compressedData mppcEnc)
    return (mppcEnc, flags, compressed)
  else return (mppcEnc, flags, chunk)

/-- What is sent of some chunks, one after the other. -/
def compressAll : enc.State → List (List Byte) →
    Checked ErrorId (enc.State × List (Mppc.Flags × List Byte))
  | mppcEnc, [] => .ok (mppcEnc, [])
  | mppcEnc, chunk :: rest => do
    let (mppcEnc, flags, data) ← settings.chunkData mppcEnc chunk
    let (mppcEnc, pieces) ← compressAll mppcEnc rest
    return (mppcEnc, (flags, data) :: pieces)

/-- Compressed data are hardly longer than the chunk that they stand for. -/
theorem length_chunkData_le {mppcEnc next : enc.State} {chunk data : List Byte}
    {flags : Mppc.Flags} (run : settings.chunkData mppcEnc chunk = .ok (next, flags, data)) :
    data.length ≤ chunk.length + 1 := by
  rw [chunkData, bind_ok_iff] at run
  obtain ⟨⟨mppcEnc', flags'⟩, compressed, run⟩ := run
  cases flagged : flags'.has Mppc.packetCompressed with
  | false =>
    simp only [flagged, Bool.false_eq_true, if_false, pure_ok, Except.ok.injEq,
      Prod.mk.injEq] at run
    rw [← run.2.2]
    exact Nat.le_succ _
  | true =>
    simp only [flagged, if_true] at run
    rw [bind_ok_iff] at run
    obtain ⟨bytes, written, run⟩ := run
    simp only [pure_ok, Except.ok.injEq, Prod.mk.injEq] at run
    obtain ⟨_, _, same⟩ := run
    subst same
    cases support : settings.compressionSupport with
    | false =>
      simp only [compress, support, Bool.false_eq_true, if_false, Except.ok.injEq,
        Prod.mk.injEq] at compressed
      rw [← compressed.2] at flagged
      exact absurd flagged (by decide)
    | true =>
      simp only [compress, support, if_true] at compressed
      exact enc.short (liftMppc_eq_ok compressed) flagged (liftMppc_eq_ok written)

end Settings

end Model

/-! Runs of the loop of `send_fast_path_data`: one round, then all of them. -/

variable {enc : RdpMppcEnc} {ssl : Ssl} {size total : Nat}

namespace Settings

variable {settings : Settings}

/-- `data_common` points at `total` bytes, with room for the headers before them. -/
structure Given (settings : Settings) (size total : Nat) : Prop where
  reserved : settings.dataCommon.reservedLeadingSpace ≤ settings.dataCommon.headPtr
  room : 15 ≤ settings.dataCommon.reservedLeadingSpace
  begins : settings.dataCommon.headPtr ≤ settings.dataCommon.payloadBegin
  ends : settings.dataCommon.current = settings.dataCommon.headPtr + total
  inside : settings.dataCommon.headPtr + total ≤ size
  short : total < 2 ^ 32

/-- What is still to be sent stands behind what was sent. -/
structure Ready (settings : Settings) (total : Nat) (loop : Sending enc ssl size)
    (rest : List Byte) : Prop where
  unsent : loop.memory.slice (settings.dataCommon.headPtr + loop.startAt) rest.length = rest
  remaining : loop.remaining = rest.length
  total : loop.startAt + rest.length = total

theorem Given.payloadSize_eq (given : settings.Given size total) :
    settings.payloadSize = total := by
  rw [payloadSize, OutReservedStreamHelper.packetSize, given.ends, Nat.add_sub_cancel_left]
  exact Nat.mod_eq_of_lt given.short

theorem fragmentMax_pos (settings : Settings) (enc : RdpMppcEnc) :
    0 < settings.fragmentMax enc ∧ settings.fragmentMax enc ≤ 0x3fff - 20 := by
  have block := enc.block
  unfold fragmentMax
  split <;> omega

theorem Given.getSubStream_run (given : settings.Given size total)
    {memory : Buffer Byte size} {startAt : Nat} {chunk : List Byte}
    (within : startAt + chunk.length ≤ total) (last : chunk = [] → startAt = total)
    (unsent : memory.slice (settings.dataCommon.headPtr + startAt) chunk.length = chunk) :
    (settings.dataCommon.getSubStream startAt chunk.length).Holds memory chunk ∧
      (settings.dataCommon.getSubStream startAt chunk.length).headPtr =
        settings.dataCommon.headPtr + startAt ∧
      (settings.dataCommon.getSubStream startAt chunk.length).payloadBegin =
        settings.dataCommon.headPtr + startAt ∧
      15 ≤ (settings.dataCommon.getSubStream startAt chunk.length).reservedLeadingSpace := by
  obtain ⟨reserved, room, begins, ends, inside, _⟩ := given
  have length : (if chunk.length = 0 then settings.dataCommon.current -
      settings.dataCommon.payloadBegin - startAt else chunk.length) = chunk.length := by
    split
    · rename_i empty
      have reached := last (List.length_eq_zero_iff.mp empty)
      omega
    · rfl
  have headPtr : (settings.dataCommon.getSubStream startAt chunk.length).headPtr =
      settings.dataCommon.headPtr + startAt := by
    show settings.dataCommon.headPtr - settings.dataCommon.reservedLeadingSpace +
      (settings.dataCommon.reservedLeadingSpace + startAt) = _
    omega
  have current : (settings.dataCommon.getSubStream startAt chunk.length).current =
      settings.dataCommon.headPtr + startAt + chunk.length := by
    show settings.dataCommon.headPtr - settings.dataCommon.reservedLeadingSpace +
      (settings.dataCommon.reservedLeadingSpace + startAt) + (if chunk.length = 0 then _ else _) = _
    omega
  refine ⟨⟨?_, ?_, ?_, ?_⟩, headPtr, headPtr, ?_⟩
  · show settings.dataCommon.reservedLeadingSpace + startAt ≤ _
    omega
  · rw [headPtr]
    omega
  · rw [headPtr, current]
  · rw [headPtr, unsent]
  · show 15 ≤ settings.dataCommon.reservedLeadingSpace + startAt
    omega

variable {loop : Sending enc ssl size} {rest : List Byte}

theorem Ready.chunk
    (ready : settings.Ready total loop rest) {limit : Nat}
    (positive : 0 < limit) :
    (if limit < loop.remaining then limit else loop.remaining) = (rest.take limit).length ∧
      loop.startAt + (rest.take limit).length ≤ total ∧
      (rest.take limit = [] → loop.startAt = total) ∧
      loop.memory.slice (settings.dataCommon.headPtr + loop.startAt) (rest.take limit).length =
        rest.take limit ∧
      loop.memory.slice
          (settings.dataCommon.headPtr + loop.startAt + (rest.take limit).length)
          (rest.drop limit).length = rest.drop limit := by
  obtain ⟨unsent, remaining, whole⟩ := ready
  have length : (rest.take limit).length = min limit rest.length := List.length_take
  have split : rest.length = (rest.take limit).length + (rest.drop limit).length := by
    rw [← List.length_append, List.take_append_drop]
  rw [split, Buffer.slice_append] at unsent
  obtain ⟨front, back⟩ := List.append_inj
    (unsent.trans (List.take_append_drop limit rest).symm) (Buffer.length_slice _ _ _)
  refine ⟨?_, ?_, ?_, front, back⟩
  · split <;> omega
  · omega
  · intro empty
    have none := congrArg List.length empty
    rw [length, List.length_nil] at none
    omega

/-- The parts of the next fragment. -/
def nextParts (settings : Settings) (loop : Sending enc ssl size) (fragmentSize : Nat)
    (flags : Mppc.Flags) (data : List Byte) : UpdateParts where
  updateCode := settings.updateCode
  fragmentation := settings.fragFlags loop.fragmentId (loop.startAt + fragmentSize)
  used := loop.used || flags.has Mppc.packetCompressed
  compressionFlags := flags
  data := data

/-- The variables after a fragment, apart from the memory. -/
def nextLoop (settings : Settings) (loop : Sending enc ssl size) (fragmentSize : Nat)
    (mppcEnc : enc.State) (flags : Mppc.Flags) (data : List Byte) (memory : Buffer Byte size) :
    Sending enc ssl size :=
  let sent := serverUpdatePDU loop.crypt settings.encryptionLevel
    (settings.nextParts loop fragmentSize flags data).bytes
  { memory
    mppcEnc
    crypt := sent.1
    used := loop.used || flags.has Mppc.packetCompressed
    fragmentId := loop.fragmentId + 1
    startAt := loop.startAt + fragmentSize
    remaining := loop.remaining - fragmentSize
    transport := loop.transport ++ [sent.2] }

private theorem sendFragment_eq (given : settings.Given size total)
    (ready : settings.Ready total loop rest) :
    (settings.dataCommon.getSubStream loop.startAt
        (rest.take (settings.fragmentMax enc)).length).Holds loop.memory
          (rest.take (settings.fragmentMax enc)) ∧
      (loop.memory.loadBlock (settings.dataCommon.getSubStream loop.startAt
        (rest.take (settings.fragmentMax enc)).length).payloadBegin
          (rest.take (settings.fragmentMax enc)).length : Checked ErrorId _) =
        .ok (rest.take (settings.fragmentMax enc)) := by
  obtain ⟨_, within, last, front, _⟩ := ready.chunk (fragmentMax_pos settings enc).1
  obtain ⟨holds, headPtr, payloadBegin, _⟩ := given.getSubStream_run within last front
  have inside := given.inside
  refine ⟨holds, ?_⟩
  rw [payloadBegin, Buffer.loadBlock_of_le _ (by omega), front]

theorem sendFragment_error (given : settings.Given size total)
    (ready : settings.Ready total loop rest)
    {fault : Fault ErrorId}
    (run : settings.chunkData loop.mppcEnc (rest.take (settings.fragmentMax enc)) =
      .error fault) :
    settings.sendFragment loop = .error fault := by
  obtain ⟨fragmentSize, _⟩ := ready.chunk (fragmentMax_pos settings enc).1
  obtain ⟨_, loaded⟩ := sendFragment_eq given ready
  unfold chunkData at run
  cases compressed :
      settings.compress loop.mppcEnc (rest.take (settings.fragmentMax enc)) with
  | error other =>
    rw [compressed, error_bind] at run
    simp only [sendFragment, fragmentSize, loaded, ok_bind, compressed, error_bind]
    exact congrArg Except.error (Except.error.inj run)
  | ok result =>
    obtain ⟨mppcEnc, flags⟩ := result
    simp only [compressed, ok_bind] at run
    cases flagged : flags.has Mppc.packetCompressed with
    | false =>
      simp only [flagged, Bool.false_eq_true, if_false, pure_ok] at run
      cases run
    | true =>
      simp only [flagged, if_true] at run
      cases written : liftMppc (enc.compressedData mppcEnc) with
      | ok bytes =>
        rw [written] at run
        cases run
      | error other =>
        rw [written, error_bind] at run
        simp only [sendFragment, fragmentSize, loaded, ok_bind, compressed, flagged, if_true,
          written, error_bind]
        exact congrArg Except.error (Except.error.inj run)

/-- A fragment that is sent as it is, with its headers before it in the same memory. -/
theorem sendFragment_plain (given : settings.Given size total)
    (ready : settings.Ready total loop rest)
    {mppcEnc : enc.State} {flags : Mppc.Flags}
    (compressed : settings.compress loop.mppcEnc (rest.take (settings.fragmentMax enc)) =
      .ok (mppcEnc, flags))
    (flagged : flags.has Mppc.packetCompressed = false) :
    let chunk := rest.take (settings.fragmentMax enc)
    let place := settings.dataCommon.headPtr + loop.startAt
    let pdu := (serverUpdatePDU loop.crypt settings.encryptionLevel
      (settings.nextParts loop chunk.length flags chunk).bytes).2
    ∃ memory', settings.sendFragment loop =
        .ok (settings.nextLoop loop chunk.length mppcEnc flags chunk memory') ∧
      loop.memory.AgreesOutside memory' (place - 15) (place + chunk.length) ∧
      ∃ position, position + pdu.length = place + chunk.length ∧
        memory'.slice position pdu.length = pdu := by
  intro chunk place pdu
  obtain ⟨fragmentSize, within, last, front, _⟩ :=
    ready.chunk (fragmentMax_pos settings enc).1
  obtain ⟨holds, headPtr, _, room⟩ := given.getSubStream_run within last front
  obtain ⟨_, loaded⟩ := sendFragment_eq given ready
  have small : chunk.length < 2 ^ 16 := by
    have limit := (fragmentMax_pos settings enc).2
    have length : chunk.length = min (settings.fragmentMax enc) rest.length := List.length_take
    omega
  have same : (loop.used || flags.has Mppc.packetCompressed) = loop.used := by
    rw [flagged, Bool.or_false]
  obtain ⟨memory', sent, agrees, position, places, bytes⟩ :=
    sendUpdate_run (settings.nextParts loop chunk.length flags chunk) holds room small loop.crypt
      settings.encryptionLevel
  rw [headPtr] at agrees places
  refine ⟨memory', ?_, agrees, position, places, bytes⟩
  simp only [nextParts, same] at sent
  simp only [sendFragment, fragmentSize, loaded, ok_bind, compressed, flagged,
    Bool.false_eq_true, if_false, sent, pure_ok, nextLoop, nextParts, Bool.or_false, chunk]

/-- A fragment that was compressed is sent from memory of its own. -/
theorem sendFragment_compressed (given : settings.Given size total)
    (ready : settings.Ready total loop rest)
    {mppcEnc : enc.State} {flags : Mppc.Flags} {data : List Byte}
    (compressed : settings.compress loop.mppcEnc (rest.take (settings.fragmentMax enc)) =
      .ok (mppcEnc, flags))
    (flagged : flags.has Mppc.packetCompressed = true)
    (written : liftMppc (enc.compressedData mppcEnc) = .ok data)
    (small : data.length ≤ 0x3fff) :
    settings.sendFragment loop = .ok (settings.nextLoop loop
      (rest.take (settings.fragmentMax enc)).length mppcEnc flags data loop.memory) := by
  obtain ⟨fragmentSize, _⟩ := ready.chunk (fragmentMax_pos settings enc).1
  obtain ⟨_, loaded⟩ := sendFragment_eq given ready
  let dataCommonCompressed : OutReservedStreamHelper :=
    { OutReservedStreamHelper.make 0 1024 65536 with current := 0 + 1024 + data.length }
  have outRun : (OutReservedStreamHelper.make 0 1024 65536).outCompressed
      settings.uninitialised data =
        .ok (dataCommonCompressed, settings.uninitialised.splice (0 + 1024) data) := by
    have tailroom : ¬ 0 + 65536 - (0 + 1024) < data.length := by omega
    have stored : 0 + 1024 + data.length ≤ 65536 := by omega
    simp only [OutReservedStreamHelper.outCompressed, OutReservedStreamHelper.make,
      if_neg tailroom, Buffer.storeBlock_of_le _ stored, ok_bind, pure_ok]
    rfl
  have holds : dataCommonCompressed.Holds
      (settings.uninitialised.splice (0 + 1024) data) data := by
    refine ⟨?_, ?_, rfl, Buffer.slice_splice _ _ _⟩
    · show 1024 ≤ 0 + 1024
      omega
    · show 0 + 1024 + data.length ≤ 65536
      omega
  have same : (loop.used || flags.has Mppc.packetCompressed) = true := by
    rw [flagged, Bool.or_true]
  obtain ⟨memory', sent, _⟩ := sendUpdate_run
    (settings.nextParts loop (rest.take (settings.fragmentMax enc)).length flags data) holds
    (show 15 ≤ 1024 by omega) (show data.length < 2 ^ 16 by omega) loop.crypt
    settings.encryptionLevel
  simp only [nextParts, same] at sent
  simp only [sendFragment, fragmentSize, loaded, ok_bind, compressed, flagged, if_true, written,
    outRun, sent, pure_ok, nextLoop, nextParts, Bool.or_true]

/-- One round: what is behind the fragment stays as it was, and is what is left. -/
theorem sendFragment_run (given : settings.Given size total)
    (ready : settings.Ready total loop rest)
    {mppcEnc : enc.State} {flags : Mppc.Flags} {data : List Byte}
    (run : settings.chunkData loop.mppcEnc (rest.take (settings.fragmentMax enc)) =
      .ok (mppcEnc, flags, data)) :
    ∃ memory', settings.sendFragment loop = .ok (settings.nextLoop loop
        (rest.take (settings.fragmentMax enc)).length mppcEnc flags data memory') ∧
      loop.memory.AgreesOutside memory' (settings.dataCommon.headPtr + loop.startAt - 15)
        (settings.dataCommon.headPtr + loop.startAt +
          (rest.take (settings.fragmentMax enc)).length) ∧
      settings.Ready total (settings.nextLoop loop
          (rest.take (settings.fragmentMax enc)).length mppcEnc flags data memory')
        (rest.drop (settings.fragmentMax enc)) := by
  obtain ⟨_, _, _, _, back⟩ := ready.chunk (fragmentMax_pos settings enc).1
  have bounded := settings.length_chunkData_le run
  have limit := (fragmentMax_pos settings enc).2
  have length : (rest.take (settings.fragmentMax enc)).length =
      min (settings.fragmentMax enc) rest.length := List.length_take
  have split : (rest.drop (settings.fragmentMax enc)).length =
      rest.length - settings.fragmentMax enc := List.length_drop
  have sent : ∃ memory', settings.sendFragment loop = .ok (settings.nextLoop loop
        (rest.take (settings.fragmentMax enc)).length mppcEnc flags data memory') ∧
      loop.memory.AgreesOutside memory' (settings.dataCommon.headPtr + loop.startAt - 15)
        (settings.dataCommon.headPtr + loop.startAt +
          (rest.take (settings.fragmentMax enc)).length) := by
    rw [chunkData, bind_ok_iff] at run
    obtain ⟨⟨mppcEnc', flags'⟩, compressed, run⟩ := run
    cases flagged : flags'.has Mppc.packetCompressed with
    | false =>
      simp only [flagged, Bool.false_eq_true, if_false, pure_ok, Except.ok.injEq,
        Prod.mk.injEq] at run
      obtain ⟨same, same', same''⟩ := run
      subst same
      subst same'
      subst same''
      obtain ⟨memory', sent, agrees, _⟩ := sendFragment_plain given ready compressed flagged
      exact ⟨memory', sent, agrees⟩
    | true =>
      simp only [flagged, if_true] at run
      rw [bind_ok_iff] at run
      obtain ⟨bytes, written, run⟩ := run
      simp only [pure_ok, Except.ok.injEq, Prod.mk.injEq] at run
      obtain ⟨same, same', same''⟩ := run
      subst same
      subst same'
      subst same''
      exact ⟨loop.memory,
        sendFragment_compressed given ready compressed flagged written (by omega),
        .refl _ _ _⟩
  obtain ⟨memory', sent, agrees⟩ := sent
  refine ⟨memory', sent, agrees, ?_, ?_, ?_⟩
  · show memory'.slice (settings.dataCommon.headPtr + (loop.startAt + _)) _ = _
    rw [← Nat.add_assoc, agrees.slice_after (Nat.le_refl _), back]
  · show loop.remaining - _ = _
    rw [ready.remaining, split, length]
    omega
  · show loop.startAt + _ + _ = total
    have whole := ready.total
    omega

/-- Whatever a round does, it is the round of the chunk that is next. -/
theorem sendFragment_inv (given : settings.Given size total)
    {loop next : Sending enc ssl size}
    (ready : settings.Ready total loop rest) (run : settings.sendFragment loop = .ok next) :
    loop.memory.AgreesOutside next.memory (settings.dataCommon.headPtr + loop.startAt - 15)
        (settings.dataCommon.headPtr + next.startAt) ∧
      next.fragmentId = loop.fragmentId + 1 ∧
      settings.Ready total next (rest.drop (settings.fragmentMax enc)) := by
  cases chunked : settings.chunkData loop.mppcEnc (rest.take (settings.fragmentMax enc)) with
  | error fault =>
    rw [sendFragment_error given ready chunked] at run
    cases run
  | ok result =>
    obtain ⟨mppcEnc, flags, data⟩ := result
    obtain ⟨memory', sent, agrees, after⟩ := sendFragment_run given ready chunked
    rw [run] at sent
    cases sent
    exact ⟨by simpa only [nextLoop, Nat.add_assoc] using agrees, rfl, after⟩

theorem length_compressAll (settings : Settings) {mppcEnc last : enc.State}
    {chunks : List (List Byte)} {pieces : List (Mppc.Flags × List Byte)}
    (run : settings.compressAll mppcEnc chunks = .ok (last, pieces)) :
    pieces.length = chunks.length := by
  induction chunks generalizing mppcEnc last pieces with
  | nil =>
    cases run
    rfl
  | cons chunk rest ih =>
    rw [compressAll, bind_ok_iff] at run
    obtain ⟨⟨next, flags, data⟩, _, run⟩ := run
    rw [bind_ok_iff] at run
    obtain ⟨⟨last', pieces'⟩, later, run⟩ := run
    cases run
    rw [List.length_cons, List.length_cons, ih later]

theorem sendFragments_mono {settings : Settings}
    {result : Checked ErrorId (Sending enc ssl size)} {rounds more : Nat}
    (ended : settings.sendFragments rounds loop = some result) (enough : rounds ≤ more) :
    settings.sendFragments more loop = some result := by
  induction rounds generalizing loop more with
  | zero => cases ended
  | succ rounds ih =>
    obtain ⟨more, rfl⟩ : ∃ fewer, more = fewer + 1 := ⟨more - 1, by omega⟩
    rw [sendFragments] at ended ⊢
    cases round : settings.sendFragment loop with
    | error fault =>
      rw [round] at ended
      exact ended
    | ok next =>
      rw [round] at ended
      show (if next.remaining = 0 then some (.ok next)
        else settings.sendFragments more next) = some result
      change (if next.remaining = 0 then some (.ok next)
        else settings.sendFragments rounds next) = some result at ended
      split
      · rename_i done
        rwa [if_pos done] at ended
      · rename_i left
        rw [if_neg left] at ended
        exact ih ended (by omega)

/-- The loop sends what the compressor makes of the chunks, fragment by fragment; only the
compressor can stop it. -/
theorem sendFragments_run (given : settings.Given size total)
    {chunks : List (List Byte)} (chunked : Chunked (settings.fragmentMax enc) rest chunks)
    (ready : settings.Ready total loop rest) {rounds : Nat}
    (enough : chunks.length ≤ rounds) :
    match settings.compressAll loop.mppcEnc chunks with
    | .error fault => settings.sendFragments rounds loop = some (.error fault)
    | .ok (mppcEnc, pieces) => ∃ final, settings.sendFragments rounds loop = some (.ok final) ∧
        (final.mppcEnc = mppcEnc ∧ final.crypt = (emitAll settings.encryptionLevel loop.crypt
          (partsOf settings.updateCode loop.used (loop.fragmentId == 0) pieces)).1) ∧
        final.transport = loop.transport ++ (emitAll settings.encryptionLevel loop.crypt
          (partsOf settings.updateCode loop.used (loop.fragmentId == 0) pieces)).2 := by
  induction chunked generalizing loop rounds with
  | @last data short =>
    obtain ⟨rounds, rfl⟩ : ∃ fewer, rounds = fewer + 1 := ⟨rounds - 1, by simp at enough; omega⟩
    have whole : data.take (settings.fragmentMax enc) = data := List.take_of_length_le short
    cases run : settings.chunkData loop.mppcEnc data with
    | error fault =>
      have stopped := sendFragment_error given ready (by rw [whole]; exact run)
      simp only [compressAll, run, error_bind, sendFragments, stopped]
    | ok result =>
      obtain ⟨mppcEnc, flags, sent⟩ := result
      obtain ⟨memory', ran, _, _⟩ := sendFragment_run given ready (by rw [whole]; exact run)
      rw [whole] at ran
      have done : (settings.nextLoop loop data.length mppcEnc flags sent memory').remaining = 0 := by
        show loop.remaining - data.length = 0
        rw [ready.remaining]
        omega
      have reached : loop.startAt + data.length = settings.payloadSize := by
        rw [ready.total, given.payloadSize_eq]
      simp only [compressAll, run, ok_bind, pure_ok]
      refine ⟨settings.nextLoop loop data.length mppcEnc flags sent memory',
        by simp only [sendFragments, ran, if_pos done], ⟨rfl, ?_⟩, ?_⟩
      all_goals
        simp only [nextLoop, nextParts, fragFlags, reached, if_true, emitAll, partsOf]
        by_cases first : loop.fragmentId = 0 <;> simp [first]
  | @more chunk data chunks full nonempty cut ih =>
    obtain ⟨rounds, rfl⟩ : ∃ fewer, rounds = fewer + 1 := ⟨rounds - 1, by simp at enough; omega⟩
    have front : (chunk ++ data).take (settings.fragmentMax enc) = chunk := by
      rw [← full, List.take_left]
    have back : (chunk ++ data).drop (settings.fragmentMax enc) = data := by
      rw [← full, List.drop_left]
    have long := List.length_pos_of_ne_nil nonempty
    cases run : settings.chunkData loop.mppcEnc chunk with
    | error fault =>
      have stopped := sendFragment_error given ready (by rw [front]; exact run)
      simp only [compressAll, run, error_bind, sendFragments, stopped]
    | ok result =>
      obtain ⟨mppcEnc, flags, sent⟩ := result
      obtain ⟨memory', ran, _, after⟩ := sendFragment_run given ready (by rw [front]; exact run)
      rw [front] at ran after
      rw [back] at after
      have more : (settings.nextLoop loop chunk.length mppcEnc flags sent memory').remaining ≠ 0 := by
        rw [after.remaining]
        omega
      have before : loop.startAt + chunk.length ≠ settings.payloadSize := by
        have total := ready.total
        rw [List.length_append] at total
        rw [given.payloadSize_eq]
        omega
      have later := ih after (show chunks.length ≤ rounds by simpa using enough)
      have opened : settings.sendFragments (rounds + 1) loop = settings.sendFragments rounds
          (settings.nextLoop loop chunk.length mppcEnc flags sent memory') := by
        simp only [sendFragments, ran, if_neg more]
      rw [opened]
      simp only [compressAll, run, ok_bind]
      cases others : settings.compressAll mppcEnc chunks with
      | error fault =>
        simp only [nextLoop, others] at later
        simpa only [error_bind, nextLoop] using later
      | ok result =>
        obtain ⟨last, pieces⟩ := result
        have several : pieces ≠ [] := by
          rw [← List.length_pos_iff, length_compressAll settings others, List.length_pos_iff]
          exact cut.ne_nil
        simp only [nextLoop, others] at later
        obtain ⟨final, ended, ⟨state, keys⟩, transport⟩ := later
        refine ⟨final, by simpa only [nextLoop] using ended, ⟨state, ?_⟩, ?_⟩
        · rw [keys]
          simp only [nextParts, fragFlags, before, if_false, emitAll, partsOf, several]
          by_cases first : loop.fragmentId = 0 <;> simp [first]
        · rw [transport]
          simp only [nextParts, fragFlags, before, if_false, emitAll, partsOf, several,
            List.append_assoc, List.singleton_append]
          by_cases first : loop.fragmentId = 0 <;> simp [first]

end Settings

end Redemption.FastPath
