import Redemption.Mppc.Format
import Redemption.Mppc.MatchFinder

/-! `compress_40` and `compress_50`. -/
namespace Redemption.Mppc

open Redemption.Foundation

/-- The fields of `rdp_mppc_40_enc` and `rdp_mppc_50_enc`. -/
structure Encoder (format : Format) where
  historyBuffer : Buffer Byte format.histBufLen
  outputBuffer : Buffer Byte format.outputCapacity
  historyOffset : Nat
  bytesInOpb : Nat
  flags : Flags
  flagsHold : Flags
  firstPkt : Bool
  hashTabMgr : HashTableManager

namespace Encoder

variable {format : Format}

def fresh (format : Format) : Encoder format where
  historyBuffer := .filled 0
  outputBuffer := .filled 0
  historyOffset := 0
  bytesInOpb := 0
  flags := 0
  flagsHold := 0
  firstPkt := true
  hashTabMgr := .empty

/-- What the body of the `try` leaves: an error keeps the hash table and the output. -/
abbrev Attempt (format : Format) (α : Type) :=
  Except (MppcFault × HashTableManager × Output format.outputCapacity) α

def insert (format : Format) (manager : HashTableManager) (insertions : List (Nat × Nat))
    (out : Output format.outputCapacity) : Attempt format (Output format.outputCapacity) :=
  match out.insertAll format.outputBufferSize insertions with
  | .error (fault, out) => .error (fault, manager, out)
  | .ok out => .ok out

/-- The positions that the search skips at the start of the history. -/
def seed (history : Buffer Byte format.histBufLen) (manager : HashTableManager) :
    Checked ErrorId HashTableManager := do
  let manager ← manager.updateIndirect minimumMatchLength4050 history 0
  manager.updateIndirect minimumMatchLength4050 history 1

/-- The first bytes of the history are literals: nothing lies before them. -/
def encodeStart (history : Buffer Byte format.histBufLen) (historyOffset : Nat)
    (manager : HashTableManager) (out : Output format.outputCapacity) :
    Attempt format (Nat × HashTableManager × Output format.outputCapacity) :=
  if historyOffset = 0 then
    let ctr := minimumMatchLength4050 - 1
    match history.loadBlock historyOffset ctr with
    | .error fault => .error (fault, manager, out)
    | .ok bytes =>
      match insert format manager (bytes.map Output.literalBits) out with
      | .error stopped => .error stopped
      | .ok out =>
        match seed history manager with
        | .error fault => .error (fault, manager, out)
        | .ok manager => .ok (ctr, manager, out)
  else .ok (0, manager, out)

def emit (format : Format) : Emit (Output format.outputCapacity) := fun found out =>
  out.insertAll format.outputBufferSize (format.insertions found)

/-- The body of the `try`: first literals, matches and literals, last literals. -/
def encodePacket (history : Buffer Byte format.histBufLen) (historyOffset : Nat)
    (data : List Byte) (manager : HashTableManager) (out : Output format.outputCapacity) :
    Attempt format (HashTableManager × Output format.outputCapacity) :=
  match encodeStart history historyOffset manager out with
  | .error stopped => .error stopped
  | .ok (ctr, manager, out) =>
    match scan limits4050 id (emit format) history historyOffset data.length data.length ctr
      manager out with
    | .error stopped => .error stopped
    | .ok (ctr, manager, out) =>
      match insert format manager ((data.drop ctr).map Output.literalBits) out with
      | .error stopped => .error stopped
      | .ok out => .ok (manager, out)

/-- The first packet, and the first after a flush, goes to the front of the history. -/
def markFirst (enc : Encoder format) : Encoder format :=
  if enc.firstPkt then
    { enc with firstPkt := false, flagsHold := enc.flagsHold ||| packetAtFront }
  else enc

/-- A packet that does not fit behind the others goes to the front of the history. -/
def rewind (enc : Encoder format) (dataSize : Nat) : Encoder format :=
  if format.histBufLen ≤ enc.historyOffset + dataSize + 2 then
    { enc with
      historyOffset := 0
      flagsHold := enc.flagsHold ||| packetAtFront
      hashTabMgr := enc.hashTabMgr.reset }
  else enc

/-- What `compress` does to its state before it encodes. -/
def prepare (enc : Encoder format) (data : List Byte) : Checked ErrorId (Encoder format) := do
  let outputBuffer ← enc.outputBuffer.storeBlock 0 (List.replicate data.length 0)
  let enc := ({ enc with outputBuffer }.markFirst).rewind data.length
  let historyBuffer ← enc.historyBuffer.storeBlock enc.historyOffset data
  return { enc with historyBuffer }

/-- The packet is not worth compressing: take back what it did to the hash table. -/
def giveUp (enc : Encoder format) (manager : HashTableManager)
    (out : Output format.outputCapacity) : Encoder format :=
  let enc := { enc with outputBuffer := out.outputBuffer }
  match manager.undoLastChanges with
  | some manager => { enc with hashTabMgr := manager }
  | none =>
    { enc with
      historyOffset := 0
      flagsHold := enc.flagsHold ||| packetFlushed
      firstPkt := true
      hashTabMgr := manager.reset }

def succeed (enc : Encoder format) (data : List Byte) (manager : HashTableManager)
    (out : Output format.outputCapacity) : Encoder format :=
  { enc with
    outputBuffer := out.outputBuffer
    hashTabMgr := manager
    historyOffset := enc.historyOffset + data.length
    bytesInOpb := out.byteCount
    flags := enc.flags ||| packetCompressed ||| enc.flagsHold
    flagsHold := 0 }

/-- The state that `compress` starts from. -/
def begin (enc : Encoder format) : Encoder format :=
  { enc with
    flags := format.comprType
    hashTabMgr := enc.hashTabMgr.clearUndoHistory }

/-- The body of both compressors; `worth` bytes of output are too many. -/
def compress (enc : Encoder format) (data : List Byte) (worth : Nat) :
    Checked ErrorId (Encoder format) :=
  let enc := enc.begin
  if data.length = 0 ∨ format.histBufLen - 2 ≤ data.length then .ok enc
  else do
    let enc ← enc.prepare data
    match encodePacket enc.historyBuffer enc.historyOffset data enc.hashTabMgr
      (.start enc.outputBuffer) with
    | .error (.outOfBounds, _, _) => .error .outOfBounds
    | .error (.raised _, manager, out) => return enc.giveUp manager out
    | .ok (manager, out) =>
      if worth ≤ out.opbIndex then return enc.giveUp manager out
      else return enc.succeed data manager out

/-- `compressedType` and the bytes of `get_compressed_data`, when there are any. -/
def result (enc : Encoder format) : Checked ErrorId (Option (Flags × List Byte)) :=
  if enc.flags.has packetCompressed then do
    let bytes ← enc.outputBuffer.loadBlock 0 enc.bytesInOpb
    return some (enc.flags, bytes)
  else return none

end Encoder

/-- `compress_40`: a packet as long as the history is refused. -/
def compress40 (enc : Encoder format40) (uncompressedData : List Byte) :
    Checked ErrorId (Encoder format40) :=
  if format40.histBufLen ≤ uncompressedData.length then .error (.raised .rdpProtocol)
  else enc.compress uncompressedData uncompressedData.length

/-- `compress_50`. -/
def compress50 (enc : Encoder format50) (uncompressedData : List Byte)
    (maxCompressedDataSize : Nat) : Checked ErrorId (Encoder format50) :=
  enc.compress uncompressedData (min uncompressedData.length maxCompressedDataSize)

/-! What a compressor writes for one packet: the bits of tokens that parse it. -/

open Redemption.Foundation.Lz

def collect : Emit (List Found) := fun found rounds => .ok (rounds ++ [found])

theorem emitAll_collect (rounds before : List Found) :
    emitAll collect rounds before = .ok (before ++ rounds) := by
  induction rounds generalizing before with
  | nil => simp [emitAll]
  | cons found rest ih => simp [emitAll, collect, ih]

namespace Encoder

variable {format : Format}

/-- The bytes that are literals because the history starts with them. -/
def firstBytes (enc : Encoder format) : Checked ErrorId (List Byte × HashTableManager) :=
  if enc.historyOffset = 0 then do
    let bytes ← enc.historyBuffer.loadBlock 0 2
    let manager ← seed enc.historyBuffer enc.hashTabMgr
    return (bytes, manager)
  else return ([], enc.hashTabMgr)

/-- The tokens of a packet that has been prepared. -/
def packetTokens (enc : Encoder format) (data : List Byte) :
    Checked ErrorId (List (Token Byte)) := do
  let (first, manager) ← enc.firstBytes
  match scan limits4050 id collect enc.historyBuffer enc.historyOffset data.length data.length
    first.length manager [] with
  | .error (fault, _) => .error fault
  | .ok (finish, _, rounds) =>
    return first.map .literal ++ rounds.map Found.token ++ (data.drop finish).map .literal

/-- What holds once `prepare` has put a packet into the history. -/
structure Prepared (enc : Encoder format) (data : List Byte) : Prop where
  nonempty : 0 < data.length
  room : enc.historyOffset + data.length + 2 < format.histBufLen
  text : ∀ index (bounded : index < data.length),
    enc.historyBuffer.cell (enc.historyOffset + index) = data[index]
  below : enc.hashTabMgr.Below (max 1 enc.historyOffset)
  undoes : enc.hashTabMgr.Undoes enc.hashTabMgr.table
  clear : enc.outputBuffer.cell 0 = 0

theorem emitAll_emit (rounds : List Found) (out : Output format.outputCapacity) :
    emitAll (emit format) rounds out = out.insertAll format.outputBufferSize
      ((rounds.map Found.token).flatMap format.tokenInsertions) := by
  induction rounds generalizing out with
  | nil => rfl
  | cons found rest ih =>
    rw [List.map_cons, List.flatMap_cons, Output.insertAll_append, emitAll, emit,
      format.insertions_eq]
    cases out.insertAll format.outputBufferSize (format.tokenInsertions found.token) with
    | error fault => rfl
    | ok next => exact ih next

theorem flatMap_literals (values : List Byte) :
    (values.map Token.literal).flatMap format.tokenInsertions =
      values.map Output.literalBits := by
  induction values with
  | nil => rfl
  | cons head rest ih =>
    simp only [List.map_cons, List.flatMap_cons, ih]
    rfl

section Packet

variable {enc : Encoder format} {data : List Byte}

private theorem Prepared.search (prepared : enc.Prepared data) :
    SearchRoom limits4050 id format.histBufLen enc.historyOffset data.length where
  minimum := by decide
  longest := by
    intro longest found
    cases found
  room := by
    have room := prepared.room
    show enc.historyOffset + data.length + 3 ≤ format.histBufLen + 2
    omega
  shortens := fun _ => .inl rfl

private theorem seed_run (prepared : enc.Prepared data) (front : enc.historyOffset = 0) :
    ∃ manager, seed enc.historyBuffer enc.hashTabMgr = .ok manager ∧ manager.Below 2 ∧
      manager.Undoes enc.hashTabMgr.table := by
  have nonempty := prepared.nonempty
  have room := prepared.room
  have below := prepared.below
  rw [front] at below
  have first : 0 + minimumMatchLength4050 ≤ format.histBufLen := by
    simp only [minimumMatchLength4050]
    omega
  have second : 1 + minimumMatchLength4050 ≤ format.histBufLen := by
    simp only [minimumMatchLength4050]
    omega
  have run : seed enc.historyBuffer enc.hashTabMgr =
      .ok ((enc.hashTabMgr.update (sign (enc.historyBuffer.slice 0 minimumMatchLength4050)) 0).update
        (sign (enc.historyBuffer.slice 1 minimumMatchLength4050)) 1) := by
    rw [seed, updateIndirect_eq minimumMatchLength4050 _ first, ok_bind,
      updateIndirect_eq minimumMatchLength4050 _ second]
  exact ⟨_, run, ((below.mono (by decide)).update _ (by decide)).update _ (by decide),
    (prepared.undoes.update _ _).update _ _⟩

private theorem scanned_valid (prepared : enc.Prepared data) {ctr finish : Nat}
    {rounds : List Found}
    (scanned : Scanned limits4050 id enc.historyBuffer enc.historyOffset data.length ctr finish
      rounds) : ∀ found ∈ rounds, format.Valid found.token := by
  have room := prepared.room
  induction scanned with
  | stop _ => exact fun found member => (List.not_mem_nil member).elim
  | round more here _ ih =>
    intro found member
    rcases List.mem_cons.mp member with rfl | later
    · cases here with
      | literal => trivial
      | matched earlier long inside short same =>
        simp only [limits4050, minimumMatchLength4050] at long
        simp only [Found.token, Format.Valid, id_eq]
        omega
    · exact ih found later

/-- How the attempt starts: what is skipped, and what is written for it. -/
private theorem start_run (prepared : enc.Prepared data) :
    ∃ (first : List Byte) (manager : HashTableManager), enc.firstBytes = .ok (first, manager) ∧
      first = enc.historyBuffer.slice enc.historyOffset first.length ∧
      (enc.historyOffset = 0 → first.length = 2) ∧ (0 < enc.historyOffset → first = []) ∧
      manager.Below (enc.historyOffset + first.length) ∧
      manager.Undoes enc.hashTabMgr.table ∧
      ∀ out : Output format.outputCapacity, encodeStart enc.historyBuffer enc.historyOffset enc.hashTabMgr out =
        match out.insertAll format.outputBufferSize (first.map Output.literalBits) with
        | .error (fault, out) => .error (fault, enc.hashTabMgr, out)
        | .ok out => .ok (first.length, manager, out) := by
  by_cases front : enc.historyOffset = 0
  · obtain ⟨manager, seeded, below, undoes⟩ := seed_run prepared front
    have room := prepared.room
    have loaded : (enc.historyBuffer.loadBlock 0 2 : Checked ErrorId _) =
        .ok (enc.historyBuffer.slice 0 2) := Buffer.loadBlock_of_le _ (by omega)
    refine ⟨enc.historyBuffer.slice 0 2, manager, ?_, ?_, fun _ => Buffer.length_slice _ _ _,
      fun absurd => by omega, ?_, undoes, ?_⟩
    · simp only [firstBytes, front, if_true, loaded, seeded, ok_bind, pure_ok]
    · rw [Buffer.length_slice, front]
    · rw [front, Buffer.length_slice]
      exact below
    · intro out
      simp only [encodeStart, front, if_true, minimumMatchLength4050, Nat.reduceSub, loaded,
        insert]
      cases out.insertAll format.outputBufferSize
          ((enc.historyBuffer.slice 0 2).map Output.literalBits) with
      | error fault => rfl
      | ok next => simp only [seeded, Buffer.length_slice]
  · refine ⟨[], enc.hashTabMgr, ?_, rfl, fun absurd => (front absurd).elim, fun _ => rfl, ?_,
      prepared.undoes, ?_⟩
    · simp only [firstBytes, front, if_false, pure_ok]
    · exact prepared.below.mono (by simp; omega)
    · intro out
      simp only [encodeStart, front, if_false, List.map_nil, Output.insertAll, List.length_nil]

/-- A whole packet: its tokens, and how the attempt to write them fares. -/
theorem encodePacket_run (prepared : enc.Prepared data) :
    ∃ (tokens : List (Token Byte)) (manager : HashTableManager),
      enc.packetTokens data = .ok tokens ∧
      manager.Undoes enc.hashTabMgr.table ∧
      (∀ token ∈ tokens, format.Valid token) ∧
      (enc.historyOffset = 0 → 2 ≤ tokens.length) ∧
      (data.length ≤ 2 → ∃ bytes : List Byte, tokens = bytes.map .literal ∧ bytes.length ≤ 2) ∧
      (0 < enc.historyOffset ∨ 2 ≤ data.length →
        manager.Below (enc.historyOffset + data.length) ∧
        Parses enc.historyBuffer.cell enc.historyOffset (enc.historyOffset + data.length)
          tokens) ∧
      ∀ out : Output format.outputCapacity, match out.insertAll format.outputBufferSize
          (tokens.flatMap format.tokenInsertions) with
        | .error (fault, out') => ∃ stopped : HashTableManager,
            stopped.Undoes enc.hashTabMgr.table ∧
            encodePacket enc.historyBuffer enc.historyOffset data enc.hashTabMgr out =
              .error (fault, stopped, out')
        | .ok out' => encodePacket enc.historyBuffer enc.historyOffset data enc.hashTabMgr out =
            .ok (manager, out') := by
  have ready := prepared.search
  obtain ⟨first, manager, loaded, spelled, two, none, below, undoes, starts⟩ := start_run prepared
  have started : 0 < enc.historyOffset + first.length := by
    by_cases front : enc.historyOffset = 0
    · omega
    · omega
  obtain ⟨rounds, finish, manager', scanned, below', undoes', reacts⟩ :=
    scan_run enc.historyBuffer ready data.length first.length (by omega) started manager below
      undoes
  have collected := reacts collect []
  simp only [emitAll_collect, List.nil_append] at collected
  refine ⟨first.map .literal ++ rounds.map Found.token ++ (data.drop finish).map .literal, manager',
    ?_, undoes', ?_, ?_, ?_, ?_, ?_⟩
  · simp only [packetTokens, loaded, ok_bind, collected, pure_ok]
  · exact packet_valid (fun _ => trivial) (scanned_valid prepared scanned)
  · intro front
    simp only [List.length_append, List.length_map]
    omega
  · intro small
    cases scanned with
    | stop done =>
      refine ⟨first ++ data.drop first.length, ?_, ?_⟩
      · rw [List.map_nil, List.append_nil, List.map_append]
      · rw [List.length_append, List.length_drop]
        by_cases front : enc.historyOffset = 0
        · omega
        · simp [none (by omega), small]
    | round more _ _ =>
      simp only [limits4050, minimumMatchLength4050] at more
      omega
  · intro enough
    have inside : first.length ≤ data.length := by
      by_cases front : enc.historyOffset = 0
      · omega
      · simp [none (by omega)]
    have stopped := scanned.finish_le ready inside
    exact ⟨below'.mono (by omega), scanned.packet_parses ready spelled prepared.text stopped⟩
  · intro out
    simp only [List.flatMap_append, Output.insertAll_append, flatMap_literals, ← emitAll_emit]
    have started := starts out
    unfold encodePacket
    cases opened : out.insertAll format.outputBufferSize (first.map Output.literalBits) with
    | error fault =>
      obtain ⟨fault, out'⟩ := fault
      rw [opened] at started
      exact ⟨enc.hashTabMgr, prepared.undoes, by simp only [started]⟩
    | ok next =>
      rw [opened] at started
      have middle := reacts (emit format) next
      simp only [started]
      cases emitted : emitAll (emit format) rounds next with
      | error fault =>
        obtain ⟨fault, out'⟩ := fault
        rw [emitted] at middle
        obtain ⟨stopped, undoes'', ran⟩ := middle
        exact ⟨stopped, undoes'', by simp only [ran]⟩
      | ok last =>
        rw [emitted] at middle
        simp only [middle, insert]
        cases last.insertAll format.outputBufferSize ((data.drop finish).map Output.literalBits) with
        | error fault => exact ⟨manager', undoes', rfl⟩
        | ok closed => rfl

end Packet

end Encoder

end Redemption.Mppc
