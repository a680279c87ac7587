import Redemption.Foundation.ByteStream
import Redemption.Mppc.Decoder
import Redemption.Mppc.MatchFinder

/-! The match details of RDP 6.1: how the compressor lists matches and literals, and
how the decompressor puts them together. -/
namespace Redemption.Mppc

open Redemption.Foundation

/-- `RDP_61_HISTORY_BUFFER_LENGTH`. -/
def historyBufferLength61 : Nat := 2000000

/-- `RDP_61_MAX_DATA_BLOCK_SIZE`. -/
def maxDataBlockSize61 : Nat := 16383 - 1

/-- `RDP_61_COMPRESSOR_MINIMUM_MATCH_LENGTH`. -/
def minimumMatchLength61 : Nat := 9

/-- `RDP_61_COMPRESSOR_OUTPUT_BUFFER_SIZE`. -/
def outputBufferSize61 : Nat := 2 + 1024 * 32 + maxDataBlockSize61

def limits61 : MatchLimits := ⟨minimumMatchLength61, some maxDataBlockSize61⟩

/-- One match: its length, where it goes in the packet, and where it is in the history. -/
structure MatchDetails where
  matchLength : Nat
  matchOutputOffset : Nat
  matchHistoryOffset : Nat
  deriving DecidableEq, Repr

namespace MatchDetails

def bytes (details : MatchDetails) : List Byte :=
  leBytes 2 details.matchLength ++
    (leBytes 2 details.matchOutputOffset ++ leBytes 4 details.matchHistoryOffset)

def read (stream : List Byte) : Checked ErrorId (MatchDetails × List Byte) := do
  let (matchLength, stream) ← inLe 2 stream
  let (matchOutputOffset, stream) ← inLe 2 stream
  let (matchHistoryOffset, stream) ← inLe 4 stream
  return (⟨matchLength, matchOutputOffset, matchHistoryOffset⟩, stream)

end MatchDetails

section Compressor

variable {size : Nat}

/-- What the search writes to `match_details_stream`. -/
def emitDetails : Emit (List Byte)
  | .literal _, stream => .ok stream
  | .matched counter _ previousMatch lengthOfMatch, stream =>
    if stream.length + 8 ≤ 65536 then
      .ok (stream ++ MatchDetails.bytes ⟨lengthOfMatch, counter, previousMatch⟩)
    else .error (.outOfBounds, stream)

/-- `rdp_mppc_61_enc_hash_based_match_finder::find_match`. -/
def findMatch61 (history : Buffer Byte size) (historyOffset dataSize : Nat)
    (manager : HashTableManager) : Checked ErrorId (HashTableManager × List Byte) := do
  let manager := manager.clearUndoHistory
  if dataSize < minimumMatchLength61 then return (manager, [])
  else
    let counter := if historyOffset = 0 then minimumMatchLength61 - 1 else 0
    let manager ← updateFirst limits61 history counter manager
    match scan limits61 id emitDetails history historyOffset dataSize dataSize counter manager
      [] with
    | .error (fault, _) => .error fault
    | .ok (_, manager, stream) => return (manager, stream)

/-- `out_copy_bytes` behind `has_room`. -/
def outCopyBytes (out bytes : List Byte) : Checked ErrorId (List Byte) :=
  if out.length + bytes.length ≤ outputBufferSize61 then .ok (out ++ bytes)
  else .error (.raised .streamMemoryTooSmall)

/-- The loop that copies what lies between the matches. -/
def copyLiterals (data : List Byte) : Nat → Nat → List Byte → List Byte →
    Checked ErrorId (Nat × List Byte)
  | 0, currentOutputOffset, _, out => .ok (currentOutputOffset, out)
  | matchCount + 1, currentOutputOffset, stream, out => do
    let (details, stream) ← MatchDetails.read stream
    if currentOutputOffset < details.matchOutputOffset then
      let (bytes, _) ← inBytes (details.matchOutputOffset - currentOutputOffset)
        (data.drop currentOutputOffset)
      let out ← outCopyBytes out bytes
      copyLiterals data matchCount
        ((details.matchOutputOffset + details.matchLength) % 2 ^ 16) stream out
    else
      copyLiterals data matchCount ((currentOutputOffset + details.matchLength) % 2 ^ 16) stream
        out

/-- What the compressor writes to `level_1_output_buffer`. -/
def writeLevel1 (data matchDetails : List Byte) : Checked ErrorId (List Byte) := do
  let matchCount := matchDetails.length / 8
  let out ← outCopyBytes [] (leBytes 2 matchCount ++ matchDetails)
  let (currentOutputOffset, out) ← copyLiterals data matchCount 0 matchDetails out
  if currentOutputOffset < data.length then outCopyBytes out (data.drop currentOutputOffset)
  else return out

end Compressor

section Decompressor

/-- What the decompressing loop works on. -/
structure Rebuild where
  history : Buffer Byte historyBufferLength61
  literals : List Byte
  currentOutputOffset : Nat

namespace Rebuild

/-- The literals before a match. -/
def fillTo (historyOffset matchOutputOffset : Nat) (rebuild : Rebuild) :
    Checked ErrorId Rebuild :=
  if rebuild.currentOutputOffset < matchOutputOffset then do
    let count := matchOutputOffset - rebuild.currentOutputOffset
    checkThrow rebuild.literals count .rdp61DecompressDataTruncated
    let (bytes, literals) ← inBytes count rebuild.literals
    let history ← rebuild.history.storeBlock (historyOffset + rebuild.currentOutputOffset) bytes
    return ⟨history, literals, matchOutputOffset⟩
  else return rebuild

/-- One match, with the literals before it. -/
def copyDetails (historyOffset : Nat) (details : MatchDetails) (rebuild : Rebuild) :
    Checked ErrorId Rebuild := do
  let rebuild ← rebuild.fillTo historyOffset details.matchOutputOffset
  let history ← copyMatch details.matchLength details.matchHistoryOffset
    (historyOffset + rebuild.currentOutputOffset) rebuild.history
  return { rebuild with
    history
    currentOutputOffset := (rebuild.currentOutputOffset + details.matchLength) % 2 ^ 16 }

/-- The loop on `match_index`. -/
def copyAll (historyOffset : Nat) : Nat → List Byte → Rebuild → Checked ErrorId Rebuild
  | 0, _, rebuild => .ok rebuild
  | matchCount + 1, stream, rebuild => do
    checkThrow stream 8 .rdp61DecompressDataTruncated
    let (details, stream) ← MatchDetails.read stream
    let rebuild ← rebuild.copyDetails historyOffset details
    copyAll historyOffset matchCount stream rebuild

def copyRemaining (historyOffset : Nat) (rebuild : Rebuild) : Checked ErrorId Rebuild := do
  let history ← rebuild.history.storeBlock (historyOffset + rebuild.currentOutputOffset)
    rebuild.literals
  return ⟨history, [], (rebuild.currentOutputOffset + rebuild.literals.length) % 2 ^ 16⟩

end Rebuild

/-- `prepare_compressed_data`: the match count, the match details and the literals. -/
def prepareCompressedData (compressed : Bool) (stream : List Byte) :
    Checked ErrorId (Nat × List Byte × List Byte) :=
  if compressed then do
    checkThrow stream 2 .rdp61DecompressDataTruncated
    let (matchCount, stream) ← inLe 2 stream
    checkThrow stream (matchCount * 8) .rdp61DecompressDataTruncated
    let (matchDetails, literals) ← inBytes (matchCount * 8) stream
    return (matchCount, matchDetails, literals)
  else return (0, [], stream)

/-- The packet that the level 1 data stands for, put at the offset of the history: the
history with the length of the packet. -/
def decompressLevel1 (compressed : Bool) (stream : List Byte)
    (history : Buffer Byte historyBufferLength61) (historyOffset : Nat) :
    Checked ErrorId (Buffer Byte historyBufferLength61 × Nat) := do
  let (matchCount, matchDetails, literals) ← prepareCompressedData compressed stream
  let rebuild ← Rebuild.copyAll historyOffset matchCount matchDetails ⟨history, literals, 0⟩
  let rebuild ← rebuild.copyRemaining historyOffset
  return (rebuild.history, rebuild.currentOutputOffset)

end Decompressor

/-! The decompressor puts the matches and the literals of RDP 6.1 back together. -/

open Redemption.Foundation.Lz

/-- Matches of a text in order, each with earlier text, from a place in the packet on. -/
inductive Describes (text : Nat → Byte) (historyOffset dataSize : Nat) :
    Nat → List MatchDetails → Prop where
  | done {current} (inside : current ≤ dataSize) : Describes text historyOffset dataSize current []
  | cons {current rest} {details : MatchDetails} (forward : current ≤ details.matchOutputOffset)
      (long : minimumMatchLength61 ≤ details.matchLength)
      (earlier : details.matchHistoryOffset < historyOffset + details.matchOutputOffset)
      (same : ∀ index < details.matchLength, text (details.matchHistoryOffset + index) =
        text (historyOffset + details.matchOutputOffset + index))
      (tail : Describes text historyOffset dataSize
        (details.matchOutputOffset + details.matchLength) rest) :
      Describes text historyOffset dataSize current (details :: rest)

/-- The bytes of the packet outside the matches. -/
def gaps (data : List Byte) : Nat → List MatchDetails → List Byte
  | current, [] => data.drop current
  | current, details :: rest =>
    (data.take details.matchOutputOffset).drop current ++
      gaps data (details.matchOutputOffset + details.matchLength) rest

def detailsBytes (details : List MatchDetails) : List Byte := details.flatMap MatchDetails.bytes

theorem MatchDetails.length_bytes (details : MatchDetails) : details.bytes.length = 8 := by
  simp [bytes]

theorem length_detailsBytes (details : List MatchDetails) :
    (detailsBytes details).length = details.length * 8 := by
  induction details with
  | nil => rfl
  | cons head rest ih =>
    rw [detailsBytes, List.flatMap_cons, List.length_append, head.length_bytes, List.length_cons]
    simp only [detailsBytes] at ih
    omega

theorem MatchDetails.read_bytes {details : MatchDetails} (length : details.matchLength < 2 ^ 16)
    (output : details.matchOutputOffset < 2 ^ 16) (history : details.matchHistoryOffset < 2 ^ 32)
    (rest : List Byte) : MatchDetails.read (details.bytes ++ rest) = .ok (details, rest) := by
  have fits : ∀ width value, value < 2 ^ (8 * width) → value % 2 ^ (8 * width) = value :=
    fun _ _ small => Nat.mod_eq_of_lt small
  simp only [read, bytes, List.append_assoc, inLe_append, ok_bind, fits 2 _ length,
    fits 2 _ output, fits 4 _ history, pure_ok]

namespace Describes

variable {text : Nat → Byte} {historyOffset dataSize current : Nat} {details : List MatchDetails}

theorem current_le (describes : Describes text historyOffset dataSize current details) :
    current ≤ dataSize := by
  induction describes with
  | done inside => exact inside
  | cons forward _ _ _ _ ih => omega

theorem widen (describes : Describes text historyOffset dataSize current details) {earlier : Nat}
    (before : earlier ≤ current) : Describes text historyOffset dataSize earlier details := by
  cases describes with
  | done inside => exact .done (by omega)
  | cons forward long behind same tail => exact .cons (by omega) long behind same tail

theorem length_le (describes : Describes text historyOffset dataSize current details) :
    current + 9 * details.length ≤ dataSize := by
  induction describes with
  | done inside => exact inside
  | cons forward long _ _ _ ih =>
    simp only [minimumMatchLength61] at long
    rw [List.length_cons]
    omega

end Describes

/-- The details of what a search found. -/
def Found.details : Found → Option MatchDetails
  | .literal _ => none
  | .matched counter _ previousMatch lengthOfMatch => some ⟨lengthOfMatch, counter, previousMatch⟩

private theorem filterMap_matched (counter offset previousMatch lengthOfMatch : Nat)
    (rest : List Found) :
    (Found.matched counter offset previousMatch lengthOfMatch :: rest).filterMap Found.details =
      ⟨lengthOfMatch, counter, previousMatch⟩ :: rest.filterMap Found.details := rfl

theorem Scanned.describes {size : Nat} {history : Buffer Byte size}
    {historyOffset dataSize counter finish : Nat} {rounds : List Found}
    (scanned : Scanned limits61 id history historyOffset dataSize counter finish rounds)
    (inside : counter ≤ dataSize) :
    Describes history.cell historyOffset dataSize counter (rounds.filterMap Found.details) := by
  induction scanned with
  | stop _ => exact .done inside
  | round more here _ ih =>
    cases here with
    | literal =>
      have tail := ih (by simp only [Found.advance]; omega)
      exact tail.widen (Nat.le_add_right _ _)
    | @matched previousMatch lom earlier long reaches _ same =>
      have tail := ih (by simp only [Found.advance, id_eq]; omega)
      rw [filterMap_matched]
      exact .cons (Nat.le_refl _) long earlier same tail

theorem emitAll_details (rounds : List Found) (stream : List Byte)
    (room : stream.length + (rounds.filterMap Found.details).length * 8 ≤ 65536) :
    emitAll emitDetails rounds stream =
      .ok (stream ++ detailsBytes (rounds.filterMap Found.details)) := by
  induction rounds generalizing stream with
  | nil => simp [emitAll, detailsBytes]
  | cons found rest ih =>
    cases found with
    | literal value =>
      exact ih stream room
    | matched counter offset previousMatch lengthOfMatch =>
      rw [filterMap_matched, List.length_cons] at room
      have here : stream.length + 8 ≤ 65536 := by omega
      simp only [emitAll, emitDetails, here, if_true]
      rw [ih _ (by rw [List.length_append, MatchDetails.length_bytes]; omega), List.append_assoc]
      rfl

section Search

variable {size historyOffset dataSize : Nat} {history : Buffer Byte size}

/-- What the search lists describes the packet, and can be taken back. -/
theorem findMatch61_run (long : minimumMatchLength61 ≤ dataSize)
    (short : dataSize ≤ maxDataBlockSize61)
    (room : historyOffset + dataSize + minimumMatchLength61 ≤ size + 2)
    {manager : HashTableManager} (below : manager.Below (max 1 historyOffset)) :
    ∃ manager' details, findMatch61 history historyOffset dataSize manager =
        .ok (manager', detailsBytes details) ∧
      Describes history.cell historyOffset dataSize 0 details ∧
      manager'.Below (historyOffset + dataSize) ∧ manager'.Undoes manager.table := by
  have ready : SearchRoom limits61 id size historyOffset dataSize := by
    refine ⟨by decide, ?_, room, fun _ => .inl rfl⟩
    intro longest found
    cases found
    decide
  have cleared : manager.clearUndoHistory.Below (max 1 historyOffset) := below.congr rfl
  have undoes := HashTableManager.undoes_clear manager
  have started : ∃ counter manager', updateFirst limits61 history
        (if historyOffset = 0 then minimumMatchLength61 - 1 else 0) manager.clearUndoHistory =
        .ok manager' ∧
      (if historyOffset = 0 then minimumMatchLength61 - 1 else 0) = counter ∧
      0 < historyOffset + counter ∧ counter ≤ dataSize ∧
      manager'.Below (historyOffset + counter) ∧ manager'.Undoes manager.table := by
    simp only [minimumMatchLength61] at long room
    by_cases front : historyOffset = 0
    · obtain ⟨manager', seeded, below', undoes'⟩ := updateFirst_run limits61 history
        (show 8 + 9 ≤ size + 1 by omega) (cleared.mono (show max 1 historyOffset ≤ 8 by omega))
        undoes
      refine ⟨8, manager', ?_, ?_, by omega, by omega, below'.mono (by omega), undoes'⟩
      · rw [if_pos front]
        exact seeded
      · rw [if_pos front]
        rfl
    · refine ⟨0, manager.clearUndoHistory, ?_, if_neg front, by omega, by omega,
        cleared.mono (by omega), undoes⟩
      rw [if_neg front]
      rfl
  obtain ⟨counter, seededManager, seeded, isCounter, positive, inside, below', undoes'⟩ := started
  obtain ⟨rounds, finish, manager', scanned, reached, undoes'', reacts⟩ :=
    scan_run history ready dataSize counter (by omega) positive seededManager below' undoes'
  have describes := scanned.describes inside
  have few := describes.length_le
  simp only [maxDataBlockSize61, Nat.reduceSub] at short
  have listed := emitAll_details rounds [] (by simp only [List.length_nil]; omega)
  have run := reacts emitDetails []
  rw [listed] at run
  have stopped := scanned.finish_le ready inside
  refine ⟨manager', rounds.filterMap Found.details, ?_, describes.widen (Nat.zero_le _),
    reached.mono (by omega), undoes''⟩
  rw [isCounter] at seeded
  simp only [findMatch61, Nat.not_lt.mpr long, if_false, isCounter, seeded, ok_bind, run,
    List.nil_append, pure_ok]

end Search

section Write

variable {text : Nat → Byte} {data : List Byte} {historyOffset current : Nat}
  {details : List MatchDetails}

private theorem read_head {dataSize : Nat} {head : MatchDetails}
    (describes : Describes text historyOffset dataSize current (head :: details))
    (small : dataSize < 2 ^ 16) (near : historyOffset + dataSize < 2 ^ 32) (rest : List Byte) :
    MatchDetails.read (detailsBytes (head :: details) ++ rest) =
      .ok (head, detailsBytes details ++ rest) := by
  cases describes with
  | cons forward long earlier same tail =>
    have inside := tail.current_le
    rw [detailsBytes, List.flatMap_cons, List.append_assoc]
    exact MatchDetails.read_bytes (by omega) (by omega) (by omega) _

private theorem take_drop (data : List Byte) {start finish : Nat} (forward : start ≤ finish)
    (inside : finish ≤ data.length) :
    ((data.take finish).drop start).length = finish - start ∧
      data.drop start = (data.take finish).drop start ++ data.drop finish := by
  refine ⟨by rw [List.length_drop, List.length_take]; omega, ?_⟩
  have reaches : start ≤ (data.take finish).length := by
    rw [List.length_take]
    omega
  rw [← List.drop_append_of_le_length reaches, List.take_append_drop]

theorem outCopyBytes_of_le {out bytes : List Byte}
    (room : out.length + bytes.length ≤ outputBufferSize61) :
    outCopyBytes out bytes = .ok (out ++ bytes) := if_pos room

theorem copyLiterals_run (small : data.length < 2 ^ 16)
    (near : historyOffset + data.length < 2 ^ 32) (out : List Byte)
    (describes : Describes text historyOffset data.length current details)
    (room : out.length + data.length ≤ outputBufferSize61 + current) :
    ∃ current' out', copyLiterals data details.length current (detailsBytes details) out =
        .ok (current', out') ∧
      current' ≤ data.length ∧ out' ++ data.drop current' = out ++ gaps data current details ∧
      out'.length + data.length ≤ outputBufferSize61 + current' := by
  induction details generalizing current out with
  | nil => exact ⟨current, out, rfl, describes.current_le, rfl, room⟩
  | cons head rest ih =>
    have read := read_head describes small near []
    rw [List.append_nil, List.append_nil] at read
    cases describes with
    | cons forward long earlier same tail =>
      have inside := tail.current_le
      obtain ⟨length, split⟩ := take_drop data forward (by omega)
      rw [List.length_cons, copyLiterals, read, ok_bind]
      by_cases gap : current < head.matchOutputOffset
      · have wraps : (head.matchOutputOffset + head.matchLength) % 2 ^ 16 =
            head.matchOutputOffset + head.matchLength := Nat.mod_eq_of_lt (by omega)
        simp only [gap, if_true, split, inBytes_append length, ok_bind, wraps]
        rw [outCopyBytes_of_le (by omega), ok_bind]
        obtain ⟨current', out', run, bounded, spelled, room'⟩ := ih
          (out ++ (data.take head.matchOutputOffset).drop current) tail
          (by rw [List.length_append, length]; omega)
        exact ⟨current', out', run, bounded, by rw [spelled, gaps, List.append_assoc], room'⟩
      · have level : current = head.matchOutputOffset := by omega
        have wraps : (current + head.matchLength) % 2 ^ 16 =
            head.matchOutputOffset + head.matchLength := by
          rw [Nat.mod_eq_of_lt (by omega), level]
        have nothing : (data.take head.matchOutputOffset).drop current = [] := by
          apply List.drop_of_length_le
          rw [List.length_take]
          omega
        simp only [gap, if_false, wraps]
        obtain ⟨current', out', run, bounded, spelled, room'⟩ := ih out tail (by omega)
        exact ⟨current', out', run, bounded, by rw [spelled, gaps, nothing, List.nil_append],
          room'⟩

/-- What level 1 writes for matches that describe a packet. -/
def level1Bytes (data : List Byte) (details : List MatchDetails) : List Byte :=
  leBytes 2 details.length ++ detailsBytes details ++ gaps data 0 details

theorem writeLevel1_run (small : data.length ≤ maxDataBlockSize61)
    (near : historyOffset + data.length < 2 ^ 32)
    (describes : Describes text historyOffset data.length 0 details)
    (room : details.length * 8 ≤ 1024 * 32) :
    writeLevel1 data (detailsBytes details) = .ok (level1Bytes data details) := by
  simp only [maxDataBlockSize61, Nat.reduceSub] at small
  have count : (detailsBytes details).length / 8 = details.length := by
    rw [length_detailsBytes]
    omega
  have front : ([] : List Byte).length +
      (leBytes 2 details.length ++ detailsBytes details).length ≤ outputBufferSize61 := by
    simp only [List.length_nil, List.length_append, length_leBytes, length_detailsBytes,
      outputBufferSize61]
    omega
  obtain ⟨current, out, run, bounded, spelled, room'⟩ := copyLiterals_run (by omega) near
    (leBytes 2 details.length ++ detailsBytes details) describes (by
      simp only [List.length_append, length_leBytes, length_detailsBytes, outputBufferSize61,
        maxDataBlockSize61]
      omega)
  rw [writeLevel1, count, outCopyBytes_of_le front, ok_bind, List.nil_append, run, ok_bind]
  simp only [level1Bytes, ← spelled]
  by_cases more : current < data.length
  · rw [if_pos more, outCopyBytes_of_le (by rw [List.length_drop]; omega)]
  · rw [if_neg more, List.drop_of_length_le (by omega), List.append_nil, pure_ok]

end Write

section Rebuild

variable {text : Nat → Byte} {data : List Byte} {historyOffset current : Nat}
  {details : List MatchDetails}

theorem agreeBelow_splice {size position : Nat} {buffer : Buffer Byte size} {values : List Byte}
    (agree : AgreeBelow buffer.cell text position)
    (spelled : ∀ index (bounded : index < values.length), text (position + index) = values[index]) :
    AgreeBelow (buffer.splice position values).cell text (position + values.length) := by
  intro index bounded
  by_cases before : index < position
  · rw [Buffer.cell_splice_before _ _ _ before]
    exact agree index before
  · obtain ⟨rest, rfl⟩ := Nat.exists_eq_add_of_le (Nat.le_of_not_lt before)
    have inside : rest < values.length := by omega
    rw [Buffer.cell_splice_inside _ _ _ inside, spelled rest inside]

/-- The text from the offset of the history on is the packet. -/
def SpellsAt (text : Nat → Byte) (historyOffset : Nat) (data : List Byte) : Prop :=
  ∀ index (bounded : index < data.length), text (historyOffset + index) = data[index]

private theorem spelled_part (spells : SpellsAt text historyOffset data) (start finish : Nat)
    (index : Nat) (bounded : index < ((data.take finish).drop start).length) :
    text (historyOffset + start + index) = ((data.take finish).drop start)[index] := by
  rw [List.length_drop, List.length_take] at bounded
  rw [List.getElem_drop, List.getElem_take, Nat.add_assoc]
  exact spells _ (by omega)

variable {history : Buffer Byte historyBufferLength61}

/-- One match with the literals before it rebuilds the text up to its end. -/
private theorem copyDetails_run (spells : SpellsAt text historyOffset data)
    (room : historyOffset + data.length ≤ historyBufferLength61) (small : data.length < 2 ^ 16)
    {head : MatchDetails} (literals : List Byte)
    (describes : Describes text historyOffset data.length current (head :: details))
    (agree : AgreeBelow history.cell text (historyOffset + current)) :
    ∃ history', Rebuild.copyDetails historyOffset head
        ⟨history, (data.take head.matchOutputOffset).drop current ++ literals, current⟩ =
        .ok ⟨history', literals, head.matchOutputOffset + head.matchLength⟩ ∧
      AgreeBelow history'.cell text
        (historyOffset + (head.matchOutputOffset + head.matchLength)) := by
  cases describes with
  | cons forward long earlier same tail =>
    have inside := tail.current_le
    obtain ⟨length, _⟩ := take_drop data forward (by omega)
    have filled : ∃ history', Rebuild.fillTo historyOffset head.matchOutputOffset
          ⟨history, (data.take head.matchOutputOffset).drop current ++ literals, current⟩ =
          .ok ⟨history', literals, head.matchOutputOffset⟩ ∧
        AgreeBelow history'.cell text (historyOffset + head.matchOutputOffset) := by
      unfold Rebuild.fillTo
      by_cases gap : current < head.matchOutputOffset
      · refine ⟨history.splice (historyOffset + current)
          ((data.take head.matchOutputOffset).drop current), ?_, ?_⟩
        · simp only [gap, if_true]
          rw [checkThrow_of_le _ (by rw [List.length_append, length]; omega), ok_bind,
            inBytes_append length, ok_bind, Buffer.storeBlock_of_le _ (by rw [length]; omega),
            ok_bind, pure_ok]
        · have next := agreeBelow_splice agree (spelled_part spells current head.matchOutputOffset)
          rw [length] at next
          have total : historyOffset + current + (head.matchOutputOffset - current) =
              historyOffset + head.matchOutputOffset := by omega
          rw [total] at next
          exact next
      · have level : current = head.matchOutputOffset := by omega
        have nothing : (data.take head.matchOutputOffset).drop current = [] := by
          apply List.drop_of_length_le
          rw [List.length_take]
          omega
        subst level
        refine ⟨history, ?_, agree⟩
        simp only [gap, if_false, nothing, List.nil_append, pure_ok]
    obtain ⟨history', run, agree'⟩ := filled
    have copied := copyForward_agree head.matchLength earlier
      (fun index bounded => (same index bounded).symm) agree'
    refine ⟨⟨copyForward head.matchLength head.matchHistoryOffset
      (historyOffset + head.matchOutputOffset) history'.cell⟩, ?_, ?_⟩
    · have wraps : (head.matchOutputOffset + head.matchLength) % 2 ^ 16 =
          head.matchOutputOffset + head.matchLength := Nat.mod_eq_of_lt (by omega)
      rw [Rebuild.copyDetails, run, ok_bind,
        copyMatch_run _ _ _ _ (Nat.le_of_lt earlier) (by omega), ok_bind, pure_ok, wraps]
    · rw [← Nat.add_assoc]
      exact copied

/-- All matches, and the literals that remain, rebuild the whole packet. -/
private theorem copyAll_run (spells : SpellsAt text historyOffset data)
    (room : historyOffset + data.length ≤ historyBufferLength61) (small : data.length < 2 ^ 16)
    (describes : Describes text historyOffset data.length current details)
    (agree : AgreeBelow history.cell text (historyOffset + current)) :
    ∃ rebuild, Rebuild.copyAll historyOffset details.length (detailsBytes details)
        ⟨history, gaps data current details, current⟩ = .ok rebuild ∧
      rebuild.literals = data.drop rebuild.currentOutputOffset ∧
      rebuild.currentOutputOffset ≤ data.length ∧
      AgreeBelow rebuild.history.cell text (historyOffset + rebuild.currentOutputOffset) := by
  induction details generalizing current history with
  | nil => exact ⟨_, rfl, rfl, describes.current_le, agree⟩
  | cons head rest ih =>
    have near : historyOffset + data.length < 2 ^ 32 := by
      simp only [historyBufferLength61] at room
      omega
    have read := read_head describes small near []
    rw [List.append_nil, List.append_nil] at read
    have enough : 8 ≤ (detailsBytes (head :: rest)).length := by
      rw [length_detailsBytes, List.length_cons]
      omega
    obtain ⟨history', run, agree'⟩ := copyDetails_run spells room small
      (gaps data (head.matchOutputOffset + head.matchLength) rest) describes agree
    cases describes with
    | cons _ _ _ _ tail =>
      rw [List.length_cons, Rebuild.copyAll, checkThrow_of_le _ enough, ok_bind, read, ok_bind,
        gaps]
      simp only [run, ok_bind]
      exact ih tail agree'

private theorem rebuild_run (spells : SpellsAt text historyOffset data)
    (room : historyOffset + data.length ≤ historyBufferLength61) (small : data.length < 2 ^ 16)
    (describes : Describes text historyOffset data.length 0 details)
    (agree : AgreeBelow history.cell text historyOffset) :
    ∃ rebuild history', Rebuild.copyAll historyOffset details.length (detailsBytes details)
        ⟨history, gaps data 0 details, 0⟩ = .ok rebuild ∧
      rebuild.copyRemaining historyOffset = .ok ⟨history', [], data.length⟩ ∧
      AgreeBelow history'.cell text (historyOffset + data.length) := by
  obtain ⟨rebuild, run, left, inside, agree'⟩ :=
    copyAll_run spells room small describes agree
  have count : rebuild.literals.length = data.length - rebuild.currentOutputOffset := by
    rw [left, List.length_drop]
  refine ⟨rebuild, rebuild.history.splice (historyOffset + rebuild.currentOutputOffset)
    rebuild.literals, run, ?_, ?_⟩
  · have total : (rebuild.currentOutputOffset + rebuild.literals.length) % 2 ^ 16 =
        data.length := by
      omega
    rw [Rebuild.copyRemaining, Buffer.storeBlock_of_le _ (by omega), ok_bind, pure_ok, total]
  · have spelled : ∀ index (bounded : index < rebuild.literals.length),
        text (historyOffset + rebuild.currentOutputOffset + index) = rebuild.literals[index] := by
      intro index bounded
      rw [List.getElem_of_eq left, List.getElem_drop, Nat.add_assoc]
      exact spells _ (by omega)
    have whole := agreeBelow_splice agree' spelled
    have total : historyOffset + rebuild.currentOutputOffset + rebuild.literals.length =
        historyOffset + data.length := by omega
    rw [total] at whole
    exact whole

/-- Level 1 data is decompressed to the packet it was written for. -/
theorem decompressLevel1_run (spells : SpellsAt text historyOffset data)
    (room : historyOffset + data.length ≤ historyBufferLength61) (small : data.length < 2 ^ 16)
    (describes : Describes text historyOffset data.length 0 details)
    (agree : AgreeBelow history.cell text historyOffset) :
    ∃ history', decompressLevel1 true (level1Bytes data details) history historyOffset =
        .ok (history', data.length) ∧
      AgreeBelow history'.cell text (historyOffset + data.length) := by
  obtain ⟨rebuild, history', run, remaining, agree'⟩ :=
    rebuild_run spells room small describes agree
  have few := describes.length_le
  refine ⟨history', ?_, agree'⟩
  have count : details.length % 2 ^ (8 * 2) = details.length := Nat.mod_eq_of_lt (by omega)
  have prepared : prepareCompressedData true (level1Bytes data details) =
      .ok (details.length, detailsBytes details, gaps data 0 details) := by
    simp only [prepareCompressedData, level1Bytes, List.append_assoc, if_true]
    rw [checkThrow_of_le _ (by rw [List.length_append, length_leBytes]; omega), ok_bind,
      inLe_append, ok_bind, count]
    rw [checkThrow_of_le _ (by rw [List.length_append, length_detailsBytes]; omega), ok_bind,
      inBytes_append (length_detailsBytes details), ok_bind, pure_ok]
  rw [decompressLevel1, prepared, ok_bind]
  simp only
  rw [run, ok_bind, remaining, ok_bind, pure_ok]

theorem decompressLevel1_plain (spells : SpellsAt text historyOffset data)
    (room : historyOffset + data.length ≤ historyBufferLength61) (small : data.length < 2 ^ 16)
    (agree : AgreeBelow history.cell text historyOffset) :
    ∃ history', decompressLevel1 false data history historyOffset = .ok (history', data.length) ∧
      AgreeBelow history'.cell text (historyOffset + data.length) := by
  obtain ⟨rebuild, history', run, remaining, agree'⟩ :=
    rebuild_run spells room small (.done (Nat.zero_le _)) agree
  refine ⟨history', ?_, agree'⟩
  simp only [List.length_nil, detailsBytes, List.flatMap_nil, gaps, List.drop_zero] at run
  simp only [decompressLevel1, prepareCompressedData, Bool.false_eq_true, if_false, pure_ok,
    ok_bind, run, remaining]

end Rebuild

end Redemption.Mppc
