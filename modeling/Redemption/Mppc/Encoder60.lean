import Redemption.Foundation.Bits
import Redemption.Mppc.BitWriter
import Redemption.Mppc.HashTable
import Redemption.Mppc.MatchFinder
import Redemption.Mppc.Tables60

/-! `compress_60`. -/
namespace Redemption.Mppc

open Redemption.Foundation

/-- `RDP_60_HIST_BUF_LEN`. -/
def histBufLen60 : Nat := 65536

/-- `RDP_60_HIST_BUF_MIDDLE`. -/
def histBufMiddle60 : Nat := histBufLen60 / 2

def limits60 : MatchLimits := ⟨3, some 514⟩

/-- The four cached offsets; the decompressor's array has four more that are never used. -/
abbrev OffsetCache := List Nat

namespace OffsetCache

def empty : OffsetCache := [0, 0, 0, 0]

/-- `cache_add`. -/
def add (cache : OffsetCache) (copyOffset : Nat) : OffsetCache := (copyOffset :: cache).take 4

/-- `cache_swap`. -/
def swap (cache : OffsetCache) (index : Nat) : OffsetCache :=
  (cache.set 0 (cache.getD index 0)).set index (cache.getD 0 0)

/-- `cache_find`. -/
def find (cache : OffsetCache) (copyOffset : Nat) : Option Nat := cache.findIdx? (· == copyOffset)

/-- What both sides do with the entry of a cached offset. -/
def use (cache : OffsetCache) (index : Nat) : OffsetCache :=
  if index ≠ 0 then cache.swap index else cache

end OffsetCache

namespace Output

variable {capacity : Nat}

/-- `insert_n_bits_60`: every round fills up the current byte or ends. -/
def insertNBits60 : Nat → Nat → Nat → Output capacity → Writing capacity
  | 0, _, _, out => .ok out
  | fuel + 1, n, data, out =>
    if n = 0 then .ok out
    else
      match out.orAssign (data <<< (8 - out.bitsLeft)) with
      | .error fault => .error fault
      | .ok written =>
        if n < out.bitsLeft then .ok { written with bitsLeft := out.bitsLeft - n }
        else insertNBits60 fuel (n - out.bitsLeft) (data >>> out.bitsLeft)
          { written.advance with bitsLeft := 8 }

def insertAll60 : List (Nat × Nat) → Output capacity → Writing capacity
  | [], out => .ok out
  | (n, data) :: rest, out =>
    match insertNBits60 n n data out with
    | .error fault => .error fault
    | .ok out => insertAll60 rest out

end Output

section Codes

/-- The width and the bits of a symbol. -/
def codeAt (widths codes : List Nat) (symbol : Nat) : Checked ErrorId (Nat × Nat) := do
  let width ← tableAt widths symbol
  let code ← tableAt codes symbol
  return (width, code)

def lecCode : Nat → Checked ErrorId (Nat × Nat) := codeAt huffLenLEC huffCodeLEC

def lomCode : Nat → Checked ErrorId (Nat × Nat) := codeAt huffLenLOM huffCodeLOM

/-- A code and, where its symbol stands for several values, the bits that tell them apart. -/
def withExtraBits (code : Nat × Nat) (extraBitsLength value : Nat) : List (Nat × Nat) :=
  if extraBitsLength ≠ 0 then [code, (extraBitsLength, value &&& 1 <<< extraBitsLength - 1)]
  else [code]

def lomInsertions (lom : Nat) : Checked ErrorId (List (Nat × Nat)) := do
  let index ← indexOfEqualOrSmallerEntry lom lomBaseLUT
  let code ← lomCode index
  let extraBitsLength ← tableAt lomBitsLUT index
  return withExtraBits code extraBitsLength (lom - 2)

def offsetInsertions (copyOffset : Nat) : Checked ErrorId (List (Nat × Nat)) := do
  let index ← indexOfEqualOrSmallerEntry (copyOffset + 1) copyOffsetBaseLUT
  let code ← lecCode (index + 257)
  let extraBitsLength ← tableAt copyOffsetBitsLUT index
  return withExtraBits code extraBitsLength copyOffset

/-- The code for an offset of a match, cached or not. -/
def cachedInsertions (cache : OffsetCache) (copyOffset : Nat) :
    Checked ErrorId (OffsetCache × List (Nat × Nat)) :=
  match cache.find copyOffset with
  | some index => do
    let code ← lecCode (index + 289)
    return (cache.use index, [code])
  | none => do
    let insertions ← offsetInsertions copyOffset
    return (cache.add copyOffset, insertions)

/-- The insertions for one token, and the cache behind it. -/
def tokenInsertions60 (cache : OffsetCache) :
    Lz.Token Byte → Checked ErrorId (OffsetCache × List (Nat × Nat))
  | .literal value => do
    let code ← lecCode value.toNat
    return (cache, [code])
  | .copy copyOffset lom => do
    let (cache, offset) ← cachedInsertions cache copyOffset
    let length ← lomInsertions lom
    return (cache, offset ++ length)

end Codes

/-- The fields of `rdp_mppc_60_enc`. -/
structure Encoder60 where
  historyBuffer : Buffer Byte histBufLen60
  historyOffset : Nat
  offsetCache : OffsetCache
  outputBuffer : Buffer Byte histBufLen60
  bytesInOpb : Nat
  flags : Flags
  flagsHold : Flags
  hashTabMgr : HashTableManager

namespace Encoder60

/-- What the encoding of a packet changes besides the hash table. -/
abbrev Coding := OffsetCache × Output histBufLen60

def fresh : Encoder60 where
  historyBuffer := .filled 0
  historyOffset := 0
  offsetCache := .empty
  outputBuffer := .filled 0
  bytesInOpb := 0
  flags := 0
  flagsHold := packetFlushed
  hashTabMgr := .empty

def emitToken (token : Lz.Token Byte) (coding : Coding) :
    Except (MppcFault × Coding) Coding :=
  match tokenInsertions60 coding.1 token with
  | .error fault => .error (fault, coding)
  | .ok (cache, insertions) =>
    match coding.2.insertAll60 insertions with
    | .error (fault, out) => .error (fault, (cache, out))
    | .ok out => .ok (cache, out)

def emitTokens : List (Lz.Token Byte) → Coding → Except (MppcFault × Coding) Coding
  | [], coding => .ok coding
  | token :: rest, coding =>
    match emitToken token coding with
    | .error fault => .error fault
    | .ok coding => emitTokens rest coding

def emit : Emit Coding := fun found coding => emitToken found.token coding

/-- A match as long as the packet is shortened. -/
def shorten (dataSize lom : Nat) : Nat := if lom = dataSize then lom - 1 else lom

/-- An error stops a run: nothing catches it. -/
def run {α : Type} : Except (MppcFault × α) α → Checked ErrorId α
  | .error (fault, _) => .error fault
  | .ok value => .ok value

/-- The first bytes of the history are literals: nothing lies before them. -/
def encodeStart (enc : Encoder60) (coding : Coding) :
    Checked ErrorId (Nat × HashTableManager × Coding) :=
  if enc.historyOffset = 0 then do
    let ctr := limits60.minimumMatchLength - 1
    let bytes ← enc.historyBuffer.loadBlock enc.historyOffset ctr
    let coding ← run (emitTokens (bytes.map .literal) coding)
    let manager ← updateFirst limits60 enc.historyBuffer ctr enc.hashTabMgr
    return (ctr, manager, coding)
  else .ok (0, enc.hashTabMgr, coding)

/-- First literals, matches and literals, last literals, and the end of stream marker. -/
def encodePacket (enc : Encoder60) (data : List Byte) (coding : Coding) :
    Checked ErrorId (HashTableManager × Coding) := do
  let (ctr, manager, coding) ← enc.encodeStart coding
  match scan limits60 (shorten data.length) emit enc.historyBuffer enc.historyOffset data.length
    data.length ctr manager coding with
  | .error (fault, _) => .error fault
  | .ok (ctr, manager, coding) =>
    let (cache, out) ← run (emitTokens ((data.drop ctr).map .literal) coding)
    let code ← lecCode 256
    match out.insertAll60 [code] with
    | .error (fault, _) => .error fault
    | .ok out => return (manager, cache, out)

/-- The second half of the history is moved to its front. -/
def slide (enc : Encoder60) : Checked ErrorId Encoder60 :=
  if enc.historyOffset < histBufMiddle60 then .error .outOfBounds
  else do
    let recent ← enc.historyBuffer.loadBlock (enc.historyOffset - histBufMiddle60) histBufMiddle60
    let historyBuffer ← enc.historyBuffer.storeBlock 0 recent
    return { enc with
      historyBuffer
      historyOffset := histBufMiddle60
      flagsHold := enc.flagsHold ||| packetAtFront
      hashTabMgr := enc.hashTabMgr.reset }

def rewind (enc : Encoder60) (dataSize : Nat) : Checked ErrorId Encoder60 :=
  if histBufLen60 ≤ enc.historyOffset + dataSize + 1 then enc.slide else .ok enc

/-- What `compress_60` does to its state before it encodes. -/
def prepare (enc : Encoder60) (data : List Byte) : Checked ErrorId Encoder60 := do
  let enc ← { enc with outputBuffer := .filled 0 }.rewind data.length
  let historyBuffer ← enc.historyBuffer.storeBlock enc.historyOffset data
  return { enc with historyBuffer }

/-- The packet is not worth compressing: take back what it did, or start anew. -/
def giveUp (enc : Encoder60) (manager : HashTableManager) (out : Output histBufLen60) :
    Encoder60 :=
  let enc := { enc with outputBuffer := out.outputBuffer }
  match manager.undoLastChanges with
  | some manager => { enc with hashTabMgr := manager }
  | none =>
    { enc with
      historyBuffer := .filled 0
      historyOffset := 0
      offsetCache := .empty
      flagsHold := (enc.flagsHold &&& ~~~packetAtFront) ||| packetFlushed
      hashTabMgr := manager.reset }

def succeed (enc : Encoder60) (data : List Byte) (manager : HashTableManager)
    (coding : Coding) : Encoder60 :=
  { enc with
    outputBuffer := coding.2.outputBuffer
    offsetCache := coding.1
    hashTabMgr := manager
    historyOffset := (enc.historyOffset + data.length) % 2 ^ 16
    bytesInOpb := coding.2.byteCount
    flags := enc.flags ||| packetCompressed ||| enc.flagsHold
    flagsHold := 0 }

/-- The state that `compress_60` starts from. -/
def begin (enc : Encoder60) : Encoder60 :=
  { enc with
    flags := packetComprTypeRdp6
    hashTabMgr := enc.hashTabMgr.clearUndoHistory }

/-- `compressedType` and the bytes of `get_compressed_data`, when there are any. -/
def result (enc : Encoder60) : Checked ErrorId (Option (Flags × List Byte)) :=
  if enc.flags.has packetCompressed then do
    let bytes ← enc.outputBuffer.loadBlock 0 enc.bytesInOpb
    return some (enc.flags, bytes)
  else return none

end Encoder60

/-- `compress_60`. -/
def compress60 (enc : Encoder60) (uncompressedData : List Byte) : Checked ErrorId Encoder60 :=
  let enc := enc.begin
  if uncompressedData.length = 0 ∨ histBufLen60 - 1 ≤ uncompressedData.length then .ok enc
  else do
    let enc ← enc.prepare uncompressedData
    let (manager, coding) ← enc.encodePacket uncompressedData
      (enc.offsetCache, .start enc.outputBuffer)
    if uncompressedData.length ≤ coding.2.opbIndex then return enc.giveUp manager coding.2
    else return enc.succeed uncompressedData manager coding

/-! The bit writer of RDP 6.0 appends exactly the bits it is given, the lowest first, as
long as its 16-bit index does not wrap. -/

namespace Output

variable {capacity : Nat}

/-- The output holds exactly these bits, and nothing behind them. -/
structure Packs60 (out : Output capacity) (bits : List Bool) : Prop where
  positive : 0 < out.bitsLeft
  atMost : out.bitsLeft ≤ 8
  length : bits.length + out.bitsLeft = 8 * out.opbIndex + 8
  written : ∀ index < capacity, ∀ bit < 8,
    (out.outputBuffer.cell index).getLsbD bit = bits[8 * index + bit]?.getD false

theorem packs60_start {buffer : Buffer Byte capacity} (clear : ∀ index, buffer.cell index = 0) :
    Packs60 (start buffer) [] :=
  ⟨Nat.succ_pos 7, Nat.le_refl 8, rfl, fun index _ bit _ => by simp [start, clear index]⟩

variable {out : Output capacity}

/-- One `|=` puts as many bits as there is room for behind the others. -/
private theorem orAssign60_run {bits : List Bool}
    (packs : Packs60 out bits) (bounded : out.opbIndex < capacity) {n data count : Nat}
    (small : data < 2 ^ n) (isCount : count = min out.bitsLeft n) :
    ∃ buffer, out.orAssign (data <<< (8 - out.bitsLeft)) =
        .ok { out with outputBuffer := buffer } ∧
      ∀ index < capacity, ∀ bit < 8,
        (buffer.cell index).getLsbD bit = (bits ++ lsbBits count data)[8 * index + bit]?.getD false := by
  have atMost := packs.atMost
  have length := packs.length
  refine ⟨out.outputBuffer.set out.opbIndex (BitVec.ofNat 8
    ((out.outputBuffer.cell out.opbIndex).toNat ||| data <<< (8 - out.bitsLeft))), ?_, ?_⟩
  · simp only [orAssign, assign, Buffer.load_of_lt _ bounded, Buffer.store_of_lt _ bounded]
  · intro index inside bit low
    have old := packs.written index inside bit low
    rcases Nat.lt_trichotomy index out.opbIndex with before | here | after
    · rw [Buffer.cell_set_other _ _ (by omega), old, List.getElem?_append_left (by omega)]
    · subst here
      rw [Buffer.cell_set_same, BitVec.getLsbD_ofNat, Nat.testBit_or, BitVec.testBit_toNat, old,
        Nat.testBit_shiftLeft]
      by_cases front : bit < 8 - out.bitsLeft
      · rw [List.getElem?_append_left (by omega)]
        simp [low, Nat.not_le.mpr front]
      · have ended : bits[8 * out.opbIndex + bit]? = none := List.getElem?_eq_none (by omega)
        have place : 8 * out.opbIndex + bit - bits.length = bit - (8 - out.bitsLeft) := by omega
        rw [List.getElem?_append_right (by omega), ended, place]
        by_cases new : bit - (8 - out.bitsLeft) < count
        · rw [getElem?_lsbBits _ new]
          simp [low, Nat.le_of_not_lt front]
        · have beyond : data.testBit (bit - (8 - out.bitsLeft)) = false := by
            apply Nat.testBit_lt_two_pow
            exact Nat.lt_of_lt_of_le small (Nat.pow_le_pow_right (by decide) (by omega))
          rw [List.getElem?_eq_none (by simpa using Nat.le_of_not_lt new), beyond]
          simp
    · have ended : bits[8 * index + bit]? = none := List.getElem?_eq_none (by omega)
      rw [Buffer.cell_set_other _ _ (by omega), old, ended,
        List.getElem?_eq_none (by rw [List.length_append, length_lsbBits]; omega)]

theorem insertNBits60_run (fuel : Nat) {bits : List Bool}
    (packs : Packs60 out bits) {n data : Nat} (small : data < 2 ^ n) (enough : n ≤ fuel)
    (room : (bits.length + n) / 8 < capacity) (index : (bits.length + n) / 8 < 2 ^ 16) :
    ∃ out', insertNBits60 fuel n data out = .ok out' ∧ Packs60 out' (bits ++ lsbBits n data) := by
  induction fuel generalizing out bits n data with
  | zero =>
    have none : n = 0 := by omega
    subst none
    refine ⟨out, rfl, ?_⟩
    simpa [lsbBits] using packs
  | succ fuel ih =>
    have positive := packs.positive
    have atMost := packs.atMost
    have length := packs.length
    unfold insertNBits60
    by_cases done : n = 0
    · subst done
      refine ⟨out, if_pos rfl, ?_⟩
      simpa [lsbBits] using packs
    · obtain ⟨buffer, assigned, written⟩ :=
        orAssign60_run packs (by omega) small (rfl : min out.bitsLeft n = _)
      simp only [done, if_false, assigned]
      by_cases within : n < out.bitsLeft
      · rw [if_pos within]
        rw [Nat.min_eq_right (Nat.le_of_lt within)] at written
        refine ⟨_, rfl, by simp only; omega, by simp only; omega, ?_, written⟩
        simp only [List.length_append, length_lsbBits]
        omega
      · rw [if_neg within]
        rw [Nat.min_eq_left (Nat.le_of_not_lt within)] at written
        have wraps : (out.opbIndex + 1) % 2 ^ 16 = out.opbIndex + 1 :=
          Nat.mod_eq_of_lt (by omega)
        have filled : Packs60 (⟨buffer, 8, out.opbIndex + 1⟩ : Output capacity)
            (bits ++ lsbBits out.bitsLeft data) := by
          refine ⟨Nat.succ_pos 7, Nat.le_refl 8, ?_, written⟩
          simp only [List.length_append, length_lsbBits]
          omega
        have rest : data >>> out.bitsLeft < 2 ^ (n - out.bitsLeft) := by
          rw [Nat.shiftRight_eq_div_pow]
          apply Nat.div_lt_of_lt_mul
          rw [← Nat.pow_add, Nat.add_sub_cancel' (by omega)]
          exact small
        obtain ⟨out', run, packs'⟩ := ih filled rest (by omega)
          (by simp only [List.length_append, length_lsbBits]; omega)
          (by simp only [List.length_append, length_lsbBits]; omega)
        refine ⟨out', ?_, ?_⟩
        · simp only [advance, wraps]
          exact run
        · have whole := lsbBits_add out.bitsLeft (n - out.bitsLeft) data
          rw [Nat.add_sub_cancel' (by omega)] at whole
          rw [whole, ← List.append_assoc]
          exact packs'

def insertedBits60 (insertions : List (Nat × Nat)) : List Bool :=
  insertions.flatMap fun insertion => lsbBits insertion.1 insertion.2

theorem insertedBits60_append (front back : List (Nat × Nat)) :
    insertedBits60 (front ++ back) = insertedBits60 front ++ insertedBits60 back :=
  List.flatMap_append

def FitsWidth (insertions : List (Nat × Nat)) : Prop :=
  ∀ insertion ∈ insertions, insertion.2 < 2 ^ insertion.1

theorem insertAll60_run {bits : List Bool} (packs : Packs60 out bits)
    {insertions : List (Nat × Nat)} (fits : FitsWidth insertions)
    (room : (bits.length + (insertedBits60 insertions).length) / 8 < capacity)
    (index : (bits.length + (insertedBits60 insertions).length) / 8 < 2 ^ 16) :
    ∃ out', insertAll60 insertions out = .ok out' ∧
      Packs60 out' (bits ++ insertedBits60 insertions) := by
  induction insertions generalizing out bits with
  | nil => exact ⟨out, rfl, by simpa [insertedBits60] using packs⟩
  | cons insertion rest ih =>
    simp only [insertedBits60, List.flatMap_cons, List.length_append, length_lsbBits]
      at room index
    obtain ⟨next, run, packs'⟩ := insertNBits60_run insertion.1 packs
      (fits insertion List.mem_cons_self) (Nat.le_refl _) (by omega) (by omega)
    obtain ⟨out', runRest, packs''⟩ := ih packs'
      (fun other member => fits other (List.mem_cons_of_mem _ member))
      (by simp only [insertedBits60, List.length_append, length_lsbBits]; omega)
      (by simp only [insertedBits60, List.length_append, length_lsbBits]; omega)
    refine ⟨out', ?_, ?_⟩
    · unfold insertAll60
      rw [run]
      exact runRest
    · simpa [insertedBits60, List.append_assoc] using packs''

/-- The bytes that a compressor sends, turned round, are the bits and a few zeros. -/
theorem Packs60.bytes {bits : List Bool} (packs : Packs60 out bits)
    (room : out.byteCount ≤ capacity) :
    ∃ padding < 8, bytesToBits ((out.outputBuffer.slice 0 out.byteCount).map transposeByte) =
      bits ++ List.replicate padding false := by
  have atMost := packs.atMost
  have length := packs.length
  have covers : bits.length ≤ 8 * out.byteCount ∧ 8 * out.byteCount < bits.length + 8 := by
    unfold byteCount
    split <;> omega
  refine ⟨8 * out.byteCount - bits.length, by omega, ?_⟩
  apply List.ext_getElem?
  intro index
  by_cases inside : index < 8 * out.byteCount
  · have parts : index = 8 * (index / 8) + index % 8 := by omega
    have low : index % 8 < 8 := Nat.mod_lt _ (by decide)
    have byte : index / 8 < ((out.outputBuffer.slice 0 out.byteCount).map transposeByte).length := by
      rw [List.length_map, Buffer.length_slice]
      omega
    have read := packs.written (index / 8) (by omega) (index % 8) low
    have spelled := getElem?_bytesToBits byte low
    rw [← parts] at read spelled
    rw [spelled, List.getElem_map, Buffer.getElem_slice, Nat.zero_add, transposeByte_eq,
      BitVec.getMsbD_reverse, read]
    by_cases early : index < bits.length
    · rw [List.getElem?_append_left early]
      simp [early]
    · rw [List.getElem?_append_right (by omega), List.getElem?_eq_none (by omega),
        List.getElem?_replicate, if_pos (by omega)]
      rfl
  · rw [List.getElem?_eq_none (by simp; omega), List.getElem?_eq_none (by simp; omega)]

end Output

end Redemption.Mppc
