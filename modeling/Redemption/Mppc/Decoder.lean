import Redemption.Foundation.Lz
import Redemption.Mppc.Format
import Redemption.Mppc.Window

/-! `decompress_40` and `decompress_50`. -/
namespace Redemption.Mppc

open Redemption.Foundation

variable {size : Nat}

/-- `while (lom > 0) *history_ptr++ = *src_ptr++`. -/
def copyMatch : Nat → Nat → Nat → Buffer Byte size → Checked ErrorId (Buffer Byte size)
  | 0, _, _, history => .ok history
  | lom + 1, source, target, history => do
    let byte ← history.load source
    let history ← history.store target byte
    copyMatch lom (source + 1) (target + 1) history

/-- The same, but only up to the end of the history: what is left of `lom`, and where. -/
def copyToEnd : Nat → Int → Nat → Buffer Byte size →
    Checked ErrorId (Nat × Nat × Buffer Byte size)
  | 0, _, target, history => .ok (0, target, history)
  | lom + 1, source, target, history =>
    if source ≤ (size : Int) - 1 then
      if source < 0 then .error .outOfBounds
      else do
        let byte ← history.load source.toNat
        let history ← history.store target byte
        copyToEnd lom (source + 1) (target + 1) history
    else .ok (lom + 1, target, history)

/-- A copy tuple; an offset that reaches before the history goes on at its end. -/
def copyTuple (history : Buffer Byte size) (historyPtr copyOffset lom : Nat) :
    Checked ErrorId (Buffer Byte size) :=
  if copyOffset ≤ historyPtr then copyMatch lom (historyPtr - copyOffset) historyPtr history
  else do
    let source : Int := (size : Int) - 1 - ((copyOffset : Int) - historyPtr) + 1
    let (lom, target, history) ← copyToEnd lom source historyPtr history
    copyMatch lom 0 target history

/-- What the decoding loop works on. -/
structure Progress (format : Format) where
  window : Window
  history : Buffer Byte format.histBufLen
  historyPtr : Nat

namespace Progress

variable {format : Format}

def literal (progress : Progress format) (byte : Byte) (count : Nat) :
    Checked ErrorId (Progress format) := do
  let history ← progress.history.store progress.historyPtr byte
  return ⟨(progress.window.consume count).refill id, history, progress.historyPtr + 1⟩

/-- The copy offset at the front of a window; without one nothing is consumed. -/
def readOffset (format : Format) (window : Window) : Nat × Window :=
  match MaskedCode.lookup OffsetRow.code format.offsetRows window.d32 with
  | none => (0, window)
  | some row =>
    let window := window.consume row.headerBits
    (((window.d32 >>> (32 - row.offsetBits)).toNat + row.base) % 2 ^ 16,
      window.consume row.offsetBits)

/-- The length of match at the front of a window; `lom` is zero between two matches. -/
def readLength (format : Format) (window : Window) : Nat × Window :=
  match MaskedCode.lookup LengthRow.code format.lengthRows window.d32 with
  | none => (0, window)
  | some row =>
    (((window.d32 >>> row.shift).toNat &&& row.and) + row.base, window.consume row.bits)

/-- One round of the loop. -/
def round (progress : Progress format) : Checked ErrorId (Progress format) :=
  let d32 := progress.window.d32
  if d32 &&& 0x80000000 = 0 then
    progress.literal ((d32 >>> 24).setWidth 8) 8
  else if d32 &&& 0xc0000000 = 0x80000000 then
    progress.literal (((d32 <<< 2 >>> 25) ||| 0x80).setWidth 8) 9
  else
    let (copyOffset, window) := readOffset format progress.window
    let window := window.refill id
    if copyOffset = 0 then .ok { progress with window }
    else do
      let (lom, window) := readLength format window
      let history ← copyTuple progress.history progress.historyPtr copyOffset lom
      return ⟨window.refill id, history, progress.historyPtr + lom⟩

/-- `while (bits_left >= 8)`: every round takes at least eight bits of the input. -/
def run : Nat → Progress format → Checked ErrorId (Progress format)
  | 0, progress => .ok progress
  | fuel + 1, progress =>
    if 8 ≤ progress.window.bitsLeft then do
      let progress ← progress.round
      progress.run fuel
    else .ok progress

end Progress

/-- The fields of `rdp_mppc_40_dec` and `rdp_mppc_50_dec`. -/
structure Decoder (format : Format) where
  historyBuf : Buffer Byte format.histBufLen
  historyPtr : Nat

namespace Decoder

variable {format : Format}

def fresh (format : Format) : Decoder format := ⟨.filled 0, 0⟩

/-- `history_ptr - this->history_ptr`, as a `uint32_t`. -/
def distance (finish start : Nat) : Nat := (((finish : Int) - start) % 2 ^ 32).toNat

/-- The body of both decompressors: the new state with `*roff` and `*rlen`. -/
def decompress (dec : Decoder format) (cbuf : List Byte) (ctype : Flags) :
    Checked ErrorId (Decoder format × Nat × Nat) := do
  let historyPtr := dec.historyPtr
  let roff := historyPtr
  let (historyPtr, thisPtr, roff) :=
    if ctype.has packetAtFront then (0, 0, 0) else (historyPtr, historyPtr, roff)
  let (historyPtr, history, roff) :=
    if ctype.has packetFlushed then (0, .filled 0, 0) else (historyPtr, dec.historyBuf, roff)
  if ctype &&& packetCompressed ≠ packetCompressed then
    let history ← history.storeBlock historyPtr cbuf
    let historyPtr := historyPtr + cbuf.length
    return (⟨history, historyPtr⟩, roff, distance historyPtr thisPtr)
  else
    let progress ← Progress.run cbuf.length
      (⟨.start cbuf, history, historyPtr⟩ : Progress format)
    return (⟨progress.history, progress.historyPtr⟩, roff, distance progress.historyPtr thisPtr)

/-- The bytes that the view returned by `decompress` shows. -/
def view (result : Decoder format × Nat × Nat) : Checked ErrorId (Decoder format × List Byte) := do
  let (dec, roff, rlen) := result
  let bytes ← dec.historyBuf.loadBlock roff rlen
  return (dec, bytes)

def decompressed (dec : Decoder format) (cbuf : List Byte) (ctype : Flags) :
    Checked ErrorId (Decoder format × List Byte) :=
  dec.decompress cbuf ctype >>= view

end Decoder

/-- `decompress_40`. -/
def decompress40 (dec : Decoder format40) (cbuf : List Byte) (ctype : Flags) :
    Checked ErrorId (Decoder format40 × Nat × Nat) := dec.decompress cbuf ctype

/-- `decompress_50`. -/
def decompress50 (dec : Decoder format50) (cbuf : List Byte) (ctype : Flags) :
    Checked ErrorId (Decoder format50 × Nat × Nat) := dec.decompress cbuf ctype

end Redemption.Mppc

/-! The decompressors read back the tokens that the compressors write. -/
namespace Redemption.Mppc

open Redemption.Foundation
open Redemption.Foundation.Lz

variable {size : Nat}

theorem copyMatch_run (lom source target : Nat) (history : Buffer Byte size)
    (before : source ≤ target) (room : target + lom ≤ size) :
    copyMatch lom source target history = .ok ⟨copyForward lom source target history.cell⟩ := by
  induction lom generalizing source target history with
  | zero => rfl
  | succ lom ih =>
    rw [copyMatch, Buffer.load_of_lt history (by omega), ok_bind,
      Buffer.store_of_lt history (by omega), ok_bind, ih _ _ _ (by omega) (by omega)]
    rfl

theorem copyTuple_run {history : Buffer Byte size} {historyPtr copyOffset lom : Nat}
    (reaches : copyOffset ≤ historyPtr) (room : historyPtr + lom ≤ size) :
    copyTuple history historyPtr copyOffset lom =
      .ok ⟨copyForward lom (historyPtr - copyOffset) historyPtr history.cell⟩ := by
  rw [copyTuple, if_pos reaches, copyMatch_run _ _ _ _ (by omega) room]

namespace Progress

variable {format : Format} {progress : Progress format}

/-- The progress made by reading one token, with the rest of the input behind it. -/
structure Reads (progress progress' : Progress format) (token : Token Byte)
    (rest : List Bool) : Prop where
  window : progress'.window.Ready id rest
  history : progress'.history.cell = Lz.step progress.history.cell progress.historyPtr token
  historyPtr : progress'.historyPtr = progress.historyPtr + token.span

private theorem literal_run {byte : Byte} {count : Nat} {front rest : List Bool}
    (ready : progress.window.Ready id (front ++ rest)) (room : progress.historyPtr < format.histBufLen)
    (width : front.length = count) (small : count ≤ 32) :
    ∃ progress', progress.literal byte count = .ok progress' ∧
      Reads progress progress' (.literal byte) rest := by
  refine ⟨⟨(progress.window.consume count).refill id, progress.history.set progress.historyPtr byte,
    progress.historyPtr + 1⟩, ?_, ?_⟩
  · simp only [literal, Buffer.store_of_lt _ room, ok_bind, pure_ok]
  · have next := ready.consume_refill count (by simp; omega) small
    rw [List.drop_left' width] at next
    exact ⟨next, rfl, rfl⟩

private theorem lowLiteral_eq : lowLiteral = .ofBits 32 1 0 := by decide

private theorem highLiteral_eq : highLiteral = .ofBits 32 2 2 := by decide

variable {rest : List Bool}

private theorem round_low {c : Byte}
    (ready : progress.window.Ready id (format.tokenBits (.literal c) ++ rest))
    (low : c &&& 0x80 = 0) (room : progress.historyPtr < format.histBufLen) :
    ∃ progress', progress.round = .ok progress' ∧
      Reads progress progress' (.literal c) rest := by
  rw [format.tokenBits_low low] at ready
  have small : c.toNat < 2 ^ 7 := low_toNat_lt c low
  have split : bitsOf 8 c.toNat = bitsOf 1 0 ++ bitsOf 7 c.toNat := by
    simpa using bitsOf_or 1 7 0 c.toNat small
  have front := ready
  rw [split, List.append_assoc] at front
  have hit := MaskedCode.matchesWord_ofBits (front.spells_field (by decide))
  rw [← lowLiteral_eq] at hit
  have test : progress.window.d32 &&& 0x80000000 = 0 := by
    simpa [MaskedCode.matchesWord, lowLiteral] using hit
  have byte : (progress.window.d32 >>> 24).setWidth 8 = c := by
    have value := (ready.spells_field (by decide)).toNat_shiftRight (c.isLt)
    apply BitVec.eq_of_toNat_eq
    rw [BitVec.toNat_setWidth]
    rw [value]
    exact Nat.mod_eq_of_lt c.isLt
  rw [round, if_pos test, byte]
  exact literal_run ready room (length_bitsOf 8 c.toNat) (by decide)

private theorem high_byte : ∀ c : Byte, c &&& 0x80 ≠ 0 →
    (((c &&& 0x7F).setWidth 32 ||| 0x80 : BitVec 32)).setWidth 8 = c := by decide

private theorem round_high (lawful : format.Lawful) {c : Byte}
    (ready : progress.window.Ready id (format.tokenBits (.literal c) ++ rest))
    (high : c &&& 0x80 ≠ 0) (room : progress.historyPtr < format.histBufLen) :
    ∃ progress', progress.round = .ok progress' ∧
      Reads progress progress' (.literal c) rest := by
  rw [format.tokenBits_high high] at ready
  have fields := ready
  rw [List.append_assoc] at fields
  have spells := fields.spells_fields (by decide)
  have hit := MaskedCode.matchesWord_ofBits spells
  rw [← highLiteral_eq] at hit
  have apart := (List.pairwise_cons.mp lawful.apart).1 highLiteral List.mem_cons_self
  have miss := MaskedCode.matchesWord_of_apart apart hit
  have test : ¬ progress.window.d32 &&& 0x80000000 = 0 := by
    simpa [MaskedCode.matchesWord, lowLiteral] using miss
  have next : progress.window.d32 &&& 0xc0000000 = 0x80000000 := by
    simpa [MaskedCode.matchesWord, highLiteral] using hit
  have byte : ((progress.window.d32 <<< 2 >>> 25) ||| 0x80).setWidth 8 = c := by
    have dropped := spells.shiftLeft 2
    have small : ∀ c : Byte, (c &&& 0x7F).toNat < 2 ^ 7 := by decide
    have value := dropped.toNat_shiftRight (small c)
    have same : progress.window.d32 <<< 2 >>> 25 = (c &&& 0x7F).setWidth 32 := by
      apply BitVec.eq_of_toNat_eq
      rw [BitVec.toNat_setWidth, Nat.mod_eq_of_lt (Nat.lt_trans (small c) (by decide))]
      exact value
    rw [same]
    exact high_byte c high
  rw [round, if_neg test, if_pos next, byte]
  refine literal_run ready room ?_ (by decide)
  rw [List.length_append, length_bitsOf, length_bitsOf]

/-- The chain on the length of match finds the row that the compressor used. -/
private theorem readLength_run (lawful : format.Lawful) {window : Window} {lom : Nat}
    (long : 3 ≤ lom) (bounded : lom < format.histBufLen)
    (ready : window.Ready id (lengthBits lom ++ rest)) :
    readLength format window = (lom, window.consume (lengthBits lom).length) ∧
      (lengthBits lom).length ≤ 32 := by
  by_cases three : lom = 3
  · subst three
    have front : lengthBits 3 = bitsOf 1 0 := rfl
    rw [front] at ready ⊢
    have hit := MaskedCode.matchesWord_ofBits (ready.spells_field (by decide))
    have found := MaskedCode.lookup_eq_some lawful.lengthsApart lawful.three hit
    simp [readLength, found]
  · obtain ⟨atLeast, below, above⟩ := log2_bounds (show 4 ≤ lom by omega)
    obtain ⟨member, _⟩ := lawful.lengths lom.log2 atLeast (by omega)
    have histBufLen := lawful.histBufLen_le
    have small : lom.log2 < 16 := by
      have grows : 2 ^ lom.log2 < 2 ^ 16 := by omega
      exact (Nat.pow_lt_pow_iff_right (by decide)).mp grows
    have front : lengthBits lom =
        bitsOf lom.log2 (2 ^ lom.log2 - 2) ++ bitsOf lom.log2 (lom - 2 ^ lom.log2) :=
      if_neg three
    have length : (lengthBits lom).length = 2 * lom.log2 := by
      rw [front, List.length_append, length_bitsOf, length_bitsOf]
      omega
    have fields := ready
    rw [front, List.append_assoc] at fields
    have hit := MaskedCode.matchesWord_ofBits (fields.spells_fields (by omega))
    have found := MaskedCode.lookup_eq_some lawful.lengthsApart member hit
    have fits : lom - 2 ^ lom.log2 < 2 ^ lom.log2 := by omega
    rw [front, ← bitsOf_or _ _ _ _ fits, ← Nat.two_mul] at ready
    have whole : (2 ^ lom.log2 - 2) <<< lom.log2 ||| (lom - 2 ^ lom.log2) < 2 ^ (2 * lom.log2) := by
      rw [Nat.two_mul]
      exact fields_lt (by omega) fits
    have value := (ready.spells_field (by omega)).toNat_shiftRight whole
    have low : ((2 ^ lom.log2 - 2) <<< lom.log2 ||| (lom - 2 ^ lom.log2)) &&& 2 ^ lom.log2 - 1 =
        lom - 2 ^ lom.log2 := by
      rw [Nat.and_two_pow_sub_one_eq_mod, Nat.or_mod_two_pow, Nat.shiftLeft_eq,
        Nat.mul_mod_left, Nat.zero_or, Nat.mod_eq_of_lt fits]
    refine ⟨?_, by omega⟩
    simp only [readLength, found, lengthRow, value, low, length]
    have sum : lom - 2 ^ lom.log2 + 2 ^ lom.log2 = lom := by omega
    rw [sum]

/-- The chain on the copy offset finds the row that the compressor used. -/
private theorem readOffset_run (lawful : format.Lawful) {copyOffset header : Nat}
    {row : OffsetRow}
    (encodes : row.Encodes (format.copyRange copyOffset) copyOffset header)
    (member : row ∈ format.offsetRows) (bounded : copyOffset < format.histBufLen)
    (ready : progress.window.Ready id
      (bitsOf row.headerBits header ++ (bitsOf row.offsetBits (copyOffset - row.base) ++ rest))) :
    readOffset format progress.window =
        (copyOffset, progress.window.consume (row.headerBits + row.offsetBits)) ∧
      lowLiteral.matchesWord progress.window.d32 = false ∧
      highLiteral.matchesWord progress.window.d32 = false := by
  have spells := ready.spells_fields (Nat.le_trans encodes.small (by decide))
  have hit := MaskedCode.matchesWord_ofBits spells
  rw [← encodes.code] at hit
  obtain ⟨lowApart, others⟩ := List.pairwise_cons.mp lawful.apart
  obtain ⟨highApart, rowsApart⟩ := List.pairwise_cons.mp others
  have mapped : row.code ∈ format.offsetRows.map OffsetRow.code := List.mem_map_of_mem member
  refine ⟨?_, MaskedCode.matchesWord_of_apart
    (lowApart row.code (List.mem_cons_of_mem _ mapped)) hit,
    MaskedCode.matchesWord_of_apart (highApart row.code mapped) hit⟩
  have apart : MaskedCode.Apart OffsetRow.code format.offsetRows := List.pairwise_map.mp rowsApart
  have found := MaskedCode.lookup_eq_some apart member hit
  have dropped := spells.shiftLeft row.headerBits
  rw [List.drop_left' (length_bitsOf _ _)] at dropped
  have value := dropped.toNat_shiftRight encodes.fits
  have below := encodes.below
  have histBufLen := lawful.histBufLen_le
  have sum : (copyOffset - row.base + row.base) % 2 ^ 16 = copyOffset := by
    rw [Nat.sub_add_cancel below]
    exact Nat.mod_eq_of_lt (by omega)
  simp only [readOffset, found, Window.consume_consume]
  simp only [Window.consume, value, sum]

private theorem round_copy (lawful : format.Lawful) {copyOffset lom : Nat}
    (ready : progress.window.Ready id (format.tokenBits (.copy copyOffset lom) ++ rest))
    (positive : 0 < copyOffset) (reaches : copyOffset ≤ progress.historyPtr) (long : 3 ≤ lom)
    (room : progress.historyPtr + lom ≤ format.histBufLen) :
    ∃ progress', progress.round = .ok progress' ∧
      Reads progress progress' (.copy copyOffset lom) rest := by
  obtain ⟨row, member, header, encodes⟩ := lawful.offsets copyOffset positive (by omega)
  rw [Format.tokenBits_copy lawful encodes long (by omega), List.append_assoc,
    List.append_assoc] at ready
  obtain ⟨offsetRead, low, high⟩ := readOffset_run lawful encodes member (by omega) ready
  have notLow : ¬ progress.window.d32 &&& 0x80000000 = 0 := by
    simpa [MaskedCode.matchesWord, lowLiteral] using low
  have notHigh : ¬ progress.window.d32 &&& 0xc0000000 = 0x80000000 := by
    simpa [MaskedCode.matchesWord, highLiteral] using high
  have second := ready.consume_refill (row.headerBits + row.offsetBits) (by simp)
    (Nat.le_trans encodes.small (by decide))
  rw [← List.append_assoc, List.drop_left' (by simp)] at second
  obtain ⟨lengthRead, narrow⟩ := readLength_run lawful long (by omega) second
  have third := second.consume_refill (lengthBits lom).length (by simp) narrow
  rw [List.drop_left' rfl] at third
  let window := (progress.window.consume (row.headerBits + row.offsetBits)).refill id
  refine ⟨⟨(window.consume (lengthBits lom).length).refill id, ⟨copyForward lom (progress.historyPtr - copyOffset) progress.historyPtr
    progress.history.cell⟩, progress.historyPtr + lom⟩, ?_, third, rfl, rfl⟩
  have nonzero : copyOffset ≠ 0 := by omega
  simp only [round, notLow, notHigh, if_false, offsetRead, nonzero, lengthRead,
    copyTuple_run reaches room, ok_bind, pure_ok]
  rfl

/-- A token that a decompressor can replay at a position of its history. -/
def Replayable (format : Format) (historyPtr : Nat) : Token Byte → Prop
  | .literal _ => historyPtr < format.histBufLen
  | .copy offset length =>
    0 < offset ∧ offset ≤ historyPtr ∧ 3 ≤ length ∧ historyPtr + length ≤ format.histBufLen

theorem round_run (lawful : format.Lawful) {token : Token Byte}
    (ready : progress.window.Ready id (format.tokenBits token ++ rest))
    (replayable : Replayable format progress.historyPtr token) :
    ∃ progress', progress.round = .ok progress' ∧ Reads progress progress' token rest := by
  cases token with
  | literal c =>
    by_cases low : c &&& 0x80 = 0
    · exact round_low ready low replayable
    · exact round_high lawful ready low replayable
  | copy offset length =>
    obtain ⟨positive, reaches, long, room⟩ := replayable
    exact round_copy lawful ready positive reaches long room

/-- Tokens that can be replayed one after the other. -/
def AllReplayable (format : Format) : Nat → List (Token Byte) → Prop
  | _, [] => True
  | historyPtr, token :: rest =>
    Replayable format historyPtr token ∧ AllReplayable format (historyPtr + token.span) rest

theorem valid_of_replayable {historyPtr : Nat} {token : Token Byte}
    (replayable : Replayable format historyPtr token) : format.Valid token := by
  cases token with
  | literal c => trivial
  | copy offset length =>
    obtain ⟨positive, reaches, long, room⟩ := replayable
    exact ⟨positive, by omega, long, by omega⟩

/-- The loop reads all tokens, and stops at less than a byte of padding. -/
theorem run_tokens (lawful : format.Lawful) (tokens : List (Token Byte)) (padding : List Bool)
    (short : padding.length < 8) (fuel : Nat) (enough : tokens.length ≤ fuel)
    (progress : Progress format)
    (ready : progress.window.Ready id (tokens.flatMap format.tokenBits ++ padding))
    (replayable : AllReplayable format progress.historyPtr tokens) :
    ∃ progress', progress.run fuel = .ok progress' ∧
      progress'.history.cell = Lz.replay progress.history.cell progress.historyPtr tokens ∧
      progress'.historyPtr = progress.historyPtr + (tokens.map Token.span).sum := by
  induction tokens generalizing fuel progress with
  | nil =>
    have left := ready.length
    have stops : ¬ 8 ≤ progress.window.bitsLeft := by
      simp only [List.flatMap_nil, List.nil_append] at left
      omega
    refine ⟨progress, ?_, rfl, by simp⟩
    cases fuel with
    | zero => rfl
    | succ fuel => rw [run, if_neg stops]
  | cons token rest ih =>
    obtain ⟨now, later⟩ := replayable
    rw [List.flatMap_cons, List.append_assoc] at ready
    have wide := Format.eight_le_tokenBits lawful (valid_of_replayable now)
    have goes : 8 ≤ progress.window.bitsLeft := by
      have left := ready.length
      rw [List.length_append] at left
      omega
    obtain ⟨next, round, reads⟩ := round_run lawful ready now
    cases fuel with
    | zero => simp at enough
    | succ fuel =>
      obtain ⟨progress', ran, history, historyPtr⟩ := ih fuel (by simpa using enough) next
        reads.window (by rw [reads.historyPtr]; exact later)
      refine ⟨progress', ?_, ?_, ?_⟩
      · rw [run, if_pos goes, round, ok_bind, ran]
      · rw [history, reads.history, reads.historyPtr]
        rfl
      · rw [historyPtr, reads.historyPtr, List.map_cons, List.sum_cons]
        omega

/-- A parse whose matches are long enough can be replayed up to the end of the history. -/
theorem allReplayable_of_parses {text : Nat → Byte} {start finish : Nat}
    {tokens : List (Token Byte)} (parse : Parses text start finish tokens)
    (valid : ∀ token ∈ tokens, format.Valid token)
    (room : finish ≤ format.histBufLen) : AllReplayable format start tokens := by
  induction parse with
  | done => trivial
  | literal tail ih =>
    have after := tail.start_le_finish
    refine ⟨?_, ih (fun token member => valid token (List.mem_cons_of_mem _ member)) room⟩
    simp only [Replayable]
    omega
  | copy positive reaches _ tail ih =>
    have after := tail.start_le_finish
    obtain ⟨_, _, long, _⟩ := valid _ List.mem_cons_self
    exact ⟨⟨positive, reaches, long, by omega⟩,
      ih (fun token member => valid token (List.mem_cons_of_mem _ member)) room⟩

end Progress

namespace Decoder

open Progress

variable {format : Format}

theorem distance_eq {start finish : Nat} (forward : start ≤ finish)
    (small : finish < 2 ^ 32) : distance finish start = finish - start := by
  unfold distance
  omega

/-- Where a packet with these flags is put into the history. -/
def position (dec : Decoder format) (ctype : Flags) : Nat :=
  if ctype.has packetAtFront then 0 else dec.historyPtr

/-- Decompressing a packet that parses a text right behind what the history already
holds of it gives the text, and the history then holds it too. -/
theorem decompressed_run (lawful : format.Lawful) (dec : Decoder format) {cbuf : List Byte}
    {ctype : Flags} {text : Nat → Byte} {finish : Nat} {tokens : List (Token Byte)}
    {padding : List Bool} (compressed : ctype &&& packetCompressed = packetCompressed)
    (flushed : ctype.has packetFlushed = true → ctype.has packetAtFront = true)
    (bits : bytesToBits cbuf = tokens.flatMap format.tokenBits ++ padding)
    (short : padding.length < 8)
    (parse : Parses text (dec.position ctype) finish tokens)
    (valid : ∀ token ∈ tokens, format.Valid token)
    (room : finish ≤ format.histBufLen)
    (agree : AgreeBelow dec.historyBuf.cell text (dec.position ctype)) :
    ∃ dec' : Decoder format, dec.decompressed cbuf ctype =
        .ok (dec', (List.range (finish - dec.position ctype)).map
          fun index => text (dec.position ctype + index)) ∧
      dec'.historyPtr = finish ∧ AgreeBelow dec'.historyBuf.cell text finish := by
  let history : Buffer Byte format.histBufLen :=
    if ctype.has packetFlushed then .filled 0 else dec.historyBuf
  have base : AgreeBelow history.cell text (dec.position ctype) := by
    by_cases cleared : ctype.has packetFlushed = true
    · simp [AgreeBelow, position, flushed cleared]
    · simpa [history, cleared] using agree
  have replayable := allReplayable_of_parses parse valid room
  have few : tokens.length ≤ cbuf.length := by
    have many := Format.eight_mul_le lawful valid
    have total := congrArg List.length bits
    rw [length_bytesToBits, List.length_append] at total
    omega
  obtain ⟨progress, ran, cells, reached⟩ := run_tokens lawful tokens padding short cbuf.length few
    ⟨.start cbuf, history, dec.position ctype⟩ (by rw [← bits]; exact Window.start_ready cbuf)
    replayable
  have end' : progress.historyPtr = finish := by
    rw [reached, parse.finish_eq]
  have agreed : AgreeBelow progress.history.cell text finish := by
    rw [cells]
    exact replay_agrees parse _ base
  have forward := parse.start_le_finish
  have small : finish < 2 ^ 32 := by
    have histBufLen := lawful.histBufLen_le
    omega
  have run : dec.decompress cbuf ctype = .ok (⟨progress.history, progress.historyPtr⟩,
      dec.position ctype, distance progress.historyPtr (dec.position ctype)) := by
    have compressing : ¬ ctype &&& packetCompressed ≠ packetCompressed := not_not.mpr compressed
    by_cases front : ctype.has packetAtFront = true
    · by_cases cleared : ctype.has packetFlushed = true
      · simp only [position, history, front, cleared, if_true] at ran ⊢
        simp only [decompress, front, cleared, if_true, compressing, if_false, ran, ok_bind,
          pure_ok]
      · simp only [position, history, front, cleared, if_true, if_false, Bool.false_eq_true] at ran ⊢
        simp only [decompress, front, cleared, if_true, compressing, if_false, ran, ok_bind,
          pure_ok, Bool.false_eq_true]
    · have kept : ¬ ctype.has packetFlushed = true := fun cleared => front (flushed cleared)
      simp only [position, history, front, kept, if_false, Bool.false_eq_true] at ran ⊢
      simp only [decompress, front, kept, compressing, if_false, ran, ok_bind, pure_ok,
        Bool.false_eq_true]
  refine ⟨⟨progress.history, progress.historyPtr⟩, ?_, end', agreed⟩
  have size : dec.position ctype + (finish - dec.position ctype) ≤ format.histBufLen := by omega
  have shown : progress.history.slice (dec.position ctype) (finish - dec.position ctype) =
      (List.range (finish - dec.position ctype)).map
        fun index => text (dec.position ctype + index) := by
    apply List.map_congr_left
    intro index bounded
    have inside : index < finish - dec.position ctype := List.mem_range.mp bounded
    exact agreed _ (by omega)
  simp only [decompressed, view, run, ok_bind, end', distance_eq forward small,
    Buffer.loadBlock_of_le _ size, pure_ok, shown]

end Decoder

end Redemption.Mppc
