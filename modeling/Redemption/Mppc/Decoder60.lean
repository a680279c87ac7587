import Redemption.Mppc.Decoder
import Redemption.Mppc.Encoder60

/-! `decompress_60`. -/
namespace Redemption.Mppc

open Redemption.Foundation

namespace Window

/-- The first loop: `tmp` is the number of bits loaded. -/
def loadWord : BitVec 32 → Nat → List Byte → BitVec 32
  | d32, _, [] => d32
  | d32, tmp, byte :: rest => loadWord (d32 ||| byte.setWidth 32 <<< tmp) (tmp + 8) rest

/-- The window on the input of RDP 6.0, whose bits come lowest first. -/
def start60 (cbuf : List Byte) : Window :=
  loadCurrent transposeByte (transposebits (loadWord 0 0 (cbuf.take 4)))
    (8 * (cbuf.take 4).length) 0 (cbuf.drop 4)

def peek (window : Window) (count : Nat) : Nat :=
  (transposebits (window.d32 &&& (BitVec.allOnes 32 <<< (32 - count)))).toNat

/-- The loop on `i`: the symbol, and how many bits its code takes. Where no width fits,
the last entry stands and the loop variable is `past` the widths. -/
def readCode (lookup : Nat → Checked ErrorId Nat) (widths : List Nat) (past : Nat)
    (window : Window) : List Nat → Nat → Checked ErrorId (Nat × Nat)
  | [], last => .ok (last, past)
  | i :: rest, _ => do
    let entry ← lookup (window.peek i)
    let width ← tableAt widths entry
    if i = width then return (entry, i) else readCode lookup widths past window rest entry

/-- A base, plus the bits that follow. -/
def readExtra (window : Window) (base count : Nat) : Nat × Window :=
  ((base + if count ≠ 0 then window.peek count else 0) % 2 ^ 16, window.consume count)

end Window

section Copy

variable {size : Nat}

/-- The loop that goes round in the bytes just copied; `wrap` says when it starts again. -/
def copyRound (wrap : Nat → Bool) (source : Nat) : Nat → Nat → Nat → Buffer Byte size →
    Checked ErrorId (Buffer Byte size)
  | 0, _, _, history => .ok history
  | count + 1, i32, target, history => do
    let i32 := if wrap i32 then 0 else i32
    let byte ← history.load (source + i32)
    let history ← history.store target byte
    copyRound wrap source count (i32 + 1) (target + 1) history

/-- A copy tuple of RDP 6.0. -/
def copyTuple60 (history : Buffer Byte size) (historyPtr copyOffset lom : Nat) :
    Checked ErrorId (Buffer Byte size) :=
  let tmp := min lom copyOffset
  if copyOffset ≤ historyPtr then do
    let history ← copyMatch tmp (historyPtr - copyOffset) historyPtr history
    copyRound (copyOffset ≤ ·) (historyPtr - copyOffset + tmp) (lom - copyOffset) 0
      (historyPtr + tmp) history
  else do
    let source : Int := (size : Int) - 1 - ((copyOffset : Int) - historyPtr) + 1
    let (rest, target, history) ← copyToEnd tmp source historyPtr history
    let history ← copyMatch rest 0 target history
    copyRound (copyOffset < ·) rest (lom - copyOffset) 0 (historyPtr + tmp) history

end Copy

/-- What the decoding loop works on. -/
structure Progress60 where
  window : Window
  history : Buffer Byte histBufLen60
  historyPtr : Nat
  offsetCache : OffsetCache

namespace Progress60

/-- The copy offset that a symbol stands for, zero where it stands for none. -/
def readOffset (symbol : Nat) (window : Window) (cache : OffsetCache) :
    Checked ErrorId (Nat × Window × OffsetCache) :=
  if 256 < symbol ∧ symbol < 289 then do
    let count ← tableAt copyOffsetBitsLUT (symbol - 257)
    let base ← tableAt copyOffsetBaseLUT (symbol - 257)
    let (copyOffset, window) := window.readExtra (base - 1) count
    return (copyOffset, window, cache.add copyOffset)
  else if 288 < symbol ∧ symbol < 293 then do
    let copyOffset ← tableAt cache (symbol - 289)
    return (copyOffset, window, cache.use (symbol - 289))
  else return (0, window, cache)

def readLength (window : Window) : Checked ErrorId (Nat × Window) := do
  let (symbol, width) ← window.readCode getLOMindex huffLenLOM 10 lomWidths 0
  let count ← tableAt lomBitsLUT symbol
  let base ← tableAt lomBaseLUT symbol
  return (window.consume width).readExtra base count

def literal (progress : Progress60) (symbol : Nat) (window : Window) :
    Checked ErrorId Progress60 := do
  let history ← progress.history.store progress.historyPtr (BitVec.ofNat 8 symbol)
  return { progress with
    window := window.refill transposeByte
    history
    historyPtr := progress.historyPtr + 1 }

/-- What follows a symbol that is neither a literal nor the end. -/
def copy (progress : Progress60) (symbol : Nat) (window : Window) :
    Checked ErrorId Progress60 := do
  let (copyOffset, window, offsetCache) ← readOffset symbol window progress.offsetCache
  let window := window.refill transposeByte
  if copyOffset = 0 then return { progress with window, offsetCache }
  else
    let (lom, window) ← readLength window
    let history ← copyTuple60 progress.history progress.historyPtr copyOffset lom
    return ⟨window.refill transposeByte, history, progress.historyPtr + lom, offsetCache⟩

/-- One round of the loop, and whether it was the last. -/
def round (progress : Progress60) : Checked ErrorId (Bool × Progress60) := do
  let (symbol, width) ← progress.window.readCode getLECindex huffLenLEC 14 lecWidths 0
  let window := progress.window.consume width
  if symbol < 256 then
    let progress ← progress.literal symbol window
    return (false, progress)
  else if symbol = 256 then return (true, { progress with window })
  else
    let progress ← progress.copy symbol window
    return (false, progress)

/-- `while (bits_left >= 8)`: every round takes at least five bits of the input. -/
def run : Nat → Progress60 → Checked ErrorId Progress60
  | 0, progress => .ok progress
  | fuel + 1, progress =>
    if 8 ≤ progress.window.bitsLeft then do
      let (ended, progress) ← progress.round
      if ended then return progress else progress.run fuel
    else .ok progress

end Progress60

/-- The fields of `rdp_mppc_60_dec`. -/
structure Decoder60 where
  historyBuf : Buffer Byte histBufLen60
  historyPtr : Nat
  offsetCache : OffsetCache

namespace Decoder60

def fresh : Decoder60 := ⟨.filled 0, 0, .empty⟩

/-- `PACKET_AT_FRONT`: the latest bytes are moved to the front of the history. -/
def slide (dec : Decoder60) : Checked ErrorId Decoder60 :=
  if dec.historyPtr < histBufMiddle60 then .error .outOfBounds
  else do
    let recent ← dec.historyBuf.loadBlock (dec.historyPtr - histBufMiddle60) histBufMiddle60
    let historyBuf ← dec.historyBuf.storeBlock 0 recent
    return { dec with historyBuf, historyPtr := histBufMiddle60 }

/-- What the flags do to the state: with `this->history_ptr` as it is then. -/
def arrange (dec : Decoder60) (ctype : Flags) : Checked ErrorId (Decoder60 × Nat) := do
  let dec ← if ctype.has packetAtFront then dec.slide else .ok dec
  if ctype.has packetFlushed then return (⟨.filled 0, 0, .empty⟩, dec.historyPtr)
  else return (dec, dec.historyPtr)

/-- The body of `decompress_60`: the new state with `*roff` and `*rlen`. -/
def decompress (dec : Decoder60) (cbuf : List Byte) (ctype : Flags) :
    Checked ErrorId (Decoder60 × Nat × Nat) := do
  let (dec, thisPtr) ← dec.arrange ctype
  if ctype &&& packetCompressed ≠ packetCompressed then
    let historyBuf ← dec.historyBuf.storeBlock dec.historyPtr cbuf
    let historyPtr := dec.historyPtr + cbuf.length
    return ({ dec with historyBuf, historyPtr }, dec.historyPtr, Decoder.distance historyPtr thisPtr)
  else
    let progress ← Progress60.run (2 * cbuf.length)
      ⟨.start60 cbuf, dec.historyBuf, dec.historyPtr, dec.offsetCache⟩
    let rlen :=
      if ctype.has packetFlushed then progress.historyPtr
      else Decoder.distance progress.historyPtr thisPtr
    return (⟨progress.history, progress.historyPtr, progress.offsetCache⟩, dec.historyPtr, rlen)

/-- The bytes that the view returned by `decompress` shows. -/
def view (result : Decoder60 × Nat × Nat) : Checked ErrorId (Decoder60 × List Byte) := do
  let (dec, roff, rlen) := result
  let bytes ← dec.historyBuf.loadBlock roff rlen
  return (dec, bytes)

end Decoder60

/-- `decompress_60`. -/
def decompress60 (dec : Decoder60) (cbuf : List Byte) (ctype : Flags) :
    Checked ErrorId (Decoder60 × Nat × Nat) := dec.decompress cbuf ctype

/-! The decompressor of RDP 6.0 reads back the codes that the compressor writes. -/

open Redemption.Foundation.Lz

namespace Window

variable {window : Window} {rest : List Bool}

theorem peek_run {field value count : Nat} (spells : Spells window.d32 (lsbBits field value ++ rest))
    (part : count ≤ field) (short : count ≤ 16) : window.peek count = value % 2 ^ count := by
  rw [peek, transposebits_mask _ short]
  exact spells.toNat_firstBits part

/-- What `decodes` checks of one symbol. -/
structure Decodes (lookup : Nat → Checked ErrorId Nat) (widths tried : List Nat)
    (symbol width code : Nat) : Prop where
  fits : code < 2 ^ width
  listed : (tried.dropWhile (· < width)).head? = some width
  found : lookup code = .ok symbol
  isWidth : widths[symbol]? = some width
  missed : ∀ shorter ∈ tried.takeWhile (· < width),
    misses lookup widths shorter (code % 2 ^ shorter) = true

theorem codeAt_run {lookup : Nat → Checked ErrorId Nat} {widths codes tried : List Nat}
    {symbol : Nat} (checked : decodes lookup widths codes tried symbol = true) :
    ∃ width code, codeAt widths codes symbol = .ok (width, code) ∧
      Decodes lookup widths tried symbol width code := by
  unfold decodes at checked
  split at checked
  · rename_i width code isWidth isCode
    simp only [Bool.and_eq_true, decide_eq_true_eq, beq_iff_eq, List.all_eq_true] at checked
    obtain ⟨⟨⟨fits, listed⟩, found⟩, missed⟩ := checked
    refine ⟨width, code, ?_, fits, listed, found, isWidth, missed⟩
    simp only [codeAt, tableAt, isWidth, isCode, ok_bind, pure_ok]
  · cases checked

/-- The loop over the widths finds the symbol whose code the window starts with. -/
theorem readCode_run {lookup : Nat → Checked ErrorId Nat} {widths tried : List Nat}
    {symbol width code : Nat} (decodes : Decodes lookup widths tried symbol width code)
    (narrow : ∀ count ∈ tried, count ≤ 16)
    (spells : Spells window.d32 (lsbBits width code ++ rest)) (past last : Nat) :
    readCode lookup widths past window tried last = .ok (symbol, width) := by
  obtain ⟨fits, listed, found, isWidth, missed⟩ := decodes
  induction tried generalizing last with
  | nil => cases listed
  | cons count tried ih =>
    have short := narrow count List.mem_cons_self
    unfold readCode
    by_cases before : count < width
    · have peeked := peek_run spells (Nat.le_of_lt before) short
      rw [List.takeWhile_cons_of_pos (by simpa using before)] at missed
      rw [List.dropWhile_cons_of_pos (by simpa using before)] at listed
      have miss := missed count List.mem_cons_self
      unfold misses at miss
      rw [← peeked] at miss
      cases looked : lookup (window.peek count) with
      | error fault =>
        rw [looked] at miss
        cases miss
      | ok entry =>
        simp only [looked] at miss
        cases other : widths[entry]? with
        | none =>
          rw [other] at miss
          cases miss
        | some wide =>
          have differs : ¬ count = wide := by
            rintro rfl
            simp [other] at miss
          simp only [ok_bind, tableAt, other, differs, if_false]
          exact ih (fun count member => narrow count (List.mem_cons_of_mem _ member)) entry
            listed fun shorter member => missed shorter (List.mem_cons_of_mem _ member)
    · rw [List.dropWhile_cons_of_neg (by simpa using before)] at listed
      have same : count = width := Option.some.inj listed
      subst same
      have peeked := peek_run spells (Nat.le_refl _) short
      rw [Nat.mod_eq_of_lt fits] at peeked
      simp only [peeked, found, ok_bind, tableAt, isWidth, if_true, pure_ok]

end Window

section Symbols

variable {window : Window} {rest : List Bool}

/-- The code of a symbol and how it is read back, with how wide it can be. -/
theorem lec_run {symbol : Nat} (known : symbol < 293) :
    ∃ width code, lecCode symbol = .ok (width, code) ∧ code < 2 ^ width ∧ 5 ≤ width ∧ width ≤ 13 ∧
      ∀ (window : Window) (rest : List Bool), Spells window.d32 (lsbBits width code ++ rest) →
        window.readCode getLECindex huffLenLEC 14 lecWidths 0 = .ok (symbol, width) := by
  obtain ⟨width, code, isCode, decodes⟩ :=
    Window.codeAt_run (decodes_lec symbol (List.mem_range.mpr known))
  have member : width ∈ lecWidths :=
    (List.dropWhile_sublist _).subset (List.mem_of_head? decodes.listed)
  have bounds : ∀ width ∈ lecWidths, 5 ≤ width ∧ width ≤ 13 := by decide
  have narrow : ∀ count ∈ lecWidths, count ≤ 16 := by decide
  exact ⟨width, code, isCode, decodes.fits, (bounds width member).1, (bounds width member).2,
    fun window rest spells => Window.readCode_run decodes narrow spells 14 0⟩

theorem lom_run {symbol : Nat} (known : symbol < 32) :
    ∃ width code, lomCode symbol = .ok (width, code) ∧ code < 2 ^ width ∧ width ≤ 9 ∧
      ∀ (window : Window) (rest : List Bool), Spells window.d32 (lsbBits width code ++ rest) →
        window.readCode getLOMindex huffLenLOM 10 lomWidths 0 = .ok (symbol, width) := by
  obtain ⟨width, code, isCode, decodes⟩ :=
    Window.codeAt_run (decodes_lom symbol (List.mem_range.mpr known))
  have member : width ∈ lomWidths :=
    (List.dropWhile_sublist _).subset (List.mem_of_head? decodes.listed)
  have bounds : ∀ width ∈ lomWidths, width ≤ 9 := by decide
  have narrow : ∀ count ∈ lomWidths, count ≤ 16 := by decide
  exact ⟨width, code, isCode, decodes.fits, bounds width member,
    fun window rest spells => Window.readCode_run decodes narrow spells 10 0⟩

end Symbols

section Values

private theorem takeWhile_split (keep : Nat → Bool) (table : List Nat) :
    (∀ index < (table.takeWhile keep).length, ∀ entry, table[index]? = some entry →
      keep entry = true) ∧
    ∀ entry, table[(table.takeWhile keep).length]? = some entry → keep entry = false := by
  induction table with
  | nil => simp
  | cons head rest ih =>
    cases kept : keep head with
    | false =>
      rw [List.takeWhile_cons_of_neg (by simp [kept])]
      refine ⟨fun index absurd => (Nat.not_lt_zero index absurd).elim, fun entry here => ?_⟩
      cases here
      exact kept
    | true =>
      rw [List.takeWhile_cons_of_pos kept]
      refine ⟨fun index bounded entry here => ?_, fun entry here => ih.2 entry (by simpa using here)⟩
      cases index with
      | zero =>
        cases here
        exact kept
      | succ index => exact ih.1 index (by simpa using bounded) entry (by simpa using here)

theorem indexOf_run {table : List Nat} {data low : Nat} (first : table[0]? = some low)
    (least : low ≤ data) {top entry : Nat} (last : table[top]? = some entry) (most : data ≤ entry) :
    ∃ index base, indexOfEqualOrSmallerEntry data table = .ok index ∧
      table[index]? = some base ∧ base ≤ data ∧ index ≤ top ∧
      (base = data ∨ ∃ next, table[index + 1]? = some next ∧ data < next) := by
  obtain ⟨before, here⟩ := takeWhile_split (fun entry => decide (entry < data)) table
  unfold indexOfEqualOrSmallerEntry
  generalize (table.takeWhile fun entry => decide (entry < data)).length = stop at before here
  have reaches : stop ≤ top := by
    refine Nat.le_of_not_lt fun beyond => ?_
    have smaller := before top beyond entry last
    simp only [decide_eq_true_eq] at smaller
    omega
  cases found : table[stop]? with
  | none =>
    have inside := (List.getElem?_eq_some_iff.mp last).1
    rw [List.getElem?_eq_none_iff] at found
    omega
  | some value =>
    have above := here value found
    simp only [decide_eq_false_iff_not] at above
    by_cases greater : data < value
    · have positive : stop ≠ 0 := by
        rintro rfl
        rw [first] at found
        cases found
        omega
      have inside : stop - 1 < table.length := by
        have := (List.getElem?_eq_some_iff.mp found).1
        omega
      have previous := List.getElem?_eq_getElem inside
      have smaller := before (stop - 1) (by omega) _ previous
      simp only [decide_eq_true_eq] at smaller
      refine ⟨stop - 1, _, by simp only [found, greater, if_true], previous, Nat.le_of_lt smaller, by omega,
        .inr ⟨value, ?_, greater⟩⟩
      rw [Nat.sub_add_cancel (Nat.pos_of_ne_zero positive)]
      exact found
    · exact ⟨stop, value, by simp only [found, greater, if_false], found, by omega, reaches, .inl (by omega)⟩

/-- An entry of the copy offset tables: as many values as its extra bits can tell apart. -/
private theorem copyOffset_row : ∀ index < 32, ∃ base < 65536, ∃ count < 16,
    copyOffsetBaseLUT[index]? = some base ∧ copyOffsetBitsLUT[index]? = some count ∧ 0 < base ∧
      copyOffsetBaseLUT[index + 1]? = some (base + 2 ^ count) ∧ (base - 1) % 2 ^ count = 0 := by
  intro index bounded
  have row : ∀ index ∈ List.range 32,
      (copyOffsetBaseLUT[index]?.any fun base => copyOffsetBitsLUT[index]?.any fun count =>
        decide (base < 65536) && decide (count < 16) && decide (0 < base) &&
          decide (copyOffsetBaseLUT[index + 1]? = some (base + 2 ^ count)) &&
          decide ((base - 1) % 2 ^ count = 0)) = true := by decide
  obtain ⟨base, isBase, others⟩ :=
    (Option.any_eq_true _ _).mp (row index (List.mem_range.mpr bounded))
  obtain ⟨count, isCount, here⟩ := (Option.any_eq_true _ _).mp others
  simp only [Bool.and_eq_true, decide_eq_true_eq] at here
  obtain ⟨⟨⟨⟨small, few⟩, positive⟩, next⟩, multiple⟩ := here
  exact ⟨base, small, count, few, isBase, isCount, positive, next, multiple⟩

variable {code : Nat × Nat}

theorem insertedBits60_extra (width code count value : Nat) :
    Output.insertedBits60 (withExtraBits (width, code) count value) =
      lsbBits width code ++ lsbBits count value := by
  unfold withExtraBits
  by_cases none : count = 0
  · simp [none, Output.insertedBits60, lsbBits]
  · simp only [none, ne_eq, not_false_eq_true, if_true, Output.insertedBits60, List.flatMap_cons,
      List.flatMap_nil, List.append_nil, Nat.one_shiftLeft, Nat.and_two_pow_sub_one_eq_mod,
      lsbBits_mod]

theorem fitsWidth_extra {width code : Nat} (fits : code < 2 ^ width) (count value : Nat) :
    Output.FitsWidth (withExtraBits (width, code) count value) := by
  intro insertion member
  unfold withExtraBits at member
  split at member
  · rcases List.mem_cons.mp member with rfl | extra
    · exact fits
    · rw [List.mem_singleton.mp extra]
      simp only [Nat.one_shiftLeft, Nat.and_two_pow_sub_one_eq_mod]
      exact Nat.mod_lt _ (Nat.two_pow_pos count)
  · rw [List.mem_singleton.mp member]
    exact fits

theorem readExtra_run {window : Window} {rest : List Bool} {width code count value base : Nat}
    (spells : Spells window.d32 (lsbBits width code ++ (lsbBits count value ++ rest)))
    (few : count ≤ 16) (small : base + value % 2 ^ count < 2 ^ 16) :
    (window.consume width).readExtra base count =
      (base + value % 2 ^ count, window.consume (width + count)) := by
  have behind := spells.shiftLeft width
  rw [List.drop_left' (length_lsbBits width code)] at behind
  have read : (if count ≠ 0 then (window.consume width).peek count else 0) = value % 2 ^ count := by
    by_cases none : count = 0
    · simp [none, Nat.mod_one]
    · rw [if_pos none]
      exact Window.peek_run behind (Nat.le_refl _) few
  rw [Window.readExtra, read, Nat.mod_eq_of_lt small, Window.consume_consume]

/-- What an offset that is not cached is written as, and how it is read back. -/
private theorem offset_run {copyOffset : Nat} (positive : 0 < copyOffset)
    (small : copyOffset < 65536) :
    ∃ insertions, offsetInsertions copyOffset = .ok insertions ∧ Output.FitsWidth insertions ∧
      5 ≤ (Output.insertedBits60 insertions).length ∧
      (Output.insertedBits60 insertions).length ≤ 28 ∧
      ∀ (window : Window) (rest : List Bool) (cache : OffsetCache),
        Spells window.d32 (Output.insertedBits60 insertions ++ rest) →
        ∃ symbol width, window.readCode getLECindex huffLenLEC 14 lecWidths 0 =
            .ok (symbol, width) ∧ 256 < symbol ∧
          Progress60.readOffset symbol (window.consume width) cache =
            .ok (copyOffset, window.consume (Output.insertedBits60 insertions).length,
              cache.add copyOffset) := by
  obtain ⟨index, base, isIndex, isBase, below, reaches, next⟩ :=
    indexOf_run (show copyOffsetBaseLUT[0]? = some 1 from rfl)
      (show 1 ≤ copyOffset + 1 by omega) (show copyOffsetBaseLUT[32]? = some 65537 from rfl)
      (show copyOffset + 1 ≤ 65537 by omega)
  have known : index < 32 := by
    refine Nat.lt_of_le_of_ne reaches ?_
    rintro rfl
    cases isBase
    omega
  obtain ⟨base', _, count, few, isBase', isCount, some, isNext, multiple⟩ := copyOffset_row index known
  rw [isBase] at isBase'
  cases isBase'
  have above : copyOffset + 1 < base + 2 ^ count := by
    rcases next with exactly | ⟨bound, isBound, less⟩
    · omega
    · rw [isNext] at isBound
      cases isBound
      exact less
  have value : base - 1 + copyOffset % 2 ^ count = copyOffset := by
    obtain ⟨factor, isFactor⟩ := Nat.dvd_of_mod_eq_zero multiple
    have split : copyOffset = (copyOffset + 1 - base) + 2 ^ count * factor := by omega
    have part : copyOffset % 2 ^ count = copyOffset + 1 - base := by
      rw [split, Nat.add_mul_mod_self_left, ← split]
      exact Nat.mod_eq_of_lt (by omega)
    omega
  obtain ⟨width, code, isCode, fits, least, most, reads⟩ := lec_run (show index + 257 < 293 by omega)
  refine ⟨withExtraBits (width, code) count copyOffset, ?_, fitsWidth_extra fits _ _, ?_, ?_, ?_⟩
  · simp only [offsetInsertions, isIndex, ok_bind, isCode, tableAt, isCount, pure_ok]
  · rw [insertedBits60_extra, List.length_append, length_lsbBits]
    omega
  · rw [insertedBits60_extra, List.length_append, length_lsbBits, length_lsbBits]
    omega
  · intro window rest cache spells
    rw [insertedBits60_extra, List.append_assoc] at spells
    have symbol : 256 < index + 257 ∧ index + 257 < 289 := by omega
    have extra := readExtra_run spells (by omega) (show base - 1 + copyOffset % 2 ^ count < 2 ^ 16 by omega)
    refine ⟨index + 257, width, reads window _ spells, by omega, ?_⟩
    simp only [Progress60.readOffset, symbol, and_self, if_true, Nat.add_sub_cancel, tableAt,
      isCount, isBase, ok_bind, extra, value, pure_ok]
    rw [insertedBits60_extra, List.length_append, length_lsbBits, length_lsbBits]

/-- Every length of match has a row that its extra bits complete. -/
private theorem length_row {lom : Nat} (long : 2 ≤ lom) (short : lom ≤ 514) :
    ∃ index < 32, ∃ base count, indexOfEqualOrSmallerEntry lom lomBaseLUT = .ok index ∧
      lomBaseLUT[index]? = some base ∧ lomBitsLUT[index]? = some count ∧ count ≤ 16 ∧
      base + (lom - 2) % 2 ^ count = lom := by
  have row : ∀ lom ∈ List.range' 2 513,
      ((indexOfEqualOrSmallerEntry lom lomBaseLUT).toOption.any fun index =>
        lomBaseLUT[index]?.any fun base => lomBitsLUT[index]?.any fun count =>
          decide (index < 32) && decide (count ≤ 16) &&
            decide (base + (lom - 2) % 2 ^ count = lom)) = true := by decide +kernel
  obtain ⟨index, found, others⟩ :=
    (Option.any_eq_true _ _).mp (row lom (List.mem_range'_1.mpr ⟨long, by omega⟩))
  have isIndex : indexOfEqualOrSmallerEntry lom lomBaseLUT = .ok index := by
    cases read : indexOfEqualOrSmallerEntry lom lomBaseLUT with
    | error _ =>
      rw [read] at found
      cases found
    | ok _ =>
      rw [read] at found
      exact congrArg Except.ok (Option.some.inj found)
  obtain ⟨base, isBase, others'⟩ := (Option.any_eq_true _ _).mp others
  obtain ⟨count, isCount, here⟩ := (Option.any_eq_true _ _).mp others'
  simp only [Bool.and_eq_true, decide_eq_true_eq] at here
  obtain ⟨⟨known, few⟩, value⟩ := here
  exact ⟨index, known, base, count, isIndex, isBase, isCount, few, value⟩

/-- What a length of match is written as, and how it is read back. -/
theorem length_run {lom : Nat} (long : 2 ≤ lom) (short : lom ≤ 514) :
    ∃ insertions, lomInsertions lom = .ok insertions ∧ Output.FitsWidth insertions ∧
      (Output.insertedBits60 insertions).length ≤ 25 ∧
      ∀ (window : Window) (rest : List Bool),
        Spells window.d32 (Output.insertedBits60 insertions ++ rest) →
        Progress60.readLength window =
          .ok (lom, window.consume (Output.insertedBits60 insertions).length) := by
  obtain ⟨index, known, base, count, isIndex, isBase, isCount, few, value⟩ := length_row long short
  obtain ⟨width, code, isCode, fits, most, reads⟩ := lom_run known
  refine ⟨withExtraBits (width, code) count (lom - 2), ?_, fitsWidth_extra fits _ _, ?_, ?_⟩
  · simp only [lomInsertions, isIndex, ok_bind, isCode, tableAt, isCount, pure_ok]
  · rw [insertedBits60_extra, List.length_append, length_lsbBits, length_lsbBits]
    omega
  · intro window rest spells
    rw [insertedBits60_extra, List.append_assoc] at spells
    have extra := readExtra_run spells few (show base + (lom - 2) % 2 ^ count < 2 ^ 16 by omega)
    simp only [Progress60.readLength, reads window _ spells, ok_bind, tableAt, isCount, isBase,
      extra, value, pure_ok]
    rw [insertedBits60_extra, List.length_append, length_lsbBits, length_lsbBits]

end Values

section Cache

theorem OffsetCache.length_add {cache : OffsetCache} (four : cache.length = 4) (copyOffset : Nat) :
    (cache.add copyOffset).length = 4 := by
  simp [OffsetCache.add, four]

theorem OffsetCache.length_use {cache : OffsetCache} (four : cache.length = 4) (index : Nat) :
    (cache.use index).length = 4 := by
  unfold OffsetCache.use
  split
  · simp [OffsetCache.swap, four]
  · exact four

/-- What an offset is written as, cached or not, and how it is read back. -/
theorem cached_run {cache : OffsetCache} (four : cache.length = 4) {copyOffset : Nat}
    (positive : 0 < copyOffset) (small : copyOffset < 65536) :
    ∃ cache' insertions, cachedInsertions cache copyOffset = .ok (cache', insertions) ∧
      cache'.length = 4 ∧ Output.FitsWidth insertions ∧
      5 ≤ (Output.insertedBits60 insertions).length ∧
      (Output.insertedBits60 insertions).length ≤ 28 ∧
      ∀ (window : Window) (rest : List Bool),
        Spells window.d32 (Output.insertedBits60 insertions ++ rest) →
        ∃ symbol width, window.readCode getLECindex huffLenLEC 14 lecWidths 0 =
            .ok (symbol, width) ∧ 256 < symbol ∧
          Progress60.readOffset symbol (window.consume width) cache =
            .ok (copyOffset, window.consume (Output.insertedBits60 insertions).length, cache') := by
  cases found : cache.find copyOffset with
  | none =>
    obtain ⟨insertions, written, fits, least, most, reads⟩ := offset_run positive small
    refine ⟨cache.add copyOffset, insertions, ?_, OffsetCache.length_add four _, fits, least, most,
      fun window rest spells => reads window rest cache spells⟩
    simp only [cachedInsertions, found, written, ok_bind, pure_ok]
  | some index =>
    obtain ⟨inside, same, _⟩ := List.findIdx?_eq_some_iff_getElem.mp found
    obtain ⟨width, code, isCode, fits, least, most, reads⟩ :=
      lec_run (show index + 289 < 293 by omega)
    have bits : Output.insertedBits60 [(width, code)] = lsbBits width code := by
      simp [Output.insertedBits60]
    refine ⟨cache.use index, [(width, code)], ?_, OffsetCache.length_use four _, ?_, ?_, ?_, ?_⟩
    · simp only [cachedInsertions, found, isCode, ok_bind, pure_ok]
    · intro insertion member
      rw [List.mem_singleton.mp member]
      exact fits
    · rw [bits, length_lsbBits]
      exact least
    · rw [bits, length_lsbBits]
      omega
    · intro window rest spells
      rw [bits] at spells ⊢
      refine ⟨index + 289, width, reads window rest spells, by omega, ?_⟩
      have first : ¬ (256 < index + 289 ∧ index + 289 < 289) := by omega
      have second : 288 < index + 289 ∧ index + 289 < 293 := by omega
      have here : cache[index]? = some copyOffset := by
        rw [List.getElem?_eq_getElem inside]
        exact congrArg some (by simpa using same)
      simp only [Progress60.readOffset, first, if_false, second, and_self, if_true,
        Nat.add_sub_cancel, tableAt, here, ok_bind, pure_ok, length_lsbBits]

end Cache

end Redemption.Mppc
