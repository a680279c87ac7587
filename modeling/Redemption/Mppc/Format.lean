import Redemption.Foundation.Bits
import Redemption.Mppc.BitWriter
import Redemption.Mppc.HashTable
import Redemption.Mppc.MatchFinder

/-! The constants that RDP 4.0 and RDP 5.0 compression do not share. -/
namespace Redemption.Mppc

open Redemption.Foundation

/-- One entry of the compressor's `nbbits`, `headers` and `base`. -/
structure CopyRange where
  nbbits : Nat
  header : Nat
  base : Nat
  deriving DecidableEq, Repr

/-- One branch of the decompressor's chain on the copy offset. -/
structure OffsetRow where
  code : MaskedCode 32
  headerBits : Nat
  offsetBits : Nat
  base : Nat
  deriving DecidableEq, Repr

/-- One branch of the decompressor's chain on the length of match. -/
structure LengthRow where
  code : MaskedCode 32
  shift : Nat
  and : Nat
  base : Nat
  bits : Nat
  deriving DecidableEq, Repr

structure Format where
  histBufLen : Nat
  /-- The bytes that follow `outputBuffer`. -/
  outputCapacity : Nat
  outputBufferSize : Nat
  comprType : Flags
  copyRange : Nat → CopyRange
  lomMask : Nat
  offsetRows : List OffsetRow
  lengthRows : List LengthRow

/-- `RDP_40_50_COMPRESSOR_MINIMUM_MATCH_LENGTH`. -/
def minimumMatchLength4050 : Nat := 3

def limits4050 : MatchLimits := ⟨minimumMatchLength4050, none⟩

def lengthRows40 : List LengthRow :=
  [⟨⟨0x80000000, 0x00000000⟩, 31, 0, 3, 1⟩,
   ⟨⟨0xc0000000, 0x80000000⟩, 28, 0x03, 4, 4⟩,
   ⟨⟨0xe0000000, 0xc0000000⟩, 26, 0x07, 8, 6⟩,
   ⟨⟨0xf0000000, 0xe0000000⟩, 24, 0x0f, 16, 8⟩,
   ⟨⟨0xf8000000, 0xf0000000⟩, 22, 0x1f, 32, 10⟩,
   ⟨⟨0xfc000000, 0xf8000000⟩, 20, 0x3f, 64, 12⟩,
   ⟨⟨0xfe000000, 0xfc000000⟩, 18, 0x7f, 128, 14⟩,
   ⟨⟨0xff000000, 0xfe000000⟩, 16, 0xff, 256, 16⟩,
   ⟨⟨0xff800000, 0xff000000⟩, 14, 0x1ff, 512, 18⟩,
   ⟨⟨0xffc00000, 0xff800000⟩, 12, 0x3ff, 1024, 20⟩,
   ⟨⟨0xffe00000, 0xffc00000⟩, 10, 0x7ff, 2048, 22⟩,
   ⟨⟨0xfff00000, 0xffe00000⟩, 8, 0xfff, 4096, 24⟩]

def lengthRows50 : List LengthRow :=
  lengthRows40 ++
  [⟨⟨0xfff80000, 0xfff00000⟩, 6, 0x1fff, 8192, 26⟩,
   ⟨⟨0xfffc0000, 0xfff80000⟩, 4, 0x3fff, 16384, 28⟩,
   ⟨⟨0xfffe0000, 0xfffc0000⟩, 2, 0x7fff, 32768, 30⟩]

def copyRange40 (copyOffset : Nat) : CopyRange :=
  if copyOffset ≤ 0x3F then ⟨10, 0x3c0, 0⟩
  else if copyOffset ≤ 0x13F then ⟨12, 0xe00, 0x40⟩
  else ⟨16, 0xc000, 0x140⟩

def format40 : Format where
  histBufLen := 1024 * 8
  outputCapacity := 1024 * 8 + 8
  outputBufferSize := 1024 * 8 + 8
  comprType := packetComprType8K
  copyRange := copyRange40
  lomMask := 0xFFE
  offsetRows :=
    [⟨⟨0xf0000000, 0xf0000000⟩, 4, 6, 0⟩,
     ⟨⟨0xf0000000, 0xe0000000⟩, 4, 8, 64⟩,
     ⟨⟨0xe0000000, 0xc0000000⟩, 3, 13, 320⟩]
  lengthRows := lengthRows40

def copyRange50 (copyOffset : Nat) : CopyRange :=
  if copyOffset ≤ 0x3F then ⟨11, 0x7c0, 0⟩
  else if copyOffset ≤ 0x13F then ⟨13, 0x1e00, 0x40⟩
  else if copyOffset ≤ 0x93F then ⟨15, 0x7000, 0x140⟩
  else ⟨19, 0x060000, 0x940⟩

def format50 : Format where
  histBufLen := 1024 * 64
  outputCapacity := 1024 * 64 + 8
  outputBufferSize := 1024 * 64 - 1
  comprType := packetComprType64K
  copyRange := copyRange50
  lomMask := 0xFFFE
  offsetRows :=
    [⟨⟨0xf8000000, 0xf8000000⟩, 5, 6, 0⟩,
     ⟨⟨0xf8000000, 0xf0000000⟩, 5, 8, 64⟩,
     ⟨⟨0xf0000000, 0xe0000000⟩, 4, 11, 320⟩,
     ⟨⟨0xe0000000, 0xc0000000⟩, 3, 16, 2368⟩]
  lengthRows := lengthRows50

def Format.tupleInsertions (format : Format) (copyOffset lom : Nat) : List (Nat × Nat) :=
  let range := format.copyRange copyOffset
  let logLom := lom.log2
  [(range.nbbits, range.header ||| (copyOffset - range.base)),
   if lom = 3 then (1, 0)
   else (2 * logLom,
    ((1 <<< logLom - 1) &&& format.lomMask) <<< logLom ||| (lom - 1 <<< logLom))]

def Format.insertions (format : Format) : Found → List (Nat × Nat)
  | .literal value => [Output.literalBits value]
  | .matched _ offset previousMatch lom => format.tupleInsertions (offset - previousMatch) lom

/-! The compressor's headers and the decompressor's chains describe one prefix code. -/

open Redemption.Foundation.Lz

/-- A literal below 0x80 starts with this bit. -/
def lowLiteral : MaskedCode 32 := ⟨0x80000000, 0⟩

/-- A literal from 0x80 on starts with these bits. -/
def highLiteral : MaskedCode 32 := ⟨0xc0000000, 0x80000000⟩

/-- The branch that reads an offset is the one whose header the compressor writes. -/
structure OffsetRow.Encodes (row : OffsetRow) (range : CopyRange) (copyOffset header : Nat) :
    Prop where
  code : row.code = .ofBits 32 row.headerBits header
  written : range.header = header <<< row.offsetBits
  nbbits : range.nbbits = row.headerBits + row.offsetBits
  base : range.base = row.base
  below : row.base ≤ copyOffset
  fits : copyOffset - row.base < 2 ^ row.offsetBits
  headerFits : header < 2 ^ row.headerBits
  small : row.headerBits + row.offsetBits ≤ 19
  enough : 8 ≤ row.headerBits + row.offsetBits

/-- The branch that reads a length of match with logarithm `log`. -/
def lengthRow (log : Nat) : LengthRow :=
  ⟨.ofBits 32 log (2 ^ log - 2), 32 - 2 * log, 2 ^ log - 1, 2 ^ log, 2 * log⟩

/-- What makes the two directions of a format agree. -/
structure Format.Lawful (format : Format) : Prop where
  apart : MaskedCode.Apart id
    (lowLiteral :: highLiteral :: format.offsetRows.map OffsetRow.code)
  offsets : ∀ copyOffset, 0 < copyOffset → copyOffset < format.histBufLen →
    ∃ row ∈ format.offsetRows, ∃ header,
      row.Encodes (format.copyRange copyOffset) copyOffset header
  lengthsApart : MaskedCode.Apart LengthRow.code format.lengthRows
  three : ⟨.ofBits 32 1 0, 31, 0, 3, 1⟩ ∈ format.lengthRows
  lengths : ∀ log, 2 ≤ log → 2 ^ log < format.histBufLen →
    lengthRow log ∈ format.lengthRows ∧ (1 <<< log - 1) &&& format.lomMask = 2 ^ log - 2
  histBufLen_le : format.histBufLen ≤ 2 ^ 16
  histBufLen_le_capacity : format.histBufLen ≤ format.outputCapacity
  outputBufferSize_pos : 0 < format.outputBufferSize
  comprType : format.comprType = packetComprType8K ∨ format.comprType = packetComprType64K

private theorem log_lt_of_pow_lt {log bound : Nat} (below : 2 ^ log < 2 ^ bound) : log < bound :=
  (Nat.pow_lt_pow_iff_right (by decide)).mp below

theorem format40_lawful : format40.Lawful where
  apart := by decide
  offsets := by
    intro copyOffset positive bounded
    change copyOffset < 8192 at bounded
    simp only [format40, copyRange40]
    split
    · exact ⟨_, List.mem_cons_self, 0xf, by decide, rfl, rfl, rfl, by simp, by simp; omega,
        by decide, by decide, by decide⟩
    · split
      · exact ⟨_, List.mem_cons_of_mem _ List.mem_cons_self, 0xe, by decide, rfl, rfl, rfl,
          by simp; omega, by simp; omega, by decide, by decide, by decide⟩
      · exact ⟨_, List.mem_cons_of_mem _ (List.mem_cons_of_mem _ List.mem_cons_self), 0x6,
          by decide, rfl, rfl, rfl, by simp; omega, by simp; omega, by decide, by decide,
          by decide⟩
  lengthsApart := by decide
  three := by decide
  lengths := by
    intro log atLeast bounded
    have small : log < 13 := log_lt_of_pow_lt bounded
    have every : ∀ log ∈ List.range' 2 11, lengthRow log ∈ format40.lengthRows ∧
        (1 <<< log - 1) &&& format40.lomMask = 2 ^ log - 2 := by decide
    exact every log (List.mem_range'_1.mpr ⟨atLeast, by omega⟩)
  histBufLen_le := by decide
  histBufLen_le_capacity := by decide
  outputBufferSize_pos := by decide
  comprType := by decide

theorem format50_lawful : format50.Lawful where
  apart := by decide
  offsets := by
    intro copyOffset positive bounded
    change copyOffset < 65536 at bounded
    simp only [format50, copyRange50]
    split
    · exact ⟨_, List.mem_cons_self, 0x1f, by decide, rfl, rfl, rfl, by simp, by simp; omega,
        by decide, by decide, by decide⟩
    · split
      · exact ⟨_, List.mem_cons_of_mem _ List.mem_cons_self, 0x1e, by decide, rfl, rfl, rfl,
          by simp; omega, by simp; omega, by decide, by decide, by decide⟩
      · split
        · exact ⟨_, List.mem_cons_of_mem _ (List.mem_cons_of_mem _ List.mem_cons_self), 0xe,
            by decide, rfl, rfl, rfl, by simp; omega, by simp; omega, by decide, by decide,
            by decide⟩
        · exact ⟨_, List.mem_cons_of_mem _ (List.mem_cons_of_mem _
            (List.mem_cons_of_mem _ List.mem_cons_self)), 0x6, by decide, rfl, rfl, rfl,
            by simp; omega, by simp; omega, by decide, by decide, by decide⟩
  lengthsApart := by decide
  three := by decide
  lengths := by
    intro log atLeast bounded
    have small : log < 16 := log_lt_of_pow_lt bounded
    have every : ∀ log ∈ List.range' 2 14, lengthRow log ∈ format50.lengthRows ∧
        (1 <<< log - 1) &&& format50.lomMask = 2 ^ log - 2 := by decide
    exact every log (List.mem_range'_1.mpr ⟨atLeast, by omega⟩)
  histBufLen_le := by decide
  histBufLen_le_capacity := by decide
  outputBufferSize_pos := by decide
  comprType := by decide

def Format.tokenInsertions (format : Format) : Token Byte → List (Nat × Nat)
  | .literal value => [Output.literalBits value]
  | .copy offset length => format.tupleInsertions offset length

def Format.tokenBits (format : Format) (token : Token Byte) : List Bool :=
  Output.insertedBits (format.tokenInsertions token)

theorem Format.insertions_eq (format : Format) (found : Found) :
    format.insertions found = format.tokenInsertions found.token := by
  cases found <;> rfl

theorem low_toNat_lt : ∀ c : Byte, c &&& 0x80 = 0 → c.toNat < 2 ^ 7 := by decide

theorem Format.tokenBits_low (format : Format) {c : Byte} (low : c &&& 0x80 = 0) :
    format.tokenBits (.literal c) = bitsOf 8 c.toNat := by
  simp [Format.tokenBits, Format.tokenInsertions, Output.insertedBits,
    Output.literalBits_low low]

theorem Format.tokenBits_high (format : Format) {c : Byte} (high : c &&& 0x80 ≠ 0) :
    format.tokenBits (.literal c) = bitsOf 2 2 ++ bitsOf 7 (c &&& 0x7F).toNat := by
  have small : ∀ c : Byte, (c &&& 0x7F).toNat < 2 ^ 7 := by decide
  simp only [Format.tokenBits, Format.tokenInsertions, Output.insertedBits,
    Output.literalBits_high high, List.flatMap_cons, List.flatMap_nil, List.append_nil]
  exact bitsOf_or 2 7 2 (c &&& 0x7F).toNat (small c)

/-- The bits that give a length of match. -/
def lengthBits (lom : Nat) : List Bool :=
  if lom = 3 then bitsOf 1 0
  else bitsOf lom.log2 (2 ^ lom.log2 - 2) ++ bitsOf lom.log2 (lom - 2 ^ lom.log2)

theorem log2_bounds {lom : Nat} (long : 4 ≤ lom) :
    2 ≤ lom.log2 ∧ 2 ^ lom.log2 ≤ lom ∧ lom < 2 ^ (lom.log2 + 1) := by
  have positive : lom ≠ 0 := by omega
  refine ⟨?_, Nat.log2_self_le positive, Nat.lt_log2_self⟩
  exact (Nat.le_log2 positive).mpr (by omega)

variable {format : Format}

theorem Format.tokenBits_copy (lawful : format.Lawful)
    {copyOffset lom header : Nat} {row : OffsetRow}
    (encodes : row.Encodes (format.copyRange copyOffset) copyOffset header) (long : 3 ≤ lom)
    (bounded : lom < format.histBufLen) :
    format.tokenBits (.copy copyOffset lom) = bitsOf row.headerBits header ++
      (bitsOf row.offsetBits (copyOffset - row.base) ++ lengthBits lom) := by
  have first : bitsOf (format.copyRange copyOffset).nbbits
      ((format.copyRange copyOffset).header ||| (copyOffset - (format.copyRange copyOffset).base)) =
      bitsOf row.headerBits header ++ bitsOf row.offsetBits (copyOffset - row.base) := by
    rw [encodes.nbbits, encodes.written, encodes.base]
    exact bitsOf_or _ _ _ _ encodes.fits
  simp only [Format.tokenBits, Format.tokenInsertions, Format.tupleInsertions,
    Output.insertedBits, List.flatMap_cons, List.flatMap_nil, List.append_nil, first,
    List.append_assoc]
  congr 2
  by_cases three : lom = 3
  · simp [lengthBits, three]
  · obtain ⟨atLeast, below, above⟩ := log2_bounds (show 4 ≤ lom by omega)
    obtain ⟨_, masked⟩ := lawful.lengths lom.log2 atLeast (by omega)
    have fits : lom - 1 <<< lom.log2 < 2 ^ lom.log2 := by
      rw [Nat.one_shiftLeft]
      omega
    simp only [three, if_false, lengthBits, masked, Nat.two_mul]
    rw [bitsOf_or _ _ _ _ fits, Nat.one_shiftLeft]

def Format.Valid (format : Format) : Token Byte → Prop
  | .literal _ => True
  | .copy offset length =>
    0 < offset ∧ offset < format.histBufLen ∧ 3 ≤ length ∧ length < format.histBufLen

theorem literalBits_small : ∀ c : Byte,
    (Output.literalBits c).2 < 2 ^ (Output.literalBits c).1 := by decide

theorem Format.tokenInsertions_small (lawful : format.Lawful)
    {token : Token Byte} (valid : format.Valid token) :
    ∀ insertion ∈ format.tokenInsertions token, insertion.2 < 2 ^ insertion.1 := by
  cases token with
  | literal c =>
    intro insertion member
    rw [List.mem_singleton.mp member]
    exact literalBits_small c
  | copy offset length =>
    obtain ⟨positive, inside, long, short⟩ := valid
    obtain ⟨row, _, header, encodes⟩ := lawful.offsets offset positive inside
    intro insertion member
    rcases List.mem_cons.mp member with rfl | second
    · rw [encodes.written, encodes.nbbits, encodes.base]
      exact fields_lt encodes.headerFits encodes.fits
    · rw [List.mem_singleton.mp second]
      by_cases three : length = 3
      · simp [three]
      · obtain ⟨atLeast, below, above⟩ := log2_bounds (show 4 ≤ length by omega)
        obtain ⟨_, masked⟩ := lawful.lengths length.log2 atLeast (by omega)
        simp only [three, if_false, masked]
        rw [Nat.two_mul, Nat.one_shiftLeft]
        exact fields_lt (by omega) (by omega)

/-- The bits of a packet all of whose bytes are literals. -/
def plainBits (data : List Byte) : Nat := (data.map fun byte => (Output.literalBits byte).1).sum

theorem plainBits_bounds (data : List Byte) :
    8 * data.length ≤ plainBits data ∧ plainBits data ≤ 9 * data.length := by
  have each : ∀ c : Byte, 8 ≤ (Output.literalBits c).1 ∧ (Output.literalBits c).1 ≤ 9 := by decide
  induction data with
  | nil => decide
  | cons byte rest ih =>
    have width := each byte
    simp only [plainBits, List.map_cons, List.sum_cons, List.length_cons] at ih ⊢
    omega

theorem plainBits_append (front back : List Byte) :
    plainBits (front ++ back) = plainBits front + plainBits back := by
  rw [plainBits, List.map_append, List.sum_append, plainBits, plainBits]

theorem Format.eight_le_tokenBits (lawful : format.Lawful)
    {token : Token Byte} (valid : format.Valid token) :
    8 ≤ (format.tokenBits token).length := by
  cases token with
  | literal c =>
    by_cases low : c &&& 0x80 = 0
    · simp [format.tokenBits_low low]
    · simp [format.tokenBits_high low]
  | copy offset length =>
    obtain ⟨positive, inside, long, short⟩ := valid
    obtain ⟨row, _, header, encodes⟩ := lawful.offsets offset positive inside
    have enough := encodes.enough
    rw [Format.tokenBits_copy lawful encodes long short]
    simp only [List.length_append, length_bitsOf]
    omega

theorem Format.eight_mul_le (lawful : format.Lawful)
    {tokens : List (Token Byte)} (valid : ∀ token ∈ tokens, format.Valid token) :
    8 * tokens.length ≤ (tokens.flatMap format.tokenBits).length := by
  induction tokens with
  | nil => simp
  | cons token rest ih =>
    have wide := Format.eight_le_tokenBits lawful (valid token List.mem_cons_self)
    have others := ih fun other member => valid other (List.mem_cons_of_mem _ member)
    simp only [List.length_cons, List.flatMap_cons, List.length_append]
    omega

/-- A copy takes no more than eight bits for each byte of its span. -/
theorem Format.tokenBits_copy_le (lawful : format.Lawful) {offset length : Nat}
    (valid : format.Valid (.copy offset length)) :
    (format.tokenBits (.copy offset length)).length ≤ 8 * length := by
  obtain ⟨positive, inside, long, short⟩ := valid
  obtain ⟨row, _, header, encodes⟩ := lawful.offsets offset positive inside
  have small := encodes.small
  rw [Format.tokenBits_copy lawful encodes long short]
  simp only [List.length_append, length_bitsOf, lengthBits]
  split
  · rw [length_bitsOf]
    omega
  · have below : length.log2 < length := (Nat.log2_lt (by omega)).mpr Nat.lt_two_pow_self
    simp only [List.length_append, length_bitsOf]
    omega

/-- Tokens take no more bits than the literals of the bytes that they stand for. -/
theorem Format.le_plainBits (lawful : format.Lawful) {text : Nat → Byte}
    {start finish : Nat} {tokens : List (Token Byte)} (parse : Parses text start finish tokens)
    (valid : ∀ token ∈ tokens, format.Valid token) :
    (tokens.flatMap format.tokenBits).length ≤
      plainBits ((List.range (finish - start)).map fun index => text (start + index)) := by
  have split : ∀ position length, position + length ≤ finish →
      plainBits ((List.range (finish - position)).map fun index => text (position + index)) =
        plainBits ((List.range length).map fun index => text (position + index)) +
        plainBits ((List.range (finish - (position + length))).map
          fun index => text (position + length + index)) := by
    intro position length inside
    rw [← plainBits_append, show finish - position = length + (finish - (position + length)) by omega,
      List.range_add, List.map_append, List.map_map]
    simp only [Function.comp_def, Nat.add_assoc]
  induction parse with
  | done => exact Nat.zero_le _
  | @literal position finish rest tail ih =>
    have after := tail.start_le_finish
    have others := ih (fun token member => valid token (List.mem_cons_of_mem _ member)) split
    have here : plainBits ((List.range 1).map fun index => text (position + index)) =
        (format.tokenBits (.literal (text position))).length := by
      simp [plainBits, Format.tokenBits, Format.tokenInsertions, Output.insertedBits]
    rw [split position 1 after, here, List.flatMap_cons, List.length_append]
    exact Nat.add_le_add_left others _
  | @copy position finish offset length rest positive reaches repeats tail ih =>
    have after := tail.start_le_finish
    have others := ih (fun token member => valid token (List.mem_cons_of_mem _ member)) split
    have here := Format.tokenBits_copy_le lawful (valid _ List.mem_cons_self)
    have least := (plainBits_bounds ((List.range length).map fun index =>
      text (position + index))).1
    rw [List.length_map, List.length_range] at least
    rw [split position length after, List.flatMap_cons, List.length_append]
    exact Nat.add_le_add (Nat.le_trans here least) others

theorem Format.insertedBits_tokens (format : Format) (tokens : List (Token Byte)) :
    Output.insertedBits (tokens.flatMap format.tokenInsertions) =
      tokens.flatMap format.tokenBits := by
  simp only [Output.insertedBits, List.flatMap_assoc]
  rfl

end Redemption.Mppc
