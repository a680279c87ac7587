import Redemption.Transport.MwrmFields
import Redemption.Transport.MwrmLines

/-! What is read from the files that describe recordings is what was written, for names that fit. -/
namespace Redemption.Transport.Mwrm

open Redemption.Foundation Redemption.Utils

/-- A name that can stand in a line. -/
structure Writable (metaLine : MetaLine) : Prop where
  noNul : (0 : Byte) ∉ metaLine.filename
  noNewLine : (10 : Byte) ∉ metaLine.filename

section Body

/-- A line without its end. -/
def lineBody (len : Nat) (metaLine : MetaLine) (withTime : Bool) : List Byte :=
  writeFilename len metaLine.filename ++ (writeStat metaLine ++
    ((if withTime then writeStartAndStop metaLine else []) ++ writeHashs metaLine.hashes))

theorem mwrmWriteLine_append (len : Nat) (metaLine : MetaLine) (withTime : Bool)
    (rest : List Byte) :
    mwrmWriteLine len metaLine withTime ++ rest = lineBody len metaLine withTime ++ 10 :: rest := by
  simp only [mwrmWriteLine, lineBody, List.append_assoc, List.cons_append, List.nil_append]

theorem length_lineBody {len : Nat} (metaLine : MetaLine) (withTime : Bool) (header : len ≤ 42) :
    (lineBody len metaLine withTime).length < LineReader.capacity := by
  have room := length_mwrmWriteLine len metaLine withTime header
  have whole := congrArg List.length (mwrmWriteLine_append len metaLine withTime [])
  have most : LineReader.capacity = lineMax - 1 := rfl
  simp only [List.append_nil, List.length_append, List.length_singleton] at whole
  omega

theorem not_mem_writeFilename {len : Nat} {filename : List Byte}
    (plain : (10 : Byte) ∉ filename) : (10 : Byte) ∉ writeFilename len filename := by
  induction filename generalizing len with
  | nil => exact plain
  | cons char rest ih =>
    rw [List.mem_cons, not_or] at plain
    unfold writeFilename
    split
    · split
      · have more := @ih (len + 2) plain.2
        simp only [List.mem_cons, not_or]
        exact ⟨by decide, plain.1, more⟩
      · rw [List.mem_cons, not_or]
        exact ⟨plain.1, ih plain.2⟩
    · exact List.not_mem_nil

theorem not_mem_writeLl (number : Int) : (10 : Byte) ∉ writeLl number := by
  intro member
  rcases List.mem_cons.mp member with space | digit
  · exact absurd space (by decide)
  · rcases mem_signedChars digit with decimal | sign
    · exact absurd decimal (by decide)
    · exact absurd sign (by decide)

theorem not_mem_unsignedChars (number : Nat) : (10 : Byte) ∉ unsignedChars number := fun member =>
  absurd (mem_unsignedChars member) (by decide)

theorem not_mem_writeUll (number : Nat) : (10 : Byte) ∉ writeUll number := by
  intro member
  rcases List.mem_cons.mp member with space | digit
  · exact absurd space (by decide)
  · exact not_mem_unsignedChars number digit

private theorem not_mem_hexadecimal (byte : Byte) :
    (10 : Byte) ∉ fixedHexadecimalLowerChars byte := by
  revert byte
  decide

theorem not_mem_writeHash (hash : Hash) : (10 : Byte) ∉ writeHash hash := by
  intro member
  rcases List.mem_cons.mp member with space | inside
  · exact absurd space (by decide)
  · obtain ⟨byte, _, chars⟩ := List.mem_flatMap.mp inside
    exact not_mem_hexadecimal byte chars

theorem not_mem_writeHashs (hashes : Option (Hash × Hash)) : (10 : Byte) ∉ writeHashs hashes := by
  cases hashes with
  | none => exact List.not_mem_nil
  | some both =>
    rw [writeHashs, List.mem_append, not_or]
    exact ⟨not_mem_writeHash _, not_mem_writeHash _⟩

theorem not_mem_lineBody {len : Nat} {metaLine : MetaLine} (withTime : Bool)
    (plain : (10 : Byte) ∉ metaLine.filename) : (10 : Byte) ∉ lineBody len metaLine withTime := by
  have filename := @not_mem_writeFilename len _ plain
  have times : (10 : Byte) ∉ if withTime then writeStartAndStop metaLine else [] := by
    cases withTime with
    | false => exact List.not_mem_nil
    | true =>
      rw [if_pos rfl, writeStartAndStop, List.mem_append, not_or]
      exact ⟨not_mem_writeLl _, not_mem_writeLl _⟩
  simp only [lineBody, writeStat, List.mem_append, not_or, not_mem_writeLl, not_mem_writeUll,
    not_mem_writeHashs, filename, times, not_false_iff, and_self]

end Body

namespace LineReader

theorem expectLine_line {reader : LineReader} {line rest : List Byte}
    (pending : Pending reader (line ++ 10 :: rest)) (plain : (10 : Byte) ∉ line)
    (fits : line.length < capacity) :
    ∃ after, Reader.expectLine reader = .ok after ∧ after.getBuf = line ++ [10] ∧
      Pending after rest := by
  obtain ⟨after, found, buf, pending'⟩ := nextLine_line pending plain fits
  refine ⟨after, ?_, buf, pending'⟩
  rw [Reader.expectLine, found]
  rfl

end LineReader

namespace Reader

open LineReader

variable {ndebug : Bool}
  {readV1 : FileType → LineReader → Except ErrorId (Option MetaLine × LineReader)}

theorem writeHeader_append (width height : BitVec 16) (hasChecksum : Bool) (rest : List Byte) :
    writeHeader width height hasChecksum ++ rest =
      [118, 50] ++ 10 :: ((unsignedChars width.toNat ++ 32 :: unsignedChars height.toNat) ++
        10 :: (checksumChars hasChecksum ++ 10 :: ([] ++ 10 :: ([] ++ 10 :: rest)))) := by
  simp only [writeHeader, List.append_assoc, List.cons_append, List.nil_append]

theorem decimalCharsToInt_uint16 (number : BitVec 16) {rest : List Byte}
    (ended : isDecimalHead rest = false) :
    decimalCharsToInt .uint16 (unsignedChars number.toNat ++ rest) =
      ((number.toNat : Int), rest) := by
  have has : IntType.uint16.Has number.toNat := by
    refine ⟨?_, ?_⟩
    · change (number.toNat : Int) ≤ ((2 ^ 16 - 1 : Nat) : Int)
      omega
    · change (0 : Int) ≤ number.toNat
      omega
  exact decimalCharsToInt_chars has ended

theorem readMetaHeaders_writeHeader {reader : Reader} {width height : BitVec 16}
    {hasChecksum : Bool} {rest : List Byte}
    (pending : Pending reader.lineReader (writeHeader width height hasChecksum ++ rest)) :
    ∃ after, reader.readMetaHeaders = .ok ⟨after, ⟨.v2, width, height, hasChecksum⟩⟩ ∧
      Pending after rest := by
  have digits (number : BitVec 16) : (unsignedChars number.toNat).length ≤ 5 :=
    length_unsignedChars (by have := number.isLt; omega)
  have most : capacity = 4431 := rfl
  have empty : (10 : Byte) ∉ ([] : List Byte) := List.not_mem_nil
  rw [writeHeader_append] at pending
  obtain ⟨first, found1, buf1, pending1⟩ := expectLine_line pending (by decide) (by decide)
  obtain ⟨second, found2, buf2, pending2⟩ := expectLine_line pending1
    (by
      simp only [List.mem_append, List.mem_cons, not_or]
      exact ⟨not_mem_unsignedChars _, by decide, not_mem_unsignedChars _⟩)
    (by
      have wide := digits width
      have high := digits height
      rw [List.length_append, List.length_cons]
      omega)
  obtain ⟨third, found3, buf3, pending3⟩ := expectLine_line pending2
    (by cases hasChecksum <;> decide) (by cases hasChecksum <;> decide)
  obtain ⟨fourth, found4, _, pending4⟩ := expectLine_line pending3 empty (by decide)
  obtain ⟨fifth, found5, _, pending5⟩ := expectLine_line pending4 empty (by decide)
  have wide : decimalCharsToInt .uint16 second.getBuf =
      ((width.toNat : Int), 32 :: (unsignedChars height.toNat ++ [10])) := by
    rw [buf2, List.append_assoc, List.cons_append]
    exact decimalCharsToInt_uint16 width (isDecimalHead_space _)
  have high : decimalCharsToInt .uint16 (unsignedChars height.toNat ++ [10]) =
      ((height.toNat : Int), [10]) := decimalCharsToInt_uint16 height (by decide)
  have number (number : BitVec 16) : BitVec.ofInt 16 (number.toNat : Int) = number := by
    rw [BitVec.ofInt_natCast, BitVec.ofNat_toNat, BitVec.setWidth_eq]
  have version : first.getBuf.head? = some 118 := by
    rw [buf1]
    rfl
  have checksum : decide (third.getBuf.head? = some 99) = hasChecksum := by
    rw [buf3]
    cases hasChecksum <;> rfl
  refine ⟨fifth, ?_, pending5⟩
  unfold readMetaHeaders
  rw [found1]
  change (if first.getBuf.head? = some 118 then _ else _) = _
  rw [if_pos version, found2]
  simp only [bind, Except.bind, wide, high, List.head?_cons, if_true, List.tail_cons, found3,
    found4, found5, number, checksum]
  rfl

theorem readMetaLineV2_mwrmWriteLine {reader : Reader} {fileType : FileType} {len : Nat}
    {metaLine : MetaLine} {rest : List Byte}
    (pending : Pending reader.lineReader
      (mwrmWriteLine len metaLine (fileType = .mwrm) ++ rest))
    (header : len ≤ 42) (writable : Writable metaLine)
    (flag : ChecksumFlag reader.header.hasChecksum metaLine fileType) :
    ∃ after, Pending after rest ∧
      readMetaLineV2 ndebug fileType reader =
        if InodeRead ndebug metaLine then
          .ok (some (metaLine.kept len fileType), { reader with lineReader := after })
        else .error .assertionFailed := by
  rw [mwrmWriteLine_append] at pending
  obtain ⟨after, found, buf, pending'⟩ := nextLine_line pending
    (not_mem_lineBody _ writable.noNewLine) (length_lineBody _ _ header)
  have whole := mwrmWriteLine_append len metaLine (decide (fileType = .mwrm)) []
  rw [List.append_nil] at whole
  refine ⟨after, pending', ?_⟩
  unfold readMetaLineV2
  rw [found]
  simp only [bind, Except.bind, if_true, buf, ← whole,
    parseLineV2_mwrmWriteLine writable.noNul flag]
  by_cases read : InodeRead ndebug metaLine
  · rw [if_pos read, if_pos read]
    rfl
  · rw [if_neg read, if_neg read]

theorem readMetaLines_end {reader : Reader} (ended : AtEnd reader.lineReader)
    (version : reader.header.version = .v2) (count : Nat) :
    readMetaLines ndebug readV1 reader count = .ok (List.replicate count none) := by
  induction count generalizing reader with
  | zero => rfl
  | succ count ih =>
    obtain ⟨after, found, ended'⟩ := nextLine_end ended
    have step : readMetaLine ndebug readV1 reader =
        .ok (none, { reader with lineReader := after }) := by
      rw [readMetaLine, version]
      rw [readMetaLineV2, found]
      rfl
    rw [readMetaLines, step]
    simp only [bind, Except.bind]
    rw [@ih { reader with lineReader := after } ended' version]
    rfl

/-- All lines of a file are read, up to the first with an inode that fails the assertion. -/
theorem readMetaLines_writeLine {reader : Reader} {lines : List MetaLine}
    (pending : Pending reader.lineReader (lines.flatMap writeLine))
    (version : reader.header.version = .v2)
    (writable : ∀ line ∈ lines,
      Writable line ∧ reader.header.hasChecksum = line.hashes.isSome) (more : Nat) :
    readMetaLines ndebug readV1 reader (lines.length + (more + 1)) =
      if ∀ line ∈ lines, InodeRead ndebug line then
        .ok (lines.map (fun line => some (line.kept 0 .mwrm)) ++ List.replicate (more + 1) none)
      else .error .assertionFailed := by
  induction lines generalizing reader with
  | nil =>
    rw [if_pos (by simp), List.length_nil, Nat.zero_add]
    exact readMetaLines_end pending.atEnd version (more + 1)
  | cons line lines ih =>
    rw [List.forall_mem_cons] at writable
    obtain ⟨⟨writable', flag⟩, others⟩ := writable
    obtain ⟨after, pending', step⟩ := @readMetaLineV2_mwrmWriteLine ndebug _ .mwrm _ _ _ pending (Nat.zero_le _) writable' flag
    have read : readMetaLine ndebug readV1 reader = readMetaLineV2 ndebug .mwrm reader := by
      rw [readMetaLine, version]
    have rest := @ih { reader with lineReader := after } pending' version others
    rw [List.length_cons, Nat.add_right_comm, readMetaLines, read, step]
    simp only [List.forall_mem_cons]
    by_cases inode : InodeRead ndebug line
    · rw [if_pos inode]
      simp only [bind, Except.bind, rest]
      by_cases inodes : ∀ line ∈ lines, InodeRead ndebug line
      · rw [if_pos inodes, if_pos ⟨inode, inodes⟩]
        rfl
      · rw [if_neg inodes, if_neg fun both => inodes both.2]
    · rw [if_neg inode, if_neg fun both => inode both.1]
      rfl

end Reader

/-- `read_meta_headers` and so many calls of `read_meta_line`. -/
def readFile (ndebug : Bool)
    (readV1 : FileType → LineReader → Except ErrorId (Option MetaLine × LineReader))
    (source : Source) (count : Nat) : Except ErrorId (MetaHeader × List (Option MetaLine)) := do
  let reader ← (Reader.fresh source).readMetaHeaders
  return (reader.header, ← reader.readMetaLines ndebug readV1 count)

/-- `set_header` and `read_meta_hash_line`. -/
def readHashFile (ndebug : Bool)
    (readV1 : FileType → LineReader → Except ErrorId (Option MetaLine × LineReader))
    (header : MetaHeader) (source : Source) : Except ErrorId MetaLine :=
  Reader.readMetaHashLine ndebug readV1 ⟨LineReader.fresh source, header⟩

/-- `write_header` and `write_line` for each line. -/
def writeFile (width height : BitVec 16) (hasChecksum : Bool) (lines : List MetaLine) :
    List Byte :=
  writeHeader width height hasChecksum ++ lines.flatMap writeLine

section Files

variable {ndebug : Bool}
  {readV1 : FileType → LineReader → Except ErrorId (Option MetaLine × LineReader)}

theorem readFile_writeFile {width height : BitVec 16} {hasChecksum : Bool}
    {lines : List MetaLine}
    (writable : ∀ line ∈ lines, Writable line ∧ hasChecksum = line.hashes.isSome)
    (sizes : List Nat) (more : Nat) :
    readFile ndebug readV1 ⟨writeFile width height hasChecksum lines, sizes⟩
        (lines.length + (more + 1)) =
      if ∀ line ∈ lines, InodeRead ndebug line then
        .ok (⟨.v2, width, height, hasChecksum⟩,
          lines.map (fun line => some (line.kept 0 .mwrm)) ++ List.replicate (more + 1) none)
      else .error .assertionFailed := by
  obtain ⟨after, header, pending⟩ := @Reader.readMetaHeaders_writeHeader (Reader.fresh ⟨writeFile width height hasChecksum lines, sizes⟩) _ _ _ _ (LineReader.pending_fresh _)
  have body := @Reader.readMetaLines_writeLine ndebug readV1 (⟨after, ⟨.v2, width, height, hasChecksum⟩⟩) _ pending rfl writable more
  rw [readFile, header]
  simp only [bind, Except.bind, body]
  by_cases inodes : ∀ line ∈ lines, InodeRead ndebug line
  · rw [if_pos inodes, if_pos inodes]
    rfl
  · rw [if_neg inodes, if_neg inodes]

theorem readHashFile_writeHashFile {header : MetaHeader} {metaLine : MetaLine}
    (version : header.version = .v2) (writable : Writable metaLine)
    (flag : header.hasChecksum → metaLine.hashes.isSome) (sizes : List Nat) :
    readHashFile ndebug readV1 header ⟨writeHashFile metaLine, sizes⟩ =
      if InodeRead ndebug metaLine then .ok (metaLine.kept 5 .hash)
      else .error .assertionFailed := by
  have empty : (10 : Byte) ∉ ([] : List Byte) := List.not_mem_nil
  have pending : LineReader.Pending (LineReader.fresh ⟨writeHashFile metaLine, sizes⟩)
      ([118, 50] ++ 10 :: ([] ++ 10 :: ([] ++ 10 :: mwrmWriteLine 5 metaLine false))) :=
    LineReader.pending_fresh _
  obtain ⟨first, found1, _, pending1⟩ := LineReader.nextLine_line pending (by decide) (by decide)
  obtain ⟨second, found2, _, pending2⟩ := LineReader.nextLine_line pending1 empty (by decide)
  obtain ⟨third, found3, _, pending3⟩ := LineReader.nextLine_line pending2 empty (by decide)
  obtain ⟨after, pending', step⟩ := @Reader.readMetaLineV2_mwrmWriteLine ndebug (⟨third, header⟩) .hash _ _ [] (by rw [List.append_nil]; exact pending3) (by decide) writable flag
  obtain ⟨_, ended, _⟩ := LineReader.nextLine_end pending'.atEnd
  rw [readHashFile, Reader.readMetaHashLine]
  simp only [version, found1, found2, found3, bind, Except.bind, Bool.and_self, if_true, step]
  by_cases read : InodeRead ndebug metaLine
  · rw [if_pos read, if_pos read]
    simp only [ended]
    rfl
  · rw [if_neg read, if_neg read]

theorem kept_mwrm_eq (metaLine : MetaLine) :
    metaLine.kept 0 .mwrm = metaLine ↔ Fits 0 metaLine.filename := by
  rw [← keptFilename_eq]
  constructor
  · intro same
    exact congrArg MetaLine.filename same
  · intro same
    rw [MetaLine.kept, same]

theorem kept_hash_eq (metaLine : MetaLine) :
    metaLine.kept 5 .hash = { metaLine with startTime := 0, stopTime := 0 } ↔
      Fits 5 metaLine.filename := by
  rw [← keptFilename_eq]
  constructor
  · intro same
    exact congrArg MetaLine.filename same
  · intro same
    rw [MetaLine.kept, same]

end Files

/-- What was written is read back exactly if the names are not longer than `write_filename` takes
and no inode fails the assertion; the times are not in the file with one line. The writer stays in
its buffer. -/
theorem mwrm_round_trip (ndebug : Bool)
    (readV1 : FileType → LineReader → Except ErrorId (Option MetaLine × LineReader))
    (width height : BitVec 16) (hasChecksum : Bool) (lines : List MetaLine) (sizes : List Nat)
    (more : Nat)
    (writable : ∀ line ∈ lines, Writable line ∧ hasChecksum = line.hashes.isSome) :
    (readFile ndebug readV1 ⟨writeFile width height hasChecksum lines, sizes⟩
          (lines.length + (more + 1)) =
        .ok (⟨.v2, width, height, hasChecksum⟩,
          lines.map some ++ List.replicate (more + 1) none) ↔
      ∀ line ∈ lines, Fits 0 line.filename ∧ InodeRead ndebug line) ∧
    (∀ line ∈ lines, ∀ header : MetaHeader, header.version = .v2 →
      (header.hasChecksum → hasChecksum) →
      (readHashFile ndebug readV1 header ⟨writeHashFile line, sizes⟩ =
          .ok { line with startTime := 0, stopTime := 0 } ↔
        Fits 5 line.filename ∧ InodeRead ndebug line)) ∧
    (writeHeader width height hasChecksum).length < mesSize ∧
    ∀ line : MetaLine, (writeLine line).length < mesSize ∧
      (writeHashFile line).length < mesSize := by
  have most : mesSize = lineMax + 43 := rfl
  refine ⟨?_, ?_, length_writeHeader width height hasChecksum, fun line => ⟨?_, ?_⟩⟩
  · rw [readFile_writeFile writable]
    have same : lines.map (fun line => some (line.kept 0 .mwrm)) = lines.map some ↔
        ∀ line ∈ lines, Fits 0 line.filename := by
      rw [List.map_inj_left]
      simp only [Option.some.injEq, kept_mwrm_eq]
    simp only [forall_and, ← same]
    by_cases inodes : ∀ line ∈ lines, InodeRead ndebug line
    · rw [if_pos inodes, and_iff_left inodes, Except.ok.injEq, Prod.mk.injEq,
        List.append_left_inj, and_iff_right rfl]
    · rw [if_neg inodes]
      exact iff_of_false (fun same => nomatch same) (fun both => inodes both.2)
  · intro line member header version flag
    obtain ⟨writable', some⟩ := writable line member
    rw [readHashFile_writeHashFile version writable' (fun known => some ▸ flag known),
      ← kept_hash_eq]
    by_cases inode : InodeRead ndebug line
    · rw [if_pos inode]
      simp [inode]
    · simp [inode]
  · have room := length_mwrmWriteLine 0 line true (by decide)
    rw [writeLine]
    omega
  · have room := length_mwrmWriteLine hashHeader.length line false (by decide)
    rw [writeHashFile, List.length_append]
    omega

/-- A line with a name of so many letters. -/
def lineNamed (count : Nat) : MetaLine :=
  ⟨List.replicate count 97, 12, 33152, 1000, 1000, 5, 77, 1700000000, 1700000000, 3, 4, none⟩

theorem writable_lineNamed (count : Nat) : Writable (lineNamed count) :=
  ⟨fun member => absurd (List.eq_of_mem_replicate member) (by decide),
    fun member => absurd (List.eq_of_mem_replicate member) (by decide)⟩

theorem fits_lineNamed {count : Nat} (len : Nat) (some : 0 < count) :
    Fits len (lineNamed count).filename ↔ len + (count - 1) < PATH_MAX - 2 := by
  have more : List.replicate count (97 : Byte) ≠ [] := by
    rw [ne_eq, List.replicate_eq_nil_iff]
    omega
  have width : escapedWidth 97 = 1 := by decide
  rw [Fits, lineNamed]
  simp only [more, false_or, List.dropLast_replicate, List.map_replicate, width,
    List.sum_replicate_nat, Nat.mul_one]

theorem mwrm_round_trip_named :
    readFile false (fun _ reader => .ok (none, reader))
        ⟨writeFile 800 600 false [lineNamed 200], [3, 0, 20]⟩ 2 =
      .ok (⟨.v2, 800, 600, false⟩, [some (lineNamed 200), none]) :=
  (mwrm_round_trip false (fun _ reader => .ok (none, reader)) 800 600 false [lineNamed 200]
    [3, 0, 20] 0 (by simpa using ⟨writable_lineNamed 200, rfl⟩)).1.mpr
    (by
      simp only [List.mem_singleton, forall_eq]
      exact ⟨(fits_lineNamed 0 (by decide)).mpr (by decide), .inr (by decide)⟩)

/-- Of a name with the most letters that a path has, the last is lost. -/
theorem mwrm_longest_name :
    readFile true (fun _ reader => .ok (none, reader))
        ⟨writeFile 800 600 false [lineNamed 4095], []⟩ 2 ≠
      .ok (⟨.v2, 800, 600, false⟩, [some (lineNamed 4095), none]) := by
  have read := @readFile_writeFile true (fun _ reader => .ok (none, reader)) 800 600 false ([lineNamed 4095]) (by simpa using ⟨writable_lineNamed 4095, rfl⟩) [] 0
  rw [if_pos (fun _ _ => .inl rfl)] at read
  intro same
  rw [show (2 : Nat) = [lineNamed 4095].length + (0 + 1) from rfl, read] at same
  have kept : (lineNamed 4095).kept 0 .mwrm = lineNamed 4095 := by
    simpa using same
  have fits := (fits_lineNamed 0 (by decide)).mp ((kept_mwrm_eq _).mp kept)
  exact absurd fits (by decide)

end Redemption.Transport.Mwrm
