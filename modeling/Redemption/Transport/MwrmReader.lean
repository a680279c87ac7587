import Redemption.Transport.MwrmWriter

/-! The reader of the files that describe recordings. -/
namespace Redemption.Transport.Mwrm

open Redemption.Foundation Redemption.Utils

inductive ErrorId where
  | transportReadFailed
  | assertionFailed
  deriving DecidableEq, Repr

/-- What an `InTransport` will still give, and how much in each of the next reads at most, less
one; after these it gives all that is asked for. -/
structure Source where
  rest : List Byte
  sizes : List Nat

/-- `partial_read`. -/
def Source.partialRead (source : Source) (length : Nat) : List Byte × Source :=
  match source.sizes with
  | [] => (source.rest.take length, ⟨source.rest.drop length, []⟩)
  | size :: sizes =>
    (source.rest.take (min (size + 1) length), ⟨source.rest.drop (min (size + 1) length), sizes⟩)

theorem Source.partialRead_shorter (source : Source) (length : Nat)
    (some : (source.partialRead length).1 ≠ []) :
    (source.partialRead length).2.rest.length < source.rest.length := by
  have shorter (count : Nat) (some : source.rest.take count ≠ []) :
      (source.rest.drop count).length < source.rest.length := by
    have positive := List.length_pos_of_ne_nil some
    rw [List.length_take] at positive
    rw [List.length_drop]
    omega
  unfold Source.partialRead at some ⊢
  split
  · rename_i none
    rw [none] at some
    exact shorter length some
  · rename_i size sizes more
    rw [more] at some
    exact shorter _ some

/-- `MwrmLineReader`: `data` is what is in its buffer up to `eof`. -/
structure LineReader where
  data : List Byte
  eol : Nat
  cur : Nat
  ibuf : Source

namespace LineReader

def eof (reader : LineReader) : Nat := reader.data.length

def fresh (source : Source) : LineReader := ⟨[], 0, 0, source⟩

/-- The number of characters that are in the buffer at most. -/
def capacity : Nat := lineMax + 1 - 2

/-- `std::find` of a new line in the characters from `start` on. -/
def findNewLine (data : List Byte) (start : Nat) : Nat :=
  start + ((data.drop start).takeWhile (· ≠ 10)).length

/-- Read and append to the buffer until there is a new line or nothing more to read. -/
def fill (data : List Byte) (ibuf : Source) (pos : Nat) : List Byte × Source × Nat :=
  let read := ibuf.partialRead (capacity - data.length)
  if _none : read.1 = [] then (data, read.2, pos)
  else
    let more := data ++ read.1
    let pos := findNewLine more data.length
    if pos = more.length then fill more read.2 pos else (more, read.2, pos)
termination_by ibuf.rest.length
decreasing_by exact ibuf.partialRead_shorter _ _none

/-- `next_line`: whether there is a line. -/
def nextLine (reader : LineReader) : Except ErrorId (Bool × LineReader) :=
  if reader.eof < reader.eol then .ok (false, reader)
  else
    let cur := reader.eol
    let pos := findNewLine reader.data cur
    let (data, ibuf, pos, cur) :=
      if pos = reader.eof then
        let (data, ibuf, pos) := fill (reader.data.drop cur) reader.ibuf pos
        (data, ibuf, pos, 0)
      else (reader.data, reader.ibuf, pos, cur)
    let eol := if pos = data.length then pos else pos + 1
    if data.length = 0 then .ok (false, ⟨data, eol, cur, ibuf⟩)
    else if pos = data.length then .error .transportReadFailed
    else .ok (true, ⟨data, eol, cur, ibuf⟩)

/-- `get_buf`. -/
def getBuf (reader : LineReader) : List Byte :=
  (reader.data.take reader.eol).drop reader.cur

end LineReader

/-- `buf_sread_filename`, into an array with room for so many characters and their end. -/
def bufSreadFilename : Nat → List Byte → List Byte × List Byte
  | 0, pline => ([], pline)
  | _ + 1, [] => ([], [])
  | room + 1, char :: rest =>
    if char = 0 ∨ char = 32 then ([], char :: rest)
    else if char = 92 then
      match rest with
      | [] => ([], [])
      | escaped :: rest =>
        if escaped = 0 then ([], escaped :: rest)
        else
          let (filename, pline) := bufSreadFilename room rest
          (escaped :: filename, pline)
    else
      let (filename, pline) := bufSreadFilename room rest
      (char :: filename, pline)

/-- What is left of a line, and whether its format was wrong. -/
structure Parse where
  pline : List Byte
  err : Bool

namespace Parse

def preConsume (parse : Parse) : Parse :=
  if parse.pline.head? = some 32 then { parse with pline := parse.pline.tail }
  else { parse with err := true }

/-- `consume_ll` and `consume_ull`. -/
def consume (type : IntType) (parse : Parse) : Int × Parse :=
  let parse := parse.preConsume
  let (value, pline) := decimalCharsToInt type parse.pline
  (value, { parse with pline })

/-- The space before a hash and the hash. -/
def consumeHash (parse : Parse) : List Byte × Parse :=
  let space := parse.pline.head? = some 32
  let input := parse.pline.tail.take 64
  let (hash, right) := hexadecimalStringToBuffer input
  (hash, ⟨parse.pline.tail.drop 64, parse.err || !space || !right⟩)

end Parse

/-- `checked_cast` to an unsigned type: its assertion is there unless `NDEBUG` is defined. -/
def checkedCast (ndebug : Bool) (width : Nat) (value : Int) : Except ErrorId (BitVec width) :=
  if ndebug ∨ (0 ≤ value ∧ value < 2 ^ width) then .ok (BitVec.ofInt width value)
  else .error .assertionFailed

inductive FileType where
  | hash
  | mwrm
  deriving DecidableEq, Repr

def toHash (bytes : List Byte) : Except ErrorId Hash :=
  if length : bytes.length = 32 then .ok ⟨bytes, length⟩ else .error .transportReadFailed

/-- The hashes at the end of a line, if there are to be some. -/
def readHashs (withHash : Bool) (parse : Parse) :
    Except ErrorId (Option (Hash × Hash) × Parse) :=
  if withHash then
    if parse.pline.length ≠ (32 + 32) * 2 + 3 then .ok (none, { parse with err := true })
    else if parse.err then .ok (none, parse)
    else do
      let (hash1, parse) := parse.consumeHash
      let (hash2, parse) := parse.consumeHash
      return (some (← toHash hash1, ← toHash hash2), parse)
  else .ok (none, parse)

/-- `read_meta_line_v2`, once there is a line. -/
def parseLineV2 (ndebug hasChecksum : Bool) (fileType : FileType) (line : List Byte) :
    Except ErrorId MetaLine := do
  let (filename, pline) := bufSreadFilename PATH_MAX line
  let (size, parse) := Parse.consume .longLong ⟨pline, false⟩
  let (mode, parse) := parse.consume .unsignedLongLong
  let mode ← checkedCast ndebug 32 mode
  let (uid, parse) := parse.consume .longLong
  let uid ← checkedCast ndebug 32 uid
  let (gid, parse) := parse.consume .longLong
  let gid ← checkedCast ndebug 32 gid
  let (dev, parse) := parse.consume .unsignedLongLong
  let (ino, parse) := parse.consume .longLong
  let ino ← checkedCast ndebug 64 ino
  let (mtime, parse) := parse.consume .longLong
  let (ctime, parse) := parse.consume .longLong
  let (startTime, stopTime, parse) :=
    if fileType = .mwrm then
      let (startTime, parse) := parse.consume .longLong
      let (stopTime, parse) := parse.consume .longLong
      (startTime, stopTime, parse)
    else (0, 0, parse)
  let withHash :=
    if fileType = .mwrm then hasChecksum
    else hasChecksum || (parse.pline.head? ≠ some 10 && parse.pline.head?.getD 0 ≠ 0)
  let (hashes, parse) ← readHashs withHash parse
  if parse.err ∨ (parse.pline.head? ≠ some 10 ∧ parse.pline.head?.getD 0 ≠ 0) then
    throw .transportReadFailed
  else
    return {
      filename, mode, uid, gid, ino, hashes
      size := BitVec.ofInt 64 size
      dev := BitVec.ofInt 64 dev
      mtime := BitVec.ofInt 64 mtime
      ctime := BitVec.ofInt 64 ctime
      startTime := BitVec.ofInt 64 startTime
      stopTime := BitVec.ofInt 64 stopTime }

/-- `MwrmReader`. -/
structure Reader where
  lineReader : LineReader
  header : MetaHeader

namespace Reader

def fresh (source : Source) : Reader := ⟨LineReader.fresh source, ⟨.v1, 0, 0, false⟩⟩

/-- A line that has to be there. -/
def expectLine (reader : LineReader) : Except ErrorId LineReader := do
  let (there, reader) ← reader.nextLine
  if there then return reader else throw .transportReadFailed

def readMetaHeaders (reader : Reader) : Except ErrorId Reader := do
  let first ← expectLine reader.lineReader
  if first.getBuf.head? = some 118 then
    let second ← expectLine first
    let (width, whLine) := decimalCharsToInt .uint16 second.getBuf
    let whLine := if whLine.head? = some 32 then whLine.tail else whLine
    let (height, _) := decimalCharsToInt .uint16 whLine
    let third ← expectLine second
    let blank ← expectLine third
    let blank ← expectLine blank
    return ⟨blank, ⟨.v2, BitVec.ofInt 16 width, BitVec.ofInt 16 height,
      third.getBuf.head? = some 99⟩⟩
  else
    let blank ← expectLine first
    let blank ← expectLine blank
    return ⟨blank, ⟨.v1, 0, 0, false⟩⟩

variable (ndebug : Bool)
  (readV1 : FileType → LineReader → Except ErrorId (Option MetaLine × LineReader))

/-- `read_meta_line_v2`: a line, or nothing at the end. -/
def readMetaLineV2 (fileType : FileType) (reader : Reader) :
    Except ErrorId (Option MetaLine × Reader) := do
  let (there, lineReader) ← reader.lineReader.nextLine
  if there then
    let metaLine ← parseLineV2 ndebug reader.header.hasChecksum fileType lineReader.getBuf
    return (some metaLine, { reader with lineReader })
  else return (none, { reader with lineReader })

/-- `read_meta_line`; what is done with files of the old version is `readV1`. -/
def readMetaLine (reader : Reader) : Except ErrorId (Option MetaLine × Reader) :=
  match reader.header.version with
  | .v1 => do
    let (metaLine, lineReader) ← readV1 .mwrm reader.lineReader
    return (metaLine, { reader with lineReader })
  | .v2 => readMetaLineV2 ndebug .mwrm reader

/-- `read_meta_hash_line`. -/
def readMetaHashLine (reader : Reader) : Except ErrorId MetaLine := do
  let (metaLine, reader) ←
    match reader.header.version with
    | .v1 => do
      let (metaLine, lineReader) ← readV1 .hash reader.lineReader
      pure (metaLine, { reader with lineReader })
    | .v2 => do
      let (first, lineReader) ← reader.lineReader.nextLine
      let (second, lineReader) ← lineReader.nextLine
      let (third, lineReader) ← lineReader.nextLine
      if first && second && third then readMetaLineV2 ndebug .hash { reader with lineReader }
      else throw .transportReadFailed
  match metaLine with
  | none => throw .transportReadFailed
  | some metaLine =>
    let (there, _) ← reader.lineReader.nextLine
    if there then throw .transportReadFailed else return metaLine

/-- So many calls of `read_meta_line`. -/
def readMetaLines (reader : Reader) : Nat → Except ErrorId (List (Option MetaLine))
  | 0 => .ok []
  | count + 1 => do
    let (metaLine, reader) ← readMetaLine ndebug readV1 reader
    let more ← readMetaLines reader count
    return metaLine :: more

end Reader

end Redemption.Transport.Mwrm
