import Redemption.Utils.CharsToInt

/-! The lines of the files that describe recordings. -/
namespace Redemption.Transport.Mwrm

open Redemption.Foundation Redemption.Utils

/-- `PATH_MAX`. -/
def PATH_MAX : Nat := 4096

/-- A digest of `MD_HASH`. -/
abbrev Hash := { bytes : List Byte // bytes.length = 32 }

inductive WrmVersion where
  | v1
  | v2
  deriving DecidableEq, Repr

structure MetaHeader where
  version : WrmVersion
  width : BitVec 16
  height : BitVec 16
  hasChecksum : Bool
  deriving DecidableEq, Repr

/-- `MetaLine`; there are hashes if there is `with_hash`. -/
structure MetaLine where
  filename : List Byte
  size : BitVec 64
  mode : BitVec 32
  uid : BitVec 32
  gid : BitVec 32
  dev : BitVec 64
  ino : BitVec 64
  mtime : BitVec 64
  ctime : BitVec 64
  startTime : BitVec 64
  stopTime : BitVec 64
  hashes : Option (Hash × Hash)

/-- `MwrmLineReader::line_max`. -/
def lineMax : Nat :=
  PATH_MAX + 1 + 1 + (18 + 1 + 1) * 8 + (19 + 1 + 1) * 2 + (1 + 32 * 2) * 2 + 2

/-- The size of `MwrmWriterBuf::mes`. -/
def mesSize : Nat := lineMax + 42 + 1

/-- `write_filename`, with `len` characters already in the buffer. -/
def writeFilename (len : Nat) : List Byte → List Byte
  | [] => []
  | char :: rest =>
    if char ≠ 0 ∧ len < PATH_MAX - 2 then
      if char = 92 ∨ char = 32 then 92 :: char :: writeFilename (len + 2) rest
      else char :: writeFilename (len + 1) rest
    else []

/-- A number behind a space. -/
def writeLl (number : Int) : List Byte := 32 :: signedChars number

def writeUll (number : Nat) : List Byte := 32 :: unsignedChars number

/-- `write_stat`: each field is converted to `long long` or `unsigned long long`. -/
def writeStat (metaLine : MetaLine) : List Byte :=
  writeLl metaLine.size.toInt ++ (writeUll metaLine.mode.toNat ++
    (writeLl metaLine.uid.toNat ++ (writeLl metaLine.gid.toNat ++
      (writeUll metaLine.dev.toNat ++ (writeLl metaLine.ino.toInt ++
        (writeLl metaLine.mtime.toInt ++ writeLl metaLine.ctime.toInt))))))

def writeStartAndStop (metaLine : MetaLine) : List Byte :=
  writeLl metaLine.startTime.toInt ++ writeLl metaLine.stopTime.toInt

/-- `hexdump`. -/
def writeHash (hash : Hash) : List Byte := 32 :: hash.val.flatMap fixedHexadecimalLowerChars

def writeHashs : Option (Hash × Hash) → List Byte
  | none => []
  | some (qhash, fhash) => writeHash qhash ++ writeHash fhash

/-- `mwrm_write_line`, behind `len` characters. -/
def mwrmWriteLine (len : Nat) (metaLine : MetaLine) (withTime : Bool) : List Byte :=
  writeFilename len metaLine.filename ++ (writeStat metaLine ++
    ((if withTime then writeStartAndStop metaLine else []) ++ (writeHashs metaLine.hashes ++ [10])))

/-- `write_line`: the buffer. -/
def writeLine (metaLine : MetaLine) : List Byte := mwrmWriteLine 0 metaLine true

/-- "v2\n\n\n". -/
def hashHeader : List Byte := [118, 50, 10, 10, 10]

/-- `write_hash_file`: the buffer. -/
def writeHashFile (metaLine : MetaLine) : List Byte :=
  hashHeader ++ mwrmWriteLine hashHeader.length metaLine false

/-- "checksum" or "nochecksum". -/
def checksumChars (hasChecksum : Bool) : List Byte :=
  if hasChecksum then [99, 104, 101, 99, 107, 115, 117, 109]
  else [110, 111, 99, 104, 101, 99, 107, 115, 117, 109]

/-- `write_header`: the buffer. -/
def writeHeader (width height : BitVec 16) (hasChecksum : Bool) : List Byte :=
  [118, 50, 10] ++ (unsignedChars width.toNat ++ ([32] ++ (unsignedChars height.toNat ++
    ([10] ++ (checksumChars hasChecksum ++ [10, 10, 10])))))

section Room

theorem length_writeFilename (len : Nat) (filename : List Byte) :
    len + (writeFilename len filename).length ≤ max len (PATH_MAX - 1) := by
  induction filename generalizing len with
  | nil => exact Nat.le_max_left _ _
  | cons char rest ih =>
    unfold writeFilename
    split
    · rename_i room
      split
      · have step := ih (len + 2)
        rw [List.length_cons, List.length_cons]
        omega
      · have step := ih (len + 1)
        rw [List.length_cons]
        omega
    · exact Nat.le_max_left _ _

theorem length_writeLl (number : BitVec 64) : (writeLl number.toInt).length ≤ 21 := by
  have small : number.toInt.natAbs < 10 ^ 19 := by
    have low := BitVec.le_toInt number
    have high := BitVec.toInt_lt (x := number)
    omega
  exact Nat.succ_le_succ (@length_signedChars _ 18 small)

theorem length_writeLl_unsigned (number : BitVec 32) : (writeLl number.toNat).length ≤ 12 := by
  have small : (number.toNat : Int).natAbs < 10 ^ 10 := by
    omega
  exact Nat.succ_le_succ (@length_signedChars _ 9 small)

theorem length_writeUll {width : Nat} (fits : width ≤ 64) (number : BitVec width) :
    (writeUll number.toNat).length ≤ 21 := by
  have small : number.toNat < 10 ^ 20 := by
    have power : 2 ^ width ≤ 2 ^ 64 := Nat.pow_le_pow_right (by decide) fits
    omega
  exact Nat.succ_le_succ (@length_unsignedChars _ 19 small)

theorem length_writeHash (hash : Hash) : (writeHash hash).length = 65 := by
  rw [writeHash, List.length_cons, length_hexadecimalChars, hash.property]

theorem length_writeStat (metaLine : MetaLine) : (writeStat metaLine).length ≤ 150 := by
  have size := length_writeLl metaLine.size
  have mode := length_writeUll (by decide) metaLine.mode
  have uid := length_writeLl_unsigned metaLine.uid
  have gid := length_writeLl_unsigned metaLine.gid
  have dev := length_writeUll (by decide) metaLine.dev
  have ino := length_writeLl metaLine.ino
  have mtime := length_writeLl metaLine.mtime
  have ctime := length_writeLl metaLine.ctime
  simp only [writeStat, List.length_append]
  omega

/-- What is written, with its end, is never longer than the buffer. -/
theorem length_mwrmWriteLine (len : Nat) (metaLine : MetaLine) (withTime : Bool)
    (header : len ≤ 42) :
    len + (mwrmWriteLine len metaLine withTime).length + 2 ≤ lineMax := by
  have filename := length_writeFilename len metaLine.filename
  have stat := length_writeStat metaLine
  have start := length_writeLl metaLine.startTime
  have stop := length_writeLl metaLine.stopTime
  have times : (if withTime then writeStartAndStop metaLine else []).length ≤ 42 := by
    cases withTime with
    | false => exact Nat.zero_le _
    | true =>
      simp only [if_true, writeStartAndStop, List.length_append]
      omega
  have hashes : (writeHashs metaLine.hashes).length ≤ 130 := by
    cases metaLine.hashes with
    | none => exact Nat.zero_le _
    | some both =>
      rw [writeHashs, List.length_append, length_writeHash, length_writeHash]
  have limit : PATH_MAX = 4096 := rfl
  have most : lineMax = 4432 := rfl
  rw [mwrmWriteLine, List.length_append, List.length_append, List.length_append,
    List.length_append, List.length_singleton]
  omega

theorem length_writeHeader (width height : BitVec 16) (hasChecksum : Bool) :
    (writeHeader width height hasChecksum).length < mesSize := by
  have wide := @length_unsignedChars width.toNat 4 (by have := width.isLt; omega)
  have high := @length_unsignedChars height.toNat 4 (by have := height.isLt; omega)
  have checksum : (checksumChars hasChecksum).length ≤ 10 := by
    cases hasChecksum <;> decide
  have most : mesSize = 4475 := rfl
  simp only [writeHeader, List.length_append, List.length_cons, List.length_nil]
  omega

end Room

end Redemption.Transport.Mwrm
