import Redemption.Transport.MwrmReader

/-! The fields of a line that was written, as they are read back. -/
namespace Redemption.Transport.Mwrm

open Redemption.Foundation Redemption.Utils

/-- The characters that one takes in the file. -/
def escapedWidth (char : Byte) : Nat := if char = 92 ∨ char = 32 then 2 else 1

/-- The front of a name that `write_filename` writes behind `len` characters. -/
def keptFilename (len : Nat) : List Byte → List Byte
  | [] => []
  | char :: rest =>
    if len < PATH_MAX - 2 then char :: keptFilename (len + escapedWidth char) rest else []

/-- There is still room for the last character of a name. -/
def Fits (len : Nat) (filename : List Byte) : Prop :=
  filename = [] ∨ len + (filename.dropLast.map escapedWidth).sum < PATH_MAX - 2

instance (len : Nat) (filename : List Byte) : Decidable (Fits len filename) :=
  inferInstanceAs (Decidable (_ ∨ _))

theorem fits_cons_cons {len : Nat} {char next : Byte} {rest : List Byte} :
    Fits len (char :: next :: rest) ↔
      len < PATH_MAX - 2 ∧ Fits (len + escapedWidth char) (next :: rest) := by
  have sum : ((char :: next :: rest).dropLast.map escapedWidth).sum =
      escapedWidth char + ((next :: rest).dropLast.map escapedWidth).sum := rfl
  have more (char : Byte) (rest : List Byte) : char :: rest ≠ [] := List.cons_ne_nil _ _
  simp only [Fits, more, false_or, sum]
  omega

theorem keptFilename_eq (len : Nat) (filename : List Byte) :
    keptFilename len filename = filename ↔ Fits len filename := by
  induction filename generalizing len with
  | nil => exact iff_of_true rfl (.inl rfl)
  | cons char rest ih =>
    rw [keptFilename]
    cases rest with
    | nil =>
      have sum : Fits len [char] ↔ len < PATH_MAX - 2 := by
        rw [Fits]
        simp only [List.cons_ne_nil, false_or]
        rfl
      rw [sum]
      by_cases room : len < PATH_MAX - 2
      · rw [if_pos room]
        exact iff_of_true rfl room
      · rw [if_neg room]
        exact iff_of_false (List.cons_ne_nil _ _).symm room
    | cons next rest =>
      rw [fits_cons_cons, ← ih]
      by_cases room : len < PATH_MAX - 2
      · rw [if_pos room]
        simp [room]
      · rw [if_neg room]
        simp [room]

theorem length_keptFilename (len : Nat) (filename : List Byte) :
    (keptFilename len filename).length ≤ PATH_MAX - len := by
  induction filename generalizing len with
  | nil => exact Nat.zero_le _
  | cons char rest ih =>
    have width : 1 ≤ escapedWidth char := by
      unfold escapedWidth
      split <;> omega
    rw [keptFilename]
    split
    · have step := ih (len + escapedWidth char)
      rw [List.length_cons]
      omega
    · exact Nat.zero_le _

/-- The name is read up to the space behind it, without what was left out. -/
theorem bufSreadFilename_writeFilename {room len : Nat} {filename : List Byte}
    (plain : (0 : Byte) ∉ filename) (rest : List Byte)
    (fits : (keptFilename len filename).length ≤ room) :
    bufSreadFilename room (writeFilename len filename ++ 32 :: rest) =
      (keptFilename len filename, 32 :: rest) := by
  have ended (room : Nat) : bufSreadFilename room (32 :: rest) = ([], 32 :: rest) := by
    cases room <;> simp [bufSreadFilename]
  induction filename generalizing len room with
  | nil => exact ended room
  | cons char name ih =>
    rw [List.mem_cons, not_or] at plain
    rw [writeFilename, keptFilename] at *
    by_cases within : len < PATH_MAX - 2
    · rw [if_pos within] at fits ⊢
      rw [if_pos ⟨Ne.symm plain.1, within⟩]
      cases room with
      | zero => exact absurd fits (by simp)
      | succ room =>
        have fits' : (keptFilename (len + escapedWidth char) name).length ≤ room :=
          Nat.le_of_succ_le_succ fits
        have step := ih plain.2 fits'
        by_cases escaped : char = 92 ∨ char = 32
        · have width : escapedWidth char = 2 := if_pos escaped
          rw [width] at step ⊢
          rw [if_pos escaped, List.cons_append, List.cons_append, bufSreadFilename]
          simp only [step, if_neg (Ne.symm plain.1), if_true]
          rw [if_neg (by decide)]
        · have width : escapedWidth char = 1 := if_neg escaped
          rw [width] at step ⊢
          rw [if_neg escaped, List.cons_append]
          rw [not_or] at escaped
          have plain' : ¬ (char = 0 ∨ char = 32) := not_or.mpr ⟨Ne.symm plain.1, escaped.2⟩
          rw [bufSreadFilename.eq_def]
          simp only [if_neg plain', if_neg escaped.1, step]
    · rw [if_neg within, if_neg (fun both => within both.2)]
      exact ended room

section Numbers

variable {rest : List Byte} {err : Bool}

theorem isDecimalHead_space (rest : List Byte) : isDecimalHead (32 :: rest) = false := by
  rw [isDecimalHead, List.head?_cons, Option.any_some]
  decide

theorem isDecimalHead_writeLl (number : Int) (rest : List Byte) :
    isDecimalHead (writeLl number ++ rest) = false := isDecimalHead_space _

theorem isDecimalHead_writeUll (number : Nat) (rest : List Byte) :
    isDecimalHead (writeUll number ++ rest) = false := isDecimalHead_space _

theorem consume_space (type : IntType) (chars : List Byte) (err : Bool) :
    Parse.consume type ⟨32 :: chars, err⟩ =
      ((decimalCharsToInt type chars).1, ⟨(decimalCharsToInt type chars).2, err⟩) := rfl

theorem consume_writeLl {number : Int} (least : -2 ^ 63 ≤ number) (most : number < 2 ^ 63)
    (ended : isDecimalHead rest = false) :
    Parse.consume .longLong ⟨writeLl number ++ rest, err⟩ = (number, ⟨rest, err⟩) := by
  have has : IntType.longLong.Has number := by
    refine ⟨?_, ?_⟩
    · change number ≤ ((2 ^ 63 - 1 : Nat) : Int)
      omega
    · change -((2 ^ 63 - 1 : Nat) : Int) - 1 ≤ number
      omega
  have parsed : decimalCharsToInt .longLong (signedChars number ++ rest) = (number, rest) :=
    decimalCharsToInt_chars has ended
  rw [writeLl, List.cons_append, consume_space, parsed]

theorem consume_signed (number : BitVec 64) (ended : isDecimalHead rest = false) :
    Parse.consume .longLong ⟨writeLl number.toInt ++ rest, err⟩ =
      (number.toInt, ⟨rest, err⟩) :=
  consume_writeLl (BitVec.le_toInt number) (BitVec.toInt_lt (x := number)) ended

theorem consume_unsigned (number : BitVec 32) (ended : isDecimalHead rest = false) :
    Parse.consume .longLong ⟨writeLl (number.toNat : Int) ++ rest, err⟩ =
      ((number.toNat : Int), ⟨rest, err⟩) := by
  exact consume_writeLl (by omega) (by omega) ended

theorem consume_writeUll {width : Nat} (narrow : width ≤ 64) (number : BitVec width)
    (ended : isDecimalHead rest = false) :
    Parse.consume .unsignedLongLong ⟨writeUll number.toNat ++ rest, err⟩ =
      ((number.toNat : Int), ⟨rest, err⟩) := by
  have power : 2 ^ width ≤ 2 ^ 64 := Nat.pow_le_pow_right (by decide) narrow
  have has : IntType.unsignedLongLong.Has number.toNat := by
    refine ⟨?_, ?_⟩
    · change (number.toNat : Int) ≤ ((2 ^ 64 - 1 : Nat) : Int)
      omega
    · change (0 : Int) ≤ number.toNat
      omega
  have parsed : decimalCharsToInt .unsignedLongLong (unsignedChars number.toNat ++ rest) =
      ((number.toNat : Int), rest) := decimalCharsToInt_chars has ended
  rw [writeUll, List.cons_append, consume_space, parsed]

theorem checkedCast_toNat (ndebug : Bool) {width : Nat} (number : BitVec width) :
    checkedCast ndebug width number.toNat = .ok number := by
  have small : (number.toNat : Int) < 2 ^ width := by exact_mod_cast number.isLt
  rw [checkedCast, if_pos (.inr ⟨Int.natCast_nonneg _, small⟩)]
  rw [BitVec.ofInt_natCast, BitVec.ofNat_toNat, BitVec.setWidth_eq]

/-- A number that was written as a signed one passes the assertion if it was not too large. -/
theorem checkedCast_toInt (ndebug : Bool) (number : BitVec 64) :
    checkedCast ndebug 64 number.toInt =
      if ndebug ∨ number.toNat < 2 ^ 63 then .ok number else .error .assertionFailed := by
  have within : (0 ≤ number.toInt ∧ number.toInt < 2 ^ 64) ↔ number.toNat < 2 ^ 63 := by
    have value := BitVec.toInt_eq_toNat_cond number
    rw [value]
    split <;> omega
  rw [checkedCast, BitVec.ofInt_toInt]
  simp only [within]

end Numbers

section Hashes

theorem consumeHash_writeHash (hash : Hash) (rest : List Byte) :
    Parse.consumeHash ⟨writeHash hash ++ rest, false⟩ = (hash.val, ⟨rest, false⟩) := by
  have length : (hash.val.flatMap fixedHexadecimalLowerChars).length = 64 := by
    rw [length_hexadecimalChars, hash.property]
  simp only [Parse.consumeHash, writeHash, List.cons_append, List.tail_cons, List.head?_cons]
  rw [← length, List.take_left, List.drop_left, hexadecimalStringToBuffer_chars]
  rfl

theorem readHashs_writeHashs (hashes : Option (Hash × Hash)) :
    readHashs hashes.isSome ⟨writeHashs hashes ++ [10], false⟩ = .ok (hashes, ⟨[10], false⟩) := by
  cases hashes with
  | none => rfl
  | some both =>
    obtain ⟨qhash, fhash⟩ := both
    have length : (writeHashs (some (qhash, fhash)) ++ [10]).length = (32 + 32) * 2 + 3 := by
      rw [writeHashs, List.length_append, List.length_append, length_writeHash, length_writeHash]
      rfl
    have back (hash : Hash) : toHash hash.val = .ok hash := dif_pos hash.property
    rw [readHashs, Option.isSome_some, if_pos rfl, if_neg (not_not_intro length),
      if_neg Bool.false_ne_true, writeHashs, List.append_assoc, consumeHash_writeHash]
    simp only [consumeHash_writeHash, back]
    rfl

theorem head_writeHashs (hashes : Option (Hash × Hash)) :
    ((writeHashs hashes ++ [10]).head? ≠ some 10 &&
      (writeHashs hashes ++ [10]).head?.getD 0 ≠ 0) = hashes.isSome := by
  cases hashes <;> rfl

theorem isDecimalHead_writeHashs (hashes : Option (Hash × Hash)) :
    isDecimalHead (writeHashs hashes ++ [10]) = false := by
  cases hashes <;> rfl

end Hashes

/-- What a file of one kind keeps of a line, behind `len` characters. -/
def MetaLine.kept (metaLine : MetaLine) (len : Nat) : FileType → MetaLine
  | .mwrm => { metaLine with filename := keptFilename len metaLine.filename }
  | .hash =>
    { metaLine with
      filename := keptFilename len metaLine.filename, startTime := 0, stopTime := 0 }

/-- The flag of the header is right for the lines of a file. -/
def ChecksumFlag (hasChecksum : Bool) (metaLine : MetaLine) : FileType → Prop
  | .mwrm => hasChecksum = metaLine.hashes.isSome
  | .hash => hasChecksum → metaLine.hashes.isSome

/-- The assertion of `checked_int` for the inode holds, or is not there. -/
def InodeRead (ndebug : Bool) (metaLine : MetaLine) : Prop :=
  ndebug ∨ metaLine.ino.toNat < 2 ^ 63

instance (ndebug : Bool) (metaLine : MetaLine) : Decidable (InodeRead ndebug metaLine) :=
  inferInstanceAs (Decidable (_ ∨ _))

theorem parseLineV2_mwrmWriteLine {ndebug hasChecksum : Bool} {fileType : FileType} {len : Nat}
    {metaLine : MetaLine} (plain : (0 : Byte) ∉ metaLine.filename)
    (flag : ChecksumFlag hasChecksum metaLine fileType) :
    parseLineV2 ndebug hasChecksum fileType (mwrmWriteLine len metaLine (fileType = .mwrm)) =
      if InodeRead ndebug metaLine then .ok (metaLine.kept len fileType)
      else .error .assertionFailed := by
  have room : (keptFilename len metaLine.filename).length ≤ PATH_MAX :=
    Nat.le_trans (length_keptFilename len _) (Nat.sub_le _ _)
  have name (rest : List Byte) :
      bufSreadFilename PATH_MAX (writeFilename len metaLine.filename ++
        (writeLl metaLine.size.toInt ++ rest)) =
      (keptFilename len metaLine.filename, writeLl metaLine.size.toInt ++ rest) :=
    bufSreadFilename_writeFilename plain _ room
  have dev : BitVec.ofInt 64 (metaLine.dev.toNat : Int) = metaLine.dev := by
    rw [BitVec.ofInt_natCast, BitVec.ofNat_toNat, BitVec.setWidth_eq]
  have inode : checkedCast ndebug 64 metaLine.ino.toInt =
      if InodeRead ndebug metaLine then .ok metaLine.ino else .error .assertionFailed :=
    checkedCast_toInt ndebug metaLine.ino
  have other : (FileType.hash = FileType.mwrm) = False := eq_false (by decide)
  cases fileType with
  | mwrm =>
    have flag : hasChecksum = metaLine.hashes.isSome := flag
    simp only [parseLineV2, mwrmWriteLine, writeStat, writeStartAndStop, List.append_assoc,
      decide_true, if_true, name, consume_signed, consume_unsigned,
      consume_writeUll (show 32 ≤ 64 by decide), consume_writeUll (Nat.le_refl 64),
      isDecimalHead_writeLl, isDecimalHead_writeUll, isDecimalHead_writeHashs, checkedCast_toNat,
      inode, flag, readHashs_writeHashs, BitVec.ofInt_toInt, dev]
    by_cases read : InodeRead ndebug metaLine
    · rw [if_pos read, if_pos read]
      rfl
    · rw [if_neg read, if_neg read]
      rfl
  | hash =>
    have both : (hasChecksum || metaLine.hashes.isSome) = metaLine.hashes.isSome := by
      cases hasChecksum with
      | false => rfl
      | true => exact (flag rfl).symm
    simp only [parseLineV2, mwrmWriteLine, writeStat, List.append_assoc, List.nil_append, other,
      decide_false, Bool.false_eq_true, if_false, name, consume_signed, consume_unsigned,
      consume_writeUll (show 32 ≤ 64 by decide), consume_writeUll (Nat.le_refl 64),
      isDecimalHead_writeLl, isDecimalHead_writeUll, isDecimalHead_writeHashs, checkedCast_toNat,
      inode, head_writeHashs, both, readHashs_writeHashs, BitVec.ofInt_toInt, dev]
    by_cases read : InodeRead ndebug metaLine
    · rw [if_pos read, if_pos read]
      rfl
    · rw [if_neg read, if_neg read]
      rfl

end Redemption.Transport.Mwrm
