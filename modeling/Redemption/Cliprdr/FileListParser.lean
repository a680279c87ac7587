import Redemption.Cliprdr.FormatList
import Redemption.Foundation.Region
import Redemption.Foundation.Visit

/-! `FileListParser`: the descriptors of a file list, however the list is cut. -/
namespace Redemption.Cliprdr

open Redemption.Foundation

/-- `FileDescriptor`. -/
structure FileDescriptor where
  flags : BitVec 32
  fileAttributes : BitVec 32
  lastWriteTime : BitVec 64
  fileSizeHigh : BitVec 32
  fileSizeLow : BitVec 32
  unicodeFileName : List Byte
  deriving DecidableEq, Repr

/-- The size of the field of a name. -/
def fileNameFieldLen : Nat := 520

/-- `FileDescriptor::pdu_len()`. -/
def fileDescriptorLen : Nat := 4 + 32 + 4 + 16 + 8 + 4 + 4 + fileNameFieldLen

namespace FileDescriptor

/-- `null_terminated_utf16::read`; the null character is dropped and not checked. -/
def readFileName (stream : List Byte) : Checked Empty (List Byte × List Byte) := do
  let (data, stream) ← inBytes fileNameFieldLen stream
  let unterminated ← dropBack 2 data
  let name ← first (utf16ByteLen unterminated) data
  return (name, stream)

/-- `read_unchecked`. -/
def readUnchecked (stream : List Byte) : Checked Empty (FileDescriptor × List Byte) := do
  let (flags, stream) ← inLe 4 stream
  let (_, stream) ← inBytes 32 stream
  let (fileAttributes, stream) ← inLe 4 stream
  let (_, stream) ← inBytes 16 stream
  let (lastWriteTime, stream) ← inLe 8 stream
  let (fileSizeHigh, stream) ← inLe 4 stream
  let (fileSizeLow, stream) ← inLe 4 stream
  let (unicodeFileName, stream) ← readFileName stream
  return (⟨BitVec.ofNat 32 flags, BitVec.ofNat 32 fileAttributes, BitVec.ofNat 64 lastWriteTime,
    BitVec.ofNat 32 fileSizeHigh, BitVec.ofNat 32 fileSizeLow, unicodeFileName⟩, stream)

/-- `read`. -/
def read (stream : List Byte) : Checked Empty (Option (FileDescriptor × List Byte)) :=
  if stream.length < fileDescriptorLen then .ok none else some <$> readUnchecked stream

/-- `write_unchecked`. -/
def write (descriptor : FileDescriptor) : List Byte :=
  leBytes 4 descriptor.flags.toNat ++ (List.replicate 32 0 ++
    (leBytes 4 descriptor.fileAttributes.toNat ++ (List.replicate 16 0 ++
      (leBytes 8 descriptor.lastWriteTime.toNat ++ (leBytes 4 descriptor.fileSizeHigh.toNat ++
        (leBytes 4 descriptor.fileSizeLow.toNat ++ (descriptor.unicodeFileName ++
          List.replicate (fileNameFieldLen - descriptor.unicodeFileName.length) 0)))))))

end FileDescriptor

/-- The temporary buffer, for the beginning of a descriptor. -/
abbrev DescriptorBuffer := {bytes : List Byte // bytes.length = fileDescriptorLen}

/-- Bytes are copied to a place of the buffer. -/
def DescriptorBuffer.copy (buffer : DescriptorBuffer) (offset : Nat) (bytes : List Byte) :
    Checked Empty DescriptorBuffer :=
  if room : offset + bytes.length ≤ fileDescriptorLen then
    .ok ⟨buffer.1.take offset ++ bytes ++ buffer.1.drop (offset + bytes.length), by
      rw [List.length_append, List.length_append, List.length_take, List.length_drop, buffer.2]
      omega⟩
  else .error .outOfBounds

/-- `FileListParser`, with what `parse` has written to the buffer and what `fd_fn` has been given. -/
structure FileListParser (σ : Type) where
  ok : Bool
  newBufferOffset : Nat
  buffer : DescriptorBuffer
  calls : List FileDescriptor
  state : σ

namespace FileListParser

variable {σ : Type} (fdFn : σ → FileDescriptor → Bool × σ)

/-- The loop over the descriptors in the data: what `fd_fn` has been given, and what is left. -/
def readDescriptors : Nat → List Byte → σ →
    Checked Empty (Visited σ FileDescriptor × List Byte)
  | 0, stream, state => .ok (⟨[], state, true⟩, stream)
  | fuel + 1, stream, state => do
    match ← FileDescriptor.read stream with
    | none => return (⟨[], state, true⟩, stream)
    | some (fd, stream) =>
      if (fdFn state fd).1 then do
        let (later, stream) ← readDescriptors fuel stream (fdFn state fd).2
        return (later.after fd, stream)
      else return (⟨[fd], (fdFn state fd).2, false⟩, stream)

/-- What `parse` does with the data behind a descriptor that has been begun before. -/
def parseWhole (stream : List Byte) (bufferOffset : Nat) (buffer : DescriptorBuffer) (state : σ) :
    Checked Empty (FileListParser σ) := do
  let (visited, stream) ← readDescriptors fdFn (stream.length + 1) stream state
  if visited.accepted then do
    let copied ← buffer.copy bufferOffset stream
    return ⟨true, bufferOffset + stream.length, copied, visited.values, visited.state⟩
  else return ⟨false, bufferOffset, buffer, visited.values, visited.state⟩

/-- `parse`. -/
def parse (data : List Byte) (bufferOffset : Nat) (buffer : DescriptorBuffer) (state : σ) :
    Checked Empty (FileListParser σ) :=
  if bufferOffset = 0 then parseWhole fdFn data 0 buffer state
  else do
    let partialCpLen := min (fileDescriptorLen - bufferOffset) data.length
    let (bytes, stream) ← inBytes partialCpLen data
    let buffer ← buffer.copy bufferOffset bytes
    if bufferOffset + partialCpLen = fileDescriptorLen then do
      match ← FileDescriptor.read buffer.1 with
      | none => parseWhole fdFn stream 0 buffer state
      | some (fd, _) =>
        if (fdFn state fd).1 then do
          let later ← parseWhole fdFn stream 0 buffer (fdFn state fd).2
          return { later with calls := fd :: later.calls }
        else return ⟨false, 0, buffer, [fd], (fdFn state fd).2⟩
    else parseWhole fdFn stream (bufferOffset + partialCpLen) buffer state

/-- `parse` is called with chunk after chunk, until `fd_fn` refuses a descriptor. -/
def parseChunks : List (List Byte) → Nat → DescriptorBuffer → σ → Checked Empty (FileListParser σ)
  | [], bufferOffset, buffer, state => .ok ⟨true, bufferOffset, buffer, [], state⟩
  | chunk :: chunks, bufferOffset, buffer, state => do
    let parsed ← parse fdFn chunk bufferOffset buffer state
    if parsed.ok then do
      let later ← parseChunks chunks parsed.newBufferOffset parsed.buffer parsed.state
      return { later with calls := parsed.calls ++ later.calls }
    else return parsed

end FileListParser

/-! The descriptors of a file list are the ones that were written, wherever the list is cut. -/

/-- A descriptor whose name its field can hold. -/
structure NamedDescriptor where
  descriptor : FileDescriptor
  whole : WholeUnits descriptor.unicodeFileName
  fits : descriptor.unicodeFileName.length + 2 ≤ fileNameFieldLen

namespace FileDescriptor

theorem readUnchecked_total {stream : List Byte} (enough : fileDescriptorLen ≤ stream.length) :
    ∃ descriptor, readUnchecked stream = .ok (descriptor, stream.drop fileDescriptorLen) := by
  have name : ∀ rest : List Byte, fileNameFieldLen ≤ rest.length →
      ∃ name, readFileName rest = .ok (name, rest.drop fileNameFieldLen) := by
    intro rest room
    have two : 2 ≤ fileNameFieldLen := by decide
    have length : (rest.take fileNameFieldLen).length = fileNameFieldLen := by
      rw [List.length_take, Nat.min_eq_left room]
    have less := utf16ByteLen_take (fileNameFieldLen - 2) (rest.take fileNameFieldLen)
    refine ⟨(rest.take fileNameFieldLen).take
      (utf16ByteLen ((rest.take fileNameFieldLen).take (fileNameFieldLen - 2))), ?_⟩
    rw [readFileName, inBytes_ok room, ok_bind]
    simp only
    rw [dropBack_ok (by rw [length]; exact two), ok_bind, length,
      first_ok (by rw [length]; omega), ok_bind, pure_ok]
  rw [fileDescriptorLen, fileNameFieldLen] at enough
  have last : fileNameFieldLen ≤ (((((((stream.drop 4).drop 32).drop 4).drop 16).drop 8).drop
      4).drop 4).length := by
    simp only [List.length_drop, fileNameFieldLen]
    omega
  obtain ⟨fileName, found⟩ := name _ last
  rw [readUnchecked, inLe_ok (by omega), ok_bind]
  simp only
  rw [inBytes_ok (by simp only [List.length_drop]; omega), ok_bind]
  rw [inLe_ok (by simp only [List.length_drop]; omega), ok_bind]
  rw [inBytes_ok (by simp only [List.length_drop]; omega), ok_bind]
  rw [inLe_ok (by simp only [List.length_drop]; omega), ok_bind]
  rw [inLe_ok (by simp only [List.length_drop]; omega), ok_bind]
  rw [inLe_ok (by simp only [List.length_drop]; omega), ok_bind]
  rw [found, ok_bind]
  simp only [List.drop_drop, fileDescriptorLen]
  exact ⟨_, rfl⟩

theorem read_total {stream : List Byte} (enough : fileDescriptorLen ≤ stream.length) :
    ∃ descriptor, read stream = .ok (some (descriptor, stream.drop fileDescriptorLen)) := by
  obtain ⟨descriptor, found⟩ := readUnchecked_total enough
  rw [read, if_neg (Nat.not_lt.mpr enough), found]
  exact ⟨descriptor, rfl⟩

theorem read_short {stream : List Byte} (short : stream.length < fileDescriptorLen) :
    read stream = .ok none := if_pos short

end FileDescriptor

namespace NamedDescriptor

def pdu (named : NamedDescriptor) : List Byte := named.descriptor.write

theorem length_pdu (named : NamedDescriptor) : named.pdu.length = fileDescriptorLen := by
  have fits := named.fits
  rw [pdu, FileDescriptor.write]
  simp only [List.length_append, length_leBytes, List.length_replicate]
  rw [fileDescriptorLen]
  omega

theorem readFileName_pdu (named : NamedDescriptor) (rest : List Byte) :
    FileDescriptor.readFileName (named.descriptor.unicodeFileName ++
        List.replicate (fileNameFieldLen - named.descriptor.unicodeFileName.length) 0 ++ rest) =
      .ok (named.descriptor.unicodeFileName, rest) := by
  obtain ⟨more, is⟩ := Nat.exists_eq_add_of_le named.fits
  have zeros : fileNameFieldLen - named.descriptor.unicodeFileName.length = more + 2 := by omega
  have field : (named.descriptor.unicodeFileName ++ List.replicate more 0 ++
      List.replicate 2 (0 : Byte)).length = fileNameFieldLen := by
    rw [List.length_append, List.length_append, List.length_replicate, List.length_replicate, is]
    omega
  have inside : named.descriptor.unicodeFileName.length ≤
      (named.descriptor.unicodeFileName ++ List.replicate more 0 ++
        List.replicate 2 (0 : Byte)).length := by
    omega
  rw [zeros, List.replicate_add more, ← List.append_assoc, FileDescriptor.readFileName,
    inBytes_append field, ok_bind]
  simp only
  rw [dropBack_append _ List.length_replicate, ok_bind,
    utf16ByteLen_append named.whole (utf16ByteLen_zeros more), first_ok inside, List.append_assoc, List.take_left]
  rfl

theorem read_pdu (named : NamedDescriptor) (rest : List Byte) :
    FileDescriptor.read (named.pdu ++ rest) = .ok (some (named.descriptor, rest)) := by
  have enough : ¬(named.pdu ++ rest).length < fileDescriptorLen := by
    rw [List.length_append, named.length_pdu]
    omega
  rw [FileDescriptor.read, if_neg enough, FileDescriptor.readUnchecked, pdu, FileDescriptor.write]
  simp only [List.append_assoc]
  rw [inLe_append, ok_bind]
  rw [inBytes_append List.length_replicate, ok_bind]
  rw [inLe_append, ok_bind]
  rw [inBytes_append List.length_replicate, ok_bind]
  rw [inLe_append, ok_bind]
  rw [inLe_append, ok_bind]
  rw [inLe_append, ok_bind]
  rw [← List.append_assoc, named.readFileName_pdu]
  rw [Nat.mod_eq_of_lt named.descriptor.flags.isLt,
    Nat.mod_eq_of_lt named.descriptor.fileAttributes.isLt,
    Nat.mod_eq_of_lt named.descriptor.lastWriteTime.isLt,
    Nat.mod_eq_of_lt named.descriptor.fileSizeHigh.isLt,
    Nat.mod_eq_of_lt named.descriptor.fileSizeLow.isLt]
  simp only [BitVec.ofNat_toNat, BitVec.setWidth_eq]
  rfl

end NamedDescriptor

theorem DescriptorBuffer.copy_ok (buffer : DescriptorBuffer) {offset : Nat} {bytes : List Byte}
    (room : offset + bytes.length ≤ fileDescriptorLen) :
    ∃ copied, buffer.copy offset bytes = .ok copied ∧
      copied.1.take (offset + bytes.length) = buffer.1.take offset ++ bytes := by
  refine ⟨_, dif_pos room, ?_⟩
  have length : (buffer.1.take offset ++ bytes).length = offset + bytes.length := by
    rw [List.length_append, List.length_take, buffer.2, Nat.min_eq_left (by omega)]
  exact List.take_left' length

namespace FileListParser

variable {σ : Type} {fdFn : σ → FileDescriptor → Bool × σ}

/-- The loop stays inside the data, and leaves less than a descriptor. -/
theorem readDescriptors_total {fuel : Nat} {stream : List Byte} (enough : stream.length < fuel)
    (state : σ) :
    ∃ visited rest, readDescriptors fdFn fuel stream state = .ok (visited, rest) ∧
      (visited.accepted = true → rest.length < fileDescriptorLen) := by
  induction fuel generalizing stream state with
  | zero => exact absurd enough (Nat.not_lt_zero _)
  | succ fuel ih =>
    rw [readDescriptors]
    by_cases short : stream.length < fileDescriptorLen
    · rw [FileDescriptor.read_short short]
      exact ⟨_, stream, rfl, fun _ => short⟩
    · have room := Nat.le_of_not_lt short
      obtain ⟨fd, read⟩ := FileDescriptor.read_total room
      have less : (stream.drop fileDescriptorLen).length < fuel := by
        rw [List.length_drop]
        rw [fileDescriptorLen] at *
        omega
      rw [read, ok_bind]
      simp only
      by_cases goes : (fdFn state fd).1 = true
      · obtain ⟨visited, rest, ran, left⟩ := ih less (fdFn state fd).2
        rw [if_pos goes, ran]
        exact ⟨_, rest, rfl, left⟩
      · rw [if_neg goes]
        exact ⟨_, _, rfl, nofun⟩

/-- The loop gives `fdFn` the descriptors that have been written, until it refuses one. -/
theorem readDescriptors_pdus (fds : List NamedDescriptor) {tail : List Byte}
    (short : tail.length < fileDescriptorLen) {fuel : Nat}
    (enough : (fds.flatMap NamedDescriptor.pdu ++ tail).length < fuel) (state : σ) :
    ∃ rest, readDescriptors fdFn fuel (fds.flatMap NamedDescriptor.pdu ++ tail) state =
        .ok (visit fdFn state (fds.map NamedDescriptor.descriptor), rest) ∧
      ((visit fdFn state (fds.map NamedDescriptor.descriptor)).accepted = true → rest = tail) := by
  induction fds generalizing fuel state with
  | nil =>
    obtain ⟨fuel, rfl⟩ := Nat.exists_eq_succ_of_ne_zero (Nat.ne_of_gt (Nat.zero_lt_of_lt enough))
    rw [List.flatMap_nil, List.nil_append, readDescriptors, FileDescriptor.read_short short]
    exact ⟨tail, rfl, fun _ => rfl⟩
  | cons named fds ih =>
    obtain ⟨fuel, rfl⟩ := Nat.exists_eq_succ_of_ne_zero (Nat.ne_of_gt (Nat.zero_lt_of_lt enough))
    rw [List.flatMap_cons, List.append_assoc] at enough ⊢
    have less : (fds.flatMap NamedDescriptor.pdu ++ tail).length < fuel := by
      rw [List.length_append, named.length_pdu, fileDescriptorLen] at enough
      omega
    rw [readDescriptors, named.read_pdu, ok_bind, List.map_cons]
    simp only
    cases answer : (fdFn state named.descriptor).1 with
    | true =>
      obtain ⟨rest, ran, left⟩ := ih less (fdFn state named.descriptor).2
      rw [if_pos rfl, ran, visit_accepted answer]
      exact ⟨rest, rfl, left⟩
    | false =>
      rw [if_neg Bool.false_ne_true, visit_refused answer]
      exact ⟨_, rfl, nofun⟩

/-- What a call of `parse` has done, where the callback has been given what it was to be given. -/
structure Parses (visited : Visited σ FileDescriptor) (tail : List Byte)
    (parsed : FileListParser σ) : Prop where
  ok : parsed.ok = visited.accepted
  calls : parsed.calls = visited.values
  state : parsed.state = visited.state
  offset : visited.accepted = true → parsed.newBufferOffset = tail.length
  buffer : visited.accepted = true → parsed.buffer.1.take tail.length = tail

theorem parseWhole_pdus (fds : List NamedDescriptor) {tail : List Byte}
    (short : tail.length < fileDescriptorLen) (buffer : DescriptorBuffer) (state : σ) :
    ∃ parsed, parseWhole fdFn (fds.flatMap NamedDescriptor.pdu ++ tail) 0 buffer state =
        .ok parsed ∧
      Parses (visit fdFn state (fds.map NamedDescriptor.descriptor)) tail parsed := by
  obtain ⟨rest, ran, left⟩ := readDescriptors_pdus fds short (Nat.lt_succ_self _) state
  rw [parseWhole, ran, ok_bind]
  simp only
  cases accepted : (visit fdFn state (fds.map NamedDescriptor.descriptor)).accepted with
  | true =>
    have is := left accepted
    subst is
    obtain ⟨copied, wrote, front⟩ := @DescriptorBuffer.copy_ok buffer 0 rest (by omega)
    rw [if_pos rfl, wrote]
    refine ⟨_, rfl, accepted.symm, rfl, rfl, fun _ => Nat.zero_add _, fun _ => ?_⟩
    rw [Nat.zero_add, List.take_zero, List.nil_append] at front
    exact front
  | false =>
    rw [if_neg Bool.false_ne_true]
    refine ⟨_, rfl, accepted.symm, rfl, rfl, ?_, ?_⟩
    · intro goes
      rw [accepted] at goes
      cases goes
    · intro goes
      rw [accepted] at goes
      cases goes

theorem parseWhole_nil (bufferOffset : Nat) (buffer : DescriptorBuffer)
    (less : bufferOffset ≤ fileDescriptorLen) (state : σ) :
    ∃ copied, parseWhole fdFn [] bufferOffset buffer state =
        .ok ⟨true, bufferOffset, copied, [], state⟩ ∧
      copied.1.take bufferOffset = buffer.1.take bufferOffset := by
  obtain ⟨copied, wrote, front⟩ := @DescriptorBuffer.copy_ok buffer bufferOffset [] less
  have none : readDescriptors fdFn ([] : List Byte).length.succ [] state =
      .ok (⟨[], state, true⟩, []) := by
    rw [readDescriptors, FileDescriptor.read_short (by decide)]
    rfl
  refine ⟨copied, ?_, ?_⟩
  · rw [parseWhole, none, ok_bind]
    simp only [if_true]
    rw [wrote]
    rfl
  · rw [List.append_nil] at front
    exact front

/-- `parse` gives `fdFn` the descriptors that end in the data, and keeps the beginning of the next. -/
theorem parse_pdus (fds : List NamedDescriptor) {data tail : List Byte} {bufferOffset : Nat}
    {buffer : DescriptorBuffer} (begun : bufferOffset < fileDescriptorLen)
    (same : buffer.1.take bufferOffset ++ data = fds.flatMap NamedDescriptor.pdu ++ tail)
    (short : tail.length < fileDescriptorLen) (state : σ) :
    ∃ parsed, parse fdFn data bufferOffset buffer state = .ok parsed ∧
      Parses (visit fdFn state (fds.map NamedDescriptor.descriptor)) tail parsed := by
  by_cases fresh : bufferOffset = 0
  · rw [fresh, List.take_zero, List.nil_append] at same
    rw [parse, if_pos fresh, same]
    exact parseWhole_pdus fds short buffer state
  · have pending : (buffer.1.take bufferOffset).length = bufferOffset := by
      rw [List.length_take, buffer.2, Nat.min_eq_left (Nat.le_of_lt begun)]
    rw [parse, if_neg fresh]
    by_cases part : bufferOffset + data.length < fileDescriptorLen
    · -- the descriptor that has been begun does not end in the data
      have all : min (fileDescriptorLen - bufferOffset) data.length = data.length := by omega
      obtain ⟨copied, wrote, front⟩ := buffer.copy_ok (Nat.le_of_lt part)
      obtain ⟨kept, ran, still⟩ := @parseWhole_nil σ fdFn (bufferOffset + data.length) copied
        (Nat.le_of_lt part) state
      have none : fds = [] := by
        cases fds with
        | nil => rfl
        | cons named fds =>
          have lengths := congrArg List.length same
          rw [List.flatMap_cons, List.append_assoc, List.length_append, List.length_append, pending,
            named.length_pdu] at lengths
          omega
      subst none
      rw [List.flatMap_nil, List.nil_append] at same
      simp only [all]
      rw [inBytes_ok (Nat.le_refl _), ok_bind]
      simp only [List.take_length, List.drop_length]
      rw [wrote, ok_bind, if_neg (Nat.ne_of_lt part), ran]
      have length : bufferOffset + data.length = tail.length := by
        rw [← same, List.length_append, pending]
      refine ⟨_, rfl, rfl, rfl, rfl, fun _ => length, fun _ => ?_⟩
      rw [← length, still, front, same]
    · -- it does, and its bytes are those of the first descriptor
      have rest : min (fileDescriptorLen - bufferOffset) data.length =
          fileDescriptorLen - bufferOffset := by omega
      have room : fileDescriptorLen - bufferOffset ≤ data.length := by omega
      have taken : (data.take (fileDescriptorLen - bufferOffset)).length =
          fileDescriptorLen - bufferOffset := by
        rw [List.length_take, Nat.min_eq_left room]
      have full : bufferOffset + (fileDescriptorLen - bufferOffset) = fileDescriptorLen := by omega
      obtain ⟨copied, wrote, front⟩ := @DescriptorBuffer.copy_ok buffer bufferOffset
        (data.take (fileDescriptorLen - bufferOffset)) (by rw [taken, full])
      rw [taken, full, List.take_of_length_le (Nat.le_of_eq copied.2)] at front
      cases fds with
      | nil =>
        have lengths := congrArg List.length same
        rw [List.flatMap_nil, List.nil_append, List.length_append, pending] at lengths
        omega
      | cons named fds =>
        rw [List.flatMap_cons, List.append_assoc, ← List.take_append_drop
          (fileDescriptorLen - bufferOffset) data, ← List.append_assoc, ← front] at same
        obtain ⟨first, behind⟩ := List.append_inj same (by rw [copied.2, named.length_pdu])
        have read := named.read_pdu []
        rw [List.append_nil, ← first] at read
        simp only [rest]
        rw [inBytes_ok room, ok_bind]
        rw [wrote, ok_bind, if_pos full, read, ok_bind, List.map_cons]
        simp only
        cases answer : (fdFn state named.descriptor).1 with
        | true =>
          obtain ⟨later, ran, parses⟩ := @parseWhole_pdus σ fdFn fds tail short copied
            (fdFn state named.descriptor).2
          rw [if_pos rfl, behind, ran, visit_accepted answer]
          refine ⟨_, rfl, parses.ok, ?_, parses.state, parses.offset, parses.buffer⟩
          exact congrArg _ parses.calls
        | false =>
          rw [if_neg Bool.false_ne_true, visit_refused answer]
          exact ⟨_, rfl, rfl, rfl, rfl, nofun, nofun⟩

/-- Wherever a file list is cut, its descriptors are given to `fdFn` in their order, until it refuses
one. -/
theorem parseChunks_pdus (chunks : List (List Byte)) (fds : List NamedDescriptor)
    {tail : List Byte} {bufferOffset : Nat} {buffer : DescriptorBuffer}
    (begun : bufferOffset < fileDescriptorLen)
    (same : buffer.1.take bufferOffset ++ chunks.flatten =
      fds.flatMap NamedDescriptor.pdu ++ tail)
    (short : tail.length < fileDescriptorLen) (state : σ) :
    ∃ parsed, parseChunks fdFn chunks bufferOffset buffer state = .ok parsed ∧
      Parses (visit fdFn state (fds.map NamedDescriptor.descriptor)) tail parsed := by
  induction chunks generalizing fds bufferOffset buffer state with
  | nil =>
    have pending : (buffer.1.take bufferOffset).length = bufferOffset := by
      rw [List.length_take, buffer.2, Nat.min_eq_left (Nat.le_of_lt begun)]
    rw [List.flatten_nil, List.append_nil] at same
    cases fds with
    | nil =>
      rw [List.flatMap_nil, List.nil_append] at same
      refine ⟨_, rfl, rfl, rfl, rfl, fun _ => ?_, fun _ => ?_⟩
      · rw [← same, pending]
      · rw [← same, pending]
    | cons named fds =>
      have lengths := congrArg List.length same
      rw [List.flatMap_cons, List.append_assoc, List.length_append, named.length_pdu,
        pending] at lengths
      omega
  | cons chunk chunks ih =>
    rw [List.flatten_cons, ← List.append_assoc] at same
    obtain ⟨firsts, lasts, part, split, front, less, behind⟩ :=
      Buffer.flatMap_cut NamedDescriptor.length_pdu fds same short
    obtain ⟨parsed, ran, parses⟩ := @parse_pdus σ fdFn firsts chunk part bufferOffset buffer begun
      front less state
    rw [parseChunks, ran, ok_bind, split, List.map_append]
    cases accepted : (visit fdFn state (firsts.map NamedDescriptor.descriptor)).accepted with
    | true =>
      have offset := parses.offset accepted
      obtain ⟨later, went, parses'⟩ := @ih lasts parsed.newBufferOffset parsed.buffer
        (by rw [offset]; exact less) (by rw [offset, parses.buffer accepted]; exact behind)
        parsed.state
      rw [parses.ok, accepted, if_pos rfl, went, visit_append_accepted accepted]
      rw [parses.state] at parses'
      refine ⟨_, rfl, parses'.ok, ?_, parses'.state, parses'.offset, parses'.buffer⟩
      rw [parses.calls, parses'.calls, values_of_accepted accepted]
    | false =>
      rw [parses.ok, accepted, if_neg Bool.false_ne_true, visit_append_refused accepted]
      refine ⟨parsed, rfl, parses.ok, parses.calls, parses.state, ?_, ?_⟩
      · intro goes
        rw [accepted] at goes
        cases goes
      · intro goes
        rw [accepted] at goes
        cases goes

theorem parseWhole_total (data : List Byte) (buffer : DescriptorBuffer) (state : σ) :
    ∃ parsed, parseWhole fdFn data 0 buffer state = .ok parsed ∧
      parsed.newBufferOffset < fileDescriptorLen := by
  obtain ⟨visited, rest, ran, left⟩ :=
    @readDescriptors_total σ fdFn (data.length + 1) data (Nat.lt_succ_self _) state
  rw [parseWhole, ran, ok_bind]
  simp only
  cases accepted : visited.accepted with
  | true =>
    have short := left accepted
    obtain ⟨copied, wrote, _⟩ := @DescriptorBuffer.copy_ok buffer 0 rest (by omega)
    rw [if_pos rfl, wrote]
    exact ⟨_, rfl, (Nat.zero_add _).trans_lt short⟩
  | false =>
    rw [if_neg Bool.false_ne_true]
    exact ⟨_, rfl, Nat.lt_of_le_of_lt (Nat.zero_le _) (by decide : 0 < fileDescriptorLen)⟩

/-- `parse` stays inside the data and the buffer, whatever they hold. -/
theorem parse_total (data : List Byte) {bufferOffset : Nat}
    (begun : bufferOffset < fileDescriptorLen) (buffer : DescriptorBuffer) (state : σ) :
    ∃ parsed, parse fdFn data bufferOffset buffer state = .ok parsed ∧
      parsed.newBufferOffset < fileDescriptorLen := by
  by_cases fresh : bufferOffset = 0
  · rw [parse, if_pos fresh]
    exact parseWhole_total data buffer state
  · have room : min (fileDescriptorLen - bufferOffset) data.length ≤ data.length :=
      Nat.min_le_right _ _
    have taken : (data.take (min (fileDescriptorLen - bufferOffset) data.length)).length =
        min (fileDescriptorLen - bufferOffset) data.length := by
      rw [List.length_take, Nat.min_eq_left room]
    obtain ⟨copied, wrote, _⟩ := @DescriptorBuffer.copy_ok buffer bufferOffset
      (data.take (min (fileDescriptorLen - bufferOffset) data.length)) (by rw [taken]; omega)
    rw [parse, if_neg fresh]
    simp only
    rw [inBytes_ok room, ok_bind]
    rw [wrote, ok_bind]
    by_cases full : bufferOffset + min (fileDescriptorLen - bufferOffset) data.length =
        fileDescriptorLen
    · obtain ⟨fd, read⟩ := FileDescriptor.read_total (Nat.le_of_eq copied.2.symm)
      rw [if_pos full, read, ok_bind]
      simp only
      cases answer : (fdFn state fd).1 with
      | true =>
        obtain ⟨later, ran, less⟩ := @parseWhole_total σ fdFn
          (data.drop (min (fileDescriptorLen - bufferOffset) data.length)) copied (fdFn state fd).2
        rw [if_pos rfl, ran]
        exact ⟨_, rfl, less⟩
      | false =>
        rw [if_neg Bool.false_ne_true]
        exact ⟨_, rfl, Nat.lt_of_le_of_lt (Nat.zero_le _) (by decide : 0 < fileDescriptorLen)⟩
    · have all : min (fileDescriptorLen - bufferOffset) data.length = data.length := by omega
      obtain ⟨kept, ran, _⟩ := @parseWhole_nil σ fdFn (bufferOffset + data.length) copied
        (by omega) state
      rw [if_neg full, all, List.drop_length, ran]
      exact ⟨_, rfl, by change bufferOffset + data.length < _; omega⟩

end FileListParser

end Redemption.Cliprdr
