import Redemption.FileTransfer.DirectoryTree

/-! The list of what has been found, written to streams of any capacity. -/
namespace Redemption.FileTransfer

open Redemption.Foundation Redemption.Utf

/-- What one call writes, with its result. -/
structure Piece where
  result : PartialRdpFileListResult
  bytes : List Byte
  deriving DecidableEq, Repr

namespace Piece

variable (piece : Piece)

def Has (flag : CompressedChannelFlags) : Prop :=
  HasFlag piece.result.compressedChannelFlags flag

instance (flag : CompressedChannelFlags) : Decidable (piece.Has flag) :=
  inferInstanceAs (Decidable (HasFlag _ _))

def Completes : Prop := piece.result.status = .completed

instance : Decidable piece.Completes := inferInstanceAs (Decidable (_ = _))

end Piece

/-- The calls of `write_partial_rdp_file_list`, each with a stream of its own, until one of them
completes the list. -/
def DirectoryList.writeUpToCompleted (list : DirectoryList) :
    List Nat → Checked FileListError (List Piece)
  | [] => .ok []
  | capacity :: rest => do
    let (list, out, result) ← list.writePartialRdpFileList (.empty capacity)
    if result.status = .completed then return [⟨result, out.produced⟩]
    else do
      let pieces ← list.writeUpToCompleted rest
      return ⟨result, out.produced⟩ :: pieces

/-- The list is complete. -/
def Ends (pieces : List Piece) : Prop := ∃ piece ∈ pieces, piece.Completes

instance (pieces : List Piece) : Decidable (Ends pieces) :=
  inferInstanceAs (Decidable (∃ piece ∈ pieces, _))

/-- The name of a file below the base directory. -/
def rdpPath (dirBaseLen : Nat) (file : ListedFile) : List Byte :=
  (file.name.take (file.name.length - file.isDir.toNat)).drop dirBaseLen

/-- `FileDescriptor`: the name is followed by zeros. -/
def fileDescriptor (dirBaseLen : Nat) (file : ListedFile) : List Byte :=
  fileDescriptorWithoutFileName file ++ (rdpPath dirBaseLen file).flatMap cp1252Unit ++
    List.replicate (fileNameBufferSize - 2 * (rdpPath dirBaseLen file).length) 0

/-- The list as a whole: a header that tells the number of the files, and one descriptor each. -/
def DirectoryList.message (list : DirectoryList) : List Byte :=
  fileListHeader list.internalFiles.length ++
    list.internalFiles.flatMap (fileDescriptor list.dirBaseLen)

/-- The pieces are one message. The first that is not empty announces its length and has the flag
of the first, and the final one has the flag of the last. -/
structure OneList (message : List Byte) (pieces : List Piece) : Prop where
  whole : pieces.flatMap Piece.bytes = message
  first : ∃ skipped piece rest, pieces = skipped ++ piece :: rest ∧
    (∀ other ∈ skipped, other.bytes = []) ∧ piece.bytes ≠ [] ∧ piece.Has flagFirst ∧
    piece.result.totalLen = message.length ∧
    ∀ other ∈ skipped ++ rest, ¬other.Has flagFirst ∧ other.result.totalLen = 0
  last : ∃ front piece, pieces = front ++ [piece] ∧ piece.Has flagLast ∧
    ∀ other ∈ front, ¬other.Has flagLast

/-- The first stream with room for the header has room for a descriptor too, if there is a file. -/
def Fits (nbFiles : Nat) (capacities : List Nat) : Prop :=
  nbFiles = 0 ∨ ∀ capacity,
    capacities.find? (fun capacity => 12 ≤ capacity) = some capacity →
      12 + fileDescriptorPduLen ≤ capacity

/-- The base directory stands before the name of a file. -/
def Placed (dirBaseLen : Nat) (file : ListedFile) : Prop :=
  dirBaseLen + file.isDir.toNat ≤ file.name.length

section Descriptors

variable {dirBaseLen : Nat} {file : ListedFile} {files : List ListedFile} {out : OutStream}

theorem length_fileListHeader (nbItems : Nat) : (fileListHeader nbItems).length = 12 := by
  simp [fileListHeader]

theorem length_fileDescriptorWithoutFileName (file : ListedFile) :
    (fileDescriptorWithoutFileName file).length = 72 := by
  simp [fileDescriptorWithoutFileName]

theorem length_flatMap_cp1252Unit (path : List Byte) :
    (path.flatMap cp1252Unit).length = 2 * path.length := by
  induction path with
  | nil => rfl
  | cons char rest ih =>
    rw [List.flatMap_cons, List.length_append, length_cp1252Unit, ih, List.length_cons]
    omega

theorem length_rdpPath (dirBaseLen : Nat) (file : ListedFile) :
    (rdpPath dirBaseLen file).length ≤ maxPathLength := by
  have short := file.short
  rw [rdpPath, List.length_drop, List.length_take]
  omega

theorem length_fileDescriptor (dirBaseLen : Nat) (file : ListedFile) :
    (fileDescriptor dirBaseLen file).length = fileDescriptorPduLen := by
  have short := length_rdpPath dirBaseLen file
  rw [fileDescriptor, List.length_append, List.length_append, List.length_replicate,
    length_flatMap_cp1252Unit, length_fileDescriptorWithoutFileName]
  unfold fileNameBufferSize fileDescriptorPduLen
  unfold maxPathLength at short
  omega

theorem length_descriptors (dirBaseLen : Nat) (files : List ListedFile) :
    (files.flatMap (fileDescriptor dirBaseLen)).length = files.length * fileDescriptorPduLen := by
  induction files with
  | nil => exact (Nat.zero_mul _).symm
  | cons file rest ih =>
    rw [List.flatMap_cons, List.length_append, length_fileDescriptor, ih, List.length_cons,
      Nat.succ_mul, Nat.add_comm]

theorem length_message (list : DirectoryList) :
    list.message.length = 12 + list.internalFiles.length * fileDescriptorPduLen := by
  rw [DirectoryList.message, List.length_append, length_fileListHeader, length_descriptors]

/-- No name is cut: 259 characters fit before the null. -/
theorem cp1252ToUtf16lePartial_whole {path : List Byte} (short : path.length ≤ maxPathLength) :
    cp1252ToUtf16lePartial path maxFileName = path.flatMap cp1252Unit := by
  have half : maxFileName / 2 = maxPathLength := rfl
  rw [cp1252ToUtf16lePartial, half, Nat.min_eq_left short, List.take_length]

theorem assertThat_ok {condition : Prop} [Decidable condition] (holds : condition) :
    assertThat condition = .ok () := if_pos holds

theorem OutStream.append_append (out : OutStream) (first second : List Byte) :
    (out.append first).append second = out.append (first ++ second) := by
  simp [OutStream.append]

theorem OutStream.tailroom_append (out : OutStream) (bytes : List Byte) :
    (out.append bytes).tailroom = out.tailroom - bytes.length := by
  simp only [tailroom, append, List.length_append]
  omega

/-- A descriptor is written whole into the room for it. -/
theorem writeFileDescriptor_ok (placed : Placed dirBaseLen file)
    (room : out.hasRoom fileDescriptorPduLen) :
    writeFileDescriptor dirBaseLen file out =
      .ok (out.append (fileDescriptor dirBaseLen file)) := by
  have short := length_rdpPath dirBaseLen file
  have fixed := length_fileDescriptorWithoutFileName file
  have name := length_flatMap_cp1252Unit (rdpPath dirBaseLen file)
  have end_ : maxFileName - ((rdpPath dirBaseLen file).flatMap cp1252Unit).length + 2 =
      fileNameBufferSize - 2 * (rdpPath dirBaseLen file).length := by
    rw [name]
    unfold maxFileName fileNameBufferSize
    unfold maxPathLength at short
    omega
  unfold Placed at placed
  unfold OutStream.hasRoom fileDescriptorPduLen at room
  unfold maxPathLength at short
  have written : out.copy (fileDescriptorWithoutFileName file) =
      .ok (out.append (fileDescriptorWithoutFileName file)) :=
    OutStream.copy_ok (by rw [fixed]; omega)
  have kept : dirBaseLen ≤ (file.name.take (file.name.length - file.isDir.toNat)).length := by
    rw [List.length_take]
    omega
  have buffer : (out.append (fileDescriptorWithoutFileName file)).hasRoom maxFileName := by
    unfold OutStream.hasRoom maxFileName fileNameBufferSize
    rw [OutStream.tailroom_append, fixed]
    omega
  simp only [writeFileDescriptor, written, ok_bind, assertThat_ok kept, assertThat_ok buffer,
    assertThat_ok (Nat.le_trans (Nat.le_add_left _ _) placed)]
  rw [← rdpPath, cp1252ToUtf16lePartial_whole (length_rdpPath dirBaseLen file), end_,
    OutStream.copy_ok (by
      rw [OutStream.tailroom_append, fixed, name]
      omega), ok_bind, OutStream.copy_ok (by
      rw [OutStream.tailroom_append, OutStream.tailroom_append, fixed, name,
        List.length_replicate]
      unfold fileNameBufferSize
      omega), OutStream.append_append, OutStream.append_append, fileDescriptor,
    List.append_assoc]

/-- The loop writes as many descriptors as there is room for. -/
theorem writeFiles_ok (placed : ∀ file ∈ files, Placed dirBaseLen file) :
    writeFiles dirBaseLen files out =
      .ok (min files.length (out.tailroom / fileDescriptorPduLen),
        out.append ((files.take (out.tailroom / fileDescriptorPduLen)).flatMap
          (fileDescriptor dirBaseLen))) := by
  induction files generalizing out with
  | nil =>
    rw [writeFiles, List.take_nil, List.flatMap_nil, List.length_nil, Nat.zero_min,
      OutStream.append, List.append_nil]
  | cons file rest ih =>
    rw [writeFiles]
    by_cases room : out.hasRoom fileDescriptorPduLen
    · obtain ⟨here, later⟩ := List.forall_mem_cons.mp placed
      have one : out.tailroom / fileDescriptorPduLen =
          (out.append (fileDescriptor dirBaseLen file)).tailroom / fileDescriptorPduLen + 1 := by
        rw [OutStream.tailroom_append, length_fileDescriptor,
          Nat.div_eq_sub_div (by decide) room]
      rw [if_pos room, writeFileDescriptor_ok here room, ok_bind, ih later, ok_bind, one,
        List.take_succ_cons, List.flatMap_cons, OutStream.append_append, List.length_cons,
        Nat.add_min_add_right]
      rfl
    · have none : out.tailroom / fileDescriptorPduLen = 0 := Nat.div_eq_of_lt (Nat.not_le.mp room)
      rw [if_neg room, none, List.take_zero, List.flatMap_nil, Nat.min_zero, OutStream.append,
        List.append_nil]

end Descriptors

namespace DirectoryList

/-- The list behind a call that wrote so many descriptors. -/
def advanced (list : DirectoryList) (count : Nat) : DirectoryList :=
  { list with
    rdpFilePosition := list.rdpFilePosition + count
    rdpChannelFlags := flagShowProtocol }

def remaining (list : DirectoryList) : List ListedFile :=
  list.internalFiles.drop list.rdpFilePosition

/-- The descriptors of the first of them. -/
def descriptors (list : DirectoryList) (count : Nat) : List Byte :=
  (list.remaining.take count).flatMap (fileDescriptor list.dirBaseLen)

/-- What the writing of the list relies on. -/
structure Writable (list : DirectoryList) : Prop where
  placed : ∀ file ∈ list.internalFiles, Placed list.dirBaseLen file
  inside : list.rdpFilePosition ≤ list.internalFiles.length

variable {list list' : DirectoryList} {out : OutStream} {result : PartialRdpFileListResult}
  {capacity count : Nat} {capacities : List Nat} {pieces : List Piece}

theorem Writable.advanced (writable : list.Writable) (few : count ≤ list.remaining.length) :
    (list.advanced count).Writable where
  placed := writable.placed
  inside := by
    have inside := writable.inside
    rw [remaining, List.length_drop] at few
    change list.rdpFilePosition + count ≤ list.internalFiles.length
    omega

theorem remaining_advanced (list : DirectoryList) (count : Nat) :
    (list.advanced count).remaining = list.remaining.drop count := by
  rw [remaining, remaining, List.drop_drop]
  rfl

/-- What is left when some descriptors have been written. -/
theorem descriptors_split (list : DirectoryList) (count : Nat) :
    list.descriptors count ++
        (list.advanced count).remaining.flatMap (fileDescriptor list.dirBaseLen) =
      list.remaining.flatMap (fileDescriptor list.dirBaseLen) := by
  rw [descriptors, remaining_advanced, ← List.flatMap_append, List.take_append_drop]

/-- The loop, and the flags and the status behind it. -/
theorem writeListedFiles_ok (writable : list.Writable) (totalLen : Nat) (out : OutStream) :
    list.writeListedFiles totalLen out =
      .ok (list.advanced (min list.remaining.length (out.tailroom / fileDescriptorPduLen)),
        out.append (list.descriptors (out.tailroom / fileDescriptorPduLen)),
        if list.remaining.length ≤ out.tailroom / fileDescriptorPduLen then
          ⟨.completed, list.rdpChannelFlags ||| flagLast, totalLen⟩
        else ⟨.more, list.rdpChannelFlags, totalLen⟩) := by
  have inside := writable.inside
  have placed : ∀ file ∈ list.remaining, Placed list.dirBaseLen file :=
    fun file member => writable.placed file (List.mem_of_mem_drop member)
  have length : list.remaining.length = list.internalFiles.length - list.rdpFilePosition :=
    List.length_drop
  rw [writeListedFiles, ← remaining, writeFiles_ok placed, ok_bind]
  by_cases complete : list.remaining.length ≤ out.tailroom / fileDescriptorPduLen
  · have done : ¬list.rdpFilePosition +
        min list.remaining.length (out.tailroom / fileDescriptorPduLen) <
        list.internalFiles.length := by omega
    simp only [if_pos complete, decide_eq_false done, Bool.false_eq_true, if_false]
    rfl
  · have again : list.rdpFilePosition +
        min list.remaining.length (out.tailroom / fileDescriptorPduLen) <
        list.internalFiles.length := by omega
    have same : list.rdpChannelFlags ||| 0 = list.rdpChannelFlags := BitVec.or_zero
    simp only [if_neg complete, decide_eq_true again, if_true, same]
    rfl

/-- Behind the first files, nothing is written but descriptors. -/
theorem writePartialRdpFileList_resumed (writable : list.Writable)
    (resumed : list.rdpFilePosition ≠ 0) (capacity : Nat) :
    list.writePartialRdpFileList (.empty capacity) =
      .ok (list.advanced (min list.remaining.length (capacity / fileDescriptorPduLen)),
        ⟨capacity, list.descriptors (capacity / fileDescriptorPduLen)⟩,
        if list.remaining.length ≤ capacity / fileDescriptorPduLen then
          ⟨.completed, list.rdpChannelFlags ||| flagLast, 0⟩
        else ⟨.more, list.rdpChannelFlags, 0⟩) := by
  rw [writePartialRdpFileList, if_neg resumed, writeListedFiles_ok writable]
  rfl

/-- Nothing is done without room for the header. -/
theorem writePartialRdpFileList_small (start : list.rdpFilePosition = 0) (small : capacity < 12) :
    list.writePartialRdpFileList (.empty capacity) =
      .ok (list, .empty capacity, ⟨.tooSmallBuffer, 0, 0⟩) := by
  have few := Nat.le_trans list.few list.bounded
  have closed : ¬(OutStream.empty capacity).hasRoom
      (fileListHeader list.internalFiles.length).length := by
    rw [length_fileListHeader]
    exact Nat.not_le.mpr small
  rw [writePartialRdpFileList, if_pos start]
  simp only [assertThat_ok few, ok_bind, if_neg closed]
  rfl

/-- From the start, the header is written before the descriptors. -/
theorem writePartialRdpFileList_start (writable : list.Writable)
    (start : list.rdpFilePosition = 0) (room : 12 ≤ capacity) :
    list.writePartialRdpFileList (.empty capacity) =
      .ok (list.advanced (min list.remaining.length ((capacity - 12) / fileDescriptorPduLen)),
        ⟨capacity, fileListHeader list.internalFiles.length ++
          list.descriptors ((capacity - 12) / fileDescriptorPduLen)⟩,
        if list.remaining.length ≤ (capacity - 12) / fileDescriptorPduLen then
          ⟨.completed, list.rdpChannelFlags ||| flagLast, list.message.length⟩
        else ⟨.more, list.rdpChannelFlags, list.message.length⟩) := by
  have few := Nat.le_trans list.few list.bounded
  have header := length_fileListHeader list.internalFiles.length
  have opened : (OutStream.empty capacity).hasRoom
      (fileListHeader list.internalFiles.length).length := by
    rw [header]
    exact room
  have left : ((OutStream.empty capacity).append
      (fileListHeader list.internalFiles.length)).tailroom = capacity - 12 := by
    rw [OutStream.tailroom_append, header]
    rfl
  rw [writePartialRdpFileList, if_pos start]
  simp only [assertThat_ok few, ok_bind, if_pos opened, OutStream.copy_ok opened]
  rw [writeListedFiles_ok writable, left, length_message, header]
  rfl

theorem writeUpToCompleted_completes
    (step : list.writePartialRdpFileList (.empty capacity) = .ok (list', out, result))
    (completed : result.status = .completed) :
    list.writeUpToCompleted (capacity :: capacities) = .ok [⟨result, out.produced⟩] := by
  rw [writeUpToCompleted, step, ok_bind]
  simp only [if_pos completed]
  rfl

theorem writeUpToCompleted_continues
    (step : list.writePartialRdpFileList (.empty capacity) = .ok (list', out, result))
    (more : result.status ≠ .completed)
    (rest : list'.writeUpToCompleted capacities = .ok pieces) :
    list.writeUpToCompleted (capacity :: capacities) = .ok (⟨result, out.produced⟩ :: pieces) := by
  rw [writeUpToCompleted, step, ok_bind]
  simp only [if_neg more, rest, ok_bind]
  rfl

end DirectoryList

/-- The pieces behind the first: the bytes that are left, without another announcement. -/
structure Continues (rest : List Byte) (pieces : List Piece) : Prop where
  later : ∀ piece ∈ pieces, ¬piece.Has flagFirst ∧ piece.result.totalLen = 0
  whole : Ends pieces → pieces.flatMap Piece.bytes = rest
  last : Ends pieces → ∃ front piece, pieces = front ++ [piece] ∧ piece.Has flagLast ∧
    ∀ other ∈ front, ¬other.Has flagLast

section Pieces

variable {result : PartialRdpFileListResult} {bytes message rest : List Byte} {pieces : List Piece}

theorem ends_cons (more : result.status ≠ .completed) :
    Ends (⟨result, bytes⟩ :: pieces) ↔ Ends pieces := by
  simp [Ends, Piece.Completes, more]

theorem Continues.nil (rest : List Byte) : Continues rest [] where
  later := fun _ member => absurd member List.not_mem_nil
  whole := fun ⟨_, member, _⟩ => absurd member List.not_mem_nil
  last := fun ⟨_, member, _⟩ => absurd member List.not_mem_nil

theorem Continues.cons (continues : Continues rest pieces)
    (more : result.status ≠ .completed)
    (first : ¬HasFlag result.compressedChannelFlags flagFirst)
    (last : ¬HasFlag result.compressedChannelFlags flagLast)
    (unannounced : result.totalLen = 0) :
    Continues (bytes ++ rest) (⟨result, bytes⟩ :: pieces) where
  later := by
    intro other member
    rcases List.mem_cons.mp member with same | later
    · rw [same]
      exact ⟨first, unannounced⟩
    · exact continues.later other later
  whole := by
    intro ends
    rw [List.flatMap_cons, continues.whole ((ends_cons more).mp ends)]
  last := by
    intro ends
    obtain ⟨front, final, split, hasLast, others⟩ := continues.last ((ends_cons more).mp ends)
    refine ⟨⟨result, bytes⟩ :: front, final, by rw [split]; rfl, hasLast, ?_⟩
    intro other member
    rcases List.mem_cons.mp member with same | earlier
    · rw [same]
      exact last
    · exact others other earlier

theorem Continues.single (first : ¬HasFlag result.compressedChannelFlags flagFirst)
    (last : HasFlag result.compressedChannelFlags flagLast) (unannounced : result.totalLen = 0) :
    Continues bytes [⟨result, bytes⟩] where
  later := by
    intro other member
    rw [List.mem_singleton.mp member]
    exact ⟨first, unannounced⟩
  whole := fun _ => by rw [List.flatMap_singleton]
  last := fun _ => ⟨[], ⟨result, bytes⟩, rfl, last, fun _ member => absurd member List.not_mem_nil⟩

/-- The first piece with what continues it. -/
theorem OneList.of_continues (continues : Continues rest pieces) (ends : Ends pieces)
    (first : HasFlag result.compressedChannelFlags flagFirst)
    (last : ¬HasFlag result.compressedChannelFlags flagLast) (some' : bytes ≠ [])
    (announced : result.totalLen = (bytes ++ rest).length) :
    OneList (bytes ++ rest) (⟨result, bytes⟩ :: pieces) where
  whole := by rw [List.flatMap_cons, continues.whole ends]
  first := ⟨[], ⟨result, bytes⟩, pieces, rfl, fun _ member => absurd member List.not_mem_nil, some', first,
    announced, continues.later⟩
  last := by
    obtain ⟨front, final, split, hasLast, others⟩ := continues.last ends
    refine ⟨⟨result, bytes⟩ :: front, final, by rw [split]; rfl, hasLast, ?_⟩
    intro other member
    rcases List.mem_cons.mp member with same | earlier
    · rw [same]
      exact last
    · exact others other earlier

theorem OneList.single (first : HasFlag result.compressedChannelFlags flagFirst)
    (last : HasFlag result.compressedChannelFlags flagLast) (some' : bytes ≠ [])
    (announced : result.totalLen = bytes.length) : OneList bytes [⟨result, bytes⟩] where
  whole := by rw [List.flatMap_singleton]
  first := ⟨[], ⟨result, bytes⟩, [], rfl, fun _ member => absurd member List.not_mem_nil, some', first,
    announced, fun _ member => absurd member List.not_mem_nil⟩
  last := ⟨[], ⟨result, bytes⟩, rfl, last, fun _ member => absurd member List.not_mem_nil⟩

/-- A call that wrote nothing does not count. -/
theorem oneList_cons (flags : result.compressedChannelFlags = 0)
    (unannounced : result.totalLen = 0) (ends : Ends pieces) :
    OneList message (⟨result, []⟩ :: pieces) ↔ OneList message pieces := by
  have no (flag : CompressedChannelFlags) : ¬(⟨result, []⟩ : Piece).Has flag := by
    rw [Piece.Has, flags, HasFlag]
    exact fun differ => differ BitVec.zero_and
  constructor
  · intro one
    refine ⟨by simpa using one.whole, ?_, ?_⟩
    · obtain ⟨skipped, first, rest, split, skips, some', others⟩ := one.first
      cases skipped with
      | nil =>
        obtain ⟨same, _⟩ := List.cons.inj split
        exact absurd (congrArg Piece.bytes same).symm some'
      | cons other skipped =>
        obtain ⟨_, split⟩ := List.cons.inj split
        obtain ⟨hasFirst, announced, later⟩ := others
        exact ⟨skipped, first, rest, split,
          fun other member => skips other (List.mem_cons_of_mem _ member), some', hasFirst,
          announced, fun other member => later other (List.mem_cons_of_mem _ member)⟩
    · obtain ⟨front, final, split, hasLast, others⟩ := one.last
      cases front with
      | nil =>
        obtain ⟨_, none⟩ := List.cons.inj split
        obtain ⟨_, member, _⟩ := ends
        rw [none] at member
        exact absurd member List.not_mem_nil
      | cons other front =>
        obtain ⟨_, split⟩ := List.cons.inj split
        exact ⟨front, final, split, hasLast,
          fun other member => others other (List.mem_cons_of_mem _ member)⟩
  · intro one
    refine ⟨by simpa using one.whole, ?_, ?_⟩
    · obtain ⟨skipped, first, rest, split, skips, some', hasFirst, announced, later⟩ := one.first
      refine ⟨⟨result, []⟩ :: skipped, first, rest, by rw [split]; rfl, ?_, some', hasFirst, announced,
        ?_⟩
      · exact List.forall_mem_cons.mpr ⟨rfl, skips⟩
      · exact List.forall_mem_cons.mpr ⟨⟨no _, unannounced⟩, later⟩
    · obtain ⟨front, final, split, hasLast, others⟩ := one.last
      exact ⟨⟨result, []⟩ :: front, final, by rw [split]; rfl, hasLast,
        List.forall_mem_cons.mpr ⟨no _, others⟩⟩

end Pieces

end Redemption.FileTransfer
