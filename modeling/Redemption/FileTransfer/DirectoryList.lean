import Redemption.FileTransfer.FileList
import Redemption.Foundation.FrontReader
import Redemption.Utf.Cp1252

/-! `VncFileList`: the directories of the VNC server are listed, and the list is sent to the RDP
client. -/
namespace Redemption.FileTransfer

open Redemption.Foundation Redemption.Utf

def separator : Byte := 0x5C

/-- `win_dir_remove_end_separator`. -/
def winDirRemoveEndSeparator (dir : List Byte) : List Byte :=
  if dir.getLast? = some separator then dir.dropLast else dir

/-- `UVncFile::PathView`. -/
structure PathView where
  native : List Byte
  short : native.length ≤ maxPathLength

/-- `UVncFile`. -/
structure UVncFile where
  fileName : PathView
  fileSize : BitVec 64
  lastAccessTime : BitVec 64
  isDir : Bool

/-- An `OutStream`: what has been written into its `capacity` bytes. -/
structure OutStream where
  capacity : Nat
  produced : List Byte
  deriving DecidableEq, Repr

namespace OutStream

def empty (capacity : Nat) : OutStream := ⟨capacity, []⟩

def tailroom (out : OutStream) : Nat := out.capacity - out.produced.length

def hasRoom (out : OutStream) (count : Nat) : Prop := count ≤ out.tailroom

instance (out : OutStream) (count : Nat) : Decidable (out.hasRoom count) :=
  inferInstanceAs (Decidable (_ ≤ _))

def append (out : OutStream) (bytes : List Byte) : OutStream :=
  { out with produced := out.produced ++ bytes }

/-- `out_copy_bytes`; nothing stops a write past the end. -/
def copy (out : OutStream) (bytes : List Byte) : Checked FileListError OutStream :=
  if bytes.length ≤ out.tailroom then .ok (out.append bytes) else .error .outOfBounds

end OutStream

/-- `pkt::Header::serialize`, and what follows the header. -/
def FtPacket.serialize (packet : FtPacket) : List Byte :=
  [7, packet.contentType] ++ leBytes 2 packet.contentParam.toNat ++
    beBytes 4 packet.sizeOrOther.toNat ++ beBytes 4 packet.dataLen.toNat ++ packet.text

def directoryContentRequest (path : List Byte) : FtPacket :=
  ⟨1, 1, 0, BitVec.ofNat 32 path.length, path⟩

/-- `write_directory_content_request`; nothing where it answers `TooSmallBuffer`. -/
def writeDirectoryContentRequest (out : OutStream) (path : List Byte) :
    Checked FileListError (Option OutStream) :=
  if out.hasRoom (headerPacketSize + path.length) then do
    let out ← out.copy (directoryContentRequest path).serialize
    return some out
  else .ok none

/-- `VncFileList::File`. -/
structure ListedFile extends File where
  lastAccessTime : BitVec 64

/-- `CompressedChannelFlags`. -/
abbrev CompressedChannelFlags := BitVec 8

def flagFirst : CompressedChannelFlags := 0x01
def flagLast : CompressedChannelFlags := 0x02
def flagShowProtocol : CompressedChannelFlags := 0x10

/-- A flag is set. -/
def HasFlag (flags flag : CompressedChannelFlags) : Prop := flags &&& flag ≠ 0

instance (flags flag : CompressedChannelFlags) : Decidable (HasFlag flags flag) :=
  inferInstanceAs (Decidable (_ ≠ _))

inductive NextDirectoryResult where
  | ok
  | noDir
  | tooSmallBuffer
  deriving DecidableEq, Repr

inductive PushFileResult where
  | ok
  | finalPathTooLarge
  | fileSizeTooLarge
  | tooManyFiles
  deriving DecidableEq, Repr

/-- `PartialRdpFileListResult::Status`; `more` is its `Partial`. -/
inductive FileListStatus where
  | more
  | completed
  | tooSmallBuffer
  deriving DecidableEq, Repr

structure PartialRdpFileListResult where
  status : FileListStatus
  compressedChannelFlags : CompressedChannelFlags
  totalLen : Nat
  deriving DecidableEq, Repr

structure Params where
  maxNbFiles : BitVec 32
  maxFileSize : BitVec 64

/-- `FileDescriptor::pdu_len()`. -/
def fileDescriptorPduLen : Nat := 592

/-- `file_descriptor_file_name_buffer_size`. -/
def fileNameBufferSize : Nat := 520

/-- `max_file_name`: without the null at its end. -/
def maxFileName : Nat := fileNameBufferSize - 2

/-- The header of the list, `FormatDataResponseWithoutData` and `FileListWithoutArray`. -/
def fileListHeader (nbItems : Nat) : List Byte :=
  leBytes 2 5 ++ leBytes 2 1 ++ leBytes 4 (4 + nbItems * fileDescriptorPduLen) ++
    leBytes 4 nbItems

/-- `FileDescriptorWithoutFileName`. -/
def fileDescriptorWithoutFileName (file : ListedFile) : List Byte :=
  leBytes 4 (0x40 ||| 0x4000 ||| 0x4 ||| if file.lastAccessTime = 0 then 0 else 0x20) ++
    List.replicate 32 0 ++ leBytes 4 (if file.isDir then 0x10 else 0x20) ++
    List.replicate 16 0 ++ leBytes 8 file.lastAccessTime.toNat ++
    leBytes 4 (file.fileSize / 2 ^ 32) ++ leBytes 4 (file.fileSize % 2 ^ 32)

/-- `cp1252_to_utf16le.partial`: what is written into so many bytes. -/
def cp1252ToUtf16lePartial (input : List Byte) (room : Nat) : List Byte :=
  (input.take (min input.length (room / 2))).flatMap cp1252Unit

/-- One turn of the loop of `write_partial_rdp_file_list`. -/
def writeFileDescriptor (dirBaseLen : Nat) (file : ListedFile) (out : OutStream) :
    Checked FileListError OutStream := do
  let out ← out.copy (fileDescriptorWithoutFileName file)
  assertThat (file.isDir.toNat ≤ file.name.length)
  let path := file.name.take (file.name.length - file.isDir.toNat)
  assertThat (dirBaseLen ≤ path.length)
  assertThat (out.hasRoom maxFileName)
  let name := cp1252ToUtf16lePartial (path.drop dirBaseLen) maxFileName
  let out ← out.copy name
  out.copy (List.replicate (maxFileName - name.length + 2) 0)

/-- The loop of `write_partial_rdp_file_list`, and how many files it writes. -/
def writeFiles (dirBaseLen : Nat) :
    List ListedFile → OutStream → Checked FileListError (Nat × OutStream)
  | [], out => .ok (0, out)
  | file :: rest, out =>
    if out.hasRoom fileDescriptorPduLen then do
      let out ← writeFileDescriptor dirBaseLen file out
      let (count, out) ← writeFiles dirBaseLen rest out
      return (count + 1, out)
    else .ok (0, out)

/-- The loop of `write_next_vnc_directory_content_request`: the first directory, and its index. -/
def firstDirectory (first : Nat) : List ListedFile → Option (Nat × ListedFile)
  | [] => none
  | file :: rest => if file.isDir then some (first, file) else firstDirectory (first + 1) rest

/-- `VncFileList`, with what lists the directories and sends the list; the transfer of a file is
`FileList`. -/
structure DirectoryList where
  maxFileSize : Nat
  maxNbFiles : Nat
  vncDirPosition : Nat
  vncCurrentDirName : List Byte
  dirBaseLen : Nat
  rdpFilePosition : Nat
  rdpChannelFlags : CompressedChannelFlags
  internalFiles : List ListedFile
  bounded : maxNbFiles ≤ maxItems
  few : internalFiles.length ≤ maxNbFiles

namespace DirectoryList

/-- The constructor. -/
def make (params : Params) : DirectoryList where
  maxFileSize := min params.maxFileSize.toNat (2 ^ 64 - 1 - vncPdusStreamSize - rdpPdusStreamSize)
  maxNbFiles := min params.maxNbFiles.toNat maxItems
  vncDirPosition := 0
  vncCurrentDirName := []
  dirBaseLen := 0
  rdpFilePosition := 0
  rdpChannelFlags := flagFirst ||| flagShowProtocol
  internalFiles := []
  bounded := Nat.min_le_right _ _
  few := Nat.zero_le _

variable (list : DirectoryList)

/-- `start_rdp_file_list`. -/
def startRdpFileList : DirectoryList :=
  { list with
    rdpFilePosition := 0
    rdpChannelFlags := flagFirst ||| flagShowProtocol }

/-- `start_new_list`. The name of the first directory is cut where its separator is too much. -/
def startNewList (dirBase : PathView) : DirectoryList :=
  let name := (winDirRemoveEndSeparator dirBase.native ++ [separator]).take maxPathLength
  { list.startRdpFileList with
    vncDirPosition := 0
    vncCurrentDirName := name
    dirBaseLen := name.length
    internalFiles := []
    few := Nat.zero_le _ }

def storedName (file : UVncFile) : List Byte :=
  list.vncCurrentDirName ++ winDirRemoveEndSeparator file.fileName.native ++
    if file.isDir then [separator] else []

/-- `push_file_in_current_dir`. -/
def pushFileInCurrentDir (file : UVncFile) : DirectoryList × PushFileResult :=
  if full : list.internalFiles.length = list.maxNbFiles then (list, .tooManyFiles)
  else if list.maxFileSize ≤ file.fileSize.toNat then (list, .fileSizeTooLarge)
  else if large : maxPathLength < (list.storedName file).length then (list, .finalPathTooLarge)
  else
    ({ list with
        internalFiles := list.internalFiles ++
          [⟨⟨list.storedName file, file.fileSize.toNat, file.isDir, Nat.not_lt.mp large⟩,
            file.lastAccessTime⟩]
        few := by
          have few := list.few
          rw [List.length_append, List.length_singleton]
          omega }, .ok)

/-- `write_next_vnc_directory_content_request`. -/
def writeNextVncDirectoryContentRequest (out : OutStream) :
    Checked FileListError (DirectoryList × OutStream × NextDirectoryResult) :=
  match firstDirectory list.vncDirPosition (list.internalFiles.drop list.vncDirPosition) with
  | none => .ok (list, out, .noDir)
  | some (first, file) => do
    match ← writeDirectoryContentRequest out file.name with
    | none => return (list, out, .tooSmallBuffer)
    | some out =>
      return ({ list with
        vncDirPosition := first + 1
        vncCurrentDirName := file.name }, out, .ok)

/-- `write_partial_rdp_file_list`, from the loop on. -/
def writeListedFiles (totalLen : Nat) (out : OutStream) :
    Checked FileListError (DirectoryList × OutStream × PartialRdpFileListResult) := do
  let (count, out) ←
    writeFiles list.dirBaseLen (list.internalFiles.drop list.rdpFilePosition) out
  let position := list.rdpFilePosition + count
  let again := decide (position < list.internalFiles.length)
  return ({ list with
    rdpFilePosition := position
    rdpChannelFlags := flagShowProtocol }, out,
    { status := if again then .more else .completed
      compressedChannelFlags := list.rdpChannelFlags ||| if again then 0 else flagLast
      totalLen := totalLen })

/-- `write_partial_rdp_file_list`. -/
def writePartialRdpFileList (out : OutStream) :
    Checked FileListError (DirectoryList × OutStream × PartialRdpFileListResult) :=
  if list.rdpFilePosition = 0 then do
    let nbItems := list.internalFiles.length
    assertThat (nbItems ≤ maxItems)
    if out.hasRoom (fileListHeader nbItems).length then do
      let out ← out.copy (fileListHeader nbItems)
      list.writeListedFiles ((fileListHeader nbItems).length + nbItems * fileDescriptorPduLen) out
    else return (list, out, ⟨.tooSmallBuffer, 0, 0⟩)
  else list.writeListedFiles 0 out

end DirectoryList

end Redemption.FileTransfer
