import Redemption.FileTransfer.DirectoryList

/-! The tree that is explored through a list, one directory after the other in the order they are
found. -/
namespace Redemption.FileTransfer

open Redemption.Foundation Redemption.Utf

/-- A file or a directory that has been found: the directories below the base directory that lead
to it, and its name. -/
structure Node where
  parents : List (List Byte)
  name : List Byte
  isDir : Bool

namespace Node

/-- The way to a node from the base directory. -/
def path (node : Node) : List (List Byte) := node.parents ++ [node.name]

end Node

/-- The names of directories, each with a separator behind it. -/
def spellDirs (path : List (List Byte)) : List Byte := path.flatMap (· ++ [separator])

/-- The path of a node below the base directory. -/
def Node.spelled (node : Node) : List Byte := spellDirs node.parents ++ node.name

/-- What has been found below a base directory, which directory is listed, and which ones have been
asked for or wait for it. -/
structure Tree where
  base : List Byte
  nodes : List Node
  current : List (List Byte)
  requested : List (List (List Byte))
  pending : List (List (List Byte))

namespace Tree

/-- Nothing is known, not even a base directory. -/
def unknown : Tree := ⟨[], [], [], [], []⟩

/-- The exploration of a directory starts. -/
def start (dirBase : List Byte) : Tree :=
  ⟨winDirRemoveEndSeparator dirBase ++ [separator], [], [], [], []⟩

variable (tree : Tree)

/-- A file or a directory is found in the one that is listed. -/
def found (name : List Byte) (isDir : Bool) : Tree :=
  { tree with
    nodes := tree.nodes ++ [⟨tree.current, name, isDir⟩]
    pending := tree.pending ++ if isDir then [tree.current ++ [name]] else [] }

/-- The first of the directories that wait is asked for. -/
def enter : Tree :=
  match tree.pending with
  | [] => tree
  | path :: rest =>
    { tree with
      current := path
      requested := tree.requested ++ [path]
      pending := rest }

/-- The path of a directory, with its separator. -/
def dirName (path : List (List Byte)) : List Byte := tree.base ++ spellDirs path

/-- The path of a node; the one of a directory ends with a separator. -/
def stored (node : Node) : List Byte :=
  tree.base ++ node.spelled ++ if node.isDir then [separator] else []

/-- The ways to the directories among nodes, in order. -/
def directories (nodes : List Node) : List (List (List Byte)) :=
  (nodes.filter (·.isDir)).map Node.path

/-- Every directory that has been found has been asked for or waits for it, once. -/
def Queued : Prop := tree.requested ++ tree.pending = directories tree.nodes

end Tree

/-- A call of a list while directories are listed; a request is written to a stream of its own. -/
inductive ListCall where
  | startNewList (dirBase : PathView)
  | pushFileInCurrentDir (file : UVncFile)
  | writeNextVncDirectoryContentRequest (capacity : Nat)

/-- What comes back from a call. -/
inductive ListReply where
  | started
  | pushed (result : PushFileResult)
  | asked (written : List Byte) (result : NextDirectoryResult)
  deriving DecidableEq, Repr

def DirectoryList.call (list : DirectoryList) :
    ListCall → Checked FileListError (DirectoryList × ListReply)
  | .startNewList dirBase => .ok (list.startNewList dirBase, .started)
  | .pushFileInCurrentDir file =>
    .ok ((list.pushFileInCurrentDir file).1, .pushed (list.pushFileInCurrentDir file).2)
  | .writeNextVncDirectoryContentRequest capacity => do
    let (list, out, result) ← list.writeNextVncDirectoryContentRequest (.empty capacity)
    return (list, .asked out.produced result)

/-- What a call does to the tree, by its answer. -/
def Tree.after (tree : Tree) : ListCall → ListReply → Tree
  | .startNewList dirBase, _ => start dirBase.native
  | .pushFileInCurrentDir file, .pushed .ok =>
    tree.found (winDirRemoveEndSeparator file.fileName.native) file.isDir
  | .writeNextVncDirectoryContentRequest _, .asked _ .ok => tree.enter
  | _, _ => tree

/-- The bytes that have been written to the VNC server since the list was started. -/
def sentAfter (sent : List Byte) : ListCall → ListReply → List Byte
  | .startNewList _, _ => []
  | _, .asked written _ => sent ++ written
  | _, _ => sent

/-- A file without a name is not pushed where the base directory leaves no room for its
separator. -/
def ListCall.Admissible (list : DirectoryList) : ListCall → Prop
  | .pushFileInCurrentDir file =>
    list.vncCurrentDirName.length < maxPathLength ∨
      list.vncCurrentDirName.getLast? = some separator ∨ file.isDir = true ∨
      winDirRemoveEndSeparator file.fileName.native ≠ []
  | _ => True

/-- The lists that calls lead to, with the tree they have explored and what has been written. -/
inductive Explores (params : Params) : DirectoryList → Tree → List Byte → Prop where
  | constructed : Explores params (.make params) .unknown []
  | call {list list' : DirectoryList} {tree : Tree} {sent : List Byte} {reply : ListReply}
      (call : ListCall) (explored : Explores params list tree sent)
      (admissible : call.Admissible list) (done : list.call call = .ok (list', reply)) :
      Explores params list' (tree.after call reply) (sentAfter sent call reply)

namespace Tree

variable {tree : Tree}

theorem directories_append (first second : List Node) :
    directories (first ++ second) = directories first ++ directories second := by
  rw [directories, List.filter_append, List.map_append]
  rfl

theorem queued_found (queued : tree.Queued) (name : List Byte) (isDir : Bool) :
    (tree.found name isDir).Queued := by
  have one : directories [⟨tree.current, name, isDir⟩] =
      if isDir then [tree.current ++ [name]] else [] := by cases isDir <;> rfl
  change tree.requested ++ (tree.pending ++ _) = directories (tree.nodes ++ [_])
  rw [directories_append, ← List.append_assoc, queued, one]

theorem queued_enter (queued : tree.Queued) : tree.enter.Queued := by
  unfold Queued enter
  cases waiting : tree.pending with
  | nil => simpa [Queued, waiting] using queued
  | cons path rest =>
    rw [Queued, waiting] at queued
    simpa using queued

theorem queued_after (queued : tree.Queued) (call : ListCall) (reply : ListReply) :
    (tree.after call reply).Queued := by
  unfold after
  split
  · rfl
  · exact queued_found queued _ _
  · exact queued_enter queued
  · exact queued

/-- A directory is known by its path with the separator. -/
theorem stored_directory {node : Node} (isDir : node.isDir = true) :
    tree.stored node = tree.dirName node.path := by
  simp [stored, dirName, isDir, Node.spelled, Node.path, spellDirs]

end Tree

theorem Explores.queued {params : Params} {list : DirectoryList} {tree : Tree} {sent : List Byte}
    (explored : Explores params list tree sent) : tree.Queued := by
  induction explored with
  | constructed => rfl
  | call call _ _ _ ih => exact Tree.queued_after ih call _

/-- The list and the tree agree: the files are the nodes, the directory that is listed goes by its
path, and those that wait are the ones behind the position. A base directory without its separator
takes no file. -/
structure Mirrors (list : DirectoryList) (tree : Tree) : Prop where
  names : list.internalFiles.map (fun file => (file.name, file.isDir)) =
    tree.nodes.map fun node => (tree.stored node, node.isDir)
  opened : list.vncCurrentDirName = tree.dirName tree.current ∧
      list.dirBaseLen = tree.base.length ∨
    list.vncCurrentDirName.length = maxPathLength ∧
      list.vncCurrentDirName.getLast? ≠ some separator ∧ list.internalFiles = []
  pending : tree.pending = Tree.directories (tree.nodes.drop list.vncDirPosition)
  inside : list.vncDirPosition ≤ list.internalFiles.length
  unwritten : list.rdpFilePosition = 0
  flags : list.rdpChannelFlags = flagFirst ||| flagShowProtocol

section Requests

variable {out : OutStream} {bytes : List Byte}

theorem OutStream.copy_ok (room : bytes.length ≤ out.tailroom) :
    out.copy bytes = .ok (out.append bytes) := if_pos room

theorem length_serialize (packet : FtPacket) :
    packet.serialize.length = headerPacketSize + packet.text.length := by
  simp [FtPacket.serialize, headerPacketSize]
  omega

theorem writeDirectoryContentRequest_ok (out : OutStream) (path : List Byte) :
    writeDirectoryContentRequest out path =
      .ok (if out.hasRoom (headerPacketSize + path.length) then
        some (out.append (directoryContentRequest path).serialize) else none) := by
  unfold writeDirectoryContentRequest
  split
  · next room =>
    rw [OutStream.copy_ok (by rw [length_serialize]; exact room)]
    rfl
  · rfl

/-- The first directory that is found is the first node that is one. -/
theorem firstDirectory_cases {tree : Tree} (first : Nat) :
    ∀ {files : List ListedFile} {nodes : List Node},
      files.map (fun file => (file.name, file.isDir)) =
        nodes.map (fun node => (tree.stored node, node.isDir)) →
      firstDirectory first files = none ∧ Tree.directories nodes = [] ∨
      ∃ count file node, firstDirectory first files = some (first + count, file) ∧
        file.name = tree.stored node ∧ node.isDir = true ∧ count < files.length ∧
        Tree.directories nodes = node.path :: Tree.directories (nodes.drop (count + 1)) := by
  intro files
  induction files generalizing first with
  | nil =>
    intro nodes same
    have none : nodes = [] := by simpa using same.symm
    exact .inl ⟨rfl, by rw [none]; rfl⟩
  | cons file rest ih =>
    intro nodes same
    cases nodes with
    | nil => simp at same
    | cons node others =>
      simp only [List.map_cons, List.cons.injEq, Prod.mk.injEq] at same
      obtain ⟨⟨name, isDir⟩, same⟩ := same
      cases directory : file.isDir with
      | true =>
        refine .inr ⟨0, file, node, ?_, name, by rw [← isDir, directory], Nat.succ_pos _, ?_⟩
        · simp [firstDirectory, directory]
        · simp [Tree.directories, ← isDir, directory]
      | false =>
        have skipped : Tree.directories (node :: others) = Tree.directories others := by
          simp [Tree.directories, ← isDir, directory]
        rcases ih (first + 1) same with ⟨none, empty⟩ |
            ⟨count, other, node', found, name', isDir', inside, split⟩
        · exact .inl ⟨by simpa [firstDirectory, directory] using none, by rw [skipped, empty]⟩
        · refine .inr ⟨count + 1, other, node', ?_, name', isDir', by simpa using inside, ?_⟩
          · rw [firstDirectory, directory, if_neg Bool.false_ne_true, found]
            congr 2
            omega
          · rw [skipped, split]
            rfl

end Requests

/-- A name that fills a path had no separator at its end. -/
theorem winDirRemoveEndSeparator_full {dir : PathView}
    (full : maxPathLength ≤ (winDirRemoveEndSeparator dir.native).length) :
    winDirRemoveEndSeparator dir.native = dir.native ∧ dir.native.length = maxPathLength ∧
      dir.native.getLast? ≠ some separator := by
  have short := dir.short
  unfold winDirRemoveEndSeparator at full ⊢
  by_cases ends : dir.native.getLast? = some separator
  · rw [if_pos ends, List.length_dropLast] at full
    unfold maxPathLength at full short
    omega
  · rw [if_neg ends] at full ⊢
    exact ⟨rfl, Nat.le_antisymm short full, ends⟩

namespace Mirrors

variable {list : DirectoryList} {tree : Tree}

theorem make (params : Params) : Mirrors (.make params) .unknown where
  names := rfl
  opened := .inl ⟨rfl, rfl⟩
  pending := rfl
  inside := Nat.le_refl _
  unwritten := rfl
  flags := rfl

theorem startNewList (list : DirectoryList) (dirBase : PathView) :
    Mirrors (list.startNewList dirBase) (.start dirBase.native) where
  names := rfl
  opened := by
    by_cases room : (winDirRemoveEndSeparator dirBase.native).length < maxPathLength
    · have whole : (winDirRemoveEndSeparator dirBase.native ++ [separator]).take maxPathLength =
          winDirRemoveEndSeparator dirBase.native ++ [separator] :=
        List.take_of_length_le (by rw [List.length_append]; exact room)
      refine .inl ⟨?_, congrArg List.length whole⟩
      exact whole.trans (List.append_nil _).symm
    · obtain ⟨kept, full, ends⟩ := winDirRemoveEndSeparator_full (Nat.not_lt.mp room)
      have cut : (winDirRemoveEndSeparator dirBase.native ++ [separator]).take maxPathLength =
          dirBase.native := by rw [kept, List.take_left' full]
      refine .inr ⟨?_, ?_, rfl⟩
      · exact (congrArg List.length cut).trans full
      · exact (congrArg List.getLast? cut).trans_ne ends
  pending := rfl
  inside := Nat.le_refl _
  unwritten := rfl
  flags := rfl

/-- The name of a file that is pushed is its path. -/
theorem storedName (opened : list.vncCurrentDirName = tree.dirName tree.current)
    (file : UVncFile) :
    list.storedName file = tree.stored
      ⟨tree.current, winDirRemoveEndSeparator file.fileName.native, file.isDir⟩ := by
  rw [DirectoryList.storedName, opened, Tree.stored, Tree.dirName, Node.spelled]
  simp only [List.append_assoc]

theorem pushFileInCurrentDir (mirrors : Mirrors list tree) (file : UVncFile)
    (admissible : (ListCall.pushFileInCurrentDir file).Admissible list) :
    Mirrors (list.pushFileInCurrentDir file).1
      (tree.after (.pushFileInCurrentDir file) (.pushed (list.pushFileInCurrentDir file).2)) := by
  unfold DirectoryList.pushFileInCurrentDir
  split
  · exact mirrors
  split
  · exact mirrors
  split
  · exact mirrors
  next large =>
  rcases mirrors.opened with ⟨opened, base⟩ | ⟨full, ends, _⟩
  · have name := storedName opened file
    have count := congrArg List.length mirrors.names
    rw [List.length_map, List.length_map] at count
    refine ⟨?_, .inl ⟨opened, base⟩, ?_, ?_, mirrors.unwritten, mirrors.flags⟩
    · change (list.internalFiles ++ [_]).map _ = (tree.nodes ++ [_]).map _
      rw [List.map_append, List.map_append, mirrors.names]
      simp only [List.map_singleton, name]
      rfl
    · change tree.pending ++ _ = Tree.directories ((tree.nodes ++ [_]).drop list.vncDirPosition)
      rw [List.drop_append_of_le_length (count ▸ mirrors.inside), Tree.directories_append,
        mirrors.pending]
      cases file.isDir <;> rfl
    · rw [List.length_append]
      exact Nat.le_add_right_of_le mirrors.inside
  · -- nothing but a file without a name fits behind the base directory
    exfalso
    have length : (list.storedName file).length = maxPathLength +
        (winDirRemoveEndSeparator file.fileName.native).length + file.isDir.toNat := by
      rw [DirectoryList.storedName, List.length_append, List.length_append, full]
      cases file.isDir <;> rfl
    rw [length] at large
    rcases admissible with room | ended | isDir | named
    · omega
    · exact ends ended
    · rw [isDir] at large
      have one : true.toNat = 1 := rfl
      omega
    · have some' := List.length_pos_iff.mpr named
      omega

/-- A request asks for the first directory that waits, and there is none where none waits. -/
theorem writeNextVncDirectoryContentRequest (mirrors : Mirrors list tree) (capacity : Nat) :
    (list.call (.writeNextVncDirectoryContentRequest capacity) =
        .ok (list, .asked [] .noDir) ∧ tree.pending = []) ∨
    (list.call (.writeNextVncDirectoryContentRequest capacity) =
        .ok (list, .asked [] .tooSmallBuffer)) ∨
    ∃ list' path, list.call (.writeNextVncDirectoryContentRequest capacity) =
        .ok (list', .asked (directoryContentRequest (tree.dirName path)).serialize .ok) ∧
      tree.pending.head? = some path ∧ Mirrors list' tree.enter := by
  have behind : (list.internalFiles.drop list.vncDirPosition).map
      (fun file => (file.name, file.isDir)) =
      (tree.nodes.drop list.vncDirPosition).map fun node => (tree.stored node, node.isDir) := by
    rw [List.map_drop, List.map_drop, mirrors.names]
  unfold DirectoryList.call DirectoryList.writeNextVncDirectoryContentRequest
  rcases firstDirectory_cases list.vncDirPosition behind with ⟨none, empty⟩ |
      ⟨count, file, node, found, name, isDir, inside, split⟩
  · refine .inl ⟨?_, mirrors.pending.trans empty⟩
    simp only [none, ok_bind]
    rfl
  · simp only [found, writeDirectoryContentRequest_ok, ok_bind]
    by_cases room : (OutStream.empty capacity).hasRoom (headerPacketSize + file.name.length)
    · rw [if_pos room]
      refine .inr (.inr ⟨{ list with
        vncDirPosition := list.vncDirPosition + count + 1
        vncCurrentDirName := file.name }, node.path, ?_, ?_, ?_⟩)
      · rw [name, Tree.stored_directory isDir]
        rfl
      · rw [mirrors.pending, split]
        rfl
      · have files : list.internalFiles ≠ [] := by
          intro none
          rw [none, List.drop_nil] at inside
          exact Nat.not_lt_zero _ inside
        have base : list.dirBaseLen = tree.base.length := by
          rcases mirrors.opened with ⟨_, base⟩ | ⟨_, _, none⟩
          · exact base
          · exact absurd none files
        have entered : tree.enter = { tree with
            current := node.path
            requested := tree.requested ++ [node.path]
            pending := Tree.directories
              ((tree.nodes.drop list.vncDirPosition).drop (count + 1)) } := by
          rw [Tree.enter, mirrors.pending, split]
        rw [List.length_drop] at inside
        rw [entered]
        refine ⟨mirrors.names, .inl ⟨?_, base⟩, ?_, ?_, mirrors.unwritten, mirrors.flags⟩
        · exact name.trans (Tree.stored_directory isDir)
        · rw [List.drop_drop]
          rfl
        · change list.vncDirPosition + count + 1 ≤ list.internalFiles.length
          omega
    · rw [if_neg room]
      exact .inr (.inl rfl)

end Mirrors

end Redemption.FileTransfer
