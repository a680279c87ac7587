import Redemption.FileTransfer.FileListWriting

/-! Directories are listed, and the list that comes of it is sent. -/
namespace Redemption.FileTransfer

open Redemption.Foundation Redemption.Utf

namespace DirectoryList

variable {list : DirectoryList} {capacities : List Nat} {pieces : List Piece}

/-- The list is continued behind its first files, whatever room there is. -/
theorem writeUpToCompleted_resumed (writable : list.Writable)
    (resumed : list.rdpFilePosition ≠ 0) (flags : list.rdpChannelFlags = flagShowProtocol)
    (capacities : List Nat) :
    ∃ pieces, list.writeUpToCompleted capacities = .ok pieces ∧
      Continues (list.remaining.flatMap (fileDescriptor list.dirBaseLen)) pieces := by
  induction capacities generalizing list with
  | nil => exact ⟨[], rfl, .nil _⟩
  | cons capacity rest ih =>
    have step := writePartialRdpFileList_resumed writable resumed capacity
    by_cases complete : list.remaining.length ≤ capacity / fileDescriptorPduLen
    · have whole : list.descriptors (capacity / fileDescriptorPduLen) =
          list.remaining.flatMap (fileDescriptor list.dirBaseLen) := by
        rw [descriptors, List.take_of_length_le complete]
      rw [if_pos complete] at step
      refine ⟨_, writeUpToCompleted_completes step rfl, ?_⟩
      rw [← whole, flags]
      exact Continues.single (by decide) (by decide) rfl
    · rw [if_neg complete, Nat.min_eq_right (Nat.le_of_not_le complete), flags] at step
      obtain ⟨pieces, run, continues⟩ := ih (writable.advanced (Nat.le_of_not_le complete))
        (fun zero => resumed (Nat.eq_zero_of_add_eq_zero_right zero)) rfl
      refine ⟨_, writeUpToCompleted_continues step FileListStatus.noConfusion run, ?_⟩
      rw [← descriptors_split list (capacity / fileDescriptorPduLen)]
      exact continues.cons FileListStatus.noConfusion (by decide) (by decide) rfl

theorem remaining_start (start : list.rdpFilePosition = 0) :
    list.remaining = list.internalFiles := by
  rw [remaining, start, List.drop_zero]

/-- The header and all descriptors, in two parts. -/
theorem message_split (start : list.rdpFilePosition = 0) (count : Nat) :
    fileListHeader list.internalFiles.length ++ list.descriptors count ++
        (list.advanced count).remaining.flatMap (fileDescriptor list.dirBaseLen) =
      list.message := by
  rw [List.append_assoc, descriptors_split, remaining_start start, message]

theorem message_whole (start : list.rdpFilePosition = 0) {count : Nat}
    (complete : list.remaining.length ≤ count) :
    fileListHeader list.internalFiles.length ++ list.descriptors count = list.message := by
  rw [descriptors, List.take_of_length_le complete, remaining_start start, message]

/-- Without room for a descriptor the position stays where it is: the header is written again. -/
theorem advanced_zero_start (start : list.rdpFilePosition = 0) :
    (list.advanced 0).rdpFilePosition = 0 := start

/-- A list that is written from its start takes at least the bytes of the whole message. -/
theorem writeUpToCompleted_restarted (writable : list.Writable)
    (start : list.rdpFilePosition = 0) (capacities : List Nat) :
    ∃ pieces, list.writeUpToCompleted capacities = .ok pieces ∧
      (Ends pieces → list.message.length ≤ (pieces.flatMap Piece.bytes).length) := by
  induction capacities generalizing list with
  | nil => exact ⟨[], rfl, fun ⟨_, member, _⟩ => absurd member List.not_mem_nil⟩
  | cons capacity rest ih =>
    by_cases room : 12 ≤ capacity
    swap
    · obtain ⟨pieces, run, long⟩ := ih writable start
      refine ⟨_, writeUpToCompleted_continues (writePartialRdpFileList_small start
        (Nat.not_le.mp room)) FileListStatus.noConfusion run, ?_⟩
      intro ends
      exact long ((ends_cons FileListStatus.noConfusion).mp ends)
    have step := writePartialRdpFileList_start writable start room
    by_cases complete : list.remaining.length ≤ (capacity - 12) / fileDescriptorPduLen
    · rw [if_pos complete] at step
      refine ⟨_, writeUpToCompleted_completes step rfl, fun _ => ?_⟩
      rw [List.flatMap_singleton, message_whole start complete]
    · have few := Nat.le_of_not_le complete
      rw [if_neg complete, Nat.min_eq_right few] at step
      rcases Nat.eq_zero_or_pos ((capacity - 12) / fileDescriptorPduLen) with none | some'
      · rw [none] at step
        obtain ⟨pieces, run, long⟩ := ih (writable.advanced (Nat.zero_le _))
          (advanced_zero_start start)
        refine ⟨_, writeUpToCompleted_continues step FileListStatus.noConfusion run, ?_⟩
        intro ends
        rw [List.flatMap_cons, List.length_append]
        exact Nat.le_add_left_of_le (long ((ends_cons FileListStatus.noConfusion).mp ends))
      · obtain ⟨pieces, run, continues⟩ := writeUpToCompleted_resumed (writable.advanced few)
          (Nat.ne_of_gt (Nat.add_pos_right _ some')) rfl rest
        refine ⟨_, writeUpToCompleted_continues step FileListStatus.noConfusion run, ?_⟩
        intro ends
        have whole := continues.whole ((ends_cons FileListStatus.noConfusion).mp ends)
        rw [List.flatMap_cons, whole, ← message_split start]
        exact Nat.le_refl _

theorem fits_small {nbFiles capacity : Nat} (small : capacity < 12) :
    Fits nbFiles (capacity :: capacities) ↔ Fits nbFiles capacities := by
  have skipped : (capacity :: capacities).find? (fun capacity => 12 ≤ capacity) =
      capacities.find? (fun capacity => 12 ≤ capacity) :=
    List.find?_cons_of_neg (by simpa using small)
  rw [Fits, Fits, skipped]

theorem fits_room {nbFiles capacity : Nat} (room : 12 ≤ capacity) :
    Fits nbFiles (capacity :: capacities) ↔
      nbFiles = 0 ∨ 0 < (capacity - 12) / fileDescriptorPduLen := by
  have found : (capacity :: capacities).find? (fun capacity => 12 ≤ capacity) = some capacity :=
    List.find?_cons_of_pos (by simpa using room)
  have one : 0 < (capacity - 12) / fileDescriptorPduLen ↔ 12 + fileDescriptorPduLen ≤ capacity := by
    rw [Nat.div_pos_iff]
    unfold fileDescriptorPduLen
    omega
  rw [Fits, found, one]
  simp

/-- A list is written from its start as one message, unless a stream has room for the header and
not for the first descriptor. -/
theorem writeUpToCompleted_started (writable : list.Writable)
    (start : list.rdpFilePosition = 0)
    (flags : list.rdpChannelFlags = flagFirst ||| flagShowProtocol) (capacities : List Nat) :
    ∃ pieces, list.writeUpToCompleted capacities = .ok pieces ∧
      (Ends pieces →
        (OneList list.message pieces ↔ Fits list.internalFiles.length capacities)) := by
  induction capacities with
  | nil => exact ⟨[], rfl, fun ⟨_, member, _⟩ => absurd member List.not_mem_nil⟩
  | cons capacity rest ih =>
    by_cases room : 12 ≤ capacity
    swap
    · obtain ⟨pieces, run, one⟩ := ih
      refine ⟨_, writeUpToCompleted_continues (writePartialRdpFileList_small start
        (Nat.not_le.mp room)) FileListStatus.noConfusion run, ?_⟩
      intro ends
      have ends := (ends_cons FileListStatus.noConfusion).mp ends
      rw [fits_small (Nat.not_le.mp room), ← one ends]
      exact oneList_cons rfl rfl ends
    have step := writePartialRdpFileList_start writable start room
    have marked : HasFlag (flagFirst ||| flagShowProtocol ||| flagLast) flagFirst ∧
        HasFlag (flagFirst ||| flagShowProtocol ||| flagLast) flagLast ∧
        HasFlag (flagFirst ||| flagShowProtocol) flagFirst ∧
        ¬HasFlag (flagFirst ||| flagShowProtocol) flagLast := by decide
    have header : ∀ bytes, fileListHeader list.internalFiles.length ++ bytes ≠ [] := by
      intro bytes empty
      have length := length_fileListHeader list.internalFiles.length
      rw [(List.append_eq_nil_iff.mp empty).1] at length
      exact absurd length (by decide)
    rw [fits_room room, ← List.length_eq_zero_iff.trans List.length_eq_zero_iff.symm,
      ← remaining_start start]
    rw [flags] at step
    by_cases complete : list.remaining.length ≤ (capacity - 12) / fileDescriptorPduLen
    · rw [if_pos complete] at step
      refine ⟨_, writeUpToCompleted_completes step rfl, fun _ => ?_⟩
      refine iff_of_true ?_ (by omega)
      rw [← message_whole start complete]
      exact OneList.single marked.1 marked.2.1 (header _) rfl
    · have few := Nat.le_of_not_le complete
      rw [if_neg complete, Nat.min_eq_right few] at step
      rcases Nat.eq_zero_or_pos ((capacity - 12) / fileDescriptorPduLen) with none | some'
      · rw [none] at step ⊢
        obtain ⟨pieces, run, long⟩ := writeUpToCompleted_restarted
          (writable.advanced (Nat.zero_le _)) (advanced_zero_start start) rest
        refine ⟨_, writeUpToCompleted_continues step FileListStatus.noConfusion run, ?_⟩
        intro ends
        refine iff_of_false ?_ (by omega)
        intro one
        have long := long ((ends_cons FileListStatus.noConfusion).mp ends)
        have whole := congrArg List.length one.whole
        change list.message.length ≤ _ at long
        rw [List.flatMap_cons, List.length_append, List.length_append,
          length_fileListHeader] at whole
        omega
      · obtain ⟨pieces, run, continues⟩ := writeUpToCompleted_resumed (writable.advanced few)
          (Nat.ne_of_gt (Nat.add_pos_right _ some')) rfl rest
        refine ⟨_, writeUpToCompleted_continues step FileListStatus.noConfusion run, ?_⟩
        intro ends
        refine iff_of_true ?_ (.inr some')
        rw [← message_split start ((capacity - 12) / fileDescriptorPduLen)]
        exact OneList.of_continues continues ((ends_cons FileListStatus.noConfusion).mp ends)
          marked.2.2.1 marked.2.2.2 (header _) rfl

/-- A call with room for everything completes the list. -/
theorem exists_step (writable : list.Writable) (capacity : Nat) :
    ∃ list' out result, list.writePartialRdpFileList (.empty capacity) = .ok (list', out, result) ∧
      list'.Writable ∧ list'.message = list.message ∧
      (list.message.length ≤ capacity → result.status = .completed) := by
  have pdu : 0 < fileDescriptorPduLen := by decide
  have few : list.remaining.length ≤ list.internalFiles.length :=
    List.length_drop.trans_le (Nat.sub_le _ _)
  have advanced (count : Nat) :
      (list.advanced (min list.remaining.length count)).Writable :=
    writable.advanced (Nat.min_le_left _ _)
  by_cases start : list.rdpFilePosition = 0
  · by_cases room : 12 ≤ capacity
    · refine ⟨_, _, _, writePartialRdpFileList_start writable start room, advanced _, rfl, ?_⟩
      intro whole
      rw [length_message] at whole
      rw [if_pos (Nat.le_trans few ((Nat.le_div_iff_mul_le pdu).mpr (by omega)))]
    · refine ⟨_, _, _, writePartialRdpFileList_small start (Nat.not_le.mp room), writable, rfl, ?_⟩
      intro whole
      rw [length_message] at whole
      omega
  · refine ⟨_, _, _, writePartialRdpFileList_resumed writable start capacity, advanced _, rfl, ?_⟩
    intro whole
    rw [length_message] at whole
    rw [if_pos (Nat.le_trans few ((Nat.le_div_iff_mul_le pdu).mpr (by omega)))]

/-- A stream with room for everything completes the list, if nothing did before. -/
theorem ends_of_room (writable : list.Writable) {capacity : Nat}
    (member : capacity ∈ capacities) (room : list.message.length ≤ capacity)
    (run : list.writeUpToCompleted capacities = .ok pieces) : Ends pieces := by
  induction capacities generalizing list pieces with
  | nil => exact absurd member List.not_mem_nil
  | cons first rest ih =>
    obtain ⟨list', out, result, step, writable', same, completes⟩ := exists_step writable first
    by_cases completed : result.status = .completed
    · rw [writeUpToCompleted_completes step completed] at run
      rw [← Except.ok.inj run]
      exact ⟨_, List.mem_singleton_self _, completed⟩
    · have later : capacity ∈ rest := by
        rcases List.mem_cons.mp member with here | later
        · exact absurd (completes (here ▸ room)) completed
        · exact later
      rw [writeUpToCompleted, step, ok_bind] at run
      simp only [if_neg completed] at run
      obtain ⟨others, run', rest'⟩ := bind_ok_iff.mp run
      rw [← Except.ok.inj rest']
      rw [← same] at room
      exact (ends_cons completed).mpr (ih writable' later room run')

end DirectoryList

/-- The requests of the directories that have been asked for. -/
def Tree.requests (tree : Tree) : List Byte :=
  tree.requested.flatMap fun path => (directoryContentRequest (tree.dirName path)).serialize

section Explored

variable {params : Params} {list : DirectoryList} {tree : Tree} {sent : List Byte}

theorem Tree.requests_enter {path : List (List Byte)} (next : tree.pending.head? = some path) :
    tree.enter.requests =
      tree.requests ++ (directoryContentRequest (tree.dirName path)).serialize := by
  cases waiting : tree.pending with
  | nil => simp [waiting] at next
  | cons first rest =>
    rw [waiting] at next
    obtain rfl := Option.some.inj next
    rw [enter, waiting, requests, List.flatMap_append, List.flatMap_singleton]
    rfl

/-- A call that is admissible has a result, and the list and the tree agree behind it. -/
theorem Mirrors.call (mirrors : Mirrors list tree) (requests : sent = tree.requests) (call : ListCall)
    (admissible : call.Admissible list) :
    ∃ list' reply, list.call call = .ok (list', reply) ∧ Mirrors list' (tree.after call reply) ∧
      sentAfter sent call reply = (tree.after call reply).requests := by
  cases call with
  | startNewList dirBase => exact ⟨_, _, rfl, .startNewList list dirBase, rfl⟩
  | pushFileInCurrentDir file =>
    refine ⟨_, _, rfl, mirrors.pushFileInCurrentDir file admissible, requests.trans ?_⟩
    cases (list.pushFileInCurrentDir file).2 <;> rfl
  | writeNextVncDirectoryContentRequest capacity =>
    rcases mirrors.writeNextVncDirectoryContentRequest capacity with ⟨none, _⟩ | small |
        ⟨list', path, written, next, mirrors'⟩
    · exact ⟨_, _, none, mirrors, (List.append_nil _).trans requests⟩
    · exact ⟨_, _, small, mirrors, (List.append_nil _).trans requests⟩
    · refine ⟨_, _, written, mirrors', ?_⟩
      exact (congrArg (· ++ _) requests).trans (Tree.requests_enter next).symm

theorem Explores.mirrors (explored : Explores params list tree sent) :
    Mirrors list tree ∧ sent = tree.requests := by
  induction explored with
  | constructed => exact ⟨.make params, rfl⟩
  | call call _ admissible done ih =>
    obtain ⟨list', reply, done', mirrors, requests⟩ := ih.1.call ih.2 call admissible
    obtain ⟨rfl, rfl⟩ := Prod.mk.inj (Except.ok.inj (done'.symm.trans done))
    exact ⟨mirrors, requests⟩

/-- The files that are kept are placed below the base directory, under the paths of their nodes. -/
theorem Mirrors.placed (mirrors : Mirrors list tree) :
    (∀ file ∈ list.internalFiles, Placed list.dirBaseLen file) ∧
      list.internalFiles.map (rdpPath list.dirBaseLen) = tree.nodes.map Node.spelled := by
  rcases mirrors.opened with ⟨_, base⟩ | ⟨_, _, none⟩
  · have names := mirrors.names
    rw [base]
    generalize list.internalFiles = files at names
    generalize tree.nodes = nodes at names
    induction files generalizing nodes with
    | nil =>
      have empty : nodes = [] := by simpa using names.symm
      rw [empty]
      exact ⟨fun _ member => absurd member List.not_mem_nil, rfl⟩
    | cons file rest ih =>
      cases nodes with
      | nil => simp at names
      | cons node others =>
        simp only [List.map_cons, List.cons.injEq, Prod.mk.injEq] at names
        obtain ⟨⟨name, isDir⟩, names⟩ := names
        obtain ⟨placed, paths⟩ := ih others names
        have stored : file.name = tree.base ++ (node.spelled ++
            if file.isDir then [separator] else []) := by
          rw [name, isDir, Tree.stored, List.append_assoc]
        have dirSep : (if file.isDir = true then [separator] else []).length =
            file.isDir.toNat := by cases file.isDir <;> rfl
        have length : file.name.length =
            tree.base.length + (node.spelled.length + file.isDir.toNat) := by
          rw [stored, List.length_append, List.length_append, dirSep]
        have path : rdpPath tree.base.length file = node.spelled := by
          have kept : file.name.length - file.isDir.toNat =
              (tree.base ++ node.spelled).length := by
            rw [length, List.length_append]
            omega
          rw [rdpPath, kept, stored, ← List.append_assoc, List.take_left, List.drop_left]
        refine ⟨List.forall_mem_cons.mpr ⟨?_, placed⟩, ?_⟩
        · unfold Placed
          omega
        · rw [List.map_cons, List.map_cons, path, paths]
  · have names := mirrors.names
    rw [none] at names ⊢
    have empty : tree.nodes = [] := by simpa using names.symm
    rw [empty]
    exact ⟨fun _ member => absurd member List.not_mem_nil, rfl⟩

theorem Mirrors.writable (mirrors : Mirrors list tree) : list.Writable where
  placed := mirrors.placed.1
  inside := by
    rw [mirrors.unwritten]
    exact Nat.zero_le _

/-- A tree is explored and becomes a list: the calls have results, every file is kept under its
path, each directory is requested once and in the order they are found, and no other where none is
left. Then the list is sent as one message, unless a stream takes the header and not the first
descriptor. -/
theorem vnc_file_list (explored : Explores params list tree sent) :
    (∀ call : ListCall, call.Admissible list → ∃ list' reply, list.call call = .ok (list', reply)) ∧
      list.internalFiles.map (·.name) = tree.nodes.map tree.stored ∧
      list.internalFiles.map (rdpPath list.dirBaseLen) = tree.nodes.map Node.spelled ∧
      sent = tree.requests ∧ tree.requested ++ tree.pending = Tree.directories tree.nodes ∧
      (∀ capacity list' written,
        list.call (.writeNextVncDirectoryContentRequest capacity) =
            .ok (list', .asked written .noDir) →
          tree.requested = Tree.directories tree.nodes) ∧
      ∀ capacities, ∃ pieces, list.writeUpToCompleted capacities = .ok pieces ∧
        (Ends pieces →
          (OneList list.message pieces ↔ Fits list.internalFiles.length capacities)) := by
  obtain ⟨mirrors, requests⟩ := explored.mirrors
  refine ⟨?_, ?_, mirrors.placed.2, requests, explored.queued, ?_, ?_⟩
  · intro call admissible
    obtain ⟨list', reply, done, _⟩ := mirrors.call requests call admissible
    exact ⟨list', reply, done⟩
  · have names := congrArg (List.map Prod.fst) mirrors.names
    rwa [List.map_map, List.map_map] at names
  · intro capacity list' written done
    have queued := explored.queued
    rcases mirrors.writeNextVncDirectoryContentRequest capacity with ⟨_, empty⟩ | small |
        ⟨list'', path, asked, _⟩
    · rwa [Tree.Queued, empty, List.append_nil] at queued
    · rw [small] at done
      simp at done
    · rw [asked] at done
      simp at done
  · exact DirectoryList.writeUpToCompleted_started mirrors.writable mirrors.unwritten mirrors.flags

end Explored

/-- A directory below `C` with a file in it, another file, and streams that are too small, for the
first descriptor only, and for more than the others. -/
theorem vnc_file_list_nested :
    ∃ list tree sent, Explores ⟨10, 1000⟩ list tree sent ∧
      tree.nodes.map Node.spelled = [[0x64], [0x65], [0x64, 0x5C, 0x66]] ∧
      tree.requested ++ tree.pending = Tree.directories tree.nodes ∧
      ∃ pieces, list.writeUpToCompleted [4, 604, 2000] = .ok pieces ∧ Ends pieces ∧
        OneList list.message pieces := by
  have started := Explores.call (.startNewList ⟨[0x43], by decide⟩)
    (@Explores.constructed ⟨10, 1000⟩) trivial rfl
  have directory := Explores.call (.pushFileInCurrentDir ⟨⟨[0x64], by decide⟩, 0, 0, true⟩)
    started (.inr (.inr (.inl rfl))) rfl
  have file := Explores.call (.pushFileInCurrentDir ⟨⟨[0x65], by decide⟩, 5, 1, false⟩)
    directory (.inr (.inr (.inr (by decide)))) rfl
  have asked := Explores.call (.writeNextVncDirectoryContentRequest 64) file trivial rfl
  have nested := Explores.call (.pushFileInCurrentDir ⟨⟨[0x66], by decide⟩, 7, 1, false⟩)
    asked (.inr (.inr (.inr (by decide)))) rfl
  obtain ⟨_, _, _, _, queued, _, writes⟩ := vnc_file_list nested
  obtain ⟨pieces, run, one⟩ := writes [4, 604, 2000]
  have ends : Ends pieces := DirectoryList.ends_of_room nested.mirrors.1.writable
    (by decide : 2000 ∈ [4, 604, 2000]) (by rw [length_message]; decide) run
  refine ⟨_, _, _, nested, rfl, queued, pieces, run, ends, (one ends).mpr (.inr ?_)⟩
  intro capacity found
  obtain rfl : 604 = capacity := Option.some.inj found
  decide

/-- A first stream of 12 bytes: the header is written twice. -/
theorem list_header_twice :
    ∃ list tree sent pieces, Explores ⟨10, 1000⟩ list tree sent ∧
      list.writeUpToCompleted [12, 604] = .ok pieces ∧ Ends pieces ∧
      ¬OneList list.message pieces := by
  have started := Explores.call (.startNewList ⟨[0x43], by decide⟩)
    (@Explores.constructed ⟨10, 1000⟩) trivial rfl
  have pushed := Explores.call (.pushFileInCurrentDir ⟨⟨[0x66], by decide⟩, 5, 1, false⟩)
    started (.inr (.inr (.inr (by decide)))) rfl
  obtain ⟨mirrors, _⟩ := pushed.mirrors
  obtain ⟨pieces, run, one⟩ := DirectoryList.writeUpToCompleted_started mirrors.writable
    mirrors.unwritten mirrors.flags [12, 604]
  have ends : Ends pieces := DirectoryList.ends_of_room mirrors.writable
    (List.mem_cons_of_mem 12 (List.mem_singleton_self 604)) (by rw [length_message]; decide) run
  refine ⟨_, _, _, pieces, pushed, run, ends, ?_⟩
  intro whole
  rcases (one ends).mp whole with none | fits
  · exact absurd none (by decide)
  · exact absurd (fits 12 rfl) (by decide)

end Redemption.FileTransfer
