import Redemption.Foundation.Translation
import Redemption.Utils.IdManager

/-! The ids that `IDManager` and `RemoteProgramsWindowIdManager` translate, in every run. -/
namespace Redemption.Utils

open Foundation

section Tables

variable {w : Nat} {α : Type}

theorem lookup_erase (table : List (BitVec w × α)) (key other : BitVec w) :
    (IdManager.erase table key).lookup other =
      if other = key then none else table.lookup other := by
  induction table with
  | nil => exact (ite_self none).symm
  | cons entry rest ih =>
    obtain ⟨first, value⟩ := entry
    rw [IdManager.erase] at ih ⊢
    by_cases erased : first = key
    · subst erased
      rw [List.filter_cons_of_neg (by simp), ih]
      by_cases same : other = first
      · rw [if_pos same, if_pos same]
      · rw [if_neg same, if_neg same, List.lookup_cons, beq_eq_false_iff_ne.mpr same]
    · rw [List.filter_cons_of_pos (by simpa using erased), List.lookup_cons, List.lookup_cons, ih]
      by_cases same : other = first
      · subst same
        simp only [if_neg erased, beq_self_eq_true]
      · rw [beq_eq_false_iff_ne.mpr same]

theorem lookup_put (table : List (BitVec w × α)) (key other : BitVec w) (value : α) :
    (IdManager.put table key value).lookup other =
      if other = key then some value else table.lookup other := by
  by_cases same : other = key
  · subst same
    rw [IdManager.put, List.lookup_cons, beq_self_eq_true, if_pos rfl]
  · have rest := lookup_erase table key other
    rw [IdManager.erase, if_neg same] at rest
    rw [IdManager.put, List.lookup_cons, beq_eq_false_iff_ne.mpr same, if_neg same]
    exact rest

end Tables

namespace IdManager

variable {w : Nat} {range : IdRange w} {manager : IdManager w}

/-- `get_dest_id_ex`, `reg_dest_only_id`, `unreg_dest_only_id` and `unreg_src_id`. -/
def machine (range : IdRange w) :
    Machine (IdManager w) (IdRequest (BitVec w)) (Option (IdReply (BitVec w))) where
  step manager
    | .translate src => match manager.getDestIdEx range src with
      | some (dest, manager) => (manager, some (.id dest))
      | none => (manager, none)
    | .own => match manager.regDestOnlyId range with
      | some (dest, manager) => (manager, some (.id dest))
      | none => (manager, none)
    | .release dest => match manager.unregDestOnlyId () dest with
      | .ok manager => (manager, some .done)
      | .error _ => (manager, some .refused)
    | .unmap src => match manager.unregSrcId () src with
      | .ok manager => (manager, some .done)
      | .error _ => (manager, some .refused)

def owner (entry : BitVec w × Bool) : Option (BitVec w) :=
  if entry.2 then some entry.1 else none

def translation (manager : IdManager w) : Translation (BitVec w) where
  forward src := manager.srcToDest.lookup src
  backward dest := (manager.destToSrc.lookup dest).map owner

abbrev isInvariable (range : IdRange w) (id : BitVec w) : Prop :=
  range.firstInvariable ≤ id ∧ id ≤ range.lastInvariable

def service (range : IdRange w) : IdService (BitVec w) (IdManager w) where
  machine := machine range
  view := translation
  isOwn manager dest := (manager.isDestOnlyId () dest).toOption
  kept := isInvariable range
  records := True

/-- The request takes the next usable id, or the id that is the next usable one. -/
def TakesNext (range : IdRange w) (manager : IdManager w) : IdRequest (BitVec w) → Prop
  | .own => True
  | .translate src => manager.srcToDest.lookup src = none ∧ (src = manager.nextUsableDestId ∨
      ¬isInvariable range src ∧ manager.destToSrc.lookup src ≠ none)
  | _ => False

/-- There is another usable id where the next usable one is taken. -/
def Allowed (range : IdRange w) (manager : IdManager w) (request : IdRequest (BitVec w)) : Prop :=
  manager.TakesNext range request →
    ∃ id, id ≠ manager.nextUsableDestId ∧ manager.isUsable range id

/-- The next usable id is usable; an invariable id is only mapped to itself. -/
structure Inv (range : IdRange w) (manager : IdManager w) : Prop where
  next : manager.isUsable range manager.nextUsableDestId
  invariable : ∀ dest entry, isInvariable range dest →
    manager.destToSrc.lookup dest = some entry → manager.srcToDest.lookup dest = some dest
  kept : ∀ src dest, isInvariable range src → manager.srcToDest.lookup src = some dest → dest = src

theorem backward_eq_none {dest : BitVec w} :
    manager.translation.backward dest = none ↔ manager.destToSrc.lookup dest = none :=
  Option.map_eq_none_iff

theorem backward_eq (dest : BitVec w) :
    manager.translation.backward dest = (manager.destToSrc.lookup dest).map owner := rfl

theorem backward_put (dest : BitVec w) (entry : BitVec w × Bool) :
    (fun other => ((put manager.destToSrc dest entry).lookup other).map owner) =
      Function.update manager.translation.backward dest (some (owner entry)) := by
  funext other
  rw [lookup_put, Function.update_apply]
  split <;> rfl

theorem backward_erase (dest : BitVec w) :
    (fun other => ((erase manager.destToSrc dest).lookup other).map owner) =
      Function.update manager.translation.backward dest none := by
  funext other
  rw [lookup_erase, Function.update_apply]
  split <;> rfl

theorem forward_put (src dest : BitVec w) :
    (fun other => (put manager.srcToDest src dest).lookup other) =
      Function.update manager.translation.forward src (some dest) := by
  funext other
  rw [lookup_put, Function.update_apply]
  rfl

theorem forward_erase (src : BitVec w) :
    (fun other => (erase manager.srcToDest src).lookup other) =
      Function.update manager.translation.forward src none := by
  funext other
  rw [lookup_erase, Function.update_apply]
  rfl

theorem nextUsableFrom_eq (turns : Nat) (id : BitVec w) :
    manager.nextUsableFrom range turns id = firstFrom (manager.isUsable range) turns (id + 1) := by
  induction turns generalizing id with
  | zero => rfl
  | succ turns ih => rw [nextUsableFrom, firstFrom, ih]

/-- `update_next_usable_dest_id` comes to an end where there is another usable id. -/
theorem updateNextUsableDestId_some
    (room : ∃ id, id ≠ manager.nextUsableDestId ∧ manager.isUsable range id) :
    ∃ next, manager.updateNextUsableDestId range = some { manager with nextUsableDestId := next } ∧
      manager.isUsable range next ∧ next ≠ manager.nextUsableDestId := by
  obtain ⟨id, different, usable⟩ := room
  obtain ⟨next, found, isUsable, other⟩ := firstFrom_next usable different
  exact ⟨next, by rw [updateNextUsableDestId, nextUsableFrom_eq, found]; rfl, isUsable, other⟩

/-- An id for the source is the id itself, or the next usable one. -/
theorem mapSrcId_some {src : BitVec w} (inv : manager.Inv range)
    (fresh : manager.srcToDest.lookup src = none)
    (allowed : manager.Allowed range (.translate src)) :
    ∃ dest next, manager.mapSrcId range src = some (dest,
        ⟨put manager.srcToDest src dest, put manager.destToSrc dest (src, true), next⟩) ∧
      manager.destToSrc.lookup dest = none ∧ (isInvariable range dest → dest = src) ∧
      (isInvariable range src → dest = src) ∧ manager.isUsable range next ∧ next ≠ dest := by
  have free : isInvariable range src → manager.destToSrc.lookup src = none := by
    intro isKept
    cases found : manager.destToSrc.lookup src with
    | none => rfl
    | some entry => exact nomatch fresh.symm.trans (inv.invariable src entry isKept found)
  by_cases itself : isInvariable range src ∨ manager.destToSrc.lookup src = none
  · have unowned : manager.destToSrc.lookup src = none := itself.elim free id
    by_cases isNext : src = manager.nextUsableDestId
    · obtain ⟨next, updated, usable, different⟩ :=
        updateNextUsableDestId_some (allowed ⟨fresh, .inl isNext⟩)
      refine ⟨src, next, ?_, unowned, fun _ => rfl, fun _ => rfl, usable, isNext ▸ different⟩
      rw [mapSrcId, if_pos itself, if_pos isNext, updated]
      rfl
    · refine ⟨src, manager.nextUsableDestId, ?_, unowned, fun _ => rfl, fun _ => rfl, inv.next,
        Ne.symm isNext⟩
      rw [mapSrcId, if_pos itself, if_neg isNext]
      rfl
  · rw [not_or] at itself
    obtain ⟨next, updated, usable, different⟩ :=
      updateNextUsableDestId_some (allowed ⟨fresh, .inr itself⟩)
    refine ⟨manager.nextUsableDestId, next, ?_, inv.next.2, fun isKept => absurd isKept inv.next.1,
      fun isKept => absurd isKept itself.1, usable, different⟩
    rw [mapSrcId, if_neg (not_or.mpr itself), updated]
    rfl

theorem translate_answers {src : BitVec w} (inv : manager.Inv range)
    (allowed : manager.Allowed range (.translate src)) :
    ((machine range).next manager (.translate src)).Inv range ∧ (service range).Answers
      manager.translation ((machine range).next manager (.translate src)).translation
      (.translate src) ((machine range).output manager (.translate src)) := by
  rw [Machine.next, Machine.output, machine]
  dsimp only
  cases found : manager.srcToDest.lookup src with
  | some dest =>
    rw [getDestIdEx, found]
    exact ⟨inv, fun isKept => inv.kept src dest isKept found, .inl ⟨.inl found, rfl⟩⟩
  | none =>
    obtain ⟨dest, next, mapped, free, kept, kept', usable, different⟩ :=
      mapSrcId_some inv found allowed
    rw [getDestIdEx, found, mapped]
    refine ⟨⟨⟨usable.1, ?_⟩, ?_, ?_⟩, kept', .inr ⟨⟨found, backward_eq_none.mpr free⟩,
      Translation.ext (forward_put ..) (backward_put ..)⟩⟩
    · rw [lookup_put, if_neg different]
      exact usable.2
    · intro other entry isKept owned
      rw [lookup_put] at owned ⊢
      rcases eq_or_ne other dest with rfl | old
      · rw [kept isKept, if_pos rfl]
      · rw [if_neg old] at owned
        have itself := inv.invariable other entry isKept owned
        have fresh : other ≠ src := by
          rintro rfl
          exact nomatch found.symm.trans itself
        rw [if_neg fresh]
        exact itself
    · intro other entry isKept owned
      rw [lookup_put] at owned
      rcases eq_or_ne other src with rfl | old
      · rw [if_pos rfl] at owned
        exact Option.some.inj owned ▸ kept' isKept
      · rw [if_neg old] at owned
        exact inv.kept other entry isKept owned

theorem own_answers (inv : manager.Inv range) (allowed : manager.Allowed range .own) :
    ((machine range).next manager .own).Inv range ∧ (service range).Answers manager.translation
      ((machine range).next manager .own).translation .own ((machine range).output manager .own) := by
  obtain ⟨next, updated, usable, different⟩ := updateNextUsableDestId_some (allowed trivial)
  rw [Machine.next, Machine.output, machine]
  dsimp only
  rw [regDestOnlyId, updated]
  dsimp only [Option.map_some]
  refine ⟨⟨⟨usable.1, ?_⟩, ?_, inv.kept⟩, backward_eq_none.mpr inv.next.2,
    Translation.ext rfl (backward_put ..)⟩
  · rw [lookup_put, if_neg different]
    exact usable.2
  · intro other entry isKept owned
    have different' : other ≠ manager.nextUsableDestId := by
      rintro rfl
      exact inv.next.1 isKept
    rw [lookup_put, if_neg different'] at owned
    exact inv.invariable other entry isKept owned

theorem release_answers (dest : BitVec w) (inv : manager.Inv range) :
    ((machine range).next manager (.release dest)).Inv range ∧ (service range).Answers
      manager.translation ((machine range).next manager (.release dest)).translation
      (.release dest) ((machine range).output manager (.release dest)) := by
  rw [Machine.next, Machine.output, machine]
  dsimp only
  rw [unregDestOnlyId]
  match found : manager.destToSrc.lookup dest with
  | none =>
    refine ⟨inv, ?_, rfl⟩
    rw [backward_eq, found]
    exact nofun
  | some (src, true) =>
    refine ⟨inv, ?_, rfl⟩
    rw [backward_eq, found]
    exact nofun
  | some (src, false) =>
    refine ⟨⟨⟨inv.next.1, ?_⟩, ?_, inv.kept⟩, congrArg (Option.map owner) found,
      Translation.ext rfl (backward_erase ..)⟩
    · rw [lookup_erase, inv.next.2, ite_self]
    · intro other entry isKept owned
      rw [lookup_erase] at owned
      split at owned
      · cases owned
      · exact inv.invariable other entry isKept owned

theorem unmap_answers (src : BitVec w) (inv : manager.Inv range) :
    ((machine range).next manager (.unmap src)).Inv range ∧ (service range).Answers
      manager.translation ((machine range).next manager (.unmap src)).translation
      (.unmap src) ((machine range).output manager (.unmap src)) := by
  rw [Machine.next, Machine.output, machine]
  dsimp only
  rw [unregSrcId]
  cases found : manager.srcToDest.lookup src with
  | none => exact ⟨inv, found, rfl⟩
  | some dest =>
    refine ⟨⟨⟨inv.next.1, ?_⟩, ?_, ?_⟩, dest, found, Translation.ext (forward_erase ..)
      (backward_erase ..)⟩
    · rw [lookup_erase, inv.next.2, ite_self]
    · intro other entry isKept owned
      rw [lookup_erase] at owned ⊢
      rcases eq_or_ne other dest with rfl | old
      · rw [if_pos rfl] at owned
        cases owned
      · rw [if_neg old] at owned
        have itself := inv.invariable other entry isKept owned
        rw [if_neg]
        · exact itself
        · rintro rfl
          exact old (Option.some.inj (itself.symm.trans found))
    · intro other entry isKept owned
      rw [lookup_erase] at owned
      rcases eq_or_ne other src with rfl | old
      · rw [if_pos rfl] at owned
        cases owned
      · rw [if_neg old] at owned
        exact inv.kept other entry isKept owned

theorem step_answers (manager : IdManager w) (request : IdRequest (BitVec w))
    (inv : manager.Inv range) (allowed : manager.Allowed range request) :
    ((machine range).next manager request).Inv range ∧ (service range).Answers manager.translation
      ((machine range).next manager request).translation request
      ((machine range).output manager request) := by
  cases request with
  | translate src => exact translate_answers inv allowed
  | own => exact own_answers inv allowed
  | release dest => exact release_answers dest inv
  | unmap src => exact unmap_answers src inv

theorem isOwn_eq (manager : IdManager w) (dest : BitVec w) :
    (service range).isOwn manager dest = (manager.translation.backward dest).map Option.isNone := by
  rw [service]
  dsimp only
  rw [isDestOnlyId, backward_eq]
  match manager.destToSrc.lookup dest with
  | none => rfl
  | some (_, true) => rfl
  | some (_, false) => rfl

theorem sound_initial (range : IdRange w) : (service range).Sound (initial range) where
  bijective _ _ := iff_of_false (Option.some_ne_none _).symm (Option.some_ne_none _).symm
  isOwn := isOwn_eq _
  kept _ _ _ mapped := absurd mapped.symm (Option.some_ne_none _)

theorem faithful {requests : List (IdRequest (BitVec w))}
    (next : ¬isInvariable range range.nextUsable)
    (every : (machine range).EveryStep (Allowed range) (initial range) requests) :
    (service range).Faithful (initial range) requests :=
  @IdService.faithful_of_answers _ _ _ (service range) (Allowed range) (Inv range)
    (fun manager request inv may => (step_answers manager request inv may).1)
    (fun manager request inv may => (step_answers manager request inv may).2)
    (fun _ _ => False.elim) (fun _ _ => False.elim) isOwn_eq _
    ⟨⟨next, rfl⟩, fun _ _ _ owned => absurd owned.symm (Option.some_ne_none _),
      fun _ _ _ mapped => absurd mapped.symm (Option.some_ne_none _)⟩
    (sound_initial range) _ every

end IdManager

/-- `RemoteProgramsWindowIdManager`. -/
structure RemoteProgramsWindowIdManager where
  clientToServer : List (BitVec 32 × BitVec 32)
  serverToClient : List (BitVec 32 × BitVec 32)
  nextUnusedClientWindowId : BitVec 32
  deriving DecidableEq, Repr

namespace RemoteProgramsWindowIdManager

def invalidWindowId : BitVec 32 := 0xFFFFFFF0

abbrev IsReserved (id : BitVec 32) : Prop := id = 0x0 ∨ id = 0xFFFFFFFE ∨ id = 0xFFFFFFFF

inductive WindowError where
  | unexpected
  | noSuchWindow
  deriving DecidableEq, Repr

variable (manager : RemoteProgramsWindowIdManager)

def initial : RemoteProgramsWindowIdManager := ⟨[], [], 0x800000⟩

def IsUnused (id : BitVec 32) : Prop :=
  (¬IsReserved id ∧ id ≠ invalidWindowId) ∧ manager.clientToServer.lookup id = none

instance (id : BitVec 32) : Decidable (manager.IsUnused id) := inferInstanceAs (Decidable (_ ∧ _))

/-- `increment_next_unused_client_window_id`. It goes on for ever where no id is unused. -/
def incrementNextUnusedClientWindowId : Option RemoteProgramsWindowIdManager :=
  (firstFrom manager.IsUnused (2 ^ 32) manager.nextUnusedClientWindowId).map fun id =>
    { manager with nextUnusedClientWindowId := id }

/-- `get_server_window_id`. -/
def getServerWindowId (clientWindowId : BitVec 32) : Checked WindowError (BitVec 32) :=
  match manager.clientToServer.lookup clientWindowId with
  | some serverWindowId => .ok serverWindowId
  | none => .error (.raised .noSuchWindow)

/-- `is_client_only_window`. -/
def isClientOnlyWindow (windowId : BitVec 32) : Checked WindowError Bool := do
  let serverWindowId ← manager.getServerWindowId windowId
  return invalidWindowId == serverWindowId

/-- `register_client_window`. -/
def registerClientWindow : Option (BitVec 32 × RemoteProgramsWindowIdManager) := do
  let manager ← manager.incrementNextUnusedClientWindowId
  let clientWindowId := manager.nextUnusedClientWindowId
  let manager ← manager.incrementNextUnusedClientWindowId
  return (clientWindowId, { manager with
    clientToServer := IdManager.put manager.clientToServer clientWindowId invalidWindowId })

/-- `map_server_window`. -/
def mapServerWindow (serverWindowId : BitVec 32) :
    Option (BitVec 32 × RemoteProgramsWindowIdManager) :=
  if IsReserved serverWindowId then some (serverWindowId, manager)
  else do
    let (clientWindowId, manager) ← (
      if manager.clientToServer.lookup serverWindowId = none then some (serverWindowId, manager)
      else do
        let manager ← manager.incrementNextUnusedClientWindowId
        let clientWindowId := manager.nextUnusedClientWindowId
        let manager ← manager.incrementNextUnusedClientWindowId
        return (clientWindowId, manager) : Option (BitVec 32 × RemoteProgramsWindowIdManager))
    return (clientWindowId, { manager with
      clientToServer := IdManager.put manager.clientToServer clientWindowId serverWindowId
      serverToClient := IdManager.put manager.serverToClient serverWindowId clientWindowId })

/-- `get_client_window_id_ex`. -/
def getClientWindowIdEx (serverWindowId : BitVec 32) :
    Option (BitVec 32 × RemoteProgramsWindowIdManager) :=
  match manager.serverToClient.lookup serverWindowId with
  | some clientWindowId => some (clientWindowId, manager)
  | none => manager.mapServerWindow serverWindowId

/-- `unregister_client_only_window`. -/
def unregisterClientOnlyWindow (windowId : BitVec 32) :
    Checked WindowError RemoteProgramsWindowIdManager :=
  match manager.clientToServer.lookup windowId with
  | some serverWindowId =>
    if invalidWindowId = serverWindowId then
      .ok { manager with clientToServer := IdManager.erase manager.clientToServer windowId }
    else .error (.raised .unexpected)
  | none => .error (.raised .unexpected)

/-- `unregister_server_window`. -/
def unregisterServerWindow (windowId : BitVec 32) :
    Checked WindowError RemoteProgramsWindowIdManager :=
  match manager.serverToClient.lookup windowId with
  | some clientWindowId => .ok { manager with
      clientToServer := if invalidWindowId ≠ clientWindowId then
        IdManager.erase manager.clientToServer clientWindowId else manager.clientToServer
      serverToClient := IdManager.erase manager.serverToClient windowId }
  | none => .error (.raised .unexpected)

def machine : Machine RemoteProgramsWindowIdManager (IdRequest (BitVec 32))
    (Option (IdReply (BitVec 32))) where
  step manager
    | .translate serverWindowId => match manager.getClientWindowIdEx serverWindowId with
      | some (clientWindowId, manager) => (manager, some (.id clientWindowId))
      | none => (manager, none)
    | .own => match manager.registerClientWindow with
      | some (clientWindowId, manager) => (manager, some (.id clientWindowId))
      | none => (manager, none)
    | .release windowId => match manager.unregisterClientOnlyWindow windowId with
      | .ok manager => (manager, some .done)
      | .error _ => (manager, some .refused)
    | .unmap windowId => match manager.unregisterServerWindow windowId with
      | .ok manager => (manager, some .done)
      | .error _ => (manager, some .refused)

/-- A window that only the client knows is marked by an invalid id. -/
def owner (serverWindowId : BitVec 32) : Option (BitVec 32) :=
  if invalidWindowId = serverWindowId then none else some serverWindowId

def translation : Translation (BitVec 32) where
  forward serverWindowId := manager.serverToClient.lookup serverWindowId
  backward clientWindowId := (manager.clientToServer.lookup clientWindowId).map owner

def service : IdService (BitVec 32) RemoteProgramsWindowIdManager where
  machine := machine
  view := translation
  isOwn manager windowId := (manager.isClientOnlyWindow windowId).toOption
  kept := IsReserved
  records := False

/-- No window of the server has the invalid id, and an id is unused where one is looked for. -/
def Allowed : IdRequest (BitVec 32) → Prop
  | .translate serverWindowId => serverWindowId ≠ invalidWindowId ∧
      (manager.serverToClient.lookup serverWindowId = none → ¬IsReserved serverWindowId →
        manager.clientToServer.lookup serverWindowId ≠ none → ∃ id, manager.IsUnused id)
  | .own => ∃ id, manager.IsUnused id
  | _ => True

/-- Reserved ids and the invalid one are in no table. -/
structure Inv : Prop where
  server : ∀ src dest, manager.serverToClient.lookup src = some dest →
    ¬IsReserved src ∧ dest ≠ invalidWindowId
  bijective : manager.translation.Bijective

variable {manager}

theorem incrementNextUnusedClientWindowId_some (room : ∃ id, manager.IsUnused id) :
    ∃ id, manager.incrementNextUnusedClientWindowId =
        some { manager with nextUnusedClientWindowId := id } ∧ manager.IsUnused id := by
  obtain ⟨id, unused⟩ := room
  obtain ⟨found, search, isUnused⟩ :=
    firstFrom_some manager.nextUnusedClientWindowId unused
  exact ⟨found, by rw [incrementNextUnusedClientWindowId, search]; rfl, isUnused⟩

theorem incrementNextUnusedClientWindowId_idem {id : BitVec 32} (unused : manager.IsUnused id) :
    incrementNextUnusedClientWindowId { manager with nextUnusedClientWindowId := id } =
      some { manager with nextUnusedClientWindowId := id } := by
  have here : firstFrom (IsUnused { manager with nextUnusedClientWindowId := id }) (2 ^ 32) id =
      some id := if_pos unused
  rw [incrementNextUnusedClientWindowId, here]
  rfl

theorem owner_some {serverWindowId : BitVec 32} (valid : serverWindowId ≠ invalidWindowId) :
    owner serverWindowId = some serverWindowId := if_neg (Ne.symm valid)

theorem backward_eq (dest : BitVec 32) :
    manager.translation.backward dest = (manager.clientToServer.lookup dest).map owner := rfl

theorem translation_put {src dest next : BitVec 32} (valid : src ≠ invalidWindowId) :
    translation ⟨IdManager.put manager.clientToServer dest src,
      IdManager.put manager.serverToClient src dest, next⟩ = manager.translation.map src dest := by
  apply Translation.ext
  · funext other
    rw [Translation.map_forward, Function.update_apply]
    exact lookup_put ..
  · funext other
    rw [Translation.map_backward, Function.update_apply, backward_eq, lookup_put]
    split
    · exact congrArg some (owner_some valid)
    · rfl

theorem mapServerWindow_some {src : BitVec 32} (allowed : manager.Allowed (.translate src))
    (fresh : manager.serverToClient.lookup src = none) (named : ¬IsReserved src) :
    ∃ dest next, manager.mapServerWindow src = some (dest,
        ⟨IdManager.put manager.clientToServer dest src, IdManager.put manager.serverToClient src dest,
          next⟩) ∧
      manager.clientToServer.lookup dest = none ∧ dest ≠ invalidWindowId := by
  by_cases free : manager.clientToServer.lookup src = none
  · refine ⟨src, manager.nextUnusedClientWindowId, ?_, free, allowed.1⟩
    rw [mapServerWindow, if_neg named, if_pos free]
    rfl
  · obtain ⟨id, found, unused⟩ :=
      incrementNextUnusedClientWindowId_some (allowed.2 fresh named free)
    refine ⟨id, id, ?_, unused.2, unused.1.2⟩
    rw [mapServerWindow, if_neg named, if_neg free, found]
    dsimp only [bind, Option.bind]
    rw [incrementNextUnusedClientWindowId_idem unused]
    rfl

theorem translate_answers {src : BitVec 32} (inv : manager.Inv)
    (allowed : manager.Allowed (.translate src)) :
    (machine.next manager (.translate src)).Inv ∧ service.Answers manager.translation
      (machine.next manager (.translate src)).translation (.translate src)
      (machine.output manager (.translate src)) := by
  rw [Machine.next, Machine.output, machine]
  dsimp only
  cases found : manager.serverToClient.lookup src with
  | some dest =>
    rw [getClientWindowIdEx, found]
    exact ⟨inv, fun reserved => absurd reserved (inv.server src dest found).1, .inl ⟨.inl found, rfl⟩⟩
  | none =>
    by_cases reserved : IsReserved src
    · rw [getClientWindowIdEx, found]
      rw [mapServerWindow, if_pos reserved]
      exact ⟨inv, fun _ => rfl, .inl ⟨.inr ⟨reserved, id⟩, rfl⟩⟩
    · obtain ⟨dest, next, mapped, free, valid⟩ := mapServerWindow_some allowed found reserved
      have isFree : manager.translation.backward dest = none := Option.map_eq_none_iff.mpr free
      rw [getClientWindowIdEx, found]
      rw [mapped]
      rw [translation_put allowed.1]
      refine ⟨⟨?_, ?_⟩, fun isReserved => absurd isReserved reserved,
        .inr ⟨⟨found, isFree⟩, rfl⟩⟩
      · intro src' dest' owned
        rw [lookup_put] at owned
        split at owned
        · rename_i same
          cases owned
          exact ⟨same ▸ reserved, valid⟩
        · exact inv.server src' dest' owned
      · rw [translation_put allowed.1]
        exact inv.bijective.map found isFree

theorem own_answers (inv : manager.Inv) (allowed : manager.Allowed .own) :
    (machine.next manager .own).Inv ∧ service.Answers manager.translation
      (machine.next manager .own).translation .own (machine.output manager .own) := by
  obtain ⟨id, found, unused⟩ := incrementNextUnusedClientWindowId_some allowed
  have registered : manager.registerClientWindow = some (id,
      ⟨IdManager.put manager.clientToServer id invalidWindowId, manager.serverToClient, id⟩) := by
    rw [registerClientWindow, found]
    dsimp only [bind, Option.bind]
    rw [incrementNextUnusedClientWindowId_idem unused]
    rfl
  have free : manager.translation.backward id = none := Option.map_eq_none_iff.mpr unused.2
  have reserved : translation ⟨IdManager.put manager.clientToServer id invalidWindowId,
      manager.serverToClient, id⟩ = manager.translation.reserve id := by
    refine Translation.ext rfl (funext fun other => ?_)
    rw [Translation.reserve]
    dsimp only
    rw [Function.update_apply, backward_eq, lookup_put]
    split <;> rfl
  rw [Machine.next, Machine.output, machine]
  dsimp only
  rw [registered]
  refine ⟨⟨inv.server, ?_⟩, free, reserved⟩
  rw [reserved]
  refine inv.bijective.update ?_ ?_
  · intro _ mapped
    cases free.symm.trans mapped
  · intro _ mapped
    cases mapped

theorem erase_backward (dest : BitVec 32) :
    (fun other => ((IdManager.erase manager.clientToServer dest).lookup other).map owner) =
      Function.update manager.translation.backward dest none := by
  funext other
  rw [lookup_erase, Function.update_apply]
  split <;> rfl

theorem release_answers (dest : BitVec 32) (inv : manager.Inv) :
    (machine.next manager (.release dest)).Inv ∧ service.Answers manager.translation
      (machine.next manager (.release dest)).translation (.release dest)
      (machine.output manager (.release dest)) := by
  rw [Machine.next, Machine.output, machine]
  dsimp only
  rw [unregisterClientOnlyWindow]
  match found : manager.clientToServer.lookup dest with
  | none =>
    dsimp only
    refine ⟨inv, ?_, rfl⟩
    rw [backward_eq, found]
    exact nofun
  | some src =>
    dsimp only
    by_cases own : invalidWindowId = src
    · have owned : manager.translation.backward dest = some none := by
        rw [backward_eq, found]
        exact congrArg some (if_pos own)
      have released : translation ⟨IdManager.erase manager.clientToServer dest,
          manager.serverToClient, manager.nextUnusedClientWindowId⟩ =
          manager.translation.release dest := Translation.ext rfl (erase_backward dest)
      rw [if_pos own]
      refine ⟨⟨inv.server, ?_⟩, owned, released⟩
      rw [released]
      exact inv.bijective.update (fun _ mapped => nomatch owned.symm.trans mapped) nofun
    · rw [if_neg own]
      refine ⟨inv, ?_, rfl⟩
      rw [backward_eq, found, Option.map_some, owner, if_neg own]
      exact nofun

theorem unmap_answers (src : BitVec 32) (inv : manager.Inv) :
    (machine.next manager (.unmap src)).Inv ∧ service.Answers manager.translation
      (machine.next manager (.unmap src)).translation (.unmap src)
      (machine.output manager (.unmap src)) := by
  rw [Machine.next, Machine.output, machine]
  dsimp only
  rw [unregisterServerWindow]
  cases found : manager.serverToClient.lookup src with
  | none => exact ⟨inv, found, rfl⟩
  | some dest =>
    have unmapped : translation ⟨IdManager.erase manager.clientToServer dest,
        IdManager.erase manager.serverToClient src, manager.nextUnusedClientWindowId⟩ =
        manager.translation.unmap src dest := by
      refine Translation.ext (funext fun other => ?_) (erase_backward dest)
      rw [Translation.unmap_forward, Function.update_apply]
      exact lookup_erase ..
    dsimp only
    rw [if_pos (inv.server src dest found).2.symm, unmapped]
    refine ⟨⟨?_, ?_⟩, dest, found, rfl⟩
    · intro src' dest' owned
      rw [lookup_erase] at owned
      split at owned
      · cases owned
      · exact inv.server src' dest' owned
    · rw [unmapped]
      exact inv.bijective.unmap found

theorem isOwn_eq (manager : RemoteProgramsWindowIdManager) (dest : BitVec 32) :
    service.isOwn manager dest = (manager.translation.backward dest).map Option.isNone := by
  rw [service]
  dsimp only
  rw [isClientOnlyWindow, getServerWindowId, backward_eq]
  cases manager.clientToServer.lookup dest with
  | none => rfl
  | some src =>
    rw [Option.map_some, Option.map_some, owner]
    by_cases own : invalidWindowId = src
    · rw [if_pos own, ← own]
      rfl
    · rw [if_neg own]
      exact congrArg some (beq_eq_false_iff_ne.mpr own)

theorem step_answers (manager : RemoteProgramsWindowIdManager) (request : IdRequest (BitVec 32))
    (inv : manager.Inv) (allowed : manager.Allowed request) :
    (machine.next manager request).Inv ∧ service.Answers manager.translation
      (machine.next manager request).translation request (machine.output manager request) := by
  cases request with
  | translate src => exact translate_answers inv allowed
  | own => exact own_answers inv allowed
  | release dest => exact release_answers dest inv
  | unmap src => exact unmap_answers src inv

theorem bijective_initial : initial.translation.Bijective := fun _ _ =>
  iff_of_false (Option.some_ne_none _).symm (Option.some_ne_none _).symm

theorem faithful {requests : List (IdRequest (BitVec 32))}
    (every : machine.EveryStep Allowed initial requests) : service.Faithful initial requests :=
  @IdService.faithful_of_answers _ _ _ service Allowed Inv
    (fun manager request inv may => (step_answers manager request inv may).1)
    (fun manager request inv may => (step_answers manager request inv may).2)
    (fun _ _ => trivial) (fun _ _ => trivial) isOwn_eq _
    ⟨fun _ _ mapped => absurd mapped.symm (Option.some_ne_none _), bijective_initial⟩
    ⟨bijective_initial, isOwn_eq _, fun _ _ _ mapped => absurd mapped.symm (Option.some_ne_none _)⟩
    _ every

end RemoteProgramsWindowIdManager

/-- Both managers translate faithfully in every run whose steps are allowed. -/
theorem idManagers_faithful {w : Nat} (range : IdRange w) (requests : List (IdRequest (BitVec w)))
    (windows : List (IdRequest (BitVec 32))) :
    (¬IdManager.isInvariable range range.nextUsable →
      (IdManager.machine range).EveryStep (IdManager.Allowed range) (.initial range) requests →
      (IdManager.service range).Faithful (.initial range) requests) ∧
    (RemoteProgramsWindowIdManager.machine.EveryStep RemoteProgramsWindowIdManager.Allowed
        .initial windows →
      RemoteProgramsWindowIdManager.service.Faithful .initial windows) :=
  ⟨fun next every => IdManager.faithful next every,
    fun every => RemoteProgramsWindowIdManager.faithful every⟩

/-- The source takes an invariable id, and one that the destination has; both are given back. -/
theorem idManagers_faithful_runs :
    (IdManager.service (⟨4, 5, 8⟩ : IdRange 32)).Faithful (.initial ⟨4, 5, 8⟩)
        [.own, .translate 6, .translate 4, .release 4, .unmap 6] ∧
      RemoteProgramsWindowIdManager.service.Faithful .initial [.own, .translate 0x800000] :=
  ⟨(idManagers_faithful ⟨4, 5, 8⟩ [.own, .translate 6, .translate 4, .release 4, .unmap 6] []).1
      (by decide) ⟨fun _ => ⟨20, by decide, by decide⟩, fun _ => ⟨20, by decide, by decide⟩,
        fun _ => ⟨20, by decide, by decide⟩, False.elim, False.elim, trivial⟩,
    (idManagers_faithful (⟨4, 5, 8⟩ : IdRange 32) [] [.own, .translate 0x800000]).2
      ⟨⟨7, by decide⟩, ⟨by decide, fun _ _ _ => ⟨7, by decide⟩⟩, trivial⟩⟩

/-- An id that the destination has been given is handed to the source as well where the first usable
id is an invariable one; a window of the server with the invalid id passes for one of the client. -/
theorem idManagers_not_faithful :
    (¬(IdManager.service (⟨1, 0, 10⟩ : IdRange 32)).Faithful (.initial ⟨1, 0, 10⟩)
        [.own, .translate 1]) ∧
      ¬RemoteProgramsWindowIdManager.service.Faithful .initial [.translate 0xFFFFFFF0] := by
  constructor
  · intro faithful
    have second := faithful.steps.2.1.1
    have before : (IdManager.service (⟨1, 0, 10⟩ : IdRange 32)).machine.next (.initial ⟨1, 0, 10⟩)
        .own = ⟨[], [(1, 0, false)], 11⟩ := by decide
    have reply : (IdManager.service (⟨1, 0, 10⟩ : IdRange 32)).machine.output
        ⟨[], [(1, 0, false)], 11⟩ (.translate 1) = some (.id 1) := by decide
    obtain ⟨-, ⟨mapped | ⟨-, unrecorded⟩, -⟩ | ⟨⟨-, free⟩, -⟩⟩ := second
    · exact nomatch mapped
    · exact unrecorded trivial
    · exact nomatch free
  · intro faithful
    have own := (faithful.sound.bijective 0xFFFFFFF0 0xFFFFFFF0).mp (by decide)
    exact absurd own (by decide)

end Redemption.Utils
