import Redemption.Events.Container

/-! References and queued events point at each other, whatever is done to a container. -/
namespace Redemption.Events

namespace Container

/-- Each event is queued once, and a reference has an event exactly if the event has it. -/
structure WellFormed (container : Container) : Prop where
  nodup : container.queue.Nodup
  made : ∀ id ∈ container.queue, id < container.made
  owned : ∀ ref id, container.refs ref = some id →
    id ∈ container.queue ∧ (container.heap id).eventRef = some ref
  owner : ∀ id ∈ container.queue, ∀ ref, (container.heap id).eventRef = some ref →
    container.refs ref = some id

/-- A reference has just given up its event, and `moving` is on its way to it. -/
structure Detached (container : Container) (ref : RefId) (moving : Option EventId) : Prop where
  nodup : container.queue.Nodup
  made : ∀ id ∈ container.queue, id < container.made
  owned : ∀ other id, other ≠ ref → container.refs other = some id →
    id ∈ container.queue ∧ (container.heap id).eventRef = some other ∧ moving ≠ some id
  owner : ∀ id ∈ container.queue, moving ≠ some id → ∀ other,
    (container.heap id).eventRef = some other → other ≠ ref ∧ container.refs other = some id

/-- Events were only added, behind the ones that there were. -/
def Extends (container after : Container) : Prop :=
  container.made ≤ after.made ∧ ∃ newer, after.queue = container.queue ++ newer ∧
    ∀ id ∈ newer, container.made ≤ id

variable {container after : Container} {ref source : RefId} {id : EventId}
  {moving : Option EventId}

theorem wellFormed_fresh : fresh.WellFormed :=
  ⟨List.nodup_nil, nofun, nofun, nofun⟩

theorem Extends.refl (container : Container) : container.Extends container :=
  ⟨Nat.le_refl _, [], (List.append_nil _).symm, nofun⟩

theorem Extends.trans {last : Container} (first : container.Extends after)
    (second : after.Extends last) : container.Extends last := by
  obtain ⟨more, newer, queue, late⟩ := first
  obtain ⟨more', newer', queue', late'⟩ := second
  refine ⟨Nat.le_trans more more', newer ++ newer', ?_, ?_⟩
  · rw [queue', queue, List.append_assoc]
  · intro id member
    rcases List.mem_append.mp member with early | later
    · exact late id early
    · exact Nat.le_trans more (late' id later)

theorem Extends.of_eq (queue : after.queue = container.queue) (made : after.made = container.made) :
    container.Extends after :=
  ⟨Nat.le_of_eq made.symm, [], by rw [queue, List.append_nil], nofun⟩

@[simp] theorem modify_heap_same (change : Event → Event) :
    (container.modify id change).heap id = change (container.heap id) :=
  Function.update_self ..

theorem modify_heap_other (change : Event → Event) {other : EventId} (different : other ≠ id) :
    (container.modify id change).heap other = container.heap other :=
  Function.update_of_ne different ..

@[simp] theorem setRef_refs_same (event : Option EventId) :
    (container.setRef ref event).refs ref = event :=
  Function.update_self ..

theorem setRef_refs_other (event : Option EventId) {other : RefId} (different : other ≠ ref) :
    (container.setRef ref event).refs other = container.refs other :=
  Function.update_of_ne different ..

theorem WellFormed.heap (wellFormed : container.WellFormed) {heap : EventId → Event}
    (same : ∀ id, (heap id).eventRef = (container.heap id).eventRef) :
    { container with heap }.WellFormed := by
  refine ⟨wellFormed.nodup, wellFormed.made, ?_, ?_⟩
  · intro ref id refers
    rw [same]
    exact wellFormed.owned ref id refers
  · intro id queued ref back
    rw [same] at back
    exact wellFormed.owner id queued ref back

theorem WellFormed.modify (wellFormed : container.WellFormed) {change : Event → Event}
    (same : ∀ event, (change event).eventRef = event.eventRef) :
    (container.modify id change).WellFormed := by
  apply wellFormed.heap
  intro other
  by_cases here : other = id
  · rw [here, Function.update_self, same]
  · rw [Function.update_of_ne here]

theorem created_eventRef (creation : Creation) : (container.created creation).eventRef = none := by
  cases creation <;> rfl

@[simp] theorem create_heap_made (creation : Creation) :
    (container.create creation).heap container.made = container.created creation :=
  Function.update_self ..

theorem create_heap_other (creation : Creation) (different : id ≠ container.made) :
    (container.create creation).heap id = container.heap id :=
  Function.update_of_ne different ..

theorem WellFormed.not_made (wellFormed : container.WellFormed) :
    container.made ∉ container.queue := by
  intro queued
  exact Nat.lt_irrefl _ (wellFormed.made _ queued)

theorem WellFormed.create (wellFormed : container.WellFormed) (creation : Creation) :
    (container.create creation).WellFormed := by
  have other {id : EventId} (queued : id ∈ container.queue) : id ≠ container.made := by
    rintro rfl
    exact wellFormed.not_made queued
  refine ⟨?_, ?_, ?_, ?_⟩
  · exact List.nodup_append.mpr ⟨wellFormed.nodup, List.pairwise_singleton _ _, by
      intro id queued new member
      rw [List.mem_singleton.mp member]
      exact other queued⟩
  · intro id member
    rcases List.mem_append.mp member with queued | new
    · exact Nat.lt_succ_of_lt (wellFormed.made id queued)
    · rw [List.mem_singleton.mp new]
      exact Nat.lt_succ_self _
  · intro ref id refers
    obtain ⟨queued, back⟩ := wellFormed.owned ref id refers
    refine ⟨List.mem_append_left _ queued, ?_⟩
    rw [create_heap_other creation (other queued)]
    exact back
  · intro id member ref back
    rcases List.mem_append.mp member with queued | new
    · rw [create_heap_other creation (other queued)] at back
      exact wellFormed.owner id queued ref back
    · rw [List.mem_singleton.mp new, create_heap_made, created_eventRef] at back
      cases back

theorem create_extends (creation : Creation) :
    container.Extends (container.create creation) := by
  refine ⟨Nat.le_succ _, [container.made], rfl, ?_⟩
  intro id member
  exact Nat.le_of_eq (List.mem_singleton.mp member).symm

theorem giveUp_fields : (container.giveUp ref).queue = container.queue ∧
    (container.giveUp ref).made = container.made ∧
    (container.giveUp ref).refs = container.refs := by
  rw [giveUp]
  split <;> exact ⟨rfl, rfl, rfl⟩

theorem giveUp_eventRef_none (none : (container.heap id).eventRef = none) :
    ((container.giveUp ref).heap id).eventRef = .none := by
  rw [giveUp]
  split
  · rename_i given _
    by_cases here : id = given
    · rw [here, modify_heap_same]
    · rw [modify_heap_other _ here]
      exact none
  · exact none

theorem WellFormed.giveUp (wellFormed : container.WellFormed) (ref : RefId) :
    (container.giveUp ref).Detached ref none := by
  obtain ⟨queue, made, refs⟩ := @giveUp_fields container ref
  rw [Container.giveUp] at *
  cases has : container.refs ref with
  | none =>
    refine ⟨wellFormed.nodup, wellFormed.made, ?_, ?_⟩
    · intro other id _ refers
      obtain ⟨queued, back⟩ := wellFormed.owned other id refers
      exact ⟨queued, back, nofun⟩
    · intro id queued _ other back
      have refers := wellFormed.owner id queued other back
      refine ⟨?_, refers⟩
      rintro rfl
      exact nomatch has.symm.trans refers
  | some given =>
    obtain ⟨_, givenBack⟩ := wellFormed.owned ref given has
    refine ⟨wellFormed.nodup, wellFormed.made, ?_, ?_⟩
    · intro other id different refers
      obtain ⟨queued, back⟩ := wellFormed.owned other id refers
      have apart : id ≠ given := by
        rintro rfl
        exact different (Option.some.inj (back.symm.trans givenBack))
      rw [modify_heap_other _ apart]
      exact ⟨queued, back, nofun⟩
    · intro id queued _ other back
      by_cases here : id = given
      · rw [here, modify_heap_same] at back
        cases back
      · rw [modify_heap_other _ here] at back
        have refers := wellFormed.owner id queued other back
        refine ⟨?_, refers⟩
        rintro rfl
        exact here (Option.some.inj (refers.symm.trans has))

theorem Detached.update (detached : container.Detached ref moving) (value : Option EventId) :
    (container.setRef ref value).Detached ref moving := by
  refine ⟨detached.nodup, detached.made, ?_, ?_⟩
  · intro other id different refers
    rw [setRef_refs_other _ different] at refers
    exact detached.owned other id different refers
  · intro id queued still other back
    obtain ⟨different, refers⟩ := detached.owner id queued still other back
    refine ⟨different, ?_⟩
    rw [setRef_refs_other _ different]
    exact refers

theorem Detached.drop (detached : container.Detached ref none) :
    (container.setRef ref none).WellFormed := by
  refine ⟨detached.nodup, detached.made, ?_, ?_⟩
  · intro other id refers
    by_cases same : other = ref
    · rw [same, setRef_refs_same] at refers
      cases refers
    · rw [setRef_refs_other _ same] at refers
      obtain ⟨queued, back, _⟩ := detached.owned other id same refers
      exact ⟨queued, back⟩
  · intro id queued other back
    obtain ⟨different, refers⟩ := detached.owner id queued nofun other back
    rw [setRef_refs_other _ different]
    exact refers

theorem Detached.take (detached : container.Detached ref none)
    (none : (container.heap id).eventRef = none) : container.Detached ref (some id) := by
  refine ⟨detached.nodup, detached.made, ?_, ?_⟩
  · intro other given different refers
    obtain ⟨queued, back, _⟩ := detached.owned other given different refers
    refine ⟨queued, back, ?_⟩
    rintro ⟨⟩
    exact nomatch none.symm.trans back
  · intro given queued _ other back
    exact detached.owner given queued nofun other back

theorem Detached.moveFrom (detached : container.Detached ref none) (different : source ≠ ref)
    (refers : container.refs source = some id) :
    (container.setRef source none).Detached ref (some id) := by
  obtain ⟨_, back, _⟩ := detached.owned source id different refers
  refine ⟨detached.nodup, detached.made, ?_, ?_⟩
  · intro other given apart also
    by_cases same : other = source
    · rw [same, setRef_refs_same] at also
      cases also
    · rw [setRef_refs_other _ same] at also
      obtain ⟨queued, back', _⟩ := detached.owned other given apart also
      refine ⟨queued, back', ?_⟩
      rintro ⟨⟩
      exact same (Option.some.inj (back'.symm.trans back))
  · intro given queued still other back'
    obtain ⟨apart, also⟩ := detached.owner given queued nofun other back'
    refine ⟨apart, ?_⟩
    rw [setRef_refs_other]
    · exact also
    · rintro rfl
      exact still (refers.symm.trans also)

theorem point_heap (other : EventId) : (container.point ref id).heap other =
    (container.modify id fun event => { event with eventRef := some ref }).heap other := rfl

theorem Detached.point (detached : container.Detached ref (some id))
    (queued : id ∈ container.queue) : (container.point ref id).WellFormed := by
  refine ⟨detached.nodup, detached.made, ?_, ?_⟩
  · intro other given refers
    by_cases same : other = ref
    · rw [same, Container.point, setRef_refs_same] at refers
      obtain rfl := Option.some.inj refers
      refine ⟨queued, ?_⟩
      rw [point_heap, modify_heap_same, same]
    · rw [Container.point, setRef_refs_other _ same] at refers
      obtain ⟨queued', back, still⟩ := detached.owned other given same refers
      have apart : given ≠ id := fun equal => still (congrArg some equal.symm)
      rw [point_heap, modify_heap_other _ apart]
      exact ⟨queued', back⟩
  · intro given queued' other back
    rw [point_heap] at back
    by_cases here : given = id
    · rw [here, modify_heap_same] at back
      obtain rfl := Option.some.inj back
      rw [Container.point, setRef_refs_same, here]
    · rw [modify_heap_other _ here] at back
      have still : some id ≠ some given := fun equal => here (Option.some.inj equal).symm
      obtain ⟨different, refers⟩ := detached.owner given queued' still other back
      rw [Container.point, setRef_refs_other _ different]
      exact refers

theorem WellFormed.dropRef (wellFormed : container.WellFormed) (ref : RefId) :
    (container.dropRef ref).WellFormed :=
  (wellFormed.giveUp ref).drop

theorem WellFormed.assignNew (wellFormed : container.WellFormed) (ref : RefId)
    (creation : Creation) : (container.assignNew ref creation).WellFormed := by
  have detached := (wellFormed.create creation).giveUp ref
  obtain ⟨queue, _, _⟩ := @giveUp_fields (container.create creation) ref
  have back : ((container.create creation).heap container.made).eventRef = none := by
    rw [create_heap_made, created_eventRef]
  apply (detached.take (giveUp_eventRef_none back)).point
  rw [queue]
  exact List.mem_append_right _ (List.mem_singleton_self _)

theorem WellFormed.moveRef (wellFormed : container.WellFormed) (target source : RefId) :
    (container.moveRef target source).WellFormed := by
  have detached := wellFormed.giveUp target
  obtain ⟨queue, _, refs⟩ := @giveUp_fields container target
  rw [Container.moveRef]
  cases has : (container.giveUp target).refs source with
  | none => exact detached.drop
  | some id =>
    have refers : container.refs source = some id := by
      rw [← refs]
      exact has
    obtain ⟨queued, back⟩ := wellFormed.owned source id refers
    rw [← queue] at queued
    by_cases same : source = target
    · subst same
      -- A reference that is moved to itself takes the event back.
      have gone : ((container.giveUp source).heap id).eventRef = none := by
        rw [Container.giveUp, refers]
        simp only [modify_heap_same]
      exact ((detached.take gone).update none).point queued
    · exact (detached.moveFrom same has).point queued

theorem WellFormed.changeRef (wellFormed : container.WellFormed) (ref : RefId)
    {change : Event → Event} (same : ∀ event, (change event).eventRef = event.eventRef) :
    (container.changeRef ref change).WellFormed := by
  rw [Container.changeRef]
  split
  · split
    · exact wellFormed
    · exact wellFormed.modify same
  · exact wellFormed

theorem WellFormed.endOfLifespan (wellFormed : container.WellFormed) (lifespan : Nat) :
    (container.endOfLifespan lifespan).WellFormed := by
  apply wellFormed.heap
  intro id
  split <;> rfl

theorem WellFormed.apply (wellFormed : container.WellFormed) (change : Change) :
    (container.apply change).WellFormed := by
  cases change with
  | create creation => exact wellFormed.create creation
  | assignNew ref creation => exact wellFormed.assignNew ref creation
  | moveRef target source => exact wellFormed.moveRef target source
  | dropRef ref => exact wellFormed.dropRef ref
  | setTimeout ref triggerTime => exact wellFormed.changeRef ref fun _ => rfl
  | addTimeoutDelay ref delay => exact wellFormed.changeRef ref fun _ => rfl
  | setTimeoutOrCreateEvent ref triggerTime lifespan =>
    rw [Container.apply, Container.setTimeoutOrCreateEvent]
    split
    · exact wellFormed.changeRef ref fun _ => rfl
    · exact wellFormed.assignNew ref _
  | endOfLifespan lifespan => exact wellFormed.endOfLifespan lifespan
  | event place change =>
    rw [Container.apply]
    split
    · apply wellFormed.modify
      intro event
      cases change <;> rfl
    · exact wellFormed
  | setTimeBase monotonicTime =>
    exact ⟨wellFormed.nodup, wellFormed.made, wellFormed.owned, wellFormed.owner⟩

theorem assignNew_extends (ref : RefId) (creation : Creation) :
    container.Extends (container.assignNew ref creation) := by
  obtain ⟨queue, made, _⟩ := @giveUp_fields (container.create creation) ref
  exact (create_extends creation).trans (Extends.of_eq queue made)

theorem changeRef_extends (ref : RefId) (change : Event → Event) :
    container.Extends (container.changeRef ref change) := by
  rw [Container.changeRef]
  split
  · split
    · exact Extends.refl container
    · exact Extends.of_eq rfl rfl
  · exact Extends.refl container

theorem apply_extends (change : Change) : container.Extends (container.apply change) := by
  cases change with
  | create creation => exact create_extends creation
  | assignNew ref creation => exact assignNew_extends ref creation
  | moveRef target source =>
    obtain ⟨queue, made, _⟩ := @giveUp_fields container target
    rw [Container.apply, Container.moveRef]
    split <;> exact Extends.of_eq queue made
  | dropRef ref =>
    obtain ⟨queue, made, _⟩ := @giveUp_fields container ref
    exact Extends.of_eq queue made
  | setTimeout ref triggerTime => exact changeRef_extends ref _
  | addTimeoutDelay ref delay => exact changeRef_extends ref _
  | setTimeoutOrCreateEvent ref triggerTime lifespan =>
    rw [Container.apply, Container.setTimeoutOrCreateEvent]
    split
    · exact changeRef_extends ref _
    · exact assignNew_extends ref _
  | endOfLifespan lifespan => exact Extends.of_eq rfl rfl
  | event place change =>
    rw [Container.apply]
    split
    · exact Extends.of_eq rfl rfl
    · exact Extends.refl container
  | setTimeBase monotonicTime => exact Extends.of_eq rfl rfl

end Container

end Redemption.Events
