import Mathlib.Order.Bounds.Basic
import Mathlib.Order.MinMax
import Redemption.Events.Ownership
import Redemption.Foundation.Machine
import Redemption.Foundation.SwapRemove

/-! `EventManager`: the pass over the queue, the removal of garbage and the next timeout. -/
namespace Redemption.Events

open Redemption.Foundation

inductive HandlerKind where
  | onAction
  | onTimeout
  deriving DecidableEq, Repr

/-- A handler that is called, and the container before it is. -/
structure Call where
  id : EventId
  kind : HandlerKind
  container : Container

def triggerEventTimer (event : Event) (now : TimePoint) : Option Event :=
  if event.activeTimer ∧ event.triggerTime ≤ now then
    some { event with triggerTime := now, activeTimer := false }
  else none

/-- The handler for an event that is not garbage, and the event when it is called. -/
def chooseHandler (fn : Int → Bool) (now : TimePoint) (event : Event) :
    Option (HandlerKind × Event) :=
  if fn event.fd then some (.onAction, { event with triggerTime := now + event.graceDelay })
  else
    match triggerEventTimer event now with
    | some event => some (.onTimeout, event)
    | none => none

namespace Container

variable (fn : Int → Bool) (script : EventId → List Change) (now : TimePoint)

/-- What the pass does at a place of the queue; `script` says what the handlers do. -/
def visit (container : Container) (index : Nat) : Container × List Call :=
  match container.queue[index]? with
  | none => (container, [])
  | some id =>
    if (container.heap id).garbage then (container, [])
    else
      match chooseHandler fn now (container.heap id) with
      | none => (container, [])
      | some (kind, event) =>
        ((script id).foldl apply (container.modify id fun _ => event), [⟨id, kind, container⟩])

def garbageAt (container : Container) (index : Nat) : Bool :=
  match container.queue[index]? with
  | none => false
  | some id => (container.heap id).garbage

/-- The loop of `execute_events`, from a place on; the last result is `has_garbage`. -/
def visits : Nat → Nat → Container → Container × List Call × Bool
  | 0, _, container => (container, [], false)
  | count + 1, index, container =>
    let (next, calls) := container.visit fn script now index
    let (last, later, hasGarbage) := visits count (index + 1) next
    (last, calls ++ later, next.garbageAt index || hasGarbage)

/-- The loop of `garbage_collector`, from a place on. -/
def collectFrom (container : Container) (index : Nat) : Container :=
  if inside : index < container.queue.length then
    if (container.heap container.queue[index]).garbage then
      collectFrom { container.deleteEvent container.queue[index] with
        queue := SwapRemove.removeAt container.queue index } index
    else collectFrom container (index + 1)
  else container
termination_by container.queue.length - index
decreasing_by
  · rw [SwapRemove.length_removeAt]
    omega
  · omega

def garbageCollector (container : Container) : Container := container.collectFrom 0

def executeEvents (container : Container) : Container × List Call :=
  let (after, calls, hasGarbage) :=
    container.visits fn script container.monotonicTime container.queue.length 0
  if hasGarbage then (after.garbageCollector, calls) else (after, calls)

/-- An event that counts for the next timeout. -/
def timed (event : Event) : Bool := event.activeTimer && !event.garbage

/-- `next_timeout` over what is left of the queue. -/
def nextTimeoutFrom : List Event → TimePoint
  | [] => 0
  | event :: rest =>
    if timed event then
      rest.foldl (fun ultimatum event =>
        if timed event then min event.triggerTime ultimatum else ultimatum) event.triggerTime
    else nextTimeoutFrom rest

def nextTimeout (container : Container) : TimePoint :=
  nextTimeoutFrom (container.queue.map container.heap)

end Container

/-- The handler is that of an event that is no garbage: that of its descriptor, if this is ready,
else that of its timer, if this is active and due. -/
structure Call.Due (call : Call) (fn : Int → Bool) (now : TimePoint) : Prop where
  alive : (call.container.heap call.id).garbage = false
  action : call.kind = .onAction → fn (call.container.heap call.id).fd = true
  timeout : call.kind = .onTimeout → fn (call.container.heap call.id).fd = false ∧
    (call.container.heap call.id).activeTimer = true ∧
    (call.container.heap call.id).triggerTime ≤ now

namespace Container

section Pass

variable {fn : Int → Bool} {script : EventId → List Change} {now : TimePoint}
  {container : Container}

theorem chooseHandler_eventRef {event after : Event} {kind : HandlerKind}
    (chosen : chooseHandler fn now event = some (kind, after)) :
    after.eventRef = event.eventRef := by
  rw [chooseHandler, triggerEventTimer] at chosen
  grind

theorem due_of_chooseHandler {id : EventId} {after : Event} {kind : HandlerKind}
    (alive : (container.heap id).garbage = false)
    (chosen : chooseHandler fn now (container.heap id) = some (kind, after)) :
    (⟨id, kind, container⟩ : Call).Due fn now := by
  rw [chooseHandler, triggerEventTimer] at chosen
  refine ⟨alive, ?_, ?_⟩ <;> grind

theorem WellFormed.applyAll (wellFormed : container.WellFormed) (changes : List Change) :
    (changes.foldl Container.apply container).WellFormed ∧
      container.Extends (changes.foldl Container.apply container) := by
  induction changes generalizing container with
  | nil => exact ⟨wellFormed, Extends.refl container⟩
  | cons change rest ih =>
    obtain ⟨last, extends'⟩ := ih (wellFormed.apply change)
    exact ⟨last, (apply_extends change).trans extends'⟩

theorem WellFormed.visit (wellFormed : container.WellFormed) (index : Nat) :
    (container.visit fn script now index).1.WellFormed ∧
    container.Extends (container.visit fn script now index).1 ∧
    ((container.visit fn script now index).2 = [] ∨
      ∃ id kind, container.queue[index]? = some id ∧
        (container.visit fn script now index).2 = [⟨id, kind, container⟩] ∧
        (⟨id, kind, container⟩ : Call).Due fn now) := by
  rw [Container.visit]
  cases here : container.queue[index]? with
  | none => exact ⟨wellFormed, Extends.refl container, .inl rfl⟩
  | some id =>
    cases garbage : (container.heap id).garbage with
    | true =>
      simp only [garbage, if_true]
      exact ⟨wellFormed, Extends.refl container, .inl trivial⟩
    | false =>
      simp only [garbage, Bool.false_eq_true, if_false]
      cases chosen : chooseHandler fn now (container.heap id) with
      | none => exact ⟨wellFormed, Extends.refl container, .inl rfl⟩
      | some choice =>
        obtain ⟨kind, event⟩ := choice
        have modified : (container.modify id fun _ => event).WellFormed := by
          apply wellFormed.heap
          intro other
          by_cases same : other = id
          · rw [same, Function.update_self, chooseHandler_eventRef chosen]
          · rw [Function.update_of_ne same]
        obtain ⟨last, extends'⟩ := modified.applyAll (script id)
        have first : container.Extends (container.modify id fun _ => event) :=
          Extends.of_eq rfl rfl
        exact ⟨last, first.trans extends',
          .inr ⟨id, kind, rfl, rfl, due_of_chooseHandler garbage chosen⟩⟩

/-- The handlers that a pass calls belong to different events of the queue, in its order. -/
theorem WellFormed.visits (wellFormed : container.WellFormed) (count index : Nat)
    (inside : index + count ≤ container.queue.length) :
    (container.visits fn script now count index).1.WellFormed ∧
    container.Extends (container.visits fn script now count index).1 ∧
    ((container.visits fn script now count index).2.1.map Call.id).Sublist
      ((container.queue.drop index).take count) ∧
    ∀ call ∈ (container.visits fn script now count index).2.1,
      call.Due fn now ∧ call.container.WellFormed ∧ container.Extends call.container := by
  induction count generalizing index container with
  | zero => exact ⟨wellFormed, Extends.refl container, by simp [Container.visits], nofun⟩
  | succ count ih =>
    obtain ⟨next, extends', calls⟩ := @WellFormed.visit fn script now _ wellFormed index
    have ⟨_, newer, queue, _⟩ := extends'
    have more : index + 1 + count ≤ (container.visit fn script now index).1.queue.length := by
      rw [queue, List.length_append]
      omega
    obtain ⟨last, extends'', sublist, due⟩ := ih next (index + 1) more
    have first : index < container.queue.length := by omega
    have same : ((container.visit fn script now index).1.queue.drop (index + 1)).take count =
        (container.queue.drop (index + 1)).take count := by
      rw [queue, List.drop_append_of_le_length (by omega), List.take_append_of_le_length]
      rw [List.length_drop]
      omega
    rw [same] at sublist
    rw [Container.visits]
    refine ⟨last, extends'.trans extends'', ?_, ?_⟩
    · rw [List.drop_eq_getElem_cons first, List.take_succ_cons, List.map_append]
      rcases calls with none | ⟨id, kind, here, called, _⟩
      · rw [none]
        exact sublist.cons _
      · rw [called]
        rw [List.getElem?_eq_getElem first] at here
        rw [Option.some.inj here]
        exact sublist.cons_cons _
    · intro call member
      rcases List.mem_append.mp member with now' | later
      · rcases calls with none | ⟨id, kind, _, called, fine⟩
        · rw [none] at now'
          cases now'
        · rw [called] at now'
          rw [List.mem_singleton.mp now']
          exact ⟨fine, wellFormed, Extends.refl container⟩
      · obtain ⟨fine, formed, after⟩ := due call later
        exact ⟨fine, formed, extends'.trans after⟩

end Pass

section Collect

variable {container : Container} {id : EventId}

/-- Which references `~Event` leaves without an event. -/
theorem deleteEvent_refs (ref : RefId) : (container.deleteEvent id).refs ref =
    if (container.heap id).eventRef = some ref then none else container.refs ref := by
  rw [deleteEvent]
  cases back : (container.heap id).eventRef with
  | none => simp
  | some owner =>
    by_cases same : ref = owner
    · simp [same]
    · have apart : ¬ some owner = some ref := fun equal => same (Option.some.inj equal).symm
      rw [if_neg apart]
      exact setRef_refs_other none same

theorem deleteEvent_heap : (container.deleteEvent id).heap = container.heap := by
  rw [deleteEvent]
  split <;> rfl

theorem deleteEvent_made : (container.deleteEvent id).made = container.made := by
  rw [deleteEvent]
  split <;> rfl

/-- What the collector leaves of the rest of the queue, and of the references to it. -/
structure Collects (container : Container) (back : List EventId) (after : Container)
    (kept : List EventId) : Prop where
  heap : after.heap = container.heap
  made : after.made = container.made
  kept : kept.Perm (back.filter fun id => !(container.heap id).garbage)
  refs : ∀ ref, after.refs ref =
    if ∃ id ∈ back, (container.heap id).garbage ∧ (container.heap id).eventRef = some ref then none
    else container.refs ref

/-- The event at a place is garbage, and another one comes to its place. -/
theorem Collects.removed {after : Container} {rest moved kept queue : List EventId}
    (perm : moved.Perm rest) (garbage : (container.heap id).garbage = true)
    (collects : Collects { container.deleteEvent id with queue } moved after kept) :
    Collects container (id :: rest) after kept := by
  refine ⟨?_, ?_, ?_, ?_⟩
  · exact collects.heap.trans deleteEvent_heap
  · exact collects.made.trans deleteEvent_made
  · have same := collects.kept
    simp only [deleteEvent_heap] at same
    rw [List.filter_cons_of_neg (by rw [garbage]; decide)]
    exact same.trans (perm.filter _)
  · intro ref
    rw [collects.refs]
    simp only [deleteEvent_heap, deleteEvent_refs, perm.mem_iff]
    by_cases back : (container.heap id).eventRef = some ref
    · have some : ∃ given ∈ id :: rest,
          (container.heap given).garbage = true ∧ (container.heap given).eventRef = some ref :=
        ⟨id, List.mem_cons_self, garbage, back⟩
      rw [if_pos some, if_pos back, ite_self]
    · rw [if_neg back]
      congr 1
      apply propext
      constructor
      · rintro ⟨given, member, both⟩
        exact ⟨given, List.mem_cons_of_mem id member, both⟩
      · rintro ⟨given, member, marked, owned⟩
        rcases List.mem_cons.mp member with rfl | later
        · exact absurd owned back
        · exact ⟨given, later, marked, owned⟩

theorem collectFrom_run (container : Container) (front back : List EventId)
    (queue : container.queue = front ++ back) :
    ∃ kept, (container.collectFrom front.length).queue = front ++ kept ∧
      Collects container back (container.collectFrom front.length) kept := by
  induction length : back.length generalizing container front back with
  | zero =>
    obtain rfl := List.eq_nil_of_length_eq_zero length
    rw [collectFrom, dif_neg (by rw [queue, List.append_nil]; exact Nat.lt_irrefl _)]
    exact ⟨[], queue, rfl, rfl, List.Perm.nil, by simp⟩
  | succ count ih =>
    obtain ⟨id, rest, rfl⟩ := List.exists_cons_of_length_eq_add_one length
    have inside : front.length < container.queue.length := by
      rw [queue, List.length_append, length]
      omega
    have here : container.queue[front.length] = id := by
      simp [queue]
    have shorter : rest.length = count := Nat.succ_inj.mp length
    rw [collectFrom, dif_pos inside, here]
    cases garbage : (container.heap id).garbage with
    | true =>
      rw [if_pos rfl]
      obtain ⟨moved, removed, perm⟩ := SwapRemove.removeAt_split front rest id
      obtain ⟨kept, queue', collects⟩ := ih
        { container.deleteEvent id with queue := SwapRemove.removeAt container.queue front.length }
        front moved (by rw [← removed, queue]) (by rw [perm.length_eq, shorter])
      exact ⟨kept, queue', collects.removed perm garbage⟩
    | false =>
      rw [if_neg Bool.false_ne_true]
      obtain ⟨kept, queue', collects⟩ := ih container (front ++ [id]) rest
        (by rw [queue, List.append_assoc]; rfl) shorter
      rw [List.length_append, List.length_singleton] at queue' collects
      refine ⟨id :: kept, by rw [queue', List.append_assoc]; rfl, collects.heap, collects.made,
        ?_, ?_⟩
      · rw [List.filter_cons_of_pos (by rw [garbage]; rfl)]
        exact collects.kept.cons id
      · intro ref
        rw [collects.refs]
        simp [garbage]

theorem garbageCollector_queue (container : Container) :
    container.garbageCollector.queue.Perm
      (container.queue.filter fun id => !(container.heap id).garbage) := by
  obtain ⟨kept, queue, collects⟩ := collectFrom_run container [] container.queue rfl
  rw [garbageCollector, ← List.length_nil (α := EventId), queue]
  exact collects.kept

theorem WellFormed.garbageCollector (wellFormed : container.WellFormed) :
    container.garbageCollector.WellFormed := by
  obtain ⟨kept, queue, collects⟩ := collectFrom_run container [] container.queue rfl
  change container.garbageCollector.queue = kept at queue
  change Collects container container.queue container.garbageCollector kept at collects
  have mem_kept {id : EventId} : id ∈ container.garbageCollector.queue ↔
      id ∈ container.queue ∧ (container.heap id).garbage = false := by
    rw [queue, collects.kept.mem_iff, List.mem_filter, Bool.not_eq_true']
  refine ⟨?_, ?_, ?_, ?_⟩
  · rw [queue, collects.kept.nodup_iff]
    exact wellFormed.nodup.filter _
  · intro id member
    rw [collects.made]
    exact wellFormed.made id (mem_kept.mp member).1
  · intro ref id refers
    rw [collects.refs] at refers
    split at refers
    · cases refers
    · rename_i stays
      obtain ⟨queued, back⟩ := wellFormed.owned ref id refers
      rw [collects.heap, mem_kept]
      refine ⟨⟨queued, ?_⟩, back⟩
      by_contra garbage
      exact stays ⟨id, queued, Bool.eq_true_of_not_eq_false garbage, back⟩
  · intro id member ref back
    obtain ⟨queued, alive⟩ := mem_kept.mp member
    rw [collects.heap] at back
    have refers := wellFormed.owner id queued ref back
    rw [collects.refs, if_neg]
    · exact refers
    · rintro ⟨given, queued', garbage, back'⟩
      have also := wellFormed.owner given queued' ref back'
      obtain rfl := Option.some.inj (also.symm.trans refers)
      exact absurd (garbage.symm.trans alive) (by decide)

end Collect

section Timeout

/-- The times at which a timer of the events would go off. -/
def timeouts (events : List Event) : Set TimePoint :=
  { time | ∃ event ∈ events, timed event = true ∧ event.triggerTime = time }

theorem timeouts_cons (event : Event) (rest : List Event) : timeouts (event :: rest) =
    if timed event then insert event.triggerTime (timeouts rest) else timeouts rest := by
  ext time
  cases counts : timed event with
  | false => simp [timeouts, counts]
  | true =>
    simp only [timeouts, Set.mem_ofPred_eq, List.exists_mem_cons_iff, counts, true_and, if_true,
      Set.mem_insert_iff]
    exact or_congr_left eq_comm

theorem foldl_min_isLeast (rest : List Event) (ultimatum : TimePoint) :
    IsLeast (insert ultimatum (timeouts rest)) (rest.foldl (fun ultimatum event =>
      if timed event then min event.triggerTime ultimatum else ultimatum) ultimatum) := by
  induction rest generalizing ultimatum with
  | nil => simp [timeouts]
  | cons event rest ih =>
    rw [timeouts_cons, List.foldl_cons]
    cases counts : timed event with
    | false => exact ih ultimatum
    | true =>
      obtain ⟨attained, below⟩ := ih (min event.triggerTime ultimatum)
      have least := below (Set.mem_insert _ _)
      simp only [if_true]
      constructor
      · rcases attained with first | later
        · rw [first]
          rcases min_choice event.triggerTime ultimatum with here | there
          · rw [here]
            exact .inr (.inl rfl)
          · rw [there]
            exact .inl rfl
        · exact .inr (.inr later)
      · rintro time (rfl | rfl | later)
        · exact le_trans least (min_le_right _ _)
        · exact le_trans least (min_le_left _ _)
        · exact below (.inr later)

theorem nextTimeoutFrom_spec (events : List Event) :
    (timeouts events = ∅ ∧ nextTimeoutFrom events = 0) ∨
      IsLeast (timeouts events) (nextTimeoutFrom events) := by
  induction events with
  | nil =>
    left
    exact ⟨by simp [timeouts], rfl⟩
  | cons event rest ih =>
    rw [timeouts_cons, nextTimeoutFrom]
    cases counts : timed event with
    | false => exact ih
    | true =>
      right
      exact foldl_min_isLeast rest event.triggerTime

end Timeout

end Container

/-! Runs of an event loop. -/

/-- What is done with an event container. The handlers of a pass do what `script` says; it may be
different for each pass. -/
inductive Operation where
  | change (change : Change)
  | executeEvents (fn : Int → Bool) (script : EventId → List Change)
  | garbageCollector

def eventMachine : Machine Container Operation (List Call) :=
  ⟨fun container operation =>
    match operation with
    | .change change => (container.apply change, [])
    | .executeEvents fn script => container.executeEvents fn script
    | .garbageCollector => (container.garbageCollector, [])⟩

/-- What a removal of garbage leaves. -/
def Collected (before after : Container) : Prop :=
  after.queue.Perm (before.queue.filter fun id => !(before.heap id).garbage)

/-- The handlers called in a pass are of different events that were there when it began, and are
called as they should be; garbage is removed after the last one, if at all. -/
structure PassRight (container after : Container) (fn : Int → Bool) (calls : List Call) : Prop where
  once : (calls.map Call.id).Nodup
  present : ∀ call ∈ calls, call.id ∈ container.queue
  due : ∀ call ∈ calls, call.Due fn container.monotonicTime
  consistent : ∀ call ∈ calls, call.container.WellFormed
  kept : ∃ last, container.Extends last ∧ (after = last ∨ Collected last after)

structure StepRight (container : Container) (operation : Operation) : Prop where
  /-- References and queued events refer to each other, and no event is queued twice. -/
  consistent : (eventMachine.next container operation).WellFormed
  pass : ∀ fn script, operation = .executeEvents fn script →
    PassRight container (eventMachine.next container operation) fn
      (eventMachine.output container operation)
  collected : operation = .garbageCollector →
    Collected container (eventMachine.next container operation)
  timeout : ∀ after, after = eventMachine.next container operation →
    let times := Container.timeouts (after.queue.map after.heap)
    (times = ∅ ∧ after.nextTimeout = 0) ∨ IsLeast times after.nextTimeout

variable {container : Container} {fn : Int → Bool} {script : EventId → List Change}

namespace Container

theorem WellFormed.executeEvents (wellFormed : container.WellFormed) :
    (container.executeEvents fn script).1.WellFormed ∧
      PassRight container (container.executeEvents fn script).1 fn
        (container.executeEvents fn script).2 := by
  have pass := @WellFormed.visits fn script container.monotonicTime _ wellFormed
    container.queue.length 0 (Nat.le_of_eq (Nat.zero_add _))
  rw [Container.executeEvents]
  generalize container.visits fn script container.monotonicTime container.queue.length 0 = visited
    at pass ⊢
  obtain ⟨last, calls, hasGarbage⟩ := visited
  obtain ⟨formed, extends', sublist, due⟩ := pass
  rw [List.drop_zero, List.take_length] at sublist
  have right (after : Container) (kept : after = last ∨ Collected last after) :
      PassRight container after fn calls := by
    refine ⟨sublist.nodup wellFormed.nodup, ?_, ?_, ?_, last, extends', kept⟩
    · intro call member
      exact sublist.subset (List.mem_map_of_mem member)
    · intro call member
      exact (due call member).1
    · intro call member
      exact (due call member).2.1
  cases hasGarbage with
  | false => exact ⟨formed, right _ (.inl rfl)⟩
  | true => exact ⟨formed.garbageCollector, right _ (.inr (garbageCollector_queue last))⟩

theorem WellFormed.next (wellFormed : container.WellFormed) (operation : Operation) :
    (eventMachine.next container operation).WellFormed := by
  cases operation with
  | change change => exact wellFormed.apply change
  | executeEvents fn script => exact wellFormed.executeEvents.1
  | garbageCollector => exact wellFormed.garbageCollector

theorem WellFormed.right (wellFormed : container.WellFormed) (operation : Operation) :
    StepRight container operation := by
  refine ⟨wellFormed.next operation, ?_, ?_, ?_⟩
  · rintro fn script rfl
    exact wellFormed.executeEvents.2
  · rintro rfl
    exact garbageCollector_queue container
  · rintro after rfl
    exact nextTimeoutFrom_spec _

end Container

/-- In every run of an event loop each step is right. -/
theorem event_loop (operations : List Operation) :
    eventMachine.EveryStep StepRight Container.fresh operations := by
  apply Machine.everyStep_of_invariant _ _ Container.wellFormed_fresh
    (Machine.everyStep_of_forall (fun _ _ => trivial) _ operations)
  · intro container operation wellFormed _
    exact wellFormed.next operation
  · intro container operation wellFormed _
    exact wellFormed.right operation

end Redemption.Events
