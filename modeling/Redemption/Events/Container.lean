import Mathlib.Logic.Function.Basic
import Mathlib.Data.List.Basic

/-! `EventContainer` and `EventRef`: queued events, and the references that own some of them. -/
namespace Redemption.Events

/-- An address of an `Event`, and one of an `EventRef`. -/
abbrev EventId := Nat

abbrev RefId := Nat

/-- A point of `MonotonicClock`, as the duration since its epoch. -/
abbrev TimePoint := Int

def invalidSocket : Int := -1

/-- `Event`; the functions of its handlers are not part of it. -/
structure Event where
  garbage : Bool
  activeTimer : Bool
  fd : Int
  triggerTime : TimePoint
  graceDelay : Int
  lifespanHandle : Nat
  eventRef : Option RefId
  deriving DecidableEq, Repr

namespace Event

variable (event : Event)

/-- `make_event`. -/
def make (lifespan : Nat) : Event :=
  { garbage := false
    activeTimer := false
    fd := invalidSocket
    triggerTime := 0
    graceDelay := 0
    lifespanHandle := lifespan
    eventRef := none }

def setTimeout (triggerTime : TimePoint) : Event := { event with activeTimer := true, triggerTime }

def addTimeoutDelay (delay : Int) : Event := event.setTimeout (event.triggerTime + delay)

end Event

/-- An `EventContainer`, and what the references that exist refer to; one that does not exist
counts as one without an event. -/
structure Container where
  heap : EventId → Event
  queue : List EventId
  refs : RefId → Option EventId
  /-- The events that were made so far. -/
  made : Nat
  monotonicTime : TimePoint

/-- What an event is made with; a delay counts from the time of the container. -/
inductive Creation where
  | timeout (lifespan : Nat) (triggerTime : TimePoint)
  | timeoutDelay (lifespan : Nat) (delay : Int)
  | fdWithoutTimeout (lifespan : Nat) (fd : Int)
  | fdTimeout (lifespan : Nat) (fd : Int) (graceDelay : Int) (triggerTime : TimePoint)
  | fdTimeoutDelay (lifespan : Nat) (fd : Int) (delay : Int)
  deriving DecidableEq, Repr

namespace Container

variable (container : Container)

def fresh : Container := ⟨fun _ => .make 0, [], fun _ => none, 0, 0⟩

/-- The event that a `create_event_*` function makes. -/
def created : Creation → Event
  | .timeout lifespan triggerTime => (Event.make lifespan).setTimeout triggerTime
  | .timeoutDelay lifespan delay =>
    (Event.make lifespan).setTimeout (container.monotonicTime + delay)
  | .fdWithoutTimeout lifespan fd => { Event.make lifespan with fd }
  | .fdTimeout lifespan fd graceDelay triggerTime =>
    { Event.make lifespan with fd, graceDelay }.setTimeout triggerTime
  | .fdTimeoutDelay lifespan fd delay =>
    { Event.make lifespan with fd, graceDelay := delay }.setTimeout
      (container.monotonicTime + delay)

/-- A change of one event. -/
def modify (id : EventId) (change : Event → Event) : Container :=
  { container with heap := Function.update container.heap id (change (container.heap id)) }

/-- A reference gets an event, or loses its event. -/
def setRef (ref : RefId) (event : Option EventId) : Container :=
  { container with refs := Function.update container.refs ref event }

/-- A new event in the queue. -/
def create (creation : Creation) : Container :=
  { container with
    heap := Function.update container.heap container.made (container.created creation)
    queue := container.queue ++ [container.made]
    made := container.made + 1 }

/-- What a reference does with the event that it gives up. -/
def giveUp (ref : RefId) : Container :=
  match container.refs ref with
  | some id => container.modify id fun event => { event with garbage := true, eventRef := none }
  | none => container

/-- The reference refers to an event from now on. -/
def point (ref : RefId) (id : EventId) : Container :=
  (container.modify id fun event => { event with eventRef := some ref }).setRef ref (some id)

/-- `garbage`, and the destructor of a reference. -/
def dropRef (ref : RefId) : Container := (container.giveUp ref).setRef ref none

/-- A reference that is made from a new event, or to which it is assigned. -/
def assignNew (ref : RefId) (creation : Creation) : Container :=
  let created := container.create creation
  (created.giveUp ref).point ref container.made

/-- A reference that is moved to another one, which may be new; `std::exchange` comes after the
event that was there is given up. -/
def moveRef (target source : RefId) : Container :=
  let given := container.giveUp target
  match given.refs source with
  | some id => (given.setRef source none).point target id
  | none => given.setRef target none

/-- `has_event`. -/
def hasEvent (ref : RefId) : Bool :=
  match container.refs ref with
  | some id => !(container.heap id).garbage
  | none => false

/-- `set_timeout` and `add_timeout_delay` of a reference. -/
def changeRef (ref : RefId) (change : Event → Event) : Container :=
  match container.refs ref with
  | some id => if (container.heap id).garbage then container else container.modify id change
  | none => container

def setTimeoutOrCreateEvent (ref : RefId) (triggerTime : TimePoint) (lifespan : Nat) : Container :=
  if container.hasEvent ref then container.changeRef ref (·.setTimeout triggerTime)
  else container.assignNew ref (.timeout lifespan triggerTime)

def endOfLifespan (lifespan : Nat) : Container :=
  { container with
    heap := fun id =>
      if id ∈ container.queue ∧ (container.heap id).lifespanHandle = lifespan then
        { container.heap id with garbage := true }
      else container.heap id }

/-- `~Event` lets its reference go. -/
def deleteEvent (id : EventId) : Container :=
  match (container.heap id).eventRef with
  | some ref => container.setRef ref none
  | none => container

end Container

/-- What may be done to one queued event. -/
inductive EventChange where
  | markGarbage
  | setTimeout (triggerTime : TimePoint)
  | addTimeoutDelay (delay : Int)
  | cancelTimeout
  | setFd (fd : Int)
  deriving DecidableEq, Repr

def EventChange.apply : EventChange → Event → Event
  | .markGarbage, event => { event with garbage := true }
  | .setTimeout triggerTime, event => event.setTimeout triggerTime
  | .addTimeoutDelay delay, event => event.addTimeoutDelay delay
  | .cancelTimeout, event => { event with activeTimer := false }
  | .setFd fd, event => { event with fd }

/-- What may be done to a container at any time, also by a handler. A queued event is given by its
place in the queue; where there is none, nothing can be done. -/
inductive Change where
  | create (creation : Creation)
  | assignNew (ref : RefId) (creation : Creation)
  | moveRef (target source : RefId)
  | dropRef (ref : RefId)
  | setTimeout (ref : RefId) (triggerTime : TimePoint)
  | addTimeoutDelay (ref : RefId) (delay : Int)
  | setTimeoutOrCreateEvent (ref : RefId) (triggerTime : TimePoint) (lifespan : Nat)
  | endOfLifespan (lifespan : Nat)
  | event (place : Nat) (change : EventChange)
  | setTimeBase (monotonicTime : TimePoint)
  deriving DecidableEq, Repr

def Container.apply (container : Container) : Change → Container
  | .create creation => container.create creation
  | .assignNew ref creation => container.assignNew ref creation
  | .moveRef target source => container.moveRef target source
  | .dropRef ref => container.dropRef ref
  | .setTimeout ref triggerTime => container.changeRef ref (·.setTimeout triggerTime)
  | .addTimeoutDelay ref delay => container.changeRef ref (·.addTimeoutDelay delay)
  | .setTimeoutOrCreateEvent ref triggerTime lifespan =>
    container.setTimeoutOrCreateEvent ref triggerTime lifespan
  | .endOfLifespan lifespan => container.endOfLifespan lifespan
  | .event place change =>
    match container.queue[place]? with
    | some id => container.modify id change.apply
    | none => container
  | .setTimeBase monotonicTime => { container with monotonicTime }

end Redemption.Events
