import Redemption.Foundation.Machine
import Redemption.Pointers.CacheIndexMapping

/-! `PointerCache`, and the pointers that a client has in its slots. -/
namespace Redemption.Pointers

open Redemption.Foundation

def maxPointerCount : Nat := 25

def predefinedPointerCount : Nat := 11

/-- `original_max_entries`. -/
def originalMaxEntries : Nat := maxPointerCount + predefinedPointerCount

/-- `CachePointerIndex`: an index of the server, or a predefined pointer after these. -/
structure CachePointerIndex where
  cacheIndex : Nat
  within : cacheIndex < originalMaxEntries
  deriving DecidableEq

inductive PointerError where
  | rdpProcessPointerCacheNotOk
  deriving DecidableEq, Repr

structure PointerCache (π : Type) where
  mapping : CacheIndexMapping
  pointers : Nat → π

namespace PointerCache

variable {π : Type} (cache : PointerCache π)

/-- A cache for a client with some entries; the assertion of the constructor is in the type. -/
def fresh (blank : π) (pointerCacheEntries : Fin (originalMaxEntries + 1)) : PointerCache π :=
  ⟨.fresh pointerCacheEntries, fun _ => blank⟩

def check (cacheIdx max : Nat) : Except PointerError Unit :=
  if max ≤ cacheIdx then .error .rdpProcessPointerCacheNotOk else .ok ()

def insert (cacheIdx : CachePointerIndex) (cursor : π) : Except PointerError (PointerCache π) := do
  check cacheIdx.cacheIndex maxPointerCount
  return {
    pointers := Function.update cache.pointers cacheIdx.cacheIndex cursor
    mapping := cache.mapping.insert cacheIdx.cacheIndex }

def use (cacheIdx : CachePointerIndex) : Except PointerError (CacheResult × PointerCache π) := do
  check cacheIdx.cacheIndex (maxPointerCount + predefinedPointerCount)
  let (result, mapping) := cache.mapping.use cacheIdx.cacheIndex
  return (result, { cache with mapping })

/-- The pointer at an index, given the predefined ones. -/
def pointer (predefined : Nat → π) (cacheIndex : Nat) : π :=
  if maxPointerCount ≤ cacheIndex then predefined (cacheIndex - maxPointerCount)
  else cache.pointers cacheIndex

variable {cache}

theorem use_eq (cacheIdx : CachePointerIndex) :
    cache.use cacheIdx = .ok ((cache.mapping.use cacheIdx.cacheIndex).1,
      { cache with mapping := (cache.mapping.use cacheIdx.cacheIndex).2 }) := by
  have within : ¬ maxPointerCount + predefinedPointerCount ≤ cacheIdx.cacheIndex :=
    Nat.not_le_of_lt cacheIdx.within
  rw [use, check, if_neg within]
  rfl

theorem insert_cases (cacheIdx : CachePointerIndex) (cursor : π) :
    (cacheIdx.cacheIndex < maxPointerCount ∧ cache.insert cacheIdx cursor =
      .ok ⟨cache.mapping.insert cacheIdx.cacheIndex,
        Function.update cache.pointers cacheIdx.cacheIndex cursor⟩) ∨
    cache.insert cacheIdx cursor = .error .rdpProcessPointerCacheNotOk := by
  rw [insert, check]
  by_cases predefined : maxPointerCount ≤ cacheIdx.cacheIndex
  · right
    rw [if_pos predefined]
    rfl
  · left
    rw [if_neg predefined]
    exact ⟨Nat.lt_of_not_le predefined, rfl⟩

end PointerCache

inductive PointerOperation (π : Type) where
  | insert (cacheIdx : CachePointerIndex) (cursor : π)
  | use (cacheIdx : CachePointerIndex)

/-- A cache with the pointers in the slots of its client; for each source, when it was last used
and which pointer it last got. -/
structure Sharing (π : Type) where
  cache : PointerCache π
  client : Nat → Option π
  clock : Nat
  lastUse : Nat → Nat
  lastPointer : Nat → π

variable {π : Type}

/-- A client stores a pointer in one of its slots. -/
def storePointer (size : Nat) (client : Nat → Option π) (destinationIdx : Nat) (pointer : π) :
    Nat → Option π :=
  if destinationIdx < size then Function.update client destinationIdx (some pointer) else client

section Model

variable (predefined : Nat → π)

def Sharing.fresh (blank : π) (size : Fin (originalMaxEntries + 1)) : Sharing π where
  cache := .fresh blank size
  client _ := none
  clock := 0
  lastUse _ := 0
  lastPointer := (PointerCache.fresh blank size).pointer predefined

/-- A pointer is sent to the client when `use` says that it is not cached. -/
def Sharing.step (state : Sharing π) :
    PointerOperation π → Sharing π × Except PointerError (Option CacheResult)
  | .insert cacheIdx cursor =>
    match state.cache.insert cacheIdx cursor with
    | .error error => (state, .error error)
    | .ok cache =>
      ({ state with
          cache
          lastPointer := Function.update state.lastPointer cacheIdx.cacheIndex cursor }, .ok none)
  | .use cacheIdx =>
    match state.cache.use cacheIdx with
    | .error error => (state, .error error)
    | .ok (result, cache) =>
      ({ state with
          cache
          client :=
            if result.isCached then state.client
            else storePointer cache.mapping.maxEntries state.client result.destinationIdx
              (cache.pointer predefined cacheIdx.cacheIndex)
          clock := state.clock + 1
          lastUse := Function.update state.lastUse cacheIdx.cacheIndex (state.clock + 1) },
        .ok (some result))

def pointerMachine :
    Machine (Sharing π) (PointerOperation π) (Except PointerError (Option CacheResult)) :=
  ⟨Sharing.step predefined⟩

/-- The two maps are inverse to each other. -/
def Inverse (mapping : CacheIndexMapping) : Prop :=
  ∀ source dest, mapping.srcToDst source = some dest ↔ mapping.dstToSrc dest = some source

/-- A cached pointer is in the slot of the client, and a slot with a source is recycled only if no
source with a slot was used less recently. -/
structure UsedRight (state : Sharing π) (cacheIdx : CachePointerIndex) (result : CacheResult) :
    Prop where
  inside : result.destinationIdx < state.cache.mapping.maxEntries
  cached : result.isCached = true →
    state.client result.destinationIdx = some (state.lastPointer cacheIdx.cacheIndex)
  recycled : result.isCached = false → ∀ former,
    state.cache.mapping.srcToDst former = some result.destinationIdx →
    ∀ other dest, state.cache.mapping.srcToDst other = some dest →
      state.lastUse former ≤ state.lastUse other

def SharesRight (state : Sharing π) (operation : PointerOperation π) : Prop :=
  Inverse ((pointerMachine predefined).next state operation).cache.mapping ∧
  ∀ cacheIdx result, operation = .use cacheIdx →
    (pointerMachine predefined).output state operation = .ok (some result) →
    UsedRight state cacheIdx result

/-- Where a pointer is used the client has a slot, and the counter of the stamps does not wrap. -/
def Counts (state : Sharing π) (operation : PointerOperation π) : Prop :=
  ∀ cacheIdx, operation = .use cacheIdx →
    0 < state.cache.mapping.maxEntries ∧ state.cache.mapping.stamp.toNat + 1 < 2 ^ 32

/-- What holds between a cache and its client. -/
structure Shared (state : Sharing π) : Prop where
  consistent : state.cache.mapping.Consistent
  clock : state.cache.mapping.stamp.toNat = state.clock
  stamped : ∀ source dest, state.cache.mapping.srcToDst source = some dest →
    (state.cache.mapping.stamps dest).toNat = state.lastUse source
  shown : ∀ source dest, state.cache.mapping.srcToDst source = some dest →
    state.client dest = some (state.lastPointer source)
  pointers : ∀ source, state.cache.pointer predefined source = state.lastPointer source

end Model

section Step

variable {predefined : Nat → π} {state : Sharing π}

theorem shared_fresh (blank : π) (size : Fin (originalMaxEntries + 1)) :
    Shared predefined (.fresh predefined blank size) :=
  ⟨CacheIndexMapping.consistent_fresh _, rfl, nofun, nofun, fun _ => rfl⟩

theorem Shared.insert (shared : Shared predefined state) (cacheIdx : CachePointerIndex)
    (cursor : π) :
    Shared predefined ((pointerMachine predefined).next state (.insert cacheIdx cursor)) := by
  change Shared predefined (state.step predefined (.insert cacheIdx cursor)).1
  rw [Sharing.step]
  rcases @PointerCache.insert_cases _ state.cache cacheIdx cursor with ⟨own, done⟩ | failed
  · rw [done]
    have other {source dest : Nat}
        (there : (state.cache.mapping.insert cacheIdx.cacheIndex).srcToDst source = some dest) :
        source ≠ cacheIdx.cacheIndex ∧ state.cache.mapping.srcToDst source = some dest := by
      rw [CacheIndexMapping.insert_srcToDst] at there
      split at there
      · cases there
      · rename_i different
        exact ⟨different, there⟩
    refine ⟨shared.consistent.insert _, ?_, ?_, ?_, ?_⟩
    · exact (congrArg BitVec.toNat (CacheIndexMapping.insert_stamp _)).trans shared.clock
    · intro source dest there
      obtain ⟨_, before⟩ := other there
      have same := CacheIndexMapping.insert_stamps shared.consistent there
      exact (congrArg BitVec.toNat same).trans (shared.stamped source dest before)
    · intro source dest there
      obtain ⟨different, before⟩ := other there
      change state.client dest =
        some (Function.update state.lastPointer cacheIdx.cacheIndex cursor source)
      rw [Function.update_of_ne different]
      exact shared.shown source dest before
    · intro source
      have before := shared.pointers source
      change PointerCache.pointer
          ⟨_, Function.update state.cache.pointers cacheIdx.cacheIndex cursor⟩ predefined source =
        Function.update state.lastPointer cacheIdx.cacheIndex cursor source
      by_cases same : source = cacheIdx.cacheIndex
      · rw [same, Function.update_self, PointerCache.pointer, if_neg (Nat.not_le_of_lt own)]
        exact Function.update_self ..
      · rw [Function.update_of_ne same, ← before, PointerCache.pointer, PointerCache.pointer]
        simp only [Function.update_of_ne same]
  · rw [failed]
    exact shared

theorem next_use (cacheIdx : CachePointerIndex) :
    (pointerMachine predefined).step state (.use cacheIdx) =
      let used := state.cache.mapping.use cacheIdx.cacheIndex
      ({ state with
          cache := { state.cache with mapping := used.2 }
          client :=
            if used.1.isCached then state.client
            else storePointer used.2.maxEntries state.client used.1.destinationIdx
              (state.cache.pointer predefined cacheIdx.cacheIndex)
          clock := state.clock + 1
          lastUse := Function.update state.lastUse cacheIdx.cacheIndex (state.clock + 1) },
        .ok (some used.1)) := by
  change state.step predefined (.use cacheIdx) = _
  rw [Sharing.step, PointerCache.use_eq]
  rfl

theorem Shared.use (shared : Shared predefined state) (cacheIdx : CachePointerIndex)
    (counts : Counts state (.use cacheIdx)) :
    Shared predefined ((pointerMachine predefined).next state (.use cacheIdx)) := by
  obtain ⟨some, unwrapped⟩ := counts cacheIdx rfl
  have uses := shared.consistent.use some cacheIdx.cacheIndex
  have next : (state.cache.mapping.stamp + 1).toNat = state.clock + 1 := by
    rw [BitVec.toNat_add, ← shared.clock]
    exact Nat.mod_eq_of_lt unwrapped
  rw [Machine.next, next_use]
  refine ⟨uses.consistent, ?_, ?_, ?_, shared.pointers⟩
  · exact (congrArg BitVec.toNat uses.stamp).trans next
  · intro source dest there
    change ((state.cache.mapping.use cacheIdx.cacheIndex).2.stamps dest).toNat =
      Function.update state.lastUse cacheIdx.cacheIndex (state.clock + 1) source
    rw [uses.stamps]
    by_cases same : source = cacheIdx.cacheIndex
    · subst same
      have here := Option.some.inj (there.symm.trans uses.slot)
      rw [here, Function.update_self, Function.update_self, next]
    · obtain ⟨before, apart⟩ := uses.others source dest same there
      rw [Function.update_of_ne apart, Function.update_of_ne same]
      exact shared.stamped source dest before
  · intro source dest there
    change (if _ then _ else storePointer _ _ _ _) dest = .some (state.lastPointer source)
    by_cases same : source = cacheIdx.cacheIndex
    · subst same
      have here := Option.some.inj (there.symm.trans uses.slot)
      split
      · rename_i cached
        rw [here]
        exact shared.shown _ _ (uses.cached.mp cached)
      · have inside := Nat.lt_of_lt_of_le (uses.consistent.placed _ _ uses.slot)
          uses.consistent.fits
        rw [storePointer, if_pos inside, here, Function.update_self, shared.pointers]
    · obtain ⟨before, apart⟩ := uses.others source dest same there
      split
      · exact shared.shown source dest before
      · rw [storePointer]
        split
        · rw [Function.update_of_ne apart]
          exact shared.shown source dest before
        · exact shared.shown source dest before

theorem Shared.next (shared : Shared predefined state) (operation : PointerOperation π)
    (counts : Counts state operation) :
    Shared predefined ((pointerMachine predefined).next state operation) := by
  cases operation with
  | insert cacheIdx cursor => exact shared.insert cacheIdx cursor
  | use cacheIdx => exact shared.use cacheIdx counts

theorem Shared.right (shared : Shared predefined state) (operation : PointerOperation π)
    (counts : Counts state operation) : SharesRight predefined state operation := by
  refine ⟨(shared.next operation counts).consistent.inverse, ?_⟩
  rintro cacheIdx result rfl output
  obtain ⟨some, _⟩ := counts cacheIdx rfl
  have uses := shared.consistent.use some cacheIdx.cacheIndex
  rw [Machine.output, next_use] at output
  obtain rfl := Option.some.inj (Except.ok.inj output)
  refine ⟨?_, ?_, ?_⟩
  · have inside := Nat.lt_of_lt_of_le (uses.consistent.placed _ _ uses.slot) uses.consistent.fits
    rw [uses.maxEntries] at inside
    exact inside
  · intro cached
    exact shared.shown _ _ (uses.cached.mp cached)
  · intro taken former owned other dest there
    rw [← shared.stamped former _ owned, ← shared.stamped other dest there]
    exact uses.recycled taken former owned other dest there

end Step

/-- In a run that counts, the pointers that are cached are those that the client has. -/
theorem pointer_mirror (predefined : Nat → π) (blank : π) (size : Fin (originalMaxEntries + 1))
    (operations : List (PointerOperation π))
    (counts : (pointerMachine predefined).EveryStep Counts (.fresh predefined blank size)
      operations) :
    (pointerMachine predefined).EveryStep (SharesRight predefined)
      (.fresh predefined blank size) operations := by
  apply Machine.everyStep_of_invariant _ _ (shared_fresh blank size) counts
  · intro state operation shared allowed
    exact shared.next operation allowed
  · intro state operation shared allowed
    exact shared.right operation allowed

/-- An index of the server. -/
def serverPointer (index : Fin 25) : CachePointerIndex :=
  ⟨index, Nat.lt_of_lt_of_le index.isLt (Nat.le_add_right ..)⟩

theorem pointer_mirror_two :
    (pointerMachine fun _ => 0).EveryStep (SharesRight fun _ => 0)
      (.fresh (fun _ => 0) 0 (2 : Fin 37))
      [.insert (serverPointer 3) 7, .use (serverPointer 3), .use (serverPointer 3)] :=
  pointer_mirror (fun _ => 0) 0 (2 : Fin 37) _
    ⟨nofun, fun _ _ => ⟨by decide, by decide⟩, fun _ _ => ⟨by decide, by decide⟩, trivial⟩

section Wrap

variable {π : Type} {predefined : Nat → π} {state : Sharing π}

theorem run_use_cached {cacheIdx : CachePointerIndex} {dest : Nat}
    (slot : state.cache.mapping.srcToDst cacheIdx.cacheIndex = some dest) (count : Nat) :
    (pointerMachine predefined).run state (List.replicate (count + 1) (.use cacheIdx)) =
      { state with
        cache := { state.cache with
          mapping := { state.cache.mapping with
            stamp := state.cache.mapping.stamp + BitVec.ofNat 32 (count + 1)
            stamps := Function.update state.cache.mapping.stamps dest
              (state.cache.mapping.stamp + BitVec.ofNat 32 (count + 1)) } }
        clock := state.clock + (count + 1)
        lastUse := Function.update state.lastUse cacheIdx.cacheIndex
          (state.clock + (count + 1)) } := by
  induction count generalizing state with
  | zero =>
    change (pointerMachine predefined).next state (.use cacheIdx) = _
    rw [Machine.next, next_use]
    simp only [CacheIndexMapping.use, slot]
    rfl
  | succ count ih =>
    rw [List.replicate_succ, Machine.run_cons, ih]
    · rw [Machine.next, next_use]
      simp only [CacheIndexMapping.use, slot, Function.update_idem, if_true]
      have stamps : state.cache.mapping.stamp + 1 + BitVec.ofNat 32 (count + 1) =
          state.cache.mapping.stamp + BitVec.ofNat 32 (count + 1 + 1) := by
        rw [BitVec.ofNat_add (count + 1), BitVec.add_comm _ (BitVec.ofNat 32 1), BitVec.add_assoc]
        rfl
      have clocks : state.clock + 1 + (count + 1) = state.clock + (count + 1 + 1) := by
        rw [Nat.add_assoc, Nat.add_comm 1]
      rw [stamps, clocks]
    · rw [Machine.next, next_use]
      simp only [CacheIndexMapping.use, slot]

end Wrap

/-- Two pointers in a client with two slots, of which the first is used until the counter wraps. -/
def usedForLong : List (PointerOperation Nat) :=
  [.use (serverPointer 0), .use (serverPointer 1)] ++
    List.replicate (2 ^ 32 - 2) (.use (serverPointer 0))

/-- A client without slots is taken to have a pointer, and after the counter has wrapped the
pointer that was used last gives its slot away. -/
theorem pointer_mirror_broken :
    ¬ (pointerMachine fun _ => 0).EveryStep (SharesRight fun _ => 0)
      (.fresh (fun _ => 0) 0 (0 : Fin 37)) [.use (serverPointer 0), .use (serverPointer 0)] ∧
    ¬ (pointerMachine fun _ => 0).EveryStep (SharesRight fun _ => 0)
      (.fresh (fun _ => 0) 0 (2 : Fin 37)) (usedForLong ++ [.use (serverPointer 2)]) := by
  constructor
  · rintro ⟨_, ⟨_, right⟩, _⟩
    exact absurd (right _ _ rfl rfl).inside (by decide)
  · intro every
    obtain ⟨_, ⟨_, right⟩, _⟩ := Machine.everyStep_append.mp every
    rw [usedForLong, Machine.run_append] at right
    have slot : ((pointerMachine fun _ => 0).run (.fresh (fun _ => 0) 0 (2 : Fin 37))
        [.use (serverPointer 0), .use (serverPointer 1)]).cache.mapping.srcToDst
          (serverPointer 0).cacheIndex = some 0 := by decide
    rw [show (2 ^ 32 - 2 : Nat) = 4294967293 + 1 from rfl, run_use_cached slot] at right
    have used := right (serverPointer 2) ⟨0, false⟩ rfl (by rw [Machine.output, next_use]; decide)
    have recycled := used.recycled rfl 0 (by decide) 1 1 (by decide)
    exact absurd recycled (by decide)

end Redemption.Pointers
