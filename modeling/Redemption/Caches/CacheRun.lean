import Redemption.Caches.BmpCache

/-! Runs of a bitmap cache. -/
namespace Redemption.Caches

open Redemption.Foundation

inductive Operation where
  | put (id : Fin 5) (idx : BitVec 16) (bmp : Bitmap)
  | get (id : Fin 6) (idx : BitVec 16)
  | cacheBitmap (oldbmp : Bitmap)
  | reset

inductive Answer where
  | done
  | bitmap (bmp : Option Bitmap)
  | result (result : Except ErrorId (BitVec 32))

/-- A cache, and for each element the time of its last use. -/
structure Timed (δ : Type) where
  cache : BmpCache δ
  clock : Nat
  lastUse : RangeId → Nat → Nat

/-- The element that is used by what `cache_bitmap` did. -/
def Placement.slot : Placement → RangeId × Nat
  | .found id index => (.cache id, index)
  | .added id index => (.cache id, index)
  | .waiting _ index => (.waitingList, index)

variable {δ : Type} [LinearOrder δ]

section Model

variable (config : Config) (pixels : Pixels δ)

/-- What an operation does to the cache. -/
def perform (cache : BmpCache δ) : Operation → Answer × BmpCache δ
  | .put id idx bmp => (.done, cache.put pixels id idx bmp)
  | .get id idx => (.bitmap (cache.get id idx), cache)
  | .cacheBitmap oldbmp =>
    match cache.cacheBitmap config pixels oldbmp with
    | .ok (result, cache) => (.result (.ok result), cache)
    | .error error => (.result (.error error), cache)
  | .reset => (.done, cache.reset)

/-- The element that an operation uses. -/
def usedSlot (cache : BmpCache δ) : Operation → Option (RangeId × Nat)
  | .put id idx _ => some (.cache id, BmpCache.position (cache.caches id) idx)
  | .get _ _ => none
  | .cacheBitmap oldbmp =>
    let bmp := pixels.convert config.bpp oldbmp
    (config.cacheFor bmp.bmpSize).map fun id => (cache.place config pixels id bmp).1.slot
  | .reset => none

def Timed.next (timed : Timed δ) (cache : BmpCache δ) (slot : Option (RangeId × Nat)) : Timed δ :=
  { cache
    clock := timed.clock + 1
    lastUse :=
      match slot with
      | none => timed.lastUse
      | some (id, index) =>
        Function.update timed.lastUse id (Function.update (timed.lastUse id) index timed.clock) }

def cacheMachine : Machine (Timed δ) Operation Answer :=
  ⟨fun timed operation =>
    let (answer, cache) := perform config pixels timed.cache operation
    (timed.next cache (usedSlot config pixels timed.cache operation), answer)⟩

def Timed.fresh (unset : δ) : Timed δ := ⟨BmpCache.fresh config unset, 0, fun _ _ => 0⟩

/-- The state after a sequence of operations on a new cache. -/
def runOperations (unset : δ) (operations : List Operation) : Timed δ :=
  (cacheMachine config pixels).run (Timed.fresh config unset) operations

/-- All ranges are as they should be. -/
def Timed.Indexed (timed : Timed δ) : Prop :=
  ∀ id, (timed.cache.range id).Indexed pixels.sha1 (timed.lastUse id)

/-- The next stamp is after all stamps of a range. -/
def BmpCache.StampGrows (cache : BmpCache δ) (id : RangeId) : Prop :=
  (cache.range id).Before (cache.stamp + 1).toNat

/-- The range that gets the next stamp when a bitmap for the cache `id` is drawn. -/
def BmpCache.stampedRange (cache : BmpCache δ) (id : Fin 5) (sha1 : δ) : RangeId :=
  if ((cache.caches id).getCacheIndex sha1).isNone &&
      ((config.options id).isPersistent && config.useWaitingList) &&
      (cache.waitingList.getCacheIndex sha1).isNone then .waitingList
  else .cache id

/-- An operation is regular: an entry is there for a bitmap that is put and no other one of its
cache has this bitmap, and the next stamp is after those of the range that gets it. -/
def Regular (timed : Timed δ) : Operation → Prop
  | .put id idx bmp =>
    let range := timed.cache.caches id
    let index := BmpCache.position range idx
    index < range.size ∧
      (∀ other < range.size, other ≠ index → range.isValid other →
        range.keyAt other ≠ pixels.sha1 bmp) ∧
      timed.cache.StampGrows (.cache id)
  | .cacheBitmap oldbmp =>
    let bmp := pixels.convert config.bpp oldbmp
    ∀ id, config.cacheFor bmp.bmpSize = some id →
      timed.cache.StampGrows (timed.cache.stampedRange config id (pixels.sha1 bmp))
  | _ => True

/-- The number of elements of a range. -/
def Config.entries : RangeId → Nat
  | .cache id => (config.options id).entries.toNat
  | .waitingList => config.liteEntries

/-- What holds of a cache as long as all operations are regular. -/
structure Consistent (timed : Timed δ) : Prop where
  size : ∀ id, (timed.cache.range id).size = config.entries id
  ranges : ∀ id,
    (timed.cache.range id).Consistent pixels.sha1 (timed.lastUse id) timed.clock

end Model

variable {config : Config} {pixels : Pixels δ}

theorem consistent_fresh (unset : δ) :
    Consistent config pixels (Timed.fresh config unset) := by
  refine ⟨fun id => ?_, fun id => ?_⟩
  · cases id <;> rfl
  · have empty (size : Nat) : (CacheRange.fresh size unset).Consistent pixels.sha1 (fun _ => 0) 0 :=
      ⟨CacheRange.Sound.fresh size unset, CacheRange.Complete.fresh size unset,
        CacheRange.Stamped.fresh size unset 0⟩
    cases id with
    | cache id => exact empty _
    | waitingList => exact empty _

theorem place_cases (cache : BmpCache δ) (id : Fin 5) (bmp : Bitmap) :
    (∃ index, (cache.caches id).getCacheIndex (pixels.sha1 bmp) = some index ∧
      cache.stampedRange config id (pixels.sha1 bmp) = .cache id ∧
      cache.place config pixels id bmp =
        (.found id index,
          { cache.setRange id ((cache.caches id).touch index (cache.stamp + 1).toNat) with
            stamp := cache.stamp + 1 })) ∨
    ((cache.caches id).getCacheIndex (pixels.sha1 bmp) = none ∧
      (config.options id).isPersistent = true ∧ config.useWaitingList = true ∧
      cache.waitingList.getCacheIndex (pixels.sha1 bmp) = none ∧
      cache.stampedRange config id (pixels.sha1 bmp) = .waitingList ∧
      cache.place config pixels id bmp =
        (.waiting id (cache.waitingList.privGetOldIndex cache.waitingList.size),
          { cache with
            waitingList := cache.waitingList.replace
              (cache.waitingList.privGetOldIndex cache.waitingList.size) bmp (pixels.sha1 bmp)
              (cache.stamp + 1).toNat
            waitingListBitmap := some bmp
            stamp := cache.stamp + 1 })) ∨
    ((cache.caches id).getCacheIndex (pixels.sha1 bmp) = none ∧
      cache.stampedRange config id (pixels.sha1 bmp) = .cache id ∧
      ∃ waitingList,
        (waitingList = cache.waitingList ∨
          ∃ index, cache.waitingList.getCacheIndex (pixels.sha1 bmp) = some index ∧
            waitingList = (cache.waitingList.remove (pixels.sha1 bmp)).resetElem index) ∧
        cache.place config pixels id bmp =
          (.added id ((cache.caches id).getOldIndex config.useWaitingList),
            { cache.setRange id ((cache.caches id).replace
                ((cache.caches id).getOldIndex config.useWaitingList) bmp (pixels.sha1 bmp)
                (cache.stamp + 1).toNat) with
              waitingList
              stamp := cache.stamp + 1 })) := by
  rw [BmpCache.place, BmpCache.stampedRange]
  cases hit : (cache.caches id).getCacheIndex (pixels.sha1 bmp) with
  | some index => exact .inl ⟨index, rfl, rfl, rfl⟩
  | none =>
    right
    cases listed : (config.options id).isPersistent && config.useWaitingList with
    | false => exact .inr ⟨rfl, rfl, cache.waitingList, .inl rfl, rfl⟩
    | true =>
      cases waiting : cache.waitingList.getCacheIndex (pixels.sha1 bmp) with
      | none =>
        obtain ⟨persistent, use⟩ := (Bool.and_eq_true _ _).mp listed
        exact .inl ⟨rfl, persistent, use, rfl, rfl, rfl⟩
      | some index => exact .inr ⟨rfl, rfl, _, .inr ⟨index, rfl, rfl⟩, rfl⟩

theorem cacheFor_some {bmpSize : Nat} {id : Fin 5} (found : config.cacheFor bmpSize = some id) :
    id.val < config.numberOfCache ∧ bmpSize ≤ (config.options id).bmpSize.toNat := by
  have both := List.find?_some found
  simpa using both

section Step

variable {timed : Timed δ}

theorem Consistent.use (consistent : Consistent config pixels timed) {cache : BmpCache δ}
    {id : RangeId} {index : Nat}
    (size : (cache.range id).size = (timed.cache.range id).size)
    (used : (cache.range id).Consistent pixels.sha1
      (Function.update (timed.lastUse id) index timed.clock) (timed.clock + 1))
    (others : ∀ other, other ≠ id → (cache.range other).size = (timed.cache.range other).size ∧
      (cache.range other).Consistent pixels.sha1 (timed.lastUse other) (timed.clock + 1)) :
    Consistent config pixels (timed.next cache (some (id, index))) := by
  refine ⟨fun other => ?_, fun other => ?_⟩
  · change (cache.range other).size = _
    rw [← consistent.size other]
    by_cases same : other = id
    · rw [same, size]
    · exact (others other same).1
  · by_cases same : other = id
    · rw [same]
      change (cache.range id).Consistent pixels.sha1 (Function.update timed.lastUse id _ id) _
      rw [Function.update_self]
      exact used
    · change (cache.range other).Consistent pixels.sha1
        (Function.update timed.lastUse id _ other) _
      rw [Function.update_of_ne same]
      exact (others other same).2

/-- A cache is used; at most a bitmap that was found leaves the waiting list. -/
theorem Consistent.useCache (consistent : Consistent config pixels timed) {cache : BmpCache δ}
    {id : Fin 5} {index : Nat} {range : CacheRange δ}
    (caches : cache.caches = Function.update timed.cache.caches id range)
    (waiting : cache.waitingList = timed.cache.waitingList ∨
      ∃ sha1 index, timed.cache.waitingList.getCacheIndex sha1 = some index ∧
        cache.waitingList = (timed.cache.waitingList.remove sha1).resetElem index)
    (size : range.size = (timed.cache.caches id).size)
    (used : range.Consistent pixels.sha1
      (Function.update (timed.lastUse (.cache id)) index timed.clock) (timed.clock + 1)) :
    Consistent config pixels (timed.next cache (some (.cache id, index))) := by
  have self : cache.range (.cache id) = range := by
    change cache.caches id = range
    rw [caches, Function.update_self]
  refine consistent.use ?_ ?_ fun other different => ?_
  · rw [self, size]
    rfl
  · rw [self]
    exact used
  · have before := consistent.ranges other
    cases other with
    | cache other =>
      have different' : other ≠ id := fun same => different (congrArg RangeId.cache same)
      change (cache.caches other).size = _ ∧ (cache.caches other).Consistent _ _ _
      rw [caches, Function.update_of_ne different']
      exact ⟨rfl, before.later⟩
    | waitingList =>
      change cache.waitingList.size = _ ∧ cache.waitingList.Consistent _ _ _
      rcases waiting with same | ⟨sha1, index, found, gone⟩
      · rw [same]
        exact ⟨rfl, before.later⟩
      · rw [gone]
        exact ⟨rfl, before.removeElem found⟩

theorem Consistent.place (consistent : Consistent config pixels timed) {id : Fin 5} {bmp : Bitmap}
    (counted : id.val < config.numberOfCache)
    (grows : timed.cache.StampGrows (timed.cache.stampedRange config id (pixels.sha1 bmp))) :
    Consistent config pixels (timed.next (timed.cache.place config pixels id bmp).2
      (some (timed.cache.place config pixels id bmp).1.slot)) := by
  have ranges := consistent.ranges (.cache id)
  have entries : 0 < (timed.cache.caches id).size :=
    Nat.lt_of_lt_of_eq (config.used id counted) (consistent.size (.cache id)).symm
  rcases @place_cases _ _ config pixels timed.cache id bmp with
    ⟨index, found, stamped, placed⟩ | ⟨missing, _, listed, unlisted, stamped, placed⟩ |
      ⟨missing, stamped, waitingList, waiting, placed⟩
  · rw [stamped] at grows
    rw [placed]
    exact consistent.useCache rfl (.inl rfl) rfl (ranges.touch found grows)
  · rw [stamped] at grows
    rw [placed]
    have size : timed.cache.waitingList.size = maximumNumberOfCacheEntries := by
      have same := consistent.size .waitingList
      rw [Config.entries, Config.liteEntries, if_pos listed] at same
      exact same
    have list := consistent.ranges .waitingList
    have inside : timed.cache.waitingList.privGetOldIndex timed.cache.waitingList.size <
        timed.cache.waitingList.size :=
      CacheRange.getOldIndex_lt false (by rw [size]; decide)
    refine consistent.use ?_ ?_ fun other different => ?_
    · exact CacheRange.size_replace
    · exact list.replace inside
        (fun other inside _ valid => list.not_found unlisted other inside valid) grows
    · cases other with
      | cache other => exact ⟨rfl, (consistent.ranges (.cache other)).later⟩
      | waitingList => exact absurd rfl different
  · rw [stamped] at grows
    rw [placed]
    refine consistent.useCache rfl ?_ CacheRange.size_replace ?_
    · exact waiting.imp_right fun ⟨index, found, gone⟩ => ⟨_, index, found, gone⟩
    · exact ranges.replace (CacheRange.getOldIndex_lt _ entries)
        (fun other inside _ valid => ranges.not_found missing other inside valid) grows

theorem next_eq (timed : Timed δ) (operation : Operation) :
    (cacheMachine config pixels).next timed operation =
      timed.next (perform config pixels timed.cache operation).2
        (usedSlot config pixels timed.cache operation) := rfl

theorem Consistent.step (consistent : Consistent config pixels timed) {operation : Operation}
    (regular : Regular config pixels timed operation) :
    Consistent config pixels ((cacheMachine config pixels).next timed operation) := by
  have unused : Consistent config pixels (timed.next timed.cache none) :=
    ⟨consistent.size, fun id => (consistent.ranges id).later⟩
  cases operation with
  | put id idx bmp =>
    obtain ⟨inside, fresh, grows⟩ := regular
    exact consistent.useCache rfl (.inl rfl) CacheRange.size_replace
      ((consistent.ranges (.cache id)).replace inside fresh grows)
  | get id idx => exact unused
  | cacheBitmap oldbmp =>
    rw [next_eq, usedSlot, perform, BmpCache.cacheBitmap]
    cases which : config.cacheFor (pixels.convert config.bpp oldbmp).bmpSize with
    | none => exact unused
    | some id => exact consistent.place (cacheFor_some which).1 (regular id which)
  | reset =>
    refine ⟨fun id => ?_, fun id => ?_⟩
    · rw [← consistent.size id]
      cases id <;> rfl
    · have before := consistent.ranges id
      cases id with
      | cache id => exact before.clear
      | waitingList => exact before.later

end Step

/-- In a run of regular operations all ranges are as they should be after each of them. -/
theorem bmp_cache_indexed (config : Config) (pixels : Pixels δ) (unset : δ)
    (operations : List Operation)
    (regular : (cacheMachine config pixels).EveryStep (Regular config pixels)
      (Timed.fresh config unset) operations) :
    (runOperations config pixels unset operations).Indexed pixels := by
  intro id
  have keeps (timed : Timed δ) (operation : Operation) (before : Consistent config pixels timed)
      (allowed : Regular config pixels timed operation) :
      Consistent config pixels ((cacheMachine config pixels).next timed operation) :=
    before.step allowed
  have consistent := Machine.invariant_run keeps (consistent_fresh unset) regular
  exact (consistent.ranges id).indexed

/-- One cache for two small bitmaps. -/
def twoEntries : Config :=
  { owner := .recorder
    bpp := .bpp24
    numberOfCache := 1
    useWaitingList := false
    options := fun id => if id = 0 then ⟨2, 768, false⟩ else ⟨0, 0, false⟩
    used := by decide }

/-- Bitmaps of one shape told apart by their first byte. -/
def firstBytes : Pixels Nat := ⟨fun bmp => (bmp.data.headD 0).toNat, fun _ _ => [], []⟩

def grayBitmap (byte : Byte) : Bitmap := ⟨.bpp24, 4, 1, List.replicate 12 byte, []⟩

theorem bmp_cache_indexed_found :
    (runOperations twoEntries firstBytes 0
      [.put 0 1 (grayBitmap 7), .cacheBitmap (grayBitmap 7)]).Indexed firstBytes := by
  refine bmp_cache_indexed twoEntries firstBytes 0 _ ⟨⟨by decide, ?_, ?_⟩, ?_, trivial⟩
  · intro other _ _ valid
    exact nomatch valid
  · intro index _
    exact Nat.zero_lt_one
  · intro id which
    have same : (0 : Fin 5) = id := Option.some.inj (Eq.trans (by decide) which)
    subst same
    intro index inside
    have small : index < 2 := inside
    obtain rfl | rfl : index = 0 ∨ index = 1 := by omega
    · decide
    · decide

/-- A bitmap that is put at two entries is only once in the set. -/
theorem put_twice :
    ¬ (runOperations twoEntries firstBytes 0
      [.put 0 0 (grayBitmap 7), .put 0 1 (grayBitmap 7)]).Indexed firstBytes := by
  intro indexed
  have member := ((indexed (.cache 0)).entry 1).mpr ⟨by decide, by decide⟩
  exact absurd member (by decide)

end Redemption.Caches
