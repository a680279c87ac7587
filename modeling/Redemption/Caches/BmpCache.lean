import Redemption.Caches.CacheRange
import Redemption.Foundation.Machine

/-! The bitmap cache: its ranges, its waiting list, and where it puts a bitmap. -/
namespace Redemption.Caches

open Redemption.Foundation

instance neZero_five : NeZero 5 := ⟨by decide⟩

inductive ErrorId where
  | bitmapCacheTooBig
  deriving DecidableEq, Repr

inductive Owner where
  | front
  | modRdp
  | recorder
  deriving DecidableEq, Repr

/-- `CacheOption`. -/
structure CacheOption where
  entries : BitVec 16
  bmpSize : BitVec 16
  isPersistent : Bool

/-- What a `BmpCache` is constructed with; the caches that are counted have entries. -/
structure Config where
  owner : Owner
  bpp : BitsPerPixel
  numberOfCache : Nat
  useWaitingList : Bool
  options : Fin 5 → CacheOption
  used : ∀ id : Fin 5, id.val < numberOfCache → 0 < (options id).entries.toNat

/-- `MAXIMUM_NUMBER_OF_CACHE_ENTRIES`. -/
def maximumNumberOfCacheEntries : Nat := 8192

/-- `BITMAPCACHE_WAITING_LIST_INDEX`. -/
def bitmapcacheWaitingListIndex : BitVec 16 := 32767

/-- `IN_WAIT_LIST`. -/
def inWaitList : BitVec 32 := 0x80

structure BmpCache (δ : Type) where
  caches : Fin 5 → CacheRange δ
  waitingList : CacheRange δ
  waitingListBitmap : Option Bitmap
  stamp : BitVec 32

/-- Where `cache_bitmap` found a bitmap or put it. -/
inductive Placement where
  | found (id : Fin 5) (index : Nat)
  | added (id : Fin 5) (index : Nat)
  | waiting (id : Fin 5) (index : Nat)

/-- What `cache_bitmap` returns: `FOUND_IN_CACHE` or `ADDED_TO_CACHE`, the id and the index. -/
def Placement.encode : Placement → BitVec 32
  | .found id index => (0#32 <<< 24) ||| (BitVec.ofNat 32 id <<< 16) ||| BitVec.ofNat 32 index
  | .added id index => (1#32 <<< 24) ||| (BitVec.ofNat 32 id <<< 16) ||| BitVec.ofNat 32 index
  | .waiting id index =>
    (1#32 <<< 24) ||| ((BitVec.ofNat 32 id ||| inWaitList) <<< 16) ||| BitVec.ofNat 32 index

namespace Config

variable (config : Config)

/-- The first cache for bitmaps of at least this size. -/
def cacheFor (bmpSize : Nat) : Option (Fin 5) :=
  (List.finRange 5).find? fun id =>
    id.val < config.numberOfCache && bmpSize ≤ (config.options id).bmpSize.toNat

/-- The number of elements of the waiting list. -/
def liteEntries : Nat := if config.useWaitingList then maximumNumberOfCacheEntries else 0

end Config

namespace BmpCache

variable {δ : Type}

/-- A cache that was constructed; `unset` is what the memory for the hashes had. -/
def fresh (config : Config) (unset : δ) : BmpCache δ :=
  { caches := fun id => CacheRange.fresh (config.options id).entries.toNat unset
    waitingList := CacheRange.fresh config.liteEntries unset
    waitingListBitmap := none
    stamp := 0 }

/-- `reset`. -/
def reset (cache : BmpCache δ) : BmpCache δ :=
  { cache with stamp := 0, caches := fun id => (cache.caches id).clear }

/-- The element that an index stands for: the waiting list uses the last entry. -/
def position (range : CacheRange δ) (idx : BitVec 16) : Nat :=
  if idx = bitmapcacheWaitingListIndex then (BitVec.ofNat 16 range.size - 1).toNat else idx.toNat

/-- `get`: a bitmap that may not be valid. -/
def get (cache : BmpCache δ) (id : Fin 6) (idx : BitVec 16) : Option Bitmap :=
  if small : id.val < 5 then
    let range := cache.caches ⟨id, small⟩
    (range.elem (position range idx)).bmp
  else cache.waitingListBitmap

/-- `is_cached`. -/
def isCached (cache : BmpCache δ) (id : Fin 5) (idx : BitVec 16) : Bool :=
  ((cache.caches id).elem idx.toNat).cached

def setRange (cache : BmpCache δ) (id : Fin 5) (range : CacheRange δ) : BmpCache δ :=
  { cache with caches := Function.update cache.caches id range }

/-- `set_cached`. -/
def setCached (cache : BmpCache δ) (id : Fin 5) (idx : BitVec 16) (cached : Bool) : BmpCache δ :=
  let range := cache.caches id
  cache.setRange id (range.setElem idx.toNat { range.elem idx.toNat with cached })

variable [LinearOrder δ] (config : Config) (pixels : Pixels δ)

/-- `put`; the index has to be one of an entry. -/
def put (cache : BmpCache δ) (id : Fin 5) (idx : BitVec 16) (bmp : Bitmap) : BmpCache δ :=
  let range := cache.caches id
  let stamp := cache.stamp + 1
  { cache.setRange id (range.replace (position range idx) bmp (pixels.sha1 bmp) stamp.toNat) with
    stamp }

/-- What `cache_bitmap` does with a bitmap for the cache `id`. -/
def place (cache : BmpCache δ) (id : Fin 5) (bmp : Bitmap) : Placement × BmpCache δ :=
  let range := cache.caches id
  let sha1 := pixels.sha1 bmp
  let stamp := cache.stamp + 1
  match range.getCacheIndex sha1 with
  | some index =>
    (.found id index, { cache.setRange id (range.touch index stamp.toNat) with stamp })
  | none =>
    let oldest := range.getOldIndex config.useWaitingList
    let added := range.replace oldest bmp sha1 stamp.toNat
    if (config.options id).isPersistent && config.useWaitingList then
      match cache.waitingList.getCacheIndex sha1 with
      | none =>
        let oldest := cache.waitingList.privGetOldIndex cache.waitingList.size
        (.waiting id oldest,
          { cache with
            waitingList := cache.waitingList.replace oldest bmp sha1 stamp.toNat
            waitingListBitmap := some bmp
            stamp })
      | some index =>
        (.added id oldest,
          { cache.setRange id added with
            waitingList := (cache.waitingList.remove sha1).resetElem index
            stamp })
    else (.added id oldest, { cache.setRange id added with stamp })

/-- `cache_bitmap`. -/
def cacheBitmap (cache : BmpCache δ) (oldbmp : Bitmap) :
    Except ErrorId (BitVec 32 × BmpCache δ) :=
  let bmp := pixels.convert config.bpp oldbmp
  match config.cacheFor bmp.bmpSize with
  | none => .error .bitmapCacheTooBig
  | some id =>
    let (placement, cache) := cache.place config pixels id bmp
    .ok (placement.encode, cache)

end BmpCache

/-- One of the ranges of a cache. -/
inductive RangeId where
  | cache (id : Fin 5)
  | waitingList
  deriving DecidableEq

namespace BmpCache

variable {δ : Type}

def range (cache : BmpCache δ) : RangeId → CacheRange δ
  | .cache id => cache.caches id
  | .waitingList => cache.waitingList

end BmpCache

/-! The sets of the ranges of a cache stand for the used elements, and the oldest element is the one
that was used least recently, as long as no bitmap is put twice and stamps grow. -/

variable {δ : Type}

namespace CacheRange

/-- The stamps tell which elements are used, and which were used before which. -/
structure Stamped (range : CacheRange δ) (lastUse : Nat → Nat) (clock : Nat) : Prop where
  inside : ∀ index, range.isValid index → index < range.size
  unused : ∀ index, ¬ range.isValid index → range.stampAt index = 0
  used : ∀ index, range.isValid index → 0 < range.stampAt index
  agree : ∀ first second, range.isValid first → range.isValid second →
    range.stampAt first ≤ range.stampAt second → lastUse first ≤ lastUse second
  past : ∀ index, lastUse index ≤ clock

/-- All stamps of the elements are before this one. -/
def Before (range : CacheRange δ) (stamp : Nat) : Prop :=
  ∀ index < range.size, range.stampAt index < stamp

namespace Stamped

variable {range range' : CacheRange δ} {lastUse : Nat → Nat} {clock index : Nat}

theorem fresh (size : Nat) (unset : δ) (clock : Nat) :
    Stamped (CacheRange.fresh size unset) (fun _ => 0) clock :=
  ⟨fun _ valid => (nomatch valid), fun _ _ => rfl, fun _ valid => (nomatch valid),
    fun _ _ valid => (nomatch valid), fun _ => Nat.zero_le _⟩

theorem later (stamped : Stamped range lastUse clock) : Stamped range lastUse (clock + 1) :=
  { stamped with past := fun index => Nat.le_succ_of_le (stamped.past index) }

theorem clear (stamped : Stamped range lastUse clock) : Stamped range.clear lastUse clock :=
  ⟨fun _ valid => (nomatch valid), fun _ _ => rfl, fun _ valid => (nomatch valid),
    fun _ _ valid => (nomatch valid), stamped.past⟩

theorem use (stamped : Stamped range lastUse clock) {element : CacheElement δ}
    (elem : range'.elem = Function.update range.elem index element)
    (size : range'.size = range.size) (within : index < range.size)
    (valid : element.bmp.isSome) (before : range.Before element.stamp) :
    Stamped range' (Function.update lastUse index clock) (clock + 1) := by
  have self : range'.elem index = element := by rw [elem, Function.update_self]
  have others {other : Nat} (different : other ≠ index) : range'.elem other = range.elem other := by
    rw [elem, Function.update_of_ne different]
  have validOther {other : Nat} (different : other ≠ index) :
      range'.isValid other = range.isValid other := by rw [isValid, others different, isValid]
  have stampOther {other : Nat} (different : other ≠ index) :
      range'.stampAt other = range.stampAt other := by rw [stampAt, others different, stampAt]
  have stampSelf : range'.stampAt index = element.stamp := by rw [stampAt, self]
  refine ⟨?_, ?_, ?_, ?_, ?_⟩
  · intro other valid'
    rw [size]
    by_cases same : other = index
    · rw [same]
      exact within
    · rw [validOther same] at valid'
      exact stamped.inside other valid'
  · intro other invalid
    by_cases same : other = index
    · rw [same, isValid, self] at invalid
      exact absurd valid invalid
    · rw [validOther same] at invalid
      rw [stampOther same]
      exact stamped.unused other invalid
  · intro other valid'
    by_cases same : other = index
    · rw [same, stampSelf]
      exact Nat.lt_of_le_of_lt (Nat.zero_le _) (before index within)
    · rw [validOther same] at valid'
      rw [stampOther same]
      exact stamped.used other valid'
  · intro first second valid1 valid2 le
    by_cases same2 : second = index
    · rw [same2, Function.update_self]
      by_cases same1 : first = index
      · rw [same1, Function.update_self]
      · rw [Function.update_of_ne same1]
        exact stamped.past first
    · rw [validOther same2] at valid2
      rw [stampOther same2] at le
      rw [Function.update_of_ne same2]
      by_cases same1 : first = index
      · rw [same1, stampSelf] at le
        exact absurd (before second (stamped.inside second valid2)) (Nat.not_lt.mpr le)
      · rw [validOther same1] at valid1
        rw [stampOther same1] at le
        rw [Function.update_of_ne same1]
        exact stamped.agree first second valid1 valid2 le
  · intro other
    by_cases same : other = index
    · rw [same, Function.update_self]
      exact Nat.le_succ clock
    · rw [Function.update_of_ne same]
      exact Nat.le_succ_of_le (stamped.past other)

theorem resetElem (stamped : Stamped range lastUse clock)
    (elem : range'.elem = Function.update range.elem index (range.elem index).reset)
    (size : range'.size = range.size) : Stamped range' lastUse clock := by
  have self : range'.elem index = (range.elem index).reset := by rw [elem, Function.update_self]
  have others {other : Nat} (different : other ≠ index) : range'.elem other = range.elem other := by
    rw [elem, Function.update_of_ne different]
  have valid_of {other : Nat} (valid : range'.isValid other) :
      other ≠ index ∧ range.isValid other := by
    have different : other ≠ index := by
      rintro rfl
      rw [isValid, self] at valid
      cases valid
    rw [isValid, others different] at valid
    exact ⟨different, valid⟩
  have stampOther {other : Nat} (different : other ≠ index) :
      range'.stampAt other = range.stampAt other := by rw [stampAt, others different, stampAt]
  refine ⟨?_, ?_, ?_, ?_, stamped.past⟩
  · intro other valid
    rw [size]
    exact stamped.inside other (valid_of valid).2
  · intro other invalid
    by_cases same : other = index
    · rw [same, stampAt, self]
      rfl
    · rw [isValid, others same] at invalid
      rw [stampOther same]
      exact stamped.unused other invalid
  · intro other valid
    obtain ⟨different, valid'⟩ := valid_of valid
    rw [stampOther different]
    exact stamped.used other valid'
  · intro first second valid1 valid2 le
    obtain ⟨different1, valid1'⟩ := valid_of valid1
    obtain ⟨different2, valid2'⟩ := valid_of valid2
    rw [stampOther different1, stampOther different2] at le
    exact stamped.agree first second valid1' valid2' le

end Stamped

variable [LinearOrder δ]

/-- The set has each used element once, in the order of the hashes of the bitmaps, bitmaps are found
through it, and `priv_get_old_index` gives an unused element, or the least recently used one. -/
structure Indexed (hash : Bitmap → δ) (range : CacheRange δ) (lastUse : Nat → Nat) : Prop where
  entry : ∀ index, index ∈ range.sorted ↔ index < range.size ∧ range.isValid index
  once : range.sorted.Nodup
  current : ∀ index ∈ range.sorted,
    ∃ bmp, (range.elem index).bmp = some bmp ∧ range.keyAt index = hash bmp
  ordered : range.sorted.Pairwise (fun first second => range.keyAt first < range.keyAt second)
  found : ∀ index < range.size, ∀ bmp, (range.elem index).bmp = some bmp →
    range.getCacheIndex (hash bmp) = some index
  oldIndex : ∀ entriesMax, 0 < entriesMax → entriesMax ≤ range.size →
    range.privGetOldIndex entriesMax < entriesMax ∧
      if ∃ index < entriesMax, ¬ range.isValid index then
        ¬ range.isValid (range.privGetOldIndex entriesMax)
      else ∀ index < entriesMax, lastUse (range.privGetOldIndex entriesMax) ≤ lastUse index

/-- What holds of a range as long as nothing goes wrong. -/
structure Consistent (hash : Bitmap → δ) (range : CacheRange δ) (lastUse : Nat → Nat)
    (clock : Nat) : Prop where
  sound : Sound hash range
  complete : Complete range
  stamped : Stamped range lastUse clock

variable {hash : Bitmap → δ} {range : CacheRange δ} {lastUse : Nat → Nat} {clock index : Nat}

theorem Consistent.indexed (consistent : Consistent hash range lastUse clock) :
    Indexed hash range lastUse := by
  obtain ⟨sound, complete, stamped⟩ := consistent
  refine ⟨?_, ?_, ?_, sound.ordered, ?_, ?_⟩
  · intro index
    exact ⟨fun member => ⟨sound.inside index member, sound.used index member⟩,
      fun both => complete index both.1 both.2⟩
  · exact sound.ordered.imp fun less same => absurd (same ▸ less) (lt_irrefl _)
  · intro index member
    obtain ⟨bmp, there⟩ := Option.isSome_iff_exists.mp (sound.used index member)
    exact ⟨bmp, there, sound.current index bmp there⟩
  · intro index inside bmp there
    exact complete.found sound inside there
  · intro entriesMax some within
    have le := @oldest_le range.stampAt (entriesMax - 1)
    have least (index : Nat) (inside : index < entriesMax) :
        range.stampAt (range.privGetOldIndex entriesMax) ≤ range.stampAt index :=
      stampAt_oldest (by omega)
    refine ⟨by rw [privGetOldIndex]; omega, ?_⟩
    split
    · rename_i free
      obtain ⟨index, inside, invalid⟩ := free
      intro valid
      have zero := stamped.unused index invalid
      have positive := stamped.used _ valid
      have le' := least index inside
      omega
    · rename_i full
      have allValid (index : Nat) (inside : index < entriesMax) : range.isValid index := by
        by_contra invalid
        exact full ⟨index, inside, invalid⟩
      intro index inside
      exact stamped.agree _ index (allValid _ (by rw [privGetOldIndex]; omega))
        (allValid index inside) (least index inside)

theorem Consistent.later (consistent : Consistent hash range lastUse clock) :
    Consistent hash range lastUse (clock + 1) :=
  { consistent with stamped := consistent.stamped.later }

theorem Consistent.clear (consistent : Consistent hash range lastUse clock) :
    Consistent hash range.clear lastUse (clock + 1) :=
  ⟨Sound.clear range, Complete.clear range, consistent.stamped.clear.later⟩

theorem Consistent.touch (consistent : Consistent hash range lastUse clock) {sha1 : δ} {stamp : Nat}
    (found : range.getCacheIndex sha1 = some index) (before : range.Before stamp) :
    Consistent hash (range.touch index stamp) (Function.update lastUse index clock)
      (clock + 1) := by
  obtain ⟨inside, bmp, there, _⟩ := consistent.sound.found found
  refine ⟨consistent.sound.touch, consistent.complete.touch, ?_⟩
  exact consistent.stamped.use rfl rfl inside (Option.isSome_iff_exists.mpr ⟨bmp, there⟩) before

theorem Consistent.replace (consistent : Consistent hash range lastUse clock) {bmp : Bitmap}
    {stamp : Nat} (inside : index < range.size)
    (fresh : ∀ other < range.size, other ≠ index → range.isValid other →
      range.keyAt other ≠ hash bmp)
    (before : range.Before stamp) :
    Consistent hash (range.replace index bmp (hash bmp) stamp)
      (Function.update lastUse index clock) (clock + 1) :=
  ⟨consistent.sound.replace inside rfl, consistent.complete.replace consistent.sound inside fresh,
    consistent.stamped.use elem_replace size_replace inside rfl before⟩

theorem Consistent.removeElem (consistent : Consistent hash range lastUse clock) {sha1 : δ}
    (found : range.getCacheIndex sha1 = some index) :
    Consistent hash ((range.remove sha1).resetElem index) lastUse (clock + 1) := by
  have stamped : Stamped ((range.remove sha1).resetElem index) lastUse clock :=
    consistent.stamped.resetElem rfl rfl
  exact ⟨consistent.sound.removeElem found, consistent.complete.removeElem consistent.sound found,
    stamped.later⟩

theorem Consistent.not_found (consistent : Consistent hash range lastUse clock) {sha1 : δ}
    (missing : range.getCacheIndex sha1 = none) :
    ∀ other < range.size, range.isValid other → range.keyAt other ≠ sha1 :=
  fun other inside valid =>
    KeyedIndex.find_none consistent.sound.ordered missing other
      (consistent.complete other inside valid)

end CacheRange

end Redemption.Caches
