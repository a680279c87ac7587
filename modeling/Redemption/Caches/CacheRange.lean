import Mathlib.Logic.Function.Basic
import Redemption.Foundation.ByteStream
import Redemption.Foundation.KeyedIndex

/-! The slots of a bitmap cache, with the set that orders the used ones by their hashes. -/
namespace Redemption.Caches

open Redemption.Foundation

inductive BitsPerPixel where
  | bpp8
  | bpp15
  | bpp16
  | bpp24
  | bpp32
  deriving DecidableEq, Repr

def nbBytesPerPixel : BitsPerPixel → Nat
  | .bpp8 => 1
  | .bpp15 => 2
  | .bpp16 => 2
  | .bpp24 => 3
  | .bpp32 => 4

/-- A valid `Bitmap`: `palette` is empty unless there are 8 bits per pixel. -/
structure Bitmap where
  bpp : BitsPerPixel
  cx : Nat
  cy : Nat
  data : List Byte
  palette : List Byte
  deriving DecidableEq, Repr

/-- `bmp_size`. -/
def Bitmap.bmpSize (bmp : Bitmap) : Nat := bmp.cx * nbBytesPerPixel bmp.bpp * bmp.cy

/-- What is done with pixels: `compute_sha1`, the conversion of the pixels of a bitmap to another
depth, and the palette that a bitmap gets with a conversion to 8 bits per pixel. -/
structure Pixels (δ : Type) where
  sha1 : Bitmap → δ
  bpp2bpp : BitsPerPixel → Bitmap → List Byte
  classic332 : List Byte

/-- `align4`. -/
def align4 (width : Nat) : Nat := (width + 3) / 4 * 4

/-- `Bitmap(out_bpp, bmp)`. -/
def Pixels.convert {δ : Type} (pixels : Pixels δ) (outBpp : BitsPerPixel) (bmp : Bitmap) : Bitmap :=
  if outBpp ≠ bmp.bpp then
    { bpp := outBpp
      cx := align4 bmp.cx
      cy := bmp.cy
      data := pixels.bpp2bpp outBpp bmp
      palette := if outBpp = .bpp8 then pixels.classic332 else [] }
  else bmp

/-- `cache_element` and `cache_lite_element`: an element that is valid has a bitmap. -/
structure CacheElement (δ : Type) where
  bmp : Option Bitmap
  stamp : Nat
  sha1 : δ
  cached : Bool

/-- `reset`. -/
def CacheElement.reset {δ : Type} (element : CacheElement δ) : CacheElement δ :=
  { element with bmp := none, stamp := 0, cached := false }

/-- `cache_range`: what is from `first` to `last`, and `sorted_elements` as positions. -/
structure CacheRange (δ : Type) where
  size : Nat
  elem : Nat → CacheElement δ
  sorted : List Nat

/-- The position of the first of the least stamps of the elements up to `last`. -/
def oldest (stampAt : Nat → Nat) : Nat → Nat
  | 0 => 0
  | last + 1 =>
    let current := oldest stampAt last
    if stampAt (last + 1) < stampAt current then last + 1 else current

namespace CacheRange

variable {δ : Type} (range : CacheRange δ)

/-- A range whose elements were constructed; `unset` is what the memory for the hashes had. -/
def fresh (size : Nat) (unset : δ) : CacheRange δ := ⟨size, fun _ => ⟨none, 0, unset, false⟩, []⟩

def keyAt (index : Nat) : δ := (range.elem index).sha1

def stampAt (index : Nat) : Nat := (range.elem index).stamp

def isValid (index : Nat) : Bool := (range.elem index).bmp.isSome

def clear : CacheRange δ :=
  { range with elem := fun index => (range.elem index).reset, sorted := [] }

/-- `priv_get_old_index`. -/
def privGetOldIndex (entriesMax : Nat) : Nat := oldest range.stampAt (entriesMax - 1)

/-- `get_old_index`: the last element is left out if there is a waiting list. -/
def getOldIndex (useWaitingList : Bool) : Nat :=
  range.privGetOldIndex (if useWaitingList then range.size - 1 else range.size)

def setElem (index : Nat) (element : CacheElement δ) : CacheRange δ :=
  { range with elem := Function.update range.elem index element }

/-- A new stamp for an element that is used again. -/
def touch (index stamp : Nat) : CacheRange δ :=
  range.setElem index { range.elem index with stamp }

/-- `reset` of an element. -/
def resetElem (index : Nat) : CacheRange δ := range.setElem index (range.elem index).reset

variable [LinearOrder δ]

/-- `get_cache_index`. -/
def getCacheIndex (sha1 : δ) : Option Nat := KeyedIndex.find range.keyAt sha1 range.sorted

def remove (sha1 : δ) : CacheRange δ :=
  { range with sorted := KeyedIndex.erase range.keyAt sha1 range.sorted }

def add (index : Nat) : CacheRange δ :=
  { range with sorted := KeyedIndex.insert range.keyAt index range.sorted }

/-- Put a bitmap where another one may have been. -/
def replace (index : Nat) (bmp : Bitmap) (sha1 : δ) (stamp : Nat) : CacheRange δ :=
  let removed := if range.isValid index then range.remove (range.keyAt index) else range
  (removed.setElem index ⟨some bmp, stamp, sha1, true⟩).add index

end CacheRange

section Oldest

variable {stampAt : Nat → Nat}

theorem oldest_le (last : Nat) : oldest stampAt last ≤ last := by
  induction last with
  | zero => exact Nat.le_refl 0
  | succ last ih =>
    rw [oldest]
    split <;> omega

theorem stampAt_oldest {last index : Nat} (inside : index ≤ last) :
    stampAt (oldest stampAt last) ≤ stampAt index := by
  induction last with
  | zero =>
    rw [Nat.le_zero.mp inside]
    exact Nat.le_refl _
  | succ last ih =>
    rw [oldest]
    rcases Nat.lt_or_eq_of_le inside with before | rfl
    · split <;> omega
    · split <;> omega

theorem oldest_eq {last index : Nat} (inside : index ≤ last) (zero : stampAt index = 0)
    (before : ∀ other < index, 0 < stampAt other) : oldest stampAt last = index := by
  induction last with
  | zero => exact (Nat.le_zero.mp inside).symm
  | succ last ih =>
    rw [oldest]
    rcases Nat.lt_or_eq_of_le inside with earlier | rfl
    · rw [ih (Nat.le_of_lt_succ earlier), zero]
      exact if_neg (Nat.not_lt_zero _)
    · have le := @oldest_le stampAt last
      rw [zero]
      exact if_pos (before _ (Nat.lt_succ_of_le le))

end Oldest

namespace CacheRange

variable {δ : Type} {range : CacheRange δ} {index other : Nat}

@[simp] theorem elem_setElem_self (element : CacheElement δ) :
    (range.setElem index element).elem index = element := Function.update_self ..

theorem elem_setElem_other (element : CacheElement δ) (different : other ≠ index) :
    (range.setElem index element).elem other = range.elem other :=
  Function.update_of_ne different ..

@[simp] theorem keyAt_setElem_self (element : CacheElement δ) :
    (range.setElem index element).keyAt index = element.sha1 := by
  rw [keyAt, elem_setElem_self]

theorem keyAt_setElem_other (element : CacheElement δ) (different : other ≠ index) :
    (range.setElem index element).keyAt other = range.keyAt other := by
  rw [keyAt, elem_setElem_other element different, keyAt]

@[simp] theorem size_setElem (element : CacheElement δ) :
    (range.setElem index element).size = range.size := rfl

theorem getOldIndex_lt (useWaitingList : Bool) (some : 0 < range.size) :
    range.getOldIndex useWaitingList < range.size := by
  have le := @oldest_le range.stampAt ((if useWaitingList then range.size - 1 else range.size) - 1)
  rw [getOldIndex, privGetOldIndex]
  cases useWaitingList <;> simp only [Bool.false_eq_true, if_true, if_false] at le ⊢ <;> omega

variable [LinearOrder δ] {bmp : Bitmap} {sha1 : δ} {stamp : Nat}

@[simp] theorem size_replace : (range.replace index bmp sha1 stamp).size = range.size := by
  unfold replace
  split <;> rfl

theorem elem_replace : (range.replace index bmp sha1 stamp).elem =
    Function.update range.elem index ⟨some bmp, stamp, sha1, true⟩ := by
  unfold replace
  split <;> rfl

theorem elem_replace_self :
    (range.replace index bmp sha1 stamp).elem index = ⟨some bmp, stamp, sha1, true⟩ := by
  rw [elem_replace, Function.update_self]

theorem elem_replace_other (different : other ≠ index) :
    (range.replace index bmp sha1 stamp).elem other = range.elem other := by
  rw [elem_replace, Function.update_of_ne different]

/-- Every position in the set is one of a used element whose hash is that of its bitmap, and the
hashes ascend. -/
structure Sound (hash : Bitmap → δ) (range : CacheRange δ) : Prop where
  ordered : KeyedIndex.Ordered range.keyAt range.sorted
  inside : ∀ index ∈ range.sorted, index < range.size
  current : ∀ index bmp, (range.elem index).bmp = some bmp → range.keyAt index = hash bmp
  used : ∀ index ∈ range.sorted, range.isValid index

/-- Every used element is in the set. -/
def Complete (range : CacheRange δ) : Prop :=
  ∀ index, index < range.size → range.isValid index → index ∈ range.sorted

namespace Sound

variable {hash : Bitmap → δ}

theorem fresh (size : Nat) (unset : δ) : Sound hash (CacheRange.fresh size unset) :=
  ⟨List.Pairwise.nil, fun _ member => (nomatch member), fun _ _ some => (nomatch some),
    fun _ member => (nomatch member)⟩

theorem clear (range : CacheRange δ) : Sound hash range.clear :=
  ⟨List.Pairwise.nil, fun _ member => (nomatch member), fun _ _ some => (nomatch some),
    fun _ member => (nomatch member)⟩

theorem found (sound : Sound hash range) (some : range.getCacheIndex sha1 = some index) :
    index < range.size ∧ ∃ bmp, (range.elem index).bmp = .some bmp ∧ hash bmp = sha1 := by
  obtain ⟨member, same⟩ := KeyedIndex.find_some some
  obtain ⟨bmp, there⟩ := Option.isSome_iff_exists.mp (sound.used index member)
  exact ⟨sound.inside index member, bmp, there, (sound.current index bmp there).symm.trans same⟩

theorem setElem_same (sound : Sound hash range) {element : CacheElement δ}
    (bmp : element.bmp = (range.elem index).bmp) (key : element.sha1 = range.keyAt index) :
    Sound hash (range.setElem index element) := by
  have bmps (other : Nat) :
      ((range.setElem index element).elem other).bmp = (range.elem other).bmp := by
    by_cases same : other = index
    · rw [same, elem_setElem_self, bmp]
    · rw [elem_setElem_other element same]
  have keys (other : Nat) : (range.setElem index element).keyAt other = range.keyAt other := by
    by_cases same : other = index
    · rw [same, keyAt_setElem_self, key]
    · exact keyAt_setElem_other element same
  refine ⟨sound.ordered.congr fun other _ => keys other, sound.inside, ?_, ?_⟩
  · intro other bmp' there
    rw [keys]
    exact sound.current other bmp' ((bmps other).symm.trans there)
  · intro other member
    rw [isValid, bmps]
    exact sound.used other member

theorem touch (sound : Sound hash range) : Sound hash (range.touch index stamp) :=
  sound.setElem_same rfl rfl

theorem remove (sound : Sound hash range) : Sound hash (range.remove sha1) :=
  ⟨sound.ordered.erase,
    fun other member => sound.inside other (KeyedIndex.erase_sublist.subset member), sound.current,
    fun other member => sound.used other (KeyedIndex.erase_sublist.subset member)⟩

theorem setElem (sound : Sound hash range) {element : CacheElement δ}
    (out : index ∉ range.sorted) (key : ∀ bmp, element.bmp = some bmp → element.sha1 = hash bmp) :
    Sound hash (range.setElem index element) := by
  have other_of_mem {other : Nat} (member : other ∈ range.sorted) : other ≠ index := by
    rintro rfl
    exact out member
  refine ⟨sound.ordered.congr fun other member => ?_, sound.inside, ?_, ?_⟩
  · exact keyAt_setElem_other element (other_of_mem member)
  · intro other bmp there
    by_cases same : other = index
    · rw [same, elem_setElem_self] at there
      rw [same, keyAt_setElem_self]
      exact key bmp there
    · rw [elem_setElem_other element same] at there
      rw [keyAt_setElem_other element same]
      exact sound.current other bmp there
  · intro other member
    rw [isValid, elem_setElem_other element (other_of_mem member)]
    exact sound.used other member

theorem removeElem (sound : Sound hash range) (found : range.getCacheIndex sha1 = some index) :
    Sound hash ((range.remove sha1).resetElem index) := by
  refine sound.remove.setElem (fun member => ?_) fun _ some => (nomatch some)
  obtain ⟨_, same⟩ := KeyedIndex.find_some found
  exact ((KeyedIndex.mem_erase sound.ordered).mp member).2 same

theorem add (sound : Sound hash range) (inside : index < range.size)
    (valid : range.isValid index) : Sound hash (range.add index) := by
  refine ⟨sound.ordered.insert, ?_, sound.current, ?_⟩
  · intro other member
    rcases KeyedIndex.mem_or_eq_of_mem_insert member with old | rfl
    · exact sound.inside other old
    · exact inside
  · intro other member
    rcases KeyedIndex.mem_or_eq_of_mem_insert member with old | rfl
    · exact sound.used other old
    · exact valid

theorem not_mem_removed (sound : Sound hash range) :
    index ∉ (if range.isValid index then range.remove (range.keyAt index) else range).sorted := by
  by_cases valid : range.isValid index
  · rw [if_pos valid]
    intro member
    exact ((KeyedIndex.mem_erase sound.ordered).mp member).2 rfl
  · rw [if_neg valid]
    exact fun member => valid (sound.used index member)

theorem removed (sound : Sound hash range) :
    Sound hash (if range.isValid index then range.remove (range.keyAt index) else range) := by
  split
  · exact sound.remove
  · exact sound

theorem replace (sound : Sound hash range) (inside : index < range.size) (key : sha1 = hash bmp) :
    Sound hash (range.replace index bmp sha1 stamp) := by
  refine (sound.removed.setElem sound.not_mem_removed ?_).add ?_ ?_
  · intro bmp' there
    rw [← Option.some.inj there]
    exact key
  · split
    · exact inside
    · exact inside
  · rw [isValid, elem_setElem_self]
    rfl

end Sound

namespace Complete

variable {hash : Bitmap → δ}

omit [LinearOrder δ] in
theorem fresh (size : Nat) (unset : δ) : Complete (CacheRange.fresh size unset) :=
  fun _ _ valid => nomatch valid

omit [LinearOrder δ] in
theorem clear (range : CacheRange δ) : Complete range.clear := fun _ _ valid => nomatch valid

theorem found (complete : Complete range) (sound : Sound hash range) (inside : index < range.size)
    (there : (range.elem index).bmp = some bmp) :
    range.getCacheIndex (hash bmp) = some index := by
  rw [← sound.current index bmp there]
  exact KeyedIndex.find_eq sound.ordered
    (complete index inside (Option.isSome_iff_exists.mpr ⟨bmp, there⟩))

omit [LinearOrder δ] in
theorem touch (complete : Complete range) : Complete (range.touch index stamp) := by
  intro other inside valid
  refine complete other inside ?_
  by_cases same : other = index
  · rw [isValid, same, CacheRange.touch, elem_setElem_self] at valid
    rw [same]
    exact valid
  · rw [isValid, CacheRange.touch, elem_setElem_other _ same] at valid
    exact valid

theorem removeElem (complete : Complete range) (sound : Sound hash range)
    (found : range.getCacheIndex sha1 = some index) :
    Complete ((range.remove sha1).resetElem index) := by
  intro other inside valid
  have different : other ≠ index := by
    rintro rfl
    rw [isValid, resetElem, elem_setElem_self] at valid
    exact nomatch valid
  rw [isValid, resetElem, elem_setElem_other _ different] at valid
  have member := complete other inside valid
  refine (KeyedIndex.mem_erase sound.ordered).mpr ⟨member, fun same => different ?_⟩
  have again := KeyedIndex.find_eq sound.ordered member
  rw [same] at again
  exact Option.some.inj (again.symm.trans found)

/-- The set stays complete if no other element has the hash that comes in. -/
theorem replace (complete : Complete range) (sound : Sound hash range) (inside : index < range.size)
    (fresh : ∀ other < range.size, other ≠ index → range.isValid other →
      range.keyAt other ≠ sha1) :
    Complete (range.replace index bmp sha1 stamp) := by
  intro other inside' valid
  rw [size_replace] at inside'
  by_cases same : other = index
  · rw [same]
    refine KeyedIndex.mem_insert_self fun position member => ?_
    have different : position ≠ index := by
      rintro rfl
      exact sound.not_mem_removed member
    have member' : position ∈ range.sorted := by
      split at member
      · exact KeyedIndex.erase_sublist.subset member
      · exact member
    have key := fresh position (sound.inside position member') different
      (sound.used position member')
    rw [keyAt_setElem_self, keyAt_setElem_other _ different]
    split
    · exact key
    · exact key
  · have valid' : range.isValid other := by
      rw [isValid, elem_replace_other same] at valid
      exact valid
    have member := complete other inside' valid'
    refine KeyedIndex.mem_insert_of_mem ?_
    split
    · rename_i replaced
      refine (KeyedIndex.mem_erase sound.ordered).mpr ⟨member, fun equal => same ?_⟩
      have again := KeyedIndex.find_eq sound.ordered member
      rw [equal, KeyedIndex.find_eq sound.ordered (complete index inside replaced)] at again
      exact (Option.some.inj again).symm
    · exact member

end Complete

end CacheRange

end Redemption.Caches
