import Redemption.Caches.CacheRun

/-! The bitmap cache with the signatures of its elements. -/
namespace Redemption.Caches

open Redemption.Foundation

/-- The first eight bytes of a hash. -/
abbrev Signature := BitVec 64

/-- A bitmap whose memory is as large as it says. -/
structure Genuine (bmp : Bitmap) : Prop where
  width : bmp.cx < 2 ^ 16
  height : bmp.cy < 2 ^ 16
  data : bmp.data.length = bmp.bmpSize
  palette : bmp.palette.length = if bmp.bpp = .bpp8 then 1024 else 0

/-- What is done with pixels, and the part of a hash that is a signature. -/
structure Digest (δ : Type) extends Pixels δ where
  signature : δ → Signature
  converted : ∀ outBpp bmp,
    (bpp2bpp outBpp bmp).length = align4 bmp.cx * nbBytesPerPixel outBpp * bmp.cy
  entries332 : classic332.length = 1024

/-- `BmpCache` with the `sig` of its elements. -/
structure SignedCache (δ : Type) where
  cache : BmpCache δ
  sig : Fin 5 → Nat → Signature

inductive SignedOperation where
  | put (id : Fin 5) (idx : BitVec 16) (bmp : Bitmap) (key : Signature) (genuine : Genuine bmp)
  | cacheBitmap (oldbmp : Bitmap) (genuine : Genuine oldbmp)
  | setCached (id : Fin 5) (idx : BitVec 16) (cached : Bool)
  | reset

namespace SignedCache

variable {δ : Type}

/-- A cache that was constructed; `unsigned` is what the memory for the signatures had. -/
def fresh (config : Config) (unset : δ) (unsigned : Signature) : SignedCache δ :=
  ⟨.fresh config unset, fun _ _ => unsigned⟩

def setSig (state : SignedCache δ) (id : Fin 5) (index : Nat) (key : Signature) : SignedCache δ :=
  { state with
    sig := Function.update state.sig id (Function.update (state.sig id) index key) }

/-- The signature and the bitmap of an element. -/
def slot (state : SignedCache δ) (id : Fin 5) (index : Nat) : Option (Signature × Bitmap) :=
  (((state.cache.caches id).elem index).bmp).map fun bmp => (state.sig id index, bmp)

def size (state : SignedCache δ) (id : Fin 5) : Nat := (state.cache.caches id).size

variable [LinearOrder δ] (config : Config) (digest : Digest δ) (state : SignedCache δ)

/-- `put`: the key is kept for a persistent cache. -/
def put (id : Fin 5) (idx : BitVec 16) (bmp : Bitmap) (key : Signature) : SignedCache δ :=
  let signed :=
    if (config.options id).isPersistent then
      state.setSig id (BmpCache.position (state.cache.caches id) idx) key
    else state
  { signed with cache := state.cache.put digest.toPixels id idx bmp }

/-- `cache_bitmap`: a bitmap that is added is signed with its hash. -/
def cacheBitmap (oldbmp : Bitmap) : SignedCache δ :=
  let bmp := digest.convert config.bpp oldbmp
  match config.cacheFor bmp.bmpSize with
  | none => state
  | some id =>
    match state.cache.place config digest.toPixels id bmp with
    | (.added id index, cache) =>
      { state.setSig id index (digest.signature (digest.sha1 bmp)) with cache }
    | (_, cache) => { state with cache }

def perform : SignedOperation → SignedCache δ
  | .put id idx bmp key _ => state.put config digest id idx bmp key
  | .cacheBitmap oldbmp _ => state.cacheBitmap config digest oldbmp
  | .setCached id idx cached => { state with cache := state.cache.setCached id idx cached }
  | .reset => { state with cache := state.cache.reset }

end SignedCache

section Machine

variable {δ : Type} [LinearOrder δ] (config : Config) (digest : Digest δ)

def signedMachine : Machine (SignedCache δ) SignedOperation Unit :=
  ⟨fun state operation => (state.perform config digest operation, ())⟩

end Machine

section Slots

variable {δ : Type} {state : SignedCache δ} {config : Config}

variable [LinearOrder δ] {digest : Digest δ}

theorem slot_replace {id : Fin 5} {index : Nat} {bmp : Bitmap} {sha1 : δ} {stamp : Nat}
    {key : Signature} {cache : BmpCache δ}
    (caches : cache.caches = Function.update state.cache.caches id
      ((state.cache.caches id).replace index bmp sha1 stamp)) (other : Fin 5) :
    ({ state.setSig id index key with cache } : SignedCache δ).slot other =
      if other = id then Function.update (state.slot id) index (some (key, bmp))
      else state.slot other := by
  funext place
  by_cases same : other = id
  · subst same
    rw [if_pos rfl]
    simp only [SignedCache.slot, SignedCache.setSig, caches, Function.update_self,
      CacheRange.elem_replace]
    by_cases here : place = index
    · subst here
      simp
    · simp only [Function.update_of_ne here]
      rfl
  · rw [if_neg same]
    simp only [SignedCache.slot, SignedCache.setSig, caches, Function.update_of_ne same]

/-- What `put` does to the elements of a persistent cache. -/
theorem slot_put {id : Fin 5} (persistent : (config.options id).isPersistent = true)
    (idx : BitVec 16) (bmp : Bitmap) (key : Signature) (other : Fin 5) :
    (state.put config digest id idx bmp key).slot other =
      if other = id then
        Function.update (state.slot id) (BmpCache.position (state.cache.caches id) idx)
          (some (key, bmp))
      else state.slot other := by
  rw [SignedCache.put, if_pos persistent]
  exact slot_replace rfl other

/-- A cache that is not persistent does not matter for the others. -/
theorem slot_put_other {id other : Fin 5} (different : other ≠ id) (idx : BitVec 16)
    (bmp : Bitmap) (key : Signature) :
    (state.put config digest id idx bmp key).slot other = state.slot other := by
  funext place
  have caches : (state.put config digest id idx bmp key).cache.caches other =
      state.cache.caches other := Function.update_of_ne different ..
  have sig : (state.put config digest id idx bmp key).sig other = state.sig other := by
    rw [SignedCache.put]
    split
    · exact Function.update_of_ne different ..
    · rfl
  rw [SignedCache.slot, caches, sig, SignedCache.slot]

theorem size_put (id : Fin 5) (idx : BitVec 16) (bmp : Bitmap) (key : Signature) (other : Fin 5) :
    (state.put config digest id idx bmp key).size other = state.size other := by
  have caches : (state.put config digest id idx bmp key).cache.caches =
      Function.update state.cache.caches id ((state.cache.caches id).replace
        (BmpCache.position (state.cache.caches id) idx) bmp (digest.sha1 bmp)
        (state.cache.stamp + 1).toNat) := rfl
  rw [SignedCache.size, caches, SignedCache.size]
  by_cases same : other = id
  · subst same
    rw [Function.update_self, CacheRange.size_replace]
  · rw [Function.update_of_ne same]

/-- What `cache_bitmap` does: nothing to the elements, or one of them gets the bitmap with the
signature of its hash. -/
theorem slot_cacheBitmap (oldbmp : Bitmap) :
    ((∀ other, (state.cacheBitmap config digest oldbmp).slot other = state.slot other) ∧
      ∀ other, (state.cacheBitmap config digest oldbmp).size other = state.size other) ∨
    ∃ id, config.cacheFor (digest.convert config.bpp oldbmp).bmpSize = some id ∧
      (state.cache.caches id).getCacheIndex (digest.sha1 (digest.convert config.bpp oldbmp)) = none ∧
      (∀ other, (state.cacheBitmap config digest oldbmp).slot other =
        if other = id then
          Function.update (state.slot id)
            ((state.cache.caches id).getOldIndex config.useWaitingList)
            (some (digest.signature (digest.sha1 (digest.convert config.bpp oldbmp)),
              digest.convert config.bpp oldbmp))
        else state.slot other) ∧
      ∀ other, (state.cacheBitmap config digest oldbmp).size other = state.size other := by
  rw [SignedCache.cacheBitmap]
  cases which : config.cacheFor (digest.convert config.bpp oldbmp).bmpSize with
  | none => exact .inl ⟨fun _ => rfl, fun _ => rfl⟩
  | some id =>
    dsimp only
    rcases @place_cases _ _ config digest.toPixels state.cache id
        (digest.convert config.bpp oldbmp) with
      ⟨index, found, _, placed⟩ | ⟨_, _, _, _, _, placed⟩ | ⟨missing, _, waiting, _, placed⟩
    · left
      rw [placed]
      constructor
      · intro other
        funext place
        by_cases same : other = id
        · subst same
          simp only [SignedCache.slot, BmpCache.setRange, Function.update_self]
          by_cases here : place = index
          · subst here
            rw [CacheRange.touch, CacheRange.elem_setElem_self]
          · rw [CacheRange.touch, CacheRange.elem_setElem_other _ here]
        · simp only [SignedCache.slot, BmpCache.setRange, Function.update_of_ne same]
      · intro other
        by_cases same : other = id
        · subst same
          simp only [SignedCache.size, BmpCache.setRange, Function.update_self]
          rfl
        · simp only [SignedCache.size, BmpCache.setRange, Function.update_of_ne same]
    · left
      rw [placed]
      exact ⟨fun _ => rfl, fun _ => rfl⟩
    · right
      rw [placed]
      refine ⟨id, rfl, missing, fun other => slot_replace rfl other, fun other => ?_⟩
      by_cases same : other = id
      · subst same
        simp only [SignedCache.size, BmpCache.setRange, Function.update_self,
          CacheRange.size_replace]
      · simp only [SignedCache.size, BmpCache.setRange, Function.update_of_ne same]

end Slots

end Redemption.Caches
