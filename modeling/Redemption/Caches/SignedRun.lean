import Redemption.Caches.BmpCachePersister

/-! What operations add to persistent caches, and what stays true of these. -/
namespace Redemption.Caches

open Redemption.Foundation

section Added

variable {δ : Type} [LinearOrder δ] (config : Config) (digest : Digest δ)

/-- What an operation adds to an element of a persistent cache. -/
inductive Added (state : SignedCache δ) :
    SignedOperation → Fin 5 → Nat → Signature × Bitmap → Prop where
  | put {id : Fin 5} {idx : BitVec 16} {bmp : Bitmap} {key : Signature} {genuine : Genuine bmp}
      (persistent : (config.options id).isPersistent = true) :
      Added state (.put id idx bmp key genuine) id
        (BmpCache.position (state.cache.caches id) idx) (key, bmp)
  | cacheBitmap {id : Fin 5} {oldbmp : Bitmap} {genuine : Genuine oldbmp}
      (which : config.cacheFor (digest.convert config.bpp oldbmp).bmpSize = some id)
      (persistent : (config.options id).isPersistent = true)
      (missing : (state.cache.caches id).getCacheIndex
        (digest.sha1 (digest.convert config.bpp oldbmp)) = none) :
      Added state (.cacheBitmap oldbmp genuine) id
        ((state.cache.caches id).getOldIndex config.useWaitingList)
        (digest.signature (digest.sha1 (digest.convert config.bpp oldbmp)),
          digest.convert config.bpp oldbmp)

/-- A bitmap that is added has no padding, and its size fits in two bytes. -/
def Sized (state : SignedCache δ) (operation : SignedOperation) : Prop :=
  ∀ id index entry, Added config digest state operation id index entry →
    entry.2.cx % 4 = 0 ∧ entry.2.cx < 2 ^ 16 ∧ entry.2.bmpSize < 2 ^ 16

/-- A bitmap that is added has the signature of its hash, and no other element has it. -/
def Keyed (state : SignedCache δ) (operation : SignedOperation) : Prop :=
  ∀ id index entry, Added config digest state operation id index entry →
    entry.1 = digest.signature (digest.sha1 entry.2) ∧
    ∀ other < state.size id, other ≠ index →
      ∀ held, state.slot id other = some held → held.1 ≠ entry.1

variable {config digest} {state : SignedCache δ}

/-- An operation leaves the elements of the persistent caches, clears all or adds to one. -/
theorem perform_cases (operation : SignedOperation) :
    (∀ other, (state.perform config digest operation).size other = state.size other) ∧
    ((∀ other, (config.options other).isPersistent = true →
        (state.perform config digest operation).slot other = state.slot other) ∨
      (∀ other index, (state.perform config digest operation).slot other index = none) ∨
      ∃ id index entry, Added config digest state operation id index entry ∧
        ∀ other, (config.options other).isPersistent = true →
          (state.perform config digest operation).slot other =
            if other = id then Function.update (state.slot id) index (some entry)
            else state.slot other) := by
  cases operation with
  | put id idx bmp key genuine =>
    refine ⟨size_put id idx bmp key, ?_⟩
    by_cases persistent : (config.options id).isPersistent = true
    · exact .inr (.inr ⟨id, _, (key, bmp), .put persistent,
        fun other _ => slot_put persistent idx bmp key other⟩)
    · left
      intro other otherPersistent
      apply slot_put_other
      rintro rfl
      exact persistent otherPersistent
  | cacheBitmap oldbmp genuine =>
    rcases @slot_cacheBitmap _ state config _ digest oldbmp with
      ⟨slots, sizes⟩ | ⟨id, which, missing, slots, sizes⟩
    · exact ⟨sizes, .inl fun other _ => slots other⟩
    · refine ⟨sizes, ?_⟩
      by_cases persistent : (config.options id).isPersistent = true
      · exact .inr (.inr ⟨id, _, _, .cacheBitmap which persistent missing,
          fun other _ => slots other⟩)
      · left
        intro other otherPersistent
        have different : other ≠ id := by
          rintro rfl
          exact persistent otherPersistent
        rw [SignedCache.perform, slots other, if_neg different]
  | setCached id idx cached =>
    refine ⟨?_, .inl ?_⟩
    · intro other
      by_cases same : other = id
      · subst same
        simp only [SignedCache.perform, SignedCache.size, BmpCache.setCached, BmpCache.setRange,
          Function.update_self, CacheRange.size_setElem]
      · simp only [SignedCache.perform, SignedCache.size, BmpCache.setCached, BmpCache.setRange,
          Function.update_of_ne same]
    · intro other _
      funext place
      by_cases same : other = id
      · subst same
        simp only [SignedCache.perform, SignedCache.slot, BmpCache.setCached, BmpCache.setRange,
          Function.update_self]
        by_cases here : place = idx.toNat
        · rw [here, CacheRange.elem_setElem_self]
        · rw [CacheRange.elem_setElem_other _ here]
      · simp only [SignedCache.perform, SignedCache.slot, BmpCache.setCached, BmpCache.setRange,
          Function.update_of_ne same]
  | reset => exact ⟨fun _ => rfl, .inr (.inl fun _ _ => rfl)⟩

omit [LinearOrder δ] in
theorem convert_genuine {outBpp : BitsPerPixel} {bmp : Bitmap} (genuine : Genuine bmp)
    (width : (digest.convert outBpp bmp).cx < 2 ^ 16) : Genuine (digest.convert outBpp bmp) := by
  rw [Pixels.convert] at width ⊢
  by_cases different : outBpp ≠ bmp.bpp
  · rw [if_pos different] at width ⊢
    refine ⟨width, genuine.height, digest.converted outBpp bmp, ?_⟩
    by_cases eight : outBpp = .bpp8
    · rw [if_pos eight, if_pos eight, digest.entries332]
    · rw [if_neg eight, if_neg eight]
      rfl
  · rw [if_neg different]
    exact genuine

omit [LinearOrder δ] in
theorem convert_palette {outBpp : BitsPerPixel} {bmp : Bitmap} (genuine : Genuine bmp) :
    PaletteSized (digest.convert outBpp bmp) := by
  rw [Pixels.convert]
  by_cases different : outBpp ≠ bmp.bpp
  · rw [if_pos different, PaletteSized]
    by_cases eight : outBpp = .bpp8
    · rw [if_pos eight, if_pos eight, digest.entries332]
      rfl
    · rw [if_neg eight, if_neg eight]
      rfl
  · rw [if_neg different]
    exact genuine.palette

variable {operation : SignedOperation} {id : Fin 5} {index : Nat} {entry : Signature × Bitmap}

theorem Added.palette (added : Added config digest state operation id index entry) :
    PaletteSized entry.2 := by
  cases added with
  | @put _ _ _ _ genuine _ => exact genuine.palette
  | @cacheBitmap _ _ genuine _ _ _ => exact convert_palette genuine

theorem Added.storable (added : Added config digest state operation id index entry)
    (sized : Sized config digest state operation) : Storable entry.2 := by
  obtain ⟨aligned, width, small⟩ := sized id index entry added
  cases added with
  | @put _ _ _ _ genuine _ => exact ⟨genuine, aligned, small⟩
  | @cacheBitmap _ _ genuine _ _ _ => exact ⟨convert_genuine genuine width, aligned, small⟩

end Added

section Invariants

variable {δ : Type} (config : Config) (digest : Digest δ)

/-- All the bitmaps in persistent caches are of some kind. -/
def SignedCache.All (kind : Bitmap → Prop) (state : SignedCache δ) : Prop :=
  ∀ id, (config.options id).isPersistent = true →
    ∀ index entry, state.slot id index = some entry → kind entry.2

/-- The bitmaps in persistent caches have the signatures of their hashes, and the elements of a
cache different ones. -/
structure SignedCache.Signed (state : SignedCache δ) : Prop where
  current : ∀ id, (config.options id).isPersistent = true →
    ∀ index entry, state.slot id index = some entry →
      entry.1 = digest.signature (digest.sha1 entry.2)
  distinct : ∀ id, (config.options id).isPersistent = true →
    ∀ index < state.size id, ∀ other < state.size id, ∀ entry held,
      state.slot id index = some entry → state.slot id other = some held →
      entry.1 = held.1 → index = other

def SignedCache.Measured (state : SignedCache δ) : Prop :=
  ∀ id, state.size id = (config.options id).entries.toNat

variable [LinearOrder δ] {config digest} {state : SignedCache δ} {operation : SignedOperation}

theorem SignedCache.All.step {kind : Bitmap → Prop} (all : state.All config kind)
    (kinds : ∀ id index entry, Added config digest state operation id index entry →
      kind entry.2) : (state.perform config digest operation).All config kind := by
  intro other persistent place held there
  obtain ⟨_, same | none | ⟨id, index, entry, added, slots⟩⟩ :=
    @perform_cases _ _ config digest state operation
  · rw [same other persistent] at there
    exact all other persistent place held there
  · exact nomatch (none other place).symm.trans there
  · rw [slots other persistent] at there
    by_cases sameId : other = id
    · rw [if_pos sameId] at there
      by_cases here : place = index
      · rw [here, Function.update_self] at there
        exact Option.some.inj there ▸ kinds id index entry added
      · rw [Function.update_of_ne here] at there
        exact all id (sameId ▸ persistent) place held there
    · rw [if_neg sameId] at there
      exact all other persistent place held there

theorem SignedCache.Measured.step (measured : state.Measured config) :
    (state.perform config digest operation).Measured config := by
  intro id
  rw [(perform_cases operation).1, measured id]

theorem SignedCache.Signed.step (signed : state.Signed config digest)
    (keyed : Keyed config digest state operation) :
    (state.perform config digest operation).Signed config digest := by
  obtain ⟨sizes, same | none | ⟨id, index, entry, added, slots⟩⟩ :=
    @perform_cases _ _ config digest state operation
  · constructor
    · intro other persistent
      rw [same other persistent]
      exact signed.current other persistent
    · intro other persistent
      rw [same other persistent, sizes other]
      exact signed.distinct other persistent
  · constructor
    · intro other _ place held there
      exact nomatch (none other place).symm.trans there
    · intro other _ place _ _ _ held _ there
      exact nomatch (none other place).symm.trans there
  · obtain ⟨key, apart⟩ := keyed id index entry added
    constructor
    · intro other persistent place held there
      rw [slots other persistent] at there
      by_cases sameId : other = id
      · rw [if_pos sameId] at there
        by_cases here : place = index
        · rw [here, Function.update_self] at there
          exact Option.some.inj there ▸ key
        · rw [Function.update_of_ne here] at there
          exact signed.current id (sameId ▸ persistent) place held there
      · rw [if_neg sameId] at there
        exact signed.current other persistent place held there
    · intro other persistent
      rw [slots other persistent, sizes other]
      by_cases sameId : other = id
      · subst sameId
        rw [if_pos rfl]
        intro first firstInside second secondInside firstHeld secondHeld firstThere secondThere
        by_cases firstHere : first = index
        · by_cases secondHere : second = index
          · intro _
            exact firstHere.trans secondHere.symm
          · rw [firstHere, Function.update_self] at firstThere
            rw [Function.update_of_ne secondHere] at secondThere
            intro equal
            rw [← Option.some.inj firstThere] at equal
            exact absurd equal.symm (apart second secondInside secondHere secondHeld secondThere)
        · rw [Function.update_of_ne firstHere] at firstThere
          by_cases secondHere : second = index
          · rw [secondHere, Function.update_self] at secondThere
            intro equal
            rw [← Option.some.inj secondThere] at equal
            exact absurd equal (apart first firstInside firstHere firstHeld firstThere)
          · rw [Function.update_of_ne secondHere] at secondThere
            exact signed.distinct other persistent first firstInside second secondInside firstHeld
              secondHeld firstThere secondThere
      · rw [if_neg sameId]
        exact signed.distinct other persistent

end Invariants

end Redemption.Caches
