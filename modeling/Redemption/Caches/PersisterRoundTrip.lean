import Redemption.Caches.PersisterLoops
import Redemption.Caches.SignedRun

/-! The bitmaps of persistent caches survive the disk. -/
namespace Redemption.Caches

open Redemption.Foundation

section Saved

variable {δ : Type} {config : Config} {digest : Digest δ} {state : SignedCache δ}

theorem mem_saved {id : Fin 5} {entry : Signature × Bitmap} :
    entry ∈ state.saved id ↔ ∃ index < state.size id, state.slot id index = some entry := by
  rw [SignedCache.saved, List.mem_filterMap]
  simp only [List.mem_range]

theorem entries_saved {id : Fin 5} {kind : Signature × Bitmap → Prop}
    (entries : ∀ index entry, state.slot id index = some entry → kind entry) :
    ∀ entry ∈ state.saved id, kind entry := by
  intro entry member
  obtain ⟨index, _, there⟩ := mem_saved.mp member
  exact entries index entry there

theorem length_saved (id : Fin 5) : (state.saved id).length ≤ state.size id :=
  Nat.le_trans (List.length_filterMap_le _ _) (Nat.le_of_eq List.length_range)

theorem nodup_saved (signed : state.Signed config digest) {id : Fin 5}
    (persistent : (config.options id).isPersistent = true) :
    ((state.saved id).map Prod.fst).Nodup := by
  rw [SignedCache.saved, List.Nodup, List.pairwise_map, List.pairwise_filterMap]
  apply List.Pairwise.imp_of_mem _ List.nodup_range
  intro index other member otherMember different entry there held otherThere same
  exact different (signed.distinct id persistent index (List.mem_range.mp member) other
    (List.mem_range.mp otherMember) entry held there otherThere same)

/-- The bitmaps that a file has for a cache. -/
def diskEntries (config : Config) (state : SignedCache δ) (id : Fin 5) :
    List (Signature × Bitmap) :=
  if (config.options id).isPersistent then state.saved id else []

def diskBytes (config : Config) (state : SignedCache δ) (id : Fin 5) : List Byte :=
  leBytes 2 (diskEntries config state id).length ++ entriesBytes (diskEntries config state id)

theorem saveToDisk_eq (palettes : state.All config PaletteSized) (id : Fin 5) :
    saveToDisk config state id = .ok (diskBytes config state id) := by
  have sized : ∀ entry ∈ diskEntries config state id, PaletteSized entry.2 := by
    intro entry member
    rw [diskEntries] at member
    split at member
    · rename_i persistent
      obtain ⟨index, _, there⟩ := mem_saved.mp member
      exact palettes id persistent index entry there
    · exact nomatch member
  have room (count : Nat) : outBytes 65535 [] (leBytes 2 count) = .ok (leBytes 2 count) :=
    if_pos (by rw [length_leBytes]; decide)
  have bytes := saveBitmaps_eq sized
  rw [diskEntries] at bytes
  rw [saveToDisk]
  simp only [room, ok_bind, bytes]
  rfl

theorem saveCaches_eq (palettes : state.All config PaletteSized) (ids : List (Fin 5)) :
    saveCaches config state ids = .ok (ids.flatMap (diskBytes config state)) := by
  induction ids with
  | nil => rfl
  | cons id ids ih =>
    rw [saveCaches, saveToDisk_eq palettes, ih]
    rfl

def fileBytes (config : Config) (state : SignedCache δ) : List Byte :=
  magic ++ [currentVersion] ++ config.ids.flatMap (diskBytes config state)

theorem saveAllToDisk_eq (palettes : state.All config PaletteSized) :
    saveAllToDisk config state = .ok (fileBytes config state) := by
  rw [saveAllToDisk, saveCaches_eq palettes]
  rfl

theorem readMagic_file (rest : List Byte) :
    readMagic ⟨magic ++ [currentVersion] ++ rest, 0⟩ = .ok ⟨rest, 0⟩ := by
  have header := @recv_append (magic ++ [currentVersion]) rest 16 5 0 rfl (by decide)
  rw [readMagic, header]
  rfl

theorem nodup_ids (config : Config) : config.ids.Nodup := (List.nodup_finRange 5).filter _

end Saved

section Caches

variable {δ : Type} [LinearOrder δ] {config : Config} {digest : Digest δ} {state : SignedCache δ}

theorem loadCaches_saved (storable : state.All config Storable) {ids : List (Fin 5)}
    (different : ids.Nodup) {target : SignedCache δ}
    (sizes : ∀ id, target.size id = state.size id) (small : ∀ id, state.size id < 2 ^ 16)
    (fits : ∀ id, (config.options id).isPersistent = true →
      IndexFits (state.saved id).length (state.size id)) :
    ∃ loaded, loadCaches config digest ids ⟨ids.flatMap (diskBytes config state), 0⟩ target =
        .ok (⟨[], 0⟩, loaded) ∧
      (∀ id ∈ ids, (config.options id).isPersistent = true →
        loaded.slot id = fillFrom (target.slot id) 0 (state.saved id)) ∧
      ∀ id, id ∉ ids → loaded.slot id = target.slot id := by
  induction ids generalizing target with
  | nil => exact ⟨target, rfl, fun _ member => (nomatch member), fun _ _ => rfl⟩
  | cons id ids ih =>
    obtain ⟨isNew, different⟩ := List.nodup_cons.mp different
    rw [List.flatMap_cons, diskBytes, diskEntries]
    by_cases persistent : (config.options id).isPersistent = true
    · have kinds := entries_saved (storable id persistent)
      have targetFits : IndexFits (state.saved id).length (target.size id) := by
        rw [sizes]
        exact fits id persistent
      obtain ⟨middle, done, filled, others, kept⟩ :=
        @loadFromDisk_entries _ _ config digest id persistent _ kinds
          (ids.flatMap (diskBytes config state)) target
          (by rw [sizes]; exact length_saved id) (by rw [sizes]; exact small id) targetFits
      obtain ⟨loaded, doneRest, filledRest, kept'⟩ :=
        @ih different middle (fun other => (kept other).trans (sizes other))
      refine ⟨loaded, ?_, ?_, ?_⟩
      · rw [if_pos persistent, loadCaches, done]
        exact doneRest
      · intro other member otherPersistent
        rcases List.mem_cons.mp member with rfl | later
        · rw [kept' other isNew, filled]
        · have apart : other ≠ id := by
            rintro rfl
            exact isNew later
          rw [filledRest other later otherPersistent, others other apart]
      · intro other absent
        rw [List.mem_cons, not_or] at absent
        rw [kept' other absent.2, others other absent.1]
    · obtain ⟨loaded, doneRest, filledRest, kept'⟩ := @ih different target sizes
      refine ⟨loaded, ?_, ?_, ?_⟩
      · rw [if_neg persistent, loadCaches, entriesBytes, List.flatMap_nil, List.append_nil,
          List.length_nil, loadFromDisk_none]
        exact doneRest
      · intro other member otherPersistent
        rcases List.mem_cons.mp member with rfl | later
        · exact absurd otherPersistent persistent
        · exact filledRest other later otherPersistent
      · intro other absent
        rw [List.mem_cons, not_or] at absent
        exact kept' other absent.2

omit [LinearOrder δ] in
theorem preloadCaches_saved (storable : state.All config Storable)
    (signed : state.Signed config digest) (small : ∀ id, state.size id < 2 ^ 16)
    {ids : List (Fin 5)} (different : ids.Nodup) {bmpMap : BmpMap}
    (unknown : ∀ id ∈ ids, ∀ key, bmpMap id key = none) :
    ∃ loaded, preloadCaches config digest ids ⟨ids.flatMap (diskBytes config state), 0⟩ bmpMap =
        .ok (⟨[], 0⟩, loaded) ∧
      (∀ id ∈ ids, (config.options id).isPersistent = true →
        ∀ entry ∈ state.saved id, loaded id entry.1 = some entry.2) ∧
      ∀ id, id ∉ ids → loaded id = bmpMap id := by
  induction ids generalizing bmpMap with
  | nil => exact ⟨bmpMap, rfl, fun _ member => (nomatch member), fun _ _ => rfl⟩
  | cons id ids ih =>
    obtain ⟨isNew, different⟩ := List.nodup_cons.mp different
    rw [List.flatMap_cons, diskBytes, diskEntries]
    by_cases persistent : (config.options id).isPersistent = true
    · have kinds := entries_saved (storable id persistent)
      have signatures := entries_saved (signed.current id persistent)
      obtain ⟨middle, done, known, others⟩ :=
        @preloadFromDisk_entries _ config digest id persistent _ kinds signatures
          (nodup_saved signed persistent) (Nat.lt_of_le_of_lt (length_saved id) (small id))
          (ids.flatMap (diskBytes config state)) bmpMap (unknown id List.mem_cons_self)
      obtain ⟨loaded, doneRest, knownRest, kept⟩ := @ih different middle (by
        intro other later key
        have apart : other ≠ id := by
          rintro rfl
          exact isNew later
        rw [others other apart]
        exact unknown other (List.mem_cons_of_mem _ later) key)
      refine ⟨loaded, ?_, ?_, ?_⟩
      · rw [if_pos persistent, preloadCaches, done]
        exact doneRest
      · intro other member otherPersistent entry saved
        rcases List.mem_cons.mp member with rfl | later
        · rw [kept other isNew]
          exact known entry saved
        · exact knownRest other later otherPersistent entry saved
      · intro other absent
        rw [List.mem_cons, not_or] at absent
        rw [kept other absent.2, others other absent.1]
    · obtain ⟨loaded, doneRest, knownRest, kept⟩ := @ih different bmpMap
        (fun other later => unknown other (List.mem_cons_of_mem _ later))
      refine ⟨loaded, ?_, ?_, ?_⟩
      · rw [if_neg persistent, preloadCaches, entriesBytes, List.flatMap_nil, List.append_nil,
          List.length_nil, preloadFromDisk_none]
        exact doneRest
      · intro other member otherPersistent
        rcases List.mem_cons.mp member with rfl | later
        · exact absurd otherPersistent persistent
        · exact knownRest other later otherPersistent
      · intro other absent
        rw [List.mem_cons, not_or] at absent
        exact kept other absent.2

end Caches

section Persister

variable {δ : Type} [LinearOrder δ] (config : Config) (digest : Digest δ) (unset : δ)
  (unsigned : Signature)

/-- What is saved is loaded into the same caches when they are empty. -/
def Loads (state : SignedCache δ) : Prop :=
  ∃ file loaded, saveAllToDisk config state = .ok file ∧
    loadAllFromDisk config digest file (.fresh config unset unsigned) = .ok loaded ∧
    ∀ id ∈ config.ids, (config.options id).isPersistent = true →
      ∀ index, loaded.slot id index = (state.saved id)[index]?

/-- The bitmaps of the keys of a list, at the indexes that follow each other. -/
def Preloads (state : SignedCache δ) : Prop :=
  ∃ file bmpMap, saveAllToDisk config state = .ok file ∧
    preload config digest file = .ok bmpMap ∧
    ∀ id ∈ config.ids, (config.options id).isPersistent = true →
      ∀ (keys : List (List Signature)) (firstEntryIndex : Nat),
        keys.flatten.Perm ((state.saved id).map Prod.fst) →
        firstEntryIndex + (state.saved id).length ≤ state.size id →
        IndexFits (firstEntryIndex + (state.saved id).length) (state.size id) →
        ∃ after left entries,
          processKeyLists config digest id keys firstEntryIndex
            (.fresh config unset unsigned, bmpMap) = .ok (after, left) ∧
          entries.map Prod.fst = keys.flatten ∧ (∀ entry ∈ entries, entry ∈ state.saved id) ∧
          after.slot id = fillFrom (fun _ => none) firstEntryIndex entries

variable {config digest unset unsigned} {state : SignedCache δ}

omit [LinearOrder δ] in
theorem Measured.small (measured : state.Measured config) (id : Fin 5) :
    state.size id < 2 ^ 16 := by
  rw [measured id]
  exact (config.options id).entries.isLt

theorem loads_of_storable (measured : state.Measured config) (storable : state.All config Storable)
    (fits : ∀ id, (config.options id).isPersistent = true →
      IndexFits (state.saved id).length (state.size id)) :
    Loads config digest unset unsigned state := by
  have palettes : state.All config PaletteSized := fun id persistent index entry there =>
    (storable id persistent index entry there).palette
  obtain ⟨loaded, done, filled, _⟩ :=
    @loadCaches_saved _ _ config digest state storable _ (nodup_ids config)
      (.fresh config unset unsigned) (fun id => (measured id).symm) (Measured.small measured) fits
  refine ⟨fileBytes config state, loaded, saveAllToDisk_eq palettes, ?_, ?_⟩
  · rw [loadAllFromDisk, fileBytes, readMagic_file]
    simp only [ok_bind, done, pure_ok]
  · intro id member persistent index
    rw [filled id member persistent, fillFrom]
    split
    · rfl
    · rw [List.getElem?_eq_none (by omega)]
      rfl

theorem exists_entries {saved : List (Signature × Bitmap)} {keys : List Signature}
    (known : ∀ key ∈ keys, key ∈ saved.map Prod.fst) :
    ∃ entries : List (Signature × Bitmap),
      entries.map Prod.fst = keys ∧ ∀ entry ∈ entries, entry ∈ saved := by
  induction keys with
  | nil => exact ⟨[], rfl, fun _ member => (nomatch member)⟩
  | cons key keys ih =>
    obtain ⟨entries, same, members⟩ := ih fun other later => known other (List.mem_cons_of_mem _ later)
    obtain ⟨entry, member, rfl⟩ := List.mem_map.mp (known key List.mem_cons_self)
    refine ⟨entry :: entries, by rw [List.map_cons, same], ?_⟩
    intro other inside
    rcases List.mem_cons.mp inside with rfl | later
    · exact member
    · exact members other later

theorem preloads_of_signed (measured : state.Measured config)
    (storable : state.All config Storable) (signed : state.Signed config digest) :
    Preloads config digest unset unsigned state := by
  have palettes : state.All config PaletteSized := fun id persistent index entry there =>
    (storable id persistent index entry there).palette
  obtain ⟨bmpMap, done, known, _⟩ :=
    @preloadCaches_saved _ config digest state storable signed (Measured.small measured) _
      (nodup_ids config) (fun _ _ => none) (fun _ _ _ => rfl)
  refine ⟨fileBytes config state, bmpMap, saveAllToDisk_eq palettes, ?_, ?_⟩
  · rw [preload, fileBytes, readMagic_file]
    simp only [ok_bind, done, pure_ok]
  · intro id member persistent keys first perm inside fits
    obtain ⟨entries, same, members⟩ := exists_entries fun key there => perm.mem_iff.mp there
    have different : (entries.map Prod.fst).Nodup := by
      rw [same]
      exact perm.nodup_iff.mpr (nodup_saved signed persistent)
    have length : entries.length = (state.saved id).length := by
      have both := perm.length_eq
      rwa [← same, List.length_map, List.length_map] at both
    have size : (SignedCache.fresh config unset unsigned).size id = state.size id :=
      (measured id).symm
    obtain ⟨after, left, processed, filled⟩ :=
      @processKeyLists_entries _ _ config digest id persistent keys entries same different first
        (.fresh config unset unsigned) bmpMap
        (fun entry there => known id member persistent entry (members entry there))
        (by rw [length, size]; exact inside) (by rw [size]; exact Measured.small measured id)
        (by rw [length, size]; exact fits) (fun _ _ => rfl)
    exact ⟨after, left, entries, processed, same, members, filled⟩

/-- A run of a cache from its construction. -/
def runSigned (config : Config) (digest : Digest δ) (unset : δ) (unsigned : Signature)
    (operations : List SignedOperation) : SignedCache δ :=
  (signedMachine config digest).run (.fresh config unset unsigned) operations

omit [LinearOrder δ] in
theorem all_fresh (kind : Bitmap → Prop) :
    (SignedCache.fresh config unset unsigned).All config kind := fun _ _ _ _ there => nomatch there

omit [LinearOrder δ] in
theorem signed_fresh : (SignedCache.fresh config unset unsigned).Signed config digest :=
  ⟨fun _ _ _ _ there => (nomatch there), fun _ _ _ _ _ _ _ _ there => (nomatch there)⟩

/-- Whatever is done to a cache, it is saved; where the bitmaps that are added have a size of two
bytes and no padding, they are loaded again; where they also have the signatures of their hashes
and each only once in its cache, lists of keys put them where they say. -/
theorem persister_round_trip (config : Config) (digest : Digest δ) (unset : δ)
    (unsigned : Signature) (operations : List SignedOperation) :
    (∃ file, saveAllToDisk config (runSigned config digest unset unsigned operations) = .ok file) ∧
    ((signedMachine config digest).EveryStep (Sized config digest)
        (.fresh config unset unsigned) operations →
      ((∀ id, (config.options id).isPersistent = true →
          IndexFits ((runSigned config digest unset unsigned operations).saved id).length
            ((runSigned config digest unset unsigned operations).size id)) →
        Loads config digest unset unsigned (runSigned config digest unset unsigned operations)) ∧
      ((signedMachine config digest).EveryStep (Keyed config digest)
          (.fresh config unset unsigned) operations →
        Preloads config digest unset unsigned
          (runSigned config digest unset unsigned operations))) := by
  have measured : (runSigned config digest unset unsigned operations).Measured config :=
    Machine.invariant_run (fun _ _ holds _ => holds.step) (fun _ => rfl)
      (Machine.everyStep_of_forall (fun _ _ => trivial) _ _)
  have keeps (kind : Bitmap → Prop) (state : SignedCache δ) (operation : SignedOperation)
      (holds : state.All config kind)
      (kinds : ∀ id index entry, Added config digest state operation id index entry →
        kind entry.2) :
      ((signedMachine config digest).next state operation).All config kind := holds.step kinds
  refine ⟨⟨_, saveAllToDisk_eq ?_⟩, ?_⟩
  · exact Machine.invariant_run (keeps PaletteSized) (all_fresh _)
      (Machine.everyStep_of_forall (fun _ _ _ _ _ added => added.palette) _ _)
  · intro sized
    have storable : (runSigned config digest unset unsigned operations).All config Storable :=
      Machine.invariant_run
        (fun state operation holds here => keeps Storable state operation holds
          fun _ _ _ added => added.storable here)
        (all_fresh _) sized
    refine ⟨loads_of_storable measured storable, ?_⟩
    intro keyed
    have keepsSigned (state : SignedCache δ) (operation : SignedOperation)
        (holds : state.Signed config digest) (here : Keyed config digest state operation) :
        ((signedMachine config digest).next state operation).Signed config digest := holds.step here
    exact preloads_of_signed measured storable (Machine.invariant_run keepsSigned signed_fresh keyed)

end Persister

/-- One persistent cache for two small bitmaps. -/
def twoPersistent : Config :=
  { owner := .modRdp
    bpp := .bpp24
    numberOfCache := 1
    useWaitingList := false
    options := fun id => if id = 0 then ⟨2, 768, true⟩ else ⟨0, 0, false⟩
    used := by decide }

/-- Bitmaps told apart by their first byte. -/
def firstByteDigest : Digest Nat where
  sha1 bmp := (bmp.data.headD 0).toNat
  bpp2bpp outBpp bmp := List.replicate (align4 bmp.cx * nbBytesPerPixel outBpp * bmp.cy) 0
  classic332 := List.replicate 1024 0
  signature hash := BitVec.ofNat 64 hash
  converted _ _ := List.length_replicate
  entries332 := List.length_replicate

theorem gray_genuine (byte : Byte) : Genuine (grayBitmap byte) :=
  ⟨(by decide : 4 < 2 ^ 16), (by decide : 1 < 2 ^ 16), List.length_replicate, rfl⟩

/-- Two bitmaps, each in an element of its own. -/
def twoPuts : List SignedOperation :=
  [.put 0 0 (grayBitmap 9) 9 (gray_genuine 9), .put 0 1 (grayBitmap 7) 7 (gray_genuine 7)]

theorem persister_round_trip_grays :
    Loads twoPersistent firstByteDigest 0 0 (runSigned twoPersistent firstByteDigest 0 0 twoPuts) ∧
    Preloads twoPersistent firstByteDigest 0 0
      (runSigned twoPersistent firstByteDigest 0 0 twoPuts) := by
  have both := (persister_round_trip twoPersistent firstByteDigest 0 0 twoPuts).2 ⟨?_, ?_, trivial⟩
  · refine ⟨both.1 ?_, both.2 ⟨?_, ?_, trivial⟩⟩
    · intro id _
      right
      revert id
      decide
    · intro id index entry added
      cases added with
      | put _ =>
        refine ⟨rfl, ?_⟩
        intro _ _ _ _ there
        exact nomatch there
    · intro id index entry added
      cases added with
      | put _ =>
        refine ⟨rfl, ?_⟩
        intro other inside different held there
        have small : other < 2 := inside
        have not : other ≠ 1 := different
        obtain rfl : other = 0 := by omega
        obtain rfl : (9, grayBitmap 9) = held := Option.some.inj there
        decide
  · intro id index entry added
    cases added with
    | put _ => exact ⟨by decide, by decide, by decide⟩
  · intro id index entry added
    cases added with
    | put _ => exact ⟨by decide, by decide, by decide⟩

/-- The same bitmap in two elements is more than the map of the persister allows. -/
theorem persister_same_bitmap_twice : ¬ ∀ (config : Config) (digest : Digest Nat) (unset : Nat)
    (unsigned : Signature) (operations : List SignedOperation),
    Loads config digest unset unsigned (runSigned config digest unset unsigned operations) ∧
    Preloads config digest unset unsigned (runSigned config digest unset unsigned operations) := by
  intro every
  obtain ⟨_, file, bmpMap, saved, preloaded, _⟩ := every twoPersistent firstByteDigest 0 0
    [.put 0 0 (grayBitmap 7) 7 (gray_genuine 7), .put 0 1 (grayBitmap 7) 7 (gray_genuine 7)]
  have again : (saveAllToDisk twoPersistent (runSigned twoPersistent firstByteDigest 0 0
      [.put 0 0 (grayBitmap 7) 7 (gray_genuine 7), .put 0 1 (grayBitmap 7) 7 (gray_genuine 7)]) >>=
        preload twoPersistent firstByteDigest) = .error (.raised .assertion) := rfl
  rw [saved, ok_bind, preloaded] at again
  exact nomatch again

end Redemption.Caches
