import Redemption.Caches.BmpCachePersister

/-! The loops of the persister over what was saved. -/
namespace Redemption.Caches

open Redemption.Foundation

section Fill

variable {α : Type}

/-- Slots with entries from an index on. -/
def fillFrom (slots : Nat → Option α) (first : Nat) (entries : List α) : Nat → Option α :=
  fun index => if first ≤ index ∧ index < first + entries.length then entries[index - first]?
    else slots index

theorem fillFrom_nil (slots : Nat → Option α) (first : Nat) : fillFrom slots first [] = slots := by
  funext index
  rw [fillFrom, List.length_nil]
  exact if_neg (by omega)

theorem fillFrom_cons (slots : Nat → Option α) (first : Nat) (entry : α) (entries : List α) :
    fillFrom slots first (entry :: entries) =
      fillFrom (Function.update slots first (some entry)) (first + 1) entries := by
  funext index
  rw [fillFrom, fillFrom, List.length_cons]
  rcases Nat.lt_trichotomy index first with before | rfl | after
  · rw [if_neg (by omega), if_neg (by omega), Function.update_of_ne (Nat.ne_of_lt before)]
  · rw [if_pos (by omega), if_neg (by omega), Function.update_self, Nat.sub_self]
    rfl
  · by_cases inside : index < first + (entries.length + 1)
    · rw [if_pos ⟨Nat.le_of_lt after, inside⟩, if_pos (by omega),
        show index - first = (index - (first + 1)) + 1 by omega, List.getElem?_cons_succ]
    · rw [if_neg (by omega), if_neg (by omega), Function.update_of_ne (Nat.ne_of_gt after)]

theorem fillFrom_append (slots : Nat → Option α) (first : Nat) (front back : List α) :
    fillFrom slots first (front ++ back) =
      fillFrom (fillFrom slots first front) (first + front.length) back := by
  induction front generalizing slots first with
  | nil => rw [List.nil_append, fillFrom_nil, List.length_nil, Nat.add_zero]
  | cons entry front ih =>
    rw [List.cons_append, fillFrom_cons, ih, fillFrom_cons, List.length_cons, Nat.add_assoc,
      Nat.add_comm 1]

end Fill

/-- A number of entries do not come to the index that stands for the waiting list, unless it is
that of the last element. -/
def IndexFits (count size : Nat) : Prop := count ≤ 32767 ∨ size ≤ 32768

theorem IndexFits.mono {count more size : Nat} (fits : IndexFits more size) (fewer : count ≤ more) :
    IndexFits count size := by
  rcases fits with few | small
  · exact .inl (Nat.le_trans fewer few)
  · exact .inr small

section Loops

variable {δ : Type} [LinearOrder δ] {config : Config} {digest : Digest δ} {id : Fin 5}

omit [LinearOrder δ] in
theorem position_of_fits {range : CacheRange δ} {index : Nat} (inside : index < range.size)
    (size : range.size < 2 ^ 16) (fits : IndexFits (index + 1) range.size) :
    BmpCache.position range (BitVec.ofNat 16 index) = index := by
  have value : (BitVec.ofNat 16 index).toNat = index := by
    rw [BitVec.toNat_ofNat, Nat.mod_eq_of_lt (Nat.lt_trans inside size)]
  rw [BmpCache.position]
  split
  · rename_i waiting
    have same : index = 32767 := value.symm.trans (congrArg BitVec.toNat waiting)
    have last : range.size = 32768 := by
      rcases fits with few | small <;> omega
    rw [last, same]
    rfl
  · exact value

theorem slot_put_ofNat {state : SignedCache δ} (persistent : (config.options id).isPersistent = true)
    {index : Nat} (inside : index < state.size id) (size : state.size id < 2 ^ 16)
    (fits : IndexFits (index + 1) (state.size id)) (entry : Signature × Bitmap) (other : Fin 5) :
    (state.put config digest id (BitVec.ofNat 16 index) entry.2 entry.1).slot other =
      if other = id then Function.update (state.slot id) index (some entry)
      else state.slot other := by
  rw [slot_put persistent, position_of_fits inside size fits]

def entriesBytes (entries : List (Signature × Bitmap)) : List Byte :=
  entries.flatMap fun entry => bitmapBytes entry.1 entry.2

theorem saveBitmaps_eq {entries : List (Signature × Bitmap)}
    (palettes : ∀ entry ∈ entries, PaletteSized entry.2) :
    saveBitmaps entries = .ok (entriesBytes entries) := by
  induction entries with
  | nil => rfl
  | cons entry entries ih =>
    obtain ⟨sig, bmp⟩ := entry
    have rest := ih fun entry member => palettes entry (List.mem_cons_of_mem _ member)
    rw [saveBitmaps, saveBitmap_eq (palettes _ List.mem_cons_self), rest]
    rfl

/-- The bitmaps of a cache are loaded at the first indexes, in order. -/
theorem loadBitmaps_entries (persistent : (config.options id).isPersistent = true)
    {entries : List (Signature × Bitmap)} (storable : ∀ entry ∈ entries, Storable entry.2)
    (palette rest : List Byte) {i offset : Nat} {state : SignedCache δ} (near : offset ≤ 2)
    (inside : i + entries.length ≤ state.size id) (size : state.size id < 2 ^ 16)
    (fits : IndexFits (i + entries.length) (state.size id)) :
    ∃ last loaded, loadBitmaps config digest id entries.length i palette
        ⟨entriesBytes entries ++ rest, offset⟩ state = .ok (⟨rest, last⟩, loaded) ∧
      loaded.slot id = fillFrom (state.slot id) i entries ∧
      (∀ other, other ≠ id → loaded.slot other = state.slot other) ∧
      ∀ other, loaded.size other = state.size other := by
  induction entries generalizing i palette offset state with
  | nil => exact ⟨offset, state, rfl, (fillFrom_nil _ _).symm, fun _ _ => rfl, fun _ => rfl⟩
  | cons entry entries ih =>
    have first := storable entry List.mem_cons_self
    rw [List.length_cons] at inside fits
    have here : i < state.size id := by omega
    have slots := @slot_put_ofNat _ _ config digest id state persistent i here size
      (fits.mono (by omega)) entry
    have sizes := @size_put _ state config _ digest id (BitVec.ofNat 16 i) entry.2 entry.1
    obtain ⟨last, loaded, done, filled, others, kept⟩ :=
      @ih (fun entry member => storable entry (List.mem_cons_of_mem _ member))
        (if entry.2.bpp = .bpp8 then entry.2.palette else palette) (i + 1) 0
        (state.put config digest id (BitVec.ofNat 16 i) entry.2 entry.1) (Nat.zero_le 2)
        (by rw [sizes]; omega) (by rw [sizes]; exact size)
        (by rw [sizes]; exact fits.mono (by omega))
    refine ⟨last, loaded, ?_, ?_, ?_, ?_⟩
    · rw [List.length_cons, loadBitmaps, entriesBytes, List.flatMap_cons, List.append_assoc,
        readBitmap_bitmapBytes first palette _ near]
      simp only [ok_bind, if_pos (And.intro persistent here), bitmap_diskBitmap first]
      exact done
    · rw [filled, slots id, if_pos rfl, fillFrom_cons]
    · intro other different
      rw [others other different, slots other, if_neg different]
    · intro other
      rw [kept other, sizes other]

theorem loadFromDisk_entries (persistent : (config.options id).isPersistent = true)
    {entries : List (Signature × Bitmap)} (storable : ∀ entry ∈ entries, Storable entry.2)
    (rest : List Byte) {state : SignedCache δ} (inside : entries.length ≤ state.size id)
    (size : state.size id < 2 ^ 16) (fits : IndexFits entries.length (state.size id)) :
    ∃ loaded, loadFromDisk config digest
        ⟨leBytes 2 entries.length ++ entriesBytes entries ++ rest, 0⟩ state id =
          .ok (⟨rest, 0⟩, loaded) ∧
      loaded.slot id = fillFrom (state.slot id) 0 entries ∧
      (∀ other, other ≠ id → loaded.slot other = state.slot other) ∧
      ∀ other, loaded.size other = state.size other := by
  obtain ⟨last, loaded, done, filled, others, kept⟩ :=
    @loadBitmaps_entries _ _ config digest id persistent entries storable digest.classic332 rest
      0 2 state (Nat.le_refl 2) (by rw [Nat.zero_add]; exact inside) size
      (by rw [Nat.zero_add]; exact fits)
  refine ⟨loaded, ?_, filled, others, kept⟩
  have count : inLe (ε := PersisterError) 2 (leBytes 2 entries.length) =
      .ok (entries.length, []) := by
    have whole := inLe_append (ε := PersisterError) 2 entries.length []
    rw [List.append_nil, Nat.mod_eq_of_lt (Nat.lt_of_le_of_lt inside size)] at whole
    exact whole
  rw [loadFromDisk, List.append_assoc, recv_append (length_leBytes 2 _) (by decide)]
  simp only [ok_bind, count, Nat.zero_add]
  rw [done]
  rfl

theorem loadFromDisk_none (rest : List Byte) (state : SignedCache δ) :
    loadFromDisk config digest ⟨leBytes 2 0 ++ rest, 0⟩ state id = .ok (⟨rest, 0⟩, state) := by
  rw [loadFromDisk, recv_append (length_leBytes 2 _) (by decide)]
  rfl

omit [LinearOrder δ] in
theorem preloadBitmaps_entries (persistent : (config.options id).isPersistent = true)
    {entries : List (Signature × Bitmap)} (storable : ∀ entry ∈ entries, Storable entry.2)
    (signed : ∀ entry ∈ entries, entry.1 = digest.signature (digest.sha1 entry.2))
    (different : (entries.map Prod.fst).Nodup)
    (palette rest : List Byte) {offset : Nat} {bmpMap : BmpMap} (near : offset ≤ 2)
    (unknown : ∀ key ∈ entries.map Prod.fst, bmpMap id key = none) :
    ∃ last loaded, preloadBitmaps config digest id entries.length palette
        ⟨entriesBytes entries ++ rest, offset⟩ bmpMap = .ok (⟨rest, last⟩, loaded) ∧
      (∀ entry ∈ entries, loaded id entry.1 = some entry.2) ∧
      (∀ key, key ∉ entries.map Prod.fst → loaded id key = bmpMap id key) ∧
      ∀ other, other ≠ id → loaded other = bmpMap other := by
  induction entries generalizing palette offset bmpMap with
  | nil =>
    exact ⟨offset, bmpMap, rfl, fun _ member => (nomatch member), fun _ _ => rfl, fun _ _ => rfl⟩
  | cons entry entries ih =>
    have first := storable entry List.mem_cons_self
    obtain ⟨isNew, different⟩ := List.nodup_cons.mp different
    obtain ⟨last, loaded, done, known, others, caches⟩ :=
      @ih (fun entry member => storable entry (List.mem_cons_of_mem _ member))
        (fun entry member => signed entry (List.mem_cons_of_mem _ member)) different
        (if entry.2.bpp = .bpp8 then entry.2.palette else palette) 0
        (bmpMap.set id entry.1 (some entry.2)) (Nat.zero_le 2) (by
          intro key member
          have apart : key ≠ entry.1 := by
            intro same
            exact isNew (same ▸ member)
          rw [BmpMap.set, Function.update_self, Function.update_of_ne apart]
          exact unknown key (List.mem_cons_of_mem _ member))
    have missing : ¬ (bmpMap id entry.1).isSome = true := by
      rw [unknown _ List.mem_cons_self]
      exact Bool.false_ne_true
    have key : ¬ entry.1 ≠ digest.signature (digest.sha1 entry.2) :=
      fun wrong => wrong (signed entry List.mem_cons_self)
    refine ⟨last, loaded, ?_, ?_, ?_, ?_⟩
    · rw [List.length_cons, preloadBitmaps, entriesBytes, List.flatMap_cons, List.append_assoc,
        readBitmap_bitmapBytes first palette _ near]
      simp only [ok_bind, if_pos persistent, bitmap_diskBitmap first]
      rw [diskBitmap]
      rw [if_neg missing, if_neg key]
      exact done
    · intro other member
      rcases List.mem_cons.mp member with rfl | later
      · rw [others _ isNew, BmpMap.set, Function.update_self, Function.update_self]
      · exact known other later
    · intro other absent
      rw [List.map_cons, List.mem_cons, not_or] at absent
      rw [others other absent.2, BmpMap.set, Function.update_self,
        Function.update_of_ne absent.1]
    · intro other apart
      rw [caches other apart, BmpMap.set, Function.update_of_ne apart]

omit [LinearOrder δ] in
theorem preloadFromDisk_entries (persistent : (config.options id).isPersistent = true)
    {entries : List (Signature × Bitmap)} (storable : ∀ entry ∈ entries, Storable entry.2)
    (signed : ∀ entry ∈ entries, entry.1 = digest.signature (digest.sha1 entry.2))
    (different : (entries.map Prod.fst).Nodup) (short : entries.length < 2 ^ 16)
    (rest : List Byte) {bmpMap : BmpMap} (unknown : ∀ key, bmpMap id key = none) :
    ∃ loaded, preloadFromDisk config digest
        ⟨leBytes 2 entries.length ++ entriesBytes entries ++ rest, 0⟩ bmpMap id =
          .ok (⟨rest, 0⟩, loaded) ∧
      (∀ entry ∈ entries, loaded id entry.1 = some entry.2) ∧
      ∀ other, other ≠ id → loaded other = bmpMap other := by
  obtain ⟨last, loaded, done, known, _, others⟩ :=
    @preloadBitmaps_entries _ config digest id persistent entries storable signed different
      digest.classic332 rest 2 bmpMap (Nat.le_refl 2) (fun key _ => unknown key)
  refine ⟨loaded, ?_, known, others⟩
  have count : inLe (ε := PersisterError) 2 (leBytes 2 entries.length) =
      .ok (entries.length, []) := by
    have whole := inLe_append (ε := PersisterError) 2 entries.length []
    rw [List.append_nil, Nat.mod_eq_of_lt short] at whole
    exact whole
  rw [preloadFromDisk, List.append_assoc, recv_append (length_leBytes 2 _) (by decide)]
  simp only [ok_bind, count, Nat.zero_add]
  rw [done]
  rfl

omit [LinearOrder δ] in
theorem preloadFromDisk_none (rest : List Byte) (bmpMap : BmpMap) :
    preloadFromDisk config digest ⟨leBytes 2 0 ++ rest, 0⟩ bmpMap id = .ok (⟨rest, 0⟩, bmpMap) := by
  rw [preloadFromDisk, recv_append (length_leBytes 2 _) (by decide)]
  rfl

/-- Keys of a list put their bitmaps at the indexes that follow each other. -/
theorem processKeyList_entries (persistent : (config.options id).isPersistent = true)
    {entries : List (Signature × Bitmap)} (different : (entries.map Prod.fst).Nodup)
    {firstEntryIndex : Nat} {state : SignedCache δ} {bmpMap : BmpMap}
    (known : ∀ entry ∈ entries, bmpMap id entry.1 = some entry.2)
    (inside : firstEntryIndex + entries.length ≤ state.size id) (size : state.size id < 2 ^ 16)
    (fits : IndexFits (firstEntryIndex + entries.length) (state.size id))
    (empty : ∀ index, firstEntryIndex ≤ index → state.slot id index = none) :
    ∃ after left, processKeyList config digest id (entries.map Prod.fst) firstEntryIndex
        (state, bmpMap) = .ok (after, left) ∧
      after.slot id = fillFrom (state.slot id) firstEntryIndex entries ∧
      after.size id = state.size id ∧
      ∀ key, key ∉ entries.map Prod.fst → left id key = bmpMap id key := by
  induction entries generalizing firstEntryIndex state bmpMap with
  | nil => exact ⟨state, bmpMap, rfl, (fillFrom_nil _ _).symm, rfl, fun _ _ => rfl⟩
  | cons entry entries ih =>
    obtain ⟨isNew, different⟩ := List.nodup_cons.mp different
    rw [List.length_cons] at inside fits
    have here : firstEntryIndex < state.size id := by omega
    have slots := @slot_put_ofNat _ _ config digest id state persistent firstEntryIndex here size
      (fits.mono (by omega)) entry id
    rw [if_pos rfl] at slots
    have sizes := @size_put _ state config _ digest id (BitVec.ofNat 16 firstEntryIndex) entry.2
      entry.1 id
    obtain ⟨after, left, done, filled, kept, others⟩ :=
      @ih different (firstEntryIndex + 1)
        (state.put config digest id (BitVec.ofNat 16 firstEntryIndex) entry.2 entry.1)
        (bmpMap.set id entry.1 none) (by
          intro other member
          have apart : other.1 ≠ entry.1 := by
            intro same
            exact isNew (same ▸ List.mem_map_of_mem member)
          rw [BmpMap.set, Function.update_self, Function.update_of_ne apart]
          exact known other (List.mem_cons_of_mem _ member))
        (by rw [sizes]; omega) (by rw [sizes]; exact size)
        (by rw [sizes]; exact fits.mono (by omega)) (by
          intro index later
          rw [slots, Function.update_of_ne (by omega)]
          exact empty index (by omega))
    have vacant : ¬ (state.slot id firstEntryIndex).isSome = true := by
      rw [empty _ (Nat.le_refl _)]
      exact Bool.false_ne_true
    have room : firstEntryIndex < state.size id % 2 ^ 16 := by
      rw [Nat.mod_eq_of_lt size]
      exact here
    refine ⟨after, left, ?_, ?_, kept.trans sizes, ?_⟩
    · rw [List.map_cons, processKeyList, if_pos room, if_neg vacant,
        known entry List.mem_cons_self]
      exact done
    · rw [filled, slots, fillFrom_cons]
    · intro key absent
      rw [List.map_cons, List.mem_cons, not_or] at absent
      rw [others key absent.2, BmpMap.set, Function.update_self, Function.update_of_ne absent.1]

theorem processKeyLists_entries (persistent : (config.options id).isPersistent = true)
    (keys : List (List Signature)) {entries : List (Signature × Bitmap)}
    (whole : entries.map Prod.fst = keys.flatten) (different : (entries.map Prod.fst).Nodup)
    {firstEntryIndex : Nat} {state : SignedCache δ} {bmpMap : BmpMap}
    (known : ∀ entry ∈ entries, bmpMap id entry.1 = some entry.2)
    (inside : firstEntryIndex + entries.length ≤ state.size id) (size : state.size id < 2 ^ 16)
    (fits : IndexFits (firstEntryIndex + entries.length) (state.size id))
    (empty : ∀ index, firstEntryIndex ≤ index → state.slot id index = none) :
    ∃ after left, processKeyLists config digest id keys firstEntryIndex (state, bmpMap) =
        .ok (after, left) ∧
      after.slot id = fillFrom (state.slot id) firstEntryIndex entries := by
  induction keys generalizing entries firstEntryIndex state bmpMap with
  | nil =>
    obtain rfl := List.map_eq_nil_iff.mp whole
    exact ⟨state, bmpMap, rfl, (fillFrom_nil _ _).symm⟩
  | cons first keys ih =>
    obtain ⟨front, back, rfl, frontKeys, backKeys⟩ := List.map_eq_append_iff.mp whole
    rw [List.map_append] at different
    obtain ⟨frontDifferent, backDifferent, apart⟩ := List.nodup_append.mp different
    rw [List.length_append, ← Nat.add_assoc] at inside fits
    obtain ⟨middle, left, done, filled, kept, others⟩ :=
      processKeyList_entries persistent frontDifferent
        (fun entry member => known entry (List.mem_append_left _ member))
        (Nat.le_trans (Nat.le_add_right _ _) inside) size (fits.mono (Nat.le_add_right _ _)) empty
    obtain ⟨after, rest, doneAfter, filledAfter⟩ :=
      @ih back backKeys backDifferent (firstEntryIndex + front.length) middle left (by
          intro entry member
          rw [others]
          · exact known entry (List.mem_append_right _ member)
          · intro inFront
            exact apart _ inFront _ (List.mem_map_of_mem member) rfl)
        (by rw [kept]; exact inside) (by rw [kept]; exact size) (by rw [kept]; exact fits) (by
          intro index later
          rw [filled, fillFrom, if_neg (by omega)]
          exact empty index (by omega))
    refine ⟨after, rest, ?_, ?_⟩
    · rw [processKeyLists, ← frontKeys, done]
      simp only [ok_bind, List.length_map]
      exact doneAfter
    · rw [filledAfter, filled, fillFrom_append]

end Loops

end Redemption.Caches
