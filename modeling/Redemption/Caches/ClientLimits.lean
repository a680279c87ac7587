import Redemption.Caches.ClientMirror

/-! Where a client does not draw a bitmap as it was given. -/
namespace Redemption.Caches

open Redemption.Foundation

variable {δ : Type} [LinearOrder δ]

section Exact

variable {config : Config} {pixels : Pixels δ} {cache cache' : BmpCache δ} {client : ClientCache}
  {kind : BltKind} {oldbmp : Bitmap} {id : Fin 5} {index : Nat}

/-- If the bitmap is not too big, the orders end with one that draws it as it was given. -/
def DrawnExactly (config : Config) (pixels : Pixels δ) (state : BmpCache δ × ClientCache)
    (input : BltKind × Bitmap) : Prop :=
  ∀ orders cache, drawMemblt config pixels state.1 input.1 input.2 = .ok (orders, cache) →
    Draws config state.2 input.1 orders input.2

omit [LinearOrder δ] in
theorem Draws.unique {orders : List Order} {first second : Bitmap}
    (one : Draws config client kind orders first) (two : Draws config client kind orders second) :
    first = second := by
  obtain ⟨caches, id, idx, parts, _, shown⟩ := one
  obtain ⟨caches', id', idx', parts', _, shown'⟩ := two
  rw [parts] at parts'
  obtain ⟨same, last⟩ := List.append_inj' parts' rfl
  cases same
  cases last
  exact Option.some.inj (shown.symm.trans shown')

theorem Mirrored.not_drawnExactly (mirrored : Mirrored config pixels.sha1 cache client)
    (addressable : config.Addressable) (injective : Function.Injective pixels.sha1)
    {orders : List Order}
    (drawn : drawMemblt config pixels cache kind oldbmp = .ok (orders, cache'))
    (other : pixels.convert config.bpp oldbmp ≠ oldbmp) :
    ¬ DrawnExactly config pixels (cache, client) (kind, oldbmp) := fun exact' =>
  other ((mirrored.draw addressable injective drawn).1.unique (exact' _ _ drawn))

theorem mirror_next_placed {placement : Placement}
    (which : config.cacheFor (pixels.convert config.bpp oldbmp).bmpSize = some id)
    (placed : cache.place config pixels id (pixels.convert config.bpp oldbmp) =
      (placement, cache'))
    (small : placement.index < 2 ^ 16) :
    (mirrorMachine config pixels).next (cache, client) (kind, oldbmp) =
      ((serialize config cache' kind placement).2,
        client.after config (serialize config cache' kind placement).1) :=
  mirror_next_ok (drawMemblt_eq which placed small)

/-- Of a bitmap that was found the client has to have the bitmap already. -/
theorem shown_of_found (owner : config.owner ≠ .recorder)
    (which : config.cacheFor (pixels.convert config.bpp oldbmp).bmpSize = some id)
    (placed : cache.place config pixels id (pixels.convert config.bpp oldbmp) =
      (.found id index, cache'))
    (small : index < 2 ^ 16)
    (exactly : DrawnExactly config pixels (cache, client) (kind, oldbmp)) :
    client.shown config id (BitVec.ofNat 16 index) = some oldbmp := by
  obtain ⟨caches, id', idx, parts, _, shown⟩ := exactly _ _ (drawMemblt_eq which placed small)
  have parts : (serialize config cache' kind (.found id index)).1 =
      caches ++ [.blt kind id' idx] := parts
  rw [serialize, if_neg (fun both => owner both.1)] at parts
  cases caches with
  | nil =>
    obtain ⟨same, idxs⟩ : id = id' ∧ BitVec.ofNat 16 index = idx := by simpa using parts
    rw [same, idxs]
    exact shown
  | cons first rest => simp at parts

end Exact

/-- One cache of so many entries, with a waiting list. -/
def withWaitingList (entries : BitVec 16) (some : 0 < entries.toNat) : Config :=
  { owner := .front
    bpp := .bpp24
    numberOfCache := 1
    useWaitingList := true
    options := fun id => ⟨if id = 0 then entries else 0, 768, true⟩
    used := fun id counted => by
      rw [if_pos (Fin.ext (Nat.lt_one_iff.mp counted))]
      exact some }

def oneWaiting : Config := withWaitingList 1 (by decide)

def twoWaiting : Config := withWaitingList 2 (by decide)

/-- A cache whose last entry has a bitmap. -/
def preloaded : BmpCache (List Nat) :=
  (runOperations twoWaiting plainPixels [] [.put 0 1 (grayBitmap 1)]).cache

/-- A client that starts like a cache. -/
def clientOf (cache : BmpCache (List Nat)) : ClientCache :=
  fun id index => ((cache.caches id).elem index).bmp

theorem waiting_index_lt {cache : BmpCache (List Nat)} (id : Fin 5)
    (size : cache.waitingList.size = maximumNumberOfCacheEntries) :
    (Placement.waiting id (cache.waitingList.privGetOldIndex cache.waitingList.size)).index <
      2 ^ 16 := by
  have inside : cache.waitingList.privGetOldIndex cache.waitingList.size < cache.waitingList.size :=
    CacheRange.getOldIndex_lt false (by rw [size]; decide)
  have most : maximumNumberOfCacheEntries = 8192 := rfl
  change cache.waitingList.privGetOldIndex cache.waitingList.size < _
  omega

/-- A bitmap that is in no cache and not in the waiting list goes there. -/
theorem place_waiting (config : Config) (pixels : Pixels δ) (cache : BmpCache δ) (id : Fin 5)
    (bmp : Bitmap) (missing : (cache.caches id).getCacheIndex (pixels.sha1 bmp) = none)
    (listed : ((config.options id).isPersistent && config.useWaitingList) = true)
    (unlisted : cache.waitingList.getCacheIndex (pixels.sha1 bmp) = none) :
    cache.place config pixels id bmp =
      (.waiting id (cache.waitingList.privGetOldIndex cache.waitingList.size),
        { cache with
          waitingList := cache.waitingList.replace
            (cache.waitingList.privGetOldIndex cache.waitingList.size) bmp (pixels.sha1 bmp)
            (cache.stamp + 1).toNat
          waitingListBitmap := some bmp
          stamp := cache.stamp + 1 }) := by
  rw [BmpCache.place]
  simp only [missing, listed, unlisted, if_true]

theorem place_promoted (config : Config) (pixels : Pixels δ) (cache : BmpCache δ) (id : Fin 5)
    (bmp : Bitmap) {index : Nat}
    (missing : (cache.caches id).getCacheIndex (pixels.sha1 bmp) = none)
    (listed : ((config.options id).isPersistent && config.useWaitingList) = true)
    (waiting : cache.waitingList.getCacheIndex (pixels.sha1 bmp) = some index) :
    (cache.place config pixels id bmp).1 =
      .added id ((cache.caches id).getOldIndex config.useWaitingList) := by
  rw [BmpCache.place]
  simp only [missing, listed, waiting, if_true]

theorem place_found (config : Config) (pixels : Pixels δ) (cache : BmpCache δ) (id : Fin 5)
    (bmp : Bitmap) {index : Nat}
    (hit : (cache.caches id).getCacheIndex (pixels.sha1 bmp) = some index) :
    (cache.place config pixels id bmp).1 = .found id index := by
  rw [BmpCache.place]
  simp only [hit]

theorem eq_of_fst {α β : Type} {pair : α × β} {first : α} (same : pair.1 = first) :
    pair = (first, pair.2) := Prod.ext same rfl

/-- A bitmap in the last entry is drawn after this entry was used for the waiting list. -/
theorem last_entry_overwritten :
    ¬ (mirrorMachine twoWaiting plainPixels).EveryStep (DrawnExactly twoWaiting plainPixels)
      (preloaded, clientOf preloaded) [(.memBlt, grayBitmap 2), (.memBlt, grayBitmap 1)] := by
  rintro ⟨_, exactly, _⟩
  let draw (byte : Byte) : Bitmap := plainPixels.convert twoWaiting.bpp (grayBitmap byte)
  let cache1 := (preloaded.place twoWaiting plainPixels 0 (draw 2)).2
  have waiting := eq_of_fst (congrArg Prod.fst
    (place_waiting twoWaiting plainPixels preloaded 0 (draw 2) (by decide) rfl (by decide)))
  have found : (cache1.caches 0).getCacheIndex (bitmapFields (draw 1)) = some 1 := by decide
  have again := eq_of_fst (place_found twoWaiting plainPixels cache1 0 (draw 1) found)
  rw [mirror_next_placed (by decide) waiting (waiting_index_lt 0 rfl)] at exactly
  have shown := shown_of_found (by decide) (by decide) again (by decide) exactly
  exact absurd shown (by decide)

/-- In a cache of one entry a bitmap that left the waiting list is overwritten by the next one in
it. -/
theorem only_entry_overwritten :
    ¬ (mirrorMachine oneWaiting plainPixels).EveryStep (DrawnExactly oneWaiting plainPixels)
      (newMirror oneWaiting)
      [(.memBlt, grayBitmap 1), (.memBlt, grayBitmap 1), (.memBlt, grayBitmap 2),
        (.memBlt, grayBitmap 1)] := by
  rintro ⟨_, _, _, exactly, _⟩
  let draw (byte : Byte) : Bitmap := plainPixels.convert oneWaiting.bpp (grayBitmap byte)
  let cache0 : BmpCache (List Nat) := BmpCache.fresh oneWaiting []
  let cache1 : BmpCache (List Nat) :=
    { cache0 with
      waitingList := cache0.waitingList.replace 0 (draw 1) (bitmapFields (draw 1)) 1
      waitingListBitmap := some (draw 1)
      stamp := 1 }
  let cache2 := (cache1.place oneWaiting plainPixels 0 (draw 1)).2
  let cache3 := (cache2.place oneWaiting plainPixels 0 (draw 2)).2
  have first : cache0.place oneWaiting plainPixels 0 (draw 1) = (.waiting 0 0, cache1) := by
    have old : cache0.waitingList.privGetOldIndex cache0.waitingList.size = 0 :=
      oldest_eq (Nat.zero_le _) rfl fun _ before => absurd before (Nat.not_lt_zero _)
    rw [place_waiting oneWaiting plainPixels cache0 0 (draw 1) (by decide) rfl (by decide), old]
    rfl
  have listed : cache1.waitingList.getCacheIndex (bitmapFields (draw 1)) = some 0 := by decide
  have second := eq_of_fst
    (place_promoted oneWaiting plainPixels cache1 0 (draw 1) (by decide) rfl listed)
  have third := eq_of_fst (congrArg Prod.fst
    (place_waiting oneWaiting plainPixels cache2 0 (draw 2) (by decide) rfl (by decide)))
  have found : (cache3.caches 0).getCacheIndex (bitmapFields (draw 1)) = some 0 := by decide
  have again := eq_of_fst (place_found oneWaiting plainPixels cache3 0 (draw 1) found)
  change DrawnExactly oneWaiting plainPixels ((mirrorMachine oneWaiting plainPixels).next
    ((mirrorMachine oneWaiting plainPixels).next
      ((mirrorMachine oneWaiting plainPixels).next (cache0, fun _ _ => none) _) _) _) _ at exactly
  rw [mirror_next_placed (by decide) first (by decide)] at exactly
  change DrawnExactly oneWaiting plainPixels ((mirrorMachine oneWaiting plainPixels).next
    ((mirrorMachine oneWaiting plainPixels).next (cache1, _) _) _) _ at exactly
  rw [mirror_next_placed (by decide) second (by decide)] at exactly
  change DrawnExactly oneWaiting plainPixels ((mirrorMachine oneWaiting plainPixels).next
    (cache2, _) _) _ at exactly
  rw [mirror_next_placed (by decide) third (waiting_index_lt 0 rfl)] at exactly
  have shown := shown_of_found (by decide) (by decide) again (by decide) exactly
  exact absurd shown (by decide)

section Numbered

/-- One cache of more entries than there are indices. -/
def manyEntries : Config :=
  { owner := .front
    bpp := .bpp24
    numberOfCache := 1
    useWaitingList := false
    options := fun id => ⟨if id = 0 then 32769 else 0, 768, false⟩
    used := by decide }

/-- Different bitmaps. -/
def numberedBitmap (number : Nat) : Bitmap :=
  ⟨.bpp24, 4, 1, BitVec.ofNat 8 number :: BitVec.ofNat 8 (number / 256) :: List.replicate 10 0, []⟩

theorem numberedBitmap_injective {first second : Nat} (small : first < 2 ^ 16)
    (small' : second < 2 ^ 16) (same : numberedBitmap first = numberedBitmap second) :
    first = second := by
  have data := (List.cons.inj (congrArg Bitmap.data same))
  have low := congrArg BitVec.toNat data.1
  have high := congrArg BitVec.toNat (List.cons.inj data.2).1
  rw [BitVec.toNat_ofNat, BitVec.toNat_ofNat] at low high
  omega

/-- The cache after so many draws of different bitmaps. -/
structure Filled (count : Nat) (cache : BmpCache (List Nat)) : Prop where
  sane : Sane manyEntries plainPixels.sha1 cache
  complete : (cache.caches 0).Complete
  drawn : ∀ index < count, ((cache.caches 0).elem index).bmp = some (numberedBitmap index)
  free : ∀ index, count ≤ index → ((cache.caches 0).elem index).bmp = none
  stamps : ∀ index, (cache.caches 0).stampAt index = if index < count then index + 1 else 0
  stamp : cache.stamp = BitVec.ofNat 32 count

theorem filled_fresh : Filled 0 (BmpCache.fresh manyEntries []) :=
  ⟨Sane.fresh [], CacheRange.Complete.fresh _ _,
    fun _ below => absurd below (Nat.not_lt_zero _), fun _ _ => rfl, fun _ => rfl, rfl⟩

theorem Filled.place {count : Nat} {cache : BmpCache (List Nat)} (filled : Filled count cache)
    (room : count < 32769) :
    (cache.place manyEntries plainPixels 0 (numberedBitmap count)).1 = .added 0 count ∧
      Filled (count + 1) (cache.place manyEntries plainPixels 0 (numberedBitmap count)).2 := by
  have size : (cache.caches 0).size = 32769 := filled.sane.size (.cache 0)
  have sound : (cache.caches 0).Sound bitmapFields := filled.sane.sound (.cache 0)
  have missing : (cache.caches 0).getCacheIndex (plainPixels.sha1 (numberedBitmap count)) = none := by
    rw [Option.eq_none_iff_forall_ne_some]
    intro index found
    obtain ⟨_, bmp, there, same⟩ := sound.found found
    obtain rfl := bitmapFields_injective same
    by_cases below : index < count
    · rw [filled.drawn index below] at there
      have equal := numberedBitmap_injective (by omega) (by omega) (Option.some.inj there)
      omega
    · rw [filled.free index (by omega)] at there
      cases there
  have old : (cache.caches 0).getOldIndex false = count := by
    rw [CacheRange.getOldIndex, if_neg Bool.false_ne_true, size]
    refine oldest_eq (by omega) ?_ fun other before => ?_
    · rw [filled.stamps, if_neg (Nat.lt_irrefl _)]
    · rw [filled.stamps, if_pos before]
      exact Nat.succ_pos _
  have next : (cache.stamp + 1).toNat = count + 1 := by
    rw [filled.stamp, BitVec.toNat_add, BitVec.toNat_ofNat]
    have one : (1 : BitVec 32).toNat = 1 := rfl
    omega
  have placed : cache.place manyEntries plainPixels 0 (numberedBitmap count) =
      (.added 0 count, { cache.setRange 0 ((cache.caches 0).replace count (numberedBitmap count)
        (bitmapFields (numberedBitmap count)) (count + 1)) with stamp := cache.stamp + 1 }) := by
    rw [BmpCache.place]
    simp only [missing]
    rw [← next, ← old]
    rfl
  have counted : (0 : Fin 5).val < manyEntries.numberOfCache := by decide
  have sane : Sane manyEntries plainPixels.sha1
      (cache.place manyEntries plainPixels 0 (numberedBitmap count)).2 :=
    filled.sane.place (numberedBitmap count) counted
  have self : (cache.place manyEntries plainPixels 0 (numberedBitmap count)).2.caches 0 =
      (cache.caches 0).replace count (numberedBitmap count)
        (bitmapFields (numberedBitmap count)) (count + 1) := by
    rw [placed]
    exact Function.update_self 0 _ cache.caches
  refine ⟨congrArg Prod.fst placed, sane, ?_, ?_, ?_, ?_, ?_⟩
  · rw [self]
    refine filled.complete.replace sound (by omega) fun other _ _ valid same => ?_
    exact KeyedIndex.find_none sound.ordered missing other
      (filled.complete other (by omega) valid) same
  · intro index below
    rw [self]
    by_cases last : index = count
    · rw [last, CacheRange.elem_replace_self]
    · rw [CacheRange.elem_replace_other last]
      exact filled.drawn index (by omega)
  · intro index above
    rw [self, CacheRange.elem_replace_other (by omega)]
    exact filled.free index (by omega)
  · intro index
    rw [self, CacheRange.stampAt]
    by_cases last : index = count
    · rw [last, CacheRange.elem_replace_self, if_pos (Nat.lt_succ_self _)]
    · rw [CacheRange.elem_replace_other last]
      refine (filled.stamps index).trans ?_
      by_cases below : index < count
      · rw [if_pos below, if_pos (by omega)]
      · rw [if_neg below, if_neg (by omega)]
  · rw [placed]
    rw [filled.stamp]
    exact (BitVec.ofNat_add count 1).symm

theorem cacheFor_numberedBitmap (number : Nat) :
    manyEntries.cacheFor (plainPixels.convert manyEntries.bpp (numberedBitmap number)).bmpSize =
      some 0 := rfl

def numberedDraws (count : Nat) : List (BltKind × Bitmap) :=
  (List.range count).map fun number => (.memBlt, numberedBitmap number)

theorem Filled.size {count : Nat} {cache : BmpCache (List Nat)} (filled : Filled count cache) :
    (cache.caches 0).size = 32769 := filled.sane.size (.cache 0)

theorem numberedDraws_succ (count : Nat) :
    numberedDraws (count + 1) = numberedDraws count ++ [(.memBlt, numberedBitmap count)] := by
  rw [numberedDraws, List.range_succ, List.map_append]
  rfl

theorem next_numbered {count : Nat} {state : BmpCache (List Nat) × ClientCache}
    (filled : Filled count state.1) (room : count < 32769) :
    (mirrorMachine manyEntries plainPixels).next state (.memBlt, numberedBitmap count) =
      ((state.1.place manyEntries plainPixels 0 (numberedBitmap count)).2,
        state.2.after manyEntries (serialize manyEntries
          (state.1.place manyEntries plainPixels 0 (numberedBitmap count)).2 .memBlt
          (.added 0 count)).1) := by
  have placed := eq_of_fst (filled.place room).1
  exact mirror_next_placed (cacheFor_numberedBitmap count) placed (show count < 2 ^ 16 by omega)

theorem shown_last {last : Nat} {cache : BmpCache (List Nat)} (client : ClientCache)
    (filled : Filled (last + 1) cache) (index : last = 32768) :
    (client.after manyEntries (serialize manyEntries cache .memBlt (.added 0 last)).1).shown
      manyEntries 0 bitmapcacheWaitingListIndex = some (numberedBitmap last) := by
  have other : BitVec.ofNat 16 last ≠ bitmapcacheWaitingListIndex := by
    rw [index]
    decide
  have value : (BitVec.ofNat 16 last).toNat = last := by
    rw [index]
    decide
  have got : cache.get (Fin.castSucc 0) (BitVec.ofNat 16 last) = some (numberedBitmap last) := by
    change ((cache.caches 0).elem (BmpCache.position (cache.caches 0) _)).bmp = _
    rw [BmpCache.position, if_neg other, value]
    exact filled.drawn last (Nat.lt_succ_self last)
  have sent : emitBmpCache cache 0 (BitVec.ofNat 16 last) false =
      [.bmpCache 0 (BitVec.ofNat 16 last) (numberedBitmap last)] := by
    rw [emitBmpCache]
    simp only [Bool.false_eq_true, if_false, got]
  have entry : ClientCache.entry manyEntries 0 (BitVec.ofNat 16 last) =
      ClientCache.entry manyEntries 0 bitmapcacheWaitingListIndex := by
    rw [ClientCache.entry, if_neg other, value, index]
    decide
  rw [serialize, sent, after_blt, after_one, ClientCache.shown, ClientCache.receive, entry,
    Function.update_self, Function.update_self]

theorem run_numbered {count : Nat} (room : count ≤ 32769) :
    Filled count ((mirrorMachine manyEntries plainPixels).run (newMirror manyEntries)
      (numberedDraws count)).1 := by
  induction count with
  | zero => exact filled_fresh
  | succ count ih =>
    have filled := ih (by omega)
    rw [numberedDraws_succ, Machine.run_append, Machine.run_cons, Machine.run_nil,
      next_numbered filled (by omega)]
    exact (filled.place (by omega)).2

/-- An entry whose index means the waiting list is drawn as what is in the last entry. -/
theorem large_index_overwritten {last : Nat} (index : last = 32768) :
    ¬ (mirrorMachine manyEntries plainPixels).EveryStep (DrawnExactly manyEntries plainPixels)
      (newMirror manyEntries) (numberedDraws (last + 1) ++ [(.memBlt, numberedBitmap 32767)]) := by
  intro every
  have exactly := (Machine.everyStep_append.mp every).2.1
  have filled : Filled last _ := run_numbered (by omega)
  have filled' := (filled.place (by omega)).2
  rw [numberedDraws_succ, Machine.run_append, Machine.run_cons, Machine.run_nil,
    next_numbered filled (by omega)] at exactly
  have size := filled'.size
  have hit := filled'.complete.found (filled'.sane.sound (.cache 0)) (by rw [size]; omega)
    (filled'.drawn 32767 (by omega))
  have again := eq_of_fst (place_found manyEntries plainPixels _ 0 (numberedBitmap 32767) hit)
  have shown := shown_of_found (by decide) (cacheFor_numberedBitmap _) again (by decide) exactly
  have equal := numberedBitmap_injective (by omega) (by omega)
    (Option.some.inj (shown.symm.trans (shown_last _ filled' index)))
  omega

end Numbered

/-- A bitmap with another depth than its cache is drawn in the depth of the cache. -/
theorem other_depth_converted :
    ¬ DrawnExactly twoEntries plainPixels (newMirror twoEntries)
      (.memBlt, ⟨.bpp8, 4, 1, [1, 2, 3, 4], []⟩) := by
  have addressable : twoEntries.Addressable := ⟨by decide, by decide⟩
  have mirrored : Mirrored twoEntries plainPixels.sha1 (newMirror twoEntries).1
      (newMirror twoEntries).2 :=
    ⟨Sane.fresh [], fun _ _ _ _ there => (nomatch there), fun _ _ _ valid => (nomatch valid)⟩
  have which : twoEntries.cacheFor
      (plainPixels.convert twoEntries.bpp ⟨.bpp8, 4, 1, [1, 2, 3, 4], []⟩).bmpSize = some 0 := by
    decide
  have added : ((newMirror twoEntries).1.place twoEntries plainPixels 0
      (plainPixels.convert twoEntries.bpp ⟨.bpp8, 4, 1, [1, 2, 3, 4], []⟩)).1 = .added 0 0 := rfl
  exact mirrored.not_drawnExactly addressable bitmapFields_injective
    (drawMemblt_eq which (eq_of_fst added) (by decide)) (by decide)

/-- The bitmap that was given is not drawn if it has another depth than the cache, or if the entry
of the order was used, or could be used, for the waiting list. -/
theorem drawn_otherwise :
    (¬ DrawnExactly twoEntries plainPixels (newMirror twoEntries)
      (.memBlt, ⟨.bpp8, 4, 1, [1, 2, 3, 4], []⟩)) ∧
    (¬ (mirrorMachine twoWaiting plainPixels).EveryStep (DrawnExactly twoWaiting plainPixels)
      (preloaded, clientOf preloaded) [(.memBlt, grayBitmap 2), (.memBlt, grayBitmap 1)]) ∧
    (¬ (mirrorMachine oneWaiting plainPixels).EveryStep (DrawnExactly oneWaiting plainPixels)
      (newMirror oneWaiting)
      [(.memBlt, grayBitmap 1), (.memBlt, grayBitmap 1), (.memBlt, grayBitmap 2),
        (.memBlt, grayBitmap 1)]) ∧
    ¬ (mirrorMachine manyEntries plainPixels).EveryStep (DrawnExactly manyEntries plainPixels)
      (newMirror manyEntries)
      (numberedDraws (32768 + 1) ++ [(.memBlt, numberedBitmap 32767)]) :=
  ⟨other_depth_converted, last_entry_overwritten, only_entry_overwritten,
    large_index_overwritten rfl⟩

end Redemption.Caches
