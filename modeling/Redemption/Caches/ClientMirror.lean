import Mathlib.Data.List.Lex
import Redemption.Caches.Serializer

/-! A client that follows the orders has the bitmaps that the orders draw. -/
namespace Redemption.Caches

open Redemption.Foundation

variable {δ : Type} [LinearOrder δ]

/-- What holds of a cache whatever was done with it. -/
structure Sane (config : Config) (hash : Bitmap → δ) (cache : BmpCache δ) : Prop where
  size : ∀ id, (cache.range id).size = config.entries id
  sound : ∀ id, (cache.range id).Sound hash

/-- An entry is there for a bitmap that is put. -/
def InRange (timed : Timed δ) : Operation → Prop
  | .put id idx _ => BmpCache.position (timed.cache.caches id) idx < (timed.cache.caches id).size
  | _ => True

namespace Sane

variable {config : Config} {pixels : Pixels δ} {cache cache' : BmpCache δ}

theorem fresh (unset : δ) : Sane config pixels.sha1 (BmpCache.fresh config unset) := by
  refine ⟨fun id => ?_, fun id => ?_⟩
  · cases id <;> rfl
  · cases id with
    | cache id => exact CacheRange.Sound.fresh _ unset
    | waitingList => exact CacheRange.Sound.fresh _ unset

/-- One cache changes; at most a bitmap that was found leaves the waiting list. -/
theorem useCache (sane : Sane config pixels.sha1 cache) {id : Fin 5} {range : CacheRange δ}
    (caches : cache'.caches = Function.update cache.caches id range)
    (waiting : cache'.waitingList = cache.waitingList ∨
      ∃ sha1 index, cache.waitingList.getCacheIndex sha1 = some index ∧
        cache'.waitingList = (cache.waitingList.remove sha1).resetElem index)
    (size : range.size = (cache.caches id).size) (sound : range.Sound pixels.sha1) :
    Sane config pixels.sha1 cache' := by
  have each (other : RangeId) : (cache'.range other).size = (cache.range other).size ∧
      (cache'.range other).Sound pixels.sha1 := by
    cases other with
    | cache other =>
      change (cache'.caches other).size = (cache.caches other).size ∧ (cache'.caches other).Sound _
      rw [caches]
      by_cases same : other = id
      · rw [same, Function.update_self]
        exact ⟨size, sound⟩
      · rw [Function.update_of_ne same]
        exact ⟨rfl, sane.sound (.cache other)⟩
    | waitingList =>
      change cache'.waitingList.size = cache.waitingList.size ∧ cache'.waitingList.Sound _
      rcases waiting with same | ⟨sha1, index, found, gone⟩
      · rw [same]
        exact ⟨rfl, sane.sound .waitingList⟩
      · rw [gone]
        exact ⟨rfl, (sane.sound .waitingList).removeElem found⟩
  exact ⟨fun other => (each other).1.trans (sane.size other), fun other => (each other).2⟩

theorem entries_pos (sane : Sane config pixels.sha1 cache) {id : Fin 5}
    (counted : id.val < config.numberOfCache) : 0 < (cache.caches id).size :=
  Nat.lt_of_lt_of_eq (config.used id counted) (sane.size (.cache id)).symm

theorem waiting_pos (sane : Sane config pixels.sha1 cache) (listed : config.useWaitingList = true) :
    cache.waitingList.size = maximumNumberOfCacheEntries := by
  have same := sane.size .waitingList
  rw [Config.entries, Config.liteEntries, if_pos listed] at same
  exact same

theorem place (sane : Sane config pixels.sha1 cache) {id : Fin 5} (bmp : Bitmap)
    (counted : id.val < config.numberOfCache) :
    Sane config pixels.sha1 (cache.place config pixels id bmp).2 := by
  have sound := sane.sound (.cache id)
  rcases @place_cases _ _ config pixels cache id bmp with
    ⟨index, _, _, placed⟩ | ⟨_, _, listed, _, _, placed⟩ | ⟨_, _, waitingList, waiting, placed⟩
  · rw [placed]
    exact sane.useCache rfl (.inl rfl) rfl sound.touch
  · rw [placed]
    have inside : cache.waitingList.privGetOldIndex cache.waitingList.size <
        cache.waitingList.size :=
      CacheRange.getOldIndex_lt false (by rw [sane.waiting_pos listed]; decide)
    refine ⟨fun other => ?_, fun other => ?_⟩
    · rw [← sane.size other]
      cases other with
      | cache other => rfl
      | waitingList => exact CacheRange.size_replace
    · cases other with
      | cache other => exact sane.sound (.cache other)
      | waitingList => exact (sane.sound .waitingList).replace inside rfl
  · rw [placed]
    refine sane.useCache rfl ?_ CacheRange.size_replace
      (sound.replace (CacheRange.getOldIndex_lt _ (sane.entries_pos counted)) rfl)
    exact waiting.imp_right fun ⟨index, found, gone⟩ => ⟨_, index, found, gone⟩

theorem step {timed : Timed δ} (sane : Sane config pixels.sha1 timed.cache) {operation : Operation}
    (inRange : InRange timed operation) :
    Sane config pixels.sha1 ((cacheMachine config pixels).next timed operation).cache := by
  rw [next_eq]
  cases operation with
  | put id idx bmp =>
    exact sane.useCache rfl (.inl rfl) CacheRange.size_replace
      ((sane.sound (.cache id)).replace inRange rfl)
  | get id idx => exact sane
  | cacheBitmap oldbmp =>
    rw [perform, BmpCache.cacheBitmap]
    cases which : config.cacheFor (pixels.convert config.bpp oldbmp).bmpSize with
    | none => exact sane
    | some id => exact sane.place _ (cacheFor_some which).1
  | reset =>
    refine ⟨fun id => ?_, fun id => ?_⟩
    · rw [← sane.size id]
      cases id <;> rfl
    · cases id with
      | cache id => exact CacheRange.Sound.clear _
      | waitingList => exact sane.sound .waitingList

theorem run {operations : List Operation} (unset : δ)
    (inRange : (cacheMachine config pixels).EveryStep InRange (Timed.fresh config unset)
      operations) :
    Sane config pixels.sha1 (runOperations config pixels unset operations).cache := by
  have keeps (timed : Timed δ) (operation : Operation)
      (sane : Sane config pixels.sha1 timed.cache) (allowed : InRange timed operation) :
      Sane config pixels.sha1 ((cacheMachine config pixels).next timed operation).cache :=
    sane.step allowed
  exact Machine.invariant_run keeps (fresh unset) inRange

end Sane

/-- The entries of the caches have an index of their own in orders, and of a cache whose last entry
is for the waiting list there are others. -/
structure Config.Addressable (config : Config) : Prop where
  indices : ∀ id, (config.options id).entries.toNat ≤ bitmapcacheWaitingListIndex.toNat
  others : ∀ id : Fin 5, id.val < config.numberOfCache → (config.options id).isPersistent →
    config.useWaitingList → 2 ≤ (config.options id).entries.toNat

/-- The entry for the waiting list has no bitmap in the cache. -/
def Config.Reserved (config : Config) (cache : BmpCache δ) : Prop :=
  ∀ id, (config.options id).isPersistent → config.useWaitingList →
    ¬ (cache.caches id).isValid ((config.options id).entries.toNat - 1)

/-- A client has all bitmaps of a cache at their entries. -/
structure Mirrored (config : Config) (hash : Bitmap → δ) (cache : BmpCache δ)
    (client : ClientCache) : Prop where
  sane : Sane config hash cache
  same : ∀ id index bmp, index < (config.options id).entries.toNat →
    ((cache.caches id).elem index).bmp = some bmp → client id index = some bmp
  reserved : config.Reserved cache

/-- The orders end with one that draws; there a client that had the bitmaps draws this one. -/
def Draws (config : Config) (client : ClientCache) (kind : BltKind) (orders : List Order)
    (bmp : Bitmap) : Prop :=
  ∃ caches id idx, orders = caches ++ [.blt kind id idx] ∧
    (∀ order ∈ caches, ∃ id idx bmp, order = .bmpCache id idx bmp) ∧
    (client.after config caches).shown config id idx = some bmp

section Mirror

variable {config : Config} {pixels : Pixels δ} {cache cache' : BmpCache δ} {client : ClientCache}
  {id : Fin 5} {index : Nat}

theorem index_ofNat (addressable : config.Addressable)
    (inside : index < (config.options id).entries.toNat) :
    BitVec.ofNat 16 index ≠ bitmapcacheWaitingListIndex ∧ (BitVec.ofNat 16 index).toNat = index := by
  have most := addressable.indices id
  have value : (BitVec.ofNat 16 index).toNat = index := by
    rw [BitVec.toNat_ofNat]
    omega
  refine ⟨fun same => ?_, value⟩
  rw [same] at value
  omega

theorem entry_ofNat (addressable : config.Addressable)
    (inside : index < (config.options id).entries.toNat) :
    ClientCache.entry config id (BitVec.ofNat 16 index) = index := by
  obtain ⟨other, value⟩ := index_ofNat addressable inside
  rw [ClientCache.entry, if_neg other, value]

omit [LinearOrder δ] in
theorem position_ofNat (addressable : config.Addressable)
    (inside : index < (config.options id).entries.toNat) (range : CacheRange δ) :
    BmpCache.position range (BitVec.ofNat 16 index) = index := by
  obtain ⟨other, value⟩ := index_ofNat addressable inside
  rw [BmpCache.position, if_neg other, value]

omit [LinearOrder δ] in
theorem emitBmpCache_some (addressable : config.Addressable)
    (inside : index < (config.options id).entries.toNat) {bmp : Bitmap}
    (there : ((cache.caches id).elem index).bmp = some bmp) :
    emitBmpCache cache id (BitVec.ofNat 16 index) false =
      [.bmpCache id (BitVec.ofNat 16 index) bmp] := by
  have got : cache.get id.castSucc (BitVec.ofNat 16 index) = some bmp := by
    have small : id.castSucc.val < 5 := id.isLt
    rw [BmpCache.get, dif_pos small]
    change ((cache.caches id).elem (BmpCache.position (cache.caches id) _)).bmp = _
    rw [position_ofNat addressable inside, there]
  rw [emitBmpCache]
  simp only [Bool.false_eq_true, if_false, got]

theorem Mirrored.congr (mirrored : Mirrored config pixels.sha1 cache client)
    (sane : Sane config pixels.sha1 cache')
    (bmps : ∀ id index, ((cache'.caches id).elem index).bmp = ((cache.caches id).elem index).bmp) :
    Mirrored config pixels.sha1 cache' client := by
  refine ⟨sane, fun id index bmp inside there => ?_, fun id persistent listed => ?_⟩
  · rw [bmps] at there
    exact mirrored.same id index bmp inside there
  · rw [CacheRange.isValid, bmps]
    exact mirrored.reserved id persistent listed

omit [LinearOrder δ] in
theorem bmp_setElem_same (cache : BmpCache δ) (id : Fin 5) (index : Nat)
    (element : CacheElement δ) (same : element.bmp = ((cache.caches id).elem index).bmp) (other : Fin 5) (position : Nat) :
    (((cache.setRange id ((cache.caches id).setElem index element)).caches other).elem
      position).bmp = ((cache.caches other).elem position).bmp := by
  change ((Function.update cache.caches id _ other).elem position).bmp = _
  by_cases here : other = id
  · rw [here, Function.update_self]
    by_cases at' : position = index
    · rw [at', CacheRange.elem_setElem_self, same]
    · rw [CacheRange.elem_setElem_other _ at']
  · rw [Function.update_of_ne here]

/-- A bitmap that the client gets at the entry where the cache puts it. -/
theorem Mirrored.replace (mirrored : Mirrored config pixels.sha1 cache client)
    (sane : Sane config pixels.sha1 cache') {bmp : Bitmap} {stamp : Nat}
    (caches : cache'.caches = Function.update cache.caches id
      ((cache.caches id).replace index bmp (pixels.sha1 bmp) stamp))
    (free : (config.options id).isPersistent → config.useWaitingList →
      index ≠ (config.options id).entries.toNat - 1) :
    Mirrored config pixels.sha1 cache'
      (Function.update client id (Function.update (client id) index (some bmp))) := by
  refine ⟨sane, fun other position bmp' inside there => ?_, fun other persistent listed => ?_⟩
  · rw [caches] at there
    by_cases here : other = id
    · rw [here, Function.update_self] at there ⊢
      by_cases at' : position = index
      · rw [at', CacheRange.elem_replace_self] at there
        rw [at', Function.update_self]
        exact there
      · rw [CacheRange.elem_replace_other at'] at there
        rw [Function.update_of_ne at']
        rw [here] at inside
        exact mirrored.same id position bmp' inside there
    · rw [Function.update_of_ne here] at there ⊢
      exact mirrored.same other position bmp' inside there
  · have before := mirrored.reserved other persistent listed
    rw [caches]
    by_cases here : other = id
    · rw [here] at persistent before ⊢
      have different := (free persistent listed).symm
      rw [Function.update_self, CacheRange.isValid, CacheRange.elem_replace_other different]
      exact before
    · rw [Function.update_of_ne here]
      exact before

theorem Mirrored.waiting (mirrored : Mirrored config pixels.sha1 cache client)
    (persistent : (config.options id).isPersistent) (listed : config.useWaitingList) (bmp : Bitmap) :
    Mirrored config pixels.sha1 cache (Function.update client id
      (Function.update (client id) ((config.options id).entries.toNat - 1) (some bmp))) := by
  refine ⟨mirrored.sane, fun other position bmp' inside there => ?_, mirrored.reserved⟩
  by_cases here : other = id
  · rw [here] at inside there ⊢
    have different : position ≠ (config.options id).entries.toNat - 1 := by
      rintro rfl
      exact mirrored.reserved id persistent listed
        (Option.isSome_iff_exists.mpr ⟨bmp', there⟩)
    rw [Function.update_self, Function.update_of_ne different]
    exact mirrored.same id position bmp' inside there
  · rw [Function.update_of_ne here]
    exact mirrored.same other position bmp' inside there

theorem receive_ofNat (addressable : config.Addressable)
    (inside : index < (config.options id).entries.toNat) (bmp : Bitmap) :
    client.receive config (.bmpCache id (BitVec.ofNat 16 index) bmp) =
      Function.update client id (Function.update (client id) index (some bmp)) := by
  rw [ClientCache.receive, entry_ofNat addressable inside]

theorem shown_ofNat (addressable : config.Addressable)
    (inside : index < (config.options id).entries.toNat) :
    client.shown config id (BitVec.ofNat 16 index) = client id index := by
  rw [ClientCache.shown, entry_ofNat addressable inside]

theorem after_one (order : Order) : client.after config [order] = client.receive config order := rfl

theorem after_blt (orders : List Order) (kind : BltKind) (id : Fin 5) (idx : BitVec 16) :
    client.after config (orders ++ [.blt kind id idx]) = client.after config orders := by
  rw [ClientCache.after, List.foldl_append]
  rfl

/-- A bitmap that was found is at its entry, also if it is sent again. -/
theorem Mirrored.drawFound (mirrored : Mirrored config pixels.sha1 cache client)
    (addressable : config.Addressable) (injective : Function.Injective pixels.sha1)
    {bmp : Bitmap} (found : (cache.caches id).getCacheIndex (pixels.sha1 bmp) = some index)
    (kind : BltKind) (stamp : BitVec 32) {cache1 : BmpCache δ}
    (touched : cache1 =
      { cache.setRange id ((cache.caches id).touch index stamp.toNat) with stamp }) :
    Draws config client kind (serialize config cache1 kind (.found id index)).1 bmp ∧
      Mirrored config pixels.sha1 (serialize config cache1 kind (.found id index)).2
        (client.after config (serialize config cache1 kind (.found id index)).1) := by
  have size : (cache.caches id).size = (config.options id).entries.toNat :=
    mirrored.sane.size (.cache id)
  have sound : (cache.caches id).Sound pixels.sha1 := mirrored.sane.sound (.cache id)
  obtain ⟨inside, bmp', there', same⟩ := sound.found found
  obtain rfl := injective same
  rw [size] at inside
  have has := mirrored.same id index bmp' inside there'
  have bmps (other : Fin 5) (position : Nat) :
      ((cache1.caches other).elem position).bmp = ((cache.caches other).elem position).bmp := by
    rw [touched]
    exact bmp_setElem_same cache id index
      { (cache.caches id).elem index with stamp := stamp.toNat } rfl other position
  have sane1 : Sane config pixels.sha1 cache1 := by
    rw [touched]
    exact mirrored.sane.useCache rfl (.inl rfl) rfl sound.touch
  have mirrored1 := mirrored.congr sane1 bmps
  have there : ((cache1.caches id).elem index).bmp = some bmp' := (bmps id index).trans there'
  have shown : client.shown config id (BitVec.ofNat 16 index) = some bmp' := by
    rw [shown_ofNat addressable inside, has]
  rw [serialize]
  by_cases sent : config.owner = .recorder ∧ ¬ cache1.isCached id (BitVec.ofNat 16 index)
  · have again : client.receive config (.bmpCache id (BitVec.ofNat 16 index) bmp') = client := by
      rw [receive_ofNat addressable inside, ← has, Function.update_eq_self,
        Function.update_eq_self]
    rw [if_pos sent, emitBmpCache_some addressable inside there]
    refine ⟨⟨_, id, _, rfl, ?_, ?_⟩, ?_⟩
    · intro order member
      exact ⟨id, _, bmp', List.mem_singleton.mp member⟩
    · rw [after_one, again, shown]
    · rw [after_blt, after_one, again]
      exact mirrored1.congr (mirrored1.sane.useCache rfl (.inl rfl) rfl
        ((mirrored1.sane.sound (.cache id)).setElem_same rfl rfl))
        (bmp_setElem_same cache1 id _ { (cache1.caches id).elem _ with cached := true } rfl)
  · rw [if_neg sent]
    refine ⟨⟨[], id, _, rfl, ?_, shown⟩, mirrored1⟩
    intro _ member
    cases member

theorem Mirrored.drawAdded (mirrored : Mirrored config pixels.sha1 cache client)
    (addressable : config.Addressable) {bmp : Bitmap} {stamp : Nat} (kind : BltKind)
    (sane : Sane config pixels.sha1 cache')
    (caches : cache'.caches = Function.update cache.caches id
      ((cache.caches id).replace index bmp (pixels.sha1 bmp) stamp))
    (inside : index < (config.options id).entries.toNat)
    (free : (config.options id).isPersistent → config.useWaitingList →
      index ≠ (config.options id).entries.toNat - 1) :
    Draws config client kind (serialize config cache' kind (.added id index)).1 bmp ∧
      Mirrored config pixels.sha1 (serialize config cache' kind (.added id index)).2
        (client.after config (serialize config cache' kind (.added id index)).1) := by
  have there : ((cache'.caches id).elem index).bmp = some bmp := by
    rw [caches, Function.update_self, CacheRange.elem_replace_self]
  rw [serialize]
  simp only [emitBmpCache_some addressable inside there]
  refine ⟨⟨_, id, _, rfl, ?_, ?_⟩, ?_⟩
  · intro order member
    exact ⟨id, _, bmp, List.mem_singleton.mp member⟩
  · rw [after_one, shown_ofNat addressable inside, receive_ofNat addressable inside, Function.update_self,
      Function.update_self]
  · rw [after_blt, after_one, receive_ofNat addressable inside]
    exact mirrored.replace sane caches free

/-- A bitmap in the waiting list is sent for the entry of the list. -/
theorem Mirrored.drawWaiting (mirrored : Mirrored config pixels.sha1 cache client) {bmp : Bitmap}
    (kind : BltKind) (sane : Sane config pixels.sha1 cache')
    (caches : cache'.caches = cache.caches) (list : cache'.waitingListBitmap = some bmp)
    (persistent : (config.options id).isPersistent) (listed : config.useWaitingList) :
    Draws config client kind (serialize config cache' kind (.waiting id index)).1 bmp ∧
      Mirrored config pixels.sha1 (serialize config cache' kind (.waiting id index)).2
        (client.after config (serialize config cache' kind (.waiting id index)).1) := by
  have emitted : emitBmpCache cache' id (BitVec.ofNat 16 index) true =
      [.bmpCache id bitmapcacheWaitingListIndex bmp] := by
    have got : cache'.get 5 (BitVec.ofNat 16 index) = some bmp := list
    rw [emitBmpCache]
    simp only [if_true, got]
  have entry : ClientCache.entry config id bitmapcacheWaitingListIndex =
      (config.options id).entries.toNat - 1 := if_pos rfl
  rw [serialize]
  simp only [emitted]
  refine ⟨⟨_, id, _, rfl, ?_, ?_⟩, ?_⟩
  · intro order member
    exact ⟨id, _, bmp, List.mem_singleton.mp member⟩
  · rw [after_one, ClientCache.shown, ClientCache.receive, entry, Function.update_self,
      Function.update_self]
  · rw [after_blt, after_one, ClientCache.receive, entry]
    exact (mirrored.waiting persistent listed bmp).congr sane
      fun id index => by rw [caches]

/-- A draw leaves a client with the bitmaps, and draws the right one there. -/
theorem Mirrored.draw (mirrored : Mirrored config pixels.sha1 cache client)
    (addressable : config.Addressable) (injective : Function.Injective pixels.sha1)
    {kind : BltKind} {oldbmp : Bitmap} {orders : List Order}
    (drawn : drawMemblt config pixels cache kind oldbmp = .ok (orders, cache')) :
    Draws config client kind orders (pixels.convert config.bpp oldbmp) ∧
      Mirrored config pixels.sha1 cache' (client.after config orders) := by
  cases which : config.cacheFor (pixels.convert config.bpp oldbmp).bmpSize with
  | none =>
    rw [drawMemblt, BmpCache.cacheBitmap] at drawn
    simp only [which] at drawn
    cases drawn
  | some id =>
    have counted := (cacheFor_some which).1
    have sane := mirrored.sane.place (pixels.convert config.bpp oldbmp) counted
    have size : (cache.caches id).size = (config.options id).entries.toNat :=
      mirrored.sane.size (.cache id)
    rcases @place_cases _ _ config pixels cache id (pixels.convert config.bpp oldbmp) with
      ⟨index, found, _, placed⟩ | ⟨_, persistent, listed, _, _, placed⟩ |
        ⟨_, _, waitingList, _, placed⟩
    · have inside := ((mirrored.sane.sound (.cache id)).found found).1
      change index < (cache.caches id).size at inside
      rw [drawMemblt_eq which placed (by change index < _; omega)] at drawn
      obtain ⟨rfl, rfl⟩ := Prod.mk.inj (Except.ok.inj drawn)
      exact mirrored.drawFound addressable injective found kind _ rfl
    · have inside : cache.waitingList.privGetOldIndex cache.waitingList.size <
          cache.waitingList.size :=
        CacheRange.getOldIndex_lt false (by rw [mirrored.sane.waiting_pos listed]; decide)
      have small : cache.waitingList.privGetOldIndex cache.waitingList.size < 2 ^ 16 := by
        have most := mirrored.sane.waiting_pos listed
        have limit : maximumNumberOfCacheEntries = 8192 := rfl
        omega
      rw [placed] at sane
      rw [drawMemblt_eq which placed small] at drawn
      obtain ⟨rfl, rfl⟩ := Prod.mk.inj (Except.ok.inj drawn)
      exact mirrored.drawWaiting kind sane rfl rfl persistent listed
    · have inside := @CacheRange.getOldIndex_lt _ (cache.caches id) config.useWaitingList (mirrored.sane.entries_pos counted)
      rw [placed] at sane
      rw [drawMemblt_eq which placed (by change CacheRange.getOldIndex _ _ < _; omega)] at drawn
      obtain ⟨rfl, rfl⟩ := Prod.mk.inj (Except.ok.inj drawn)
      rw [size] at inside
      refine mirrored.drawAdded addressable kind sane rfl inside fun persistent listed => ?_
      have two := addressable.others id counted persistent listed
      have le := @oldest_le ((cache.caches id).stampAt) ((cache.caches id).size - 1 - 1)
      rw [CacheRange.getOldIndex, if_pos listed, CacheRange.privGetOldIndex]
      omega

end Mirror

section Run

variable (config : Config) (pixels : Pixels δ)

/-- A cache through which bitmaps are drawn, and a client that gets the orders. -/
def mirrorMachine :
    Machine (BmpCache δ × ClientCache) (BltKind × Bitmap) (Except ErrorId (List Order)) :=
  ⟨fun (cache, client) (kind, oldbmp) =>
    match drawMemblt config pixels cache kind oldbmp with
    | .ok (orders, cache) => ((cache, client.after config orders), .ok orders)
    | .error error => ((cache, client), .error error)⟩

/-- If the bitmap is not too big, the orders end with one that draws it, in the depth of the
cache. -/
def DrawnRight (state : BmpCache δ × ClientCache) (input : BltKind × Bitmap) : Prop :=
  ∀ orders cache, drawMemblt config pixels state.1 input.1 input.2 = .ok (orders, cache) →
    Draws config state.2 input.1 orders (pixels.convert config.bpp input.2)

end Run

section Step

variable {config : Config} {pixels : Pixels δ} {state : BmpCache δ × ClientCache}
  {input : BltKind × Bitmap}

theorem mirror_next_ok {orders : List Order} {cache : BmpCache δ}
    (drawn : drawMemblt config pixels state.1 input.1 input.2 = .ok (orders, cache)) :
    (mirrorMachine config pixels).next state input = (cache, state.2.after config orders) := by
  rw [Machine.next, mirrorMachine]
  simp only [drawn]

theorem mirror_next_error {error : ErrorId}
    (drawn : drawMemblt config pixels state.1 input.1 input.2 = .error error) :
    (mirrorMachine config pixels).next state input = state := by
  rw [Machine.next, mirrorMachine]
  simp only [drawn]

theorem keepsMirrored (addressable : config.Addressable)
    (injective : Function.Injective pixels.sha1) (state : BmpCache δ × ClientCache)
    (input : BltKind × Bitmap) (mirrored : Mirrored config pixels.sha1 state.1 state.2)
    (_ : True) :
    Mirrored config pixels.sha1 ((mirrorMachine config pixels).next state input).1
      ((mirrorMachine config pixels).next state input).2 := by
  cases drawn : drawMemblt config pixels state.1 input.1 input.2 with
  | ok result =>
    rw [mirror_next_ok drawn]
    exact (mirrored.draw addressable injective drawn).2
  | error error =>
    rw [mirror_next_error drawn]
    exact mirrored

end Step

/-- A client that starts like a cache draws the right bitmap at every order. -/
theorem client_mirror (config : Config) (addressable : config.Addressable) (pixels : Pixels δ)
    (injective : Function.Injective pixels.sha1) (unset : δ) (operations : List Operation)
    (inRange : (cacheMachine config pixels).EveryStep InRange (Timed.fresh config unset)
      operations)
    (reserved : config.Reserved (runOperations config pixels unset operations).cache)
    (client : ClientCache)
    (starts : ∀ id index, client id index =
      (((runOperations config pixels unset operations).cache.caches id).elem index).bmp)
    (draws : List (BltKind × Bitmap)) :
    (mirrorMachine config pixels).EveryStep (DrawnRight config pixels)
      ((runOperations config pixels unset operations).cache, client) draws := by
  have mirrored : Mirrored config pixels.sha1
      (runOperations config pixels unset operations).cache client :=
    ⟨Sane.run unset inRange, fun id index bmp _ there => (starts id index).trans there, reserved⟩
  refine Machine.everyStep_of_invariant (keepsMirrored addressable injective) ?_ mirrored
    (Machine.everyStep_of_forall (fun _ _ => trivial) _ draws)
  intro state input mirrored _ orders cache drawn
  exact (mirrored.draw addressable injective drawn).1

/-- What tells bitmaps apart. -/
def bitmapFields (bmp : Bitmap) : List Nat :=
  [if bmp.bpp = .bpp15 then 15 else 8 * nbBytesPerPixel bmp.bpp, bmp.cx, bmp.cy, bmp.data.length] ++
    (bmp.data ++ bmp.palette).map BitVec.toNat

theorem bitmapFields_injective : Function.Injective bitmapFields := by
  have bpps (first second : BitsPerPixel)
      (same : (if first = .bpp15 then 15 else 8 * nbBytesPerPixel first) =
        if second = .bpp15 then 15 else 8 * nbBytesPerPixel second) : first = second := by
    cases first <;> cases second <;> first | rfl | exact absurd same (by decide)
  intro first second same
  obtain ⟨bpp, cx, cy, data, palette⟩ := first
  obtain ⟨bpp', cx', cy', data', palette'⟩ := second
  obtain ⟨head, rest⟩ := List.append_inj same rfl
  simp only [List.cons.injEq] at head
  obtain ⟨bppSame, rfl, rfl, length, _⟩ := head
  have bytes := List.map_injective_iff.mpr (fun _ _ => BitVec.eq_of_toNat_eq) rest
  obtain ⟨rfl, rfl⟩ := List.append_inj bytes length
  rw [bpps bpp bpp' bppSame]

/-- A hash without collisions. -/
def plainPixels : Pixels (List Nat) := ⟨bitmapFields, fun _ bmp => bmp.data, []⟩

/-- An empty cache and a client. -/
def newMirror (config : Config) : BmpCache (List Nat) × ClientCache :=
  (BmpCache.fresh config [], fun _ _ => none)

/-- A persistent cache with a waiting list. -/
def waitingEntries : Config :=
  { twoEntries with
    owner := .front
    useWaitingList := true
    options := fun id => if id = 0 then ⟨3, 768, true⟩ else ⟨0, 0, false⟩
    used := by decide }

/-- A bitmap that was loaded. -/
def loadedCache : BmpCache (List Nat) :=
  (runOperations waitingEntries plainPixels [] [.put 0 0 (grayBitmap 9)]).cache

/-- Another bitmap waits, and is cached when it is drawn again. -/
theorem client_mirror_waits :
    (mirrorMachine waitingEntries plainPixels).EveryStep (DrawnRight waitingEntries plainPixels)
      (loadedCache, fun id index => ((loadedCache.caches id).elem index).bmp)
      [(.memBlt, grayBitmap 1), (.mem3Blt, grayBitmap 9), (.memBlt, grayBitmap 1)] := by
  have inRange : InRange (Timed.fresh waitingEntries ([] : List Nat)) (.put 0 0 (grayBitmap 9)) :=
    Nat.zero_lt_succ 2
  refine client_mirror waitingEntries ⟨by decide, by decide⟩ plainPixels bitmapFields_injective []
    [.put 0 0 (grayBitmap 9)] ⟨inRange, trivial⟩ ?_ _ (fun _ _ => rfl) _
  intro id persistent _
  obtain rfl : id = 0 := by revert id; decide
  decide

end Redemption.Caches
