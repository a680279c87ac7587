import Redemption.Caches.CacheRun

/-! Bitmaps that are drawn through the bitmap cache, and a client that follows the orders. -/
namespace Redemption.Caches

open Redemption.Foundation

inductive BltKind where
  | memBlt
  | mem3Blt
  deriving DecidableEq, Repr

/-- What of an order is about the bitmap cache. -/
inductive Order where
  /-- `RDPBmpCache`, with the index that it is emitted with. -/
  | bmpCache (id : Fin 5) (idx : BitVec 16) (bmp : Bitmap)
  /-- `RDPMemBlt` or `RDPMem3Blt`. -/
  | blt (kind : BltKind) (id : Fin 5) (idx : BitVec 16)

/-- The id in a result of `cache_bitmap`, if there is such a cache. -/
def decodeId (res : BitVec 32) : Option (Fin 5) :=
  let cacheId := ((res >>> 16) &&& 0x7).toNat
  if small : cacheId < 5 then some ⟨cacheId, small⟩ else none

section Model

variable {δ : Type}

/-- `emit_bmp_cache`: an order, unless the bitmap is not valid. -/
def emitBmpCache (cache : BmpCache δ) (cacheId : Fin 5) (cacheIdx : BitVec 16)
    (inWaitList : Bool) : List Order :=
  let bmp := if inWaitList then cache.get 5 cacheIdx else cache.get cacheId.castSucc cacheIdx
  match bmp with
  | none => []
  | some bmp =>
    [.bmpCache cacheId (if inWaitList then bitmapcacheWaitingListIndex else cacheIdx) bmp]

variable [LinearOrder δ] (config : Config) (pixels : Pixels δ)

/-- `draw_memblt`: the orders, and the cache after them. -/
def drawMemblt (cache : BmpCache δ) (kind : BltKind) (oldbmp : Bitmap) :
    Except ErrorId (List Order × BmpCache δ) := do
  let (res, cache) ← cache.cacheBitmap config pixels oldbmp
  match decodeId res with
  | none => return ([], cache)
  | some cacheId =>
    let inWaitList := (res >>> 16) &&& inWaitList ≠ 0
    let cacheIdx := res.setWidth 16
    let (cacheOrders, cache) :=
      if res >>> 24 = 1 then (emitBmpCache cache cacheId cacheIdx inWaitList, cache)
      else if config.owner = .recorder ∧ ¬ cache.isCached cacheId cacheIdx then
        (emitBmpCache cache cacheId cacheIdx inWaitList, cache.setCached cacheId cacheIdx true)
      else ([], cache)
    return (cacheOrders ++
      [.blt kind cacheId (if inWaitList then bitmapcacheWaitingListIndex else cacheIdx)], cache)

end Model

/-- The bitmaps that a client has. -/
abbrev ClientCache := Fin 5 → Nat → Option Bitmap

namespace ClientCache

variable (config : Config)

/-- The entry that an index stands for; the waiting list uses the last one. -/
def entry (id : Fin 5) (idx : BitVec 16) : Nat :=
  if idx = bitmapcacheWaitingListIndex then (config.options id).entries.toNat - 1 else idx.toNat

/-- What a client does with an order. -/
def receive (client : ClientCache) : Order → ClientCache
  | .bmpCache id idx bmp =>
    Function.update client id (Function.update (client id) (entry config id idx) (some bmp))
  | .blt _ _ _ => client

/-- The bitmap that a client draws. -/
def shown (client : ClientCache) (id : Fin 5) (idx : BitVec 16) : Option Bitmap :=
  client id (entry config id idx)

/-- What a client has after some orders. -/
def after (client : ClientCache) (orders : List Order) : ClientCache :=
  orders.foldl (receive config) client

end ClientCache

section Decode

/-- The upper half of a result. -/
def Placement.high : Placement → Nat
  | .found id _ => id
  | .added id _ => 256 + id
  | .waiting id _ => 384 + id

def Placement.id : Placement → Fin 5
  | .found id _ => id
  | .added id _ => id
  | .waiting id _ => id

def Placement.index : Placement → Nat
  | .found _ index => index
  | .added _ index => index
  | .waiting _ index => index

theorem halves {high low : Nat} (fits : high < 2 ^ 16) (small : low < 2 ^ 16) :
    BitVec.ofNat 32 (high * 2 ^ 16) ||| BitVec.ofNat 32 low =
      BitVec.ofNat 32 (high * 2 ^ 16 + low) := by
  apply BitVec.eq_of_toNat_eq
  rw [BitVec.toNat_or, BitVec.toNat_ofNat, BitVec.toNat_ofNat, BitVec.toNat_ofNat,
    Nat.mod_eq_of_lt (by omega), Nat.mod_eq_of_lt (by omega), Nat.mod_eq_of_lt (by omega),
    ← Nat.shiftLeft_eq, Nat.shiftLeft_add_eq_or_of_lt small]

theorem Placement.high_lt (placement : Placement) : placement.high < 2 ^ 16 := by
  cases placement with
  | found id index =>
    change id.val < _
    omega
  | added id index =>
    change 256 + id.val < _
    omega
  | waiting id index =>
    change 384 + id.val < _
    omega

variable {placement : Placement}

theorem Placement.encode_eq (small : placement.index < 2 ^ 16) :
    placement.encode = BitVec.ofNat 32 (placement.high * 2 ^ 16 + placement.index) := by
  have found (id : Fin 5) : (0#32 <<< 24) ||| (BitVec.ofNat 32 id <<< 16) =
      BitVec.ofNat 32 (id.val * 2 ^ 16) := by
    revert id
    decide
  have added (id : Fin 5) : (1#32 <<< 24) ||| (BitVec.ofNat 32 id <<< 16) =
      BitVec.ofNat 32 ((256 + id.val) * 2 ^ 16) := by
    revert id
    decide
  have waiting (id : Fin 5) : (1#32 <<< 24) ||| ((BitVec.ofNat 32 id ||| inWaitList) <<< 16) =
      BitVec.ofNat 32 ((384 + id.val) * 2 ^ 16) := by
    revert id
    decide
  rw [← halves placement.high_lt small]
  cases placement with
  | found id index => exact congrArg (· ||| BitVec.ofNat 32 index) (found id)
  | added id index => exact congrArg (· ||| BitVec.ofNat 32 index) (added id)
  | waiting id index => exact congrArg (· ||| BitVec.ofNat 32 index) (waiting id)

theorem Placement.encode_high (small : placement.index < 2 ^ 16) :
    placement.encode >>> 16 = BitVec.ofNat 32 placement.high := by
  have fits := placement.high_lt
  rw [encode_eq small]
  apply BitVec.eq_of_toNat_eq
  rw [BitVec.toNat_ushiftRight, BitVec.toNat_ofNat, BitVec.toNat_ofNat, Nat.shiftRight_eq_div_pow]
  omega

theorem Placement.encode_low (small : placement.index < 2 ^ 16) :
    placement.encode.setWidth 16 = BitVec.ofNat 16 placement.index := by
  rw [encode_eq small]
  apply BitVec.eq_of_toNat_eq
  rw [BitVec.toNat_setWidth, BitVec.toNat_ofNat, BitVec.toNat_ofNat]
  omega

theorem Placement.high_id (placement : Placement) :
    (BitVec.ofNat 32 placement.high &&& 0x7).toNat = placement.id := by
  have found (id : Fin 5) : (BitVec.ofNat 32 id &&& 0x7).toNat = id := by
    revert id
    decide
  have added (id : Fin 5) : (BitVec.ofNat 32 (256 + id) &&& 0x7).toNat = id := by
    revert id
    decide
  have waiting (id : Fin 5) : (BitVec.ofNat 32 (384 + id) &&& 0x7).toNat = id := by
    revert id
    decide
  cases placement with
  | found id index => exact found id
  | added id index => exact added id
  | waiting id index => exact waiting id

theorem decodeId_encode (small : placement.index < 2 ^ 16) :
    decodeId placement.encode = some placement.id := by
  have id := placement.high_id
  have within : (BitVec.ofNat 32 placement.high &&& 0x7).toNat < 5 := by
    rw [id]
    exact placement.id.isLt
  rw [decodeId, Placement.encode_high small, dif_pos within]
  exact congrArg some (Fin.ext id)

theorem Placement.high_inWaitList (placement : Placement) :
    (BitVec.ofNat 32 placement.high &&& inWaitList ≠ 0) ↔ ∃ id index, placement = .waiting id index := by
  have found (id : Fin 5) : BitVec.ofNat 32 id &&& inWaitList = 0 := by
    revert id
    decide
  have added (id : Fin 5) : BitVec.ofNat 32 (256 + id) &&& inWaitList = 0 := by
    revert id
    decide
  have waiting (id : Fin 5) : BitVec.ofNat 32 (384 + id) &&& inWaitList ≠ 0 := by
    revert id
    decide
  cases placement with
  | found id index => exact iff_of_false (not_not_intro (found id)) (by simp)
  | added id index => exact iff_of_false (not_not_intro (added id)) (by simp)
  | waiting id index => exact iff_of_true (waiting id) ⟨id, index, rfl⟩

theorem Placement.encode_tag (small : placement.index < 2 ^ 16) :
    placement.encode >>> 24 = 1 ↔ ¬ ∃ id index, placement = .found id index := by
  have tag : placement.encode >>> 24 = BitVec.ofNat 32 (placement.high / 256) := by
    have fits := placement.high_lt
    rw [encode_eq small]
    apply BitVec.eq_of_toNat_eq
    rw [BitVec.toNat_ushiftRight, BitVec.toNat_ofNat, BitVec.toNat_ofNat,
      Nat.shiftRight_eq_div_pow]
    omega
  have found (id : Fin 5) : BitVec.ofNat 32 (id / 256) ≠ 1 := by
    revert id
    decide
  have added (id : Fin 5) : BitVec.ofNat 32 ((256 + id) / 256) = 1 := by
    revert id
    decide
  have waiting (id : Fin 5) : BitVec.ofNat 32 ((384 + id) / 256) = 1 := by
    revert id
    decide
  rw [tag]
  cases placement with
  | found id index => exact iff_of_false (found id) (not_not_intro ⟨id, index, rfl⟩)
  | added id index => exact iff_of_true (added id) (by simp)
  | waiting id index => exact iff_of_true (waiting id) (by simp)

end Decode

section Draw

variable {δ : Type} [LinearOrder δ] {config : Config} {pixels : Pixels δ}

/-- What `draw_memblt` does after a bitmap was placed. -/
def serialize (config : Config) (cache : BmpCache δ) (kind : BltKind) :
    Placement → List Order × BmpCache δ
  | .found id index =>
    let idx := BitVec.ofNat 16 index
    if config.owner = .recorder ∧ ¬ cache.isCached id idx then
      (emitBmpCache cache id idx false ++ [.blt kind id idx], cache.setCached id idx true)
    else ([.blt kind id idx], cache)
  | .added id index =>
    let idx := BitVec.ofNat 16 index
    (emitBmpCache cache id idx false ++ [.blt kind id idx], cache)
  | .waiting id index =>
    (emitBmpCache cache id (BitVec.ofNat 16 index) true ++
      [.blt kind id bitmapcacheWaitingListIndex], cache)

/-- The result of `cache_bitmap` is understood. -/
theorem drawMemblt_eq {cache cache' : BmpCache δ} {kind : BltKind} {oldbmp : Bitmap} {id : Fin 5}
    {placement : Placement}
    (which : config.cacheFor (pixels.convert config.bpp oldbmp).bmpSize = some id)
    (placed : cache.place config pixels id (pixels.convert config.bpp oldbmp) =
      (placement, cache'))
    (small : placement.index < 2 ^ 16) :
    drawMemblt config pixels cache kind oldbmp = .ok (serialize config cache' kind placement) := by
  have tag := Placement.encode_tag small
  have list := placement.high_inWaitList
  rw [← Placement.encode_high small] at list
  have cached : cache.cacheBitmap config pixels oldbmp = .ok (placement.encode, cache') := by
    rw [BmpCache.cacheBitmap]
    simp only [which, placed]
  rw [drawMemblt, cached]
  simp only [bind, Except.bind, decodeId_encode small, Placement.encode_low small]
  have unlisted (none : ¬ ∃ id index, placement = .waiting id index) :
      placement.encode >>> 16 &&& inWaitList = 0 := not_not.mp fun other => none (list.mp other)
  cases placement with
  | found id index =>
    have found : ¬ (Placement.found id index).encode >>> 24 = 1 := fun same =>
      tag.mp same ⟨id, index, rfl⟩
    have out := unlisted (by simp)
    simp only [found, out, if_false, ne_eq, not_true_eq_false, decide_false, serialize,
      Placement.id, Placement.index]
    split <;> rfl
  | added id index =>
    have added : (Placement.added id index).encode >>> 24 = 1 := tag.mpr (by simp)
    have out := unlisted (by simp)
    simp only [added, out, if_true, if_false, ne_eq, not_true_eq_false, decide_false, serialize,
      Placement.id, Placement.index]
    rfl
  | waiting id index =>
    have added : (Placement.waiting id index).encode >>> 24 = 1 := tag.mpr (by simp)
    have listed := list.mpr ⟨id, index, rfl⟩
    simp only [added, listed, if_true, ne_eq, not_false_eq_true, decide_true, serialize,
      Placement.id, Placement.index]
    rfl

end Draw

end Redemption.Caches
