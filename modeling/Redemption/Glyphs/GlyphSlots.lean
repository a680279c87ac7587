import Redemption.Foundation.Recency
import Redemption.Glyphs.GlyphCache

/-! The caches of glyphs as slots that are reused by recency. -/
namespace Redemption.Glyphs

open Redemption.Foundation

/-- One of the caches. -/
def GlyphCache.slots (cache : GlyphCache) (cacheid : Fin numberOfGlyphCaches) : Slots Picture where
  clock := cache.glyphStamp
  stamp cacheidx := (cache.glyphs cacheid cacheidx).stamp
  key cacheidx := (cache.glyphs cacheid cacheidx).fontItem.map (·.toPicture)

def GlyphCache.size (cache : GlyphCache) (cacheid : Fin numberOfGlyphCaches) : Nat :=
  (cache.numberOfEntriesInCache cacheid).toNat

/-- What is known when `priv_add_glyph` looks at an entry. -/
structure Looked (slots : Slots Picture) (picture : Picture) (cacheIndex oldest ci : Nat) :
    Prop where
  absent : ∀ other < cacheIndex, slots.key other ≠ some picture
  least : ∀ other < cacheIndex, oldest ≤ slots.stamp other
  first : cacheIndex ≠ 0 → ci < cacheIndex ∧ slots.stamp ci = oldest
  start : cacheIndex = 0 → oldest = 0x7fffffff

section LookForMatch

variable {cache : GlyphCache} {cacheid : Fin numberOfGlyphCaches} {fontItem : FontChar}

theorem key_eq_some_iff {cacheidx : Nat} :
    (cache.slots cacheid).key cacheidx = some fontItem.toPicture ↔
      (cache.glyphs cacheid cacheidx).fontItem.any (fontItemEqual · fontItem) = true := by
  cases held : (cache.glyphs cacheid cacheidx).fontItem with
  | none => simp [GlyphCache.slots, held]
  | some item => simp [GlyphCache.slots, held, fontItemEqual_iff]

theorem Looked.skip {cacheIndex oldest ci : Nat}
    (looked : Looked (cache.slots cacheid) fontItem.toPicture cacheIndex oldest ci)
    (other : (cache.slots cacheid).key cacheIndex ≠ some fontItem.toPicture)
    (young : cacheIndex ≠ 0) (newer : oldest ≤ (cache.slots cacheid).stamp cacheIndex) :
    Looked (cache.slots cacheid) fontItem.toPicture (cacheIndex + 1) oldest ci := by
  refine ⟨?_, ?_, ?_, ?_⟩
  · intro index before
    rcases Nat.lt_succ_iff_lt_or_eq.mp before with earlier | rfl
    · exact looked.absent index earlier
    · exact other
  · intro index before
    rcases Nat.lt_succ_iff_lt_or_eq.mp before with earlier | rfl
    · exact looked.least index earlier
    · exact newer
  · intro _
    obtain ⟨before, stamp⟩ := looked.first young
    exact ⟨Nat.lt_succ_of_lt before, stamp⟩
  · intro zero
    exact absurd zero (Nat.succ_ne_zero _)

theorem Looked.take {cacheIndex oldest ci : Nat}
    (looked : Looked (cache.slots cacheid) fontItem.toPicture cacheIndex oldest ci)
    (other : (cache.slots cacheid).key cacheIndex ≠ some fontItem.toPicture)
    (older : (cache.slots cacheid).stamp cacheIndex < oldest) :
    Looked (cache.slots cacheid) fontItem.toPicture (cacheIndex + 1)
      ((cache.slots cacheid).stamp cacheIndex) cacheIndex := by
  refine ⟨?_, ?_, ?_, ?_⟩
  · intro index before
    rcases Nat.lt_succ_iff_lt_or_eq.mp before with earlier | rfl
    · exact looked.absent index earlier
    · exact other
  · intro index before
    rcases Nat.lt_succ_iff_lt_or_eq.mp before with earlier | rfl
    · exact Nat.le_trans (Nat.le_of_lt older) (looked.least index earlier)
    · exact Nat.le_refl _
  · intro _
    exact ⟨Nat.lt_succ_self _, rfl⟩
  · intro zero
    exact absurd zero (Nat.succ_ne_zero _)

/-- Among some entries, `priv_add_glyph` chooses the one with the glyph or the least recent. -/
theorem lookForMatch_chosen {size : Nat} (some_entry : 0 < size)
    (within : size ≤ numberOfGlyphCacheEntries)
    (stamps : ∀ cacheidx, (cache.slots cacheid).stamp cacheidx < 0x7fffffff)
    {left cacheIndex oldest ci : Nat} (whole : cacheIndex + left = size)
    (looked : Looked (cache.slots cacheid) fontItem.toPicture cacheIndex oldest ci) :
    ∃ result cacheidx,
      lookForMatch (cache.glyphs cacheid) fontItem left cacheIndex oldest ci =
        .ok (result, cacheidx) ∧
      Slots.Chosen size (cache.slots cacheid) fontItem.toPicture cacheidx ∧
      (result = .foundInCache → (cache.slots cacheid).key cacheidx = some fontItem.toPicture) := by
  induction left generalizing cacheIndex oldest ci with
  | zero =>
    obtain rfl : cacheIndex = size := by omega
    obtain ⟨before, stamp⟩ := looked.first (Nat.ne_of_gt some_entry)
    refine ⟨.addedToCache, ci, rfl, .oldest before looked.absent ?_, nofun⟩
    intro index small
    rw [stamp]
    exact looked.least index small
  | succ left ih =>
    have inside : ¬ numberOfGlyphCacheEntries ≤ cacheIndex := by omega
    rw [lookForMatch, if_neg inside]
    by_cases found : (cache.slots cacheid).key cacheIndex = some fontItem.toPicture
    · rw [if_pos (key_eq_some_iff.mp found)]
      exact ⟨.foundInCache, cacheIndex, rfl, .found (by omega) found, fun _ => found⟩
    · rw [if_neg (mt key_eq_some_iff.mpr found)]
      by_cases older : (cache.glyphs cacheid cacheIndex).stamp < oldest
      · rw [if_pos older]
        exact ih (by omega) (looked.take found older)
      · rw [if_neg older]
        refine ih (by omega) (looked.skip found ?_ (Nat.le_of_not_lt older))
        intro zero
        apply older
        rw [looked.start zero]
        exact stamps cacheIndex

end LookForMatch

/-- A glyph has been put into an entry of one of the caches. -/
structure Placed (cache : GlyphCache) (cacheid : Fin numberOfGlyphCaches) (picture : Picture)
    (cacheidx : Nat) (after : GlyphCache) : Prop where
  chosen : Slots.Chosen (cache.size cacheid) (cache.slots cacheid) picture cacheidx
  slots : after.slots cacheid = (cache.slots cacheid).put cacheidx picture
  others : ∀ other, other ≠ cacheid → after.slots other = (cache.slots other).tick
  entries : after.numberOfEntriesInCache = cache.numberOfEntriesInCache

section AddGlyph

variable {cache : GlyphCache} {cacheid : Fin numberOfGlyphCaches} {fontItem : FontChar}

theorem slots_setGlyph_same {cacheidx : Nat} (stamp : Nat) (glyph : Glyph)
    (stamped : glyph.stamp = stamp) {picture : Picture}
    (shown : glyph.fontItem.map (·.toPicture) = some picture) :
    (({ cache with glyphStamp := stamp }.setGlyph cacheid cacheidx glyph).slots cacheid) =
      ⟨stamp, Function.update (cache.slots cacheid).stamp cacheidx stamp,
        Function.update (cache.slots cacheid).key cacheidx (some picture)⟩ := by
  simp only [GlyphCache.slots, GlyphCache.setGlyph, Function.update_self, Slots.mk.injEq,
    true_and]
  constructor
  · funext index
    by_cases same : index = cacheidx
    · simp [same, stamped]
    · simp [same]
  · funext index
    by_cases same : index = cacheidx
    · simp [same, shown]
    · simp [same]

theorem addGlyph_placed (some_entry : 0 < cache.size cacheid)
    (within : cache.size cacheid ≤ numberOfGlyphCacheEntries)
    (room : cache.glyphStamp + 1 < 2 ^ 31)
    (valid : (cache.slots cacheid).Valid (cache.size cacheid)) :
    ∃ result cacheidx after,
      cache.addGlyph fontItem cacheid = .ok (result, cacheidx, after) ∧
      Placed cache cacheid fontItem.toPicture cacheidx after ∧
      (result = .foundInCache → (cache.slots cacheid).key cacheidx = some fontItem.toPicture) := by
  have stamps : ∀ cacheidx, (cache.slots cacheid).stamp cacheidx < 0x7fffffff := by
    intro cacheidx
    have bound : (cache.slots cacheid).stamp cacheidx ≤ cache.glyphStamp := valid.stamped cacheidx
    omega
  have looked : Looked (cache.slots cacheid) fontItem.toPicture 0 0x7fffffff 0 :=
    ⟨nofun, nofun, fun young => absurd rfl young, fun _ => rfl⟩
  obtain ⟨result, cacheidx, look, chosen, found⟩ :=
    lookForMatch_chosen some_entry within stamps (Nat.zero_add _) looked
  have counts : ¬ 2 ^ 31 ≤ cache.glyphStamp + 1 := Nat.not_le_of_lt room
  rw [GlyphCache.size] at look
  simp only [GlyphCache.addGlyph, if_neg counts, look, ok_bind, pure_ok]
  refine ⟨result, cacheidx, _, rfl, ⟨chosen, ?_, ?_, rfl⟩, found⟩
  · cases result with
    | foundInCache => exact slots_setGlyph_same _ ⟨_, _, _⟩ rfl (found rfl)
    | addedToCache => exact slots_setGlyph_same _ ⟨_, _, _⟩ rfl rfl
  · intro other different
    simp only [GlyphCache.slots, GlyphCache.setGlyph, Function.update_of_ne different, Slots.tick]

theorem slots_setCached (cacheIndex : Nat) (cached : Bool) (other : Fin numberOfGlyphCaches) :
    (cache.setCached cacheid cacheIndex cached).slots other = cache.slots other := by
  by_cases same : other = cacheid
  · subst same
    simp only [GlyphCache.slots, GlyphCache.setCached, GlyphCache.setGlyph, Function.update_self,
      Slots.mk.injEq, true_and]
    constructor
    · funext index
      by_cases here : index = cacheIndex
      · simp [here]
      · simp [here]
    · funext index
      by_cases here : index = cacheIndex
      · simp [here]
      · simp [here]
  · simp only [GlyphCache.slots, GlyphCache.setCached, GlyphCache.setGlyph,
      Function.update_of_ne same]

theorem Placed.valid {picture : Picture} {cacheidx : Nat} {after : GlyphCache}
    (placed : Placed cache cacheid picture cacheidx after)
    (valid : ∀ other, (cache.slots other).Valid (cache.size other)) (other : Fin numberOfGlyphCaches) :
    (after.slots other).Valid (after.size other) := by
  have sameSize : after.size other = cache.size other := by
    rw [GlyphCache.size, placed.entries, GlyphCache.size]
  rw [sameSize]
  by_cases same : other = cacheid
  · subst same
    rw [placed.slots]
    exact Slots.valid_put (valid other) placed.chosen
  · rw [placed.others other same]
    exact Slots.valid_tick (valid other)

end AddGlyph

end Redemption.Glyphs
