import Redemption.Caches.CacheRange

/-! `CacheIndexMapping`: the sources that have a slot in the cache of a client. -/
namespace Redemption.Pointers

open Redemption.Caches

/-- `CacheIndexMapping`; `not_fount` is `none`, and the stamps are 32-bit counters. -/
structure CacheIndexMapping where
  srcToDst : Nat → Option Nat
  dstToSrc : Nat → Option Nat
  stamps : Nat → BitVec 32
  maxEntries : Nat
  entries : Nat
  stamp : BitVec 32

structure CacheResult where
  destinationIdx : Nat
  isCached : Bool
  deriving DecidableEq, Repr

namespace CacheIndexMapping

variable (mapping : CacheIndexMapping)

def fresh (maxEntries : Nat) : CacheIndexMapping :=
  ⟨fun _ => none, fun _ => none, fun _ => 0, maxEntries, 0, 0⟩

/-- `insert`: the slot of a source no longer has what the source stands for. -/
def insert (sourceIdx : Nat) : CacheIndexMapping :=
  match mapping.srcToDst sourceIdx with
  | some destIdx =>
    { mapping with
      srcToDst := Function.update mapping.srcToDst sourceIdx none
      dstToSrc := Function.update mapping.dstToSrc destIdx none
      stamps := Function.update mapping.stamps destIdx 0 }
  | none => mapping

/-- The slot with the oldest stamp. -/
def oldestSlot : Nat := oldest (fun index => (mapping.stamps index).toNat) (mapping.entries - 1)

/-- A slot for a source that has none: a new one, or else the oldest. The assertion that there is
one is not in a release. -/
def takeSlot : Nat × CacheIndexMapping :=
  if mapping.entries < mapping.maxEntries then
    (mapping.entries, { mapping with entries := mapping.entries + 1 })
  else
    match mapping.dstToSrc mapping.oldestSlot with
    | some oldSourceId =>
      (mapping.oldestSlot,
        { mapping with srcToDst := Function.update mapping.srcToDst oldSourceId none })
    | none => (mapping.oldestSlot, mapping)

/-- The slot is for the source from now on. -/
def assign (sourceIdx destIdx : Nat) (stamp : BitVec 32) : CacheIndexMapping :=
  { mapping with
    srcToDst := Function.update mapping.srcToDst sourceIdx (some destIdx)
    dstToSrc := Function.update mapping.dstToSrc destIdx (some sourceIdx)
    stamps := Function.update mapping.stamps destIdx stamp
    stamp }

/-- `use`. -/
def use (sourceIdx : Nat) : CacheResult × CacheIndexMapping :=
  let stamp := mapping.stamp + 1
  match mapping.srcToDst sourceIdx with
  | some destIdx =>
    (⟨destIdx, true⟩,
      { mapping with stamp, stamps := Function.update mapping.stamps destIdx stamp })
  | none =>
    let (destIdx, taken) := mapping.takeSlot
    (⟨destIdx, false⟩, taken.assign sourceIdx destIdx stamp)

/-- The two maps are inverse to each other, and the slots in use are the first ones. -/
structure Consistent : Prop where
  inverse : ∀ source dest, mapping.srcToDst source = some dest ↔ mapping.dstToSrc dest = some source
  placed : ∀ source dest, mapping.srcToDst source = some dest → dest < mapping.entries
  fits : mapping.entries ≤ mapping.maxEntries

variable {mapping} {source : Nat}

theorem consistent_fresh (maxEntries : Nat) : (fresh maxEntries).Consistent :=
  ⟨fun _ _ => ⟨nofun, nofun⟩, nofun, Nat.zero_le _⟩

theorem Consistent.injective (consistent : mapping.Consistent) {first second dest : Nat}
    (here : mapping.srcToDst first = some dest) (there : mapping.srcToDst second = some dest) :
    first = second := by
  have one := (consistent.inverse first dest).mp here
  have two := (consistent.inverse second dest).mp there
  exact Option.some.inj (one.symm.trans two)

theorem insert_srcToDst (source other : Nat) :
    (mapping.insert source).srcToDst other =
      if other = source then none else mapping.srcToDst other := by
  rw [insert]
  cases slot : mapping.srcToDst source with
  | none =>
    by_cases same : other = source
    · simp [same, slot]
    · simp [same]
  | some dest =>
    by_cases same : other = source
    · simp [same]
    · simp [same]

theorem Consistent.insert (consistent : mapping.Consistent) (source : Nat) :
    (mapping.insert source).Consistent := by
  cases slot : mapping.srcToDst source with
  | none =>
    rw [CacheIndexMapping.insert, slot]
    exact consistent
  | some dest =>
    have maps : mapping.insert source =
        { mapping with
          srcToDst := Function.update mapping.srcToDst source none
          dstToSrc := Function.update mapping.dstToSrc dest none
          stamps := Function.update mapping.stamps dest 0 } := by
      rw [CacheIndexMapping.insert, slot]
    refine ⟨?_, ?_, ?_⟩
    · intro other place
      rw [insert_srcToDst, maps]
      by_cases same : other = source
      · subst same
        rw [if_pos rfl]
        refine ⟨nofun, ?_⟩
        intro back
        by_cases here : place = dest
        · simp [here] at back
        · simp only [Function.update_of_ne here] at back
          have again := (consistent.inverse other place).mpr back
          exact absurd (Option.some.inj (again.symm.trans slot)) here
      · rw [if_neg same]
        by_cases here : place = dest
        · subst here
          simp only [Function.update_self]
          refine ⟨?_, nofun⟩
          intro also
          exact absurd (consistent.injective also slot) same
        · simp only [Function.update_of_ne here]
          exact consistent.inverse other place
    · intro other place there
      rw [insert_srcToDst] at there
      split at there
      · cases there
      · rw [maps]
        exact consistent.placed other place there
    · rw [maps]
      exact consistent.fits

theorem insert_stamp (source : Nat) : (mapping.insert source).stamp = mapping.stamp := by
  rw [insert]
  split <;> rfl

theorem insert_stamps (consistent : mapping.Consistent) {source other dest : Nat}
    (there : (mapping.insert source).srcToDst other = some dest) :
    (mapping.insert source).stamps dest = mapping.stamps dest := by
  rw [insert_srcToDst] at there
  split at there
  · cases there
  · rename_i different
    rw [insert]
    cases slot : mapping.srcToDst source with
    | none => rfl
    | some place =>
      apply Function.update_of_ne
      rintro rfl
      exact different (consistent.injective there slot)

/-- What `take_slot` says of the slot that it took, and leaves as it was. -/
structure Takes (mapping : CacheIndexMapping) (dest : Nat) (taken : CacheIndexMapping) :
    Prop where
  inside : dest < taken.entries
  grown : mapping.entries ≤ taken.entries
  fits : taken.entries ≤ taken.maxEntries
  maxEntries : taken.maxEntries = mapping.maxEntries
  dstToSrc : taken.dstToSrc = mapping.dstToSrc
  stamps : taken.stamps = mapping.stamps
  /-- The former source has lost the slot. -/
  srcToDst : ∀ other, taken.srcToDst other =
    if mapping.dstToSrc dest = some other then none else mapping.srcToDst other
  /-- It is the oldest if it had a source. -/
  oldest : ∀ former, mapping.dstToSrc dest = some former → ∀ place < mapping.entries,
    (mapping.stamps dest).toNat ≤ (mapping.stamps place).toNat

theorem Consistent.takeSlot (consistent : mapping.Consistent) (some : 0 < mapping.maxEntries) :
    Takes mapping mapping.takeSlot.1 mapping.takeSlot.2 := by
  rw [CacheIndexMapping.takeSlot]
  split
  · rename_i room
    have free (other : Nat) : mapping.dstToSrc mapping.entries ≠ .some other := by
      intro owned
      have placed := consistent.placed _ _ ((consistent.inverse other _).mpr owned)
      exact Nat.lt_irrefl _ placed
    refine ⟨Nat.lt_succ_self _, Nat.le_succ _, room, rfl, rfl, rfl, ?_, ?_⟩
    · intro other
      exact (if_neg (free other)).symm
    · intro former owned
      exact absurd owned (free former)
  · rename_i full
    have entries : mapping.entries = mapping.maxEntries :=
      Nat.le_antisymm consistent.fits (Nat.le_of_not_lt full)
    have inside : mapping.oldestSlot < mapping.entries := by
      have le := @oldest_le (fun index => (mapping.stamps index).toNat) (mapping.entries - 1)
      have positive : 0 < mapping.entries := entries ▸ some
      exact Nat.lt_of_le_of_lt le (Nat.sub_lt positive Nat.one_pos)
    have least : ∀ place < mapping.entries,
        (mapping.stamps mapping.oldestSlot).toNat ≤ (mapping.stamps place).toNat := by
      intro place within
      exact @stampAt_oldest (fun index => (mapping.stamps index).toNat) _ _
        (Nat.le_sub_one_of_lt within)
    cases owner : mapping.dstToSrc mapping.oldestSlot with
    | none =>
      refine ⟨inside, Nat.le_refl _, consistent.fits, rfl, rfl, rfl, ?_, fun _ _ => least⟩
      intro other
      simp only [owner]
      exact (if_neg nofun).symm
    | some former =>
      refine ⟨inside, Nat.le_refl _, consistent.fits, rfl, rfl, rfl, ?_, fun _ _ => least⟩
      intro other
      simp only [owner]
      by_cases same : former = other
      · subst same
        simp
      · rw [Function.update_of_ne (Ne.symm same), if_neg]
        intro equal
        exact same (Option.some.inj equal)

/-- What `use` says of the slot of the source, and what it leaves to the other ones. -/
structure Uses (mapping : CacheIndexMapping) (source : Nat) (result : CacheResult)
    (after : CacheIndexMapping) : Prop where
  consistent : after.Consistent
  maxEntries : after.maxEntries = mapping.maxEntries
  stamp : after.stamp = mapping.stamp + 1
  slot : after.srcToDst source = some result.destinationIdx
  stamps : after.stamps = Function.update mapping.stamps result.destinationIdx (mapping.stamp + 1)
  cached : result.isCached = true ↔ mapping.srcToDst source = some result.destinationIdx
  /-- Another source has the slot that it had, or none. -/
  others : ∀ other dest, other ≠ source → after.srcToDst other = some dest →
    mapping.srcToDst other = some dest ∧ dest ≠ result.destinationIdx
  /-- A slot with a source was the oldest, if it was recycled. -/
  recycled : result.isCached = false → ∀ former,
    mapping.srcToDst former = some result.destinationIdx →
    ∀ other dest, mapping.srcToDst other = some dest →
      (mapping.stamps result.destinationIdx).toNat ≤ (mapping.stamps dest).toNat

theorem Consistent.useCached (consistent : mapping.Consistent) {dest : Nat}
    (slot : mapping.srcToDst source = some dest) :
    Uses mapping source (mapping.use source).1 (mapping.use source).2 := by
  have used : mapping.use source = (⟨dest, true⟩,
      { mapping with
        stamp := mapping.stamp + 1
        stamps := Function.update mapping.stamps dest (mapping.stamp + 1) }) := by
    simp only [use, slot]
  rw [used]
  refine ⟨⟨consistent.inverse, consistent.placed, consistent.fits⟩, rfl, rfl, slot, rfl,
    ⟨fun _ => slot, fun _ => rfl⟩, ?_, nofun⟩
  intro other place different there
  refine ⟨there, ?_⟩
  rintro rfl
  exact different (consistent.injective there slot)

theorem assign_srcToDst (source dest : Nat) (stamp : BitVec 32) (other : Nat) :
    (mapping.assign source dest stamp).srcToDst other =
      if other = source then some dest else mapping.srcToDst other :=
  Function.update_apply ..

theorem assign_dstToSrc (source dest : Nat) (stamp : BitVec 32) (place : Nat) :
    (mapping.assign source dest stamp).dstToSrc place =
      if place = dest then some source else mapping.dstToSrc place :=
  Function.update_apply ..

variable {dest : Nat} {taken : CacheIndexMapping}

theorem Takes.others (takes : Takes mapping dest taken) (consistent : mapping.Consistent)
    {stamp : BitVec 32} {other place : Nat} (different : other ≠ source)
    (there : (taken.assign source dest stamp).srcToDst other = some place) :
    mapping.srcToDst other = some place ∧ place ≠ dest := by
  rw [assign_srcToDst, if_neg different, takes.srcToDst] at there
  split at there
  · cases there
  · rename_i stays
    refine ⟨there, ?_⟩
    rintro rfl
    exact stays ((consistent.inverse other place).mp there)

theorem Takes.consistent (takes : Takes mapping dest taken) (consistent : mapping.Consistent)
    (slot : mapping.srcToDst source = none) (stamp : BitVec 32) :
    (taken.assign source dest stamp).Consistent := by
  refine ⟨?_, ?_, takes.fits⟩
  · intro other place
    constructor
    · intro there
      by_cases same : other = source
      · rw [same, assign_srcToDst, if_pos rfl] at there
        rw [assign_dstToSrc, if_pos (Option.some.inj there).symm, same]
      · obtain ⟨before, apart⟩ := takes.others consistent same there
        rw [assign_dstToSrc, if_neg apart, takes.dstToSrc]
        exact (consistent.inverse other place).mp before
    · intro back
      rw [assign_dstToSrc] at back
      split at back
      · rename_i here
        rw [assign_srcToDst, if_pos (Option.some.inj back).symm, here]
      · rename_i apart
        rw [takes.dstToSrc] at back
        have before := (consistent.inverse other place).mpr back
        have same : other ≠ source := by
          rintro rfl
          exact absurd (slot.symm.trans before) nofun
        rw [assign_srcToDst, if_neg same, takes.srcToDst, if_neg, before]
        intro former
        have also := (consistent.inverse other dest).mpr former
        exact apart (Option.some.inj (before.symm.trans also))
  · intro other place there
    by_cases same : other = source
    · rw [same, assign_srcToDst, if_pos rfl] at there
      rw [← Option.some.inj there]
      exact takes.inside
    · obtain ⟨before, _⟩ := takes.others consistent same there
      exact Nat.lt_of_lt_of_le (consistent.placed other place before) takes.grown

theorem Consistent.useTaken (consistent : mapping.Consistent) (some : 0 < mapping.maxEntries)
    (slot : mapping.srcToDst source = none) :
    Uses mapping source (mapping.use source).1 (mapping.use source).2 := by
  have takes := consistent.takeSlot some
  have used : mapping.use source = (⟨mapping.takeSlot.1, false⟩,
      mapping.takeSlot.2.assign source mapping.takeSlot.1 (mapping.stamp + 1)) := by
    simp only [CacheIndexMapping.use, slot]
  rw [used]
  refine ⟨takes.consistent consistent slot _, takes.maxEntries, rfl, Function.update_self ..,
    ?_, ?_, ?_, ?_⟩
  · exact congrArg (Function.update · _ _) takes.stamps
  · simp [slot]
  · intro other place different there
    exact takes.others consistent different there
  · intro _ former owned other place there
    exact takes.oldest former ((consistent.inverse former _).mp owned) place
      (consistent.placed other place there)

/-- What `use` does, where there is a slot at all. -/
theorem Consistent.use (consistent : mapping.Consistent) (some : 0 < mapping.maxEntries)
    (source : Nat) : Uses mapping source (mapping.use source).1 (mapping.use source).2 := by
  cases slot : mapping.srcToDst source with
  | none => exact consistent.useTaken some slot
  | some dest => exact consistent.useCached slot

end CacheIndexMapping

end Redemption.Pointers
