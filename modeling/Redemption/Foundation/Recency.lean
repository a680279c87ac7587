import Mathlib.Data.Finset.Card
import Mathlib.Data.Finset.Image
import Mathlib.Logic.Function.Basic

/-! Slots that are stamped when they are used: a new key goes to one of the least recent. -/
namespace Redemption.Foundation

universe u

structure Slots (κ : Type u) where
  clock : Nat
  stamp : Nat → Nat
  key : Nat → Option κ

namespace Slots

variable {κ : Type u} {slots : Slots κ} {size since slot other : Nat} {key held : κ}

def put (slots : Slots κ) (slot : Nat) (key : κ) : Slots κ where
  clock := slots.clock + 1
  stamp := Function.update slots.stamp slot (slots.clock + 1)
  key := Function.update slots.key slot (some key)

@[simp] theorem clock_put : (slots.put slot key).clock = slots.clock + 1 := rfl

@[simp] theorem key_put_self : (slots.put slot key).key slot = some key :=
  Function.update_self ..

theorem key_put_of_ne (different : other ≠ slot) :
    (slots.put slot key).key other = slots.key other := Function.update_of_ne different ..

/-- Time passes elsewhere. -/
def tick (slots : Slots κ) : Slots κ := { slots with clock := slots.clock + 1 }

structure Valid (size : Nat) (slots : Slots κ) : Prop where
  stamped : ∀ slot, slots.stamp slot ≤ slots.clock
  distinct : ∀ slot < size, ∀ other < size, ∀ key,
    slots.key slot = some key → slots.key other = some key → slot = other

/-- The slot for a key: the one that has it, or else one of the least recent. -/
inductive Chosen (size : Nat) (slots : Slots κ) (key : κ) (slot : Nat) : Prop where
  | found (within : slot < size) (same : slots.key slot = some key)
  | oldest (within : slot < size) (absent : ∀ other < size, slots.key other ≠ some key)
      (least : ∀ other < size, slots.stamp slot ≤ slots.stamp other)

/-- A slot has a key and was used after a time. -/
def Holds (since : Nat) (slots : Slots κ) (slot : Nat) (key : κ) : Prop :=
  since < slots.stamp slot ∧ slots.key slot = some key

/-- The slots used after a time have wanted keys. -/
def Recent (size since : Nat) (wanted : Finset κ) (slots : Slots κ) : Prop :=
  ∀ slot < size, since < slots.stamp slot → ∃ key ∈ wanted, slots.key slot = some key

theorem Chosen.within (chosen : Chosen size slots key slot) : slot < size := by
  cases chosen with
  | found within _ => exact within
  | oldest within _ _ => exact within

theorem valid_tick (valid : Valid size slots) : Valid size slots.tick :=
  ⟨fun slot => Nat.le_succ_of_le (valid.stamped slot), valid.distinct⟩

theorem valid_put (valid : Valid size slots) (chosen : Chosen size slots key slot) :
    Valid size (slots.put slot key) := by
  have only : ∀ other < size, other ≠ slot → slots.key other ≠ some key := by
    intro other small different same
    cases chosen with
    | found within here => exact different (valid.distinct other small slot within key same here)
    | oldest _ absent _ => exact absent other small same
  constructor
  · intro other
    by_cases same : other = slot
    · simp [put, same]
    · simpa [put, same] using Nat.le_succ_of_le (valid.stamped other)
  · intro first firstWithin second secondWithin shared
    by_cases firstSame : first = slot
    · by_cases secondSame : second = slot
      · intro _ _
        exact firstSame.trans secondSame.symm
      · simp only [put, firstSame, Function.update_self, Function.update_of_ne secondSame]
        intro here there
        exact absurd (there.trans here.symm) (only second secondWithin secondSame)
    · by_cases secondSame : second = slot
      · simp only [put, secondSame, Function.update_self, Function.update_of_ne firstSame]
        intro there here
        exact absurd (there.trans here.symm) (only first firstWithin firstSame)
      · simp only [put, Function.update_of_ne firstSame, Function.update_of_ne secondSame]
        exact valid.distinct first firstWithin second secondWithin shared

theorem recent_put {wanted : Finset κ} (recent : Recent size since wanted slots)
    (asked : key ∈ wanted) : Recent size since wanted (slots.put slot key) := by
  intro other within used
  by_cases same : other = slot
  · exact ⟨key, asked, by simp [put, same]⟩
  · simp only [put, Function.update_of_ne same] at used ⊢
    exact recent other within used

/-- With room for all that is wanted, a slot without a recent use is left for a new key. -/
theorem exists_stale [DecidableEq κ] {wanted : Finset κ} (valid : Valid size slots)
    (recent : Recent size since wanted slots) (asked : key ∈ wanted)
    (absent : ∀ other < size, slots.key other ≠ some key) (room : wanted.card ≤ size) :
    ∃ slot < size, slots.stamp slot ≤ since := by
  by_contra none
  push Not at none
  have intoWanted : Set.MapsTo slots.key (Finset.range size) ((wanted.erase key).image some) := by
    intro slot member
    have within := Finset.mem_range.mp member
    obtain ⟨held, asked, here⟩ := recent slot within (none slot within)
    have different : held ≠ key := by
      intro same
      exact absent slot within (here.trans (congrArg some same))
    exact Finset.mem_coe.mpr (Finset.mem_image.mpr
      ⟨held, Finset.mem_erase.mpr ⟨different, asked⟩, here.symm⟩)
  have injective : Set.InjOn slots.key (Finset.range size) := by
    intro first firstMember second secondMember same
    have firstWithin := Finset.mem_range.mp firstMember
    obtain ⟨held, _, here⟩ := recent first firstWithin (none first firstWithin)
    exact valid.distinct first firstWithin second (Finset.mem_range.mp secondMember) held here
      (same.symm.trans here)
  have counted := Finset.card_le_card_of_injOn slots.key intoWanted injective
  have images := @Finset.card_image_le _ _ (wanted.erase key) some _
  have fewer := Finset.card_erase_lt_of_mem asked
  rw [Finset.card_range] at counted
  omega

theorem holds_put_self (past : since ≤ slots.clock) : Holds since (slots.put slot key) slot key := by
  constructor
  · simp only [put, Function.update_self]
    exact Nat.lt_succ_of_le past
  · simp [put]

/-- A key that is used does not replace one that was used lately. -/
theorem holds_put [DecidableEq κ] {wanted : Finset κ} (valid : Valid size slots)
    (recent : Recent size since wanted slots) (past : since ≤ slots.clock) (asked : key ∈ wanted)
    (room : wanted.card ≤ size) (chosen : Chosen size slots key slot)
    (holds : Holds since slots other held) : Holds since (slots.put slot key) other held := by
  by_cases same : other = slot
  · subst same
    cases chosen with
    | found _ here =>
      obtain rfl := Option.some.inj (here.symm.trans holds.2)
      exact holds_put_self past
    | oldest _ absent least =>
      obtain ⟨stale, within, old⟩ := exists_stale valid recent asked absent room
      have used := holds.1
      have least := least stale within
      omega
  · simpa only [Holds, put, Function.update_of_ne same] using holds

end Slots

end Redemption.Foundation
