import Mathlib.Order.Lattice
import Mathlib.Order.Defs.LinearOrder
import Mathlib.Order.Basic
import Mathlib.Data.List.Pairwise

/-! Sets of positions in order of the keys that are at the positions. -/
namespace Redemption.Foundation

universe u
variable {κ : Type u} [LinearOrder κ]

namespace KeyedIndex

/-- The position with an equivalent key. -/
def find (keyAt : Nat → κ) (key : κ) : List Nat → Option Nat
  | [] => none
  | position :: rest =>
    if keyAt position < key then find keyAt key rest
    else if key < keyAt position then none
    else some position

/-- Take out the position with an equivalent key. -/
def erase (keyAt : Nat → κ) (key : κ) : List Nat → List Nat
  | [] => []
  | position :: rest =>
    if keyAt position < key then position :: erase keyAt key rest
    else if key < keyAt position then position :: rest
    else rest

/-- Put in a position, unless there is one with an equivalent key. -/
def insert (keyAt : Nat → κ) (new : Nat) : List Nat → List Nat
  | [] => [new]
  | position :: rest =>
    if keyAt position < keyAt new then position :: insert keyAt new rest
    else if keyAt new < keyAt position then new :: position :: rest
    else position :: rest

/-- The keys ascend. -/
def Ordered (keyAt : Nat → κ) (positions : List Nat) : Prop :=
  positions.Pairwise (fun first second => keyAt first < keyAt second)

variable {keyAt : Nat → κ} {key : κ} {positions : List Nat} {new : Nat}

theorem find_some {position : Nat} (found : find keyAt key positions = some position) :
    position ∈ positions ∧ keyAt position = key := by
  induction positions with
  | nil => cases found
  | cons first rest ih =>
    rw [find] at found
    split at found
    · obtain ⟨member, same⟩ := ih found
      exact ⟨List.mem_cons_of_mem first member, same⟩
    · rename_i notBelow
      split at found
      · cases found
      · rename_i notAbove
        cases Option.some.inj found
        exact ⟨List.mem_cons_self, le_antisymm (not_lt.mp notAbove) (not_lt.mp notBelow)⟩

theorem find_none (ordered : Ordered keyAt positions) (missing : find keyAt key positions = none) :
    ∀ position ∈ positions, keyAt position ≠ key := by
  induction positions with
  | nil => intro position member; cases member
  | cons first rest ih =>
    obtain ⟨above, ordered'⟩ := List.pairwise_cons.mp ordered
    rw [find] at missing
    rw [List.forall_mem_cons]
    split at missing
    · rename_i below
      exact ⟨ne_of_lt below, ih ordered' missing⟩
    · split at missing
      · rename_i beyond
        exact ⟨ne_of_gt beyond,
          fun position member => ne_of_gt (lt_trans beyond (above position member))⟩
      · cases missing

theorem find_eq (ordered : Ordered keyAt positions) {position : Nat}
    (member : position ∈ positions) : find keyAt (keyAt position) positions = some position := by
  induction positions with
  | nil => cases member
  | cons first rest ih =>
    obtain ⟨above, ordered'⟩ := List.pairwise_cons.mp ordered
    rw [find]
    rcases List.mem_cons.mp member with rfl | inside
    · rw [if_neg (lt_irrefl _), if_neg (lt_irrefl _)]
    · rw [if_pos (above position inside)]
      exact ih ordered' inside

theorem mem_erase (ordered : Ordered keyAt positions) {position : Nat} :
    position ∈ erase keyAt key positions ↔ position ∈ positions ∧ keyAt position ≠ key := by
  induction positions with
  | nil => simp [erase]
  | cons first rest ih =>
    obtain ⟨above, ordered'⟩ := List.pairwise_cons.mp ordered
    rw [erase]
    split
    · rename_i below
      rw [List.mem_cons, List.mem_cons, ih ordered']
      constructor
      · rintro (rfl | inside)
        · exact ⟨.inl rfl, ne_of_lt below⟩
        · exact ⟨.inr inside.1, inside.2⟩
      · rintro ⟨rfl | inside, other⟩
        · exact .inl rfl
        · exact .inr ⟨inside, other⟩
    · split
      · rename_i beyond
        refine ⟨fun member => ⟨member, ?_⟩, fun both => both.1⟩
        rcases List.mem_cons.mp member with rfl | inside
        · exact ne_of_gt beyond
        · exact ne_of_gt (lt_trans beyond (above position inside))
      · rename_i notBelow notAbove
        have same : keyAt first = key := le_antisymm (not_lt.mp notAbove) (not_lt.mp notBelow)
        rw [List.mem_cons]
        constructor
        · intro inside
          exact ⟨.inr inside, same ▸ ne_of_gt (above position inside)⟩
        · rintro ⟨rfl | inside, other⟩
          · exact absurd same other
          · exact inside

theorem erase_sublist : (erase keyAt key positions).Sublist positions := by
  induction positions with
  | nil => exact List.Sublist.refl _
  | cons first rest ih =>
    rw [erase]
    split
    · exact ih.cons_cons first
    · split
      · exact List.Sublist.refl _
      · exact List.sublist_cons_self first rest

theorem Ordered.erase (ordered : Ordered keyAt positions) :
    Ordered keyAt (erase keyAt key positions) := List.Pairwise.sublist erase_sublist ordered

theorem mem_insert_of_mem {position : Nat} (member : position ∈ positions) :
    position ∈ insert keyAt new positions := by
  induction positions with
  | nil => cases member
  | cons first rest ih =>
    rw [insert]
    split
    · rcases List.mem_cons.mp member with rfl | inside
      · exact List.mem_cons_self
      · exact List.mem_cons_of_mem first (ih inside)
    · split
      · exact List.mem_cons_of_mem new member
      · exact member

theorem mem_or_eq_of_mem_insert {position : Nat} (member : position ∈ insert keyAt new positions) :
    position ∈ positions ∨ position = new := by
  induction positions with
  | nil => exact .inr (List.mem_singleton.mp member)
  | cons first rest ih =>
    rw [insert] at member
    split at member
    · rcases List.mem_cons.mp member with rfl | inside
      · exact .inl List.mem_cons_self
      · exact (ih inside).imp_left (List.mem_cons_of_mem first)
    · split at member
      · rcases List.mem_cons.mp member with rfl | inside
        · exact .inr rfl
        · exact .inl inside
      · exact .inl member

theorem mem_insert_self (fresh : ∀ position ∈ positions, keyAt position ≠ keyAt new) :
    new ∈ insert keyAt new positions := by
  induction positions with
  | nil => exact List.mem_singleton.mpr rfl
  | cons first rest ih =>
    rw [List.forall_mem_cons] at fresh
    rw [insert]
    split
    · exact List.mem_cons_of_mem first (ih fresh.2)
    · rename_i notBelow
      rw [if_pos (lt_of_le_of_ne (not_lt.mp notBelow) (Ne.symm fresh.1))]
      exact List.mem_cons_self

theorem Ordered.insert (ordered : Ordered keyAt positions) :
    Ordered keyAt (insert keyAt new positions) := by
  induction positions with
  | nil => exact List.pairwise_singleton _ _
  | cons first rest ih =>
    obtain ⟨above, ordered'⟩ := List.pairwise_cons.mp ordered
    rw [KeyedIndex.insert]
    split
    · rename_i below
      refine List.pairwise_cons.mpr ⟨fun position member => ?_, ih ordered'⟩
      rcases mem_or_eq_of_mem_insert member with inside | rfl
      · exact above position inside
      · exact below
    · split
      · rename_i beyond
        refine List.pairwise_cons.mpr ⟨fun position member => ?_, ordered⟩
        rcases List.mem_cons.mp member with rfl | inside
        · exact beyond
        · exact lt_trans beyond (above position inside)
      · exact ordered

theorem Ordered.congr {keyAt' : Nat → κ} (ordered : Ordered keyAt positions)
    (same : ∀ position ∈ positions, keyAt' position = keyAt position) :
    Ordered keyAt' positions := by
  refine List.Pairwise.imp_of_mem (fun first second less => ?_) ordered
  rw [same _ first, same _ second]
  exact less

end KeyedIndex

end Redemption.Foundation
