import Mathlib.Data.List.Basic
import Mathlib.Data.List.Perm.Basic

/-! Removal from a sequence whose order does not matter: the last element takes the place of the
removed one. -/
namespace Redemption.Foundation

universe u
variable {α : Type u}

namespace SwapRemove

/-- The sequence without what is at `index`, where the last element now is. -/
def removeAt (xs : List α) (index : Nat) : List α :=
  match xs.getLast? with
  | some last => (xs.set index last).dropLast
  | none => []

@[simp] theorem length_removeAt (xs : List α) (index : Nat) :
    (removeAt xs index).length = xs.length - 1 := by
  rcases List.eq_nil_or_concat xs with rfl | ⟨front, last, rfl⟩
  · rfl
  · simp [removeAt]

/-- What is before `index` stays, and what is behind it stays in some order. -/
theorem removeAt_split (front back : List α) (gone : α) :
    ∃ moved, removeAt (front ++ gone :: back) front.length = front ++ moved ∧
      moved.Perm back := by
  rcases List.eq_nil_or_concat back with rfl | ⟨middle, last, rfl⟩
  · refine ⟨[], ?_, List.Perm.nil⟩
    simp [removeAt]
  · rw [List.concat_eq_append]
    refine ⟨last :: middle, ?_, (List.perm_append_singleton last middle).symm⟩
    have spelled : front ++ gone :: (middle ++ [last]) = (front ++ gone :: middle) ++ [last] := by
      simp
    have replaced : (front ++ gone :: (middle ++ [last])).set front.length last =
        (front ++ last :: middle) ++ [last] := by
      simp
    rw [removeAt, spelled, List.getLast?_concat, ← spelled]
    change List.dropLast (List.set _ _ _) = _
    rw [replaced, List.dropLast_concat]

theorem removeAt_map {β : Type u} (f : α → β) (xs : List α) (index : Nat) :
    removeAt (xs.map f) index = (removeAt xs index).map f := by
  rcases List.eq_nil_or_concat xs with rfl | ⟨front, last, rfl⟩
  · rfl
  · rw [List.concat_eq_append, removeAt, removeAt, List.map_append]
    simp only [List.map_cons, List.map_nil, List.getLast?_concat]
    rw [← List.map_singleton, ← List.map_append, ← List.map_set, List.map_dropLast]

theorem removeAt_concat (front : List α) (last : α) (index : Nat) :
    removeAt (front ++ [last]) index = front.set index last := by
  rw [removeAt, List.getLast?_concat]
  change List.dropLast (List.set _ _ _) = _
  rcases Nat.lt_or_ge index front.length with inside | beyond
  · rw [List.set_append_left _ _ inside, List.dropLast_concat]
  · rw [List.set_append_right _ _ beyond, List.set_eq_of_length_le beyond]
    cases index - front.length <;> simp

theorem perm_removeAt (xs : List α) {index : Nat} (inside : index < xs.length) :
    xs.Perm (xs[index] :: removeAt xs index) := by
  obtain ⟨moved, removed, perm⟩ :=
    removeAt_split (xs.take index) (xs.drop (index + 1)) xs[index]
  have split : xs.take index ++ xs[index] :: xs.drop (index + 1) = xs := by simp
  rw [split, List.length_take, Nat.min_eq_left (Nat.le_of_lt inside)] at removed
  rw [removed]
  calc xs = xs.take index ++ xs[index] :: xs.drop (index + 1) := split.symm
    List.Perm _ (xs[index] :: (xs.take index ++ xs.drop (index + 1))) := List.perm_middle
    List.Perm _ (xs[index] :: (xs.take index ++ moved)) := (perm.symm.append_left _).cons _

/-- In an array that holds the sequence, a copy of the last element is all that is written. -/
theorem set_last (front : List α) (last : α) (rest : List α) {index : Nat}
    (inside : index ≤ front.length) :
    (front ++ last :: rest).set index last = front.set index last ++ last :: rest := by
  rcases Nat.lt_or_eq_of_le inside with before | rfl
  · exact List.set_append_left _ _ before
  · rw [List.set_append_right _ _ (Nat.le_refl _), Nat.sub_self, List.set_cons_zero,
      List.set_eq_of_length_le (Nat.le_refl _)]

end SwapRemove

end Redemption.Foundation
