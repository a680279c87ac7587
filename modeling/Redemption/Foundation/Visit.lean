import Mathlib.Data.List.Basic

/-! Values that are given one after the other to a callback, until it refuses one. -/
namespace Redemption.Foundation

universe u v

variable {σ : Type u} {α : Type v}

/-- The values that a callback has been given, its state after them, and whether it took them all. -/
structure Visited (σ : Type u) (α : Type v) where
  values : List α
  state : σ
  accepted : Bool
  deriving DecidableEq, Repr

/-- A value has been given before those of a visit. -/
def Visited.after (value : α) (visited : Visited σ α) : Visited σ α :=
  { visited with values := value :: visited.values }

/-- The callback is given values until it refuses one. -/
def visit (callback : σ → α → Bool × σ) : σ → List α → Visited σ α
  | state, [] => ⟨[], state, true⟩
  | state, value :: rest =>
    if (callback state value).1 then (visit callback (callback state value).2 rest).after value
    else ⟨[value], (callback state value).2, false⟩

/-- The state of a callback that is given all of the values, whatever it answers. -/
def visitAll (callback : σ → α → Bool × σ) (state : σ) (values : List α) : σ :=
  values.foldl (fun state value => (callback state value).2) state

section

variable {callback : σ → α → Bool × σ} {state : σ} {value : α} {front values rest : List α}

theorem visit_accepted (accepts : (callback state value).1 = true) :
    visit callback state (value :: rest) =
      (visit callback (callback state value).2 rest).after value := if_pos accepts

theorem visit_refused (refuses : (callback state value).1 = false) :
    visit callback state (value :: rest) = ⟨[value], (callback state value).2, false⟩ :=
  if_neg (by rw [refuses]; exact Bool.false_ne_true)

theorem visit_append_accepted (accepted : (visit callback state front).accepted = true)
    (back : List α) :
    visit callback state (front ++ back) =
      { visit callback (visit callback state front).state back with
        values := front ++ (visit callback (visit callback state front).state back).values } := by
  induction front generalizing state with
  | nil => rfl
  | cons value front ih =>
    rw [List.cons_append]
    cases answer : (callback state value).1 with
    | true =>
      rw [visit_accepted answer] at accepted
      rw [visit_accepted answer, visit_accepted answer, ih accepted]
      rfl
    | false =>
      rw [visit_refused answer] at accepted
      cases accepted

theorem visit_append_refused (refused : (visit callback state front).accepted = false)
    (back : List α) : visit callback state (front ++ back) = visit callback state front := by
  induction front generalizing state with
  | nil => cases refused
  | cons value front ih =>
    rw [List.cons_append]
    cases answer : (callback state value).1 with
    | true =>
      rw [visit_accepted answer] at refused
      rw [visit_accepted answer, visit_accepted answer, ih refused]
    | false => rw [visit_refused answer, visit_refused answer]

theorem values_of_accepted (accepted : (visit callback state values).accepted = true) :
    (visit callback state values).values = values := by
  induction values generalizing state with
  | nil => rfl
  | cons value rest ih =>
    cases answer : (callback state value).1 with
    | true =>
      rw [visit_accepted answer] at accepted ⊢
      simp only [Visited.after] at accepted ⊢
      rw [ih accepted]
    | false =>
      rw [visit_refused answer] at accepted
      cases accepted

/-- All of the values are given exactly where the callback refuses none but the last. -/
theorem visit_all_iff :
    (visit callback state values).values = values ↔
      (visit callback state values.dropLast).accepted = true := by
  induction values generalizing state with
  | nil => exact ⟨fun _ => rfl, fun _ => rfl⟩
  | cons value rest ih =>
    cases rest with
    | nil =>
      refine ⟨fun _ => rfl, fun _ => ?_⟩
      cases answer : (callback state value).1 with
      | true => rw [visit_accepted answer]; rfl
      | false => rw [visit_refused answer]
    | cons second rest =>
      rw [List.dropLast_cons_cons]
      cases answer : (callback state value).1 with
      | true =>
        rw [visit_accepted answer, visit_accepted answer]
        simp only [Visited.after, List.cons.injEq, true_and]
        exact ih
      | false =>
        rw [visit_refused answer, visit_refused answer]
        simp

end

end Redemption.Foundation
