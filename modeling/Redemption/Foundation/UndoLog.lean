import Mathlib.Logic.Function.Basic

/-! A lookup table whose changes can be taken back, as long as there are fewer of
them than the log can hold. -/
namespace Redemption.Foundation

universe u v

/-- A table and its logged changes, the newest first. -/
structure UndoLog (κ : Type u) (α : Type v) where
  table : κ → α
  log : List (κ × α)

namespace UndoLog

variable {κ : Type u} {α : Type v} [DecidableEq κ]

/-- Set an entry; what it replaces is logged unless the log is full. -/
def record (capacity : Nat) (undo : UndoLog κ α) (key : κ) (value : α) : UndoLog κ α where
  table := Function.update undo.table key value
  log := if undo.log.length < capacity then (key, undo.table key) :: undo.log else undo.log

/-- Put logged values back, the newest first. -/
def restore (table : κ → α) : List (κ × α) → κ → α
  | [] => table
  | (key, value) :: rest => restore (Function.update table key value) rest

/-- Forget the log; the table stays. -/
def commit (undo : UndoLog κ α) : UndoLog κ α := { undo with log := [] }

/-- Take all changes back; a full log may have missed some, so it refuses. -/
def rollback (capacity : Nat) (undo : UndoLog κ α) : Option (UndoLog κ α) :=
  if undo.log.length = capacity then none
  else some { table := restore undo.table undo.log, log := [] }

/-- Unless the log is full, taking everything back gives `base`. -/
structure Tracks (capacity : Nat) (base : κ → α) (undo : UndoLog κ α) : Prop where
  bounded : undo.log.length ≤ capacity
  restores : undo.log.length < capacity → restore undo.table undo.log = base

theorem tracks_commit {capacity : Nat} (undo : UndoLog κ α) :
    Tracks capacity undo.table undo.commit :=
  ⟨by simp [commit], fun _ => rfl⟩

theorem Tracks.record {capacity : Nat} {base : κ → α} {undo : UndoLog κ α}
    (tracks : Tracks capacity base undo) (key : κ) (value : α) :
    Tracks capacity base (undo.record capacity key value) := by
  by_cases room : undo.log.length < capacity
  · refine ⟨by simp only [UndoLog.record, room, if_true, List.length_cons]; omega, fun _ => ?_⟩
    simp only [UndoLog.record, room, if_true, restore, Function.update_idem,
      Function.update_eq_self]
    exact tracks.restores room
  · refine ⟨by simp only [UndoLog.record, room, if_false]; exact tracks.bounded, fun smaller => ?_⟩
    simp only [UndoLog.record, room, if_false] at smaller

theorem Tracks.rollback_eq {capacity : Nat} {base : κ → α} {undo undone : UndoLog κ α}
    (tracks : Tracks capacity base undo) (success : undo.rollback capacity = some undone) :
    undone = { table := base, log := [] } := by
  unfold rollback at success
  split at success
  · cases success
  · have room : undo.log.length < capacity := by
      have := tracks.bounded
      omega
    rw [tracks.restores room] at success
    exact (Option.some.inj success).symm

end UndoLog

end Redemption.Foundation
