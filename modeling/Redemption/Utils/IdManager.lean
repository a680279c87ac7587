import Mathlib.Algebra.Ring.Nat
import Mathlib.Data.List.Basic
import Redemption.Foundation.Buffer

/-! `IDManager`: ids of a source are mapped to ids of a destination, which has ids of its own. -/
namespace Redemption.Utils

open Redemption.Foundation

/-- The template parameters. -/
structure IdRange (w : Nat) where
  nextUsable : BitVec w
  firstInvariable : BitVec w
  lastInvariable : BitVec w

/-- The members. An id of the destination comes with the one of the source that is mapped to it,
and with whether there is one. -/
structure IdManager (w : Nat) where
  srcToDest : List (BitVec w × BitVec w)
  destToSrc : List (BitVec w × BitVec w × Bool)
  nextUsableDestId : BitVec w
  deriving DecidableEq, Repr

namespace IdManager

variable {w : Nat} {ε : Type} (range : IdRange w) (unexpected : ε) (manager : IdManager w)

def initial : IdManager w := ⟨[], [], range.nextUsable⟩

/-- Is in neither the range of invariable ids nor the table. -/
def isUsable (id : BitVec w) : Prop :=
  ¬ (range.firstInvariable ≤ id ∧ id ≤ range.lastInvariable) ∧ manager.destToSrc.lookup id = none

instance (id : BitVec w) : Decidable (manager.isUsable range id) :=
  inferInstanceAs (Decidable (_ ∧ _))

/-- The loop of `update_next_usable_dest_id`. It goes on for ever where no id is usable. -/
def nextUsableFrom : Nat → BitVec w → Option (BitVec w)
  | 0, _ => none
  | turns + 1, id => if manager.isUsable range (id + 1) then some (id + 1)
      else nextUsableFrom turns (id + 1)

/-- `update_next_usable_dest_id`. -/
def updateNextUsableDestId : Option (IdManager w) :=
  (manager.nextUsableFrom range (2 ^ w) manager.nextUsableDestId).map fun id =>
    { manager with nextUsableDestId := id }

/-- `destination[key] = value`. -/
def put {α : Type} (table : List (BitVec w × α)) (key : BitVec w) (value : α) :
    List (BitVec w × α) :=
  (key, value) :: table.filter (·.1 ≠ key)

/-- `erase`. -/
def erase {α : Type} (table : List (BitVec w × α)) (key : BitVec w) : List (BitVec w × α) :=
  table.filter (·.1 ≠ key)

/-- `map_src_id`. -/
def mapSrcId (srcId : BitVec w) : Option (BitVec w × IdManager w) := do
  let (destId, manager) ←
    if range.firstInvariable ≤ srcId ∧ srcId ≤ range.lastInvariable ∨
        manager.destToSrc.lookup srcId = none then
      if srcId = manager.nextUsableDestId then
        (manager.updateNextUsableDestId range).map (srcId, ·)
      else some (srcId, manager)
    else (manager.updateNextUsableDestId range).map (manager.nextUsableDestId, ·)
  return (destId, { manager with
    destToSrc := put manager.destToSrc destId (srcId, true)
    srcToDest := put manager.srcToDest srcId destId })

/-- `get_dest_id_ex`. -/
def getDestIdEx (srcId : BitVec w) : Option (BitVec w × IdManager w) :=
  match manager.srcToDest.lookup srcId with
  | some destId => some (destId, manager)
  | none => manager.mapSrcId range srcId

/-- `get_src_id`. -/
def getSrcId (destId : BitVec w) : Checked ε (BitVec w) :=
  match manager.destToSrc.lookup destId with
  | some (srcId, true) => .ok srcId
  | _ => .error (.raised unexpected)

/-- `is_dest_only_id`. -/
def isDestOnlyId (destId : BitVec w) : Checked ε Bool :=
  match manager.destToSrc.lookup destId with
  | some (_, mapped) => .ok (!mapped)
  | none => .error (.raised unexpected)

/-- `reg_dest_only_id`. -/
def regDestOnlyId : Option (BitVec w × IdManager w) :=
  (manager.updateNextUsableDestId range).map fun updated =>
    (manager.nextUsableDestId, { updated with
      destToSrc := put updated.destToSrc manager.nextUsableDestId (0, false) })

/-- `unreg_dest_only_id`. -/
def unregDestOnlyId (destId : BitVec w) : Checked ε (IdManager w) :=
  match manager.destToSrc.lookup destId with
  | some (_, false) => .ok { manager with destToSrc := erase manager.destToSrc destId }
  | _ => .error (.raised unexpected)

/-- `unreg_src_id`. -/
def unregSrcId (srcId : BitVec w) : Checked ε (IdManager w) :=
  match manager.srcToDest.lookup srcId with
  | some destId => .ok { manager with
      destToSrc := erase manager.destToSrc destId
      srcToDest := erase manager.srcToDest srcId }
  | none => .error (.raised unexpected)

end IdManager

end Redemption.Utils
