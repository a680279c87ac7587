import Mathlib.Data.List.Basic
import Mathlib.Logic.Function.Basic

/-! Fixed-size memory with checked accesses. A run stops at the first access
outside a buffer, or at the first error the program raises. -/
namespace Redemption.Foundation

universe u v w

/-- What stops a run. -/
inductive Fault (ε : Type u) where
  | outOfBounds
  | raised (error : ε)
  deriving DecidableEq, Repr

abbrev Checked (ε : Type u) (α : Type v) := Except (Fault ε) α

variable {ε : Type u}

theorem bind_ok_iff {α β : Type v} {first : Except ε α} {next : α → Except ε β}
    {result : β} :
    (first >>= next) = .ok result ↔ ∃ value, first = .ok value ∧ next value = .ok result := by
  cases first with
  | error fault => simp [bind, Except.bind]
  | ok value => simp [bind, Except.bind]

theorem map_ok_iff {α β : Type v} {change : α → β} {first : Except ε α} {result : β} :
    change <$> first = .ok result ↔ ∃ value, first = .ok value ∧ change value = result := by
  cases first with
  | error fault => simp [Functor.map, Except.map]
  | ok value => simp [Functor.map, Except.map]

@[simp] theorem ok_bind {α β : Type v} (value : α) (next : α → Except ε β) :
    ((Except.ok value : Except ε α) >>= next) = next value := rfl

theorem exists_ok_bind {α β : Type v} {step : Except ε α} {value : α}
    {next : α → Except ε β} (done : step = .ok value) (rest : ∃ result, next value = .ok result) :
    ∃ result, (step >>= next) = .ok result := by
  rw [done]
  exact rest

@[simp] theorem error_bind {α β : Type v} (fault : ε) (next : α → Except ε β) :
    ((Except.error fault : Except ε α) >>= next) = .error fault := rfl

@[simp] theorem pure_ok {α : Type v} (value : α) :
    (pure value : Except ε α) = .ok value := rfl

theorem mapM_ok {α : Type w} {β : Type v} {step : α → Except ε β}
    {value : α → β} {items : List α} (each : ∀ item ∈ items, step item = .ok (value item)) :
    items.mapM step = .ok (items.map value) := by
  induction items with
  | nil => rfl
  | cons item rest ih =>
    rw [List.mapM_cons, each item List.mem_cons_self,
      ih fun other member => each other (List.mem_cons_of_mem _ member)]
    rfl

/-- Memory of `size` cells; what `cell` says past the end is never read. -/
structure Buffer (β : Type u) (size : Nat) where
  cell : Nat → β

namespace Buffer

variable {β : Type u} {ε : Type v} {size : Nat}

def filled (value : β) : Buffer β size := ⟨fun _ => value⟩

def set (buffer : Buffer β size) (index : Nat) (value : β) : Buffer β size :=
  ⟨Function.update buffer.cell index value⟩

/-- The cells from `start` on, one after the other. -/
def slice (buffer : Buffer β size) (start length : Nat) : List β :=
  (List.range length).map fun index => buffer.cell (start + index)

/-- The buffer with `values` laid over the cells from `start` on. -/
def splice (buffer : Buffer β size) (start : Nat) (values : List β) : Buffer β size :=
  ⟨fun index =>
    if start ≤ index then values.getD (index - start) (buffer.cell index)
    else buffer.cell index⟩

/-- The buffer with the memory that happens to lie behind it. -/
def withBehind (buffer : Buffer β size) (more : Nat) (behind : Nat → β) : Buffer β (size + more) :=
  ⟨fun index => if index < size then buffer.cell index else behind (index - size)⟩

def load (buffer : Buffer β size) (index : Nat) : Checked ε β :=
  if index < size then .ok (buffer.cell index) else .error .outOfBounds

def store (buffer : Buffer β size) (index : Nat) (value : β) : Checked ε (Buffer β size) :=
  if index < size then .ok (buffer.set index value) else .error .outOfBounds

def loadBlock (buffer : Buffer β size) (start length : Nat) : Checked ε (List β) :=
  if start + length ≤ size then .ok (buffer.slice start length) else .error .outOfBounds

def storeBlock (buffer : Buffer β size) (start : Nat) (values : List β) :
    Checked ε (Buffer β size) :=
  if start + values.length ≤ size then .ok (buffer.splice start values)
  else .error .outOfBounds

@[simp] theorem cell_filled (value : β) (index : Nat) :
    (filled value : Buffer β size).cell index = value := rfl

@[simp] theorem cell_set_same (buffer : Buffer β size) (index : Nat) (value : β) :
    (buffer.set index value).cell index = value := by simp [set]

theorem cell_set_other (buffer : Buffer β size) {index other : Nat} (value : β)
    (different : other ≠ index) : (buffer.set index value).cell other = buffer.cell other := by
  simp [set, different]

@[simp] theorem length_slice (buffer : Buffer β size) (start length : Nat) :
    (buffer.slice start length).length = length := by simp [slice]

@[simp] theorem getElem_slice (buffer : Buffer β size) (start length index : Nat)
    (bounded : index < (buffer.slice start length).length) :
    (buffer.slice start length)[index] = buffer.cell (start + index) := by simp [slice]

theorem cell_withBehind (buffer : Buffer β size) (more : Nat) (behind : Nat → β) {index : Nat}
    (bounded : index < size) : (buffer.withBehind more behind).cell index = buffer.cell index :=
  if_pos bounded

theorem slice_filled (value : β) (start length : Nat) :
    (filled value : Buffer β size).slice start length = List.replicate length value := by
  simp [slice]

theorem slice_eq_slice_iff {other : Nat} (left : Buffer β size) (right : Buffer β other)
    (start from' length : Nat) :
    left.slice start length = right.slice from' length ↔
      ∀ index < length, left.cell (start + index) = right.cell (from' + index) := by
  simp only [slice, List.map_inj_left, List.mem_range]

theorem slice_eq_of_getElem (buffer : Buffer β size) (start : Nat) (values : List β)
    (same : ∀ index (bounded : index < values.length),
      buffer.cell (start + index) = values[index]) :
    buffer.slice start values.length = values := by
  apply List.ext_getElem (by simp)
  intro index _ bounded
  simpa using same index bounded

theorem cell_splice_inside (buffer : Buffer β size) (start : Nat) (values : List β)
    {index : Nat} (bounded : index < values.length) :
    (buffer.splice start values).cell (start + index) = values[index] := by
  simp [splice, bounded]

theorem cell_splice_before (buffer : Buffer β size) (start : Nat) (values : List β)
    {index : Nat} (before : index < start) :
    (buffer.splice start values).cell index = buffer.cell index := by
  simp [splice, Nat.not_le.mpr before]

theorem cell_splice_after (buffer : Buffer β size) (start : Nat) (values : List β)
    {index : Nat} (after : start + values.length ≤ index) :
    (buffer.splice start values).cell index = buffer.cell index := by
  have inside : start ≤ index := by omega
  have beyond : values.length ≤ index - start := by omega
  simp [splice, inside, List.getElem?_eq_none beyond]

section Checked

variable (buffer : Buffer β size)

theorem load_of_lt {index : Nat} (bounded : index < size) :
    (buffer.load index : Checked ε β) = .ok (buffer.cell index) := by simp [load, bounded]

theorem load_of_le {index : Nat} (beyond : size ≤ index) :
    (buffer.load index : Checked ε β) = .error .outOfBounds := by
  simp [load, Nat.not_lt.mpr beyond]

theorem store_of_lt {index : Nat} (bounded : index < size) (value : β) :
    (buffer.store index value : Checked ε _) = .ok (buffer.set index value) := by
  simp [store, bounded]

theorem store_of_le {index : Nat} (beyond : size ≤ index) (value : β) :
    (buffer.store index value : Checked ε (Buffer β size)) = .error .outOfBounds := by
  simp [store, Nat.not_lt.mpr beyond]

theorem loadBlock_of_le {start length : Nat} (bounded : start + length ≤ size) :
    (buffer.loadBlock start length : Checked ε _) = .ok (buffer.slice start length) := by
  simp [loadBlock, bounded]

theorem storeBlock_of_le {start : Nat} {values : List β}
    (bounded : start + values.length ≤ size) :
    (buffer.storeBlock start values : Checked ε _) = .ok (buffer.splice start values) := by
  simp [storeBlock, bounded]

end Checked

end Buffer

end Redemption.Foundation

/-! Programs that ask for so many cells at a time, and what answers them. -/
namespace Redemption.Foundation

universe u v w

/-- A program that asks for cells, and ends with a value. -/
inductive Demand (β : Type u) (α : Type v) where
  | done (value : α)
  | ask (len : Nat) (next : List β → Demand β α)

namespace Demand

variable {α : Type v} {β : Type u} {σ ε : Type w}

/-- The program on cells that are all there, and what it leaves of them. -/
def take : Demand β α → List β → Option (α × List β)
  | done value, cells => some (value, cells)
  | ask len next, cells =>
    if len ≤ cells.length then (next (cells.take len)).take (cells.drop len) else none

/-- The program on something that gives cells as it is asked. -/
def serve (read : Nat → σ → Except ε (List β × σ)) : Demand β α → σ → Except ε (α × σ)
  | done value, state => .ok (value, state)
  | ask len next, state =>
    match read len state with
    | .ok (cells, state) => (next cells).serve read state
    | .error fault => .error fault

/-- States that hold cells give them in whatever pieces they are asked for. -/
def Serves (read : Nat → σ → Except ε (List β × σ)) (holds : σ → List β → Prop) : Prop :=
  ∀ state front rest, holds state (front ++ rest) →
    ∃ state', read front.length state = .ok (front, state') ∧ holds state' rest

/-- Where cells are, a program does what it does on the cells. -/
theorem serve_of_take {read : Nat → σ → Except ε (List β × σ)} {holds : σ → List β → Prop}
    (serves : Serves read holds) {program : Demand β α} {cells rest : List β} {state : σ}
    {value : α} (taken : program.take cells = some (value, rest)) (held : holds state cells) :
    ∃ state', program.serve read state = .ok (value, state') ∧ holds state' rest := by
  induction program generalizing cells state with
  | done value' =>
    cases taken
    exact ⟨state, rfl, held⟩
  | ask len next ih =>
    rw [take] at taken
    by_cases enough : len ≤ cells.length
    · rw [if_pos enough] at taken
      have length : (cells.take len).length = len := List.length_take_of_le enough
      rw [← List.take_append_drop len cells] at held
      obtain ⟨state', given, held'⟩ := serves state _ _ held
      rw [length] at given
      obtain ⟨last, served, held''⟩ := ih _ taken held'
      refine ⟨last, ?_, held''⟩
      rw [serve, given]
      exact served
    · rw [if_neg enough] at taken
      cases taken

end Demand

end Redemption.Foundation

/-! Computations that give something out before they come to a result, or fail. -/
namespace Redemption.Foundation

universe u v

/-- What has been given out, and the result. -/
structure Emitting (ο ε α : Type u) where
  outputs : List ο
  result : Checked ε α

namespace Emitting

variable {ο ε α β γ : Type u}

/-- One output. -/
def emit (output : ο) : Emitting ο ε PUnit := ⟨[output], .ok ⟨⟩⟩

/-- A computation that gives nothing out. -/
def lift (result : Checked ε α) : Emitting ο ε α := ⟨[], result⟩

/-- What has been given out stays, also where the rest fails. -/
protected def bind (first : Emitting ο ε α) (next : α → Emitting ο ε β) : Emitting ο ε β :=
  match first.result with
  | .error fault => ⟨first.outputs, .error fault⟩
  | .ok value => ⟨first.outputs ++ (next value).outputs, (next value).result⟩

instance : Monad (Emitting ο ε) where
  pure value := ⟨[], .ok value⟩
  bind := Emitting.bind

@[simp] theorem pure_bind (value : α) (next : α → Emitting ο ε β) :
    (pure value >>= next) = next value := rfl

@[simp] theorem lift_ok_bind (value : α) (next : α → Emitting ο ε β) :
    (lift (.ok value) >>= next) = next value := rfl

@[simp] theorem lift_error_bind (fault : Fault ε) (next : α → Emitting ο ε β) :
    (lift (.error fault) >>= next) = lift (.error fault) := rfl

/-- What is given out, the first computation gives out, or the next one, once it is reached. -/
theorem mem_bind {first : Emitting ο ε α} {next : α → Emitting ο ε β} {output : ο}
    (given : output ∈ (first >>= next).outputs) :
    output ∈ first.outputs ∨ ∃ value, first.result = .ok value ∧ output ∈ (next value).outputs := by
  obtain ⟨outputs, fault | value⟩ := first
  · exact .inl given
  · exact (List.mem_append.mp given).imp id fun later => ⟨value, rfl, later⟩

/-- What holds of the result, where there is one. -/
def Ensures (computation : Emitting ο ε α) (holds : α → Prop) : Prop :=
  ∀ value, computation.result = .ok value → holds value

variable {holds holds' : α → Prop}

theorem ensures_pure {value : α} (fine : holds value) :
    Ensures (pure value : Emitting ο ε α) holds := by
  intro same result
  cases result
  exact fine

theorem ensures_lift {result : Checked ε α} (fine : ∀ value, result = .ok value → holds value) :
    Ensures (lift result : Emitting ο ε α) holds := fine

/-- What the first computation ensures may be used for the next one. -/
theorem Ensures.bind {first : Emitting ο ε α} {next : α → Emitting ο ε β} {after : β → Prop}
    (before : first.Ensures holds) (rest : ∀ value, holds value → (next value).Ensures after) :
    (first >>= next).Ensures after := by
  obtain ⟨outputs, fault | value⟩ := first
  · intro last result
    cases result
  · exact rest value (before value rfl)

theorem ensures_bind {first : Emitting ο ε α} {next : α → Emitting ο ε β} {after : β → Prop}
    (rest : ∀ value, (next value).Ensures after) : (first >>= next).Ensures after :=
  Ensures.bind (fun _ _ => trivial : first.Ensures fun _ => True) fun value _ => rest value

theorem Ensures.mono {computation : Emitting ο ε α} (ensured : computation.Ensures holds)
    (weaker : ∀ value, holds value → holds' value) : computation.Ensures holds' :=
  fun value result => weaker value (ensured value result)

theorem ensures_ite {condition : Prop} [Decidable condition] {first second : Emitting ο ε α}
    (yes : condition → first.Ensures holds) (no : ¬ condition → second.Ensures holds) :
    (if condition then first else second).Ensures holds := by
  split
  · exact yes ‹_›
  · exact no ‹_›

end Emitting

end Redemption.Foundation
