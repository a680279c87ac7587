import Redemption.Foundation.Buffer

/-! Regions of a buffer: what a block that is written does to the blocks around it. -/
namespace Redemption.Foundation

universe u

namespace Buffer

variable {β : Type u} {size : Nat}

/-- Two buffers agree outside the cells from `start` up to `stop`. -/
def AgreesOutside (before after : Buffer β size) (start stop : Nat) : Prop :=
  ∀ index, index < start ∨ stop ≤ index → after.cell index = before.cell index

namespace AgreesOutside

variable {first second third : Buffer β size} {start stop : Nat}

theorem refl (buffer : Buffer β size) (start stop : Nat) :
    buffer.AgreesOutside buffer start stop := fun _ _ => rfl

theorem trans (front : first.AgreesOutside second start stop)
    (back : second.AgreesOutside third start stop) : first.AgreesOutside third start stop :=
  fun index outside => (back index outside).trans (front index outside)

theorem widen (agrees : first.AgreesOutside second start stop) {start' stop' : Nat}
    (lower : start' ≤ start) (upper : stop ≤ stop') :
    first.AgreesOutside second start' stop' := by
  intro index outside
  exact agrees index (by omega)

theorem slice_after (agrees : first.AgreesOutside second start stop) {from' : Nat}
    (behind : stop ≤ from') (length : Nat) :
    second.slice from' length = first.slice from' length := by
  rw [slice_eq_slice_iff]
  intro index _
  exact agrees _ (.inr (by omega))

theorem slice_before (agrees : first.AgreesOutside second start stop) {from' length : Nat}
    (before : from' + length ≤ start) : second.slice from' length = first.slice from' length := by
  rw [slice_eq_slice_iff]
  intro index _
  exact agrees _ (.inl (by omega))

end AgreesOutside

theorem agreesOutside_splice (buffer : Buffer β size) (start : Nat) (values : List β) :
    buffer.AgreesOutside (buffer.splice start values) start (start + values.length) := by
  rintro index (before | after)
  · exact cell_splice_before buffer start values before
  · exact cell_splice_after buffer start values after

theorem slice_splice (buffer : Buffer β size) (start : Nat) (values : List β) :
    (buffer.splice start values).slice start values.length = values :=
  slice_eq_of_getElem _ _ _ fun _ bounded => cell_splice_inside buffer start values bounded

theorem slice_append (buffer : Buffer β size) (start front back : Nat) :
    buffer.slice start (front + back) =
      buffer.slice start front ++ buffer.slice (start + front) back := by
  simp only [slice, List.range_add, List.map_append, List.map_map]
  congr 1
  apply List.map_congr_left
  intro index _
  simp [Nat.add_assoc]

variable {buffer : Buffer β size}

theorem slice_tail {start finish : Nat} {front tail : List β}
    (places : start + (front ++ tail).length = finish)
    (stands : buffer.slice start (front ++ tail).length = front ++ tail) :
    buffer.slice (finish - tail.length) tail.length = tail := by
  rw [List.length_append] at places
  rw [List.length_append, slice_append] at stands
  obtain ⟨_, back⟩ := List.append_inj stands (length_slice _ _ _)
  have same : finish - tail.length = start + front.length := by omega
  rw [same, back]

theorem cell_of_slice {start length index : Nat} {values : List β}
    (stands : buffer.slice start length = values) (bounded : index < length) :
    values[index]? = some (buffer.cell (start + index)) := by
  rw [← stands, List.getElem?_eq_getElem (by rwa [length_slice]), getElem_slice]

/-- What a buffer starts with. -/
def Begins (buffer : Buffer β size) (front : List β) : Prop :=
  buffer.slice 0 front.length = front

theorem begins_nil (buffer : Buffer β size) : buffer.Begins [] := rfl

theorem Begins.splice {front : List β} (begins : buffer.Begins front)
    (values : List β) : (buffer.splice front.length values).Begins (front ++ values) := by
  have kept : (buffer.splice front.length values).slice 0 front.length =
      buffer.slice 0 front.length := by
    rw [slice_eq_slice_iff]
    intro index bounded
    exact cell_splice_before buffer front.length values (by omega)
  rw [Begins, List.length_append, slice_append, kept, begins, Nat.zero_add, slice_splice]

theorem Begins.whole {front : List β} (begins : buffer.Begins front)
    (fits : front.length ≤ size) :
    buffer.slice 0 size = front ++ buffer.slice front.length (size - front.length) := by
  obtain ⟨more, rfl⟩ := Nat.exists_eq_add_of_le fits
  rw [slice_append, begins, Nat.zero_add, Nat.add_sub_cancel_left]

/-- Written before a block, a header extends it. -/
theorem slice_splice_head (buffer : Buffer β size) {start : Nat} (header : List β)
    (length : Nat) :
    (buffer.splice start header).slice start (header.length + length) =
      header ++ buffer.slice (start + header.length) length := by
  rw [slice_append, slice_splice,
    (agreesOutside_splice buffer start header).slice_after (Nat.le_refl _)]

end Buffer

end Redemption.Foundation

/-! A buffer whose cells are taken in groups of one width, each of which spells a value. -/
namespace Redemption.Foundation

universe u v

namespace Buffer

variable {α : Type u} {β : Type v} {size count width : Nat} {encode : α → List β}

/-- Each group of cells spells the value of its index. -/
def Spells (buffer : Buffer β size) (width : Nat) (encode : α → List β)
    (values : Buffer α count) : Prop :=
  ∀ index < count, buffer.slice (index * width) width = encode (values.cell index)

theorem flatMap_group (length : ∀ value, (encode value).length = width) (values : List α)
    {index : Nat} (bounded : index < values.length) :
    ((values.flatMap encode).drop (index * width)).take width = encode values[index] := by
  induction values generalizing index with
  | nil => simp at bounded
  | cons value rest ih =>
    rw [List.flatMap_cons]
    cases index with
    | zero => rw [Nat.zero_mul, List.drop_zero, List.take_left' (length value),
        List.getElem_cons_zero]
    | succ index =>
      have next : (index + 1) * width = (encode value).length + index * width := by
        rw [length, Nat.succ_mul, Nat.add_comm]
      rw [next, List.drop_length_add_append, List.getElem_cons_succ]
      exact ih (by rw [List.length_cons] at bounded; omega)

theorem length_flatMap_group (length : ∀ value, (encode value).length = width)
    (values : List α) : (values.flatMap encode).length = values.length * width := by
  rw [List.length_flatMap, List.map_congr_left fun value _ => length value, List.map_const',
    List.sum_replicate_nat]

/-- Groups that are cut somewhere: whole ones, and a part of the next one, which the rest begins
with. -/
theorem flatMap_cut (length : ∀ value, (encode value).length = width) (values : List α)
    {front back tail : List β} (same : front ++ back = values.flatMap encode ++ tail)
    (short : tail.length < width) :
    ∃ firsts lasts part, values = firsts ++ lasts ∧ front = firsts.flatMap encode ++ part ∧
      part.length < width ∧ part ++ back = lasts.flatMap encode ++ tail := by
  induction values generalizing front with
  | nil =>
    have less : front.length ≤ tail.length := by
      rw [List.flatMap_nil, List.nil_append] at same
      rw [← same, List.length_append]
      exact Nat.le_add_right _ _
    exact ⟨[], [], front, rfl, rfl, Nat.lt_of_le_of_lt less short, same⟩
  | cons value rest ih =>
    by_cases part : front.length < width
    · exact ⟨[], value :: rest, front, rfl, rfl, part, same⟩
    · have enough := Nat.le_of_not_lt part
      rw [List.flatMap_cons, List.append_assoc, ← List.take_append_drop width front,
        List.append_assoc] at same
      obtain ⟨first, later⟩ := List.append_inj same (by
        rw [length, List.length_take, Nat.min_eq_left enough])
      obtain ⟨firsts, lasts, part, split, is, less, behind⟩ := ih later
      refine ⟨value :: firsts, lasts, part, by rw [split]; rfl, ?_, less, behind⟩
      rw [List.flatMap_cons, List.append_assoc, ← is, ← first, List.take_append_drop]

theorem slice_splice_part (buffer : Buffer β size) (start : Nat) (values : List β)
    {from' length : Nat} (within : from' + length ≤ values.length) :
    (buffer.splice start values).slice (start + from') length =
      (values.drop from').take length := by
  apply List.ext_getElem
  · rw [length_slice, List.length_take, List.length_drop]
    omega
  · intro index inSlice _
    rw [length_slice] at inSlice
    rw [getElem_slice, List.getElem_take, List.getElem_drop, Nat.add_assoc]
    exact cell_splice_inside buffer start values (by omega)

namespace Spells

variable {buffer : Buffer β size} {values : Buffer α count}

theorem slice (spells : buffer.Spells width encode values) (place : Nat) {number : Nat}
    (within : place + number ≤ count) :
    buffer.slice (place * width) (number * width) =
      (values.slice place number).flatMap encode := by
  induction number with
  | zero => simp [Buffer.slice]
  | succ number ih =>
    have last := spells (place + number) (by omega)
    rw [Nat.add_mul] at last
    rw [Nat.succ_mul, slice_append, ih (by omega), last, slice_append, List.flatMap_append]
    simp [Buffer.slice]

/-- Values that are written in place of others. -/
theorem splice (spells : buffer.Spells width encode values)
    (length : ∀ value, (encode value).length = width) (place : Nat) (block : List α) :
    (buffer.splice (place * width) (block.flatMap encode)).Spells width encode
      (values.splice place block) := by
  have total := length_flatMap_group length block
  intro index bounded
  by_cases before : index < place
  · have kept : (buffer.splice (place * width) (block.flatMap encode)).slice (index * width)
        width = buffer.slice (index * width) width := by
      have ends : index * width + width ≤ place * width := by
        rw [← Nat.succ_mul]
        exact Nat.mul_le_mul_right _ before
      rw [slice_eq_slice_iff]
      intro cell inside
      exact cell_splice_before _ _ _ (by omega)
    rw [kept, spells index bounded, cell_splice_before _ _ _ before]
  · by_cases behind : place + block.length ≤ index
    · have starts : place * width + (block.flatMap encode).length ≤ index * width := by
        rw [total, ← Nat.add_mul]
        exact Nat.mul_le_mul_right _ behind
      rw [(agreesOutside_splice _ _ _).slice_after starts, spells index bounded,
        cell_splice_after _ _ _ behind]
    · obtain ⟨offset, rfl⟩ := Nat.exists_eq_add_of_le (Nat.not_lt.mp before)
      have inside : offset < block.length := by omega
      have within : offset * width + width ≤ (block.flatMap encode).length := by
        rw [total, ← Nat.succ_mul]
        exact Nat.mul_le_mul_right _ inside
      rw [Nat.add_mul, slice_splice_part _ _ _ within, flatMap_group length block inside,
        cell_splice_inside _ _ _ inside]

end Spells

/-- Where a buffer begins with the cells of as many values as fit, it spells them. -/
theorem Begins.spells {buffer : Buffer β size} {list : List α}
    (begins : buffer.Begins (list.flatMap encode))
    (length : ∀ value, (encode value).length = width) {values : Buffer α count}
    (same : list = values.slice 0 count) : buffer.Spells width encode values := by
  have total := length_flatMap_group length list
  subst same
  rw [length_slice] at total
  intro index bounded
  have within : index * width + width ≤ count * width := by
    rw [← Nat.succ_mul]
    exact Nat.mul_le_mul_right _ bounded
  have inside : index < (values.slice 0 count).length := by rwa [length_slice]
  obtain ⟨behind, split⟩ := Nat.exists_eq_add_of_le within
  have whole : buffer.slice 0 (count * width) = (values.slice 0 count).flatMap encode := by
    rw [← total]
    exact begins
  have group := flatMap_group length (values.slice 0 count) inside
  rw [← whole, split, Nat.add_assoc, slice_append, slice_append, Nat.zero_add,
    List.drop_left' (length_slice _ _ _), List.take_left' (length_slice _ _ _),
    getElem_slice, Nat.zero_add] at group
  exact group

end Buffer

end Redemption.Foundation
