import Redemption.Planar.Segments
import Redemption.Utils.Rect

/-! What the pass over the deltas makes of a plane, whatever was in its memory. -/
namespace Redemption.Planar

open Redemption.Foundation

variable {capacity : Nat}

/-- The sum of the first byte of a column and the deltas below it. -/
def columnSum (memory : Buffer Byte capacity) (colorPlane cx x : Nat) : Nat → Byte
  | 0 => memory.cell (colorPlane + x)
  | y + 1 => columnSum memory colorPlane cx x y +
      undelta (memory.cell (colorPlane + cx * (y + 1) + x))

/-- The pass has been over so many lines below the first, and so many bytes of the next. -/
def Passed (srcCx rows columns y x : Nat) : Prop :=
  x < srcCx ∧ (y ≤ rows ∨ y = rows + 1 ∧ x < columns)

instance (srcCx rows columns y x : Nat) : Decidable (Passed srcCx rows columns y x) :=
  inferInstanceAs (Decidable (_ ∧ _))

/-- A memory with what the pass has changed in it. -/
def summed (memory : Buffer Byte capacity) (colorPlane cx srcCx rows columns : Nat) :
    Buffer Byte capacity :=
  ⟨fun index =>
    if colorPlane ≤ index ∧
        Passed srcCx rows columns ((index - colorPlane) / cx) ((index - colorPlane) % cx) then
      columnSum memory colorPlane cx ((index - colorPlane) % cx) ((index - colorPlane) / cx)
    else memory.cell index⟩

section Cells

variable (memory : Buffer Byte capacity) {colorPlane cx srcCx rows columns : Nat}

theorem cell_summed {x : Nat} (y : Nat) (inside : x < cx) :
    (summed memory colorPlane cx srcCx rows columns).cell (colorPlane + cx * y + x) =
      if Passed srcCx rows columns y x then columnSum memory colorPlane cx x y
      else memory.cell (colorPlane + cx * y + x) := by
  have offset : colorPlane + cx * y + x - colorPlane = cx * y + x := by omega
  have line : (cx * y + x) / cx = y := by
    rw [Nat.mul_add_div (by omega), Nat.div_eq_of_lt inside, Nat.add_zero]
  have column : (cx * y + x) % cx = x := by
    rw [Nat.mul_add_mod, Nat.mod_eq_of_lt inside]
  have behind : colorPlane ≤ colorPlane + cx * y + x := by omega
  simp only [summed, offset, line, column, behind, true_and]

theorem cell_summed_before {index : Nat} (before : index < colorPlane) :
    (summed memory colorPlane cx srcCx rows columns).cell index = memory.cell index :=
  if_neg fun both => absurd both.1 (Nat.not_le.mpr before)

/-- Behind the last line that the pass has been over, nothing is changed. -/
theorem cell_summed_after {index : Nat} (some : 0 < cx)
    (after : colorPlane + cx * (rows + 1) ≤ index) :
    (summed memory colorPlane cx srcCx rows 0).cell index = memory.cell index := by
  refine if_neg fun both => ?_
  have line : rows + 1 ≤ (index - colorPlane) / cx := by
    rw [Nat.le_div_iff_mul_le some, Nat.mul_comm]
    omega
  rcases both.2.2 with early | ⟨_, none⟩ <;> omega

theorem summed_start (none : cx = 0 ∨ rows = 0) :
    summed memory colorPlane cx srcCx rows 0 = memory := by
  refine congrArg Buffer.mk (funext fun index => ?_)
  split
  · rename_i both
    obtain ⟨behind, _, passed⟩ := both
    have first : (index - colorPlane) / cx = 0 := by
      rcases none with flat | one
      · rw [flat, Nat.div_zero]
      · rcases passed with early | ⟨_, less⟩
        · rw [one] at early
          exact Nat.le_zero.mp early
        · exact (Nat.not_lt_zero _ less).elim
    have place := Nat.div_add_mod (index - colorPlane) cx
    rw [first] at place ⊢
    rw [columnSum]
    congr 1
    omega
  · rfl

theorem summed_line :
    summed memory colorPlane cx srcCx rows srcCx =
      summed memory colorPlane cx srcCx (rows + 1) 0 := by
  refine congrArg Buffer.mk (funext fun index => ?_)
  refine if_congr (and_congr_right fun _ => ?_) rfl rfl
  unfold Passed
  omega

theorem summed_next {column : Nat} (inside : column < srcCx) (within : srcCx ≤ cx) :
    (summed memory colorPlane cx srcCx rows column).set (colorPlane + cx * (rows + 1) + column)
        (columnSum memory colorPlane cx column (rows + 1)) =
      summed memory colorPlane cx srcCx rows (column + 1) := by
  refine congrArg Buffer.mk (funext fun index => ?_)
  by_cases here : index = colorPlane + cx * (rows + 1) + column
  · subst here
    have passed : Passed srcCx rows (column + 1) (rows + 1) column :=
      ⟨inside, .inr ⟨rfl, Nat.lt_succ_self column⟩⟩
    have read := @cell_summed _ memory colorPlane cx srcCx rows (column + 1) column (rows + 1)
      (by omega)
    rw [if_pos passed] at read
    rw [Function.update_self]
    exact read.symm
  · rw [Function.update_of_ne here]
    refine if_congr (and_congr_right fun behind => ?_) rfl rfl
    have place := Nat.div_add_mod (index - colorPlane) cx
    unfold Passed
    generalize (index - colorPlane) % cx = x at place ⊢
    generalize (index - colorPlane) / cx = y at place ⊢
    have apart : ¬ (y = rows + 1 ∧ x = column) := by
      rintro ⟨rfl, rfl⟩
      omega
    omega

end Cells

section Pass

variable {memory : Buffer Byte capacity} {colorPlane cx srcCx rows : Nat}

theorem addAbove_run {column : Nat} (inside : column < srcCx) (within : srcCx ≤ cx)
    (room : colorPlane + cx * (rows + 2) ≤ capacity) :
    addAbove cx (colorPlane + cx * (rows + 1) + column)
        (summed memory colorPlane cx srcCx rows column) =
      .ok (summed memory colorPlane cx srcCx rows (column + 1)) := by
  have span : cx * (rows + 2) = cx * (rows + 1) + cx := Nat.mul_succ cx (rows + 1)
  have above : cx * (rows + 1) = cx * rows + cx := Nat.mul_succ cx rows
  have place : colorPlane + cx * (rows + 1) + column - cx = colorPlane + cx * rows + column := by
    omega
  have ahead : ¬ Passed srcCx rows column (rows + 1) column := by
    rintro ⟨_, early | ⟨_, less⟩⟩ <;> omega
  have behind : Passed srcCx rows column rows column := ⟨inside, .inl (Nat.le_refl _)⟩
  have delta := @cell_summed _ memory colorPlane cx srcCx rows column column (rows + 1) (by omega)
  have upper := @cell_summed _ memory colorPlane cx srcCx rows column column rows (by omega)
  rw [if_neg ahead] at delta
  rw [if_pos behind] at upper
  have next := @summed_next _ memory colorPlane cx srcCx rows column inside within
  unfold addAbove
  rw [Buffer.load_of_lt _ (by omega), ok_bind, place, Buffer.load_of_lt _ (by omega), ok_bind,
    Buffer.store_of_lt _ (by omega), delta, upper]
  exact congrArg Except.ok next

theorem deltaLine_run (within : srcCx ≤ cx) (room : colorPlane + cx * (rows + 2) ≤ capacity) :
    deltaLine srcCx cx (colorPlane + cx * (rows + 1))
        (summed memory colorPlane cx srcCx rows 0) =
      .ok (summed memory colorPlane cx srcCx (rows + 1) 0) := by
  obtain ⟨final, ran, same⟩ := @foldlM_range'_ok _ _
    (fun memory x => addAbove cx (colorPlane + cx * (rows + 1) + x) memory)
    (fun column state => state = summed memory colorPlane cx srcCx rows column) 0 srcCx
    (fun column _ inside state same => ⟨summed memory colorPlane cx srcCx rows (column + 1), by
      rw [same]
      exact addAbove_run (by omega) within room, rfl⟩)
    (summed memory colorPlane cx srcCx rows 0) rfl
  rw [deltaLine, ran, same, Nat.zero_add, summed_line]

theorem deltaPass_run {srcCy : Nat} (fits : srcCx ≤ cx ∨ srcCy ≤ 1)
    (room : colorPlane + cx * srcCy ≤ capacity) :
    deltaPass srcCx srcCy cx colorPlane memory =
      .ok (summed memory colorPlane cx srcCx (srcCy - 1) 0) := by
  by_cases none : cx = 0 ∨ srcCy - 1 = 0
  · have rounds : (if cx = 0 then 0 else srcCy - 1) = 0 := by
      split <;> omega
    rw [deltaPass, rounds, summed_start memory none]
    rfl
  · have within : srcCx ≤ cx := by omega
    have some : ¬ cx = 0 := by omega
    obtain ⟨final, ran, same⟩ := @foldlM_range'_ok _ _
      (fun memory y => deltaLine srcCx cx (colorPlane + cx * y) memory)
      (fun line state => state = summed memory colorPlane cx srcCx (line - 1) 0) 1 (srcCy - 1)
      (fun line first last state same => ⟨summed memory colorPlane cx srcCx line 0, by
        have whole : colorPlane + cx * (line - 1 + 2) ≤ capacity := by
          have bounded : cx * (line - 1 + 2) ≤ cx * srcCy :=
            Nat.mul_le_mul_left cx (by omega)
          omega
        have ran := @deltaLine_run _ memory colorPlane cx srcCx (line - 1) within whole
        have count : line - 1 + 1 = line := by omega
        rw [count] at ran
        rw [same, ran], by rw [Nat.add_sub_cancel]⟩)
      memory (summed_start memory (.inr rfl)).symm
    have last : 1 + (srcCy - 1) - 1 = srcCy - 1 := by omega
    rw [deltaPass, if_neg some, ran, same, last]

theorem decompressColorPlane_run {srcCy : Nat} (plane : Plane srcCx srcCy)
    (narrow : srcCx < 2 ^ 16) (flat : srcCy < 2 ^ 16) (fits : srcCx ≤ cx ∨ srcCy = 0)
    (room : colorPlane + cx * srcCy ≤ capacity) (rest : List Byte) :
    decompressColorPlane srcCx srcCy cx colorPlane (plane.bytes ++ rest) memory =
      .ok (rest, summed (memory.splice colorPlane plane.values) colorPlane cx srcCx
        (srcCy - 1) 0) := by
  have packed : srcCx * srcCy ≤ cx * srcCy := by
    rcases fits with within | none
    · exact Nat.mul_le_mul_right srcCy within
    · simp [none]
  obtain ⟨next, ran, data, written⟩ := plane_run plane narrow flat memory
    (show colorPlane + srcCx * srcCy ≤ capacity by omega) rest
  have passed := @deltaPass_run _ (memory.splice colorPlane plane.values) colorPlane cx srcCx
    srcCy (by omega) room
  simp only [decompressColorPlane, ran, ok_bind, data, written, passed, pure_ok]

end Pass

end Redemption.Planar

/-! A bitmap whose planes are run-length encoded, or raw, and its pixels in the image. -/
namespace Redemption.Planar

open Redemption.Foundation

section Plane

variable {width height : Nat}

namespace Plane

/-- What is encoded for a place: a value in the first line, a delta in the others. -/
def coded (plane : Plane width height) (x y : Nat) : Byte :=
  match plane.lines[y]? with
  | some line => line.values.getD x 0
  | none => 0

def value (plane : Plane width height) (x : Nat) : Nat → Byte
  | 0 => plane.coded x 0
  | y + 1 => plane.value x y + undelta (plane.coded x (y + 1))

def row (plane : Plane width height) (y : Nat) : List Byte :=
  (List.range width).map fun x => plane.value x y

/-- The plane as it is sent without run-length encoding. -/
def raw (plane : Plane width height) : List Byte := (List.range' 0 height).flatMap plane.row

@[simp] theorem length_row (plane : Plane width height) (y : Nat) :
    (plane.row y).length = width := by simp [row]

theorem length_raw (plane : Plane width height) : plane.raw.length = width * height := by
  simp [raw, List.length_flatMap, Nat.mul_comm]

private theorem length_lines (lines : List (Line width)) :
    (lines.flatMap Line.values).length = width * lines.length := by
  induction lines with
  | nil => rfl
  | cons line others ih =>
    rw [List.flatMap_cons, List.length_append, ih, Line.length_values, List.length_cons,
      Nat.mul_succ, Nat.add_comm]

theorem length_values (plane : Plane width height) : plane.values.length = width * height := by
  rw [values, length_lines, plane.count]

private theorem lines_getElem (lines : List (Line width)) {x y : Nat} {line : Line width}
    (inside : x < width) (there : lines[y]? = some line) :
    (lines.flatMap Line.values)[width * y + x]? = line.values[x]? := by
  induction lines generalizing y with
  | nil => cases there
  | cons first others ih =>
    rw [List.flatMap_cons]
    cases y with
    | zero =>
      cases there
      rw [Nat.mul_zero, Nat.zero_add, List.getElem?_append_left (by simpa using inside)]
    | succ y =>
      have place : width * (y + 1) + x = first.values.length + (width * y + x) := by
        rw [first.length_values, Nat.mul_succ]
        omega
      rw [place, List.getElem?_append_right (by omega), Nat.add_sub_cancel_left]
      exact ih there

theorem values_getElem (plane : Plane width height) {x y : Nat} (inside : x < width)
    (below : y < height) : plane.values[width * y + x]? = some (plane.coded x y) := by
  have bounded : y < plane.lines.length := by
    rw [plane.count]
    exact below
  have there : plane.lines[y]? = some plane.lines[y] := List.getElem?_eq_getElem bounded
  have wide : x < (plane.lines[y]).values.length := by simpa using inside
  rw [values, lines_getElem plane.lines inside there, coded, there,
    List.getElem?_eq_getElem wide]
  simp only [List.getD_eq_getElem _ _ wide]

end Plane

end Plane

section Laid

variable {capacity width height : Nat}

/-- A memory after a plane has been decompressed into it. -/
def Plane.laid (plane : Plane width height) (cx colorPlane : Nat)
    (memory : Buffer Byte capacity) : Buffer Byte capacity :=
  summed (memory.splice colorPlane plane.values) colorPlane cx width (height - 1) 0

variable (plane : Plane width height) {cx colorPlane : Nat} (memory : Buffer Byte capacity)

/-- With one line only, or lines as long as those of the image, each place has its value. -/
theorem cell_laid {x y : Nat} (fits : width ≤ cx) (stride : width = cx ∨ height = 1)
    (inside : x < width) (below : y < height) :
    (plane.laid cx colorPlane memory).cell (colorPlane + cx * y + x) = plane.value x y := by
  have passed : Passed width (height - 1) 0 y x := ⟨inside, .inl (by omega)⟩
  rw [Plane.laid, cell_summed _ y (by omega), if_pos passed]
  clear passed
  have coded : ∀ y < height, (memory.splice colorPlane plane.values).cell
      (colorPlane + cx * y + x) = plane.coded x y := by
    intro y below
    have same : cx * y = width * y := by
      rcases stride with same | one
      · rw [same]
      · rw [show y = 0 by omega, Nat.mul_zero, Nat.mul_zero]
    have read := plane.values_getElem inside below
    obtain ⟨bounded, value⟩ := List.getElem?_eq_some_iff.mp read
    rw [same, Nat.add_assoc, Buffer.cell_splice_inside _ _ _ bounded, value]
  induction y with
  | zero => exact coded 0 below
  | succ y ih => rw [columnSum, ih (by omega), coded (y + 1) below, Plane.value]

theorem cell_laid_other {index : Nat} (fits : width ≤ cx ∨ height = 0)
    (outside : index < colorPlane ∨ colorPlane + cx * height ≤ index) :
    (plane.laid cx colorPlane memory).cell index = memory.cell index := by
  have packed : plane.values.length ≤ cx * height := by
    rw [plane.length_values]
    rcases fits with within | none
    · exact Nat.mul_le_mul_right height within
    · simp [none]
  rcases outside with before | after
  · rw [Plane.laid, cell_summed_before _ before, Buffer.cell_splice_before _ _ _ before]
  · have spliced : (memory.splice colorPlane plane.values).cell index = memory.cell index :=
      Buffer.cell_splice_after _ _ _ (by omega)
    by_cases flat : cx = 0 ∨ height - 1 = 0
    · rw [Plane.laid, summed_start _ flat, spliced]
    · have count : height - 1 + 1 = height := by omega
      rw [Plane.laid, cell_summed_after _ (by omega) (by rw [count]; exact after), spliced]

end Laid

section Copied

variable {capacity width height : Nat} (plane : Plane width height) {cx colorPlane : Nat}

/-- The state of the copy before a line. -/
structure Copying (memory : Buffer Byte capacity) (cx colorPlane : Nat) (rest : List Byte)
    (line : Nat) (state : List Byte × Buffer Byte capacity) : Prop where
  data : state.1 = (List.range' line (height - line)).flatMap plane.row ++ rest
  values : ∀ x < width, ∀ y < line,
    state.2.cell (colorPlane + cx * y + x) = plane.value x y
  others : ∀ index, index < colorPlane ∨ colorPlane + cx * height ≤ index →
    state.2.cell index = memory.cell index

private theorem copyLine_run (fits : width ≤ cx ∨ height = 0) {memory : Buffer Byte capacity}
    (room : colorPlane + cx * height ≤ capacity) {rest : List Byte} {line : Nat}
    (below : line < height) {state : List Byte × Buffer Byte capacity}
    (copying : Copying plane memory cx colorPlane rest line state) :
    ∃ next, (do
        let (bytes, data) ← inBytes width state.1
        let memory ← state.2.storeBlock (colorPlane + cx * line) bytes
        return (data, memory) : Checked ErrorId (List Byte × Buffer Byte capacity)) = .ok next ∧
      Copying plane memory cx colorPlane rest (line + 1) next := by
  obtain ⟨data, values, others⟩ := copying
  have lines : List.range' line (height - line) =
      line :: List.range' (line + 1) (height - (line + 1)) := by
    rw [show height - line = height - (line + 1) + 1 by omega, List.range'_succ]
  rw [lines, List.flatMap_cons, List.append_assoc] at data
  have reach : cx * (line + 1) ≤ cx * height := Nat.mul_le_mul_left cx below
  have span : cx * (line + 1) = cx * line + cx := Nat.mul_succ cx line
  have inside : colorPlane + cx * line + (plane.row line).length ≤ capacity := by
    rw [plane.length_row]
    omega
  refine ⟨((List.range' (line + 1) (height - (line + 1))).flatMap plane.row ++ rest,
    state.2.splice (colorPlane + cx * line) (plane.row line)), ?_, rfl, ?_, ?_⟩
  · simp only [data, inBytes_append (plane.length_row line), ok_bind,
      Buffer.storeBlock_of_le _ inside, pure_ok]
  · intro x narrow y above
    by_cases here : y = line
    · subst here
      rw [Buffer.cell_splice_inside _ _ _ (by simpa using narrow)]
      simp [Plane.row]
    · have earlier : cx * (y + 1) ≤ cx * line := Nat.mul_le_mul_left cx (by omega)
      have before : cx * (y + 1) = cx * y + cx := Nat.mul_succ cx y
      rw [Buffer.cell_splice_before _ _ _ (by omega)]
      exact values x narrow y (by omega)
  · intro index outside
    rw [← others index outside]
    rcases outside with before | after
    · exact Buffer.cell_splice_before _ _ _ (by omega)
    · exact Buffer.cell_splice_after _ _ _ (by rw [plane.length_row]; omega)

theorem inCopyColorPlan_run (fits : width ≤ cx ∨ height = 0) (memory : Buffer Byte capacity)
    (room : colorPlane + cx * height ≤ capacity) (rest : List Byte) :
    ∃ memory', inCopyColorPlan width height cx colorPlane (plane.raw ++ rest) memory =
        .ok (rest, memory') ∧
      (∀ x < width, ∀ y < height,
        memory'.cell (colorPlane + cx * y + x) = plane.value x y) ∧
      ∀ index, index < colorPlane ∨ colorPlane + cx * height ≤ index →
        memory'.cell index = memory.cell index := by
  obtain ⟨⟨data, copied⟩, ran, left, values, others⟩ := @foldlM_range'_ok _
    (List Byte × Buffer Byte capacity) _ (Copying plane memory cx colorPlane rest) 0 height
    (fun y _ below state before => copyLine_run plane fits room (by omega) before)
    (plane.raw ++ rest, memory)
    ⟨rfl, fun _ _ _ none => (Nat.not_lt_zero _ none).elim, fun _ _ => rfl⟩
  have done : height - (0 + height) = 0 := by omega
  rw [done] at left
  refine ⟨copied, ?_, fun x inside y below => values x inside y (by omega), others⟩
  rw [inCopyColorPlan, ran]
  exact congrArg Except.ok (Prod.ext left rfl)

end Copied

end Redemption.Planar
