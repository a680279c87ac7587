import Mathlib.Data.Int.Basic
import Mathlib.Data.List.Basic

/-! An area cut into square tiles, left to right and top to bottom; the tiles of the last
column and those of the last row may be smaller. -/
namespace Redemption.Foundation

/-- The pixels of a screen from `left` and from `top` on. -/
structure Area where
  left : Int
  top : Int
  width : Nat
  height : Nat
  deriving DecidableEq, Repr

namespace Area

def Contains (area : Area) (x y : Int) : Prop :=
  (area.left ≤ x ∧ x < area.left + area.width) ∧ area.top ≤ y ∧ y < area.top + area.height

instance (area : Area) (x y : Int) : Decidable (area.Contains x y) :=
  inferInstanceAs (Decidable (_ ∧ _))

/-- Every pixel of an area lies in exactly one of the parts, and no other pixel in any. -/
structure Partition (area : Area) (parts : List Area) : Prop where
  inside : ∀ part ∈ parts, ∀ x y, part.Contains x y → area.Contains x y
  covers : ∀ x y, area.Contains x y → ∃ part ∈ parts, part.Contains x y
  apart : parts.Pairwise fun first second => ∀ x y, ¬(first.Contains x y ∧ second.Contains x y)

end Area

theorem rowMajor_eq_iff {width x y i j : Nat} (first : i < width) (second : x < width) :
    j * width + i = y * width + x ↔ i = x ∧ j = y := by
  constructor
  · intro same
    rcases Nat.lt_trichotomy j y with less | equal | more
    · have := Nat.mul_le_mul_right width less
      rw [Nat.succ_mul] at this
      omega
    · subst equal
      exact ⟨by omega, rfl⟩
    · have := Nat.mul_le_mul_right width more
      rw [Nat.succ_mul] at this
      omega
  · rintro ⟨rfl, rfl⟩
    rfl

namespace TileGrid

variable (side : Nat) (area : Area)

def columns : Nat := (area.width + (side - 1)) / side

def rows : Nat := (area.height + (side - 1)) / side

def count : Nat := columns side area * rows side area

/-- The tile of an index, counted row by row. -/
def tile (index : Nat) : Area where
  left := area.left + side * (index % columns side area : Nat)
  top := area.top + side * (index / columns side area : Nat)
  width := min side (area.width - side * (index % columns side area))
  height := min side (area.height - side * (index / columns side area))

def tiles : List Area := (List.range (count side area)).map (tile side area)

@[simp] theorem length_tiles : (tiles side area).length = count side area := by
  simp [tiles]

variable {side area}

private theorem piece_iff {length index : Nat} (positive : 0 < side) :
    index < (length + (side - 1)) / side ↔ side * index < length := by
  rw [Nat.lt_iff_add_one_le, Nat.le_div_iff_mul_le positive, Nat.add_mul, Nat.one_mul,
    Nat.mul_comm]
  constructor
  · intro whole
    omega
  · intro inside
    omega

theorem lt_columns_iff {column : Nat} (positive : 0 < side) :
    column < columns side area ↔ side * column < area.width := piece_iff positive

theorem lt_rows_iff {row : Nat} (positive : 0 < side) :
    row < rows side area ↔ side * row < area.height := piece_iff positive

variable {index : Nat}

theorem column_lt (bounded : index < count side area) :
    index % columns side area < columns side area := by
  apply Nat.mod_lt
  rcases Nat.eq_zero_or_pos (columns side area) with none | some
  · simp [count, none] at bounded
  · exact some

theorem row_lt (bounded : index < count side area) :
    index / columns side area < rows side area :=
  Nat.div_lt_of_lt_mul bounded

theorem column_inside (positive : 0 < side) (bounded : index < count side area) :
    side * (index % columns side area) < area.width :=
  (lt_columns_iff positive).mp (column_lt bounded)

theorem row_inside (positive : 0 < side) (bounded : index < count side area) :
    side * (index / columns side area) < area.height :=
  (lt_rows_iff positive).mp (row_lt bounded)

theorem count_pos (positive : 0 < side) (wide : 0 < area.width) (high : 0 < area.height) :
    0 < count side area := by
  apply Nat.mul_pos
  · exact Nat.div_pos (by omega) positive
  · exact Nat.div_pos (by omega) positive

/-- The pixel at an offset belongs to the tiles whose number is the quotient. -/
private theorem offset_iff {length piece : Nat} {start at' : Int} (positive : 0 < side)
    (inside : start ≤ at' ∧ at' < start + length) :
    (start + side * (piece : Int) ≤ at' ∧
      at' < start + side * (piece : Int) + (min side (length - side * piece) : Nat)) ↔
      (at' - start).toNat / side = piece := by
  obtain ⟨offset, rfl⟩ : ∃ offset : Nat, at' = start + offset :=
    ⟨(at' - start).toNat, by omega⟩
  have back : (start + (offset : Int) - start).toNat = offset := by omega
  rw [back, Nat.div_eq_iff positive]
  have cast : ((side * piece : Nat) : Int) = side * (piece : Int) := by simp
  rw [← cast, Nat.mul_comm]
  constructor
  · intro both
    omega
  · intro both
    omega

theorem contains_of_tile {x y : Int} (inside : (tile side area index).Contains x y) :
    area.Contains x y := by
  obtain ⟨⟨left, right⟩, top, bottom⟩ := inside
  simp only [tile] at left right top bottom
  refine ⟨⟨?_, ?_⟩, ?_, ?_⟩ <;> omega

theorem contains_tile_iff (positive : 0 < side) {x y : Int}
    (inside : area.Contains x y) :
    (tile side area index).Contains x y ↔
      (x - area.left).toNat / side = index % columns side area ∧
        (y - area.top).toNat / side = index / columns side area := by
  apply and_congr
  · exact offset_iff positive inside.1
  · exact offset_iff positive inside.2

/-- The tiles partition the area. -/
theorem partition_tiles (positive : 0 < side) (area : Area) :
    area.Partition (tiles side area) where
  inside := by
    intro part member x y inside
    obtain ⟨index, bounded, rfl⟩ := List.mem_map.mp member
    exact contains_of_tile inside
  covers := by
    intro x y inside
    have wide := inside.1
    have high := inside.2
    have column : (x - area.left).toNat / side < columns side area :=
      (lt_columns_iff positive).mpr (by
        have := Nat.mul_div_le (x - area.left).toNat side
        omega)
    have row : (y - area.top).toNat / side < rows side area :=
      (lt_rows_iff positive).mpr (by
        have := Nat.mul_div_le (y - area.top).toNat side
        omega)
    have bounded : (x - area.left).toNat / side
        + columns side area * ((y - area.top).toNat / side) < count side area := by
      calc _ < columns side area + columns side area * ((y - area.top).toNat / side) :=
            Nat.add_lt_add_right column _
        _ = columns side area * ((y - area.top).toNat / side + 1) := by
            rw [Nat.mul_add, Nat.mul_one, Nat.add_comm]
        _ ≤ count side area := Nat.mul_le_mul_left _ row
    refine ⟨_, List.mem_map.mpr ⟨_, List.mem_range.mpr bounded, rfl⟩, ?_⟩
    rw [contains_tile_iff positive inside, Nat.add_mul_mod_self_left, Nat.mod_eq_of_lt column,
      Nat.add_mul_div_left _ _ (Nat.zero_lt_of_lt column), Nat.div_eq_of_lt column, Nat.zero_add]
    exact ⟨rfl, rfl⟩
  apart := by
    rw [tiles, List.pairwise_map]
    apply List.Pairwise.imp_of_mem ?_ List.pairwise_lt_range
    intro first second member _ less x y ⟨inFirst, inSecond⟩
    have inside := contains_of_tile inFirst
    obtain ⟨column, row⟩ := (contains_tile_iff positive inside).mp inFirst
    obtain ⟨column', row'⟩ := (contains_tile_iff positive inside).mp inSecond
    have same : first = second := by
      rw [← Nat.mod_add_div first (columns side area), ← Nat.mod_add_div second (columns side area),
        ← column, ← row, column', row']
    omega

theorem next_column (more : index % columns side area + 1 < columns side area) :
    (index + 1) % columns side area = index % columns side area + 1 ∧
      (index + 1) / columns side area = index / columns side area := by
  have split := Nat.mod_add_div index (columns side area)
  have next : index + 1 = (index % columns side area + 1)
      + columns side area * (index / columns side area) := by omega
  constructor
  · rw [next, Nat.add_mul_mod_self_left, Nat.mod_eq_of_lt more]
  · rw [next, Nat.add_mul_div_left _ _ (by omega), Nat.div_eq_of_lt more, Nat.zero_add]

theorem next_row (last : index % columns side area + 1 = columns side area) :
    (index + 1) % columns side area = 0 ∧
      (index + 1) / columns side area = index / columns side area + 1 := by
  have split := Nat.mod_add_div index (columns side area)
  have next : index + 1 = columns side area * (index / columns side area + 1) := by
    rw [Nat.mul_add, Nat.mul_one]
    omega
  have positive : 0 < columns side area := by omega
  rw [next]
  exact ⟨Nat.mul_mod_right _ _, Nat.mul_div_cancel_left _ positive⟩

theorem next_lt_count (bounded : index < count side area)
    (more : index % columns side area + 1 < columns side area) : index + 1 < count side area := by
  have row := row_lt bounded
  rw [← Nat.mod_add_div index (columns side area)]
  calc index % columns side area + columns side area * (index / columns side area) + 1
      < columns side area + columns side area * (index / columns side area) := by omega
    _ = columns side area * (index / columns side area + 1) := by
        rw [Nat.mul_add, Nat.mul_one, Nat.add_comm]
    _ ≤ count side area := Nat.mul_le_mul_left _ row

theorem next_lt_count_iff
    (last : index % columns side area + 1 = columns side area) :
    index + 1 < count side area ↔ index / columns side area + 1 < rows side area := by
  have split := Nat.mod_add_div index (columns side area)
  have next : index + 1 = columns side area * (index / columns side area + 1) := by
    rw [Nat.mul_add, Nat.mul_one]
    omega
  have positive : 0 < columns side area := by omega
  rw [next, count]
  exact Nat.mul_lt_mul_left positive

end TileGrid

end Redemption.Foundation
