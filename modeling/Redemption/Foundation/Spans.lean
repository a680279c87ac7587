import Redemption.Foundation.TileGrid
import Mathlib.Data.List.Lemmas

/-! Pieces of a line that lie end to end, and the areas that two such lines cut out. -/
namespace Redemption.Foundation

/-- A piece of a line. -/
structure Span where
  start : Int
  length : Nat
  deriving DecidableEq, Repr

namespace Span

def Contains (span : Span) (place : Int) : Prop :=
  span.start ≤ place ∧ place < span.start + span.length

/-- Pieces laid end to end, from `start` up to `finish`; none of them is empty. -/
def EndToEnd (start : Int) : List Span → Int → Prop
  | [], finish => start = finish
  | piece :: rest, finish =>
    piece.start = start ∧ 0 < piece.length ∧ EndToEnd (start + piece.length) rest finish

theorem EndToEnd.append {start middle finish : Int} {front back : List Span}
    (first : EndToEnd start front middle) (second : EndToEnd middle back finish) :
    EndToEnd start (front ++ back) finish := by
  induction front generalizing start with
  | nil =>
    cases first
    exact second
  | cons piece rest ih => exact ⟨first.1, first.2.1, ih first.2.2⟩

variable {start finish : Int} {pieces : List Span}

theorem EndToEnd.le (laid : EndToEnd start pieces finish) : start ≤ finish := by
  induction pieces generalizing start with
  | nil => exact Int.le_of_eq laid
  | cons piece rest ih =>
    have later := ih laid.2.2
    omega

theorem EndToEnd.inside (laid : EndToEnd start pieces finish) {piece : Span}
    (member : piece ∈ pieces) :
    start ≤ piece.start ∧ piece.start + piece.length ≤ finish := by
  induction pieces generalizing start with
  | nil => cases member
  | cons first rest ih =>
    obtain ⟨from', some', later⟩ := laid
    rcases List.mem_cons.mp member with same | other
    · subst same
      have := later.le
      omega
    · have := ih later other
      omega

theorem EndToEnd.nonEmpty (laid : EndToEnd start pieces finish) {piece : Span}
    (member : piece ∈ pieces) : 0 < piece.length := by
  induction pieces generalizing start with
  | nil => cases member
  | cons first rest ih =>
    rcases List.mem_cons.mp member with same | other
    · subst same
      exact laid.2.1
    · exact ih laid.2.2 other

theorem EndToEnd.covers (laid : EndToEnd start pieces finish) {place : Int}
    (lower : start ≤ place) (upper : place < finish) : ∃ piece ∈ pieces, piece.Contains place := by
  induction pieces generalizing start with
  | nil =>
    have same : start = finish := laid
    omega
  | cons first rest ih =>
    obtain ⟨from', some', later⟩ := laid
    by_cases here : place < start + first.length
    · exact ⟨first, List.mem_cons_self, by rw [Contains, from']; exact ⟨lower, here⟩⟩
    · obtain ⟨piece, member, holds⟩ := ih later (by omega)
      exact ⟨piece, List.mem_cons_of_mem _ member, holds⟩

theorem EndToEnd.ordered (laid : EndToEnd start pieces finish) :
    pieces.Pairwise fun (first second : Span) =>
      first.start + first.length ≤ second.start := by
  induction pieces generalizing start with
  | nil => exact .nil
  | cons first rest ih =>
    obtain ⟨from', some', later⟩ := laid
    refine .cons ?_ (ih later)
    intro second member
    have := (later.inside member).1
    omega

section Cuts

variable (origin : Int) (step length : Nat)

/-- The piece of an index of a line that is cut every `step`. -/
def piece (index : Nat) : Span := ⟨origin + (step * index : Nat), min step (length - step * index)⟩

/-- The pieces of a line; the last one may be shorter. -/
def cuts : List Span := (List.range ((length + (step - 1)) / step)).map (piece origin step length)

variable {step}

theorem lt_count_iff {index : Nat} (positive : 0 < step) :
    index < (length + (step - 1)) / step ↔ step * index < length := by
  rw [Nat.lt_iff_add_one_le, Nat.le_div_iff_mul_le positive, Nat.add_mul, Nat.one_mul,
    Nat.mul_comm]
  constructor
  · intro whole
    omega
  · intro inside
    omega

/-- From a piece on, the remaining ones lie end to end. -/
theorem endToEnd_range' (positive : 0 < step) (count index : Nat)
    (last : index + count = (length + (step - 1)) / step) (within : step * index ≤ length) :
    EndToEnd (origin + (step * index : Nat)) ((List.range' index count).map
      (piece origin step length)) (origin + length) := by
  induction count generalizing index with
  | zero =>
    have whole : ¬step * index < length := by
      rw [← lt_count_iff length positive]
      omega
    have same : step * index = length := by omega
    simp only [List.range'_zero, List.map_nil, EndToEnd, same]
  | succ count ih =>
    have inside : step * index < length := (lt_count_iff length positive).mp (by omega)
    rw [List.range'_succ, List.map_cons]
    refine ⟨rfl, ?_, ?_⟩
    · simp only [piece]
      omega
    · by_cases more : step * (index + 1) ≤ length
      · have whole : (piece origin step length index).length = step := by
          rw [Nat.mul_add] at more
          simp only [piece]
          omega
        have next := ih (index + 1) (by omega) more
        rw [whole]
        rwa [Nat.mul_add, Nat.mul_one, Int.natCast_add, ← Int.add_assoc] at next
      · have ended : count = 0 := by
          have := mt (@lt_count_iff step length (index + 1) positive).mp (by omega)
          omega
        rw [Nat.mul_add] at more
        subst ended
        simp only [List.range'_zero, List.map_nil, EndToEnd, piece]
        omega

theorem endToEnd_cuts (positive : 0 < step) :
    EndToEnd origin (cuts origin step length) (origin + length) := by
  have laid := endToEnd_range' origin length positive ((length + (step - 1)) / step) 0
    (Nat.zero_add _) (Nat.zero_le _)
  rw [Nat.mul_zero, Int.natCast_zero, Int.add_zero, ← List.range_eq_range'] at laid
  exact laid

/-- A span further along the line. -/
def shift (distance : Int) (span : Span) : Span := ⟨distance + span.start, span.length⟩

theorem EndToEnd.shift (laid : EndToEnd start pieces finish) (distance : Int) :
    EndToEnd (distance + start) (pieces.map (shift distance)) (distance + finish) := by
  induction pieces generalizing start with
  | nil => exact congrArg (distance + ·) laid
  | cons piece rest ih =>
    obtain ⟨from', some', later⟩ := laid
    refine ⟨congrArg (distance + ·) from', some', ?_⟩
    rw [Int.add_assoc]
    exact ih later

theorem cuts_shift : (cuts 0 step length).map (shift origin) = cuts origin step length := by
  rw [cuts, cuts, List.map_map]
  apply List.map_congr_left
  intro index _
  simp only [Function.comp, shift, piece, Int.zero_add]

variable {origin length}

theorem length_cut_le {cut : Span} (member : cut ∈ cuts origin step length) :
    cut.length ≤ step := by
  obtain ⟨index, _, rfl⟩ := List.mem_map.mp member
  exact Nat.min_le_left _ _

end Cuts

end Span

namespace Area

/-- The area that a piece of each direction cuts out. -/
def across (column row : Span) : Area := ⟨column.start, row.start, column.length, row.length⟩

/-- The areas cut out by the pieces of both directions, row by row. -/
def grid (columns rows : List Span) : List Area :=
  rows.flatMap fun row => columns.map fun column => across column row

/-- Row by row, and in a row from left to right. -/
def Before (first second : Area) : Prop :=
  first.top < second.top ∨ (first.top = second.top ∧ first.left < second.left)

theorem contains_across {column row : Span} {x y : Int} :
    (across column row).Contains x y ↔ column.Contains x ∧ row.Contains y := Iff.rfl

theorem mem_grid {columns rows : List Span} {part : Area} :
    part ∈ grid columns rows ↔ ∃ row ∈ rows, ∃ column ∈ columns, across column row = part := by
  simp only [grid, List.mem_flatMap, List.mem_map]

variable {area : Area} {columns rows : List Span}

/-- What holds between the pieces of a row and between those of different rows holds between the
areas they cut out. -/
private theorem pairwise_grid {relation : Area → Area → Prop}
    (sameRow : ∀ row ∈ rows, (columns.map fun column => across column row).Pairwise relation)
    (otherRow : rows.Pairwise fun first second =>
      ∀ left ∈ columns, ∀ right ∈ columns, relation (across left first) (across right second)) :
    (grid columns rows).Pairwise relation := by
  rw [grid, List.pairwise_flatMap]
  refine ⟨sameRow, otherRow.imp ?_⟩
  intro first second related one member other member'
  obtain ⟨left, here, rfl⟩ := List.mem_map.mp member
  obtain ⟨right, there, rfl⟩ := List.mem_map.mp member'
  exact related left here right there

/-- Columns and rows that lie end to end cut the area into parts. -/
theorem partition_grid (across' : Span.EndToEnd area.left columns (area.left + area.width))
    (down : Span.EndToEnd area.top rows (area.top + area.height)) :
    area.Partition (grid columns rows) where
  inside := by
    intro part member x y inside
    obtain ⟨row, isRow, column, isColumn, rfl⟩ := mem_grid.mp member
    obtain ⟨⟨left, right⟩, top, bottom⟩ := contains_across.mp inside
    have wide := across'.inside isColumn
    have high := down.inside isRow
    exact ⟨⟨by omega, by omega⟩, by omega, by omega⟩
  covers := by
    intro x y ⟨⟨left, right⟩, top, bottom⟩
    obtain ⟨column, isColumn, here⟩ := across'.covers left right
    obtain ⟨row, isRow, there⟩ := down.covers top bottom
    exact ⟨_, mem_grid.mpr ⟨row, isRow, column, isColumn, rfl⟩, here, there⟩
  apart := by
    apply pairwise_grid
    · intro row _
      rw [List.pairwise_map]
      apply across'.ordered.imp
      intro first second behind x y ⟨inFirst, inSecond⟩
      have before := (contains_across.mp inFirst).1.2
      have after := (contains_across.mp inSecond).1.1
      omega
    · apply down.ordered.imp
      intro first second below left _ right _ x y ⟨inFirst, inSecond⟩
      have before := (contains_across.mp inFirst).2.2
      have after := (contains_across.mp inSecond).2.1
      omega

theorem before_grid {left right top bottom : Int} (across' : Span.EndToEnd left columns right)
    (down : Span.EndToEnd top rows bottom) : (grid columns rows).Pairwise Before := by
  apply pairwise_grid
  · intro row _
    rw [List.pairwise_map]
    apply across'.ordered.imp_of_mem
    intro first second member _ behind
    have some' := across'.nonEmpty member
    refine .inr ⟨rfl, ?_⟩
    simp only [across]
    omega
  · apply down.ordered.imp_of_mem
    intro first second member _ below _ _ _ _
    have some' := down.nonEmpty member
    refine .inl ?_
    simp only [across]
    omega

end Area

end Redemption.Foundation
