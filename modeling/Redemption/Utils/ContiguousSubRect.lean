import Mathlib.Data.Int.GCD
import Mathlib.Data.Nat.ModEq
import Redemption.Foundation.Spans
import Redemption.Utils.Rect

/-! `contiguous_sub_rect_f`: the calls of a function with the parts of an area, whose loops count in
16 bits. -/
namespace Redemption.Utils

open Redemption.Foundation

/-- The values that the counter of a loop `for (uint16_t i = place; i < finish; i += step)` takes,
where it ends within so many rounds. -/
def counter (finish step : BitVec 16) : Nat → BitVec 16 → Option (List (BitVec 16))
  | 0, _ => none
  | rounds + 1, place =>
    if place < finish then (counter finish step rounds (place + step)).map (place :: ·)
    else some []

structure CxCy where
  cx : BitVec 16
  cy : BitVec 16
  deriving DecidableEq, Repr

structure SubCxCy where
  cx : BitVec 16
  cy : BitVec 16
  deriving DecidableEq, Repr

/-- The rectangles that `contiguous_sub_rect_f` calls its function with, in order. -/
def contiguousSubRectF (wh : CxCy) (subWh : SubCxCy) (rounds : Nat) : Option (List Rect) := do
  let ys ← counter wh.cy subWh.cy rounds 0
  let rows ← ys.mapM fun y => do
    let cy := min subWh.cy.toNat (wh.cy - y).toNat
    let xs ← counter wh.cx subWh.cx rounds 0
    return xs.map fun x => Rect.of x y (min subWh.cx.toNat (wh.cx - x).toNat) cy
  return rows.flatten

section Counter

variable {finish step : BitVec 16}

/-- The value of the counter after so many rounds. -/
private theorem next_value (step : BitVec 16) (index : Nat) :
    BitVec.ofNat 16 (step.toNat * index) + step = BitVec.ofNat 16 (step.toNat * (index + 1)) := by
  rw [Nat.mul_add, Nat.mul_one, BitVec.ofNat_add, BitVec.ofNat_toNat, BitVec.setWidth_eq]

private theorem value_lt_iff {index : Nat} :
    BitVec.ofNat 16 (step.toNat * index) < finish ↔
      step.toNat * index % 2 ^ 16 < finish.toNat := by
  rw [BitVec.lt_def, BitVec.toNat_ofNat]

/-- A loop whose counter does not wrap around takes every multiple of the step before the end. -/
theorem counter_ends (positive : 0 < step.toNat)
    (fits : step.toNat * ((finish.toNat + (step.toNat - 1)) / step.toNat) < 2 ^ 16) (count index : Nat)
    (last : index + count = (finish.toNat + (step.toNat - 1)) / step.toNat) {rounds : Nat}
    (enough : count < rounds) :
    counter finish step rounds (BitVec.ofNat 16 (step.toNat * index)) =
      some ((List.range' index count).map fun index => BitVec.ofNat 16 (step.toNat * index)) := by
  have inside := @Span.lt_count_iff step.toNat finish.toNat index positive
  have small : step.toNat * index % 2 ^ 16 = step.toNat * index := by
    apply Nat.mod_eq_of_lt
    have := Nat.mul_le_mul_left step.toNat (show index ≤ _ from Nat.le.intro last)
    omega
  induction count generalizing index rounds with
  | zero =>
    obtain ⟨rounds, rfl⟩ := Nat.exists_eq_add_one_of_ne_zero (by omega : rounds ≠ 0)
    have outside : ¬BitVec.ofNat 16 (step.toNat * index) < finish := by
      rw [value_lt_iff, small, ← inside]
      omega
    rw [counter, if_neg outside]
    rfl
  | succ count ih =>
    obtain ⟨rounds, rfl⟩ := Nat.exists_eq_add_one_of_ne_zero (by omega : rounds ≠ 0)
    have under : BitVec.ofNat 16 (step.toNat * index) < finish := by
      rw [value_lt_iff, small, ← inside]
      omega
    have next : step.toNat * (index + 1) % 2 ^ 16 = step.toNat * (index + 1) := by
      apply Nat.mod_eq_of_lt
      have := Nat.mul_le_mul_left step.toNat
        (show index + 1 ≤ (finish.toNat + (step.toNat - 1)) / step.toNat by omega)
      omega
    rw [counter, if_pos under, next_value,
      ih (index + 1) (by omega) (by omega) (Span.lt_count_iff _ positive) next]
    rfl

/-- Before the counter can wrap around, it takes every multiple of the step before the end. -/
theorem mem_counter {rounds index : Nat} {values : List (BitVec 16)}
    (ends : counter finish step rounds (BitVec.ofNat 16 (step.toNat * index)) = some values)
    (more : Nat) (inside : step.toNat * (index + more) < finish.toNat) :
    BitVec.ofNat 16 (step.toNat * (index + more)) ∈ values := by
  induction rounds generalizing index more values with
  | zero => cases ends
  | succ rounds ih =>
    have before : step.toNat * index ≤ step.toNat * (index + more) :=
      Nat.mul_le_mul_left _ (Nat.le_add_right _ _)
    have under : BitVec.ofNat 16 (step.toNat * index) < finish := by
      rw [value_lt_iff, Nat.mod_eq_of_lt (by omega)]
      omega
    rw [counter, if_pos under, next_value] at ends
    obtain ⟨rest, later, rfl⟩ := Option.map_eq_some_iff.mp ends
    cases more with
    | zero => exact List.mem_cons_self
    | succ more =>
      rw [Nat.add_comm more, ← Nat.add_assoc] at inside ⊢
      exact List.mem_cons_of_mem _ (ih later more inside)

/-- A loop ends exactly when its counter takes a value that is not below the end. -/
theorem counter_isSome_iff {index : Nat} :
    (∃ rounds values, counter finish step rounds (BitVec.ofNat 16 (step.toNat * index)) =
        some values) ↔
      ∃ more, finish.toNat ≤ step.toNat * (index + more) % 2 ^ 16 := by
  constructor
  · rintro ⟨rounds, values, ends⟩
    induction rounds generalizing index values with
    | zero => cases ends
    | succ rounds ih =>
      by_cases under : BitVec.ofNat 16 (step.toNat * index) < finish
      · rw [counter, if_pos under, next_value] at ends
        obtain ⟨rest, later, _⟩ := Option.map_eq_some_iff.mp ends
        obtain ⟨more, reached⟩ := ih _ later
        exact ⟨1 + more, by rwa [← Nat.add_assoc]⟩
      · exact ⟨0, Nat.not_lt.mp under⟩
  · rintro ⟨more, reached⟩
    induction more generalizing index with
    | zero =>
      have outside : ¬BitVec.ofNat 16 (step.toNat * index) < finish := by
        rw [value_lt_iff]
        exact Nat.not_lt.mpr reached
      exact ⟨1, [], by rw [counter, if_neg outside]⟩
    | succ more ih =>
      by_cases under : BitVec.ofNat 16 (step.toNat * index) < finish
      · obtain ⟨rounds, values, ends⟩ := @ih (index + 1) (by rwa [Nat.add_assoc, Nat.add_comm 1])
        exact ⟨rounds + 1, _ :: values, by rw [counter, if_pos under, next_value, ends]; rfl⟩
      · exact ⟨1, [], by rw [counter, if_neg under]⟩

/-- The multiples of the step that the counter can take are those of its common divisor with
`2 ^ 16`. -/
theorem exists_multiple_iff (positive : 0 < step.toNat) :
    (∃ more, finish.toNat ≤ step.toNat * more % 2 ^ 16) ↔
      finish.toNat + step.toNat.gcd (2 ^ 16) ≤ 2 ^ 16 := by
  have bounded := step.isLt
  have divides : step.toNat.gcd (2 ^ 16) ∣ 2 ^ 16 := Nat.gcd_dvd_right _ _
  have small : step.toNat.gcd (2 ^ 16) < 2 ^ 16 :=
    Nat.lt_of_le_of_lt (Nat.gcd_le_left _ positive) bounded
  constructor
  · rintro ⟨more, reached⟩
    have value : step.toNat.gcd (2 ^ 16) ∣ step.toNat * more % 2 ^ 16 :=
      (Nat.dvd_mod_iff divides).mpr (Nat.dvd_mul_right_of_dvd (Nat.gcd_dvd_left _ _) _)
    have rest : step.toNat.gcd (2 ^ 16) ≤ 2 ^ 16 - step.toNat * more % 2 ^ 16 :=
      Nat.le_of_dvd (Nat.sub_pos_of_lt (Nat.mod_lt _ (by decide))) (Nat.dvd_sub divides value)
    omega
  · intro room
    obtain ⟨factor, _, gives⟩ := Nat.exists_mul_mod_eq_gcd small
    generalize step.toNat.gcd (2 ^ 16) = divisor at *
    have positive' : 0 < divisor := by
      rcases Nat.eq_zero_or_pos divisor with none | some'
      · rw [none, Nat.zero_dvd] at divides
        cases divides
      · exact some'
    refine ⟨factor * (2 ^ 16 - 1), ?_⟩
    have value : step.toNat * (factor * (2 ^ 16 - 1)) % 2 ^ 16 = 2 ^ 16 - divisor := by
      calc step.toNat * (factor * (2 ^ 16 - 1)) % 2 ^ 16
          = step.toNat * factor % 2 ^ 16 * (2 ^ 16 - 1) % 2 ^ 16 := by
            rw [← Nat.mul_assoc, Nat.mod_mul_mod]
        _ = divisor * (2 ^ 16 - 1) % 2 ^ 16 := by rw [gives]
        _ = 2 ^ 16 - divisor := by omega
    omega

end Counter

/-- The calls cut the area into parts of at most the given size, row by row. -/
structure Tiles (wh : CxCy) (subWh : SubCxCy) (calls : List Rect) : Prop where
  nonEmpty : ∀ rect ∈ calls, rect.isEmpty = false
  small : ∀ rect ∈ calls, rect.cx ≤ subWh.cx.toNat ∧ rect.cy ≤ subWh.cy.toNat
  rowByRow : (calls.map Rect.area).Pairwise Area.Before
  partition : (Area.mk 0 0 wh.cx.toNat wh.cy.toNat).Partition (calls.map Rect.area)

/-- The parts of a side start below `2 ^ 15`, and are no longer than that. -/
structure Shown (length step : BitVec 16) : Prop where
  corner : step.toNat * ((length.toNat - 1) / step.toNat) < 2 ^ 15
  size : min step.toNat length.toNat ≤ 2 ^ 15

/-- The sizes that `contiguous_sub_rect_f` copes with. Without columns there is nothing to call the
function with, and only the counter of the rows has to come to an end. -/
structure TilesFit (wh : CxCy) (subWh : SubCxCy) : Prop where
  ends : wh.cx = 0 → wh.cy ≠ 0 → wh.cy.toNat + subWh.cy.toNat.gcd (2 ^ 16) ≤ 2 ^ 16
  shown : wh.cx ≠ 0 → wh.cy ≠ 0 → Shown wh.cx subWh.cx ∧ Shown wh.cy subWh.cy

section Sides

variable {length step : BitVec 16}

private theorem toNat_pos (some' : length ≠ 0) : 0 < length.toNat := by
  rw [Nat.pos_iff_ne_zero]
  intro none
  exact some' (BitVec.eq_of_toNat_eq none)

private theorem cuts_count (some' : 0 < length.toNat) (positive : 0 < step.toNat) :
    (length.toNat + (step.toNat - 1)) / step.toNat = (length.toNat - 1) / step.toNat + 1 := by
  rw [← Nat.add_div_right _ positive]
  congr 1
  omega

private theorem Shown.counter (shown : Shown length step) (some' : 0 < length.toNat)
    (positive : 0 < step.toNat) {rounds : Nat}
    (enough : (length.toNat + (step.toNat - 1)) / step.toNat < rounds) :
    counter length step rounds 0 =
      some ((List.range ((length.toNat + (step.toNat - 1)) / step.toNat)).map
        fun index => BitVec.ofNat 16 (step.toNat * index)) := by
  have fits : step.toNat * ((length.toNat + (step.toNat - 1)) / step.toNat) < 2 ^ 16 := by
    have corner := shown.corner
    have size := shown.size
    rw [cuts_count some' positive, Nat.mul_add, Nat.mul_one]
    by_cases large : 2 ^ 15 < step.toNat
    · rw [Nat.div_eq_of_lt (by omega)]
      have := step.isLt
      omega
    · omega
  have ends := counter_ends positive fits _ 0 (Nat.zero_add _) enough
  rwa [Nat.mul_zero, ← List.range_eq_range'] at ends

private theorem Shown.part (shown : Shown length step) (positive : 0 < step.toNat) {index : Nat}
    (inside : step.toNat * index < length.toNat) :
    (BitVec.ofNat 16 (step.toNat * index)).toInt = step.toNat * index ∧
      (length - BitVec.ofNat 16 (step.toNat * index)).toNat = length.toNat - step.toNat * index ∧
      (0 < min step.toNat (length.toNat - step.toNat * index) ∧
        min step.toNat (length.toNat - step.toNat * index) ≤ 2 ^ 15) := by
  have corner := shown.corner
  have size := shown.size
  have before : step.toNat * index ≤ step.toNat * ((length.toNat - 1) / step.toNat) := by
    apply Nat.mul_le_mul_left
    rw [Nat.le_div_iff_mul_le positive, Nat.mul_comm]
    omega
  have place : (BitVec.ofNat 16 (step.toNat * index)).toNat = step.toNat * index := by
    rw [BitVec.toNat_ofNat, Nat.mod_eq_of_lt (by omega)]
  refine ⟨?_, ?_, ?_, ?_⟩
  · rw [toInt_ofNat_small (by omega), Int.natCast_mul]
  · rw [BitVec.toNat_sub_of_le (by rw [BitVec.le_def, place]; omega), place]
  · omega
  · omega

end Sides

section Calls

variable {wh : CxCy} {subWh : SubCxCy}

/-- The call for the parts at `x` and `y`. -/
private def callAt (wh : CxCy) (subWh : SubCxCy) (y x : BitVec 16) : Rect :=
  Rect.of x y (min subWh.cx.toNat (wh.cx - x).toNat) (min subWh.cy.toNat (wh.cy - y).toNat)

private theorem calls_of_counters {rounds : Nat} {xs ys : List (BitVec 16)}
    (across' : counter wh.cx subWh.cx rounds 0 = some xs)
    (down : counter wh.cy subWh.cy rounds 0 = some ys) :
    contiguousSubRectF wh subWh rounds =
      some (ys.flatMap fun y => xs.map (callAt wh subWh y)) := by
  have rows := @List.mapM_pure Option _ _ _ _ ys fun y => xs.map (callAt wh subWh y)
  simp only [contiguousSubRectF, across', down, Option.bind_eq_bind, Option.bind_some]
  exact congrArg (fun rows => rows.bind fun rows => some rows.flatten) rows

/-- Where there are rows, the loops of both directions have ended. -/
private theorem counters_of_calls {rounds : Nat} {calls : List Rect} (some' : wh.cy ≠ 0)
    (ran : contiguousSubRectF wh subWh rounds = some calls) :
    ∃ xs ys, counter wh.cx subWh.cx rounds 0 = some xs ∧
      counter wh.cy subWh.cy rounds 0 = some ys := by
  obtain ⟨ys, down, called⟩ := Option.bind_eq_some_iff.mp ran
  cases across' : counter wh.cx subWh.cx rounds 0 with
  | some xs => exact ⟨xs, ys, rfl, down⟩
  | none =>
    have first := @mem_counter wh.cy subWh.cy rounds 0 ys down 0 (toNat_pos some')
    obtain ⟨y, rest, rfl⟩ := List.exists_cons_of_ne_nil (List.ne_nil_of_mem first)
    rw [across'] at called
    cases called

/-- The parts that can be shown are those of the two sides. -/
private theorem area_callAt {row column : Nat} (shown : Shown wh.cx subWh.cx)
    (shown' : Shown wh.cy subWh.cy) (wide : 0 < subWh.cx.toNat) (high : 0 < subWh.cy.toNat)
    (inside : subWh.cx.toNat * column < wh.cx.toNat)
    (inside' : subWh.cy.toNat * row < wh.cy.toNat) :
    (callAt wh subWh (BitVec.ofNat 16 (subWh.cy.toNat * row))
        (BitVec.ofNat 16 (subWh.cx.toNat * column))).area =
      Area.across (Span.piece 0 subWh.cx.toNat wh.cx.toNat column)
        (Span.piece 0 subWh.cy.toNat wh.cy.toNat row) := by
  obtain ⟨left, rest, size⟩ := shown.part wide inside
  obtain ⟨top, rest', size'⟩ := shown'.part high inside'
  rw [callAt, rest, rest', Rect.of_eq size size', Rect.area, left, top]
  simp only [Area.across, Span.piece, Int.zero_add, Int.natCast_mul]

private theorem tiles_of_shown (shown : Shown wh.cx subWh.cx) (shown' : Shown wh.cy subWh.cy)
    (wide : 0 < subWh.cx.toNat) (high : 0 < subWh.cy.toNat) (some' : 0 < wh.cx.toNat)
    (someRow : 0 < wh.cy.toNat) :
    ∃ rounds calls, contiguousSubRectF wh subWh rounds = some calls ∧ Tiles wh subWh calls := by
  refine ⟨_, _, calls_of_counters
    (shown.counter some' wide (Nat.lt_succ_of_le (Nat.le_add_right _ _)))
    (shown'.counter someRow high (Nat.lt_succ_of_le (Nat.le_add_left _ _))), ?_⟩
  generalize calls' : List.flatMap _ _ = calls
  have laid := Span.endToEnd_cuts 0 wh.cx.toNat wide
  have laid' := Span.endToEnd_cuts 0 wh.cy.toNat high
  have areas : calls.map Rect.area = Area.grid (Span.cuts 0 subWh.cx.toNat wh.cx.toNat)
      (Span.cuts 0 subWh.cy.toNat wh.cy.toNat) := by
    rw [← calls', List.map_flatMap, List.flatMap_map, Area.grid, Span.cuts, Span.cuts,
      List.flatMap_map]
    apply List.flatMap_congr
    intro row isRow
    rw [List.map_map, List.map_map, List.map_map]
    apply List.map_congr_left
    intro column isColumn
    exact area_callAt shown shown' wide high
      ((Span.lt_count_iff _ wide).mp (List.mem_range.mp isColumn))
      ((Span.lt_count_iff _ high).mp (List.mem_range.mp isRow))
  have cut : ∀ rect ∈ calls, ∃ column ∈ Span.cuts 0 subWh.cx.toNat wh.cx.toNat,
      ∃ row ∈ Span.cuts 0 subWh.cy.toNat wh.cy.toNat,
      rect.cx = column.length ∧ rect.cy = row.length := by
    intro rect member
    have part : rect.area ∈ Area.grid _ _ := areas ▸ List.mem_map_of_mem member
    obtain ⟨row, isRow, column, isColumn, same⟩ := Area.mem_grid.mp part
    exact ⟨column, isColumn, row, isRow, (congrArg Area.width same).symm,
      (congrArg Area.height same).symm⟩
  constructor
  · intro rect member
    obtain ⟨column, isColumn, row, isRow, width, height⟩ := cut rect member
    rw [Rect.isEmpty_eq_false, width, height]
    exact ⟨laid.nonEmpty isColumn, laid'.nonEmpty isRow⟩
  · intro rect member
    obtain ⟨column, isColumn, row, isRow, width, height⟩ := cut rect member
    rw [width, height]
    exact ⟨Span.length_cut_le isColumn, Span.length_cut_le isRow⟩
  · rw [areas]
    exact Area.before_grid laid laid'
  · rw [areas]
    exact Area.partition_grid laid laid'

private theorem small_of_inside {value : Nat} (bounded : value < 2 ^ 16)
    (inside : 0 ≤ (BitVec.ofNat 16 value).toInt) : value < 2 ^ 15 := by
  rw [BitVec.toInt_ofNat', Int.bmod_def] at inside
  omega

private theorem last_inside {length step : Nat} (some' : 0 < length) :
    step * ((length - 1) / step) < length := by
  have := Nat.mul_div_le (length - 1) step
  omega

private theorem Tiles.shown {rounds : Nat} {calls : List Rect}
    (ran : contiguousSubRectF wh subWh rounds = some calls) (tiles : Tiles wh subWh calls)
    (someColumn : wh.cx ≠ 0) (someRow : wh.cy ≠ 0) : Shown wh.cx subWh.cx ∧ Shown wh.cy subWh.cy := by
  obtain ⟨xs, ys, across', down⟩ := counters_of_calls someRow ran
  rw [calls_of_counters across' down] at ran
  cases ran
  have columns := toNat_pos someColumn
  have rows := toNat_pos someRow
  have called : ∀ row column, subWh.cx.toNat * column < wh.cx.toNat →
      subWh.cy.toNat * row < wh.cy.toNat →
      callAt wh subWh (BitVec.ofNat 16 (subWh.cy.toNat * row))
        (BitVec.ofNat 16 (subWh.cx.toNat * column)) ∈
        ys.flatMap fun y => xs.map (callAt wh subWh y) := by
    intro row column inside inside'
    have x := @mem_counter wh.cx subWh.cx rounds 0 xs across' column (by rwa [Nat.zero_add])
    have y := @mem_counter wh.cy subWh.cy rounds 0 ys down row (by rwa [Nat.zero_add])
    rw [Nat.zero_add] at x y
    exact List.mem_flatMap.mpr ⟨_, y, List.mem_map_of_mem x⟩
  -- the first part is the largest one, and the last ones start farthest from the corner
  have start := tiles.nonEmpty _ (called 0 0 columns rows)
  have corner : ∀ row column, subWh.cx.toNat * column < wh.cx.toNat →
      subWh.cy.toNat * row < wh.cy.toNat →
      subWh.cx.toNat * column < 2 ^ 15 ∧ subWh.cy.toNat * row < 2 ^ 15 := by
    intro row column inside inside'
    have member := called row column inside inside'
    obtain ⟨size, same⟩ := Rect.of_nonEmpty (tiles.nonEmpty _ member)
    have contained := tiles.partition.inside _ (List.mem_map_of_mem member)
      (BitVec.ofNat 16 (subWh.cx.toNat * column)).toInt
      (BitVec.ofNat 16 (subWh.cy.toNat * row)).toInt (by
        rw [callAt, same]
        simp only [Rect.area, Area.Contains]
        omega)
    exact ⟨small_of_inside (Nat.lt_trans inside wh.cx.isLt) contained.1.1,
      small_of_inside (Nat.lt_trans inside' wh.cy.isLt) contained.2.1⟩
  have size := (Rect.of_nonEmpty start).1
  rw [Nat.mul_zero, Nat.mul_zero, BitVec.sub_zero, BitVec.sub_zero] at size
  have last := corner _ _ (last_inside columns) (last_inside rows)
  exact ⟨⟨last.1, size.1.2⟩, ⟨last.2, size.2.2⟩⟩

private theorem tiles_nil (empty : wh.cx = 0 ∨ wh.cy = 0) : Tiles wh subWh [] where
  nonEmpty := by
    intro rect member
    cases member
  small := by
    intro rect member
    cases member
  rowByRow := List.Pairwise.nil
  partition := by
    refine ⟨fun part member => absurd member List.not_mem_nil, ?_, List.Pairwise.nil⟩
    intro x y ⟨⟨left, right⟩, top, bottom⟩
    rcases empty with none | none
    · rw [none] at right
      exact absurd (Int.lt_of_le_of_lt left right) (Int.lt_irrefl 0)
    · rw [none] at bottom
      exact absurd (Int.lt_of_le_of_lt top bottom) (Int.lt_irrefl 0)

/-- `contiguous_sub_rect_f` ends, and calls its function with non-empty rectangles of at most the
given size that partition the area, row by row, exactly when the parts of both sides start below
`2 ^ 15` and are no longer than that; without columns, when a multiple of the height of the parts
leaves the area before it wraps around. -/
theorem contiguousSubRectF_tiles_iff (wh : CxCy) (subWh : SubCxCy) (wide : 0 < subWh.cx.toNat)
    (high : 0 < subWh.cy.toNat) :
    (∃ rounds calls, contiguousSubRectF wh subWh rounds = some calls ∧ Tiles wh subWh calls) ↔
      TilesFit wh subWh := by
  constructor
  · rintro ⟨rounds, calls, ran, tiles⟩
    refine ⟨?_, fun someColumn someRow => tiles.shown ran someColumn someRow⟩
    intro _ someRow
    obtain ⟨_, ys, _, down⟩ := counters_of_calls someRow ran
    rw [← exists_multiple_iff high]
    obtain ⟨more, reached⟩ := (@counter_isSome_iff wh.cy subWh.cy 0).mp ⟨rounds, ys, down⟩
    exact ⟨more, by rwa [Nat.zero_add] at reached⟩
  · intro fit
    by_cases someRow : wh.cy = 0
    · have none : counter wh.cy subWh.cy 1 0 = some [] := by
        rw [someRow]
        rfl
      refine ⟨1, [], ?_, tiles_nil (.inr someRow)⟩
      simp only [contiguousSubRectF, none]
      rfl
    · by_cases someColumn : wh.cx = 0
      · obtain ⟨more, reached⟩ := (exists_multiple_iff high).mpr (fit.ends someColumn someRow)
        obtain ⟨rounds, ys, down⟩ := (@counter_isSome_iff wh.cy subWh.cy 0).mpr
          ⟨more, by rwa [Nat.zero_add]⟩
        obtain ⟨rounds, rfl⟩ : ∃ less, rounds = less + 1 := by
          cases rounds with
          | zero => cases down
          | succ less => exact ⟨less, rfl⟩
        have none : counter wh.cx subWh.cx (rounds + 1) 0 = some [] := by
          rw [someColumn]
          rfl
        have nothing : (ys.flatMap fun y => [].map (callAt wh subWh y)) = [] := by simp
        refine ⟨_, _, calls_of_counters none down, ?_⟩
        rw [nothing]
        exact tiles_nil (.inl someColumn)
      · obtain ⟨shown, shown'⟩ := fit.shown someColumn someRow
        exact tiles_of_shown shown shown' wide high (toNat_pos someColumn) (toNat_pos someRow)

/-- The area of a small screen. -/
theorem contiguousSubRectF_tiles_iff_small :
    ∃ rounds calls, contiguousSubRectF ⟨100, 70⟩ ⟨32, 32⟩ rounds = some calls ∧
      Tiles ⟨100, 70⟩ ⟨32, 32⟩ calls :=
  (contiguousSubRectF_tiles_iff ⟨100, 70⟩ ⟨32, 32⟩ (by decide) (by decide)).mpr
    ⟨fun none => absurd none (by decide), fun _ _ => ⟨⟨by decide, by decide⟩, by decide, by decide⟩⟩

/-- The counter of the rows of an area of 65535 pixels wraps around to 0 behind the last row. -/
theorem not_tiles_high :
    ¬∃ rounds calls, contiguousSubRectF ⟨32, 65535⟩ ⟨32, 32⟩ rounds = some calls ∧
      Tiles ⟨32, 65535⟩ ⟨32, 32⟩ calls := by
  rintro ⟨rounds, calls, ran, tiles⟩
  obtain ⟨_, ys, _, down⟩ := counters_of_calls (by decide) ran
  obtain ⟨more, reached⟩ := (@counter_isSome_iff 65535 32 0).mp ⟨rounds, ys, down⟩
  have bound := (@exists_multiple_iff 65535 32 (by decide)).mp
    ⟨more, by rwa [Nat.zero_add] at reached⟩
  exact absurd bound (by decide)

end Calls

end Redemption.Utils
