import Redemption.Utils.Rect

/-! The operations of `Rect` on 16 bit coordinates, and the sets of pixels that they stand for. -/
namespace Redemption.Utils

open Redemption.Foundation

abbrev Coord := BitVec 16

/-- `std::max`. -/
def maxCoord (first second : Coord) : Coord := if first.toInt < second.toInt then second else first

/-- `std::min`. -/
def minCoord (first second : Coord) : Coord := if second.toInt < first.toInt then second else first

/-- `int16_t(start + size)`. -/
def edge (start : Coord) (size : Nat) : Coord := start + BitVec.ofNat 16 size

/-- `uint16_t(stop - start)`. -/
def distance (stop start : Coord) : Nat := (stop - start).toNat

/-- The condition of `has_intersection` on one axis. -/
def meets (start stop start' stop' : Coord) : Bool :=
  (start.toInt ≤ start'.toInt && start'.toInt < stop.toInt) ||
    (start'.toInt ≤ start.toInt && start.toInt < stop'.toInt)

namespace Rect

/-- `eright`, past the last column. -/
def eright (rect : Rect) : Coord := edge rect.x rect.cx

/-- `ebottom`, past the last line. -/
def ebottom (rect : Rect) : Coord := edge rect.y rect.cy

/-- `contains`. -/
def contains (this inner : Rect) : Bool :=
  this.x.toInt ≤ inner.x.toInt && this.y.toInt ≤ inner.y.toInt &&
    inner.eright.toInt ≤ this.eright.toInt && inner.ebottom.toInt ≤ this.ebottom.toInt

/-- `intersect`. -/
def intersect (this inner : Rect) : Rect :=
  let maxX := maxCoord inner.x this.x
  let maxY := maxCoord inner.y this.y
  let minRight := minCoord inner.eright this.eright
  let minBottom := minCoord inner.ebottom this.ebottom
  of maxX maxY (distance minRight maxX) (distance minBottom maxY)

/-- `to_positive`. -/
def toPositive (this : Rect) : Rect :=
  let ux := (-this.x).toNat
  let uy := (-this.y).toNat
  let left := this.x.toInt < 0
  let above := this.y.toInt < 0
  if (left ∧ this.cx < ux) ∨ (above ∧ this.cy < uy) then
    of (if left then 0 else this.x) (if above then 0 else this.y) 0 0
  else
    { x := if left then 0 else this.x
      y := if above then 0 else this.y
      cx := if left then this.cx - ux else this.cx
      cy := if above then this.cy - uy else this.cy }

/-- `disjunct`, a rectangle around both. -/
def disjunct (this r : Rect) : Rect :=
  if this.isEmpty then r
  else if r.isEmpty then this
  else
    let x := minCoord r.x this.x
    let y := minCoord r.y this.y
    of x y (distance (maxCoord r.eright this.eright) x) (distance (maxCoord r.ebottom this.ebottom) y)

/-- `has_intersection`. -/
def hasIntersection (this inner : Rect) : Bool :=
  !this.isEmpty && !inner.isEmpty && meets this.x this.eright inner.x inner.eright &&
    meets this.y this.ebottom inner.y inner.ebottom

/-- `difference`: the rectangles that the function is called with. -/
def difference (this a : Rect) : List Rect :=
  let sect := this.intersect a
  if sect.isEmpty then [this]
  else
    (if this.y.toInt < sect.y.toInt then
      [of this.x this.y this.cx (distance sect.y this.y)] else []) ++
    (if this.x.toInt < sect.x.toInt then
      [of this.x sect.y (distance sect.x this.x) sect.cy] else []) ++
    (if sect.eright.toInt < this.eright.toInt then
      [of sect.eright sect.y (distance this.eright sect.eright) sect.cy] else []) ++
    (if sect.ebottom.toInt < this.y.toInt + this.cy then
      [of this.x sect.ebottom this.cx (distance this.ebottom sect.ebottom)] else [])

end Rect

section Coordinates

variable (start stop : Coord) {size : Nat}

theorem coord_bounds : -32768 ≤ start.toInt ∧ start.toInt < 32768 := by
  have low := BitVec.le_toInt start
  have high := @BitVec.toInt_lt 16 start
  omega

theorem maxCoord_toInt : (maxCoord start stop).toInt = max start.toInt stop.toInt := by
  unfold maxCoord
  split <;> omega

theorem minCoord_toInt : (minCoord start stop).toInt = min start.toInt stop.toInt := by
  unfold minCoord
  split <;> omega

theorem edge_toInt (small : size ≤ 32768) :
    (edge start size).toInt =
      if start.toInt + size < 32768 then start.toInt + size else start.toInt + size - 65536 := by
  have bounds := coord_bounds start
  rw [edge, BitVec.toInt_add, BitVec.toInt_ofNat', Int.add_bmod_bmod]
  rw [Int.bmod_def]
  split <;> split <;> omega

theorem distance_eq : (distance stop start : Int) =
    if start.toInt ≤ stop.toInt then stop.toInt - start.toInt
    else stop.toInt - start.toInt + 65536 := by
  rw [distance, BitVec.toNat_sub, BitVec.toInt_eq_toNat_cond, BitVec.toInt_eq_toNat_cond]
  split <;> split <;> split <;> omega

end Coordinates

section Axis

variable {start start' : Coord} {size size' : Nat}

/-- A size that the constructor keeps. -/
def Kept (size : Nat) : Prop := 0 < size ∧ size ≤ 32768

/-- The edge is no 16 bit number. -/
def Wraps (start : Coord) (size : Nat) : Prop := 32768 ≤ start.toInt + size

/-- Two extents with something in common. -/
def Overlaps (start : Coord) (size : Nat) (start' : Coord) (size' : Nat) : Prop :=
  max start.toInt start'.toInt < min (start.toInt + size) (start'.toInt + size')

instance : Decidable (Kept size) := inferInstanceAs (Decidable (_ ∧ _))

instance : Decidable (Wraps start size) := inferInstanceAs (Decidable (_ ≤ _))

instance : Decidable (Overlaps start size start' size') := inferInstanceAs (Decidable (_ < _))

/-- Both edges wrap or none, and an extent around both is kept. -/
structure AxisFits (start : Coord) (size : Nat) (start' : Coord) (size' : Nat) : Prop where
  wraps : Wraps start size ↔ Wraps start' size'
  span : max (start.toInt + size) (start'.toInt + size') - min start.toInt start'.toInt ≤ 32768

/-- Both edges wrap or none, and no gap is wider than the constructor can tell. -/
structure AxisNear (start : Coord) (size : Nat) (start' : Coord) (size' : Nat) : Prop where
  wraps : Wraps start size ↔ Wraps start' size'
  near : max start.toInt start'.toInt - min (start.toInt + size) (start'.toInt + size') < 32768

namespace AxisNear

variable (near : AxisNear start size start' size') (most : size ≤ 32768) (most' : size' ≤ 32768)

include near most most'

theorem edge_le_iff : (edge start' size').toInt ≤ (edge start size).toInt ↔
    start'.toInt + size' ≤ start.toInt + size := by
  obtain ⟨wraps, _⟩ := near
  unfold Wraps at wraps
  rw [edge_toInt start most, edge_toInt start' most']
  split <;> split <;> omega

theorem overlap :
    (Kept (distance (minCoord (edge start' size') (edge start size)) (maxCoord start' start)) ↔
        Overlaps start size start' size') ∧
      (Overlaps start size start' size' →
        (maxCoord start' start).toInt +
            distance (minCoord (edge start' size') (edge start size)) (maxCoord start' start) =
          min (start.toInt + size) (start'.toInt + size')) := by
  have length := distance_eq (maxCoord start' start) (minCoord (edge start' size') (edge start size))
  have one := edge_toInt start most
  have other := edge_toInt start' most'
  obtain ⟨wraps, gap⟩ := near
  rw [minCoord_toInt, maxCoord_toInt] at length
  rw [maxCoord_toInt]
  unfold Wraps at wraps
  unfold Kept Overlaps
  split at one
  · split at length <;> constructor <;> omega
  · split at length <;> constructor <;> omega

end AxisNear

namespace AxisFits

variable (fits : AxisFits start size start' size') (kept : Kept size) (kept' : Kept size')

include fits kept kept'

theorem near : AxisNear start size start' size' := by
  obtain ⟨wraps, span⟩ := fits
  obtain ⟨some, _⟩ := kept
  obtain ⟨some', _⟩ := kept'
  exact ⟨wraps, by omega⟩

theorem union :
    Kept (distance (maxCoord (edge start' size') (edge start size)) (minCoord start' start)) ∧
      (minCoord start' start).toInt +
          distance (maxCoord (edge start' size') (edge start size)) (minCoord start' start) =
        max (start.toInt + size) (start'.toInt + size') := by
  have length := distance_eq (minCoord start' start) (maxCoord (edge start' size') (edge start size))
  have one := edge_toInt start kept.2
  have other := edge_toInt start' kept'.2
  obtain ⟨wraps, span⟩ := fits
  obtain ⟨some, most⟩ := kept
  obtain ⟨some', most'⟩ := kept'
  rw [minCoord_toInt, maxCoord_toInt] at length
  rw [minCoord_toInt]
  unfold Wraps at wraps
  unfold Kept
  split at one
  · split at length <;> constructor <;> omega
  · split at length <;> constructor <;> omega

theorem meets_iff : meets start (edge start size) start' (edge start' size') = true ↔
    Overlaps start size start' size' ∧ ¬Wraps start size := by
  have one := edge_toInt start kept.2
  have other := edge_toInt start' kept'.2
  obtain ⟨wraps, span⟩ := fits
  obtain ⟨some, most⟩ := kept
  obtain ⟨some', most'⟩ := kept'
  unfold Wraps at wraps ⊢
  simp only [meets, Overlaps, Bool.or_eq_true, Bool.and_eq_true, decide_eq_true_eq]
  split at one
  · omega
  · omega

omit kept kept' in
theorem overlaps_of_wraps (wraps : Wraps start size) : Overlaps start size start' size' := by
  have bounds := coord_bounds start
  have bounds' := coord_bounds start'
  have other := fits.wraps.mp wraps
  unfold Wraps at wraps other
  unfold Overlaps
  omega

end AxisFits

end Axis

section Covering

/-- Rectangles that are not empty and have no pixel in common, over just these pixels. -/
structure Covers (rects : List Rect) (pixels : Int → Int → Prop) : Prop where
  filled : ∀ rect ∈ rects, rect.isEmpty = false
  apart : rects.Pairwise fun first second =>
    ∀ x y, ¬(first.area.Contains x y ∧ second.area.Contains x y)
  pixels : ∀ x y, (∃ rect ∈ rects, rect.area.Contains x y) ↔ pixels x y

variable {rects rects' : List Rect} {pixels pixels' : Int → Int → Prop} {rect : Rect}

theorem covers_nil (none : ∀ x y, ¬pixels x y) : Covers [] pixels where
  filled := by simp
  apart := .nil
  pixels x y := by simp [none x y]

theorem covers_singleton (filled : rect.isEmpty = false) : Covers [rect] rect.area.Contains where
  filled := by simpa using filled
  apart := List.pairwise_singleton _ _
  pixels x y := by simp

theorem Covers.congr (covers : Covers rects pixels) (same : ∀ x y, pixels x y ↔ pixels' x y) :
    Covers rects pixels' :=
  ⟨covers.filled, covers.apart, fun x y => (covers.pixels x y).trans (same x y)⟩

theorem Covers.append (one : Covers rects pixels) (two : Covers rects' pixels')
    (apart : ∀ x y, ¬(pixels x y ∧ pixels' x y)) :
    Covers (rects ++ rects') fun x y => pixels x y ∨ pixels' x y where
  filled rect member := by
    rcases List.mem_append.mp member with front | back
    · exact one.filled rect front
    · exact two.filled rect back
  apart := by
    refine List.pairwise_append.mpr ⟨one.apart, two.apart, ?_⟩
    intro first front second back x y both
    exact apart x y ⟨(one.pixels x y).mp ⟨first, front, both.1⟩,
      (two.pixels x y).mp ⟨second, back, both.2⟩⟩
  pixels x y := by
    rw [← one.pixels, ← two.pixels]
    simp only [List.mem_append, or_and_right, exists_or]

theorem of_contains {left top : Coord} {width height : Nat} {x y : Int} :
    (Rect.of left top width height).area.Contains x y ↔ (Kept width ∧ Kept height) ∧
      (left.toInt ≤ x ∧ x < left.toInt + width) ∧ top.toInt ≤ y ∧ y < top.toInt + height := by
  unfold Rect.of
  split
  · next kept =>
    rw [and_iff_right (show Kept width ∧ Kept height from kept)]
    rfl
  · next lost =>
    refine iff_of_false ?_ fun both => lost both.1
    rintro ⟨⟨here, there⟩, _⟩
    simp only [Rect.area] at here there
    omega

theorem of_isEmpty {left top : Coord} {width height : Nat} :
    (Rect.of left top width height).isEmpty = false ↔ Kept width ∧ Kept height := by
  rw [Rect.isEmpty_eq_false]
  unfold Rect.of
  split
  · next kept => exact iff_of_true ⟨kept.1.1, kept.2.1⟩ kept
  · next lost => exact iff_of_false (by simp) lost

theorem covers_if {left top : Coord} {width height : Nat} {condition : Prop} [Decidable condition]
    (kept : condition → Kept width ∧ Kept height)
    (same : ∀ x y, pixels x y ↔ condition ∧ (left.toInt ≤ x ∧ x < left.toInt + width) ∧
      top.toInt ≤ y ∧ y < top.toInt + height) :
    Covers (if condition then [Rect.of left top width height] else []) pixels := by
  split
  · next holds =>
    apply (covers_singleton (of_isEmpty.mpr (kept holds))).congr
    intro x y
    rw [of_contains, same, and_iff_right holds, and_iff_right (kept holds)]
  · next fails =>
    apply covers_nil
    intro x y inside
    exact fails ((same x y).mp inside).1

end Covering

section Operations

variable {a b : Rect}

/-- What the constructor builds. -/
def Rect.Built (rect : Rect) : Prop :=
  (rect.cx = 0 ∧ rect.cy = 0) ∨ (Kept rect.cx ∧ Kept rect.cy)

theorem built_of (left top : Coord) (width height : Nat) : (Rect.of left top width height).Built := by
  unfold Rect.of
  split
  · next kept => exact .inr kept
  · exact .inl ⟨rfl, rfl⟩

theorem contains_area {x y : Int} : a.area.Contains x y ↔
    (a.x.toInt ≤ x ∧ x < a.x.toInt + a.cx) ∧ a.y.toInt ≤ y ∧ y < a.y.toInt + a.cy := Iff.rfl

/-- Both rectangles hold pixels, and nothing that is computed of them wraps unseen. -/
structure Fits (a b : Rect) : Prop where
  columns : AxisFits a.x a.cx b.x b.cx
  lines : AxisFits a.y a.cy b.y b.cy
  right : Wraps a.x a.cx → ¬Overlaps a.y a.cy b.y b.cy
  bottom : Wraps a.y a.cy → ¬Overlaps a.x a.cx b.x b.cx

namespace Fits

variable (fits : Fits a b) (kept : Kept a.cx ∧ Kept a.cy) (kept' : Kept b.cx ∧ Kept b.cy)

include fits kept kept'

theorem intersect_contains (x y : Int) :
    (a.intersect b).area.Contains x y ↔ a.area.Contains x y ∧ b.area.Contains x y := by
  obtain ⟨columns, right⟩ := (fits.columns.near kept.1 kept'.1).overlap kept.1.2 kept'.1.2
  obtain ⟨lines, bottom⟩ := (fits.lines.near kept.2 kept'.2).overlap kept.2.2 kept'.2.2
  rw [Rect.intersect, of_contains, contains_area, contains_area, Rect.eright, Rect.eright,
    Rect.ebottom, Rect.ebottom, columns, lines]
  constructor
  · rintro ⟨⟨wide, high⟩, here, there⟩
    rw [right wide, maxCoord_toInt] at here
    rw [bottom high, maxCoord_toInt] at there
    omega
  · intro both
    have wide : Overlaps a.x a.cx b.x b.cx := by unfold Overlaps; omega
    have high : Overlaps a.y a.cy b.y b.cy := by unfold Overlaps; omega
    rw [right wide, bottom high, maxCoord_toInt, maxCoord_toInt]
    exact ⟨⟨wide, high⟩, by omega, by omega⟩

theorem intersect_isEmpty : (a.intersect b).isEmpty = false ↔
    Overlaps a.x a.cx b.x b.cx ∧ Overlaps a.y a.cy b.y b.cy := by
  rw [Rect.intersect, of_isEmpty]
  exact and_congr ((fits.columns.near kept.1 kept'.1).overlap kept.1.2 kept'.1.2).1
    ((fits.lines.near kept.2 kept'.2).overlap kept.2.2 kept'.2.2).1

theorem hasIntersection_iff : a.hasIntersection b = true ↔ (a.intersect b).isEmpty = false := by
  rw [fits.intersect_isEmpty kept kept', Rect.hasIntersection]
  have filled : a.isEmpty = false := Rect.isEmpty_eq_false.mpr ⟨kept.1.1, kept.2.1⟩
  have filled' : b.isEmpty = false := Rect.isEmpty_eq_false.mpr ⟨kept'.1.1, kept'.2.1⟩
  simp only [filled, filled', Bool.not_false, Bool.true_and, Bool.and_eq_true]
  rw [Rect.eright, Rect.eright, Rect.ebottom, Rect.ebottom, fits.columns.meets_iff kept.1 kept'.1,
    fits.lines.meets_iff kept.2 kept'.2]
  constructor
  · rintro ⟨⟨wide, _⟩, high, _⟩
    exact ⟨wide, high⟩
  · rintro ⟨wide, high⟩
    exact ⟨⟨wide, fun wraps => fits.right wraps high⟩, high, fun wraps => fits.bottom wraps wide⟩

theorem contains_iff : a.contains b = true ↔
    ∀ x y, b.area.Contains x y → a.area.Contains x y := by
  simp only [Rect.contains, Bool.and_eq_true, decide_eq_true_eq]
  rw [Rect.eright, Rect.eright, Rect.ebottom, Rect.ebottom,
    (fits.columns.near kept.1 kept'.1).edge_le_iff kept.1.2 kept'.1.2,
    (fits.lines.near kept.2 kept'.2).edge_le_iff kept.2.2 kept'.2.2]
  obtain ⟨⟨some, _⟩, ⟨some', _⟩⟩ := kept'
  simp only [contains_area]
  constructor
  · rintro ⟨⟨⟨left, top⟩, right⟩, bottom⟩ x y inside
    omega
  · intro inside
    have first := inside b.x.toInt b.y.toInt (by omega)
    have last := inside (b.x.toInt + b.cx - 1) (b.y.toInt + b.cy - 1) (by omega)
    omega

theorem disjunct_contains (x y : Int) : (a.disjunct b).area.Contains x y ↔
    (min a.x.toInt b.x.toInt ≤ x ∧ x < max (a.x.toInt + a.cx) (b.x.toInt + b.cx)) ∧
      min a.y.toInt b.y.toInt ≤ y ∧ y < max (a.y.toInt + a.cy) (b.y.toInt + b.cy) := by
  obtain ⟨wide, right⟩ := fits.columns.union kept.1 kept'.1
  obtain ⟨high, bottom⟩ := fits.lines.union kept.2 kept'.2
  have filled : a.isEmpty = false := Rect.isEmpty_eq_false.mpr ⟨kept.1.1, kept.2.1⟩
  have filled' : b.isEmpty = false := Rect.isEmpty_eq_false.mpr ⟨kept'.1.1, kept'.2.1⟩
  simp only [Rect.disjunct, filled, filled', Bool.false_eq_true, if_false]
  rw [of_contains, and_iff_right ⟨wide, high⟩, Rect.eright, Rect.eright, Rect.ebottom, Rect.ebottom,
    right, bottom, minCoord_toInt, minCoord_toInt, Int.min_comm, Int.min_comm a.y.toInt]

theorem intersect_edges (overlap : Overlaps a.x a.cx b.x b.cx ∧ Overlaps a.y a.cy b.y b.cy) :
    (Kept (a.intersect b).cx ∧ Kept (a.intersect b).cy) ∧
      ((a.intersect b).x.toInt = max a.x.toInt b.x.toInt ∧
        (a.intersect b).x.toInt + (a.intersect b).cx =
          min (a.x.toInt + a.cx) (b.x.toInt + b.cx)) ∧
      (a.intersect b).y.toInt = max a.y.toInt b.y.toInt ∧
        (a.intersect b).y.toInt + (a.intersect b).cy =
          min (a.y.toInt + a.cy) (b.y.toInt + b.cy) := by
  obtain ⟨columns, right⟩ := (fits.columns.near kept.1 kept'.1).overlap kept.1.2 kept'.1.2
  obtain ⟨lines, bottom⟩ := (fits.lines.near kept.2 kept'.2).overlap kept.2.2 kept'.2.2
  have wide := columns.mpr overlap.1
  have high := lines.mpr overlap.2
  have sect : a.intersect b = ⟨maxCoord b.x a.x, maxCoord b.y a.y,
      distance (minCoord (edge b.x b.cx) (edge a.x a.cx)) (maxCoord b.x a.x),
      distance (minCoord (edge b.y b.cy) (edge a.y a.cy)) (maxCoord b.y a.y)⟩ :=
    Rect.of_eq wide high
  rw [sect]
  refine ⟨⟨wide, high⟩, ⟨?_, right overlap.1⟩, ?_, bottom overlap.2⟩
  · rw [maxCoord_toInt, Int.max_comm]
  · rw [maxCoord_toInt, Int.max_comm]

end Fits

theorem not_contains_of_isEmpty (empty : a.isEmpty = true) (x y : Int) : ¬a.area.Contains x y := by
  intro inside
  have filled : a.isEmpty = false := Rect.isEmpty_eq_false.mpr (by rw [contains_area] at inside; omega)
  rw [empty] at filled
  cases filled

theorem strips_cover {this sect : Rect} (kept : Kept this.cx ∧ Kept this.cy)
    (sectKept : Kept sect.cx ∧ Kept sect.cy)
    (columns : this.x.toInt ≤ sect.x.toInt ∧ sect.x.toInt + sect.cx ≤ this.x.toInt + this.cx)
    (lines : this.y.toInt ≤ sect.y.toInt ∧ sect.y.toInt + sect.cy ≤ this.y.toInt + this.cy)
    (right : ¬Wraps this.x this.cx) (bottom : ¬Wraps this.y this.cy) :
    Covers ((if this.y.toInt < sect.y.toInt then
        [Rect.of this.x this.y this.cx (distance sect.y this.y)] else []) ++
      (if this.x.toInt < sect.x.toInt then
        [Rect.of this.x sect.y (distance sect.x this.x) sect.cy] else []) ++
      (if sect.eright.toInt < this.eright.toInt then
        [Rect.of sect.eright sect.y (distance this.eright sect.eright) sect.cy] else []) ++
      (if sect.ebottom.toInt < this.y.toInt + this.cy then
        [Rect.of this.x sect.ebottom this.cx (distance this.ebottom sect.ebottom)] else []))
      fun x y => this.area.Contains x y ∧ ¬sect.area.Contains x y := by
  have above := distance_eq this.y sect.y
  have left := distance_eq this.x sect.x
  have behind := distance_eq sect.eright this.eright
  have below := distance_eq sect.ebottom this.ebottom
  have edge1 := edge_toInt this.x kept.1.2
  have edge2 := edge_toInt this.y kept.2.2
  have edge3 := edge_toInt sect.x sectKept.1.2
  have edge4 := edge_toInt sect.y sectKept.2.2
  change sect.eright.toInt = _ at edge3
  change sect.ebottom.toInt = _ at edge4
  change this.eright.toInt = _ at edge1
  change this.ebottom.toInt = _ at edge2
  unfold Wraps at right bottom
  obtain ⟨⟨some, most⟩, some', most'⟩ := kept
  obtain ⟨⟨_, _⟩, _, _⟩ := sectKept
  have first : Covers (if this.y.toInt < sect.y.toInt then
      [Rect.of this.x this.y this.cx (distance sect.y this.y)] else [])
      fun x y => this.area.Contains x y ∧ y < sect.y.toInt :=
    covers_if (fun holds => ⟨⟨by omega, by omega⟩, by omega, by omega⟩)
      fun x y => by simp only [contains_area]; omega
  have second : Covers (if this.x.toInt < sect.x.toInt then
      [Rect.of this.x sect.y (distance sect.x this.x) sect.cy] else [])
      fun x y => this.area.Contains x y ∧ x < sect.x.toInt ∧ sect.y.toInt ≤ y ∧
        y < sect.y.toInt + sect.cy :=
    covers_if (fun holds => ⟨⟨by omega, by omega⟩, by omega, by omega⟩)
      fun x y => by simp only [contains_area]; omega
  have third : Covers (if sect.eright.toInt < this.eright.toInt then
      [Rect.of sect.eright sect.y (distance this.eright sect.eright) sect.cy] else [])
      fun x y => this.area.Contains x y ∧ sect.x.toInt + sect.cx ≤ x ∧ sect.y.toInt ≤ y ∧
        y < sect.y.toInt + sect.cy :=
    covers_if (fun holds => ⟨⟨by omega, by omega⟩, by omega, by omega⟩)
      fun x y => by simp only [contains_area]; omega
  have fourth : Covers (if sect.ebottom.toInt < this.y.toInt + this.cy then
      [Rect.of this.x sect.ebottom this.cx (distance this.ebottom sect.ebottom)] else [])
      fun x y => this.area.Contains x y ∧ sect.y.toInt + sect.cy ≤ y :=
    covers_if (fun holds => ⟨⟨by omega, by omega⟩, by omega, by omega⟩)
      fun x y => by simp only [contains_area]; omega
  refine (((first.append second ?_).append third ?_).append fourth ?_).congr ?_
  all_goals
    intro x y
    simp only [contains_area]
    omega

theorem Fits.difference_covers (fits : Fits a b) (kept : Kept a.cx ∧ Kept a.cy)
    (kept' : Kept b.cx ∧ Kept b.cy) :
    Covers (a.difference b) fun x y => a.area.Contains x y ∧ ¬b.area.Contains x y := by
  have common := fits.intersect_contains kept kept'
  unfold Rect.difference
  simp only
  split
  · next empty =>
    have filled : a.isEmpty = false := Rect.isEmpty_eq_false.mpr ⟨kept.1.1, kept.2.1⟩
    apply (covers_singleton filled).congr
    intro x y
    have apart := mt (common x y).mpr (not_contains_of_isEmpty empty x y)
    exact ⟨fun inside => ⟨inside, fun other => apart ⟨inside, other⟩⟩, And.left⟩
  · next filled =>
    rw [Bool.not_eq_true] at filled
    have overlap := (fits.intersect_isEmpty kept kept').mp filled
    obtain ⟨sectKept, columns, lines⟩ := fits.intersect_edges kept kept' overlap
    have strips := strips_cover kept sectKept (by omega) (by omega)
      (fun wraps => fits.right wraps overlap.2) (fun wraps => fits.bottom wraps overlap.1)
    apply strips.congr
    intro x y
    rw [common]
    tauto

theorem neg_toNat {start : Coord} (negative : start.toInt < 0) :
    ((-start).toNat : Int) = -start.toInt := by
  rw [BitVec.toInt_eq_toNat_cond] at negative
  rw [BitVec.toNat_neg, BitVec.toInt_eq_toNat_cond]
  split at negative <;> split <;> omega

theorem toPositive_contains (a : Rect) (x y : Int) :
    a.toPositive.area.Contains x y ↔ a.area.Contains x y ∧ 0 ≤ x ∧ 0 ≤ y := by
  unfold Rect.toPositive
  have zero : (0 : Coord).toInt = 0 := rfl
  have left (negative : a.x.toInt < 0) := neg_toNat negative
  have above (negative : a.y.toInt < 0) := neg_toNat negative
  simp only
  split
  · next outside =>
    rw [of_contains, contains_area]
    omega
  · next inside =>
    simp only [contains_area]
    split <;> split <;> omega

/-- Each operation is that of the sets of pixels. -/
structure SetAlgebra (a b : Rect) : Prop where
  intersect : ∀ x y, (a.intersect b).area.Contains x y ↔ a.area.Contains x y ∧ b.area.Contains x y
  hasIntersection : (a.intersect b).isEmpty = true ↔ a.hasIntersection b = false
  contains : a.contains b = true ↔ ∀ x y, b.area.Contains x y → a.area.Contains x y
  around : ∀ x y, a.area.Contains x y ∨ b.area.Contains x y → (a.disjunct b).area.Contains x y
  smallest : ∀ area : Area,
    (∀ x y, a.area.Contains x y ∨ b.area.Contains x y → area.Contains x y) →
      ∀ x y, (a.disjunct b).area.Contains x y → area.Contains x y
  toPositive : ∀ x y, a.toPositive.area.Contains x y ↔ a.area.Contains x y ∧ 0 ≤ x ∧ 0 ≤ y
  difference : Covers (a.difference b) fun x y => a.area.Contains x y ∧ ¬b.area.Contains x y

theorem Fits.setAlgebra (fits : Fits a b) (kept : Kept a.cx ∧ Kept a.cy)
    (kept' : Kept b.cx ∧ Kept b.cy) : SetAlgebra a b where
  intersect := fits.intersect_contains kept kept'
  hasIntersection := by
    have iff := fits.hasIntersection_iff kept kept'
    cases empty : (a.intersect b).isEmpty <;> cases meets : a.hasIntersection b <;> simp_all
  contains := fits.contains_iff kept kept'
  around x y inside := by
    rw [fits.disjunct_contains kept kept']
    simp only [contains_area] at inside
    omega
  smallest area covers x y inside := by
    rw [fits.disjunct_contains kept kept'] at inside
    obtain ⟨⟨some, _⟩, some', _⟩ := kept
    obtain ⟨⟨other, _⟩, other', _⟩ := kept'
    have first := covers a.x.toInt a.y.toInt (.inl (by rw [contains_area]; omega))
    have last := covers (a.x.toInt + a.cx - 1) (a.y.toInt + a.cy - 1)
      (.inl (by rw [contains_area]; omega))
    have first' := covers b.x.toInt b.y.toInt (.inr (by rw [contains_area]; omega))
    have last' := covers (b.x.toInt + b.cx - 1) (b.y.toInt + b.cy - 1)
      (.inr (by rw [contains_area]; omega))
    unfold Area.Contains at *
    omega
  toPositive := toPositive_contains a
  difference := fits.difference_covers kept kept'

/-- Where a rectangle is empty, its corner lies on the other one, whose edges do not wrap. -/
structure CornerFits (a b : Rect) : Prop where
  right : ¬Wraps a.x a.cx
  bottom : ¬Wraps a.y a.cy
  column : a.x.toInt ≤ b.x.toInt ∧ b.x.toInt ≤ a.x.toInt + a.cx
  line : a.y.toInt ≤ b.y.toInt ∧ b.y.toInt ≤ a.y.toInt + a.cy

theorem contains_empty_iff (kept : Kept a.cx ∧ Kept a.cy) (none : b.cx = 0 ∧ b.cy = 0) :
    a.contains b = true ↔ CornerFits a b := by
  have edge1 := edge_toInt a.x kept.1.2
  have edge2 := edge_toInt a.y kept.2.2
  have edge3 := @edge_toInt b.x b.cx (by omega)
  have edge4 := @edge_toInt b.y b.cy (by omega)
  have bounds := coord_bounds b.x
  have bounds' := coord_bounds b.y
  obtain ⟨⟨_, _⟩, _, _⟩ := kept
  simp only [Rect.contains, Bool.and_eq_true, decide_eq_true_eq]
  rw [Rect.eright, Rect.eright, Rect.ebottom, Rect.ebottom]
  constructor
  · rintro ⟨⟨⟨left, top⟩, right⟩, bottom⟩
    have noWrap : a.x.toInt + a.cx < 32768 := by split at edge1 <;> omega
    have noWrap' : a.y.toInt + a.cy < 32768 := by split at edge2 <;> omega
    exact ⟨Int.not_le.mpr noWrap, Int.not_le.mpr noWrap', by omega, by omega⟩
  · rintro ⟨right, bottom, column, line⟩
    unfold Wraps at right bottom
    omega

theorem CornerFits.setAlgebra (fits : CornerFits a b) (kept : Kept a.cx ∧ Kept a.cy)
    (none : b.cx = 0 ∧ b.cy = 0) : SetAlgebra a b := by
  have filled : a.isEmpty = false := Rect.isEmpty_eq_false.mpr ⟨kept.1.1, kept.2.1⟩
  have empty : b.isEmpty = true := by simp [Rect.isEmpty, none.1]
  have noPixel := not_contains_of_isEmpty empty
  have sect : (a.intersect b).isEmpty = true := by
    rw [← Bool.not_eq_false, Rect.intersect, of_isEmpty]
    rintro ⟨⟨some, _⟩, _⟩
    have width := distance_eq (maxCoord b.x a.x) (minCoord b.eright a.eright)
    have edge1 := edge_toInt a.x kept.1.2
    have edge2 := @edge_toInt b.x b.cx (by omega)
    obtain ⟨right, _, column, _⟩ := fits
    unfold Wraps at right
    rw [minCoord_toInt, maxCoord_toInt, Rect.eright, Rect.eright, edge1, edge2, if_pos (by omega),
      if_pos (by omega), if_pos (by omega)] at width
    rw [Rect.eright, Rect.eright] at some
    omega
  have noCommon := not_contains_of_isEmpty sect
  have around : a.disjunct b = a := by simp [Rect.disjunct, filled, empty]
  refine ⟨?_, ?_, ?_, ?_, ?_, toPositive_contains a, ?_⟩
  · intro x y
    exact iff_of_false (noCommon x y) fun both => noPixel x y both.2
  · exact iff_of_true sect (by simp [Rect.hasIntersection, empty])
  · exact iff_of_true ((contains_empty_iff kept none).mpr fits)
      fun x y inside => absurd inside (noPixel x y)
  · rw [around]
    rintro x y (inside | inside)
    · exact inside
    · exact absurd inside (noPixel x y)
  · rw [around]
    intro area covers x y inside
    exact covers x y (.inl inside)
  · simp only [Rect.difference, sect, if_true]
    apply (covers_singleton filled).congr
    intro x y
    exact ⟨fun inside => ⟨inside, noPixel x y⟩, And.left⟩

theorem axisFits_of_union {start start' : Coord} {size size' : Nat} (kept : Kept size)
    (kept' : Kept size')
    (wide : Kept (distance (maxCoord (edge start' size') (edge start size)) (minCoord start' start)))
    (right : max (start.toInt + size) (start'.toInt + size') ≤ (minCoord start' start).toInt +
      distance (maxCoord (edge start' size') (edge start size)) (minCoord start' start)) :
    AxisFits start size start' size' := by
  have length := distance_eq (minCoord start' start) (maxCoord (edge start' size') (edge start size))
  have one := edge_toInt start kept.2
  have other := edge_toInt start' kept'.2
  obtain ⟨some, most⟩ := kept
  obtain ⟨some', most'⟩ := kept'
  obtain ⟨_, small⟩ := wide
  rw [minCoord_toInt, maxCoord_toInt] at length
  rw [minCoord_toInt] at right
  refine ⟨?_, by omega⟩
  unfold Wraps
  split at one <;> split at other <;> split at length <;> omega

/-- What has to hold of two rectangles. -/
def Sound (a b : Rect) : Prop :=
  a.isEmpty = false ∧ if b.isEmpty then CornerFits a b else Fits a b

theorem SetAlgebra.filled (algebra : SetAlgebra a b) : a.isEmpty = false := by
  cases empty : a.isEmpty with
  | false => rfl
  | true =>
    have none : (a.intersect b).isEmpty = true := by
      cases sect : (a.intersect b).isEmpty with
      | true => rfl
      | false =>
        obtain ⟨some, some'⟩ := Rect.isEmpty_eq_false.mp sect
        have inside := (algebra.intersect (a.intersect b).x.toInt (a.intersect b).y.toInt).mp
          (by rw [contains_area]; omega)
        exact absurd inside.1 (not_contains_of_isEmpty empty _ _)
    have parts := algebra.difference.filled a (by simp [Rect.difference, none])
    rw [empty] at parts
    cases parts

theorem SetAlgebra.fits (algebra : SetAlgebra a b) (kept : Kept a.cx ∧ Kept a.cy)
    (kept' : Kept b.cx ∧ Kept b.cy) : Fits a b := by
  have filled : a.isEmpty = false := Rect.isEmpty_eq_false.mpr ⟨kept.1.1, kept.2.1⟩
  have filled' : b.isEmpty = false := Rect.isEmpty_eq_false.mpr ⟨kept'.1.1, kept'.2.1⟩
  have around := algebra.around
  simp only [Rect.disjunct, filled, filled', Bool.false_eq_true, if_false, of_contains] at around
  have some := kept.1.1
  have some' := kept.2.1
  have other := kept'.1.1
  have other' := kept'.2.1
  have last := around (a.x.toInt + a.cx - 1) (a.y.toInt + a.cy - 1)
    (.inl (by rw [contains_area]; omega))
  have last' := around (b.x.toInt + b.cx - 1) (b.y.toInt + b.cy - 1)
    (.inr (by rw [contains_area]; omega))
  have columns : AxisFits a.x a.cx b.x b.cx :=
    axisFits_of_union kept.1 kept'.1 last.1.1 (by rw [Rect.eright, Rect.eright] at *; omega)
  have lines : AxisFits a.y a.cy b.y b.cy :=
    axisFits_of_union kept.2 kept'.2 last.1.2 (by rw [Rect.ebottom, Rect.ebottom] at *; omega)
  have noWraps (overlap : Overlaps a.x a.cx b.x b.cx) (overlap' : Overlaps a.y a.cy b.y b.cy) :
      ¬Wraps a.x a.cx ∧ ¬Wraps a.y a.cy := by
    unfold Overlaps at overlap overlap'
    have common := (algebra.intersect (max a.x.toInt b.x.toInt) (max a.y.toInt b.y.toInt)).mpr
      (by rw [contains_area, contains_area]; omega)
    have meets : a.hasIntersection b = true := by
      by_contra none
      exact not_contains_of_isEmpty
        (algebra.hasIntersection.mpr (Bool.eq_false_iff.mpr none)) _ _ common
    simp only [Rect.hasIntersection, Bool.and_eq_true] at meets
    exact ⟨((columns.meets_iff kept.1 kept'.1).mp meets.1.2).2,
      ((lines.meets_iff kept.2 kept'.2).mp meets.2).2⟩
  refine ⟨columns, lines, ?_, ?_⟩
  · intro wraps overlap
    exact (noWraps (columns.overlaps_of_wraps wraps) overlap).1 wraps
  · intro wraps overlap
    exact (noWraps overlap (lines.overlaps_of_wraps wraps)).2 wraps

/-- The operations are those of sets for the sound rectangles only. -/
theorem setAlgebra_iff (left top left' top' : Coord) (width height width' height' : Nat) :
    SetAlgebra (Rect.of left top width height) (Rect.of left' top' width' height') ↔
      Sound (Rect.of left top width height) (Rect.of left' top' width' height') := by
  have built := built_of left top width height
  have built' := built_of left' top' width' height'
  generalize Rect.of left top width height = a at built ⊢
  generalize Rect.of left' top' width' height' = b at built' ⊢
  have keeps (filled : a.isEmpty = false) : Kept a.cx ∧ Kept a.cy := by
    rcases built with none | kept
    · have some := Rect.isEmpty_eq_false.mp filled
      omega
    · exact kept
  rw [Sound]
  rcases built' with none | kept'
  · have empty : b.isEmpty = true := by simp [Rect.isEmpty, none.1]
    rw [if_pos empty]
    constructor
    · intro algebra
      have contains := algebra.contains.mpr
        fun x y inside => absurd inside (not_contains_of_isEmpty empty x y)
      exact ⟨algebra.filled, (contains_empty_iff (keeps algebra.filled) none).mp contains⟩
    · rintro ⟨filled, fits⟩
      exact fits.setAlgebra (keeps filled) none
  · have filled' : b.isEmpty = false := Rect.isEmpty_eq_false.mpr ⟨kept'.1.1, kept'.2.1⟩
    rw [if_neg (by rw [filled']; exact Bool.false_ne_true)]
    constructor
    · intro algebra
      exact ⟨algebra.filled, algebra.fits (keeps algebra.filled) kept'⟩
    · rintro ⟨filled, fits⟩
      exact fits.setAlgebra (keeps filled) kept'

/-- Two rectangles far from each other have pixels in common. -/
theorem not_setAlgebra_far : ¬SetAlgebra (Rect.of (-20000) 0 10 10) (Rect.of 20000 0 10 10) := by
  intro algebra
  have common := (algebra.intersect 20000 0).mp (by decide)
  exact absurd common.1 (by decide)

end Operations

end Redemption.Utils
