import Redemption.Foundation.SegmentWalk
import Redemption.Utils.RectAlgebra

/-! `LineEquation`: the part of a segment that lies in a rectangle. -/
namespace Redemption.Utils

open Redemption.Foundation

structure LineEquation.Point where
  x : Int
  y : Int
  deriving DecidableEq, Repr

structure LineEquation.Segment where
  a : LineEquation.Point
  b : LineEquation.Point
  deriving DecidableEq, Repr

structure LineEquation where
  seg : LineEquation.Segment
  segin : LineEquation.Segment
  dX : Int
  dY : Int
  c : Int
  deriving DecidableEq, Repr

namespace LineEquation

def of (aX aY bX bY : Int) : LineEquation :=
  { seg := ⟨⟨aX, aY⟩, ⟨bX, bY⟩⟩, segin := ⟨⟨0, 0⟩, ⟨0, 0⟩⟩,
    dX := aX - bX, dY := aY - bY, c := bY * aX - aY * bX }

/-- The bits of `t_region`. -/
structure Region where
  up : Bool
  down : Bool
  left : Bool
  right : Bool
  deriving DecidableEq, Repr

/-- No bit is set. -/
def Region.isIn (region : Region) : Bool :=
  !(region.up || region.down || region.left || region.right)

/-- `first & second`. -/
def Region.shares (first second : Region) : Bool :=
  (first.up && second.up) || (first.down && second.down) ||
    (first.left && second.left) || (first.right && second.right)

def regionPt (rect : Rect) (x y : Coord) : Region :=
  { left := x.toInt < rect.x.toInt
    right := ¬ x.toInt < rect.x.toInt ∧ rect.eright.toInt ≤ x.toInt
    up := y.toInt < rect.y.toInt
    down := ¬ y.toInt < rect.y.toInt ∧ rect.ebottom.toInt ≤ y.toInt }

/-- The division of `int`. Where the border lies between two 16-bit ends, nothing that is computed
for it leaves 32 bits: the dividend is at most `2 ^ 15` times the distance of the ends. -/
def divide (dividend divisor : Int) : Checked Unit Int :=
  if divisor = 0 then .error .outOfBounds else .ok (dividend.tdiv divisor)

def computeX (this : LineEquation) (y : Int) : Checked Unit Int :=
  divide (this.dX * y - this.c) this.dY

def computeY (this : LineEquation) (x : Int) : Checked Unit Int :=
  divide (this.dY * x + this.c) this.dX

/-- One direction of `compute_intersection`: the border that the bits name, the other coordinate
there, and whether that lies between the other borders. -/
def borderHit (before behind : Bool) (first last : Int) (compute : Int → Checked Unit Int)
    (start stop : Int) : Checked Unit (Option (Int × Int)) := do
  if before then
    let tmp ← compute first
    return if start ≤ tmp ∧ tmp < stop then some (first, tmp) else none
  else if behind then
    let tmp ← compute last
    return if start ≤ tmp ∧ tmp < stop then some (last, tmp) else none
  else return none

/-- The lines above and below come last, and have the last word. -/
def computeIntersection (this : LineEquation) (rect : Rect) (region : Region) :
    Checked Unit (Option Point) := do
  let beside ← borderHit region.left region.right rect.x.toInt (rect.eright.toInt - 1)
    this.computeY rect.y.toInt rect.ebottom.toInt
  let across ← borderHit region.up region.down rect.y.toInt (rect.ebottom.toInt - 1)
    this.computeX rect.x.toInt rect.eright.toInt
  return (across.map fun (interY, interX) => ⟨interX, interY⟩).or
    (beside.map fun (interX, interY) => ⟨interX, interY⟩)

/-- An end point of `segin`. -/
def clipped (this : LineEquation) (rect : Rect) (position : Region) (corner : Point) :
    Checked Unit (Option Point) :=
  if position.isIn then .ok (some corner) else this.computeIntersection rect position

def resolve (this : LineEquation) (rect : Rect) : Checked Unit (Bool × LineEquation) := do
  let position (corner : Point) :=
    regionPt rect (BitVec.ofInt 16 corner.x) (BitVec.ofInt 16 corner.y)
  if (position this.seg.a).shares (position this.seg.b) then return (false, this)
  let a ← this.clipped rect (position this.seg.a) this.seg.a
  let b ← this.clipped rect (position this.seg.b) this.seg.b
  return (a.isSome && b.isSome,
    { this with segin := ⟨a.getD this.segin.a, b.getD this.segin.b⟩ })

/-- The points of the rectangle. -/
def Point.inside (point : Point) (rect : Rect) : Prop :=
  (rect.x.toInt ≤ point.x ∧ point.x < rect.eright.toInt) ∧
    rect.y.toInt ≤ point.y ∧ point.y < rect.ebottom.toInt

instance (point : Point) (rect : Rect) : Decidable (point.inside rect) :=
  inferInstanceAs (Decidable (_ ∧ _))

/-- Less than a pixel away, on both axes, from a point of the segment. -/
def Point.near (point : Point) (seg : Segment) : Prop :=
  ∃ part : ℚ, (0 ≤ part ∧ part ≤ 1) ∧ |(point.x : ℚ) - along seg.a.x seg.b.x part| < 1 ∧
    |(point.y : ℚ) - along seg.a.y seg.b.y part| < 1

/-- A segment runs in the direction of another one, as far as it runs at all. -/
def Segment.follows (inner seg : Segment) : Prop :=
  0 ≤ (inner.b.x - inner.a.x) * (seg.b.x - seg.a.x) ∧
    0 ≤ (inner.b.y - inner.a.y) * (seg.b.y - seg.a.y)

/-- The segment passes through the square of the pixel. -/
def Segment.draws (seg : Segment) (pixel : Point) : Prop :=
  ∃ part : ℚ, (0 ≤ part ∧ part ≤ 1) ∧ |(pixel.x : ℚ) - along seg.a.x seg.b.x part| ≤ 1 / 2 ∧
    |(pixel.y : ℚ) - along seg.a.y seg.b.y part| ≤ 1 / 2

/-- A point of the segment, of any fraction, lies between the centres of the outer pixels. -/
def Segment.crosses (seg : Segment) (rect : Rect) : Prop :=
  ∃ part : ℚ, (0 ≤ part ∧ part ≤ 1) ∧
    ((rect.x.toInt : ℚ) ≤ along seg.a.x seg.b.x part ∧
      along seg.a.x seg.b.x part ≤ (rect.eright.toInt - 1 : ℤ)) ∧
    (rect.y.toInt : ℚ) ≤ along seg.a.y seg.b.y part ∧
      along seg.a.y seg.b.y part ≤ (rect.ebottom.toInt - 1 : ℤ)

/-- What a clipped segment is: inside of the rectangle, near to the whole one, and in its
direction. -/
structure Segment.ClipOf (inner seg : Segment) (rect : Rect) : Prop where
  aInside : inner.a.inside rect
  bInside : inner.b.inside rect
  aNear : inner.a.near seg
  bNear : inner.b.near seg
  follows : inner.follows seg

/-- What one direction adds for an end point: the first part of the way that is between its
borders, and the point of the border there when it is between the other borders. -/
structure BorderSpec (start stop other otherStop low high low' high' : Int) (part : ℚ)
    (hit : Option (Int × Int)) : Prop where
  within : 0 ≤ part ∧ part ≤ 1
  band : (low : ℚ) ≤ along start stop part ∧ along start stop part ≤ (high - 1 : ℤ)
  earliest : ∀ later, 0 ≤ later → (low : ℚ) ≤ along start stop later →
    along start stop later ≤ (high - 1 : ℤ) → part ≤ later
  side : (part = 0 ∧ hit = none ∧ low ≤ start ∧ start < high) ∨
    (0 < part ∧ (start < low ∨ high ≤ start) ∧ Enters start stop low (high - 1) part ∧
      hit = if low' ≤ truncate (along other otherStop part) ∧
          truncate (along other otherStop part) < high' then
        some (truncate (along start stop part), truncate (along other otherStop part)) else none)

theorem BorderSpec.of_some {start stop other otherStop low high low' high' border value : Int}
    {part : ℚ}
    (spec : BorderSpec start stop other otherStop low high low' high' part (some (border, value))) :
    Enters start stop low (high - 1) part ∧ border = truncate (along start stop part) ∧
      value = truncate (along other otherStop part) ∧ low' ≤ value ∧ value < high' := by
  rcases spec.side with ⟨-, absent, -⟩ | ⟨-, -, enters, hit⟩
  · cases absent
  · split at hit
    · rename_i band
      cases hit
      exact ⟨enters, rfl, rfl, band⟩
    · cases hit

theorem BorderSpec.of_none {start stop other otherStop low high low' high' : Int} {part : ℚ}
    (spec : BorderSpec start stop other otherStop low high low' high' part none)
    (band : low' ≤ truncate (along other otherStop part) ∧
      truncate (along other otherStop part) < high') :
    part = 0 ∧ low ≤ start ∧ start < high := by
  rcases spec.side with ⟨zero, -, inside⟩ | ⟨-, -, -, hit⟩
  · exact ⟨zero, inside⟩
  · rw [if_pos band] at hit
    cases hit

theorem borderHit_spec {start stop other otherStop low high : Int} (low' high' : Int)
    {compute : Int → Checked Unit Int}
    (computes : ∀ border : Int, start ≠ stop → compute border =
      .ok (truncate (along other otherStop (((border : ℚ) - start) / (stop - start)))))
    (nonempty : low < high)
    (apart : ¬ (start < low ∧ stop < low) ∧
      ¬ ((¬ start < low ∧ high ≤ start) ∧ ¬ stop < low ∧ high ≤ stop)) :
    ∃ part hit, borderHit (start < low) (¬ start < low ∧ high ≤ start) low (high - 1) compute
        low' high' = .ok hit ∧
      BorderSpec start stop other otherStop low high low' high' part hit := by
  have ordered : (low : ℚ) ≤ (high - 1 : ℤ) := by exact_mod_cast Int.le_sub_one_of_lt nonempty
  by_cases before : start < low
  · obtain ⟨positive, bounded, there, earlier, later⟩ :=
      along_reaches before (show low ≤ stop by omega)
    refine ⟨_, _, ?_, ⟨positive.le, bounded⟩, ⟨there.ge, there.le.trans ordered⟩,
      fun part _ reached _ => later part reached,
      .inr ⟨positive, .inl before, .inl ⟨there, earlier⟩, rfl⟩⟩
    simp only [borderHit, before, decide_true, if_true, computes low (by omega), ok_bind, there,
      truncate_intCast]
    rfl
  · by_cases behind : high ≤ start
    · obtain ⟨positive, bounded, there, earlier, later⟩ :=
        along_descends (show high - 1 < start by omega) (show stop ≤ high - 1 by omega)
      refine ⟨_, _, ?_, ⟨positive.le, bounded⟩, ⟨ordered.trans there.ge, there.le⟩,
        fun part _ _ reached => later part reached,
        .inr ⟨positive, .inr behind, .inr ⟨there, earlier⟩, rfl⟩⟩
      simp only [borderHit, before, behind, decide_false, not_false_eq_true, and_self, decide_true,
        Bool.false_eq_true, if_false, if_true, computes (high - 1) (by omega), ok_bind, there,
        truncate_intCast]
      rfl
    · have above : low ≤ start := not_lt.mp before
      have below : start < high := not_le.mp behind
      refine ⟨0, none, by simp [borderHit, before, behind, pure, Except.pure],
        ⟨le_rfl, zero_le_one⟩, ⟨?_, ?_⟩, fun _ later _ _ => later, .inl ⟨rfl, rfl, above, below⟩⟩
      · rw [along_zero]
        exact_mod_cast above
      · rw [along_zero]
        exact_mod_cast Int.le_sub_one_of_lt below

/-- Without a pixel between the borders, or with one: there is no division by zero. -/
theorem borderHit_total {start stop low high : Int} (low' high' : Int)
    {compute : Int → Checked Unit Int}
    (computes : ∀ border : Int, start ≠ stop → ∃ value, compute border = .ok value)
    (apart : ¬ (start < low ∧ stop < low) ∧
      ¬ ((¬ start < low ∧ high ≤ start) ∧ ¬ stop < low ∧ high ≤ stop)) :
    ∃ hit, borderHit (start < low) (¬ start < low ∧ high ≤ start) low (high - 1) compute
        low' high' = .ok hit ∧
      ∀ border value, hit = some (border, value) → low' ≤ value ∧ value < high' := by
  by_cases before : start < low
  · obtain ⟨value, computed⟩ := computes low (by omega)
    simp only [borderHit, before, decide_true, if_true, computed, ok_bind]
    refine ⟨_, rfl, ?_⟩
    intro border tmp found
    split at found <;> grind
  · by_cases behind : high ≤ start
    · obtain ⟨value, computed⟩ := computes (high - 1) (by omega)
      simp only [borderHit, before, behind, decide_false, not_false_eq_true, and_self, decide_true,
        Bool.false_eq_true, if_false, if_true, computed, ok_bind]
      refine ⟨_, rfl, ?_⟩
      intro border tmp found
      split at found <;> grind
    · exact ⟨none, by simp [borderHit, before, behind, pure, Except.pure], by simp⟩

/-- The two computations of `this` are those of the segment from `p` to `q`. -/
structure Spans (this : LineEquation) (p q : Point) : Prop where
  y (x : Int) : p.x ≠ q.x → this.computeY x =
    .ok (truncate (along p.y q.y (((x : ℚ) - p.x) / (q.x - p.x))))
  x (y : Int) : p.y ≠ q.y → this.computeX y =
    .ok (truncate (along p.x q.x (((y : ℚ) - p.y) / (q.y - p.y))))

/-- The value that the equation gives at `at'` is that of the segment, without its fraction. -/
theorem tdiv_eq_along {u u' : Int} (v v' at' : Int) (apart : u ≠ u') :
    ((v - v') * at' + (v' * u - v * u')).tdiv (u - u') =
      truncate (along v v' (((at' : ℚ) - u) / (u' - u))) := by
  have divisor : (u' : ℚ) - u ≠ 0 := sub_ne_zero.mpr (by exact_mod_cast apart.symm)
  have divisor' : (u : ℚ) - u' ≠ 0 := sub_ne_zero.mpr (by exact_mod_cast apart)
  rw [tdiv_eq_truncate, along]
  congr 1
  push_cast
  field_simp
  ring

theorem along_part_reverse {u u' : Int} (v v' at' : Int) (apart : u ≠ u') :
    along v v' (((at' : ℚ) - u) / (u' - u)) = along v' v (((at' : ℚ) - u') / (u - u')) := by
  have divisor : (u' : ℚ) - u ≠ 0 := sub_ne_zero.mpr (by exact_mod_cast apart.symm)
  have divisor' : (u : ℚ) - u' ≠ 0 := sub_ne_zero.mpr (by exact_mod_cast apart)
  unfold along
  field_simp
  ring

theorem of_spans (aX aY bX bY : Int) : (of aX aY bX bY).Spans ⟨aX, aY⟩ ⟨bX, bY⟩ where
  y x apart := (if_neg (sub_ne_zero.mpr apart)).trans
    (congrArg Except.ok (tdiv_eq_along aY bY x apart))
  x y apart := by
    have numerator : (aX - bX) * y - (bY * aX - aY * bX) = (aX - bX) * y + (bX * aY - aX * bY) := by
      ring
    refine (if_neg (sub_ne_zero.mpr apart)).trans (congrArg Except.ok ?_)
    exact (congrArg (Int.tdiv · (aY - bY)) numerator).trans (tdiv_eq_along aX bX y apart)

theorem Spans.reverse {this : LineEquation} {p q : Point} (spans : this.Spans p q) :
    this.Spans q p where
  y x apart := by rw [spans.y x apart.symm, along_part_reverse _ _ _ apart]
  x y apart := by rw [spans.x y apart.symm, along_part_reverse _ _ _ apart]

/-- A clipped end point is the rounded point at a part of the way from `p` to `q`, and no earlier
point is between the borders of one direction. -/
structure Point.ReachedFrom (point p q : Point) (rect : Rect) (part : ℚ) : Prop where
  within : 0 ≤ part ∧ part ≤ 1
  eq : point = ⟨truncate (along p.x q.x part), truncate (along p.y q.y part)⟩
  inside : point.inside rect
  first : part = 0 ∨ Enters p.x q.x rect.x.toInt (rect.eright.toInt - 1) part ∨
    Enters p.y q.y rect.y.toInt (rect.ebottom.toInt - 1) part

section Clip

variable {this : LineEquation} {rect : Rect} {px py qx qy : Coord}

theorem shares_eq_false
    (unshared : (regionPt rect px py).shares (regionPt rect qx qy) = false) :
    (¬ (px.toInt < rect.x.toInt ∧ qx.toInt < rect.x.toInt) ∧
      ¬ ((¬ px.toInt < rect.x.toInt ∧ rect.eright.toInt ≤ px.toInt) ∧
        ¬ qx.toInt < rect.x.toInt ∧ rect.eright.toInt ≤ qx.toInt)) ∧
    ¬ (py.toInt < rect.y.toInt ∧ qy.toInt < rect.y.toInt) ∧
      ¬ ((¬ py.toInt < rect.y.toInt ∧ rect.ebottom.toInt ≤ py.toInt) ∧
        ¬ qy.toInt < rect.y.toInt ∧ rect.ebottom.toInt ≤ qy.toInt) := by
  simp only [Region.shares, regionPt, Bool.or_eq_false_iff, Bool.and_eq_false_iff,
    decide_eq_false_iff_not] at unshared
  omega

/-- Every rectangle has its end points clipped without a division by zero; one that is found has
a column or a line of the rectangle at least. -/
theorem clipped_total (spans : this.Spans ⟨px.toInt, py.toInt⟩ ⟨qx.toInt, qy.toInt⟩)
    (unshared : (regionPt rect px py).shares (regionPt rect qx qy) = false) :
    ∃ clip, this.clipped rect (regionPt rect px py) ⟨px.toInt, py.toInt⟩ = .ok clip ∧
      (clip.isSome → rect.x.toInt < rect.eright.toInt ∨ rect.y.toInt < rect.ebottom.toInt) := by
  obtain ⟨columns, lines⟩ := shares_eq_false unshared
  by_cases within : (regionPt rect px py).isIn
  · refine ⟨_, if_pos within, fun _ => ?_⟩
    simp only [Region.isIn, regionPt, Bool.not_eq_true', Bool.or_eq_false_iff,
      decide_eq_false_iff_not] at within
    omega
  · obtain ⟨beside, besideDone, besideBand⟩ :=
      borderHit_total rect.y.toInt rect.ebottom.toInt
        (fun border apart => ⟨_, spans.y border apart⟩) columns
    obtain ⟨across, acrossDone, acrossBand⟩ :=
      borderHit_total rect.x.toInt rect.eright.toInt
        (fun border apart => ⟨_, spans.x border apart⟩) lines
    rw [clipped, if_neg within]
    simp only [computeIntersection, regionPt, besideDone, acrossDone, ok_bind]
    refine ⟨_, rfl, ?_⟩
    rcases across with _ | ⟨border, value⟩
    · rcases beside with _ | ⟨border, value⟩
      · simp
      · intro _
        have band := besideBand border value rfl
        omega
    · intro _
      have band := acrossBand border value rfl
      omega

theorem truncate_band {low high : Int} {value : ℚ} (band : (low : ℚ) ≤ value ∧ value ≤ high) :
    low ≤ truncate value ∧ truncate value ≤ high := by
  have below := truncate_mono band.1
  have above := truncate_mono band.2
  rw [truncate_intCast] at below above
  exact ⟨below, above⟩

/-- An end point is clipped where the segment enters the rectangle; it is lost only when the
segment misses the rectangle. -/
theorem clipped_exact (spans : this.Spans ⟨px.toInt, py.toInt⟩ ⟨qx.toInt, qy.toInt⟩)
    (unshared : (regionPt rect px py).shares (regionPt rect qx qy) = false)
    (wide : rect.x.toInt < rect.eright.toInt) (high : rect.y.toInt < rect.ebottom.toInt) :
    ∃ clip, this.clipped rect (regionPt rect px py) ⟨px.toInt, py.toInt⟩ = .ok clip ∧
      (∀ point, clip = some point → ∃ part, point.ReachedFrom ⟨px.toInt, py.toInt⟩
        ⟨qx.toInt, qy.toInt⟩ rect part) ∧
      (clip = none → ¬ Segment.crosses ⟨⟨px.toInt, py.toInt⟩, ⟨qx.toInt, qy.toInt⟩⟩ rect) := by
  obtain ⟨columns, lines⟩ := shares_eq_false unshared
  obtain ⟨partX, beside, besideDone, specX⟩ := borderHit_spec rect.y.toInt rect.ebottom.toInt
    (fun border apart => spans.y border apart) wide columns
  obtain ⟨partY, across, acrossDone, specY⟩ := borderHit_spec rect.x.toInt rect.eright.toInt
    (fun border apart => spans.x border apart) high lines
  by_cases within : (regionPt rect px py).isIn
  · refine ⟨_, if_pos within, ?_, by simp⟩
    simp only [Region.isIn, regionPt, Bool.not_eq_true', Bool.or_eq_false_iff,
      decide_eq_false_iff_not] at within
    rintro _ ⟨rfl⟩
    exact ⟨0, ⟨le_rfl, zero_le_one⟩, by simp, by simp only [Point.inside]; omega, .inl rfl⟩
  · rw [clipped, if_neg within]
    simp only [computeIntersection, regionPt, besideDone, acrossDone, ok_bind]
    have inX := truncate_band specX.band
    have inY := truncate_band specY.band
    refine ⟨_, rfl, ?_, ?_⟩
    · intro point found
      rcases across with _ | ⟨border, value⟩
      · rcases beside with _ | ⟨border, value⟩
        · cases found
        · cases found
          obtain ⟨enters, rfl, rfl, below, above⟩ := specX.of_some
          exact ⟨partX, specX.within, rfl, ⟨⟨inX.1, Int.lt_of_le_sub_one inX.2⟩, below, above⟩,
            .inr (.inl enters)⟩
      · cases found
        obtain ⟨enters, rfl, rfl, left, right⟩ := specY.of_some
        exact ⟨partY, specY.within, rfl, ⟨⟨left, right⟩, inY.1, Int.lt_of_le_sub_one inY.2⟩,
          .inr (.inr enters)⟩
    · rintro lost ⟨part, ⟨positive, -⟩, columnBand, lineBand⟩
      have afterX := specX.earliest part positive columnBand.1 columnBand.2
      have afterY := specY.earliest part positive lineBand.1 lineBand.2
      obtain ⟨rfl, rfl⟩ : across = none ∧ beside = none := by simpa using lost
      -- at the later one of the two borders the segment is inside of the rectangle
      apply within
      have reached : partX = 0 ∧ partY = 0 := by
        rcases le_total partX partY with later | later
        · have column := truncate_band (along_between later afterY specX.band columnBand)
          have zero := (specY.of_none (by omega)).1
          exact ⟨le_antisymm (later.trans zero.le) specX.within.1, zero⟩
        · have line := truncate_band (along_between later afterX specY.band lineBand)
          have zero := (specX.of_none (by omega)).1
          exact ⟨zero, le_antisymm (later.trans zero.le) specY.within.1⟩
      have column := (specX.of_none (by
        rw [reached.1, ← reached.2]
        exact ⟨inY.1, Int.lt_of_le_sub_one inY.2⟩)).2
      have line := (specY.of_none (by
        rw [reached.2, ← reached.1]
        exact ⟨inX.1, Int.lt_of_le_sub_one inX.2⟩)).2
      simp [Region.isIn, regionPt, column, line]

end Clip

variable {rect : Rect}

theorem Point.ReachedFrom.turned {point p q : Point} {part : ℚ}
    (reached : point.ReachedFrom p q rect part) :
    point = ⟨truncate (along q.x p.x (1 - part)), truncate (along q.y p.y (1 - part))⟩ := by
  rw [reached.eq, along_reverse q.x, along_reverse q.y]

/-- An end point clipped before the border of the other one is on that border too. -/
theorem Point.ReachedFrom.same {a b p q : Point} {part back : ℚ}
    (fromStart : a.ReachedFrom p q rect part) (fromEnd : b.ReachedFrom q p rect back)
    (crossed : 1 - back < part) :
    (Enters p.x q.x rect.x.toInt (rect.eright.toInt - 1) part → b.x = a.x) ∧
      (Enters p.y q.y rect.y.toInt (rect.ebottom.toInt - 1) part → b.y = a.y) := by
  have inside := fromEnd.inside
  rw [fromEnd.turned] at inside
  rw [fromEnd.turned, fromStart.eq]
  exact ⟨fun enters => enters.truncate_eq crossed ⟨inside.1.1, Int.le_sub_one_of_lt inside.1.2⟩,
    fun enters => enters.truncate_eq crossed ⟨inside.2.1, Int.le_sub_one_of_lt inside.2.2⟩⟩

/-- Two clipped end points stand in the order of the segment, or on one pixel. -/
theorem Point.ReachedFrom.follows {a b p q : Point} {part back : ℚ}
    (fromStart : a.ReachedFrom p q rect part) (fromEnd : b.ReachedFrom q p rect back)
    (wide : rect.x.toInt < rect.eright.toInt) (high : rect.y.toInt < rect.ebottom.toInt) :
    Segment.follows ⟨a, b⟩ ⟨p, q⟩ := by
  rcases le_or_gt part (1 - back) with ordered | crossed
  · rw [fromStart.eq, fromEnd.turned]
    exact ⟨along_direction _ _ ordered, along_direction _ _ ordered⟩
  · have onBorder := fromStart.same fromEnd crossed
    have onBorder' := fromEnd.same fromStart (by linarith)
    suffices same : a.x = b.x ∧ a.y = b.y by simp [Segment.follows, same]
    rcases fromStart.first with zero | column | line
    · have := fromEnd.within.2
      linarith
    all_goals rcases fromEnd.first with zero | column' | line'
    · have := fromStart.within.2
      linarith
    · have := column.ordered (Int.le_sub_one_of_lt wide) column'
      linarith
    · exact ⟨(onBorder.1 column).symm, onBorder'.2 line'⟩
    · have := fromStart.within.2
      linarith
    · exact ⟨onBorder'.1 column', (onBorder.2 line).symm⟩
    · have := line.ordered (Int.le_sub_one_of_lt high) line'
      linarith

theorem Point.ReachedFrom.near {point p q : Point} {part : ℚ}
    (reached : point.ReachedFrom p q rect part) : point.near ⟨p, q⟩ := by
  refine ⟨part, reached.within, ?_⟩
  rw [reached.eq]
  exact ⟨abs_truncate_sub_lt _, abs_truncate_sub_lt _⟩

theorem Segment.crosses.reverse {p q : Point}
    (crosses : Segment.crosses ⟨p, q⟩ rect) :
    Segment.crosses ⟨q, p⟩ rect := by
  obtain ⟨part, within, column, line⟩ := crosses
  refine ⟨1 - part, ⟨by linarith [within.2], by linarith [within.1]⟩, ?_⟩
  rw [← along_reverse q.x, ← along_reverse q.y]
  exact ⟨column, line⟩

theorem Point.near.reverse {point p q : Point} (near : point.near ⟨q, p⟩) : point.near ⟨p, q⟩ := by
  obtain ⟨part, within, column, line⟩ := near
  refine ⟨1 - part, ⟨by linarith [within.2], by linarith [within.1]⟩, ?_⟩
  rw [← along_reverse p.x, ← along_reverse p.y]
  exact ⟨column, line⟩

theorem along_outside {start stop low high : Int} {part : ℚ} (within : 0 ≤ part ∧ part ≤ 1)
    (shared : (start < low ∧ stop < low) ∨ (high ≤ start ∧ high ≤ stop)) :
    ¬ ((low : ℚ) ≤ along start stop part ∧ along start stop part ≤ (high - 1 : ℤ)) := by
  rintro ⟨above, below⟩
  have rest : 0 ≤ 1 - part := by linarith [within.2]
  unfold along at above below
  push_cast at below
  rcases shared with ⟨first, second⟩ | ⟨first, second⟩
  · have first' : (start : ℚ) ≤ low - 1 := by exact_mod_cast Int.le_sub_one_of_lt first
    have second' : (stop : ℚ) ≤ low - 1 := by exact_mod_cast Int.le_sub_one_of_lt second
    have := mul_le_mul_of_nonneg_left first' rest
    have := mul_le_mul_of_nonneg_left second' within.1
    linarith
  · have first' : (high : ℚ) ≤ start := by exact_mod_cast first
    have second' : (high : ℚ) ≤ stop := by exact_mod_cast second
    have := mul_le_mul_of_nonneg_left first' rest
    have := mul_le_mul_of_nonneg_left second' within.1
    linarith

/-- End points with a shared bit: the whole segment is beyond one border. -/
theorem Segment.not_crosses {px py qx qy : Coord}
    (shared : (regionPt rect px py).shares (regionPt rect qx qy) = true) :
    ¬ Segment.crosses ⟨⟨px.toInt, py.toInt⟩, ⟨qx.toInt, qy.toInt⟩⟩ rect := by
  rintro ⟨part, within, column, line⟩
  simp only [Region.shares, regionPt, Bool.or_eq_true, Bool.and_eq_true, decide_eq_true_eq]
    at shared
  rcases shared with ((up | down) | left) | right
  · exact along_outside within (.inl up) line
  · exact along_outside within (.inr ⟨down.1.2, down.2.2⟩) line
  · exact along_outside within (.inl left) column
  · exact along_outside within (.inr ⟨right.1.2, right.2.2⟩) column

theorem resolve_eq {this : LineEquation} {aX aY bX bY : Coord}
    {a b : Option Point} (start : this.seg.a = ⟨aX.toInt, aY.toInt⟩)
    (stop : this.seg.b = ⟨bX.toInt, bY.toInt⟩)
    (unshared : (regionPt rect aX aY).shares (regionPt rect bX bY) = false)
    (aDone : this.clipped rect (regionPt rect aX aY) ⟨aX.toInt, aY.toInt⟩ = .ok a)
    (bDone : this.clipped rect (regionPt rect bX bY) ⟨bX.toInt, bY.toInt⟩ = .ok b) :
    this.resolve rect = .ok (a.isSome && b.isSome,
      { this with segin := ⟨a.getD this.segin.a, b.getD this.segin.b⟩ }) := by
  simp only [resolve, start, stop, BitVec.ofInt_toInt, unshared, Bool.false_eq_true, if_false,
    aDone, bDone, ok_bind]
  rfl

/-- What `resolve` is for: on the segments with 16-bit ends and all rectangles. -/
def Exact (seg : Segment) (rect : Rect) : Prop :=
  ∃ found out, (of seg.a.x seg.a.y seg.b.x seg.b.y).resolve rect = .ok (found, out) ∧
    (found = true → out.segin.ClipOf seg rect) ∧
    (found = false → ∀ pixel : Point, pixel.inside rect → ¬ seg.draws pixel)

end LineEquation

end Redemption.Utils
