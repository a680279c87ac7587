import Redemption.Utils.RectAlgebra

/-! `SubRegion`: rectangles are taken away from a list of rectangles. -/
namespace Redemption.Utils

/-- A turn of the loop of `subtract_rect`: what is left of `rect1`. -/
def subtractFrom (rect rect1 : Rect) : List Rect :=
  if rect.contains rect1 then []
  else
    let sect := rect.intersect rect1
    if sect.isEmpty then [rect1]
    else
      let a := Rect.of rect1.x rect1.y rect1.cx (distance sect.y rect1.y)
      let b := Rect.of rect1.x sect.y (distance sect.x rect1.x) sect.cy
      let c := Rect.of sect.eright sect.y (distance rect1.eright sect.eright) sect.cy
      let d := Rect.of rect1.x sect.ebottom rect1.cx (distance rect1.ebottom sect.ebottom)
      (if a.isEmpty then [] else [a]) ++ (if b.isEmpty then [] else [b]) ++
        (if c.isEmpty then [] else [c]) ++ (if d.isEmpty then [] else [d])

/-- `SubRegion`; `new_rects` is empty between two calls. -/
structure SubRegion where
  rects : List Rect
  deriving DecidableEq, Repr

namespace SubRegion

/-- `subtract_rect`. -/
def subtractRect (region : SubRegion) (rect : Rect) : SubRegion :=
  ⟨region.rects.flatMap (subtractFrom rect)⟩

end SubRegion

section Axis

variable (start : Coord) (size : Nat) (start' : Coord) (size' : Nat)

/-- The second extent lies beside the first one, where the constructor can tell. -/
def Aside : Prop := ¬Wraps start' size' ∧ ¬Overlaps start size start' size' ∧
  max start.toInt start'.toInt - min (start.toInt + size) (start'.toInt + size') < 32768

instance : Decidable (Aside start size start' size') := inferInstanceAs (Decidable (_ ∧ _ ∧ _))

/-- How the part from `left` on cuts the first extent. -/
structure Cuts (left : Coord) (width : Nat) : Prop where
  kept : Kept width
  within : Overlaps start size start' size'
  begins : left.toInt = max start.toInt start'.toInt
  before (x : Int) : Kept (distance left start) ∧ start.toInt ≤ x ∧
      x < start.toInt + distance left start ↔ start.toInt ≤ x ∧ x < start'.toInt
  behind (x : Int) : Kept (distance (edge start size) (edge left width)) ∧
      (edge left width).toInt ≤ x ∧
      x < (edge left width).toInt + distance (edge start size) (edge left width) ↔
    start'.toInt + size' ≤ x ∧ x < start.toInt + size
  right (stays : ¬Wraps start' size') :
    left.toInt + width = min (start.toInt + size) (start'.toInt + size')

variable {start size start' size'} (kept : Kept size) (inside : ¬Wraps start size)
  (most' : size' ≤ 32768)

include kept inside most'

theorem Aside.not_kept (aside : Aside start size start' size') :
    ¬Kept (distance (minCoord (edge start size) (edge start' size')) (maxCoord start start')) := by
  obtain ⟨inside', apart, gap⟩ := aside
  have near : AxisNear start' size' start size := ⟨iff_of_false inside' inside, by omega⟩
  rw [(near.overlap most' kept.2).1]
  unfold Overlaps at apart ⊢
  omega

theorem cuts_of_overlaps (overlap : Overlaps start size start' size') :
    Cuts start size start' size' (maxCoord start start')
      (distance (minCoord (edge start size) (edge start' size')) (maxCoord start start')) := by
  have one := edge_toInt start kept.2
  have other := edge_toInt start' most'
  have left := maxCoord_toInt start start'
  have stop := minCoord_toInt (edge start size) (edge start' size')
  have width := distance_eq (maxCoord start start') (minCoord (edge start size) (edge start' size'))
  generalize maxCoord start start' = l at left width ⊢
  generalize minCoord (edge start size) (edge start' size') = m at stop width
  have before := distance_eq start l
  unfold Wraps at inside
  have common := overlap
  unfold Overlaps at common
  obtain ⟨some, most⟩ := kept
  rw [if_pos (by omega)] at one before
  generalize distance m l = w at width ⊢
  have small : 0 < w ∧ w ≤ 32768 := by
    split at other <;> split at width <;> omega
  have last := edge_toInt l small.2
  have behind := distance_eq (edge l w) (edge start size)
  refine ⟨small, overlap, left, ?_, ?_, ?_⟩
  · intro x
    unfold Kept
    omega
  · intro x
    unfold Kept
    split at other <;> split at width <;> split at last <;> split at behind <;> omega
  · intro stays
    unfold Wraps at stays
    rw [if_pos (by omega)] at other
    split at width <;> omega

end Axis

section Step

variable {rect rect1 : Rect}

/-- What a subtraction needs to know of the two rectangles. -/
def Clear (rect rect1 : Rect) : Prop :=
  Aside rect1.x rect1.cx rect.x rect.cx ∨ Aside rect1.y rect1.cy rect.y rect.cy ∨
    (Overlaps rect1.x rect1.cx rect.x rect.cx ∧ Overlaps rect1.y rect1.cy rect.y rect.cy ∧
      (Wraps rect.y rect.cy → rect.x.toInt ≤ rect1.x.toInt ∧
        rect1.x.toInt + rect1.cx ≤ rect.x.toInt + rect.cx))

instance : Decidable (Clear rect rect1) := inferInstanceAs (Decidable (_ ∨ _ ∨ _ ∧ _ ∧ (_ → _)))

/-- A rectangle that holds pixels, its edges 16 bit numbers. -/
structure OnScreen (rect : Rect) : Prop where
  columns : Kept rect.cx
  lines : Kept rect.cy
  right : ¬Wraps rect.x rect.cx
  bottom : ¬Wraps rect.y rect.cy

instance : Decidable rect.Built := inferInstanceAs (Decidable (_ ∨ _))

instance : Decidable (OnScreen rect) :=
  decidable_of_iff ((Kept rect.cx ∧ Kept rect.cy) ∧ ¬Wraps rect.x rect.cx ∧ ¬Wraps rect.y rect.cy)
    ⟨fun holds => ⟨holds.1.1, holds.1.2, holds.2.1, holds.2.2⟩,
      fun screen => ⟨⟨screen.columns, screen.lines⟩, screen.right, screen.bottom⟩⟩

theorem Rect.Built.most (built : rect.Built) : rect.cx ≤ 32768 ∧ rect.cy ≤ 32768 := by
  rcases built with none | ⟨⟨_, wide⟩, _, high⟩
  · omega
  · exact ⟨wide, high⟩

theorem covers_filled (rect : Rect) :
    Covers (if rect.isEmpty then [] else [rect]) rect.area.Contains := by
  split
  · next empty => exact covers_nil (not_contains_of_isEmpty empty)
  · next filled => exact covers_singleton (Bool.not_eq_true _ ▸ filled)

theorem strips_of_cuts {l t : Coord} {w h : Nat} (screen : OnScreen rect1)
    (columns : Cuts rect1.x rect1.cx rect.x rect.cx l w)
    (lines : Cuts rect1.y rect1.cy rect.y rect.cy t h)
    (below : Wraps rect.y rect.cy → rect.x.toInt ≤ rect1.x.toInt ∧
      rect1.x.toInt + rect1.cx ≤ rect.x.toInt + rect.cx) :
    let a := Rect.of rect1.x rect1.y rect1.cx (distance t rect1.y)
    let b := Rect.of rect1.x t (distance l rect1.x) h
    let c := Rect.of (edge l w) t (distance rect1.eright (edge l w)) h
    let d := Rect.of rect1.x (edge t h) rect1.cx (distance rect1.ebottom (edge t h))
    Covers ((if a.isEmpty then [] else [a]) ++ (if b.isEmpty then [] else [b]) ++
        (if c.isEmpty then [] else [c]) ++ (if d.isEmpty then [] else [d]))
      fun x y => rect1.area.Contains x y ∧ ¬rect.area.Contains x y := by
  intro a b c d
  have rows (y : Int) (stays : ¬Wraps rect.y rect.cy) : t.toInt ≤ y ∧ y < t.toInt + h ↔
      (rect1.y.toInt ≤ y ∧ y < rect1.y.toInt + rect1.cy) ∧
        rect.y.toInt ≤ y ∧ y < rect.y.toInt + rect.cy := by
    have begins := lines.begins
    have right := lines.right stays
    omega
  have inA (x y : Int) : a.area.Contains x y ↔
      rect1.area.Contains x y ∧ y < rect.y.toInt := by
    have within := lines.within
    unfold Overlaps at within
    rw [of_contains, and_and_and_comm, and_iff_right screen.columns, lines.before, contains_area]
    omega
  have inB (x y : Int) : b.area.Contains x y ↔
      rect1.area.Contains x y ∧ x < rect.x.toInt ∧ rect.y.toInt ≤ y ∧
        y < rect.y.toInt + rect.cy := by
    have within := columns.within
    unfold Overlaps at within
    rw [of_contains, and_and_and_comm, and_iff_right lines.kept, columns.before, contains_area]
    by_cases wraps : Wraps rect.y rect.cy
    · have covered := below wraps
      omega
    · rw [rows y wraps]
      omega
  have inC (x y : Int) : c.area.Contains x y ↔
      rect1.area.Contains x y ∧ rect.x.toInt + rect.cx ≤ x ∧ rect.y.toInt ≤ y ∧
        y < rect.y.toInt + rect.cy := by
    have within := columns.within
    unfold Overlaps at within
    rw [of_contains, and_and_and_comm, and_iff_right lines.kept, Rect.eright, columns.behind,
      contains_area]
    by_cases wraps : Wraps rect.y rect.cy
    · have covered := below wraps
      omega
    · rw [rows y wraps]
      omega
  have inD (x y : Int) : d.area.Contains x y ↔
      rect1.area.Contains x y ∧ rect.y.toInt + rect.cy ≤ y := by
    have within := lines.within
    unfold Overlaps at within
    rw [of_contains, and_and_and_comm, and_iff_right screen.columns, Rect.ebottom, lines.behind,
      contains_area]
    omega
  refine ((((covers_filled a).append (covers_filled b) ?_).append (covers_filled c) ?_).append
    (covers_filled d) ?_).congr ?_
  all_goals
    intro x y
    simp only [inA, inB, inC, inD]
    simp only [contains_area]
    omega

theorem contains_sound (screen : OnScreen rect1) (built : rect.Built)
    (contains : rect.contains rect1 = true) (x y : Int) (inside : rect1.area.Contains x y) :
    rect.area.Contains x y := by
  obtain ⟨⟨some, most⟩, ⟨some', most'⟩, right, bottom⟩ := screen
  have columns := edge_toInt rect1.x most
  have lines := edge_toInt rect1.y most'
  have columns' := edge_toInt rect.x built.most.1
  have lines' := edge_toInt rect.y built.most.2
  unfold Wraps at right bottom
  simp only [Rect.contains, Bool.and_eq_true, decide_eq_true_eq] at contains
  rw [Rect.eright, Rect.eright, Rect.ebottom, Rect.ebottom] at contains
  rw [contains_area] at inside ⊢
  split at columns' <;> split at lines' <;> omega

theorem subtractFrom_covers (screen : OnScreen rect1) (built : rect.Built)
    (clear : Clear rect rect1) :
    Covers (subtractFrom rect rect1) fun x y =>
      rect1.area.Contains x y ∧ ¬rect.area.Contains x y := by
  have filled : rect1.isEmpty = false :=
    Rect.isEmpty_eq_false.mpr ⟨screen.columns.1, screen.lines.1⟩
  have keeps (apart : ∀ x y, ¬(rect1.area.Contains x y ∧ rect.area.Contains x y)) :
      Covers [rect1] fun x y => rect1.area.Contains x y ∧ ¬rect.area.Contains x y := by
    apply (covers_singleton filled).congr
    intro x y
    exact ⟨fun inside => ⟨inside, fun other => apart x y ⟨inside, other⟩⟩, And.left⟩
  unfold subtractFrom
  split
  · next contains =>
    apply covers_nil
    intro x y inside
    exact inside.2 (contains_sound screen built contains x y inside.1)
  · rcases clear with aside | aside | ⟨columns, lines, below⟩
    · have none := aside.not_kept screen.columns screen.right built.most.1
      have empty : (rect.intersect rect1).isEmpty = true := by
        rw [← Bool.not_eq_false, Rect.intersect, of_isEmpty]
        exact fun kept => none kept.1
      rw [if_pos empty]
      apply keeps
      have apart := aside.2.1
      unfold Overlaps at apart
      intro x y
      rw [contains_area, contains_area]
      omega
    · have none := aside.not_kept screen.lines screen.bottom built.most.2
      have empty : (rect.intersect rect1).isEmpty = true := by
        rw [← Bool.not_eq_false, Rect.intersect, of_isEmpty]
        exact fun kept => none kept.2
      rw [if_pos empty]
      apply keeps
      have apart := aside.2.1
      unfold Overlaps at apart
      intro x y
      rw [contains_area, contains_area]
      omega
    · have columns := cuts_of_overlaps screen.columns screen.right built.most.1 columns
      have lines := cuts_of_overlaps screen.lines screen.bottom built.most.2 lines
      have sect : rect.intersect rect1 = ⟨_, _, _, _⟩ := Rect.of_eq columns.kept lines.kept
      have some : ¬(rect.intersect rect1).isEmpty = true := by
        rw [Bool.not_eq_true, sect]
        exact Rect.isEmpty_eq_false.mpr ⟨columns.kept.1, lines.kept.1⟩
      rw [if_neg some, sect]
      exact strips_of_cuts screen columns lines below

theorem subtractFrom_onScreen (screen : OnScreen rect1) (built : rect.Built)
    (clear : Clear rect rect1) : ∀ piece ∈ subtractFrom rect rect1, OnScreen piece := by
  intro piece member
  have covers := subtractFrom_covers screen built clear
  obtain ⟨some, some'⟩ := Rect.isEmpty_eq_false.mp (covers.filled piece member)
  have first := (covers.pixels piece.x.toInt piece.y.toInt).mp
    ⟨piece, member, by rw [contains_area]; omega⟩
  have last := (covers.pixels (piece.x.toInt + piece.cx - 1) (piece.y.toInt + piece.cy - 1)).mp
    ⟨piece, member, by rw [contains_area]; omega⟩
  obtain ⟨⟨_, most⟩, ⟨_, most'⟩, right, bottom⟩ := screen
  unfold Wraps at right bottom
  simp only [contains_area] at first last
  refine ⟨⟨some, by omega⟩, ⟨some', by omega⟩, ?_, ?_⟩ <;> unfold Wraps <;> omega

end Step

section Run

variable {rects : List Rect} {pixels : Int → Int → Prop} {rect : Rect}

theorem covers_flatMap (part : Rect → List Rect) (keeps : Int → Int → Prop)
    (covers : Covers rects pixels)
    (each : ∀ rect ∈ rects, Covers (part rect) fun x y => rect.area.Contains x y ∧ keeps x y) :
    Covers (rects.flatMap part) fun x y => pixels x y ∧ keeps x y where
  filled piece member := by
    obtain ⟨rect, present, within⟩ := List.mem_flatMap.mp member
    exact (each rect present).filled piece within
  apart := by
    rw [List.pairwise_flatMap]
    refine ⟨fun rect present => (each rect present).apart, ?_⟩
    apply covers.apart.imp_of_mem
    intro first second here there apart piece within piece' within' x y both
    have inside := ((each first here).pixels x y).mp ⟨piece, within, both.1⟩
    have inside' := ((each second there).pixels x y).mp ⟨piece', within', both.2⟩
    exact apart x y ⟨inside.1, inside'.1⟩
  pixels x y := by
    rw [← covers.pixels]
    constructor
    · rintro ⟨piece, member, inside⟩
      obtain ⟨rect, present, within⟩ := List.mem_flatMap.mp member
      obtain ⟨own, kept⟩ := ((each rect present).pixels x y).mp ⟨piece, within, inside⟩
      exact ⟨⟨rect, present, own⟩, kept⟩
    · rintro ⟨⟨rect, present, own⟩, kept⟩
      obtain ⟨piece, within, inside⟩ := ((each rect present).pixels x y).mpr ⟨own, kept⟩
      exact ⟨piece, List.mem_flatMap.mpr ⟨rect, present, within⟩, inside⟩

/-- A region of rectangles on the screen, over just these pixels. -/
structure SubRegion.Holds (region : SubRegion) (pixels : Int → Int → Prop) : Prop where
  screen : ∀ rect ∈ region.rects, OnScreen rect
  covers : Covers region.rects pixels

namespace SubRegion

variable {region : SubRegion}

/-- One call of `subtract_rect`. -/
theorem Holds.step (holds : region.Holds pixels) (built : rect.Built)
    (clear : ∀ rect1 ∈ region.rects, Clear rect rect1) :
    (region.subtractRect rect).Holds fun x y => pixels x y ∧ ¬rect.area.Contains x y where
  screen piece member := by
    obtain ⟨rect1, present, within⟩ := List.mem_flatMap.mp member
    exact subtractFrom_onScreen (holds.screen rect1 present) built (clear rect1 present) piece within
  covers := covers_flatMap _ _ holds.covers fun rect1 present =>
    subtractFrom_covers (holds.screen rect1 present) built (clear rect1 present)

/-- At each call, all the rectangles of the region are clear of the one that is subtracted. -/
def AllClear (region : SubRegion) : List Rect → Prop
  | [] => True
  | rect :: rest =>
    (∀ rect1 ∈ region.rects, Clear rect rect1) ∧ (region.subtractRect rect).AllClear rest

theorem Holds.run {subtracted : List Rect} (holds : region.Holds pixels)
    (built : ∀ rect ∈ subtracted, rect.Built) (clear : region.AllClear subtracted) :
    (subtracted.foldl subtractRect region).Holds fun x y =>
      pixels x y ∧ ∀ rect ∈ subtracted, ¬rect.area.Contains x y := by
  induction subtracted generalizing region pixels with
  | nil => exact ⟨holds.screen, holds.covers.congr fun x y => by simp⟩
  | cons rect rest continues =>
    obtain ⟨here, later⟩ := clear
    have next := holds.step (built rect (List.mem_cons_self ..)) here
    have final := continues next (fun next member => built next (List.mem_cons_of_mem _ member)) later
    refine ⟨final.screen, final.covers.congr ?_⟩
    intro x y
    simp only [List.forall_mem_cons, and_assoc]

instance (region : SubRegion) (subtracted : List Rect) : Decidable (region.AllClear subtracted) := by
  induction subtracted generalizing region with
  | nil => exact .isTrue trivial
  | cons rect rest next => exact @instDecidableAnd _ _ _ (next (region.subtractRect rect))

/-- A run of subtractions leaves the pixels of the region that are in no subtracted rectangle. -/
theorem subtractRect_run (region : SubRegion) (subtracted : List Rect)
    (built : ∀ rect ∈ subtracted, rect.Built)
    (apart : region.rects.Pairwise fun first second =>
      ∀ x y, ¬(first.area.Contains x y ∧ second.area.Contains x y))
    (screen : ∀ rect ∈ region.rects, OnScreen rect) (clear : region.AllClear subtracted) :
    Covers (subtracted.foldl subtractRect region).rects fun x y =>
      (∃ rect ∈ region.rects, rect.area.Contains x y) ∧
        ∀ rect ∈ subtracted, ¬rect.area.Contains x y := by
  have filled (rect : Rect) (member : rect ∈ region.rects) : rect.isEmpty = false :=
    Rect.isEmpty_eq_false.mpr ⟨(screen rect member).columns.1, (screen rect member).lines.1⟩
  have holds : region.Holds fun x y => ∃ rect ∈ region.rects, rect.area.Contains x y :=
    ⟨screen, filled, apart, fun x y => Iff.rfl⟩
  exact (holds.run built clear).covers

theorem subtractRect_run_window :
    Covers [Rect.of 0 0 100 20, Rect.of 0 20 10 30, Rect.of 30 20 70 30, Rect.of 0 50 100 45,
        Rect.of 0 95 95 5]
      fun x y => (∃ rect ∈ [Rect.of 0 0 100 100], rect.area.Contains x y) ∧
        ∀ rect ∈ [Rect.of 10 20 20 30, Rect.of 95 95 10 10], ¬rect.area.Contains x y :=
  subtractRect_run ⟨[Rect.of 0 0 100 100]⟩ [Rect.of 10 20 20 30, Rect.of 95 95 10 10]
    (by decide) (List.pairwise_singleton _ _) (by decide) (by decide)

/-- A rectangle whose edge wraps lengthens a line of the region. -/
theorem subtractRect_adds_pixels :
    ¬Covers (subtractRect ⟨[Rect.of 0 0 10 10]⟩ (Rect.of 100 0 32767 10)).rects fun x y =>
      (∃ rect ∈ [Rect.of 0 0 10 10], rect.area.Contains x y) ∧
        ∀ rect ∈ [Rect.of 100 0 32767 10], ¬rect.area.Contains x y := by
  intro covers
  obtain ⟨⟨rect, member, inside⟩, _⟩ := (covers.pixels 50 5).mp ⟨Rect.of 0 0 100 10, by decide, by decide⟩
  rw [List.mem_singleton.mp member] at inside
  exact absurd inside (by decide)

end SubRegion

end Run

end Redemption.Utils
