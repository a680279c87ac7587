import Redemption.Foundation.Buffer
import Redemption.Utils.Rect

/-! The rectangles of a picture that is drawn with text: two characters make a cell. -/
namespace Redemption.Utils.Txt2dToRects

open Foundation

/-- The lines of the text, and the array that says which cells are in a rectangle. -/
abbrev Text (w h : Nat) := Buffer (Buffer Char (2 * w)) h

abbrev Visited (w h : Nat) := Buffer Bool (h * w)

structure State (w h : Nat) where
  rects : Buffer Rect ((h * w + 1) / 2)
  len : Nat
  visited : Visited w h

variable {w h : Nat}

section Model

/-- The loop over the cells of a run, `more` cells before the end of the line: where it ends. -/
def markRun (line : Buffer Char (2 * w)) (y : Nat) :
    Nat → Nat → Visited w h → Checked Empty (Nat × Visited w h)
  | 0, x, visited => do
    let visited ← visited.store (y * w + x) true
    .ok (x + 1, visited)
  | more + 1, x, visited => do
    let visited ← visited.store (y * w + x) true
    let seen ← visited.load (y * w + (x + 1))
    if seen then .ok (x + 1, visited)
    else
      let c ← line.load ((x + 1) * 2)
      if c = '#' then markRun line y more (x + 1) visited else .ok (x + 1, visited)

/-- The loop that looks for a cell that cannot be taken, in `count` cells from `x` on. -/
def isComplete (visited : Visited w h) (line : Buffer Char (2 * w)) (y : Nat) :
    Nat → Nat → Checked Empty Bool
  | 0, _ => .ok true
  | count + 1, x => do
    let c ← line.load (x * 2)
    if c ≠ '#' then .ok false
    else
      let seen ← visited.load (y * w + x)
      if seen then .ok false else isComplete visited line y count (x + 1)

/-- The line goes on behind the rectangle; the cell looked up in `visited` is its second one. -/
def goesOnRight (visited : Visited w h) (line : Buffer Char (2 * w)) (y x endX : Nat) :
    Checked Empty Bool :=
  if endX = w then .ok false
  else do
    let seen ← visited.load (y * w + x + 1)
    if seen then .ok false
    else
      let c ← line.load (endX * 2)
      .ok (c == '#')

def goesOnLeft (visited : Visited w h) (line : Buffer Char (2 * w)) (y x : Nat) :
    Checked Empty Bool :=
  if x = 0 then .ok false
  else do
    let seen ← visited.load (y * w + x - 1)
    if seen then .ok false
    else
      let c ← line.load (x * 2 - 2)
      .ok (c == '#')

def setVisited : Nat → Nat → Visited w h → Checked Empty (Visited w h)
  | 0, _, visited => .ok visited
  | count + 1, index, visited => do
    let visited ← visited.store index true
    setVisited count (index + 1) visited

/-- The loop that extends a rectangle downwards, `more` lines before the last. -/
def extend (txt2d : Text w h) (x endX : Nat) :
    Nat → Nat → Rect → Visited w h → Checked Empty (Rect × Visited w h)
  | 0, _, rect, visited => .ok (rect, visited)
  | more + 1, y, rect, visited => do
    let line ← txt2d.load y
    let complete ← isComplete visited line y (endX - x) x
    if complete then
      let right ← goesOnRight visited line y x endX
      if right then .ok (rect, visited)
      else
        let left ← goesOnLeft visited line y x
        if left then .ok (rect, visited)
        else
          let visited ← setVisited (endX - x) (y * w + x) visited
          extend txt2d x endX more (y + 1) { rect with cy := (rect.cy + 1) % 2 ^ 16 } visited
    else .ok (rect, visited)

/-- `search_rect`: by how many cells to go on. -/
def searchRect (txt2d : Text w h) (state : State w h) (x y : Nat) :
    Checked Empty (Nat × State w h) := do
  let seen ← state.visited.load (y * w + x)
  if seen then .ok (1, state)
  else
    let line ← txt2d.load y
    let c ← line.load (x * 2)
    if c ≠ '#' then .ok (1, state)
    else
      let run ← markRun line y (w - 1 - x) x state.visited
      let rect : Rect := ⟨.ofNat 16 x, .ofNat 16 y, (run.1 - x) % 2 ^ 16, 1⟩
      let extended ← extend txt2d x run.1 (h - (y + 1)) (y + 1) rect run.2
      let rects ← state.rects.store state.len extended.1
      .ok (run.1 - x, ⟨rects, state.len + 1, extended.2⟩)

/-- The loop over a line. A step is never 0: `w` of them pass over all of the cells. -/
def scanRow (txt2d : Text w h) (y : Nat) : Nat → Nat → State w h → Checked Empty (State w h)
  | 0, _, state => .ok state
  | fuel + 1, x, state =>
    if x < w then do
      let (step, state) ← searchRect txt2d state x y
      scanRow txt2d y fuel (x + step) state
    else .ok state

def scanRows (txt2d : Text w h) : Nat → Nat → State w h → Checked Empty (State w h)
  | 0, _, state => .ok state
  | more + 1, y, state => do
    let state ← scanRow txt2d y w 0 state
    scanRows txt2d more (y + 1) state

/-- `txt2d_to_rects_impl`, with no cell visited before. -/
def txt2dToRectsImpl (txt2d : Text w h) (rects : Buffer Rect ((h * w + 1) / 2)) :
    Checked Empty (State w h) :=
  scanRows txt2d h 0 ⟨rects, 0, .filled false⟩

end Model

section Cells

/-- The cell is drawn, and in no rectangle yet. -/
def Open (txt2d : Text w h) (visited : Visited w h) (x y : Nat) : Prop :=
  (txt2d.cell y).cell (x * 2) = '#' ∧ visited.cell (y * w + x) = false

theorem cell_lt {x y : Nat} (inRow : x < w) (inText : y < h) : y * w + x < h * w := by
  calc y * w + x < y * w + w := Nat.add_lt_add_left inRow _
    _ = (y + 1) * w := (Nat.succ_mul y w).symm
    _ ≤ h * w := Nat.mul_le_mul_right w inText

/-- The cells of the columns `x` to `endX` and the lines `y` to `bottom` are visited now. -/
def Paints (before after : Visited w h) (x endX y bottom : Nat) : Prop :=
  ∀ i j, i < w → (after.cell (j * w + i) = true ↔
    ((x ≤ i ∧ i < endX) ∧ y ≤ j ∧ j < bottom) ∨ before.cell (j * w + i) = true)

theorem paints_set (visited : Visited w h) {x : Nat} (y : Nat) (inRow : x < w) :
    Paints visited (visited.set (y * w + x) true) x (x + 1) y (y + 1) := by
  intro i j column
  by_cases same : i = x ∧ j = y
  · obtain ⟨rfl, rfl⟩ := same
    rw [Buffer.cell_set_same]
    exact iff_of_true rfl (.inl ⟨⟨le_rfl, by omega⟩, le_rfl, by omega⟩)
  · rw [Buffer.cell_set_other _ _ (mt (rowMajor_eq_iff column inRow).mp same)]
    exact (or_iff_right fun inside => same ⟨by omega, by omega⟩).symm

theorem Paints.none (visited : Visited w h) (x endX y : Nat) :
    Paints visited visited x endX y y := fun _ _ _ =>
  (or_iff_right fun inside => by omega).symm

theorem Paints.right {first second third : Visited w h} {x middle endX y bottom : Nat}
    (left : Paints first second x middle y bottom)
    (right : Paints second third middle endX y bottom) (order : x ≤ middle ∧ middle ≤ endX) :
    Paints first third x endX y bottom := by
  intro i j column
  rw [right i j column, left i j column, ← or_assoc]
  exact or_congr_left (by omega)

theorem Paints.below {first second third : Visited w h} {x endX y middle bottom : Nat}
    (upper : Paints first second x endX y middle)
    (lower : Paints second third x endX middle bottom) (order : y ≤ middle ∧ middle ≤ bottom) :
    Paints first third x endX y bottom := by
  intro i j column
  rw [lower i j column, upper i j column, ← or_assoc]
  exact or_congr_left (by omega)

variable {txt2d : Text w h}

theorem Paints.open_iff {before after : Visited w h} {x endX y bottom : Nat}
    (painted : Paints before after x endX y bottom) {i j : Nat} (column : i < w) :
    Open txt2d after i j ↔
      Open txt2d before i j ∧ ¬((x ≤ i ∧ i < endX) ∧ y ≤ j ∧ j < bottom) := by
  have cell := not_congr (painted i j column)
  rw [Bool.not_eq_true, not_or, Bool.not_eq_true] at cell
  rw [Open, Open, cell]
  tauto

end Cells

section Rectangle

variable {txt2d : Text w h}

variable (txt2d) in
theorem markRun_spec (more x y : Nat) (visited : Visited w h) (inText : y < h)
    (last : x + more + 1 = w) :
    ∃ endX after, markRun (txt2d.cell y) y more x visited = .ok (endX, after) ∧
      (x < endX ∧ endX ≤ w) ∧ Paints visited after x endX y (y + 1) ∧
      (∀ i, x < i → i < endX → Open txt2d visited i y) ∧
      (endX < w → ¬Open txt2d visited endX y) := by
  induction more generalizing x visited with
  | zero =>
    have inRow : x < w := by omega
    rw [markRun, visited.store_of_lt (cell_lt inRow inText)]
    exact ⟨x + 1, _, rfl, by omega, paints_set visited y inRow, by omega, by omega⟩
  | succ more ih =>
    have inRow : x < w := by omega
    have next : x + 1 < w := by omega
    have first := paints_set visited y inRow
    have opens : ∀ i, x < i → i < w →
        (Open txt2d (visited.set (y * w + x) true) i y ↔ Open txt2d visited i y) :=
      fun i behind column => (first.open_iff column).trans (and_iff_left (by omega))
    rw [markRun, visited.store_of_lt (cell_lt inRow inText), ok_bind,
      Buffer.load_of_lt _ (cell_lt next inText), ok_bind]
    by_cases isOpen : Open txt2d (visited.set (y * w + x) true) (x + 1) y
    · rw [isOpen.2, if_neg Bool.false_ne_true, Buffer.load_of_lt _ (by omega), ok_bind,
        if_pos isOpen.1]
      obtain ⟨endX, after, run, bounds, painted, all, maximal⟩ :=
        ih (x + 1) (visited.set (y * w + x) true) (by omega)
      refine ⟨endX, after, run, by omega, first.right painted (by omega), ?_, ?_⟩
      · intro i behind inside
        rcases Nat.lt_or_ge (x + 1) i with later | here
        · exact (opens i behind (by omega)).mp (all i later inside)
        · obtain rfl : i = x + 1 := by omega
          exact (opens _ behind next).mp isOpen
      · exact fun more => mt (opens endX (by omega) more).mpr (maximal more)
    · have stops : ¬Open txt2d visited (x + 1) y := mt (opens _ (by omega) next).mpr isOpen
      refine ⟨x + 1, visited.set (y * w + x) true, ?_, by omega, first, by omega, fun _ => stops⟩
      cases seen : (visited.set (y * w + x) true).cell (y * w + (x + 1)) with
      | true => rfl
      | false =>
        rw [if_neg Bool.false_ne_true, Buffer.load_of_lt _ (by omega), ok_bind,
          if_neg fun drawn => isOpen ⟨drawn, seen⟩]

variable (txt2d) in
theorem isComplete_spec (visited : Visited w h) (count x : Nat) {y : Nat} (inText : y < h)
    (bounded : x + count ≤ w) :
    ∃ complete, isComplete visited (txt2d.cell y) y count x = .ok complete ∧
      (complete = true ↔ ∀ i, x ≤ i → i < x + count → Open txt2d visited i y) := by
  induction count generalizing x with
  | zero => exact ⟨true, rfl, iff_of_true rfl (by omega)⟩
  | succ count ih =>
    rw [isComplete, Buffer.load_of_lt _ (by omega), ok_bind]
    by_cases isOpen : Open txt2d visited x y
    · rw [if_neg (not_not.mpr isOpen.1), visited.load_of_lt (cell_lt (by omega) inText), ok_bind,
        isOpen.2, if_neg Bool.false_ne_true]
      obtain ⟨complete, done, exact'⟩ := ih (x + 1) (by omega)
      refine ⟨complete, done, exact'.trans ⟨fun all i start stop => ?_, fun all i start stop =>
        all i (by omega) (by omega)⟩⟩
      rcases Nat.eq_or_lt_of_le start with rfl | later
      · exact isOpen
      · exact all i later (by omega)
    · refine ⟨false, ?_, iff_of_false Bool.false_ne_true fun all =>
        isOpen (all x le_rfl (by omega))⟩
      by_cases drawn : (txt2d.cell y).cell (x * 2) = '#'
      · rw [if_neg (not_not.mpr drawn), visited.load_of_lt (cell_lt (by omega) inText), ok_bind,
          if_pos (Bool.not_eq_false _ ▸ fun unseen => isOpen ⟨drawn, unseen⟩)]
      · rw [if_pos drawn]

variable (txt2d) in
theorem goesOnRight_spec (visited : Visited w h) {x y endX : Nat} (inText : y < h)
    (order : x < endX ∧ endX ≤ w) :
    ∃ right, goesOnRight visited (txt2d.cell y) y x endX = .ok right ∧
      (right = true → endX = x + 1 → x + 1 < w ∧ Open txt2d visited (x + 1) y) := by
  by_cases last : endX = w
  · exact ⟨false, if_pos last, fun impossible => nomatch impossible⟩
  · have bounded : y * w + x + 1 < h * w := cell_lt (by omega : x + 1 < w) inText
    rw [goesOnRight, if_neg last, visited.load_of_lt bounded, ok_bind]
    cases seen : visited.cell (y * w + x + 1) with
    | true => exact ⟨false, rfl, fun impossible => nomatch impossible⟩
    | false =>
      rw [if_neg Bool.false_ne_true, Buffer.load_of_lt _ (by omega), ok_bind]
      refine ⟨_, rfl, fun drawn same => ?_⟩
      subst same
      exact ⟨by omega, beq_iff_eq.mp drawn, seen⟩

variable (txt2d) in
theorem goesOnLeft_spec (visited : Visited w h) {x y : Nat} (inText : y < h) (inRow : x < w) :
    ∃ left, goesOnLeft visited (txt2d.cell y) y x = .ok left ∧ (left = true → x ≠ 0) := by
  by_cases first : x = 0
  · exact ⟨false, if_pos first, fun impossible => nomatch impossible⟩
  · have bounded := cell_lt inRow inText
    rw [goesOnLeft, if_neg first, visited.load_of_lt (by omega), ok_bind]
    cases visited.cell (y * w + x - 1) with
    | true => exact ⟨false, rfl, fun impossible => nomatch impossible⟩
    | false =>
      rw [if_neg Bool.false_ne_true, Buffer.load_of_lt _ (by omega)]
      exact ⟨_, rfl, fun _ => first⟩

theorem setVisited_spec (count x y : Nat) (visited : Visited w h) (inText : y < h)
    (bounded : x + count ≤ w) :
    ∃ after, setVisited count (y * w + x) visited = .ok after ∧
      Paints visited after x (x + count) y (y + 1) := by
  induction count generalizing x visited with
  | zero => exact ⟨visited, rfl, fun _ _ _ => (or_iff_right fun inside => by omega).symm⟩
  | succ count ih =>
    have inRow : x < w := by omega
    rw [setVisited, visited.store_of_lt (cell_lt inRow inText)]
    obtain ⟨after, done, painted⟩ := ih (x + 1) (visited.set (y * w + x) true) (by omega)
    rw [Nat.add_assoc, Nat.add_comm 1 count] at painted
    exact ⟨after, done, (paints_set visited y inRow).right painted (by omega)⟩

/-- How a rectangle is extended by `count` lines from `y` on. That of the first cell of a line is
not extended where the cell right below its right neighbour is open. -/
structure Extends (txt2d : Text w h) (visited after : Visited w h) (x endX y count : Nat) :
    Prop where
  painted : Paints visited after x endX y (y + count)
  opens : ∀ i j, x ≤ i ∧ i < endX → y ≤ j ∧ j < y + count → Open txt2d visited i j
  blocked : count = 0 → x = 0 → endX = 1 → y < h → Open txt2d visited 0 y →
    1 < w ∧ Open txt2d visited 1 y

theorem extends_none (visited : Visited w h) {x endX y : Nat}
    (blocked : x = 0 → endX = 1 → y < h → Open txt2d visited 0 y →
      1 < w ∧ Open txt2d visited 1 y) : Extends txt2d visited visited x endX y 0 :=
  ⟨Paints.none visited x endX y, by omega, fun _ => blocked⟩

theorem Extends.cons {visited filled after : Visited w h} {x endX y count : Nat}
    (painted : Paints visited filled x endX y (y + 1)) (inRow : endX ≤ w)
    (opens : ∀ i, x ≤ i ∧ i < endX → Open txt2d visited i y)
    (rest : Extends txt2d filled after x endX (y + 1) count) :
    Extends txt2d visited after x endX y (count + 1) := by
  have down : y + 1 + count = y + (count + 1) := by omega
  refine ⟨painted.below (down ▸ rest.painted) (by omega), ?_, by omega⟩
  intro i j column row
  rcases Nat.eq_or_lt_of_le row.1 with rfl | later
  · exact opens i column
  · have below := rest.opens i j column ⟨later, by omega⟩
    exact ((painted.open_iff (column.2.trans_le inRow)).mp below).1

variable (txt2d) in
theorem extend_spec (x endX more y : Nat) (rect : Rect) (visited : Visited w h)
    (order : x < endX ∧ endX ≤ w) (last : y + more = h) (small : rect.cy < 2 ^ 16) :
    ∃ count after, extend txt2d x endX more y rect visited =
        .ok ({ rect with cy := (rect.cy + count) % 2 ^ 16 }, after) ∧
      count ≤ more ∧ Extends txt2d visited after x endX y count := by
  induction more generalizing y rect visited with
  | zero =>
    refine ⟨0, visited, ?_, le_rfl, extends_none visited (by omega)⟩
    rw [Nat.add_zero, Nat.mod_eq_of_lt small]
    rfl
  | succ more ih =>
    have inText : y < h := by omega
    obtain ⟨complete, tested, isComplete⟩ :=
      isComplete_spec txt2d visited (endX - x) x inText (by omega)
    obtain ⟨right, rightTested, goesRight⟩ := goesOnRight_spec txt2d visited inText order
    obtain ⟨left, leftTested, goesLeft⟩ :=
      goesOnLeft_spec txt2d visited inText (order.1.trans_le order.2)
    have stop : ∀ next, next = (.ok (rect, visited) : Checked Empty _) →
        (x = 0 → endX = 1 → y < h → Open txt2d visited 0 y → 1 < w ∧ Open txt2d visited 1 y) →
        ∃ count after, next = .ok ({ rect with cy := (rect.cy + count) % 2 ^ 16 }, after) ∧
          count ≤ more + 1 ∧ Extends txt2d visited after x endX y count := by
      intro next same blocked
      refine ⟨0, visited, ?_, Nat.zero_le _, extends_none visited blocked⟩
      rw [same, Nat.add_zero, Nat.mod_eq_of_lt small]
    rw [extend, Buffer.load_of_lt _ inText, ok_bind, tested, ok_bind, rightTested, leftTested]
    cases complete with
    | false =>
      refine stop _ (if_neg Bool.false_ne_true) fun column width _ isOpen => ?_
      refine absurd (isComplete.mpr fun i start bound => ?_) Bool.false_ne_true
      obtain rfl : i = 0 := by omega
      exact isOpen
    | true =>
      rw [if_pos rfl, ok_bind]
      cases right with
      | true =>
        refine stop _ (if_pos rfl) fun column width _ _ => ?_
        subst column
        exact goesRight rfl width
      | false =>
        rw [if_neg Bool.false_ne_true, ok_bind]
        cases left with
        | true => exact stop _ (if_pos rfl) fun column => absurd column (goesLeft rfl)
        | false =>
          obtain ⟨filled, done, painted⟩ :=
            setVisited_spec (endX - x) x y visited inText (by omega)
          rw [Nat.add_sub_of_le order.1.le] at painted
          rw [if_neg Bool.false_ne_true, done, ok_bind]
          obtain ⟨count, after, rest, few, extended⟩ := ih (y + 1)
            { rect with cy := (rect.cy + 1) % 2 ^ 16 } filled (by omega) (Nat.mod_lt _ (by omega))
          refine ⟨count + 1, after, ?_, by omega, extended.cons painted order.2 fun i column =>
            isComplete.mp rfl i column.1 (by omega)⟩
          rw [rest, Nat.mod_add_mod, Nat.add_assoc, Nat.add_comm 1 count]

/-- The cells of a rectangle, counted from the corner of the text. -/
structure Block where
  x : Nat
  y : Nat
  cx : Nat
  cy : Nat

namespace Block

def Contains (block : Block) (i j : Nat) : Prop :=
  (block.x ≤ i ∧ i < block.x + block.cx) ∧ block.y ≤ j ∧ j < block.y + block.cy

/-- The rectangle that is recorded: its numbers have 16 bits. -/
def rect (block : Block) : Rect :=
  ⟨.ofNat 16 block.x, .ofNat 16 block.y, block.cx % 2 ^ 16, block.cy % 2 ^ 16⟩

end Block

/-- A rectangle is added, of open cells, and as wide as it can be. -/
structure Adds (txt2d : Text w h) (state : State w h) (block : Block) (after : State w h) :
    Prop where
  rects : after.rects = state.rects.set state.len block.rect
  len : after.len = state.len + 1
  wide : 0 < block.cx ∧ block.x + block.cx ≤ w
  high : 0 < block.cy ∧ block.y + block.cy ≤ h
  opens : ∀ i j, block.Contains i j → Open txt2d state.visited i j
  open_iff : ∀ i j, i < w →
    (Open txt2d after.visited i j ↔ Open txt2d state.visited i j ∧ ¬block.Contains i j)
  maximal : block.x + block.cx < w → ¬Open txt2d state.visited (block.x + block.cx) block.y
  blocked : block.x = 0 → block.cx = 1 → block.y + 1 < h →
    Open txt2d after.visited 0 (block.y + 1) → 1 < w ∧ Open txt2d after.visited 1 (block.y + 1)

variable {state : State w h} {x y : Nat}

theorem searchRect_closed (inRow : x < w) (inText : y < h)
    (closed : ¬Open txt2d state.visited x y) : searchRect txt2d state x y = .ok (1, state) := by
  rw [searchRect, Buffer.load_of_lt _ (cell_lt inRow inText), ok_bind]
  cases seen : state.visited.cell (y * w + x) with
  | true => rfl
  | false =>
    rw [if_neg Bool.false_ne_true, Buffer.load_of_lt _ inText, ok_bind,
      Buffer.load_of_lt _ (by omega), ok_bind, if_pos fun drawn => closed ⟨drawn, seen⟩]

theorem searchRect_open (inRow : x < w) (inText : y < h) (isOpen : Open txt2d state.visited x y)
    (room : state.len < (h * w + 1) / 2) :
    ∃ block after, searchRect txt2d state x y = .ok (block.cx, after) ∧
      (block.x = x ∧ block.y = y) ∧ Adds txt2d state block after := by
  obtain ⟨endX, marked, run, order, first, opens, maximal⟩ :=
    markRun_spec txt2d (w - 1 - x) x y state.visited inText (by omega)
  obtain ⟨count, after, extended, few, lower⟩ := extend_spec txt2d x endX (h - (y + 1))
    (y + 1) ⟨.ofNat 16 x, .ofNat 16 y, (endX - x) % 2 ^ 16, 1⟩ marked order (by omega)
    (by change 1 < 2 ^ 16; omega)
  have right : x + (endX - x) = endX := by omega
  have painted := first.below lower.painted (by omega)
  have contains : ∀ i j, Block.Contains ⟨x, y, endX - x, 1 + count⟩ i j ↔
      (x ≤ i ∧ i < endX) ∧ y ≤ j ∧ j < y + 1 + count := by
    intro i j
    simp only [Block.Contains, right, ← Nat.add_assoc]
  refine ⟨⟨x, y, endX - x, 1 + count⟩,
    ⟨state.rects.set state.len (Block.rect ⟨x, y, endX - x, 1 + count⟩), state.len + 1, after⟩,
    ?_, ⟨rfl, rfl⟩, ?_⟩
  · rw [searchRect, Buffer.load_of_lt _ (cell_lt inRow inText), ok_bind, isOpen.2,
      if_neg Bool.false_ne_true, Buffer.load_of_lt _ inText, ok_bind,
      Buffer.load_of_lt _ (by omega), ok_bind, if_neg (not_not.mpr isOpen.1), run, ok_bind]
    dsimp only
    rw [extended, ok_bind, Buffer.store_of_lt _ room]
    rfl
  · refine ⟨rfl, rfl, by dsimp only; omega, by dsimp only; omega, ?_, ?_, ?_, ?_⟩
    · intro i j inside
      obtain ⟨column, row⟩ := (contains i j).mp inside
      rcases Nat.eq_or_lt_of_le row.1 with rfl | later
      · rcases Nat.eq_or_lt_of_le column.1 with rfl | behind
        · exact isOpen
        · exact opens i behind column.2
      · exact ((first.open_iff (by omega)).mp (lower.opens i j column ⟨later, row.2⟩)).1
    · intro i j column
      rw [contains]
      exact painted.open_iff column
    · rw [right]
      exact maximal
    · intro start width below isOpen'
      dsimp only at start width below isOpen' ⊢
      have free : count = 0 := by
        by_contra positive
        exact ((lower.painted.open_iff (by omega)).mp isOpen').2 (by omega)
      have still := (lower.painted.open_iff (by omega)).mp isOpen'
      obtain ⟨two, next⟩ := lower.blocked free start (by omega) below still.1
      exact ⟨two, (lower.painted.open_iff two).mpr ⟨next, by omega⟩⟩

end Rectangle

section Scan

variable {txt2d : Text w h} {state after : State w h} {blocks : List Block} {block : Block}

/-- What is recorded before the cell `x` of the line `y`. -/
structure Inv (txt2d : Text w h) (state : State w h) (blocks : List Block) (x y : Nat) : Prop where
  recorded : state.rects.slice 0 state.len = blocks.map Block.rect
  len : state.len = blocks.length
  inside : ∀ block ∈ blocks, (0 < block.cx ∧ block.x + block.cx ≤ w) ∧
    0 < block.cy ∧ block.y + block.cy ≤ h
  apart : blocks.Pairwise fun first second => ∀ i j, ¬(first.Contains i j ∧ second.Contains i j)
  drawn : ∀ block ∈ blocks, ∀ i j, block.Contains i j → (txt2d.cell j).cell (i * 2) = '#'
  open_iff : ∀ i j, i < w → (Open txt2d state.visited i j ↔
    (txt2d.cell j).cell (i * 2) = '#' ∧ ∀ block ∈ blocks, ¬block.Contains i j)
  scanned : ∀ i j, i < w → j < y ∨ j = y ∧ i < x → ¬Open txt2d state.visited i j

theorem Inv.start (txt2d : Text w h) (rects : Buffer Rect ((h * w + 1) / 2)) :
    Inv txt2d ⟨rects, 0, .filled false⟩ [] 0 0 where
  recorded := rfl
  len := rfl
  inside := fun _ member => absurd member List.not_mem_nil
  apart := .nil
  drawn := fun _ member => absurd member List.not_mem_nil
  open_iff := fun _ _ _ => and_congr_right' (iff_of_true rfl fun _ member =>
    absurd member List.not_mem_nil)
  scanned := by omega

theorem Inv.pass {x y : Nat} (inv : Inv txt2d state blocks x y)
    (closed : ¬Open txt2d state.visited x y) : Inv txt2d state blocks (x + 1) y where
  __ := inv
  scanned := by
    intro i j column before
    by_cases here : i = x ∧ j = y
    · obtain ⟨rfl, rfl⟩ := here
      exact closed
    · exact inv.scanned i j column (by omega)

theorem slice_set_end {β : Type} {size : Nat} (buffer : Buffer β size) (len : Nat) (value : β) :
    (buffer.set len value).slice 0 (len + 1) = buffer.slice 0 len ++ [value] := by
  rw [Buffer.slice, List.range_succ, List.map_append, List.map_singleton, Nat.zero_add,
    Buffer.cell_set_same]
  refine congrArg (· ++ [value]) (List.map_congr_left fun index member => ?_)
  have bounded := List.mem_range.mp member
  exact Buffer.cell_set_other _ _ (by omega)

theorem Inv.add {x y : Nat} (inv : Inv txt2d state blocks x y) (corner : block.x = x ∧ block.y = y)
    (adds : Adds txt2d state block after) :
    Inv txt2d after (blocks ++ [block]) (x + block.cx) y where
  recorded := by
    rw [adds.rects, adds.len, slice_set_end, inv.recorded, List.map_append, List.map_singleton]
  len := by rw [adds.len, inv.len, List.length_append, List.length_singleton]
  inside := by
    intro other member
    rcases List.mem_append.mp member with old | new
    · exact inv.inside other old
    · obtain rfl := List.mem_singleton.mp new
      exact ⟨adds.wide, adds.high⟩
  apart := by
    rw [List.pairwise_append]
    refine ⟨inv.apart, List.pairwise_singleton _ _, fun old member new same i j both => ?_⟩
    obtain rfl := List.mem_singleton.mp same
    have column : i < w := both.2.1.2.trans_le adds.wide.2
    exact ((inv.open_iff i j column).mp (adds.opens i j both.2)).2 old member both.1
  drawn := by
    intro other member i j inside
    rcases List.mem_append.mp member with old | new
    · exact inv.drawn other old i j inside
    · obtain rfl := List.mem_singleton.mp new
      exact (adds.opens i j inside).1
  open_iff := by
    intro i j column
    rw [adds.open_iff i j column, inv.open_iff i j column, and_assoc]
    refine and_congr_right' ⟨fun ⟨old, new⟩ other member => ?_, fun all =>
      ⟨fun other member => all other (List.mem_append_left _ member),
        all block (List.mem_append_right _ (List.mem_singleton_self _))⟩⟩
    rcases List.mem_append.mp member with old' | new'
    · exact old other old'
    · exact List.mem_singleton.mp new' ▸ new
  scanned := by
    intro i j column before isOpen
    obtain ⟨was, out⟩ := (adds.open_iff i j column).mp isOpen
    by_cases earlier : j < y ∨ j = y ∧ i < x
    · exact inv.scanned i j column earlier was
    · exact out ⟨by omega, by have := adds.high; omega⟩

/-- No line that begins so is full: as many rectangles as can be in a line of odd width need one
of a single cell at its start. -/
def Slack (txt2d : Text w h) (state : State w h) (y : Nat) : Prop :=
  y < h → Open txt2d state.visited 0 y → 1 < w ∧ Open txt2d state.visited 1 y

/-- How many rectangles start in a line before the cell `x`: none of them next to another. -/
structure Row (txt2d : Text w h) (state : State w h) (slack : Prop) (count x y : Nat) : Prop where
  few : 2 * count ≤ x + 1
  fewOpen : x < w → Open txt2d state.visited x y → 2 * count ≤ x
  slackFew : slack → 2 * count ≤ x
  slackOpen : slack → x < w → Open txt2d state.visited x y →
    2 * count < x ∨ x + 1 < w ∧ Open txt2d state.visited (x + 1) y
  full : 0 < count → 2 * count = x + 1 ∨ 2 * count = x ∧ x < w ∧ Open txt2d state.visited x y →
    Slack txt2d state (y + 1)

theorem Row.start (txt2d : Text w h) (state : State w h) {y : Nat} (inText : y < h) :
    Row txt2d state (Slack txt2d state y) 0 0 y where
  few := by omega
  fewOpen := by omega
  slackFew := by omega
  slackOpen := fun slack _ isOpen => .inr (slack inText isOpen)
  full := by omega

theorem Row.pass {slack : Prop} {count x y : Nat} (row : Row txt2d state slack count x y) :
    Row txt2d state slack count (x + 1) y where
  few := by have := row.few; omega
  fewOpen := by have := row.few; omega
  slackFew := fun holds => by have := row.slackFew holds; omega
  slackOpen := fun holds _ _ => .inl (by have := row.slackFew holds; omega)
  full := fun positive top => row.full positive (.inl (by have := row.few; omega))

theorem Row.add {slack : Prop} {count x y : Nat} (row : Row txt2d state slack count x y)
    (inRow : x < w) (isOpen : Open txt2d state.visited x y)
    (corner : block.x = x ∧ block.y = y) (adds : Adds txt2d state block after) :
    Row txt2d after slack (count + 1) (x + block.cx) y := by
  obtain ⟨rfl, rfl⟩ := corner
  have few := row.fewOpen inRow isOpen
  have wide := adds.wide
  have closed : block.x + block.cx < w →
      ¬Open txt2d after.visited (block.x + block.cx) block.y := fun bounded isOpen' =>
    adds.maximal bounded ((adds.open_iff _ _ bounded).mp isOpen').1
  refine ⟨by omega, fun bounded isOpen' => absurd isOpen' (closed bounded), fun holds => ?_,
    fun _ bounded isOpen' => absurd isOpen' (closed bounded), fun _ top => ?_⟩
  · -- a second open cell is in the rectangle as well
    rcases row.slackOpen holds inRow isOpen with less | ⟨bounded, next⟩
    · omega
    · by_cases single : block.cx = 1
      · exact absurd (single.symm ▸ next) (adds.maximal (by omega))
      · omega
  · have exactly : 2 * (count + 1) = block.x + block.cx + 1 := by
      rcases top with top | ⟨-, bounded, isOpen'⟩
      · exact top
      · exact absurd isOpen' (closed bounded)
    rcases Nat.eq_zero_or_pos count with rfl | positive
    · intro inText first
      exact adds.blocked (by omega) (by omega) inText first
    · -- the rectangle is right of the second column
      have before := row.full positive (.inr ⟨by omega, inRow, isOpen⟩)
      intro inText first
      obtain ⟨two, second⟩ :=
        before inText ((adds.open_iff 0 _ (by omega)).mp first).1
      refine ⟨two, (adds.open_iff 1 _ two).mpr ⟨second, fun within => ?_⟩⟩
      have := within.1.1
      omega

/-- At most half of the cells of the lines above, rounded up; rounded down, unless there is room
in the line that comes. -/
def Above (txt2d : Text w h) (state : State w h) (y : Nat) : Prop :=
  2 * state.len ≤ y * w ∨ 2 * state.len = y * w + 1 ∧ Slack txt2d state y

theorem room {start count x y : Nat} {slack : Prop} (row : Row txt2d state slack count x y)
    (above : 2 * start ≤ y * w ∨ 2 * start = y * w + 1 ∧ slack) (inRow : x < w) (inText : y < h)
    (isOpen : Open txt2d state.visited x y) : start + count < (h * w + 1) / 2 := by
  have lines := Nat.mul_le_mul_right w inText
  rw [Nat.succ_mul] at lines
  have few := row.fewOpen inRow isOpen
  rcases above with less | ⟨top, holds⟩
  · omega
  · have := row.slackOpen holds inRow isOpen
    omega

theorem scanRow_spec (y fuel x start count : Nat) {slack : Prop} (state : State w h)
    (blocks : List Block) (inText : y < h) (enough : w ≤ x + fuel)
    (inv : Inv txt2d state blocks x y) (row : Row txt2d state slack count x y)
    (above : 2 * start ≤ y * w ∨ 2 * start = y * w + 1 ∧ slack)
    (len : state.len = start + count) (bounded : x ≤ w) :
    ∃ after blocks' count', scanRow txt2d y fuel x state = .ok after ∧
      Inv txt2d after blocks' w y ∧ Row txt2d after slack count' w y ∧
      after.len = start + count' := by
  induction fuel generalizing x count state blocks with
  | zero =>
    obtain rfl : x = w := by omega
    exact ⟨state, blocks, count, rfl, inv, row, len⟩
  | succ fuel ih =>
    by_cases inRow : x < w
    · rw [scanRow, if_pos inRow]
      by_cases isOpen : Open txt2d state.visited x y
      · have free := room row above inRow inText isOpen
        obtain ⟨block, after, done, corner, adds⟩ :=
          searchRect_open inRow inText isOpen (len ▸ free)
        have wide := adds.wide
        rw [done]
        exact ih (x + block.cx) (count + 1) after (blocks ++ [block]) (by omega)
          (inv.add corner adds) (row.add inRow isOpen corner adds)
          (by rw [adds.len, len, Nat.add_assoc]) (by omega)
      · rw [searchRect_closed inRow inText isOpen]
        exact ih (x + 1) count state blocks (by omega) (inv.pass isOpen) row.pass len inRow
    · obtain rfl : x = w := by omega
      rw [scanRow, if_neg inRow]
      exact ⟨state, blocks, count, rfl, inv, row, len⟩

theorem above_next {count y : Nat} {before after : State w h}
    (row : Row txt2d after (Slack txt2d before y) count w y) (above : Above txt2d before y)
    (len : after.len = before.len + count) : Above txt2d after (y + 1) := by
  have few := row.few
  have next : (y + 1) * w = y * w + w := Nat.succ_mul y w
  rcases above with less | ⟨top, slack⟩
  · by_cases full : 2 * count = w + 1
    · by_cases tight : 2 * after.len ≤ (y + 1) * w
      · exact .inl tight
      · exact .inr ⟨by omega, row.full (by omega) (.inl full)⟩
    · exact .inl (by omega)
  · have fewer := row.slackFew slack
    refine .inl ?_
    by_contra over'
    -- the width is even, and so is the number of the cells above
    have even : 2 * count = w := by omega
    have cells : y * w = 2 * (y * count) := by rw [← even, Nat.mul_left_comm]
    omega

theorem scanRows_spec (more y : Nat) (state : State w h) (blocks : List Block) (last : y + more = h)
    (inv : Inv txt2d state blocks 0 y) (above : Above txt2d state y) :
    ∃ after blocks', scanRows txt2d more y state = .ok after ∧
      Inv txt2d after blocks' 0 h ∧ Above txt2d after h := by
  induction more generalizing y state blocks with
  | zero =>
    obtain rfl : y = h := by omega
    exact ⟨state, blocks, rfl, inv, above⟩
  | succ more ih =>
    have inText : y < h := by omega
    obtain ⟨after, blocks', count, done, inv', row, len⟩ := scanRow_spec y w 0 state.len 0 state
      blocks inText (by omega) inv (Row.start txt2d state inText) above rfl (Nat.zero_le _)
    rw [scanRows, done]
    refine ih (y + 1) after blocks' (by omega) { inv' with scanned := ?_ }
      (above_next row above len)
    exact fun i j column before => inv'.scanned i j column (by omega)

end Scan

section Picture

/-- The drawing of a text: rectangles inside of the grid, none over another, of exactly the cells
that begin with a hash sign. -/
structure Exact (txt2d : Text w h) (rects : List Rect) : Prop where
  inside : ∀ rect ∈ rects, ∀ x y, rect.area.Contains x y → (0 ≤ x ∧ x < w) ∧ 0 ≤ y ∧ y < h
  apart : rects.Pairwise fun first second =>
    ∀ x y, ¬(first.area.Contains x y ∧ second.area.Contains x y)
  covers : ∀ x y : Nat, x < w → y < h →
    ((∃ rect ∈ rects, rect.area.Contains x y) ↔ (txt2d.cell y).cell (x * 2) = '#')
  few : rects.length ≤ (h * w + 1) / 2

theorem txt2dToRectsImpl_blocks (txt2d : Text w h) (rects : Buffer Rect ((h * w + 1) / 2)) :
    ∃ after blocks, txt2dToRectsImpl txt2d rects = .ok after ∧ Inv txt2d after blocks 0 h ∧
      after.len ≤ (h * w + 1) / 2 := by
  obtain ⟨after, blocks, done, inv, above⟩ := scanRows_spec h 0 ⟨rects, 0, .filled false⟩ []
    (Nat.zero_add h) (Inv.start txt2d rects) (.inl (Nat.zero_le _))
  refine ⟨after, blocks, done, inv, ?_⟩
  rcases above with less | ⟨top, -⟩ <;> omega

theorem Block.contains_rect {block : Block} (wide : 0 < block.cx ∧ block.x + block.cx ≤ 2 ^ 15)
    (high : 0 < block.cy ∧ block.y + block.cy ≤ 2 ^ 15) (x y : Int) :
    block.rect.area.Contains x y ↔
      ∃ i j : Nat, (x = i ∧ y = j) ∧ block.Contains i j := by
  rw [Block.rect, Rect.area, Area.Contains]
  dsimp only
  rw [toInt_ofNat_small (by omega), toInt_ofNat_small (by omega),
    Nat.mod_eq_of_lt (by omega : block.cx < 2 ^ 16),
    Nat.mod_eq_of_lt (by omega : block.cy < 2 ^ 16)]
  constructor
  · intro inside
    exact ⟨x.toNat, y.toNat, ⟨by omega, by omega⟩, ⟨by omega, by omega⟩, by omega, by omega⟩
  · rintro ⟨i, j, ⟨rfl, rfl⟩, ⟨left, right⟩, top, bottom⟩
    omega

/-- Text of at most 32768 lines and columns is drawn exactly. -/
theorem txt2dToRectsImpl_exact (wide : 0 < w ∧ w ≤ 2 ^ 15) (high : 0 < h ∧ h ≤ 2 ^ 15)
    (txt2d : Text w h) (rects : Buffer Rect ((h * w + 1) / 2)) :
    ∃ after, txt2dToRectsImpl txt2d rects = .ok after ∧
      Exact txt2d (after.rects.slice 0 after.len) := by
  obtain ⟨after, blocks, done, inv, few⟩ := txt2dToRectsImpl_blocks txt2d rects
  have contains : ∀ block ∈ blocks, ∀ x y : Int, block.rect.area.Contains x y ↔
      ∃ i j : Nat, (x = i ∧ y = j) ∧ block.Contains i j := by
    intro block member
    obtain ⟨columns, lines⟩ := inv.inside block member
    exact Block.contains_rect (by omega) (by omega)
  refine ⟨after, done, ?_⟩
  rw [inv.recorded]
  refine ⟨?_, ?_, ?_, by rw [List.length_map, ← inv.len]; exact few⟩
  · intro rect member x y inside
    obtain ⟨block, among, rfl⟩ := List.mem_map.mp member
    obtain ⟨i, j, ⟨rfl, rfl⟩, column, line⟩ := (contains block among x y).mp inside
    have bounds := inv.inside block among
    omega
  · rw [List.pairwise_map]
    refine inv.apart.imp_of_mem fun {first second} member member' apart x y both => ?_
    obtain ⟨i, j, ⟨rfl, rfl⟩, inFirst⟩ := (contains first member x y).mp both.1
    obtain ⟨i', j', ⟨column, line⟩, inSecond⟩ := (contains second member' _ _).mp both.2
    obtain rfl : i = i' := by omega
    obtain rfl : j = j' := by omega
    exact apart i j ⟨inFirst, inSecond⟩
  · intro x y inRow inText
    have closed := inv.scanned x y inRow (.inl inText)
    rw [inv.open_iff x y inRow] at closed
    constructor
    · rintro ⟨rect, member, inside⟩
      obtain ⟨block, among, rfl⟩ := List.mem_map.mp member
      obtain ⟨i, j, ⟨column, line⟩, within⟩ := (contains block among x y).mp inside
      obtain rfl : x = i := by omega
      obtain rfl : y = j := by omega
      exact inv.drawn block among x y within
    · intro drawn
      by_contra uncovered
      exact closed ⟨drawn, fun block among within => uncovered ⟨block.rect,
        List.mem_map_of_mem among, (contains block among x y).mpr ⟨x, y, ⟨rfl, rfl⟩, within⟩⟩⟩

/-- A text with one cell that is drawn, the last one of its only line. -/
def lastCell (w : Nat) : Text w 1 :=
  ⟨fun _ => ⟨fun column => if column = (w - 1) * 2 then '#' else ' '⟩⟩

/-- Two blocks over two lines, and one below both of them. -/
def steps : Text 4 3 :=
  ⟨fun line => ⟨fun column =>
    if column / 2 ∈ [[0, 1, 3], [0, 1, 3], [1, 2, 3]].getD line [] then '#' else ' '⟩⟩

theorem txt2dToRectsImpl_exact_steps :
    ∃ after, txt2dToRectsImpl steps (.filled (Rect.of 0 0 0 0)) = .ok after ∧
      Exact steps (after.rects.slice 0 after.len) :=
  txt2dToRectsImpl_exact (by omega) (by omega) steps (.filled (Rect.of 0 0 0 0))

/-- The cell behind 32768 others is drawn left of the grid. -/
theorem not_exact_wide :
    ¬∀ (w h : Nat), 0 < w → 0 < h → ∀ (txt2d : Text w h) (rects : Buffer Rect ((h * w + 1) / 2)),
      ∃ after, txt2dToRectsImpl txt2d rects = .ok after ∧
        Exact txt2d (after.rects.slice 0 after.len) := by
  intro all
  obtain ⟨after, done, exact'⟩ := all 32769 1 (by omega) (by omega) (lastCell 32769)
    (.filled (Rect.of 0 0 0 0))
  obtain ⟨after', blocks, done', inv, -⟩ :=
    txt2dToRectsImpl_blocks (lastCell 32769) (.filled (Rect.of 0 0 0 0))
  obtain rfl := Except.ok.inj (done.symm.trans done')
  have drawn : ∀ i j, ((lastCell 32769).cell j).cell (i * 2) = '#' → i = 32768 := by
    intro i j isDrawn
    by_contra other
    have blank : ((lastCell 32769).cell j).cell (i * 2) = ' ' := if_neg (by omega)
    rw [blank] at isDrawn
    exact absurd isDrawn (by decide)
  obtain ⟨block, member, within⟩ : ∃ block ∈ blocks, block.Contains 32768 0 := by
    by_contra none
    refine inv.scanned 32768 0 (by omega) (.inl (by omega)) ((inv.open_iff _ _ (by omega)).mpr
      ⟨rfl, fun block member within => none ⟨block, member, within⟩⟩)
  obtain ⟨columns, lines⟩ := inv.inside block member
  have corner := drawn block.x block.y (inv.drawn block member _ _ ⟨by omega, by omega⟩)
  have same : block = ⟨32768, 0, 1, 1⟩ := by
    obtain ⟨x, y, cx, cy⟩ := block
    dsimp only at columns lines corner
    rw [Block.mk.injEq]
    omega
  have inside := exact'.inside block.rect (inv.recorded ▸ List.mem_map_of_mem member) (-32768) 0
    (same ▸ by decide)
  omega

end Picture

end Redemption.Utils.Txt2dToRects
