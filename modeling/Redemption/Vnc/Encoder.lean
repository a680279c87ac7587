import Redemption.Foundation.Sound
import Redemption.Utils.Rect

/-! What the encoders of VNC rectangles have in common: their answers, the loop that calls
them, and the walk over the tiles of a rectangle. -/
namespace Redemption.Vnc

open Redemption.Foundation Redemption.Utils

/-- The errors that an encoder throws; `unfinished` is none of them, but a loop that has not
ended in the number of rounds it is followed for. -/
inductive VncError where
  | zrleProtocol
  | hextileProtocol
  | bufferTooSmall
  | lengthError
  | unfinished
  deriving DecidableEq, Repr

/-- The number that bytes stand for, the highest first. -/
def beValue (bytes : List Byte) : Nat := leValue bytes.reverse

inductive EncoderState where
  | ready
  | needMoreData
  | exit
  deriving DecidableEq, Repr

/-- A drawing order: a copy of the whole bitmap to a place, or a rectangle of one colour. -/
inductive Drawn where
  | memBlt (rect : Rect) (bmp : Bitmap)
  | opaqueRect (rect : Rect) (color : Nat)
  deriving DecidableEq, Repr

namespace Drawn

/-- The pixels that an order draws on. -/
def area : Drawn → Area
  | memBlt rect _ => rect.area
  | opaqueRect rect _ => rect.area

/-- The pixel it draws `x` to the right of the corner and `y` below it. -/
def pixel : Drawn → Nat → Nat → Nat
  | memBlt _ bmp, x, y => bmp.pixel x y
  | opaqueRect _ color, _, _ => color

end Drawn

/-- `draw_tile` of `Zrle` and of `Hextile`. -/
def drawTile (Bpp : Nat) (tile : Rect) (raw : List Byte) : Checked VncError Drawn := do
  let bmp ← Bitmap.ofRaw raw tile.cx Bpp 0 0 tile.cx tile.cy
  return .memBlt tile bmp

theorem drawTile_sound {Bpp : Nat} {tile : Rect} {raw : List Byte}
    (room : tile.cx * tile.cy * Bpp ≤ raw.length) :
    Sound (drawTile Bpp tile raw) fun _ => True := by
  obtain ⟨bmp, copied, _⟩ := @Bitmap.ofRaw_ok VncError raw tile.cx Bpp 0 0 tile.cx tile.cy
    (by omega) (by rwa [Nat.zero_add])
  rw [drawTile, copied]
  exact sound_ok trivial

/-- A product of `int`s that is used as a `size_t`: it wraps around at 32 bits, and its sign is
extended to 64. -/
def sizeOfInt (product : Nat) : Nat := ((BitVec.ofNat 32 product).signExtend 64).toNat

theorem sizeOfInt_eq {product : Nat} (fits : product < 2 ^ 31) : sizeOfInt product = product := by
  have value : (BitVec.ofNat 32 product).toNat = product := by
    rw [BitVec.toNat_ofNat]
    omega
  have positive : (BitVec.ofNat 32 product).msb = false := by
    rw [BitVec.msb_eq_decide, value]
    simpa using fits
  rw [sizeOfInt, BitVec.signExtend_eq_setWidth_of_msb_false positive, BitVec.toNat_setWidth, value]
  omega

/-- What a call of an encoder gives back. -/
structure Answer (σ ο : Type) where
  state : EncoderState
  encoder : σ
  buf : List Byte
  drawn : List ο

/-- `operator()` of an encoder, with what is unread in its buffer. -/
abbrev Encoder (σ ο : Type) := σ → List Byte → Checked VncError (Answer σ ο)

/-- Where the calls end; `finished` says whether the encoder has answered `Exit`. -/
structure Outcome (σ ο : Type) where
  finished : Bool
  encoder : σ
  buf : List Byte
  unread : List (List Byte)
  drawn : List ο

/-- The `State::Data` of `FrameBufferUpdateCtx::run`: the encoder is called until it exits, and
what is received next is put into the buffer where it asks for more. -/
def drive {σ ο : Type} (call : Encoder σ ο) :
    Nat → σ → List Byte → List (List Byte) → List ο → Checked VncError (Outcome σ ο)
  | 0, _, _, _, _ => .error (.raised .unfinished)
  | fuel + 1, encoder, buf, chunks, drawn => do
    let answer ← call encoder buf
    match answer.state, chunks with
    | .ready, _ =>
      drive call fuel answer.encoder answer.buf chunks (drawn ++ answer.drawn)
    | .exit, _ => .ok ⟨true, answer.encoder, answer.buf, chunks, drawn ++ answer.drawn⟩
    | .needMoreData, [] => .ok ⟨false, answer.encoder, answer.buf, [], drawn ++ answer.drawn⟩
    | .needMoreData, chunk :: chunks =>
      drive call fuel answer.encoder (answer.buf ++ chunk) chunks (drawn ++ answer.drawn)

/-- The walk over the tiles of `r`: the current tile, and what remains from its corner on. -/
structure TileWalk where
  r : Rect
  tile : Rect
  cxRemain : Nat
  cyRemain : Nat
  deriving DecidableEq, Repr

namespace TileWalk

/-- What the constructors of `Zrle` and `Hextile` start with. -/
def start (side : Nat) (r : Rect) : TileWalk where
  r := r
  tile := Rect.of r.x r.y (min r.cx side) (min r.cy side)
  cxRemain := r.cx
  cyRemain := r.cy

/-- `next_tile`; there is none behind the last. -/
def nextTile (side : Nat) (walk : TileWalk) : Option TileWalk :=
  if walk.cxRemain ≤ side then
    if walk.cyRemain ≤ side then none
    else some { walk with
      cxRemain := walk.r.cx
      cyRemain := walk.cyRemain - side
      tile := Rect.of walk.r.x (walk.tile.y + BitVec.ofNat 16 side)
        (min side walk.r.cx) (min side (walk.cyRemain - side)) }
  else some { walk with
    cxRemain := walk.cxRemain - side
    tile := { walk.tile with
      x := walk.tile.x + BitVec.ofNat 16 side
      cx := min side (walk.cxRemain - side) } }

open TileGrid

/-- The walk has reached the tile of an index. -/
structure At (side : Nat) (r : Rect) (index : Nat) (walk : TileWalk) : Prop where
  whole : walk.r = r
  left : walk.tile.x = r.x + BitVec.ofNat 16 (side * (index % columns side r.area))
  top : walk.tile.y = r.y + BitVec.ofNat 16 (side * (index / columns side r.area))
  width : walk.tile.cx = min side (r.cx - side * (index % columns side r.area))
  height : walk.tile.cy = min side (r.cy - side * (index / columns side r.area))
  cxRemain : walk.cxRemain = r.cx - side * (index % columns side r.area)
  cyRemain : walk.cyRemain = r.cy - side * (index / columns side r.area)

variable {side index : Nat} {r : Rect} {walk : TileWalk}

theorem at_start (positive : 0 < side) (small : side ≤ 32768) (wide : 0 < r.cx)
    (high : 0 < r.cy) : At side r 0 (start side r) := by
  have tile : (start side r).tile = ⟨r.x, r.y, min side r.cx, min side r.cy⟩ := by
    rw [start, Nat.min_comm r.cx, Nat.min_comm r.cy]
    exact Rect.of_eq (by omega) (by omega)
  constructor
  · rfl
  · simp [tile]
  · simp [tile]
  · simp [tile]
  · simp [tile]
  · simp [start]
  · simp [start]

theorem At.tile_pos (at' : At side r index walk) (positive : 0 < side)
    (bounded : index < count side r.area) :
    (0 < walk.tile.cx ∧ walk.tile.cx ≤ side) ∧ 0 < walk.tile.cy ∧ walk.tile.cy ≤ side := by
  have column := column_inside positive bounded
  have row := row_inside positive bounded
  simp only [Rect.area] at column row
  rw [at'.width, at'.height]
  simp only [Rect.area]
  omega

private theorem At.right (at' : At side r index walk) (positive : 0 < side)
    (more : index % columns side r.area + 1 < columns side r.area) :
    ∃ next, walk.nextTile side = some next ∧ At side r (index + 1) next := by
  have inside := (lt_columns_iff positive).mp more
  obtain ⟨column, row⟩ := next_column more
  have wide : r.area.width = r.cx := rfl
  have remains : ¬walk.cxRemain ≤ side := by
    rw [at'.cxRemain]
    rw [Nat.mul_add] at inside
    omega
  refine ⟨_, by rw [nextTile, if_neg remains], ?_⟩
  have step : walk.cxRemain - side =
      r.cx - side * (index % columns side r.area + 1) := by
    rw [at'.cxRemain, Nat.mul_add]
    omega
  constructor
  · exact at'.whole
  · simp only [at'.left, column, Nat.mul_add, Nat.mul_one, BitVec.ofNat_add, BitVec.add_assoc]
  · simpa only [row] using at'.top
  · simp only [column, step]
  · simpa only [row] using at'.height
  · simp only [column, step]
  · simpa only [row] using at'.cyRemain

private theorem At.down (at' : At side r index walk) (positive : 0 < side) (small : side ≤ 32768)
    (last : index % columns side r.area + 1 = columns side r.area)
    (more : index / columns side r.area + 1 < rows side r.area) :
    ∃ next, walk.nextTile side = some next ∧ At side r (index + 1) next := by
  have wide : r.area.width = r.cx := rfl
  have high : r.area.height = r.cy := rfl
  have inside := (lt_rows_iff positive).mp more
  have noMore : ¬side * (index % columns side r.area + 1) < r.area.width := by
    rw [← lt_columns_iff positive]
    omega
  have some' : side * 0 < r.area.width := (lt_columns_iff positive).mp (by omega)
  obtain ⟨column, row⟩ := next_row last
  rw [Nat.mul_add] at inside noMore
  have ends : walk.cxRemain ≤ side := by
    rw [at'.cxRemain]
    omega
  have remains : ¬walk.cyRemain ≤ side := by
    rw [at'.cyRemain]
    omega
  have step : walk.cyRemain - side = r.cy - side * (index / columns side r.area + 1) := by
    rw [at'.cyRemain, Nat.mul_add]
    omega
  have rect : Rect.of walk.r.x (walk.tile.y + BitVec.ofNat 16 side) (min side walk.r.cx)
      (min side (walk.cyRemain - side)) =
      ⟨walk.r.x, walk.tile.y + BitVec.ofNat 16 side, min side walk.r.cx,
        min side (walk.cyRemain - side)⟩ := by
    apply Rect.of_eq
    · rw [at'.whole]
      omega
    · omega
  refine ⟨_, by rw [nextTile, if_pos ends, if_neg remains, rect], ?_⟩
  constructor
  · exact at'.whole
  · simp [at'.whole, column]
  · simp only [at'.top, row, Nat.mul_add, Nat.mul_one, BitVec.ofNat_add, BitVec.add_assoc]
  · simp [at'.whole, column]
  · simp only [row, step]
  · simp [at'.whole, column]
  · simp only [row, step]

theorem At.next (at' : At side r index walk) (positive : 0 < side) (small : side ≤ 32768)
    (bounded : index < count side r.area) :
    (index + 1 < count side r.area ∧
      ∃ next, walk.nextTile side = some next ∧ At side r (index + 1) next) ∨
    (index + 1 = count side r.area ∧ walk.nextTile side = none) := by
  have column := column_lt bounded
  by_cases more : index % columns side r.area + 1 < columns side r.area
  · exact .inl ⟨next_lt_count bounded more, at'.right positive more⟩
  · have last : index % columns side r.area + 1 = columns side r.area := by omega
    by_cases lower : index / columns side r.area + 1 < rows side r.area
    · exact .inl ⟨(next_lt_count_iff last).mpr lower, at'.down positive small last lower⟩
    · have noMore : ¬side * (index % columns side r.area + 1) < r.cx := by
        intro inside
        exact more ((lt_columns_iff positive).mpr inside)
      have noLower : ¬side * (index / columns side r.area + 1) < r.cy := by
        intro inside
        exact lower ((lt_rows_iff positive).mpr inside)
      rw [Nat.mul_add] at noMore noLower
      have whole : index + 1 = count side r.area := by
        have := mt (next_lt_count_iff last).mp lower
        omega
      refine .inr ⟨whole, ?_⟩
      rw [nextTile, if_pos (by rw [at'.cxRemain]; omega), if_pos (by rw [at'.cyRemain]; omega)]

/-- A tile is no larger than its side. -/
def Bounded (side : Nat) (walk : TileWalk) : Prop := walk.tile.cx ≤ side ∧ walk.tile.cy ≤ side

private theorem of_le {left top : BitVec 16} {width height : Nat} (wide : width ≤ side)
    (high : height ≤ side) :
    (Rect.of left top width height).cx ≤ side ∧ (Rect.of left top width height).cy ≤ side := by
  unfold Rect.of
  split
  · exact ⟨wide, high⟩
  · exact ⟨Nat.zero_le _, Nat.zero_le _⟩

theorem bounded_start (side : Nat) (r : Rect) : Bounded side (start side r) :=
  of_le (Nat.min_le_right _ _) (Nat.min_le_right _ _)

theorem Bounded.next (bounded : Bounded side walk) {next : TileWalk}
    (stepped : walk.nextTile side = some next) : Bounded side next := by
  unfold nextTile at stepped
  split at stepped
  · split at stepped
    · cases stepped
    · cases stepped
      exact of_le (Nat.min_le_left _ _) (Nat.min_le_left _ _)
  · cases stepped
    exact ⟨Nat.min_le_left _ _, bounded.2⟩

theorem count_of_isEmpty (positive : 0 < side) (empty : r.isEmpty = true) :
    count side r.area = 0 := by
  have last : (side - 1) / side = 0 := Nat.div_eq_of_lt (by omega)
  have none : r.cx = 0 ∨ r.cy = 0 := by simpa [Rect.isEmpty] using empty
  rcases none with none | none
  · rw [count, columns, Rect.area, none, Nat.zero_add, last, Nat.zero_mul]
  · rw [count, rows, Rect.area, none, Nat.zero_add, last, Nat.mul_zero]

/-- The corner of every tile has coordinates of 16 bits. -/
structure Fits (side : Nat) (r : Rect) : Prop where
  right : r.x.toInt + (side * ((r.cx - 1) / side) : Nat) ≤ 32767
  bottom : r.y.toInt + (side * ((r.cy - 1) / side) : Nat) ≤ 32767

private theorem toInt_add_ofNat {start : BitVec 16} {offset : Nat}
    (fits : start.toInt + offset ≤ 32767) :
    (start + BitVec.ofNat 16 offset).toInt = start.toInt + offset := by
  have lower := BitVec.le_toInt start
  rw [BitVec.toInt_add, BitVec.toInt_ofNat', Int.add_bmod_bmod]
  apply Int.bmod_eq_of_le <;> omega

private theorem piece_le {length piece : Nat} (positive : 0 < side)
    (inside : side * piece < length) : side * piece ≤ side * ((length - 1) / side) := by
  apply Nat.mul_le_mul_left
  rw [Nat.le_div_iff_mul_le positive, Nat.mul_comm]
  omega

/-- Where no coordinate wraps around, the tile reached is the tile of the grid. -/
theorem At.area_eq (at' : At side r index walk) (positive : 0 < side)
    (bounded : index < count side r.area) (fits : Fits side r) :
    walk.tile.area = TileGrid.tile side r.area index := by
  have column := piece_le positive (column_inside positive bounded)
  have row := piece_le positive (row_inside positive bounded)
  have wide : r.area.width = r.cx := rfl
  have high : r.area.height = r.cy := rfl
  have right := fits.right
  have bottom := fits.bottom
  rw [wide] at column
  rw [high] at row
  rw [Rect.area, TileGrid.tile, at'.left, at'.top, at'.width, at'.height,
    toInt_add_ofNat (by omega), toInt_add_ofNat (by omega)]
  simp [Rect.area]

end TileWalk

end Redemption.Vnc
