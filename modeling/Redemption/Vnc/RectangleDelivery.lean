import Redemption.Vnc.RawDelivery

/-! The rectangles that a server announces, and which of them `Raw` draws. -/
namespace Redemption.Vnc

open Redemption.Foundation Redemption.Utils

/-- A rectangle that the server announces: its corner, its size and the bytes of a pixel. -/
structure Announced where
  x : BitVec 16
  y : BitVec 16
  width : Nat
  height : Nat
  Bpp : Nat
  deriving DecidableEq, Repr

namespace Announced

variable (announced : Announced)

/-- What the server means by it. -/
def area : Area := ⟨announced.x.toNat, announced.y.toNat, announced.width, announced.height⟩

/-- What `FrameBufferUpdateCtx::run` makes of it. -/
def rect : Rect := Rect.of announced.x announced.y announced.width announced.height

def size : Nat := announced.width * announced.height * announced.Bpp

/-- The order draws the pixels that stand at its place in the image. -/
def PixelsOf (image : List Byte) (order : Drawn) : Prop :=
  ∀ i j : Nat, i < order.area.width → j < order.area.height →
    order.pixel i j = rawPixel image announced.width announced.Bpp
      ((order.area.left - announced.x.toNat).toNat + i)
      ((order.area.top - announced.y.toNat).toNat + j)

/-- The calls of `Raw` come to an end, with the image consumed and drawn. -/
def RawDelivered (image rest : List Byte) (arrivals : Nat → Nat) (buf : Buf64k)
    (incoming : List Byte) : Prop :=
  ∃ rounds encoder buf' unread incoming' drawn,
    feed Raw.call arrivals rounds 0 ⟨announced.Bpp, announced.rect⟩ buf incoming [] =
      .ok (.exited encoder buf' incoming' drawn) ∧
    (buf'.Holds unread ∧ unread ++ incoming' = rest) ∧
    announced.area.Partition (drawn.map Drawn.area) ∧
    ∀ order ∈ drawn, announced.PixelsOf image order

/-- The rectangles that `Raw` copes with: they are empty, or a line of them fits the buffer, and the
tiles of 32 columns and each of the lines start below `2 ^ 15`. -/
def RawFits : Prop :=
  announced.width = 0 ∨ announced.height = 0 ∨
    (announced.width * announced.Bpp ≤ 65535 ∧
      announced.x.toNat + 32 * ((announced.width - 1) / 32) < 2 ^ 15 ∧
      announced.y.toNat + (announced.height - 1) < 2 ^ 15)

end Announced

section Places

theorem toInt_add_ofNat_iff {corner : BitVec 16} {distance : Nat} (small : distance < 2 ^ 15) :
    corner.toNat ≤ (corner + BitVec.ofNat 16 distance).toInt ↔
      corner.toNat + distance < 2 ^ 15 := by
  rw [BitVec.toInt_eq_toNat_cond, BitVec.toNat_add, BitVec.toNat_ofNat]
  split <;> omega

theorem toInt_add_ofNat_eq {corner : BitVec 16} {distance : Nat}
    (small : corner.toNat + distance < 2 ^ 15) :
    (corner + BitVec.ofNat 16 distance).toInt = corner.toNat + distance := by
  rw [BitVec.toInt_eq_toNat_cond, BitVec.toNat_add, BitVec.toNat_ofNat]
  split <;> omega

variable {image : List Byte} {announced : Announced} {row column : Span} {order : Drawn}

/-- The sizes of a place that a rectangle can have, and where it stands. -/
structure Placeable (row column : Span) : Prop where
  wide : 0 < column.length ∧ column.length ≤ 32768
  high : 0 < row.length ∧ row.length ≤ 32768
  right : 0 ≤ column.start
  below : 0 ≤ row.start

theorem Shows.area_eq {width Bpp : Nat} {x y : BitVec 16} (placeable : Placeable row column)
    (shows' : Shows image width Bpp x y (row, column) order) :
    order.area = ⟨(x + BitVec.ofNat 16 column.start.toNat).toInt,
      (y + BitVec.ofNat 16 row.start.toNat).toInt, column.length, row.length⟩ := by
  obtain ⟨bmp, rfl, _⟩ := shows'
  have right := Int.toNat_of_nonneg placeable.right
  have below := Int.toNat_of_nonneg placeable.below
  simp only [Drawn.area, Rect.of_eq placeable.wide placeable.high, Rect.area]
  rw [← right, ← below, BitVec.ofInt_natCast, BitVec.ofInt_natCast, right, below]

/-- An order whose corner fits is drawn at its place, with the pixels that stand there. -/
theorem Shows.placed (placeable : Placeable row column)
    (across' : announced.x.toNat + column.start.toNat < 2 ^ 15)
    (down : announced.y.toNat + row.start.toNat < 2 ^ 15)
    (shows' : Shows image announced.width announced.Bpp announced.x announced.y (row, column)
      order) :
    order.area = Area.across (column.shift announced.x.toNat) (row.shift announced.y.toNat) ∧
      announced.PixelsOf image order := by
  have right := Int.toNat_of_nonneg placeable.right
  have below := Int.toNat_of_nonneg placeable.below
  have area := shows'.area_eq placeable
  rw [toInt_add_ofNat_eq across', toInt_add_ofNat_eq down, right, below] at area
  refine ⟨area, ?_⟩
  obtain ⟨bmp, rfl, same⟩ := shows'
  intro i j inside high
  rw [area] at inside high ⊢
  simp only [add_sub_cancel_left]
  exact same i j inside high

end Places

section Rows

variable {image rest : List Byte} {announced : Announced} {rows : List Span} {drawn : List Drawn}
  {buf : Buf64k} {incoming : List Byte}

/-- The rows and the columns of an image that a rectangle can have are placeable. -/
theorem placeable_places (wide : announced.width ≤ 32768) (high : announced.height ≤ 32768)
    (down : Span.EndToEnd 0 rows announced.height) {place : Span × Span}
    (member : place ∈ places (Span.cuts 0 32 announced.width) rows) :
    Placeable place.1 place.2 ∧ place.1 ∈ rows ∧
      place.2.start.toNat ≤ 32 * ((announced.width - 1) / 32) := by
  obtain ⟨row, isRow, isPlace⟩ := List.mem_flatMap.mp member
  obtain ⟨column, isColumn, rfl⟩ := List.mem_map.mp isPlace
  have across' := Span.endToEnd_cuts 0 announced.width (show 0 < 32 by decide)
  have inColumn := across'.inside isColumn
  have someColumn := across'.nonEmpty isColumn
  have inRow := down.inside isRow
  have someRow := down.nonEmpty isRow
  have wide' : column.length ≤ 32768 := by omega
  have high' : row.length ≤ 32768 := by omega
  refine ⟨⟨⟨someColumn, wide'⟩, ⟨someRow, high'⟩, inColumn.1, inRow.1⟩, isRow, ?_⟩
  obtain ⟨index, isIndex, rfl⟩ := List.mem_map.mp isColumn
  have inside := (Span.lt_count_iff announced.width (by decide)).mp (List.mem_range.mp isIndex)
  simp only [Span.piece]
  omega

private theorem grid_shift (columns rows : List Span) (x y : Int) :
    Area.grid (columns.map (Span.shift x)) (rows.map (Span.shift y)) =
      (places columns rows).map fun place => Area.across (place.2.shift x) (place.1.shift y) := by
  rw [Area.grid, places, List.flatMap_map, List.map_flatMap]
  simp only [List.map_map, Function.comp_def]

/-- Where every corner fits, what is drawn is the rectangle. -/
theorem Ended.delivers
    (ended : Ended image rest announced.width announced.height announced.Bpp announced.x
      announced.y 0 rows drawn buf incoming)
    (across' : announced.x.toNat + 32 * ((announced.width - 1) / 32) < 2 ^ 15)
    (down : announced.y.toNat + (announced.height - 1) < 2 ^ 15) :
    announced.area.Partition (drawn.map Drawn.area) ∧
      ∀ order ∈ drawn, announced.PixelsOf image order := by
  have rowsDown := ended.down
  have placed : List.Forall₂ (fun order place => announced.PixelsOf image order ∧
      order.area = Area.across (place.2.shift announced.x.toNat)
        (place.1.shift announced.y.toNat)) drawn
      (places (Span.cuts 0 32 announced.width) rows) := by
    apply List.Forall₂.flip
    apply ((List.forall₂_and_left _ _).mpr ⟨fun place member =>
      placeable_places (by omega) (by omega) rowsDown member, ended.shows'⟩).imp
    rintro ⟨row, column⟩ order ⟨⟨placeable, isRow, right⟩, shows'⟩
    have inRow := rowsDown.inside isRow
    have someRow := rowsDown.nonEmpty isRow
    obtain ⟨area, pixels⟩ := shows'.placed placeable (by omega) (by omega)
    exact ⟨pixels, area⟩
  obtain ⟨pixels, areas⟩ := (List.forall₂_and_left _ _).mp placed
  refine ⟨?_, pixels⟩
  have grid : drawn.map Drawn.area =
      Area.grid ((Span.cuts 0 32 announced.width).map (Span.shift announced.x.toNat))
        (rows.map (Span.shift announced.y.toNat)) := by
    rw [grid_shift, ← List.forall₂_eq_eq_eq, List.forall₂_map_left_iff,
      List.forall₂_map_right_iff]
    exact areas
  rw [grid]
  apply Area.partition_grid
  · have cut := (Span.endToEnd_cuts 0 announced.width (show 0 < 32 by decide)).shift
      announced.x.toNat
    rwa [Int.add_zero, Int.zero_add] at cut
  · have laid := rowsDown.shift announced.y.toNat
    rwa [Int.natCast_zero, Int.add_zero] at laid

end Rows

section Raw

variable {announced : Announced} {image rest : List Byte} {arrivals : Nat → Nat} {buf : Buf64k}
  {unread incoming : List Byte}

theorem Announced.rect_eq (wide : 0 < announced.width ∧ announced.width ≤ 32768)
    (high : 0 < announced.height ∧ announced.height ≤ 32768) :
    announced.rect = ⟨announced.x, announced.y, announced.width, announced.height⟩ :=
  Rect.of_eq wide high

theorem Announced.rect_isEmpty (none : announced.width = 0 ∨ announced.height = 0) :
    announced.rect.isEmpty = true := by
  unfold Announced.rect Rect.of
  rw [if_neg (by omega)]
  rfl

theorem raw_empty (empty : announced.rect.isEmpty = true) (holds : buf.Holds unread)
    {rounds : Nat} {outcome : Fed Raw Drawn}
    (ended : feed Raw.call arrivals rounds 0 ⟨announced.Bpp, announced.rect⟩ buf incoming [] =
      .ok outcome) :
    ∃ encoder buf', buf'.Holds unread ∧ outcome = .exited encoder buf' incoming [] := by
  obtain ⟨buf', held, exits⟩ := @feed_exit _ _ Raw.call arrivals 0 ⟨announced.Bpp, announced.rect⟩
    _ buf [] unread incoming [] [] holds (if_pos empty)
  exact ⟨_, buf', held, feed_agree ended (exits 0)⟩

/-- A rectangle whose lines fit the buffer is drawn in rows, wherever the orders are placed. -/
theorem raw_rows (positive : 0 < announced.Bpp) (wide : 0 < announced.width ∧ announced.width ≤ 32768)
    (high : 0 < announced.height ∧ announced.height ≤ 32768)
    (line : announced.width * announced.Bpp ≤ 65535) (size : image.length = announced.size)
    (arrive : ∀ load, 0 < arrivals load) (holds : buf.Holds unread)
    (stream : unread ++ incoming = image ++ rest) :
    ∃ rounds encoder buf' incoming' rows drawn,
      feed Raw.call arrivals rounds 0 ⟨announced.Bpp, announced.rect⟩ buf incoming [] =
        .ok (.exited encoder buf' incoming' drawn) ∧
      Ended image rest announced.width announced.height announced.Bpp announced.x announced.y 0 rows
        drawn buf' incoming' ∧
      (unread.length ≤ announced.width * announced.Bpp → (∀ load, arrivals load = 1) →
        ∀ row ∈ rows, row.length = 1) := by
  obtain ⟨rounds, encoder, buf', incoming', rows, more, ran, ended, single⟩ :=
    @feed_lines image rest announced.width announced.height announced.Bpp announced.x announced.y
      arrivals positive wide high.2 line (by rw [size, Announced.size]; ring) arrive
      (incoming.length + announced.height) 0 announced.height 0 buf unread incoming []
      (Nat.le_refl _) (Nat.zero_add _) high.1 holds (by rw [Nat.zero_mul, stream]; rfl)
  rw [BitVec.add_zero, ← Announced.rect_eq wide high] at ran
  exact ⟨rounds, encoder, buf', incoming', rows, more, ran, ended, single⟩

/-- The rectangles that fit are delivered. -/
theorem Announced.RawFits.delivered (fits : announced.RawFits) (positive : 0 < announced.Bpp)
    (size : image.length = announced.size) (arrive : ∀ load, 0 < arrivals load)
    (holds : buf.Holds unread) (stream : unread ++ incoming = image ++ rest) :
    announced.RawDelivered image rest arrivals buf incoming := by
  by_cases some' : announced.width = 0 ∨ announced.height = 0
  · have empty := Announced.rect_isEmpty some'
    have none : image = [] := by
      rw [← List.length_eq_zero_iff, size, Announced.size]
      rcases some' with none | none
      · rw [none, Nat.zero_mul, Nat.zero_mul]
      · rw [none, Nat.mul_zero, Nat.zero_mul]
    obtain ⟨buf', held, exits⟩ := @feed_exit _ _ Raw.call arrivals 0
      ⟨announced.Bpp, announced.rect⟩ _ buf [] unread incoming [] [] holds (if_pos empty)
    refine ⟨1, _, buf', unread, incoming, [], exits 0, ⟨held, by rw [stream, none]; rfl⟩, ?_, ?_⟩
    · refine ⟨nofun, ?_, .nil⟩
      intro x y ⟨⟨left, right⟩, top, bottom⟩
      simp only [Announced.area] at left right top bottom
      omega
    · nofun
  · have corners : announced.width * announced.Bpp ≤ 65535 ∧
        announced.x.toNat + 32 * ((announced.width - 1) / 32) < 2 ^ 15 ∧
        announced.y.toNat + (announced.height - 1) < 2 ^ 15 := by
      rcases fits with none | none | corners
      · exact absurd (.inl none) some'
      · exact absurd (.inr none) some'
      · exact corners
    obtain ⟨line, across', down⟩ := corners
    have wide : 0 < announced.width ∧ announced.width ≤ 32768 := by omega
    have high : 0 < announced.height ∧ announced.height ≤ 32768 := by omega
    obtain ⟨rounds, encoder, buf', incoming', rows, drawn, ran, ended, _⟩ :=
      raw_rows positive wide high line size arrive holds stream
    obtain ⟨behind, held, consumed⟩ := ended.consumed
    exact ⟨rounds, encoder, buf', behind, incoming', drawn, ran, ⟨held, consumed⟩,
      ended.delivers across' down⟩

private theorem exists_related {α β : Type} {related : α → β → Prop} {items : List α}
    {values : List β} (each : List.Forall₂ related items values) {item : α}
    (member : item ∈ items) : ∃ value ∈ values, related item value := by
  obtain ⟨index, bounded, rfl⟩ := List.getElem_of_mem member
  exact ⟨_, List.getElem_mem _, each.get bounded (by rwa [← each.length_eq])⟩

/-- Of lines that are drawn one by one, the last tile of the last one tells whether they are in their
places. -/
theorem raw_corners {rows : List Span} {drawn : List Drawn} {incoming : List Byte}
    (wide : 0 < announced.width ∧ announced.width ≤ 32768)
    (high : 0 < announced.height ∧ announced.height ≤ 32768)
    (ended : Ended image rest announced.width announced.height announced.Bpp announced.x
      announced.y 0 rows drawn buf incoming)
    (single : ∀ row ∈ rows, row.length = 1)
    (inside : announced.area.Partition (drawn.map Drawn.area)) :
    announced.x.toNat + 32 * ((announced.width - 1) / 32) < 2 ^ 15 ∧
      announced.y.toNat + (announced.height - 1) < 2 ^ 15 := by
  obtain ⟨row, isRow, above, below⟩ := ended.down.covers (by omega : (0 : Int) ≤
    ((announced.height - 1 : Nat) : Int)) (by omega)
  have last := single row isRow
  have start : row.start.toNat = announced.height - 1 := by omega
  have isColumn : Span.piece 0 32 announced.width ((announced.width - 1) / 32) ∈
      Span.cuts 0 32 announced.width := by
    apply List.mem_map_of_mem
    rw [List.mem_range, Span.lt_count_iff _ (by decide)]
    omega
  have isPlace : (row, Span.piece 0 32 announced.width ((announced.width - 1) / 32)) ∈
      places (Span.cuts 0 32 announced.width) rows :=
    List.mem_flatMap.mpr ⟨row, isRow, List.mem_map_of_mem isColumn⟩
  obtain ⟨placeable, _, _⟩ := placeable_places wide.2 high.2 ended.down isPlace
  obtain ⟨order, isOrder, shows'⟩ := exists_related ended.shows' isPlace
  have area := shows'.area_eq placeable
  have corner : (Span.piece 0 32 announced.width ((announced.width - 1) / 32)).start.toNat =
      32 * ((announced.width - 1) / 32) := by
    simp only [Span.piece, Int.zero_add, Int.toNat_natCast]
  rw [start, corner] at area
  obtain ⟨⟨left, _⟩, top, _⟩ := inside.inside _ (List.mem_map_of_mem isOrder) order.area.left
    order.area.top (by
      rw [area]
      exact ⟨⟨Int.le_refl _, Int.lt_add_of_pos_right _ (Int.natCast_pos.mpr placeable.wide.1)⟩,
        Int.le_refl _, Int.lt_add_of_pos_right _ (Int.natCast_pos.mpr placeable.high.1)⟩)
  rw [area] at left top
  exact ⟨(toInt_add_ofNat_iff (by omega)).mp left, (toInt_add_ofNat_iff (by omega)).mp top⟩

/-- A rectangle that is delivered, line by line, fits. -/
theorem Announced.RawDelivered.fits (positive : 0 < announced.Bpp)
    (size : image.length = announced.size) (one : ∀ load, arrivals load = 1) (holds : buf.Holds [])
    (delivered : announced.RawDelivered image rest arrivals buf (image ++ rest)) :
    announced.RawFits := by
  by_cases none : announced.width = 0 ∨ announced.height = 0
  · rcases none with none | none
    · exact .inl none
    · exact .inr (.inl none)
  obtain ⟨rounds, encoder, buf', behind, incoming', drawn, ran, ⟨held, consumed⟩, inside, _⟩ :=
    delivered
  have some' : 0 < image.length := by
    rw [size, Announced.size]
    exact Nat.mul_pos (Nat.mul_pos (by omega) (by omega)) positive
  have full : announced.rect.isEmpty = false := by
    by_contra empty
    rw [Bool.not_eq_false] at empty
    obtain ⟨_, same, nothing, outcome⟩ := raw_empty empty holds ran
    obtain ⟨rfl, rfl, rfl, rfl⟩ := Fed.exited.inj outcome
    have unread := congrArg List.length consumed
    rw [held.unique nothing, List.nil_append, List.length_append] at unread
    omega
  obtain ⟨⟨wide, high⟩, rect⟩ := Rect.of_nonEmpty full
  have line : announced.width * announced.Bpp ≤ 65535 := by
    by_contra long
    rw [Announced.rect, rect] at ran
    exact feed_wide wide.1 high.1 (by omega) rounds holds ran
  have arrive : ∀ load, 0 < arrivals load := by
    intro load
    rw [one]
    exact Nat.one_pos
  obtain ⟨_, _, _, _, rows, _, ran', ended, single⟩ :=
    raw_rows positive wide high line size arrive holds rfl
  obtain ⟨rfl, rfl, rfl, rfl⟩ := Fed.exited.inj (feed_agree ran ran')
  exact .inr (.inr ⟨line, raw_corners wide high ended (single (Nat.zero_le _) one) inside⟩)

end Raw

end Redemption.Vnc
