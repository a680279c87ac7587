import Mathlib.Data.List.Forall2
import Redemption.Foundation.Spans
import Redemption.Vnc.Buf64k
import Redemption.Vnc.Cursor
import Redemption.Vnc.Rre

/-! What the `Raw` encoder and the `Cursor` encoder do with the bytes of a rectangle, however they
arrive in the buffer. -/
namespace Redemption.Vnc

open Redemption.Foundation Redemption.Utils

/-- Places of a grid, row by row. -/
def places (columns rows : List Span) : List (Span × Span) :=
  rows.flatMap fun row => columns.map fun column => (row, column)

/-- The order that draws the part of a row and a column of an image whose corner is at `x` and `y`,
with the pixels that stand there in the image. -/
def Shows (image : List Byte) (width Bpp : Nat) (x y : BitVec 16) (place : Span × Span)
    (order : Drawn) : Prop :=
  ∃ bmp, order = .memBlt (Rect.of (x + BitVec.ofInt 16 place.2.start)
      (y + BitVec.ofInt 16 place.1.start) place.2.length place.1.length) bmp ∧
    ∀ i j, i < place.2.length → j < place.1.length →
      bmp.pixel i j = rawPixel image width Bpp (place.2.start.toNat + i) (place.1.start.toNat + j)

section Tiles

variable {Bpp : Nat} {rect : Rect} {raw : List Byte}

/-- The tiles of `draw_tile` show the parts of the rectangle that they are placed on. -/
theorem drawTiles_ok (room : rect.cx * rect.cy * Bpp ≤ raw.length) :
    ∃ drawn, drawTiles Bpp rect raw = .ok drawn ∧
      List.Forall₂ (Shows raw rect.cx Bpp rect.x rect.y)
        (places (Span.cuts 0 32 rect.cx) (Span.cuts 0 32 rect.cy)) drawn := by
  have part : ∀ row column, 32 * row < rect.cy → 32 * column < rect.cx →
      ∃ order, drawPart Bpp rect raw (32 * row) (32 * column) = .ok order ∧
        Shows raw rect.cx Bpp rect.x rect.y
          (Span.piece 0 32 rect.cy row, Span.piece 0 32 rect.cx column) order := by
    intro row column high wide
    have enough : rect.cx * (32 * row + min 32 (rect.cy - 32 * row)) * Bpp ≤ raw.length :=
      Nat.le_trans (Nat.mul_le_mul_right _ (Nat.mul_le_mul_left _ (by omega))) room
    obtain ⟨bmp, copied, same⟩ := @Bitmap.ofRaw_ok VncError raw rect.cx Bpp (32 * column)
      (32 * row) (min 32 (rect.cx - 32 * column)) (min 32 (rect.cy - 32 * row)) (by omega) enough
    refine ⟨_, by rw [drawPart, copied]; rfl, bmp, ?_, ?_⟩
    · simp only [Span.piece, Int.zero_add, BitVec.ofInt_natCast]
    · intro i j inside below
      simpa only [Span.piece, Int.zero_add, Int.toNat_natCast] using same i j inside below
  have rows : ∀ row ∈ List.range ((rect.cy + 31) / 32), ∃ line,
      ((List.range ((rect.cx + 31) / 32)).mapM fun column =>
        drawPart Bpp rect raw (32 * row) (32 * column)) = .ok line ∧
        List.Forall₂ (Shows raw rect.cx Bpp rect.x rect.y)
          ((Span.cuts 0 32 rect.cx).map fun column => (Span.piece 0 32 rect.cy row, column))
          line := by
    intro row isRow
    have high := List.mem_range.mp isRow
    obtain ⟨line, ran, shows'⟩ := mapM_related
      fun column (isColumn : column ∈ List.range ((rect.cx + 31) / 32)) =>
        part row column (by omega) (by have := List.mem_range.mp isColumn; omega)
    refine ⟨line, ran, ?_⟩
    rw [Span.cuts, List.map_map, List.forall₂_map_left_iff]
    exact shows'
  obtain ⟨lines, ran, shows'⟩ := mapM_related rows
  refine ⟨lines.flatten, by rw [drawTiles, ran]; rfl, ?_⟩
  generalize Span.cuts 0 32 rect.cx = columns at shows' ⊢
  rw [places, Span.cuts, List.flatMap_map, List.flatMap_def]
  exact List.rel_flatten (List.forall₂_map_left_iff.mpr shows')

end Tiles

section Lines

variable {image rest : List Byte} {width Bpp : Nat} {x y : BitVec 16}

private theorem rawPixel_part {first lines i j : Nat} (inside : i < width) (below : j < lines) :
    rawPixel ((image.drop (first * (width * Bpp))).take (lines * (width * Bpp))) width Bpp i j =
      rawPixel image width Bpp i (first + j) := by
  have within : (j * width + i) * Bpp + Bpp ≤ lines * (width * Bpp) := by
    calc (j * width + i) * Bpp + Bpp = (j * width + i + 1) * Bpp := by rw [Nat.add_mul _ 1, Nat.one_mul]
      _ ≤ lines * width * Bpp := by
        apply Nat.mul_le_mul_right
        calc j * width + i + 1 ≤ j * width + width := by omega
          _ = (j + 1) * width := by rw [Nat.add_mul, Nat.one_mul]
          _ ≤ lines * width := Nat.mul_le_mul_right _ below
      _ = lines * (width * Bpp) := Nat.mul_assoc _ _ _
  have place : first * (width * Bpp) + (j * width + i) * Bpp = ((first + j) * width + i) * Bpp := by
    ring
  rw [rawPixel, rawPixel, List.drop_take, List.take_take, Nat.min_eq_left (by omega),
    List.drop_drop, place]

private theorem Shows.lower {first lines : Nat} {row column : Span} {order : Drawn}
    (shows' : Shows ((image.drop (first * (width * Bpp))).take (lines * (width * Bpp))) width Bpp x
      (y + BitVec.ofNat 16 first) (row, column) order)
    (within : 0 ≤ row.start ∧ row.start + row.length ≤ lines)
    (within' : 0 ≤ column.start ∧ column.start + column.length ≤ width) :
    Shows image width Bpp x y (row.shift first, column) order := by
  obtain ⟨bmp, rfl, same⟩ := shows'
  refine ⟨bmp, ?_, ?_⟩
  · simp only [Span.shift, BitVec.ofInt_add, BitVec.ofInt_natCast, BitVec.add_assoc]
  · intro i j inside below
    simp only [Span.shift] at inside below same ⊢
    have line : (first + row.start).toNat = first + row.start.toNat := by omega
    rw [same i j inside below, rawPixel_part (by omega) (by omega), line, Nat.add_assoc]

/-- The orders of some lines, as parts of the whole image. -/
private theorem shows_lines {first lines : Nat} {orders : List Drawn}
    (shows' : List.Forall₂ (Shows ((image.drop (first * (width * Bpp))).take
        (lines * (width * Bpp))) width Bpp x (y + BitVec.ofNat 16 first))
      (places (Span.cuts 0 32 width) (Span.cuts 0 32 lines)) orders) :
    List.Forall₂ (Shows image width Bpp x y)
      (places (Span.cuts 0 32 width) (Span.cuts first 32 lines)) orders := by
  have across' := Span.endToEnd_cuts 0 width (show 0 < 32 by decide)
  have down := Span.endToEnd_cuts 0 lines (show 0 < 32 by decide)
  have same : places (Span.cuts 0 32 width) (Span.cuts first 32 lines) =
      (places (Span.cuts 0 32 width) (Span.cuts 0 32 lines)).map
        fun place => (place.1.shift first, place.2) := by
    rw [← Span.cuts_shift first, places, places, List.flatMap_map, List.map_flatMap]
    simp only [List.map_map, Function.comp_def]
  have within : ∀ place ∈ places (Span.cuts 0 32 width) (Span.cuts 0 32 lines),
      (0 ≤ place.1.start ∧ place.1.start + place.1.length ≤ lines) ∧
        0 ≤ place.2.start ∧ place.2.start + place.2.length ≤ width := by
    intro place member
    obtain ⟨row, isRow, isPlace⟩ := List.mem_flatMap.mp member
    obtain ⟨column, isColumn, rfl⟩ := List.mem_map.mp isPlace
    have inRow := down.inside isRow
    have inColumn := across'.inside isColumn
    rw [Int.zero_add] at inRow inColumn
    exact ⟨inRow, inColumn⟩
  rw [same, List.forall₂_map_left_iff]
  apply ((List.forall₂_and_left _ _).mpr ⟨within, shows'⟩).imp
  rintro ⟨row, column⟩ order ⟨inside, shows''⟩
  exact shows''.lower inside.1 inside.2

end Lines

namespace Raw

variable {Bpp width lines : Nat} {x y : BitVec 16} {unread : List Byte}

theorem call_short (wide : 0 < width) (some' : 0 < lines) (short : unread.length < width * Bpp) :
    call ⟨Bpp, ⟨x, y, width, lines⟩⟩ unread =
      .ok ⟨.needMoreData, ⟨Bpp, ⟨x, y, width, lines⟩⟩, unread, []⟩ := by
  have full : (⟨x, y, width, lines⟩ : Rect).isEmpty = false := Rect.isEmpty_eq_false.mpr ⟨wide, some'⟩
  unfold call
  simp only [full, Bool.false_eq_true, if_false, if_pos short]

/-- With a line in the buffer, all the lines that are there are drawn and consumed. -/
theorem call_lines (positive : 0 < Bpp) (wide : 0 < width ∧ width ≤ 32768)
    (some' : 0 < lines ∧ lines ≤ 32768) (enough : width * Bpp ≤ unread.length) :
    ∃ count drawn, (0 < count ∧ count ≤ lines) ∧ count * (width * Bpp) ≤ unread.length ∧
      (unread.length ≤ width * Bpp → count = 1) ∧
      call ⟨Bpp, ⟨x, y, width, lines⟩⟩ unread = .ok ⟨if lines - count = 0 then .exit else .ready,
        ⟨Bpp, ⟨x, y + BitVec.ofNat 16 count, width, lines - count⟩⟩,
        unread.drop (count * (width * Bpp)), drawn⟩ ∧
      List.Forall₂ (Shows (unread.take (count * (width * Bpp))) width Bpp x y)
        (places (Span.cuts 0 32 width) (Span.cuts 0 32 count)) drawn := by
  have full : (⟨x, y, width, lines⟩ : Rect).isEmpty = false :=
    Rect.isEmpty_eq_false.mpr ⟨wide.1, some'.1⟩
  have lineSize : 0 < width * Bpp := Nat.mul_pos wide.1 positive
  have one : 0 < unread.length / (width * Bpp) := Nat.div_pos enough lineSize
  generalize count' : min (unread.length / (width * Bpp)) lines = count
  have room : count * (width * Bpp) ≤ unread.length := by
    calc count * (width * Bpp) ≤ unread.length / (width * Bpp) * (width * Bpp) :=
          Nat.mul_le_mul_right _ (by omega)
      _ ≤ unread.length := Nat.div_mul_le_self _ _
  have rect : Rect.of x y width count = ⟨x, y, width, count⟩ :=
    Rect.of_eq wide ⟨by omega, by omega⟩
  obtain ⟨drawn, ran, shows'⟩ := @drawTiles_ok Bpp ⟨x, y, width, count⟩
    (unread.take (count * (width * Bpp))) (by
      rw [List.length_take_of_le room]
      exact Nat.le_of_eq (by ring))
  refine ⟨count, drawn, ⟨by omega, by omega⟩, room, ?_, ?_, shows'⟩
  · intro short
    have : unread.length / (width * Bpp) = 1 := by
      rw [Nat.le_antisymm short enough, Nat.div_self lineSize]
    omega
  · unfold call
    simp only [full, Bool.false_eq_true, if_false, if_neg (Nat.not_lt.mpr enough), count',
      inBytes_ok room, ok_bind, rect, ran]
    rfl

end Raw

section Run

variable {image rest : List Byte} {width height Bpp : Nat} {x y : BitVec 16}
  {arrivals : Nat → Nat}

/-- How the lines from `first` on end: nothing of what comes behind the image is consumed, and the
rows that lie end to end are drawn in order. -/
structure Ended (image rest : List Byte) (width height Bpp : Nat) (x y : BitVec 16) (first : Nat)
    (rows : List Span) (more : List Drawn) (buf : Buf64k) (incoming : List Byte) : Prop where
  consumed : ∃ unread, buf.Holds unread ∧ unread ++ incoming = rest
  down : Span.EndToEnd first rows height
  shows' : List.Forall₂ (Shows image width Bpp x y) (places (Span.cuts 0 32 width) rows) more

theorem Ended.prepend {first count : Nat} {rows : List Span} {orders more : List Drawn}
    {buf : Buf64k} {incoming : List Byte}
    (ended : Ended image rest width height Bpp x y (first + count) rows more buf incoming)
    (drawn : List.Forall₂ (Shows image width Bpp x y)
      (places (Span.cuts 0 32 width) (Span.cuts first 32 count)) orders) :
    Ended image rest width height Bpp x y first (Span.cuts first 32 count ++ rows)
      (orders ++ more) buf incoming where
  consumed := ended.consumed
  down := (Span.endToEnd_cuts first count (by decide)).append ended.down
  shows' := by
    rw [places, List.flatMap_append]
    exact List.rel_append drawn ended.shows'

/-- A call with a line in the buffer draws as many lines of the image as are there. -/
theorem Raw.call_image (positive : 0 < Bpp) (wide : 0 < width ∧ width ≤ 32768)
    {first lines : Nat} (some' : 0 < lines ∧ lines ≤ 32768) {unread incoming : List Byte}
    (left : (image.drop (first * (width * Bpp))).length = lines * (width * Bpp))
    (stream : unread ++ incoming = image.drop (first * (width * Bpp)) ++ rest)
    (enough : width * Bpp ≤ unread.length) :
    ∃ count front back orders, unread = front ++ back ∧ (0 < count ∧ count ≤ lines) ∧
      front.length = count * (width * Bpp) ∧ (unread.length ≤ width * Bpp → count = 1) ∧
      Raw.call ⟨Bpp, ⟨x, y + BitVec.ofNat 16 first, width, lines⟩⟩ (front ++ back) =
        .ok ⟨if lines - count = 0 then .exit else .ready,
          ⟨Bpp, ⟨x, y + BitVec.ofNat 16 (first + count), width, lines - count⟩⟩, back, orders⟩ ∧
      back ++ incoming = image.drop ((first + count) * (width * Bpp)) ++ rest ∧
      List.Forall₂ (Shows image width Bpp x y)
        (places (Span.cuts 0 32 width) (Span.cuts first 32 count)) orders := by
  obtain ⟨count, orders, positive', room, single, answers, shows'⟩ := @Raw.call_lines Bpp width
    lines x (y + BitVec.ofNat 16 first) unread positive wide some' enough
  have within : count * (width * Bpp) ≤ lines * (width * Bpp) :=
    Nat.mul_le_mul_right _ positive'.2
  have taken : unread.take (count * (width * Bpp)) =
      (image.drop (first * (width * Bpp))).take (count * (width * Bpp)) := by
    rw [← List.take_append_of_le_length room, stream,
      List.take_append_of_le_length (by rw [left]; exact within)]
  have later : unread.drop (count * (width * Bpp)) ++ incoming =
      image.drop ((first + count) * (width * Bpp)) ++ rest := by
    rw [← List.drop_append_of_le_length room, stream,
      List.drop_append_of_le_length (by rw [left]; exact within), List.drop_drop, Nat.add_mul]
  have corner : y + BitVec.ofNat 16 first + BitVec.ofNat 16 count =
      y + BitVec.ofNat 16 (first + count) := by
    rw [BitVec.add_assoc, ← BitVec.ofNat_add]
  rw [taken] at shows'
  rw [corner] at answers
  refine ⟨count, _, _, orders, (List.take_append_drop (count * (width * Bpp)) unread).symm,
    positive', List.length_take_of_le room, single, ?_, later, shows_lines shows'⟩
  rwa [List.take_append_drop]

private theorem length_single {first count : Nat} (single : count = 1) {row : Span}
    (member : row ∈ Span.cuts first 32 count) : row.length = 1 := by
  have inside := (Span.endToEnd_cuts first count (by decide)).inside member
  have some' := (Span.endToEnd_cuts first count (by decide)).nonEmpty member
  omega

/-- From any line on, the loads bring the remaining ones, and they are drawn in rows; where the bytes
arrive one by one, each row is a line. -/
theorem feed_lines (positive : 0 < Bpp) (wide : 0 < width ∧ width ≤ 32768) (high : height ≤ 32768)
    (fits : width * Bpp ≤ 65535) (size : image.length = height * (width * Bpp))
    (arrive : ∀ load, 0 < arrivals load) (bound : Nat) {first lines loads : Nat} {buf : Buf64k}
    {unread incoming : List Byte} {drawn : List Drawn} (bounded : incoming.length + lines ≤ bound)
    (remaining : first + lines = height) (some' : 0 < lines) (holds : buf.Holds unread)
    (stream : unread ++ incoming = image.drop (first * (width * Bpp)) ++ rest) :
    ∃ rounds encoder buf' incoming' rows more,
      feed Raw.call arrivals rounds loads ⟨Bpp, ⟨x, y + BitVec.ofNat 16 first, width, lines⟩⟩ buf
        incoming drawn = .ok (.exited encoder buf' incoming' (drawn ++ more)) ∧
      Ended image rest width height Bpp x y first rows more buf' incoming' ∧
      (unread.length ≤ width * Bpp → (∀ load, arrivals load = 1) → ∀ row ∈ rows, row.length = 1) := by
  have left : (image.drop (first * (width * Bpp))).length = lines * (width * Bpp) := by
    rw [List.length_drop, size, ← remaining, Nat.add_mul, Nat.add_sub_cancel_left]
  have length := congrArg List.length stream
  rw [List.length_append, List.length_append, left] at length
  induction bound generalizing first lines loads buf unread incoming drawn with
  | zero => omega
  | succ bound ih =>
    by_cases short : unread.length < width * Bpp
    · have line : width * Bpp ≤ lines * (width * Bpp) := Nat.le_mul_of_pos_left _ some'
      have arrived := arrive loads
      obtain ⟨buf', held, loads'⟩ := @feed_load _ _ Raw.call arrivals loads _ buf incoming drawn _
        holds (Raw.call_short wide.1 some' short) (by omega)
      obtain ⟨rounds, encoder, ended, incoming', rows, more, ran, finished, single⟩ :=
        @ih first lines (loads + 1) buf' _ (incoming.drop (loaded unread.length (arrivals loads)))
          drawn (by
            rw [List.length_drop]
            unfold loaded
            omega)
          remaining some' held (by rw [List.append_assoc, List.take_append_drop, stream]) left (by
            rw [List.length_append, List.length_take, List.length_drop]
            omega)
      refine ⟨rounds + 1, encoder, ended, incoming', rows, more, by rw [loads', ran], finished, ?_⟩
      intro _ one
      refine single ?_ one
      rw [List.length_append, List.length_take, loaded, one]
      omega
    · obtain ⟨count, front, back, orders, rfl, positive', drawnLength, single, answers, later,
          drawn'⟩ := Raw.call_image (x := x) (y := y) positive wide ⟨some', by omega⟩ left stream
        (by omega)
      rw [List.length_append] at length single ⊢
      by_cases last : lines - count = 0
      · have all : count = lines := by omega
        rw [if_pos last] at answers
        obtain ⟨buf', held, exits⟩ := @feed_exit _ _ Raw.call arrivals loads _ _ buf _ _ incoming
          drawn orders holds answers
        refine ⟨1, ⟨Bpp, ⟨x, y + BitVec.ofNat 16 (first + count), width, lines - count⟩⟩, buf',
          incoming, Span.cuts first 32 count ++ [], orders ++ [], ?_, ?_, ?_⟩
        · rw [exits, List.append_nil]
        · apply Ended.prepend _ drawn'
          refine ⟨⟨_, held, ?_⟩, ?_, .nil⟩
          · rw [later, List.drop_eq_nil_of_le, List.nil_append]
            rw [size, all, remaining]
          · rw [Span.EndToEnd, all, remaining]
        · intro short' _ row member
          rw [List.append_nil] at member
          exact length_single (single short') member
      · have within : count * (width * Bpp) ≤ lines * (width * Bpp) :=
          Nat.mul_le_mul_right _ positive'.2
        rw [if_neg last] at answers
        obtain ⟨buf', held, goesOn⟩ := @feed_ready _ _ Raw.call arrivals loads _ _ buf _ _ incoming
          drawn orders holds answers
        obtain ⟨rounds, encoder, ended, incoming', rows, more, ran, finished, single'⟩ :=
          @ih (first + count) (lines - count) loads buf' back incoming (drawn ++ orders) (by omega)
            (by omega) (by omega) held later (by
              rw [List.length_drop, size, ← Nat.sub_mul]
              congr 1
              omega) (by
              rw [Nat.sub_mul]
              omega)
        refine ⟨rounds + 1, encoder, ended, incoming', Span.cuts first 32 count ++ rows,
          orders ++ more, ?_, finished.prepend drawn', ?_⟩
        · rw [goesOn, ran, List.append_assoc]
        · intro short' one row member
          rcases List.mem_append.mp member with here | there
          · exact length_single (single short') here
          · exact single' (by omega) one row there

/-- With lines that are longer than the buffer, the calls never come to an end. -/
theorem feed_wide (wide : 0 < width) {lines : Nat} (some' : 0 < lines)
    (long : 65535 < width * Bpp) (rounds : Nat) {loads : Nat} {buf : Buf64k}
    {unread incoming : List Byte} {drawn : List Drawn} (holds : buf.Holds unread)
    {encoder : Raw} {buf' : Buf64k} {incoming' : List Byte} {drawn' : List Drawn} :
    feed Raw.call arrivals rounds loads ⟨Bpp, ⟨x, y, width, lines⟩⟩ buf incoming drawn ≠
      .ok (.exited encoder buf' incoming' drawn') := by
  have bounded := holds.le_capacity
  have answers := @Raw.call_short Bpp width lines x y unread wide some' (by omega)
  induction rounds generalizing loads buf unread incoming with
  | zero => nofun
  | succ rounds ih =>
    by_cases full : unread.length = 65535
    · rw [feed_stalls holds answers full]
      nofun
    · obtain ⟨next, held, loads'⟩ := @feed_load _ _ Raw.call arrivals loads _ buf incoming drawn _
        holds answers full
      rw [loads']
      exact ih held held.le_capacity (Raw.call_short wide some' (by
        have := held.le_capacity
        omega))

end Run

end Redemption.Vnc
