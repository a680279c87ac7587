import Redemption.Vnc.RectangleDelivery

/-! The cursors that a server sends, and which of them come through the buffer; with `Raw`, what is
delivered of all that is announced. -/
namespace Redemption.Vnc

open Redemption.Foundation Redemption.Utils

namespace Cursor

variable {masks : PointerMasks} {cursor : Cursor} {unread : List Byte}

/-- The number of bytes that a cursor is taken to have. -/
def needed (cursor : Cursor) : Nat :=
  (sizeOfInt (cursor.rect.cx * cursor.rect.cy * cursor.Bpp) +
    sizeOfInt (nbbytes cursor.rect.cx * cursor.rect.cy)) % 2 ^ 64

/-- The parts of its bytes. -/
def source (cursor : Cursor) (bytes : List Byte) : PointerLoaderVnc.Source where
  Bpp := cursor.Bpp
  width := cursor.rect.cx
  vncdata := bytes.take (sizeOfInt (cursor.rect.cx * cursor.rect.cy * cursor.Bpp))
  vncmask := bytes.drop (sizeOfInt (cursor.rect.cx * cursor.rect.cy * cursor.Bpp))
  format := cursor.format

theorem call_eq (some' : cursor.rect.isEmpty = false) :
    cursor.call masks unread =
      if 65536 < cursor.needed then .error (.raised .bufferTooSmall)
      else if unread.length < cursor.needed then .ok ⟨.needMoreData, cursor, unread, []⟩
      else do
        let loaded ← PointerLoaderVnc.load (cursor.source (unread.take cursor.needed))
          cursor.rect.cy masks
        return ⟨.exit, cursor, unread.drop cursor.needed, [⟨PointerLoaderVnc.minwidth,
          min cursor.rect.cy 32, cursor.rect.x, cursor.rect.y, loaded⟩]⟩ := by
  unfold call
  simp only [some', Bool.false_eq_true, if_false]
  by_cases big : 65536 < cursor.needed
  · rw [if_pos big]
    exact if_pos big
  · rw [if_neg big]
    refine (if_neg big).trans ?_
    by_cases short : unread.length < cursor.needed
    · rw [if_pos short]
      exact if_pos short
    · rw [if_neg short]
      refine (if_neg short).trans ?_
      rw [← needed, inBytes_ok (Nat.not_lt.mp short)]
      rfl

/-- The cursors that a call does not refuse. -/
def Accepted (cursor : Cursor) : Prop := cursor.rect.isEmpty = true ∨ cursor.needed ≤ 65536

theorem call_refuses (refused : ¬cursor.Accepted) :
    cursor.call masks unread = .error (.raised .bufferTooSmall) := by
  obtain ⟨some', big⟩ := not_or.mp refused
  rw [call_eq (Bool.eq_false_of_not_eq_true some'), if_pos (Nat.not_le.mp big)]

theorem call_short (some' : cursor.rect.isEmpty = false) (small : cursor.needed ≤ 65536)
    (short : unread.length < cursor.needed) :
    cursor.call masks unread = .ok ⟨.needMoreData, cursor, unread, []⟩ := by
  rw [call_eq some', if_neg (Nat.not_lt.mpr small), if_pos short]

/-- Where the sizes do not wrap around, a call with the whole cursor in the buffer takes it. -/
theorem call_whole (some' : cursor.rect.isEmpty = false) (small : cursor.needed ≤ 65536)
    (enough : cursor.needed ≤ unread.length)
    (data : sizeOfInt (cursor.rect.cx * cursor.rect.cy * cursor.Bpp) =
      cursor.rect.cx * cursor.rect.cy * cursor.Bpp)
    (whole : cursor.needed = cursor.rect.cx * cursor.rect.cy * cursor.Bpp +
      nbbytes cursor.rect.cx * cursor.rect.cy) :
    ∃ pointer, cursor.call masks unread =
      .ok ⟨.exit, cursor, unread.drop cursor.needed, [pointer]⟩ := by
  have length := List.length_take_of_le enough
  obtain ⟨loaded, ran⟩ := @PointerLoaderVnc.load_ok (cursor.source (unread.take cursor.needed))
    cursor.rect.cy
    (by
      simp only [source, data]
      rw [List.length_take_of_le (by omega)]
      exact Nat.le_of_eq (by ring))
    (by
      simp only [source, data]
      rw [List.length_drop, length, whole, Nat.add_sub_cancel_left, Nat.mul_comm]) masks
  refine ⟨⟨PointerLoaderVnc.minwidth, min cursor.rect.cy 32, cursor.rect.x, cursor.rect.y,
    loaded⟩, ?_⟩
  rw [call_eq some', if_neg (Nat.not_lt.mpr small), if_neg (Nat.not_lt.mpr enough), ran]
  rfl

variable {arrivals : Nat → Nat} {buf : Buf64k} {incoming : List Byte} {drawn : List VncPointer}

/-- Calls that come to an end have taken the bytes of the cursor, and these have fitted the buffer. -/
theorem feed_takes (some' : cursor.rect.isEmpty = false) (rounds : Nat) {loads : Nat}
    {encoder : Cursor} {buf' : Buf64k} {incoming' : List Byte} {drawn' : List VncPointer}
    (holds : buf.Holds unread)
    (ran : feed (call masks) arrivals rounds loads cursor buf incoming drawn =
      .ok (.exited encoder buf' incoming' drawn')) :
    cursor.needed ≤ 65535 ∧ cursor.needed ≤ (unread ++ incoming).length ∧
      ∃ behind, buf'.Holds behind ∧ behind ++ incoming' = (unread ++ incoming).drop cursor.needed := by
  have bounded := holds.le_capacity
  induction rounds generalizing loads buf unread incoming with
  | zero => cases ran
  | succ rounds ih =>
    by_cases small : cursor.needed ≤ 65536
    swap
    · rw [feed, holds.av_ok, ok_bind, call_refuses (not_or.mpr ⟨by rw [some']; exact Bool.false_ne_true, small⟩)] at ran
      cases ran
    by_cases short : unread.length < cursor.needed
    · by_cases full : unread.length = 65535
      · rw [feed_stalls holds (call_short some' small short) full] at ran
        cases ran
      · obtain ⟨next, held, loads'⟩ := @feed_load _ _ (call masks) arrivals loads _ buf incoming drawn
          _ holds (call_short some' small short) full
        rw [loads'] at ran
        have later := ih held ran held.le_capacity
        rwa [List.append_assoc, List.take_append_drop] at later
    · have answers := @call_eq masks cursor unread some'
      rw [if_neg (Nat.not_lt.mpr small), if_neg short] at answers
      have split' := List.take_append_drop cursor.needed unread
      cases loaded : PointerLoaderVnc.load (cursor.source (unread.take cursor.needed))
          cursor.rect.cy masks with
      | error fault =>
        rw [feed, holds.av_ok, ok_bind, answers, loaded] at ran
        cases ran
      | ok masks' =>
        rw [loaded, ok_bind, pure_ok] at answers
        rw [← split'] at holds
        obtain ⟨buf'', held, exits⟩ := @feed_exit _ _ (call masks) arrivals loads _ _ buf _ _
          incoming drawn _ holds (by rw [split']; exact answers)
        rw [exits] at ran
        obtain ⟨rfl, rfl, rfl, rfl⟩ := Fed.exited.inj (Except.ok.inj ran)
        refine ⟨by omega, by rw [List.length_append]; omega, _, held, ?_⟩
        rw [List.drop_append_of_le_length (Nat.not_lt.mp short)]

/-- A cursor that fits the buffer is taken from it, in however many loads it arrives. -/
theorem feed_whole (some' : cursor.rect.isEmpty = false) (fits : cursor.needed ≤ 65535)
    (data : sizeOfInt (cursor.rect.cx * cursor.rect.cy * cursor.Bpp) =
      cursor.rect.cx * cursor.rect.cy * cursor.Bpp)
    (whole : cursor.needed = cursor.rect.cx * cursor.rect.cy * cursor.Bpp +
      nbbytes cursor.rect.cx * cursor.rect.cy)
    (arrive : ∀ load, 0 < arrivals load) (bound : Nat) {loads : Nat}
    (bounded : incoming.length ≤ bound) (holds : buf.Holds unread)
    (enough : cursor.needed ≤ (unread ++ incoming).length) :
    ∃ rounds buf' incoming' pointer, feed (call masks) arrivals rounds loads cursor buf incoming
      drawn = .ok (.exited cursor buf' incoming' (drawn ++ [pointer])) := by
  have capacity := holds.le_capacity
  rw [List.length_append] at enough
  have small : cursor.needed ≤ 65536 := by omega
  have ends : ∀ {loads buf unread incoming}, buf.Holds unread → cursor.needed ≤ unread.length →
      ∃ rounds buf' incoming' pointer, feed (call masks) arrivals rounds loads cursor buf incoming
        drawn = .ok (.exited cursor buf' incoming' (drawn ++ [pointer])) := by
    intro loads buf unread incoming holds there
    obtain ⟨pointer, answers⟩ := @call_whole masks _ _ some' small there data whole
    have split' := List.take_append_drop cursor.needed unread
    rw [← split'] at holds
    obtain ⟨buf', _, exits⟩ := @feed_exit _ _ (call masks) arrivals loads _ _ buf _ _ incoming
      drawn _ holds (by rw [split']; exact answers)
    exact ⟨1, buf', incoming, pointer, exits 0⟩
  induction bound generalizing loads buf unread incoming with
  | zero => exact ends holds (by omega)
  | succ bound ih =>
    by_cases short : unread.length < cursor.needed
    · have arrived := arrive loads
      obtain ⟨next, held, loads'⟩ := @feed_load _ _ (call masks) arrivals loads _ buf incoming drawn
        _ holds (call_short some' small short) (by omega)
      obtain ⟨rounds, buf', incoming', pointer, ran⟩ := @ih _ next
        (incoming.drop (loaded unread.length (arrivals loads))) (loads + 1) (by
          rw [List.length_drop]
          unfold loaded
          omega) held (by
          rw [List.length_append, List.length_take, List.length_drop]
          omega) held.le_capacity
      exact ⟨rounds + 1, buf', incoming', pointer, by rw [loads', ran]⟩
    · exact ends holds (Nat.not_lt.mp short)

end Cursor

namespace Announced

variable {announced : Announced} {masks : PointerMasks} {format : PixelFormat}
  {image rest : List Byte}

/-- The bytes of a cursor: its pixels and its mask, whose lines are made of whole bytes. -/
def cursorSize (announced : Announced) : Nat :=
  announced.size + (announced.width + 7) / 8 * announced.height

def cursor (announced : Announced) (format : PixelFormat) : Cursor :=
  ⟨announced.Bpp, announced.rect, format⟩

/-- The calls of `Cursor` come to an end, with the bytes of the cursor consumed; where there are
any, a pointer is made of them. -/
def CursorDelivered (announced : Announced) (masks : PointerMasks) (format : PixelFormat)
    (rest : List Byte) (arrivals : Nat → Nat) (buf : Buf64k) (incoming : List Byte) : Prop :=
  ∃ rounds encoder buf' unread incoming' drawn,
    feed (Cursor.call masks) arrivals rounds 0 (announced.cursor format) buf incoming [] =
      .ok (.exited encoder buf' incoming' drawn) ∧
    (buf'.Holds unread ∧ unread ++ incoming' = rest) ∧
    (0 < announced.cursorSize → drawn.length = 1)

/-- The cursors that `Cursor` copes with, of those that it accepts: they are empty, or the bytes of a
line of the mask fit a `uint8_t`, the height a `Rect` and the whole cursor the buffer. -/
def CursorFits (announced : Announced) : Prop :=
  announced.width = 0 ∨ announced.height = 0 ∨
    (announced.width ≤ 2040 ∧ announced.height ≤ 32768 ∧ announced.cursorSize ≠ 65536)

section Sizes

/-- What is needed of a cursor that a `Rect` can have. -/
theorem needed_cursor (wide : 0 < announced.width ∧ announced.width ≤ 32768)
    (high : 0 < announced.height ∧ announced.height ≤ 32768) :
    (announced.cursor format).needed = (sizeOfInt announced.size +
      nbbytes announced.width * announced.height) % 2 ^ 64 := by
  have mask : nbbytes announced.width * announced.height < 2 ^ 31 := by
    have small : nbbytes announced.width ≤ 255 := by
      unfold nbbytes
      omega
    calc nbbytes announced.width * announced.height ≤ 255 * 32768 := Nat.mul_le_mul small high.2
      _ < 2 ^ 31 := by decide
  simp only [Cursor.needed, cursor, rect_eq wide high]
  rw [sizeOfInt_eq mask]
  rfl

theorem size_lt (pixel : announced.Bpp ≤ 4) (wide : announced.width ≤ 2040)
    (high : announced.height ≤ 32768) : announced.size < 2 ^ 31 := by
  calc announced.size ≤ 2040 * 32768 * 4 := Nat.mul_le_mul (Nat.mul_le_mul wide high) pixel
    _ < 2 ^ 31 := by decide

theorem nbbytes_eq_iff {width : Nat} : nbbytes width = (width + 7) / 8 ↔ width ≤ 2040 := by
  unfold nbbytes
  omega

end Sizes

variable {arrivals : Nat → Nat} {buf : Buf64k} {unread incoming : List Byte}

theorem CursorFits.delivered (fits : announced.CursorFits)
    (accepted : (announced.cursor format).Accepted)
    (pixel : 0 < announced.Bpp ∧ announced.Bpp ≤ 4) (size : image.length = announced.cursorSize)
    (arrive : ∀ load, 0 < arrivals load) (holds : buf.Holds unread)
    (stream : unread ++ incoming = image ++ rest) :
    announced.CursorDelivered masks format rest arrivals buf incoming := by
  by_cases some' : announced.width = 0 ∨ announced.height = 0
  · have empty : (announced.cursor format).rect.isEmpty = true := rect_isEmpty some'
    have none : image = [] := by
      rw [← List.length_eq_zero_iff, size, cursorSize, Announced.size]
      rcases some' with none | none
      · rw [none, Nat.zero_mul, Nat.zero_mul, Nat.zero_add]
      · rw [none, Nat.mul_zero, Nat.zero_mul, Nat.mul_zero]
    obtain ⟨buf', held, exits⟩ := @feed_exit _ _ (Cursor.call masks) arrivals 0
      (announced.cursor format) _ buf [] unread incoming [] [] holds (if_pos empty)
    refine ⟨1, _, buf', unread, incoming, [], exits 0, ⟨held, by rw [stream, none]; rfl⟩, ?_⟩
    intro positive
    rw [← size, none] at positive
    cases positive
  · obtain ⟨narrow, low, room⟩ : announced.width ≤ 2040 ∧ announced.height ≤ 32768 ∧
        announced.cursorSize ≠ 65536 := by
      rcases fits with none | none | fits
      · exact absurd (.inl none) some'
      · exact absurd (.inr none) some'
      · exact fits
    have wide : 0 < announced.width ∧ announced.width ≤ 32768 := by omega
    have high : 0 < announced.height ∧ announced.height ≤ 32768 := by omega
    have full : (announced.cursor format).rect.isEmpty = false := by
      rw [cursor, rect_eq wide high]
      exact Rect.isEmpty_eq_false.mpr ⟨wide.1, high.1⟩
    have data : sizeOfInt announced.size = announced.size :=
      sizeOfInt_eq (size_lt pixel.2 narrow low)
    have whole : (announced.cursor format).needed = announced.cursorSize := by
      have small := size_lt pixel.2 narrow low
      rw [needed_cursor wide high, data, nbbytes_eq_iff.mpr narrow, ← cursorSize]
      apply Nat.mod_eq_of_lt
      have mask : (announced.width + 7) / 8 * announced.height ≤ 256 * 32768 :=
        Nat.mul_le_mul (by omega) low
      rw [cursorSize]
      omega
    have small := accepted.resolve_left (by rw [full]; exact Bool.false_ne_true)
    obtain ⟨rounds, buf', incoming', pointer, ran⟩ := @Cursor.feed_whole masks
      (announced.cursor format) unread arrivals buf incoming [] full (by omega)
      (by rw [cursor, rect_eq wide high]; exact data)
      (by
        rw [whole, cursor, rect_eq wide high]
        simp only [nbbytes_eq_iff.mpr narrow]
        rfl)
      arrive incoming.length 0 (Nat.le_refl _) holds (by rw [stream, List.length_append]; omega)
    obtain ⟨_, _, behind, held, consumed⟩ := Cursor.feed_takes full rounds holds ran
    refine ⟨rounds, _, buf', behind, incoming', [pointer], ran, ⟨held, ?_⟩, fun _ => rfl⟩
    rw [consumed, stream, whole, ← size, List.drop_left]

/-- A cursor that is delivered fits. -/
theorem CursorDelivered.fits (pixel : 0 < announced.Bpp) (size : image.length = announced.cursorSize)
    (holds : buf.Holds unread) (stream : unread ++ incoming = image ++ rest)
    (delivered : announced.CursorDelivered masks format rest arrivals buf incoming) :
    announced.CursorFits := by
  by_cases none : announced.width = 0 ∨ announced.height = 0
  · rcases none with none | none
    · exact .inl none
    · exact .inr (.inl none)
  obtain ⟨rounds, encoder, buf', behind, incoming', drawn, ran, ⟨held, consumed⟩, _⟩ := delivered
  have positive : 0 < announced.size :=
    Nat.mul_pos (Nat.mul_pos (by omega) (by omega)) pixel
  have some' : 0 < image.length := by
    rw [size, cursorSize]
    omega
  have full : (announced.cursor format).rect.isEmpty = false := by
    by_contra empty
    rw [Bool.not_eq_false] at empty
    obtain ⟨buf'', nothing, exits⟩ := @feed_exit _ _ (Cursor.call masks) arrivals 0
      (announced.cursor format) _ buf [] unread incoming [] [] holds (if_pos empty)
    obtain ⟨rfl, rfl, rfl, rfl⟩ := Fed.exited.inj (feed_agree ran (exits 0))
    have unread := congrArg List.length consumed
    rw [held.unique nothing, stream, List.length_append] at unread
    omega
  obtain ⟨⟨wide, high⟩, _⟩ := Rect.of_nonEmpty full
  obtain ⟨room, enough, behind', held', taken⟩ := Cursor.feed_takes full rounds holds ran
  have exact' : (announced.cursor format).needed = announced.cursorSize := by
    have lengths := congrArg List.length (taken.symm.trans (by rw [held'.unique held, consumed]))
    rw [stream] at lengths enough
    rw [List.length_drop, List.length_append] at lengths
    rw [List.length_append] at enough
    omega
  refine .inr (.inr ⟨?_, high.2, by omega⟩)
  have below : announced.size < 2 ^ 31 := by
    rw [exact', cursorSize] at room
    omega
  rw [needed_cursor wide high, sizeOfInt_eq below, cursorSize] at exact'
  have mask : nbbytes announced.width * announced.height =
      (announced.width + 7) / 8 * announced.height := by
    have small : nbbytes announced.width * announced.height ≤ 255 * 32768 :=
      Nat.mul_le_mul (by unfold nbbytes; omega) high.2
    rw [Nat.mod_eq_of_lt (by omega)] at exact'
    exact Nat.add_left_cancel exact'
  exact nbbytes_eq_iff.mp (Nat.eq_of_mul_eq_mul_right high.1 mask)

end Announced

/-- Whatever its bytes are and however they arrive, a rectangle that is announced is delivered. -/
def RawAlways (announced : Announced) : Prop :=
  ∀ image rest : List Byte, image.length = announced.size →
    ∀ (arrivals : Nat → Nat) (buf : Buf64k) (unread incoming : List Byte),
      (∀ load, 0 < arrivals load) → buf.Holds unread → unread ++ incoming = image ++ rest →
        announced.RawDelivered image rest arrivals buf incoming

/-- Whatever its bytes are and however they arrive, a cursor that is accepted is delivered. -/
def CursorAlways (announced : Announced) (masks : PointerMasks) (format : PixelFormat) : Prop :=
  (announced.cursor format).Accepted → ∀ image rest : List Byte, image.length = announced.cursorSize →
    ∀ (arrivals : Nat → Nat) (buf : Buf64k) (unread incoming : List Byte),
      (∀ load, 0 < arrivals load) → buf.Holds unread → unread ++ incoming = image ++ rest →
        announced.CursorDelivered masks format rest arrivals buf incoming

/-- What is announced comes through the buffer exactly where it fits. -/
theorem announced_delivered_iff (announced : Announced) (masks : PointerMasks)
    (format : PixelFormat) (pixel : 0 < announced.Bpp ∧ announced.Bpp ≤ 4) :
    (RawAlways announced ↔ announced.RawFits) ∧
      (CursorAlways announced masks format ↔
        ((announced.cursor format).Accepted → announced.CursorFits)) := by
  obtain ⟨buf, holds⟩ := BasicStaticBuffer.exists_holds_nil 65535 16
  refine ⟨⟨?_, ?_⟩, ?_, ?_⟩
  · intro always
    have size := List.length_replicate (n := announced.size) (a := (0 : Byte))
    exact (always _ [] size (fun _ => 1) buf [] _ (fun _ => Nat.one_pos) holds rfl).fits pixel.1
      size (fun _ => rfl) holds
  · intro fits image rest size arrivals buf unread incoming arrive holds stream
    exact fits.delivered pixel.1 size arrive holds stream
  · intro always accepted
    have size := List.length_replicate (n := announced.cursorSize) (a := (0 : Byte))
    exact (always accepted _ [] size (fun _ => 1) buf [] _ (fun _ => Nat.one_pos) holds rfl).fits
      pixel.1 size holds rfl
  · intro fits accepted image rest size arrivals buf unread incoming arrive holds stream
    exact (fits accepted).delivered accepted pixel size arrive holds stream

theorem announced_delivered_small :
    RawAlways ⟨10, 20, 64, 48, 4⟩ ∧
      CursorAlways ⟨10, 20, 64, 48, 4⟩ ⟨.filled 0, .filled 0⟩ ⟨⟨16, 255⟩, ⟨8, 255⟩, ⟨0, 255⟩⟩ := by
  have both := announced_delivered_iff ⟨10, 20, 64, 48, 4⟩ ⟨.filled 0, .filled 0⟩
    ⟨⟨16, 255⟩, ⟨8, 255⟩, ⟨0, 255⟩⟩ (by decide)
  exact ⟨both.1.mpr (.inr (.inr ⟨by decide, by decide, by decide⟩)),
    both.2.mpr fun _ => .inr (.inr ⟨by decide, by decide, by decide⟩)⟩

/-- A line of 16384 pixels of four bytes is a byte longer than the buffer. -/
theorem raw_stalls_wide : ¬RawAlways ⟨0, 0, 16384, 1, 4⟩ := by
  intro always
  obtain ⟨buf, holds⟩ := BasicStaticBuffer.exists_holds_nil 65535 16
  obtain ⟨rounds, encoder, buf', unread, incoming', drawn, ran, _⟩ :=
    always (List.replicate 65536 0) [] List.length_replicate (fun _ => 1) buf [] _
      (fun _ => Nat.one_pos) holds rfl
  exact feed_wide (by decide) (by decide) (by decide) rounds holds ran

end Redemption.Vnc
