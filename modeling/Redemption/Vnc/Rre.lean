import Redemption.Vnc.Encoder

/-! `Raw`: the encoder that draws the pixels of a rectangle as they come, and the tiles that it
and `RRE` draw. -/
namespace Redemption.Vnc

open Redemption.Foundation Redemption.Utils

/-- One tile of 32 pixels of `draw_tile`. -/
def drawPart (Bpp : Nat) (rect : Rect) (raw : List Byte) (y x : Nat) :
    Checked VncError Drawn := do
  let cy := min 32 (rect.cy - y)
  let cx := min 32 (rect.cx - x)
  let tiledBmp ← Bitmap.ofRaw raw rect.cx Bpp x y cx cy
  return .memBlt (Rect.of (rect.x + BitVec.ofNat 16 x) (rect.y + BitVec.ofNat 16 y) cx cy) tiledBmp

/-- `draw_tile` of `Raw` and of `RRE`. -/
def drawTiles (Bpp : Nat) (rect : Rect) (raw : List Byte) : Checked VncError (List Drawn) := do
  let lines ← (List.range ((rect.cy + 31) / 32)).mapM fun row =>
    (List.range ((rect.cx + 31) / 32)).mapM fun column =>
      drawPart Bpp rect raw (32 * row) (32 * column)
  return lines.flatten

theorem drawTiles_sound {Bpp : Nat} {rect : Rect} {raw : List Byte}
    (room : rect.cx * rect.cy * Bpp ≤ raw.length) :
    Sound (drawTiles Bpp rect raw) fun _ => True := by
  have part : ∀ row column, 32 * row ≤ rect.cy → 32 * column ≤ rect.cx →
      Sound (drawPart Bpp rect raw (32 * row) (32 * column)) fun _ => True := by
    intro row column high wide
    have enough : rect.cx * (32 * row + min 32 (rect.cy - 32 * row)) * Bpp ≤ raw.length :=
      Nat.le_trans (Nat.mul_le_mul_right _ (Nat.mul_le_mul_left _ (by omega))) room
    obtain ⟨bmp, copied, _⟩ := @Bitmap.ofRaw_ok VncError raw rect.cx Bpp (32 * column) (32 * row)
      (min 32 (rect.cx - 32 * column)) (min 32 (rect.cy - 32 * row)) (by omega) enough
    rw [drawPart, copied]
    exact sound_ok trivial
  refine (@sound_mapM _ _ _ _ (fun _ => True) _ ?_).bind ?_
  · intro row rowMember
    have high := List.mem_range.mp rowMember
    refine (@sound_mapM _ _ _ _ (fun _ => True) _ ?_).mono fun _ _ => trivial
    intro column columnMember
    have wide := List.mem_range.mp columnMember
    exact part row column (by omega) (by omega)
  · intro lines _
    exact sound_ok trivial

/-- `Raw`; `rect` is what remains to be drawn. -/
structure Raw where
  Bpp : Nat
  rect : Rect
  deriving DecidableEq, Repr

namespace Raw

/-- `operator()`. -/
def call (raw : Raw) (buf : List Byte) : Checked VncError (Answer Raw Drawn) :=
  if raw.rect.isEmpty then .ok ⟨.exit, raw, buf, []⟩
  else
    let lineSize := raw.rect.cx * raw.Bpp
    if buf.length < lineSize then .ok ⟨.needMoreData, raw, buf, []⟩
    else do
      let cy := min (buf.length / lineSize) raw.rect.cy
      let (newAv, buf) ← inBytes (cy * lineSize) buf
      let drawn ← drawTiles raw.Bpp (Rect.of raw.rect.x raw.rect.y raw.rect.cx cy) newAv
      let rest := { raw.rect with y := raw.rect.y + BitVec.ofNat 16 cy, cy := raw.rect.cy - cy }
      return ⟨if rest.cy = 0 then .exit else .ready, { raw with rect := rest }, buf, drawn⟩

theorem call_sound (raw : Raw) (buf : List Byte) : Sound (raw.call buf) fun _ => True := by
  unfold call
  by_cases empty : raw.rect.isEmpty = true
  · rw [if_pos empty]
    exact sound_ok trivial
  · rw [if_neg empty]
    by_cases short : buf.length < raw.rect.cx * raw.Bpp
    · rw [if_pos short]
      exact sound_ok trivial
    · rw [if_neg short]
      generalize lines : min (buf.length / (raw.rect.cx * raw.Bpp)) raw.rect.cy = cy
      have room : cy * (raw.rect.cx * raw.Bpp) ≤ buf.length := by
        calc cy * (raw.rect.cx * raw.Bpp)
            ≤ buf.length / (raw.rect.cx * raw.Bpp) * (raw.rect.cx * raw.Bpp) :=
              Nat.mul_le_mul_right _ (by omega)
          _ ≤ buf.length := Nat.div_mul_le_self _ _
      apply (sound_inBytes room).bind
      intro ⟨newAv, rest⟩ ⟨length, _⟩
      have whole : (Rect.of raw.rect.x raw.rect.y raw.rect.cx cy).cx *
          (Rect.of raw.rect.x raw.rect.y raw.rect.cx cy).cy * raw.Bpp ≤ newAv.length := by
        rw [length]
        unfold Rect.of
        split
        · exact Nat.le_of_eq (by ring)
        · simp
      apply (drawTiles_sound whole).bind
      intro drawn _
      exact sound_ok trivial

end Raw

/-! `RRE`: the encoder that lays subrectangles over a background. -/

/-- The largest size that a vector of bytes may be asked to reserve. -/
def vectorMaxSize : Nat := 2 ^ 63 - 1

def storeAt (memory : List Byte) (offset : Nat) (bytes : List Byte) :
    Checked VncError (List Byte) :=
  if offset + bytes.length ≤ memory.length then
    .ok (memory.take offset ++ bytes ++ memory.drop (offset + bytes.length))
  else .error .outOfBounds

theorem storeAt_sound {memory bytes : List Byte} {offset : Nat}
    (room : offset + bytes.length ≤ memory.length) :
    Sound (storeAt memory offset bytes) fun result => result.length = memory.length := by
  rw [storeAt, if_pos room]
  apply sound_ok
  simp only [List.length_append, List.length_take, List.length_drop]
  omega

inductive RREState where
  | header
  | data
  | exit
  deriving DecidableEq, Repr

/-- `RRE`; `rreRaw` is the memory that was reserved. -/
structure RRE where
  Bpp : Nat
  rect : Rect
  state : RREState
  numberOfSubrectanglesRemain : Nat
  rreRaw : List Byte
  deriving DecidableEq, Repr

/-- A subrectangle, and its pixel. -/
structure Subrectangle where
  pixel : List Byte
  x : Nat
  y : Nat
  width : Nat
  height : Nat
  deriving DecidableEq, Repr

/-- It lies inside of the rectangle. -/
def Subrectangle.Inside (subrec : Subrectangle) (rect : Rect) : Prop :=
  subrec.x + subrec.width ≤ rect.cx ∧ subrec.y + subrec.height ≤ rect.cy

instance (subrec : Subrectangle) (rect : Rect) : Decidable (subrec.Inside rect) :=
  inferInstanceAs (Decidable (_ ∧ _))

namespace RRE

/-- The constructor; `memory` is what the reserved memory happens to hold. -/
def make (memory : Nat → Byte) (Bpp : Nat) (rect : Rect) : Checked VncError RRE :=
  let reserved := sizeOfInt (rect.cx * rect.cy * Bpp)
  if vectorMaxSize < reserved then .error (.raised .lengthError)
  else .ok
    { Bpp, rect, state := .header, numberOfSubrectanglesRemain := 0
      rreRaw := (List.range reserved).map memory }

def layPixels (pixel : List Byte) : Nat → Nat → List Byte → Checked VncError (List Byte)
  | 0, _, memory => .ok memory
  | count + 1, offset, memory => do
    let memory ← storeAt memory offset pixel
    layPixels pixel count (offset + pixel.length) memory

/-- Lay so many lines of a subrectangle; `ling_boundary` is the length of a line. -/
def layLines (lingBoundary : Nat) (subrec : Subrectangle) (start : Nat) :
    Nat → Nat → List Byte → Checked VncError (List Byte)
  | 0, _, memory => .ok memory
  | lines + 1, pointLineCur, memory => do
    let memory ← layPixels subrec.pixel subrec.width (pointLineCur + start) memory
    layLines lingBoundary subrec start lines (pointLineCur + lingBoundary) memory

variable (rre : RRE)

/-- The state `Header`. -/
def header (buf : List Byte) : Checked VncError (Answer RRE Drawn) :=
  let sz := 4 + rre.Bpp
  if buf.length < sz then .ok ⟨.needMoreData, rre, buf, []⟩
  else do
    let (number, stream) ← inBytes 4 buf
    let (pixel, buf) ← inBytes rre.Bpp stream
    let pointEnd := sizeOfInt (rre.rect.cx * rre.rect.cy * rre.Bpp)
    let rreRaw ← layPixels pixel (pointEnd / rre.Bpp) 0 rre.rreRaw
    return ⟨.ready, { rre with
      numberOfSubrectanglesRemain := beValue number
      rreRaw
      state := .data }, buf, []⟩

def subrectangle (buf : List Byte) : Checked VncError (Subrectangle × List Byte) := do
  let (pixel, buf) ← inBytes rre.Bpp buf
  let (x, buf) ← inBytes 2 buf
  let (y, buf) ← inBytes 2 buf
  let (width, buf) ← inBytes 2 buf
  let (height, buf) ← inBytes 2 buf
  return (⟨pixel, beValue x, beValue y, beValue width, beValue height⟩, buf)

/-- The loops over the lines and the pixels of a subrectangle. Without columns there is no line
before the end. The products of a subrectangle that lies inside of the rectangle fit an `int`. -/
def draw (subrec : Subrectangle) : Checked VncError (List Byte) :=
  let lingBoundary := rre.rect.cx * rre.Bpp
  layLines lingBoundary subrec (subrec.x * rre.Bpp)
    (if lingBoundary = 0 then 0 else subrec.height) (subrec.y * lingBoundary) rre.rreRaw

/-- The state `Data`. -/
def data (buf : List Byte) : Checked VncError (Answer RRE Drawn) :=
  if rre.numberOfSubrectanglesRemain = 0 then do
    let drawn ← drawTiles rre.Bpp rre.rect rre.rreRaw
    return ⟨.exit, { rre with state := .header }, buf, drawn⟩
  else
    let sz := 8 + rre.Bpp
    if buf.length < sz then .ok ⟨.needMoreData, rre, buf, []⟩
    else do
      let (subrec, buf) ← rre.subrectangle buf
      let rreRaw ← rre.draw subrec
      return ⟨.ready, { rre with
        numberOfSubrectanglesRemain := rre.numberOfSubrectanglesRemain - 1
        rreRaw }, buf, []⟩

/-- `operator()`. -/
def call (buf : List Byte) : Checked VncError (Answer RRE Drawn) :=
  match rre.state with
  | .header => rre.header buf
  | .data => rre.data buf
  | .exit => .ok ⟨.exit, rre, buf, []⟩

/-- The memory that was reserved covers the rectangle. -/
structure Reserved : Prop where
  positive : 0 < rre.Bpp
  fits : rre.rect.cx * rre.rect.cy * rre.Bpp < 2 ^ 31
  covers : rre.rreRaw.length = rre.rect.cx * rre.rect.cy * rre.Bpp

/-- The subrectangle that a call takes next, if all of it is there. -/
def Next (buf : List Byte) (subrec : Subrectangle) : Prop :=
  rre.state = .data ∧ rre.numberOfSubrectanglesRemain ≠ 0 ∧ 8 + rre.Bpp ≤ buf.length ∧
    ∃ rest, rre.subrectangle buf = .ok (subrec, rest)

variable {rre}

theorem layPixels_sound {pixel : List Byte} (count offset : Nat) {memory : List Byte}
    (room : offset + count * pixel.length ≤ memory.length) :
    Sound (layPixels pixel count offset memory) fun result => result.length = memory.length := by
  induction count generalizing offset memory with
  | zero => exact sound_ok rfl
  | succ count ih =>
    rw [Nat.succ_mul] at room
    apply (storeAt_sound (by omega)).bind
    intro stored length
    rw [← length]
    exact ih _ (by omega)

theorem layLines_sound {subrec : Subrectangle} {lingBoundary start : Nat} (lines line : Nat)
    {memory : List Byte} (inside : start + subrec.width * subrec.pixel.length ≤ lingBoundary)
    (room : (line + lines) * lingBoundary ≤ memory.length) :
    Sound (layLines lingBoundary subrec start lines (line * lingBoundary) memory) fun result =>
      result.length = memory.length := by
  induction lines generalizing line memory with
  | zero => exact sound_ok rfl
  | succ lines ih =>
    have within : line * lingBoundary + lingBoundary ≤ memory.length := by
      rw [← Nat.succ_mul]
      exact Nat.le_trans (Nat.mul_le_mul_right _ (by omega)) room
    apply (layPixels_sound subrec.width _ (by omega)).bind
    intro laid length
    rw [← length, ← Nat.succ_mul]
    rw [← length] at room
    exact ih (line + 1) (by rwa [Nat.add_assoc, Nat.add_comm 1])

theorem subrectangle_sound (rre : RRE) {buf : List Byte} (room : 8 + rre.Bpp ≤ buf.length) :
    Sound (rre.subrectangle buf) fun result => result.1.pixel.length = rre.Bpp := by
  apply (sound_inBytes (by omega)).bind
  intro ⟨pixel, buf₁⟩ ⟨length, left₁⟩
  simp only at length left₁
  apply (sound_inBytes (by omega)).bind
  intro ⟨x, buf₂⟩ ⟨_, left₂⟩
  simp only at left₂
  apply (sound_inBytes (by omega)).bind
  intro ⟨y, buf₃⟩ ⟨_, left₃⟩
  simp only at left₃
  apply (sound_inBytes (by omega)).bind
  intro ⟨width, buf₄⟩ ⟨_, left₄⟩
  simp only at left₄
  apply (sound_inBytes (by omega)).bind
  intro ⟨height, buf₅⟩ _
  exact sound_ok length

/-- A subrectangle inside of the rectangle is drawn inside of the memory. -/
theorem draw_sound (reserved : rre.Reserved) {subrec : Subrectangle}
    (pixel : subrec.pixel.length = rre.Bpp) (inside : subrec.Inside rre.rect) :
    Sound (rre.draw subrec) fun rreRaw => rreRaw.length = rre.rreRaw.length := by
  obtain ⟨wide, high⟩ := inside
  unfold draw
  have columns : subrec.x * rre.Bpp + subrec.width * subrec.pixel.length ≤
      rre.rect.cx * rre.Bpp := by
    rw [pixel, ← Nat.add_mul]
    exact Nat.mul_le_mul_right _ wide
  have size : (subrec.y + subrec.height) * (rre.rect.cx * rre.Bpp) ≤ rre.rreRaw.length := by
    calc (subrec.y + subrec.height) * (rre.rect.cx * rre.Bpp)
        ≤ rre.rect.cy * (rre.rect.cx * rre.Bpp) := Nat.mul_le_mul_right _ high
      _ = rre.rreRaw.length := by
          rw [reserved.covers]
          ring
  by_cases empty : rre.rect.cx * rre.Bpp = 0
  · simp only [if_pos empty]
    exact sound_ok rfl
  · simp only [if_neg empty]
    exact layLines_sound subrec.height subrec.y columns size

theorem layPixels_ne_raised (pixel : List Byte) (count offset : Nat) (memory : List Byte)
    (error : VncError) : layPixels pixel count offset memory ≠ .error (.raised error) := by
  induction count generalizing offset memory with
  | zero => simp [layPixels]
  | succ count ih =>
    unfold layPixels storeAt
    split
    · exact ih _ _
    · simp

theorem layLines_ne_raised (lingBoundary : Nat) (subrec : Subrectangle) (start lines line : Nat)
    (memory : List Byte) (error : VncError) :
    layLines lingBoundary subrec start lines line memory ≠ .error (.raised error) := by
  induction lines generalizing line memory with
  | zero => simp [layLines]
  | succ lines ih =>
    unfold layLines
    cases laid : layPixels subrec.pixel subrec.width (line + start) memory with
    | ok memory' => exact ih _ _
    | error fault =>
      intro same
      cases same
      exact layPixels_ne_raised _ _ _ _ _ laid

theorem draw_ne_raised (rre : RRE) (subrec : Subrectangle) (error : VncError) :
    rre.draw subrec ≠ .error (.raised error) :=
  layLines_ne_raised _ _ _ _ _ _ _

/-- What a call of `RRE` is to do: access only its memory and its buffer, and raise an error at a
subrectangle outside of the rectangle. -/
structure Good (rre : RRE) (buf : List Byte) : Prop where
  sound : Sound (rre.call buf) fun _ => True
  outside : ∀ subrec, rre.Next buf subrec → ¬subrec.Inside rre.rect →
    ∃ error, rre.call buf = .error (.raised error)

/-- The subrectangle that comes next lies inside of the rectangle. -/
def Allowed (rre : RRE) (buf : List Byte) : Prop :=
  ∀ subrec, rre.Next buf subrec → subrec.Inside rre.rect

theorem header_sound (reserved : rre.Reserved) (buf : List Byte) :
    Sound (rre.header buf) fun answer => answer.encoder.Reserved := by
  obtain ⟨positive, fits, covers⟩ := reserved
  unfold header
  simp only
  by_cases short : buf.length < 4 + rre.Bpp
  · rw [if_pos short]
    exact sound_ok ⟨positive, fits, covers⟩
  · rw [if_neg short]
    apply (sound_inBytes (by omega)).bind
    intro ⟨number, stream⟩ ⟨_, left⟩
    apply (sound_inBytes (by omega)).bind
    intro ⟨pixel, buf'⟩ ⟨length, _⟩
    have room : 0 + sizeOfInt (rre.rect.cx * rre.rect.cy * rre.Bpp) / rre.Bpp * pixel.length ≤
        rre.rreRaw.length := by
      rw [sizeOfInt_eq fits, length, covers, Nat.zero_add]
      exact Nat.div_mul_le_self _ _
    apply (layPixels_sound _ _ room).bind
    intro rreRaw same
    exact sound_ok ⟨positive, fits, same.trans covers⟩

theorem data_sound (reserved : rre.Reserved) {buf : List Byte} (state : rre.state = .data)
    (allowed : rre.Allowed buf) :
    Sound (rre.data buf) fun answer => answer.encoder.Reserved := by
  unfold data
  by_cases last : rre.numberOfSubrectanglesRemain = 0
  · rw [if_pos last]
    apply (drawTiles_sound (Nat.le_of_eq reserved.covers.symm)).bind
    intro drawn _
    exact sound_ok ⟨reserved.positive, reserved.fits, reserved.covers⟩
  · rw [if_neg last]
    by_cases short : buf.length < 8 + rre.Bpp
    · rw [if_pos short]
      exact sound_ok reserved
    · rw [if_neg short]
      have long : 8 + rre.Bpp ≤ buf.length := by omega
      have taken := rre.subrectangle_sound long
      cases read : rre.subrectangle buf with
      | error fault =>
        rw [read] at taken
        cases fault with
        | outOfBounds => exact taken.elim
        | raised error => exact sound_raised error
      | ok result =>
        obtain ⟨subrec, rest⟩ := result
        rw [read] at taken
        have inside := allowed subrec ⟨state, last, long, rest, read⟩
        apply (draw_sound reserved taken inside).bind
        intro rreRaw same
        exact sound_ok ⟨reserved.positive, reserved.fits, same.trans reserved.covers⟩

theorem call_sound (reserved : rre.Reserved) {buf : List Byte} (allowed : rre.Allowed buf) :
    Sound (rre.call buf) fun answer => answer.encoder.Reserved := by
  unfold call
  cases state : rre.state with
  | header => exact header_sound reserved buf
  | data => exact data_sound reserved state allowed
  | exit => exact sound_ok reserved

/-- A call is good exactly when the next subrectangle lies inside of the rectangle. -/
theorem good_iff (reserved : rre.Reserved) (buf : List Byte) :
    rre.Good buf ↔ rre.Allowed buf := by
  constructor
  · intro good subrec next
    by_contra outside
    obtain ⟨error, raised⟩ := good.outside subrec next outside
    obtain ⟨state, more, long, rest, read⟩ := next
    rw [call, state] at raised
    simp only [data, if_neg more, if_neg (Nat.not_lt.mpr long), read, ok_bind] at raised
    cases drawn : rre.draw subrec with
    | ok rreRaw =>
      rw [drawn] at raised
      cases raised
    | error fault =>
      rw [drawn] at raised
      cases raised
      exact draw_ne_raised rre subrec error drawn
  · intro allowed
    refine ⟨(call_sound reserved allowed).mono fun _ _ => trivial, ?_⟩
    intro subrec next outside
    exact absurd (allowed subrec next) outside

/-- Where the size of the rectangle fits an `int`, its memory is reserved. -/
theorem make_reserved (memory : Nat → Byte) {Bpp : Nat} {rect : Rect} (positive : 0 < Bpp)
    (fits : rect.cx * rect.cy * Bpp < 2 ^ 31) :
    Sound (make memory Bpp rect) fun rre => rre.Reserved := by
  unfold make
  simp only [sizeOfInt_eq fits]
  rw [if_neg (by unfold vectorMaxSize; omega)]
  refine sound_ok ⟨positive, fits, ?_⟩
  simp

end RRE

end Redemption.Vnc
