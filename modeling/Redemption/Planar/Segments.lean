import Mathlib.Data.List.GetD
import Redemption.Foundation.Sound

/-! RDP 6.0 bitmaps: the planes of a bitmap, run-length encoded or raw, and the image made of
them. -/
namespace Redemption.Planar

open Redemption.Foundation

inductive ErrorId where
  | assertionFailed
  deriving DecidableEq, Repr

/-- `align4`, a `uint16_t`. -/
def align4 (value : Nat) : Nat := (value + 3) / 4 * 4 % 2 ^ 16

/-- What the loop of `decompress_color_plane` works on. `line_start` is left out: it is moved
from line to line, but nothing is written through it. -/
structure Decompressing (capacity : Nat) where
  data : List Byte
  memory : Buffer Byte capacity
  writePoint : Nat
  lineSize : Nat
  size : Nat

/-- How many raw bytes and how many repeated ones a control byte announces. -/
def controlLengths (controlByte : Byte) : Nat × Nat :=
  let nRunLength := (controlByte &&& 0x0F).toNat
  let cRawBytes := ((controlByte &&& 0xF0) >>> 4).toNat
  if nRunLength = 1 then (0, 16 + cRawBytes)
  else if nRunLength = 2 then
    if cRawBytes = 15 then (0, 47) else (0, 32 + cRawBytes)
  else (cRawBytes, nRunLength)

section Model

variable {capacity : Nat}

namespace Decompressing

/-- So many bytes have been written; `line_size` is a `uint16_t` and `size` a `uint32_t`. -/
def advance (state : Decompressing capacity) (count : Nat) : Decompressing capacity :=
  { state with
    writePoint := state.writePoint + count
    lineSize := (state.lineSize + 2 ^ 16 - count) % 2 ^ 16
    size := (state.size + 2 ^ 32 - count) % 2 ^ 32 }

def copyRaw (cRawBytes : Nat) (state : Decompressing capacity) :
    Checked ErrorId (Decompressing capacity) :=
  if cRawBytes = 0 then .ok state
  else do
    let (raw, data) ← inBytes cRawBytes state.data
    let memory ← state.memory.storeBlock state.writePoint raw
    return { state with data, memory }.advance cRawBytes

/-- Zeros at the start of a line, else the byte before. -/
def repeated (srcCx : Nat) (state : Decompressing capacity) : Checked ErrorId Byte :=
  if state.lineSize = srcCx then .ok 0 else state.memory.load (state.writePoint - 1)

def repeatLast (srcCx nRunLength : Nat) (state : Decompressing capacity) :
    Checked ErrorId (Decompressing capacity) :=
  if nRunLength = 0 then .ok state
  else do
    let value ← state.repeated srcCx
    let memory ← state.memory.storeBlock state.writePoint (List.replicate nRunLength value)
    return { state with memory }.advance nRunLength

def endLine (srcCx : Nat) (state : Decompressing capacity) : Decompressing capacity :=
  if state.lineSize = 0 then { state with lineSize := srcCx } else state

/-- One round of the loop, behind its control byte. -/
def segment (srcCx : Nat) (controlByte : Byte) (state : Decompressing capacity) :
    Checked ErrorId (Decompressing capacity) := do
  let state ← state.copyRaw (controlLengths controlByte).1
  let state ← state.repeatLast srcCx (controlLengths controlByte).2
  return state.endLine srcCx

/-- The loop. Each round reads at least one byte, so that no bytes are left after as many rounds
as there are bytes. -/
def run (srcCx : Nat) : Nat → Decompressing capacity → Checked ErrorId (Decompressing capacity)
  | 0, state => if state.size = 0 then .ok state else .error (.raised .assertionFailed)
  | rounds + 1, state =>
    if state.size = 0 then .ok state
    else match state.data with
      | [] => .error (.raised .assertionFailed)
      | controlByte :: data => do
        let state ← segment srcCx controlByte { state with data }
        run srcCx rounds state

end Decompressing

/-- What is to be added to the byte above. -/
def undelta (delta : Byte) : Byte :=
  if delta.toNat % 2 = 0 then delta >>> 1 else 255 - ((delta - 1) >>> 1)

/-- One step of the pass over the deltas. -/
def addAbove (cx position : Nat) (memory : Buffer Byte capacity) :
    Checked ErrorId (Buffer Byte capacity) := do
  let delta ← memory.load position
  let above ← memory.load (position - cx)
  memory.store position (above + undelta delta)

def deltaLine (srcCx cx yposBegin : Nat) (memory : Buffer Byte capacity) :
    Checked ErrorId (Buffer Byte capacity) :=
  (List.range' 0 srcCx).foldlM (fun memory x => addAbove cx (yposBegin + x) memory) memory

/-- The pass over the deltas: from the second line on, and none if lines have no width. -/
def deltaPass (srcCx srcCy cx colorPlane : Nat) (memory : Buffer Byte capacity) :
    Checked ErrorId (Buffer Byte capacity) :=
  (List.range' 1 (if cx = 0 then 0 else srcCy - 1)).foldlM
    (fun memory y => deltaLine srcCx cx (colorPlane + cx * y) memory) memory

def decompressColorPlane (srcCx srcCy cx colorPlane : Nat) (data : List Byte)
    (memory : Buffer Byte capacity) : Checked ErrorId (List Byte × Buffer Byte capacity) := do
  let state ← Decompressing.run srcCx data.length
    ⟨data, memory, colorPlane, srcCx, srcCx * srcCy⟩
  let memory ← deltaPass srcCx srcCy cx colorPlane state.memory
  return (state.data, memory)

/-- `in_copy_color_plan`. -/
def inCopyColorPlan (srcCx srcCy cx colorPlane : Nat) (data : List Byte)
    (memory : Buffer Byte capacity) : Checked ErrorId (List Byte × Buffer Byte capacity) :=
  (List.range' 0 srcCy).foldlM (fun (data, memory) y => do
    let (line, data) ← inBytes srcCx data
    let memory ← memory.storeBlock (colorPlane + cx * y) line
    return (data, memory)) (data, memory)

/-- One pixel, of `bytes_per_color` bytes. -/
def pixelBytes (bytesPerColor : Nat) (r g b : Byte) : List Byte :=
  leBytes bytesPerColor (0xFF <<< 24 ||| r.toNat <<< 16 ||| g.toNat <<< 8 ||| b.toNat)

/-- `copy_planes`: the pixels of an image, in the order of its memory. -/
def copyPlanes (bytesPerColor count redPlane greenPlane bluePlane : Nat)
    (memory : Buffer Byte capacity) : Checked ErrorId (List (List Byte)) :=
  (List.range count).mapM fun index => do
    let r ← memory.load (redPlane + index)
    let g ← memory.load (greenPlane + index)
    let b ← memory.load (bluePlane + index)
    return pixelBytes bytesPerColor r g b

end Model

inductive BitsPerPixel where
  | bpp24 | bpp32
  deriving DecidableEq, Repr

def BitsPerPixel.bytesPerColor : BitsPerPixel → Nat
  | .bpp24 => 3
  | .bpp32 => 4

/-- The bytes that are allocated for the planes of an image; a `uint32_t`. -/
def planesSize (cx cy : Nat) : Nat := cx * cy * 3 % 2 ^ 32

/-- What is done with one colour plane after the other. -/
def colorPlanes {capacity : Nat} (rle noAlphaPlane : Bool)
    (srcCx srcCy cx colorPlaneSize : Nat) (data : List Byte) (memory : Buffer Byte capacity) :
    Checked ErrorId (Nat × Buffer Byte capacity) :=
  if rle then do
    let (data, memory) ←
      if noAlphaPlane then .ok (data, memory)
      else decompressColorPlane srcCx srcCy cx 0 data memory
    let (data, memory) ← decompressColorPlane srcCx srcCy cx 0 data memory
    let (data, memory) ← decompressColorPlane srcCx srcCy cx colorPlaneSize data memory
    let (data, memory) ←
      decompressColorPlane srcCx srcCy cx (colorPlaneSize * 2 % 2 ^ 32) data memory
    return (data.length, memory)
  else do
    let (_, data) ← if noAlphaPlane then .ok ([], data) else inBytes (srcCx * srcCy) data
    let (data, memory) ← inCopyColorPlan srcCx srcCy cx 0 data memory
    let (data, memory) ← inCopyColorPlan srcCx srcCy cx colorPlaneSize data memory
    let (data, memory) ←
      inCopyColorPlan srcCx srcCy cx (colorPlaneSize * 2 % 2 ^ 32) data memory
    return ((data.length + 2 ^ 64 - 1) % 2 ^ 64, memory)

/-- `rle_decompress60`, with what is in the memory that it allocates: the pixels of the image, or
nothing for the compression options that are not supported. -/
def rleDecompress60 (bitsPerPixel : BitsPerPixel) (cx cy srcCx srcCy : Nat)
    (memory : Buffer Byte (planesSize cx cy)) (data : List Byte) :
    Checked ErrorId (Option (List (List Byte))) := do
  let (formatHeader, data) ← inUint8 data
  let colorLossLevel := formatHeader &&& 0x07
  let chromaSubsampling := (formatHeader &&& 0x08) >>> 3 == 1
  let rle := (formatHeader &&& 0x10) >>> 4 == 1
  let noAlphaPlane := (formatHeader &&& 0x20) >>> 5 == 1
  if colorLossLevel ≠ 0 ∨ chromaSubsampling then return none
  else
    let colorPlaneSize := cx * cy
    let (dataSize, memory) ←
      colorPlanes rle noAlphaPlane srcCx srcCy cx colorPlaneSize data memory
    if dataSize ≠ 0 then .error (.raised .assertionFailed)
    else
      let pixels ← copyPlanes bitsPerPixel.bytesPerColor (cx * cy) 0 colorPlaneSize
        (colorPlaneSize * 2 % 2 ^ 32) memory
      return some pixels

/-! Run-length encoded planes: what their segments stand for, and what the loop of
`decompress_color_plane` writes for them. -/

/-- Raw bytes, and how many times the last byte comes again: runs of 16 and more have a control
byte of their own and no raw bytes. -/
structure Segment where
  raw : List Byte
  count : Nat
  spelled : (raw.length ≤ 15 ∧ (count = 0 ∨ 3 ≤ count ∧ count ≤ 15)) ∨
    (raw = [] ∧ 16 ≤ count ∧ count ≤ 47)

namespace Segment

def size (segment : Segment) : Nat := segment.raw.length + segment.count

def control (segment : Segment) : Byte :=
  if segment.count < 16 then BitVec.ofNat 8 (segment.raw.length * 16 + segment.count)
  else if segment.count < 32 then BitVec.ofNat 8 ((segment.count - 16) * 16 + 1)
  else BitVec.ofNat 8 ((segment.count - 32) * 16 + 2)

def bytes (segment : Segment) : List Byte := segment.control :: segment.raw

/-- The last byte after a segment, which followed `last`. -/
def lastByte (segment : Segment) (last : Byte) : Byte := segment.raw.getLast?.getD last

/-- The bytes of a plane that a segment stands for. -/
def values (segment : Segment) (last : Byte) : List Byte :=
  segment.raw ++ List.replicate segment.count (segment.lastByte last)

@[simp] theorem length_values (segment : Segment) (last : Byte) :
    (segment.values last).length = segment.size := by
  simp [values, size]

private theorem short_lengths : ∀ raw ≤ 15, ∀ count < 16, count = 0 ∨ 3 ≤ count →
    controlLengths (BitVec.ofNat 8 (raw * 16 + count)) = (raw, count) := by decide

private theorem long_lengths : ∀ count < 16,
    controlLengths (BitVec.ofNat 8 (count * 16 + 1)) = (0, 16 + count) ∧
      controlLengths (BitVec.ofNat 8 (count * 16 + 2)) = (0, 32 + count) := by decide

theorem controlLengths_control (segment : Segment) :
    controlLengths segment.control = (segment.raw.length, segment.count) := by
  obtain ⟨raw, count, spelled⟩ := segment
  unfold control
  rcases spelled with ⟨few, short⟩ | ⟨none, long, bounded⟩
  · have small : count < 16 := by omega
    simp only [small, if_true]
    exact short_lengths raw.length few count small (by omega)
  · subst none
    have large : ¬ count < 16 := by omega
    simp only [large, if_false, List.length_nil]
    split
    · have lengths := (long_lengths (count - 16) (by omega)).1
      rwa [show 16 + (count - 16) = count by omega] at lengths
    · have lengths := (long_lengths (count - 32) (by omega)).2
      rwa [show 32 + (count - 32) = count by omega] at lengths

end Segment

/-- Segments that fill so many bytes; none comes behind the last of them. -/
def Fills : Nat → List Segment → Prop
  | width, [] => width = 0
  | width, segment :: rest =>
    0 < width ∧ segment.size ≤ width ∧ Fills (width - segment.size) rest

/-- One line of a plane. -/
structure Line (width : Nat) where
  segments : List Segment
  fills : Fills width segments

/-- The bytes that segments stand for, behind a last byte. -/
def segmentValues : List Segment → Byte → List Byte
  | [], _ => []
  | segment :: rest, last =>
    segment.values last ++ segmentValues rest ((segment.values last).getLast?.getD last)

theorem length_segmentValues {width : Nat} {segments : List Segment} (fills : Fills width segments)
    (last : Byte) : (segmentValues segments last).length = width := by
  induction segments generalizing width last with
  | nil => exact fills.symm
  | cons segment rest ih =>
    obtain ⟨_, fits, later⟩ := fills
    rw [segmentValues, List.length_append, ih later, Segment.length_values]
    omega

namespace Line

variable {width : Nat}

def bytes (line : Line width) : List Byte := line.segments.flatMap Segment.bytes

/-- A line starts as if a zero was before it. -/
def values (line : Line width) : List Byte := segmentValues line.segments 0

@[simp] theorem length_values (line : Line width) : line.values.length = width :=
  length_segmentValues line.fills 0

end Line

/-- An encoded plane of a bitmap. -/
structure Plane (width height : Nat) where
  lines : List (Line width)
  count : lines.length = height

namespace Plane

variable {width height : Nat}

def bytes (plane : Plane width height) : List Byte := plane.lines.flatMap Line.bytes

/-- The bytes of all lines, one line right behind the other. -/
def values (plane : Plane width height) : List Byte := plane.lines.flatMap Line.values

end Plane

section Run

variable {capacity : Nat}

theorem splice_splice (memory : Buffer Byte capacity) (start : Nat) (first second : List Byte) :
    (memory.splice start first).splice (start + first.length) second =
      memory.splice start (first ++ second) := by
  refine congrArg Buffer.mk (funext fun index => ?_)
  by_cases behind : start + first.length ≤ index
  · have inside : start ≤ index := by omega
    have place : index - start - first.length = index - (start + first.length) := by omega
    rw [if_pos behind, if_pos inside, Buffer.cell_splice_after _ _ _ behind, List.getD_append_right
      _ _ _ _ (by omega), place]
  · rw [if_neg behind]
    by_cases inside : start ≤ index
    · rw [if_pos inside, Buffer.splice]
      simp only [inside, if_true]
      rw [List.getD_append _ _ _ _ (by omega)]
    · rw [if_neg inside, Buffer.cell_splice_before _ _ _ (by omega)]

theorem splice_nil (memory : Buffer Byte capacity) (start : Nat) :
    memory.splice start [] = memory := by
  refine congrArg Buffer.mk (funext fun index => ?_)
  simp

private theorem cell_last (memory : Buffer Byte capacity) (wp : Nat) {values : List Byte}
    {last : Byte} (before : values = [] → memory.cell (wp - 1) = last) :
    (memory.splice wp values).cell (wp + values.length - 1) = values.getLast?.getD last := by
  rcases List.eq_nil_or_concat values with none | ⟨front, byte, parts⟩
  · subst none
    rw [splice_nil]
    exact before rfl
  · rw [List.concat_eq_append] at parts
    subst parts
    have place : wp + (front ++ [byte]).length - 1 = wp + front.length := by
      rw [List.length_append, List.length_singleton]
      omega
    rw [place, Buffer.cell_splice_inside _ _ _ (by simp)]
    simp

/-- The state with so many bytes left of a line, and `more` behind it. -/
structure InLine (srcCx left more : Nat) (last : Byte) (state : Decompressing capacity) :
    Prop where
  within : left ≤ srcCx
  narrow : srcCx < 2 ^ 16
  lineSize : state.lineSize = if left = 0 then srcCx else left
  size : state.size = left + more
  small : left + more < 2 ^ 32
  start : left = srcCx → last = 0
  goesOn : left ≠ srcCx → state.memory.cell (state.writePoint - 1) = last
  room : state.writePoint + left + more ≤ capacity

private theorem copyRaw_run {left more wp : Nat} {raw rest : List Byte}
    (memory : Buffer Byte capacity) (fits : raw.length ≤ left) (narrow : left < 2 ^ 16)
    (small : left + more < 2 ^ 32) (room : wp + left + more ≤ capacity) :
    Decompressing.copyRaw raw.length ⟨raw ++ rest, memory, wp, left, left + more⟩ =
      .ok ⟨rest, memory.splice wp raw, wp + raw.length, left - raw.length,
        left - raw.length + more⟩ := by
  unfold Decompressing.copyRaw
  by_cases none : raw.length = 0
  · rw [if_pos none, List.eq_nil_of_length_eq_zero none, splice_nil]
    rfl
  · have inside : wp + raw.length ≤ capacity := by omega
    have lineSize : (left + 2 ^ 16 - raw.length) % 2 ^ 16 = left - raw.length := by omega
    have size : (left + more + 2 ^ 32 - raw.length) % 2 ^ 32 = left - raw.length + more := by
      omega
    rw [if_neg none]
    simp only [inBytes_append rfl, ok_bind, Buffer.storeBlock_of_le _ inside, pure_ok,
      Decompressing.advance, lineSize, size]

private theorem repeatLast_run {srcCx left more wp count : Nat} {data : List Byte} {value : Byte}
    (memory : Buffer Byte capacity) (fits : count ≤ left) (narrow : left < 2 ^ 16)
    (small : left + more < 2 ^ 32) (room : wp + left + more ≤ capacity)
    (start : left = srcCx → value = 0)
    (goesOn : left ≠ srcCx → memory.cell (wp - 1) = value) :
    Decompressing.repeatLast srcCx count ⟨data, memory, wp, left, left + more⟩ =
      .ok ⟨data, memory.splice wp (List.replicate count value), wp + count, left - count,
        left - count + more⟩ := by
  unfold Decompressing.repeatLast
  by_cases none : count = 0
  · rw [if_pos none, none, List.replicate_zero, splice_nil]
    rfl
  · have inside : wp + (List.replicate count value).length ≤ capacity := by
      rw [List.length_replicate]
      omega
    have lineSize : (left + 2 ^ 16 - count) % 2 ^ 16 = left - count := by omega
    have size : (left + more + 2 ^ 32 - count) % 2 ^ 32 = left - count + more := by omega
    have read : Decompressing.repeated srcCx
        (⟨data, memory, wp, left, left + more⟩ : Decompressing capacity) = .ok value := by
      unfold Decompressing.repeated
      by_cases first : left = srcCx
      · rw [if_pos first, start first]
      · rw [if_neg first, Buffer.load_of_lt _ (by show wp - 1 < capacity; omega), goesOn first]
    rw [if_neg none]
    simp only [read, ok_bind, Buffer.storeBlock_of_le _ inside, pure_ok,
      Decompressing.advance, lineSize, size]

private theorem endLine_eq (srcCx : Nat) (state : Decompressing capacity) :
    state.endLine srcCx =
      { state with lineSize := if state.lineSize = 0 then srcCx else state.lineSize } := by
  unfold Decompressing.endLine
  split <;> rfl

/-- What a segment does to the state that is behind its control byte. -/
theorem segment_run {srcCx left more : Nat} {last : Byte} {state : Decompressing capacity}
    (inLine : InLine srcCx left more last state) (segment : Segment) (some : 0 < left)
    (fits : segment.size ≤ left) (rest : List Byte) :
    ∃ next, Decompressing.segment srcCx segment.control
          { state with data := segment.raw ++ rest } = .ok next ∧
      next.data = rest ∧
      next.memory = state.memory.splice state.writePoint (segment.values last) ∧
      next.writePoint = state.writePoint + segment.size ∧
      InLine srcCx (left - segment.size) more ((segment.values last).getLast?.getD last) next := by
  obtain ⟨within, narrow, lineSize, size, small, start, goesOn, room⟩ := inLine
  obtain ⟨data, memory, wp, lineSize', size'⟩ := state
  simp only at lineSize size goesOn room ⊢
  subst size
  rw [if_neg (by omega)] at lineSize
  subst lineSize
  have whole : segment.size = segment.raw.length + segment.count := rfl
  have copied := @copyRaw_run _ lineSize' more wp segment.raw rest memory (by omega) (by omega)
    small room
  have before : lineSize' - segment.raw.length ≠ srcCx →
      (memory.splice wp segment.raw).cell (wp + segment.raw.length - 1) =
        segment.lastByte last := by
    intro behind
    apply cell_last
    intro none
    rw [none] at behind
    exact goesOn behind
  have first : lineSize' - segment.raw.length = srcCx → segment.lastByte last = 0 := by
    intro unmoved
    have none : segment.raw = [] := List.eq_nil_of_length_eq_zero (by omega)
    rw [Segment.lastByte, none]
    exact start (by omega)
  have repeated := @repeatLast_run _ srcCx (lineSize' - segment.raw.length) more
    (wp + segment.raw.length) segment.count rest (segment.lastByte last)
    (memory.splice wp segment.raw) (by omega) (by omega) (by omega) (by omega) first before
  rw [splice_splice] at repeated
  have left : lineSize' - segment.raw.length - segment.count = lineSize' - segment.size := by omega
  have behind : wp + segment.raw.length + segment.count = wp + segment.size := by omega
  rw [left, behind] at repeated
  refine ⟨Decompressing.endLine srcCx ⟨rest, memory.splice wp (segment.values last),
    wp + segment.size, lineSize' - segment.size, lineSize' - segment.size + more⟩, ?_, ?_⟩
  · simp only [Decompressing.segment, segment.controlLengths_control, copied, ok_bind, repeated,
      pure_ok, Segment.values]
  · rw [endLine_eq]
    refine ⟨rfl, rfl, rfl, ?_⟩
    refine ⟨by omega, narrow, rfl, rfl, by omega, ?_, ?_, ?_⟩
    · intro unmoved
      have none : segment.values last = [] :=
        List.eq_nil_of_length_eq_zero (by rw [segment.length_values]; omega)
      rw [none]
      exact start (by omega)
    · intro moved
      have written := @cell_last _ memory wp (segment.values last) last fun none => by
        have size := segment.length_values last
        rw [none, List.length_nil] at size
        exact goesOn (by omega)
      rwa [segment.length_values] at written
    · show wp + segment.size + (lineSize' - segment.size) + more ≤ capacity
      omega

theorem line_run {srcCx left more rounds : Nat} {last : Byte} {state : Decompressing capacity}
    (inLine : InLine srcCx left more last state) {segments : List Segment}
    (fills : Fills left segments) {rest : List Byte}
    (data : state.data = segments.flatMap Segment.bytes ++ rest)
    (enough : state.data.length ≤ rounds) :
    ∃ rounds' next, Decompressing.run srcCx rounds state = Decompressing.run srcCx rounds' next ∧
      rest.length ≤ rounds' ∧ next.data = rest ∧
      next.memory = state.memory.splice state.writePoint (segmentValues segments last) ∧
      next.writePoint = state.writePoint + left ∧ next.lineSize = srcCx ∧ next.size = more := by
  induction segments generalizing left last state rounds with
  | nil =>
    have none : left = 0 := fills
    have lineSize := inLine.lineSize
    have size := inLine.size
    rw [List.flatMap_nil, List.nil_append] at data
    rw [if_pos none] at lineSize
    refine ⟨rounds, state, rfl, data ▸ enough, data, ?_, by omega, lineSize, by omega⟩
    rw [segmentValues, splice_nil]
  | cons segment others ih =>
    obtain ⟨some, fits, later⟩ := fills
    rw [List.flatMap_cons, List.append_assoc, Segment.bytes, List.cons_append] at data
    obtain ⟨next, ran, data', memory, writePoint, inLine'⟩ := segment_run inLine segment some fits
      (others.flatMap Segment.bytes ++ rest)
    rw [data, List.length_cons, List.length_append] at enough
    cases rounds with
    | zero => omega
    | succ rounds =>
      obtain ⟨rounds', final, ran', enough', data'', memory', writePoint', lineSize, size⟩ :=
        @ih _ rounds _ next inLine' later data' (by rw [data']; omega)
      have goesOn : ¬ state.size = 0 := by
        rw [inLine.size]
        omega
      refine ⟨rounds', final, ?_, enough', data'', ?_, by omega, lineSize, size⟩
      · rw [← ran']
        simp only [Decompressing.run, goesOn, if_false, data, ran, ok_bind]
      · rw [memory', memory, writePoint, segmentValues, ← splice_splice, Segment.length_values]

theorem lines_run {srcCx : Nat} (narrow : srcCx < 2 ^ 16) {lines : List (Line srcCx)}
    {rounds : Nat} {state : Decompressing capacity} {rest : List Byte}
    (lineSize : state.lineSize = srcCx) (size : state.size = srcCx * lines.length)
    (small : srcCx * lines.length < 2 ^ 32)
    (room : state.writePoint + srcCx * lines.length ≤ capacity)
    (data : state.data = lines.flatMap Line.bytes ++ rest)
    (enough : state.data.length ≤ rounds) :
    ∃ next, Decompressing.run srcCx rounds state = .ok next ∧ next.data = rest ∧
      next.memory = state.memory.splice state.writePoint (lines.flatMap Line.values) := by
  induction lines generalizing state rounds with
  | nil =>
    have none : state.size = 0 := size
    refine ⟨state, ?_, data, ?_⟩
    · cases rounds <;> simp only [Decompressing.run, none, if_true]
    · rw [List.flatMap_nil, splice_nil]
  | cons line others ih =>
    rw [List.length_cons, Nat.mul_succ] at size small room
    rw [List.flatMap_cons, List.append_assoc] at data
    have inLine : InLine srcCx srcCx (srcCx * others.length) 0 state :=
      ⟨Nat.le_refl _, narrow, by split <;> omega, by omega, by omega, fun _ => rfl,
        fun absurd => (absurd rfl).elim, by omega⟩
    obtain ⟨rounds', next, ran, enough', data', memory, writePoint, lineSize', size'⟩ :=
      line_run inLine line.fills data enough
    obtain ⟨final, ran', data'', memory'⟩ := @ih rounds' next lineSize' size' (by omega)
      (by omega) data' (by rw [data']; exact enough')
    refine ⟨final, ran.trans ran', data'', ?_⟩
    have whole := line.length_values
    rw [memory', memory, writePoint, List.flatMap_cons, ← splice_splice, whole]
    rfl

/-- The loop lays the lines of a plane one right behind the other. -/
theorem plane_run {srcCx srcCy colorPlane : Nat} (plane : Plane srcCx srcCy)
    (narrow : srcCx < 2 ^ 16) (flat : srcCy < 2 ^ 16) (memory : Buffer Byte capacity)
    (room : colorPlane + srcCx * srcCy ≤ capacity) (rest : List Byte) :
    ∃ next, Decompressing.run srcCx (plane.bytes ++ rest).length
        ⟨plane.bytes ++ rest, memory, colorPlane, srcCx, srcCx * srcCy⟩ = .ok next ∧
      next.data = rest ∧ next.memory = memory.splice colorPlane plane.values := by
  obtain ⟨lines, count⟩ := plane
  subst count
  have small : srcCx * lines.length < 2 ^ 32 := by
    calc srcCx * lines.length < 2 ^ 16 * 2 ^ 16 :=
          Nat.mul_lt_mul'' narrow flat
      _ = 2 ^ 32 := by decide
  exact lines_run narrow rfl rfl small room rfl (Nat.le_refl _)

end Run

end Redemption.Planar
