import Redemption.Capture.ImageChunkSpec
import Redemption.Capture.PixelRows

/-! An image that is embedded, and what the consumers are given of it. -/
namespace Redemption.Capture

open Redemption.Foundation

namespace Libpng

variable (png : Libpng)

/-- What is given to the write function for rows. -/
def writeRows : List (List Byte) → png.Writer → List (List Byte) × png.Writer
  | [], writer => ([], writer)
  | row :: rows, writer =>
    let (buffers, writer) := png.writeRow writer row
    let (buffers', writer) := writeRows rows writer
    (buffers ++ buffers', writer)

/-- An image, as it is written. -/
def stream (width : Nat) (rows : List (List Byte)) : List Byte :=
  let (buffers, writer) := png.writeInfo width rows.length
  let (buffers', writer) := png.writeRows rows writer
  (buffers ++ buffers' ++ png.writeEnd writer).flatten

/-- Rows are read of a stream. -/
def takeRows : Nat → png.Reader → List Byte → Option (List (List Byte) × png.Reader × List Byte)
  | 0, reader, stream => some ([], reader, stream)
  | count + 1, reader, stream => do
    let ((row, reader), stream) ← (png.readRow reader).take stream
    let (rows, reader, stream) ← takeRows count reader stream
    return (row :: rows, reader, stream)

/-- The size of the rows of a stream, the rows, and what is behind them. -/
def restore (stream : List Byte) : Option (Nat × List (List Byte) × List Byte) := do
  let ((height, rowsize, reader), stream) ← png.readInfo.take stream
  let (rows, reader, stream) ← png.takeRows height reader stream
  let (_, stream) ← (png.readEnd reader).take stream
  return (rowsize, rows, stream)

/-- Rows are restored from what has been written for them: all of it is read, and it is something. -/
structure Restores (width : Nat) (rows : List (List Byte)) : Prop where
  some : png.stream width rows ≠ []
  rows : png.restore (png.stream width rows) = .some (3 * width, rows, [])

end Libpng

variable {γ : Type} {png : Libpng} {width : Nat}

section Write

theorem sendAll_append (trans : OutChunkedBuffering) (front back : List (List Byte)) :
    sendAll trans (front ++ back) = sendAll (sendAll trans front) back := List.foldl_append

theorem dumpRows_ok {rows : List (List Byte)} (lengths : ∀ row ∈ rows, row.length = 3 * width)
    (writer : png.Writer) (pngTrans : OutChunkedBuffering) :
    dumpRows png true width rows writer pngTrans =
      .ok ((png.writeRows (rows.map rgb) writer).2,
        sendAll pngTrans (png.writeRows (rows.map rgb) writer).1) := by
  induction rows generalizing writer pngTrans with
  | nil => rfl
  | cons row rows ih =>
    have swapped := bgrRow_ok (lengths row List.mem_cons_self)
    have rest := ih fun row member => lengths row (List.mem_cons_of_mem _ member)
    rw [dumpRows, if_pos rfl, swapped, ok_bind]
    simp only [rest, List.map_cons, Libpng.writeRows, sendAll_append]

/-- What is sent are full chunks, and one that is not empty at the end. -/
theorem sendImageChunk_ok {rows : List (List Byte)}
    (lengths : ∀ row ∈ rows, row.length = 3 * width)
    (some : png.stream width (rows.map rgb) ≠ []) :
    ∃ (partials : List (List Byte)) (last : List Byte), sendImageChunk png width rows true =
        .ok (partials.flatMap (imageChunk .partialImageChunk) ++
          imageChunk .lastImageChunk last) ∧
      (∀ data ∈ partials, data.length = OutChunkedBuffering.max) ∧ last ≠ [] ∧
      last.length ≤ OutChunkedBuffering.max ∧
      partials.flatten ++ last = png.stream width (rows.map rgb) := by
  have start : OutChunkedBuffering.Buffers ⟨[], []⟩ [] [] :=
    ⟨fun _ none => absurd none List.not_mem_nil, rfl, rfl, Nat.zero_le _⟩
  have sent : dumpPng24 png ⟨[], []⟩ width rows true = .ok (sendAll ⟨[], []⟩
      ((png.writeInfo width rows.length).1 ++
        (png.writeRows (rows.map rgb) (png.writeInfo width rows.length).2).1 ++
        png.writeEnd (png.writeRows (rows.map rgb) (png.writeInfo width rows.length).2).2)).flush := by
    rw [dumpPng24]
    simp only [dumpRows_ok lengths, ok_bind, pure_ok, sendAll_append]
  obtain ⟨partials, buffers, last⟩ := start.sendAll (fun none => absurd rfl none)
    ((png.writeInfo width rows.length).1 ++
      (png.writeRows (rows.map rgb) (png.writeInfo width rows.length).2).1 ++
      png.writeEnd (png.writeRows (rows.map rgb) (png.writeInfo width rows.length).2).2)
  have whole : png.stream width (rows.map rgb) = ((png.writeInfo width rows.length).1 ++
      (png.writeRows (rows.map rgb) (png.writeInfo width rows.length).2).1 ++
      png.writeEnd (png.writeRows (rows.map rgb) (png.writeInfo width rows.length).2).2).flatten := by
    rw [Libpng.stream]
    simp only [List.length_map]
  rw [List.nil_append, ← whole] at buffers last
  refine ⟨partials, _, ?_, buffers.full, last some, buffers.room, buffers.whole⟩
  rw [sendImageChunk, sent, ok_bind, pure_ok, buffers.flush (last some)]

end Write

section Read

/-- The calls of `set_row` for rows from the row `k` on. -/
def setRows (consumers : List γ) (k : Nat) (rows : List (List Byte)) : List (SetRow γ) :=
  (rows.zipIdx k).flatMap fun row => consumers.map (⟨·, row.2, row.1⟩)

theorem readRows_ok (consumers : List γ) (small : width ≤ 8192) {rows : List (List Byte)}
    (lengths : ∀ row ∈ rows, row.length = 3 * width) {behind stream rest : List Byte}
    {k : Nat} {reader reader' : png.Reader} {tmp : Buffer Byte tmpSize} {image : InChunkedImage}
    (taken : png.takeRows rows.length reader stream = some (rows, reader', rest))
    (held : InChunkedImage.Holds behind image stream) :
    ∃ image', readRows png width (3 * width) consumers rows.length k reader tmp image =
        .ok (setRows consumers k (rows.map (grouped width)), reader', image') ∧
      InChunkedImage.Holds behind image' rest := by
  induction rows generalizing k reader stream tmp image with
  | nil =>
    cases taken
    exact ⟨image, rfl, held⟩
  | cons row rows ih =>
    rw [List.length_cons, Libpng.takeRows, Option.bind_eq_bind, Option.bind_eq_some_iff] at taken
    obtain ⟨⟨⟨row', middle⟩, stream'⟩, first, taken⟩ := taken
    rw [Option.bind_eq_bind, Option.bind_eq_some_iff] at taken
    obtain ⟨⟨rows', last, rest'⟩, later, same⟩ := taken
    cases same
    obtain ⟨image', served, held'⟩ :=
      Demand.serve_of_take (InChunkedImage.serves_readData behind) first held
    obtain ⟨tmp', tmp'', stored, swapped, given⟩ :=
      @tmp_ok tmp width row (lengths row List.mem_cons_self) small
    obtain ⟨image'', read, held''⟩ := @ih (fun row member => lengths row (List.mem_cons_of_mem _ member))
      stream' (k + 1) middle tmp'' image' later held'
    refine ⟨image'', ?_, held''⟩
    rw [List.length_cons, readRows, served, ok_bind]
    simp only [stored, ok_bind, swapped, given, read, pure_ok]
    rfl

theorem length_takeRows {count : Nat} {reader reader' : png.Reader} {stream rest : List Byte}
    {rows : List (List Byte)}
    (taken : png.takeRows count reader stream = some (rows, reader', rest)) :
    rows.length = count := by
  induction count generalizing reader stream rows with
  | zero =>
    cases taken
    rfl
  | succ count ih =>
    rw [Libpng.takeRows, Option.bind_eq_bind, Option.bind_eq_some_iff] at taken
    obtain ⟨⟨⟨row, middle⟩, stream'⟩, first, taken⟩ := taken
    rw [Option.bind_eq_bind, Option.bind_eq_some_iff] at taken
    obtain ⟨⟨rows', last, rest'⟩, later, same⟩ := taken
    cases same
    rw [List.length_cons, ih later]

theorem setRowsFromImageChunk_ok (consumers : List γ) (small : width ≤ 8192)
    {rows : List (List Byte)} (lengths : ∀ row ∈ rows, row.length = 3 * width)
    {behind stream trans : List Byte} {chunkType : WrmChunkType} {chunkSize : BitVec 32}
    {tmp : Buffer Byte tmpSize} {image : InChunkedImage}
    (restored : png.restore stream = some (3 * width, rows, []))
    (started : InChunkedImage.start chunkType chunkSize trans = .ok image)
    (held : InChunkedImage.Holds behind image stream) :
    setRowsFromImageChunk png chunkType chunkSize width consumers tmp trans =
      .ok (setRows consumers 0 (rows.map (grouped width)), behind) := by
  have serves := InChunkedImage.serves_readData behind
  rw [Libpng.restore, Option.bind_eq_bind, Option.bind_eq_some_iff] at restored
  obtain ⟨⟨⟨height, rowsize, reader⟩, stream'⟩, info, restored⟩ := restored
  rw [Option.bind_eq_bind, Option.bind_eq_some_iff] at restored
  obtain ⟨⟨rows', reader', stream''⟩, taken, restored⟩ := restored
  rw [Option.bind_eq_bind, Option.bind_eq_some_iff] at restored
  obtain ⟨⟨_, stream'''⟩, ended, same⟩ := restored
  cases same
  obtain ⟨image', served, held'⟩ := Demand.serve_of_take serves info held
  obtain rfl := length_takeRows taken
  obtain ⟨image'', read, held''⟩ :=
    @readRows_ok γ png width consumers small rows lengths behind stream' stream'' 0 reader reader' tmp
      image' taken held'
  obtain ⟨last, served', held'''⟩ := Demand.serve_of_take serves ended held''
  rw [setRowsFromImageChunk, started, ok_bind, served, ok_bind]
  simp only [read, ok_bind, served', pure_ok, held'''.ends]

end Read

section RoundTrip

variable {rows : List (List Byte)}

/-- An image is sent in full chunks and one last chunk, none of which is too long; from the first of
them on, these chunks are read, and nothing behind them, and each consumer is given each row. -/
def RoundTrips (png : Libpng) (width : Nat) (rows given : List (List Byte)) : Prop :=
  ∃ (partials : List (List Byte)) (last sent : List Byte),
    sendImageChunk png width rows true = .ok sent ∧
    sent = partials.flatMap (imageChunk .partialImageChunk) ++ imageChunk .lastImageChunk last ∧
    (∀ data ∈ partials ++ [last], wrmHeaderSize + data.length ≤ 65536) ∧
    ∀ (γ : Type) (consumers : List γ) (tmp : Buffer Byte tmpSize) (behind : List Byte),
      ∃ header rest, recvBoom wrmHeaderSize wrmHeaderSize (sent ++ behind) = .ok (header, rest) ∧
        setRowsFromImageChunk png (WrmHeader.ofBytes header).chunkType
          (WrmHeader.ofBytes header).chunkSize width consumers tmp rest =
            .ok (setRows consumers 0 given, behind)

theorem roundTrips_grouped (small : width ≤ 8192) (lengths : ∀ row ∈ rows, row.length = 3 * width)
    (restores : png.Restores width (rows.map rgb)) :
    RoundTrips png width rows (rows.map fun row => grouped width (rgb row)) := by
  obtain ⟨partials, last, sent, full, some, room, whole⟩ := sendImageChunk_ok lengths restores.some
  have lengths' : ∀ row ∈ rows.map rgb, row.length = 3 * width := by
    intro row member
    obtain ⟨row', member', rfl⟩ := List.mem_map.mp member
    rw [length_rgb]
    exact lengths row' member'
  refine ⟨partials, last, _, sent, rfl, ?_, ?_⟩
  · intro data member
    have fits : data.length ≤ OutChunkedBuffering.max := by
      rcases List.mem_append.mp member with before | last'
      · exact (full data before).le
      · rw [List.mem_singleton.mp last']
        exact room
    rw [OutChunkedBuffering.max] at fits
    rw [wrmHeaderSize]
    omega
  · intro γ consumers tmp behind
    obtain ⟨chunkType, data, rest, wire, fits, held⟩ :=
      InChunkedImage.holds_chunks full some room behind
    obtain ⟨header, fields⟩ := InChunkedImage.receive_header chunkType fits rest
    refine ⟨sendWrmChunk chunkType data.length 1, data ++ rest, ?_, ?_⟩
    · rw [wire]
      exact header
    · have given : (rows.map fun row => grouped width (rgb row)) =
          (rows.map rgb).map (grouped width) := by
        rw [List.map_map]
        rfl
      rw [fields, given]
      exact setRowsFromImageChunk_ok consumers small lengths' restores.rows
        (InChunkedImage.receive_chunk chunkType 1 fits rest) (whole ▸ held _ 1)

theorem map_data_setRows (k : Nat) (rows : List (List Byte)) :
    (setRows [()] k rows).map SetRow.data = rows := by
  induction rows generalizing k with
  | nil => rfl
  | cons row rows ih => exact congrArg (row :: ·) (ih (k + 1))

theorem RoundTrips.unique {given given' : List (List Byte)} (first : RoundTrips png width rows given)
    (second : RoundTrips png width rows given') : given = given' := by
  obtain ⟨_, _, sent, is, _, _, read⟩ := first
  obtain ⟨_, _, sent', is', _, _, read'⟩ := second
  cases is.symm.trans is'
  obtain ⟨header, rest, front, set⟩ := read Unit [()] (.filled 0) []
  obtain ⟨header', rest', front', set'⟩ := read' Unit [()] (.filled 0) []
  cases front.symm.trans front'
  have same := congrArg (List.map SetRow.data) (Prod.ext_iff.mp
    (Except.ok.inj (set.symm.trans set'))).1
  rw [map_data_setRows, map_data_setRows] at same
  exact same

/-- A drawable of any height comes back as it was if and only if, in each of its rows, the pixels
behind the last group of four begin as they end. -/
theorem roundTrips_iff (small : width ≤ 8192) (lengths : ∀ row ∈ rows, row.length = 3 * width)
    (restores : png.Restores width (rows.map rgb)) :
    RoundTrips png width rows rows ↔
      ∀ row ∈ rows, ∀ x, 4 * (width / 4) ≤ x → x < width → row[3 * x]? = row[3 * x + 2]? := by
  have given := roundTrips_grouped small lengths restores
  constructor
  · intro trips row member
    have same := given.unique trips
    apply (grouped_rgb_eq_iff (lengths row member)).mp
    exact List.map_inj_left.mp (same.trans (List.map_id rows).symm) row member
  · intro even
    have same : (rows.map fun row => grouped width (rgb row)) = rows := by
      rw [List.map_congr_left fun row member =>
        (grouped_rgb_eq_iff (lengths row member)).mpr (even row member), List.map_id']
    rw [same] at given
    exact given

/-- `libpng` on a small image: its data is one chunk, which is written with the last row and read
with the first. -/
def smallImage (width : Byte) (rows : List (List Byte)) (ihdrCrc idat idatCrc : List Byte) :
    Libpng where
  Writer := Nat
  Reader := List (List Byte)
  writeInfo _ _ := ([[137, 80, 78, 71, 13, 10, 26, 10], [0, 0, 0, 13, 73, 72, 68, 82],
    [0, 0, 0, width, 0, 0, 0, .ofNat 8 rows.length, 8, 2, 0, 0, 0], ihdrCrc], rows.length)
  writeRow left _ := (if left = 1 then
    [[0, 0, 0, .ofNat 8 idat.length, 73, 68, 65, 84], idat, idatCrc] else [], left - 1)
  writeEnd _ := [[0, 0, 0, 0, 73, 69, 78, 68], [174, 66, 96, 130]]
  readInfo := .ask 8 fun _ => .ask 8 fun _ => .ask 13 fun ihdr => .ask 4 fun _ => .ask 8 fun _ =>
    .done ((ihdr.getD 7 0).toNat, 3 * (ihdr.getD 3 0).toNat, rows)
  readRow left :=
    let row := .done (left.headD [], left.tail)
    let last := if left.length = 1 then .ask 4 fun _ => row else row
    if left.length = rows.length then .ask idat.length fun _ => last else last
  readEnd _ := .ask 8 fun _ => .ask 4 fun _ => .done ()

/-- Two rows of a group of four pixels and a pixel that begins as it ends. -/
def colours : List (List Byte) :=
  [[1, 2, 3, 10, 20, 30, 90, 80, 70, 5, 5, 6, 7, 8, 7],
    [200, 1, 100, 10, 20, 31, 0, 0, 0, 255, 254, 253, 9, 0, 9]]

def coloursPng : Libpng := smallImage 5 (colours.map rgb) [31, 8, 129, 10]
  [8, 153, 99, 96, 102, 98, 148, 19, 225, 114, 11, 136, 98, 99, 101, 101, 231, 96, 103, 72, 97, 60,
    33, 47, 194, 197, 192, 192, 240, 247, 223, 127, 78, 6, 78, 0, 66, 81, 5, 207] [178, 68, 52, 152]

theorem roundTrips_colours : RoundTrips coloursPng 5 colours colours := by
  refine (roundTrips_iff (by decide) (by decide) ⟨by decide, rfl⟩).mpr ?_
  have even : ∀ row ∈ colours, row[12]? = row[14]? := by decide
  intro row member x behind less
  obtain rfl : x = 4 := by omega
  exact even row member

/-- A pixel behind the groups of four comes back with its first and its last byte swapped. -/
theorem not_roundTrips :
    ¬ ∀ (png : Libpng) (width : Nat) (rows : List (List Byte)), 1 ≤ width → width ≤ 8192 →
      (∀ row ∈ rows, row.length = 3 * width) → png.Restores width (rows.map rgb) →
      RoundTrips png width rows rows := by
  intro claimed
  have lengths : ∀ row ∈ [[1#8, 2#8, 3#8]], row.length = 3 * 1 := by decide
  have restores : (smallImage 1 [[3, 2, 1]] [144, 119, 83, 222]
      [8, 153, 99, 96, 102, 98, 4, 0, 0, 18, 0, 7] [152, 163, 53, 172]).Restores 1
        ([[1, 2, 3]].map rgb) := ⟨by decide, rfl⟩
  have trips := claimed _ 1 [[1, 2, 3]] (by decide) (by decide) lengths restores
  have same := (roundTrips_grouped (by decide) lengths restores).unique trips
  exact absurd same (by decide)

end RoundTrip

end Redemption.Capture
