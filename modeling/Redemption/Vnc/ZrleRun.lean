import Redemption.Vnc.ZrleTiles
import Redemption.Vnc.ZrleTilesSpec

/-! Run lengths and the tiles that are made of runs; every well-formed tile is drawn as the
protocol defines it. -/
namespace Redemption.Vnc

open Redemption.Foundation Redemption.Utils

section Lengths

theorem longLength_ok (count length : Nat) {last : Nat} (ends : last < 255) (rest : List Byte) :
    longLength length (List.replicate count 255 ++ BitVec.ofNat 8 last :: rest) =
      .ok (length + 255 * count + last + 1, rest) := by
  induction count generalizing length with
  | zero =>
    have value : (BitVec.ofNat 8 last).toNat = last := by
      rw [BitVec.toNat_ofNat]
      omega
    rw [List.replicate_zero, List.nil_append, longLength, value, if_pos (by omega)]
    simp
  | succ count ih =>
    have value : (255 : Byte).toNat = 255 := rfl
    rw [List.replicate_succ, List.cons_append, longLength, value, if_neg (by simp),
      Nat.add_sub_cancel, ih]
    congr 2
    omega

theorem runLength_ok {length : Nat} (positive : 1 ≤ length) (rest : List Byte) :
    runLength (runLengthBytes length ++ rest) = .ok (length, rest) := by
  have ends : (length - 1) % 255 < 255 := Nat.mod_lt _ (by omega)
  rw [runLengthBytes, List.append_assoc, List.singleton_append]
  cases many : (length - 1) / 255 with
  | zero =>
    have value : (BitVec.ofNat 8 ((length - 1) % 255)).toNat + 1 = length := by
      rw [BitVec.toNat_ofNat]
      omega
    simp only [runLength, List.replicate_zero, List.nil_append, inUint8, ok_bind, value]
    rw [if_neg (by omega)]
    rfl
  | succ count =>
    have value : (255 : Byte).toNat = 255 := rfl
    simp only [runLength, List.replicate_succ, List.cons_append, inUint8, ok_bind, value]
    rw [if_pos trivial, longLength_ok count _ ends]
    congr 2
    omega

theorem runLengthBytes_ne_nil (length : Nat) : runLengthBytes length ≠ [] := by
  simp [runLengthBytes]

end Lengths

section Runs

variable {Bpp : Nat} (tile : Rect)

/-- A run that does not go past the tile is laid behind the pixels before it. -/
theorem writeRun_ok (positive : 0 < Bpp) (pixel length : Nat) {tileData : TileData}
    {done : List Nat} (begins : tileData.Begins (pixelBytes Bpp done))
    (inside : done.length + length ≤ tile.cx * tile.cy)
    (room : tile.cx * tile.cy * Bpp ≤ tileDataSize) :
    ∃ tileData' : TileData,
      writeRun Bpp tile (leBytes Bpp pixel) length tileData (done.length * Bpp) =
        .ok (tileData', (done.length + length) * Bpp) ∧
      tileData'.Begins (pixelBytes Bpp (done ++ List.replicate length pixel)) := by
  induction length generalizing tileData done with
  | zero => exact ⟨tileData, rfl, by simpa using begins⟩
  | succ length ih =>
    have before : done.length * Bpp ≠ tile.cx * tile.cy * Bpp := by
      intro same
      have := Nat.eq_of_mul_eq_mul_right positive same
      omega
    have place : (done.length + 1) * Bpp ≤ tileDataSize :=
      Nat.le_trans (Nat.mul_le_mul_right _ (by omega)) room
    obtain ⟨tileData', stored, begins'⟩ := storeBlock_pixel begins rfl place pixel
    have longer : (done ++ [pixel]).length = done.length + 1 := by simp
    obtain ⟨tileData'', ran, begins''⟩ := ih begins' (by omega)
    rw [longer, Nat.succ_mul] at ran
    refine ⟨tileData'', ?_, ?_⟩
    · rw [writeRun, if_neg before, stored, ok_bind, ran]
      congr 3
      omega
    · rw [List.append_assoc, List.singleton_append, ← List.replicate_succ] at begins''
      exact begins''

/-- A way to spell runs, of which each takes at least a byte, and its reader. -/
structure Reads {ι : Type} (Bpp : Nat)
    (nextRun : List Byte → Checked VncError ((List Byte × Nat) × List Byte))
    (bytes : ι → List Byte) (pixel length : ι → Nat) (items : List ι) : Prop where
  reads : ∀ item ∈ items, ∀ rest,
    nextRun (bytes item ++ rest) = .ok ((leBytes Bpp (pixel item), length item), rest)
  some' : ∀ item ∈ items, bytes item ≠ []
  positive : ∀ item ∈ items, 1 ≤ length item

variable {ι : Type} {bytes : ι → List Byte} {pixel length : ι → Nat}
variable {nextRun : List Byte → Checked VncError ((List Byte × Nat) × List Byte)}

/-- Runs that fill the tile are laid one behind the other, and nothing behind them is read. -/
theorem runs_ok (positive : 0 < Bpp) {items : List ι}
    (spelled : Reads Bpp nextRun bytes pixel length items) {tileData : TileData} {done : List Nat}
    (begins : tileData.Begins (pixelBytes Bpp done)) (more : done.length < tile.cx * tile.cy)
    (filled : done.length + (items.flatMap fun item =>
      List.replicate (length item) (pixel item)).length = tile.cx * tile.cy)
    (room : tile.cx * tile.cy * Bpp ≤ tileDataSize) {fuel : Nat} (rest : List Byte)
    (enough : (items.flatMap bytes ++ rest).length < fuel) :
    ∃ tileData' : TileData,
      runs Bpp tile nextRun fuel (items.flatMap bytes ++ rest) tileData (done.length * Bpp) =
        .ok (tileData', rest) ∧
      tileData'.Begins (pixelBytes Bpp (done ++ items.flatMap fun item =>
        List.replicate (length item) (pixel item))) := by
  induction items generalizing tileData done fuel with
  | nil =>
    rw [List.flatMap_nil, List.length_nil] at filled
    omega
  | cons item items ih =>
    have long := List.length_pos_iff.mpr (spelled.some' item List.mem_cons_self)
    have read := spelled.reads item List.mem_cons_self
    rw [List.flatMap_cons, List.length_append, List.length_replicate] at filled
    rw [List.flatMap_cons, List.append_assoc, List.length_append] at enough
    obtain ⟨fuel, rfl⟩ := Nat.exists_eq_succ_of_ne_zero (show fuel ≠ 0 by omega)
    obtain ⟨tileData', laid, begins'⟩ := writeRun_ok tile positive (pixel item)
      (length item) begins (by omega) room
    have longer : (done ++ List.replicate (length item) (pixel item)).length =
        done.length + length item := by simp
    rw [List.flatMap_cons, List.append_assoc, runs, read, ok_bind]
    simp only [laid, ok_bind]
    by_cases ends : done.length + length item = tile.cx * tile.cy
    · have last : items = [] := by
        cases items with
        | nil => rfl
        | cons other items =>
          have again := spelled.positive other (by simp)
          rw [List.flatMap_cons, List.length_append, List.length_replicate] at filled
          omega
      subst last
      refine ⟨tileData', by rw [if_pos (by rw [ends])]; rfl, ?_⟩
      simpa using begins'
    · have going : (done.length + length item) * Bpp ≠ tile.cx * tile.cy * Bpp := by
        intro same
        exact ends (Nat.eq_of_mul_eq_mul_right positive same)
      have fewer : (items.flatMap bytes ++ rest).length < fuel := by omega
      obtain ⟨tileData'', ran, begins''⟩ := ih
        ⟨fun other member => spelled.reads other (List.mem_cons_of_mem _ member),
          fun other member => spelled.some' other (List.mem_cons_of_mem _ member),
          fun other member => spelled.positive other (List.mem_cons_of_mem _ member)⟩
        begins' (by omega) (by rw [longer, Nat.add_assoc]; exact filled) fewer
      rw [longer] at ran
      refine ⟨tileData'', by rw [if_neg going]; exact ran, ?_⟩
      simpa using begins''

theorem plainRun_reads {items : List (Nat × Nat)} (positive : ∀ run ∈ items, 1 ≤ run.2) :
    Reads Bpp (plainRun Bpp) (fun run => leBytes Bpp run.1 ++ runLengthBytes run.2) Prod.fst
      Prod.snd items where
  reads := by
    intro run member rest
    have length := length_leBytes Bpp run.1
    have some' := List.length_pos_iff.mpr (runLengthBytes_ne_nil run.2)
    rw [plainRun, List.append_assoc,
      checkThrow_of_le _ (by simp only [List.length_append]; omega), ok_bind,
      inBytes_append length, ok_bind]
    simp only [runLength_ok (positive run member), ok_bind, pure_ok]
  some' := by
    intro run _
    simp [runLengthBytes_ne_nil]
  positive := positive

private theorem low_seven (byte : Nat) : byte &&& 127 = byte % 128 :=
  Nat.and_two_pow_sub_one_eq_mod byte 7

private theorem top_bit {byte : Nat} (bounded : byte < 256) : byte &&& 128 ≠ 0 ↔ 128 ≤ byte := by
  have every : ∀ byte : Fin 256, byte.val &&& 128 ≠ 0 ↔ 128 ≤ byte.val := by
    decide +kernel
  exact every ⟨byte, bounded⟩

theorem paletteRun_reads {palette : List Nat} (few : palette.length ≤ 127)
    {items : List PaletteRun}
    (fits : ∀ run ∈ items, run.index < palette.length ∧ 1 ≤ run.length) :
    Reads Bpp (paletteRun Bpp (pixelBytes Bpp palette)) PaletteRun.bytes
      (fun run => palette.getD run.index 0) PaletteRun.length items where
  reads := by
    intro run member rest
    obtain ⟨known, positive⟩ := fits run member
    have entry := @paletteEntry_ok Bpp _ _ _ (getElem?_of_defined known)
    cases run with
    | single index =>
      simp only [PaletteRun.index] at known entry
      have value : (BitVec.ofNat 8 index).toNat = index := by
        rw [BitVec.toNat_ofNat]
        omega
      have low : index &&& 127 = index := by
        rw [low_seven]
        omega
      have noLength : ¬(index &&& 128 ≠ 0) := by
        rw [top_bit (by omega)]
        omega
      simp only [paletteRun, PaletteRun.bytes, List.singleton_append]
      simp only [inUint8, ok_bind, value, paletteRunLength, if_neg noLength, low, entry, pure_ok]
      rfl
    | long index length =>
      simp only [PaletteRun.index, PaletteRun.length] at known positive entry
      have value : (BitVec.ofNat 8 (index + 128)).toNat = index + 128 := by
        rw [BitVec.toNat_ofNat]
        omega
      have low : (index + 128) &&& 127 = index := by
        rw [low_seven]
        omega
      have spelledLength : (index + 128) &&& 128 ≠ 0 := by
        rw [top_bit (by omega)]
        omega
      have some' := List.length_pos_iff.mpr (runLengthBytes_ne_nil length)
      simp only [paletteRun, PaletteRun.bytes, List.cons_append]
      rw [checkThrow_of_le _ (by simp), ok_bind]
      simp only [inUint8, ok_bind, value, paletteRunLength, if_pos spelledLength, low]
      rw [checkThrow_of_le _ (by rw [List.length_append]; omega), ok_bind, runLength_ok positive,
        ok_bind]
      simp only [entry, ok_bind, pure_ok]
      rfl
  some' := by
    intro run _
    cases run <;> simp [PaletteRun.bytes]
  positive := fun run member => (fits run member).2

variable {memory : TileData}

theorem plainRLE_ok (positive : 0 < Bpp) {items : List (Nat × Nat)}
    (wellFormed : (TileCode.plainRle items).WellFormed Bpp tile.cx tile.cy)
    (some' : 0 < tile.cx * tile.cy) (room : tile.cx * tile.cy * Bpp ≤ tileDataSize)
    (rest : List Byte) :
    ∃ drawn, plainRLE Bpp tile memory
        ((items.flatMap fun run => leBytes Bpp run.1 ++ runLengthBytes run.2) ++ rest) =
        .ok (drawn, rest) ∧
      Draws tile.area ((TileCode.plainRle items).pixels tile.cx tile.cy) drawn := by
  obtain ⟨fits, count⟩ := wellFormed
  have spelled := @plainRun_reads Bpp items fun run member => (fits run member).2
  have start : memory.Begins (pixelBytes Bpp []) := Buffer.begins_nil memory
  obtain ⟨tileData, laid, begins⟩ := runs_ok tile positive spelled start some'
    (by rw [List.length_nil, Nat.zero_add]; exact count) room rest (Nat.lt_succ_self _)
  rw [List.length_nil, Nat.zero_mul] at laid
  have values : ∀ pixel ∈ items.flatMap fun run => List.replicate run.2 run.1,
      pixel < 2 ^ (8 * Bpp) := by
    intro pixel member
    obtain ⟨run, runMember, inRun⟩ := List.mem_flatMap.mp member
    rw [List.eq_of_mem_replicate inRun]
    exact (fits run runMember).1
  obtain ⟨drawn, draws, same⟩ := drawTile_array begins count values room
  refine ⟨drawn, ?_, same⟩
  simp only [plainRLE, laid, draws, ok_bind, pure_ok]

theorem paletteRLE_ok (positive : 0 < Bpp) {palette : List Nat} {items : List PaletteRun}
    (wellFormed : (TileCode.paletteRle palette items).WellFormed Bpp tile.cx tile.cy)
    (some' : 0 < tile.cx * tile.cy) (room : tile.cx * tile.cy * Bpp ≤ tileDataSize)
    (rest : List Byte) :
    ∃ drawn, paletteRLE Bpp tile memory (palette.length + 128)
        (pixelBytes Bpp palette ++ (items.flatMap PaletteRun.bytes ++ rest)) =
        .ok (drawn, rest) ∧
      Draws tile.area ((TileCode.paletteRle palette items).pixels tile.cx tile.cy) drawn := by
  obtain ⟨⟨_, few⟩, small, fits, count⟩ := wellFormed
  have spelled := @paletteRun_reads Bpp palette few items fits
  have start : memory.Begins (pixelBytes Bpp []) := Buffer.begins_nil memory
  obtain ⟨tileData, laid, begins⟩ := runs_ok tile positive spelled start some'
    (by rw [List.length_nil, Nat.zero_add]; exact count) room rest (Nat.lt_succ_self _)
  rw [List.length_nil, Nat.zero_mul] at laid
  have values : ∀ pixel ∈ items.flatMap fun run =>
      List.replicate run.length (palette.getD run.index 0), pixel < 2 ^ (8 * Bpp) := by
    intro pixel member
    obtain ⟨run, runMember, inRun⟩ := List.mem_flatMap.mp member
    rw [List.eq_of_mem_replicate inRun]
    exact small _ (List.mem_of_getElem? (getElem?_of_defined (fits run runMember).1))
  obtain ⟨drawn, draws, same⟩ := drawTile_array begins count values room
  have low : (palette.length + 128) &&& 127 = palette.length := by
    rw [low_seven]
    omega
  have front : (pixelBytes Bpp palette).length = palette.length * Bpp := length_pixelBytes _
  refine ⟨drawn, ?_, same⟩
  simp only [paletteRLE, low]
  rw [checkThrow_of_le _ (by rw [List.length_append]; omega), ok_bind, inBytes_append front,
    ok_bind]
  simp only [laid, draws, ok_bind, pure_ok]

/-- A well-formed tile is drawn as the protocol defines it, and the data behind it is left. -/
theorem decodeTile_ok {code : TileCode} (wellFormed : code.WellFormed 2 tile.cx tile.cy)
    (wide : 0 < tile.cx ∧ tile.cx ≤ 64) (high : 0 < tile.cy ∧ tile.cy ≤ 64) (rest : List Byte) :
    ∃ drawn, decodeTile 2 tile memory (code.bytes 2 ++ rest) = .ok (drawn, rest) ∧
      Draws tile.area (code.pixels tile.cx tile.cy) drawn := by
  have some' : 0 < tile.cx * tile.cy := Nat.mul_pos wide.1 high.1
  have room : tile.cx * tile.cy * 2 ≤ tileDataSize := by
    have := Nat.mul_le_mul wide.2 high.2
    unfold tileDataSize
    omega
  cases code with
  | raw pixels =>
    obtain ⟨count, small⟩ := wellFormed
    obtain ⟨drawn, draws, same⟩ := rawTile_ok count small room rest
    refine ⟨drawn, ?_, same⟩
    rw [TileCode.bytes, List.cons_append, decodeTile, inUint8, ok_bind]
    exact draws
  | solid pixel =>
    obtain ⟨drawn, draws, same⟩ := @solidTile_ok tile pixel wellFormed rest
    refine ⟨drawn, ?_, same⟩
    rw [TileCode.bytes, List.cons_append, decodeTile, inUint8, ok_bind]
    exact draws
  | packed palette lines =>
    obtain ⟨two, few⟩ := wellFormed.1
    obtain ⟨drawn, draws, same⟩ := @packedPalette_ok 2 tile palette memory lines wellFormed room rest
    have value : (BitVec.ofNat 8 palette.length).toNat = palette.length := by
      rw [BitVec.toNat_ofNat]
      omega
    refine ⟨drawn, ?_, same⟩
    rw [TileCode.bytes, List.cons_append, List.cons_append, List.append_assoc, decodeTile, inUint8,
      ok_bind]
    simp only [value]
    rw [if_neg (by omega), if_neg (by omega), if_pos few]
    exact draws
  | plainRle items =>
    obtain ⟨drawn, draws, same⟩ := @plainRLE_ok 2 tile memory (by decide) items wellFormed some'
      room rest
    refine ⟨drawn, ?_, same⟩
    rw [TileCode.bytes, List.cons_append, decodeTile, inUint8, ok_bind]
    exact draws
  | paletteRle palette items =>
    obtain ⟨two, few⟩ := wellFormed.1
    obtain ⟨drawn, draws, same⟩ := @paletteRLE_ok 2 tile memory (by decide) palette items wellFormed
      some' room rest
    have value : (BitVec.ofNat 8 (palette.length + 128)).toNat = palette.length + 128 := by
      rw [BitVec.toNat_ofNat]
      omega
    refine ⟨drawn, ?_, same⟩
    rw [TileCode.bytes, List.cons_append, List.cons_append, List.append_assoc, decodeTile, inUint8,
      ok_bind]
    simp only [value]
    rw [if_neg (by omega), if_neg (by omega), if_neg (by omega), if_neg (by omega),
      if_neg (by omega)]
    exact draws

end Runs

/-! A ZRLE rectangle is drawn as the protocol defines it, however its data arrives. -/

/-- An order for each of the codes, which stand for the tiles from `first` on. -/
def DrawsFrom (area : Area) (first : Nat) (codes : List TileCode) (orders : List Drawn) : Prop :=
  orders.length = codes.length ∧
    ∀ (offset : Nat) (code : TileCode) (order : Drawn), codes[offset]? = some code →
      orders[offset]? = some order →
      Draws (TileGrid.tile 64 area (first + offset))
        (code.pixels (TileGrid.tile 64 area (first + offset)).width
          (TileGrid.tile 64 area (first + offset)).height) order

/-- One order for each tile of the grid, with the pixels that its code stands for. -/
def DrawsStream (area : Area) (codes : List TileCode) (orders : List Drawn) : Prop :=
  DrawsFrom area 0 codes orders

section Lists

variable {area : Area} {first : Nat} {code : TileCode} {codes : List TileCode}

theorem StreamFrom.tail {Bpp : Nat} (stream : StreamFrom Bpp area first (code :: codes)) :
    StreamFrom Bpp area (first + 1) codes := by
  obtain ⟨count, wellFormed⟩ := stream
  rw [List.length_cons] at count
  refine ⟨by omega, ?_⟩
  intro offset other stands
  have := wellFormed (offset + 1) other (by simpa using stands)
  rwa [Nat.add_right_comm, Nat.add_assoc]

theorem DrawsFrom.cons {order : Drawn} {orders : List Drawn}
    (draws : Draws (TileGrid.tile 64 area first)
      (code.pixels (TileGrid.tile 64 area first).width (TileGrid.tile 64 area first).height) order)
    (rest : DrawsFrom area (first + 1) codes orders) :
    DrawsFrom area first (code :: codes) (order :: orders) := by
  obtain ⟨length, each⟩ := rest
  refine ⟨by rw [List.length_cons, List.length_cons, length], ?_⟩
  intro offset other order' stands drew
  cases offset with
  | zero =>
    cases stands
    cases drew
    exact draws
  | succ offset =>
    have := each offset other order' (by simpa using stands) (by simpa using drew)
    rwa [Nat.add_right_comm, Nat.add_assoc] at this

theorem drawsFrom_nil : DrawsFrom area first [] [] := by
  refine ⟨rfl, ?_⟩
  intro offset other order' stands
  simp at stands

end Lists

section Tiles

variable {rect : Rect} {memory : TileData}

theorem bytes_ne_nil (Bpp : Nat) (code : TileCode) : code.bytes Bpp ≠ [] := by
  cases code <;> simp [TileCode.bytes]

theorem decodeTile_at (fits : TileWalk.Fits 64 rect) {index : Nat} {walk : TileWalk}
    (at' : TileWalk.At 64 rect index walk) (some' : index < TileGrid.count 64 rect.area)
    {code : TileCode}
    (wellFormed : code.WellFormed 2 (TileGrid.tile 64 rect.area index).width
      (TileGrid.tile 64 rect.area index).height) (rest : List Byte) :
    ∃ order, decodeTile 2 walk.tile memory (code.bytes 2 ++ rest) = .ok (order, rest) ∧
      Draws (TileGrid.tile 64 rect.area index)
        (code.pixels (TileGrid.tile 64 rect.area index).width
          (TileGrid.tile 64 rect.area index).height) order := by
  obtain ⟨wide, high⟩ := at'.tile_pos (by decide) some'
  rw [← at'.area_eq (by decide) some' fits] at wellFormed ⊢
  exact decodeTile_ok walk.tile wellFormed wide high rest

/-- The tiles from one of the grid on are drawn, each on its place. -/
theorem updateTiles_ok (fits : TileWalk.Fits 64 rect) (codes : List TileCode)
    {index : Nat} {walk : TileWalk} (at' : TileWalk.At 64 rect index walk)
    (some' : index < TileGrid.count 64 rect.area) (stream : StreamFrom 2 rect.area index codes)
    {fuel : Nat} (enough : (streamBytes 2 codes).length < fuel) (drawn : List Drawn) :
    ∃ orders, updateTiles 2 memory fuel walk (streamBytes 2 codes) drawn = .ok (drawn ++ orders) ∧
      DrawsFrom rect.area index codes orders := by
  induction codes generalizing index walk fuel drawn with
  | nil =>
    have count := stream.1
    rw [List.length_nil] at count
    omega
  | cons code codes ih =>
    have long := List.length_pos_iff.mpr (bytes_ne_nil 2 code)
    have count := stream.1
    rw [List.length_cons] at count
    rw [streamBytes, List.flatMap_cons, ← streamBytes] at enough ⊢
    rw [List.length_append] at enough
    obtain ⟨fuel, rfl⟩ := Nat.exists_eq_succ_of_ne_zero (show fuel ≠ 0 by omega)
    obtain ⟨order, decoded, draws⟩ :=
      @decodeTile_at rect memory fits index walk at' some' code (stream.2 0 code rfl)
        (streamBytes 2 codes)
    rw [updateTiles, checkThrow_of_le _ (by rw [List.length_append]; omega), ok_bind, decoded,
      ok_bind]
    rcases at'.next (by decide) (by decide) some' with ⟨more, next, stepped, at''⟩ | ⟨last, stepped⟩
    · have fewer : (streamBytes 2 codes).length < fuel := by omega
      obtain ⟨orders, ran, rest⟩ := ih at'' more stream.tail fewer (drawn ++ [order])
      refine ⟨order :: orders, ?_, rest.cons draws⟩
      rw [stepped]
      simp only
      rw [ran, List.append_assoc, List.singleton_append]
    · have none : codes = [] := List.eq_nil_of_length_eq_zero (by omega)
      subst none
      refine ⟨[order], by rw [stepped]; rfl, drawsFrom_nil.cons draws⟩

theorem libFramebufferUpdateZrle_ok (fits : TileWalk.Fits 64 rect) (wide : 0 < rect.cx)
    (high : 0 < rect.cy) {codes : List TileCode} (stream : StreamFor 2 rect.area codes) :
    ∃ orders, libFramebufferUpdateZrle 2 memory (TileWalk.start 64 rect) (streamBytes 2 codes) =
        .ok orders ∧ DrawsStream rect.area codes orders := by
  have some' : 0 < TileGrid.count 64 rect.area := TileGrid.count_pos (by decide) wide high
  exact updateTiles_ok fits codes (TileWalk.at_start (by decide) (by decide) wide high) some' stream
    (Nat.lt_succ_self _) []

/-- The tiles drawn are those of the grid, which partition the rectangle. -/
theorem DrawsStream.partition {codes : List TileCode} {orders : List Drawn}
    (stream : StreamFor 2 rect.area codes) (draws : DrawsStream rect.area codes orders) :
    rect.area.Partition (orders.map Drawn.area) := by
  have count : orders.length = TileGrid.count 64 rect.area := by
    have := stream.1
    rw [draws.1]
    omega
  have same : orders.map Drawn.area = TileGrid.tiles 64 rect.area := by
    apply List.ext_getElem
    · rw [List.length_map, TileGrid.length_tiles, count]
    · intro index inside _
      rw [List.length_map] at inside
      have known : index < codes.length := by
        rw [← draws.1]
        exact inside
      have drawn := (draws.2 index codes[index] orders[index] (List.getElem?_eq_getElem known)
        (List.getElem?_eq_getElem inside)).1
      rw [Nat.zero_add] at drawn
      simp only [TileGrid.tiles, List.getElem_map, List.getElem_range, drawn]
  rw [same]
  exact TileGrid.partition_tiles (by decide) rect.area

end Tiles

end Redemption.Vnc
