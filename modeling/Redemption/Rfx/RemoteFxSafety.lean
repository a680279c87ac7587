import Redemption.Foundation.Machine
import Redemption.Rfx.RemoteFx
import Redemption.Rfx.TileSafety

/-! RemoteFX from a hostile server: which tilesets are decoded inside of the memory for them. -/
namespace Redemption.Rfx

open Redemption.Foundation

section Conditions

/-- The length of the block of a tile, a `uint16_t`. -/
def tileLen (stream : List Byte) : Nat := leAt stream 2 4 % 2 ^ 16

/-- The lengths of the three components of a tile. -/
def componentsLen (stream : List Byte) : Nat :=
  leAt stream 13 2 + leAt stream 15 2 + leAt stream 17 2

/-- A tile whose fields are read. -/
structure TileStarts (stream : List Byte) : Prop where
  check : 13 ≤ stream.length
  blockType : leAt stream 0 2 = cbtTile
  header : 6 ≤ tileLen stream
  whole : tileLen stream ≤ stream.length

/-- A tile whose components are read. -/
def TileGoesOn (stream : List Byte) : Prop := componentsLen stream ≤ stream.length - 6

/-- The block of a tile has room for its fields, and for its components if they are read. -/
structure TileRoom (stream : List Byte) : Prop where
  header : 19 ≤ tileLen stream
  components : TileGoesOn stream → 19 + componentsLen stream ≤ tileLen stream

/-- The blocks of all tiles that are read have room for them. -/
def TilesRoom : Nat → List Byte → Prop
  | 0, _ => True
  | count + 1, stream => TileStarts stream → TileRoom stream ∧
      (TileGoesOn stream → TilesRoom count (stream.drop (tileLen stream)))

/-- Where tiles start. -/
def tilePlaces : Nat → List Byte → List (List Byte)
  | 0, _ => []
  | count + 1, stream => stream :: tilePlaces count (stream.drop (tileLen stream))

/-- The quantization values at an index are those of the tileset, and none of them is zero. -/
structure QuantFits (packet : List Byte) (index : Nat) : Prop where
  inside : index < leAt packet 6 1
  some : ∀ byte ∈ (packet.drop (14 + 5 * index)).take 5,
    byte.toNat % 16 ≠ 0 ∧ byte.toNat / 16 ≠ 0

/-- A tile that is drawn inside of the content with quantization values of the tileset. -/
structure TileDraws (cmd : RDPSetSurfaceCommand) (packet stream : List Byte) : Prop where
  quantY : QuantFits packet (leAt stream 6 1)
  quantCb : QuantFits packet (leAt stream 7 1)
  quantCr : QuantFits packet (leAt stream 8 1)
  inside : leAt stream 9 2 * 64 * 4 + leAt stream 11 2 * cmd.stride * 64 + 63 * cmd.stride + 256 ≤
    cmd.size

/-- A tileset whose tiles are read. -/
structure TilesetStarts (packet : List Byte) : Prop where
  check : 12 ≤ packet.length
  subType : leAt packet 0 2 = cbtTileset
  idx : leAt packet 2 2 = 0
  mode : leAt packet 4 2 / 2 ^ 10 % 16 = 0x01 ∨ leAt packet 4 2 / 2 ^ 10 % 16 = 0x04
  tileSize : leAt packet 7 1 = 0x40

def tilesOf (packet : List Byte) : List Byte :=
  (packet.drop (14 + 5 * leAt packet 6 1)).take (leAt packet 10 4)

/-- A tileset, behind its channel, that is decoded inside of the memory for it: its fields are
there, the blocks of its tiles have room for them, and if all tiles are read, the size of the
content is an `int`, and each tile is drawn inside of it with values that are there. -/
def TilesetFits (cmd : RDPSetSurfaceCommand) (packet : List Byte) : Prop :=
  TilesetStarts packet → 14 ≤ packet.length ∧
    (14 + 5 * leAt packet 6 1 + leAt packet 10 4 ≤ packet.length →
      TilesRoom (leAt packet 8 2) (tilesOf packet) ∧
      ((∀ tile ∈ tilePlaces (leAt packet 8 2) (tilesOf packet),
          TileStarts tile ∧ TileGoesOn tile) →
        cmd.size ≤ Rlgr.intMax ∧
          ∀ tile ∈ tilePlaces (leAt packet 8 2) (tilesOf packet), TileDraws cmd packet tile))

end Conditions

section Parsers

variable {stream packet : List Byte}

theorem sound_expect {right : Prop} [Decidable right] : Sound (expect right) fun _ => right := by
  rw [expect]
  by_cases holds : right
  · rw [if_pos holds]
    exact sound_ok holds
  · rw [if_neg holds]
    exact sound_raised _

theorem sound_check (stream : List Byte) (needed : Nat) :
    Sound (check stream needed) fun _ => needed ≤ stream.length := sound_checkThrow _ _ _

def rectAt (stream : List Byte) (place : Nat) : TsRfxRect :=
  ⟨leAt stream place 2, leAt stream (place + 2) 2, leAt stream (place + 4) 2,
    leAt stream (place + 6) 2⟩

theorem TsRfxRect.recv_sound (place : Nat) :
    Sound (TsRfxRect.recv (stream.drop place)) fun result =>
      result = (rectAt stream place, stream.drop (place + 8)) := by
  apply (sound_check _ _).bind
  intro _ room
  rw [List.length_drop] at room
  apply (sound_inLe_at (by omega)).bind
  rintro _ rfl
  apply (sound_inLe_at (by omega)).bind
  rintro _ rfl
  apply (sound_inLe_at (by omega)).bind
  rintro _ rfl
  apply (sound_inLe_at (by omega)).bind
  rintro _ rfl
  exact sound_ok rfl

theorem recvCodecChannelt_sound (stream : List Byte) :
    Sound (recvCodecChannelt stream) fun rest => rest = stream.drop 2 := by
  apply (sound_check _ _).bind
  intro _ room
  rw [← List.drop_zero (l := stream)]
  apply (sound_inUint8_at (by omega)).bind
  rintro ⟨_, _⟩ ⟨_, rfl⟩
  apply (sound_inUint8_at (by omega)).bind
  rintro ⟨_, _⟩ ⟨_, rfl⟩
  exact sound_ok rfl

theorem recvSync_sound (stream : List Byte) : Sound (recvSync stream) fun _ => True := by
  have first := @sound_inLe_at RfxError stream 0 4
  apply (sound_check _ _).bind
  intro _ room
  apply (first (by omega)).bind
  rintro _ rfl
  apply sound_expect.bind
  intro _ _
  apply (sound_inLe_at (by omega)).bind
  rintro _ rfl
  exact sound_expect.mono fun _ _ => trivial

theorem recvCodecVersions_sound (stream : List Byte) :
    Sound (recvCodecVersions stream) fun _ => True := by
  have first := @sound_inUint8_at RfxError stream 0
  apply (sound_check _ _).bind
  intro _ room
  apply (first (by omega)).bind
  rintro ⟨_, _⟩ ⟨_, rfl⟩
  apply sound_expect.bind
  intro _ _
  apply (sound_inUint8_at (by omega)).bind
  rintro ⟨_, _⟩ ⟨_, rfl⟩
  apply sound_expect.bind
  intro _ _
  apply (sound_inLe_at (by omega)).bind
  rintro _ rfl
  exact sound_expect.mono fun _ _ => trivial

theorem recvContext_sound (stream : List Byte) : Sound (recvContext stream) fun _ => True := by
  apply (recvCodecChannelt_sound stream).bind
  rintro _ rfl
  apply (sound_check _ _).bind
  intro _ room
  rw [List.length_drop] at room
  apply (sound_inUint8_at (by omega)).bind
  rintro ⟨_, _⟩ ⟨_, rfl⟩
  apply (sound_inLe_at (by omega)).bind
  rintro _ rfl
  apply sound_expect.bind
  intro _ _
  apply (sound_inLe_at (by omega)).bind
  rintro _ rfl
  exact sound_ok trivial

theorem recvChannelt_sound (stream : List Byte) : Sound (recvChannelt stream) fun _ => True := by
  have first := @sound_inUint8_at RfxError stream 0
  apply (sound_check _ _).bind
  intro _ room
  apply (first (by omega)).bind
  rintro ⟨_, _⟩ ⟨_, rfl⟩
  apply sound_expect.bind
  intro _ _
  apply (sound_inLe_at (by omega)).bind
  rintro _ rfl
  apply (sound_inLe_at (by omega)).bind
  rintro _ rfl
  exact sound_ok trivial

theorem recvChannels_sound (stream : List Byte) : Sound (recvChannels stream) fun _ => True := by
  have first := @sound_inUint8_at RfxError stream 0
  apply (sound_check _ _).bind
  intro _ room
  apply (first (by omega)).bind
  rintro ⟨numChannels, _⟩ ⟨_, rfl⟩
  refine (@sound_foldlM _ _ _ _ (fun _ => True) _ ?_ _ trivial).bind ?_
  · intro _ _ rest _
    exact recvChannelt_sound rest
  · intro _ _
    exact sound_ok trivial

theorem recvFrameBegin_sound (stream : List Byte) :
    Sound (recvFrameBegin stream) fun _ => True := by
  apply (recvCodecChannelt_sound stream).bind
  rintro _ rfl
  apply (sound_check _ _).bind
  intro _ room
  rw [List.length_drop] at room
  apply (sound_inLe_at (by omega)).bind
  rintro _ rfl
  apply (sound_inLe_at (by omega)).bind
  rintro _ rfl
  exact sound_ok trivial

theorem recvFrameEnd_sound (stream : List Byte) : Sound (recvFrameEnd stream) fun _ => True := by
  apply (recvCodecChannelt_sound stream).bind
  intro _ _
  exact sound_ok trivial

def quantAt (stream : List Byte) (place : Nat) : TsRfxCodecQuant :=
  .ofNats (leAt stream place 4) (leAt stream (place + 4) 1)

theorem TsRfxCodecQuant.recv_sound (place : Nat) :
    Sound (TsRfxCodecQuant.recv (stream.drop place)) fun result =>
      result = (quantAt stream place, stream.drop (place + 5)) ∧ place + 5 ≤ stream.length := by
  apply (sound_check _ _).bind
  intro _ room
  rw [List.length_drop] at room
  apply (sound_inLe_at (by omega)).bind
  rintro _ rfl
  apply (sound_inUint8_at (by omega)).bind
  rintro ⟨val, _⟩ ⟨same, rfl⟩
  refine sound_ok ⟨?_, by omega⟩
  rw [quantAt]
  rw [same]

theorem field_shifts {val index : Nat} (some : val / 16 ^ index % 16 ≠ 0) :
    1 ≤ (BitVec.ofNat 8 (val / 16 ^ index % 16)).toNat ∧
      (BitVec.ofNat 8 (val / 16 ^ index % 16)).toNat ≤ 16 := by
  rw [BitVec.toNat_ofNat]
  omega

theorem shifts_quantAt {place : Nat} (room : place + 5 ≤ stream.length)
    (some : ∀ byte ∈ (stream.drop place).take 5, byte.toNat % 16 ≠ 0 ∧ byte.toNat / 16 ≠ 0) :
    (quantAt stream place).Shifts := by
  have five : ∃ b0 b1 b2 b3 b4 rest, stream.drop place = b0 :: b1 :: b2 :: b3 :: b4 :: rest := by
    have length := @List.length_drop _ place stream
    match split : stream.drop place, length with
    | b0 :: b1 :: b2 :: b3 :: b4 :: rest, _ => exact ⟨b0, b1, b2, b3, b4, rest, rfl⟩
    | [], length => rw [List.length_nil] at length; omega
    | [_], length => simp only [List.length_cons, List.length_nil] at length; omega
    | [_, _], length => simp only [List.length_cons, List.length_nil] at length; omega
    | [_, _, _], length => simp only [List.length_cons, List.length_nil] at length; omega
    | [_, _, _, _], length => simp only [List.length_cons, List.length_nil] at length; omega
  obtain ⟨b0, b1, b2, b3, b4, rest, split⟩ := five
  have last : stream.drop (place + 4) = b4 :: rest := by
    rw [← List.drop_drop, split]
    rfl
  rw [split] at some
  simp only [List.take_succ_cons, List.take_zero, List.forall_mem_cons] at some
  obtain ⟨⟨l0, h0⟩, ⟨l1, h1⟩, ⟨l2, h2⟩, ⟨l3, h3⟩, ⟨l4, h4⟩, _⟩ := some
  have val : leAt stream place 4 =
      b0.toNat + 2 ^ 8 * (b1.toNat + 2 ^ 8 * (b2.toNat + 2 ^ 8 * (b3.toNat + 2 ^ 8 * 0))) := by
    rw [leAt, split]
    rfl
  have val' : leAt stream (place + 4) 1 = b4.toNat + 2 ^ 8 * 0 := by
    rw [leAt, last]
    rfl
  intro band member
  simp only [TsRfxCodecQuant.subBands, List.mem_cons, List.not_mem_nil, or_false] at member
  rcases member with rfl | rfl | rfl | rfl | rfl | rfl | rfl | rfl | rfl | rfl
  all_goals exact field_shifts (by omega)

/-- The tile that stands in a stream: its fields, and components of the lengths in it. -/
structure TileAt (stream : List Byte) (tile : TsRfxTile) : Prop where
  quantIdxY : tile.quantIdxY = leAt stream 6 1
  quantIdxCb : tile.quantIdxCb = leAt stream 7 1
  quantIdxCr : tile.quantIdxCr = leAt stream 8 1
  xIdx : tile.xIdx = leAt stream 9 2
  yIdx : tile.yIdx = leAt stream 11 2
  yData : tile.yData.length < 2 ^ 16
  cbData : tile.cbData.length < 2 ^ 16
  crData : tile.crData.length < 2 ^ 16

theorem leAt_lt (stream : List Byte) (place width : Nat) :
    leAt stream place width < 2 ^ (8 * width) := by
  apply (leValue_lt _).trans_le
  apply Nat.pow_le_pow_right (by decide)
  exact Nat.mul_le_mul_left 8 (List.length_take_le _ _)

theorem TsRfxTile.recv_sound (room : TileStarts stream → TileRoom stream) :
    Sound (TsRfxTile.recv stream) fun result =>
      TileStarts stream ∧ TileGoesOn stream ∧ TileAt stream result.1 ∧
        result.2 = stream.drop (tileLen stream) := by
  have first := @sound_inLe_at RfxError stream 0 2
  apply (sound_check _ _).bind
  intro _ check
  apply (first (by omega)).bind
  rintro _ rfl
  apply sound_expect.bind
  intro _ blockType
  apply (sound_inLe_at (by omega)).bind
  rintro _ rfl
  apply sound_expect.bind
  intro _ ⟨header, whole⟩
  simp only [List.length_drop, Nat.reduceAdd] at header whole ⊢
  rw [← tileLen] at header whole ⊢
  obtain ⟨fields, components⟩ := room ⟨check, blockType, header, by omega⟩
  have length : ((stream.drop 6).take (tileLen stream - 6)).length = tileLen stream - 6 := by
    rw [List.length_take, List.length_drop]
    omega
  have part : ∀ place width, place + width ≤ 13 →
      leAt ((stream.drop 6).take (tileLen stream - 6)) place width = leAt stream (6 + place) width :=
    fun place width inside => leAt_part (by omega)
  generalize (stream.drop 6).take (tileLen stream - 6) = tileStream at length part ⊢
  have front := @sound_inUint8_at RfxError tileStream 0
  apply (front (by omega)).bind
  rintro ⟨quantIdxY, _⟩ ⟨y, rfl⟩
  apply (sound_inUint8_at (by omega)).bind
  rintro ⟨quantIdxCb, _⟩ ⟨cb, rfl⟩
  apply (sound_inUint8_at (by omega)).bind
  rintro ⟨quantIdxCr, _⟩ ⟨cr, rfl⟩
  apply (sound_inLe_at (by omega)).bind
  rintro _ rfl
  apply (sound_inLe_at (by omega)).bind
  rintro _ rfl
  apply (sound_inLe_at (by omega)).bind
  rintro _ rfl
  apply (sound_inLe_at (by omega)).bind
  rintro _ rfl
  apply (sound_inLe_at (by omega)).bind
  rintro _ rfl
  apply (sound_check _ _).bind
  intro _ goesOn
  simp only [Nat.reduceAdd, List.length_drop] at goesOn ⊢
  rw [part 7 2 (by decide), part 9 2 (by decide), part 11 2 (by decide)] at goesOn ⊢
  simp only [Nat.reduceAdd] at goesOn ⊢
  have goesOn' : TileGoesOn stream := by
    rw [TileGoesOn, componentsLen]
    omega
  have enough := components goesOn'
  rw [componentsLen] at enough
  apply (sound_inBytes (by rw [List.length_drop]; omega)).bind
  rintro ⟨yData, rest⟩ ⟨yLength, restLength⟩
  rw [List.length_drop] at restLength
  apply (sound_inBytes (by omega)).bind
  rintro ⟨cbData, rest'⟩ ⟨cbLength, restLength'⟩
  apply (sound_inBytes (by omega)).bind
  rintro ⟨crData, rest''⟩ ⟨crLength, _⟩
  refine sound_ok ⟨⟨check, blockType, header, by omega⟩, goesOn', ?_, ?_⟩
  · have small := fun place => leAt_lt stream place 2
    constructor
    · exact y.trans (part 0 1 (by decide))
    · exact cb.trans (part 1 1 (by decide))
    · exact cr.trans (part 2 1 (by decide))
    · exact part 3 2 (by decide)
    · exact part 5 2 (by decide)
    · exact yLength.trans_lt (small 13)
    · exact cbLength.trans_lt (small 15)
    · exact crLength.trans_lt (small 17)
  · have behind : 6 + (tileLen stream - 6) = tileLen stream := by omega
    simp only [List.drop_drop, behind]

theorem recvTiles_sound {count : Nat} (room : TilesRoom count stream) :
    Sound (recvArray TsRfxTile.recv count stream) fun result =>
      (∀ place ∈ tilePlaces count stream, TileStarts place ∧ TileGoesOn place) ∧
        List.Forall₂ TileAt (tilePlaces count stream) result.1 := by
  induction count generalizing stream with
  | zero => exact sound_ok ⟨fun _ none => (List.not_mem_nil none).elim, .nil⟩
  | succ count ih =>
    rw [recvArray, tilePlaces]
    apply (TsRfxTile.recv_sound fun starts => (room starts).1).bind
    rintro ⟨tile, _⟩ ⟨starts, goesOn, tileAt, rfl⟩
    apply (ih ((room starts).2 goesOn)).bind
    rintro ⟨tiles, rest⟩ ⟨all, tilesAt⟩
    refine sound_ok ⟨?_, .cons tileAt tilesAt⟩
    intro place member
    rcases List.mem_cons.mp member with rfl | later
    · exact ⟨starts, goesOn⟩
    · exact all place later

theorem recvQuants_sound (count place : Nat) :
    Sound (recvArray TsRfxCodecQuant.recv count (stream.drop place)) fun result =>
      result = ((List.range count).map fun index => quantAt stream (place + 5 * index),
        stream.drop (place + 5 * count)) ∧ (0 < count → place + 5 * count ≤ stream.length) := by
  induction count generalizing place with
  | zero => exact sound_ok ⟨rfl, fun none => absurd none (Nat.lt_irrefl 0)⟩
  | succ count ih =>
    rw [recvArray]
    apply (TsRfxCodecQuant.recv_sound place).bind
    rintro _ ⟨rfl, room⟩
    apply (ih (place + 5)).bind
    rintro _ ⟨rfl, more⟩
    refine sound_ok ⟨?_, ?_⟩
    · have next : ∀ index, place + 5 + 5 * index = place + 5 * (index + 1) := fun index => by omega
      simp only [List.range_succ_eq_map, List.map_cons, List.map_map, next]
      rfl
    · intro _
      rcases Nat.eq_zero_or_pos count with rfl | positive
      · exact room
      · omega

end Parsers

section Draw

variable {memory : Nat → BitVec 16} {cmd : RDPSetSurfaceCommand} {packet : List Byte}

theorem at'_ok {α : Type} {values : List α} {index : Nat} (inside : index < values.length) :
    at' values index = .ok values[index] := by
  rw [at', List.getElem?_eq_getElem inside]

theorem quantVals_shifts {index : Nat} (fits : QuantFits packet index)
    (room : 14 + 5 * leAt packet 6 1 ≤ packet.length) :
    ∃ quant, at' ((List.range (leAt packet 6 1)).map fun index => quantAt packet (14 + 5 * index))
        index = .ok quant ∧ quant.Shifts := by
  have inside := fits.inside
  refine ⟨_, at'_ok (by rw [List.length_map, List.length_range]; exact inside), ?_⟩
  rw [List.getElem_map, List.getElem_range]
  exact shifts_quantAt (by omega) fits.some

theorem TsRfxTile.draw_sound (mode : RlgrMode) {place : List Byte} {tile : TsRfxTile}
    (tileAt : TileAt place tile) (draws : TileDraws cmd packet place)
    (room : 14 + 5 * leAt packet 6 1 ≤ packet.length) {content : RDPSurfaceContent}
    (stride : content.stride = cmd.stride) (size : content.size = cmd.size) :
    Sound (tile.draw memory mode
        ((List.range (leAt packet 6 1)).map fun index => quantAt packet (14 + 5 * index)) content)
      fun content => content.stride = cmd.stride ∧ content.size = cmd.size := by
  obtain ⟨quantY, foundY, shiftsY⟩ := quantVals_shifts draws.quantY room
  obtain ⟨quantCb, foundCb, shiftsCb⟩ := quantVals_shifts draws.quantCb room
  obtain ⟨quantCr, foundCr, shiftsCr⟩ := quantVals_shifts draws.quantCr room
  rw [TsRfxTile.draw, tileAt.quantIdxY, foundY, ok_bind]
  apply (decodeComponent_sound shiftsY mode tileAt.yData memory).bind
  intro y _
  rw [tileAt.quantIdxCb, foundCb, ok_bind]
  apply (decodeComponent_sound shiftsCb mode tileAt.cbData memory).bind
  intro cb _
  rw [tileAt.quantIdxCr, foundCr, ok_bind]
  apply (decodeComponent_sound shiftsCr mode tileAt.crData memory).bind
  intro cr _
  have inside := draws.inside
  rw [tileAt.xIdx, tileAt.yIdx]
  apply (yCbCrToRGB_sound y cb cr (by rw [stride, size]; exact inside) content.data).bind
  intro data _
  exact sound_ok ⟨stride, size⟩

theorem drawTiles_sound (mode : RlgrMode) {places : List (List Byte)} {tiles : List TsRfxTile}
    (tilesAt : List.Forall₂ TileAt places tiles) (draws : ∀ place ∈ places, TileDraws cmd packet place)
    (room : 14 + 5 * leAt packet 6 1 ≤ packet.length) {content : RDPSurfaceContent}
    (stride : content.stride = cmd.stride) (size : content.size = cmd.size) :
    Sound (tiles.foldlM (fun content tile => tile.draw memory mode
        ((List.range (leAt packet 6 1)).map fun index => quantAt packet (14 + 5 * index)) content)
          content) fun _ => True := by
  induction tilesAt generalizing content with
  | nil => exact sound_ok trivial
  | cons tileAt tilesAt ih =>
    rw [List.foldlM_cons]
    apply (TsRfxTile.draw_sound mode tileAt (draws _ List.mem_cons_self) room stride size).bind
    intro content ⟨stride', size'⟩
    exact ih (fun place member => draws place (List.mem_cons_of_mem _ member)) stride' size'

theorem rlgrModeOf_sound (properties : Nat) :
    Sound (rlgrModeOf properties) fun _ =>
      properties / 2 ^ 10 % 16 = 0x01 ∨ properties / 2 ^ 10 % 16 = 0x04 := by
  unfold rlgrModeOf
  split
  · rename_i one
    exact sound_ok (.inl one)
  · rename_i four
    exact sound_ok (.inr four)
  · exact sound_raised _

theorem make_sound (fits : cmd.size ≤ Rlgr.intMax) (region : List TsRfxRect) :
    Sound (RDPSurfaceContent.make cmd region) fun content =>
      content.stride = cmd.stride ∧ content.size = cmd.size := by
  rw [RDPSurfaceContent.make, if_pos fits]
  exact sound_ok ⟨rfl, rfl⟩

/-- A tileset that fits is decoded and drawn inside of its memory. -/
theorem recvTileset_sound (region : List TsRfxRect) (fits : TilesetFits cmd (packet.drop 2)) :
    Sound (recvTileset memory cmd region packet) fun _ => True := by
  apply (recvCodecChannelt_sound packet).bind
  rintro _ rfl
  generalize packet.drop 2 = packet at *
  have first := @sound_inLe_at RfxError packet 0 2
  apply (sound_check _ _).bind
  intro _ check
  apply (first (by omega)).bind
  rintro _ rfl
  apply sound_expect.bind
  intro _ subType
  apply (sound_inLe_at (by omega)).bind
  rintro _ rfl
  apply sound_expect.bind
  intro _ idx
  apply (sound_inLe_at (by omega)).bind
  rintro _ rfl
  apply (rlgrModeOf_sound _).bind
  intro mode modes
  apply (sound_inUint8_at (by omega)).bind
  rintro ⟨numQuant, _⟩ ⟨quants, rfl⟩
  apply (sound_inUint8_at (by omega)).bind
  rintro ⟨tileSize, _⟩ ⟨size, rfl⟩
  apply sound_expect.bind
  intro _ size'
  have starts : TilesetStarts packet :=
    ⟨check, subType, idx, modes, size.symm.trans (congrArg BitVec.toNat size')⟩
  obtain ⟨room, whole⟩ := fits starts
  apply (sound_inLe_at (by omega)).bind
  rintro _ rfl
  apply (sound_inLe_at (by omega)).bind
  rintro _ rfl
  simp only [Nat.reduceAdd, quants]
  apply (recvQuants_sound _ 14).bind
  rintro _ ⟨rfl, some⟩
  have room' : 14 + 5 * leAt packet 6 1 ≤ packet.length := by
    rcases Nat.eq_zero_or_pos (leAt packet 6 1) with none | positive
    · rw [none]
      exact room
    · exact some positive
  apply (sound_check _ _).bind
  intro _ enough
  rw [List.length_drop] at enough
  obtain ⟨tilesRoom, draws⟩ := whole (by omega)
  apply (recvTiles_sound tilesRoom).bind
  rintro ⟨tiles, _⟩ ⟨all, tilesAt⟩
  obtain ⟨fits', inside⟩ := draws all
  apply (make_sound fits' region).bind
  intro content ⟨stride, size⟩
  exact drawTiles_sound mode tilesAt inside room' stride size

end Draw

section Region

variable {stream : List Byte}

def rectsOf (packet : List Byte) : List TsRfxRect :=
  (List.range (leAt packet 3 2)).map fun index => rectAt packet (5 + 8 * index)

/-- All rectangles that count are in the array. -/
def TsRfxRegion.Sane (region : TsRfxRegion) : Prop := region.numRects ≤ region.rects.length

theorem settles_keep {ε σ α : Type} {run : Checked ε α} {post : α → Prop} {state : σ}
    {thrown : ε × σ → Prop} (sound : Sound run post) (holds : ∀ error, thrown (error, state)) :
    Settles (keep state run) post thrown := by
  match run, sound with
  | .ok value, post => exact post
  | .error (.raised error), _ => exact holds error

/-- The rectangles are read behind those that are there; the array has its size all the time. -/
theorem recvRects_settles (count place : Nat) (rects : List TsRfxRect) :
    Settles (recvRects count rects (stream.drop place))
      (fun result => result = (rects ++ (List.range count).map fun index =>
        rectAt stream (place + 8 * index), stream.drop (place + 8 * count)))
      fun error => error.2.length = rects.length + count := by
  induction count generalizing place rects with
  | zero =>
    rw [List.range_zero, List.map_nil, List.append_nil]
    rfl
  | succ count ih =>
    rw [recvRects]
    apply (settles_keep (TsRfxRect.recv_sound place) (by simp)).bind
    rintro _ rfl
    have next : ∀ index, place + 8 + 8 * index = place + 8 * (index + 1) := fun index => by omega
    apply (ih (place + 8) (rects ++ [rectAt stream place])).mono
    · rintro _ rfl
      simp only [List.range_succ_eq_map, List.map_cons, List.map_map, next, List.append_assoc,
        List.singleton_append]
      rfl
    · intro error same
      rw [same, List.length_append, List.length_singleton]
      omega

theorem TsRfxRegion.recvRects_settles (region : TsRfxRegion) (numRects place : Nat) :
    Settles (region.recvRects numRects (stream.drop place))
      (fun result => result.1.Sane ∧ result.1.rects.take result.1.numRects =
        (List.range numRects).map (fun index => rectAt stream (place + 8 * index)) ∧
          result.2 = stream.drop (place + 8 * numRects))
      fun error => error.2.Sane := by
  apply settles_ite
  · intro some
    have read := @Rfx.recvRects_settles stream numRects place []
    generalize Rfx.recvRects numRects [] (stream.drop place) = run at read ⊢
    match run, read with
    | .ok _, rfl =>
      have length : ((List.range numRects).map fun index =>
          rectAt stream (place + 8 * index)).length = numRects := by
        rw [List.length_map, List.length_range]
      exact ⟨length.ge, List.take_of_length_le length.le, rfl⟩
    | .error (.raised error), same =>
      rw [List.length_nil, Nat.zero_add] at same
      exact same.ge
  · intro none
    obtain rfl := not_not.mp none
    exact ⟨Nat.zero_le _, List.take_zero, rfl⟩

/-- The message of a region puts its rectangles in the place of those before. -/
theorem TsRfxRegion.recv_settles (region : TsRfxRegion) (packet : List Byte) :
    Settles (region.recv packet)
      (fun next => next.Sane ∧ next.rects.take next.numRects = rectsOf packet)
      fun error => region.Sane → error.2.Sane := by
  have header : Sound (do
      let stream ← recvCodecChannelt packet
      check stream 3
      let flags ← inUint8 stream
      expect (flags.1 &&& 1 = 1)
      inLe 2 flags.2 : Checked RfxError (Nat × List Byte)) fun result =>
        result = (leAt packet 3 2, packet.drop 5) := by
    apply (recvCodecChannelt_sound packet).bind
    rintro _ rfl
    apply (sound_check _ _).bind
    intro _ room
    rw [List.length_drop] at room
    apply (sound_inUint8_at (by omega)).bind
    rintro ⟨_, _⟩ ⟨_, rfl⟩
    apply sound_expect.bind
    intro _ _
    exact sound_inLe_at (by omega)
  apply (settles_keep header fun _ sane => sane).bind
  rintro _ rfl
  apply ((TsRfxRegion.recvRects_settles region _ 5).mono (fun _ holds => holds)
    fun _ sane _ => sane).bind
  rintro ⟨region', _⟩ ⟨sane', rects, rfl⟩
  refine settles_keep ?_ fun _ _ => sane'
  apply (sound_check _ _).bind
  intro _ room
  rw [List.length_drop] at room
  apply (sound_inLe_at (by omega)).bind
  rintro _ rfl
  apply sound_expect.bind
  intro _ _
  apply (sound_inLe_at (by omega)).bind
  rintro _ rfl
  apply sound_expect.bind
  intro _ _
  exact sound_ok ⟨sane', rects⟩

end Region

namespace RfxDecoder

variable {memory : Nat → BitVec 16} {cmd : RDPSetSurfaceCommand} {decoder : RfxDecoder}

theorem region_ok (sane : decoder.currentRegion.Sane) :
    decoder.region = .ok (decoder.currentRegion.rects.take decoder.currentRegion.numRects) := by
  obtain ⟨_, _, numRects, rects⟩ := decoder
  rw [TsRfxRegion.Sane] at sane
  rw [region]
  simp only at sane ⊢
  induction numRects with
  | zero => rfl
  | succ numRects ih =>
    rw [List.range_succ, List.mapM_append, ih (by omega), ok_bind, List.mapM_cons,
      at'_ok (by omega : numRects < rects.length), ok_bind, List.mapM_nil,
      List.take_succ_eq_append_getElem (by omega)]
    rfl

/-- A tileset fits where it is decoded. -/
def BlockAllowed (cmd : RDPSetSurfaceCommand) (decoder : RfxDecoder) (blockType : Nat)
    (packet : List Byte) : Prop :=
  decoder.decoderState = .rfxWaitingFrame → blockType = wbtExtension →
    TilesetFits cmd (packet.drop 2)

theorem recvProperties_sound (blockType : Nat) (packet : List Byte) :
    Sound (decoder.recvProperties blockType packet) fun next =>
      next.currentRegion = decoder.currentRegion := by
  have flag : Sound (propertiesFlag blockType packet) fun _ => True := by
    apply sound_ite
    · intro _
      exact (recvContext_sound packet).bind fun _ _ => sound_ok trivial
    · intro _
      apply sound_ite
      · intro _
        exact (recvCodecVersions_sound packet).bind fun _ _ => sound_ok trivial
      · intro _
        apply sound_ite
        · intro _
          exact (recvChannels_sound packet).bind fun _ _ => sound_ok trivial
        · intro _
          exact sound_raised _
  apply flag.bind
  intro flag _
  exact sound_ok rfl

theorem recvFrame_settles (sane : decoder.currentRegion.Sane) {blockType : Nat}
    {packet : List Byte}
    (allowed : blockType = wbtExtension → TilesetFits cmd (packet.drop 2)) :
    Settles (decoder.recvFrame memory cmd blockType packet)
      (fun result => result.1.currentRegion.Sane) fun error => error.2.currentRegion.Sane := by
  apply settles_ite
  · intro _
    refine settles_keep ?_ fun _ => sane
    exact (recvFrameBegin_sound packet).bind fun _ _ => sound_ok sane
  intro _
  apply settles_ite
  · intro _
    refine settles_keep ?_ fun _ => sane
    exact (recvFrameEnd_sound packet).bind fun _ _ => sound_ok sane
  intro _
  apply settles_ite
  · intro _
    have received := TsRfxRegion.recv_settles decoder.currentRegion packet
    generalize decoder.currentRegion.recv packet = run at received ⊢
    match run, received with
    | .ok _, holds => exact holds.1
    | .error (.raised _), holds => exact holds sane
  intro _
  apply settles_ite
  · intro extension
    refine settles_keep ?_ fun _ => sane
    rw [region_ok sane, ok_bind]
    exact (recvTileset_sound _ (allowed extension)).bind fun _ _ => sound_ok sane
  · intro _
    exact sane

theorem recvBlock_settles (sane : decoder.currentRegion.Sane) {blockType : Nat}
    {packet : List Byte} (allowed : BlockAllowed cmd decoder blockType packet) :
    Settles (decoder.recvBlock memory cmd blockType packet)
      (fun result => result.1.currentRegion.Sane) fun error => error.2.currentRegion.Sane := by
  unfold recvBlock
  cases state : decoder.decoderState with
  | rfxWaitingSync =>
    refine settles_keep ?_ fun _ => sane
    apply sound_expect.bind
    intro _ _
    apply (recvSync_sound packet).bind
    intro _ _
    exact sound_ok sane
  | rfxWaitingProperties =>
    refine settles_keep ?_ fun _ => sane
    apply (recvProperties_sound blockType packet).bind
    intro next same
    exact sound_ok (same ▸ sane)
  | rfxWaitingFrame => exact recvFrame_settles sane (allowed state)

/-- What the loop of `recv` reaches is allowed. -/
def LoopAllowed (memory : Nat → BitVec 16) (cmd : RDPSetSurfaceCommand) :
    Nat → RfxDecoder → List Byte → Prop
  | 0, _, _ => True
  | turns + 1, decoder, stream => ∀ blockType packet rest,
      nextBlock stream = .ok (blockType, packet, rest) →
        BlockAllowed cmd decoder blockType packet ∧
          ∀ next drawn, decoder.recvBlock memory cmd blockType packet = .ok (next, drawn) →
            LoopAllowed memory cmd turns next rest

theorem nextBlock_sound (stream : List Byte) : Sound (nextBlock stream) fun _ => True := by
  have first := @sound_inLe_at RfxError stream 0 2
  apply (sound_check _ _).bind
  intro _ room
  apply (first (by omega)).bind
  rintro _ rfl
  apply (sound_inLe_at (by omega)).bind
  rintro _ rfl
  apply sound_expect.bind
  intro _ _
  apply (sound_check _ _).bind
  intro _ _
  exact sound_ok trivial

theorem recvLoop_settles {turns : Nat} {stream : List Byte} (sane : decoder.currentRegion.Sane)
    (allowed : LoopAllowed memory cmd turns decoder stream) :
    Settles (recvLoop memory cmd turns decoder stream)
      (fun result => result.1.currentRegion.Sane) fun error => error.2.currentRegion.Sane := by
  induction turns generalizing decoder stream with
  | zero => exact sane
  | succ turns ih =>
    rw [recvLoop]
    apply settles_ite
    · intro _
      have block := (nextBlock_sound stream).settles.found.sound
      apply (settles_keep block fun _ => sane).bind
      rintro ⟨blockType, packet, rest⟩ ⟨_, found⟩
      obtain ⟨fits, goesOn⟩ := allowed _ _ _ found
      apply (@recvBlock_settles memory cmd decoder sane blockType packet fits).found.bind
      rintro ⟨next, drawn⟩ ⟨sane', received⟩
      apply (ih sane' (goesOn _ _ received)).bind
      rintro ⟨last, more⟩ sane''
      exact sane''
    · intro _
      exact sane

/-- A message of a region puts its rectangles in the place of those before. -/
theorem region_recvBlock (frame : decoder.decoderState = .rfxWaitingFrame) {packet : List Byte}
    {next : RfxDecoder} {drawn : Option RDPSurfaceContent}
    (received : decoder.recvBlock memory cmd wbtRegion packet = .ok (next, drawn)) :
    next.region = .ok (rectsOf packet) := by
  have settles := TsRfxRegion.recv_settles decoder.currentRegion packet
  have same : decoder.recvBlock memory cmd wbtRegion packet =
      decoder.recvFrame memory cmd wbtRegion packet := by
    rw [recvBlock, frame]
  rw [same, recvFrame, if_neg (by decide), if_neg (by decide), if_pos rfl] at received
  generalize decoder.currentRegion.recv packet = run at settles received
  match run, settles with
  | .ok region, ⟨sane, rects⟩ =>
    cases received
    rw [region_ok sane, rects]

/-- The decoder behind a call, also behind one that throws. -/
def after (decoder : RfxDecoder) :
    Checked (RfxError × RfxDecoder) (RfxDecoder × List RDPSurfaceContent) → RfxDecoder
  | .ok (next, _) => next
  | .error (.raised (_, next)) => next
  | .error .outOfBounds => decoder

/-- The calls of `recv`, one behind the other. -/
def machine (memory : Nat → BitVec 16) : Machine RfxDecoder (RDPSetSurfaceCommand × List Byte)
    (Checked (RfxError × RfxDecoder) (RfxDecoder × List RDPSurfaceContent)) where
  step decoder input :=
    let run := decoder.recv memory input.1 input.2
    (decoder.after run, run)

/-- A call stays inside of the memory. -/
def Good (memory : Nat → BitVec 16) (decoder : RfxDecoder)
    (input : RDPSetSurfaceCommand × List Byte) : Prop :=
  decoder.recv memory input.1 input.2 ≠ .error .outOfBounds

/-- Each tileset that a call decodes fits. -/
def Allowed (memory : Nat → BitVec 16) (decoder : RfxDecoder)
    (input : RDPSetSurfaceCommand × List Byte) : Prop :=
  LoopAllowed memory input.1 input.2.length decoder input.2

/-- In every run in which each tileset that is decoded fits, every call stays inside of the memory
for it; and every message of a region puts its rectangles in the place of those before. -/
theorem recv_safe (memory : Nat → BitVec 16) (inputs : List (RDPSetSurfaceCommand × List Byte))
    (allowed : (machine memory).EveryStep (Allowed memory) new inputs) :
    (machine memory).EveryStep (Good memory) new inputs ∧
      ∀ (cmd : RDPSetSurfaceCommand) (decoder next : RfxDecoder) (packet : List Byte)
        (drawn : Option RDPSurfaceContent), decoder.decoderState = .rfxWaitingFrame →
        decoder.recvBlock memory cmd wbtRegion packet = .ok (next, drawn) →
        next.region = .ok (rectsOf packet) := by
  constructor
  · apply @Machine.everyStep_of_invariant _ _ _ (machine memory)
      (fun decoder => decoder.currentRegion.Sane) (Allowed memory)
    · intro decoder input sane fits
      have settles := recvLoop_settles sane fits
      change (decoder.after (decoder.recv memory input.1 input.2)).currentRegion.Sane
      rw [recv]
      generalize recvLoop memory input.1 input.2.length decoder input.2 = run at settles ⊢
      match run, settles with
      | .ok _, sane' => exact sane'
      | .error (.raised _), sane' => exact sane'
    · intro decoder input sane fits
      exact (recvLoop_settles sane fits).sound.no_fault
    · exact Nat.le_refl 0
    · exact allowed
  · intro cmd decoder next packet drawn frame received
    exact region_recvBlock frame received

/-- A session up to a tileset of one tile, whose first quantization index is `index`. -/
def oneTile (index : Byte) : List Byte :=
  [0xC0, 0xCC, 12, 0, 0, 0, 0xCA, 0xAC, 0xCC, 0xCA, 0, 1] ++
  [0xC1, 0xCC, 10, 0, 0, 0, 1, 1, 0, 1] ++
  [0xC2, 0xCC, 12, 0, 0, 0, 1, 0, 64, 0, 64, 0] ++
  [0xC3, 0xCC, 13, 0, 0, 0, 1, 0, 0, 64, 0, 0, 0] ++
  [0xC6, 0xCC, 23, 0, 0, 0, 1, 0, 1, 1, 0, 0, 0, 0, 0, 64, 0, 64, 0, 0xC1, 0xCA, 1, 0] ++
  [0xC7, 0xCC, 46, 0, 0, 0, 1, 0, 0xC2, 0xCA, 0, 0, 0, 4, 1, 64, 1, 0, 19, 0, 0, 0,
    0x66, 0x66, 0x66, 0x66, 0x66, 0xC3, 0xCA, 19, 0, 0, 0, index, 0, 0, 0, 0, 0, 0, 0, 0, 0, 0, 0, 0]

theorem loopAllowed_nil (turns : Nat) : LoopAllowed memory cmd turns decoder [] := by
  cases turns with
  | zero => trivial
  | succ turns =>
    intro _ _ _ found
    cases found

theorem loopAllowed_succ {turns blockType : Nat} {stream packet rest : List Byte}
    (found : nextBlock stream = .ok (blockType, packet, rest))
    (allowed : BlockAllowed cmd decoder blockType packet)
    (goesOn : ∀ next drawn, decoder.recvBlock memory cmd blockType packet = .ok (next, drawn) →
      LoopAllowed memory cmd turns next rest) :
    LoopAllowed memory cmd (turns + 1) decoder stream := by
  intro blockType' packet' rest' found'
  rw [found] at found'
  cases found'
  exact ⟨allowed, goesOn⟩

theorem loopAllowed_other {turns blockType : Nat} {stream packet rest : List Byte}
    {next : RfxDecoder} {drawn : Option RDPSurfaceContent}
    (found : nextBlock stream = .ok (blockType, packet, rest)) (other : blockType ≠ wbtExtension)
    (received : decoder.recvBlock memory cmd blockType packet = .ok (next, drawn))
    (goesOn : LoopAllowed memory cmd turns next rest) :
    LoopAllowed memory cmd (turns + 1) decoder stream := by
  apply loopAllowed_succ found
  · intro _ extension
    exact absurd extension other
  · intro next' drawn' received'
    rw [received] at received'
    cases received'
    exact goesOn

/-- The tileset of one tile, whose indices are below the number of its quantization values. -/
theorem tilesetFits_oneTile : TilesetFits ⟨64, 64⟩ (((oneTile 0).drop 76).drop 2) := by
  intro _
  refine ⟨by decide, fun _ => ⟨fun _ => ⟨⟨by decide, fun _ => by decide⟩, fun _ => trivial⟩, ?_⟩⟩
  intro _
  refine ⟨by decide, ?_⟩
  have quant : QuantFits (((oneTile 0).drop 76).drop 2) 0 := ⟨by decide, by decide⟩
  intro tile member
  obtain rfl := List.mem_singleton.mp member
  exact ⟨quant, quant, quant, by decide⟩

theorem allowed_oneTile :
    (machine fun _ => 0).EveryStep (Allowed fun _ => 0) new [(⟨64, 64⟩, oneTile 0)] := by
  refine ⟨?_, trivial⟩
  apply loopAllowed_other rfl (by decide) rfl
  apply loopAllowed_other rfl (by decide) rfl
  apply loopAllowed_other rfl (by decide) rfl
  apply loopAllowed_other rfl (by decide) rfl
  apply loopAllowed_other rfl (by decide) rfl
  apply loopAllowed_succ rfl
  · intro _ _
    exact tilesetFits_oneTile
  · intro next _ _
    exact loopAllowed_nil 110

/-- The session of one tile is received. -/
theorem recv_safe_oneTile :
    (machine fun _ => 0).EveryStep (Good fun _ => 0) new [(⟨64, 64⟩, oneTile 0)] :=
  (recv_safe (fun _ => 0) [(⟨64, 64⟩, oneTile 0)] allowed_oneTile).1

/-- An index behind the quantization values of a tileset is read. -/
theorem not_recv_safe :
    ¬ ∀ (memory : Nat → BitVec 16) (inputs : List (RDPSetSurfaceCommand × List Byte)),
      (machine memory).EveryStep (Good memory) new inputs := by
  intro safe
  have step := (safe (fun _ => 0) [(⟨64, 64⟩, oneTile 1)]).1
  exact step rfl

end RfxDecoder

end Redemption.Rfx
