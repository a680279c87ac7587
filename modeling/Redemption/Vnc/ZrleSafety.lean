import Redemption.Vnc.ZrleTiles

/-! When decoding hostile ZRLE data stays inside of the memory of the tiles and of the data. -/
namespace Redemption.Vnc

open Redemption.Foundation Redemption.Utils

/-- Every palette index that is read is one of the palette: so many pixels have been laid, and
the runs are read until the tile is full or an error ends it. -/
def RunsDefined (size limit : Nat) : Nat → List Byte → Nat → Prop
  | 0, _, _ => True
  | _, [], _ => True
  | fuel + 1, index :: stream, done =>
    match paletteRunLength index.toNat stream with
    | .error _ => True
    | .ok (length, stream) =>
      (index.toNat &&& 0x7F) < size ∧
        (done + length < limit → RunsDefined size limit fuel stream (done + length))

/-- The data that a tile takes without a check is there: the pixel of a solid tile, and the
entries of a palette that the runs refer to. -/
def TileDefined (Bpp : Nat) (tile : Rect) : List Byte → Prop
  | [] => True
  | byte :: stream =>
    (byte.toNat = 1 → max Bpp 2 ≤ stream.length) ∧
      (130 ≤ byte.toNat → (byte.toNat &&& 0x7F) * Bpp ≤ stream.length →
        RunsDefined (byte.toNat &&& 0x7F) (tile.cx * tile.cy)
          ((stream.drop ((byte.toNat &&& 0x7F) * Bpp)).length + 1)
          (stream.drop ((byte.toNat &&& 0x7F) * Bpp)) 0)

/-- So it is for every tile that is reached. -/
def TilesDefined (Bpp : Nat) (memory : TileData) : Nat → TileWalk → List Byte → Prop
  | 0, _, _ => True
  | fuel + 1, walk, stream =>
    TileDefined Bpp walk.tile stream ∧
      ∀ order rest next, decodeTile Bpp walk.tile memory stream = .ok (order, rest) →
        walk.nextTile 64 = some next → TilesDefined Bpp memory fuel next rest

/-- A tile that can be drawn at so many bytes per pixel. -/
structure TileFits (Bpp : Nat) (tile : Rect) : Prop where
  positive : 0 < Bpp
  pixel : Bpp ≤ 4
  wide : 0 < tile.cx ∧ tile.cx ≤ 64
  high : 0 < tile.cy ∧ tile.cy ≤ 64

variable {Bpp : Nat} {tile : Rect}

theorem TileFits.room (fits : TileFits Bpp tile) : tile.cx * tile.cy * Bpp ≤ tileDataSize :=
  Nat.mul_le_mul (Nat.mul_le_mul fits.wide.2 fits.high.2) fits.pixel

theorem TileFits.some (fits : TileFits Bpp tile) : 0 < tile.cx * tile.cy :=
  Nat.mul_pos fits.wide.1 fits.high.1

theorem drawArray_sound (fits : TileFits Bpp tile) (tileData : TileData) :
    Sound (drawTile Bpp tile (tileData.slice 0 tileDataSize)) fun _ => True :=
  drawTile_sound (by
    rw [Buffer.length_slice]
    exact fits.room)

section Simple

theorem rawTile_sound (fits : TileFits Bpp tile) (stream : List Byte) :
    Sound (rawTile Bpp tile stream) fun _ => True := by
  have room := fits.room
  have size : tile.cx * tile.cy * Bpp % 2 ^ 16 = tile.cx * tile.cy * Bpp := by
    apply Nat.mod_eq_of_lt
    unfold tileDataSize at room
    omega
  unfold rawTile
  simp only [size]
  apply (sound_checkThrow _ _ _).bind
  intro _ enough
  apply (sound_inBytes enough).bind
  intro ⟨tileData, rest⟩ ⟨length, _⟩
  apply (drawTile_sound (Nat.le_of_eq length.symm)).bind
  intro drawn _
  exact sound_ok trivial

/-- A solid tile is drawn without a fault exactly when its pixel is there. -/
theorem solidTile_sound_iff (stream : List Byte) :
    Sound (solidTile Bpp tile stream) (fun _ => True) ↔ max Bpp 2 ≤ stream.length := by
  unfold solidTile inBytes bytesAt
  by_cases pixel : Bpp ≤ stream.length
  · by_cases colour : 0 + 2 ≤ stream.length
    · simp only [if_pos pixel, if_pos colour, ok_bind]
      constructor
      · intro _
        omega
      · intro _
        exact sound_ok trivial
    · simp only [if_pos pixel, if_neg colour, ok_bind]
      constructor
      · intro sound
        exact sound.elim
      · intro enough
        omega
  · simp only [if_neg pixel]
    constructor
    · intro sound
      exact sound.elim
    · intro enough
      omega

variable {palette : List Byte}

theorem paletteEntry_sound {size index : Nat}
    (length : palette.length = size * Bpp) (defined : index < size) :
    Sound (paletteEntry Bpp palette index) fun entry => entry.length = Bpp := by
  have room : index * Bpp + Bpp ≤ palette.length := by
    rw [length, ← Nat.succ_mul]
    exact Nat.mul_le_mul_right _ defined
  rw [paletteEntry, bytesAt_of_le room]
  refine sound_ok (List.length_take_of_le ?_)
  rw [List.length_drop]
  omega

/-- An index that a palette does not have is read from elsewhere. -/
theorem paletteEntry_fault (positive : 0 < Bpp) {size index : Nat}
    (length : palette.length = size * Bpp) (undefined : size ≤ index) :
    paletteEntry Bpp palette index = .error .outOfBounds := by
  have beyond : palette.length ≤ index * Bpp := by
    rw [length]
    exact Nat.mul_le_mul_right _ undefined
  rw [paletteEntry, bytesAt, if_neg (by omega)]

theorem packedByte_sound (fits : TileFits Bpp tile) {subencoding y : Nat}
    (length : palette.length = subencoding * Bpp) (some' : 0 < subencoding)
    (line : y < tile.cy) (currentByte : Byte) (qs : List Nat) (tileData : TileData) (x : Nat) :
    Sound (packedByte Bpp tile subencoding palette y currentByte qs tileData x) fun _ => True := by
  induction qs generalizing tileData x with
  | nil => exact sound_ok trivial
  | cons q qs ih =>
    apply sound_ite
    · intro _
      exact sound_ok trivial
    · intro inside
      have defined : (if subencoding ≤ paletteIndex subencoding q currentByte then 0
          else paletteIndex subencoding q currentByte) < subencoding := by
        split <;> omega
      apply (paletteEntry_sound length defined).bind
      intro entry pixel
      have place : y * tile.cx + x + 1 ≤ tile.cx * tile.cy := by
        calc y * tile.cx + x + 1 ≤ y * tile.cx + tile.cx := by omega
          _ = tile.cx * (y + 1) := by ring
          _ ≤ tile.cx * tile.cy := Nat.mul_le_mul_left _ line
      have room : (y * tile.cx + x) * Bpp + entry.length ≤ tileDataSize := by
        rw [pixel, ← Nat.succ_mul]
        exact Nat.le_trans (Nat.mul_le_mul_right _ place) fits.room
      apply (sound_storeBlock _ room).bind
      intro tileData _
      exact ih tileData (x + 1)

theorem packedLine_sound (fits : TileFits Bpp tile) {subencoding y : Nat}
    (length : palette.length = subencoding * Bpp) (some' : 0 < subencoding)
    (line : y < tile.cy) (bytes : List Byte) (tileData : TileData) (x : Nat) :
    Sound (packedLine Bpp tile subencoding palette y bytes tileData x) fun _ => True := by
  induction bytes generalizing tileData x with
  | nil => exact sound_ok trivial
  | cons currentByte bytes ih =>
    apply (packedByte_sound fits length some' line currentByte _ tileData x).bind
    intro ⟨tileData, x⟩ _
    exact ih tileData x

theorem packedLines_sound (fits : TileFits Bpp tile) {subencoding : Nat}
    (length : palette.length = subencoding * Bpp) (some' : 0 < subencoding) (lines y : Nat)
    (inside : y + lines ≤ tile.cy) {packedPixels : List Byte}
    (room : lineBytesWidth subencoding tile.cx * lines ≤ packedPixels.length)
    (tileData : TileData) :
    Sound (packedLines Bpp tile subencoding palette lines y packedPixels tileData)
      fun _ => True := by
  induction lines generalizing y packedPixels tileData with
  | zero => exact sound_ok trivial
  | succ lines ih =>
    rw [Nat.mul_succ] at room
    apply (sound_inBytes (by omega)).bind
    intro ⟨line, packedPixels⟩ ⟨_, left⟩
    simp only at left ⊢
    apply (packedLine_sound fits length some' (by omega) line tileData 0).bind
    intro tileData _
    exact ih (y + 1) (by omega) (by omega) tileData

theorem packedPalette_sound (fits : TileFits Bpp tile) {memory : TileData} {subencoding : Nat}
    (some' : 0 < subencoding) (stream : List Byte) :
    Sound (packedPalette Bpp tile memory subencoding stream) fun _ => True := by
  apply (sound_checkThrow _ _ _).bind
  intro _ enough
  apply (sound_inBytes enough).bind
  intro ⟨palette, stream⟩ ⟨length, _⟩
  apply (sound_checkThrow _ _ _).bind
  intro _ enough
  apply (sound_inBytes enough).bind
  intro ⟨packedPixels, stream⟩ ⟨size, _⟩
  apply (packedLines_sound fits length some' tile.cy 0 (by omega) (Nat.le_of_eq size.symm)
    memory).bind
  intro tileData _
  apply (drawArray_sound fits tileData).bind
  intro drawn _
  exact sound_ok trivial

end Simple

section Runs

theorem writeRun_fits (fits : TileFits Bpp tile) {pattern : List Byte}
    (pixel : pattern.length = Bpp) (length : Nat) (tileData : TileData) (done : Nat)
    (inside : done + length ≤ tile.cx * tile.cy) :
    ∃ tileData' : TileData, writeRun Bpp tile pattern length tileData (done * Bpp) =
      .ok (tileData', (done + length) * Bpp) := by
  induction length generalizing tileData done with
  | zero => exact ⟨tileData, rfl⟩
  | succ length ih =>
    have before : done * Bpp ≠ tile.cx * tile.cy * Bpp := by
      intro same
      have := Nat.eq_of_mul_eq_mul_right fits.positive same
      omega
    have room : done * Bpp + pattern.length ≤ tileDataSize := by
      rw [pixel, ← Nat.succ_mul]
      exact Nat.le_trans (Nat.mul_le_mul_right _ (by omega)) fits.room
    obtain ⟨tileData', laid⟩ := ih (tileData.splice (done * Bpp) pattern) (done + 1) (by omega)
    rw [Nat.succ_mul] at laid
    refine ⟨tileData', ?_⟩
    rw [writeRun, if_neg before, Buffer.storeBlock_of_le _ room, ok_bind, laid]
    congr 3
    omega

theorem writeRun_over (fits : TileFits Bpp tile) {pattern : List Byte}
    (pixel : pattern.length = Bpp) (length : Nat) (tileData : TileData) (done : Nat)
    (start : done ≤ tile.cx * tile.cy) (over' : tile.cx * tile.cy < done + length) :
    writeRun Bpp tile pattern length tileData (done * Bpp) = .error (.raised .zrleProtocol) := by
  induction length generalizing tileData done with
  | zero => omega
  | succ length ih =>
    by_cases ends : done = tile.cx * tile.cy
    · rw [writeRun, if_pos (by rw [ends])]
    · have before : done * Bpp ≠ tile.cx * tile.cy * Bpp := by
        intro same
        exact ends (Nat.eq_of_mul_eq_mul_right fits.positive same)
      have room : done * Bpp + pattern.length ≤ tileDataSize := by
        rw [pixel, ← Nat.succ_mul]
        exact Nat.le_trans (Nat.mul_le_mul_right _ (by omega)) fits.room
      have laid := ih (tileData.splice (done * Bpp) pattern) (done + 1) (by omega) (by omega)
      rw [Nat.succ_mul] at laid
      rw [writeRun, if_neg before, Buffer.storeBlock_of_le _ room, ok_bind, laid]

theorem longLength_sound (length : Nat) (stream : List Byte) :
    Sound (longLength length stream) fun _ => True := by
  induction stream generalizing length with
  | nil => exact sound_raised _
  | cons tmp stream ih =>
    apply sound_ite
    · intro _
      exact sound_ok trivial
    · intro _
      exact ih _

theorem runLength_sound {stream : List Byte} (some' : 1 ≤ stream.length) :
    Sound (runLength stream) fun _ => True := by
  apply (sound_inUint8 some').bind
  intro ⟨byte, stream⟩ _
  apply sound_ite
  · intro _
    exact longLength_sound _ _
  · intro _
    exact sound_ok trivial

theorem paletteRunLength_sound (index : Nat) (stream : List Byte) :
    Sound (paletteRunLength index stream) fun _ => True := by
  apply sound_ite
  · intro _
    apply (sound_checkThrow _ _ _).bind
    intro _ enough
    exact runLength_sound enough
  · intro _
    exact sound_ok trivial

theorem plainRun_sound (stream : List Byte) :
    Sound (plainRun Bpp stream) fun result => result.1.1.length = Bpp := by
  apply (sound_checkThrow _ _ _).bind
  intro _ enough
  apply (sound_inBytes (by omega)).bind
  intro ⟨pattern, stream⟩ ⟨pixel, left⟩
  simp only at pixel left ⊢
  apply (runLength_sound (by omega)).bind
  intro ⟨length, stream⟩ _
  exact sound_ok pixel

theorem runs_sound (fits : TileFits Bpp tile)
    {nextRun : List Byte → Checked VncError ((List Byte × Nat) × List Byte)}
    (readable : ∀ stream, Sound (nextRun stream) fun result => result.1.1.length = Bpp)
    (fuel : Nat) (stream : List Byte) (tileData : TileData) (done : Nat)
    (inside : done ≤ tile.cx * tile.cy) :
    Sound (runs Bpp tile nextRun fuel stream tileData (done * Bpp)) fun _ => True := by
  induction fuel generalizing stream tileData done with
  | zero => exact sound_raised _
  | succ fuel ih =>
    apply (readable stream).bind
    intro ⟨⟨pattern, length⟩, stream⟩ pixel
    simp only at pixel ⊢
    by_cases ends : done + length ≤ tile.cx * tile.cy
    · obtain ⟨tileData', laid⟩ := writeRun_fits fits pixel length tileData done ends
      rw [laid, ok_bind]
      apply sound_ite
      · intro _
        exact sound_ok trivial
      · intro _
        exact ih stream tileData' (done + length) ends
    · rw [writeRun_over fits pixel length tileData done inside (by omega)]
      exact sound_raised _

/-- The runs of a palette tile are laid without a fault exactly when each index that is read is
one of the palette. -/
theorem paletteRuns_sound_iff (fits : TileFits Bpp tile) {palette : List Byte} {size : Nat}
    (sized : palette.length = size * Bpp) (fuel : Nat) (stream : List Byte) (tileData : TileData)
    (done : Nat) (more : done < tile.cx * tile.cy) :
    Sound (runs Bpp tile (paletteRun Bpp palette) fuel stream tileData (done * Bpp))
      (fun _ => True) ↔ RunsDefined size (tile.cx * tile.cy) fuel stream done := by
  induction fuel generalizing stream tileData done with
  | zero => exact ⟨fun _ => trivial, fun _ => sound_raised _⟩
  | succ fuel ih =>
    cases stream with
    | nil => exact ⟨fun _ => trivial, fun _ => sound_raised _⟩
    | cons index stream =>
      rw [runs, paletteRun, checkThrow_of_le _ (by simp), ok_bind, RunsDefined]
      simp only [inUint8, ok_bind]
      have measured := paletteRunLength_sound index.toNat stream
      cases read : paletteRunLength index.toNat stream with
      | error fault =>
        rw [read] at measured
        cases fault with
        | outOfBounds => exact measured.elim
        | raised error => exact ⟨fun _ => trivial, fun _ => sound_raised _⟩
      | ok result =>
        obtain ⟨length, stream'⟩ := result
        by_cases defined : (index.toNat &&& 0x7F) < size
        · have entry := paletteEntry_sound sized defined
          cases loaded : paletteEntry Bpp palette (index.toNat &&& 0x7F) with
          | error fault =>
            rw [loaded] at entry
            cases fault with
            | outOfBounds => exact entry.elim
            | raised error => exact absurd loaded (by unfold paletteEntry bytesAt; split <;> simp)
          | ok pattern =>
            rw [loaded] at entry
            simp only [ok_bind, pure_ok, and_iff_right defined]
            by_cases over' : tile.cx * tile.cy < done + length
            · rw [writeRun_over fits entry length tileData done (Nat.le_of_lt more) over']
              refine ⟨fun _ inside => ?_, fun _ => sound_raised _⟩
              omega
            · obtain ⟨tileData', laid⟩ :=
                writeRun_fits fits entry length tileData done (Nat.not_lt.mp over')
              rw [laid, ok_bind]
              by_cases ends : done + length = tile.cx * tile.cy
              · rw [if_pos (by rw [ends])]
                refine ⟨fun _ inside => ?_, fun _ => sound_ok trivial⟩
                omega
              · have inside : done + length < tile.cx * tile.cy := by omega
                have going : (done + length) * Bpp ≠ tile.cx * tile.cy * Bpp := by
                  intro same
                  exact ends (Nat.eq_of_mul_eq_mul_right fits.positive same)
                rw [if_neg going, ih stream' tileData' (done + length) inside]
                exact ⟨fun holds _ => holds, fun holds => holds inside⟩
        · rw [paletteEntry_fault fits.positive sized (Nat.not_lt.mp defined)]
          exact ⟨fun sound => sound.elim, fun both => absurd both.1 defined⟩

theorem plainRLE_sound (fits : TileFits Bpp tile) {memory : TileData} (stream : List Byte) :
    Sound (plainRLE Bpp tile memory stream) fun _ => True := by
  have laid := runs_sound fits plainRun_sound (stream.length + 1) stream memory 0 (Nat.zero_le _)
  rw [Nat.zero_mul] at laid
  apply laid.bind
  intro ⟨tileData, stream⟩ _
  apply (drawArray_sound fits tileData).bind
  intro drawn _
  exact sound_ok trivial

/-- A palette tile is drawn without a fault exactly when its runs refer to its palette. -/
theorem paletteRLE_sound_iff (fits : TileFits Bpp tile) {memory : TileData} (subencoding : Nat)
    (stream : List Byte) :
    Sound (paletteRLE Bpp tile memory subencoding stream) (fun _ => True) ↔
      ((subencoding &&& 0x7F) * Bpp ≤ stream.length →
        RunsDefined (subencoding &&& 0x7F) (tile.cx * tile.cy)
          ((stream.drop ((subencoding &&& 0x7F) * Bpp)).length + 1)
          (stream.drop ((subencoding &&& 0x7F) * Bpp)) 0) := by
  unfold paletteRLE
  simp only
  by_cases enough : (subencoding &&& 0x7F) * Bpp ≤ stream.length
  · have sized : (stream.take ((subencoding &&& 0x7F) * Bpp)).length =
        (subencoding &&& 0x7F) * Bpp := List.length_take_of_le enough
    have exact' := paletteRuns_sound_iff fits sized
      ((stream.drop ((subencoding &&& 0x7F) * Bpp)).length + 1)
      (stream.drop ((subencoding &&& 0x7F) * Bpp)) memory 0 fits.some
    rw [Nat.zero_mul] at exact'
    rw [checkThrow_of_le _ enough, ok_bind, inBytes, if_pos enough, ok_bind]
    simp only [enough, true_imp_iff]
    rw [← exact']
    constructor
    · intro sound
      rw [sound_true_iff]
      intro fault
      rw [fault] at sound
      exact sound
    · intro sound
      apply sound.bind
      rintro ⟨tileData, rest⟩ _
      apply (drawArray_sound fits tileData).bind
      intro drawn _
      exact sound_ok trivial
  · rw [checkThrow, if_neg enough]
    exact ⟨fun _ holds => absurd holds enough, fun _ => sound_raised _⟩

end Runs

section Tiles

variable {memory : TileData}

/-- A tile is decoded without a fault exactly when the data that it takes unchecked is there. -/
theorem decodeTile_sound_iff (fits : TileFits Bpp tile) {stream : List Byte}
    (some' : 1 ≤ stream.length) :
    Sound (decodeTile Bpp tile memory stream) (fun _ => True) ↔ TileDefined Bpp tile stream := by
  cases stream with
  | nil => simp at some'
  | cons byte stream =>
    rw [decodeTile, inUint8, ok_bind, TileDefined]
    simp only
    by_cases raw : byte.toNat = 0
    · rw [if_pos raw]
      refine ⟨fun _ => ⟨fun one => ?_, fun many => ?_⟩, fun _ => rawTile_sound fits stream⟩
      · omega
      · omega
    · rw [if_neg raw]
      by_cases solid : byte.toNat = 1
      · rw [if_pos solid, solidTile_sound_iff]
        refine ⟨fun enough => ⟨fun _ => enough, fun many => ?_⟩, fun both => both.1 solid⟩
        omega
      · rw [if_neg solid]
        by_cases packed : byte.toNat ≤ 16
        · rw [if_pos packed]
          refine ⟨fun _ => ⟨fun one => absurd one solid, fun many => ?_⟩,
            fun _ => packedPalette_sound fits (by omega) stream⟩
          omega
        · rw [if_neg packed]
          by_cases unused : byte.toNat ≤ 127 ∨ byte.toNat = 129
          · rw [if_pos unused]
            refine ⟨fun _ => ⟨fun one => absurd one solid, fun many => ?_⟩,
              fun _ => sound_raised _⟩
            omega
          · rw [if_neg unused]
            by_cases plain : byte.toNat = 128
            · rw [if_pos plain]
              refine ⟨fun _ => ⟨fun one => absurd one solid, fun many => ?_⟩,
                fun _ => plainRLE_sound fits stream⟩
              omega
            · rw [if_neg plain, paletteRLE_sound_iff fits]
              refine ⟨fun runs => ⟨fun one => absurd one solid, fun _ => runs⟩, fun both => ?_⟩
              exact both.2 (by omega)

/-- The tiles are decoded without a fault exactly when it is so for each that is reached. -/
theorem updateTiles_sound_iff {rect : Rect} (positive : 0 < Bpp) (pixel : Bpp ≤ 4) (fuel : Nat)
    {index : Nat} {walk : TileWalk} (at' : TileWalk.At 64 rect index walk)
    (inside : index < TileGrid.count 64 rect.area) (stream : List Byte) (drawn : List Drawn) :
    Sound (updateTiles Bpp memory fuel walk stream drawn) (fun _ => True) ↔
      TilesDefined Bpp memory fuel walk stream := by
  induction fuel generalizing index walk stream drawn with
  | zero => exact ⟨fun _ => trivial, fun _ => sound_raised _⟩
  | succ fuel ih =>
    obtain ⟨wide, high⟩ := at'.tile_pos (by decide) inside
    have fits : TileFits Bpp walk.tile := ⟨positive, pixel, wide, high⟩
    rw [updateTiles, TilesDefined]
    by_cases some' : 1 ≤ stream.length
    · rw [checkThrow_of_le _ some', ok_bind]
      have tile := @decodeTile_sound_iff Bpp walk.tile memory fits stream some'
      cases decoded : decodeTile Bpp walk.tile memory stream with
      | error fault =>
        rw [decoded] at tile
        cases fault with
        | outOfBounds =>
          refine ⟨fun sound => sound.elim, fun both => ?_⟩
          exact (tile.mpr both.1).elim
        | raised error =>
          refine ⟨fun _ => ⟨tile.mp (sound_raised _), ?_⟩, fun _ => sound_raised _⟩
          intro order rest next same
          cases same
      | ok result =>
        obtain ⟨order, rest⟩ := result
        rw [decoded] at tile
        have defined := tile.mp (sound_ok trivial)
        simp only [ok_bind, and_iff_right defined]
        cases stepped : walk.nextTile 64 with
        | none =>
          refine ⟨fun _ => ?_, fun _ => sound_ok trivial⟩
          intro _ _ next _ same
          cases same
        | some next =>
          rcases at'.next (by decide) (by decide) inside with ⟨more, next', same, at''⟩ | ⟨_, same⟩
          · rw [stepped] at same
            cases same
            rw [ih at'' more rest (drawn ++ [order])]
            constructor
            · intro holds order' rest' next' same same'
              cases same
              cases same'
              exact holds
            · intro each
              exact each order rest next rfl rfl
          · rw [stepped] at same
            cases same
    · have none : stream = [] := List.eq_nil_of_length_eq_zero (by omega)
      subst none
      refine ⟨fun _ => ⟨trivial, ?_⟩, fun _ => sound_raised _⟩
      intro order rest next decoded
      cases decoded

end Tiles

namespace Zrle

variable {σ : Type} {setup : ZrleSetup σ} {zrle : Zrle σ}

/-- The inflated data that a call decodes next, if all of the compressed data is there. -/
def Next (setup : ZrleSetup σ) (zrle : Zrle σ) (buf uncompressed : List Byte) : Prop :=
  zrle.walk.r.isEmpty = false ∧ zrle.state = .data ∧
    zrle.zlibCompressedDataLength ≤ zrle.accumulator.length + buf.length ∧
    ∃ zd, zrle.zd.inflateAll setup.inflater setup.outsize setup.rounds (zrle.accumulator ++
      buf.take (zrle.zlibCompressedDataLength - zrle.accumulator.length)) = some (zd, uncompressed)

/-- Every tile of the data that is decoded next finds what it takes without a check. -/
def Allowed (setup : ZrleSetup σ) (zrle : Zrle σ) (buf : List Byte) : Prop :=
  ∀ uncompressed, zrle.Next setup buf uncompressed →
    TilesDefined setup.Bpp setup.memory (uncompressed.length + 1) zrle.walk uncompressed

/-- The encoder stands before the first tile. -/
def Ready (zrle : Zrle σ) : Prop := ∃ rect, zrle.walk = TileWalk.start 64 rect

theorem complete_sound_iff (positive : 0 < setup.Bpp) (pixel : setup.Bpp ≤ 4)
    (ready : zrle.Ready) (some' : zrle.walk.r.isEmpty = false) (accumulator buf : List Byte) :
    Sound (zrle.complete setup accumulator buf) (fun _ => True) ↔
      ∀ zd uncompressed, zrle.zd.inflateAll setup.inflater setup.outsize setup.rounds accumulator =
          some (zd, uncompressed) →
        TilesDefined setup.Bpp setup.memory (uncompressed.length + 1) zrle.walk uncompressed := by
  unfold complete
  cases inflated : zrle.zd.inflateAll setup.inflater setup.outsize setup.rounds accumulator with
  | none =>
    refine ⟨fun _ => ?_, fun _ => sound_raised _⟩
    intro zd uncompressed same
    cases same
  | some result =>
    obtain ⟨zd, uncompressed⟩ := result
    obtain ⟨rect, start⟩ := ready
    rw [start] at some' ⊢
    obtain ⟨wide, high⟩ := Rect.isEmpty_eq_false.mp some'
    have first := TileWalk.at_start (r := rect) (by decide : 0 < 64) (by decide) wide high
    have inside : 0 < TileGrid.count 64 rect.area := TileGrid.count_pos (by decide) wide high
    have tiles := @updateTiles_sound_iff setup.Bpp setup.memory rect positive pixel
      (uncompressed.length + 1) 0 _ first inside uncompressed []
    simp only [libFramebufferUpdateZrle]
    constructor
    · intro sound zd' uncompressed' same
      cases same
      apply tiles.mp
      rw [sound_true_iff]
      intro fault
      rw [fault] at sound
      exact sound
    · intro each
      apply (tiles.mpr (each zd uncompressed rfl)).bind
      intro drawn _
      exact sound_ok trivial

theorem call_sound_iff (positive : 0 < setup.Bpp) (pixel : setup.Bpp ≤ 4) (ready : zrle.Ready)
    (buf : List Byte) :
    Sound (zrle.call setup buf) (fun _ => True) ↔ zrle.Allowed setup buf := by
  unfold call Allowed Next
  cases empty : zrle.walk.r.isEmpty with
  | true =>
    rw [if_pos rfl]
    refine ⟨fun _ uncompressed next => ?_, fun _ => sound_ok trivial⟩
    cases next.1
  | false =>
    rw [if_neg Bool.false_ne_true]
    cases state : zrle.state with
    | header =>
      refine ⟨fun _ uncompressed next => ?_, fun _ => sound_ok trivial⟩
      cases next.2.1
    | exit =>
      refine ⟨fun _ uncompressed next => ?_, fun _ => sound_raised _⟩
      cases next.2.1
    | data =>
      simp only [data]
      by_cases more : zrle.accumulator.length + buf.length < zrle.zlibCompressedDataLength
      · rw [if_pos more]
        refine ⟨fun _ uncompressed next => ?_, fun _ => sound_ok trivial⟩
        omega
      · rw [if_neg more, complete_sound_iff positive pixel ready empty]
        constructor
        · intro each uncompressed next
          obtain ⟨_, _, _, zd, inflated⟩ := next
          exact each zd uncompressed inflated
        · intro each zd uncompressed inflated
          exact each uncompressed ⟨trivial, trivial, Nat.not_lt.mp more, zd, inflated⟩

theorem call_walk {buf : List Byte} {answer : Answer (Zrle σ) Drawn}
    (called : zrle.call setup buf = .ok answer) : answer.encoder.walk = zrle.walk := by
  unfold call at called
  split at called
  · cases called
    rfl
  · split at called
    · unfold header at called
      split at called
      · cases called
        rfl
      · cases called
        rfl
    · unfold data at called
      split at called
      · cases called
        rfl
      · unfold complete at called
        simp only at called
        split at called
        · cases called
        · obtain ⟨drawn, _, same⟩ := bind_ok_iff.mp called
          cases same
          rfl
    · cases called

end Zrle

end Redemption.Vnc
