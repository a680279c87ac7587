import Redemption.Vnc.HextileFormat

/-! The array of a Hextile tile shows the pixels that the protocol defines. -/
namespace Redemption.Vnc

open Redemption.Foundation Redemption.Utils

namespace Hextile

/-- As many pixels as the array has room for. -/
abbrev TilePixels := Buffer Nat 256

section Array

variable {Bpp : Nat} {tileData : HexTileData} {values : TilePixels}

/-- The array shows the pixels. -/
abbrev Shows (Bpp : Nat) (tileData : HexTileData) (values : TilePixels) : Prop :=
  tileData.Spells Bpp (leBytes Bpp) values

private theorem block_room (pixel : Bpp ≤ 4) {place count : Nat} (inside : place + count ≤ 256) :
    place * Bpp + count * Bpp ≤ hexTileDataSize := by
  rw [← Nat.add_mul]
  exact Nat.mul_le_mul inside pixel

private theorem fill_step (pixel : Bpp ≤ 4) {bgPixel count : Nat} (most : count ≤ 128)
    (begins : tileData.Begins (pixelBytes Bpp (List.replicate count bgPixel))) :
    ∃ next : HexTileData,
      (do let block ← tileData.loadBlock 0 (count * Bpp)
          tileData.storeBlock (count * Bpp) block : Checked VncError HexTileData) = .ok next ∧
        next.Begins (pixelBytes Bpp (List.replicate (2 * count) bgPixel)) := by
  have length : (pixelBytes Bpp (List.replicate count bgPixel)).length = count * Bpp := by
    rw [length_pixelBytes, List.length_replicate]
  have room := block_room pixel (show count + count ≤ 256 by omega)
  have block : tileData.slice 0 (count * Bpp) =
      pixelBytes Bpp (List.replicate count bgPixel) := by
    rw [← length]
    exact begins
  refine ⟨tileData.splice (count * Bpp) (pixelBytes Bpp (List.replicate count bgPixel)), ?_, ?_⟩
  · rw [Buffer.loadBlock_of_le _ (by omega), block, ok_bind,
      Buffer.storeBlock_of_le _ (by rwa [length])]
  · have written := begins.splice (pixelBytes Bpp (List.replicate count bgPixel))
    rwa [length, ← pixelBytes_append, List.replicate_append_replicate, ← Nat.two_mul] at written

theorem fill_ok (pixel : Bpp ≤ 4) (bgPixel : Nat) (memory : HexTileData) :
    ∃ tileData, fill Bpp bgPixel memory = .ok tileData ∧
      Shows Bpp tileData (Buffer.filled bgPixel) := by
  have one : (leBytes Bpp bgPixel).length = Bpp := length_leBytes _ _
  have size : hexTileDataSize = 1024 := rfl
  have start : (memory.splice (0 * Bpp) (leBytes Bpp bgPixel)).Begins
      (pixelBytes Bpp (List.replicate 1 bgPixel)) := by
    have written := (Buffer.begins_nil memory).splice (leBytes Bpp bgPixel)
    rw [Nat.zero_mul]
    simpa [pixelBytes] using written
  obtain ⟨data₂, step₁, begins₂⟩ := fill_step pixel (by omega) start
  obtain ⟨data₄, step₂, begins₄⟩ := fill_step pixel (by omega) begins₂
  obtain ⟨data₈, step₄, begins₈⟩ := fill_step pixel (by omega) begins₄
  obtain ⟨data₁₆, step₈, begins₁₆⟩ := fill_step pixel (by omega) begins₈
  obtain ⟨data₃₂, step₁₆, begins₃₂⟩ := fill_step pixel (by omega) begins₁₆
  obtain ⟨data₆₄, step₃₂, begins₆₄⟩ := fill_step pixel (by omega) begins₃₂
  obtain ⟨data₁₂₈, step₆₄, begins₁₂₈⟩ := fill_step pixel (by omega) begins₆₄
  obtain ⟨data₂₅₆, step₁₂₈, begins₂₅₆⟩ := fill_step pixel (by omega) begins₁₂₈
  refine ⟨data₂₅₆, ?_, ?_⟩
  · rw [fill, Buffer.storeBlock_of_le _ (by omega)]
    simp only [ok_bind, List.foldlM_cons, List.foldlM_nil, pure_ok]
    rw [step₁, ok_bind, step₂, ok_bind, step₄, ok_bind, step₈, ok_bind, step₁₆, ok_bind, step₃₂,
      ok_bind, step₆₄, ok_bind, step₁₂₈, ok_bind]
  · exact begins₂₅₆.spells (length_leBytes Bpp) (Buffer.slice_filled bgPixel 0 256).symm

/-- A place of a narrow tile lies in a part of a line exactly when its column and its line do. -/
private theorem place_iff {cx row x w column line : Nat} (inside : column < cx)
    (right : x + w ≤ cx) :
    (row * cx + x ≤ line * cx + column ∧ line * cx + column < row * cx + x + w) ↔
      line = row ∧ x ≤ column ∧ column < x + w := by
  rcases Nat.lt_trichotomy line row with above | same | below
  · have lines : (line + 1) * cx ≤ row * cx := Nat.mul_le_mul_right _ above
    rw [Nat.succ_mul] at lines
    omega
  · subst same
    omega
  · have lines : (row + 1) * cx ≤ line * cx := Nat.mul_le_mul_right _ below
    rw [Nat.succ_mul] at lines
    omega

private theorem cell_splice_replicate (values : TilePixels) (place count color index : Nat) :
    (values.splice place (List.replicate count color)).cell index =
      if place ≤ index ∧ index < place + count then color else values.cell index := by
  by_cases before : index < place
  · rw [Buffer.cell_splice_before _ _ _ before, if_neg (by omega)]
  · by_cases behind : place + count ≤ index
    · rw [Buffer.cell_splice_after _ _ _ (by rwa [List.length_replicate]), if_neg (by omega)]
    · obtain ⟨offset, rfl⟩ := Nat.exists_eq_add_of_le (Nat.not_lt.mp before)
      have inside : offset < (List.replicate count color).length := by
        rw [List.length_replicate]
        omega
      rw [Buffer.cell_splice_inside _ _ _ inside, List.getElem_replicate, if_pos (by omega)]

theorem laySubrect_ok (pixel : Bpp ≤ 4) {cx x y w h : Nat} (columns : cx ≤ 16)
    (right : x + w ≤ cx) (bottom : y + h ≤ 16) (high : 0 < h) (fgPixel : Nat)
    (shows : Shows Bpp tileData values) :
    ∃ (tileData' : HexTileData) (values' : TilePixels),
      laySubrect Bpp cx fgPixel x y w h tileData = .ok tileData' ∧ Shows Bpp tileData' values' ∧
      ∀ column line, column < cx → values'.cell (line * cx + column) =
        if (x ≤ column ∧ column < x + w) ∧ y ≤ line ∧ line < y + h then fgPixel
        else values.cell (line * cx + column) := by
  have row : ∀ line, line < 16 → line * cx + x + w ≤ 256 := by
    intro line bounded
    have := Nat.mul_le_mul (show line ≤ 15 by omega) columns
    omega
  have single : ∀ value, pixelBytes Bpp (List.replicate 1 value) = leBytes Bpp value := by
    intro value
    simp [pixelBytes]
  -- the first line holds so many pixels of the colour
  obtain ⟨first, laid, values₁, shows₁, cells₁⟩ := @foldlM_range'_ok (Fault VncError) _
    (fun tileData qx => tileData.storeBlock ((y * cx + x) * Bpp + qx * Bpp) (leBytes Bpp fgPixel))
    (fun qx tileData => ∃ values' : TilePixels, Shows Bpp tileData values' ∧
      ∀ index, values'.cell index =
        if y * cx + x ≤ index ∧ index < y * cx + x + qx then fgPixel else values.cell index)
    0 w (by
      rintro qx _ bounded tileData ⟨values', shows', cells⟩
      have room := row y (by omega)
      have block := block_room pixel (show y * cx + x + qx + 1 ≤ 256 by omega)
      refine ⟨_, Buffer.storeBlock_of_le _ (by
        rw [length_leBytes, ← Nat.add_mul]
        omega), values'.splice (y * cx + x + qx) (List.replicate 1 fgPixel), ?_, ?_⟩
      · have written := shows'.splice (length_leBytes Bpp) (y * cx + x + qx)
          (List.replicate 1 fgPixel)
        rwa [← pixelBytes, single, Nat.add_mul _ qx] at written
      · intro index
        rw [cell_splice_replicate, cells]
        split_ifs <;> omega)
    _ ⟨values, shows, fun index => by rw [if_neg (by omega)]⟩
  -- so many lines have been copied
  obtain ⟨last, copied, values₂, shows₂, cells₂⟩ := @foldlM_range'_ok (Fault VncError) _
    (fun tileData qy => do
      let line ← tileData.loadBlock ((y * cx + x) * Bpp) (w * Bpp)
      tileData.storeBlock ((y * cx + x) * Bpp + cx * qy * Bpp) line)
    (fun qy tileData => ∃ values' : TilePixels, Shows Bpp tileData values' ∧
      ∀ column line, column < cx → values'.cell (line * cx + column) =
        if (x ≤ column ∧ column < x + w) ∧ y ≤ line ∧ line < y + qy then fgPixel
        else values.cell (line * cx + column))
    1 (h - 1) (by
      rintro qy _ bounded tileData ⟨values', shows', cells⟩
      have source := row y (by omega)
      have target := row (y + qy) (by omega)
      have line : values'.slice (y * cx + x) w = List.replicate w fgPixel := by
        apply List.ext_getElem
        · simp
        · intro index inSlice _
          rw [Buffer.length_slice] at inSlice
          rw [Buffer.getElem_slice, List.getElem_replicate, Nat.add_assoc,
            cells (x + index) y (by omega), if_pos (by omega)]
      have place : (y * cx + x) * Bpp + cx * qy * Bpp = ((y + qy) * cx + x) * Bpp := by ring
      have loaded := shows'.slice (y * cx + x) (show y * cx + x + w ≤ 256 by omega)
      have room := block_room pixel (show y * cx + x + w ≤ 256 by omega)
      have room' := block_room pixel (show (y + qy) * cx + x + w ≤ 256 by omega)
      refine ⟨tileData.splice (((y + qy) * cx + x) * Bpp)
        ((List.replicate w fgPixel).flatMap (leBytes Bpp)), ?_, _,
        shows'.splice (length_leBytes Bpp) _ _, ?_⟩
      · rw [Buffer.loadBlock_of_le _ room, loaded, line, ok_bind, place,
          Buffer.storeBlock_of_le _ (by
            rw [← pixelBytes, length_pixelBytes, List.length_replicate]
            exact room')]
      · intro column line inside
        rw [cell_splice_replicate, cells column line inside]
        have here := @place_iff cx (y + qy) x w column line inside right
        split_ifs <;> grind)
    _ ⟨values₁, shows₁, fun column line inside => by
      have here := @place_iff cx y x w column line inside right
      split_ifs <;> grind⟩
  refine ⟨last, values₂, ?_, shows₂, ?_⟩
  · rw [laySubrect]
    simp only [List.range_eq_range', laid, ok_bind]
    exact copied
  · have whole : y + (1 + (h - 1)) = y + h := by omega
    rwa [whole] at cells₂

end Array

section Subrects

variable {Bpp : Nat}

theorem pixelIf_append (given : Bool) {value : Nat} (small : value < 2 ^ (8 * Bpp))
    (pixel : Nat) (rest : List Byte) :
    pixelIf given Bpp pixel ((if given then leBytes Bpp value else []) ++ rest) =
      .ok (if given then value else pixel, rest) := by
  unfold pixelIf
  cases given with
  | true =>
    simp only [↓reduceIte]
    rw [inLe_append, Nat.mod_eq_of_lt small]
  | false => rfl

theorem subrectCount_append (given : Bool) {count : Nat} (few : count ≤ 255)
    (announced : given = false → count = 0) (rest : List Byte) :
    subrectCount given ((if given then [BitVec.ofNat 8 count] else []) ++ rest) =
      .ok (count, rest) := by
  unfold subrectCount
  cases given with
  | true =>
    simp only [↓reduceIte, List.singleton_append, inUint8, ok_bind, pure_ok, BitVec.toNat_ofNat]
    rw [Nat.mod_eq_of_lt (by omega)]
  | false =>
    rw [announced rfl]
    rfl

private theorem low_four (byte : Nat) : byte &&& 15 = byte % 16 :=
  Nat.and_two_pow_sub_one_eq_mod byte 4

private theorem halves {high low : Nat} (highSmall : high < 16) (lowSmall : low < 16) :
    ((BitVec.ofNat 8 (high * 16 + low)).toNat >>> 4) &&& 0xF = high ∧
      (BitVec.ofNat 8 (high * 16 + low)).toNat &&& 0xF = low := by
  rw [BitVec.toNat_ofNat, Nat.mod_eq_of_lt (by omega), low_four, low_four,
    Nat.shiftRight_eq_div_pow]
  omega

theorem subrects_ok (pixel : Bpp ≤ 4) {cx height : Nat} (columns : cx ≤ 16) (lines : height ≤ 16)
    (coloured : Bool) (list : List Subrect) (inside : ∀ subrect ∈ list, subrect.Inside cx height)
    (colors : ∀ subrect ∈ list, subrect.color < 2 ^ (8 * Bpp)) (rest : List Byte)
    (fgPixel : Nat) {tileData : HexTileData} {values : TilePixels}
    (shows : Shows Bpp tileData values) :
    ∃ (tileData' : HexTileData) (values' : TilePixels) (fgPixel' : Nat),
      subrects Bpp cx coloured list.length (list.flatMap (Subrect.bytes Bpp coloured) ++ rest)
        fgPixel tileData = .ok (tileData', fgPixel') ∧
      Shows Bpp tileData' values' ∧ (coloured = false → fgPixel' = fgPixel) ∧
      ∀ column line, column < cx → values'.cell (line * cx + column) =
        colorAt (values.cell (line * cx + column))
          (fun subrect => if coloured then subrect.color else fgPixel) list column line := by
  induction list generalizing fgPixel tileData values with
  | nil => exact ⟨tileData, values, fgPixel, rfl, shows, fun _ => rfl, fun _ _ _ => rfl⟩
  | cons subrect list ih =>
    obtain ⟨wide, high, right, bottom⟩ := inside subrect List.mem_cons_self
    have color := colors subrect List.mem_cons_self
    obtain ⟨left, top⟩ := @halves subrect.x subrect.y (by omega) (by omega)
    obtain ⟨width, below⟩ := @halves (subrect.w - 1) (subrect.h - 1) (by omega) (by omega)
    obtain ⟨tileData₁, values₁, laid, shows₁, cells₁⟩ := laySubrect_ok pixel columns right
      (show subrect.y + subrect.h ≤ 16 by omega) high
      (if coloured then subrect.color else fgPixel) shows
    obtain ⟨tileData', values', fgPixel', ran, shows', kept, cells'⟩ := ih
      (fun other member => inside other (List.mem_cons_of_mem _ member))
      (fun other member => colors other (List.mem_cons_of_mem _ member))
      (if coloured then subrect.color else fgPixel) shows₁
    refine ⟨tileData', values', fgPixel', ?_, shows', ?_, ?_⟩
    · rw [List.length_cons, List.flatMap_cons, subrects, Subrect.bytes, List.append_assoc,
        List.append_assoc, pixelIf_append coloured color]
      simp only [ok_bind, List.cons_append, List.nil_append, inUint8, left, top, width, below,
        Nat.sub_add_cancel wide, Nat.sub_add_cancel high]
      rw [if_neg (by omega), laid, ok_bind, ran]
    · intro plain
      rw [kept plain, plain]
      rfl
    · intro column line inTile
      rw [cells' column line inTile, cells₁ column line inTile, colorAt, colorAt,
        List.foldl_cons]
      cases coloured <;> rfl

end Subrects

section Decode

variable {hextile : Hextile} {carried : Carried} {memory : HexTileData}

/-- The registers hold the colours that the next tile may take over. -/
structure Holds (carried : Carried) (hextile : Hextile) : Prop where
  background : ∀ color, carried.background = some color → hextile.bgPixel = color
  foreground : ∀ color, carried.foreground = some color → hextile.fgPixel = color

/-- They hold those that the tile does not give. A tile whose end has not come in may have set
the others already. -/
structure Ready (carried : Carried) (tileType : Byte) (hextile : Hextile) : Prop where
  background : specifies tileType hextileBackgroundSpecified = false →
    ∀ color, carried.background = some color → hextile.bgPixel = color
  foreground : specifies tileType hextileForegroundSpecified = false →
    ∀ color, carried.foreground = some color → hextile.fgPixel = color

theorem Holds.ready (holds : Holds carried hextile) (tileType : Byte) :
    Ready carried tileType hextile :=
  ⟨fun _ => holds.background, fun _ => holds.foreground⟩

/-- The registers behind the header of a tile. -/
def headed (hextile : Hextile) (tileType : Byte) (background foreground : Nat) : Hextile :=
  { hextile with
    bgPixel := if specifies tileType hextileBackgroundSpecified then background
      else hextile.bgPixel
    fgPixel := if specifies tileType hextileForegroundSpecified then foreground
      else hextile.fgPixel }

theorem Ready.headed {tileType : Byte} (ready : Ready carried tileType hextile)
    (background foreground : Nat) :
    Ready carried tileType (hextile.headed tileType background foreground) := by
  constructor
  · intro plain color known
    simp only [Hextile.headed, plain, Bool.false_eq_true, ↓reduceIte]
    exact ready.background plain color known
  · intro plain color known
    simp only [Hextile.headed, plain, Bool.false_eq_true, ↓reduceIte]
    exact ready.foreground plain color known

section Header

variable {Bpp width height background foreground : Nat} {tileType : Byte} {list : List Subrect}

theorem length_header (count : Nat) :
    (HextileCode.header Bpp tileType background foreground count).length + 1 =
      1 + (if specifies tileType hextileAnySubrects then 1 else 0) +
        (if specifies tileType hextileBackgroundSpecified then Bpp else 0) +
        (if specifies tileType hextileForegroundSpecified then Bpp else 0) := by
  unfold HextileCode.header
  rw [List.length_append, List.length_append]
  generalize specifies tileType hextileBackgroundSpecified = background'
  generalize specifies tileType hextileForegroundSpecified = foreground'
  generalize specifies tileType hextileAnySubrects = any
  cases background' <;> cases foreground' <;> cases any <;> simp <;> omega

theorem length_subrectBytes (coloured : Bool) (subrect : Subrect) :
    (subrect.bytes Bpp coloured).length = 2 + if coloured then Bpp else 0 := by
  unfold Subrect.bytes
  cases coloured with
  | true => simp [Nat.add_comm]
  | false => rfl

/-- Behind the header the registers are set; the subrectangles may be there or not. -/
theorem subrectTile_header
    (fit : HextileCode.SubrectsFit hextile.Bpp carried width height tileType background foreground
      list) (body : List Byte) :
    hextile.subrectTile memory tileType
        (tileType :: (HextileCode.header hextile.Bpp tileType background foreground list.length ++
          body))
        (HextileCode.header hextile.Bpp tileType background foreground list.length ++ body) =
      if body.length < list.length *
          (2 + if specifies tileType hextileSubrectsColoured then hextile.Bpp else 0)
      then .ok (hextile.headed tileType background foreground, none)
      else do
        let tileData ← fill hextile.Bpp (hextile.headed tileType background foreground).bgPixel
          memory
        let (tileData, fgPixel) ← subrects hextile.Bpp hextile.walk.tile.cx
          (specifies tileType hextileSubrectsColoured) list.length body
          (hextile.headed tileType background foreground).fgPixel tileData
        let order ← drawTile hextile.Bpp hextile.walk.tile (tileData.slice 0 hexTileDataSize)
        return ({ hextile.headed tileType background foreground with fgPixel },
          some (order, body.drop (list.length *
            (2 + if specifies tileType hextileSubrectsColoured then hextile.Bpp else 0)))) := by
  have long := @length_header hextile.Bpp background foreground tileType list.length
  have parsed : HextileCode.header hextile.Bpp tileType background foreground list.length ++ body =
      (if specifies tileType hextileBackgroundSpecified then leBytes hextile.Bpp background
        else []) ++
      ((if specifies tileType hextileForegroundSpecified then leBytes hextile.Bpp foreground
        else []) ++
      ((if specifies tileType hextileAnySubrects then [BitVec.ofNat 8 list.length] else []) ++
        body)) := by
    rw [HextileCode.header, List.append_assoc, List.append_assoc]
  have announced : specifies tileType hextileAnySubrects = false → list.length = 0 := by
    intro none
    by_contra some'
    have := fit.announced (fun empty => some' (by rw [empty]; rfl))
    rw [none] at this
    cases this
  have total : ∀ more, (tileType :: (HextileCode.header hextile.Bpp tileType background foreground
      list.length ++ body)).length < (HextileCode.header hextile.Bpp tileType background foreground
        list.length).length + 1 + more ↔ body.length < more := by
    intro more
    rw [List.length_cons, List.length_append]
    omega
  have behind : ∀ more, (tileType :: (HextileCode.header hextile.Bpp tileType background foreground
      list.length ++ body)).drop ((HextileCode.header hextile.Bpp tileType background foreground
        list.length).length + 1 + more) = body.drop more := by
    intro more
    rw [Nat.add_right_comm, List.drop_succ_cons, List.drop_length_add_append]
  unfold subrectTile
  simp only
  rw [← long, if_neg (by rw [List.length_cons, List.length_append]; omega), parsed,
    pixelIf_append _ fit.givenBackground, ok_bind]
  rw [pixelIf_append _ fit.givenForeground, ok_bind]
  rw [subrectCount_append _ fit.few announced, ok_bind, ← parsed]
  simp only [total, behind]
  rfl

theorem headed_background (ready : Ready carried tileType hextile)
    (known : specifies tileType hextileBackgroundSpecified = true ∨ carried.background.isSome) :
    (hextile.headed tileType background foreground).bgPixel =
      HextileCode.background carried tileType background := by
  unfold HextileCode.background Hextile.headed
  by_cases given : specifies tileType hextileBackgroundSpecified = true
  · simp only [given, ↓reduceIte]
  · have plain := Bool.eq_false_iff.mpr given
    obtain ⟨color, taken⟩ := Option.isSome_iff_exists.mp (known.resolve_left given)
    simp only [plain, Bool.false_eq_true, ↓reduceIte, ready.background plain color taken, taken,
      Option.getD_some]

theorem headed_foreground (ready : Ready carried tileType hextile) {color : Nat}
    (known : HextileCode.foreground carried tileType foreground = some color) :
    (hextile.headed tileType background foreground).fgPixel = color := by
  unfold HextileCode.foreground at known
  unfold Hextile.headed
  by_cases given : specifies tileType hextileForegroundSpecified = true
  · simp only [given, ↓reduceIte, Option.some.injEq] at known ⊢
    exact known
  · have plain := Bool.eq_false_iff.mpr given
    simp only [plain, Bool.false_eq_true, ↓reduceIte] at known ⊢
    exact ready.foreground plain color known

theorem colorAt_headed (ready : Ready carried tileType hextile)
    (fit : HextileCode.SubrectsFit Bpp carried width height tileType background foreground list)
    (column line : Nat) :
    colorAt (hextile.headed tileType background foreground).bgPixel
        (fun subrect => if specifies tileType hextileSubrectsColoured then subrect.color
          else (hextile.headed tileType background foreground).fgPixel) list column line =
      colorAt (HextileCode.background carried tileType background)
        (HextileCode.subrectColor carried tileType foreground) list column line := by
  rw [headed_background ready fit.backgroundKnown]
  apply List.foldl_ext
  intro pixel subrect member
  have color : (if specifies tileType hextileSubrectsColoured then subrect.color
      else (hextile.headed tileType background foreground).fgPixel) =
      HextileCode.subrectColor carried tileType foreground subrect := by
    unfold HextileCode.subrectColor
    by_cases coloured : specifies tileType hextileSubrectsColoured = true
    · rw [if_pos coloured, if_pos coloured]
    · obtain ⟨common, known⟩ := Option.isSome_iff_exists.mp
        ((fit.foregroundKnown (List.ne_nil_of_mem member)).resolve_left coloured)
      rw [if_neg coloured, if_neg coloured, headed_foreground ready known, known]
      rfl
  simp only [color]

end Header

theorem length_tilePixels (width height : Nat) (color : Nat → Nat → Nat) :
    (tilePixels width height color).length = width * height := by
  simp [tilePixels]

theorem slice_shows {Bpp width height : Nat} {tileData : HexTileData} {values : TilePixels}
    (pixel : Bpp ≤ 4) (wide : width ≤ 16) (high : height ≤ 16)
    (shows : Shows Bpp tileData values) {color : Nat → Nat → Nat}
    (cells : ∀ column line, column < width → values.cell (line * width + column) =
      color column line) :
    ∃ behind, tileData.slice 0 hexTileDataSize =
      pixelBytes Bpp (tilePixels width height color) ++ behind := by
  have places : width * height ≤ 16 * 16 := Nat.mul_le_mul wide high
  have room : width * height * Bpp ≤ hexTileDataSize := Nat.mul_le_mul places pixel
  have same : values.slice 0 (width * height) = tilePixels width height color := by
    apply List.map_congr_left
    intro place member
    have bounded := List.mem_range.mp member
    have some' : 0 < width := Nat.pos_of_ne_zero fun none => by simp [none] at bounded
    rw [← cells (place % width) (place / width) (Nat.mod_lt _ some'), Nat.div_add_mod',
      Nat.zero_add]
  have front := shows.slice 0 (show 0 + width * height ≤ 256 by omega)
  rw [Nat.zero_mul, same] at front
  have begins : tileData.Begins (pixelBytes Bpp (tilePixels width height color)) := by
    rw [Buffer.Begins, length_pixelBytes, length_tilePixels]
    exact front
  exact ⟨_, begins.whole (by rwa [length_pixelBytes, length_tilePixels])⟩

theorem count_of_wellFormed {Bpp width height : Nat}
    {code : HextileCode} (wellFormed : code.WellFormed Bpp carried width height) :
    (code.pixels carried width height).length = width * height := by
  cases code with
  | raw tileType pixels => exact wellFormed.2.1
  | subrects tileType background foreground list => exact length_tilePixels _ _ _

variable {code : HextileCode} {order : Drawn}

/-- What the registers are ready for. -/
def ReadyFor (carried : Carried) (code : HextileCode) (hextile : Hextile) : Prop :=
  match code with
  | .raw _ _ => True
  | .subrects tileType _ _ _ => Ready carried tileType hextile

theorem Holds.readyFor (holds : Holds carried hextile) (code : HextileCode) :
    ReadyFor carried code hextile := by
  cases code with
  | raw tileType pixels => trivial
  | subrects tileType background foreground list => exact holds.ready tileType

theorem decodeTile_whole (fits : hextile.Fits) (ready : ReadyFor carried code hextile)
    (wellFormed : code.WellFormed hextile.Bpp carried hextile.walk.tile.cx hextile.walk.tile.cy)
    (draws : drawTile hextile.Bpp hextile.walk.tile (pixelBytes hextile.Bpp
      (code.pixels carried hextile.walk.tile.cx hextile.walk.tile.cy)) = .ok order)
    (rest : List Byte) :
    ∃ hextile', hextile.decodeTile memory (code.bytes hextile.Bpp ++ rest) =
        .ok (hextile', some (order, rest)) ∧
      Kept hextile (hextile', some (order, rest)) ∧ Holds (code.carries carried) hextile' := by
  have count := count_of_wellFormed wellFormed
  cases code with
  | raw tileType pixels =>
    obtain ⟨marked, length, small⟩ := wellFormed
    have bytes : (pixelBytes hextile.Bpp pixels).length =
        hextile.walk.tile.cx * hextile.walk.tile.cy * hextile.Bpp := by
      rw [length_pixelBytes, length]
    refine ⟨hextile, ?_, ⟨rfl, rfl⟩, ⟨?_, ?_⟩⟩
    · rw [HextileCode.bytes, List.cons_append, decodeTile, inUint8, ok_bind]
      simp only [marked, ↓reduceIte, rawTile]
      rw [if_neg (by rw [List.length_cons, List.length_append]; omega),
        bytesAt_of_le (by rw [List.length_cons, List.length_append]; omega), ok_bind,
        List.drop_succ_cons, List.drop_zero, List.take_left' bytes, List.drop_succ_cons,
        List.drop_left' bytes]
      rw [HextileCode.pixels] at draws
      rw [draws]
      rfl
    · intro color taken
      cases taken
    · intro color taken
      cases taken
  | subrects tileType background foreground list =>
    have fit : HextileCode.SubrectsFit hextile.Bpp carried hextile.walk.tile.cx
      hextile.walk.tile.cy tileType background foreground list := wellFormed
    obtain ⟨pixel, wide, high⟩ := fits
    have length := Buffer.length_flatMap_group (@length_subrectBytes hextile.Bpp
      (specifies tileType hextileSubrectsColoured)) list
    obtain ⟨tileData₁, filled, shows₁⟩ := fill_ok pixel
      (hextile.headed tileType background foreground).bgPixel memory
    obtain ⟨tileData₂, values, fgPixel, laid, shows, kept, cells⟩ := subrects_ok pixel wide high
      (specifies tileType hextileSubrectsColoured) list fit.inside fit.colors rest
      (hextile.headed tileType background foreground).fgPixel shows₁
    simp only [Buffer.cell_filled, colorAt_headed ready fit] at cells
    obtain ⟨behind, front⟩ := slice_shows pixel wide high shows cells
    refine ⟨{ hextile.headed tileType background foreground with fgPixel }, ?_, ⟨rfl, rfl⟩, ?_⟩
    · rw [HextileCode.bytes, List.cons_append, List.append_assoc, decodeTile, inUint8, ok_bind]
      simp only [fit.notRaw, Bool.false_eq_true, ↓reduceIte]
      rw [subrectTile_header fit, if_neg (by rw [List.length_append]; omega), filled, ok_bind,
        laid, ok_bind]
      simp only
      rw [HextileCode.pixels] at count draws
      rw [front, drawTile_append count, draws, List.drop_left' length]
      rfl
    · refine ⟨?_, ?_⟩
      · intro color taken
        rw [← Option.some.inj taken]
        exact @headed_background hextile carried background foreground tileType ready
          fit.backgroundKnown
      · intro color taken
        simp only [HextileCode.carries] at taken
        by_cases coloured : specifies tileType hextileSubrectsColoured = true
        · rw [if_pos coloured] at taken
          cases taken
        · rw [if_neg coloured] at taken
          simp only [kept (Bool.eq_false_iff.mpr coloured)]
          exact headed_foreground ready taken

/-- A tile whose end has not come in is left in the buffer; it will be decoded from its first
byte again, and the registers hold what it takes over. -/
theorem decodeTile_part (ready : ReadyFor carried code hextile)
    (wellFormed : code.WellFormed hextile.Bpp carried hextile.walk.tile.cx hextile.walk.tile.cy)
    {buf more : List Byte} (arrives : buf ++ more = code.bytes hextile.Bpp) (some' : buf ≠ [])
    (part : more ≠ []) :
    ∃ hextile', hextile.decodeTile memory buf = .ok (hextile', none) ∧
      Kept hextile (hextile', none) ∧ ReadyFor carried code hextile' := by
  have missing := List.length_pos_iff.mpr part
  cases buf with
  | nil => exact absurd rfl some'
  | cons byte tail =>
    cases code with
    | raw tileType pixels =>
      obtain ⟨marked, length, small⟩ := wellFormed
      rw [HextileCode.bytes, List.cons_append] at arrives
      injection arrives with same arrives
      subst same
      have lengths := congrArg List.length arrives
      rw [List.length_append, length_pixelBytes, length] at lengths
      refine ⟨hextile, ?_, ⟨rfl, rfl⟩, trivial⟩
      rw [decodeTile, inUint8, ok_bind]
      simp only [marked, ↓reduceIte, rawTile]
      rw [if_pos (by rw [List.length_cons]; omega)]
    | subrects tileType background foreground list =>
      have fit : HextileCode.SubrectsFit hextile.Bpp carried hextile.walk.tile.cx
        hextile.walk.tile.cy tileType background foreground list := wellFormed
      rw [HextileCode.bytes, List.cons_append] at arrives
      injection arrives with same arrives
      subst same
      have headerLength := @length_header hextile.Bpp background foreground byte list.length
      by_cases short : tail.length <
          (HextileCode.header hextile.Bpp byte background foreground list.length).length
      · refine ⟨hextile, ?_, ⟨rfl, rfl⟩, ready⟩
        rw [decodeTile, inUint8, ok_bind]
        simp only [fit.notRaw, Bool.false_eq_true, ↓reduceIte]
        unfold subrectTile
        simp only
        rw [← headerLength, if_pos (by rw [List.length_cons]; omega)]
      · obtain ⟨body, rfl⟩ : ∃ body, tail =
            HextileCode.header hextile.Bpp byte background foreground list.length ++ body :=
          List.prefix_of_prefix_length_le (List.prefix_append _ _)
            (arrives ▸ List.prefix_append _ _) (Nat.not_lt.mp short) |>.imp fun _ => Eq.symm
        rw [List.append_assoc] at arrives
        have lengths := congrArg List.length (List.append_cancel_left arrives)
        rw [List.length_append, Buffer.length_flatMap_group (length_subrectBytes _)] at lengths
        refine ⟨hextile.headed byte background foreground, ?_, ⟨rfl, rfl⟩,
          Ready.headed ready background foreground⟩
        rw [decodeTile, inUint8, ok_bind]
        simp only [fit.notRaw, Bool.false_eq_true, ↓reduceIte]
        rw [subrectTile_header fit, if_pos (by omega)]

end Decode

end Hextile

end Redemption.Vnc
