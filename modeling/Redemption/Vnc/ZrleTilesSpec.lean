import Redemption.Foundation.Region
import Redemption.Vnc.ZrleFormat
import Redemption.Vnc.ZrleTiles

/-! Well-formed ZRLE tiles are drawn as the protocol defines them. -/
namespace Redemption.Vnc

open Redemption.Foundation Redemption.Utils

section Draw

variable {Bpp : Nat} {tile : Rect}

theorem drawTile_array {pixels : List Nat} {tileData : TileData}
    (begins : tileData.Begins (pixelBytes Bpp pixels))
    (count : pixels.length = tile.cx * tile.cy)
    (small : ∀ pixel ∈ pixels, pixel < 2 ^ (8 * Bpp))
    (room : tile.cx * tile.cy * Bpp ≤ tileDataSize) :
    ∃ drawn, drawTile Bpp tile (tileData.slice 0 tileDataSize) = .ok drawn ∧
      Draws tile.area pixels drawn := by
  rw [begins.whole (by rwa [length_pixelBytes, count])]
  exact drawTile_ok count small _

theorem rawTile_ok {pixels : List Nat} (count : pixels.length = tile.cx * tile.cy)
    (small : ∀ pixel ∈ pixels, pixel < 2 ^ (8 * Bpp))
    (room : tile.cx * tile.cy * Bpp ≤ tileDataSize) (rest : List Byte) :
    ∃ drawn, rawTile Bpp tile (pixelBytes Bpp pixels ++ rest) = .ok (drawn, rest) ∧
      Draws tile.area pixels drawn := by
  obtain ⟨drawn, draws, same⟩ := @drawTile_ok Bpp tile _ count small []
  rw [List.append_nil] at draws
  have length : tile.cx * tile.cy * Bpp % 2 ^ 16 = tile.cx * tile.cy * Bpp := by
    apply Nat.mod_eq_of_lt
    unfold tileDataSize at room
    omega
  have spelled : (pixelBytes Bpp pixels).length = tile.cx * tile.cy * Bpp := by
    rw [length_pixelBytes, count]
  refine ⟨drawn, ?_, same⟩
  simp only [rawTile, length]
  rw [checkThrow_of_le _ (by rw [List.length_append]; omega), ok_bind, inBytes_append spelled,
    ok_bind]
  simp only [draws, ok_bind, pure_ok]

theorem solidTile_ok {pixel : Nat} (small : pixel < 2 ^ (8 * 2)) (rest : List Byte) :
    ∃ drawn, solidTile 2 tile (leBytes 2 pixel ++ rest) = .ok (drawn, rest) ∧
      Draws tile.area (List.replicate (tile.cx * tile.cy) pixel) drawn := by
  have length := length_leBytes 2 pixel
  have pattern : (bytesAt (leBytes 2 pixel ++ rest) 0 2 : Checked VncError _) =
      .ok (leBytes 2 pixel) := by
    rw [bytesAt_of_le (by rw [List.length_append]; omega), List.drop_zero,
      List.take_left' length]
  refine ⟨.opaqueRect tile pixel, ?_, rfl, ?_⟩
  · rw [solidTile, inBytes_append length]
    simp only [pattern, ok_bind, pure_ok, leValue_leBytes, Nat.mod_eq_of_lt small]
  · intro x y inside high
    exact List.getElem?_replicate_of_lt (place_lt inside high)

end Draw

section Packed

variable {Bpp : Nat} {tile : Rect} {palette : List Nat}

theorem getElem?_of_defined {index : Nat} (defined : index < palette.length) :
    palette[index]? = some (palette.getD index 0) := by
  rw [List.getD_eq_getElem?_getD, List.getElem?_eq_getElem defined]
  rfl

theorem paletteEntry_ok {index pixel : Nat} (stands : palette[index]? = some pixel) :
    paletteEntry Bpp (pixelBytes Bpp palette) index = .ok (leBytes Bpp pixel) := by
  obtain ⟨bounded, _⟩ := List.getElem?_eq_some_iff.mp stands
  have room : index * Bpp + Bpp ≤ (pixelBytes Bpp palette).length := by
    rw [length_pixelBytes, ← Nat.succ_mul]
    exact Nat.mul_le_mul_right _ bounded
  have entry := @bytes_at_pixel Bpp _ _ _ stands []
  rw [List.append_nil] at entry
  rw [paletteEntry, bytesAt_of_le room, entry]

/-- As many fields of as many bits as the size of the palette asks for. -/
structure Fields (paletteSize : Nat) (fields : List Nat) : Prop where
  count : fields.length = 8 / fieldBits paletteSize
  small : ∀ field ∈ fields, field < 2 ^ fieldBits paletteSize

private theorem low_bit (byte : Nat) : byte &&& 1 = byte % 2 :=
  Nat.and_two_pow_sub_one_eq_mod byte 1

private theorem low_two (byte : Nat) : byte &&& 3 = byte % 4 :=
  Nat.and_two_pow_sub_one_eq_mod byte 2

private theorem low_four (byte : Nat) : byte &&& 15 = byte % 16 :=
  Nat.and_two_pow_sub_one_eq_mod byte 4

private theorem bitField_packFields {a b c d e f g h : Nat}
    (small : ∀ field ∈ [a, b, c, d, e, f, g, h], field < 2) :
    (List.range 8).map (bitField (packFields 1 [a, b, c, d, e, f, g, h]).toNat) =
      [a, b, c, d, e, f, g, h] := by
  simp only [List.mem_cons, List.not_mem_nil, or_false, forall_eq_or_imp, forall_eq] at small
  have value : (packFields 1 [a, b, c, d, e, f, g, h]).toNat =
      128 * a + 64 * b + 32 * c + 16 * d + 8 * e + 4 * f + 2 * g + h := by
    simp only [packFields, List.foldl_cons, List.foldl_nil, BitVec.toNat_ofNat]
    omega
  simp only [List.range, List.range.loop, List.map_cons, List.map_nil, bitField, value, low_bit,
    Nat.shiftRight_eq_div_pow, List.cons.injEq, and_true]
  omega

private theorem pairField_packFields {a b c d : Nat}
    (small : ∀ field ∈ [a, b, c, d], field < 4) :
    (List.range 4).map (pairField (packFields 2 [a, b, c, d]).toNat) = [a, b, c, d] := by
  simp only [List.mem_cons, List.not_mem_nil, or_false, forall_eq_or_imp, forall_eq] at small
  have value : (packFields 2 [a, b, c, d]).toNat = 64 * a + 16 * b + 4 * c + d := by
    simp only [packFields, List.foldl_cons, List.foldl_nil, BitVec.toNat_ofNat]
    omega
  simp only [List.range, List.range.loop, List.map_cons, List.map_nil, pairField, value, low_two,
    Nat.shiftRight_eq_div_pow, List.cons.injEq, and_true]
  omega

private theorem halfField_packFields {a b : Nat} (small : ∀ field ∈ [a, b], field < 16) :
    (List.range 2).map (halfField (packFields 4 [a, b]).toNat) = [a, b] := by
  simp only [List.mem_cons, List.not_mem_nil, or_false, forall_eq_or_imp, forall_eq] at small
  have value : (packFields 4 [a, b]).toNat = 16 * a + b := by
    simp only [packFields, List.foldl_cons, List.foldl_nil, BitVec.toNat_ofNat]
    omega
  simp only [List.range, List.range.loop, List.map_cons, List.map_nil, halfField, value, low_four,
    Nat.shiftRight_eq_div_pow, List.cons.injEq, and_true]
  omega

theorem paletteIndex_packFields {subencoding : Nat} {fields : List Nat}
    (full : Fields subencoding fields) :
    (List.range (pixelsPerByte subencoding)).map (fun q =>
      paletteIndex subencoding q (packFields (fieldBits subencoding) fields)) = fields := by
  obtain ⟨count, small⟩ := full
  unfold fieldBits at count small
  unfold pixelsPerByte fieldBits paletteIndex
  by_cases two : subencoding ≤ 2
  · simp only [if_pos two, if_neg (show ¬4 < subencoding by omega),
      if_neg (show ¬2 < subencoding by omega)] at count small ⊢
    match fields, count with
    | [_, _, _, _, _, _, _, _], _ => exact bitField_packFields small
  · by_cases four : subencoding ≤ 4
    · simp only [if_neg two, if_pos four, if_neg (show ¬4 < subencoding by omega),
        if_pos (show 2 < subencoding by omega)] at count small ⊢
      match fields, count with
      | [_, _, _, _], _ => exact pairField_packFields small
    · simp only [if_neg two, if_neg four, if_pos (show 4 < subencoding by omega)] at count small ⊢
      match fields, count with
      | [_, _], _ => exact halfField_packFields small

theorem pixelsPerByte_eq (subencoding : Nat) :
    pixelsPerByte subencoding = 8 / fieldBits subencoding := by
  unfold pixelsPerByte fieldBits
  split_ifs <;> omega

theorem lineBytesWidth_eq (subencoding cx : Nat) :
    lineBytesWidth subencoding cx =
      (cx + (8 / fieldBits subencoding - 1)) / (8 / fieldBits subencoding) := by
  unfold lineBytesWidth fieldBits
  split_ifs <;> omega

theorem storeBlock_pixel {tileData : TileData} {done : List Nat} {place : Nat}
    (begins : tileData.Begins (pixelBytes Bpp done)) (next : done.length = place)
    (room : (place + 1) * Bpp ≤ tileDataSize) (pixel : Nat) :
    ∃ tileData' : TileData,
      (tileData.storeBlock (place * Bpp) (leBytes Bpp pixel) : Checked VncError _) =
        .ok tileData' ∧ tileData'.Begins (pixelBytes Bpp (done ++ [pixel])) := by
  have length := length_leBytes Bpp pixel
  have front : place * Bpp = (pixelBytes Bpp done).length := by
    rw [length_pixelBytes, next]
  rw [Nat.succ_mul] at room
  refine ⟨_, Buffer.storeBlock_of_le _ (by omega), ?_⟩
  rw [front, pixelBytes_append]
  simpa [pixelBytes] using begins.splice (leBytes Bpp pixel)

variable (tile)

theorem packedByte_ok {y : Nat} {currentByte : Byte} (qs : List Nat) {fields : List Nat}
    (values : qs.map (fun q => paletteIndex palette.length q currentByte) = fields)
    {tileData : TileData} {done : List Nat} {x : Nat}
    (begins : tileData.Begins (pixelBytes Bpp done)) (next : done.length = y * tile.cx + x)
    (inside : x ≤ tile.cx) (room : (y + 1) * tile.cx * Bpp ≤ tileDataSize)
    (defined : ∀ index ∈ fields.take (tile.cx - x), index < palette.length) :
    ∃ tileData' : TileData,
      packedByte Bpp tile palette.length (pixelBytes Bpp palette) y currentByte qs tileData x =
        .ok (tileData', min tile.cx (x + qs.length)) ∧
      tileData'.Begins (pixelBytes Bpp (done ++
        (fields.take (tile.cx - x)).map fun index => palette.getD index 0)) := by
  induction qs generalizing fields tileData done x with
  | nil =>
    subst values
    refine ⟨tileData, ?_, by simpa using begins⟩
    rw [packedByte, List.length_nil, Nat.add_zero, Nat.min_eq_right inside]
  | cons q qs ih =>
    subst values
    rw [List.map_cons] at defined ⊢
    by_cases ends : tile.cx ≤ x
    · have stop : tile.cx - x = 0 := by omega
      refine ⟨tileData, ?_, by simpa [stop] using begins⟩
      rw [packedByte, if_pos ends, Nat.min_eq_left (by omega), Nat.le_antisymm inside ends]
    · obtain ⟨more, left⟩ : ∃ more, tile.cx - x = more + 1 := ⟨tile.cx - x - 1, by omega⟩
      have later : tile.cx - (x + 1) = more := by omega
      rw [left, List.take_succ_cons] at defined ⊢
      have known := defined _ List.mem_cons_self
      have stands := getElem?_of_defined known
      have place : (y * tile.cx + x + 1) * Bpp ≤ tileDataSize := by
        apply Nat.le_trans (Nat.mul_le_mul_right _ _) room
        rw [Nat.succ_mul]
        omega
      obtain ⟨tileData', stored, begins'⟩ := storeBlock_pixel begins next place
        (palette.getD (paletteIndex palette.length q currentByte) 0)
      obtain ⟨tileData'', ran, begins''⟩ := ih rfl begins'
        (by rw [List.length_append, next, List.length_singleton, Nat.add_assoc]) (by omega)
        (by rw [later]; exact fun other member => defined other (List.mem_cons_of_mem _ member))
      refine ⟨tileData'', ?_, ?_⟩
      · rw [packedByte, if_neg ends]
        simp only [if_neg (Nat.not_le.mpr known), paletteEntry_ok stands, ok_bind, stored, ran,
          List.length_cons]
        congr 3
        omega
      · rw [later] at begins''
        simpa using begins''

theorem packedLine_ok {y : Nat} (line : List (List Nat))
    (full : ∀ fields ∈ line, Fields palette.length fields)
    {tileData : TileData} {done : List Nat} {x : Nat}
    (begins : tileData.Begins (pixelBytes Bpp done)) (next : done.length = y * tile.cx + x)
    (inside : x ≤ tile.cx) (room : (y + 1) * tile.cx * Bpp ≤ tileDataSize)
    (defined : ∀ index ∈ line.flatten.take (tile.cx - x), index < palette.length) :
    ∃ tileData' : TileData,
      packedLine Bpp tile palette.length (pixelBytes Bpp palette) y
        (line.map (packFields (fieldBits palette.length))) tileData x = .ok tileData' ∧
      tileData'.Begins (pixelBytes Bpp (done ++
        (line.flatten.take (tile.cx - x)).map fun index => palette.getD index 0)) := by
  induction line generalizing tileData done x with
  | nil => exact ⟨tileData, rfl, by simpa using begins⟩
  | cons fields line ih =>
    have fits := full fields List.mem_cons_self
    have count : fields.length = pixelsPerByte palette.length := by
      rw [fits.count, pixelsPerByte_eq]
    rw [List.flatten_cons, List.take_append] at defined ⊢
    obtain ⟨tileData', laid, begins'⟩ := packedByte_ok tile
      (List.range (pixelsPerByte palette.length)) (paletteIndex_packFields fits) begins next inside
      room (fun index member => defined index (List.mem_append_left _ member))
    rw [List.length_range, ← count] at laid
    have stop : tile.cx - min tile.cx (x + fields.length) = tile.cx - x - fields.length := by
      omega
    have length : (done ++ (fields.take (tile.cx - x)).map fun index =>
        palette.getD index 0).length = y * tile.cx + min tile.cx (x + fields.length) := by
      rw [List.length_append, List.length_map, List.length_take, next]
      omega
    obtain ⟨tileData'', ran, begins''⟩ := ih
      (fun other member => full other (List.mem_cons_of_mem _ member)) begins' length
      (Nat.min_le_left _ _)
      (by rw [stop]; exact fun index member => defined index (List.mem_append_right _ member))
    refine ⟨tileData'', ?_, ?_⟩
    · rw [List.map_cons, packedLine, ← count, laid]
      exact ran
    · rw [stop] at begins''
      simpa using begins''

theorem length_linePixels {paletteSize width : Nat} {line : List (List Nat)}
    (fits : TileCode.LineFits paletteSize width line) :
    (TileCode.linePixels palette width line).length = width := by
  have count : line.flatten.length = line.length * (8 / fieldBits paletteSize) := by
    rw [List.length_flatten, List.map_congr_left (fun fields member => (fits.full fields member).1),
      List.map_const', List.sum_replicate_nat]
  have positive : 0 < 8 / fieldBits paletteSize := by
    unfold fieldBits
    split_ifs <;> decide
  have enough : width ≤ line.flatten.length := by
    rw [count, fits.length]
    have upper := Nat.lt_div_mul_add positive (a := width + (8 / fieldBits paletteSize - 1))
    omega
  rw [TileCode.linePixels, List.length_map, List.length_take_of_le enough]

theorem packedLines_ok (lines : List (List (List Nat)))
    (fits : ∀ line ∈ lines, TileCode.LineFits palette.length tile.cx line)
    {tileData : TileData} {done : List Nat} {y : Nat}
    (begins : tileData.Begins (pixelBytes Bpp done)) (next : done.length = y * tile.cx)
    (room : (y + lines.length) * tile.cx * Bpp ≤ tileDataSize) (behind : List Byte) :
    ∃ tileData' : TileData,
      packedLines Bpp tile palette.length (pixelBytes Bpp palette) lines.length y
        ((lines.flatMap fun line => line.map (packFields (fieldBits palette.length))) ++ behind)
        tileData = .ok tileData' ∧
      tileData'.Begins (pixelBytes Bpp (done ++
        lines.flatMap (TileCode.linePixels palette tile.cx))) := by
  induction lines generalizing tileData done y with
  | nil => exact ⟨tileData, rfl, by simpa using begins⟩
  | cons line lines ih =>
    have fit := fits line List.mem_cons_self
    have length : (line.map (packFields (fieldBits palette.length))).length =
        lineBytesWidth palette.length tile.cx := by
      rw [List.length_map, fit.length, lineBytesWidth_eq]
    have within : (y + 1) * tile.cx * Bpp ≤ tileDataSize := by
      apply Nat.le_trans (Nat.mul_le_mul_right _ (Nat.mul_le_mul_right _ _)) room
      rw [List.length_cons]
      omega
    obtain ⟨tileData', laid, begins'⟩ := packedLine_ok tile (x := 0) line
      (fun fields member => ⟨(fit.full fields member).1, (fit.full fields member).2⟩) begins
      (by rw [next, Nat.add_zero]) (Nat.zero_le _) within
      (by rw [Nat.sub_zero]; exact fit.defined)
    rw [Nat.sub_zero] at begins'
    obtain ⟨tileData'', ran, begins''⟩ := ih
      (fun other member => fits other (List.mem_cons_of_mem _ member)) (y := y + 1) begins'
      (by
        have width : (TileCode.linePixels palette tile.cx line).length = tile.cx :=
          length_linePixels fit
        rw [TileCode.linePixels] at width
        rw [List.length_append, width, next, Nat.succ_mul])
      (by rw [List.length_cons] at room; rwa [Nat.add_assoc, Nat.add_comm 1])
    refine ⟨tileData'', ?_, ?_⟩
    · rw [List.length_cons, packedLines, List.flatMap_cons, List.append_assoc,
        inBytes_append length, ok_bind]
      simp only [laid, ok_bind, ran]
    · simpa [TileCode.linePixels] using begins''

theorem packedPalette_ok {memory : TileData} {lines : List (List (List Nat))}
    (wellFormed : (TileCode.packed palette lines).WellFormed Bpp tile.cx tile.cy)
    (room : tile.cx * tile.cy * Bpp ≤ tileDataSize) (rest : List Byte) :
    ∃ drawn, packedPalette Bpp tile memory palette.length
        (pixelBytes Bpp palette ++ ((lines.flatMap fun line =>
          line.map (packFields (fieldBits palette.length))) ++ rest)) = .ok (drawn, rest) ∧
      Draws tile.area ((TileCode.packed palette lines).pixels tile.cx tile.cy) drawn := by
  obtain ⟨_, small, height, fits⟩ := wellFormed
  have widths : ∀ line ∈ lines, (TileCode.linePixels palette tile.cx line).length = tile.cx :=
    fun line member => length_linePixels (fits line member)
  have count : (lines.flatMap (TileCode.linePixels palette tile.cx)).length =
      tile.cx * tile.cy := by
    rw [List.length_flatMap, List.map_congr_left widths, List.map_const', List.sum_replicate_nat,
      height, Nat.mul_comm]
  have bytes : (lines.flatMap fun line =>
      line.map (packFields (fieldBits palette.length))).length =
      lineBytesWidth palette.length tile.cx * tile.cy := by
    have each : ∀ line ∈ lines, (line.map (packFields (fieldBits palette.length))).length =
        lineBytesWidth palette.length tile.cx := by
      intro line member
      rw [List.length_map, (fits line member).length, lineBytesWidth_eq]
    rw [List.length_flatMap, List.map_congr_left each, List.map_const', List.sum_replicate_nat,
      height, Nat.mul_comm]
  have values : ∀ pixel ∈ lines.flatMap (TileCode.linePixels palette tile.cx),
      pixel < 2 ^ (8 * Bpp) := by
    intro pixel member
    obtain ⟨line, lineMember, inLine⟩ := List.mem_flatMap.mp member
    obtain ⟨index, indexMember, rfl⟩ := List.mem_map.mp inLine
    have known := (fits line lineMember).defined index indexMember
    exact small _ (List.mem_of_getElem? (getElem?_of_defined known))
  have start : memory.Begins (pixelBytes Bpp []) := Buffer.begins_nil memory
  obtain ⟨tileData, laid, begins⟩ := packedLines_ok tile (y := 0) lines fits start
    (by rw [Nat.zero_mul]; rfl)
    (by rw [Nat.zero_add, height, Nat.mul_comm tile.cy]; exact room) []
  rw [List.append_nil, height] at laid
  obtain ⟨drawn, draws, same⟩ := drawTile_array begins count values room
  refine ⟨drawn, ?_, same⟩
  have front : (pixelBytes Bpp palette).length = palette.length * Bpp := length_pixelBytes _
  simp only [packedPalette]
  rw [checkThrow_of_le _ (by rw [List.length_append]; omega), ok_bind, inBytes_append front,
    ok_bind]
  rw [checkThrow_of_le _ (by rw [List.length_append]; omega), ok_bind, inBytes_append bytes,
    ok_bind]
  simp only [laid, draws, ok_bind, pure_ok]

end Packed

end Redemption.Vnc
