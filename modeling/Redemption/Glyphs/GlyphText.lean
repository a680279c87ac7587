import Redemption.Glyphs.GlyphCache

/-! What a turn of the loop over a well-formed text does. -/
namespace Redemption.Glyphs

open Redemption.Foundation

/-- The cursor after some bytes. -/
def cursor (bytes : List Byte) : Byte := BitVec.ofNat 8 bytes.length

theorem cursor_toNat {bytes : List Byte} (small : bytes.length < 2 ^ 8) :
    (cursor bytes).toNat = bytes.length := by
  rw [cursor, BitVec.toNat_ofNat, Nat.mod_eq_of_lt small]

theorem cursor_succ (bytes : List Byte) (byte : Byte) :
    cursor bytes + 1 = cursor (bytes ++ [byte]) := by
  rw [cursor, cursor, List.length_append, BitVec.ofNat_add]
  rfl

theorem load_append (front : List Byte) (byte : Byte) (rest : List Byte) :
    load (front ++ byte :: rest) front.length = .ok byte := by
  simp [load]

theorem load_cursor {front : List Byte} (small : front.length < 2 ^ 8) (byte : Byte)
    (rest : List Byte) : load (front ++ byte :: rest) (cursor front).toNat = .ok byte := by
  rw [cursor_toNat small, load_append]

theorem getDelta_append (front : List Byte) (delta : Delta) (rest : List Byte)
    (small : (front ++ delta.bytes).length < 2 ^ 8) :
    ∃ value, getDelta (front ++ delta.bytes ++ rest) (cursor front) =
      .ok (value, cursor (front ++ delta.bytes)) := by
  rw [List.length_append] at small
  cases delta with
  | short value plain =>
    have begins : front.length < 2 ^ 8 := by omega
    rw [Delta.bytes, List.append_assoc, List.singleton_append]
    simp only [getDelta, load_cursor begins, ok_bind, if_neg plain, pure_ok, cursor_succ _ value]
    exact ⟨_, rfl⟩
  | long value =>
    rw [Delta.bytes, List.length_cons, length_leBytes] at small
    have begins : front.length < 2 ^ 8 := by omega
    obtain ⟨low, high, bytes⟩ : ∃ low high, leBytes 2 value.toNat = [low, high] := ⟨_, _, rfl⟩
    have second : (front ++ [(0x80 : Byte)]).length < 2 ^ 8 := by
      rw [List.length_append, List.length_singleton]
      omega
    have lowRead : load (front ++ (0x80 : Byte) :: low :: high :: rest)
        (cursor (front ++ [(0x80 : Byte)])).toNat = .ok low := by
      have whole := load_cursor second low (high :: rest)
      rwa [List.append_assoc] at whole
    have highRead : load (front ++ (0x80 : Byte) :: low :: high :: rest)
        ((cursor (front ++ [(0x80 : Byte)])).toNat + 1) = .ok high := by
      have whole := load_append (front ++ [(0x80 : Byte), low]) high rest
      rw [cursor_toNat second]
      rw [List.append_assoc, List.length_append] at whole
      rw [List.length_append]
      exact whole
    have past : cursor (front ++ [(0x80 : Byte)]) + 2 =
        cursor (front ++ [(0x80 : Byte), low, high]) := by
      rw [cursor, cursor, List.length_append, List.length_append, List.length_singleton]
      rw [show front.length + [(0x80 : Byte), low, high].length = front.length + 1 + 2 from rfl,
        BitVec.ofNat_add (front.length + 1) 2]
      rfl
    rw [Delta.bytes, bytes, List.append_assoc]
    simp only [getDelta, List.cons_append, List.nil_append, load_cursor begins, ok_bind,
      cursor_succ front (0x80 : Byte), lowRead, highRead, pure_ok, if_true, past]
    exact ⟨_, rfl⟩

section Turn

variable {serializer : Serializer} {source : Fin 254 → Option FontChar} {cmd : RDPGlyphIndex}
variable {front rest : List Byte} {glyphCache : GlyphCache} {orders : List Order}

/-- After the bytes of an item, the delta that may come is passed over. -/
theorem afterDelta {result : Type} (front : List Byte) (delta : Delta) (rest : List Byte)
    (small : (front ++ deltaBytes cmd.hasDeltaByte delta).length < 2 ^ 8)
    (next : Byte → Checked GlyphError result) :
    (if cmd.hasDeltaByte = true then
        getDelta (front ++ deltaBytes cmd.hasDeltaByte delta ++ rest) (cursor front) >>=
          fun passed => next passed.2
      else next (cursor front)) =
      next (cursor (front ++ deltaBytes cmd.hasDeltaByte delta)) := by
  by_cases has : cmd.hasDeltaByte = true
  · rw [has, deltaBytes, if_pos rfl] at small ⊢
    obtain ⟨value, passed⟩ := getDelta_append front delta rest small
    rw [if_pos rfl, passed, ok_bind]
  · rw [if_neg has, deltaBytes, if_neg has, List.append_nil]

theorem drawItem_glyph {index : Fin 254} {delta : Delta}
    (small : (front ++ (Item.glyph index delta).bytes cmd.hasDeltaByte).length < 2 ^ 8) :
    drawItem serializer source cmd
      ⟨glyphCache, front ++ (Item.glyph index delta).bytes cmd.hasDeltaByte ++ rest, orders⟩
      (cursor front) =
    (drawGlyph serializer source cmd.cacheId glyphCache index >>= fun drawn =>
      .ok (⟨drawn.2.1, front ++ (BitVec.ofNat 8 drawn.1 :: deltaBytes cmd.hasDeltaByte delta) ++ rest,
          orders ++ drawn.2.2⟩,
        cursor (front ++ (Item.glyph index delta).bytes cmd.hasDeltaByte))) := by
  have begins : front.length < 2 ^ 8 := by
    rw [List.length_append] at small
    omega
  have opcode : (BitVec.ofNat 8 index.val).toNat = index.val := by
    rw [BitVec.toNat_ofNat, Nat.mod_eq_of_lt (by omega)]
  have isGlyph : (BitVec.ofNat 8 index.val).toNat < 254 := by
    rw [opcode]
    exact index.isLt
  have sameIndex : (⟨(BitVec.ofNat 8 index.val).toNat, isGlyph⟩ : Fin 254) = index := Fin.ext opcode
  rw [Item.bytes, List.append_assoc] at *
  rw [drawItem]
  simp only [List.cons_append, load_cursor begins, ok_bind, dif_pos isGlyph, sameIndex]
  congr 1
  funext drawn
  have replaced : (front ++ BitVec.ofNat 8 index.val ::
      (deltaBytes cmd.hasDeltaByte delta ++ rest)).set (cursor front).toNat
        (BitVec.ofNat 8 drawn.1) =
      front ++ [BitVec.ofNat 8 drawn.1] ++ deltaBytes cmd.hasDeltaByte delta ++ rest := by
    rw [cursor_toNat begins]
    simp
  have past (byte : Byte) : cursor (front ++ byte :: deltaBytes cmd.hasDeltaByte delta) =
      cursor (front ++ [BitVec.ofNat 8 drawn.1] ++ deltaBytes cmd.hasDeltaByte delta) := by
    simp [cursor]
  have length : (front ++ [BitVec.ofNat 8 drawn.1] ++
      deltaBytes cmd.hasDeltaByte delta).length < 2 ^ 8 := by
    simpa using small
  have shape : front ++ BitVec.ofNat 8 drawn.1 :: deltaBytes cmd.hasDeltaByte delta ++ rest =
      front ++ [BitVec.ofNat 8 drawn.1] ++ deltaBytes cmd.hasDeltaByte delta ++ rest := by
    simp
  rw [replaced, past, shape, cursor_succ front (BitVec.ofNat 8 drawn.1)]
  exact @afterDelta cmd (Drawing × Byte) _ delta rest length fun i => .ok
    (Drawing.mk drawn.2.1 (front ++ [BitVec.ofNat 8 drawn.1] ++
      deltaBytes cmd.hasDeltaByte delta ++ rest) (orders ++ drawn.2.2), i)

theorem drawItem_use {fragment : Byte} {delta : Delta}
    (small : (front ++ (Item.use fragment delta).bytes cmd.hasDeltaByte).length < 2 ^ 8) :
    drawItem serializer source cmd
      ⟨glyphCache, front ++ (Item.use fragment delta).bytes cmd.hasDeltaByte ++ rest, orders⟩
      (cursor front) =
    .ok (⟨glyphCache, front ++ (Item.use fragment delta).bytes cmd.hasDeltaByte ++ rest, orders⟩,
      cursor (front ++ (Item.use fragment delta).bytes cmd.hasDeltaByte)) := by
  have shape : front ++ (Item.use fragment delta).bytes cmd.hasDeltaByte =
      front ++ [(0xFE : Byte), fragment] ++ deltaBytes cmd.hasDeltaByte delta := by
    simp [Item.bytes]
  rw [shape] at small ⊢
  have begins : front.length + 2 < 2 ^ 8 := by
    simp only [List.length_append, List.length_cons, List.length_nil] at small
    omega
  have opcode : load (front ++ [(0xFE : Byte), fragment] ++ deltaBytes cmd.hasDeltaByte delta ++ rest)
      (cursor front).toNat = .ok 0xFE := by
    rw [List.append_assoc, List.append_assoc]
    exact load_cursor (by omega) _ _
  have second : load (front ++ [(0xFE : Byte), fragment] ++ deltaBytes cmd.hasDeltaByte delta ++ rest)
      (cursor (front ++ [(0xFE : Byte)])).toNat = .ok fragment := by
    have whole := @load_cursor (front ++ [(0xFE : Byte)])
      (by rw [List.length_append, List.length_singleton]; omega) fragment
      (deltaBytes cmd.hasDeltaByte delta ++ rest)
    simpa using whole
  have past : cursor (front ++ [(0xFE : Byte)]) + 1 = cursor (front ++ [(0xFE : Byte), fragment]) := by
    rw [cursor_succ _ fragment, List.append_assoc, List.singleton_append]
  simp only [drawItem, opcode, ok_bind, cursor_succ front (0xFE : Byte), second, past]
  exact @afterDelta cmd (Drawing × Byte) _ delta rest small fun i => .ok
    (Drawing.mk glyphCache (front ++ [(0xFE : Byte), fragment] ++
      deltaBytes cmd.hasDeltaByte delta ++ rest) orders, i)

/-- The name of a text is passed over where the text ends with it. -/
theorem drawItem_add {index size : Byte}
    (ends : (front ++ [0xFF, index, size]).length = cmd.data.length) :
    drawItem serializer source cmd ⟨glyphCache, front ++ [0xFF, index, size] ++ rest, orders⟩
      (cursor front) =
    .ok (⟨glyphCache, front ++ [0xFF, index, size] ++ rest, orders⟩, cmd.dataLen) := by
  have within := cmd.within
  have begins : front.length + 3 < 2 ^ 8 := by
    rw [List.length_append] at ends
    exact Nat.lt_of_le_of_lt (Nat.le_of_eq ends) within
  have shape : front ++ [0xFF, index, size] ++ rest = front ++ (0xFF : Byte) :: index :: size :: rest := by
    simp
  have second : load (front ++ (0xFF : Byte) :: index :: size :: rest)
      (cursor (front ++ [(0xFF : Byte)])).toNat = .ok index := by
    have whole := @load_cursor (front ++ [(0xFF : Byte)])
      (by rw [List.length_append, List.length_singleton]; omega) index (size :: rest)
    simpa using whole
  have third : load (front ++ (0xFF : Byte) :: index :: size :: rest)
      (cursor (front ++ [(0xFF : Byte), index])).toNat = .ok size := by
    have whole := @load_cursor (front ++ [(0xFF : Byte), index])
      (by rw [List.length_append]; exact Nat.lt_of_succ_lt begins) size rest
    simpa using whole
  have onePast : cursor (front ++ [(0xFF : Byte)]) + 1 = cursor (front ++ [(0xFF : Byte), index]) := by
    rw [cursor_succ _ index, List.append_assoc, List.singleton_append]
  have allPast : cursor (front ++ [(0xFF : Byte), index]) + 1 = cmd.dataLen := by
    rw [cursor_succ _ size, cursor, List.append_assoc, RDPGlyphIndex.dataLen, ← ends]
    rfl
  rw [shape]
  simp only [drawItem, load_cursor (Nat.lt_of_le_of_lt (Nat.le_add_right _ 3) begins), ok_bind,
    cursor_succ front (0xFF : Byte), second, onePast, third, allPast]
  rfl

end Turn

end Redemption.Glyphs
