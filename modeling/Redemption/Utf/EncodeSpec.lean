import Redemption.Utf.Encode

/-! Blocks of several bytes give what one character after the other gives. -/
namespace Redemption.Utf

open Redemption.Foundation

variable {encoder : Encoder} {lfToCrlf : List Byte}

/-- What is written for an ASCII byte. -/
def written (encoder : Encoder) (lfToCrlf : List Byte) (byte : Byte) : List Byte :=
  if lfToCrlf ≠ [] ∧ byte = 0x0A then lfToCrlf else encoder.ascii byte

/-- Character by character, what is written for a text. -/
inductive Converts (encoder : Encoder) (lfToCrlf : List Byte) : List Byte → List Byte → Prop where
  | nil : Converts encoder lfToCrlf [] []
  | ascii {byte : Byte} {input output : List Byte} (low : byte < 0x80#8)
      (rest : Converts encoder lfToCrlf input output) :
      Converts encoder lfToCrlf (byte :: input) (written encoder lfToCrlf byte ++ output)
  | sequence {lead : Byte} {tail input units output : List Byte} (high : ¬ lead < 0x80#8)
      (copied : encoder.copyAndAdvance1na (lead :: tail ++ input) = some (input, units))
      (rest : Converts encoder lfToCrlf input output) :
      Converts encoder lfToCrlf (lead :: tail ++ input) (units ++ output)

namespace Converts

variable {byte : Byte} {input output : List Byte}

theorem ascii_inv (converts : Converts encoder lfToCrlf (byte :: input) output)
    (low : byte < 0x80#8) :
    ∃ rest, Converts encoder lfToCrlf input rest ∧
      output = written encoder lfToCrlf byte ++ rest := by
  generalize whole : byte :: input = text at converts
  cases converts with
  | nil => cases whole
  | ascii _ rest =>
    cases whole
    exact ⟨_, rest, rfl⟩
  | sequence high =>
    cases whole
    exact absurd low high

theorem sequence_inv (converts : Converts encoder lfToCrlf (byte :: input) output)
    (high : ¬ byte < 0x80#8) :
    ∃ after units rest, encoder.copyAndAdvance1na (byte :: input) = some (after, units) ∧
      Converts encoder lfToCrlf after rest ∧ output = units ++ rest ∧
      after.length ≤ input.length := by
  generalize whole : byte :: input = text at converts
  cases converts with
  | nil => cases whole
  | ascii low =>
    cases whole
    exact absurd low high
  | @sequence lead tail after units output _ copied rest =>
    have inside := congrArg List.length whole
    simp only [List.length_cons, List.length_append, List.cons_append] at inside
    exact ⟨after, units, output, copied, rest, rfl, by omega⟩

end Converts

/-- What has been written and what is still to come make up the whole. -/
def Writes (encoder : Encoder) (lfToCrlf : List Byte) (cursor : Cursor) (whole : List Byte) : Prop :=
  ∃ output, Converts encoder lfToCrlf cursor.input output ∧ cursor.out ++ output = whole

section Steps

variable {cursor : Cursor} {whole : List Byte}

/-- Bytes are copied as they are unless a new line is to be replaced. -/
theorem copyAndAdvanceAscii_run {front rest : List Byte}
    (writes : Writes encoder lfToCrlf cursor whole) (text : cursor.input = front ++ rest)
    (ascii : ∀ byte ∈ front, byte < 0x80#8) (plain : lfToCrlf = [] ∨ 0x0A ∉ front) :
    ∃ after, encoder.copyAndAdvanceAscii front.length cursor = some after ∧
      Writes encoder lfToCrlf after whole ∧ after.input = rest := by
  induction front generalizing cursor with
  | nil => exact ⟨cursor, rfl, writes, text⟩
  | cons byte front ih =>
    rw [List.forall_mem_cons] at ascii
    obtain ⟨output, converts, same⟩ := writes
    rw [text] at converts
    obtain ⟨more, rest, rfl⟩ := converts.ascii_inv ascii.1
    have itself : written encoder lfToCrlf byte = encoder.ascii byte := by
      refine if_neg ?_
      rintro ⟨some, rfl⟩
      rcases plain with none | absent
      · exact some none
      · exact absent List.mem_cons_self
    obtain ⟨after, copied, holds⟩ := @ih
      ⟨front ++ _, cursor.out ++ encoder.ascii byte⟩
      ⟨more, rest, by rw [List.append_assoc, ← itself, same]⟩ rfl ascii.2
      (plain.imp_right fun absent member => absent (List.mem_cons_of_mem _ member))
    refine ⟨after, ?_, holds⟩
    rw [List.length_cons, Encoder.copyAndAdvanceAscii, text]
    exact copied

theorem writeLf_run {rest : List Byte} (writes : Writes encoder lfToCrlf cursor whole)
    (some : lfToCrlf ≠ []) (text : cursor.input = 0x0A :: rest) :
    Writes encoder lfToCrlf (writeLf lfToCrlf cursor) whole ∧
      (writeLf lfToCrlf cursor).input = rest := by
  obtain ⟨output, converts, same⟩ := writes
  rw [text] at converts
  obtain ⟨more, rest, rfl⟩ := converts.ascii_inv (by decide)
  have replaced : written encoder lfToCrlf 0x0A = lfToCrlf := if_pos ⟨some, rfl⟩
  rw [replaced, ← List.append_assoc] at same
  have after : (writeLf lfToCrlf cursor).input = _ := congrArg List.tail text
  exact ⟨⟨more, by rw [after]; exact rest, same⟩, after⟩

/-- A word of ASCII bytes is consumed, or what is before a new line and the new line. -/
theorem consumeNAsciiBytes_run {size : Nat} (writes : Writes encoder lfToCrlf cursor whole)
    (positive : 0 < size) (enough : size ≤ cursor.input.length)
    (ascii : ∀ byte ∈ cursor.input.take size, byte < 0x80#8) :
    ∃ found after,
      consumeNAsciiBytes encoder lfToCrlf (loadWord size cursor.input) cursor =
        some (found, after) ∧
      Writes encoder lfToCrlf after whole ∧ after.input.length < cursor.input.length ∧
      (found = false → after.input = cursor.input.drop size) := by
  have text : cursor.input = cursor.input.take size ++ cursor.input.drop size :=
    (List.take_append_drop _ _).symm
  have length : (cursor.input.take size).length = size := List.length_take_of_le enough
  have all (plain : lfToCrlf = [] ∨ 0x0A ∉ cursor.input.take size) :
      ∃ after, encoder.copyAndAdvanceAscii size cursor = some after ∧
        Writes encoder lfToCrlf after whole ∧ after.input = cursor.input.drop size := by
    have copied := copyAndAdvanceAscii_run writes text ascii plain
    rwa [length] at copied
  have shorter {after : Cursor} (same : after.input = cursor.input.drop size) :
      after.input.length < cursor.input.length := by
    rw [same, List.length_drop]
    omega
  unfold consumeNAsciiBytes
  split
  · rename_i none
    obtain ⟨after, copied, holds, same⟩ := all (.inl none)
    exact ⟨false, after, by rw [copied]; rfl, holds, shorter same, fun _ => same⟩
  · rename_i some
    unfold Encoder.consumeAsciiUntilLf
    by_cases member : (0x0A : Byte) ∈ cursor.input.take size
    · obtain ⟨front, rest, parts, absent⟩ := List.eq_append_cons_of_mem member
      have within : front.length < size := by
        have lengths := congrArg List.length parts
        rw [length, List.length_append, List.length_cons] at lengths
        omega
      have text' : cursor.input = front ++ 0x0A :: (rest ++ cursor.input.drop size) := by
        rw [← List.cons_append, ← List.append_assoc, ← parts, List.take_append_drop]
      have low : ∀ byte ∈ front, byte < 0x80#8 := fun byte inside =>
        ascii byte (by rw [parts]; exact List.mem_append_left _ inside)
      obtain ⟨nonzero, position⟩ := @ctz_escapableMask _ _ _ (rest ++ cursor.input.drop size)
        within (by decide) absent
      rw [← text'] at nonzero position
      obtain ⟨after, copied, holds, same⟩ :=
        copyAndAdvanceAscii_run writes text' low (.inr absent)
      obtain ⟨holds', same'⟩ := writeLf_run holds some same
      refine ⟨true, writeLf lfToCrlf after, ?_, holds', ?_, nofun⟩
      · simp only [if_neg nonzero, position, copied]
        rfl
      · have lengths := congrArg List.length text'
        rw [List.length_append, List.length_cons] at lengths
        rw [same']
        omega
    · have zero := escapableMask_none enough (by decide) member
      obtain ⟨after, copied, holds, same⟩ := all (.inr member)
      refine ⟨false, after, ?_, holds, shorter same, fun _ => same⟩
      simp only [if_pos zero, copied]
      rfl

theorem consume1AsciiByte_run {byte : Byte} {rest : List Byte}
    (writes : Writes encoder lfToCrlf cursor whole) (text : cursor.input = byte :: rest)
    (low : byte < 0x80#8) :
    ∃ after, consume1AsciiByte encoder lfToCrlf cursor = some after ∧
      Writes encoder lfToCrlf after whole ∧ after.input = rest := by
  have single (plain : lfToCrlf = [] ∨ 0x0A ∉ [byte]) :=
    @copyAndAdvanceAscii_run _ _ _ _ [byte] _ writes text (by simpa using low) plain
  unfold consume1AsciiByte
  split
  · rename_i none
    exact single (.inl none)
  · rename_i some
    rw [text, List.head?_cons]
    split
    · rename_i other
      exact single (.inr fun member => other (congrArg _ (List.mem_singleton.mp member).symm))
    · rename_i same
      have lf : byte = 0x0A := by simpa using same
      rw [lf] at text
      exact ⟨_, rfl, writeLf_run writes some text⟩

theorem advance1na_run {lead : Byte} {rest : List Byte}
    (writes : Writes encoder lfToCrlf cursor whole) (text : cursor.input = lead :: rest)
    (high : ¬ lead < 0x80#8) :
    ∃ after, encoder.advance1na cursor = some after ∧
      Writes encoder lfToCrlf after whole ∧ after.input.length < cursor.input.length := by
  obtain ⟨output, converts, same⟩ := writes
  rw [text] at converts
  obtain ⟨after, units, more, copied, rest', rfl, shorter⟩ := converts.sequence_inv high
  refine ⟨⟨after, cursor.out ++ units⟩, ?_, ⟨more, rest', by rw [List.append_assoc, same]⟩, ?_⟩
  · rw [Encoder.advance1na, text, copied]
    rfl
  · rw [text, List.length_cons]
    exact Nat.lt_succ_of_le shorter

/-- Two bytes that are not both ASCII have at most one ASCII byte before a sequence. -/
theorem mixed1_run (writes : Writes encoder lfToCrlf cursor whole)
    (enough : 2 ≤ cursor.input.length)
    (mixed : ¬ ∀ byte ∈ cursor.input.take 2, byte < 0x80#8) :
    ∃ after, mixed1 encoder lfToCrlf cursor = some after ∧
      Writes encoder lfToCrlf after whole ∧ after.input.length < cursor.input.length := by
  match text : cursor.input with
  | [] | [_] =>
    rw [text] at enough
    exact absurd enough (by simp)
  | first :: second :: rest =>
    by_cases low : first < 0x80#8
    · obtain ⟨after, consumed, holds, same⟩ := consume1AsciiByte_run writes text low
      have high : ¬ second < 0x80#8 := by
        intro low'
        rw [text] at mixed
        exact mixed (by simp [low, low'])
      obtain ⟨last, advanced, holds', shorter⟩ := advance1na_run holds same high
      refine ⟨last, ?_, holds', ?_⟩
      · simp [mixed1, text, low, consumed, advanced]
      · rw [same] at shorter
        simp only [List.length_cons] at shorter ⊢
        omega
    · obtain ⟨last, advanced, holds', shorter⟩ := advance1na_run writes text low
      refine ⟨last, ?_, holds', by rwa [text] at shorter⟩
      simp [mixed1, text, low, advanced]

theorem mixed4_run (writes : Writes encoder lfToCrlf cursor whole)
    (enough : 4 ≤ cursor.input.length)
    (mixed : ¬ ∀ byte ∈ cursor.input.take 4, byte < 0x80#8) :
    ∃ after, mixed4 encoder lfToCrlf (loadWord 4 cursor.input) cursor = some after ∧
      Writes encoder lfToCrlf after whole ∧ after.input.length < cursor.input.length := by
  have c2 : (loadWord 4 cursor.input &&& 0xffff).setWidth (8 * 2) = loadWord 2 cursor.input := by
    rw [setWidth_and_ones _ _ (by decide)]
    exact setWidth_loadWord cursor.input (by decide)
  have two : loadWord 2 cursor.input &&& 0x8080 = 0 ↔
      ∀ byte ∈ cursor.input.take 2, byte < 0x80#8 := loadWord_and_high 2 (by omega)
  unfold mixed4
  simp only [c2, two]
  split
  · rename_i ascii
    obtain ⟨found, after, consumed, holds, shorter, dropped⟩ :=
      consumeNAsciiBytes_run writes (by decide) (by omega) ascii
    rw [consumed]
    cases found with
    | true => exact ⟨after, rfl, holds, shorter⟩
    | false =>
      have text := dropped rfl
      have split : cursor.input.take 4 = cursor.input.take 2 ++ after.input.take 2 := by
        rw [text, ← List.take_add]
      obtain ⟨last, advanced, holds', shorter'⟩ := mixed1_run holds
        (by rw [text, List.length_drop]; omega) (fun low => mixed (by
          rw [split]
          exact List.forall_mem_append.mpr ⟨ascii, low⟩))
      exact ⟨last, advanced, holds', Nat.lt_trans shorter' shorter⟩
  · rename_i other
    exact mixed1_run writes (by omega) other

theorem round8_run (writes : Writes encoder lfToCrlf cursor whole)
    (enough : 8 ≤ cursor.input.length) :
    ∃ after, round8 encoder lfToCrlf cursor = some after ∧
      Writes encoder lfToCrlf after whole ∧ after.input.length < cursor.input.length := by
  have first : u64ToFirstU32 (loadWord 8 cursor.input) = loadWord 4 cursor.input := by
    rw [u64ToFirstU32, setWidth_and_ones _ _ (by decide)]
    exact setWidth_loadWord cursor.input (by decide)
  have last : u64ToLastU32 (loadWord 8 cursor.input) = loadWord 4 (cursor.input.drop 4) :=
    @setWidth_loadWord_ushiftRight 8 _ 4 cursor.input (by decide)
  have eight : loadWord 8 cursor.input &&& 0x8080808080808080 = 0 ↔
      ∀ byte ∈ cursor.input.take 8, byte < 0x80#8 := loadWord_and_high 8 enough
  have four : loadWord 4 cursor.input &&& 0x80808080 = 0 ↔
      ∀ byte ∈ cursor.input.take 4, byte < 0x80#8 := loadWord_and_high 4 (by omega)
  unfold round8
  simp only [first, last, eight, four]
  split
  · rename_i ascii
    obtain ⟨found, after, consumed, holds, shorter, _⟩ :=
      consumeNAsciiBytes_run writes (by decide) enough ascii
    exact ⟨after, by rw [consumed]; rfl, holds, shorter⟩
  · rename_i mixed
    split
    · rename_i ascii
      obtain ⟨found, after, consumed, holds, shorter, dropped⟩ :=
        consumeNAsciiBytes_run writes (by decide) (by omega) ascii
      rw [consumed]
      cases found with
      | true => exact ⟨after, rfl, holds, shorter⟩
      | false =>
        have text := dropped rfl
        have split : cursor.input.take 8 = cursor.input.take 4 ++ after.input.take 4 := by
          rw [text, ← List.take_add]
        obtain ⟨last, advanced, holds', shorter'⟩ := mixed4_run holds
          (by rw [text, List.length_drop]; omega) (fun low => mixed (by
            rw [split]
            exact List.forall_mem_append.mpr ⟨ascii, low⟩))
        rw [← text]
        exact ⟨last, advanced, holds', Nat.lt_trans shorter' shorter⟩
    · rename_i other
      exact mixed4_run writes (by omega) other

/-- A round of the loop over 4 bytes gets further, and takes 4 bytes if it is the last. -/
theorem round4_run (writes : Writes encoder lfToCrlf cursor whole)
    (enough : 4 ≤ cursor.input.length) :
    ∃ goesOn after, round4 encoder lfToCrlf cursor = some (goesOn, after) ∧
      Writes encoder lfToCrlf after whole ∧ after.input.length < cursor.input.length ∧
      (goesOn = false → after.input = cursor.input.drop 4) := by
  have four : loadWord 4 cursor.input &&& 0x80808080 = 0 ↔
      ∀ byte ∈ cursor.input.take 4, byte < 0x80#8 := loadWord_and_high 4 enough
  unfold round4
  simp only [four]
  split
  · rename_i ascii
    exact consumeNAsciiBytes_run writes (by decide) enough ascii
  · rename_i mixed
    obtain ⟨after, advanced, holds, shorter⟩ := mixed4_run writes enough mixed
    exact ⟨true, after, by rw [advanced]; rfl, holds, shorter, nofun⟩

theorem round2_run (writes : Writes encoder lfToCrlf cursor whole)
    (enough : 2 ≤ cursor.input.length) :
    ∃ goesOn after, round2 encoder lfToCrlf cursor = some (goesOn, after) ∧
      Writes encoder lfToCrlf after whole ∧ after.input.length < cursor.input.length ∧
      (goesOn = false → after.input = cursor.input.drop 2) := by
  have two : loadWord 2 cursor.input &&& 0x8080 = 0 ↔
      ∀ byte ∈ cursor.input.take 2, byte < 0x80#8 := loadWord_and_high 2 enough
  unfold round2
  simp only [two]
  split
  · rename_i ascii
    exact consumeNAsciiBytes_run writes (by decide) enough ascii
  · rename_i mixed
    obtain ⟨after, advanced, holds, shorter⟩ := mixed1_run writes enough mixed
    exact ⟨true, after, by rw [advanced]; rfl, holds, shorter, nofun⟩

/-- A loop whose rounds get further, and leave few bytes if they are the last, leaves few. -/
theorem loopWhile_run {least most : Nat} {round : Cursor → Option (Bool × Cursor)}
    (rounds : ∀ cursor, Writes encoder lfToCrlf cursor whole →
      least ≤ cursor.input.length → cursor.input.length < most →
      ∃ goesOn after, round cursor = some (goesOn, after) ∧
        Writes encoder lfToCrlf after whole ∧ after.input.length < cursor.input.length ∧
        (goesOn = false → after.input.length < least))
    (start : cursor.input.length < most) (writes : Writes encoder lfToCrlf cursor whole) :
    ∃ after, loopWhile least round cursor = some after ∧
      Writes encoder lfToCrlf after whole ∧ after.input.length < least := by
  induction length : cursor.input.length using Nat.strong_induction_on generalizing cursor with
  | _ count ih =>
    unfold loopWhile
    split
    · rename_i enough
      obtain ⟨goesOn, after, did, holds, shorter, last⟩ := rounds cursor writes enough start
      rw [did]
      cases goesOn with
      | false => exact ⟨after, rfl, holds, last rfl⟩
      | true =>
        simp only [if_pos shorter]
        exact ih _ (length ▸ shorter) (Nat.lt_trans shorter start) holds rfl
    · rename_i few
      exact ⟨cursor, rfl, writes, Nat.lt_of_not_le few⟩

/-- What is left at the end is nothing or an ASCII byte, or a whole sequence of one byte. -/
theorem last1_run (writes : Writes encoder lfToCrlf cursor whole)
    (few : cursor.input.length < 2) :
    ∃ after, last1 encoder lfToCrlf cursor = some after ∧
      Writes encoder lfToCrlf after whole ∧ after.input = [] := by
  match text : cursor.input with
  | [] => exact ⟨cursor, by rw [last1, text], writes, text⟩
  | [byte] =>
    rw [last1, text]
    simp only
    by_cases low : byte < 0x80#8
    · rw [if_pos low]
      exact consume1AsciiByte_run writes text low
    · rw [if_neg low]
      obtain ⟨after, advanced, holds, shorter⟩ := advance1na_run writes text low
      rw [text] at shorter
      exact ⟨after, advanced, holds, List.eq_nil_of_length_eq_zero (Nat.lt_one_iff.mp shorter)⟩
  | _ :: _ :: rest =>
    rw [text] at few
    exact absurd few (by simp)

end Steps

/-- Wherever its ASCII bytes and new lines are, a text is converted as it is character by
character. -/
theorem encodeToMultiCodeUnit_run {input output : List Byte}
    (converts : Converts encoder lfToCrlf input output) :
    encodeToMultiCodeUnit encoder lfToCrlf input = some output := by
  have start : Writes encoder lfToCrlf ⟨input, []⟩ output := ⟨output, converts, rfl⟩
  obtain ⟨after8, did8, holds8, few8⟩ := @loopWhile_run _ _ _ _ 8 (input.length + 1) (fun cursor => (round8 encoder lfToCrlf cursor).map (true, ·)) (fun cursor writes enough _ => by
      obtain ⟨after, did, holds, shorter⟩ := round8_run writes enough
      exact ⟨true, after, by rw [did]; rfl, holds, shorter, nofun⟩) (Nat.lt_succ_self _) start
  obtain ⟨after4, did4, holds4, few4⟩ := @loopWhile_run _ _ _ _ 4 8 _ (fun cursor writes enough few => by
      obtain ⟨goesOn, after, did, holds, shorter, last⟩ := round4_run writes enough
      refine ⟨goesOn, after, did, holds, shorter, fun ends => ?_⟩
      rw [last ends, List.length_drop]
      omega) few8 holds8
  obtain ⟨after2, did2, holds2, few2⟩ := @loopWhile_run _ _ _ _ 2 4 _ (fun cursor writes enough few => by
      obtain ⟨goesOn, after, did, holds, shorter, last⟩ := round2_run writes enough
      refine ⟨goesOn, after, did, holds, shorter, fun ends => ?_⟩
      rw [last ends, List.length_drop]
      omega) few4 holds4
  obtain ⟨after1, did1, ⟨rest, ended, whole⟩, empty⟩ := last1_run holds2 few2
  rw [empty] at ended
  have none : rest = [] := by
    generalize nothing : ([] : List Byte) = text at ended
    cases ended with
    | nil => rfl
    | ascii => cases nothing
    | sequence => cases nothing
  rw [none, List.append_nil] at whole
  simp [encodeToMultiCodeUnit, did8, did4, did2, did1, whole]

end Redemption.Utf
