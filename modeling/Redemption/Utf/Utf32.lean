import Redemption.Foundation.ByteStream

/-! The two encoders of code points, and the decoder that goes by the first byte of a sequence. -/
namespace Redemption.Utf

open Redemption.Foundation

/-- What `checked_int` and `static_cast<u8>` keep of a number. -/
def toByte (value : BitVec 32) : Byte := value.setWidth 8

/-- `UTF32toUTF8`: what is written to a target of so many bytes. -/
def Legacy.utf32ToUtf8 (utf32Char : BitVec 32) (targetLen : Nat) : List Byte :=
  if utf32Char ≤ 0x7F then
    if 1 ≤ targetLen then [toByte utf32Char] else []
  else if utf32Char ≤ 0x7FF then
    if 2 ≤ targetLen then
      [toByte (0xC0#32 ||| (utf32Char >>> 6)), toByte (0x80#32 ||| (utf32Char &&& 0x3F))]
    else []
  else if utf32Char ≤ 0xFFFF then
    if 3 ≤ targetLen then
      [toByte (0xE0#32 ||| (utf32Char >>> 12)), toByte (0x80#32 ||| ((utf32Char >>> 6) &&& 0x1F)),
        toByte (0x80#32 ||| (utf32Char &&& 0x3F))]
    else []
  else if utf32Char ≤ 0x10FFFF then
    if 4 ≤ targetLen then
      [toByte (0xF0#32 ||| (utf32Char >>> 18)), toByte (0x80#32 ||| ((utf32Char >>> 12) &&& 0x3F)),
        toByte (0x80#32 ||| ((utf32Char >>> 6) &&& 0x3F)), toByte (0x80#32 ||| (utf32Char &&& 0x3F))]
    else []
  else if 1 ≤ targetLen then [toByte (utf32Char &&& 0xFF)] else []

/-- `utf32_to_utf8`, into four bytes. -/
def utf32ToUtf8 (uc : BitVec 32) : List Byte :=
  if uc ≤ 0x7F then [toByte uc]
  else if uc ≤ 0x7FF then [toByte ((uc >>> 6) ||| 0xC0#32), toByte ((uc &&& 0x3F) ||| 0x80#32)]
  else if uc ≤ 0xFFFF then
    [toByte ((uc >>> 12) ||| 0xE0#32), toByte (((uc >>> 6) &&& 0x3F) ||| 0x80#32),
      toByte ((uc &&& 0x3F) ||| 0x80#32)]
  else if uc ≤ 0x10FFFF then
    [toByte ((uc >>> 18) ||| 0xF0#32), toByte (((uc >>> 12) &&& 0x3F) ||| 0x80#32),
      toByte (((uc >>> 6) &&& 0x3F) ||| 0x80#32), toByte ((uc &&& 0x3F) ||| 0x80#32)]
  else []

/-- What the functions are called with: `utf8_char_1byte` to `utf8_char_truncated`. -/
inductive Utf8Char where
  | oneByte (a : Byte)
  | twoBytes (a b : Byte)
  | threeBytes (a b c : Byte)
  | fourBytes (a b c d : Byte)
  | invalid (data : List Byte)
  | truncated (data : List Byte)
  deriving DecidableEq, Repr

namespace Utf8Char

/-- `unicode`, with `utf8_2_bytes_to_ucs` and its like. -/
def unicode : Utf8Char → BitVec 32
  | oneByte a => a.setWidth 32
  | twoBytes a b => ((a.setWidth 32 &&& 0x1F) <<< 6) ||| (b.setWidth 32 &&& 0x3F)
  | threeBytes a b c =>
    ((a.setWidth 32 &&& 0x0F) <<< 12) ||| ((b.setWidth 32 &&& 0x3F) <<< 6) |||
      (c.setWidth 32 &&& 0x3F)
  | fourBytes a b c d =>
    ((a.setWidth 32 &&& 0x07) <<< 18) ||| ((b.setWidth 32 &&& 0x3F) <<< 12) |||
      ((c.setWidth 32 &&& 0x3F) <<< 6) ||| (d.setWidth 32 &&& 0x3F)
  | invalid _ => 0xFFFD
  | truncated _ => 0xFFFD

/-- A character, neither invalid nor truncated. -/
def isWhole : Utf8Char → Prop
  | invalid _ => False
  | truncated _ => False
  | _ => True

end Utf8Char

/-- `utf8_for_each` with functions that do not stop it: what they are called with, and the bytes
that are not read. -/
def utf8ForEach : List Byte → List Utf8Char × List Byte
  | [] => ([], [])
  | a :: source =>
    if a ≤ 0x7F#8 then
      let (chars, unread) := utf8ForEach source
      (.oneByte a :: chars, unread)
    else if a ≤ 0xDF#8 then
      if a ≤ 0xBF#8 then
        let (chars, unread) := utf8ForEach source
        (.invalid (a :: source) :: chars, unread)
      else match source with
        | b :: source =>
          let (chars, unread) := utf8ForEach source
          (.twoBytes a b :: chars, unread)
        | source => ([.truncated (a :: source)], a :: source)
    else if a ≤ 0xEF#8 then
      match source with
      | b :: c :: source =>
        let (chars, unread) := utf8ForEach source
        (.threeBytes a b c :: chars, unread)
      | source => ([.truncated (a :: source)], a :: source)
    else
      match source with
      | b :: c :: d :: source =>
        let (chars, unread) := utf8ForEach source
        (.fourBytes a b c d :: chars, unread)
      | source => ([.truncated (a :: source)], a :: source)

section Bits

theorem toByte_mark (width high : Nat) {value mark : BitVec 32} (below : value.toNat < 2 ^ width)
    (above : mark.toNat = 2 ^ width * high) (fits : mark.toNat + 2 ^ width ≤ 2 ^ 8) :
    (toByte (value ||| mark)).toNat = mark.toNat + value.toNat := by
  rw [toByte, BitVec.toNat_setWidth, BitVec.toNat_or, Nat.or_comm, above,
    ← Nat.two_pow_add_eq_or_of_lt below, ← above]
  exact Nat.mod_eq_of_lt (by omega)

theorem toNat_field (width : Nat) {value mask : BitVec 32} (ones : mask.toNat = 2 ^ width - 1) :
    (value &&& mask).toNat = value.toNat % 2 ^ width := by
  rw [BitVec.toNat_and, ones, Nat.and_two_pow_sub_one_eq_mod]

theorem toNat_skip (value : BitVec 32) (skip : Nat) :
    (value >>> skip).toNat = value.toNat / 2 ^ skip := by
  rw [BitVec.toNat_ushiftRight, Nat.shiftRight_eq_div_pow]

theorem toNat_low (width : Nat) (byte : Byte) {mask : BitVec 32} (ones : mask.toNat = 2 ^ width - 1) :
    (byte.setWidth 32 &&& mask).toNat = byte.toNat % 2 ^ width := by
  rw [toNat_field width ones, BitVec.toNat_setWidth,
    Nat.mod_eq_of_lt (by omega : byte.toNat < 2 ^ 32)]

theorem toNat_above (width : Nat) {high low : BitVec 32} (below : low.toNat < 2 ^ width)
    (fits : high.toNat * 2 ^ width < 2 ^ 32) :
    ((high <<< width) ||| low).toNat = high.toNat * 2 ^ width + low.toNat := by
  rw [BitVec.toNat_or, BitVec.toNat_shiftLeft, Nat.shiftLeft_eq, Nat.mod_eq_of_lt fits, Nat.mul_comm,
    Nat.two_pow_add_eq_or_of_lt below]

end Bits

section Sequences

variable {uc : BitVec 32}

theorem toNat_continuation (value : BitVec 32) :
    (toByte ((value &&& 0x3F) ||| 0x80#32)).toNat = 128 + value.toNat % 64 := by
  have field : (value &&& 0x3F).toNat = value.toNat % 2 ^ 6 := toNat_field 6 rfl
  rw [toByte_mark 6 2 (by omega) rfl (by decide), field]
  rfl

theorem toNat_lead (skip width high : Nat) (mark : BitVec 32) (small : uc.toNat < 2 ^ (skip + width))
    (above : mark.toNat = 2 ^ width * high) (fits : mark.toNat + 2 ^ width ≤ 2 ^ 8) :
    (toByte ((uc >>> skip) ||| mark)).toNat = mark.toNat + uc.toNat / 2 ^ skip := by
  rw [Nat.pow_add] at small
  have field : (uc >>> skip).toNat < 2 ^ width := by
    rw [toNat_skip]
    exact Nat.div_lt_of_lt_mul small
  rw [toByte_mark width high field above fits, toNat_skip]

theorem unicode_twoBytes (a b : Byte) :
    (Utf8Char.twoBytes a b).unicode.toNat = a.toNat % 32 * 64 + b.toNat % 64 := by
  have high : (a.setWidth 32 &&& 0x1F).toNat = a.toNat % 2 ^ 5 := toNat_low 5 a rfl
  have low : (b.setWidth 32 &&& 0x3F).toNat = b.toNat % 2 ^ 6 := toNat_low 6 b rfl
  rw [Utf8Char.unicode, toNat_above 6 (by omega) (by omega)]
  omega

theorem unicode_threeBytes (a b c : Byte) :
    (Utf8Char.threeBytes a b c).unicode.toNat =
      a.toNat % 16 * 4096 + b.toNat % 64 * 64 + c.toNat % 64 := by
  have high : (a.setWidth 32 &&& 0x0F).toNat = a.toNat % 2 ^ 4 := toNat_low 4 a rfl
  have middle : (b.setWidth 32 &&& 0x3F).toNat = b.toNat % 2 ^ 6 := toNat_low 6 b rfl
  have low : (c.setWidth 32 &&& 0x3F).toNat = c.toNat % 2 ^ 6 := toNat_low 6 c rfl
  have back : (((b.setWidth 32 &&& 0x3F) <<< 6) ||| (c.setWidth 32 &&& 0x3F) : BitVec 32).toNat =
      _ := toNat_above 6 (by omega) (by omega)
  rw [Utf8Char.unicode, BitVec.or_assoc, toNat_above 12 (by omega) (by omega), back]
  omega

theorem unicode_fourBytes (a b c d : Byte) :
    (Utf8Char.fourBytes a b c d).unicode.toNat =
      a.toNat % 8 * 262144 + b.toNat % 64 * 4096 + c.toNat % 64 * 64 + d.toNat % 64 := by
  have high : (a.setWidth 32 &&& 0x07).toNat = a.toNat % 2 ^ 3 := toNat_low 3 a rfl
  have second : (b.setWidth 32 &&& 0x3F).toNat = b.toNat % 2 ^ 6 := toNat_low 6 b rfl
  have third : (c.setWidth 32 &&& 0x3F).toNat = c.toNat % 2 ^ 6 := toNat_low 6 c rfl
  have low : (d.setWidth 32 &&& 0x3F).toNat = d.toNat % 2 ^ 6 := toNat_low 6 d rfl
  have back : (((c.setWidth 32 &&& 0x3F) <<< 6) ||| (d.setWidth 32 &&& 0x3F) : BitVec 32).toNat =
      _ := toNat_above 6 (by omega) (by omega)
  have middle : (((b.setWidth 32 &&& 0x3F) <<< 12) |||
      (((c.setWidth 32 &&& 0x3F) <<< 6) ||| (d.setWidth 32 &&& 0x3F)) : BitVec 32).toNat = _ :=
    toNat_above 12 (by omega) (by omega)
  rw [Utf8Char.unicode, BitVec.or_assoc, BitVec.or_assoc, toNat_above 18 (by omega) (by omega),
    middle, back]
  omega

theorem toNat_le {width bound : Nat} {value : BitVec width} (small : bound < 2 ^ width) :
    value ≤ BitVec.ofNat width bound ↔ value.toNat ≤ bound := by
  rw [BitVec.le_def, BitVec.toNat_ofNat, Nat.mod_eq_of_lt small]

theorem utf8ForEach_oneByte {a : Byte} (rest : List Byte) (high : a.toNat ≤ 0x7F) :
    utf8ForEach (a :: rest) = (.oneByte a :: (utf8ForEach rest).1, (utf8ForEach rest).2) := by
  rw [utf8ForEach.eq_def]
  exact if_pos ((toNat_le (by decide)).mpr high)

theorem utf8ForEach_twoBytes {a b : Byte} (rest : List Byte) (low : 0xC0 ≤ a.toNat)
    (high : a.toNat ≤ 0xDF) :
    utf8ForEach (a :: b :: rest) =
      (.twoBytes a b :: (utf8ForEach rest).1, (utf8ForEach rest).2) := by
  have notOne : ¬a ≤ 0x7F#8 := by rw [toNat_le (by decide)]; omega
  have notInvalid : ¬a ≤ 0xBF#8 := by rw [toNat_le (by decide)]; omega
  rw [utf8ForEach, if_neg notOne, if_pos ((toNat_le (by decide)).mpr high), if_neg notInvalid]

theorem utf8ForEach_threeBytes {a b c : Byte} (rest : List Byte) (low : 0xE0 ≤ a.toNat)
    (high : a.toNat ≤ 0xEF) :
    utf8ForEach (a :: b :: c :: rest) =
      (.threeBytes a b c :: (utf8ForEach rest).1, (utf8ForEach rest).2) := by
  have notOne : ¬a ≤ 0x7F#8 := by rw [toNat_le (by decide)]; omega
  have notTwo : ¬a ≤ 0xDF#8 := by rw [toNat_le (by decide)]; omega
  rw [utf8ForEach, if_neg notOne, if_neg notTwo, if_pos ((toNat_le (by decide)).mpr high)]

theorem utf8ForEach_fourBytes {a b c d : Byte} (rest : List Byte) (low : 0xF0 ≤ a.toNat) :
    utf8ForEach (a :: b :: c :: d :: rest) =
      (.fourBytes a b c d :: (utf8ForEach rest).1, (utf8ForEach rest).2) := by
  have notOne : ¬a ≤ 0x7F#8 := by rw [toNat_le (by decide)]; omega
  have notTwo : ¬a ≤ 0xDF#8 := by rw [toNat_le (by decide)]; omega
  have notThree : ¬a ≤ 0xEF#8 := by rw [toNat_le (by decide)]; omega
  rw [utf8ForEach, if_neg notOne, if_neg notTwo, if_neg notThree]

theorem utf8ForEach_utf32ToUtf8 (largest : uc.toNat ≤ 0x10FFFF) (rest : List Byte) :
    ∃ char : Utf8Char, char.isWhole ∧ char.unicode = uc ∧
      utf8ForEach (utf32ToUtf8 uc ++ rest) =
        (char :: (utf8ForEach rest).1, (utf8ForEach rest).2) := by
  have last := toNat_continuation uc
  rw [utf32ToUtf8]
  split_ifs with one two three four
  · have small : uc.toNat ≤ 0x7F := (toNat_le (by decide)).mp one
    have same : (toByte uc).toNat = uc.toNat := by
      rw [toByte, BitVec.toNat_setWidth]
      omega
    refine ⟨.oneByte (toByte uc), trivial, ?_, ?_⟩
    · apply BitVec.eq_of_toNat_eq
      rw [Utf8Char.unicode, BitVec.toNat_setWidth, same]
      omega
    · exact utf8ForEach_oneByte rest (by omega)
  · have small : uc.toNat ≤ 0x7FF := (toNat_le (by decide)).mp two
    have lead := toNat_lead 6 5 6 0xC0#32 (by omega : uc.toNat < 2 ^ (6 + 5)) rfl (by decide)
    change _ = 0xC0 + uc.toNat / 64 at lead
    refine ⟨.twoBytes _ _, trivial, ?_, utf8ForEach_twoBytes rest (by omega) (by omega)⟩
    apply BitVec.eq_of_toNat_eq
    rw [unicode_twoBytes, lead, last]
    omega
  · have small : uc.toNat ≤ 0xFFFF := (toNat_le (by decide)).mp three
    have lead := toNat_lead 12 4 14 0xE0#32 (by omega : uc.toNat < 2 ^ (12 + 4)) rfl
      (by decide)
    have middle := toNat_continuation (uc >>> 6)
    rw [toNat_skip] at middle
    change _ = 0xE0 + uc.toNat / 4096 at lead
    refine ⟨.threeBytes _ _ _, trivial, ?_, utf8ForEach_threeBytes rest (by omega) (by omega)⟩
    apply BitVec.eq_of_toNat_eq
    rw [unicode_threeBytes, lead, middle, last]
    omega
  · have lead := toNat_lead 18 3 30 0xF0#32 (by omega : uc.toNat < 2 ^ (18 + 3)) rfl
      (by decide)
    have second := toNat_continuation (uc >>> 12)
    have third := toNat_continuation (uc >>> 6)
    rw [toNat_skip] at second third
    change _ = 0xF0 + uc.toNat / 262144 at lead
    refine ⟨.fourBytes _ _ _ _, trivial, ?_, utf8ForEach_fourBytes rest (by omega)⟩
    apply BitVec.eq_of_toNat_eq
    rw [unicode_fourBytes, lead, second, third, last]
    omega
  · exact absurd ((toNat_le (by decide)).mpr largest) four

theorem utf8ForEach_flatMap {chars : List (BitVec 32)}
    (codePoints : ∀ char ∈ chars, char.toNat ≤ 0x10FFFF) :
    (utf8ForEach (chars.flatMap utf32ToUtf8)).1.map Utf8Char.unicode = chars ∧
      (∀ char ∈ (utf8ForEach (chars.flatMap utf32ToUtf8)).1, char.isWhole) ∧
      (utf8ForEach (chars.flatMap utf32ToUtf8)).2 = [] := by
  induction chars with
  | nil => simp [utf8ForEach]
  | cons uc chars ih =>
    obtain ⟨largest, codePoints⟩ := List.forall_mem_cons.mp codePoints
    obtain ⟨read, whole, unread⟩ := ih codePoints
    obtain ⟨char, isWhole, same, run⟩ :=
      utf8ForEach_utf32ToUtf8 largest (chars.flatMap utf32ToUtf8)
    rw [List.flatMap_cons, run]
    refine ⟨?_, ?_, unread⟩
    · rw [List.map_cons, same, read]
    · exact List.forall_mem_cons.mpr ⟨isWhole, whole⟩

end Sequences

section Agreement

variable {uc : BitVec 32} {room : Nat}

/-- The mask of the middle byte loses nothing. -/
def MiddleFits (uc : BitVec 32) : Prop :=
  uc.toNat < 0x800 ∨ 0xFFFF < uc.toNat ∨ uc.getLsbD 11 = false

theorem middle_eq_iff :
    toByte (((uc >>> 6) &&& 0x1F) ||| 0x80#32) = toByte (((uc >>> 6) &&& 0x3F) ||| 0x80#32) ↔
      uc.getLsbD 11 = false := by
  have field : ((uc >>> 6) &&& 0x1F).toNat = (uc >>> 6).toNat % 2 ^ 5 := toNat_field 5 rfl
  have narrow : (toByte (((uc >>> 6) &&& 0x1F) ||| 0x80#32)).toNat = 128 + _ :=
    toByte_mark 5 4 (by omega) rfl (by decide)
  have wide := toNat_continuation (uc >>> 6)
  have skip := toNat_skip uc 6
  rw [← BitVec.toNat_inj, narrow, wide, BitVec.getLsbD, Nat.testBit_eq_decide_div_mod_eq,
    decide_eq_false_iff_not, field, skip]
  omega

theorem Legacy.utf32ToUtf8_eq_iff (largest : uc.toNat ≤ 0x10FFFF)
    (enough : (Utf.utf32ToUtf8 uc).length ≤ room) :
    Legacy.utf32ToUtf8 uc room = Utf.utf32ToUtf8 uc ↔ MiddleFits uc := by
  rw [Utf.utf32ToUtf8] at enough
  rw [Legacy.utf32ToUtf8, Utf.utf32ToUtf8, MiddleFits]
  by_cases one : uc ≤ 0x7F
  · have small : uc.toNat ≤ 0x7F := (toNat_le (by decide)).mp one
    rw [if_pos one] at enough
    change 1 ≤ room at enough
    rw [if_pos one, if_pos one, if_pos enough]
    exact iff_of_true rfl (Or.inl (by omega))
  rw [if_neg one] at enough
  rw [if_neg one, if_neg one]
  by_cases two : uc ≤ 0x7FF
  · have small : uc.toNat ≤ 0x7FF := (toNat_le (by decide)).mp two
    rw [if_pos two] at enough
    change 2 ≤ room at enough
    rw [if_pos two, if_pos two, if_pos enough, BitVec.or_comm 0xC0#32, BitVec.or_comm 0x80#32]
    exact iff_of_true rfl (Or.inl (by omega))
  have large : ¬uc.toNat ≤ 0x7FF := mt (toNat_le (by decide)).mpr two
  rw [if_neg two] at enough
  rw [if_neg two, if_neg two]
  by_cases three : uc ≤ 0xFFFF
  · have small : uc.toNat ≤ 0xFFFF := (toNat_le (by decide)).mp three
    rw [if_pos three] at enough
    change 3 ≤ room at enough
    rw [if_pos three, if_pos three, if_pos enough, BitVec.or_comm 0xE0#32,
      BitVec.or_comm 0x80#32 ((uc >>> 6) &&& 0x1F), BitVec.or_comm 0x80#32 (uc &&& 0x3F)]
    simp only [List.cons.injEq, true_and, and_true]
    rw [middle_eq_iff]
    constructor
    · intro fits
      exact Or.inr (Or.inr fits)
    · rintro (below | above | fits)
      · omega
      · omega
      · exact fits
  have above : ¬uc.toNat ≤ 0xFFFF := mt (toNat_le (by decide)).mpr three
  have four : uc ≤ 0x10FFFF := (toNat_le (by decide)).mpr largest
  rw [if_neg three, if_pos four] at enough
  change 4 ≤ room at enough
  rw [if_neg three, if_neg three, if_pos four, if_pos four, if_pos enough, BitVec.or_comm 0xF0#32,
    BitVec.or_comm 0x80#32 ((uc >>> 12) &&& 0x3F), BitVec.or_comm 0x80#32 ((uc >>> 6) &&& 0x3F),
    BitVec.or_comm 0x80#32 (uc &&& 0x3F)]
  exact iff_of_true rfl (Or.inr (Or.inl (by omega)))

/-- The encoders agree, and what they write is read back, when every middle byte fits. -/
theorem utf32_utf8_inverse_iff {chars : List (BitVec 32)} {room : Nat}
    (codePoints : ∀ char ∈ chars, 1 ≤ char.toNat ∧ char.toNat ≤ 0x10FFFF)
    (enough : ∀ char ∈ chars, (Utf.utf32ToUtf8 char).length ≤ room) :
    ((∀ char ∈ chars, Legacy.utf32ToUtf8 char room = Utf.utf32ToUtf8 char) ∧
      ∃ read : List Utf8Char,
        utf8ForEach (chars.flatMap fun char => Legacy.utf32ToUtf8 char room) = (read, []) ∧
          read.map Utf8Char.unicode = chars ∧ ∀ char ∈ read, char.isWhole) ↔
      ∀ char ∈ chars, MiddleFits char := by
  have largest : ∀ char ∈ chars, char.toNat ≤ 0x10FFFF := fun char here => (codePoints char here).2
  constructor
  · rintro ⟨agree, _⟩ char here
    exact (Legacy.utf32ToUtf8_eq_iff (largest char here) (enough char here)).mp (agree char here)
  · intro fits
    have agree : ∀ char ∈ chars, Legacy.utf32ToUtf8 char room = Utf.utf32ToUtf8 char := by
      intro char here
      exact (Legacy.utf32ToUtf8_eq_iff (largest char here) (enough char here)).mpr (fits char here)
    obtain ⟨read, whole, unread⟩ := utf8ForEach_flatMap largest
    refine ⟨agree, (utf8ForEach (chars.flatMap Utf.utf32ToUtf8)).1, ?_, read, whole⟩
    rw [List.flatMap_congr agree]
    exact Prod.ext rfl unread

/-- One character of each length. -/
theorem utf32_utf8_inverse_each :
    (∀ char ∈ [0x41, 0xE9, 0x20AC, 0x1F600],
        Legacy.utf32ToUtf8 char 4 = Utf.utf32ToUtf8 char) ∧
      ∃ read : List Utf8Char,
        utf8ForEach ([0x41, 0xE9, 0x20AC, 0x1F600].flatMap fun char => Legacy.utf32ToUtf8 char 4) =
            (read, []) ∧
          read.map Utf8Char.unicode = [0x41, 0xE9, 0x20AC, 0x1F600] ∧
            ∀ char ∈ read, char.isWhole :=
  (@utf32_utf8_inverse_iff [0x41, 0xE9, 0x20AC, 0x1F600] 4 (by simp) (by simp [utf32ToUtf8])).mpr
    (by simp [MiddleFits])

/-- U+4E2D is written as U+462D. -/
theorem Legacy.utf32ToUtf8_loses_bit :
    Legacy.utf32ToUtf8 0x4E2D 4 ≠ Utf.utf32ToUtf8 0x4E2D ∧
      utf8ForEach (Legacy.utf32ToUtf8 0x4E2D 4) = ([.threeBytes 0xE4 0x98 0xAD], []) ∧
        (Utf8Char.threeBytes 0xE4 0x98 0xAD).unicode = 0x462D := by
  decide

end Agreement

end Redemption.Utf
