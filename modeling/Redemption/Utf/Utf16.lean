import Redemption.Utf.EncodeSpec

/-! The clipboard's conversion of UTF-8, against the definition of both encodings. -/
namespace Redemption.Utf

open Redemption.Foundation

def utf8 (char : Char) : List Byte := (String.utf8EncodeChar char).map UInt8.toBitVec

/-- The code units of a character: itself, or a high surrogate before a low surrogate. -/
def codeUnits (char : Char) : List Nat :=
  if char.toNat ≤ 0xFFFF then [char.toNat]
  else [0xD800 + (char.toNat - 0x10000) / 0x400, 0xDC00 + (char.toNat - 0x10000) % 0x400]

/-- The bytes of the code units, the low byte first. -/
def utf16le (char : Char) : List Byte := (codeUnits char).flatMap (leBytes 2)

/-- A character as it is written on the other side, where lines end with two. -/
def lfToCrlf (char : Char) : List Char := if char = '\n' then ['\r', '\n'] else [char]

section Bytes

private theorem toNat_shiftLeft_or (high low : Byte) (width : Nat) (fits : width ≤ 8) :
    ((high <<< width) ||| (low &&& BitVec.ofNat 8 (2 ^ width - 1))).toNat =
      high.toNat % 2 ^ (8 - width) * 2 ^ width + low.toNat % 2 ^ width := by
  have power : 2 ^ 8 = 2 ^ width * 2 ^ (8 - width) := by
    rw [← Nat.pow_add, Nat.add_sub_cancel' fits]
  have le : 2 ^ width ≤ 2 ^ 8 := Nat.pow_le_pow_right (by decide) fits
  have positive := Nat.two_pow_pos width
  have mask : (2 ^ width - 1) % 2 ^ 8 = 2 ^ width - 1 := Nat.mod_eq_of_lt (by omega)
  rw [BitVec.toNat_or, BitVec.toNat_shiftLeft, BitVec.toNat_and, BitVec.toNat_ofNat, mask,
    Nat.and_two_pow_sub_one_eq_mod, Nat.shiftLeft_eq, power, Nat.mul_comm high.toNat,
    Nat.mul_mod_mul_left, Nat.mul_comm _ (2 ^ width),
    Nat.two_pow_add_eq_or_of_lt (Nat.mod_lt _ positive)]

private theorem toNat_ushiftRight_and (byte : Byte) (skip width : Nat) (fits : width ≤ 8) :
    ((byte >>> skip) &&& BitVec.ofNat 8 (2 ^ width - 1)).toNat =
      byte.toNat / 2 ^ skip % 2 ^ width := by
  have le : 2 ^ width ≤ 2 ^ 8 := Nat.pow_le_pow_right (by decide) fits
  have mask : (2 ^ width - 1) % 2 ^ 8 = 2 ^ width - 1 := Nat.mod_eq_of_lt (by omega)
  rw [BitVec.toNat_and, BitVec.toNat_ushiftRight, BitVec.toNat_ofNat, mask,
    Nat.and_two_pow_sub_one_eq_mod, Nat.shiftRight_eq_div_pow]

private theorem leBytes_two {low high : Byte} {value : Nat} (lowSame : low.toNat = value % 2 ^ 8)
    (highSame : high.toNat = value / 2 ^ 8 % 2 ^ 8) : [low, high] = leBytes 2 value := by
  have first : low = BitVec.ofNat 8 value := BitVec.eq_of_toNat_eq lowSame
  have second : high = BitVec.ofNat 8 (value / 2 ^ 8) := BitVec.eq_of_toNat_eq highSame
  rw [first, second]
  rfl

theorem utf8TwoBytesToUtf16le_eq {a b : Byte} {value : Nat} (small : value ≤ 0x7FF)
    (first : a.toNat = value / 64 % 0x20 + 0xC0) (second : b.toNat = value % 64 + 0x80) :
    utf8TwoBytesToUtf16le a b = leBytes 2 value := by
  have low := toNat_shiftLeft_or a b 6 (by decide)
  have high := toNat_ushiftRight_and a 2 3 (by decide)
  exact leBytes_two (low.trans (by omega)) (high.trans (by omega))

theorem utf8ThreeBytesToUtf16le_eq {a b c : Byte} {value : Nat}
    (first : a.toNat = value / 4096 % 0x10 + 0xE0)
    (second : b.toNat = value / 64 % 64 + 0x80) (third : c.toNat = value % 64 + 0x80) :
    utf8ThreeBytesToUtf16le a b c = leBytes 2 value := by
  have low := toNat_shiftLeft_or b c 6 (by decide)
  have high := toNat_shiftLeft_or a (b >>> 2) 4 (by decide)
  rw [BitVec.toNat_ushiftRight, Nat.shiftRight_eq_div_pow] at high
  exact leBytes_two (low.trans (by omega)) (high.trans (by omega))

theorem shift4 {a value : Byte} (same : a.toNat / 16 = value.toNat) : a >>> 4 = value := by
  apply BitVec.eq_of_toNat_eq
  rw [BitVec.toNat_ushiftRight, Nat.shiftRight_eq_div_pow]
  exact same

theorem shift4_ne {a value : Byte} (other : a.toNat / 16 ≠ value.toNat) :
    a >>> 4 ≠ value := by
  rintro rfl
  rw [BitVec.toNat_ushiftRight, Nat.shiftRight_eq_div_pow] at other
  exact other rfl

theorem copyAndAdvance1na_two {a : Byte} (b : Byte) (rest : List Byte) (lead : a.toNat / 32 = 6) :
    utf8ToUtf16.copyAndAdvance1na (a :: b :: rest) = some (rest, utf8TwoBytesToUtf16le a b) := by
  have two : a >>> 4 = 0xC ∨ a >>> 4 = 0xD := by
    rcases (by omega : a.toNat / 16 = 0xC ∨ a.toNat / 16 = 0xD) with even | odd
    · exact .inl (shift4 even)
    · exact .inr (shift4 odd)
  exact if_pos two

theorem copyAndAdvance1na_three {a : Byte} (b c : Byte) (rest : List Byte)
    (lead : a.toNat / 16 = 0xE) :
    utf8ToUtf16.copyAndAdvance1na (a :: b :: c :: rest) =
      some (rest, utf8ThreeBytesToUtf16le a b c) := by
  have two : ¬(a >>> 4 = 0xC ∨ a >>> 4 = 0xD) := by
    rintro (even | odd)
    · exact shift4_ne (by rw [lead]; decide) even
    · exact shift4_ne (by rw [lead]; decide) odd
  exact (if_neg two).trans (if_pos (shift4 lead))

theorem copyAndAdvance1na_four {a : Byte} (b c d : Byte) (rest : List Byte)
    (lead : a.toNat / 16 = 0xF) :
    utf8ToUtf16.copyAndAdvance1na (a :: b :: c :: d :: rest) =
      some (rest, utf8FourBytesToUtf16le a b c d) := by
  have two : ¬(a >>> 4 = 0xC ∨ a >>> 4 = 0xD) := by
    rintro (even | odd)
    · exact shift4_ne (by rw [lead]; decide) even
    · exact shift4_ne (by rw [lead]; decide) odd
  have three : ¬ a >>> 4 = 0xE := shift4_ne (by rw [lead]; decide)
  exact (if_neg two).trans ((if_neg three).trans (if_pos (shift4 lead)))

/-- The second byte of a low surrogate is not that of a high surrogate. -/
theorem low_surrogate_first {a b c d : Byte} {value : Nat} (plane : value ≤ 0x10FFFF)
    (high : 0xFFFF < value) (rest : List Byte) :
    utf8FourBytesToUtf16le a b c d ≠ leBytes 2 (0xD800 + (value - 0x10000) / 0x400) ++ rest := by
  intro same
  have second : 0xDC ||| ((c >>> 2) &&& 0x2) =
      BitVec.ofNat 8 ((0xD800 + (value - 0x10000) / 0x400) / 2 ^ 8) := by
    have tails := congrArg (fun bytes => bytes.tail.head?) same
    exact Option.some.inj tails
  have least : 0xDC ≤ (0xDC ||| ((c >>> 2) &&& 0x2) : Byte).toNat := by
    rw [BitVec.toNat_or]
    exact Nat.left_le_or
  rw [second, BitVec.toNat_ofNat] at least
  omega

end Bytes

variable {char : Char}

/-- The bytes of an ASCII character, and of characters with longer sequences. -/
theorem utf8_one (low : char.toNat ≤ 0x7F) :
    utf8 char = [BitVec.ofNat 8 char.toNat] := by
  have bytes : String.utf8EncodeChar char = [UInt8.ofNat char.toNat] := if_pos low
  rw [utf8, bytes]
  rfl

theorem utf8_two (low : 0x7F < char.toNat) (high : char.toNat ≤ 0x7FF) :
    ∃ a b : Byte, utf8 char = [a, b] ∧ a.toNat = char.toNat / 64 % 0x20 + 0xC0 ∧
      b.toNat = char.toNat % 64 + 0x80 := by
  have bytes : String.utf8EncodeChar char = [UInt8.ofNat (char.toNat / 64 % 0x20 + 0xC0),
      UInt8.ofNat (char.toNat % 64 + 0x80)] :=
    (if_neg (Nat.not_le.mpr low)).trans (if_pos high)
  refine ⟨_, _, by rw [utf8, bytes]; rfl, ?_, ?_⟩
  · exact Nat.mod_eq_of_lt (by omega)
  · exact Nat.mod_eq_of_lt (by omega)

theorem utf8_three (low : 0x7FF < char.toNat) (high : char.toNat ≤ 0xFFFF) :
    ∃ a b c : Byte, utf8 char = [a, b, c] ∧ a.toNat = char.toNat / 4096 % 0x10 + 0xE0 ∧
      b.toNat = char.toNat / 64 % 64 + 0x80 ∧ c.toNat = char.toNat % 64 + 0x80 := by
  have bytes : String.utf8EncodeChar char = [UInt8.ofNat (char.toNat / 4096 % 0x10 + 0xE0),
      UInt8.ofNat (char.toNat / 64 % 64 + 0x80), UInt8.ofNat (char.toNat % 64 + 0x80)] :=
    (if_neg (by change ¬ char.toNat ≤ _; omega)).trans
      ((if_neg (Nat.not_le.mpr low)).trans (if_pos high))
  refine ⟨_, _, _, by rw [utf8, bytes]; rfl, ?_, ?_, ?_⟩
  · exact Nat.mod_eq_of_lt (by omega)
  · exact Nat.mod_eq_of_lt (by omega)
  · exact Nat.mod_eq_of_lt (by omega)

theorem utf8_four (high : 0xFFFF < char.toNat) :
    ∃ a b c d : Byte, utf8 char = [a, b, c, d] ∧ a.toNat = char.toNat / 262144 % 0x08 + 0xF0 := by
  have bytes : String.utf8EncodeChar char = [UInt8.ofNat (char.toNat / 262144 % 0x08 + 0xF0),
      UInt8.ofNat (char.toNat / 4096 % 64 + 0x80), UInt8.ofNat (char.toNat / 64 % 64 + 0x80),
      UInt8.ofNat (char.toNat % 64 + 0x80)] :=
    (if_neg (by change ¬ char.toNat ≤ _; omega)).trans
      ((if_neg (by change ¬ char.toNat ≤ _; omega)).trans (if_neg (Nat.not_le.mpr high)))
  refine ⟨_, _, _, _, by rw [utf8, bytes]; rfl, ?_⟩
  exact Nat.mod_eq_of_lt (by omega)

theorem utf16le_one (low : char.toNat ≤ 0xFFFF) :
    utf16le char = leBytes 2 char.toNat := by
  rw [utf16le, codeUnits, if_pos low, List.flatMap_singleton]

theorem lfToCrlf_other (other : char ≠ '\n') :
    (lfToCrlf char).flatMap utf16le = utf16le char := by
  rw [lfToCrlf, if_neg other, List.flatMap_singleton]

theorem length_utf16le_four (high : 0xFFFF < char.toNat) :
    (utf16le char).length = 4 := by
  simp [utf16le, codeUnits, Nat.not_le.mpr high]

/-- What is put out for a character, whatever is behind it: as many bytes as there should be, and
the right ones exactly if it has a single code unit. -/
def Gives (char : Char) (units : List Byte) : Prop :=
  (∀ input output, Converts utf8ToUtf16 utf16leCrlf input output →
    Converts utf8ToUtf16 utf16leCrlf (utf8 char ++ input) (units ++ output)) ∧
  units.length = ((lfToCrlf char).flatMap utf16le).length ∧
  (units = (lfToCrlf char).flatMap utf16le ↔ char.toNat ≤ 0xFFFF)

private theorem unit_of_sequence {lead : Byte} {tail : List Byte}
    (other : char ≠ '\n') (low : char.toNat ≤ 0xFFFF) (bytes : utf8 char = lead :: tail)
    (high : ¬ lead < 0x80#8)
    (copied : ∀ rest, utf8ToUtf16.copyAndAdvance1na (lead :: tail ++ rest) =
      some (rest, leBytes 2 char.toNat)) : Gives char (leBytes 2 char.toNat) := by
  rw [Gives, lfToCrlf_other other, utf16le_one low, bytes]
  exact ⟨fun input _ rest => .sequence high (copied input) rest, rfl, iff_of_true rfl low⟩

theorem unit_one (low : char.toNat ≤ 0x7F) :
    Gives char (written utf8ToUtf16 utf16leCrlf (BitVec.ofNat 8 char.toNat)) := by
  have ascii : BitVec.ofNat 8 char.toNat < 0x80#8 := by
    rw [BitVec.lt_def, BitVec.toNat_ofNat]
    change _ < 0x80
    omega
  have same : written utf8ToUtf16 utf16leCrlf (BitVec.ofNat 8 char.toNat) =
      (lfToCrlf char).flatMap utf16le := by
    by_cases lf : char = '\n'
    · subst lf
      decide
    · have other : BitVec.ofNat 8 char.toNat ≠ 0x0A := by
        intro equal
        have value := congrArg BitVec.toNat equal
        rw [BitVec.toNat_ofNat, Nat.mod_eq_of_lt (by omega)] at value
        exact lf (Char.toNat_inj.mp value)
      rw [lfToCrlf_other lf, utf16le_one (by omega), written, if_neg fun both => other both.2]
      refine leBytes_two ?_ ?_
      · exact BitVec.toNat_ofNat _ 8
      · change 0 = _
        omega
  rw [Gives, utf8_one low, ← same]
  exact ⟨fun _ _ rest => .ascii ascii rest, rfl, iff_of_true rfl (by omega)⟩

theorem unit_two (low : 0x7F < char.toNat) (high : char.toNat ≤ 0x7FF) :
    Gives char (leBytes 2 char.toNat) := by
  have other : char ≠ '\n' := by
    rintro rfl
    exact absurd low (by decide)
  obtain ⟨a, b, bytes, first, second⟩ := utf8_two low high
  refine unit_of_sequence other (by omega) bytes ?_ fun rest => ?_
  · rw [BitVec.lt_def, first]
    change ¬ _ < 0x80
    omega
  · have copied := copyAndAdvance1na_two (a := a) b rest (by rw [first]; omega)
    rwa [utf8TwoBytesToUtf16le_eq high first second] at copied

theorem unit_three (low : 0x7FF < char.toNat) (high : char.toNat ≤ 0xFFFF) :
    Gives char (leBytes 2 char.toNat) := by
  have other : char ≠ '\n' := by
    rintro rfl
    exact absurd low (by decide)
  obtain ⟨a, b, c, bytes, first, second, third⟩ := utf8_three low high
  refine unit_of_sequence other high bytes ?_ fun rest => ?_
  · rw [BitVec.lt_def, first]
    change ¬ _ < 0x80
    omega
  · have copied := copyAndAdvance1na_three (a := a) b c rest (by rw [first]; omega)
    rwa [utf8ThreeBytesToUtf16le_eq first second third] at copied

theorem unit_four (high : 0xFFFF < char.toNat) : ∃ units, Gives char units := by
  have range : char.toNat ≤ 0x10FFFF := by
    rcases char.valid with low | high
    · exact Nat.le_of_lt (Nat.lt_trans low (by decide))
    · exact Nat.le_of_lt_succ high.2
  have other : char ≠ '\n' := by
    rintro rfl
    exact absurd high (by decide)
  obtain ⟨a, b, c, d, bytes, first⟩ := utf8_four high
  have lead : ¬ a < 0x80#8 := by
    rw [BitVec.lt_def, first]
    change ¬ _ < 0x80
    omega
  refine ⟨utf8FourBytesToUtf16le a b c d, fun input output rest => ?_, ?_,
    iff_of_false ?_ (Nat.not_le.mpr high)⟩
  · have copied := copyAndAdvance1na_four (a := a) b c d input (by rw [first]; omega)
    rw [bytes]
    exact .sequence lead copied rest
  · rw [lfToCrlf_other other, length_utf16le_four high]
    rfl
  · rw [lfToCrlf_other other, utf16le, codeUnits, if_neg (Nat.not_le.mpr high), List.flatMap_cons]
    exact low_surrogate_first range high _

theorem exists_unit (char : Char) : ∃ units, Gives char units := by
  rcases Nat.lt_or_ge 0x7F char.toNat with over1 | one
  · rcases Nat.lt_or_ge 0x7FF char.toNat with over2 | two
    · rcases Nat.lt_or_ge 0xFFFF char.toNat with over3 | three
      · exact unit_four over3
      · exact ⟨_, unit_three over2 three⟩
    · exact ⟨_, unit_two over1 two⟩
  · exact ⟨_, unit_one one⟩

/-- What a text should become. -/
def converted (text : List Char) : List Byte := (text.flatMap lfToCrlf).flatMap utf16le

/-- Character by character, the right bytes come out exactly if every character has a single code
unit. -/
theorem converts_text (text : List Char) :
    ∃ output, Converts utf8ToUtf16 utf16leCrlf (text.flatMap utf8) output ∧
      (output = converted text ↔ ∀ char ∈ text, char.toNat ≤ 0xFFFF) := by
  induction text with
  | nil => exact ⟨[], .nil, iff_of_true rfl nofun⟩
  | cons char text ih =>
    obtain ⟨output, converts, right⟩ := ih
    obtain ⟨units, one, length, right'⟩ := exists_unit char
    have parts : converted (char :: text) = (lfToCrlf char).flatMap utf16le ++ converted text := by
      rw [converted, List.flatMap_cons, List.flatMap_append, converted]
    refine ⟨units ++ output, one _ _ converts, ?_⟩
    rw [parts, List.forall_mem_cons, ← right, ← right']
    constructor
    · exact fun same => List.append_inj same length
    · rintro ⟨same, same'⟩
      rw [same, same']

theorem unchecked_converts {text : List Char} {output : List Byte}
    (converts : Converts utf8ToUtf16 utf16leCrlf (text.flatMap utf8) output) :
    unchecked (text.flatMap utf8) = some output := encodeToMultiCodeUnit_run converts

/-- A text becomes UTF-16 with the lines ended by two characters exactly if no character needs a
surrogate pair: the pair is written low surrogate first. -/
theorem unchecked_utf16 (text : List Char) :
    unchecked (text.flatMap utf8) = some (converted text) ↔
      ∀ char ∈ text, char.toNat ≤ 0xFFFF := by
  obtain ⟨output, converts, right⟩ := converts_text text
  rw [unchecked_converts converts, Option.some_inj, right]

/-- A single character of the second plane comes out wrong. -/
theorem unchecked_surrogates :
    ¬ ∀ text : List Char, unchecked (text.flatMap utf8) = some (converted text) := by
  intro always
  have same := always ['😀']
  obtain ⟨output, converts, right⟩ := converts_text ['😀']
  rw [unchecked_converts converts, Option.some_inj, right] at same
  exact absurd (same _ List.mem_cons_self) (by decide)

end Redemption.Utf
