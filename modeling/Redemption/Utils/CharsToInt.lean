import Mathlib.Tactic.Ring
import Redemption.Foundation.ByteStream
import Redemption.Foundation.Decimal

/-! Numbers out of characters, which end where the pattern does. -/
namespace Redemption.Utils

open Redemption.Foundation

/-- An integer type: its largest value, and whether there are negative ones. -/
structure IntType where
  max : Nat
  signed : Bool
  large : 10 ≤ max
  lastDigit : max % 10 < 9

def IntType.uint16 : IntType := ⟨2 ^ 16 - 1, false, by decide, by decide⟩

def IntType.longLong : IntType := ⟨2 ^ 63 - 1, true, by decide, by decide⟩

def IntType.unsignedLongLong : IntType := ⟨2 ^ 64 - 1, false, by decide, by decide⟩

def isDecimalHead (chars : List Byte) : Bool := chars.head?.any isDecimalChar

def digitOf (char : Byte) : Nat := char.toNat - 48

/-- The loop of `decimal_chars_to_int_impl`: take digits while nothing can overflow. -/
def takeDigits (riskyValue number : Nat) : List Byte → Nat × List Byte
  | [] => (number, [])
  | char :: rest =>
    let next := number * 10 + digitOf char
    if next < riskyValue ∧ isDecimalHead rest then takeDigits riskyValue next rest
    else (next, rest)

/-- What `decimal_chars_to_int_impl` does once there is a digit behind the sign. -/
def decimalValue (type : IntType) (negative : Bool) (first : List Byte) : Int × List Byte :=
  let sign : Int := if negative then -1 else 1
  let riskyValue := type.max / 10
  let (number, rest) := takeDigits riskyValue 0 first
  if number < riskyValue then (number * sign, rest)
  else
    match rest with
    | [] => (number * sign, rest)
    | char :: behind =>
      if isDecimalChar char then
        let maxLastDigit := type.max % 10 + if negative then 1 else 0
        if riskyValue < number ∨ maxLastDigit < digitOf char then (0, rest)
        else if isDecimalHead behind then (0, behind)
        else (number * (10 * sign) + digitOf char * sign, behind)
      else (number * sign, rest)

/-- `decimal_chars_to_int`: the value, 0 after an error, and where the pattern ends. -/
def decimalCharsToInt (type : IntType) (chars : List Byte) : Int × List Byte :=
  let negative := type.signed && chars.head? == some 45
  let first := if negative then chars.tail else chars
  if isDecimalHead first then decimalValue type negative first else (0, chars)

/-- A number that the type has, as characters. -/
def IntType.chars (type : IntType) (number : Int) : List Byte :=
  if type.signed then signedChars number else unsignedChars number.toNat

/-- The values of a type. -/
def IntType.Has (type : IntType) (number : Int) : Prop :=
  number ≤ type.max ∧ if type.signed then -(type.max : Int) - 1 ≤ number else 0 ≤ number

section Digits

variable {riskyValue number : Nat} {digits : List Nat} {rest : List Byte}

theorem digitOf_digitChar {digit : Nat} (small : digit < 10) :
    digitOf (digitChar digit) = digit := by
  rw [digitOf, toNat_digitChar small]
  omega

theorem isDecimalHead_map (some : digits ≠ []) (small : ∀ digit ∈ digits, digit < 10) :
    isDecimalHead (digits.map digitChar ++ rest) = true := by
  cases digits with
  | nil => exact absurd rfl some
  | cons digit digits => exact isDecimalChar_digitChar (small digit List.mem_cons_self)

/-- The loop takes all digits, or stops before some once the value is risky. -/
theorem takeDigits_run (some : digits ≠ []) (small : ∀ digit ∈ digits, digit < 10)
    (ended : isDecimalHead rest = false) :
    takeDigits riskyValue number (digits.map digitChar ++ rest) =
        (digitsValue number digits, rest) ∨
      ∃ front back, digits = front ++ back ∧ back ≠ [] ∧
        riskyValue ≤ digitsValue number front ∧
        takeDigits riskyValue number (digits.map digitChar ++ rest) =
          (digitsValue number front, back.map digitChar ++ rest) := by
  induction digits generalizing number with
  | nil => exact absurd rfl some
  | cons digit digits ih =>
    rw [List.forall_mem_cons] at small
    rw [List.map_cons, List.cons_append, takeDigits, digitOf_digitChar small.1]
    by_cases none : digits = []
    · subst none
      left
      rw [List.map_nil, List.nil_append, if_neg (fun both => by rw [ended] at both; cases both.2)]
      rfl
    · by_cases risky : number * 10 + digit < riskyValue
      · rw [if_pos ⟨risky, isDecimalHead_map none small.2⟩]
        rcases ih none small.2 with all | ⟨front, back, parts, more, high, taken⟩
        · exact .inl all
        · exact .inr ⟨digit :: front, back, by rw [parts, List.cons_append], more, high, taken⟩
      · rw [if_neg (fun both => risky both.1)]
        exact .inr ⟨[digit], digits, rfl, none, Nat.le_of_not_lt risky, rfl⟩

theorem le_digitsValue (number : Nat) (digits : List Nat) :
    number * 10 ^ digits.length ≤ digitsValue number digits := by
  induction digits generalizing number with
  | nil => simp [digitsValue]
  | cons digit digits ih =>
    have step := ih (number * 10 + digit)
    rw [digitsValue_cons, List.length_cons, Nat.pow_succ]
    calc number * (10 ^ digits.length * 10) = number * 10 * 10 ^ digits.length := by ring
      _ ≤ (number * 10 + digit) * 10 ^ digits.length :=
        Nat.mul_le_mul_right _ (Nat.le_add_right _ _)
      _ ≤ digitsValue (number * 10 + digit) digits := step

theorem decimalValue_run {type : IntType} {negative : Bool} (some : digits ≠ [])
    (small : ∀ digit ∈ digits, digit < 10) (ended : isDecimalHead rest = false)
    (fits : digitsValue 0 digits ≤ type.max + if negative then 1 else 0) :
    decimalValue type negative (digits.map digitChar ++ rest) =
      ((digitsValue 0 digits : Int) * (if negative then -1 else 1), rest) := by
  have large := type.large
  have lastDigit := type.lastDigit
  rcases @takeDigits_run (type.max / 10) 0 _ _ some small ended with
    all | ⟨front, back, parts, more, high, taken⟩
  · rw [decimalValue, all]
    simp only
    split
    · rfl
    · cases rest with
      | nil => rfl
      | cons char behind =>
        have other : isDecimalChar char = false := ended
        simp only [other, Bool.false_eq_true, if_false]
  · have least := le_digitsValue (digitsValue 0 front) back
    subst parts
    rw [digitsValue_append] at fits ⊢
    cases back with
    | nil => exact absurd rfl more
    | cons digit back =>
      cases back with
      | cons next back =>
        -- Two more digits would make the value too large.
        have hundred : 100 ≤ 10 ^ (digit :: next :: back).length := by
          calc 100 = 10 ^ 2 := rfl
            _ ≤ 10 ^ (digit :: next :: back).length :=
              Nat.pow_le_pow_right (by decide) (by simp)
        have product := Nat.mul_le_mul high hundred
        have one : (if negative then 1 else 0) ≤ 1 := by split <;> decide
        omega
      | nil =>
        have value : digitsValue (digitsValue 0 front) [digit] = digitsValue 0 front * 10 + digit :=
          rfl
        have low : digit < 10 := small digit (by simp)
        rw [value] at fits ⊢
        have one : (if negative then 1 else 0) ≤ 1 := by split <;> decide
        rw [decimalValue, taken]
        simp only [List.map_cons, List.map_nil, List.cons_append, List.nil_append,
          isDecimalChar_digitChar low, digitOf_digitChar low, if_true]
        rw [if_neg (Nat.not_lt.mpr high), if_neg (by omega), ended]
        push_cast
        ring_nf

theorem head_ne_sign {chars : List Byte} (decimal : isDecimalHead chars = true) :
    (chars.head? == some 45) = false := by
  rw [beq_eq_false_iff_ne]
  intro sign
  rw [isDecimalHead, sign] at decimal
  exact absurd decimal (by decide)

/-- What a number is written as is read as the number, up to where its digits end. -/
theorem decimalCharsToInt_chars {type : IntType} {value : Int} (has : type.Has value)
    (ended : isDecimalHead rest = false) :
    decimalCharsToInt type (type.chars value ++ rest) = (value, rest) := by
  obtain ⟨most, least⟩ := has
  have unsigned (natural : Nat) (bound : natural ≤ type.max) :
      decimalCharsToInt type (unsignedChars natural ++ rest) = ((natural : Int), rest) := by
    have head : isDecimalHead (unsignedChars natural ++ rest) = true :=
      isDecimalHead_map (decimalDigits_ne_nil natural) (decimalDigits_lt natural)
    have parsed := @decimalValue_run _ _ type false (decimalDigits_ne_nil natural) (decimalDigits_lt natural) ended (by rw [digitsValue_decimalDigits]; exact bound)
    rw [digitsValue_decimalDigits] at parsed
    rw [decimalCharsToInt, head_ne_sign head, Bool.and_false]
    simp only [Bool.false_eq_true, if_false, head, if_true]
    rw [unsignedChars, parsed]
    simp
  unfold IntType.chars
  cases sign : type.signed with
  | false =>
    rw [sign] at least
    have nonnegative : 0 ≤ value := least
    rw [if_neg Bool.false_ne_true, unsigned value.toNat (by omega), Int.toNat_of_nonneg nonnegative]
  | true =>
    rw [sign] at least
    have lowest : -(type.max : Int) - 1 ≤ value := least
    rw [if_pos rfl, signedChars]
    by_cases below : value < 0
    · have head : isDecimalHead (unsignedChars value.natAbs ++ rest) = true :=
        isDecimalHead_map (decimalDigits_ne_nil _) (decimalDigits_lt _)
      have parsed := @decimalValue_run _ _ type true (decimalDigits_ne_nil value.natAbs) (decimalDigits_lt value.natAbs) ended (by rw [digitsValue_decimalDigits, if_pos rfl]; omega)
      rw [digitsValue_decimalDigits] at parsed
      rw [if_pos below, List.cons_append, decimalCharsToInt, sign]
      simp only [List.head?_cons, beq_self_eq_true, Bool.and_self, if_true, List.tail_cons, head]
      rw [unsignedChars, parsed]
      have whole : (value.natAbs : Int) * -1 = value := by omega
      rw [if_pos rfl, whole]
    · rw [if_neg below, unsigned value.natAbs (by omega)]
      have whole : (value.natAbs : Int) = value := by omega
      rw [whole]

end Digits

/-! Bytes as pairs of hexadecimal characters. -/

def hexLowerChar (nibble : Byte) : Byte := if nibble < 10#8 then 48 + nibble else 87 + nibble

/-- `int_to_fixed_hexadecimal_lower_chars` of a byte. -/
def fixedHexadecimalLowerChars (byte : Byte) : List Byte :=
  [hexLowerChar (byte >>> 4), hexLowerChar (byte &&& 0x0F)]

/-- `hexadecimal_char_to_int`, which is 255 for other characters. -/
def hexadecimalCharToInt (char : Byte) : Byte :=
  if 48#8 ≤ char ∧ char ≤ 57#8 then char - 48
  else if 65#8 ≤ char ∧ char ≤ 70#8 then char - 55
  else if 97#8 ≤ char ∧ char ≤ 102#8 then char - 87
  else 255

/-- The bytes that pairs of characters stand for, and all bits that came out of a character. -/
def hexadecimalPairs : List Byte → List Byte × Byte
  | first :: second :: rest =>
    let c1 := hexadecimalCharToInt first
    let c2 := hexadecimalCharToInt second
    let (bytes, err) := hexadecimalPairs rest
    (((c1 <<< 4) ||| c2) :: bytes, c1 ||| c2 ||| err)
  | _ => ([], 0)

/-- `hexadecimal_string_to_buffer`: the bytes, and whether the characters were right. -/
def hexadecimalStringToBuffer (input : List Byte) : List Byte × Bool :=
  let (bytes, err) := hexadecimalPairs input
  (bytes, err != 0xFF)

private theorem pair_back (byte : Byte) :
    let c1 := hexadecimalCharToInt (hexLowerChar (byte >>> 4))
    let c2 := hexadecimalCharToInt (hexLowerChar (byte &&& 0x0F))
    (c1 <<< 4) ||| c2 = byte ∧ (c1 ||| c2) &&& 0xF0 = 0 := by
  revert byte
  decide

theorem hexadecimalPairs_chars (bytes : List Byte) :
    ∃ err, hexadecimalPairs (bytes.flatMap fixedHexadecimalLowerChars) = (bytes, err) ∧
      err &&& 0xF0 = 0 := by
  induction bytes with
  | nil => exact ⟨0, rfl, rfl⟩
  | cons byte bytes ih =>
    obtain ⟨err, back, low⟩ := ih
    obtain ⟨same, low'⟩ := pair_back byte
    refine ⟨hexadecimalCharToInt (hexLowerChar (byte >>> 4)) |||
      hexadecimalCharToInt (hexLowerChar (byte &&& 0x0F)) ||| err, ?_, ?_⟩
    · rw [List.flatMap_cons, fixedHexadecimalLowerChars]
      simp only [List.cons_append, List.nil_append, hexadecimalPairs, back, same]
    · rw [BitVec.and_or_distrib_right, low', low]
      rfl

theorem hexadecimalStringToBuffer_chars (bytes : List Byte) :
    hexadecimalStringToBuffer (bytes.flatMap fixedHexadecimalLowerChars) = (bytes, true) := by
  obtain ⟨err, back, low⟩ := hexadecimalPairs_chars bytes
  have right : (err != 0xFF) = true := by
    rw [bne_iff_ne]
    rintro rfl
    exact absurd low (by decide)
  rw [hexadecimalStringToBuffer, back]
  simp only [right]

theorem length_hexadecimalChars (bytes : List Byte) :
    (bytes.flatMap fixedHexadecimalLowerChars).length = 2 * bytes.length := by
  induction bytes with
  | nil => rfl
  | cons byte bytes ih =>
    rw [List.flatMap_cons, List.length_append, ih, List.length_cons]
    change 2 + _ = _
    omega

end Redemption.Utils
