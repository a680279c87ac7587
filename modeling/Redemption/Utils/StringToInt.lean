import Mathlib.Data.Int.ModEq
import Redemption.Foundation.Radix
import Redemption.Utils.CharsToInt

/-! Integers of any type out of characters, and the patterns that they match. -/
namespace Redemption.Utils

open Redemption.Foundation

/-- An integer type, no narrower than a `char`. -/
structure Integral where
  width : Nat
  signed : Bool
  char : 8 ≤ width

namespace Integral

/-- The first number that is too large. -/
def bound (type : Integral) : Nat := if type.signed then 2 ^ (type.width - 1) else 2 ^ type.width

def max (type : Integral) : Nat := type.bound - 1

def min (type : Integral) : Int := if type.signed then -type.bound else 0

def Has (type : Integral) (value : Int) : Prop := type.min ≤ value ∧ value ≤ type.max

instance (type : Integral) (value : Int) : Decidable (type.Has value) :=
  inferInstanceAs (Decidable (_ ∧ _))

/-- `+Int()`. -/
def promoted (type : Integral) : Integral :=
  if type.width < 32 then ⟨32, true, by decide⟩ else type

/-- `std::make_unsigned_t`. -/
def makeUnsigned (type : Integral) : Integral := ⟨type.width, false, type.char⟩

/-- A value that has to fit. -/
def exactly (type : Integral) (value : Int) : Option Int :=
  if type.Has value then some value else none

/-- Arithmetic, which wraps in the unsigned types only. -/
def arithmetic (type : Integral) (value : Int) : Option Int :=
  if type.signed then type.exactly value else some (value % 2 ^ type.width)

/-- `Int(value)`. -/
def convert (type : Integral) (value : Int) : Int :=
  if type.signed then value.bmod (2 ^ type.width) else value % 2 ^ type.width

end Integral

/-- `std::errc`. -/
inductive Errc where
  | ok
  | invalidArgument
  | resultOutOfRange
  deriving DecidableEq, Repr

/-- `chars_to_int_result`. -/
structure CharsToIntResult where
  ec : Errc
  val : Int
  ptr : List Byte
  deriving DecidableEq, Repr

theorem digitOf_lt {char : Byte} (decimal : isDecimalChar char = true) : digitOf char < 10 := by
  simp only [isDecimalChar, Bool.and_eq_true, decide_eq_true_eq] at decimal
  rw [digitOf]
  omega

def decimal : Radix Byte where
  base := 10
  digit char := if isDecimalChar char then some (digitOf char) else none
  positive := by decide
  small char value found := by
    split at found
    · next decimal => exact Option.some.inj found ▸ digitOf_lt decimal
    · cases found

def hexadecimal : Radix Byte where
  base := 16
  digit char :=
    if hexadecimalCharToInt char = 0xFF then none else some (hexadecimalCharToInt char).toNat
  positive := by decide
  small := by
    have table : ∀ char, hexadecimalCharToInt char ≠ 0xFF → (hexadecimalCharToInt char).toNat < 16 := by
      decide
    intro char value found
    split at found
    · cases found
    · next digit => exact Option.some.inj found ▸ table char digit

/-- A value of the promoted type, made one of the type. -/
def okResult (type : Integral) (value : Int) (ptr : List Byte) : Option CharsToIntResult := do
  let value ← type.promoted.exactly value
  some ⟨.ok, type.convert value, ptr⟩

/-- What `decimal_chars_to_int_impl` does behind the sign. -/
def decimalNumber (type : Integral) (negative : Bool) (first : List Byte) :
    Option CharsToIntResult := do
  let sign : Int := if negative then -1 else 1
  let riskyValue := type.max / 10
  let (n, first) ← decimal.loop type.promoted.max riskyValue 0 first
  if n < riskyValue then okResult type (n * sign) first
  else match first with
    | [] => okResult type (n * sign) first
    | char :: behind =>
      if isDecimalChar char then
        let c := digitOf char
        let maxLastDigit := type.max % 10 + if negative then 1 else 0
        if riskyValue < n ∨ maxLastDigit < c then some ⟨.resultOutOfRange, 0, first⟩
        else if isDecimalHead behind then some ⟨.resultOutOfRange, 0, behind⟩
        else do
          let product ← type.promoted.exactly (n * (10 * sign))
          okResult type (product + c * sign) behind
      else okResult type (n * sign) first

/-- `decimal_chars_to_int_impl`, which is nothing if a number on the way does not fit. -/
def decimalCharsToIntImpl (type : Integral) (chars : List Byte) : Option CharsToIntResult :=
  let negative := type.signed && chars.head? == some 45
  let first := if negative then chars.tail else chars
  if isDecimalHead first then decimalNumber type negative first
  else some ⟨.invalidArgument, 0, chars⟩

def isHexadecimalHead (chars : List Byte) : Bool := chars.head?.any (hexadecimalCharToInt · != 0xFF)

/-- `hexadecimal_chars_to_int_impl`, of an unsigned type. -/
def hexadecimalCharsToIntImpl (type : Integral) (first : List Byte) : Option CharsToIntResult :=
  let riskyValue := type.max / 16
  if isHexadecimalHead first then do
    let (x, first) ← hexadecimal.loop type.promoted.max (riskyValue + 1) 0 first
    if x ≤ riskyValue then some ⟨.ok, type.convert x, first⟩
    else if isHexadecimalHead first then some ⟨.resultOutOfRange, 0, first⟩
    else some ⟨.ok, type.convert x, first⟩
  else some ⟨.invalidArgument, 0, first⟩

/-- `is_hexadecimal_prefix`. -/
def isHexadecimalPrefix : List Byte → Bool
  | zero :: x :: _ => zero == 48 && (x == 120 || x == 88)
  | _ => false

def isSpace (char : Byte) : Bool := char == 32 || char == 9 || char == 10

/-- `string_to_int_impl`. -/
def stringToIntImpl (type : Integral) (s : List Byte) : Option CharsToIntResult :=
  let s := s.dropWhile isSpace
  let negativePrefix := decide (4 ≤ s.length) && s.head? == some 45 &&
    isHexadecimalPrefix (s.drop 1) && isHexadecimalHead (s.drop 3)
  let positivePrefix := decide (3 ≤ s.length) && isHexadecimalPrefix s &&
    isHexadecimalHead (s.drop 2)
  if type.signed && negativePrefix then do
    let r ← hexadecimalCharsToIntImpl type.makeUnsigned (s.drop 3)
    if r.ec = .ok then
      let abs := type.makeUnsigned.convert (-type.min.tdiv 16) * 16 +
        type.makeUnsigned.convert (-type.min.tmod 16)
      if r.val ≤ abs then do
        let val ← type.makeUnsigned.promoted.arithmetic (-(r.val / 16))
        let val ← type.makeUnsigned.promoted.arithmetic (val * 16)
        let val ← type.makeUnsigned.promoted.arithmetic (val - r.val % 16)
        some ⟨.ok, type.convert val, r.ptr⟩
      else some ⟨.resultOutOfRange, 0, r.ptr⟩
    else some ⟨r.ec, type.convert r.val, hexadecimal.eat r.ptr⟩
  else if type.signed && positivePrefix then do
    let r ← hexadecimalCharsToIntImpl type.makeUnsigned (s.drop 2)
    if r.ec = .ok then
      if r.val ≤ type.max then some ⟨.ok, type.convert r.val, r.ptr⟩
      else some ⟨.resultOutOfRange, 0, r.ptr⟩
    else some ⟨r.ec, type.convert r.val, hexadecimal.eat r.ptr⟩
  else if !type.signed && positivePrefix then do
    let r ← hexadecimalCharsToIntImpl type (s.drop 2)
    some { r with ptr := hexadecimal.eat r.ptr }
  else do
    let r ← decimalCharsToIntImpl type s
    some { r with ptr := decimal.eat r.ptr }

example : stringToIntImpl ⟨16, true, by decide⟩ [32, 45, 48, 120, 56, 48, 48, 48, 103] =
    some ⟨.ok, -0x8000, [103]⟩ := by
  decide

section Forms

/-- Decimal digits, or hexadecimal ones behind a zero and one of some characters. -/
def UnsignedForm (prefixes text : List Byte) (number : Nat) : Prop :=
  decimal.Numeral text number ∨
    ∃ x ∈ prefixes, ∃ digits, text = 48 :: x :: digits ∧ hexadecimal.Numeral digits number

/-- An optional minus, where there are negative numbers. -/
def SignedForm (minus : Bool) (prefixes text : List Byte) (value : Int) : Prop :=
  (∃ number : Nat, UnsignedForm prefixes text number ∧ value = number) ∨
    minus = true ∧ ∃ body, ∃ number : Nat,
      text = 45 :: body ∧ UnsignedForm prefixes body number ∧ value = -number

/-- Blanks first. -/
def NumberForm (minus : Bool) (prefixes text : List Byte) (value : Int) : Prop :=
  ∃ blanks body, (∀ char ∈ blanks, isSpace char = true) ∧ text = blanks ++ body ∧
    SignedForm minus prefixes body value

def readUnsigned (prefixes : List Byte) : List Byte → Option (Nat × List Byte)
  | zero :: x :: digits =>
    if zero = 48 ∧ x ∈ prefixes ∧ hexadecimal.run digits ≠ [] then hexadecimal.read digits
    else decimal.read (zero :: x :: digits)
  | chars => decimal.read chars

def readSigned (minus : Bool) (prefixes chars : List Byte) : Option (Int × List Byte) :=
  if minus = true ∧ chars.head? = some 45 then
    (readUnsigned prefixes chars.tail).map fun (number, rest) => (-(number : Int), rest)
  else (readUnsigned prefixes chars).map fun (number, rest) => ((number : Int), rest)

def readNumber (minus : Bool) (prefixes chars : List Byte) : Option (Int × List Byte) :=
  readSigned minus prefixes (chars.dropWhile isSpace)

variable {prefixes text chars : List Byte} {number : Nat} {value : Int} {minus : Bool}

theorem isDigit_decimal : decimal.isDigit = isDecimalChar := by
  funext char
  change (if isDecimalChar char then some (digitOf char) else none).isSome = isDecimalChar char
  cases isDecimalChar char <;> rfl

theorem isDigit_hexadecimal : hexadecimal.isDigit = (hexadecimalCharToInt · != 0xFF) := by
  funext char
  change (if hexadecimalCharToInt char = 0xFF then none
    else some (hexadecimalCharToInt char).toNat).isSome = (hexadecimalCharToInt char != 0xFF)
  by_cases other : hexadecimalCharToInt char = 0xFF
  · rw [if_pos other, other]
    rfl
  · rw [if_neg other]
    exact (bne_iff_ne.mpr other).symm

theorem UnsignedForm.head (form : UnsignedForm prefixes text number) :
    ∃ char behind, text = char :: behind ∧ isDecimalChar char = true := by
  rcases form with ⟨some, digits, _⟩ | ⟨x, _, digits, rfl, _⟩
  · obtain ⟨char, behind, rfl⟩ := List.exists_cons_of_ne_nil some
    exact ⟨char, behind, rfl, isDigit_decimal ▸ digits char List.mem_cons_self⟩
  · exact ⟨48, x :: digits, rfl, by decide⟩

theorem SignedForm.head (form : SignedForm minus prefixes text value) :
    ∃ char behind, text = char :: behind ∧ isSpace char = false := by
  have notBlank : ∀ char, isDecimalChar char = true → isSpace char = false := by decide
  rcases form with ⟨number, form, _⟩ | ⟨_, body, number, rfl, _, _⟩
  · obtain ⟨char, behind, rfl, digit⟩ := form.head
    exact ⟨char, behind, rfl, notBlank char digit⟩
  · exact ⟨45, body, rfl, by decide⟩

theorem UnsignedForm.functional (letters : ∀ x ∈ prefixes, isDecimalChar x = false)
    (text : List Byte) (number other : Nat) (one : UnsignedForm prefixes text number)
    (two : UnsignedForm prefixes text other) : number = other := by
  have apart {x : Byte} {digits : List Byte} {number : Nat} (letter : x ∈ prefixes)
      (numeral : decimal.Numeral (48 :: x :: digits) number) : False := by
    have digit := numeral.2.1 x (by simp)
    rw [isDigit_decimal, letters x letter] at digit
    cases digit
  rcases one with one | ⟨x, letter, digits, rfl, one⟩
  · rcases two with two | ⟨x, letter, digits, rfl, _⟩
    · exact Radix.numeral_functional text number other one two
    · exact (apart letter one).elim
  · rcases two with two | ⟨x', _, digits', same, two⟩
    · exact (apart letter two).elim
    · cases same
      exact Radix.numeral_functional digits number other one two

theorem SignedForm.functional (letters : ∀ x ∈ prefixes, isDecimalChar x = false)
    (text : List Byte) (value other : Int) (one : SignedForm minus prefixes text value)
    (two : SignedForm minus prefixes text other) : value = other := by
  have apart {body : List Byte} {number : Nat} (form : UnsignedForm prefixes (45 :: body) number) :
      False := by
    obtain ⟨char, behind, same, digit⟩ := form.head
    cases same
    exact absurd digit (by decide)
  rcases one with ⟨number, one, rfl⟩ | ⟨_, body, number, rfl, one, rfl⟩
  · rcases two with ⟨number', two, rfl⟩ | ⟨_, body, number', rfl, _, _⟩
    · rw [UnsignedForm.functional letters text number number' one two]
    · exact (apart one).elim
  · rcases two with ⟨number', two, rfl⟩ | ⟨_, body', number', same, two, rfl⟩
    · exact (apart two).elim
    · cases same
      rw [UnsignedForm.functional letters body number number' one two]

theorem dropWhile_blanks {blanks body more : List Byte}
    (blank : ∀ char ∈ blanks, isSpace char = true)
    (head : ∃ char behind, body = char :: behind ∧ isSpace char = false) :
    ((blanks ++ body) ++ more).dropWhile isSpace = body ++ more := by
  obtain ⟨char, behind, rfl, other⟩ := head
  rw [List.append_assoc, List.dropWhile_append_of_pos blank, List.cons_append,
    List.dropWhile_cons_of_neg (by rw [other]; exact Bool.false_ne_true)]

theorem NumberForm.functional (letters : ∀ x ∈ prefixes, isDecimalChar x = false)
    (text : List Byte) (value other : Int) (one : NumberForm minus prefixes text value)
    (two : NumberForm minus prefixes text other) : value = other := by
  obtain ⟨blanks, body, blank, rfl, one⟩ := one
  obtain ⟨blanks', body', blank', same, two⟩ := two
  have left := @dropWhile_blanks blanks body [] blank one.head
  have right := @dropWhile_blanks blanks' body' [] blank' two.head
  rw [List.append_nil, List.append_nil] at left right
  rw [← same, left] at right
  subst right
  exact SignedForm.functional letters body value other one two

theorem reads_decimal (unprefixed : ∀ x ∈ prefixes, ∀ digits, chars = 48 :: x :: digits →
    hexadecimal.run digits = []) :
    Reads (UnsignedForm prefixes) chars (decimal.read chars) := by
  have lifted := @Reads.behind _ _ _ _ chars (UnsignedForm prefixes) _ [] id
    (fun text number numeral => .inl numeral) ?_ (decimal.reads_numeral chars)
  · simpa using lifted
  · rintro text number ⟨more, rfl⟩ (numeral | ⟨x, letter, digits, rfl, some, hexDigits, _⟩)
    · exact ⟨text, number, rfl, numeral⟩
    · have none := unprefixed x letter (digits ++ more) rfl
      rw [Radix.run_append hexDigits] at none
      exact absurd (List.append_eq_nil_iff.mp none).1 some

theorem reads_hexadecimal {x : Byte} {digits : List Byte} (letter : x ∈ prefixes)
    (other : isDecimalChar x = false) (some : hexadecimal.run digits ≠ []) :
    Reads (UnsignedForm prefixes) (48 :: x :: digits) (hexadecimal.read digits) := by
  have reads := hexadecimal.reads_numeral digits
  rw [Radix.read, if_neg some] at reads ⊢
  obtain ⟨text, parts, numeral, most⟩ := reads
  refine ⟨48 :: x :: text, congrArg (48 :: x :: ·) parts, .inr ⟨x, letter, text, rfl, numeral⟩, ?_⟩
  rintro longer number front (⟨_, decimals, _⟩ | ⟨x', _, digits', rfl, numeral'⟩)
  · match longer, front, decimals with
    | [], _, _ => exact Nat.zero_le _
    | [_], _, _ => exact Nat.succ_le_succ (Nat.zero_le _)
    | _ :: second :: _, front, decimals =>
      have same := (List.cons_prefix_cons.mp (List.cons_prefix_cons.mp front).2).1
      have digit := decimals second (by simp)
      rw [isDigit_decimal, same, other] at digit
      cases digit
  · have inner := (List.cons_prefix_cons.mp (List.cons_prefix_cons.mp front).2).2
    have length := most digits' number inner numeral'
    simpa using length

theorem reads_unsigned (letters : ∀ x ∈ prefixes, isDecimalChar x = false) (chars : List Byte) :
    Reads (UnsignedForm prefixes) chars (readUnsigned prefixes chars) := by
  unfold readUnsigned
  split
  · next zero x digits =>
    split
    · next found =>
      obtain ⟨rfl, letter, some⟩ := found
      exact reads_hexadecimal letter (letters x letter) some
    · next unfound =>
      apply reads_decimal
      intro x' letter digits' same
      cases same
      by_contra some
      exact unfound ⟨rfl, letter, some⟩
  · next short =>
    apply reads_decimal
    intro x _ digits same
    exact absurd same (short 48 x digits)

theorem reads_signed (letters : ∀ x ∈ prefixes, isDecimalChar x = false) (minus : Bool)
    (chars : List Byte) :
    Reads (SignedForm minus prefixes) chars (readSigned minus prefixes chars) := by
  unfold readSigned
  split
  · next sign =>
    obtain ⟨allowed, head⟩ := sign
    obtain ⟨_, rfl⟩ := List.head?_eq_some_iff.mp head
    refine Reads.behind [45] (fun number : Nat => -(number : Int)) ?_ ?_
      (reads_unsigned letters _)
    · intro text number form
      exact .inr ⟨allowed, text, number, rfl, form, rfl⟩
    · intro text value front form
      rcases form with ⟨number, form, _⟩ | ⟨_, body, number, rfl, form, _⟩
      · obtain ⟨char, behind, rfl, digit⟩ := form.head
        have same := (List.cons_prefix_cons.mp front).1
        rw [same] at digit
        exact absurd digit (by decide)
      · exact ⟨body, number, rfl, form⟩
  · next unsigned =>
    refine Reads.behind [] (fun number : Nat => (number : Int)) ?_ ?_ (reads_unsigned letters _)
    · intro text number form
      exact .inl ⟨number, form, rfl⟩
    · intro text value front form
      rcases form with ⟨number, form, _⟩ | ⟨allowed, body, number, rfl, _, _⟩
      · exact ⟨text, number, rfl, form⟩
      · obtain ⟨more, rfl⟩ := front
        exact absurd ⟨allowed, rfl⟩ unsigned

theorem reads_number (letters : ∀ x ∈ prefixes, isDecimalChar x = false) (minus : Bool)
    (chars : List Byte) :
    Reads (NumberForm minus prefixes) chars (readNumber minus prefixes chars) := by
  have blank : ∀ char ∈ chars.takeWhile isSpace, isSpace char = true :=
    fun char member => List.mem_takeWhile_imp member
  have reads := reads_signed letters minus (chars.dropWhile isSpace)
  have lifted := @Reads.behind _ _ _ _ _ (NumberForm minus prefixes) _ (chars.takeWhile isSpace) id
    (fun text value form => ⟨_, text, blank, rfl, form⟩) ?_ reads
  · rw [readNumber]
    simpa using lifted
  · rintro text value ⟨more, parts⟩ ⟨blanks, body, blank', rfl, form⟩
    rw [List.takeWhile_append_dropWhile] at parts
    obtain ⟨char, behind, rfl, other⟩ := form.head
    have same : chars.takeWhile isSpace = blanks := by
      rw [← parts, List.append_assoc, List.takeWhile_append_of_pos blank', List.cons_append,
        List.takeWhile_cons_of_neg (by rw [other]; exact Bool.false_ne_true), List.append_nil]
    exact ⟨char :: behind, value, by rw [same], form⟩

end Forms

section Ranges

variable {type : Integral} {value : Int}

theorem two_pow_mod_five (exponent : Nat) : 2 ^ exponent % 5 ≠ 0 := by
  induction exponent with
  | zero => decide
  | succ exponent ih =>
    omega

namespace Integral

theorem bound_eq (type : Integral) : ∃ exponent, type.bound = 64 * 2 ^ exponent := by
  have char := type.char
  unfold bound
  split
  · refine ⟨type.width - 7, ?_⟩
    rw [show type.width - 1 = 6 + (type.width - 7) by omega, Nat.pow_add]
  · refine ⟨type.width - 6, ?_⟩
    rw [show type.width = 6 + (type.width - 6) by omega, Nat.pow_add]
    simp

theorem max_add_one (type : Integral) : type.max + 1 = type.bound := by
  obtain ⟨exponent, bound⟩ := type.bound_eq
  have positive := Nat.two_pow_pos exponent
  rw [max]
  omega

theorem max_facts (type : Integral) : 63 ≤ type.max ∧ type.max % 10 < 9 ∧
    type.max % 16 = 15 := by
  obtain ⟨exponent, bound⟩ := type.bound_eq
  have odd := two_pow_mod_five exponent
  have next := type.max_add_one
  omega

theorem bound_le_promoted (type : Integral) : type.bound ≤ type.promoted.bound := by
  unfold promoted
  split
  · next narrow =>
    unfold bound
    split
    · exact Nat.pow_le_pow_right (by decide) (by simp; omega)
    · exact Nat.pow_le_pow_right (by decide) (by simp; omega)
  · exact Nat.le_refl _

theorem max_le_promoted (type : Integral) : type.max ≤ type.promoted.max :=
  Nat.sub_le_sub_right type.bound_le_promoted 1

theorem min_eq (type : Integral) : type.min = if type.signed then -(type.max : Int) - 1 else 0 := by
  have next := type.max_add_one
  unfold min
  split <;> omega

theorem Has.promoted (has : type.Has value) : type.promoted.Has value := by
  obtain ⟨least, most⟩ := has
  have larger := type.max_le_promoted
  rw [min_eq] at least
  refine ⟨?_, by omega⟩
  rw [min_eq]
  by_cases narrow : type.width < 32
  · have signed : type.promoted.signed = true := by rw [Integral.promoted, if_pos narrow]
    rw [if_pos signed]
    split at least <;> omega
  · have same : type.promoted = type := by rw [Integral.promoted, if_neg narrow]
    rw [same]
    exact least

theorem exactly_of_has (has : type.Has value) : type.exactly value = some value := if_pos has

theorem convert_of_has (has : type.Has value) : type.convert value = value := by
  obtain ⟨least, most⟩ := has
  have next := type.max_add_one
  have char := type.char
  rw [min_eq] at least
  unfold convert
  unfold bound at next
  split
  · next signed =>
    rw [if_pos signed] at least next
    have double : 2 ^ type.width = 2 * 2 ^ (type.width - 1) := by
      rw [← Nat.pow_succ', Nat.succ_eq_add_one, show type.width - 1 + 1 = type.width by omega]
    apply Int.bmod_eq_of_le
    · omega
    · omega
  · next unsigned =>
    rw [if_neg unsigned] at least next
    have wide : value < 2 ^ type.width := by
      have cast : ((2 ^ type.width : Nat) : Int) = 2 ^ type.width := by push_cast; rfl
      omega
    exact Int.emod_eq_of_lt least wide

theorem has_natural (type : Integral) (number : Nat) : type.Has number ↔ number ≤ type.max := by
  rw [Has, min_eq]
  split <;> omega

theorem convert_zero (type : Integral) : type.convert 0 = 0 :=
  convert_of_has ((type.has_natural 0).mpr (Nat.zero_le _))

theorem has_sign {negative : Bool} (allowed : negative = true → type.signed = true)
    (number : Nat) :
    type.Has (number * if negative then -1 else 1) ↔
      number ≤ type.max + if negative then 1 else 0 := by
  rw [Has, min_eq]
  cases negative with
  | false =>
    simp only [Bool.false_eq_true, if_false]
    split <;> omega
  | true =>
    rw [if_pos (allowed rfl)]
    simp only [if_true]
    omega

end Integral

theorem okResult_of_has (has : type.Has value) (ptr : List Byte) :
    okResult type value ptr = some ⟨.ok, value, ptr⟩ := by
  rw [okResult, Integral.exactly_of_has has.promoted]
  simp only [Option.bind_eq_bind, Option.bind_some, Integral.convert_of_has has]

end Ranges

section Parsing

variable {type : Integral} {first rest : List Byte}

/-- What has to come out of a value and what is behind it. -/
def Converted (type : Integral) (ends : List Byte → List Byte) (value : Int) (rest : List Byte)
    (r : CharsToIntResult) : Prop :=
  (type.Has value ∧ r = ⟨.ok, value, rest⟩) ∨
    ¬type.Has value ∧ r.ec = .resultOutOfRange ∧ r.val = 0 ∧ ends r.ptr = rest

theorem decimal_cons {char : Byte} (digit : isDecimalChar char = true) (number : Nat)
    (behind : List Byte) :
    decimal.value number (decimal.run (char :: behind)) =
        decimal.value (number * 10 + digitOf char) (decimal.run behind) ∧
      decimal.eat (char :: behind) = decimal.eat behind := by
  have isDigit : decimal.isDigit char = true := isDigit_decimal ▸ digit
  have found : decimal.digit char = some (digitOf char) := if_pos digit
  constructor
  · rw [Radix.run, List.takeWhile_cons_of_pos isDigit, Radix.value, List.foldl_cons, found]
    rfl
  · exact List.dropWhile_cons_of_pos isDigit

theorem decimalNumber_converted {negative : Bool} (allowed : negative = true → type.signed = true)
    (first : List Byte) :
    ∃ r, decimalNumber type negative first = some r ∧
      Converted type decimal.eat
        ((decimal.value 0 (decimal.run first) : Nat) * if negative then -1 else 1)
        (decimal.eat first) r := by
  obtain ⟨least, lastDigit, _⟩ := type.max_facts
  obtain ⟨taken, rest, rfl, digits, run, small, ended⟩ :=
    @Radix.loop_eq _ decimal 0 type.promoted.max type.max (type.max / 10) type.max_le_promoted
      (by change 0 * 10 + 10 ≤ _; omega) (by change type.max / 10 * 10 ≤ _; omega) first
  have whole := @Radix.value_append _ decimal 0 taken (decimal.run rest)
  rw [Radix.run_append digits, Radix.eat_append digits, whole, decimalNumber, run]
  generalize decimal.value 0 taken = n at small ended ⊢
  rw [isDigit_decimal] at ended
  simp only [Option.bind_eq_bind, Option.bind_some]
  have fits (number : Nat) := @Integral.has_sign type negative allowed number
  have one : (if negative then 1 else 0) ≤ 1 := by split <;> decide
  generalize (if negative = true then 1 else 0) = extra at fits one ⊢
  generalize (if negative = true then -1 else 1 : Int) = sign at fits ⊢
  cases head : rest.head?.any isDecimalChar with
  | false =>
    have here : rest.head?.any decimal.isDigit = false := isDigit_decimal ▸ head
    have has := (fits n).mpr (by omega)
    rw [Radix.run_eq_nil_iff.mpr here, Radix.eat_of_ended here]
    change ∃ r, _ ∧ Converted type decimal.eat (n * _) rest r
    refine ⟨⟨.ok, _, rest⟩, ?_, .inl ⟨has, rfl⟩⟩
    rw [okResult_of_has has]
    split
    · rfl
    · cases rest with
      | nil => rfl
      | cons char behind =>
        have other : isDecimalChar char = false := head
        simp only [other, Bool.false_eq_true, if_false]
  | true =>
    obtain ⟨char, behind, rfl⟩ : ∃ char behind, rest = char :: behind := by
      cases rest with
      | nil => cases head
      | cons char behind => exact ⟨char, behind, rfl⟩
    have digit : isDecimalChar char = true := head
    have risky : type.max / 10 ≤ n := by
      rcases ended with none | risky
      · rw [head] at none
        cases none
      · exact risky
    obtain ⟨value, eaten⟩ := decimal_cons digit n behind
    rw [value, eaten]
    simp only [digit, if_true, if_neg (Nat.not_lt.mpr risky)]
    by_cases large : type.max / 10 < n ∨ type.max % 10 + extra < digitOf char
    · have least := @Radix.le_value _ decimal (n * 10 + digitOf char) (decimal.run behind)
      rw [if_pos large]
      refine ⟨⟨_, 0, char :: behind⟩, rfl, .inr ⟨?_, rfl, rfl, eaten⟩⟩
      rw [fits]
      omega
    rw [if_neg large]
    cases more : isDecimalHead behind with
    | true =>
      have some : decimal.run behind ≠ [] := by
        rw [ne_eq, Radix.run_eq_nil_iff, isDigit_decimal]
        exact fun none => Bool.false_ne_true (none.symm.trans more)
      have least := @Radix.mul_base_le_value _ decimal (n * 10 + digitOf char) _ some
      change (n * 10 + digitOf char) * 10 ≤ _ at least
      refine ⟨⟨_, 0, behind⟩, if_pos rfl, .inr ⟨?_, rfl, rfl, rfl⟩⟩
      rw [fits]
      omega
    | false =>
      have none : behind.head?.any decimal.isDigit = false := isDigit_decimal ▸ more
      have has := (fits (n * 10 + digitOf char)).mpr (by omega)
      have product := (fits (n * 10)).mpr (by omega)
      have factor : ((n * 10 : Nat) : Int) * sign = n * (10 * sign) := by push_cast; ring
      have sum : ((n * 10 + digitOf char : Nat) : Int) * sign =
          n * (10 * sign) + digitOf char * sign := by push_cast; ring
      rw [Radix.run_eq_nil_iff.mpr none, Radix.eat_of_ended none]
      change ∃ r, _ ∧ Converted type decimal.eat ((n * 10 + digitOf char : Nat) * _) behind r
      refine ⟨⟨.ok, _, behind⟩, ?_, .inl ⟨has, rfl⟩⟩
      rw [factor] at product
      rw [sum] at has ⊢
      rw [if_neg Bool.false_ne_true, Integral.exactly_of_has product.promoted, Option.bind_some,
        okResult_of_has has]

/-- What has to come out of a reading. -/
def Parsed (type : Integral) (start : List Byte) (ends : List Byte → List Byte)
    (found : Option (Int × List Byte)) (r : CharsToIntResult) : Prop :=
  match found with
  | none => r = ⟨.invalidArgument, 0, start⟩
  | some (value, rest) => Converted type ends value rest r

theorem decimalNumber_parsed {negative : Bool} (allowed : negative = true → type.signed = true)
    (first start : List Byte) :
    ∃ r, (if isDecimalHead first then decimalNumber type negative first
        else some ⟨.invalidArgument, 0, start⟩) = some r ∧
      Parsed type start decimal.eat
        ((decimal.read first).map fun (number, rest) =>
          ((number : Int) * if negative then -1 else 1, rest)) r := by
  rw [Radix.read]
  cases head : isDecimalHead first with
  | false =>
    have none : decimal.run first = [] := Radix.run_eq_nil_iff.mpr (isDigit_decimal ▸ head)
    rw [if_pos none]
    exact ⟨_, if_neg Bool.false_ne_true, rfl⟩
  | true =>
    have some : decimal.run first ≠ [] := by
      rw [ne_eq, Radix.run_eq_nil_iff, isDigit_decimal]
      exact fun none => Bool.false_ne_true (none.symm.trans head)
    rw [if_neg some, if_pos rfl]
    exact decimalNumber_converted allowed first

theorem readUnsigned_nil (chars : List Byte) : readUnsigned [] chars = decimal.read chars := by
  unfold readUnsigned
  split
  · exact if_neg (fun found => absurd found.2.1 List.not_mem_nil)
  · rfl

theorem decimalCharsToIntImpl_parsed (type : Integral) (chars : List Byte) :
    ∃ r, decimalCharsToIntImpl type chars = some r ∧
      Parsed type chars decimal.eat (readSigned type.signed [] chars) r := by
  rw [decimalCharsToIntImpl, readSigned, readUnsigned_nil, readUnsigned_nil]
  cases negative : type.signed && chars.head? == some 45 with
  | true =>
    have sign : type.signed = true ∧ chars.head? = some 45 := by simpa using negative
    rw [if_pos sign]
    have parsed := @decimalNumber_parsed type true (fun _ => sign.1) chars.tail chars
    simpa using parsed
  | false =>
    have unsigned : ¬(type.signed = true ∧ chars.head? = some 45) := by simpa using negative
    rw [if_neg unsigned]
    have parsed := @decimalNumber_parsed type false (fun none => by cases none) chars chars
    simpa using parsed

theorem isHexadecimalHead_iff : isHexadecimalHead first = true ↔ hexadecimal.run first ≠ [] := by
  rw [ne_eq, Radix.run_eq_nil_iff, isDigit_hexadecimal, Bool.not_eq_false]
  rfl

theorem hexadecimalCharsToIntImpl_converted
    (some : hexadecimal.run first ≠ []) :
    ∃ r, hexadecimalCharsToIntImpl type first = .some r ∧
      Converted type hexadecimal.eat (hexadecimal.value 0 (hexadecimal.run first) : Nat)
        (hexadecimal.eat first) r := by
  obtain ⟨least, _, last⟩ := type.max_facts
  rw [hexadecimalCharsToIntImpl, if_pos (isHexadecimalHead_iff.mpr some)]
  obtain ⟨taken, rest, rfl, digits, run, small, ended⟩ :=
    @Radix.loop_eq _ hexadecimal 0 type.promoted.max type.max (type.max / 16 + 1)
      type.max_le_promoted (by change 0 * 16 + 16 ≤ _; omega)
      (by change (type.max / 16 + 1) * 16 ≤ _; omega) first
  have whole := @Radix.value_append _ hexadecimal 0 taken (hexadecimal.run rest)
  rw [Radix.run_append digits, Radix.eat_append digits, whole, run]
  generalize hexadecimal.value 0 taken = n at small ended ⊢
  simp only [Option.bind_eq_bind, Option.bind_some]
  cases head : isHexadecimalHead rest with
  | false =>
    have none : hexadecimal.run rest = [] := by
      by_contra more
      exact Bool.false_ne_true (head.symm.trans (isHexadecimalHead_iff.mpr more))
    have has := (type.has_natural n).mpr small
    rw [none, Radix.eat_of_ended (Radix.run_eq_nil_iff.mp none), Integral.convert_of_has has]
    refine ⟨⟨.ok, n, rest⟩, ?_, .inl ⟨has, rfl⟩⟩
    split <;> rfl
  | true =>
    have more := isHexadecimalHead_iff.mp head
    have risky : ¬n ≤ type.max / 16 := by
      rcases ended with none | risky
      · exact absurd (Radix.run_eq_nil_iff.mpr none) more
      · omega
    have least := @Radix.mul_base_le_value _ hexadecimal n _ more
    change n * 16 ≤ _ at least
    refine ⟨⟨.resultOutOfRange, 0, rest⟩, ?_, .inr ⟨?_, rfl, rfl, rfl⟩⟩
    · rw [if_neg risky, if_pos rfl]
    · rw [Integral.has_natural]
      omega

/-- A hexadecimal number behind its prefix. -/
def Prefixed (chars : List Byte) : Prop :=
  ∃ x ∈ [120, 88], ∃ digits, chars = 48 :: x :: digits ∧ hexadecimal.run digits ≠ []

theorem positivePrefix_iff : (decide (3 ≤ first.length) && isHexadecimalPrefix first &&
    isHexadecimalHead (first.drop 2)) = true ↔ Prefixed first := by
  simp only [Bool.and_eq_true, decide_eq_true_eq, isHexadecimalHead_iff]
  constructor
  · rintro ⟨⟨_, found⟩, some⟩
    match first, found with
    | zero :: x :: digits, found =>
      simp only [isHexadecimalPrefix, Bool.and_eq_true, beq_iff_eq, Bool.or_eq_true] at found
      obtain ⟨rfl, letter⟩ := found
      exact ⟨x, by simpa using letter, digits, rfl, some⟩
  · rintro ⟨x, letter, digits, rfl, some⟩
    refine ⟨⟨?_, by simpa [isHexadecimalPrefix] using letter⟩, some⟩
    cases digits with
    | nil => exact absurd rfl some
    | cons digit digits => simp

theorem negativePrefix_iff : (decide (4 ≤ first.length) && first.head? == some 45 &&
    isHexadecimalPrefix (first.drop 1) && isHexadecimalHead (first.drop 3)) = true ↔
      ∃ body, first = 45 :: body ∧ Prefixed body := by
  cases first with
  | nil => simp
  | cons char body =>
    have inner := @positivePrefix_iff body
    simp only [Bool.and_eq_true, decide_eq_true_eq] at inner
    simp only [Bool.and_eq_true, decide_eq_true_eq, List.length_cons, List.head?_cons, beq_iff_eq,
      List.drop_succ_cons, List.drop_zero, Option.some.injEq, Nat.reduceLeDiff, List.cons.injEq]
    constructor
    · rintro ⟨⟨⟨long, rfl⟩, found⟩, head⟩
      exact ⟨body, ⟨rfl, rfl⟩, inner.mp ⟨⟨by omega, found⟩, head⟩⟩
    · rintro ⟨_, ⟨rfl, rfl⟩, prefixed⟩
      obtain ⟨⟨long, found⟩, head⟩ := inner.mpr prefixed
      exact ⟨⟨⟨by omega, rfl⟩, found⟩, head⟩

theorem readUnsigned_unprefixed (unprefixed : ¬Prefixed first) :
    readUnsigned [120, 88] first = decimal.read first := by
  unfold readUnsigned
  split
  · next zero x digits =>
    apply if_neg
    rintro ⟨rfl, letter, some⟩
    exact unprefixed ⟨x, letter, digits, rfl, some⟩
  · rfl

theorem readUnsigned_prefixed {x : Byte} {digits : List Byte} (letter : x ∈ [120, 88])
    (some : hexadecimal.run digits ≠ []) :
    readUnsigned [120, 88] (48 :: x :: digits) =
      .some (hexadecimal.value 0 (hexadecimal.run digits), hexadecimal.eat digits) := by
  rw [readUnsigned, if_pos ⟨rfl, letter, some⟩, Radix.read, if_neg some]

theorem bound_le_makeUnsigned (type : Integral) : type.bound ≤ type.makeUnsigned.bound := by
  unfold Integral.bound
  split
  · exact Nat.pow_le_pow_right (by decide) (Nat.sub_le _ _)
  · exact Nat.le_refl _

theorem bound_makeUnsigned (signed : type.signed = true) :
    type.makeUnsigned.bound = 2 * type.bound := by
  have char := type.char
  change 2 ^ type.width = _
  rw [Integral.bound, if_pos signed, ← Nat.pow_succ', Nat.succ_eq_add_one,
    show type.width - 1 + 1 = type.width by omega]

theorem abs_min (signed : type.signed = true) :
    type.makeUnsigned.convert (-type.min.tdiv 16) * 16 +
      type.makeUnsigned.convert (-type.min.tmod 16) = type.bound := by
  obtain ⟨exponent, bound⟩ := type.bound_eq
  have larger := bound_le_makeUnsigned type
  have next := type.makeUnsigned.max_add_one
  have lowest : type.min = -(16 * ((4 * 2 ^ exponent : Nat) : Int)) := by
    rw [Integral.min, if_pos signed, bound]
    push_cast
    ring
  have quotient : type.makeUnsigned.Has ((4 * 2 ^ exponent : Nat) : Int) :=
    (Integral.has_natural _ _).mpr (by omega)
  have remainder : type.makeUnsigned.Has ((0 : Nat) : Int) := (Integral.has_natural _ 0).mpr (by omega)
  rw [lowest, Int.neg_tdiv, Int.mul_tdiv_cancel_left _ (by decide), Int.neg_tmod,
    Int.mul_tmod_right, neg_neg, Integral.convert_of_has quotient]
  change _ + type.makeUnsigned.convert ((0 : Nat) : Int) = _
  rw [Integral.convert_of_has remainder, bound]
  push_cast
  ring

theorem has_neg (signed : type.signed = true) (magnitude : Nat) :
    type.Has (-(magnitude : Int)) ↔ magnitude ≤ type.bound := by
  have next := type.max_add_one
  rw [Integral.Has, Integral.min_eq, if_pos signed]
  omega

/-- The negation of a magnitude, in the arithmetic of the unsigned type. -/
theorem negated {magnitude : Nat} (signed : type.signed = true) (small : magnitude ≤ type.bound)
    (ptr : List Byte) :
    (do
      let val ← type.makeUnsigned.promoted.arithmetic (-((magnitude : Int) / 16))
      let val ← type.makeUnsigned.promoted.arithmetic (val * 16)
      let val ← type.makeUnsigned.promoted.arithmetic (val - (magnitude : Int) % 16)
      some (⟨.ok, type.convert val, ptr⟩ : CharsToIntResult)) = some ⟨.ok, -(magnitude : Int), ptr⟩ := by
  have has := (has_neg signed magnitude).mpr small
  have sum : -((magnitude : Int) / 16) * 16 - (magnitude : Int) % 16 = -magnitude := by omega
  by_cases narrow : type.width < 32
  · -- Everything is an `int`.
    have int : type.makeUnsigned.promoted = ⟨32, true, by decide⟩ := if_pos narrow
    have larger : type.bound ≤ 2 ^ 31 := by
      rw [Integral.bound, if_pos signed]
      exact Nat.pow_le_pow_right (by decide) (by omega)
    have fits (value : Int) (least : -2 ^ 31 ≤ value) (most : value ≤ 0) :
        (⟨32, true, by decide⟩ : Integral).arithmetic value = some value := by
      have has32 : (⟨32, true, by decide⟩ : Integral).Has value := ⟨least, most.trans (by decide)⟩
      exact Integral.exactly_of_has has32
    rw [int, fits _ (by omega) (by omega)]
    simp only [Option.bind_eq_bind, Option.bind_some]
    rw [fits _ (by omega) (by omega), Option.bind_some, fits _ (by omega) (by omega),
      Option.bind_some, sum, Integral.convert_of_has has]
  · have wide : type.makeUnsigned.promoted = type.makeUnsigned := if_neg narrow
    have wraps (value : Int) :
        type.makeUnsigned.arithmetic value = some (value % 2 ^ type.width) := rfl
    rw [wide]
    simp only [wraps, Option.bind_eq_bind, Option.bind_some, Option.some.injEq,
      CharsToIntResult.mk.injEq, true_and, and_true]
    have product := (Int.mod_modEq (-((magnitude : Int) / 16)) (2 ^ type.width)).mul_right 16
    have difference := ((Int.mod_modEq _ _).trans product).sub_right ((magnitude : Int) % 16)
    rw [sum] at difference
    rw [difference]
    have kept := Integral.convert_of_has has
    rw [Integral.convert, if_pos signed] at kept ⊢
    have cast : ((2 ^ type.width : Nat) : Int) = 2 ^ type.width := by push_cast; rfl
    rw [← cast, Int.emod_bmod]
    exact kept

theorem Converted.eaten {radix : Radix Byte} {value : Int} {start : List Byte}
    {r : CharsToIntResult} (converted : Converted type radix.eat value (radix.eat start) r) :
    Converted type id value (radix.eat start) { r with ptr := radix.eat r.ptr } := by
  rcases converted with ⟨has, rfl⟩ | ⟨no, ec, val, eaten⟩
  · refine .inl ⟨has, ?_⟩
    rw [Radix.eat_eat]
  · exact .inr ⟨no, ec, val, eaten⟩

theorem negativePrefix_parsed {body : List Byte} (signed : type.signed = true)
    (prefixed : Prefixed body) (start : List Byte) :
    ∃ r, (do
        let r ← hexadecimalCharsToIntImpl type.makeUnsigned (body.drop 2)
        if r.ec = .ok then
          if r.val ≤ type.makeUnsigned.convert (-type.min.tdiv 16) * 16 +
              type.makeUnsigned.convert (-type.min.tmod 16) then do
            let val ← type.makeUnsigned.promoted.arithmetic (-(r.val / 16))
            let val ← type.makeUnsigned.promoted.arithmetic (val * 16)
            let val ← type.makeUnsigned.promoted.arithmetic (val - r.val % 16)
            some ⟨.ok, type.convert val, r.ptr⟩
          else some ⟨.resultOutOfRange, 0, r.ptr⟩
        else some (⟨r.ec, type.convert r.val, hexadecimal.eat r.ptr⟩ : CharsToIntResult)) = some r ∧
      Parsed type start id (readSigned type.signed [120, 88] (45 :: body)) r := by
  obtain ⟨x, letter, digits, rfl, more⟩ := prefixed
  obtain ⟨r, run, converted⟩ :=
    @hexadecimalCharsToIntImpl_converted type.makeUnsigned digits more
  have next := type.makeUnsigned.max_add_one
  have double := bound_makeUnsigned signed
  rw [readSigned, if_pos ⟨signed, rfl⟩, List.tail_cons, readUnsigned_prefixed letter more, abs_min signed]
  generalize hexadecimal.value 0 (hexadecimal.run digits) = magnitude at converted ⊢
  change ∃ r, (hexadecimalCharsToIntImpl type.makeUnsigned digits >>= _) = some r ∧
    Converted type id (-(magnitude : Int)) (hexadecimal.eat digits) r
  rw [run, Option.bind_eq_bind, Option.bind_some]
  rcases converted with ⟨has, rfl⟩ | ⟨no, ec, val, eaten⟩
  · rw [if_pos rfl]
    by_cases small : magnitude ≤ type.bound
    · refine ⟨⟨.ok, _, hexadecimal.eat digits⟩, ?_, .inl ⟨(has_neg signed _).mpr small, rfl⟩⟩
      rw [if_pos (Int.ofNat_le.mpr small)]
      exact negated signed small _
    · rw [if_neg (fun large => small (Int.ofNat_le.mp large))]
      exact ⟨_, rfl, .inr ⟨mt (has_neg signed _).mp small, rfl, rfl, rfl⟩⟩
  · have zero : type.convert r.val = 0 := val ▸ type.convert_zero
    rw [Integral.has_natural] at no
    rw [if_neg (by rw [ec]; decide)]
    refine ⟨_, rfl, .inr ⟨?_, ec, zero, eaten⟩⟩
    rw [has_neg signed]
    omega

theorem readSigned_prefixed (minus : Bool) (prefixed : Prefixed first) :
    readSigned minus [120, 88] first =
      (readUnsigned [120, 88] first).map fun (number, rest) => ((number : Int), rest) := by
  obtain ⟨x, letter, digits, rfl, more⟩ := prefixed
  apply if_neg
  rintro ⟨_, head⟩
  cases head

theorem positivePrefix_parsed (prefixed : Prefixed first) :
    ∃ r, (if type.signed then do
        let r ← hexadecimalCharsToIntImpl type.makeUnsigned (first.drop 2)
        if r.ec = .ok then
          if r.val ≤ type.max then some ⟨.ok, type.convert r.val, r.ptr⟩
          else some ⟨.resultOutOfRange, 0, r.ptr⟩
        else some (⟨r.ec, type.convert r.val, hexadecimal.eat r.ptr⟩ : CharsToIntResult)
      else if !type.signed then do
        let r ← hexadecimalCharsToIntImpl type (first.drop 2)
        some { r with ptr := hexadecimal.eat r.ptr }
      else do
        let r ← decimalCharsToIntImpl type first
        some { r with ptr := decimal.eat r.ptr }) = some r ∧
      Parsed type first id (readSigned type.signed [120, 88] first) r := by
  rw [readSigned_prefixed type.signed prefixed]
  obtain ⟨x, letter, digits, rfl, more⟩ := prefixed
  rw [readUnsigned_prefixed letter more]
  cases sign : type.signed with
  | true =>
    obtain ⟨r, run, converted⟩ :=
      @hexadecimalCharsToIntImpl_converted type.makeUnsigned digits more
    have larger := bound_le_makeUnsigned type
    have next := type.max_add_one
    have nextUnsigned := type.makeUnsigned.max_add_one
    generalize hexadecimal.value 0 (hexadecimal.run digits) = number at converted ⊢
    change ∃ r, (hexadecimalCharsToIntImpl type.makeUnsigned digits >>= _) = some r ∧
      Converted type id (number : Int) (hexadecimal.eat digits) r
    rw [run, Option.bind_eq_bind, Option.bind_some]
    rcases converted with ⟨has, rfl⟩ | ⟨no, ec, val, eaten⟩
    · rw [if_pos rfl]
      by_cases small : number ≤ type.max
      · have has := (type.has_natural number).mpr small
        refine ⟨⟨.ok, _, hexadecimal.eat digits⟩, ?_, .inl ⟨has, rfl⟩⟩
        rw [if_pos (Int.ofNat_le.mpr small), Integral.convert_of_has has]
      · rw [if_neg (fun large => small (Int.ofNat_le.mp large))]
        exact ⟨_, rfl, .inr ⟨mt (type.has_natural number).mp small, rfl, rfl, rfl⟩⟩
    · have zero : type.convert r.val = 0 := val ▸ type.convert_zero
      rw [Integral.has_natural] at no
      rw [if_neg (by rw [ec]; decide)]
      refine ⟨_, rfl, .inr ⟨?_, ec, zero, eaten⟩⟩
      rw [Integral.has_natural]
      omega
  | false =>
    obtain ⟨r, run, converted⟩ := @hexadecimalCharsToIntImpl_converted type digits more
    change ∃ r, (hexadecimalCharsToIntImpl type digits >>= _) = some r ∧
      Converted type id _ (hexadecimal.eat digits) r
    rw [run, Option.bind_eq_bind, Option.bind_some]
    exact ⟨_, rfl, converted.eaten⟩

theorem readSigned_unprefixed {minus : Bool}
    (negative : ¬(minus = true ∧ ∃ body, first = 45 :: body ∧ Prefixed body))
    (positive : ¬Prefixed first) : readSigned minus [120, 88] first = readSigned minus [] first := by
  rw [readSigned, readSigned, readUnsigned_nil, readUnsigned_nil, readUnsigned_unprefixed positive]
  split
  · next sign =>
    obtain ⟨body, rfl⟩ := List.head?_eq_some_iff.mp sign.2
    rw [List.tail_cons, readUnsigned_unprefixed (fun prefixed => negative ⟨sign.1, body, rfl, prefixed⟩)]
  · rfl

theorem Parsed.eaten {minus : Bool} {r : CharsToIntResult}
    (parsed : Parsed type first decimal.eat (readSigned minus [] first) r) :
    Parsed type first id (readSigned minus [] first) { r with ptr := decimal.eat r.ptr } := by
  have shape : (readSigned minus [] first = none ∧ decimal.eat first = first) ∨
      ∃ value start, readSigned minus [] first = some (value, decimal.eat start) := by
    rw [readSigned, readUnsigned_nil, readUnsigned_nil, Radix.read, Radix.read]
    split
    · next sign =>
      obtain ⟨body, rfl⟩ := List.head?_eq_some_iff.mp sign.2
      split
      · exact .inl ⟨rfl, rfl⟩
      · exact .inr ⟨_, body, rfl⟩
    · split
      · next none => exact .inl ⟨rfl, Radix.eat_of_ended (Radix.run_eq_nil_iff.mp none)⟩
      · exact .inr ⟨_, first, rfl⟩
  rcases shape with ⟨none, same⟩ | ⟨value, start, some⟩
  · rw [none] at parsed ⊢
    have invalid : r = ⟨.invalidArgument, 0, first⟩ := parsed
    rw [invalid]
    exact congrArg (CharsToIntResult.mk .invalidArgument 0) same
  · rw [some] at parsed ⊢
    exact Converted.eaten parsed

theorem stringToIntImpl_parsed (type : Integral) (s : List Byte) :
    ∃ r, stringToIntImpl type s = some r ∧
      Parsed type (s.dropWhile isSpace) id (readNumber type.signed [120, 88] s) r := by
  rw [stringToIntImpl, readNumber]
  generalize s.dropWhile isSpace = s
  have positive := @positivePrefix_iff s
  have negative := @negativePrefix_iff s
  generalize (decide (3 ≤ s.length) && isHexadecimalPrefix s &&
    isHexadecimalHead (s.drop 2)) = positivePrefix at positive ⊢
  by_cases minus : type.signed = true ∧ ∃ body, s = 45 :: body ∧ Prefixed body
  · rw [if_pos (by rw [minus.1, negative.mpr minus.2]; rfl)]
    obtain ⟨signed, body, rfl, prefixed⟩ := minus
    exact negativePrefix_parsed signed prefixed _
  rw [if_neg (by rw [Bool.and_eq_true, negative]; exact minus)]
  by_cases prefixed : Prefixed s
  · rw [positive.mpr prefixed, Bool.and_true, Bool.and_true]
    exact positivePrefix_parsed prefixed
  · have none : positivePrefix = false := by
      rw [← Bool.not_eq_true, positive]
      exact prefixed
    rw [none, Bool.and_false, Bool.and_false, if_neg Bool.false_ne_true, if_neg Bool.false_ne_true]
    rw [readSigned_unprefixed minus prefixed]
    obtain ⟨r, run, parsed⟩ := decimalCharsToIntImpl_parsed type s
    rw [run, Option.bind_eq_bind, Option.bind_some]
    exact ⟨_, rfl, parsed.eaten⟩

end Parsing

section Exactness

variable {type : Integral} {form : List Byte → Int → Prop} {chars start : List Byte}

/-- The outcome is that of unbounded arithmetic on the longest text of a form. -/
structure Exact (type : Integral) (form : List Byte → Int → Prop) (chars : List Byte)
    (r : CharsToIntResult) : Prop where
  ok : ∀ value rest, r = ⟨.ok, value, rest⟩ ↔ Longest form chars value rest ∧ type.Has value
  resultOutOfRange : r.ec = .resultOutOfRange ↔
    ∃ value rest, Longest form chars value rest ∧ ¬type.Has value
  invalidArgument : r.ec = .invalidArgument ↔ ∀ text value, text <+: chars → ¬form text value

theorem Parsed.exact {ends : List Byte → List Byte} {found : Option (Int × List Byte)}
    {r : CharsToIntResult} (parsed : Parsed type start ends found r) (reads : Reads form chars found)
    (functional : ∀ text value other, form text value → form text other → value = other) :
    Exact type form chars r := by
  have longest (value : Int) (rest : List Byte) := @Reads.longest_iff _ _ _ _ rest value functional _ reads
  rcases found with _ | ⟨found, behind⟩
  · have invalid : r = ⟨.invalidArgument, 0, start⟩ := parsed
    subst invalid
    constructor
    · intro value rest
      rw [longest]
      simp
    · simp only [longest]
      simp
    · exact iff_of_true rfl reads
  · have some : ¬∀ text value, text <+: chars → ¬form text value := by
      obtain ⟨text, parts, denotes, _⟩ := reads
      exact fun none => none text found ⟨behind, parts.symm⟩ denotes
    simp only [Option.some.injEq, Prod.mk.injEq] at longest
    rcases parsed with ⟨has, rfl⟩ | ⟨no, ec, _, _⟩
    · constructor
      · intro value rest
        rw [longest]
        constructor
        · intro same
          cases same
          exact ⟨⟨rfl, rfl⟩, has⟩
        · rintro ⟨⟨rfl, rfl⟩, _⟩
          rfl
      · refine iff_of_false (by simp) ?_
        rintro ⟨value, rest, same, no⟩
        obtain ⟨rfl, rfl⟩ := (longest value rest).mp same
        exact no has
      · exact iff_of_false (by simp) some
    · constructor
      · intro value rest
        rw [longest]
        refine iff_of_false (fun same => ?_) ?_
        · rw [same] at ec
          cases ec
        · rintro ⟨⟨rfl, rfl⟩, has⟩
          exact no has
      · exact iff_of_true ec ⟨found, behind, (longest found behind).mpr ⟨rfl, rfl⟩, no⟩
      · exact iff_of_false (by rw [ec]; decide) some

theorem Parsed.ptr {found : Option (Int × List Byte)} {r : CharsToIntResult}
    (parsed : Parsed type start id found r) (reads : Reads form chars found)
    (functional : ∀ text value other, form text value → form text other → value = other)
    {value : Int} {rest : List Byte} (longest : Longest form chars value rest) : r.ptr = rest := by
  rw [reads.longest_iff functional] at longest
  subst longest
  rcases parsed with ⟨_, rfl⟩ | ⟨_, _, _, behind⟩
  · rfl
  · exact behind

/-- Numbers are read as unbounded arithmetic has them, with no overflow on the way. -/
theorem chars_to_int_exact (type : Integral) (chars : List Byte) :
    (∃ r, decimalCharsToIntImpl type chars = some r ∧
      Exact type (SignedForm type.signed []) chars r) ∧
    ∃ r, stringToIntImpl type chars = some r ∧
      Exact type (NumberForm type.signed [120, 88]) chars r ∧
      ∀ value rest, Longest (NumberForm type.signed [120, 88]) chars value rest → r.ptr = rest := by
  have letters : ∀ x ∈ [(120 : Byte), 88], isDecimalChar x = false := by decide
  have noLetters : ∀ x ∈ ([] : List Byte), isDecimalChar x = false := by decide
  obtain ⟨r, run, parsed⟩ := decimalCharsToIntImpl_parsed type chars
  obtain ⟨r', run', parsed'⟩ := stringToIntImpl_parsed type chars
  have reads := reads_number letters type.signed chars
  constructor
  · exact ⟨r, run, parsed.exact (reads_signed noLetters type.signed chars)
      (SignedForm.functional noLetters)⟩
  · refine ⟨r', run', parsed'.exact reads (NumberForm.functional letters), ?_⟩
    intro value rest longest
    exact parsed'.ptr reads (NumberForm.functional letters) longest

/-- A capital letter makes a prefix too. -/
theorem stringToInt_capital :
    stringToIntImpl ⟨32, true, by decide⟩ [48, 88, 49, 70] = some ⟨.ok, 31, []⟩ ∧
      Longest (NumberForm true [120]) [48, 88, 49, 70] 0 [88, 49, 70] := by
  constructor
  · decide
  · exact @reads_number [120] (by decide) true [48, 88, 49, 70]

end Exactness

end Redemption.Utils
