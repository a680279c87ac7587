import Mathlib.Data.List.TakeWhile
import Mathlib.Tactic.Ring

/-! Numerals among characters, the texts of a form, and the loop that stops before an overflow. -/
namespace Redemption.Foundation

section Forms

variable {Char Value Denoted : Type}

/-- The longest text of a form that characters begin with, what it denotes and what is behind it. -/
def Longest (form : List Char → Value → Prop) (chars : List Char) (value : Value)
    (rest : List Char) : Prop :=
  ∃ text, chars = text ++ rest ∧ form text value ∧
    ∀ other denoted, other <+: chars → form other denoted → other.length ≤ text.length

/-- What is found at the front of characters, which is nothing without a text of the form. -/
def Reads (form : List Char → Value → Prop) (chars : List Char) :
    Option (Value × List Char) → Prop
  | some (value, rest) => Longest form chars value rest
  | none => ∀ text value, text <+: chars → ¬form text value

variable {form : List Char → Value → Prop} {chars rest : List Char} {value : Value}

theorem Longest.unique (functional : ∀ text value other, form text value → form text other →
    value = other) {value' : Value} {rest' : List Char} (one : Longest form chars value rest)
    (two : Longest form chars value' rest') : value = value' ∧ rest = rest' := by
  obtain ⟨text, parts, denotes, most⟩ := one
  obtain ⟨text', parts', denotes', most'⟩ := two
  have length : text.length = text'.length := by
    apply Nat.le_antisymm
    · exact most' text value ⟨rest, parts.symm⟩ denotes
    · exact most text' value' ⟨rest', parts'.symm⟩ denotes'
  obtain ⟨rfl, rfl⟩ := List.append_inj (parts.symm.trans parts') length
  exact ⟨functional text value value' denotes denotes', rfl⟩

/-- A reading decides what the longest text is. -/
theorem Reads.longest_iff (functional : ∀ text value other, form text value → form text other →
    value = other) {found : Option (Value × List Char)} (reads : Reads form chars found) :
    Longest form chars value rest ↔ found = some (value, rest) := by
  constructor
  · intro longest
    rcases found with _ | ⟨value', rest'⟩
    · obtain ⟨text, parts, denotes, _⟩ := longest
      exact absurd denotes (reads text value ⟨rest, parts.symm⟩)
    · obtain ⟨rfl, rfl⟩ := Longest.unique functional longest reads
      rfl
  · rintro rfl
    exact reads

/-- A form behind characters that each of its texts begins with. -/
theorem Reads.behind {form' : List Char → Denoted → Prop} {found : Option (Value × List Char)}
    (skip : List Char) (denote : Value → Denoted)
    (here : ∀ text value, form text value → form' (skip ++ text) (denote value))
    (there : ∀ text denoted, text <+: skip ++ chars → form' text denoted →
      ∃ shorter value, text = skip ++ shorter ∧ form shorter value)
    (reads : Reads form chars found) :
    Reads form' (skip ++ chars) (found.map fun (value, rest) => (denote value, rest)) := by
  rcases found with _ | ⟨value, rest⟩
  · intro text denoted front denotes
    obtain ⟨shorter, value, rfl, inner⟩ := there text denoted front denotes
    exact reads shorter value ((List.prefix_append_right_inj skip).mp front) inner
  · obtain ⟨text, parts, denotes, most⟩ := reads
    refine ⟨skip ++ text, by rw [parts, List.append_assoc], here text value denotes, ?_⟩
    intro other denoted front denotes'
    obtain ⟨shorter, value', rfl, inner⟩ := there other denoted front denotes'
    have length := most shorter value' ((List.prefix_append_right_inj skip).mp front) inner
    rw [List.length_append, List.length_append]
    exact Nat.add_le_add_left length _

end Forms

/-- The digits of a positional notation. -/
structure Radix (Char : Type) where
  base : Nat
  digit : Char → Option Nat
  positive : 0 < base
  small : ∀ char value, digit char = some value → value < base

namespace Radix

variable {Char : Type} (radix : Radix Char)

def isDigit (char : Char) : Bool := (radix.digit char).isSome

/-- The number that digits stand for behind a number. -/
def value (number : Nat) (chars : List Char) : Nat :=
  chars.foldl (fun number char => number * radix.base + (radix.digit char).getD 0) number

/-- The digits that characters begin with. -/
def run (chars : List Char) : List Char := chars.takeWhile radix.isDigit

/-- The characters from the first one that is no digit. -/
def eat (chars : List Char) : List Char := chars.dropWhile radix.isDigit

/-- Digits, at least one. -/
def Numeral (text : List Char) (number : Nat) : Prop :=
  text ≠ [] ∧ (∀ char ∈ text, radix.isDigit char = true) ∧ number = radix.value 0 text

def read (chars : List Char) : Option (Nat × List Char) :=
  if radix.run chars = [] then none else some (radix.value 0 (radix.run chars), radix.eat chars)

/-- Take digits until one more could be too many, with numbers up to some largest. -/
def loop (most limit number : Nat) : List Char → Option (Nat × List Char)
  | [] => some (number, [])
  | char :: first =>
    match radix.digit char with
    | none => some (number, char :: first)
    | some digit =>
      if number * radix.base ≤ most ∧ number * radix.base + digit ≤ most then
        if number * radix.base + digit < limit then
          loop most limit (number * radix.base + digit) first
        else some (number * radix.base + digit, first)
      else none

variable {radix} {number : Nat} {chars rest : List Char}

theorem run_append_eat (chars : List Char) : radix.run chars ++ radix.eat chars = chars :=
  List.takeWhile_append_dropWhile

theorem isDigit_of_mem_run {char : Char} (member : char ∈ radix.run chars) :
    radix.isDigit char = true :=
  List.mem_takeWhile_imp member

theorem value_append (number : Nat) (first second : List Char) :
    radix.value number (first ++ second) = radix.value (radix.value number first) second :=
  List.foldl_append

theorem run_append {text : List Char} (digits : ∀ char ∈ text, radix.isDigit char = true) :
    radix.run (text ++ rest) = text ++ radix.run rest :=
  List.takeWhile_append_of_pos digits

theorem eat_append {text : List Char} (digits : ∀ char ∈ text, radix.isDigit char = true) :
    radix.eat (text ++ rest) = radix.eat rest :=
  List.dropWhile_append_of_pos digits

theorem run_eq_nil_iff : radix.run chars = [] ↔ chars.head?.any radix.isDigit = false := by
  cases chars with
  | nil => simp [run]
  | cons char chars => cases digit : radix.isDigit char <;> simp [run, digit]

theorem eat_of_ended (ended : chars.head?.any radix.isDigit = false) : radix.eat chars = chars := by
  have none := run_eq_nil_iff.mpr ended
  have parts := @run_append_eat _ radix chars
  rw [none] at parts
  exact parts

theorem eat_eat (chars : List Char) : radix.eat (radix.eat chars) = radix.eat chars := by
  have all := @eat_append _ radix (radix.eat chars) (radix.run chars) (fun _ => isDigit_of_mem_run)
  rw [run_append_eat] at all
  exact all.symm

theorem numeral_functional (text : List Char) (number other : Nat) (one : radix.Numeral text number)
    (two : radix.Numeral text other) : number = other :=
  one.2.2.trans two.2.2.symm

theorem length_le_run {text : List Char} (front : text <+: chars)
    (digits : ∀ char ∈ text, radix.isDigit char = true) :
    text.length ≤ (radix.run chars).length := by
  obtain ⟨rest, rfl⟩ := front
  rw [run_append digits, List.length_append]
  exact Nat.le_add_right _ _

theorem reads_numeral (chars : List Char) : Reads radix.Numeral chars (radix.read chars) := by
  unfold read
  split
  · next none =>
    intro text number front ⟨more, digits, _⟩
    have length := length_le_run front digits
    rw [none] at length
    exact more (List.length_eq_zero_iff.mp (Nat.le_zero.mp length))
  · next more =>
    refine ⟨radix.run chars, (run_append_eat chars).symm, ⟨more, ?_, rfl⟩, ?_⟩
    · intro char member
      exact isDigit_of_mem_run member
    · intro other number front numeral
      exact length_le_run front numeral.2.1

theorem mul_le_value (number : Nat) (chars : List Char) :
    number * radix.base ^ chars.length ≤ radix.value number chars := by
  induction chars generalizing number with
  | nil => simp [value]
  | cons char chars ih =>
    have step := ih (number * radix.base + (radix.digit char).getD 0)
    rw [List.length_cons, Nat.pow_succ]
    calc number * (radix.base ^ chars.length * radix.base)
        = number * radix.base * radix.base ^ chars.length := by ring
      _ ≤ (number * radix.base + (radix.digit char).getD 0) * radix.base ^ chars.length :=
        Nat.mul_le_mul_right _ (Nat.le_add_right _ _)
      _ ≤ radix.value number (char :: chars) := step

theorem le_value (number : Nat) (chars : List Char) : number ≤ radix.value number chars :=
  (Nat.le_mul_of_pos_right number (Nat.pow_pos radix.positive)).trans (mul_le_value number chars)

theorem mul_base_le_value (number : Nat) {chars : List Char} (more : chars ≠ []) :
    number * radix.base ≤ radix.value number chars := by
  have least := @mul_le_value _ radix number chars
  have length : radix.base ^ 1 ≤ radix.base ^ chars.length :=
    Nat.pow_le_pow_right radix.positive (List.length_pos_iff.mpr more)
  rw [Nat.pow_one] at length
  exact (Nat.mul_le_mul_left number length).trans least

/-- The loop ends with the digits, or once the number reaches the limit. -/
theorem loop_eq {most bound limit : Nat} (within : bound ≤ most)
    (room : number * radix.base + radix.base ≤ bound + 1)
    (limited : limit * radix.base ≤ bound + 1) (chars : List Char) :
    ∃ taken rest, chars = taken ++ rest ∧ (∀ char ∈ taken, radix.isDigit char = true) ∧
      radix.loop most limit number chars = some (radix.value number taken, rest) ∧
      radix.value number taken ≤ bound ∧
      (rest.head?.any radix.isDigit = false ∨ limit ≤ radix.value number taken) := by
  have positive := radix.positive
  induction chars generalizing number with
  | nil =>
    refine ⟨[], [], rfl, by simp, rfl, ?_, .inl rfl⟩
    have least := Nat.le_mul_of_pos_right number positive
    change number ≤ bound
    omega
  | cons char first ih =>
    rw [loop]
    cases found : radix.digit char with
    | none =>
      refine ⟨[], char :: first, rfl, by simp, rfl, ?_, .inl (by simp [isDigit, found])⟩
      have least := Nat.le_mul_of_pos_right number positive
      change number ≤ bound
      omega
    | some digit =>
      have small := radix.small char digit found
      have isDigit : radix.isDigit char = true := by simp [Radix.isDigit, found]
      have next (chars : List Char) : radix.value number (char :: chars) =
          radix.value (number * radix.base + digit) chars := by
        rw [value, List.foldl_cons, found]
        rfl
      simp only
      rw [if_pos (by omega)]
      by_cases below : number * radix.base + digit < limit
      · have room' : (number * radix.base + digit) * radix.base + radix.base ≤ bound + 1 := by
          calc (number * radix.base + digit) * radix.base + radix.base
              = (number * radix.base + digit + 1) * radix.base := by ring
            _ ≤ limit * radix.base := Nat.mul_le_mul_right _ below
            _ ≤ bound + 1 := limited
        obtain ⟨taken, rest, parts, digits, run, small', ended⟩ := ih room'
        rw [if_pos below]
        refine ⟨char :: taken, rest, by rw [parts, List.cons_append], ?_, ?_, ?_, ?_⟩
        · exact List.forall_mem_cons.mpr ⟨isDigit, digits⟩
        · rw [next, run]
        · rw [next]
          exact small'
        · rw [next]
          exact ended
      · rw [if_neg below]
        refine ⟨[char], first, rfl, by simpa using isDigit, by rw [next]; rfl, ?_, .inr ?_⟩
        · rw [next]
          change number * radix.base + digit ≤ bound
          omega
        · rw [next]
          exact Nat.le_of_not_lt below

end Radix

end Redemption.Foundation
