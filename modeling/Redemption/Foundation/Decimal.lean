import Mathlib.Algebra.Ring.Nat
import Mathlib.Data.List.Basic

/-! Decimal numbers as characters. -/
namespace Redemption.Foundation

/-- The digits of a number, the highest first. -/
def decimalDigits (number : Nat) : List Nat :=
  if number < 10 then [number] else decimalDigits (number / 10) ++ [number % 10]

/-- The number that digits stand for behind a number. -/
def digitsValue (number : Nat) (digits : List Nat) : Nat :=
  digits.foldl (fun number digit => number * 10 + digit) number

def digitChar (digit : Nat) : BitVec 8 := BitVec.ofNat 8 (48 + digit)

/-- `is_decimal_char`. -/
def isDecimalChar (char : BitVec 8) : Bool := 48 ≤ char.toNat && char.toNat ≤ 57

/-- `%llu`. -/
def unsignedChars (number : Nat) : List (BitVec 8) := (decimalDigits number).map digitChar

/-- `%lld`. -/
def signedChars (number : Int) : List (BitVec 8) :=
  if number < 0 then 45 :: unsignedChars number.natAbs else unsignedChars number.natAbs

theorem digitsValue_cons (number digit : Nat) (digits : List Nat) :
    digitsValue number (digit :: digits) = digitsValue (number * 10 + digit) digits := rfl

theorem digitsValue_append (number : Nat) (first second : List Nat) :
    digitsValue number (first ++ second) = digitsValue (digitsValue number first) second :=
  List.foldl_append

theorem digitsValue_decimalDigits (number : Nat) :
    digitsValue 0 (decimalDigits number) = number := by
  induction number using decimalDigits.induct with
  | case1 number small =>
    rw [decimalDigits, if_pos small]
    exact Nat.zero_add number
  | case2 number large ih =>
    rw [decimalDigits, if_neg large, digitsValue_append, ih]
    change number / 10 * 10 + number % 10 = number
    omega

theorem decimalDigits_lt (number : Nat) : ∀ digit ∈ decimalDigits number, digit < 10 := by
  induction number using decimalDigits.induct with
  | case1 number small =>
    rw [decimalDigits, if_pos small]
    simpa using small
  | case2 number large ih =>
    rw [decimalDigits, if_neg large]
    intro digit member
    rcases List.mem_append.mp member with front | last
    · exact ih digit front
    · rw [List.mem_singleton.mp last]
      omega

theorem decimalDigits_ne_nil (number : Nat) : decimalDigits number ≠ [] := by
  rw [decimalDigits]
  split
  · exact List.cons_ne_nil _ _
  · simp

theorem length_decimalDigits {number count : Nat} (small : number < 10 ^ (count + 1)) :
    (decimalDigits number).length ≤ count + 1 := by
  induction count generalizing number with
  | zero =>
    rw [decimalDigits, if_pos (by simpa using small)]
    exact Nat.le_refl 1
  | succ count ih =>
    rw [decimalDigits]
    split
    · exact Nat.succ_le_succ (Nat.zero_le _)
    · have shorter : number / 10 < 10 ^ (count + 1) := by
        omega
      rw [List.length_append]
      exact Nat.succ_le_succ (ih shorter)

theorem length_unsignedChars {number count : Nat} (small : number < 10 ^ (count + 1)) :
    (unsignedChars number).length ≤ count + 1 := by
  rw [unsignedChars, List.length_map]
  exact length_decimalDigits small

theorem length_signedChars {number : Int} {count : Nat} (small : number.natAbs < 10 ^ (count + 1)) :
    (signedChars number).length ≤ count + 2 := by
  have length := length_unsignedChars small
  unfold signedChars
  split
  · rw [List.length_cons]
    omega
  · omega

theorem toNat_digitChar {digit : Nat} (small : digit < 10) :
    (digitChar digit).toNat = 48 + digit := by
  rw [digitChar, BitVec.toNat_ofNat]
  omega

theorem isDecimalChar_digitChar {digit : Nat} (small : digit < 10) :
    isDecimalChar (digitChar digit) = true := by
  rw [isDecimalChar, toNat_digitChar small]
  simp only [Bool.and_eq_true, decide_eq_true_eq]
  omega

/-- The characters of numbers are digits and the sign. -/
theorem mem_unsignedChars {number : Nat} {char : BitVec 8} (member : char ∈ unsignedChars number) :
    isDecimalChar char = true := by
  obtain ⟨digit, inside, rfl⟩ := List.mem_map.mp member
  exact isDecimalChar_digitChar (decimalDigits_lt number digit inside)

theorem mem_signedChars {number : Int} {char : BitVec 8} (member : char ∈ signedChars number) :
    isDecimalChar char = true ∨ char = 45 := by
  unfold signedChars at member
  split at member
  · rcases List.mem_cons.mp member with sign | digit
    · exact .inr sign
    · exact .inl (mem_unsignedChars digit)
  · exact .inl (mem_unsignedChars member)

end Redemption.Foundation
