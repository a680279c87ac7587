import Mathlib.Data.List.Infix
import Redemption.Foundation.ByteStream

/-! Lists of names in a text, between commas. -/
namespace Redemption.Utils

open Redemption.Foundation

instance : LawfulBEq (List Byte) := inferInstance

/-- The pieces of a text between the separators. -/
def pieces (sep : Byte) : List Byte → List (List Byte)
  | [] => [[]]
  | char :: rest =>
    if char = sep then [] :: pieces sep rest
    else match pieces sep rest with
      | [] => [[char]]
      | first :: others => (char :: first) :: others

/-- `split_with`: no piece of a text whose first character is the end of a C string. -/
def splitWith (sep : Byte) (text : List Byte) : List (List Byte) :=
  if text.headD 0 = 0 then [] else pieces sep text

/-- `is_blank_fn`: a space or a tabulation. -/
def isBlank (char : Byte) : Bool := char = 0x20 ∨ char = 0x09

def ltrim (text : List Byte) : List Byte := text.dropWhile isBlank

def rtrim (text : List Byte) : List Byte := (text.reverse.dropWhile isBlank).reverse

def trim (text : List Byte) : List Byte := rtrim (ltrim text)

def COMMA : Byte := 0x2C

/-- The names that are listed in a text, without the blanks around them. -/
def listed (text : List Byte) : List (List Byte) :=
  ((splitWith COMMA text).map trim).filter (· ≠ [])

/-- The characters of a literal. -/
def chars (literal : String) : List Byte := literal.toList.map fun char => BitVec.ofNat 8 char.toNat

/-- The pieces of a text that are not blank, without the blanks around them. -/
def tokens (text : List Byte) : List (List Byte) :=
  ((pieces COMMA text).map trim).filter (· ≠ [])

theorem pieces_ne_nil (sep : Byte) (text : List Byte) : pieces sep text ≠ [] := by
  cases text with
  | nil => simp [pieces]
  | cons char rest =>
    rw [pieces]
    split
    · simp
    · split <;> simp

theorem pieces_append (sep : Byte) (front back : List Byte) :
    pieces sep (front ++ sep :: back) = pieces sep front ++ pieces sep back := by
  induction front with
  | nil => simp [pieces]
  | cons char rest ih =>
    rw [List.cons_append, pieces, pieces, ih]
    by_cases same : char = sep
    · rw [if_pos same, if_pos same, List.cons_append]
    · rw [if_neg same, if_neg same]
      cases found : pieces sep rest with
      | nil => exact absurd found (pieces_ne_nil sep rest)
      | cons first others => rfl

theorem tokens_append (front back : List Byte) :
    tokens (front ++ COMMA :: back) = tokens front ++ tokens back := by
  simp only [tokens, pieces_append, List.map_append, List.filter_append]

/-- A text that begins with the end of a C string. -/
def Unread (text : List Byte) : Prop := text.head? = some 0

instance : DecidablePred Unread := fun _ => inferInstanceAs (Decidable (_ = _))

theorem listed_eq (text : List Byte) : listed text = if Unread text then [] else tokens text := by
  cases text with
  | nil => rfl
  | cons char rest =>
    by_cases void : char = 0
    · subst void
      rfl
    · have read : ¬ Unread (char :: rest) := fun same => void (Option.some.inj same)
      rw [if_neg read, listed, splitWith, List.headD_cons, if_neg void, tokens]

theorem listed_unread {text : List Byte} (void : Unread text) : listed text = [] := by
  rw [listed_eq, if_pos void]

theorem listed_append (front back : List Byte) :
    listed (front ++ COMMA :: back) = if Unread front then [] else listed front ++ tokens back := by
  rw [listed_eq, listed_eq, tokens_append]
  cases front with
  | nil => rfl
  | cons char rest =>
    have same : Unread (char :: rest ++ COMMA :: back) ↔ Unread (char :: rest) := Iff.rfl
    simp only [same]
    by_cases void : Unread (char :: rest)
    · rw [if_pos void, if_pos void]
    · rw [if_neg void, if_neg void, if_neg void]

end Redemption.Utils
