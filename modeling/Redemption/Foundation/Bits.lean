import Mathlib.Data.List.Basic
import Mathlib.Data.Nat.Bitwise
import Mathlib.Tactic.Ring

/-! Bit strings, the highest bit first, and the words whose top bits spell them. -/
namespace Redemption.Foundation

/-- The `width` lowest bits of a number. -/
def bitsOf (width value : Nat) : List Bool :=
  (List.range width).map fun index => value.testBit (width - 1 - index)

/-- All bits of a byte string. -/
def bytesToBits (bytes : List (BitVec 8)) : List Bool :=
  bytes.flatMap fun byte => bitsOf 8 byte.toNat

@[simp] theorem length_bitsOf (width value : Nat) : (bitsOf width value).length = width := by
  simp [bitsOf]

@[simp] theorem bitsOf_zero (value : Nat) : bitsOf 0 value = [] := rfl

theorem getElem?_bitsOf (width value index : Nat) (bounded : index < width) :
    (bitsOf width value)[index]? = some (value.testBit (width - 1 - index)) := by
  simp [bitsOf, bounded]

@[simp] theorem length_bytesToBits (bytes : List (BitVec 8)) :
    (bytesToBits bytes).length = 8 * bytes.length := by
  induction bytes with
  | nil => rfl
  | cons head rest ih =>
    simp only [bytesToBits, List.flatMap_cons, List.length_append, length_bitsOf,
      List.length_cons] at ih ⊢
    omega

@[simp] theorem bytesToBits_cons (head : BitVec 8) (rest : List (BitVec 8)) :
    bytesToBits (head :: rest) = bitsOf 8 head.toNat ++ bytesToBits rest := rfl

@[simp] theorem bytesToBits_nil : bytesToBits [] = [] := rfl

theorem bytesToBits_append (front back : List (BitVec 8)) :
    bytesToBits (front ++ back) = bytesToBits front ++ bytesToBits back := by
  simp [bytesToBits]

theorem getElem?_bytesToBits {bytes : List (BitVec 8)} {index bit : Nat}
    (inside : index < bytes.length) (small : bit < 8) :
    (bytesToBits bytes)[8 * index + bit]? = some (bytes[index].getMsbD bit) := by
  induction bytes generalizing index with
  | nil => simp at inside
  | cons head rest ih =>
    rw [bytesToBits_cons]
    cases index with
    | zero =>
      rw [List.getElem?_append_left (by simp; omega), getElem?_bitsOf _ _ _ (by omega),
        BitVec.getMsbD_eq_getLsbD]
      simp [small, BitVec.testBit_toNat]
    | succ index =>
      have place : 8 * (index + 1) + bit - 8 = 8 * index + bit := by omega
      rw [List.getElem?_append_right (by simp; omega), length_bitsOf, place,
        ih (by simpa using inside), List.getElem_cons_succ]

theorem fields_lt {high low front back : Nat} (frontFits : front < 2 ^ high)
    (backFits : back < 2 ^ low) : front <<< low ||| back < 2 ^ (high + low) := by
  have shifted : front <<< low < 2 ^ (high + low) := by
    rw [Nat.shiftLeft_eq, Nat.pow_add]
    exact Nat.mul_lt_mul_of_pos_right frontFits (Nat.two_pow_pos low)
  have widened : back < 2 ^ (high + low) :=
    Nat.lt_of_lt_of_le backFits (Nat.pow_le_pow_right (by decide) (by omega))
  exact Nat.or_lt_two_pow shifted widened

/-- A number made of two fields is written as one field after the other. -/
theorem bitsOf_or (high low front back : Nat) (fits : back < 2 ^ low) :
    bitsOf (high + low) (front <<< low ||| back) = bitsOf high front ++ bitsOf low back := by
  apply List.ext_getElem?
  intro index
  by_cases first : index < high
  · rw [List.getElem?_append_left (by simpa using first),
      getElem?_bitsOf _ _ _ (by omega), getElem?_bitsOf _ _ _ first]
    have above : 2 ^ low ≤ 2 ^ (high + low - 1 - index) :=
      Nat.pow_le_pow_right (by omega) (by omega)
    have clear : back.testBit (high + low - 1 - index) = false :=
      Nat.testBit_lt_two_pow (by omega)
    have place : high + low - 1 - index - low = high - 1 - index := by omega
    simp [Nat.testBit_or, Nat.testBit_shiftLeft, clear, place,
      show low ≤ high + low - 1 - index by omega]
  · rw [List.getElem?_append_right (by simpa using first), length_bitsOf]
    by_cases second : index < high + low
    · rw [getElem?_bitsOf _ _ _ second, getElem?_bitsOf _ _ _ (by omega)]
      have place : high + low - 1 - index = low - 1 - (index - high) := by omega
      simp [Nat.testBit_or, Nat.testBit_shiftLeft, place,
        show ¬ low ≤ low - 1 - (index - high) by omega]
    · rw [List.getElem?_eq_none (by simp; omega), List.getElem?_eq_none (by simp; omega)]

/-- The top bits of the word are the given ones, and the bits below are zero. -/
structure Spells {width : Nat} (word : BitVec width) (bits : List Bool) : Prop where
  fits : bits.length ≤ width
  same : ∀ index, word.getMsbD index = bits[index]?.getD false

section Spells

variable {width : Nat} {word : BitVec width} {bits : List Bool}

theorem spells_zero (width : Nat) : Spells (0 : BitVec width) [] :=
  ⟨Nat.zero_le _, fun _ => by simp⟩

theorem spells_byte (byte : BitVec 8) : Spells byte (bitsOf 8 byte.toNat) := by
  refine ⟨by simp, fun index => ?_⟩
  by_cases inside : index < 8
  · rw [getElem?_bitsOf _ _ _ inside, BitVec.getMsbD_eq_getLsbD]
    simp [inside, BitVec.testBit_toNat]
  · rw [List.getElem?_eq_none (by simpa using inside), BitVec.getMsbD_of_ge _ _ (by omega)]
    rfl

theorem Spells.shiftLeft (spells : Spells word bits) (count : Nat) :
    Spells (word <<< count) (bits.drop count) := by
  refine ⟨by have := spells.fits; rw [List.length_drop]; omega, fun index => ?_⟩
  rw [BitVec.getMsbD_shiftLeft, spells.same, List.getElem?_drop, Nat.add_comm]

/-- The first bits of another word go where the bits of this one end. -/
theorem Spells.append {narrow : Nat} {other : BitVec narrow} {back : List Bool}
    (spells : Spells word bits) (next : Spells other back) (count : Nat)
    (enough : count ≤ back.length) (room : bits.length + count ≤ width) :
    Spells (word ||| (other >>> (narrow - count)).setWidth width <<<
      (width - bits.length - count)) (bits ++ back.take count) := by
  have narrowFits := next.fits
  refine ⟨by simp; omega, fun index => ?_⟩
  rw [BitVec.getMsbD_or, spells.same, BitVec.getMsbD_shiftLeft, BitVec.getMsbD_setWidth,
    BitVec.getMsbD_ushiftRight]
  by_cases first : index < bits.length
  · rw [List.getElem?_append_left first]
    by_cases reach : width - narrow ≤ index + (width - bits.length - count)
    · have hidden : index + (width - bits.length - count) + narrow - width < narrow - count := by
        omega
      simp [hidden]
    · simp [reach]
  · have ended : bits[index]? = none := List.getElem?_eq_none (by omega)
    rw [List.getElem?_append_right (by omega), ended]
    have reach : width - narrow ≤ index + (width - bits.length - count) := by omega
    have place : index + (width - bits.length - count) + narrow - width =
        index - bits.length + (narrow - count) := by omega
    by_cases second : index - bits.length < count
    · rw [List.getElem?_take_of_lt second, place]
      have inside : index - bits.length + (narrow - count) < narrow := by omega
      simp [reach, inside, next.same]
    · have finished : (back.take count)[index - bits.length]? = none :=
        List.getElem?_eq_none (by simp; omega)
      rw [finished, place]
      have beyond : ¬ index - bits.length + (narrow - count) < narrow := by omega
      simp [beyond]

theorem Spells.toNat_shiftRight {count value : Nat} {rest : List Bool}
    (spells : Spells word (bitsOf count value ++ rest)) (small : value < 2 ^ count) :
    (word >>> (width - count)).toNat = value := by
  have fits := spells.fits
  simp only [List.length_append, length_bitsOf] at fits
  apply Nat.eq_of_testBit_eq
  intro index
  rw [BitVec.testBit_toNat, BitVec.getLsbD_ushiftRight]
  by_cases inside : index < count
  · have read := spells.same (count - 1 - index)
    rw [List.getElem?_append_left (by simp; omega), getElem?_bitsOf _ _ _ (by omega),
      BitVec.getMsbD_eq_getLsbD] at read
    have place : width - 1 - (count - 1 - index) = width - count + index := by omega
    have back : count - 1 - (count - 1 - index) = index := by omega
    have within : count - 1 - index < width := by omega
    simpa [place, back, within] using read
  · rw [BitVec.getLsbD_of_ge _ _ (by omega)]
    have above : 2 ^ count ≤ 2 ^ index := Nat.pow_le_pow_right (by omega) (by omega)
    exact (Nat.testBit_lt_two_pow (by omega)).symm

theorem Spells.and_mask {count value : Nat} {rest : List Bool}
    (spells : Spells word (bitsOf count value ++ rest)) :
    word &&& (BitVec.allOnes width <<< (width - count)) =
      BitVec.ofNat width value <<< (width - count) := by
  have fits := spells.fits
  simp only [List.length_append, length_bitsOf] at fits
  apply BitVec.eq_of_getMsbD_eq
  intro index bounded
  rw [BitVec.getMsbD_and, spells.same, BitVec.getMsbD_shiftLeft, BitVec.getMsbD_shiftLeft]
  by_cases inside : index < count
  · rw [List.getElem?_append_left (by simpa using inside), getElem?_bitsOf _ _ _ inside,
      BitVec.getMsbD_eq_getLsbD, BitVec.getMsbD_eq_getLsbD]
    have within : index + (width - count) < width := by omega
    have place : width - 1 - (index + (width - count)) = count - 1 - index := by omega
    rw [place, BitVec.getLsbD_ofNat]
    simp [within, show count - 1 - index < width by omega]
  · have beyond : width ≤ index + (width - count) := by omega
    simp [BitVec.getMsbD_of_ge _ _ beyond]

end Spells

/-! The numbers that bit strings spell, and the bits at their front that are all the same. -/

/-- The number that bits spell, the highest first. -/
def bitsValue : List Bool → Nat
  | [] => 0
  | bit :: rest => bit.toNat * 2 ^ rest.length + bitsValue rest

theorem bitsValue_lt (bits : List Bool) : bitsValue bits < 2 ^ bits.length := by
  induction bits with
  | nil => exact Nat.one_pos
  | cons bit rest ih =>
    rw [bitsValue, List.length_cons, Nat.pow_succ]
    have low := Bool.toNat_le bit
    have high := Nat.mul_le_mul_right (2 ^ rest.length) low
    omega

theorem bitsValue_append (front back : List Bool) :
    bitsValue (front ++ back) = bitsValue front * 2 ^ back.length + bitsValue back := by
  induction front with
  | nil => simp [bitsValue]
  | cons bit rest ih =>
    rw [List.cons_append, bitsValue, bitsValue, ih, List.length_append, Nat.pow_add]
    ring

theorem bitsOf_succ (width value : Nat) :
    bitsOf (width + 1) value = value.testBit width :: bitsOf width value := by
  rw [bitsOf, bitsOf, List.range_succ_eq_map, List.map_cons, List.map_map]
  congr 1
  apply List.map_congr_left
  intro index _
  have place : width + 1 - 1 - (index + 1) = width - 1 - index := by omega
  rw [Function.comp_apply, place]

theorem bitsOf_split (high low value : Nat) :
    bitsOf (high + low) value = bitsOf high (value >>> low) ++ bitsOf low value := by
  induction high with
  | zero => simp
  | succ high ih =>
    have width : high + 1 + low = high + low + 1 := by omega
    rw [width, bitsOf_succ, bitsOf_succ, ih, List.cons_append, Nat.testBit_shiftRight,
      Nat.add_comm low high]

theorem bitsValue_bitsOf (width value : Nat) :
    bitsValue (bitsOf width value) = value % 2 ^ width := by
  induction width with
  | zero => simp [bitsValue, Nat.mod_one]
  | succ width ih =>
    have bit : (value.testBit width).toNat = value / 2 ^ width % 2 := by
      rw [Nat.testBit_eq_decide_div_mod_eq]
      obtain even | odd := Nat.mod_two_eq_zero_or_one (value / 2 ^ width)
      · simp [even]
      · simp [odd]
    rw [bitsOf_succ, bitsValue, ih, length_bitsOf, bit, Nat.pow_succ, Nat.mod_mul]
    ring

theorem bitsValue_replicate_false (count : Nat) : bitsValue (List.replicate count false) = 0 := by
  induction count with
  | zero => rfl
  | succ count ih =>
    rw [List.replicate_succ, bitsValue, ih]
    simp

/-- The bits of a number and those of what is missing to the largest one are opposite. -/
theorem bitsValue_not (bits : List Bool) :
    bitsValue (bits.map (!·)) + bitsValue bits + 1 = 2 ^ bits.length := by
  induction bits with
  | nil => rfl
  | cons bit rest ih =>
    rw [List.map_cons, bitsValue, bitsValue, List.length_map, List.length_cons, Nat.pow_succ]
    cases bit with
    | false =>
      simp only [Bool.not_false, Bool.toNat_true, Bool.toNat_false]
      omega
    | true =>
      simp only [Bool.not_true, Bool.toNat_true, Bool.toNat_false]
      omega

section Lead

/-- How many bits at the front are the given one. -/
def lead (is : Bool) : List Bool → Nat
  | [] => 0
  | bit :: rest => if bit = is then lead is rest + 1 else 0

variable {is : Bool} {bits rest : List Bool}

theorem lead_le (is : Bool) (bits : List Bool) : lead is bits ≤ bits.length := by
  induction bits with
  | nil => exact Nat.le_refl 0
  | cons bit rest ih =>
    rw [lead, List.length_cons]
    by_cases same : bit = is
    · rw [if_pos same]
      omega
    · rw [if_neg same]
      omega

theorem lead_replicate_append (is : Bool) (count : Nat) (rest : List Bool) :
    lead is (List.replicate count is ++ rest) = count + lead is rest := by
  induction count with
  | zero => simp
  | succ count ih =>
    rw [List.replicate_succ, List.cons_append, lead, if_pos rfl, ih]
    omega

theorem lead_map_not (is : Bool) (bits : List Bool) :
    lead is (bits.map (!·)) = lead (!is) bits := by
  induction bits with
  | nil => rfl
  | cons bit rest ih =>
    rw [List.map_cons, lead, lead, ih]
    cases bit <;> cases is <;> rfl

/-- The bits at the front of a part are those at the front of the whole, as far as it goes. -/
theorem lead_take (is : Bool) (bits : List Bool) (count : Nat) :
    lead is (bits.take count) = min count (lead is bits) := by
  induction count generalizing bits with
  | zero => simp [lead]
  | succ count ih =>
    cases bits with
    | nil => simp [lead]
    | cons bit rest =>
      rw [List.take_succ_cons, lead, lead, ih]
      by_cases same : bit = is
      · rw [if_pos same, if_pos same]
        omega
      · rw [if_neg same, if_neg same]
        omega

theorem lead_drop (is : Bool) {bits : List Bool} {count : Nat} (within : count ≤ lead is bits) :
    lead is (bits.drop count) = lead is bits - count := by
  induction count generalizing bits with
  | zero => simp
  | succ count ih =>
    cases bits with
    | nil => simp [lead]
    | cons bit rest =>
      rw [lead] at within ⊢
      by_cases same : bit = is
      · rw [if_pos same] at within ⊢
        rw [List.drop_succ_cons, ih (Nat.le_of_succ_le_succ within)]
        omega
      · rw [if_neg same] at within
        omega

theorem lead_append (is : Bool) (front back : List Bool) :
    lead is (front ++ back) =
      if lead is front < front.length then lead is front else front.length + lead is back := by
  induction front with
  | nil => simp [lead]
  | cons bit rest ih =>
    rw [List.cons_append, lead, lead, ih, List.length_cons]
    by_cases same : bit = is
    · rw [if_pos same, if_pos same]
      by_cases within : lead is rest < rest.length
      · rw [if_pos within, if_pos (by omega)]
      · rw [if_neg within, if_neg (by omega)]
        omega
    · rw [if_neg same, if_neg same, if_pos (by omega)]

/-- A number, between two powers of two by the zeros at its front. -/
theorem bitsValue_lead (bits : List Bool) :
    (lead false bits = bits.length ∧ bitsValue bits = 0) ∨
      (lead false bits < bits.length ∧ 2 ^ (bits.length - 1 - lead false bits) ≤ bitsValue bits ∧
        bitsValue bits < 2 ^ (bits.length - lead false bits)) := by
  induction bits with
  | nil => exact .inl ⟨rfl, rfl⟩
  | cons bit rest ih =>
    rw [lead, bitsValue, List.length_cons]
    cases bit with
    | false =>
      simp only [if_true, Bool.toNat_false, Nat.zero_mul, Nat.zero_add]
      obtain ⟨all, zero⟩ | ⟨less, low, high⟩ := ih
      · exact .inl ⟨by omega, zero⟩
      · have place : rest.length + 1 - 1 - (lead false rest + 1) =
            rest.length - 1 - lead false rest := by omega
        have place' : rest.length + 1 - (lead false rest + 1) =
            rest.length - lead false rest := by omega
        rw [place, place']
        exact .inr ⟨by omega, low, high⟩
    | true =>
      have small := bitsValue_lt rest
      right
      simp only [Bool.true_eq_false, if_false, Bool.toNat_true, Nat.one_mul, Nat.sub_zero,
        Nat.add_sub_cancel, Nat.pow_succ]
      omega

end Lead

/-! Numbers as bit strings with the lowest bit first, and reading them off words that
spell them. -/

/-- The `width` lowest bits of a number, the lowest first. -/
def lsbBits (width value : Nat) : List Bool := (List.range width).map value.testBit

@[simp] theorem length_lsbBits (width value : Nat) : (lsbBits width value).length = width := by
  simp [lsbBits]

theorem getElem?_lsbBits {width index : Nat} (value : Nat) (bounded : index < width) :
    (lsbBits width value)[index]? = some (value.testBit index) := by
  simp [lsbBits, bounded]

theorem lsbBits_add (low high value : Nat) :
    lsbBits (low + high) value = lsbBits low value ++ lsbBits high (value >>> low) := by
  simp [lsbBits, List.range_add, Function.comp_def]

theorem lsbBits_mod (width value : Nat) : lsbBits width (value % 2 ^ width) = lsbBits width value := by
  apply List.map_congr_left
  intro index bounded
  simp [List.mem_range.mp bounded]

theorem bitsOf_reverse (byte : BitVec 8) : bitsOf 8 byte.reverse.toNat = lsbBits 8 byte.toNat := by
  apply List.map_congr_left
  intro index bounded
  have small := List.mem_range.mp bounded
  rw [BitVec.testBit_toNat, BitVec.testBit_toNat, BitVec.getLsbD_reverse, BitVec.getMsbD_eq_getLsbD]
  have place : 8 - 1 - (8 - 1 - index) = index := by omega
  simp [place, show 8 - 1 - index < 8 by omega]

/-- The first bits of a word, as the low bits of a number. -/
def firstBits {width : Nat} (word : BitVec width) (count : Nat) : BitVec width :=
  (word &&& (BitVec.allOnes width <<< (width - count))).reverse

theorem Spells.toNat_firstBits {width field value count : Nat} {word : BitVec width}
    {rest : List Bool} (spells : Spells word (lsbBits field value ++ rest))
    (part : count ≤ field) : (firstBits word count).toNat = value % 2 ^ count := by
  have fits := spells.fits
  simp only [List.length_append, length_lsbBits] at fits
  apply Nat.eq_of_testBit_eq
  intro index
  rw [BitVec.testBit_toNat, firstBits, BitVec.getLsbD_reverse, BitVec.getMsbD_and, spells.same,
    BitVec.getMsbD_shiftLeft, Nat.testBit_mod_two_pow]
  by_cases inside : index < count
  · rw [List.getElem?_append_left (by simp; omega), getElem?_lsbBits value (by omega),
      BitVec.getMsbD_eq_getLsbD]
    have within : index + (width - count) < width := by omega
    simp [inside, within, show width - 1 - (index + (width - count)) < width by omega]
  · have beyond : width ≤ index + (width - count) := by omega
    simp [inside, BitVec.getMsbD_of_ge _ _ beyond]

/-! Prefix codes given as a table of masked comparisons on the top bits of a word. -/

universe u

/-- A word carries this code when it equals `value` under `mask`. -/
structure MaskedCode (width : Nat) where
  mask : BitVec width
  value : BitVec width
  deriving DecidableEq, Repr

namespace MaskedCode

variable {width : Nat} {ρ : Type u}

def matchesWord (code : MaskedCode width) (word : BitVec width) : Bool :=
  word &&& code.mask == code.value

/-- The first row of a table whose code the word carries. -/
def lookup (code : ρ → MaskedCode width) (rows : List ρ) (word : BitVec width) : Option ρ :=
  rows.find? fun row => (code row).matchesWord word

/-- No word carries the codes of two rows. -/
def Apart (code : ρ → MaskedCode width) (rows : List ρ) : Prop :=
  rows.Pairwise fun left right =>
    (code left).value &&& (code right).mask ≠ (code right).value &&& (code left).mask

instance (code : ρ → MaskedCode width) (rows : List ρ) : Decidable (Apart code rows) :=
  inferInstanceAs (Decidable (List.Pairwise _ _))

theorem matchesWord_of_apart {left right : MaskedCode width} {word : BitVec width}
    (apart : left.value &&& right.mask ≠ right.value &&& left.mask)
    (hit : right.matchesWord word = true) : left.matchesWord word = false := by
  have same : word &&& right.mask = right.value := by simpa [matchesWord] using hit
  cases found : left.matchesWord word with
  | false => rfl
  | true =>
    have other : word &&& left.mask = left.value := by simpa [matchesWord] using found
    refine absurd ?_ apart
    rw [← same, ← other, BitVec.and_assoc, BitVec.and_assoc, BitVec.and_comm left.mask]

theorem lookup_eq_some {code : ρ → MaskedCode width} {rows : List ρ} {row : ρ}
    {word : BitVec width} (apart : Apart code rows) (member : row ∈ rows)
    (hit : (code row).matchesWord word = true) : lookup code rows word = some row := by
  induction rows with
  | nil => cases member
  | cons head rest ih =>
    obtain ⟨headApart, restApart⟩ := List.pairwise_cons.mp apart
    rcases List.mem_cons.mp member with rfl | later
    · simp [lookup, hit]
    · have miss := matchesWord_of_apart (headApart row later) hit
      simpa [lookup, miss] using ih restApart later

/-- The code of `count` top bits with the given value. -/
def ofBits (width count value : Nat) : MaskedCode width where
  mask := BitVec.allOnes width <<< (width - count)
  value := BitVec.ofNat width value <<< (width - count)

theorem matchesWord_ofBits {word : BitVec width} {count value : Nat} {rest : List Bool}
    (spells : Spells word (bitsOf count value ++ rest)) :
    (ofBits width count value).matchesWord word = true := by
  simp [matchesWord, ofBits, spells.and_mask]

end MaskedCode

end Redemption.Foundation
