import Mathlib.Data.Nat.Bitwise
import Mathlib.Data.List.Basic

/-! Words of several bytes that are tested at once, the first byte the lowest. -/
namespace Redemption.Foundation

/-- The word that the first bytes make up. -/
def loadWord : (size : Nat) → List (BitVec 8) → BitVec (8 * size)
  | 0, _ => 0#0
  | size + 1, bytes => loadWord size bytes.tail ++ bytes.headD 0

/-- `fill_bytes`: a word with the same byte everywhere. -/
def fillBytes : (size : Nat) → BitVec 8 → BitVec (8 * size)
  | 0, _ => 0#0
  | size + 1, byte => fillBytes size byte ++ byte

/-- `get_has_byte_mask`: the lowest byte that is `needle` gives the lowest high bit. -/
def hasByteMask {size : Nat} (needle : BitVec 8) (input : BitVec (8 * size)) : BitVec (8 * size) :=
  (input ^^^ fillBytes size needle) - fillBytes size 1

/-- `get_known_not_escapable_mask`. -/
def knownNotEscapableMask {size : Nat} (input : BitVec (8 * size)) : BitVec (8 * size) :=
  ~~~input &&& fillBytes size 0x80

/-- `get_escapable_mask`, with one needle. -/
def escapableMask {size : Nat} (needle : BitVec 8) (input : BitVec (8 * size)) :
    BitVec (8 * size) :=
  hasByteMask needle input &&& knownNotEscapableMask input

theorem getLsbD_loadWord (size : Nat) (bytes : List (BitVec 8)) (bit : Nat) :
    (loadWord size bytes).getLsbD bit =
      (decide (bit < 8 * size) && (bytes.getD (bit / 8) 0).getLsbD (bit % 8)) := by
  induction size generalizing bytes bit with
  | zero => simp [loadWord]
  | succ size ih =>
    rw [loadWord]
    rw [BitVec.getLsbD_append]
    split
    · have zero : bit / 8 = 0 := by omega
      have same : bit % 8 = bit := by omega
      have inside : bit < 8 * (size + 1) := by omega
      rw [zero, same, decide_eq_true inside, Bool.true_and]
      cases bytes <;> rfl
    · have next : bit / 8 = (bit - 8) / 8 + 1 := by omega
      have same : (bit - 8) % 8 = bit % 8 := by omega
      have inside : bit - 8 < 8 * size ↔ bit < 8 * (size + 1) := by omega
      rw [ih, next, same]
      simp only [inside]
      cases bytes with
      | nil => simp
      | cons byte bytes => simp

theorem setWidth_loadWord_ushiftRight {size small skip : Nat} (bytes : List (BitVec 8))
    (fits : skip + small ≤ size) :
    (loadWord size bytes >>> (8 * skip)).setWidth (8 * small) =
      loadWord small (bytes.drop skip) := by
  apply BitVec.eq_of_getLsbD_eq
  intro bit inside
  rw [BitVec.getLsbD_setWidth, BitVec.getLsbD_ushiftRight, getLsbD_loadWord, getLsbD_loadWord]
  have within : 8 * skip + bit < 8 * size := by omega
  have place : (8 * skip + bit) / 8 = skip + bit / 8 := by omega
  have same : (8 * skip + bit) % 8 = bit % 8 := by omega
  simp [inside, within, place, same, List.getD_eq_getElem?_getD]

theorem setWidth_loadWord {size small : Nat} (bytes : List (BitVec 8)) (fits : small ≤ size) :
    (loadWord size bytes).setWidth (8 * small) = loadWord small bytes := by
  have part := @setWidth_loadWord_ushiftRight _ _ 0 bytes (by omega : 0 + small ≤ size)
  simpa using part

theorem setWidth_and_ones {width small : Nat} (value mask : BitVec width)
    (ones : mask.setWidth small = BitVec.allOnes small) :
    (value &&& mask).setWidth small = value.setWidth small := by
  rw [BitVec.setWidth_and, ones, BitVec.and_allOnes]

theorem append_eq_zero {width : Nat} {high : BitVec width} {low : BitVec 8} :
    high ++ low = 0 ↔ high = 0 ∧ low = 0 := by
  constructor
  · intro same
    constructor
    · rw [← BitVec.extractLsb'_append_eq_left (a := high) (b := low), same]
      exact BitVec.extractLsb'_zero
    · rw [← BitVec.setWidth_append_eq_right (a := high) (b := low), same]
      exact BitVec.setWidth_zero _ _
  · rintro ⟨rfl, rfl⟩
    exact BitVec.zero_append_zero

theorem loadWord_and_high (size : Nat) {bytes : List (BitVec 8)} (enough : size ≤ bytes.length) :
    loadWord size bytes &&& fillBytes size 0x80 = 0 ↔
      ∀ byte ∈ bytes.take size, byte < 0x80#8 := by
  induction size generalizing bytes with
  | zero => simp [loadWord, fillBytes]
  | succ size ih =>
    cases bytes with
    | nil => simp at enough
    | cons byte bytes =>
      have low : ∀ byte : BitVec 8, byte &&& 0x80#8 = 0 ↔ byte < 0x80#8 := by decide
      have parts : loadWord (size + 1) (byte :: bytes) &&& fillBytes (size + 1) 0x80 =
          (loadWord size bytes &&& fillBytes size 0x80) ++ (byte &&& 0x80#8) :=
        BitVec.and_append
      rw [parts, List.take_succ_cons, List.forall_mem_cons, ← ih (by simpa using enough), ← low,
        and_comm]
      exact append_eq_zero

/-- Without a borrow out of the low byte, words are subtracted in parts. -/
private theorem append_sub_append {width : Nat} {high high' : BitVec width} {low low' : BitVec 8}
    (least : low' ≤ low) : (high ++ low) - (high' ++ low') = (high - high') ++ (low - low') := by
  apply BitVec.eq_of_toNat_eq
  have le : low'.toNat ≤ low.toNat := least
  have power : 2 ^ (width + 8) = 2 ^ width * 2 ^ 8 := Nat.pow_add 2 width 8
  have value (upper : BitVec width) (lower : BitVec 8) :
      (upper ++ lower).toNat = upper.toNat * 2 ^ 8 + lower.toNat := by
    rw [BitVec.toNat_append, Nat.shiftLeft_eq, Nat.mul_comm,
      Nat.two_pow_add_eq_or_of_lt lower.isLt]
  have difference : (low - low').toNat = low.toNat - low'.toNat := BitVec.toNat_sub_of_le least
  have split : 2 ^ (width + 8) - (high'.toNat * 2 ^ 8 + low'.toNat) +
      (high.toNat * 2 ^ 8 + low.toNat) =
      (2 ^ width - high'.toNat + high.toNat) * 2 ^ 8 + (low.toNat - low'.toNat) := by
    omega
  have remainder : ((2 ^ width - high'.toNat + high.toNat) * 2 ^ 8 + (low.toNat - low'.toNat)) % 2 ^ 8 =
      low.toNat - low'.toNat := by
    omega
  have quotient : ((2 ^ width - high'.toNat + high.toNat) * 2 ^ 8 + (low.toNat - low'.toNat)) / 2 ^ 8 =
      2 ^ width - high'.toNat + high.toNat := by
    omega
  rw [BitVec.toNat_sub, value, value, value, difference, split, BitVec.toNat_sub, power,
    Nat.mul_comm (2 ^ width), Nat.mod_mul, remainder, quotient, Nat.add_comm, Nat.mul_comm]

private theorem setWidth_append_sub {width : Nat} {high high' : BitVec width}
    {low low' : BitVec 8} :
    ((high ++ low) - (high' ++ low')).setWidth 8 = low - low' := by
  rw [BitVec.sub_eq_add_neg, BitVec.setWidth_add _ _ (by omega),
    BitVec.setWidth_neg_of_le (by omega), BitVec.setWidth_append_eq_right,
    BitVec.setWidth_append_eq_right, BitVec.sub_eq_add_neg]

section Escapable

variable {size : Nat} {needle byte : BitVec 8} {bytes : List (BitVec 8)}

private theorem escapableMask_cons (high : BitVec (8 * size)) :
    @escapableMask (size + 1) needle (high ++ byte) =
      (((high ^^^ fillBytes size needle) ++ (byte ^^^ needle)) - (fillBytes size 1 ++ 1#8)) &&&
        ((~~~high &&& fillBytes size 0x80) ++ (~~~byte &&& 0x80#8)) := by
  have inner : (high ++ byte) ^^^ (fillBytes size needle ++ needle) =
      (high ^^^ fillBytes size needle) ++ (byte ^^^ needle) := BitVec.xor_append
  have outer : ~~~(high ++ byte) &&& (fillBytes size 0x80 ++ 0x80#8) =
      (~~~high &&& fillBytes size 0x80) ++ (~~~byte &&& 0x80#8) := by
    rw [BitVec.not_append, BitVec.and_append]
  rw [← inner, ← outer]
  rfl

/-- A byte that is not the needle leaves no bit. -/
private theorem escapableMask_ne (high : BitVec (8 * size)) (needleAscii : needle < 0x80#8)
    (other : byte ≠ needle) :
    @escapableMask (size + 1) needle (high ++ byte) = escapableMask needle high ++ 0#8 := by
  have some : byte ^^^ needle ≠ 0#8 := fun same => other (BitVec.xor_eq_zero_iff.mp same)
  have least : 1#8 ≤ byte ^^^ needle := by
    have positive : (byte ^^^ needle).toNat ≠ 0 := fun zero => some (BitVec.eq_of_toNat_eq zero)
    rw [BitVec.le_def]
    change 1 ≤ _
    omega
  have low : (byte ^^^ needle) - 1#8 &&& (~~~byte &&& 0x80#8) = 0#8 := by
    by_cases ascii : byte < 0x80#8
    · have small : (byte ^^^ needle).toNat < 2 ^ 7 := by
        rw [BitVec.toNat_xor]
        exact Nat.xor_lt_two_pow ascii needleAscii
      have clear : ∀ low : BitVec 8, 1#8 ≤ low → low < 0x80#8 → (low - 1#8) &&& 0x80#8 = 0#8 := by
        decide
      rw [BitVec.and_comm (~~~byte), ← BitVec.and_assoc, clear _ least small, BitVec.zero_and]
    · have known : ∀ byte : BitVec 8, ¬byte < 0x80#8 → ~~~byte &&& 0x80#8 = 0#8 := by decide
      rw [known byte ascii, BitVec.and_zero]
  rw [escapableMask_cons, append_sub_append least, BitVec.and_append, low]
  rfl

/-- The needle itself leaves its high bit, and no lower one. -/
private theorem escapableMask_eq (high : BitVec (8 * size)) (needleAscii : needle < 0x80#8) :
    (@escapableMask (size + 1) needle (high ++ needle)).setWidth 8 = 0x80#8 := by
  have full : ∀ low : BitVec 8, low < 0x80#8 → (0#8 - 1#8) &&& (~~~low &&& 0x80#8) = 0x80#8 := by
    decide
  rw [escapableMask_cons, BitVec.xor_self, BitVec.setWidth_and, setWidth_append_sub,
    BitVec.setWidth_append_eq_right, full needle needleAscii]

theorem escapableMask_none (enough : size ≤ bytes.length) (needleAscii : needle < 0x80#8)
    (none : needle ∉ bytes.take size) :
    escapableMask needle (loadWord size bytes) = 0 := by
  induction size generalizing bytes with
  | zero => exact BitVec.eq_of_toNat_eq (by omega)
  | succ size ih =>
    cases bytes with
    | nil => simp at enough
    | cons byte bytes =>
      rw [List.take_succ_cons, List.mem_cons, not_or] at none
      have mask := escapableMask_ne (loadWord size bytes) needleAscii (Ne.symm none.1)
      rw [ih (by simpa using enough) none.2] at mask
      exact mask.trans BitVec.zero_append_zero

/-- The lowest bit that is left is the high bit of the first needle. -/
theorem escapableMask_first {front rest : List (BitVec 8)} (within : front.length < size)
    (needleAscii : needle < 0x80#8) (none : needle ∉ front) :
    (∀ bit < 8 * front.length + 7,
      (escapableMask needle (loadWord size (front ++ needle :: rest))).getLsbD bit = false) ∧
    (escapableMask needle (loadWord size (front ++ needle :: rest))).getLsbD
      (8 * front.length + 7) = true := by
  induction front generalizing size with
  | nil =>
    cases size with
    | zero => exact absurd within (Nat.lt_irrefl 0)
    | succ size =>
      have low := escapableMask_eq (loadWord size rest) needleAscii
      have bits (bit : Nat) (inside : bit < 8) :
          (escapableMask needle (loadWord (size + 1) (needle :: rest))).getLsbD bit =
            (0x80#8).getLsbD bit := by
        rw [← low, BitVec.getLsbD_setWidth, decide_eq_true inside, Bool.true_and]
        rfl
      refine ⟨fun bit small => ?_, bits 7 (by decide)⟩
      have early : ∀ bit < 7, (0x80#8).getLsbD bit = false := by decide
      rw [List.length_nil] at small
      exact (bits bit (by omega)).trans (early bit small)
  | cons byte front ih =>
    cases size with
    | zero => exact absurd within (Nat.not_lt_zero _)
    | succ size =>
      rw [List.mem_cons, not_or] at none
      have mask : escapableMask needle (loadWord (size + 1) (byte :: front ++ needle :: rest)) =
          escapableMask needle (loadWord size (front ++ needle :: rest)) ++ 0#8 :=
        escapableMask_ne _ needleAscii (Ne.symm none.1)
      obtain ⟨early, first⟩ := ih (Nat.lt_of_succ_lt_succ within) none.2
      have bits (bit : Nat) :
          (escapableMask needle (loadWord (size + 1) (byte :: front ++ needle :: rest))).getLsbD
            bit = if bit < 8 then false else
              (escapableMask needle (loadWord size (front ++ needle :: rest))).getLsbD (bit - 8) := by
        rw [mask]
        refine BitVec.getLsbD_append.trans ?_
        rw [BitVec.getLsbD_zero]
      rw [List.length_cons]
      constructor
      · intro bit small
        rw [bits]
        split
        · rfl
        · exact early _ (by omega)
      · rw [bits, if_neg (by omega)]
        have same : 8 * (front.length + 1) + 7 - 8 = 8 * front.length + 7 := by omega
        rw [same, first]

/-- `countr_zero` of the mask finds the first needle. -/
theorem ctz_escapableMask {front rest : List (BitVec 8)} (within : front.length < size)
    (needleAscii : needle < 0x80#8) (none : needle ∉ front) :
    escapableMask needle (loadWord size (front ++ needle :: rest)) ≠ 0 ∧
    (escapableMask needle (loadWord size (front ++ needle :: rest))).ctz.toNat / 8 =
      front.length := by
  obtain ⟨early, first⟩ := @escapableMask_first _ _ _ rest within needleAscii none
  have some : escapableMask needle (loadWord size (front ++ needle :: rest)) ≠ 0 := by
    intro zero
    rw [zero] at first
    exact absurd first (by simp)
  refine ⟨some, ?_⟩
  have lowest := BitVec.getLsbD_true_ctz_of_ne_zero some
  have same : (escapableMask needle (loadWord size (front ++ needle :: rest))).ctz.toNat =
      8 * front.length + 7 := by
    rcases Nat.lt_trichotomy
      (escapableMask needle (loadWord size (front ++ needle :: rest))).ctz.toNat
      (8 * front.length + 7) with less | same | more
    · rw [early _ less] at lowest
      cases lowest
    · exact same
    · rw [BitVec.getLsbD_false_of_lt_ctz more] at first
      cases first
  omega

end Escapable

end Redemption.Foundation
