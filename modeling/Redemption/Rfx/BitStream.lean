import Redemption.Foundation.Bits
import Redemption.Foundation.ByteStream
import Redemption.Foundation.FrontReader

/-! The bit reader `InBitStream`, and the bits that it has before it. -/
namespace Redemption.Rfx

open Redemption.Foundation

/-- What stops a decoder: a `break` of its loop, an assertion that does not hold, or arithmetic on
`int` that overflows. -/
inductive Stop where
  | brk
  | assertion
  | overflow
  deriving DecidableEq, Repr

/-- `InBitStream`: the bytes from `p` on, and `bitsLeft` of the first of them. -/
structure InBitStream where
  bytes : List Byte
  bitsLeft : Nat
  deriving DecidableEq, Repr

abbrev BitReaderM := StateT InBitStream (Except Stop)

namespace InBitStream

/-- The constructor. -/
def ofBytes (array : List Byte) : InBitStream := ⟨array, 8⟩

/-- `getRemainingLength`. -/
def getRemainingLength (bs : InBitStream) : Nat := bs.bitsLeft + 8 * bs.bytes.length - 8

/-- The loop of `shift`, `getBits` and `peekBits`: the bits that are picked behind those of `ret`,
how many are still asked for at the end, and where the stream stands. -/
def pick : List Byte → Nat → Nat → BitVec 32 → BitVec 32 × Nat × InBitStream
  | [], bitsLeft, nbits, ret => (ret, nbits, ⟨[], bitsLeft⟩)
  | byte :: rest, bitsLeft, nbits, ret =>
    if nbits = 0 then (ret, 0, ⟨byte :: rest, bitsLeft⟩)
    else
      let b := min nbits bitsLeft
      let ret := ret <<< b ||| (byte >>> (bitsLeft - b) &&& ((1 : Byte) <<< b - 1)).setWidth 32
      if bitsLeft - b = 0 then pick rest 8 (nbits - b) ret
      -- all of the bits that are asked for were in this byte
      else (ret, nbits - b, ⟨byte :: rest, bitsLeft - b⟩)

/-- `getBits`. -/
def getBits (nbits : Nat) : BitReaderM (BitVec 32) := fun bs =>
  match pick bs.bytes bs.bitsLeft nbits 0 with
  | (ret, 0, bs) => .ok (ret, bs)
  | (_, _ + 1, _) => .error .assertion

/-- `shift`. -/
def shift (nbits : Nat) : BitReaderM PUnit := do let _ ← getBits nbits

/-- `peekBits`: zeros behind the end of the stream. -/
def peekBits (bs : InBitStream) (nbits : Nat) : BitVec 32 :=
  match pick bs.bytes bs.bitsLeft nbits 0 with
  | (ret, left, _) => ret <<< left

end InBitStream

/-- A step of `lzcnt_s`. -/
def halve (count : Nat) (found : Nat × BitVec 32) : Nat × BitVec 32 :=
  let y := found.2 >>> count
  if y ≠ 0 then (found.1 - count, y) else found

/-- `lzcnt_s`. -/
def lzcntS (x : BitVec 32) : Nat :=
  if x = 0 then 32
  else
    let (n, x) := halve 2 (halve 4 (halve 8 (halve 16 (32, x))))
    if x >>> 1 ≠ 0 then n - 2 else n - x.toNat

section Lzcnt

/-- The zeros that have been counted, and what is left of a number behind them. -/
structure Halved (x : BitVec 32) (found : Nat × BitVec 32) (bound : Nat) : Prop where
  some : 0 < found.2.toNat
  small : found.2.toNat < 2 ^ bound
  counted : bound ≤ found.1 ∧ found.1 ≤ 32
  rest : x.toNat / 2 ^ (32 - found.1) = found.2.toNat

theorem Halved.halve {x : BitVec 32} {found : Nat × BitVec 32} {bound : Nat}
    (halved : Halved x found (bound + bound)) : Halved x (halve bound found) bound := by
  obtain ⟨some, small, ⟨low, high⟩, rest⟩ := halved
  have value : (found.2 >>> bound).toNat = found.2.toNat / 2 ^ bound := by
    rw [BitVec.toNat_ushiftRight, Nat.shiftRight_eq_div_pow]
  rw [Rfx.halve]
  by_cases more : found.2 >>> bound ≠ 0
  · have positive : 0 < (found.2 >>> bound).toNat := by
      apply Nat.pos_of_ne_zero
      intro zero
      exact more (BitVec.eq_of_toNat_eq zero)
    have place : 32 - (found.1 - bound) = 32 - found.1 + bound := by omega
    rw [if_pos more]
    refine ⟨positive, ?_, ⟨by simp only; omega, by simp only; omega⟩, ?_⟩
    · rw [value]
      apply Nat.div_lt_of_lt_mul
      rw [← Nat.pow_add]
      exact small
    · rw [value, place, Nat.pow_add, ← Nat.div_div_eq_div_mul, rest]
  · rw [if_neg more]
    refine ⟨some, ?_, ⟨by omega, high⟩, rest⟩
    have zero := congrArg BitVec.toNat (not_not.mp more)
    rw [value] at zero
    exact (Nat.div_eq_zero_iff_lt (Nat.two_pow_pos bound)).mp zero

theorem lzcntS_spec {x : BitVec 32} (some : x ≠ 0) :
    lzcntS x < 32 ∧ 2 ^ (31 - lzcntS x) ≤ x.toNat ∧ x.toNat < 2 ^ (32 - lzcntS x) := by
  have positive : 0 < x.toNat := by
    apply Nat.pos_of_ne_zero
    intro zero
    exact some (BitVec.eq_of_toNat_eq zero)
  have start : Halved x (32, x) (16 + 16) :=
    ⟨positive, x.isLt, ⟨Nat.le_refl _, Nat.le_refl _⟩, Nat.div_one _⟩
  have last : Halved x (halve 2 (halve 4 (halve 8 (halve 16 (32, x))))) 2 :=
    @Halved.halve x _ 2 (@Halved.halve x _ 4 (@Halved.halve x _ 8 start.halve))
  rw [lzcntS, if_neg some]
  generalize halve 2 (halve 4 (halve 8 (halve 16 (32, x)))) = found at last ⊢
  obtain ⟨n, left⟩ := found
  obtain ⟨positive', small, ⟨low, high⟩, rest⟩ := last
  simp only at positive' small low high rest ⊢
  have unit := Nat.two_pow_pos (32 - n)
  have floor := Nat.div_mul_le_self x.toNat (2 ^ (32 - n))
  have ceil := Nat.lt_div_mul_add unit (a := x.toNat)
  rw [rest] at floor ceil
  have value : (left >>> 1).toNat = left.toNat / 2 := by
    rw [BitVec.toNat_ushiftRight, Nat.shiftRight_eq_div_pow]
  by_cases more : left >>> 1 ≠ 0
  · have two : 2 ≤ left.toNat := by
      by_contra less
      apply more
      apply BitVec.eq_of_toNat_eq
      change _ = 0
      omega
    have place : 31 - (n - 2) = 32 - n + 1 := by omega
    have place' : 32 - (n - 2) = 32 - n + 2 := by omega
    have least := Nat.mul_le_mul_right (2 ^ (32 - n)) two
    have most := Nat.mul_le_mul_right (2 ^ (32 - n)) (Nat.le_of_lt_succ small)
    rw [if_pos more, place, place', Nat.pow_add, Nat.pow_add]
    omega
  · have one : left.toNat = 1 := by
      have zero := congrArg BitVec.toNat (not_not.mp more)
      change _ = 0 at zero
      omega
    have place : 31 - (n - 1) = 32 - n := by omega
    have place' : 32 - (n - 1) = 32 - n + 1 := by omega
    rw [if_neg more, one, place, place', Nat.pow_add]
    rw [one] at floor ceil
    omega

theorem lzcntS_eq {x : BitVec 32} {bits : List Bool} (whole : bits.length = 32)
    (value : x.toNat = bitsValue bits) : lzcntS x = lead false bits := by
  by_cases zero : x = 0
  · rw [lzcntS, if_pos zero]
    obtain ⟨all, _⟩ | ⟨less, low, _⟩ := bitsValue_lead bits
    · rw [all, whole]
    · have positive := Nat.two_pow_pos (bits.length - 1 - lead false bits)
      rw [zero] at value
      change 0 = _ at value
      omega
  · obtain ⟨small, low, high⟩ := lzcntS_spec zero
    obtain ⟨_, none⟩ | ⟨less, low', high'⟩ := bitsValue_lead bits
    · refine absurd ?_ zero
      apply BitVec.eq_of_toNat_eq
      rw [value, none]
      rfl
    · rw [← value] at low' high'
      have first := (Nat.pow_lt_pow_iff_right (by decide : 1 < 2)).mp (low.trans_lt high')
      have second := (Nat.pow_lt_pow_iff_right (by decide : 1 < 2)).mp (low'.trans_lt high)
      omega

end Lzcnt

namespace InBitStream

/-- The bits before a stream. -/
def bits : InBitStream → List Bool
  | ⟨[], _⟩ => []
  | ⟨byte :: rest, bitsLeft⟩ => bitsOf bitsLeft byte.toNat ++ bytesToBits rest

/-- Some bits of the first byte are left, if there is one. -/
structure Sane (bs : InBitStream) : Prop where
  some : 0 < bs.bitsLeft
  small : bs.bitsLeft ≤ 8
  atEnd : bs.bytes = [] → bs.bitsLeft = 8

variable {bs : InBitStream}

theorem sane_ofBytes (array : List Byte) : (ofBytes array).Sane :=
  ⟨Nat.succ_pos 7, Nat.le_refl 8, fun _ => rfl⟩

theorem bits_ofBytes (array : List Byte) : (ofBytes array).bits = bytesToBits array := by
  cases array <;> rfl

theorem length_bits (sane : bs.Sane) : bs.bits.length = bs.getRemainingLength := by
  obtain ⟨bytes, bitsLeft⟩ := bs
  cases bytes with
  | nil =>
    have eight := sane.atEnd rfl
    rw [getRemainingLength, eight]
    rfl
  | cons byte rest =>
    rw [bits, List.length_append, length_bitsOf, length_bytesToBits, getRemainingLength]
    simp only [List.length_cons]
    omega

theorem picked_toNat {byte : Byte} {bitsLeft b : Nat} {ret : BitVec 32} (small : bitsLeft ≤ 8)
    (within : b ≤ bitsLeft) :
    (ret <<< b ||| (byte >>> (bitsLeft - b) &&& ((1 : Byte) <<< b - 1)).setWidth 32).toNat =
      (ret.toNat * 2 ^ b + bitsValue (bitsOf b (byte.toNat >>> (bitsLeft - b)))) % 2 ^ 32 := by
  have masks : ∀ b < 9, ((1 : Byte) <<< b - 1).toNat = 2 ^ b - 1 := by decide
  have mask := masks b (Nat.lt_succ_of_le (Nat.le_trans within small))
  have low : byte.toNat >>> (bitsLeft - b) % 2 ^ b < 2 ^ b :=
    Nat.mod_lt _ (Nat.two_pow_pos b)
  rw [BitVec.toNat_or, BitVec.toNat_shiftLeft, BitVec.toNat_setWidth, BitVec.toNat_and,
    BitVec.toNat_ushiftRight, mask, Nat.and_two_pow_sub_one_eq_mod, bitsValue_bitsOf,
    ← Nat.or_mod_two_pow, ← Nat.shiftLeft_add_eq_or_of_lt low, Nat.shiftLeft_eq]

theorem pick_spec {bytes : List Byte} {bitsLeft : Nat} (sane : Sane ⟨bytes, bitsLeft⟩)
    (nbits : Nat) (ret : BitVec 32) :
    ∃ ret' later, pick bytes bitsLeft nbits ret =
        (ret', nbits - (bits ⟨bytes, bitsLeft⟩).length, later) ∧
      later.Sane ∧ later.bits = (bits ⟨bytes, bitsLeft⟩).drop nbits ∧
      ret'.toNat = (ret.toNat * 2 ^ ((bits ⟨bytes, bitsLeft⟩).take nbits).length +
        bitsValue ((bits ⟨bytes, bitsLeft⟩).take nbits)) % 2 ^ 32 := by
  induction bytes generalizing bitsLeft nbits ret with
  | nil =>
    refine ⟨ret, ⟨[], bitsLeft⟩, rfl, sane, ?_, ?_⟩
    · rw [bits, List.drop_nil]
    · rw [bits, List.take_nil, bitsValue, List.length_nil, Nat.pow_zero, Nat.mul_one, Nat.add_zero,
        Nat.mod_eq_of_lt ret.isLt]
  | cons byte rest ih =>
    obtain ⟨some, small, _⟩ := sane
    rw [pick]
    by_cases none : nbits = 0
    · rw [if_pos none, none]
      refine ⟨ret, _, by rw [Nat.zero_sub], ⟨some, small, fun empty => by cases empty⟩, rfl, ?_⟩
      rw [List.take_zero, bitsValue, List.length_nil, Nat.pow_zero, Nat.mul_one, Nat.add_zero,
        Nat.mod_eq_of_lt ret.isLt]
    · rw [if_neg none]
      have width : min nbits bitsLeft + (bitsLeft - min nbits bitsLeft) = bitsLeft := by omega
      have split := bitsOf_split (min nbits bitsLeft) (bitsLeft - min nbits bitsLeft) byte.toNat
      rw [width] at split
      have value := @picked_toNat byte bitsLeft (min nbits bitsLeft) ret small (Nat.min_le_right _ _)
      simp only
      generalize ret <<< min nbits bitsLeft ||| (byte >>> (bitsLeft - min nbits bitsLeft) &&&
        ((1 : Byte) <<< min nbits bitsLeft - 1)).setWidth 32 = ret' at value ⊢
      by_cases whole : bitsLeft - min nbits bitsLeft = 0
      · have all : min nbits bitsLeft = bitsLeft := by omega
        have le : bitsLeft ≤ nbits := by omega
        have fresh : Sane ⟨rest, 8⟩ := ⟨Nat.succ_pos 7, Nat.le_refl 8, fun _ => rfl⟩
        obtain ⟨ret'', later, picked, sane, drop, value'⟩ := ih fresh (nbits - bitsLeft) ret'
        have next : bits ⟨rest, 8⟩ = bytesToBits rest := bits_ofBytes rest
        have here : bits ⟨byte :: rest, bitsLeft⟩ =
            bitsOf bitsLeft byte.toNat ++ bytesToBits rest := rfl
        have enough : (bitsOf bitsLeft byte.toNat).length ≤ nbits := by
          rw [length_bitsOf]
          exact le
        rw [next] at picked drop value'
        rw [if_pos whole, all]
        refine ⟨ret'', later, ?_, sane, ?_, ?_⟩
        · rw [picked, here, List.length_append, length_bitsOf, Nat.sub_sub]
        · rw [drop, here, List.drop_append, List.drop_eq_nil_of_le enough, length_bitsOf,
            List.nil_append]
        · rw [all, Nat.sub_self, Nat.shiftRight_zero] at value
          rw [value', value, here, List.take_append, List.take_of_length_le enough, length_bitsOf,
            List.length_append, length_bitsOf, bitsValue_append, Nat.pow_add, Nat.add_mod,
            Nat.mod_mul_mod, ← Nat.add_mod]
          congr 1
          ring
      · have all : min nbits bitsLeft = nbits := by omega
        have here : bits ⟨byte :: rest, bitsLeft⟩ =
            bitsOf nbits (byte.toNat >>> (bitsLeft - nbits)) ++
              (bitsOf (bitsLeft - nbits) byte.toNat ++ bytesToBits rest) := by
          rw [bits, split, all, List.append_assoc]
        have length := length_bitsOf nbits (byte.toNat >>> (bitsLeft - nbits))
        rw [if_neg whole, all]
        refine ⟨ret', ⟨byte :: rest, bitsLeft - nbits⟩, ?_, ⟨?_, ?_, ?_⟩, ?_, ?_⟩
        · rw [here, List.length_append, length, Nat.sub_self, Nat.sub_add_eq, Nat.sub_self,
            Nat.zero_sub]
        · exact Nat.pos_of_ne_zero (all ▸ whole)
        · exact Nat.le_trans (Nat.sub_le _ _) small
        · intro empty
          cases empty
        · rw [here, List.drop_left' length]
          rfl
        · rw [here, List.take_left' length, length, value, all]

end InBitStream

end Redemption.Rfx
