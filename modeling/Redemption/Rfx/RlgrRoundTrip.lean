import Redemption.Rfx.RlgrBits

/-! The decoder reads what the reference encoder has written. -/
namespace Redemption.Rfx.Rlgr

open Redemption.Foundation Encoder

/-- The parameters follow from `kp` and `krp`, which stay below their maximum. -/
structure Params.Good (params : Params) : Prop where
  k : params.k = params.kp >>> lsGr
  kr : params.kr = params.krp >>> lsGr
  kpSmall : params.kp ≤ kpMax
  krpSmall : params.krp ≤ kpMax

variable {params : Params}

theorem up_le (param amount : Nat) : up param amount ≤ kpMax := Nat.min_le_right _ _

theorem down_le {param amount : Nat} (small : param ≤ kpMax) : down param amount ≤ kpMax :=
  Nat.le_trans (Nat.sub_le _ _) small

namespace Params.Good

theorem initial : Params.initial.Good := ⟨rfl, rfl, by decide, by decide⟩

theorem withKp (good : params.Good) {kp : Nat} (small : kp ≤ kpMax) : (params.withKp kp).Good :=
  ⟨rfl, good.kr, small, good.krpSmall⟩

theorem withKrp (good : params.Good) {krp : Nat} (small : krp ≤ kpMax) : (params.withKrp krp).Good :=
  ⟨good.k, rfl, good.kpSmall, small⟩

theorem withKp_self (good : params.Good) : params.withKp params.kp = params := by
  obtain ⟨k, kp, kr, krp⟩ := params
  have same := good.k
  simp only at same
  rw [Params.withKp, same]

theorem withKrp_self (good : params.Good) : params.withKrp params.krp = params := by
  obtain ⟨k, kp, kr, krp⟩ := params
  have same := good.kr
  simp only at same
  rw [Params.withKrp, same]

theorem k_le (good : params.Good) : params.k ≤ 10 := by
  have small := good.kpSmall
  rw [good.k, Nat.shiftRight_eq_div_pow]
  exact Nat.div_le_of_le_mul small

theorem updateKr (good : params.Good) (vk : Nat) : (updateKr params vk).Good := by
  rw [Rlgr.updateKr]
  by_cases zero : vk = 0
  · rw [if_pos zero]
    exact good.withKrp (down_le good.krpSmall)
  · rw [if_neg zero]
    by_cases more : vk ≠ 1
    · rw [if_pos more]
      exact good.withKrp (up_le _ _)
    · rw [if_neg more]
      exact good

end Params.Good

namespace Front

theorem gives_bits (nbits value : Nat) :
    (bits nbits).Gives (bitsOf nbits value) (BitVec.ofNat 32 (value % 2 ^ nbits)) := by
  intro rest
  have length := length_bitsOf nbits value
  have taken : (FrontReader.cells nbits : FrontReader Stop Bool _) (bitsOf nbits value ++ rest) =
      .ok (some (bitsOf nbits value, rest)) := by
    have cells := FrontReader.gives_cells (φ := Stop) (bitsOf nbits value) rest
    rw [length] at cells
    exact cells
  rw [bits, FrontReader.andThen_some taken, bitsValue_bitsOf]
  rfl

theorem gives_unary (is : Bool) (count : Nat) :
    (unary is).Gives (List.replicate count is ++ [!is]) count := by
  intro rest
  have other : (!is) ≠ is := by cases is <;> decide
  have counted : lead is (List.replicate count is ++ ([!is] ++ rest)) = count := by
    rw [lead_replicate_append, List.singleton_append, lead, if_neg other]
    rfl
  rw [List.append_assoc, unary, counted, List.drop_left' List.length_replicate]
  rfl

theorem or_eq_ofNat {kr value : Nat} (small : value < 2 ^ 16) :
    (BitVec.ofNat 32 (value % 2 ^ kr)).setWidth 16 ||| BitVec.ofNat 16 (value >>> kr <<< kr) =
      BitVec.ofNat 16 value := by
  have low := Nat.mod_lt value (Nat.two_pow_pos kr)
  have part := Nat.mod_le value (2 ^ kr)
  have high : value >>> kr <<< kr + value % 2 ^ kr = value := by
    rw [Nat.shiftLeft_eq, Nat.shiftRight_eq_div_pow, Nat.div_add_mod']
  have both := Nat.shiftLeft_add_eq_or_of_lt low (value >>> kr)
  apply BitVec.eq_of_toNat_eq
  rw [BitVec.toNat_or, BitVec.toNat_setWidth, BitVec.toNat_ofNat, BitVec.toNat_ofNat,
    BitVec.toNat_ofNat, Nat.mod_eq_of_lt (by omega : value % 2 ^ kr < 2 ^ 32),
    Nat.mod_eq_of_lt (by omega : value % 2 ^ kr < 2 ^ 16),
    Nat.mod_eq_of_lt (by omega : value >>> kr <<< kr < 2 ^ 16), Nat.mod_eq_of_lt small, Nat.or_comm,
    ← both, high]

theorem gives_code (good : params.Good) {value : Nat} (small : value < 2 ^ 16) :
    (code params).Gives (codeGr params.krp value).1
      (BitVec.ofNat 16 value, params.withKrp (codeGr params.krp value).2) := by
  have behind : updateKr params (value >>> params.kr) =
      params.withKrp (codeGr params.krp value).2 := by
    rw [updateKr, codeGr, ← good.kr]
    by_cases zero : value >>> params.kr = 0
    · rw [if_pos zero, if_pos zero]
    · rw [if_neg zero, if_neg zero]
      by_cases more : value >>> params.kr ≠ 1
      · rw [if_pos more, if_pos more]
      · rw [if_neg more, if_neg more, good.withKrp_self]
  have split : (codeGr params.krp value).1 =
      (List.replicate (value >>> params.kr) true ++ [!true]) ++
        (bitsOf params.kr value ++ []) := by
    rw [codeGr, ← good.kr, List.append_nil]
    rfl
  rw [split, ← behind, ← @or_eq_ofNat params.kr value small]
  apply (gives_unary true (value >>> params.kr)).andThen
  apply (gives_bits params.kr value).andThen
  exact FrontReader.gives_give _

theorem addRuns_eq (good : params.Good) {turns run numZeros : Nat}
    (fits : run + numZeros ≤ intMax) :
    (outputRun turns params.kp numZeros).2.2 ≤ numZeros ∧
    addRuns (outputRun turns params.kp numZeros).1 run params =
      .ok (run + (numZeros - (outputRun turns params.kp numZeros).2.2),
        params.withKp (outputRun turns params.kp numZeros).2.1) ∧
    (outputRun turns params.kp numZeros).2.1 ≤ kpMax ∧
    (numZeros ≤ turns → (outputRun turns params.kp numZeros).2.2 <
      1 <<< ((outputRun turns params.kp numZeros).2.1 >>> lsGr)) := by
  induction turns generalizing params run numZeros with
  | zero =>
    refine ⟨Nat.le_refl _, ?_, good.kpSmall, ?_⟩
    · rw [outputRun, addRuns, Nat.sub_self, good.withKp_self]
      rfl
    · intro none
      rw [outputRun]
      rw [Nat.le_zero.mp none, Nat.one_shiftLeft]
      exact Nat.two_pow_pos _
  | succ turns ih =>
    rw [outputRun]
    have positive := Nat.two_pow_pos (params.kp >>> lsGr)
    rw [Nat.one_shiftLeft]
    by_cases more : 2 ^ (params.kp >>> lsGr) ≤ numZeros
    · rw [if_pos more]
      have next := @ih (params.withKp (up params.kp upGr)) (good.withKp (up_le _ _))
        (run + 2 ^ (params.kp >>> lsGr)) (numZeros - 2 ^ (params.kp >>> lsGr)) (by omega)
      have kp : (params.withKp (up params.kp upGr)).kp = up params.kp upGr := rfl
      rw [kp] at next
      generalize outputRun turns (up params.kp upGr) (numZeros - 2 ^ (params.kp >>> lsGr)) = found
        at next ⊢
      obtain ⟨count, kp', left⟩ := found
      obtain ⟨le, added, small, rest⟩ := next
      simp only at le added small rest ⊢
      refine ⟨by omega, ?_, small, fun enough => rest (by omega)⟩
      have fits' : run + 1 <<< params.k ≤ intMax := by
        rw [good.k, Nat.one_shiftLeft]
        omega
      have total : run + 2 ^ (params.kp >>> lsGr) +
          (numZeros - 2 ^ (params.kp >>> lsGr) - left) = run + (numZeros - left) := by omega
      rw [addRuns, if_pos fits', good.k, Nat.one_shiftLeft, added, total]
      rfl
    · rw [if_neg more]
      refine ⟨Nat.le_refl _, ?_, good.kpSmall, fun _ => ?_⟩
      · rw [addRuns, Nat.sub_self, good.withKp_self]
        rfl
      · rw [Nat.one_shiftLeft]
        exact Nat.lt_of_not_le more

theorem runBits_small (good : params.Good) {numZeros : Nat} (fits : numZeros ≤ intMax) :
    (runBits params.kp numZeros).2 ≤ kpMax := by
  have added := @addRuns_eq params good numZeros 0 numZeros (by omega)
  rw [runBits]
  exact added.2.2.1

theorem gives_run (good : params.Good) {numZeros : Nat} (fits : numZeros ≤ intMax) :
    (run params).Gives (runBits params.kp numZeros).1
      (numZeros, params.withKp (runBits params.kp numZeros).2) := by
  have added := @addRuns_eq params good numZeros 0 numZeros (by omega)
  rw [runBits]
  generalize outputRun numZeros params.kp numZeros = found at added ⊢
  obtain ⟨count, kp, left⟩ := found
  obtain ⟨le, sum, _, small⟩ := added
  simp only at le sum small ⊢
  have remains := small (Nat.le_refl _)
  rw [Nat.one_shiftLeft] at remains
  have low : (BitVec.ofNat 32 (left % 2 ^ (kp >>> lsGr))).toNat = left := by
    rw [Nat.mod_eq_of_lt remains, BitVec.toNat_ofNat, Nat.mod_eq_of_lt]
    rw [intMax] at fits
    omega
  have total : 0 + (numZeros - left) + left = numZeros := by omega
  have last : (FrontReader.andThen (bits (kp >>> lsGr)) fun low =>
      if 0 + (numZeros - left) + low.toNat ≤ intMax then
        .give (0 + (numZeros - left) + low.toNat, params.withKp kp)
      else stop .overflow).Gives (bitsOf (kp >>> lsGr) left ++ [])
        (numZeros, params.withKp kp) := by
    apply (gives_bits (kp >>> lsGr) left).andThen
    rw [low, total, if_pos fits]
    exact FrontReader.gives_give _
  have middle : (lift (addRuns count 0 params)).Gives []
      (0 + (numZeros - left), params.withKp kp) := by
    intro rest
    rw [sum]
    rfl
  have split : List.replicate count false ++ [true] ++ bitsOf (kp >>> lsGr) left =
      (List.replicate count false ++ [!false]) ++ ([] ++ (bitsOf (kp >>> lsGr) left ++ [])) := by
    rw [List.nil_append, List.append_nil]
    rfl
  rw [split, run]
  apply (gives_unary false count).andThen
  exact middle.andThen last

section Values

variable (value : Coefficient)

theorem magnitude_cases :
    (value.msb = false ∧ value.toNat < 2 ^ 15 ∧ magnitude value = value.toNat) ∨
      (value.msb = true ∧ 2 ^ 15 ≤ value.toNat ∧ magnitude value = 2 ^ 16 - value.toNat) := by
  have sign := BitVec.msb_eq_decide value
  rw [magnitude]
  cases negative : value.msb with
  | false =>
    rw [negative] at sign
    exact .inl ⟨rfl, Nat.lt_of_not_le (of_decide_eq_false sign.symm), rfl⟩
  | true =>
    rw [negative] at sign
    exact .inr ⟨rfl, of_decide_eq_true sign.symm, rfl⟩

theorem magnitude_le : magnitude value ≤ 2 ^ 15 := by
  obtain ⟨_, small, same⟩ | ⟨_, large, same⟩ := magnitude_cases value
  · omega
  · omega

theorem magnitude_pos (some : value ≠ 0) : 0 < magnitude value := by
  have positive : 0 < value.toNat := by
    apply Nat.pos_of_ne_zero
    intro zero
    exact some (BitVec.eq_of_toNat_eq zero)
  obtain ⟨_, small, same⟩ | ⟨_, large, same⟩ := magnitude_cases value
  · omega
  · omega

theorem sign_magnitude :
    (if value.msb then -(BitVec.ofNat 16 (magnitude value)) else BitVec.ofNat 16 (magnitude value)) =
      value := by
  apply BitVec.eq_of_toNat_eq
  obtain ⟨sign, small, same⟩ | ⟨sign, large, same⟩ := magnitude_cases value
  · rw [sign, if_neg (by decide), same, BitVec.toNat_ofNat]
    omega
  · rw [sign, if_pos rfl, same, BitVec.toNat_neg, BitVec.toNat_ofNat]
    omega

theorem twoMagSign_cases :
    (value.msb = false ∧ value.toNat < 2 ^ 15 ∧ twoMagSign value = 2 * value.toNat) ∨
      (value.msb = true ∧ 2 ^ 15 ≤ value.toNat ∧
        twoMagSign value + 1 = 2 * (2 ^ 16 - value.toNat)) := by
  rw [twoMagSign]
  obtain ⟨sign, small, same⟩ | ⟨sign, large, same⟩ := magnitude_cases value
  · rw [sign, same]
    exact .inl ⟨rfl, small, rfl⟩
  · rw [sign, same]
    refine .inr ⟨rfl, large, ?_⟩
    rw [Bool.toNat_true]
    omega

theorem twoMagSign_lt : twoMagSign value < 2 ^ 16 := by
  obtain ⟨_, small, same⟩ | ⟨_, large, same⟩ := twoMagSign_cases value
  · omega
  · omega

theorem twoMagSign_eq_zero_iff : twoMagSign value = 0 ↔ value = 0 := by
  constructor
  · intro none
    apply BitVec.eq_of_toNat_eq
    change value.toNat = 0
    obtain ⟨_, small, same⟩ | ⟨_, large, same⟩ := twoMagSign_cases value
    · omega
    · omega
  · rintro rfl
    rfl

theorem magOf_twoMagSign : magOf (BitVec.ofNat 32 (twoMagSign value)) = value := by
  have fits := twoMagSign_lt value
  have number : (BitVec.ofNat 32 (twoMagSign value)).toNat = twoMagSign value := by
    rw [BitVec.toNat_ofNat]
    omega
  have odd : BitVec.ofNat 32 (twoMagSign value) &&& 1 ≠ 0 ↔ twoMagSign value % 2 = 1 := by
    rw [← BitVec.toNat_inj.ne, BitVec.toNat_and, number]
    change twoMagSign value &&& 1 ≠ 0 ↔ _
    rw [Nat.and_one_is_mod]
    omega
  rw [magOf]
  apply BitVec.eq_of_toNat_eq
  obtain ⟨_, small, same⟩ | ⟨_, large, same⟩ := twoMagSign_cases value
  · rw [if_neg (by rw [odd]; omega), BitVec.toNat_setWidth, BitVec.toNat_ushiftRight, number,
      Nat.shiftRight_eq_div_pow]
    omega
  · have half : ((BitVec.ofNat 32 (twoMagSign value) + 1) >>> 1).toNat = 2 ^ 16 - value.toNat := by
      rw [BitVec.toNat_ushiftRight, BitVec.toNat_add, number, Nat.shiftRight_eq_div_pow]
      change (twoMagSign value + 1) % 2 ^ 32 / 2 ^ 1 = _
      omega
    rw [if_pos (by rw [odd]; omega), BitVec.toNat_neg, BitVec.toNat_setWidth, half]
    omega

end Values

section Turn

variable {kp krp : Nat}

/-- The parameters of `kp` and `krp`. -/
def paramsOf (kp krp : Nat) : Params := ⟨kp >>> lsGr, kp, krp >>> lsGr, krp⟩

theorem paramsOf_good (kpSmall : kp ≤ kpMax) (krpSmall : krp ≤ kpMax) : (paramsOf kp krp).Good :=
  ⟨rfl, rfl, kpSmall, krpSmall⟩

theorem codeGr_small (krpSmall : krp ≤ kpMax) (value : Nat) : (codeGr krp value).2 ≤ kpMax := by
  rw [codeGr]
  by_cases zero : value >>> (krp >>> lsGr) = 0
  · rw [if_pos zero]
    exact down_le krpSmall
  · rw [if_neg zero]
    by_cases more : value >>> (krp >>> lsGr) ≠ 1
    · rw [if_pos more]
      exact up_le _ _
    · rw [if_neg more]
      exact krpSmall

theorem gives_runLength (kpSmall : kp ≤ kpMax) (krpSmall : krp ≤ kpMax) {numZeros : Nat}
    (fits : numZeros ≤ intMax) {value : Coefficient} (some : value ≠ 0) :
    (runLength (paramsOf kp krp)).Gives (encodeSymbol kp krp (.run numZeros value)).1
      (paramsOf (encodeSymbol kp krp (.run numZeros value)).2.1
        (encodeSymbol kp krp (.run numZeros value)).2.2, ⟨numZeros, [value]⟩) := by
  have good := paramsOf_good kpSmall krpSmall
  have small : magnitude value - 1 < 2 ^ 16 := by
    have le := magnitude_le value
    omega
  have first := gives_run good fits
  have good' : ((paramsOf kp krp).withKp (runBits kp numZeros).2).Good :=
    good.withKp (runBits_small good fits)
  have code := gives_code good' small
  have same : BitVec.ofNat 16 (magnitude value - 1) + 1 = BitVec.ofNat 16 (magnitude value) := by
    have positive := magnitude_pos value some
    have sum : BitVec.ofNat 16 (magnitude value - 1) + BitVec.ofNat 16 1 = _ :=
      (BitVec.ofNat_add (magnitude value - 1) 1).symm
    rw [Nat.sub_add_cancel positive] at sum
    exact sum
  have bit : (BitVec.ofNat 32 (value.msb.toNat % 2 ^ 1) ≠ 0) ↔ value.msb = true := by
    cases value.msb <;> decide
  have sign : (if BitVec.ofNat 32 (value.msb.toNat % 2 ^ 1) ≠ 0 then
      -(BitVec.ofNat 16 (magnitude value - 1) + 1)
      else BitVec.ofNat 16 (magnitude value - 1) + 1) = value := by
    rw [same, if_congr bit rfl rfl]
    exact sign_magnitude value
  have one : [value.msb] = bitsOf 1 value.msb.toNat := by cases value.msb <;> rfl
  have split : (encodeSymbol kp krp (.run numZeros value)).1 =
      (runBits kp numZeros).1 ++ (bitsOf 1 value.msb.toNat ++
        ((codeGr krp (magnitude value - 1)).1 ++ [])) := by
    rw [encodeSymbol, ← one, List.append_nil, ← List.append_assoc]
  rw [split, runLength]
  apply first.andThen
  apply (gives_bits 1 value.msb.toNat).andThen
  apply code.andThen
  simp only [sign]
  exact FrontReader.gives_give _

theorem gives_single (kpSmall : kp ≤ kpMax) (krpSmall : krp ≤ kpMax) (value : Coefficient) :
    (single (paramsOf kp krp)).Gives (encodeSymbol kp krp (.single value)).1
      (paramsOf (encodeSymbol kp krp (.single value)).2.1
        (encodeSymbol kp krp (.single value)).2.2, ⟨0, [value]⟩) := by
  have code := gives_code (paramsOf_good kpSmall krpSmall) (twoMagSign_lt value)
  have none : BitVec.ofNat 16 (twoMagSign value) = 0 ↔ value = 0 := by
    rw [← twoMagSign_eq_zero_iff value, ← BitVec.toNat_inj, BitVec.toNat_ofNat,
      Nat.mod_eq_of_lt (twoMagSign_lt value)]
    rfl
  have wide : (BitVec.ofNat 16 (twoMagSign value)).setWidth 32 =
      BitVec.ofNat 32 (twoMagSign value) := by
    apply BitVec.eq_of_toNat_eq
    have small := twoMagSign_lt value
    rw [BitVec.toNat_setWidth, BitVec.toNat_ofNat, BitVec.toNat_ofNat]
    omega
  have split : (encodeSymbol kp krp (.single value)).1 =
      (codeGr krp (twoMagSign value)).1 ++ [] := (List.append_nil _).symm
  rw [split, single]
  apply code.andThen
  rw [encodeSymbol]
  by_cases zero : value = 0
  · simp only [zero, if_true]
    exact FrontReader.gives_give _
  · simp only [if_neg (fun is => zero (none.mp is)), if_neg zero, wide, magOf_twoMagSign]
    exact FrontReader.gives_give _

/-- The first value of a pair takes the bits of the sum, as long as that is no more than fifteen
bits: beyond them the sum is a negative `int16_t`. -/
theorem pairBits_eq {sum : Nat} (small : sum < 2 ^ 15) :
    pairBits (BitVec.ofNat 16 sum) = minBits sum := by
  have value : (BitVec.ofNat 16 sum).toNat = sum := by
    rw [BitVec.toNat_ofNat]
    omega
  rw [pairBits, minBits]
  by_cases zero : sum = 0
  · subst zero
    rfl
  · have some : BitVec.ofNat 16 sum ≠ 0 := by
      intro none
      rw [none] at value
      exact zero value.symm
    have positive : (BitVec.ofNat 16 sum).msb = false := by
      rw [BitVec.msb_eq_decide, value]
      exact decide_eq_false (by omega)
    have wide : ((BitVec.ofNat 16 sum).signExtend 32).toNat = sum := by
      rw [BitVec.signExtend_eq_setWidth_of_msb_false positive, BitVec.toNat_setWidth, value]
      omega
    have some' : (BitVec.ofNat 16 sum).signExtend 32 ≠ 0 := by
      intro none
      rw [none] at wide
      exact zero wide.symm
    obtain ⟨less, low, high⟩ := lzcntS_spec some'
    rw [wide] at low high
    have least := Nat.log2_self_le zero
    have most := @Nat.lt_log2_self sum
    have first := (Nat.pow_lt_pow_iff_right (by decide : 1 < 2)).mp (low.trans_lt most)
    have second := (Nat.pow_lt_pow_iff_right (by decide : 1 < 2)).mp (least.trans_lt high)
    rw [if_pos some, if_neg zero]
    omega

theorem lt_minBits {value sum : Nat} (le : value ≤ sum) : value < 2 ^ minBits sum := by
  rw [minBits]
  by_cases zero : sum = 0
  · rw [if_pos zero]
    omega
  · rw [if_neg zero]
    exact Nat.lt_of_le_of_lt le Nat.lt_log2_self

theorem gives_pair (kpSmall : kp ≤ kpMax) (krpSmall : krp ≤ kpMax) {first second : Coefficient}
    (fits : twoMagSign first + twoMagSign second < 2 ^ 15) :
    (pair (paramsOf kp krp)).Gives (encodeSymbol kp krp (.pair first second)).1
      (paramsOf (encodeSymbol kp krp (.pair first second)).2.1
        (encodeSymbol kp krp (.pair first second)).2.2, ⟨0, [first, second]⟩) := by
  have code := gives_code (paramsOf_good kpSmall krpSmall)
    (by omega : twoMagSign first + twoMagSign second < 2 ^ 16)
  have bits := gives_bits (pairBits (BitVec.ofNat 16 (twoMagSign first + twoMagSign second)))
    (twoMagSign first)
  have value : (BitVec.ofNat 32 (twoMagSign first)).toNat = twoMagSign first := by
    rw [BitVec.toNat_ofNat]
    omega
  have other : (BitVec.ofNat 16 (twoMagSign first + twoMagSign second)).setWidth 32 -
      BitVec.ofNat 32 (twoMagSign first) = BitVec.ofNat 32 (twoMagSign second) := by
    apply BitVec.eq_of_toNat_eq
    rw [BitVec.toNat_sub, value, BitVec.toNat_setWidth, BitVec.toNat_ofNat, BitVec.toNat_ofNat]
    omega
  have none : ∀ value, twoMagSign value < 2 ^ 15 →
      (BitVec.ofNat 32 (twoMagSign value) = 0 ↔ value = 0) := by
    intro value small
    rw [← twoMagSign_eq_zero_iff value, ← BitVec.toNat_inj, BitVec.toNat_ofNat,
      Nat.mod_eq_of_lt (by omega)]
    rfl
  have zero := none first (by omega)
  have zero' := none second (by omega)
  have split : (encodeSymbol kp krp (.pair first second)).1 =
      (codeGr krp (twoMagSign first + twoMagSign second)).1 ++
        (bitsOf (minBits (twoMagSign first + twoMagSign second)) (twoMagSign first) ++ []) := by
    rw [encodeSymbol, List.append_nil]
  rw [pairBits_eq fits, Nat.mod_eq_of_lt (lt_minBits (Nat.le_add_right _ _))] at bits
  rw [split, pair]
  apply code.andThen
  simp only [pairBits_eq fits]
  apply bits.andThen
  have behind : pairParams ((paramsOf kp krp).withKrp
      (codeGr krp (twoMagSign first + twoMagSign second)).2) (BitVec.ofNat 32 (twoMagSign first))
      (BitVec.ofNat 32 (twoMagSign second)) =
        paramsOf (encodeSymbol kp krp (.pair first second)).2.1
          (encodeSymbol kp krp (.pair first second)).2.2 := by
    rw [pairParams, encodeSymbol]
    simp only [ne_eq, zero, zero']
    by_cases both : ¬ first = 0 ∧ ¬ second = 0
    · rw [if_pos both, if_pos both]
      rfl
    · rw [if_neg both, if_neg both]
      by_cases neither : first = 0 ∧ second = 0
      · rw [if_pos neither, if_pos neither]
        rfl
      · rw [if_neg neither, if_neg neither]
        rfl
  simp only [other, magOf_twoMagSign]
  rw [← behind]
  exact FrontReader.gives_give _

end Turn

end Front

end Redemption.Rfx.Rlgr
