import Mathlib.Data.Int.ConditionallyCompleteOrder
import Mathlib.Data.Rat.Floor
import Mathlib.Tactic.FieldSimp
import Mathlib.Tactic.Linarith
import Mathlib.Tactic.Ring

/-! Points of a segment as rational numbers, and the division that rounds toward zero. -/
namespace Redemption.Foundation

/-- The whole part of a number, without its fraction. -/
def truncate (value : ℚ) : ℤ := if 0 ≤ value then ⌊value⌋ else ⌈value⌉

@[simp] theorem truncate_intCast (value : ℤ) : truncate value = value := by
  unfold truncate
  split <;> simp

theorem truncate_mono : Monotone truncate := by
  intro first second le
  unfold truncate
  split
  · rename_i firstSign
    rw [if_pos (firstSign.trans le)]
    exact Int.floor_le_floor le
  · have below : ⌈first⌉ ≤ 0 := Int.ceil_le.mpr (by push_cast; linarith)
    split
    · rename_i secondSign
      exact below.trans (Int.floor_nonneg.mpr secondSign)
    · exact Int.ceil_le_ceil le

theorem truncate_neg (value : ℚ) : truncate (-value) = -truncate value := by
  unfold truncate
  rcases lt_trichotomy value 0 with below | zero | above
  · rw [if_pos (by linarith), if_neg (by linarith), Int.floor_neg]
  · simp [zero]
  · rw [if_neg (by linarith), if_pos (by linarith), Int.ceil_neg]

theorem abs_truncate_sub_lt (value : ℚ) : |(truncate value : ℚ) - value| < 1 := by
  unfold truncate
  split
  · have low := Int.lt_floor_add_one value
    have high := Int.floor_le value
    exact abs_lt.mpr ⟨by linarith, by linarith⟩
  · have low := Int.le_ceil value
    have high := Int.ceil_lt_add_one value
    exact abs_lt.mpr ⟨by linarith, by linarith⟩

/-- The division of the machine rounds toward zero. -/
theorem tdiv_eq_truncate (dividend divisor : ℤ) :
    dividend.tdiv divisor = truncate (dividend / divisor) := by
  have natural (first second : ℕ) :
      (first : ℤ).tdiv second = truncate ((first : ℚ) / second) := by
    have nonneg : (0 : ℚ) ≤ first / second := by positivity
    rw [truncate, if_pos nonneg, Int.tdiv_eq_ediv_of_nonneg (Int.natCast_nonneg first)]
    exact (Rat.floor_intCast_div_natCast (first : ℤ) second).symm
  obtain ⟨first, rfl | rfl⟩ := dividend.eq_nat_or_neg <;>
    obtain ⟨second, rfl | rfl⟩ := divisor.eq_nat_or_neg <;>
    simp [Int.neg_tdiv, Int.tdiv_neg, neg_div, div_neg, truncate_neg, natural]

/-- The coordinate after a part of the way from one number to another. -/
def along (start stop : ℤ) (part : ℚ) : ℚ := start + part * (stop - start)

@[simp] theorem along_zero (start stop : ℤ) : along start stop 0 = start := by
  simp [along]

theorem along_reverse (start stop : ℤ) (part : ℚ) :
    along stop start part = along start stop (1 - part) := by
  unfold along
  ring

/-- A coordinate stays between those of an earlier and a later point. -/
theorem along_between {start stop low high : ℤ} {first part last : ℚ}
    (after : first ≤ part) (before : part ≤ last)
    (atFirst : (low : ℚ) ≤ along start stop first ∧ along start stop first ≤ high)
    (atLast : (low : ℚ) ≤ along start stop last ∧ along start stop last ≤ high) :
    (low : ℚ) ≤ along start stop part ∧ along start stop part ≤ high := by
  unfold along at *
  rcases le_total (start : ℚ) stop with up | down
  · have left := mul_le_mul_of_nonneg_right after (sub_nonneg.mpr up)
    have right := mul_le_mul_of_nonneg_right before (sub_nonneg.mpr up)
    constructor <;> linarith
  · have left := mul_le_mul_of_nonpos_right after (sub_nonpos.mpr down)
    have right := mul_le_mul_of_nonpos_right before (sub_nonpos.mpr down)
    constructor <;> linarith

/-- Later points are further in the direction of the segment. -/
theorem along_direction (start stop : ℤ) {first last : ℚ} (le : first ≤ last) :
    0 ≤ (truncate (along start stop last) - truncate (along start stop first)) *
      (stop - start) := by
  rcases le_total start stop with up | down
  · have forward : along start stop first ≤ along start stop last := by
      have sign : (0 : ℚ) ≤ stop - start := sub_nonneg.mpr (by exact_mod_cast up)
      have := mul_le_mul_of_nonneg_right le sign
      unfold along
      linarith
    exact mul_nonneg (sub_nonneg.mpr (truncate_mono forward)) (sub_nonneg.mpr up)
  · have backward : along start stop last ≤ along start stop first := by
      have sign : (stop : ℚ) - start ≤ 0 := sub_nonpos.mpr (by exact_mod_cast down)
      have := mul_le_mul_of_nonpos_right le sign
      unfold along
      linarith
    exact mul_nonneg_of_nonpos_of_nonpos (sub_nonpos.mpr (truncate_mono backward))
      (sub_nonpos.mpr down)

/-- A coordinate reaches a band from outside of it, at one of its borders. -/
def Enters (start stop low high : ℤ) (part : ℚ) : Prop :=
  (along start stop part = low ∧ ∀ before < part, along start stop before < low) ∨
    (along start stop part = high ∧ ∀ before < part, (high : ℚ) < along start stop before)

/-- The way up to a value, from below. -/
theorem along_reaches {start stop border : ℤ} (below : start < border) (beyond : border ≤ stop) :
    let part := ((border : ℚ) - start) / (stop - start)
    0 < part ∧ part ≤ 1 ∧ along start stop part = border ∧
      (∀ before < part, along start stop before < border) ∧
      ∀ later, (border : ℚ) ≤ along start stop later → part ≤ later := by
  intro part
  have short : (0 : ℚ) < border - start := sub_pos.mpr (by exact_mod_cast below)
  have long : (border : ℚ) - start ≤ stop - start := by
    have : (border : ℚ) ≤ stop := by exact_mod_cast beyond
    linarith
  have positive : (0 : ℚ) < stop - start := short.trans_le long
  have there : part * (stop - start) = border - start := div_mul_cancel₀ _ positive.ne'
  refine ⟨div_pos short positive, (div_le_one positive).mpr long, ?_, ?_, ?_⟩
  · unfold along
    linarith
  · intro before earlier
    have := mul_lt_mul_of_pos_right earlier positive
    unfold along
    linarith
  · intro later reached
    unfold along at reached
    refine (div_le_iff₀ positive).mpr ?_
    linarith

theorem along_neg (start stop : ℤ) (part : ℚ) :
    along (-start) (-stop) part = -along start stop part := by
  unfold along
  push_cast
  ring

theorem along_descends {start stop border : ℤ} (above : border < start) (beyond : stop ≤ border) :
    let part := ((border : ℚ) - start) / (stop - start)
    0 < part ∧ part ≤ 1 ∧ along start stop part = border ∧
      (∀ before < part, (border : ℚ) < along start stop before) ∧
      ∀ later, along start stop later ≤ (border : ℚ) → part ≤ later := by
  intro part
  have mirrored : part = (((-border : ℤ) : ℚ) - (-start : ℤ)) / ((-stop : ℤ) - (-start : ℤ)) := by
    rw [show part = ((border : ℚ) - start) / (stop - start) from rfl, ← neg_div_neg_eq]
    push_cast
    congr 1 <;> ring
  obtain ⟨positive, bounded, there, earlier, later⟩ :=
    along_reaches (Int.neg_lt_neg above) (Int.neg_le_neg beyond)
  simp only [← mirrored, along_neg] at positive bounded there earlier later
  exact ⟨positive, bounded, neg_injective there,
    fun before lt => neg_lt_neg_iff.mp (earlier before lt),
    fun part' reached => later part' (neg_le_neg reached)⟩

/-- A band that is entered at a point is not met before, not even by a rounded coordinate, except
at its border. -/
theorem Enters.truncate_eq {start stop low high : ℤ} {part before : ℚ}
    (enters : Enters start stop low high part) (earlier : before < part)
    (inside : low ≤ truncate (along start stop before) ∧
      truncate (along start stop before) ≤ high) :
    truncate (along start stop before) = truncate (along start stop part) := by
  rcases enters with ⟨there, outside⟩ | ⟨there, outside⟩
  · have rounded := truncate_mono (outside before earlier).le
    rw [truncate_intCast] at rounded
    rw [there, truncate_intCast]
    exact le_antisymm rounded inside.1
  · have rounded := truncate_mono (outside before earlier).le
    rw [truncate_intCast] at rounded
    rw [there, truncate_intCast]
    exact le_antisymm inside.2 rounded

/-- A band entered from both ends of the segment is met at one point or after the other. -/
theorem Enters.ordered {start stop low high : ℤ} {part back : ℚ} (nonempty : low ≤ high)
    (enters : Enters start stop low high part) (returns : Enters stop start low high back) :
    part ≤ 1 - back := by
  by_contra crossed
  have wide : (low : ℚ) ≤ high := by exact_mod_cast nonempty
  have outside : along start stop (1 - back) < low ∨ (high : ℚ) < along start stop (1 - back) :=
    enters.imp (fun half => half.2 _ (not_le.mp crossed)) (fun half => half.2 _ (not_le.mp crossed))
  have border : along start stop (1 - back) = low ∨ along start stop (1 - back) = high := by
    rw [← along_reverse]
    exact returns.imp (fun half => half.1) (fun half => half.1)
  rcases outside with low' | high' <;> rcases border with eq | eq <;> linarith

end Redemption.Foundation
