import Redemption.Foundation.TileGrid
import Redemption.Rfx.TileSafety

/-! The inverse wavelet transform of a tile, and the forward transform that it inverts. -/
namespace Redemption.Foundation

variable {β ε : Type} {size : Nat}

/-- A loop that stores one value in each of its turns, to places that are all different. -/
theorem foldlM_store {step : Buffer β size → Nat → Checked ε (Buffer β size)} {count : Nat}
    {start : Buffer β size} (place : Nat → Nat) (value : Nat → β)
    (steps : ∀ n < count, ∀ state : Buffer β size,
      (∀ i, (∀ m < n, i ≠ place m) → state.cell i = start.cell i) →
      step state n = .ok (state.set (place n) (value n)))
    (apart : ∀ m n, m < n → place m ≠ place n) :
    ∃ last, (List.range count).foldlM step start = .ok last ∧
      (∀ m < count, last.cell (place m) = value m) ∧
      ∀ i, (∀ m < count, i ≠ place m) → last.cell i = start.cell i := by
  refine foldlM_range_ok (fun n (state : Buffer β size) => (∀ m < n, state.cell (place m) = value m) ∧
    ∀ i, (∀ m < n, i ≠ place m) → state.cell i = start.cell i) ⟨by omega, fun _ _ => rfl⟩ ?_
  rintro n inside state ⟨stored, others⟩
  refine ⟨_, steps n inside state others, fun m before => ?_, fun i outside => ?_⟩
  · rcases Nat.lt_succ_iff_lt_or_eq.mp before with earlier | rfl
    · rw [Buffer.cell_set_other _ _ (apart m n earlier)]
      exact stored m earlier
    · exact Buffer.cell_set_same ..
  · rw [Buffer.cell_set_other _ _ (outside n (by omega))]
    exact others i fun m before => outside m (by omega)

end Redemption.Foundation

namespace Redemption.Rfx

open Foundation

section Lifting

variable (w : Nat) (x : Nat → Int)

/-- What an odd value differs by from the mean of its neighbours; the border is mirrored. -/
def difference (n : Nat) : Int :=
  x (n * 2 + 1) - ((x (n * 2) + x (if n + 1 < w then n * 2 + 2 else n * 2)) >>> (1 : Nat))

def highPass (n : Nat) : Int := difference w x n >>> (1 : Nat)

def lowPass (n : Nat) : Int :=
  x (n * 2) + ((highPass w x (n - 1) + highPass w x n + 1) >>> (1 : Nat))

/-- No bit is lost where the differences are halved. -/
def Lossless : Prop := ∀ n < w, 2 ∣ difference w x n

def Fits16 (value : Int) : Prop := -2 ^ 15 ≤ value ∧ value < 2 ^ 15

theorem shiftRight_one (value : Int) : value >>> (1 : Nat) = value / 2 := by
  rw [Int.shiftRight_eq_div_pow]
  rfl

theorem toInt_toInt16 {value : Int} (fits : Fits16 value) : (toInt16 value).toInt = value := by
  rw [Fits16] at fits
  rw [toInt16, BitVec.toInt_ofInt, Int.bmod_eq_of_le (by omega) (by omega)]

variable {w x}

theorem even_value (n : Nat) :
    lowPass w x n - ((highPass w x (n - 1) + highPass w x n + 1) >>> (1 : Nat)) = x (n * 2) := by
  rw [lowPass, Int.add_sub_cancel]

theorem odd_value (lossless : Lossless w x) {n : Nat} (inside : n < w) :
    highPass w x n * 2 +
      ((x (n * 2) + x (if n + 1 < w then n * 2 + 2 else n * 2)) >>> (1 : Nat)) = x (n * 2 + 1) := by
  have whole := lossless n inside
  rw [highPass, shiftRight_one, Int.ediv_mul_cancel whole, difference,
    Int.sub_add_cancel]

end Lifting

section Line

variable {size : Nat} {buffer : Buffer (BitVec 16) size} {idwt : DwtBuffer} {w low high dst : Nat}
  {x : Nat → Int}

theorem decodeRow_ok (lossless : Lossless w x) (fits : ∀ i < w * 2, Fits16 (x i))
    (lows : ∀ n < w, (buffer.cell (low + n)).toInt = lowPass w x n)
    (highs : ∀ n < w, (buffer.cell (high + n)).toInt = highPass w x n)
    (bounds : low + w ≤ size ∧ high + w ≤ size ∧ dst + w * 2 ≤ 4096) :
    ∃ after, decodeRow buffer w low high dst idwt = .ok after ∧
      (∀ i < w * 2, after.cell (dst + i) = toInt16 (x i)) ∧
      ∀ i, i < dst ∨ dst + w * 2 ≤ i → after.cell i = idwt.cell i := by
  obtain ⟨middle, evens, stored, others⟩ := @foldlM_store _ RfxError _
    (fun idwt n => evenInRow buffer low high dst n idwt) w idwt (fun n => dst + n * 2)
    (fun n => toInt16 (x (n * 2))) (by
      intro n inside state _
      have before : (if n = 0 then high else high + (n - 1)) = high + (n - 1) := by
        split <;> omega
      rw [evenInRow, Buffer.load_of_lt _ (by omega), ok_bind, before, Buffer.load_of_lt _ (by omega),
        ok_bind, Buffer.load_of_lt _ (by omega), ok_bind, lows n inside, highs n inside,
        highs (n - 1) (by omega), even_value, Buffer.store_of_lt _ (by omega)])
    (by intro m n; omega)
  obtain ⟨after, odds, stored', others'⟩ := @foldlM_store _ RfxError _
    (fun idwt n => oddInRow buffer w high dst n idwt) w middle (fun n => dst + (n * 2 + 1))
    (fun n => toInt16 (x (n * 2 + 1))) (by
      intro n inside state kept
      have even : ∀ m < w, (state.cell (dst + m * 2)).toInt = x (m * 2) := by
        intro m within
        rw [kept _ (by intro k; omega), stored m within, toInt_toInt16 (fits _ (by omega))]
      have value := odd_value lossless inside
      rw [oddInRow, Buffer.load_of_lt _ (by omega), ok_bind, Buffer.load_of_lt _ (by omega), ok_bind,
        highs n inside, even n inside]
      by_cases more : n + 1 < w
      · have next := even (n + 1) more
        rw [Nat.succ_mul] at next
        rw [if_pos more] at value ⊢
        rw [Buffer.load_of_lt _ (by omega), ok_bind, next, value, Buffer.store_of_lt _ (by omega)]
      · have mean : (x (n * 2) + x (n * 2)) / 2 = x (n * 2) := by omega
        rw [if_neg more, shiftRight_one, mean] at value
        rw [if_neg more, value, Buffer.store_of_lt _ (by omega)])
    (by intro m n; omega)
  refine ⟨after, ?_, fun i inside => ?_, fun i outside => ?_⟩
  · rw [decodeRow, evens]
    exact odds
  · rcases Nat.even_or_odd' i with ⟨n, rfl | rfl⟩
    · rw [others' _ (by intro m; omega), Nat.mul_comm 2 n, stored n (by omega)]
    · rw [Nat.mul_comm 2 n, stored' n (by omega)]
  · rw [others' i (by intro m; omega), others i (by intro m; omega)]

end Line

section Block

/-- The values of an image, by their line and their column. -/
abbrev Image := Nat → Nat → Int

/-- The lines of the transform in vertical direction: those of the lower part come first. -/
def vertical (w : Nat) (image : Image) : Image := fun y x =>
  if y < w then lowPass w (image · x) y else highPass w (image · x) (y - w)

/-- The sub-band that is transformed by the next level. -/
def lowLow (w : Nat) (image : Image) : Image := fun y => lowPass w (vertical w image y)

/-- The sub-bands of a level, in the order HL, LH, HH. -/
structure Stores {size : Nat} (buffer : Buffer (BitVec 16) size) (start w : Nat) (image : Image) :
    Prop where
  hl : ∀ y < w, ∀ n < w,
    buffer.cell (start + y * w + n) = toInt16 (highPass w (vertical w image y) n)
  lh : ∀ y < w, ∀ n < w,
    buffer.cell (start + w * w + y * w + n) = toInt16 (lowPass w (vertical w image (y + w)) n)
  hh : ∀ y < w, ∀ n < w,
    buffer.cell (start + w * w * 2 + y * w + n) = toInt16 (highPass w (vertical w image (y + w)) n)

/-- The values of each step of a level are in the range of 16 bits. -/
structure Fits (w : Nat) (image : Image) : Prop where
  values : ∀ y < w * 2, ∀ x < w * 2, Fits16 (image y x)
  lines : ∀ y < w * 2, ∀ x < w * 2, Fits16 (vertical w image y x)
  lows : ∀ y < w * 2, ∀ n < w, Fits16 (lowPass w (vertical w image y) n)
  highs : ∀ y < w * 2, ∀ n < w, Fits16 (highPass w (vertical w image y) n)

/-- All of the differences of a level are even. -/
structure LosslessLevel (w : Nat) (image : Image) : Prop where
  columns : ∀ x < w * 2, Lossless w (image · x)
  lines : ∀ y < w * 2, Lossless w (vertical w image y)

variable {size : Nat} {buffer : Buffer (BitVec 16) size} {idwt : DwtBuffer} {start w : Nat}
  {image : Image}

section Columns

variable (fits : Fits w image) (lossless : LosslessLevel w image)
  (lines : ∀ y < w * 2, ∀ i < w * 2, idwt.cell (y * (w * 2) + i) = toInt16 (vertical w image y i))
  (bounds : start + w * w * 4 ≤ size ∧ w * w * 4 ≤ 4096)

theorem inBlock {y x : Nat} (inside : y < w * 2) (within : x < w * 2) :
    y * (w * 2) + x < w * w * 4 := by
  have := Nat.mul_le_mul_right (w * 2) inside
  rw [Nat.succ_mul, Nat.mul_mul_mul_comm] at this
  omega

include fits lossless lines bounds

/-- The even lines of a column, and then the odd ones. -/
theorem decodeColumn_ok {x : Nat} (within : x < w * 2) (state : Buffer (BitVec 16) size) :
    ∃ last, (do
        let buffer ←
          (List.range w).foldlM (fun buffer n => evenInColumn idwt start w x n buffer) state
        (List.range w).foldlM (fun buffer n => oddInColumn idwt start w x n buffer) buffer) =
          .ok last ∧
      (∀ y < w * 2, last.cell (start + (y * (w * 2) + x)) = toInt16 (image y x)) ∧
      ∀ i, (∀ y < w * 2, i ≠ start + (y * (w * 2) + x)) → last.cell i = state.cell i := by
  have place : ∀ y < w * 2, y * (w * 2) + x < w * w * 4 := fun y inside => inBlock inside within
  have value : ∀ y < w * 2, (idwt.cell (y * (w * 2) + x)).toInt = vertical w image y x := by
    intro y inside
    rw [lines y inside x within, toInt_toInt16 (fits.lines y inside x within)]
  have lowValue : ∀ n < w, (idwt.cell (n * (w * 2) + x)).toInt = lowPass w (image · x) n := by
    intro n inside
    rw [value n (by omega), vertical, if_pos inside]
  have highValue : ∀ n < w,
      (idwt.cell ((n + w) * (w * 2) + x)).toInt = highPass w (image · x) n := by
    intro n inside
    rw [value (n + w) (by omega), vertical, if_neg (by omega), Nat.add_sub_cancel]
  have apart : ∀ y z, y ≠ z → start + (y * (w * 2) + x) ≠ start + (z * (w * 2) + x) :=
    fun y z different same =>
      different ((rowMajor_eq_iff within within).mp (Nat.add_left_cancel same)).2
  obtain ⟨middle, evens, stored, others⟩ := @foldlM_store _ RfxError _
    (fun buffer n => evenInColumn idwt start w x n buffer) w state
    (fun n => start + (n * 2 * (w * 2) + x)) (fun n => toInt16 (image (n * 2) x)) (by
      intro n inside state' _
      have before : (if n = 0 then w else n - 1 + w) = n - 1 + w := by split <;> omega
      have here := place n (by omega)
      have above := place (n - 1 + w) (by omega)
      have below := place (n + w) (by omega)
      have target := place (n * 2) (by omega)
      rw [evenInColumn, Buffer.load_of_lt _ (by omega), ok_bind, before,
        Buffer.load_of_lt _ (by omega), ok_bind, Buffer.load_of_lt _ (by omega), ok_bind,
        lowValue n inside, highValue (n - 1) (by omega), highValue n inside, even_value,
        Buffer.store_of_lt _ (by omega)])
    (fun m n before => apart _ _ (by omega))
  obtain ⟨last, odds, stored', others'⟩ := @foldlM_store _ RfxError _
    (fun buffer n => oddInColumn idwt start w x n buffer) w middle
    (fun n => start + ((n * 2 + 1) * (w * 2) + x)) (fun n => toInt16 (image (n * 2 + 1) x)) (by
      intro n inside state' same
      have even : ∀ m < w,
          (state'.cell (start + (m * 2 * (w * 2) + x))).toInt = image (m * 2) x := by
        intro m among
        rw [same _ fun k _ => apart _ _ (by omega), stored m among,
          toInt_toInt16 (fits.values _ (by omega) x within)]
      have below := place (n + w) (by omega)
      have here := place (n * 2) (by omega)
      have behind := place (if n + 1 < w then n * 2 + 2 else n * 2) (by split <;> omega)
      have target := place (n * 2 + 1) (by omega)
      have next : (state'.cell (start + ((if n + 1 < w then n * 2 + 2 else n * 2) * (w * 2) +
          x))).toInt = image (if n + 1 < w then n * 2 + 2 else n * 2) x := by
        split
        · rename_i more
          have later := even (n + 1) more
          rwa [Nat.succ_mul] at later
        · exact even n inside
      rw [oddInColumn, Buffer.load_of_lt _ (by omega), ok_bind, Buffer.load_of_lt _ (by omega),
        ok_bind, Buffer.load_of_lt _ (by omega), ok_bind, highValue n inside, even n inside, next,
        odd_value (lossless.columns x within) inside, Buffer.store_of_lt _ (by omega)])
    (fun m n before => apart _ _ (by omega))
  refine ⟨last, by rw [evens]; exact odds, fun y inside => ?_, fun i far => ?_⟩
  · rcases Nat.even_or_odd' y with ⟨n, rfl | rfl⟩
    · rw [others' _ fun m _ => apart _ _ (by omega), Nat.mul_comm 2 n, stored n (by omega)]
    · rw [Nat.mul_comm 2 n, stored' n (by omega)]
  · rw [others' i fun m among => far _ (by omega), others i fun m among => far _ (by omega)]

/-- The transform in vertical direction gives the image, into its block. -/
theorem decodeColumns_ok : ∃ after, decodeColumns idwt start w buffer = .ok after ∧
    (∀ y < w * 2, ∀ x < w * 2, after.cell (start + (y * (w * 2) + x)) = toInt16 (image y x)) ∧
    ∀ i, i < start ∨ start + w * w * 4 ≤ i → after.cell i = buffer.cell i := by
  obtain ⟨after, done, all, outside⟩ := @foldlM_range_ok RfxError (Buffer (BitVec 16) size)
    (fun buffer x => do
      let buffer ← (List.range w).foldlM (fun buffer n => evenInColumn idwt start w x n buffer) buffer
      (List.range w).foldlM (fun buffer n => oddInColumn idwt start w x n buffer) buffer)
    (fun x state => (∀ y < w * 2, ∀ z < x, state.cell (start + (y * (w * 2) + z)) =
        toInt16 (image y z)) ∧
      ∀ i, i < start ∨ start + w * w * 4 ≤ i → state.cell i = buffer.cell i) (w * 2) buffer
    ⟨by omega, fun _ _ => rfl⟩ (by
    rintro x within state ⟨kept, frame⟩
    obtain ⟨last, ran, column, others⟩ := decodeColumn_ok fits lossless lines bounds within state
    refine ⟨last, ran, fun y inside z among => ?_, fun i out => ?_⟩
    · by_cases here : z = x
      · subst here
        exact column y inside
      · rw [others _ fun v _ same =>
          here ((rowMajor_eq_iff (by omega) within).mp (Nat.add_left_cancel same)).1]
        exact kept y inside z (by omega)
    · rw [others i fun v inside => by have := inBlock inside within; omega]
      exact frame i out)
  exact ⟨after, done, fun y inside x within => all y inside x within, outside⟩

end Columns

variable (stores : Stores buffer start w image) (fits : Fits w image)
  (lossless : LosslessLevel w image)
  (ll : ∀ y < w, ∀ n < w, buffer.cell (start + w * w * 3 + y * w + n) =
    toInt16 (lowLow w image y n))
  (bounds : start + w * w * 4 ≤ size ∧ w * w * 4 ≤ 4096)

include stores fits lossless ll bounds

/-- The transform in horizontal direction gives the lines of that in vertical direction. -/
theorem decodeRows_ok :
    ∃ after, decodeRows buffer start w idwt = .ok after ∧
      ∀ y < w * 2, ∀ i < w * 2, after.cell (y * (w * 2) + i) = toInt16 (vertical w image y i) := by
  have whole : w * (w * 2) = w * w * 2 := by rw [Nat.mul_assoc]
  have row : ∀ y < w, y * w + w ≤ w * w ∧ y * (w * 2) + w * 2 ≤ w * w * 2 := by
    intro y inside
    have first := Nat.mul_le_mul_right w inside
    have second := Nat.mul_le_mul_right (w * 2) inside
    rw [Nat.succ_mul] at first second
    omega
  have apart : ∀ r y i, r ≠ y → i < w * 2 →
      r * (w * 2) + i < y * (w * 2) ∨ y * (w * 2) + w * 2 ≤ r * (w * 2) + i := by
    intro r y i different inside
    rcases Nat.lt_or_gt_of_ne different with less | more
    · have := Nat.mul_le_mul_right (w * 2) less
      rw [Nat.succ_mul] at this
      omega
    · have := Nat.mul_le_mul_right (w * 2) more
      rw [Nat.succ_mul] at this
      omega
  obtain ⟨after, done, all⟩ := @foldlM_range_ok RfxError DwtBuffer (fun idwt y => do
      let idwt ← decodeRow buffer w (start + w * w * 3 + y * w) (start + y * w) (y * (w * 2)) idwt
      decodeRow buffer w (start + w * w + y * w) (start + w * w * 2 + y * w)
        (w * w * 2 + y * (w * 2)) idwt)
    (fun y idwt => ∀ r, r < y ∨ w ≤ r ∧ r < y + w → ∀ i < w * 2,
      idwt.cell (r * (w * 2) + i) = toInt16 (vertical w image r i)) w idwt (by omega) (by
    intro y inside state kept
    have bound := row y inside
    have down : w * w * 2 + y * (w * 2) = (y + w) * (w * 2) := by rw [Nat.add_mul, whole]; omega
    obtain ⟨upper, first, same, others⟩ := @decodeRow_ok _ buffer state w
      (start + w * w * 3 + y * w) (start + y * w) (y * (w * 2)) (vertical w image y)
      (lossless.lines y (by omega)) (fits.lines y (by omega))
      (fun n within => by rw [ll y inside n within]; exact toInt_toInt16 (fits.lows y (by omega) n within))
      (fun n within => by rw [stores.hl y inside n within, toInt_toInt16 (fits.highs y (by omega) n within)])
      (by omega)
    obtain ⟨lower, second, same', others'⟩ := @decodeRow_ok _ buffer upper w
      (start + w * w + y * w) (start + w * w * 2 + y * w) (w * w * 2 + y * (w * 2))
      (vertical w image (y + w)) (lossless.lines (y + w) (by omega)) (fits.lines (y + w) (by omega))
      (fun n within => by
        rw [stores.lh y inside n within, toInt_toInt16 (fits.lows (y + w) (by omega) n within)])
      (fun n within => by
        rw [stores.hh y inside n within, toInt_toInt16 (fits.highs (y + w) (by omega) n within)])
      (by omega)
    rw [down] at same' others' second
    refine ⟨lower, by rw [first, ok_bind, down]; exact second, fun r among i within => ?_⟩
    by_cases last : r = y + w
    · subst last
      exact same' i within
    · rw [others' _ (apart r (y + w) i last within)]
      by_cases here : r = y
      · subst here
        exact same i within
      · rw [others _ (apart r y i here within)]
        exact kept r (by omega) i within)
  exact ⟨after, done, fun y inside => all y (by omega)⟩

theorem rfxDwt2dDecodeBlock_ok :
    ∃ after idwt', rfxDwt2dDecodeBlock start w (buffer, idwt) = .ok (after, idwt') ∧
      (∀ y < w * 2, ∀ x < w * 2, after.cell (start + (y * (w * 2) + x)) = toInt16 (image y x)) ∧
      ∀ i, i < start ∨ start + w * w * 4 ≤ i → after.cell i = buffer.cell i := by
  obtain ⟨idwt', rows, lines⟩ := @decodeRows_ok _ _ idwt _ _ _ stores fits lossless ll bounds
  obtain ⟨after, columns, all, others⟩ :=
    @decodeColumns_ok _ buffer _ start _ _ fits lossless lines bounds
  refine ⟨after, idwt', ?_, all, others⟩
  rw [rfxDwt2dDecodeBlock, rows, ok_bind, columns]
  rfl

end Block

section Tile

variable {size : Nat} {buffer : Buffer (BitVec 16) size} {image : Image}

/-- The coefficients of the three levels of the forward transform. -/
structure Transformed (buffer : Buffer (BitVec 16) size) (image : Image) : Prop where
  first : Stores buffer 0 32 image
  second : Stores buffer 3072 16 (lowLow 32 image)
  third : Stores buffer 3840 8 (lowLow 16 (lowLow 32 image))
  last : ∀ y < 8, ∀ n < 8,
    buffer.cell (4032 + y * 8 + n) = toInt16 (lowLow 8 (lowLow 16 (lowLow 32 image)) y n)

/-- What holds of each level of an image. -/
structure EachLevel (holds : Nat → Image → Prop) (image : Image) : Prop where
  first : holds 32 image
  second : holds 16 (lowLow 32 image)
  third : holds 8 (lowLow 16 (lowLow 32 image))

theorem Stores.congr {after : Buffer (BitVec 16) size} {start w : Nat}
    (stores : Stores buffer start w image)
    (same : ∀ i < start + w * w * 3, after.cell i = buffer.cell i) :
    Stores after start w image := by
  have row : ∀ y < w, y * w + w ≤ w * w := by
    intro y inside
    have := Nat.mul_le_mul_right w inside
    rwa [Nat.succ_mul] at this
  refine ⟨fun y inside n within => ?_, fun y inside n within => ?_, fun y inside n within => ?_⟩
  all_goals
    have := row y inside
    rw [same _ (by omega)]
  · exact stores.hl y inside n within
  · exact stores.lh y inside n within
  · exact stores.hh y inside n within

theorem decode2d_ok (enough : 4096 ≤ size) (transformed : Transformed buffer image)
    (fits : EachLevel Fits image) (lossless : EachLevel LosslessLevel image)
    (dwtBuffer : DwtBuffer) :
    ∃ after, decode2d buffer dwtBuffer = .ok after ∧
      ∀ y < 64, ∀ x < 64, (after.cell (y * 64 + x)).toInt = image y x := by
  obtain ⟨after, idwt, done, all, others⟩ := @rfxDwt2dDecodeBlock_ok _ _ dwtBuffer _ _ _
    transformed.third fits.third lossless.third transformed.last (by omega)
  obtain ⟨after', idwt', done', all', others'⟩ := @rfxDwt2dDecodeBlock_ok _ after idwt _ _ _
    (transformed.second.congr fun i before => others i (by omega)) fits.second lossless.second
    (fun y inside n within => by rw [Nat.add_assoc]; exact all y inside n within) (by omega)
  obtain ⟨after'', idwt'', done'', all'', -⟩ := @rfxDwt2dDecodeBlock_ok _ after' idwt' _ _ _
    (transformed.first.congr fun i before => by
      rw [others' i (by omega), others i (by omega)]) fits.first lossless.first
    (fun y inside n within => by
      rw [Nat.add_assoc]
      exact all' y inside n within) (by omega)
  refine ⟨after'', ?_, fun y inside x within => ?_⟩
  · rw [decode2d, done, ok_bind, done', ok_bind, done'']
    rfl
  · have value := all'' y inside x within
    rw [Nat.zero_add] at value
    rw [value, toInt_toInt16 (fits.first.values y inside x within)]

/-- Images whose differences are even, in every pass, are restored; and every input is decoded
inside of two buffers of 4096 coefficients. -/
theorem decode2d_inverts :
    (∀ (image : Image) (buffer : Buffer (BitVec 16) 4096) (dwtBuffer : DwtBuffer),
      EachLevel Fits image → EachLevel LosslessLevel image → Transformed buffer image →
      ∃ after, decode2d buffer dwtBuffer = .ok after ∧
        ∀ y < 64, ∀ x < 64, (after.cell (y * 64 + x)).toInt = image y x) ∧
    ∀ (buffer : Buffer (BitVec 16) 4096) (dwtBuffer : DwtBuffer),
      decode2d buffer dwtBuffer ≠ .error .outOfBounds :=
  ⟨fun _ _ dwtBuffer fits lossless transformed =>
      decode2d_ok le_rfl transformed fits lossless dwtBuffer,
    fun buffer dwtBuffer => (decode2d_sound le_rfl buffer dwtBuffer).no_fault⟩

/-- A line with two values, and zeros behind them. -/
def pair (p q : Int) (n : Nat) : Int := if n = 0 then p else if n = 1 then q else 0

/-- Four values in a corner; all that the transform makes of them stays in the corners of the
sub-bands. -/
structure Spot where
  a : Int
  b : Int
  c : Int
  d : Int

namespace Spot

def value (spot : Spot) : Image := fun y x => pair (pair spot.a spot.b x) (pair spot.c spot.d x) y

def high (p q : Int) : Int := (q - p / 2) / 2

def low (p q : Int) : Int := p + high p q

def next (p q : Int) : Int := (high p q + 1) / 2

/-- The lines of the transform in vertical direction: two of the lower part, one of the upper. -/
def upper (spot : Spot) : Spot :=
  ⟨low spot.a spot.c, low spot.b spot.d, next spot.a spot.c, next spot.b spot.d⟩

def lower (spot : Spot) : Spot := ⟨high spot.a spot.c, high spot.b spot.d, 0, 0⟩

def lowLow (spot : Spot) : Spot :=
  ⟨low spot.upper.a spot.upper.b, next spot.upper.a spot.upper.b, low spot.upper.c spot.upper.d,
    next spot.upper.c spot.upper.d⟩

/-- No bit is lost of the four values. -/
def Even (spot : Spot) : Prop :=
  (2 ∣ spot.c - spot.a / 2 ∧ 2 ∣ spot.d - spot.b / 2) ∧
    (2 ∣ spot.upper.b - spot.upper.a / 2 ∧ 2 ∣ spot.upper.d - spot.upper.c / 2) ∧
    2 ∣ spot.lower.b - spot.lower.a / 2

instance (spot : Spot) : Decidable spot.Even := inferInstanceAs (Decidable (_ ∧ _ ∧ _))

def Within (bound : Int) (value : Int) : Prop := -bound ≤ value ∧ value ≤ bound

def Small (spot : Spot) : Prop :=
  Within 4096 spot.a ∧ Within 4096 spot.b ∧ Within 4096 spot.c ∧ Within 4096 spot.d

instance (spot : Spot) : Decidable spot.Small :=
  inferInstanceAs (Decidable ((_ ∧ _) ∧ (_ ∧ _) ∧ (_ ∧ _) ∧ _ ∧ _))

end Spot

open Spot

def Starts (w : Nat) (line : Nat → Int) (p q : Int) : Prop := ∀ i < w * 2, line i = pair p q i

section Starts

variable {w n : Nat} {line : Nat → Int} {p q : Int}

theorem Starts.difference (starts : Starts w line p q) (wide : 2 ≤ w) (inside : n < w) :
    difference w line n = pair (q - p / 2) 0 n := by
  have next : line (if n + 1 < w then n * 2 + 2 else n * 2) = 0 := by
    rw [starts _ (by split <;> omega), pair, if_neg (by split <;> omega), if_neg (by split <;> omega)]
  rw [Rfx.difference, next, starts _ (by omega), starts _ (by omega), shiftRight_one, Int.add_zero]
  cases n with
  | zero => rfl
  | succ n => simp [pair, show ¬(n + 1) * 2 = 1 by omega]

theorem Starts.highPass (starts : Starts w line p q) (wide : 2 ≤ w) (inside : n < w) :
    highPass w line n = pair (high p q) 0 n := by
  rw [Rfx.highPass, starts.difference wide inside, shiftRight_one]
  simp only [pair, high]
  split_ifs <;> rfl

theorem Starts.lowPass (starts : Starts w line p q) (wide : 2 ≤ w) (inside : n < w) :
    lowPass w line n = pair (low p q) (next p q) n := by
  rw [Rfx.lowPass, starts.highPass wide inside, starts.highPass wide (by omega),
    starts _ (by omega), shiftRight_one]
  simp only [pair, low, next]
  split_ifs <;> omega

theorem Starts.lossless (starts : Starts w line p q) (wide : 2 ≤ w) (even : 2 ∣ q - p / 2) :
    Lossless w line := by
  intro n inside
  rw [starts.difference wide inside, pair]
  split_ifs
  exacts [even, Int.dvd_zero 2, Int.dvd_zero 2]

end Starts

def Corner (w : Nat) (image : Image) (spot : Spot) : Prop :=
  ∀ y < w * 2, ∀ x < w * 2, image y x = spot.value y x

section Corner

variable {w : Nat} {image : Image} {spot : Spot}

theorem Corner.column (corner : Corner w image spot) {x : Nat} (inside : x < w * 2) :
    Starts w (image · x) (pair spot.a spot.b x) (pair spot.c spot.d x) :=
  fun y within => corner y within x inside

/-- A line of the lower part. -/
theorem Corner.upper (corner : Corner w image spot) (wide : 2 ≤ w) {y : Nat} (inside : y < w) :
    Starts w (vertical w image y) (pair spot.upper.a spot.upper.c y)
      (pair spot.upper.b spot.upper.d y) := by
  intro x within
  rw [vertical, if_pos inside, (corner.column within).lowPass wide inside]
  simp only [pair, Spot.upper]
  split_ifs <;> rfl

theorem Corner.lower (corner : Corner w image spot) (wide : 2 ≤ w) {y : Nat} (inside : y < w) :
    Starts w (vertical w image (y + w)) (pair spot.lower.a 0 y) (pair spot.lower.b 0 y) := by
  intro x within
  rw [vertical, if_neg (by omega), Nat.add_sub_cancel, (corner.column within).highPass wide inside]
  simp only [pair, Spot.lower]
  split_ifs <;> rfl

theorem Corner.lowLow_eq (corner : Corner w image spot) (wide : 2 ≤ w) :
    ∀ y < w, ∀ n < w, lowLow w image y n = spot.lowLow.value y n := by
  intro y inside n within
  rw [lowLow.eq_def, (corner.upper wide inside).lowPass wide within]
  simp only [pair, value, Spot.lowLow]
  split_ifs <;> rfl

theorem Corner.losslessLevel (corner : Corner w image spot) (wide : 2 ≤ w) (even : spot.Even) :
    LosslessLevel w image where
  columns x inside := by
    refine (corner.column inside).lossless wide ?_
    simp only [pair]
    split_ifs
    exacts [even.1.1, even.1.2, Int.dvd_zero 2]
  lines y inside := by
    by_cases first : y < w
    · refine (corner.upper wide first).lossless wide ?_
      simp only [pair]
      split_ifs
      exacts [even.2.1.1, even.2.1.2, Int.dvd_zero 2]
    · obtain ⟨z, rfl⟩ := Nat.exists_eq_add_of_le' (Nat.le_of_not_lt first)
      refine (corner.lower wide (by omega)).lossless wide ?_
      simp only [pair]
      split_ifs
      exacts [even.2.2, Int.dvd_zero 2, Int.dvd_zero 2]

theorem Corner.fits (corner : Corner w image spot) (wide : 2 ≤ w) (small : spot.Small) :
    Fits w image := by
  have inPair : ∀ {p q n}, Within 16384 p → Within 16384 q → Fits16 (pair p q n) := by
    intro p q n first second
    rw [Within] at first second
    rw [Fits16, pair]
    split_ifs <;> omega
  simp only [Spot.Small, Within] at small
  have line : ∀ y < w * 2, ∃ p q, Starts w (vertical w image y) p q ∧ Within 8192 p ∧
      Within 8192 q := by
    intro y inside
    by_cases first : y < w
    · refine ⟨_, _, corner.upper wide first, ?_⟩
      simp only [Within, pair, Spot.upper, low, next, high]
      split_ifs <;> omega
    · obtain ⟨z, rfl⟩ := Nat.exists_eq_add_of_le' (Nat.le_of_not_lt first)
      refine ⟨_, _, corner.lower wide (by omega), ?_⟩
      simp only [Within, pair, Spot.lower, high]
      split_ifs <;> omega
  refine ⟨fun y inside x within => ?_, fun y inside x within => ?_, fun y inside n within => ?_,
    fun y inside n within => ?_⟩
  · rw [corner y inside x within]
    simp only [Fits16, value, pair]
    split_ifs <;> omega
  all_goals
    obtain ⟨p, q, starts, first, second⟩ := line y inside
    rw [Within] at first second
  · rw [starts x within]
    apply inPair <;> rw [Within] <;> omega
  · rw [starts.lowPass wide within]
    apply inPair <;> simp only [Within, low, next, high] <;> omega
  · rw [starts.highPass wide within]
    apply inPair <;> simp only [Within, high] <;> omega

end Corner

/-- The sub-bands of a level, from its four values. -/
def Spot.Stored {size : Nat} (spot : Spot) (buffer : Buffer (BitVec 16) size) (start w : Nat) :
    Prop :=
  ∀ y < w, ∀ n < w,
    buffer.cell (start + y * w + n) =
      toInt16 (pair (high (pair spot.upper.a spot.upper.c y) (pair spot.upper.b spot.upper.d y)) 0 n) ∧
    buffer.cell (start + w * w + y * w + n) =
      toInt16 (pair (low (pair spot.lower.a 0 y) (pair spot.lower.b 0 y))
        (next (pair spot.lower.a 0 y) (pair spot.lower.b 0 y)) n) ∧
    buffer.cell (start + w * w * 2 + y * w + n) =
      toInt16 (pair (high (pair spot.lower.a 0 y) (pair spot.lower.b 0 y)) 0 n)

instance {size : Nat} (spot : Spot) (buffer : Buffer (BitVec 16) size) (start w : Nat) :
    Decidable (spot.Stored buffer start w) :=
  inferInstanceAs (Decidable (∀ y < w, ∀ n < w, _ ∧ _ ∧ _))

theorem Corner.stores {size start w : Nat} {buffer : Buffer (BitVec 16) size} {image : Image}
    {spot : Spot} (corner : Corner w image spot) (wide : 2 ≤ w)
    (stored : spot.Stored buffer start w) : Stores buffer start w image where
  hl y inside n within := by
    rw [(corner.upper wide inside).highPass wide within]
    exact (stored y inside n within).1
  lh y inside n within := by
    rw [(corner.lower wide inside).lowPass wide within]
    exact (stored y inside n within).2.1
  hh y inside n within := by
    rw [(corner.lower wide inside).highPass wide within]
    exact (stored y inside n within).2.2

theorem corner_first (spot : Spot) : Corner 32 spot.value spot := fun _ _ _ _ => rfl

theorem corner_second (spot : Spot) : Corner 16 (lowLow 32 spot.value) spot.lowLow :=
  (corner_first spot).lowLow_eq (by decide)

theorem corner_third (spot : Spot) :
    Corner 8 (lowLow 16 (lowLow 32 spot.value)) spot.lowLow.lowLow :=
  (corner_second spot).lowLow_eq (by decide)

theorem eachLevel_fits {spot : Spot}
    (small : spot.Small ∧ spot.lowLow.Small ∧ spot.lowLow.lowLow.Small) :
    EachLevel Fits spot.value :=
  ⟨(corner_first spot).fits (by decide) small.1, (corner_second spot).fits (by decide) small.2.1,
    (corner_third spot).fits (by decide) small.2.2⟩

theorem eachLevel_lossless {spot : Spot}
    (even : spot.Even ∧ spot.lowLow.Even ∧ spot.lowLow.lowLow.Even) :
    EachLevel LosslessLevel spot.value :=
  ⟨(corner_first spot).losslessLevel (by decide) even.1,
    (corner_second spot).losslessLevel (by decide) even.2.1,
    (corner_third spot).losslessLevel (by decide) even.2.2⟩

/-- The coefficients of the three levels, from the four values of each. -/
def Spot.Transform (spot : Spot) (buffer : Buffer (BitVec 16) 4096) : Prop :=
  (spot.Stored buffer 0 32 ∧ spot.lowLow.Stored buffer 3072 16) ∧
    spot.lowLow.lowLow.Stored buffer 3840 8 ∧
    ∀ y < 8, ∀ n < 8, buffer.cell (4032 + y * 8 + n) =
      toInt16 (spot.lowLow.lowLow.lowLow.value y n)

instance (spot : Spot) (buffer : Buffer (BitVec 16) 4096) : Decidable (spot.Transform buffer) :=
  inferInstanceAs (Decidable ((_ ∧ _) ∧ _ ∧ _))

theorem transformed_spot {spot : Spot} {buffer : Buffer (BitVec 16) 4096}
    (transform : spot.Transform buffer) : Transformed buffer spot.value where
  first := (corner_first spot).stores (by decide) transform.1.1
  second := (corner_second spot).stores (by decide) transform.1.2
  third := (corner_third spot).stores (by decide) transform.2.1
  last y inside n within := by
    rw [(corner_third spot).lowLow_eq (by decide) y inside n within]
    exact transform.2.2 y inside n within

def spot : Spot := ⟨25, 6, 16, 25⟩

/-- Of each level two coefficients in HL, two in LH and one in HH; and four that are left. -/
def spotCoefficients : Buffer (BitVec 16) 4096 :=
  ⟨fun i => if 2 ≤ i % 8 then 0 else BitVec.ofInt 16 (([(0, 2), (32, 3), (1024, 7), (1025, 3),
    (2048, 5), (3072, -5), (3088, 1), (3328, -3), (3329, 1), (3584, 2), (3840, -4), (3848, 1),
    (3904, -3), (3905, 1), (3968, 2), (4032, 10), (4033, -2), (4040, -1), (4041, 1)].lookup i).getD
    (0 : Int))⟩

theorem decode2d_inverts_spot :
    ∃ after, decode2d spotCoefficients (.filled 7) = .ok after ∧
      ∀ y < 64, ∀ x < 64, (after.cell (y * 64 + x)).toInt = spot.value y x :=
  decode2d_inverts.1 spot.value spotCoefficients (.filled 7) (eachLevel_fits (by decide))
    (eachLevel_lossless (by decide)) (transformed_spot (by decide +kernel))

/-- A one in an odd column of an odd line: half of it is lost, so its coefficients are those of a
blank image. -/
theorem not_decode2d_inverts :
    ¬∀ (image : Image) (buffer : Buffer (BitVec 16) 4096) (dwtBuffer : DwtBuffer),
      EachLevel Fits image → Transformed buffer image →
      ∃ after, decode2d buffer dwtBuffer = .ok after ∧
        ∀ y < 64, ∀ x < 64, (after.cell (y * 64 + x)).toInt = image y x := by
  intro all
  obtain ⟨after, done, same⟩ := all (Spot.value ⟨0, 0, 0, 1⟩) (.filled 0) (.filled 0)
    (eachLevel_fits (by decide)) (transformed_spot (by decide +kernel))
  obtain ⟨after', done', same'⟩ := @decode2d_ok _ (.filled 0) (Spot.value ⟨0, 0, 0, 0⟩) le_rfl
    (transformed_spot (by decide +kernel)) (eachLevel_fits (by decide))
    (eachLevel_lossless (by decide)) (.filled 0)
  cases done.symm.trans done'
  exact absurd ((same 1 (by decide) 1 (by decide)).symm.trans (same' 1 (by decide) 1 (by decide)))
    (by decide)

end Tile

end Redemption.Rfx
