import Redemption.Capture.ImageChunk
import Redemption.Foundation.Region

/-! The bytes of pixels, swapped by both sides: by the reader in groups of four pixels only. -/
namespace Redemption.Capture

open Redemption.Foundation

/-- Pixels whose first and last bytes are swapped. -/
def rgb : List Byte → List Byte
  | s0 :: s1 :: s2 :: s => s2 :: s1 :: s0 :: rgb s
  | s => s

theorem length_rgb (row : List Byte) : (rgb row).length = row.length := by
  fun_induction rgb row with
  | case1 s0 s1 s2 s ih => simp only [List.length_cons, ih]
  | case2 s => rfl

theorem rgb_rgb (row : List Byte) : rgb (rgb row) = row := by
  fun_induction rgb row with
  | case1 s0 s1 s2 s ih => rw [rgb, ih]
  | case2 s less =>
    rw [rgb]
    exact less

theorem rgb_append {count : Nat} {front : List Byte} (length : front.length = 3 * count)
    (back : List Byte) : rgb (front ++ back) = rgb front ++ rgb back := by
  induction count generalizing front with
  | zero =>
    obtain rfl := List.length_eq_zero_iff.mp length
    rfl
  | succ count ih =>
    match front, length with
    | s0 :: s1 :: s2 :: front, length =>
      have length' : front.length = 3 * count := by
        simp only [List.length_cons] at length
        omega
      simp only [List.cons_append, rgb, ih length']

theorem rgb_eq_iff {count : Nat} {row : List Byte} (length : row.length = 3 * count) :
    rgb row = row ↔ ∀ x < count, row[3 * x]? = row[3 * x + 2]? := by
  induction count generalizing row with
  | zero =>
    obtain rfl := List.length_eq_zero_iff.mp length
    exact ⟨fun _ x less => absurd less (Nat.not_lt_zero x), fun _ => rfl⟩
  | succ count ih =>
    match row, length with
    | s0 :: s1 :: s2 :: row, length =>
      have length' : row.length = 3 * count := by
        simp only [List.length_cons] at length
        omega
      have rest := ih length'
      simp only [rgb, List.cons.injEq, true_and, rest]
      constructor
      · rintro ⟨last, _, later⟩ x less
        cases x with
        | zero => simp [last]
        | succ x =>
          have same := later x (by omega)
          simpa [Nat.mul_succ] using same
      · intro all
        have first := all 0 (Nat.succ_pos _)
        simp only [Nat.mul_zero, Nat.zero_add, List.getElem?_cons_zero,
          List.getElem?_cons_succ, Option.some.injEq] at first
        refine ⟨first.symm, first, ?_⟩
        intro x less
        have same := all (x + 1) (by omega)
        simpa [Nat.mul_succ] using same

section Write

theorem bgrPixels_ok {count : Nat} {front : List Byte} (length : front.length = 3 * count)
    (s : List Byte) : bgrPixels count (front ++ s) = .ok (rgb front, s) := by
  induction count generalizing front with
  | zero =>
    obtain rfl := List.length_eq_zero_iff.mp length
    rfl
  | succ count ih =>
    match front, length with
    | s0 :: s1 :: s2 :: front, length =>
      have length' : front.length = 3 * count := by
        simp only [List.length_cons] at length
        omega
      simp only [List.cons_append, bgrPixels, ih length', ok_bind, pure_ok, rgb]

theorem bgrGroups_ok {count : Nat} {s : List Byte} (length : s.length = 12 * count) :
    bgrGroups count s = .ok (rgb s) := by
  induction count generalizing s with
  | zero =>
    obtain rfl := List.length_eq_zero_iff.mp length
    rfl
  | succ count ih =>
    match s, length with
    | s0 :: s1 :: s2 :: s3 :: s4 :: s5 :: s6 :: s7 :: s8 :: s9 :: s10 :: s11 :: s, length =>
      have length' : s.length = 12 * count := by
        simp only [List.length_cons] at length
        omega
      simp only [bgrGroups, ih length', ok_bind, pure_ok, rgb]

theorem bgrRow_ok {width : Nat} {row : List Byte} (length : row.length = 3 * width) :
    bgrRow width row = .ok (rgb row) := by
  have front : (row.take (3 * (width % 4))).length = 3 * (width % 4) :=
    List.length_take_of_le (by omega)
  have back : (row.drop (3 * (width % 4))).length = 12 * (width / 4) := by
    rw [List.length_drop]
    omega
  have pixels := bgrPixels_ok front (row.drop (3 * (width % 4)))
  have both := rgb_append front (row.drop (3 * (width % 4)))
  rw [List.take_append_drop] at pixels both
  rw [bgrRow, pixels, ok_bind]
  simp only [bgrGroups_ok back, ok_bind, pure_ok, both]

end Write

section Read

variable {tmp : Buffer Byte tmpSize}

theorem swapCells_ok {i j : Nat} (left : i < tmpSize) (right : j < tmpSize) :
    swapCells tmp i j = .ok ((tmp.set i (tmp.cell j)).set j (tmp.cell i)) := by
  rw [swapCells, Buffer.load_of_lt tmp left, ok_bind, Buffer.load_of_lt tmp right, ok_bind,
    Buffer.store_of_lt tmp left, ok_bind, Buffer.store_of_lt _ right]

theorem swapGroups_succ {count t : Nat} (room : t + 12 ≤ tmpSize) :
    ∃ tmp', swapGroups (count + 1) t tmp = swapGroups count (t + 12) tmp' ∧
      tmp'.slice t 12 = rgb (tmp.slice t 12) ∧ tmp.AgreesOutside tmp' t (t + 12) := by
  rw [swapGroups, swapCells_ok (by omega) (by omega), ok_bind,
    swapCells_ok (by omega) (by omega), ok_bind, swapCells_ok (by omega) (by omega), ok_bind,
    swapCells_ok (by omega) (by omega), ok_bind]
  refine ⟨_, rfl, ?_, ?_⟩
  · have range : List.range 12 = [0, 1, 2, 3, 4, 5, 6, 7, 8, 9, 10, 11] := rfl
    simp only [Buffer.slice, range, List.map_cons, List.map_nil, rgb]
    simp [Buffer.set]
  · intro index outside
    simp only [Buffer.set, Function.update_apply]
    repeat rw [if_neg (by omega)]

theorem swapGroups_ok {count t : Nat} (room : t + 12 * count ≤ tmpSize) :
    ∃ tmp', swapGroups count t tmp = .ok tmp' ∧
      tmp'.slice t (12 * count) = rgb (tmp.slice t (12 * count)) ∧
      tmp.AgreesOutside tmp' t (t + 12 * count) := by
  induction count generalizing t tmp with
  | zero => exact ⟨tmp, rfl, rfl, .refl tmp _ _⟩
  | succ count ih =>
    obtain ⟨next, turned, group, agrees⟩ := @swapGroups_succ tmp count t (by omega)
    obtain ⟨last, swapped, groups, agrees'⟩ := @ih next (t + 12) (by omega)
    have twelve : (tmp.slice t 12).length = 3 * 4 := Buffer.length_slice _ _ _
    have split : 12 * (count + 1) = 12 + 12 * count := by omega
    refine ⟨last, turned.trans swapped, ?_, ?_⟩
    · rw [split, Buffer.slice_append, Buffer.slice_append, rgb_append twelve, groups,
        agrees'.slice_before (Nat.le_refl _), group, agrees.slice_after (Nat.le_refl _)]
    · exact (agrees.widen (Nat.le_refl _) (by omega)).trans
        (agrees'.widen (by omega) (by omega))

/-- What the reader makes of the pixels of a row: those behind the groups of four stay. -/
def grouped (width : Nat) (row : List Byte) : List Byte :=
  rgb (row.take (12 * (width / 4))) ++ row.drop (12 * (width / 4))

/-- A row is read into `tmp`, its groups are swapped, and it is given away. -/
theorem tmp_ok {width : Nat} {row : List Byte} (length : row.length = 3 * width)
    (small : width ≤ 8192) :
    ∃ tmp' tmp'', tmp.storeBlock 0 row = (.ok tmp' : Checked Error _) ∧
      swapGroups (width / 4) 0 tmp' = .ok tmp'' ∧
      (tmp''.loadBlock 0 (3 * width) : Checked Error _) = .ok (grouped width row) := by
  have room : 0 + row.length ≤ tmpSize := by
    rw [tmpSize]
    omega
  have stored : tmp.storeBlock 0 row = (.ok (tmp.splice 0 row) : Checked Error _) :=
    Buffer.storeBlock_of_le tmp room
  have whole : (tmp.splice 0 row).slice 0 (3 * width) = row := by
    rw [← length, Buffer.slice_splice]
  generalize tmp.splice 0 row = tmp' at stored whole
  obtain ⟨tmp'', swapped, groups, agrees⟩ :=
    @swapGroups_ok tmp' (width / 4) 0 (by rw [tmpSize]; omega)
  refine ⟨tmp', tmp'', stored, swapped, ?_⟩
  have split : 3 * width = 12 * (width / 4) + (3 * width - 12 * (width / 4)) := by omega
  rw [split, Buffer.slice_append] at whole
  have first : tmp'.slice 0 (12 * (width / 4)) = row.take (12 * (width / 4)) := by
    rw [← whole, List.take_left' (Buffer.length_slice _ _ _)]
  have second : tmp'.slice (0 + 12 * (width / 4)) (3 * width - 12 * (width / 4)) =
      row.drop (12 * (width / 4)) := by
    rw [← whole, List.drop_left' (Buffer.length_slice _ _ _)]
  rw [Buffer.loadBlock_of_le _ (by rw [tmpSize]; omega), split, Buffer.slice_append, groups,
    agrees.slice_after (Nat.le_refl _), first, second, grouped]

/-- What has been swapped by the writer is a row again, if the pixels behind the groups of four
begin as they end. -/
theorem grouped_rgb_eq_iff {width : Nat} {row : List Byte} (length : row.length = 3 * width) :
    grouped width (rgb row) = row ↔
      ∀ x, 4 * (width / 4) ≤ x → x < width → row[3 * x]? = row[3 * x + 2]? := by
  have front : (row.take (12 * (width / 4))).length = 12 * (width / 4) :=
    List.length_take_of_le (by omega)
  have pixels : (row.take (12 * (width / 4))).length = 3 * (4 * (width / 4)) := by omega
  have back : (row.drop (12 * (width / 4))).length = 3 * (width % 4) := by
    rw [List.length_drop]
    omega
  have both := rgb_append pixels (row.drop (12 * (width / 4)))
  rw [List.take_append_drop] at both
  have front' : (rgb (row.take (12 * (width / 4)))).length = 12 * (width / 4) :=
    (length_rgb _).trans front
  have same : grouped width (rgb row) = row ↔
      rgb (row.drop (12 * (width / 4))) = row.drop (12 * (width / 4)) := by
    rw [grouped, both, List.take_left' front', List.drop_left' front', rgb_rgb]
    constructor
    · intro whole
      conv at whole => rhs; rw [← List.take_append_drop (12 * (width / 4)) row]
      exact List.append_cancel_left whole
    · intro rest
      rw [rest, List.take_append_drop]
  rw [same, rgb_eq_iff back]
  constructor
  · intro all x least less
    have place := all (x - 4 * (width / 4)) (by omega)
    rw [List.getElem?_drop, List.getElem?_drop] at place
    have first : 12 * (width / 4) + 3 * (x - 4 * (width / 4)) = 3 * x := by omega
    have last : 12 * (width / 4) + (3 * (x - 4 * (width / 4)) + 2) = 3 * x + 2 := by omega
    rw [first, last] at place
    exact place
  · intro all x less
    have place := all (4 * (width / 4) + x) (Nat.le_add_right _ _) (by omega)
    rw [List.getElem?_drop, List.getElem?_drop]
    have first : 12 * (width / 4) + 3 * x = 3 * (4 * (width / 4) + x) := by omega
    have last : 12 * (width / 4) + (3 * x + 2) = 3 * (4 * (width / 4) + x) + 2 := by omega
    rw [first, last]
    exact place

end Read

end Redemption.Capture
