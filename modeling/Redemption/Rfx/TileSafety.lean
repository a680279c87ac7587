import Redemption.Rfx.RlgrDecode
import Redemption.Rfx.TileDecode

/-! The components of a tile are decoded inside of their buffers, if no shift is too large. -/
namespace Redemption.Rfx

open Redemption.Foundation

section Dwt

variable {size : Nat} {buffer : Buffer (BitVec 16) size} {idwt : DwtBuffer} {low high dst n start subbandWidth : Nat}

theorem evenInRow_sound (left : low + n < size) (right : high + n < size)
    (room : dst + n * 2 < 4096) : Sound (evenInRow buffer low high dst n idwt) fun _ => True := by
  apply (sound_load buffer left).bind
  intro l _
  have before : (if n = 0 then high else high + (n - 1)) < size := by
    split <;> omega
  apply (sound_load buffer before).bind
  intro h' _
  apply (sound_load buffer right).bind
  intro h _
  exact sound_store idwt room _

theorem oddInRow_sound (right : high + n < size) (inside : n < subbandWidth)
    (room : dst + subbandWidth * 2 ≤ 4096) :
    Sound (oddInRow buffer subbandWidth high dst n idwt) fun _ => True := by
  apply (sound_load buffer right).bind
  intro h _
  apply (sound_load idwt (by omega)).bind
  intro before _
  apply sound_ite
  · intro more
    apply (sound_load idwt (by omega)).bind
    intro behind _
    exact sound_store idwt (by omega) _
  · intro last
    exact sound_store idwt (by omega) _

theorem decodeRow_sound (left : low + subbandWidth ≤ size) (right : high + subbandWidth ≤ size)
    (room : dst + subbandWidth * 2 ≤ 4096) :
    Sound (decodeRow buffer subbandWidth low high dst idwt) fun _ => True := by
  refine (@sound_foldlM _ _ _ _ (fun _ => True) _ ?_ _ trivial).bind ?_
  · intro n member idwt _
    have inside := List.mem_range.mp member
    exact evenInRow_sound (by omega) (by omega) (by omega)
  · intro idwt _
    refine sound_foldlM _ ?_ trivial
    intro n member idwt _
    have inside := List.mem_range.mp member
    exact oddInRow_sound (by omega) inside room

/-- The blocks of `decode_2d`: where they start, and the width of their sub-bands. -/
def DwtBlock (start subbandWidth : Nat) : Prop :=
  start = 3840 ∧ subbandWidth = 8 ∨ start = 3072 ∧ subbandWidth = 16 ∨
    start = 0 ∧ subbandWidth = 32

theorem decodeRows_sound (enough : 4096 ≤ size) (block : DwtBlock start subbandWidth) :
    Sound (decodeRows buffer start subbandWidth idwt) fun _ => True := by
  refine sound_foldlM _ ?_ trivial
  intro y member idwt _
  have inside := List.mem_range.mp member
  rcases block with ⟨rfl, rfl⟩ | ⟨rfl, rfl⟩ | ⟨rfl, rfl⟩
  all_goals
    apply (decodeRow_sound (by omega) (by omega) (by omega)).bind
    intro idwt _
    exact decodeRow_sound (by omega) (by omega) (by omega)

theorem decodeColumns_sound (enough : 4096 ≤ size) (block : DwtBlock start subbandWidth) :
    Sound (decodeColumns idwt start subbandWidth buffer) fun _ => True := by
  refine sound_foldlM _ ?_ trivial
  intro x member buffer _
  have column := List.mem_range.mp member
  refine (@sound_foldlM _ _ _ _ (fun _ => True) _ ?_ _ trivial).bind ?_
  · intro n member buffer _
    have inside := List.mem_range.mp member
    rcases block with ⟨rfl, rfl⟩ | ⟨rfl, rfl⟩ | ⟨rfl, rfl⟩
    all_goals
      apply (sound_load idwt (by omega)).bind
      intro l _
      apply (sound_load idwt (by split <;> omega)).bind
      intro before _
      apply (sound_load idwt (by omega)).bind
      intro h _
      exact sound_store buffer (by omega) _
  · intro buffer _
    refine sound_foldlM _ ?_ trivial
    intro n member buffer _
    have inside := List.mem_range.mp member
    rcases block with ⟨rfl, rfl⟩ | ⟨rfl, rfl⟩ | ⟨rfl, rfl⟩
    all_goals
      apply (sound_load idwt (by omega)).bind
      intro h _
      apply (sound_load buffer (by omega)).bind
      intro before _
      apply (sound_load buffer (by split <;> omega)).bind
      intro behind _
      exact sound_store buffer (by omega) _

theorem rfxDwt2dDecodeBlock_sound (enough : 4096 ≤ size) (block : DwtBlock start subbandWidth)
    (buffers : Buffer (BitVec 16) size × DwtBuffer) :
    Sound (rfxDwt2dDecodeBlock start subbandWidth buffers) fun _ => True := by
  apply (decodeRows_sound enough block).bind
  intro idwt _
  apply (decodeColumns_sound enough block).bind
  intro buffer _
  exact sound_ok trivial

theorem decode2d_sound (enough : 4096 ≤ size) (buffer : Buffer (BitVec 16) size)
    (dwtBuffer : DwtBuffer) :
    Sound (decode2d buffer dwtBuffer) fun _ => True := by
  have first : DwtBlock 3840 8 := .inl ⟨rfl, rfl⟩
  have second : DwtBlock 3072 16 := .inr (.inl ⟨rfl, rfl⟩)
  have third : DwtBlock 0 32 := .inr (.inr ⟨rfl, rfl⟩)
  have sound := @rfxDwt2dDecodeBlock_sound size
  unfold decode2d
  -- the blocks are not to be computed
  apply (sound enough first (buffer, dwtBuffer)).bind
  intro buffers _
  apply (sound enough second buffers).bind
  intro buffers _
  apply (sound enough third buffers).bind
  intro buffers _
  exact sound_ok trivial

end Dwt

section Component

variable {quants : TsRfxCodecQuant}

/-- None of the values is zero, and each has four bits: no shift is too large. -/
def TsRfxCodecQuant.Shifts (quants : TsRfxCodecQuant) : Prop :=
  ∀ band ∈ quants.subBands, 1 ≤ band.2.2.toNat ∧ band.2.2.toNat ≤ 16

theorem quantFactor_lt {quant : BitVec 8} (some : 1 ≤ quant.toNat) (small : quant.toNat ≤ 16) :
    (quantFactor quant).toNat < 16 := by
  have one : BitVec.toNat (1 : BitVec 32) = 1 := rfl
  rw [quantFactor, BitVec.toNat_sub, one, BitVec.toNat_setWidth]
  omega

theorem rfxQuantizationDecodeBlock_sound {start size : Nat} (room : start + size ≤ 4120)
    {factor : BitVec 32} (small : factor.toNat < 16) (buffer : Coefficients) :
    Sound (rfxQuantizationDecodeBlock start size factor buffer) fun _ => True := by
  apply sound_ite
  · intro _
    exact sound_ok trivial
  · intro _
    rw [if_neg (Nat.not_le.mpr small)]
    refine sound_foldlM _ ?_ trivial
    intro place member buffer _
    obtain ⟨lower, upper⟩ := List.mem_range'_1.mp member
    apply (sound_load buffer (by omega)).bind
    intro value _
    exact sound_store buffer (by omega) _

theorem subBands_room (quants : TsRfxCodecQuant) :
    ∀ band ∈ quants.subBands, band.1 + band.2.1 ≤ 4120 := by
  simp [TsRfxCodecQuant.subBands]

theorem quantizationDecode_sound (shifts : quants.Shifts) (buffer : Coefficients) :
    Sound (quantizationDecode quants buffer) fun _ => True := by
  refine sound_foldlM _ ?_ trivial
  intro band member buffer _
  obtain ⟨some, small⟩ := shifts band member
  exact rfxQuantizationDecodeBlock_sound (subBands_room quants band member)
    (quantFactor_lt some small) buffer

theorem differentialDecode_sound (buffer : Coefficients) :
    Sound (differentialDecode buffer) fun _ => True := by
  refine sound_foldlM _ ?_ trivial
  intro place member buffer _
  obtain ⟨lower, upper⟩ := List.mem_range'_1.mp member
  apply (sound_load buffer (by omega)).bind
  intro before _
  apply (sound_load buffer (by omega)).bind
  intro value _
  exact sound_store buffer (by omega) _

theorem rlgrDecode_sound (mode : RlgrMode) {data : List Byte} (short : data.length < 2 ^ 16)
    (output : Coefficients) : Sound (rlgrDecode mode data output) fun _ => True := by
  rw [rlgrDecode]
  by_cases none : data = []
  · subst none
    have nothing : Rlgr.decode mode [] 4096 = .ok (false, []) := rfl
    rw [nothing]
    exact sound_storeBlock output (Nat.zero_le _)
  · obtain ⟨written, room, _, decoded⟩ :=
      @Rlgr.decode_ok 4096 mode data none (by omega) (by decide) (by decide)
    rw [decoded]
    apply sound_storeBlock
    rw [List.length_append, List.length_replicate]
    omega

theorem decodeComponent_sound (shifts : quants.Shifts) (mode : RlgrMode) {data : List Byte}
    (short : data.length < 2 ^ 16) (memory : Nat → BitVec 16) :
    Sound (decodeComponent quants mode data memory) fun _ => True := by
  unfold decodeComponent
  apply (rlgrDecode_sound mode short _).bind
  intro output _
  apply (differentialDecode_sound output).bind
  intro output _
  apply (quantizationDecode_sound shifts output).bind
  intro output _
  exact decode2d_sound (by decide) output _

end Component

section Draw

theorem yCbCrToRGB_sound {size dest stride : Nat} (y cb cr : Coefficients)
    (room : dest + 63 * stride + 256 ≤ size) (data : Buffer Byte size) :
    Sound (yCbCrToRGB y cb cr dest stride data) fun _ => True := by
  refine sound_foldlM _ ?_ trivial
  intro row member data _
  have line := List.mem_range.mp member
  have before : row * stride ≤ 63 * stride := Nat.mul_le_mul_right stride (by omega)
  refine sound_foldlM _ ?_ trivial
  intro x member data _
  have column := List.mem_range.mp member
  apply (sound_load y (by omega)).bind
  intro yValue _
  apply (sound_load cb (by omega)).bind
  intro cbValue _
  apply (sound_load cr (by omega)).bind
  intro crValue _
  apply sound_storeBlock
  have length : (pixelOf yValue cbValue crValue).length = 4 := rfl
  omega

end Draw

end Redemption.Rfx
