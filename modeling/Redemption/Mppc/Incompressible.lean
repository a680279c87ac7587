import Redemption.Mppc.Session

/-! Packets without a repeated window of three bytes are written as literals. -/
namespace Redemption.Mppc

open Redemption.Foundation
open Redemption.Foundation.Lz

variable {format : Format}

/-- No three bytes in a row occur twice below `finish`. -/
def NoRepeat (text : Nat → Byte) (finish : Nat) : Prop :=
  ∀ first second, first < second → second + 3 ≤ finish →
    ¬ ∀ index < 3, text (first + index) = text (second + index)

theorem literals_of_noRepeat {text : Nat → Byte} {start finish : Nat}
    {tokens : List (Token Byte)} (parse : Parses text start finish tokens)
    (valid : ∀ token ∈ tokens, format.Valid token) (fresh : NoRepeat text finish) :
    tokens = (List.range (finish - start)).map fun index => .literal (text (start + index)) := by
  induction parse with
  | done => simp
  | @literal position finish rest tail ih =>
    have after := tail.start_le_finish
    have others := ih (fun token member => valid token (List.mem_cons_of_mem _ member)) fresh
    have count : finish - position = finish - (position + 1) + 1 := by omega
    rw [others, count, List.range_succ_eq_map, List.map_cons, List.map_map]
    congr 1
    apply List.map_congr_left
    intro index _
    congr 2
    omega
  | @copy position finish offset length rest positive reaches repeats tail ih =>
    have after := tail.start_le_finish
    obtain ⟨_, _, long, _⟩ := valid _ List.mem_cons_self
    refine (fresh (position - offset) position (by omega) (by omega) fun index small => ?_).elim
    rw [repeats index (by omega)]
    congr 1
    omega

/-- The insertions for the first bytes of a text that is all literals. -/
def literalsOf (text : Nat → Byte) (size : Nat) : List (Nat × Nat) :=
  (List.range size).map fun index => Output.literalBits (text index)

theorem literalsOf_add (text : Nat → Byte) (size more : Nat) :
    literalsOf text (size + more) = literalsOf text size ++
      literalsOf (fun index => text (size + index)) more := by
  simp [literalsOf, List.range_add, Function.comp_def]

theorem fresh_run (lawful : format.Lawful) {text : Nat → Byte} {size : Nat} (long : 2 ≤ size)
    (short : size + 2 < format.histBufLen) (noRepeat : NoRepeat text size) :
    ∃ prepared : Encoder format,
      (Encoder.fresh format).begin.prepare ((List.range size).map text) = .ok prepared ∧
      prepared.flags = format.comprType ∧ prepared.outputBuffer.cell 0 = 0 ∧
      ∃ manager : HashTableManager, ∀ out : Output format.outputCapacity,
        match out.insertAll format.outputBufferSize
            (literalsOf text size) with
        | .error (fault, out') => ∃ stopped,
            Encoder.encodePacket prepared.historyBuffer prepared.historyOffset
              ((List.range size).map text) prepared.hashTabMgr out = .error (fault, stopped, out')
        | .ok out' =>
            Encoder.encodePacket prepared.historyBuffer prepared.historyOffset
              ((List.range size).map text) prepared.hashTabMgr out = .ok (manager, out') := by
  have length : ((List.range size).map text).length = size := by simp
  obtain ⟨prepared, arranged, ready, _, flags, lockstep⟩ := prepare_run lawful
    (lockstep_fresh format).begin
    (HashTableManager.undoes_clear (Encoder.fresh format).hashTabMgr)
    (show 0 < ((List.range size).map text).length by omega) (by omega)
  have front : prepared.historyOffset = 0 := by
    by_cases pending : prepared.Pending
    · exact lockstep.front pending
    · exact (lockstep.following pending).symm
  obtain ⟨tokens, manager, tokenized, undoes, valid, two, -, parses, attempts⟩ :=
    Encoder.encodePacket_run ready
  obtain ⟨_, parse⟩ := parses (.inr (by omega))
  rw [front, Nat.zero_add, length] at parse
  have cells : ∀ index < size, prepared.historyBuffer.cell index = text index := by
    intro index bounded
    have cell := ready.text index (by omega)
    rw [front, Nat.zero_add] at cell
    simpa using cell
  have fresh : NoRepeat prepared.historyBuffer.cell size := by
    intro first second before inside same
    refine noRepeat first second before inside fun index small => ?_
    rw [← cells _ (by omega), ← cells _ (by omega)]
    exact same index small
  have literals : tokens = ((List.range size).map text).map .literal := by
    rw [literals_of_noRepeat parse valid fresh, Nat.sub_zero, List.map_map]
    apply List.map_congr_left
    intro index bounded
    simp [cells index (List.mem_range.mp bounded)]
  refine ⟨prepared, arranged, flags, ready.clear, manager, fun out => ?_⟩
  have attempt := attempts out
  rw [literals, Encoder.flatMap_literals, List.map_map] at attempt
  have listed : (List.range size).map (Output.literalBits ∘ text) = literalsOf text size := rfl
  rw [listed] at attempt
  cases inserted : out.insertAll format.outputBufferSize (literalsOf text size) with
  | error fault =>
    obtain ⟨fault, out'⟩ := fault
    simp only [inserted] at attempt
    obtain ⟨stopped, _, ran⟩ := attempt
    exact ⟨stopped, ran⟩
  | ok out' =>
    simp only [inserted] at attempt
    exact attempt

theorem literalsOf_pack {out : Output format.outputCapacity}
    (packs : out.Packs []) (text : Nat → Byte) (size : Nat) {width : Nat}
    (total : (Output.insertedBits (literalsOf text size)).length = width)
    (inside : width / 8 < format.outputLimit) (room : width / 8 < format.outputBufferSize) :
    ∃ out', out.insertAll format.outputBufferSize (literalsOf text size) = .ok out' ∧
      ∃ bits, out'.Packs bits ∧ bits.length = width := by
  have small : ∀ insertion ∈ literalsOf text size, insertion.2 < 2 ^ insertion.1 := by
    intro insertion member
    obtain ⟨index, _, rfl⟩ := List.mem_map.mp member
    exact literalBits_small _
  have fits : Output.Fits format.outputBufferSize format.outputLimit 0 (literalsOf text size) :=
    Output.fits_of_total (by rw [total, Nat.zero_add]; exact inside)
  have here : ([] : List Bool).length / 8 < format.outputLimit := by
    rw [List.length_nil]
    omega
  rcases Output.insertAll_run packs (literalsOf text size) (Nat.min_le_left _ _)
      (Nat.min_le_right _ _) here small fits with
    ⟨out', inserted, packs', _⟩ | ⟨full, _⟩
  · exact ⟨out', inserted, _, packs', by simpa using total⟩
  · rw [List.nil_append, total] at full
    omega

/-- A byte sequence without repeats: 128 to 159, 160 to 191 and 192 to 255 alternate. -/
def triad (index : Nat) : Nat :=
  if index % 3 = 0 then 128 + index / 3 % 32
  else if index % 3 = 1 then 160 + index / 96 % 32
  else 192 + index / 3072

private theorem triad_zero {index : Nat} (third : index % 3 = 0) :
    triad index = 128 + index / 3 % 32 := if_pos third

private theorem triad_one {index : Nat} (third : index % 3 = 1) :
    triad index = 160 + index / 96 % 32 := by
  rw [triad, if_neg (by omega), if_pos third]

private theorem triad_two {index : Nat} (third : index % 3 = 2) :
    triad index = 192 + index / 3072 := by
  rw [triad, if_neg (by omega), if_neg (by omega)]

private theorem triad_cases (index : Nat) :
    index % 3 = 0 ∧ triad index = 128 + index / 3 % 32 ∨
      index % 3 = 1 ∧ triad index = 160 + index / 96 % 32 ∨
      index % 3 = 2 ∧ triad index = 192 + index / 3072 := by
  have residue : index % 3 = 0 ∨ index % 3 = 1 ∨ index % 3 = 2 := by omega
  rcases residue with third | third | third
  · exact .inl ⟨third, triad_zero third⟩
  · exact .inr (.inl ⟨third, triad_one third⟩)
  · exact .inr (.inr ⟨third, triad_two third⟩)

theorem triad_bounds {index : Nat} (small : index < 196608) :
    128 ≤ triad index ∧ triad index < 256 := by
  rcases triad_cases index with ⟨_, value⟩ | ⟨_, value⟩ | ⟨_, value⟩ <;> omega

private theorem triad_residue {first second : Nat} (firstSmall : first < 196608)
    (secondSmall : second < 196608) (same : triad first = triad second) :
    first % 3 = second % 3 := by
  rcases triad_cases first with ⟨_, left⟩ | ⟨_, left⟩ | ⟨_, left⟩ <;>
    rcases triad_cases second with ⟨_, right⟩ | ⟨_, right⟩ | ⟨_, right⟩ <;> omega

theorem triad_injective {first second : Nat} (firstSmall : first + 3 ≤ 196608)
    (secondSmall : second + 3 ≤ 196608)
    (same : ∀ index < 3, triad (first + index) = triad (second + index)) : first = second := by
  have zero := same 0 (by decide)
  have one := same 1 (by decide)
  have two := same 2 (by decide)
  have residue := triad_residue (by omega) (by omega) zero
  rcases triad_cases first with ⟨third, left⟩ | ⟨third, left⟩ | ⟨third, left⟩
  · rw [triad_zero (by omega), triad_zero (by omega)] at zero
    rw [triad_one (by omega), triad_one (by omega)] at one
    rw [triad_two (by omega), triad_two (by omega)] at two
    omega
  · rw [triad_one (by omega), triad_one (by omega)] at zero
    rw [triad_two (by omega), triad_two (by omega)] at one
    rw [triad_zero (by omega), triad_zero (by omega)] at two
    omega
  · rw [triad_two (by omega), triad_two (by omega)] at zero
    rw [triad_zero (by omega), triad_zero (by omega)] at one
    rw [triad_one (by omega), triad_one (by omega)] at two
    omega

/-- A byte of the sequence as the compressor sees it. -/
def triadByte (index : Nat) : Byte := BitVec.ofNat 8 (triad index)

theorem toNat_triadByte {index : Nat} (small : index < 196608) :
    (triadByte index).toNat = triad index := by
  rw [triadByte, BitVec.toNat_ofNat]
  exact Nat.mod_eq_of_lt (triad_bounds small).2

theorem triadByte_noRepeat {size : Nat} (small : size ≤ 196608) : NoRepeat triadByte size := by
  intro first second before inside same
  have equal : first = second := by
    apply triad_injective (by omega) (by omega)
    intro index bounded
    rw [← toNat_triadByte (by omega), same index bounded, toNat_triadByte (by omega)]
  omega

theorem literalBits_wide : ∀ c : Byte, 128 ≤ c.toNat → (Output.literalBits c).1 = 9 := by decide

theorem width_triad {size : Nat} (small : size ≤ 196608) :
    (Output.insertedBits (literalsOf triadByte size)).length = 9 * size := by
  induction size with
  | zero => rfl
  | succ size ih =>
    have wide := literalBits_wide (triadByte size)
      (by rw [toNat_triadByte (by omega)]; exact (triad_bounds (by omega)).1)
    rw [literalsOf_add, Output.insertedBits_append, List.length_append, ih (by omega)]
    simp only [literalsOf, List.range_one, List.map_cons, List.map_nil, Output.insertedBits,
      List.flatMap_cons, List.flatMap_nil, List.append_nil, length_bitsOf, Nat.add_zero, wide]
    omega

end Redemption.Mppc
