import Redemption.Foundation.Bits
import Redemption.Mppc.HashTable

/-! `insert_n_bits_40_50`: the bit writer of the RDP 4.0 and 5.0 compressors. -/
namespace Redemption.Mppc

open Redemption.Foundation

/-- The output buffer with the position of the next bit. -/
structure Output (capacity : Nat) where
  outputBuffer : Buffer Byte capacity
  bitsLeft : Nat
  opbIndex : Nat

namespace Output

variable {capacity : Nat}

abbrev Writing (capacity : Nat) := Except (MppcFault × Output capacity) (Output capacity)

def start (outputBuffer : Buffer Byte capacity) : Output capacity := ⟨outputBuffer, 8, 0⟩

/-- `outputBuffer[opb_index] = data`, cut to a byte. -/
def assign (out : Output capacity) (data : Nat) : Writing capacity :=
  match out.outputBuffer.store out.opbIndex (BitVec.ofNat 8 data) with
  | .error fault => .error (fault, out)
  | .ok outputBuffer => .ok { out with outputBuffer }

/-- `outputBuffer[opb_index] |= data`, cut to a byte. -/
def orAssign (out : Output capacity) (data : Nat) : Writing capacity :=
  match out.outputBuffer.load out.opbIndex with
  | .error fault => .error (fault, out)
  | .ok old => out.assign (old.toNat ||| data)

/-- `opb_index++` on 16 bits. -/
def advance (out : Output capacity) : Output capacity :=
  { out with opbIndex := (out.opbIndex + 1) % 2 ^ 16 }

/-- The loop that writes whole bytes, with the bits that are left over at its end. -/
def assignBytes : Nat → Nat → Nat → Output capacity →
    Except (MppcFault × Output capacity) (Nat × Nat × Output capacity)
  | 0, bitsToSerialize, data, out => .ok (bitsToSerialize, data, out)
  | fuel + 1, bitsToSerialize, data, out =>
    if 8 ≤ bitsToSerialize then
      match out.assign (data >>> (bitsToSerialize - 8)) with
      | .error fault => .error fault
      | .ok out =>
        assignBytes fuel (bitsToSerialize - 8) (data &&& 2 ^ (bitsToSerialize - 8) - 1) out.advance
    else .ok (bitsToSerialize, data, out)

def insertNBits4050 (outputBufferSize n data : Nat) (out : Output capacity) :
    Writing capacity :=
  if n < out.bitsLeft then
    match out.orAssign (data <<< (out.bitsLeft - n)) with
    | .error fault => .error fault
    | .ok written => .ok { written with bitsLeft := out.bitsLeft - n }
  else if outputBufferSize < out.opbIndex + 1 then
    .error (.raised .rdp45CompressBufferOverflow, out)
  else
    let bitsToSerialize := n - out.bitsLeft
    match out.orAssign (data >>> bitsToSerialize) with
    | .error fault => .error fault
    | .ok written =>
      match assignBytes bitsToSerialize bitsToSerialize (data &&& 2 ^ bitsToSerialize - 1)
        written.advance with
      | .error fault => .error fault
      | .ok (bitsToSerialize, data, out) =>
        match out.assign (if 0 < bitsToSerialize then data <<< (8 - bitsToSerialize) else 0) with
        | .error fault => .error fault
        | .ok last => .ok { last with bitsLeft := 8 - bitsToSerialize }

/-- What `encode_literal_40_50` inserts: nine bits from 0x80 on, eight below. -/
def literalBits (c : Byte) : Nat × Nat :=
  if c &&& 0x80 ≠ 0 then (9, 0x02 <<< 7 ||| (c &&& 0x7F).toNat) else (8, c.toNat)

theorem literalBits_low {c : Byte} (low : c &&& 0x80 = 0) : literalBits c = (8, c.toNat) :=
  if_neg (not_not.mpr low)

theorem literalBits_high {c : Byte} (high : c &&& 0x80 ≠ 0) :
    literalBits c = (9, 0x02 <<< 7 ||| (c &&& 0x7F).toNat) := if_pos high

/-- `bytes_in_opb = opb_index + (bits_left != 8)`. -/
def byteCount (out : Output capacity) : Nat :=
  out.opbIndex + (if out.bitsLeft ≠ 8 then 1 else 0)

/-- Several insertions, one after the other: each is a width and the bits. -/
def insertAll (outputBufferSize : Nat) : List (Nat × Nat) → Output capacity → Writing capacity
  | [], out => .ok out
  | (n, data) :: rest, out =>
    match insertNBits4050 outputBufferSize n data out with
    | .error fault => .error fault
    | .ok out => insertAll outputBufferSize rest out

end Output

/-! The bit writer appends exactly the bits it is given, as long as it stays inside
its buffer and its 16-bit index does not wrap. -/

namespace Output

variable {capacity : Nat}

/-- The first `count` bytes hold the given bits, and zeros where these end. -/
def Written (buffer : Buffer Byte capacity) (count : Nat) (bits : List Bool) : Prop :=
  ∀ index < count, ∀ bit < 8, (buffer.cell index).getMsbD bit = bits[8 * index + bit]?.getD false

/-- The output holds exactly these bits. -/
structure Packs (out : Output capacity) (bits : List Bool) : Prop where
  positive : 0 < out.bitsLeft
  atMost : out.bitsLeft ≤ 8
  length : bits.length + out.bitsLeft = 8 * out.opbIndex + 8
  written : Written out.outputBuffer (out.opbIndex + 1) bits

/-- The lowest `rest` bits of a number are the last ones of a list. -/
def EndsWith (bits : List Bool) (rest data : Nat) : Prop :=
  ∀ index < rest, bits[bits.length - 1 - index]?.getD false = data.testBit index

theorem packs_start (buffer : Buffer Byte capacity) (clear : buffer.cell 0 = 0) :
    Packs (start buffer) [] := by
  refine ⟨Nat.succ_pos 7, Nat.le_refl 8, rfl, ?_⟩
  intro index bounded bit small
  have first : index = 0 := by
    simp only [start] at bounded
    omega
  subst first
  simp [start, clear]

variable {bits : List Bool}

private theorem Written.set {buffer : Buffer Byte capacity} {count : Nat}
    (written : Written buffer count bits) (byte : Byte)
    (spelled : ∀ bit < 8, byte.getMsbD bit = bits[8 * count + bit]?.getD false) :
    Written (buffer.set count byte) (count + 1) bits := by
  intro index bounded bit small
  by_cases last : index = count
  · subst last
    rw [Buffer.cell_set_same]
    exact spelled bit small
  · rw [Buffer.cell_set_other buffer byte last]
    exact written index (by omega) bit small

private theorem getMsbD_ofNat (data bit : Nat) (small : bit < 8) :
    (BitVec.ofNat 8 data).getMsbD bit = data.testBit (7 - bit) := by
  rw [BitVec.getMsbD_eq_getLsbD, BitVec.getLsbD_ofNat]
  simp [small, show 7 - bit < 8 by omega]

theorem assign_of_lt (out : Output capacity) (data : Nat) (bounded : out.opbIndex < capacity) :
    out.assign data = .ok { out with
      outputBuffer := out.outputBuffer.set out.opbIndex (BitVec.ofNat 8 data) } := by
  simp [assign, Buffer.store_of_lt _ bounded]

theorem assign_of_le (out : Output capacity) (data : Nat) (beyond : capacity ≤ out.opbIndex) :
    out.assign data = .error (.outOfBounds, out) := by
  simp [assign, Buffer.store_of_le _ beyond]

variable {out : Output capacity}

/-- The bits that an `|=` leaves in the current byte. -/
private theorem orAssign_run (packs : Packs out bits)
    (bounded : out.opbIndex < capacity) (more : List Bool) (data : Nat)
    (clear : ∀ index, out.bitsLeft ≤ index → data.testBit index = false)
    (placed : ∀ index < out.bitsLeft,
      data.testBit index = more[out.bitsLeft - 1 - index]?.getD false) :
    ∃ buffer, out.orAssign data = .ok { out with outputBuffer := buffer } ∧
      Written buffer (out.opbIndex + 1) (bits ++ more) := by
  have atMost := packs.atMost
  have length := packs.length
  refine ⟨out.outputBuffer.set out.opbIndex
    (BitVec.ofNat 8 ((out.outputBuffer.cell out.opbIndex).toNat ||| data)), ?_, ?_⟩
  · simp only [orAssign, Buffer.load_of_lt _ bounded, assign_of_lt _ _ bounded]
  have before : Written out.outputBuffer out.opbIndex (bits ++ more) := by
    intro index inside bit small
    rw [packs.written index (by omega) bit small, List.getElem?_append_left (by omega)]
  refine before.set _ (fun bit small => ?_)
  have old := packs.written out.opbIndex (by omega) bit small
  rw [getMsbD_ofNat _ _ small, Nat.testBit_or, BitVec.testBit_toNat]
  rw [BitVec.getMsbD_eq_getLsbD] at old
  have same : (out.outputBuffer.cell out.opbIndex).getLsbD (7 - bit) =
      bits[8 * out.opbIndex + bit]?.getD false := by
    simpa [small] using old
  rw [same]
  by_cases first : bit < 8 - out.bitsLeft
  · rw [List.getElem?_append_left (by omega), clear (7 - bit) (by omega), Bool.or_false]
  · rw [List.getElem?_append_right (by omega), placed (7 - bit) (by omega)]
    have ended : bits[8 * out.opbIndex + bit]? = none := List.getElem?_eq_none (by omega)
    have place : out.bitsLeft - 1 - (7 - bit) = 8 * out.opbIndex + bit - bits.length := by omega
    rw [ended, place]
    rfl

/-- Whole bytes come out of the loop in order; fewer than eight bits are left over. -/
private theorem assignBytes_run (fuel rest data : Nat)
    (out : Output capacity) (written : Written out.outputBuffer out.opbIndex bits)
    (length : 8 * out.opbIndex + rest = bits.length) (ends : EndsWith bits rest data)
    (enough : rest ≤ fuel) (inside : bits.length / 8 < capacity)
    (small : bits.length / 8 < 2 ^ 16) :
    ∃ rest' data' buffer, assignBytes fuel rest data out =
        .ok (rest', data', { out with outputBuffer := buffer, opbIndex := bits.length / 8 }) ∧
      rest' = bits.length % 8 ∧ EndsWith bits rest' data' ∧
      Written buffer (bits.length / 8) bits := by
  induction fuel generalizing rest data out with
  | zero =>
    have here : bits.length / 8 = out.opbIndex := by omega
    refine ⟨rest, data, out.outputBuffer, by simp [assignBytes, here], by omega, ends, ?_⟩
    rw [here]
    exact written
  | succ fuel ih =>
    unfold assignBytes
    split
    · rw [assign_of_lt out _ (by omega)]
      have spelled : ∀ bit < 8, (BitVec.ofNat 8 (data >>> (rest - 8))).getMsbD bit =
          bits[8 * out.opbIndex + bit]?.getD false := by
        intro bit small
        have last := ends (rest - 1 - bit) (by omega)
        have place : bits.length - 1 - (rest - 1 - bit) = 8 * out.opbIndex + bit := by omega
        have shift : rest - 8 + (7 - bit) = rest - 1 - bit := by omega
        rw [getMsbD_ofNat _ _ small, Nat.testBit_shiftRight, shift, ← last, place]
      have next := written.set _ spelled
      have masked : EndsWith bits (rest - 8) (data &&& 2 ^ (rest - 8) - 1) := by
        intro index bounded
        rw [ends index (by omega), Nat.testBit_and, Nat.testBit_two_pow_sub_one]
        simp [bounded]
      have wraps : (out.opbIndex + 1) % 2 ^ 16 = out.opbIndex + 1 :=
        Nat.mod_eq_of_lt (by omega)
      have run := ih (rest - 8) _ (advance { out with
          outputBuffer := out.outputBuffer.set out.opbIndex
            (BitVec.ofNat 8 (data >>> (rest - 8))) })
        (by simp only [advance, wraps]; exact next) (by simp only [advance, wraps]; omega) masked
        (by omega)
      simpa [advance] using run
    · have here : bits.length / 8 = out.opbIndex := by omega
      refine ⟨rest, data, out.outputBuffer, by simp [here], by omega, ends, ?_⟩
      rw [here]
      exact written

private theorem endsWith_append (bits : List Bool) (n data : Nat) :
    EndsWith (bits ++ bitsOf n data) n data := by
  intro index bounded
  rw [List.length_append, length_bitsOf, List.getElem?_append_right (by omega),
    getElem?_bitsOf _ _ _ (by omega)]
  have place : n - 1 - (bits.length + n - 1 - index - bits.length) = index := by omega
  rw [place, Option.getD_some]

/-- Bits that fit below the next byte are put into the current one. -/
private theorem insert_within
    (packs : Packs out bits) (outputBufferSize n data : Nat) (small : data < 2 ^ n)
    (fits : n < out.bitsLeft) (bounded : out.opbIndex < capacity) :
    ∃ out', insertNBits4050 outputBufferSize n data out = .ok out' ∧
      Packs out' (bits ++ bitsOf n data) := by
  have clear : ∀ index, out.bitsLeft ≤ index →
      (data <<< (out.bitsLeft - n)).testBit index = false := by
    intro index above
    have grows : 2 ^ n ≤ 2 ^ (index - (out.bitsLeft - n)) :=
      Nat.pow_le_pow_right (by omega) (by omega)
    rw [Nat.testBit_shiftLeft, Nat.testBit_lt_two_pow (Nat.lt_of_lt_of_le small grows),
      Bool.and_false]
  have placed : ∀ index < out.bitsLeft, (data <<< (out.bitsLeft - n)).testBit index =
      (bitsOf n data)[out.bitsLeft - 1 - index]?.getD false := by
    intro index below
    by_cases inside : out.bitsLeft - 1 - index < n
    · rw [getElem?_bitsOf _ _ _ inside, Nat.testBit_shiftLeft]
      have place : n - 1 - (out.bitsLeft - 1 - index) = index - (out.bitsLeft - n) := by omega
      have reach : out.bitsLeft - n ≤ index := by omega
      simp [place, reach]
    · have ended : (bitsOf n data)[out.bitsLeft - 1 - index]? = none :=
        List.getElem?_eq_none (by simp; omega)
      rw [ended, Nat.testBit_shiftLeft]
      simp [show ¬ out.bitsLeft - n ≤ index by omega]
  obtain ⟨buffer, ored, written⟩ := orAssign_run packs bounded (bitsOf n data) _ clear placed
  have atMost := packs.atMost
  have length := packs.length
  refine ⟨{ outputBuffer := buffer, bitsLeft := out.bitsLeft - n, opbIndex := out.opbIndex },
    by simp only [insertNBits4050, fits, if_true, ored], ?_⟩
  refine ⟨?_, ?_, ?_, written⟩
  · show 0 < out.bitsLeft - n
    omega
  · show out.bitsLeft - n ≤ 8
    omega
  · simp only [List.length_append, length_bitsOf]
    omega

/-- The first byte of an insertion that reaches beyond the current byte. -/
private theorem insert_first
    (packs : Packs out bits) (n data : Nat) (small : data < 2 ^ n) (crosses : out.bitsLeft ≤ n)
    (bounded : out.opbIndex < capacity) :
    ∃ buffer, out.orAssign (data >>> (n - out.bitsLeft)) =
        .ok { out with outputBuffer := buffer } ∧
      Written buffer (out.opbIndex + 1) (bits ++ bitsOf n data) := by
  refine orAssign_run packs bounded (bitsOf n data) _ ?_ ?_
  · intro index above
    have grows : 2 ^ n ≤ 2 ^ (n - out.bitsLeft + index) :=
      Nat.pow_le_pow_right (by omega) (by omega)
    rw [Nat.testBit_shiftRight, Nat.testBit_lt_two_pow (Nat.lt_of_lt_of_le small grows)]
  · intro index below
    have place : n - 1 - (out.bitsLeft - 1 - index) = n - out.bitsLeft + index := by omega
    rw [Nat.testBit_shiftRight, getElem?_bitsOf _ _ _ (by omega), place, Option.getD_some]

private theorem endsWith_mask {n rest data : Nat}
    (ends : EndsWith bits n data) (fewer : rest ≤ n) :
    EndsWith bits rest (data &&& 2 ^ rest - 1) := by
  intro index bounded
  rw [ends index (by omega), Nat.testBit_and, Nat.testBit_two_pow_sub_one]
  simp [bounded]

/-- Bits that reach beyond the current byte, when all bytes are there for them. -/
private theorem insert_across
    (packs : Packs out bits) (outputBufferSize n data : Nat) (small : data < 2 ^ n)
    (crosses : out.bitsLeft ≤ n) (room : out.opbIndex < outputBufferSize)
    (inside : (bits.length + n) / 8 < capacity) (narrow : (bits.length + n) / 8 < 2 ^ 16) :
    ∃ out', insertNBits4050 outputBufferSize n data out = .ok out' ∧
      Packs out' (bits ++ bitsOf n data) := by
  have length := packs.length
  have total : (bits ++ bitsOf n data).length = bits.length + n := by simp
  obtain ⟨buffer, ored, written⟩ :=
    insert_first packs n data small crosses (by omega)
  have wraps : (out.opbIndex + 1) % 2 ^ 16 = out.opbIndex + 1 := Nat.mod_eq_of_lt (by omega)
  obtain ⟨rest, data', buffer', looped, left, ends, written'⟩ :=
    assignBytes_run (n - out.bitsLeft) (n - out.bitsLeft) (data &&& 2 ^ (n - out.bitsLeft) - 1)
      (advance { out with outputBuffer := buffer }) (by simp only [advance, wraps]; exact written)
      (by simp only [advance, wraps]; omega)
      (endsWith_mask (endsWith_append bits n data) (by omega)) (Nat.le_refl _)
      (by omega) (by omega)
  rw [total] at looped left written'
  let last := if 0 < rest then data' <<< (8 - rest) else 0
  have spelled : ∀ bit < 8, (BitVec.ofNat 8 last).getMsbD bit =
      (bits ++ bitsOf n data)[8 * ((bits.length + n) / 8) + bit]?.getD false := by
    intro bit tiny
    rw [getMsbD_ofNat _ _ tiny]
    by_cases covered : bit < rest
    · have some : 0 < rest := by omega
      have read := ends (rest - 1 - bit) (by omega)
      have place : bits.length + n - 1 - (rest - 1 - bit) =
          8 * ((bits.length + n) / 8) + bit := by omega
      have shift : 7 - bit - (8 - rest) = rest - 1 - bit := by omega
      rw [total, place] at read
      rw [read]
      simp [last, some, Nat.testBit_shiftLeft, shift, show 8 - rest ≤ 7 - bit by omega]
    · have ended : (bits ++ bitsOf n data)[8 * ((bits.length + n) / 8) + bit]? = none :=
        List.getElem?_eq_none (by omega)
      rw [ended]
      by_cases some : 0 < rest
      · simp [last, some, Nat.testBit_shiftLeft, show ¬ 8 - rest ≤ 7 - bit by omega]
      · simp [last, some]
  refine ⟨⟨buffer'.set ((bits.length + n) / 8) (BitVec.ofNat 8 last), 8 - rest,
    (bits.length + n) / 8⟩, ?_, ?_⟩
  · have crossing : ¬ n < out.bitsLeft := by omega
    have roomy : ¬ outputBufferSize < out.opbIndex + 1 := by omega
    simp only [insertNBits4050, crossing, roomy, if_false, ored, looped]
    rw [assign_of_lt _ _ inside]
  · refine ⟨?_, ?_, ?_, written'.set _ spelled⟩
    · show 0 < 8 - rest
      omega
    · show 8 - rest ≤ 8
      omega
    · show (bits ++ bitsOf n data).length + (8 - rest) = 8 * ((bits.length + n) / 8) + 8
      omega

/-- The limit is only looked at when the bits reach beyond the current byte. -/
theorem insert_full (out : Output capacity) (outputBufferSize n data : Nat)
    (crosses : out.bitsLeft ≤ n) (full : outputBufferSize ≤ out.opbIndex) :
    insertNBits4050 outputBufferSize n data out =
      .error (.raised .rdp45CompressBufferOverflow, out) := by
  have crossing : ¬ n < out.bitsLeft := by omega
  have fullUp : outputBufferSize < out.opbIndex + 1 := by omega
  simp only [insertNBits4050, crossing, fullUp, if_false, if_true]

private theorem assignBytes_outside (fuel rest data : Nat) (out : Output capacity)
    (enough : rest ≤ fuel) (outside : capacity ≤ out.opbIndex + rest / 8)
    (narrow : out.opbIndex + rest / 8 < 2 ^ 16) :
    (∃ out', assignBytes fuel rest data out = .error (.outOfBounds, out')) ∨
      ∃ rest' data' out', assignBytes fuel rest data out = .ok (rest', data', out') ∧
        capacity ≤ out'.opbIndex := by
  induction fuel generalizing rest data out with
  | zero => exact .inr ⟨rest, data, out, rfl, by omega⟩
  | succ fuel ih =>
    unfold assignBytes
    split
    · by_cases bounded : out.opbIndex < capacity
      · rw [assign_of_lt out _ bounded]
        have wraps : (out.opbIndex + 1) % 2 ^ 16 = out.opbIndex + 1 :=
          Nat.mod_eq_of_lt (by omega)
        exact ih (rest - 8) _ _ (by omega) (by simp only [advance, wraps]; omega)
          (by simp only [advance, wraps]; omega)
      · rw [assign_of_le out _ (by omega)]
        exact .inl ⟨out, rfl⟩
    · exact .inr ⟨rest, data, out, rfl, by omega⟩

/-- An insertion that starts below the limit is not stopped at the end of the buffer. -/
theorem insert_outside (packs : Packs out bits)
    (outputBufferSize n data : Nat) (small : data < 2 ^ n) (crosses : out.bitsLeft ≤ n)
    (room : out.opbIndex < outputBufferSize) (bounded : out.opbIndex < capacity)
    (outside : capacity ≤ (bits.length + n) / 8) (narrow : (bits.length + n) / 8 < 2 ^ 16) :
    ∃ out', insertNBits4050 outputBufferSize n data out = .error (.outOfBounds, out') := by
  have length := packs.length
  obtain ⟨buffer, ored, _⟩ := insert_first packs n data small crosses bounded
  have wraps : (out.opbIndex + 1) % 2 ^ 16 = out.opbIndex + 1 := Nat.mod_eq_of_lt (by omega)
  have crossing : ¬ n < out.bitsLeft := by omega
  have roomy : ¬ outputBufferSize < out.opbIndex + 1 := by omega
  simp only [insertNBits4050, crossing, roomy, if_false, ored]
  rcases assignBytes_outside (n - out.bitsLeft) (n - out.bitsLeft)
      (data &&& 2 ^ (n - out.bitsLeft) - 1) (advance { out with outputBuffer := buffer })
      (Nat.le_refl _) (by simp only [advance, wraps]; omega)
      (by simp only [advance, wraps]; omega) with
    ⟨out', stopped⟩ | ⟨rest, data', out', looped, beyond⟩
  · exact ⟨out', by simp only [stopped]⟩
  · refine ⟨out', ?_⟩
    simp only [looped, assign_of_le out' _ beyond]

/-- No insertion of a list starts below the limit on the output size and still reaches
`limit`, where the buffer ends or the index wraps. -/
def Fits (outputBufferSize limit : Nat) : Nat → List (Nat × Nat) → Prop
  | _, [] => True
  | position, (n, _) :: rest =>
    (position / 8 < outputBufferSize → (position + n) / 8 < limit) ∧
      Fits outputBufferSize limit (position + n) rest

def insertedBits (insertions : List (Nat × Nat)) : List Bool :=
  insertions.flatMap fun insertion => bitsOf insertion.1 insertion.2

/-- Insertions that fit are all packed, or the output is full before. -/
theorem insertAll_run (packs : Packs out bits)
    {outputBufferSize limit : Nat} (insertions : List (Nat × Nat))
    (inBuffer : limit ≤ capacity) (narrow : limit ≤ 2 ^ 16) (here : bits.length / 8 < limit)
    (small : ∀ insertion ∈ insertions, insertion.2 < 2 ^ insertion.1)
    (fits : Fits outputBufferSize limit bits.length insertions) :
    (∃ out', insertAll outputBufferSize insertions out = .ok out' ∧
        Packs out' (bits ++ insertedBits insertions) ∧
        (bits ++ insertedBits insertions).length / 8 < limit) ∨
      outputBufferSize ≤ (bits ++ insertedBits insertions).length / 8 ∧
        ∃ out', insertAll outputBufferSize insertions out =
          .error (.raised .rdp45CompressBufferOverflow, out') := by
  induction insertions generalizing out bits with
  | nil =>
    refine .inl ⟨out, rfl, ?_⟩
    simpa [insertedBits] using And.intro packs here
  | cons insertion rest ih =>
    obtain ⟨n, data⟩ := insertion
    obtain ⟨now, later⟩ := fits
    have tiny : data < 2 ^ n := small (n, data) List.mem_cons_self
    have length := packs.length
    have positive := packs.positive
    have atMost := packs.atMost
    have continues : ∀ out', insertNBits4050 outputBufferSize n data out = .ok out' →
        Packs out' (bits ++ bitsOf n data) → (bits.length + n) / 8 < limit → _ :=
      fun out' inserted packs' inside => by
        have step := ih packs' (by simpa using inside)
          (fun other member => small other (List.mem_cons_of_mem _ member))
          (by simpa using later)
        have run : insertAll outputBufferSize ((n, data) :: rest) out =
            insertAll outputBufferSize rest out' := by simp only [insertAll, inserted]
        rw [← run, List.append_assoc] at step
        exact step
    by_cases within : n < out.bitsLeft
    · obtain ⟨out', inserted, packs'⟩ :=
        insert_within packs outputBufferSize n data tiny within (by omega)
      exact continues out' inserted packs' (by omega)
    · by_cases room : out.opbIndex < outputBufferSize
      · have inside := now (by omega)
        obtain ⟨out', inserted, packs'⟩ := insert_across packs outputBufferSize n data tiny
          (by omega) room (by omega) (by omega)
        exact continues out' inserted packs' inside
      · refine .inr ⟨?_, out, ?_⟩
        · simp only [List.length_append]
          omega
        · simp only [insertAll, insert_full out outputBufferSize n data (by omega) (by omega)]

/-- The bytes of the output are its bits, padded to a whole byte. -/
theorem Packs.bytes (packs : Packs out bits) :
    ∃ padding : List Bool, padding.length < 8 ∧
      bytesToBits (out.outputBuffer.slice 0 out.byteCount) = bits ++ padding := by
  have atMost := packs.atMost
  have length := packs.length
  have covers : bits.length ≤ 8 * out.byteCount ∧ 8 * out.byteCount < bits.length + 8 ∧
      out.byteCount ≤ out.opbIndex + 1 := by
    unfold byteCount
    split <;> omega
  obtain ⟨enough, tight, last⟩ := covers
  refine ⟨List.replicate (8 * out.byteCount - bits.length) false, by simp; omega, ?_⟩
  apply List.ext_getElem?
  intro index
  rcases Nat.lt_or_ge index (8 * out.byteCount) with inside | beyond
  · have split : index = 8 * (index / 8) + index % 8 := by omega
    have read := packs.written (index / 8) (by omega) (index % 8) (by omega)
    rw [← split] at read
    have byte : index / 8 < (out.outputBuffer.slice 0 out.byteCount).length := by
      rw [Buffer.length_slice]
      omega
    have spelled := getElem?_bytesToBits byte (Nat.mod_lt index (by decide))
    rw [← split, Buffer.getElem_slice, Nat.zero_add] at spelled
    rw [spelled, read]
    rcases Nat.lt_or_ge index bits.length with early | late
    · rw [List.getElem?_append_left early]
      simp [early]
    · rw [List.getElem?_append_right late, List.getElem?_eq_none late]
      simp only [Option.getD_none]
      rw [List.getElem?_replicate, if_pos (by omega)]
  · have done : (bytesToBits (out.outputBuffer.slice 0 out.byteCount)).length ≤ index := by
      simp only [length_bytesToBits, Buffer.length_slice]
      omega
    have exhausted :
        (bits ++ List.replicate (8 * out.byteCount - bits.length) false).length ≤ index := by
      simp only [List.length_append, List.length_replicate]
      omega
    rw [List.getElem?_eq_none done, List.getElem?_eq_none exhausted]

theorem fits_of_total {outputBufferSize limit position : Nat} {insertions : List (Nat × Nat)}
    (total : (position + (insertedBits insertions).length) / 8 < limit) :
    Fits outputBufferSize limit position insertions := by
  induction insertions generalizing position with
  | nil => trivial
  | cons insertion rest ih =>
    obtain ⟨n, data⟩ := insertion
    simp only [insertedBits, List.flatMap_cons, List.length_append, length_bitsOf] at total
    have later : (position + n + (insertedBits rest).length) / 8 < limit := by
      rw [Nat.add_assoc]
      exact total
    exact ⟨fun _ => by omega, ih later⟩

theorem insertAll_append (outputBufferSize : Nat) (front back : List (Nat × Nat))
    (out : Output capacity) :
    insertAll outputBufferSize (front ++ back) out =
      match insertAll outputBufferSize front out with
      | .error fault => .error fault
      | .ok out => insertAll outputBufferSize back out := by
  induction front generalizing out with
  | nil => rfl
  | cons insertion rest ih =>
    obtain ⟨n, data⟩ := insertion
    simp only [List.cons_append, insertAll]
    cases insertNBits4050 outputBufferSize n data out with
    | error fault => rfl
    | ok next => exact ih next

theorem insertedBits_append (front back : List (Nat × Nat)) :
    insertedBits (front ++ back) = insertedBits front ++ insertedBits back := by
  simp [insertedBits]

end Output

end Redemption.Mppc
