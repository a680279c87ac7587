import Redemption.Foundation.Bits
import Redemption.Mppc.HashTable

/-! The 32-bit window through which the decompressors read their input, with the one
byte that is partly moved into it. -/
namespace Redemption.Mppc

open Redemption.Foundation

/-- `d32`, `bits_left`, `cur_uint8_t`, `cur_bits_left`, and the input from `cptr` on. -/
structure Window where
  d32 : BitVec 32
  bitsLeft : Int
  curUint8 : Byte
  curBitsLeft : Int
  input : List Byte

namespace Window

/-- Load the byte after the window; `prepare` is what the decompressor does to a byte. -/
def loadCurrent (prepare : Byte → Byte) (d32 : BitVec 32) (bitsLeft : Int) (stale : Byte) :
    List Byte → Window
  | [] => ⟨d32, bitsLeft, stale, 0, []⟩
  | byte :: rest => ⟨d32, bitsLeft, prepare byte, 8, rest⟩

/-- The first loop: `tmp` is `8 * count - 8` while there is room for `count` bytes. -/
def loadFirst : Nat → BitVec 32 → Int → List Byte → Window
  | count + 1, d32, bitsLeft, byte :: rest =>
    loadFirst count (d32 ||| byte.setWidth 32 <<< (8 * count)) (bitsLeft + 8) rest
  | _, d32, bitsLeft, input => loadCurrent id d32 bitsLeft 0 input

def start (cbuf : List Byte) : Window := loadFirst 4 0 0 cbuf

/-- The loop on `tmp` that fills the window up again. -/
def refillLoop (prepare : Byte → Byte) (d32 : BitVec 32) (bitsLeft : Int) (curUint8 : Byte)
    (curBitsLeft tmp : Int) (input : List Byte) : Window :=
  if tmp = 0 then ⟨d32, bitsLeft, curUint8, curBitsLeft, input⟩
  else if curBitsLeft < tmp then
    let whole := curBitsLeft ≠ 0
    let moved := (curUint8 >>> (8 - curBitsLeft).toNat).setWidth 32 <<<
      (32 - bitsLeft - curBitsLeft).toNat
    let d32 := if whole then d32 ||| moved else d32
    let bitsLeft := if whole then bitsLeft + curBitsLeft else bitsLeft
    let tmp := if whole then tmp - curBitsLeft else tmp
    match input with
    | [] => ⟨d32, bitsLeft, curUint8, 0, []⟩
    | byte :: rest => refillLoop prepare d32 bitsLeft (prepare byte) 8 tmp rest
  else
    let d32 := d32 ||| (curUint8 >>> (8 - tmp).toNat).setWidth 32
    if tmp < curBitsLeft then
      ⟨d32, 32, curUint8 <<< tmp.toNat, curBitsLeft - tmp, input⟩
    else loadCurrent prepare d32 32 curUint8 input

def refill (prepare : Byte → Byte) (window : Window) : Window :=
  refillLoop prepare window.d32 window.bitsLeft window.curUint8 window.curBitsLeft
    (32 - window.bitsLeft) window.input

/-- `d32 <<= count; bits_left -= count`. -/
def consume (window : Window) (count : Nat) : Window :=
  { window with d32 := window.d32 <<< count, bitsLeft := window.bitsLeft - count }

/-- The window spells the first 32 bits that are still to be read, or all of them. -/
structure Ready (prepare : Byte → Byte) (window : Window) (bits : List Bool) : Prop where
  d32 : Spells window.d32 (bits.take 32)
  bitsLeft : window.bitsLeft = (bits.take 32).length
  behind : ∃ current, (current ≠ [] → Spells window.curUint8 current) ∧
    window.curBitsLeft = current.length ∧
    bits.drop 32 = current ++ bytesToBits (window.input.map prepare)

section Refill

variable (prepare : Byte → Byte) {d32 : BitVec 32} {curUint8 : Byte}
  {loaded current : List Bool}

private theorem ready_of_full (spells : Spells d32 loaded)
    (behind : current ≠ [] → Spells curUint8 current) (full : loaded.length = 32)
    (input : List Byte) :
    Ready prepare ⟨d32, 32, curUint8, current.length, input⟩
      (loaded ++ current ++ bytesToBits (input.map prepare)) := by
  rw [List.append_assoc]
  have first : (loaded ++ (current ++ bytesToBits (input.map prepare))).take 32 = loaded := by
    rw [List.take_append_of_le_length (by omega), List.take_of_length_le (by omega)]
  have rest : (loaded ++ (current ++ bytesToBits (input.map prepare))).drop 32 =
      current ++ bytesToBits (input.map prepare) := by
    rw [List.drop_append_of_le_length (by omega), List.drop_of_length_le (by omega),
      List.nil_append]
  refine ⟨?_, ?_, current, behind, rfl, rest⟩
  · rw [first]
    exact spells
  · rw [first, full]
    rfl

private theorem loadCurrent_ready (spells : Spells d32 loaded) (full : loaded.length = 32)
    (stale : Byte) (input : List Byte) :
    Ready prepare (loadCurrent prepare d32 32 stale input)
      (loaded ++ bytesToBits (input.map prepare)) := by
  cases input with
  | nil =>
    have nothing : ([] : List Bool) ≠ [] → Spells stale [] := fun absurd => (absurd rfl).elim
    simpa [loadCurrent] using ready_of_full prepare spells nothing full []
  | cons byte input =>
    have ready := ready_of_full prepare spells
      (fun _ => spells_byte (prepare byte)) full input
    simpa [loadCurrent, List.append_assoc] using ready

private theorem ready_of_exhausted (spells : Spells d32 loaded) (stale : Byte) :
    Ready prepare ⟨d32, loaded.length, stale, 0, []⟩ loaded := by
  have fits := spells.fits
  have first : loaded.take 32 = loaded := List.take_of_length_le fits
  refine ⟨by rw [first]; exact spells, by rw [first], [], fun absurd => (absurd rfl).elim, rfl, ?_⟩
  rw [List.drop_of_length_le fits]
  rfl

/-- The window after its first loads, which stop at its end or at the end of the input. -/
theorem loadCurrent_run (spells : Spells d32 loaded) (stale : Byte) {input : List Byte}
    (stops : input = [] ∨ loaded.length = 32) :
    Ready prepare (loadCurrent prepare d32 loaded.length stale input)
      (loaded ++ bytesToBits (input.map prepare)) := by
  rcases stops with rfl | full
  · simpa [loadCurrent] using ready_of_exhausted prepare spells stale
  · rw [full]
    exact loadCurrent_ready prepare spells full stale input

private theorem fill_spells (spells : Spells d32 loaded)
    (behind : current ≠ [] → Spells curUint8 current) {count : Nat} (positive : 0 < count)
    (enough : count ≤ current.length) (fills : loaded.length + count = 32) :
    Spells (d32 ||| (curUint8 >>> (8 - count)).setWidth 32) (loaded ++ current.take count) := by
  have nonempty : current ≠ [] := by
    rintro rfl
    simp only [List.length_nil] at enough
    omega
  have appended := spells.append (behind nonempty) count enough (by omega)
  have none : 32 - loaded.length - count = 0 := by omega
  simpa [none] using appended

/-- The current byte, or what is left of it, moved behind the window's bits. -/
private def moved (d32 : BitVec 32) (curUint8 : Byte) (loaded current : List Bool) : BitVec 32 :=
  if (current.length : Int) ≠ 0 then
    d32 ||| (curUint8 >>> (8 - (current.length : Int)).toNat).setWidth 32 <<<
      (32 - (loaded.length : Int) - current.length).toNat
  else d32

private theorem moved_spells (spells : Spells d32 loaded)
    (behind : current ≠ [] → Spells curUint8 current)
    (room : loaded.length + current.length ≤ 32) :
    Spells (moved d32 curUint8 loaded current) (loaded ++ current) := by
  unfold moved
  by_cases empty : current = []
  · subst empty
    simpa using spells
  · have positive : current.length ≠ 0 := by simpa using empty
    have appended := spells.append (behind empty) current.length (Nat.le_refl _) room
    have outer : (32 - (loaded.length : Int) - current.length).toNat =
        32 - loaded.length - current.length := by omega
    have inner : (8 - (current.length : Int)).toNat = 8 - current.length := by omega
    rw [if_pos (by omega), outer, inner]
    simpa using appended

private theorem refillLoop_short (short : loaded.length + current.length < 32)
    (input : List Byte) :
    refillLoop prepare d32 loaded.length curUint8 current.length (32 - loaded.length) input =
      match input with
      | [] => ⟨moved d32 curUint8 loaded current, (loaded ++ current).length, curUint8, 0, []⟩
      | byte :: rest =>
        refillLoop prepare (moved d32 curUint8 loaded current) (loaded ++ current).length
          (prepare byte) 8 (32 - (loaded ++ current).length) rest := by
  have room : ¬ (32 - (loaded.length : Int) = 0) := by omega
  have shorter : (current.length : Int) < 32 - loaded.length := by omega
  have length : (if (current.length : Int) ≠ 0 then (loaded.length : Int) + current.length
      else loaded.length) = (loaded ++ current).length := by
    rw [List.length_append]
    split <;> omega
  have left : (if (current.length : Int) ≠ 0 then 32 - (loaded.length : Int) - current.length
      else 32 - loaded.length) = 32 - (loaded ++ current).length := by
    split <;> omega
  rw [refillLoop]
  simp only [room, shorter, if_true, if_false, length, left]
  cases input <;> rfl

private theorem refillLoop_long (spells : Spells d32 loaded)
    (behind : current ≠ [] → Spells curUint8 current) (room : loaded.length < 32)
    (enough : 32 ≤ loaded.length + current.length) (input : List Byte) :
    Ready prepare (refillLoop prepare d32 loaded.length curUint8 current.length
      (32 - loaded.length) input) (loaded ++ current ++ bytesToBits (input.map prepare)) := by
  have positive : ¬ (32 - (loaded.length : Int) = 0) := by omega
  have longer : ¬ (current.length : Int) < 32 - loaded.length := by omega
  have nonempty : current ≠ [] := by
    rintro rfl
    simp only [List.length_nil] at enough
    omega
  have count : (32 - (loaded.length : Int)).toNat = 32 - loaded.length := by omega
  have shift : (8 - (32 - (loaded.length : Int))).toNat = 8 - (32 - loaded.length) := by
    omega
  have filled := fill_spells spells behind (by omega)
    (show 32 - loaded.length ≤ current.length by omega) (by omega)
  have full : (loaded ++ current.take (32 - loaded.length)).length = 32 := by
    simp only [List.length_append, List.length_take]
    omega
  rw [refillLoop]
  simp only [positive, longer, if_false, count, shift]
  split
  · have rest := ready_of_full prepare filled
      (fun _ => (behind nonempty).shiftLeft (32 - loaded.length)) full input
    have left : ((current.drop (32 - loaded.length)).length : Int) =
        current.length - (32 - loaded.length) := by
      rw [List.length_drop]
      omega
    rw [left, List.append_assoc, List.append_assoc, ← List.append_assoc (current.take _),
      List.take_append_drop, ← List.append_assoc] at rest
    exact rest
  · have all : current.take (32 - loaded.length) = current := List.take_of_length_le (by omega)
    rw [all] at filled full
    exact loadCurrent_ready prepare filled full curUint8 input

private theorem refillLoop_ready (input : List Byte) (spells : Spells d32 loaded)
    (behind : current ≠ [] → Spells curUint8 current) :
    Ready prepare (refillLoop prepare d32 loaded.length curUint8 current.length
      (32 - loaded.length) input) (loaded ++ current ++ bytesToBits (input.map prepare)) := by
  have fits := spells.fits
  induction input generalizing d32 curUint8 loaded current with
  | nil =>
    rcases Nat.lt_or_ge loaded.length 32 with room | full
    · rcases Nat.lt_or_ge (loaded.length + current.length) 32 with short | enough
      · rw [refillLoop_short prepare short]
        simpa using ready_of_exhausted prepare (moved_spells spells behind (by omega)) curUint8
      · exact refillLoop_long prepare spells behind room enough []
    · have all : loaded.length = 32 := by omega
      have ready := ready_of_full prepare spells behind all []
      rw [all]
      exact ready
  | cons byte input ih =>
    rcases Nat.lt_or_ge loaded.length 32 with room | full
    · rcases Nat.lt_or_ge (loaded.length + current.length) 32 with short | enough
      · have moved := moved_spells spells behind (by omega)
        rw [refillLoop_short prepare short]
        have next := ih moved (fun _ => spells_byte (prepare byte)) moved.fits
        simpa [List.append_assoc] using next
      · exact refillLoop_long prepare spells behind room enough (byte :: input)
    · have all : loaded.length = 32 := by omega
      have done : (32 : Int) - loaded.length = 0 := by omega
      have ready := ready_of_full prepare spells behind all (byte :: input)
      rw [all]
      exact ready

end Refill

variable {prepare : Byte → Byte} {window : Window}

/-- Taking bits out of a window and filling it up again moves on in the input. -/
theorem Ready.consume_refill {bits : List Bool}
    (ready : Ready prepare window bits) (count : Nat) (available : count ≤ bits.length)
    (small : count ≤ 32) :
    Ready prepare ((window.consume count).refill prepare) (bits.drop count) := by
  obtain ⟨current, behind, curBitsLeft, rest⟩ := ready.behind
  have spells := ready.d32.shiftLeft count
  have length : window.bitsLeft - count = ((bits.take 32).drop count).length := by
    rw [ready.bitsLeft, List.length_drop, List.length_take]
    omega
  have refilled := refillLoop_ready prepare window.input spells behind
  rw [← length, ← curBitsLeft, List.append_assoc, ← rest,
    ← List.drop_append_of_le_length (by rw [List.length_take]; omega),
    List.take_append_drop] at refilled
  exact refilled

theorem Ready.length {bits : List Bool}
    (ready : Ready prepare window bits) : window.bitsLeft = min 32 bits.length := by
  rw [ready.bitsLeft, List.length_take]

/-- What the window spells when it holds the first of the bits to be read. -/
theorem Ready.spells_front {front rest : List Bool}
    (ready : Ready prepare window (front ++ rest)) (small : front.length ≤ 32) :
    Spells window.d32 (front ++ rest.take (32 - front.length)) := by
  have spells := ready.d32
  rw [List.take_append, List.take_of_length_le small] at spells
  exact spells

/-- What the window spells when the bits to be read start with two fields. -/
theorem Ready.spells_fields {rest : List Bool}
    {width value next field : Nat}
    (ready : Ready prepare window (bitsOf width value ++ (bitsOf next field ++ rest)))
    (small : width + next ≤ 32) :
    Spells window.d32
      (bitsOf width value ++ (bitsOf next field ++ rest.take (32 - width - next))) := by
  have spells := ready.d32
  rw [List.take_append, List.take_append, length_bitsOf, length_bitsOf,
    List.take_of_length_le (by simp; omega), List.take_of_length_le (by simp; omega)] at spells
  exact spells

/-- What the window spells when the bits to be read start with a field. -/
theorem Ready.spells_field {rest : List Bool}
    {width value : Nat} (ready : Ready prepare window (bitsOf width value ++ rest))
    (small : width ≤ 32) :
    Spells window.d32 (bitsOf width value ++ rest.take (32 - width)) := by
  have fields := @Ready.spells_fields prepare window rest width value 0 0 ready (by omega)
  simpa using fields

theorem consume_consume (window : Window) (first second : Nat) :
    (window.consume first).consume second = window.consume (first + second) := by
  simp only [consume, BitVec.shiftLeft_add]
  have total : window.bitsLeft - first - second = window.bitsLeft - ↑(first + second) := by omega
  rw [total]

private theorem loadFirst_ready (count : Nat) (input : List Byte) {d32 : BitVec 32}
    {loaded : List Bool} (spells : Spells d32 loaded) (room : loaded.length + 8 * count = 32) :
    Ready id (loadFirst count d32 loaded.length input) (loaded ++ bytesToBits input) := by
  induction count generalizing input d32 loaded with
  | zero =>
    have full : loaded.length = 32 := by omega
    have ready := loadCurrent_ready id spells full 0 input
    rw [List.map_id] at ready
    rw [full]
    exact ready
  | succ count ih =>
    cases input with
    | nil => simpa [loadFirst, loadCurrent] using ready_of_exhausted id spells 0
    | cons byte rest =>
      have appended := spells.append (spells_byte byte) 8 (by simp) (by omega)
      have place : 32 - loaded.length - 8 = 8 * count := by omega
      have whole : (bitsOf 8 byte.toNat).take 8 = bitsOf 8 byte.toNat :=
        List.take_of_length_le (by simp)
      rw [place, whole, Nat.sub_self, BitVec.ushiftRight_zero] at appended
      have next := ih rest appended (by simp; omega)
      simpa [loadFirst, List.append_assoc] using next

theorem start_ready (cbuf : List Byte) : Ready id (start cbuf) (bytesToBits cbuf) :=
  loadFirst_ready 4 cbuf (spells_zero 32) rfl

end Window

end Redemption.Mppc
