import Redemption.Foundation.Region
import Redemption.Foundation.ByteStream

/-! Frames of a web socket, unmasked in place and moved together in the buffer they came in. -/
namespace Redemption.Transport

open Redemption.Foundation

/-- The bytes of `mask`. -/
structure MaskingKey where
  k0 : Byte
  k1 : Byte
  k2 : Byte
  k3 : Byte
  deriving DecidableEq, Repr

/-- The states in which an error leaves the transport. -/
inductive WsState where
  | closed
  | error
  deriving DecidableEq, Repr

inductive WsError where
  | transportReadFailed
  | transportNoMoreData
  deriving DecidableEq, Repr

/-- What ends a read: an error, a failed assertion, or no more steps to go. -/
inductive WsStop where
  | thrown (error : WsError) (state : WsState)
  | assertion
  | running
  deriving DecidableEq, Repr

/-- `ProtocolParseClientResult`: of a frame the place and the length of its data. -/
inductive ParsedFrame (size : Nat) where
  | close
  | unsupportedPartialHeader
  | unsupported64BitsPayloadLen
  | unsupportedPartialData
  | ok (first length : Nat) (buffer : Buffer Byte size)

variable {size : Nat}

/-- `*first ^= mask[n]`. -/
def xorAt (buffer : Buffer Byte size) (index : Nat) (key : Byte) :
    Checked WsStop (Buffer Byte size) := do
  let value ← buffer.load index
  buffer.store index (value ^^^ key)

/-- The loop of `ws_protocol_parse_client`, four bytes a turn. -/
def unmaskBlocks (mask : MaskingKey) :
    Nat → Nat → Buffer Byte size → Checked WsStop (Buffer Byte size)
  | 0, _, buffer => .ok buffer
  | blocks + 1, first, buffer => do
    let buffer ← xorAt buffer first mask.k0
    let buffer ← xorAt buffer (first + 1) mask.k1
    let buffer ← xorAt buffer (first + 2) mask.k2
    let buffer ← xorAt buffer (first + 3) mask.k3
    unmaskBlocks mask blocks (first + 4) buffer

/-- A `case` with those above it falling through. -/
def unmaskCase (count case index : Nat) (key : Byte) (buffer : Buffer Byte size) :
    Checked WsStop (Buffer Byte size) :=
  if case ≤ count then xorAt buffer index key else .ok buffer

/-- The `switch` behind the loop. -/
def unmaskRest (mask : MaskingKey) (count first : Nat) (buffer : Buffer Byte size) :
    Checked WsStop (Buffer Byte size) := do
  let buffer ← unmaskCase count 3 (first + 2) mask.k2 buffer
  let buffer ← unmaskCase count 2 (first + 1) mask.k1 buffer
  unmaskCase count 1 first mask.k0 buffer

/-- `ws_protocol_parse_client` from the mask on. -/
def unmaskFrame (buffer : Buffer Byte size) (data pos payloadLength : Nat) :
    Checked WsStop (ParsedFrame size) := do
  let k0 ← buffer.load (data + pos)
  let k1 ← buffer.load (data + pos + 1)
  let k2 ← buffer.load (data + pos + 2)
  let k3 ← buffer.load (data + pos + 3)
  let mask : MaskingKey := ⟨k0, k1, k2, k3⟩
  let first := data + pos + 4
  if size - data - (pos + 4) < payloadLength then .ok .unsupportedPartialData
  else do
    let buffer ← unmaskBlocks mask (payloadLength / 4) first buffer
    let buffer ← unmaskRest mask (payloadLength % 4) (first + payloadLength / 4 * 4) buffer
    .ok (.ok first payloadLength buffer)

/-- The conditions of the assertions. -/
def isAsserted (b0 b1 : Byte) : Bool := b0 &&& 0xF == 2 && b0 >>> 7 == 1 && b1 >>> 7 == 1

/-- `ws_protocol_parse_client`, built with assertions or without. -/
def wsProtocolParseClient (asserts : Bool) (buffer : Buffer Byte size) (data : Nat) :
    Checked WsStop (ParsedFrame size) := do
  if size - data < 8 then
    if data = size then .ok .unsupportedPartialHeader
    else do
      let b0 ← buffer.load data
      .ok (if b0 &&& 0xF = 8 then .close else .unsupportedPartialHeader)
  else do
    let b0 ← buffer.load data
    let b1 ← buffer.load (data + 1)
    let lengthField := b1 &&& 0x7F
    if b0 &&& 0xF = 8 then .ok .close
    else if asserts && !isAsserted b0 b1 then .error (.raised .assertion)
    else if lengthField.toNat ≤ 125 then unmaskFrame buffer data 2 lengthField.toNat
    else if lengthField.toNat = 126 then do
      let high ← buffer.load (data + 2)
      let low ← buffer.load (data + 3)
      unmaskFrame buffer data 4 (high.toNat <<< 8 ||| low.toNat)
    else .ok .unsupported64BitsPayloadLen

/-- The loop of `do_partial_read` over the bytes that came in. -/
def readFrames (asserts : Bool) :
    Nat → Buffer Byte size → Nat → Nat → Checked WsStop (Nat × Buffer Byte size)
  | 0, _, _, _ => .error (.raised .running)
  | steps + 1, buffer, data, res =>
    if data = size then .ok (res, buffer)
    else do
      match ← wsProtocolParseClient asserts buffer data with
      | .close => .error (.raised (.thrown .transportNoMoreData .closed))
      | .ok first length buffer => do
        let payload ← buffer.loadBlock first length
        let buffer ← buffer.storeBlock res payload
        readFrames asserts steps buffer (first + length) (res + length)
      | _ => .error (.raised (.thrown .transportReadFailed .error))

/-- `WsTransport::do_partial_read` in the state `Ws`, of bytes that a socket gave. -/
def doPartialRead (asserts : Bool) (buffer : Buffer Byte size) :
    Checked WsStop (Nat × Buffer Byte size) :=
  readFrames asserts (size + 1) buffer 0 0

namespace MaskingKey

/-- The byte of the key for a position. -/
def byte (mask : MaskingKey) (position : Nat) : Byte :=
  match position % 4 with
  | 0 => mask.k0
  | 1 => mask.k1
  | 2 => mask.k2
  | _ => mask.k3

/-- Every byte with that of its position. -/
def apply (mask : MaskingKey) (payload : List Byte) : List Byte :=
  payload.mapIdx fun position value => value ^^^ mask.byte position

def bytes (mask : MaskingKey) : List Byte := [mask.k0, mask.k1, mask.k2, mask.k3]

theorem length_apply (mask : MaskingKey) (payload : List Byte) :
    (mask.apply payload).length = payload.length := List.length_mapIdx

theorem apply_apply (mask : MaskingKey) (payload : List Byte) :
    mask.apply (mask.apply payload) = payload := by
  apply List.ext_getElem (by rw [length_apply, length_apply])
  intro position _ _
  simp only [apply, List.getElem_mapIdx]
  rw [BitVec.xor_assoc, BitVec.xor_self, BitVec.xor_zero]

end MaskingKey

section Unmask

variable {mask : MaskingKey} {start : Nat} {buffer second third : Buffer Byte size}
  {inside inside' : Nat → Prop}

/-- Some cells are unmasked by their distance from the start, the others are as they were. -/
def Unmasks (mask : MaskingKey) (start : Nat) (inside : Nat → Prop)
    (before after : Buffer Byte size) : Prop :=
  ∀ index, (inside index → after.cell index = before.cell index ^^^ mask.byte (index - start)) ∧
    (¬inside index → after.cell index = before.cell index)

theorem Unmasks.trans (one : Unmasks mask start inside buffer second)
    (two : Unmasks mask start inside' second third)
    (apart : ∀ index, inside index → ¬inside' index) :
    Unmasks mask start (fun index => inside index ∨ inside' index) buffer third := by
  intro index
  constructor
  · rintro (here | here)
    · rw [(two index).2 (apart index here), (one index).1 here]
    · have not : ¬inside index := fun there => apart index there here
      rw [(two index).1 here, (one index).2 not]
  · intro none
    rw [(two index).2 (fun here => none (.inr here)), (one index).2 (fun here => none (.inl here))]

theorem Unmasks.congr (unmasks : Unmasks mask start inside buffer second)
    (same : ∀ index, inside index ↔ inside' index) : Unmasks mask start inside' buffer second := by
  intro index
  rw [← same]
  exact unmasks index

theorem xorAt_unmasks {index : Nat} (bounded : index < size) {key : Byte}
    (position : mask.byte (index - start) = key) :
    ∃ after, xorAt buffer index key = .ok after ∧ Unmasks mask start (· = index) buffer after := by
  refine ⟨buffer.set index (buffer.cell index ^^^ key), ?_, ?_⟩
  · rw [xorAt, Buffer.load_of_lt _ bounded, ok_bind, Buffer.store_of_lt _ bounded]
  · intro other
    constructor
    · rintro rfl
      rw [Buffer.cell_set_same, position]
    · intro different
      exact Buffer.cell_set_other buffer _ different

theorem unmasks_none (none : ∀ index, ¬inside index) (buffer : Buffer Byte size) :
    Unmasks mask start inside buffer buffer :=
  fun index => ⟨fun here => absurd here (none index), fun _ => rfl⟩

theorem byte_shift (mask : MaskingKey) {first : Nat} (aligned : ∃ done, first = start + 4 * done)
    (offset : Nat) : mask.byte (first + offset - start) = mask.byte offset := by
  obtain ⟨done, rfl⟩ := aligned
  have same : start + 4 * done + offset - start = 4 * done + offset := by omega
  rw [MaskingKey.byte, MaskingKey.byte, same, Nat.mul_add_mod]

theorem unmaskBlocks_unmasks {blocks first : Nat} (bounded : first + 4 * blocks ≤ size)
    (aligned : ∃ done, first = start + 4 * done) (buffer : Buffer Byte size) :
    ∃ after, unmaskBlocks mask blocks first buffer = .ok after ∧
      Unmasks mask start (fun index => first ≤ index ∧ index < first + 4 * blocks) buffer after := by
  induction blocks generalizing first buffer with
  | zero => exact ⟨buffer, rfl, unmasks_none (by omega) buffer⟩
  | succ blocks ih =>
    have position := byte_shift mask aligned
    obtain ⟨one, run1, unmasks1⟩ :=
      @xorAt_unmasks _ mask start buffer first (by omega) mask.k0 (position 0)
    obtain ⟨two, run2, unmasks2⟩ :=
      @xorAt_unmasks _ mask start one (first + 1) (by omega) mask.k1 (position 1)
    obtain ⟨three, run3, unmasks3⟩ :=
      @xorAt_unmasks _ mask start two (first + 2) (by omega) mask.k2 (position 2)
    obtain ⟨four, run4, unmasks4⟩ :=
      @xorAt_unmasks _ mask start three (first + 3) (by omega) mask.k3 (position 3)
    obtain ⟨done, place⟩ := aligned
    obtain ⟨after, run, unmasks⟩ := @ih (first + 4) (by omega) ⟨done + 1, by omega⟩ four
    refine ⟨after, ?_, ?_⟩
    · rw [unmaskBlocks, run1, ok_bind, run2, ok_bind, run3, ok_bind, run4, ok_bind, run]
    · refine Unmasks.congr ((((unmasks1.trans unmasks2 ?_).trans unmasks3 ?_).trans unmasks4 ?_).trans
        unmasks ?_) ?_
      all_goals omega

theorem unmaskRest_unmasks {count first : Nat} (few : count < 4) (bounded : first + count ≤ size)
    (aligned : ∃ done, first = start + 4 * done) (buffer : Buffer Byte size) :
    ∃ after, unmaskRest mask count first buffer = .ok after ∧
      Unmasks mask start (fun index => first ≤ index ∧ index < first + count) buffer after := by
  have position := byte_shift mask aligned
  have step (offset : Nat) (key : Byte) (same : mask.byte offset = key) (buffer : Buffer Byte size) :
      ∃ after, unmaskCase count (offset + 1) (first + offset) key buffer = .ok after ∧
        Unmasks mask start (fun index => offset + 1 ≤ count ∧ index = first + offset) buffer after := by
    by_cases some : offset + 1 ≤ count
    · obtain ⟨after, run, unmasks⟩ :=
        @xorAt_unmasks _ mask start buffer (first + offset) (by omega) key ((position offset).trans same)
      exact ⟨after, by rw [unmaskCase, if_pos some, run], unmasks.congr fun index => by omega⟩
    · exact ⟨buffer, if_neg some, unmasks_none (by omega) buffer⟩
  obtain ⟨one, run1, unmasks1⟩ := step 2 mask.k2 rfl buffer
  obtain ⟨two, run2, unmasks2⟩ := step 1 mask.k1 rfl one
  obtain ⟨after, run3, unmasks3⟩ := step 0 mask.k0 rfl two
  refine ⟨after, ?_, ?_⟩
  · rw [unmaskRest, run1, ok_bind, run2, ok_bind]
    exact run3
  · refine ((unmasks1.trans unmasks2 ?_).trans unmasks3 ?_).congr ?_
    all_goals omega

end Unmask

section Stands

variable {buffer : Buffer Byte size} {data : Nat} {value : Byte} {bytes front rest : List Byte}

/-- Bytes stand in a buffer, up to its end. -/
def Stands (buffer : Buffer Byte size) (data : Nat) (bytes : List Byte) : Prop :=
  data + bytes.length = size ∧ buffer.slice data bytes.length = bytes

theorem Stands.append (stands : Stands buffer data (front ++ rest)) :
    buffer.slice data front.length = front ∧ Stands buffer (data + front.length) rest := by
  obtain ⟨places, same⟩ := stands
  rw [List.length_append] at places same
  rw [Buffer.slice_append] at same
  obtain ⟨left, right⟩ := List.append_inj same (Buffer.length_slice _ _ _)
  exact ⟨left, by omega, right⟩

theorem Stands.cons (stands : Stands buffer data (value :: rest)) :
    (buffer.load data : Checked WsStop Byte) = .ok value ∧ Stands buffer (data + 1) rest := by
  have places := stands.1
  obtain ⟨head, tail⟩ := @Stands.append _ buffer data [value] rest stands
  refine ⟨?_, tail⟩
  rw [Buffer.load_of_lt _ (by rw [List.length_cons] at places; omega)]
  exact congrArg Except.ok (List.cons.inj head).1

theorem Stands.frame {after : Buffer Byte size} {start stop : Nat} (stands : Stands buffer data bytes)
    (agrees : buffer.AgreesOutside after start stop) (before : stop ≤ data) :
    Stands after data bytes :=
  ⟨stands.1, (agrees.slice_after before _).trans stands.2⟩

/-- A mask and data: the data is unmasked where it stands, if it is there. -/
theorem unmaskFrame_eq {pos payloadLength : Nat} {mask : MaskingKey}
    (stands : Stands buffer (data + pos) (mask.bytes ++ rest)) :
    if rest.length < payloadLength then
      unmaskFrame buffer data pos payloadLength = .ok .unsupportedPartialData
    else ∃ after,
      unmaskFrame buffer data pos payloadLength =
        .ok (.ok (data + pos + 4) payloadLength after) ∧
      after.slice (data + pos + 4) payloadLength = mask.apply (rest.take payloadLength) ∧
      buffer.AgreesOutside after (data + pos + 4) (data + pos + 4 + payloadLength) := by
  obtain ⟨load0, stands⟩ := stands.cons
  obtain ⟨load1, stands⟩ := stands.cons
  obtain ⟨load2, stands⟩ := stands.cons
  obtain ⟨load3, stands⟩ := stands.cons
  change Stands buffer (data + pos + 4) rest at stands
  have places := stands.1
  have left : size - data - (pos + 4) = rest.length := by omega
  rw [unmaskFrame, load0, ok_bind, load1, ok_bind, load2, ok_bind, load3, ok_bind]
  simp only [left]
  split
  · rfl
  · generalize data + pos + 4 = first at stands places ⊢
    obtain ⟨one, run1, unmasks1⟩ :=
      @unmaskBlocks_unmasks _ mask first (payloadLength / 4) first (by omega) ⟨0, rfl⟩ buffer
    obtain ⟨after, run2, unmasks2⟩ :=
      @unmaskRest_unmasks _ mask first (payloadLength % 4) (first + payloadLength / 4 * 4)
        (Nat.mod_lt _ (by decide)) (by omega) ⟨payloadLength / 4, by omega⟩ one
    have unmasks : Unmasks mask first (fun index => first ≤ index ∧ index < first + payloadLength)
        buffer after := (unmasks1.trans unmasks2 (by omega)).congr (by omega)
    refine ⟨after, ?_, ?_, ?_⟩
    · rw [run1, ok_bind, run2, ok_bind]
    · obtain ⟨_, same⟩ := stands
      apply List.ext_getElem
      · rw [Buffer.length_slice, MaskingKey.length_apply, List.length_take]
        omega
      · intro index bounded _
        rw [Buffer.length_slice] at bounded
        have value : buffer.cell (first + index) = rest[index] := by
          have found := Buffer.cell_of_slice same (by omega : index < rest.length)
          rw [List.getElem?_eq_getElem (by omega)] at found
          exact (Option.some.inj found).symm
        simp only [Buffer.getElem_slice, MaskingKey.apply, List.getElem_mapIdx, List.getElem_take]
        rw [(unmasks (first + index)).1 (by omega), value, Nat.add_sub_cancel_left]
    · intro index outside
      exact (unmasks index).2 (by omega)

end Stands

/-- A frame as a client may send it, of data up to a 16 bit length. -/
structure Frame where
  first : Byte
  masked : Bool
  wide : Bool
  mask : MaskingKey
  payload : List Byte
  deriving DecidableEq

namespace Frame

variable {frame : Frame}

/-- The second byte, and the length where it is not in there. -/
def lengthBytes (frame : Frame) : List Byte :=
  let high : Byte := if frame.masked then 0x80 else 0
  if frame.wide then
    [high ||| 126, BitVec.ofNat 8 (frame.payload.length / 256), BitVec.ofNat 8 frame.payload.length]
  else [high ||| BitVec.ofNat 8 frame.payload.length]

def bytes (frame : Frame) : List Byte :=
  frame.first :: (frame.lengthBytes ++ (frame.mask.bytes ++ frame.mask.apply frame.payload))

/-- The length has a place, and the frame does not close. -/
def Regular (frame : Frame) : Prop :=
  frame.first &&& 0xF ≠ 8 ∧ frame.payload.length ≤ if frame.wide then 65535 else 125

/-- What the assertions ask for. -/
def Asserted (frame : Frame) : Prop :=
  frame.first &&& 0xF = 2 ∧ frame.first >>> 7 = 1 ∧ frame.masked = true

/-- A masked and final binary frame with data of 2 to 65535 bytes, and the short form of its
length. -/
def Proper (frame : Frame) : Prop :=
  frame.first = 0x82 ∧ frame.masked = true ∧ 2 ≤ frame.payload.length ∧
    frame.payload.length ≤ 65535 ∧ (frame.wide = true ↔ 125 < frame.payload.length)

end Frame

section Parse

variable {asserts : Bool} {buffer : Buffer Byte size} {data : Nat} {b0 b1 : Byte}
  {bytes rest : List Byte}

theorem wsProtocolParseClient_long (stands : Stands buffer data (b0 :: b1 :: rest))
    (long : 6 ≤ rest.length) :
    wsProtocolParseClient asserts buffer data =
      if b0 &&& 0xF = 8 then .ok .close
      else if asserts && !isAsserted b0 b1 then .error (.raised .assertion)
      else if (b1 &&& 0x7F).toNat ≤ 125 then unmaskFrame buffer data 2 (b1 &&& 0x7F).toNat
      else if (b1 &&& 0x7F).toNat = 126 then do
        let high ← buffer.load (data + 2)
        let low ← buffer.load (data + 3)
        unmaskFrame buffer data 4 (high.toNat <<< 8 ||| low.toNat)
      else .ok .unsupported64BitsPayloadLen := by
  have places := stands.1
  rw [List.length_cons, List.length_cons] at places
  obtain ⟨load0, tail⟩ := stands.cons
  obtain ⟨load1, _⟩ := tail.cons
  rw [wsProtocolParseClient, if_neg (by omega), load0, ok_bind, load1, ok_bind]

theorem unmaskFrame_payload {pos : Nat} {mask : MaskingKey} {payload : List Byte}
    (stands : Stands buffer (data + pos) (mask.bytes ++ (mask.apply payload ++ rest))) :
    ∃ after, unmaskFrame buffer data pos payload.length =
        .ok (.ok (data + pos + 4) payload.length after) ∧
      after.slice (data + pos + 4) payload.length = payload ∧
      Stands after (data + pos + 4 + payload.length) rest ∧
      buffer.AgreesOutside after (data + pos + 4) (data + pos + 4 + payload.length) := by
  have parsed := @unmaskFrame_eq _ _ _ _ _ payload.length _ stands
  rw [if_neg (by simp [MaskingKey.length_apply])] at parsed
  obtain ⟨after, run, unmasked, agrees⟩ := parsed
  have taken : (mask.apply payload ++ rest).take payload.length = mask.apply payload :=
    List.take_left' (mask.length_apply payload)
  rw [taken, MaskingKey.apply_apply] at unmasked
  obtain ⟨_, stands⟩ := stands.append
  obtain ⟨_, stands⟩ := stands.append
  rw [MaskingKey.length_apply] at stands
  exact ⟨after, run, unmasked, stands.frame agrees (Nat.le_refl _), agrees⟩

theorem lengthField (masked : Bool) {field : Nat} (small : field ≤ 126) :
    (((if masked then 0x80 else 0) ||| BitVec.ofNat 8 field : Byte) &&& 0x7F).toNat = field ∧
      ((((if masked then 0x80 else 0) ||| BitVec.ofNat 8 field : Byte) >>> 7) == 1) = masked := by
  have table : ∀ field : Fin 127, ∀ masked : Bool,
      (((if masked then 0x80 else 0) ||| BitVec.ofNat 8 field : Byte) &&& 0x7F).toNat = field ∧
        ((((if masked then 0x80 else 0) ||| BitVec.ofNat 8 field : Byte) >>> 7) == 1) = masked := by
    decide
  exact table ⟨field, by omega⟩ masked

theorem wideLength {length : Nat} (small : length ≤ 65535) :
    (BitVec.ofNat 8 (length / 256)).toNat <<< 8 ||| (BitVec.ofNat 8 length).toNat = length := by
  rw [BitVec.toNat_ofNat, BitVec.toNat_ofNat, ← Nat.shiftLeft_add_eq_or_of_lt (by omega),
    Nat.shiftLeft_eq]
  omega

theorem wsProtocolParseClient_frame {frame : Frame} (regular : frame.Regular)
    (asserted : asserts = true → frame.Asserted)
    (stands : Stands buffer data (frame.bytes ++ rest))
    (long : 8 ≤ (frame.bytes ++ rest).length) :
    ∃ first after, wsProtocolParseClient asserts buffer data =
        .ok (.ok first frame.payload.length after) ∧ data + 6 ≤ first ∧
      after.slice first frame.payload.length = frame.payload ∧
      Stands after (first + frame.payload.length) rest ∧
      buffer.AgreesOutside after first (first + frame.payload.length) := by
  obtain ⟨opens, fits⟩ := regular
  obtain ⟨b0, masked, wide, mask, payload⟩ := frame
  change payload.length ≤ if wide then 65535 else 125 at fits
  have checked (field : Nat) (small : field ≤ 126) : (asserts && !isAsserted b0
      ((if masked then 0x80 else 0) ||| BitVec.ofNat 8 field)) = false := by
    cases asserts with
    | false => rfl
    | true =>
      obtain ⟨binary, fin, mask⟩ := asserted rfl
      change masked = true at mask
      rw [isAsserted, (lengthField masked small).2, binary, fin, mask]
      rfl
  cases wide with
  | true =>
    change Stands buffer data (b0 :: ((if masked then 0x80 else 0) ||| BitVec.ofNat 8 126) ::
      BitVec.ofNat 8 (payload.length / 256) :: BitVec.ofNat 8 payload.length ::
        ((mask.bytes ++ mask.apply payload) ++ rest)) at stands
    obtain ⟨_, tail⟩ := stands.cons
    obtain ⟨_, tail⟩ := tail.cons
    obtain ⟨high, tail⟩ := tail.cons
    obtain ⟨low, tail⟩ := tail.cons
    obtain ⟨after, run, unmasked, stands', agrees⟩ := @unmaskFrame_payload _ _ data _ 4 _ _ tail
    refine ⟨_, after, ?_, by omega, unmasked, stands', agrees⟩
    have field := (lengthField masked (by decide : 126 ≤ 126)).1
    rw [wsProtocolParseClient_long stands (by simp [MaskingKey.bytes]), if_neg opens,
      checked 126 (by decide), if_neg Bool.false_ne_true, field, if_neg (by decide), if_pos rfl,
      high, ok_bind, low, ok_bind, wideLength fits, run]
  | false =>
    rw [if_neg Bool.false_ne_true] at fits
    change Stands buffer data (b0 :: ((if masked then 0x80 else 0) |||
      BitVec.ofNat 8 payload.length) :: ((mask.bytes ++ mask.apply payload) ++ rest)) at stands
    obtain ⟨_, tail⟩ := stands.cons
    obtain ⟨_, tail⟩ := tail.cons
    obtain ⟨after, run, unmasked, stands', agrees⟩ := @unmaskFrame_payload _ _ data _ 2 _ _ tail
    refine ⟨_, after, ?_, by omega, unmasked, stands', agrees⟩
    have field := (lengthField masked (by omega : payload.length ≤ 126)).1
    rw [wsProtocolParseClient_long stands (Nat.le_of_add_le_add_right (b := 2) long), if_neg opens,
      checked _ (by omega), if_neg Bool.false_ne_true, field, if_pos fits, run]

/-- Eight bytes of which the first two do not hold what the assertions ask for. -/
def Unasserted (tail : List Byte) : Prop :=
  8 ≤ tail.length ∧ ∃ b0 b1 rest, tail = b0 :: b1 :: rest ∧ b0 &&& 0xF ≠ 8 ∧
    isAsserted b0 b1 = false

/-- Where these bytes stand, the parse ends in an error or a close. -/
def Refused (asserts : Bool) (tail : List Byte) : Prop :=
  ∀ {size : Nat} (buffer : Buffer Byte size) (data : Nat), Stands buffer data tail →
    ∃ parsed, wsProtocolParseClient asserts buffer data = .ok parsed ∧
      ∀ first length after, parsed ≠ .ok first length after

theorem frame_of_field (b1 : Byte) {field : Nat} (length : (b1 &&& 0x7F).toNat = field) :
    b1 = (if b1 >>> 7 == 1 then 0x80 else 0) ||| BitVec.ofNat 8 field := by
  subst length
  revert b1
  decide

theorem asserted_of_isAsserted {b0 b1 : Byte} (holds : isAsserted b0 b1 = true) (wide : Bool)
    (mask : MaskingKey) (payload : List Byte) :
    (⟨b0, b1 >>> 7 == 1, wide, mask, payload⟩ : Frame).Asserted := by
  simp only [isAsserted, Bool.and_eq_true, beq_iff_eq] at holds
  obtain ⟨⟨binary, fin⟩, masked⟩ := holds
  exact ⟨binary, fin, beq_iff_eq.mpr masked⟩

/-- What is behind a mask is cut short, or it is the data of a frame. -/
theorem refused_or_frame {frame : List Byte → Frame} {header body : List Byte} {mask : MaskingKey}
    {length : Nat}
    (parse : ∀ {size : Nat} (buffer : Buffer Byte size) (data : Nat),
      Stands buffer data (header ++ (mask.bytes ++ body)) →
        wsProtocolParseClient asserts buffer data = unmaskFrame buffer data header.length length)
    (spells : ∀ payload, payload.length = length →
      (frame payload).bytes = header ++ (mask.bytes ++ mask.apply payload)) :
    Refused asserts (header ++ (mask.bytes ++ body)) ∨ ∃ payload rest, payload.length = length ∧
      header ++ (mask.bytes ++ body) = (frame payload).bytes ++ rest := by
  by_cases cut : body.length < length
  · left
    intro size buffer data stands
    have parsed := @unmaskFrame_eq _ _ data body header.length length mask stands.append.2
    rw [if_pos cut, ← parse buffer data stands] at parsed
    exact ⟨_, parsed, nofun⟩
  · right
    have whole : (mask.apply (body.take length)).length = length := by
      rw [MaskingKey.length_apply, List.length_take]
      omega
    refine ⟨mask.apply (body.take length), body.drop length, whole, ?_⟩
    rw [spells _ whole, MaskingKey.apply_apply, List.append_assoc, List.append_assoc,
      List.take_append_drop]

theorem wide_bytes (high low : Byte) :
    BitVec.ofNat 8 ((high.toNat <<< 8 ||| low.toNat) / 256) = high ∧
      BitVec.ofNat 8 (high.toNat <<< 8 ||| low.toNat) = low ∧
        (high.toNat <<< 8 ||| low.toNat) ≤ 65535 := by
  rw [← Nat.shiftLeft_add_eq_or_of_lt low.isLt, Nat.shiftLeft_eq]
  refine ⟨?_, ?_, by omega⟩
  · apply BitVec.eq_of_toNat_eq
    rw [BitVec.toNat_ofNat]
    omega
  · apply BitVec.eq_of_toNat_eq
    rw [BitVec.toNat_ofNat]
    omega

theorem parse_cases (asserts : Bool) (some : bytes ≠ []) :
    (∃ frame rest, bytes = Frame.bytes frame ++ rest ∧ frame.Regular ∧
      (asserts = true → frame.Asserted) ∧ 8 ≤ bytes.length) ∨
    (asserts = true ∧ Unasserted bytes) ∨ Refused asserts bytes := by
  by_cases long : 8 ≤ bytes.length
  · match bytes, long with
    | b0 :: b1 :: b2 :: b3 :: b4 :: b5 :: b6 :: b7 :: more, long =>
      have six : 6 ≤ (b2 :: b3 :: b4 :: b5 :: b6 :: b7 :: more).length := by simp
      by_cases closes : b0 &&& 0xF = 8
      · refine .inr (.inr fun buffer data stands => ⟨.close, ?_, nofun⟩)
        rw [wsProtocolParseClient_long stands six, if_pos closes]
      by_cases fails : (asserts && !isAsserted b0 b1) = true
      · simp only [Bool.and_eq_true, Bool.not_eq_true'] at fails
        exact .inr (.inl ⟨fails.1, long, b0, b1, _, rfl, closes, fails.2⟩)
      have asserted (on : asserts = true) : isAsserted b0 b1 = true := by
        rw [on] at fails
        simpa using fails
      by_cases short : (b1 &&& 0x7F).toNat ≤ 125
      · rcases @refused_or_frame asserts (⟨b0, b1 >>> 7 == 1, false, ⟨b2, b3, b4, b5⟩, ·⟩) [b0, b1]
          (b6 :: b7 :: more) ⟨b2, b3, b4, b5⟩ (b1 &&& 0x7F).toNat
          (fun buffer data stands => by
            rw [wsProtocolParseClient_long stands six, if_neg closes, if_neg fails, if_pos short]
            rfl)
          (fun payload length =>
            congrArg (b0 :: · :: _) (frame_of_field b1 length.symm).symm) with refused | ⟨payload, rest, length, parts⟩
        · exact .inr (.inr refused)
        · exact .inl ⟨_, rest, parts, ⟨closes, length.trans_le short⟩,
            fun on => asserted_of_isAsserted (asserted on) _ _ _, long⟩
      by_cases wide : (b1 &&& 0x7F).toNat = 126
      · obtain ⟨top, bottom, most⟩ := wide_bytes b2 b3
        rcases @refused_or_frame asserts (⟨b0, b1 >>> 7 == 1, true, ⟨b4, b5, b6, b7⟩, ·⟩)
          [b0, b1, b2, b3] more ⟨b4, b5, b6, b7⟩ (b2.toNat <<< 8 ||| b3.toNat)
          (fun buffer data stands => by
            obtain ⟨_, tail⟩ := stands.cons
            obtain ⟨_, tail⟩ := tail.cons
            obtain ⟨high, tail⟩ := tail.cons
            rw [wsProtocolParseClient_long stands six, if_neg closes, if_neg fails, if_neg short,
              if_pos wide, high, ok_bind, tail.cons.1, ok_bind]
            rfl)
          (fun payload length => by
            have second := frame_of_field b1 wide
            change b0 :: ((if b1 >>> 7 == 1 then 0x80 else 0) ||| BitVec.ofNat 8 126) ::
              BitVec.ofNat 8 (payload.length / 256) :: BitVec.ofNat 8 payload.length :: _ = _
            rw [← second, length, top, bottom]
            rfl) with refused | ⟨payload, rest, length, parts⟩
        · exact .inr (.inr refused)
        · exact .inl ⟨_, rest, parts, ⟨closes, length.trans_le most⟩,
            fun on => asserted_of_isAsserted (asserted on) _ _ _, long⟩
      · refine .inr (.inr fun buffer data stands => ⟨.unsupported64BitsPayloadLen, ?_, nofun⟩)
        rw [wsProtocolParseClient_long stands six, if_neg closes, if_neg fails, if_neg short,
          if_neg wide]
  · obtain ⟨b0, rest, rfl⟩ := List.exists_cons_of_ne_nil some
    refine .inr (.inr fun buffer data stands =>
      ⟨if b0 &&& 0xF = 8 then .close else .unsupportedPartialHeader, ?_, ?_⟩)
    · have places := stands.1
      rw [List.length_cons] at places long
      rw [wsProtocolParseClient, if_pos (by omega), if_neg (by omega), stands.cons.1, ok_bind]
    · intro first length after
      split <;> nofun

end Parse

section Reading

variable {asserts : Bool} {buffer : Buffer Byte size} {data steps : Nat}
  {frames : List Frame} {bytes tail out : List Byte}

/-- Frames one after another, each with eight bytes or more from where it begins. -/
def Framed (asserts : Bool) : List Frame → List Byte → List Byte → Prop
  | [], tail, bytes => bytes = tail
  | frame :: frames, tail, bytes =>
    frame.Regular ∧ (asserts = true → frame.Asserted) ∧ 8 ≤ bytes.length ∧
      ∃ rest, bytes = frame.bytes ++ rest ∧ Framed asserts frames tail rest

/-- The data so far stands in front, and not behind where the next frame begins. -/
structure Holds (buffer : Buffer Byte size) (data : Nat) (out bytes : List Byte) : Prop where
  stands : Stands buffer data bytes
  begins : buffer.Begins out
  behind : out.length ≤ data

theorem readFrames_frame {frame : Frame} {rest : List Byte}
    (holds : Holds buffer data out (frame.bytes ++ rest)) (regular : frame.Regular)
    (asserted : asserts = true → frame.Asserted) (long : 8 ≤ (frame.bytes ++ rest).length) :
    ∃ (after : Buffer Byte size) (next : Nat),
      readFrames asserts (steps + 1) buffer data out.length =
        readFrames asserts steps after next (out ++ frame.payload).length ∧
      Holds after next (out ++ frame.payload) rest := by
  obtain ⟨stands, begins, behind⟩ := holds
  obtain ⟨first, unmasked, parsed, beyond, payload, tail, agrees⟩ :=
    wsProtocolParseClient_frame regular asserted stands long
  have tailPlaces := tail.1
  have begins' : unmasked.Begins out :=
    (agrees.slice_before (by omega)).trans begins
  refine ⟨unmasked.splice out.length frame.payload, first + frame.payload.length, ?_, ?_, ?_, ?_⟩
  · rw [readFrames, if_neg (by omega), parsed, ok_bind]
    simp only
    rw [Buffer.loadBlock_of_le _ (by omega), ok_bind, payload,
      Buffer.storeBlock_of_le _ (by omega), ok_bind, List.length_append]
  · exact tail.frame (Buffer.agreesOutside_splice _ _ _) (by omega)
  · exact begins'.splice frame.payload
  · rw [List.length_append]
    omega

theorem readFrames_frames (framed : Framed asserts frames tail bytes)
    (holds : Holds buffer data out bytes) (enough : bytes.length < steps) :
    ∃ (after : Buffer Byte size) (next left : Nat),
      readFrames asserts steps buffer data out.length =
        readFrames asserts left after next (out ++ frames.flatMap Frame.payload).length ∧
      Holds after next (out ++ frames.flatMap Frame.payload) tail ∧ 0 < left := by
  induction frames generalizing buffer data out bytes steps with
  | nil =>
    have same : bytes = tail := framed
    subst same
    rw [List.flatMap_nil, List.append_nil]
    exact ⟨buffer, data, steps, rfl, holds, by omega⟩
  | cons frame frames ih =>
    obtain ⟨regular, asserted, long, rest, rfl, framed⟩ := framed
    cases steps with
    | zero => omega
    | succ steps =>
      obtain ⟨after, next, run, holds⟩ := @readFrames_frame _ _ _ _ steps _ _ _ holds regular asserted long
      have shorter : rest.length < steps := by
        rw [List.length_append] at enough
        change (_ + 1 : Nat) + _ < _ at enough
        omega
      obtain ⟨after, next, left, run', holds', more⟩ := ih framed holds shorter
      refine ⟨after, next, left, ?_, ?_, more⟩
      · rw [run, run', List.flatMap_cons, List.append_assoc]
      · rw [List.flatMap_cons, ← List.append_assoc]
        exact holds'

theorem exists_framed (asserts : Bool) (bytes : List Byte) :
    ∃ frames tail, Framed asserts frames tail bytes ∧
      (tail = [] ∨ asserts = true ∧ Unasserted tail ∨ tail ≠ [] ∧ Refused asserts tail) := by
  induction length : bytes.length using Nat.strong_induction_on generalizing bytes with
  | _ count ih =>
    subst length
    by_cases none : bytes = []
    · exact ⟨[], bytes, rfl, .inl none⟩
    rcases parse_cases asserts none with ⟨frame, rest, rfl, regular, asserted, long⟩ | stops
    · have shorter : rest.length < (frame.bytes ++ rest).length := by
        rw [List.length_append]
        change _ < (_ + 1 : Nat) + _
        omega
      obtain ⟨frames, tail, framed, stops⟩ := ih rest.length shorter rest rfl
      exact ⟨frame :: frames, tail, ⟨regular, asserted, long, rest, rfl, framed⟩, stops⟩
    · rcases stops with unasserted | refused
      · exact ⟨[], bytes, rfl, .inr (.inl unasserted)⟩
      · exact ⟨[], bytes, rfl, .inr (.inr ⟨none, refused⟩)⟩

/-- The bytes that a socket gave. -/
def received (bytes : List Byte) : Buffer Byte bytes.length := ⟨fun index => bytes.getD index 0⟩

theorem holds_received (bytes : List Byte) : Holds (received bytes) 0 [] bytes := by
  refine ⟨⟨Nat.zero_add _, ?_⟩, rfl, Nat.le_refl 0⟩
  apply Buffer.slice_eq_of_getElem
  intro index bounded
  rw [received, Nat.zero_add]
  exact (List.getElem_eq_getD 0).symm

theorem doPartialRead_framed (framed : Framed asserts frames tail bytes) :
    (tail = [] → ∃ after : Buffer Byte bytes.length, doPartialRead asserts (received bytes) =
        .ok ((frames.flatMap Frame.payload).length, after) ∧
          after.Begins (frames.flatMap Frame.payload)) ∧
      (asserts = true → Unasserted tail →
        doPartialRead asserts (received bytes) = .error (.raised .assertion)) ∧
      (tail ≠ [] → Refused asserts tail →
        ∃ error state, doPartialRead asserts (received bytes) =
          .error (.raised (.thrown error state))) := by
  obtain ⟨after, next, left, run, ⟨stands, begins, _⟩, more⟩ :=
    readFrames_frames framed (holds_received bytes) (Nat.lt_succ_self _)
  change doPartialRead asserts (received bytes) = _ at run
  obtain ⟨left, rfl⟩ := Nat.exists_eq_succ_of_ne_zero (Nat.ne_of_gt more)
  have places := stands.1
  rw [run]
  refine ⟨?_, ?_, ?_⟩
  · rintro rfl
    exact ⟨after, if_pos places, begins⟩
  · rintro on ⟨long, b0, b1, rest, rfl, opens, fails⟩
    rw [List.length_cons, List.length_cons] at places long
    rw [readFrames, if_neg (by omega), wsProtocolParseClient_long stands (by omega), if_neg opens,
      on, fails]
    rfl
  · intro some refused
    obtain ⟨parsed, parse, noFrame⟩ := refused after next stands
    have more := List.length_pos_iff.mpr some
    rw [readFrames, if_neg (by omega), parse, ok_bind]
    cases parsed with
    | ok first length buffer => exact absurd rfl (noFrame first length buffer)
    | close => exact ⟨_, _, rfl⟩
    | unsupportedPartialHeader => exact ⟨_, _, rfl⟩
    | unsupported64BitsPayloadLen => exact ⟨_, _, rfl⟩
    | unsupportedPartialData => exact ⟨_, _, rfl⟩

/-- The fields of a frame can be told from its bytes, whatever is behind. -/
theorem frame_bytes_inj {frame other : Frame} {rest rest' : List Byte} (regular : frame.Regular)
    (regular' : other.Regular) (same : frame.bytes ++ rest = other.bytes ++ rest') :
    frame = other ∧ rest = rest' := by
  obtain ⟨_, fits⟩ := regular
  obtain ⟨_, fits'⟩ := regular'
  obtain ⟨first, masked, wide, mask, payload⟩ := frame
  obtain ⟨first', masked', wide', mask', payload'⟩ := other
  have sameMask (length : payload.length = payload'.length)
      (same : (mask.bytes ++ mask.apply payload) ++ rest =
        (mask'.bytes ++ mask'.apply payload') ++ rest') :
      mask = mask' ∧ payload = payload' ∧ rest = rest' := by
    obtain ⟨both, behind⟩ := List.append_inj same (by
      rw [List.length_append, List.length_append, MaskingKey.length_apply, MaskingKey.length_apply,
        length]
      rfl)
    obtain ⟨keys, data⟩ := List.append_inj both rfl
    have sameKey : mask = mask' := by
      cases mask
      cases mask'
      cases keys
      rfl
    subst sameKey
    have back := congrArg mask.apply data
    rw [MaskingKey.apply_apply, MaskingKey.apply_apply] at back
    exact ⟨rfl, back, behind⟩
  have sameField {field field' : Nat} (small : field ≤ 126) (small' : field' ≤ 126)
      (same : ((if masked then 0x80 else 0) ||| BitVec.ofNat 8 field : Byte) =
        (if masked' then 0x80 else 0) ||| BitVec.ofNat 8 field') :
      masked = masked' ∧ field = field' := by
    obtain ⟨number, high⟩ := lengthField masked small
    obtain ⟨number', high'⟩ := lengthField masked' small'
    rw [same] at number high
    exact ⟨high.symm.trans high', number.symm.trans number'⟩
  cases wide with
  | false =>
    change payload.length ≤ 125 at fits
    cases wide' with
    | false =>
      change payload'.length ≤ 125 at fits'
      obtain ⟨sameFirst, same⟩ := List.cons.inj same
      obtain ⟨second, same⟩ := List.cons.inj same
      obtain ⟨sameMasked, length⟩ :=
        sameField (by omega : payload.length ≤ 126) (by omega : payload'.length ≤ 126) second
      obtain ⟨sameKey, data, behind⟩ := sameMask length same
      exact ⟨by rw [sameMasked, sameKey, data]; exact congrArg (Frame.mk · _ _ _ _) sameFirst, behind⟩
    | true =>
      obtain ⟨second, _⟩ := List.cons.inj (List.cons.inj same).2
      obtain ⟨_, length⟩ := sameField (by omega : payload.length ≤ 126) (Nat.le_refl 126) second
      omega
  | true =>
    cases wide' with
    | false =>
      change payload'.length ≤ 125 at fits'
      obtain ⟨second, _⟩ := List.cons.inj (List.cons.inj same).2
      obtain ⟨_, length⟩ := sameField (Nat.le_refl 126) (by omega : payload'.length ≤ 126) second
      omega
    | true =>
      obtain ⟨sameFirst, same⟩ := List.cons.inj same
      obtain ⟨second, same⟩ := List.cons.inj same
      obtain ⟨high, same⟩ := List.cons.inj same
      obtain ⟨low, same⟩ := List.cons.inj same
      obtain ⟨sameMasked, _⟩ := sameField (Nat.le_refl 126) (Nat.le_refl 126) second
      have length : payload.length = payload'.length := by
        rw [← wideLength fits, ← wideLength fits', high, low]
      obtain ⟨sameKey, data, behind⟩ := sameMask length same
      exact ⟨by rw [sameMasked, sameKey, data]; exact congrArg (Frame.mk · _ _ _ _) sameFirst, behind⟩

theorem Frame.Proper.regular {frame : Frame} (proper : frame.Proper) : frame.Regular := by
  obtain ⟨first, _, _, most, wide⟩ := proper
  refine ⟨by rw [first]; decide, ?_⟩
  split
  · exact most
  · next short => exact Nat.le_of_not_lt fun long => short (wide.mpr long)

theorem Frame.Proper.asserted {frame : Frame} (proper : frame.Proper) : frame.Asserted := by
  obtain ⟨first, masked, _⟩ := proper
  exact ⟨by rw [first]; decide, by rw [first]; decide, masked⟩

theorem framed_of_proper (asserts : Bool) (proper : ∀ frame ∈ frames, frame.Proper) :
    Framed asserts frames [] (frames.flatMap Frame.bytes) := by
  induction frames with
  | nil => rfl
  | cons frame frames ih =>
    obtain ⟨here, proper⟩ := List.forall_mem_cons.mp proper
    refine ⟨here.regular, fun _ => here.asserted, ?_, _, List.flatMap_cons, ih proper⟩
    have data := here.2.2.1
    rw [List.flatMap_cons, Frame.bytes, List.cons_append, List.length_cons, List.length_append,
      List.length_append, List.length_append, MaskingKey.length_apply]
    have header : 1 ≤ frame.lengthBytes.length := by
      unfold Frame.lengthBytes
      cases frame.wide with
      | true => exact (by decide : 1 ≤ 3)
      | false => exact Nat.le_refl 1
    change 8 ≤ _ + (4 + _) + _ + 1
    omega

theorem framed_flatMap (framed : Framed asserts frames [] bytes) :
    bytes = frames.flatMap Frame.bytes := by
  induction frames generalizing bytes with
  | nil => exact framed
  | cons frame frames ih =>
    obtain ⟨_, _, _, rest, rfl, framed⟩ := framed
    rw [List.flatMap_cons, ← ih framed]

theorem framed_unique {frames' : List Frame} (framed : Framed asserts frames [] bytes)
    (framed' : Framed asserts frames' [] bytes) : frames = frames' := by
  induction frames generalizing frames' bytes with
  | nil =>
    cases frames' with
    | nil => rfl
    | cons frame frames' =>
      have none : bytes = [] := framed
      obtain ⟨_, _, long, _⟩ := framed'
      rw [none] at long
      exact absurd long (by decide)
  | cons frame frames ih =>
    obtain ⟨regular, _, long, rest, rfl, framed⟩ := framed
    cases frames' with
    | nil =>
      have none : frame.bytes ++ rest = [] := framed'
      rw [none] at long
      exact absurd long (by decide)
    | cons frame' frames' =>
      obtain ⟨regular', _, _, rest', same, framed'⟩ := framed'
      obtain ⟨rfl, rfl⟩ := frame_bytes_inj regular regular' same
      rw [ih framed framed']

/-- What a read has to do: the data of client frames comes out, anything else is an error, and
nothing outside the bytes is touched. -/
structure Deframes (asserts : Bool) (bytes : List Byte) : Prop where
  frames : ∀ frames : List Frame, (∀ frame ∈ frames, frame.Proper) →
    bytes = frames.flatMap Frame.bytes →
      ∃ after : Buffer Byte bytes.length, doPartialRead asserts (received bytes) =
        .ok ((frames.flatMap Frame.payload).length, after) ∧
          after.Begins (frames.flatMap Frame.payload)
  others : (¬∃ frames : List Frame, (∀ frame ∈ frames, frame.Proper) ∧
      bytes = frames.flatMap Frame.bytes) →
    ∃ error state, doPartialRead asserts (received bytes) = .error (.raised (.thrown error state))
  inside : doPartialRead asserts (received bytes) ≠ .error .outOfBounds

/-- The bytes are frames that are not all proper ones, or an assertion meets other bytes behind
some frames. -/
def Lapses (asserts : Bool) (bytes : List Byte) : Prop :=
  (∃ frames, Framed asserts frames [] bytes ∧ ∃ frame ∈ frames, ¬frame.Proper) ∨
    asserts = true ∧ ∃ frames tail, Framed asserts frames tail bytes ∧ Unasserted tail

/-- The code does what it has to unless it lapses. -/
theorem deframes_iff (asserts : Bool) (bytes : List Byte) :
    Deframes asserts bytes ↔ ¬Lapses asserts bytes := by
  constructor
  · rintro ⟨_, others, _⟩ (⟨loose, framed, frame, member, improper⟩ | ⟨on, loose, tail, framed, unasserted⟩)
    · obtain ⟨after, run, _⟩ := (doPartialRead_framed framed).1 rfl
      by_cases client : ∃ frames : List Frame, (∀ frame ∈ frames, frame.Proper) ∧
          bytes = frames.flatMap Frame.bytes
      · obtain ⟨frames, proper, rfl⟩ := client
        have same := framed_unique framed (framed_of_proper asserts proper)
        subst same
        exact improper (proper frame member)
      · obtain ⟨error, state, raised⟩ := others client
        rw [run] at raised
        cases raised
    · have run := (doPartialRead_framed framed).2.1 on unasserted
      by_cases client : ∃ frames : List Frame, (∀ frame ∈ frames, frame.Proper) ∧
          bytes = frames.flatMap Frame.bytes
      · obtain ⟨frames, proper, rfl⟩ := client
        obtain ⟨after, ok, _⟩ := (doPartialRead_framed (framed_of_proper asserts proper)).1 rfl
        rw [run] at ok
        cases ok
      · obtain ⟨error, state, raised⟩ := others client
        rw [run] at raised
        cases raised
  · intro regular
    obtain ⟨loose, tail, framed, stops⟩ := exists_framed asserts bytes
    obtain ⟨ends, _, refuses⟩ := doPartialRead_framed framed
    refine ⟨?_, ?_, ?_⟩
    · rintro frames proper rfl
      exact (doPartialRead_framed (framed_of_proper asserts proper)).1 rfl
    · intro other
      rcases stops with rfl | ⟨on, unasserted⟩ | ⟨some, refused⟩
      · by_contra _
        refine regular (.inl ⟨loose, framed, ?_⟩)
        by_contra proper
        push Not at proper
        exact other ⟨loose, proper, framed_flatMap framed⟩
      · exact absurd (.inr ⟨on, loose, tail, framed, unasserted⟩) regular
      · exact refuses some refused
    · rcases stops with rfl | ⟨on, unasserted⟩ | ⟨some, refused⟩
      · obtain ⟨after, run, _⟩ := ends rfl
        rw [run]
        nofun
      · exact absurd (.inr ⟨on, loose, tail, framed, unasserted⟩) regular
      · obtain ⟨error, state, run⟩ := refuses some refused
        rw [run]
        nofun

/-- A text frame is taken for data, or stops the program. -/
theorem not_deframes_text :
    ¬∃ asserts, Deframes asserts [0x81, 0x82, 0, 0, 0, 0, 0x68, 0x69] := by
  rintro ⟨asserts, _, others, _⟩
  obtain ⟨error, state, raised⟩ := others (by
    rintro ⟨frames, proper, same⟩
    cases frames with
    | nil => cases same
    | cons frame frames =>
      have first := (proper frame List.mem_cons_self).1
      have second := (List.cons.inj same).1
      rw [first] at second
      exact absurd second (by decide))
  cases asserts with
  | false => cases raised
  | true => cases raised

end Reading

end Redemption.Transport
