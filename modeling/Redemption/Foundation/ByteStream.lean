import Mathlib.Tactic.Ring
import Redemption.Foundation.Buffer

/-! Byte streams with little-endian numbers: what is written is read back. Reading
past the end is a fault of memory, checking for room first an error of the program. -/
namespace Redemption

/-- A `uint8_t`. -/
abbrev Byte := BitVec 8

instance : LawfulBEq Byte := inferInstance

namespace Foundation

universe u

/-- The low bytes of a number, the lowest first. -/
def leBytes : Nat → Nat → List (BitVec 8)
  | 0, _ => []
  | width + 1, value => BitVec.ofNat 8 value :: leBytes width (value / 2 ^ 8)

/-- The number that bytes stand for, the lowest first. -/
def leValue : List (BitVec 8) → Nat
  | [] => 0
  | byte :: rest => byte.toNat + 2 ^ 8 * leValue rest

@[simp] theorem length_leBytes (width value : Nat) : (leBytes width value).length = width := by
  induction width generalizing value with
  | zero => rfl
  | succ width ih => simp [leBytes, ih]

theorem leValue_leBytes (width value : Nat) :
    leValue (leBytes width value) = value % 2 ^ (8 * width) := by
  induction width generalizing value with
  | zero => simp [leBytes, leValue, Nat.mod_one]
  | succ width ih =>
    have power : 2 ^ (8 * (width + 1)) = 2 ^ 8 * 2 ^ (8 * width) := by ring
    rw [leBytes, leValue, ih, BitVec.toNat_ofNat, power, Nat.mod_mul]

theorem leValue_lt (bytes : List (BitVec 8)) : leValue bytes < 2 ^ (8 * bytes.length) := by
  induction bytes with
  | nil => exact Nat.one_pos
  | cons byte rest ih =>
    have power : 2 ^ (8 * (rest.length + 1)) = 2 ^ 8 * 2 ^ (8 * rest.length) := by ring
    rw [leValue, List.length_cons, power]
    omega

section Read

variable {ε : Type u}

/-- Move a number of bytes on. -/
def inBytes (count : Nat) (stream : List (BitVec 8)) :
    Checked ε (List (BitVec 8) × List (BitVec 8)) :=
  if count ≤ stream.length then .ok (stream.take count, stream.drop count)
  else .error .outOfBounds

/-- The next number of so many bytes. -/
def inLe (width : Nat) (stream : List (BitVec 8)) : Checked ε (Nat × List (BitVec 8)) := do
  let (bytes, stream) ← inBytes width stream
  return (leValue bytes, stream)

/-- The next byte. -/
def inUint8 : List (BitVec 8) → Checked ε (BitVec 8 × List (BitVec 8))
  | [] => .error .outOfBounds
  | byte :: rest => .ok (byte, rest)

/-- `check_throw`: raise an error unless so many bytes remain. -/
def checkThrow (stream : List (BitVec 8)) (needed : Nat) (error : ε) : Checked ε Unit :=
  if needed ≤ stream.length then .ok () else .error (.raised error)

variable {stream : List (BitVec 8)}

theorem inBytes_ok {count : Nat} (room : count ≤ stream.length) :
    (inBytes count stream : Checked ε _) = .ok (stream.take count, stream.drop count) :=
  if_pos room

theorem inLe_ok {width : Nat} (room : width ≤ stream.length) :
    (inLe width stream : Checked ε _) =
      .ok (leValue (stream.take width), stream.drop width) := by
  rw [inLe, inBytes_ok room]
  rfl

theorem inBytes_append {count : Nat} {front : List (BitVec 8)} (length : front.length = count)
    (rest : List (BitVec 8)) :
    (inBytes count (front ++ rest) : Checked ε _) = .ok (front, rest) := by
  have room : count ≤ (front ++ rest).length := by
    rw [List.length_append]
    omega
  rw [inBytes, if_pos room, List.take_left' length, List.drop_left' length]

theorem inLe_append (width value : Nat) (rest : List (BitVec 8)) :
    (inLe width (leBytes width value ++ rest) : Checked ε _) =
      .ok (value % 2 ^ (8 * width), rest) := by
  simp only [inLe, inBytes_append (length_leBytes width value), ok_bind, pure_ok, leValue_leBytes]

theorem checkThrow_of_le {needed : Nat} (error : ε)
    (room : needed ≤ stream.length) : checkThrow stream needed error = .ok () := if_pos room

theorem checkThrow_of_lt {needed : Nat} (error : ε)
    (short : stream.length < needed) : checkThrow stream needed error = .error (.raised error) :=
  if_neg (Nat.not_le_of_lt short)

end Read

end Foundation

end Redemption
