import Redemption.Foundation.ByteStream
import Redemption.Foundation.WordMask

/-! The conversions of text that take ASCII in words of 8, 4 and 2 bytes. A read past the end of
the input has no result. -/
namespace Redemption.Utf

open Redemption.Foundation

/-- What is left of the input, and what has been written. -/
structure Cursor where
  input : List Byte
  out : List Byte
  deriving DecidableEq, Repr

/-- The `Encoder` of the templates: how an ASCII byte is written, and what is written for the
sequence at the front of the input, with the input behind it. -/
structure Encoder where
  ascii : Byte → List Byte
  copyAndAdvance1na : List Byte → Option (List Byte × List Byte)

namespace Encoder

variable (encoder : Encoder)

/-- `copy_and_advance_ascii`. -/
def copyAndAdvanceAscii : Nat → Cursor → Option Cursor
  | 0, cursor => some cursor
  | count + 1, cursor =>
    match cursor.input with
    | [] => none
    | byte :: rest => copyAndAdvanceAscii count ⟨rest, cursor.out ++ encoder.ascii byte⟩

def advance1na (cursor : Cursor) : Option Cursor := do
  let (rest, written) ← encoder.copyAndAdvance1na cursor.input
  return ⟨rest, cursor.out ++ written⟩

/-- `consume_ascii_until_lf`: whether there is a new line among the bytes of the word. -/
def consumeAsciiUntilLf {size : Nat} (input : BitVec (8 * size)) (cursor : Cursor) :
    Option (Bool × Cursor) :=
  let newLineMask := escapableMask 0x0A input
  if newLineMask = 0 then (encoder.copyAndAdvanceAscii size cursor).map (false, ·)
  else (encoder.copyAndAdvanceAscii (newLineMask.ctz.toNat / 8) cursor).map (true, ·)

end Encoder

/-- Write the end of a line instead of the new line in the input. -/
def writeLf (lfToCrlf : List Byte) (cursor : Cursor) : Cursor :=
  ⟨cursor.input.tail, cursor.out ++ lfToCrlf⟩

section Blocks

variable (encoder : Encoder) (lfToCrlf : List Byte)

/-- `CONSUME_N_ASCII_BYTES`: whether the loop goes on at once. -/
def consumeNAsciiBytes {size : Nat} (input : BitVec (8 * size)) (cursor : Cursor) :
    Option (Bool × Cursor) :=
  if lfToCrlf = [] then (encoder.copyAndAdvanceAscii size cursor).map (false, ·)
  else do
    let (found, cursor) ← encoder.consumeAsciiUntilLf input cursor
    return (found, if found then writeLf lfToCrlf cursor else cursor)

/-- `consume_1_ascii_byte`. -/
def consume1AsciiByte (cursor : Cursor) : Option Cursor :=
  if lfToCrlf = [] then encoder.copyAndAdvanceAscii 1 cursor
  else if cursor.input.head? ≠ some 0x0A then encoder.copyAndAdvanceAscii 1 cursor
  else some (writeLf lfToCrlf cursor)

/-- An ASCII byte if there is one, and the sequence of other bytes behind it. -/
def mixed1 (cursor : Cursor) : Option Cursor := do
  let byte ← cursor.input.head?
  let cursor ← if byte < 0x80#8 then consume1AsciiByte encoder lfToCrlf cursor else some cursor
  encoder.advance1na cursor

/-- A word of four bytes that are not all ASCII: the first two if they are, and on. -/
def mixed4 (c4 : BitVec (8 * 4)) (cursor : Cursor) : Option Cursor := do
  let c2 : BitVec (8 * 2) := (c4 &&& 0xffff).setWidth (8 * 2)
  if c2 &&& 0x8080 = 0 then
    let (found, cursor) ← consumeNAsciiBytes encoder lfToCrlf c2 cursor
    if found then return cursor else mixed1 encoder lfToCrlf cursor
  else mixed1 encoder lfToCrlf cursor

/-- `u64_to_first_u32_endian`. -/
def u64ToFirstU32 (value : BitVec (8 * 8)) : BitVec (8 * 4) := (value &&& 0xffffffff).setWidth (8 * 4)

/-- `u64_to_last_u32_endian`. -/
def u64ToLastU32 (value : BitVec (8 * 8)) : BitVec (8 * 4) := (value >>> 32).setWidth (8 * 4)

/-- The loop over 8 bytes or more, once. -/
def round8 (cursor : Cursor) : Option Cursor := do
  let c8 := loadWord 8 cursor.input
  if c8 &&& 0x8080808080808080 = 0 then
    let (_, cursor) ← consumeNAsciiBytes encoder lfToCrlf c8 cursor
    return cursor
  else
    let c4 := u64ToFirstU32 c8
    if c4 &&& 0x80808080 = 0 then
      let (found, cursor) ← consumeNAsciiBytes encoder lfToCrlf c4 cursor
      if found then return cursor else mixed4 encoder lfToCrlf (u64ToLastU32 c8) cursor
    else mixed4 encoder lfToCrlf c4 cursor

/-- The loop over 4 bytes or more, once; whether it goes on. -/
def round4 (cursor : Cursor) : Option (Bool × Cursor) := do
  let c4 := loadWord 4 cursor.input
  if c4 &&& 0x80808080 = 0 then consumeNAsciiBytes encoder lfToCrlf c4 cursor
  else return (true, ← mixed4 encoder lfToCrlf c4 cursor)

/-- The loop over 2 bytes or more, once; whether it goes on. -/
def round2 (cursor : Cursor) : Option (Bool × Cursor) := do
  let c2 := loadWord 2 cursor.input
  if c2 &&& 0x8080 = 0 then consumeNAsciiBytes encoder lfToCrlf c2 cursor
  else return (true, ← mixed1 encoder lfToCrlf cursor)

/-- The byte that may be left. -/
def last1 (cursor : Cursor) : Option Cursor :=
  match cursor.input with
  | [] => some cursor
  | byte :: _ =>
    if byte < 0x80#8 then consume1AsciiByte encoder lfToCrlf cursor else encoder.advance1na cursor

end Blocks

/-- While so many bytes are left, do a round, which says whether to go on. A round that does not
get further would be done for ever. -/
def loopWhile (least : Nat) (round : Cursor → Option (Bool × Cursor)) (cursor : Cursor) :
    Option Cursor :=
  if least ≤ cursor.input.length then
    match round cursor with
    | none => none
    | some (false, after) => some after
    | some (true, after) =>
      if after.input.length < cursor.input.length then loopWhile least round after else none
  else some cursor
termination_by cursor.input.length

/-- `encode_to_multi_code_unit_with_1_code_unit_for_ascii` with the options `loop_8_4_2_1`, into
an output that is large enough. -/
def encodeToMultiCodeUnit (encoder : Encoder) (lfToCrlf : List Byte) (input : List Byte) :
    Option (List Byte) := do
  let cursor ←
    loopWhile 8 (fun cursor => (round8 encoder lfToCrlf cursor).map (true, ·)) ⟨input, []⟩
  let cursor ← loopWhile 4 (round4 encoder lfToCrlf) cursor
  let cursor ← loopWhile 2 (round2 encoder lfToCrlf) cursor
  let cursor ← last1 encoder lfToCrlf cursor
  return cursor.out

/-- `copy_and_advance_utf8_2bytes_to_utf16le`. -/
def utf8TwoBytesToUtf16le (a b : Byte) : List Byte :=
  [(a <<< 6) ||| (b &&& 0x3F), (a >>> 2) &&& 0x7]

/-- `copy_and_advance_utf8_3bytes_to_utf16le`. -/
def utf8ThreeBytesToUtf16le (a b c : Byte) : List Byte :=
  [(b <<< 6) ||| (c &&& 0x3F), (a <<< 4) ||| ((b >>> 2) &&& 0x0F)]

/-- `copy_and_advance_utf8_4bytes_to_utf16le`: the low surrogate comes first. -/
def utf8FourBytesToUtf16le (a b c d : Byte) : List Byte :=
  let a := a - 1
  [(c <<< 6) ||| (d &&& 0x3F), 0xDC ||| ((c >>> 2) &&& 0x2),
    (b <<< 2) ||| ((c >>> 4) &&& 0x3), (a &&& 0x2) ||| 0xD8]

/-- `Utf8ToUtf16_impl<false>`: the length of a sequence is what its first byte says. -/
def utf8ToUtf16 : Encoder where
  ascii byte := [byte, 0]
  copyAndAdvance1na
    | [] => none
    | a :: rest =>
      let maskedLen := a >>> 4
      if maskedLen = 0xC ∨ maskedLen = 0xD then
        match rest with
        | b :: rest => some (rest, utf8TwoBytesToUtf16le a b)
        | _ => none
      else if maskedLen = 0xE then
        match rest with
        | b :: c :: rest => some (rest, utf8ThreeBytesToUtf16le a b c)
        | _ => none
      else if maskedLen = 0xF then
        match rest with
        | b :: c :: d :: rest => some (rest, utf8FourBytesToUtf16le a b c d)
        | _ => none
      else some (rest, [0xFD, 0xFF])

/-- `utf16le_crlf`. -/
def utf16leCrlf : List Byte := [0x0D, 0, 0x0A, 0]

/-- `Utf8ToUtf16LE_LfToCrLfBase::unchecked`: what is written. -/
def unchecked (input : List Byte) : Option (List Byte) :=
  encodeToMultiCodeUnit utf8ToUtf16 utf16leCrlf input

end Redemption.Utf
