import Redemption.Utf.Encode

/-! The tables for the characters of code page 1252. -/
namespace Redemption.Utf

open Redemption.Foundation

/-- The entries of `lut_cp1252_to_utf16le` for the bytes from 0x80 to 0x9F; all others are the
byte and a zero. -/
def lutCp1252ToUtf16le : List (Byte × Byte) :=
  [(0xac, 0x20), (0x81, 0x00), (0x1a, 0x20), (0x92, 0x01),
    (0x1e, 0x20), (0x26, 0x20), (0x20, 0x20), (0x21, 0x20),
    (0xc6, 0x02), (0x30, 0x20), (0x60, 0x01), (0x39, 0x20),
    (0x52, 0x01), (0x8d, 0x00), (0x7d, 0x01), (0x8f, 0x00),
    (0x90, 0x00), (0x18, 0x20), (0x19, 0x20), (0x1c, 0x20),
    (0x1d, 0x20), (0x22, 0x20), (0x13, 0x20), (0x14, 0x20),
    (0xdc, 0x02), (0x22, 0x21), (0x61, 0x01), (0x3a, 0x20),
    (0x53, 0x01), (0x9d, 0x00), (0x7e, 0x01), (0x78, 0x01)]

/-- What `write_cp1252_to_utf16le` writes. -/
def cp1252Unit (char : Byte) : List Byte :=
  if 0x80#8 ≤ char ∧ char < 0xA0#8 then
    let (low, high) := lutCp1252ToUtf16le.getD (char - 0x80).toNat (0, 0)
    [low, high]
  else [char, 0]

theorem length_cp1252Unit (char : Byte) : (cp1252Unit char).length = 2 := by
  unfold cp1252Unit
  split
  · rfl
  · rfl

end Redemption.Utf
