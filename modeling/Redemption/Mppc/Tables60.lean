import Redemption.Foundation.Bits
import Redemption.Mppc.HashTable

/-! The code tables of RDP 6.0, and how the decompressor looks codes up in them. -/
namespace Redemption.Mppc

open Redemption.Foundation

def huffLenLEC : List Nat := [
  6, 6, 6, 7, 7, 7, 7, 7, 7, 7, 7, 8, 8, 8, 8, 8, 8, 8, 9, 8, 9, 9, 9, 9,
  8, 8, 9, 9, 9, 9, 9, 9, 8, 9, 9, 10, 9, 9, 9, 9, 9, 9, 9, 10, 9, 10, 10, 10,
  9, 9, 10, 9, 10, 9, 10, 9, 9, 9, 10, 10, 9, 10, 9, 9, 8, 9, 9, 9, 9, 10, 10, 10,
  9, 9, 10, 10, 10, 10, 10, 10, 9, 9, 10, 10, 10, 10, 10, 10, 10, 9, 10, 10, 10, 10, 10, 10,
  8, 10, 10, 10, 10, 10, 10, 10, 10, 10, 10, 10, 10, 10, 10, 10, 9, 10, 10, 10, 10, 10, 10, 10,
  9, 10, 10, 10, 10, 10, 10, 9, 7, 9, 9, 10, 9, 10, 10, 10, 9, 10, 10, 10, 10, 10, 10, 10,
  9, 10, 10, 10, 10, 10, 10, 10, 10, 10, 10, 10, 10, 10, 10, 10, 10, 10, 10, 10, 10, 10, 10, 10,
  10, 10, 10, 13, 10, 10, 10, 10, 10, 10, 11, 10, 10, 10, 10, 10, 10, 10, 10, 10, 10, 10, 10, 10,
  9, 10, 10, 10, 10, 10, 9, 10, 10, 10, 10, 10, 9, 10, 10, 10, 9, 10, 10, 10, 10, 10, 10, 10,
  10, 10, 10, 10, 10, 10, 10, 10, 9, 10, 10, 10, 10, 10, 10, 10, 10, 10, 10, 10, 10, 10, 9, 10,
  8, 9, 9, 10, 9, 10, 10, 10, 9, 10, 10, 10, 9, 9, 8, 7, 13, 13, 7, 7, 10, 7, 7, 6,
  6, 6, 6, 5, 6, 6, 6, 5, 6, 5, 6, 6, 6, 6, 6, 6, 6, 6, 6, 6, 6, 6, 6, 6,
  8, 5, 6, 7, 7, 13]

def huffCodeLEC : List Nat := [
  0x4, 0x24, 0x14, 0x11, 0x51, 0x31, 0x71, 0x9, 0x49, 0x29, 0x69, 0x15,
  0x95, 0x55, 0xd5, 0x35, 0xb5, 0x75, 0x1d, 0xf5, 0x11d, 0x9d, 0x19d, 0x5d,
  0xd, 0x8d, 0x15d, 0xdd, 0x1dd, 0x3d, 0x13d, 0xbd, 0x4d, 0x1bd, 0x7d, 0x6b,
  0x17d, 0xfd, 0x1fd, 0x3, 0x103, 0x83, 0x183, 0x26b, 0x43, 0x16b, 0x36b, 0xeb,
  0x143, 0xc3, 0x2eb, 0x1c3, 0x1eb, 0x23, 0x3eb, 0x123, 0xa3, 0x1a3, 0x1b, 0x21b,
  0x63, 0x11b, 0x163, 0xe3, 0xcd, 0x1e3, 0x13, 0x113, 0x93, 0x31b, 0x9b, 0x29b,
  0x193, 0x53, 0x19b, 0x39b, 0x5b, 0x25b, 0x15b, 0x35b, 0x153, 0xd3, 0xdb, 0x2db,
  0x1db, 0x3db, 0x3b, 0x23b, 0x13b, 0x1d3, 0x33b, 0xbb, 0x2bb, 0x1bb, 0x3bb, 0x7b,
  0x2d, 0x27b, 0x17b, 0x37b, 0xfb, 0x2fb, 0x1fb, 0x3fb, 0x7, 0x207, 0x107, 0x307,
  0x87, 0x287, 0x187, 0x387, 0x33, 0x47, 0x247, 0x147, 0x347, 0xc7, 0x2c7, 0x1c7,
  0x133, 0x3c7, 0x27, 0x227, 0x127, 0x327, 0xa7, 0xb3, 0x19, 0x1b3, 0x73, 0x2a7,
  0x173, 0x1a7, 0x3a7, 0x67, 0xf3, 0x267, 0x167, 0x367, 0xe7, 0x2e7, 0x1e7, 0x3e7,
  0x1f3, 0x17, 0x217, 0x117, 0x317, 0x97, 0x297, 0x197, 0x397, 0x57, 0x257, 0x157,
  0x357, 0xd7, 0x2d7, 0x1d7, 0x3d7, 0x37, 0x237, 0x137, 0x337, 0xb7, 0x2b7, 0x1b7,
  0x3b7, 0x77, 0x277, 0x7ff, 0x177, 0x377, 0xf7, 0x2f7, 0x1f7, 0x3f7, 0x3ff, 0xf,
  0x20f, 0x10f, 0x30f, 0x8f, 0x28f, 0x18f, 0x38f, 0x4f, 0x24f, 0x14f, 0x34f, 0xcf,
  0xb, 0x2cf, 0x1cf, 0x3cf, 0x2f, 0x22f, 0x10b, 0x12f, 0x32f, 0xaf, 0x2af, 0x1af,
  0x8b, 0x3af, 0x6f, 0x26f, 0x18b, 0x16f, 0x36f, 0xef, 0x2ef, 0x1ef, 0x3ef, 0x1f,
  0x21f, 0x11f, 0x31f, 0x9f, 0x29f, 0x19f, 0x39f, 0x5f, 0x4b, 0x25f, 0x15f, 0x35f,
  0xdf, 0x2df, 0x1df, 0x3df, 0x3f, 0x23f, 0x13f, 0x33f, 0xbf, 0x2bf, 0x14b, 0x1bf,
  0xad, 0xcb, 0x1cb, 0x3bf, 0x2b, 0x7f, 0x27f, 0x17f, 0x12b, 0x37f, 0xff, 0x2ff,
  0xab, 0x1ab, 0x6d, 0x59, 0x17ff, 0xfff, 0x39, 0x79, 0x1ff, 0x5, 0x45, 0x34,
  0xc, 0x2c, 0x1c, 0x0, 0x3c, 0x2, 0x22, 0x10, 0x12, 0x8, 0x32, 0xa,
  0x2a, 0x1a, 0x3a, 0x6, 0x26, 0x16, 0x36, 0xe, 0x2e, 0x1e, 0x3e, 0x1,
  0xed, 0x18, 0x21, 0x25, 0x65, 0x1fff]

def huffIndexLEC : List Nat := [
  0x7b, 0xff1f, 0xff0d, 0xfe27, 0xfe00, 0xff05, 0xff17, 0xfe68, 0xc5, 0xfe07, 0xff13, 0xfec0,
  0xff08, 0xfe18, 0xff1b, 0xfeb3, 0xfe03, 0xa2, 0xfe42, 0xff10, 0xfe0b, 0xfe02, 0xfe91, 0xff19,
  0xfe80, 0xe9, 0xfe3a, 0xff15, 0xfe12, 0x57, 0xfed7, 0xff1d, 0xff0e, 0xfe35, 0xfe69, 0xff22,
  0xff18, 0xfe7a, 0xfe01, 0xff23, 0xff14, 0xfef4, 0xfeb4, 0xfe09, 0xff1c, 0xfec4, 0xff09, 0xfe60,
  0xfe70, 0xff12, 0xfe05, 0xfe92, 0xfea1, 0xff1a, 0xfe0f, 0xff07, 0xfe56, 0xff16, 0xff02, 0xfed8,
  0xfee8, 0xff1e, 0xfe1d, 0x3b, 0xffff, 0xff06, 0xffff, 0xfe71, 0xfe89, 0xffff, 0xffff, 0xfe2c,
  0xfe2b, 0xfe20, 0xffff, 0xfebb, 0xfecf, 0xfe08, 0xffff, 0xfee0, 0xfe0d, 0xffff, 0xfe99, 0xffff,
  0xfe04, 0xfeaa, 0xfe49, 0xffff, 0xfe17, 0xfe61, 0xfedf, 0xffff, 0xfeff, 0xfef6, 0xfe4c, 0xffff,
  0xffff, 0xfe87, 0xffff, 0xff24, 0xffff, 0xfe3c, 0xfe72, 0xffff, 0xffff, 0xfece, 0xffff, 0xfefe,
  0xffff, 0xfe23, 0xfebc, 0xfe0a, 0xfea9, 0xffff, 0xfe11, 0xffff, 0xfe82, 0xffff, 0xfe06, 0xfe9a,
  0xfef5, 0xffff, 0xfe22, 0xfe4d, 0xfe5f, 0xffff, 0xff03, 0xfee1, 0xffff, 0xfeca, 0xfecc, 0xffff,
  0xfe19, 0xffff, 0xfeb7, 0xffff, 0xffff, 0xfe83, 0xfe29, 0xffff, 0xffff, 0xffff, 0xfe6c, 0xffff,
  0xfeed, 0xffff, 0xffff, 0xfe46, 0xfe5c, 0xfe15, 0xffff, 0xfedb, 0xfea6, 0xffff, 0xffff, 0xfe44,
  0xffff, 0xfe0c, 0xffff, 0xfe95, 0xfefc, 0xffff, 0xffff, 0xfeb8, 0x16c9, 0xffff, 0xfef0, 0xffff,
  0xfe38, 0xffff, 0xffff, 0xfe6d, 0xfe7e, 0xffff, 0xffff, 0xffff, 0xffff, 0xfe5b, 0xfedc, 0xffff,
  0xffff, 0xfeec, 0xfe47, 0xfe1f, 0xffff, 0xfe7f, 0xfe96, 0xffff, 0xffff, 0xfea5, 0xffff, 0xfe10,
  0xfe40, 0xfe32, 0xfebf, 0xffff, 0xffff, 0xfed4, 0xfef1, 0xffff, 0xffff, 0xffff, 0xfe75, 0xffff,
  0xffff, 0xfe8d, 0xfe31, 0xffff, 0xfe65, 0xfe1b, 0xffff, 0xfee4, 0xfefb, 0xffff, 0xffff, 0xfe52,
  0xffff, 0xfe0e, 0xffff, 0xfe9d, 0xfeaf, 0xffff, 0xffff, 0xfe51, 0xfed3, 0xffff, 0xff20, 0xffff,
  0xfe2f, 0xffff, 0xffff, 0xfec1, 0xfe8c, 0xffff, 0xffff, 0xffff, 0xfe3f, 0xffff, 0xffff, 0xfe76,
  0xffff, 0xfefa, 0xfe53, 0xfe25, 0xffff, 0xfe64, 0xfee5, 0xffff, 0xffff, 0xfeae, 0xffff, 0xfe13,
  0xffff, 0xfe88, 0xfe9e, 0xffff, 0xfe43, 0xffff, 0xffff, 0xfea4, 0xfe93, 0xffff, 0xffff, 0xffff,
  0xfe3d, 0xffff, 0xffff, 0xfeeb, 0xfed9, 0xffff, 0xfe14, 0xfe5a, 0xffff, 0xfe28, 0xfe7d, 0xffff,
  0xffff, 0xfe6a, 0xffff, 0xffff, 0xff01, 0xfec6, 0xfec8, 0xffff, 0xffff, 0xfeb5, 0xffff, 0xffff,
  0xffff, 0xfe94, 0xfe78, 0xffff, 0xffff, 0xffff, 0xfea3, 0xffff, 0xffff, 0xfeda, 0xfe58, 0xffff,
  0xfe1e, 0xfe45, 0xfeea, 0xffff, 0xfe6b, 0xffff, 0xffff, 0xfe37, 0xffff, 0xffff, 0xffff, 0xfe7c,
  0xfeb6, 0xffff, 0xffff, 0xfef8, 0xffff, 0xffff, 0xffff, 0xfec7, 0xfe9b, 0xffff, 0xffff, 0xffff,
  0xfe50, 0xffff, 0xffff, 0xfead, 0xfee2, 0xffff, 0xfe1a, 0xfe63, 0xfe4e, 0xffff, 0xffff, 0xfef9,
  0xffff, 0xfe73, 0xffff, 0xffff, 0xffff, 0xfe30, 0xfe8b, 0xffff, 0xffff, 0xfebd, 0xfe2e, 0x100,
  0xffff, 0xfeee, 0xfed2, 0xffff, 0xffff, 0xffff, 0xfeac, 0xffff, 0xffff, 0xfe9c, 0xfe84, 0xffff,
  0xfe24, 0xfe4f, 0xfef7, 0xffff, 0xffff, 0xfee3, 0xfe62, 0xffff, 0xffff, 0xffff, 0xffff, 0xfe8a,
  0xfe74, 0xffff, 0xffff, 0xfe3e, 0xffff, 0xffff, 0xffff, 0xfed1, 0xfebe, 0xffff, 0xffff, 0xfe2d,
  0xffff, 0xfe4a, 0xfef3, 0xffff, 0xffff, 0xfedd, 0xfe5e, 0xfe16, 0xffff, 0xfe48, 0xfea8, 0xffff,
  0xfeab, 0xfe97, 0xffff, 0xffff, 0xfed0, 0xffff, 0xffff, 0xfecd, 0xfeb9, 0xffff, 0xffff, 0xffff,
  0xfe2a, 0xffff, 0xffff, 0xfe86, 0xfe6e, 0xffff, 0xffff, 0xffff, 0xfede, 0xffff, 0xffff, 0xfe5d,
  0xfe4b, 0xfe21, 0xffff, 0xfeef, 0xfe98, 0xffff, 0xffff, 0xfe81, 0xffff, 0xffff, 0xffff, 0xfea7,
  0xffff, 0xfeba, 0xfefd, 0xffff, 0xffff, 0xffff, 0xfecb, 0xffff, 0xffff, 0xfe6f, 0xfe39, 0xffff,
  0xffff, 0xffff, 0xfe85, 0xffff, 0x10c, 0xfee6, 0xfe67, 0xfe1c, 0xffff, 0xfe54, 0xfeb2, 0xffff,
  0xffff, 0xfe9f, 0xffff, 0xffff, 0xffff, 0xfe59, 0xfeb1, 0xffff, 0xfec2, 0xffff, 0xffff, 0xfe36,
  0xfef2, 0xffff, 0xffff, 0xfed6, 0xfe77, 0xffff, 0xffff, 0xffff, 0xfe33, 0xffff, 0xffff, 0xfe8f,
  0xfe55, 0xfe26, 0x10a, 0xff04, 0xfee7, 0xffff, 0x121, 0xfe66, 0xffff, 0xffff, 0xffff, 0xfeb0,
  0xfea0, 0xffff, 0x10f, 0xfe90, 0xffff, 0xffff, 0xfed5, 0xffff, 0xffff, 0xfec3, 0xfe34, 0xffff,
  0xffff, 0xffff, 0xfe8e, 0xffff, 0x111, 0xfe79, 0xfe41, 0x10b]

def lecHTab : List Nat := [
  511, 0, 508, 448, 494, 347, 486, 482]

def huffLenLOM : List Nat := [
  4, 2, 3, 4, 3, 4, 4, 5, 4, 5, 5, 6, 6, 7, 7, 8,
  7, 8, 8, 9, 9, 8, 9, 9, 9, 9, 9, 9, 9, 9, 9, 9]

def huffCodeLOM : List Nat := [
  0x1, 0x0, 0x2, 0x9, 0x6, 0x5, 0xd, 0xb,
  0x3, 0x1b, 0x7, 0x17, 0x37, 0xf, 0x4f, 0x6f,
  0x2f, 0xef, 0x1f, 0x5f, 0x15f, 0x9f, 0xdf, 0x1df,
  0x3f, 0x13f, 0xbf, 0x1bf, 0x7f, 0x17f, 0xff, 0x1ff]

def huffIndexLOM : List Nat := [
  0xfe1, 0xfe0, 0xfe2, 0xfe8, 0xe, 0xfe5, 0xfe4, 0xfea, 0xff1, 0xfe3, 0x15, 0xfe7,
  0xfef, 0x46, 0xff0, 0xfed, 0xfff, 0xff7, 0xffb, 0x19, 0xffd, 0xff4, 0x12c, 0xfeb,
  0xffe, 0xff6, 0xffa, 0x89, 0xffc, 0xff3, 0xff8, 0xff2]

def lomHTab : List Nat := [
  0, 4, 10, 19]

def copyOffsetBitsLUT : List Nat := [
  0, 0, 0, 0, 1, 1, 2, 2, 3, 3, 4, 4, 5, 5, 6, 6, 7, 7, 8, 8, 9, 9, 10, 10, 11,
  11, 12, 12, 13, 13, 14, 14, 15]

def copyOffsetBaseLUT : List Nat := [
  1, 2, 3, 4, 5, 7, 9, 13, 17, 25, 33, 49, 65, 97,
  129, 193, 257, 385, 513, 769, 1025, 1537, 2049, 3073, 4097, 6145, 8193, 12289,
  16385, 24577, 32769, 49153, 65537]

def lomBitsLUT : List Nat := [
  0, 0, 0, 0, 0, 0, 0, 0, 1, 1, 1, 1, 2, 2, 2, 2, 3, 3, 3, 3, 4, 4, 4, 4, 6, 6, 8, 8, 14, 14]

def lomBaseLUT : List Nat := [
  2, 3, 4, 5, 6, 7, 8, 9, 10, 12, 14, 16, 18, 22, 26, 30, 34, 42, 50, 58,
  66, 82, 98, 114, 130, 194, 258, 514, 2, 2]

/-- An entry of a table, which must be there. -/
def tableAt (table : List Nat) (index : Nat) : Checked ErrorId Nat :=
  match table[index]? with
  | some entry => .ok entry
  | none => .error .outOfBounds

def lecHash (key : Nat) : Nat := (key &&& 0x1ff) ^^^ (key >>> 9) ^^^ (key >>> 4) ^^^ (key >>> 7)

def lomHash (key : Nat) : Nat := (key &&& 0x1f) ^^^ (key >>> 5) ^^^ (key >>> 9)

/-- `miniLEChash`; `~h` is taken on 16 bits. -/
def miniLecHash (key : Nat) : Nat :=
  let h := ((key >>> 8) ^^^ (key &&& 0xff)) >>> 2 &&& 0xf
  (if key >>> 9 ≠ 0 then 0xffff - h else h) % 12

def miniLomHash (key : Nat) : Nat :=
  let h := key >>> 4 &&& 0xf
  (h ^^^ (h >>> 2) ^^^ (h >>> 3)) &&& 0x3

def getLECindex (huff : Nat) : Checked ErrorId Nat := do
  let h ← tableAt huffIndexLEC (lecHash huff)
  if (h ^^^ huff) >>> 9 ≠ 0 then return h &&& 0x1ff
  else
    let index ← tableAt lecHTab (miniLecHash huff)
    tableAt huffIndexLEC index

def getLOMindex (huff : Nat) : Checked ErrorId Nat := do
  let h ← tableAt huffIndexLOM (lomHash huff)
  if (h ^^^ huff) >>> 5 ≠ 0 then return h &&& 0x1f
  else
    let index ← tableAt lomHTab (miniLomHash huff)
    tableAt huffIndexLOM index

/-- The widths that the decompressor tries for a literal, a copy offset or the end. -/
def lecWidths : List Nat := [5, 6, 7, 8, 9, 10, 11, 13]

/-- The widths that it tries for a length of match. -/
def lomWidths : List Nat := [2, 3, 4, 5, 6, 7, 8, 9]

/-- `indexOfEqualOrSmallerEntry`. -/
def indexOfEqualOrSmallerEntry (data : Nat) (table : List Nat) : Checked ErrorId Nat :=
  let index := (table.takeWhile (· < data)).length
  match table[index]? with
  | none => .error .outOfBounds
  | some entry => .ok (if data < entry then index - 1 else index)

/-- `transposebits`: turns a word round, but leaves early when its high bytes are zero. -/
def transposebits (x : BitVec 32) : BitVec 32 :=
  let x := ((x &&& 0x55555555) <<< 1) ||| ((x >>> 1) &&& 0x55555555)
  let x := ((x &&& 0x33333333) <<< 2) ||| ((x >>> 2) &&& 0x33333333)
  let x := ((x &&& 0x0f0f0f0f) <<< 4) ||| ((x >>> 4) &&& 0x0f0f0f0f)
  if x >>> 8 = 0 then x
  else
    let x := ((x &&& 0x00ff00ff) <<< 8) ||| ((x >>> 8) &&& 0x00ff00ff)
    if x >>> 16 = 0 then x
    else ((x &&& 0x0000ffff) <<< 16) ||| ((x >>> 16) &&& 0x0000ffff)

/-- What the decompressor does to a byte behind the window. -/
def transposeByte (byte : Byte) : Byte := (transposebits (byte.setWidth 32)).setWidth 8

/-! The code tables of RDP 6.0 describe prefix codes that the decompressor looks up. -/

/-- Where a round of `transposebits` takes a bit from. -/
private def partner (shift index : Nat) : Nat :=
  if index / shift % 2 = 0 then index + shift else index - shift

/-- The mask keeps the lower half of every pair of fields. -/
private def Halves (mask : BitVec 32) (shift : Nat) : Prop :=
  ∀ index < 32, mask.getLsbD index = decide (index / shift % 2 = 0) ∧
    (decide (shift ≤ index) && mask.getLsbD (index - shift)) = decide (index / shift % 2 ≠ 0)

private instance (mask : BitVec 32) (shift : Nat) : Decidable (Halves mask shift) :=
  inferInstanceAs (Decidable (∀ index < 32, _))

private theorem swap_getLsbD {mask : BitVec 32} {shift : Nat} (halves : Halves mask shift)
    (x : BitVec 32) {index : Nat} (bounded : index < 32) :
    (((x &&& mask) <<< shift) ||| ((x >>> shift) &&& mask)).getLsbD index =
      x.getLsbD (partner shift index) := by
  obtain ⟨low, high⟩ := halves index bounded
  rw [BitVec.getLsbD_or, BitVec.getLsbD_shiftLeft, BitVec.getLsbD_and, BitVec.getLsbD_and,
    BitVec.getLsbD_ushiftRight, low, partner]
  by_cases lower : index / shift % 2 = 0
  · by_cases reaches : shift ≤ index
    · have clear : mask.getLsbD (index - shift) = false := by simpa [reaches, lower] using high
      simp [lower, clear, Nat.add_comm]
    · simp [lower, Nat.lt_of_not_le reaches, Nat.add_comm]
  · have both : shift ≤ index ∧ mask.getLsbD (index - shift) = true := by
      simpa [lower] using high
    simp [lower, both.2, Nat.not_lt.mpr both.1, bounded]

section Transpose

variable {x y : BitVec 32}

private theorem high_clear {count : Nat} (clear : x >>> count = 0) {index : Nat}
    (above : count ≤ index) : x.getLsbD index = false := by
  have bit := congrArg (fun word => word.getLsbD (index - count)) clear
  simpa [BitVec.getLsbD_ushiftRight, Nat.add_sub_cancel' above] using bit

private theorem clear_of_high {count : Nat}
    (clear : ∀ index < 32, count ≤ index → x.getLsbD index = false) : x >>> count = 0 := by
  apply BitVec.eq_of_getLsbD_eq
  intro index bounded
  rw [BitVec.getLsbD_ushiftRight]
  by_cases inside : count + index < 32
  · simp [clear _ inside (Nat.le_add_right _ _)]
  · simp [BitVec.getLsbD_of_ge _ _ (Nat.le_of_not_lt inside)]

/-- With a bit among its high ones, or none at all, a word is turned round. -/
theorem transposebits_eq (turns : x >>> 16 ≠ 0 ∨ x = 0) : transposebits x = x.reverse := by
  rcases turns with high | rfl
  · have first : Halves 0x55555555 1 := by decide
    have second : Halves 0x33333333 2 := by decide
    have third : Halves 0x0f0f0f0f 4 := by decide
    have fourth : Halves 0x00ff00ff 8 := by decide
    have fifth : Halves 0x0000ffff 16 := by decide
    unfold transposebits
    extract_lets x₁ x₂ x₃ x₄
    have bit₃ : ∀ index < 32, x₃.getLsbD index =
        x.getLsbD (partner 1 (partner 2 (partner 4 index))) := by
      intro index bounded
      have near : ∀ index < 32, partner 4 index < 32 ∧ partner 2 (partner 4 index) < 32 := by
        decide
      rw [swap_getLsbD third x₂ bounded, swap_getLsbD second x₁ (near index bounded).1,
        swap_getLsbD first x (near index bounded).2]
    have bit₄ : ∀ index < 32, x₄.getLsbD index =
        x.getLsbD (partner 1 (partner 2 (partner 4 (partner 8 index)))) := by
      intro index bounded
      have near : ∀ index < 32, partner 8 index < 32 := by decide
      rw [swap_getLsbD fourth x₃ bounded, bit₃ _ (near index bounded)]
    -- Either early exit needs the high half of the word to be zero.
    have stays : ¬ x₃ >>> 8 = 0 := by
      intro clear
      refine high (clear_of_high fun index bounded above => ?_)
      have back : ∀ index < 32, 16 ≤ index → ∃ other < 32, 8 ≤ other ∧
          partner 1 (partner 2 (partner 4 other)) = index := by decide
      obtain ⟨other, small, reaches, same⟩ := back index bounded above
      rw [← same, ← bit₃ other small]
      exact high_clear clear reaches
    have stays' : ¬ x₄ >>> 16 = 0 := by
      intro clear
      refine high (clear_of_high fun index bounded above => ?_)
      have back : ∀ index < 32, 16 ≤ index → ∃ other < 32, 16 ≤ other ∧
          partner 1 (partner 2 (partner 4 (partner 8 other))) = index := by decide
      obtain ⟨other, small, reaches, same⟩ := back index bounded above
      rw [← same, ← bit₄ other small]
      exact high_clear clear reaches
    rw [if_neg stays, if_neg stays']
    apply BitVec.eq_of_getLsbD_eq
    intro index bounded
    have near : ∀ index < 32, partner 16 index < 32 := by decide
    have whole : ∀ index < 32,
        partner 1 (partner 2 (partner 4 (partner 8 (partner 16 index)))) = 31 - index := by decide
    rw [swap_getLsbD fifth x₄ bounded, bit₄ _ (near index bounded), whole index bounded,
      BitVec.getLsbD_reverse, BitVec.getMsbD_eq_getLsbD]
    simp [bounded]
  · decide +kernel

theorem transposebits_mask (word : BitVec 32) {count : Nat} (short : count ≤ 16) :
    transposebits (word &&& (BitVec.allOnes 32 <<< (32 - count))) = firstBits word count := by
  refine transposebits_eq ?_
  by_cases high : (word &&& (BitVec.allOnes 32 <<< (32 - count))) >>> 16 = 0
  · right
    apply BitVec.eq_of_getLsbD_eq
    intro index bounded
    by_cases above : 16 ≤ index
    · simpa using high_clear high above
    · rw [BitVec.getLsbD_and, BitVec.getLsbD_shiftLeft]
      simp [show index < 32 - count by omega]
  · exact .inl high

end Transpose

theorem transposeByte_eq : ∀ byte : Byte, transposeByte byte = byte.reverse := by decide +kernel

section Codes

/-- Looking up a proper prefix of a code finds an entry of another width. -/
def misses (lookup : Nat → Checked ErrorId Nat) (widths : List Nat) (width prefix' : Nat) : Bool :=
  match lookup prefix' with
  | .ok entry =>
    match widths[entry]? with
    | some other => other != width
    | none => false
  | .error _ => false

/-- The symbol has a code that the lookup finds at its width and not before. -/
def decodes (lookup : Nat → Checked ErrorId Nat) (widths codes tried : List Nat) (symbol : Nat) :
    Bool :=
  match widths[symbol]?, codes[symbol]? with
  | some width, some code =>
    decide (code < 2 ^ width) && (tried.dropWhile (· < width)).head? == some width && decide (lookup code = .ok symbol) &&
      (tried.takeWhile (· < width)).all fun shorter =>
        misses lookup widths shorter (code % 2 ^ shorter)
  | _, _ => false

theorem decodes_lec : ∀ symbol ∈ List.range 293,
    decodes getLECindex huffLenLEC huffCodeLEC lecWidths symbol = true := by decide +kernel

theorem decodes_lom : ∀ symbol ∈ List.range 32,
    decodes getLOMindex huffLenLOM huffCodeLOM lomWidths symbol = true := by decide +kernel

end Codes

end Redemption.Mppc
