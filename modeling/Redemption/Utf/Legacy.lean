import Redemption.Foundation.Buffer
import Redemption.Utf.Utf16

/-! The converters between a source and a target that have sizes of their own. What is written
stands at the start of the target; `i_t` is the number of these bytes. -/
namespace Redemption.Utf.Legacy

open Redemption.Foundation

/-- What stops a converter: it reads no byte of the source, or writes past the target. -/
abbrev Converting := Checked Empty

/-- `s[index]`, in the bytes that are left of the source. -/
def byteAt (source : List Byte) (index : Nat) : Converting Byte :=
  match source[index]? with
  | some byte => .ok byte
  | none => .error .outOfBounds

/-- Stores to the places from `i_t` on. -/
def write (size : Nat) (out bytes : List Byte) : Converting (List Byte) :=
  if out.length + bytes.length ≤ size then .ok (out ++ bytes) else .error .outOfBounds

/-- The part of a code that a byte holds. -/
def part (byte mask : Byte) : BitVec 32 := (byte &&& mask).setWidth 32

/-- The sequence behind a byte in `UTF8toUTF16`: its code and how many bytes it takes from `rest`,
or nothing where the function returns. -/
def sequence (c : Byte) (rest : List Byte) : Converting (Option (BitVec 32 × Nat)) :=
  let lead := c >>> 4
  if lead = 0xC ∨ lead = 0xD then
    -- i + 1 > source.size()
    if rest.length + 1 < 1 then .ok none
    else do
      let b ← byteAt rest 0
      return some ((part c 0x1F <<< 6) ||| part b 0x3F, 1)
  else if lead = 0xE then
    if rest.length + 1 < 2 then .ok none
    else do
      let b ← byteAt rest 0
      let d ← byteAt rest 1
      return some ((part c 0x0F <<< 12) ||| (part b 0x3F <<< 6) ||| part d 0x3F, 2)
  else if lead = 0xF then
    if rest.length + 1 < 3 then .ok none
    else do
      let b ← byteAt rest 0
      let d ← byteAt rest 1
      let e ← byteAt rest 2
      return some ((part c 0x07 <<< 18) ||| (part b 0x3F <<< 12) ||| (part d 0x3F <<< 6) |||
        part e 0x3F, 3)
  else if 8 ≤ lead.toNat then .ok none
  else .ok (some (part c 0xFF, 0))

/-- The loop of `UTF8toUTF16`; `more` bytes belong to the last sequence. -/
def utf8ToUtf16From (size : Nat) : Nat → List Byte → List Byte → Converting (List Byte)
  | _, [], out => .ok out
  | more + 1, _ :: rest, out => utf8ToUtf16From size more rest out
  | 0, c :: rest, out =>
    if c = 0 then .ok out
    else
      match sequence c rest with
      | .error fault => .error fault
      | .ok none => .ok out
      | .ok (some (ucode, more)) =>
        if size < out.length + 2 then .ok out
        else
          match write size out [ucode.setWidth 8, (ucode >>> 8).setWidth 8] with
          | .error fault => .error fault
          | .ok out => utf8ToUtf16From size more rest out

/-- `UTF8toUTF16`. -/
def utf8ToUtf16 (source : List Byte) (size : Nat) : Converting (List Byte) :=
  utf8ToUtf16From size 0 source []

/-- The bytes of a unit that is not zero. -/
def unitUtf8 (lo hi : Byte) : List Byte :=
  if hi &&& 0xF8#8 ≠ 0 then
    [0xE0#8 ||| ((hi >>> 4) &&& 0x0F#8), 0x80#8 ||| ((hi &&& 0x0F#8) <<< 2) ||| (lo >>> 6),
      0x80#8 ||| (lo &&& 0x3F#8)]
  else if hi ≠ 0 ∨ lo &&& 0x80#8 ≠ 0 then
    [0xC0#8 ||| ((hi <<< 2) &&& 0x1C#8) ||| ((lo >>> 6) &&& 3#8), 0x80#8 ||| (lo &&& 0x3F#8)]
  else [lo]

/-- The loop of `UTF16toUTF8` and `UTF16toUTF8_buf`: what reads a unit, and whether a zero is
written at the end of the text. -/
def unitsToUtf8 {σ : Type} (next : σ → Converting ((Byte × Byte) × σ)) (endsZero : Bool)
    (size : Nat) : Nat → σ → List Byte → Converting (List Byte)
  | 0, _, out => .ok out
  | count + 1, source, out =>
    match next source with
    | .error fault => .error fault
    | .ok ((lo, hi), source) =>
      if lo = 0 ∧ hi = 0 then
        if endsZero ∧ out.length + 1 ≤ size then write size out [0] else .ok out
      else if size < out.length + (unitUtf8 lo hi).length then .ok out
      else
        match write size out (unitUtf8 lo hi) with
        | .error fault => .error fault
        | .ok out => unitsToUtf8 next endsZero size count source out

/-- Two bytes of the source. -/
def nextBytes (source : List Byte) : Converting ((Byte × Byte) × List Byte) := do
  let lo ← byteAt source 0
  let hi ← byteAt source 1
  return ((lo, hi), source.drop 2)

/-- A number of the source. -/
def nextUnit : List (BitVec 16) → Converting ((Byte × Byte) × List (BitVec 16))
  | unit :: rest => .ok (((unit &&& 0xff).setWidth 8, (unit >>> 8).setWidth 8), rest)
  | [] => .error .outOfBounds

/-- `UTF16toUTF8` of `utf16len` units. -/
def utf16ToUtf8 (source : List Byte) (utf16len size : Nat) : Converting (List Byte) :=
  unitsToUtf8 nextBytes true size utf16len source []

/-- `UTF16toUTF8` of numbers. -/
def utf16NumbersToUtf8 (source : List (BitVec 16)) (utf16len size : Nat) : Converting (List Byte) :=
  unitsToUtf8 nextUnit true size utf16len source []

/-- `UTF16toUTF8_buf`. -/
def utf16ToUtf8Buf (source : List Byte) (size : Nat) : Converting (List Byte) :=
  let len := source.length - source.length % 2
  unitsToUtf8 nextBytes false size (len / 2) source []

/-- `UTF16toUTF8_buf` of one number. -/
def utf16NumberToUtf8Buf (source : BitVec 16) (size : Nat) : Converting (List Byte) :=
  let bytes := unitUtf8 ((source &&& 0xff).setWidth 8) ((source >>> 8).setWidth 8)
  if bytes.length ≤ size then write size [] bytes else .ok []

/-- `UTF16ToLatin1LUT`. -/
def utf16ToLatin1Lut : List (Nat × Byte) :=
  [(0x0081, 0x81), (0x008D, 0x8D), (0x008F, 0x8F), (0x0090, 0x90),
    (0x009D, 0x9D), (0x0152, 0x8C), (0x0153, 0x9C), (0x0160, 0x8A),
    (0x0161, 0x9A), (0x0178, 0x9F), (0x017D, 0x8E), (0x017E, 0x9E),
    (0x0192, 0x83), (0x02C6, 0x88), (0x02DC, 0x98), (0x2013, 0x96),
    (0x2014, 0x97), (0x2018, 0x91), (0x2019, 0x92), (0x201A, 0x82),
    (0x201C, 0x93), (0x201D, 0x94), (0x201E, 0x84), (0x2020, 0x86),
    (0x2021, 0x87), (0x2022, 0x95), (0x2026, 0x85), (0x2030, 0x89),
    (0x2039, 0x8B), (0x203A, 0x9B), (0x20AC, 0x80), (0x2122, 0x99)]

/-- The search in the table, which is in order. -/
def latin1Pair (src : Nat) : List (Nat × Byte) → Option Byte
  | [] => none
  | (utf16, latin1) :: rest =>
    if utf16 = src then some latin1 else if src < utf16 then none else latin1Pair src rest

/-- The `converter` of `UTF16toLatin1`. -/
def latin1Of (src : Nat) : Option Byte :=
  if src < 0x0080 ∨ (0x9F < src ∧ src < 0x100) then some (BitVec.ofNat 8 src)
  else if 0x2122 < src then none
  else latin1Pair src utf16ToLatin1Lut

/-- The loop of `UTF16toLatin1`, with the units and the room that remain. -/
def utf16ToLatin1From (size : Nat) :
    Nat → Nat → List Byte → List Byte → Converting (List Byte)
  | 0, _, _, out => .ok out
  | units + 1, room, source, out =>
    if room = 0 then .ok out
    else
      match nextBytes source with
      | .error fault => .error fault
      | .ok ((lo, hi), source) =>
        match latin1Of (hi.toNat * 256 + lo.toNat) with
        | none => utf16ToLatin1From size units room source out
        | some latin1 =>
          match write size out [latin1] with
          | .error fault => .error fault
          | .ok out => utf16ToLatin1From size units (room - 1) source out

/-- `UTF16toLatin1` of `utf16len` bytes. -/
def utf16ToLatin1 (source : List Byte) (utf16len latin1Len : Nat) : Converting (List Byte) :=
  let utf16len := utf16len - utf16len % 2
  utf16ToLatin1From latin1Len (utf16len / 2) latin1Len source []

/-- The loop of `Latin1toUTF8`; the room that remains is a number of 64 bits. -/
def latin1ToUtf8From (size : Nat) : List Byte → BitVec 64 → List Byte → Converting (List Byte)
  | [], _, out => .ok out
  | src :: rest, remaining, out =>
    if src < 0x80#8 then
      match write size out [src] with
      | .error fault => .error fault
      | .ok out => latin1ToUtf8From size rest (remaining - 1) out
    else if remaining.toNat < 2 then .ok out
    else
      match write size out [(src >>> 6) ||| 0xC0#8, (src &&& 0x3f#8) ||| 0x80#8] with
      | .error fault => .error fault
      | .ok out => latin1ToUtf8From size rest (remaining - 2) out

/-- `Latin1toUTF8`. -/
def latin1ToUtf8 (source : List Byte) (utf8Len : BitVec 64) : Converting (List Byte) :=
  latin1ToUtf8From utf8Len.toNat source utf8Len []

/-- All accesses are inside, and no more is returned than there is room for. -/
def Stays (size : Nat) (result : Converting (List Byte)) : Prop :=
  ∃ out, result = .ok out ∧ out.length ≤ size

section Inside

variable {size : Nat} {source out bytes : List Byte}

theorem write_of_le (room : out.length + bytes.length ≤ size) :
    write size out bytes = .ok (out ++ bytes) := if_pos room

theorem stays_ok : Stays size (.ok out) ↔ out.length ≤ size := by
  constructor
  · rintro ⟨_, same, fits⟩
    cases same
    exact fits
  · exact fun fits => ⟨out, rfl, fits⟩

theorem not_stays_error (fault : Fault Empty) : ¬Stays size (.error fault) := by
  rintro ⟨_, same, _⟩
  cases same

/-- So many units can be read. -/
def Supplies {σ : Type} (next : σ → Converting ((Byte × Byte) × σ)) : Nat → σ → Prop
  | 0, _ => True
  | count + 1, source => ∃ unit rest, next source = .ok (unit, rest) ∧ Supplies next count rest

theorem nextBytes_cons (lo hi : Byte) (rest : List Byte) :
    nextBytes (lo :: hi :: rest) = .ok ((lo, hi), rest) := rfl

theorem nextBytes_supplies {count : Nat} (enough : 2 * count ≤ source.length) :
    Supplies nextBytes count source := by
  induction count generalizing source with
  | zero => trivial
  | succ count ih =>
    match source, enough with
    | lo :: hi :: rest, enough =>
      refine ⟨(lo, hi), rest, nextBytes_cons lo hi rest, ih ?_⟩
      simp only [List.length_cons] at enough
      omega

theorem nextUnit_supplies {count : Nat} {numbers : List (BitVec 16)}
    (enough : count ≤ numbers.length) : Supplies nextUnit count numbers := by
  induction count generalizing numbers with
  | zero => trivial
  | succ count ih =>
    match numbers, enough with
    | unit :: rest, enough => exact ⟨_, rest, rfl, ih (Nat.le_of_succ_le_succ enough)⟩

theorem unitsToUtf8_stays {σ : Type} {next : σ → Converting ((Byte × Byte) × σ)}
    {endsZero : Bool} {count : Nat} {units : σ} (supplies : Supplies next count units)
    (fits : out.length ≤ size) : Stays size (unitsToUtf8 next endsZero size count units out) := by
  induction count generalizing units out with
  | zero => exact stays_ok.mpr fits
  | succ count ih =>
    obtain ⟨⟨lo, hi⟩, rest, given, supplies⟩ := supplies
    rw [unitsToUtf8, given]
    dsimp only
    split
    · split
      · next room =>
        rw [write_of_le room.2, stays_ok, List.length_append]
        exact room.2
      · exact stays_ok.mpr fits
    · split
      · exact stays_ok.mpr fits
      · next room =>
        have room := Nat.not_lt.mp room
        rw [write_of_le room]
        exact ih supplies (by rwa [List.length_append])

theorem utf16ToLatin1From_stays {units room : Nat} (enough : 2 * units ≤ source.length)
    (fits : out.length + room ≤ size) : Stays size (utf16ToLatin1From size units room source out) := by
  induction units generalizing room source out with
  | zero => exact stays_ok.mpr (by omega)
  | succ units ih =>
    rw [utf16ToLatin1From]
    split
    · exact stays_ok.mpr (by omega)
    · match source, enough with
      | lo :: hi :: rest, enough =>
        simp only [List.length_cons] at enough
        rw [nextBytes_cons]
        dsimp only
        split
        · exact ih (by omega) fits
        · rw [write_of_le (by rw [List.length_singleton]; omega)]
          exact ih (by omega) (by rw [List.length_append, List.length_singleton]; omega)

/-- There is room for each ASCII character that is reached. -/
def Roomy : List Byte → Nat → Prop
  | [], _ => True
  | src :: rest, room =>
    if src < 0x80#8 then 1 ≤ room ∧ Roomy rest (room - 1)
    else 2 ≤ room → Roomy rest (room - 2)

theorem latin1ToUtf8From_stays_iff {remaining : BitVec 64}
    (whole : out.length + remaining.toNat = size) :
    Stays size (latin1ToUtf8From size source remaining out) ↔ Roomy source remaining.toNat := by
  induction source generalizing remaining out with
  | nil => exact iff_of_true (stays_ok.mpr (by omega)) trivial
  | cons src rest ih =>
    rw [latin1ToUtf8From, Roomy]
    split
    · by_cases room : 1 ≤ remaining.toNat
      · have less : (remaining - 1).toNat = remaining.toNat - 1 := BitVec.toNat_sub_of_le room
        rw [write_of_le (by rw [List.length_singleton]; omega), and_iff_right room, ← less]
        exact ih (by rw [List.length_append, List.length_singleton]; omega)
      · refine iff_of_false ?_ fun both => room both.1
        rw [write, if_neg (by rw [List.length_singleton]; omega)]
        exact not_stays_error _
    · split
      · next full => exact iff_of_true (stays_ok.mpr (by omega)) fun room => by omega
      · next room =>
        have room : 2 ≤ remaining.toNat := by omega
        have less : (remaining - 2).toNat = remaining.toNat - 2 := BitVec.toNat_sub_of_le room
        rw [write_of_le (by simp only [List.length_cons, List.length_nil]; omega),
          forall_prop_of_true room, ← less]
        exact ih (by simp only [List.length_append, List.length_cons, List.length_nil]; omega)

/-- The bytes that a byte says will follow it. -/
def announced (c : Byte) : Nat :=
  if c >>> 4 = 0xC ∨ c >>> 4 = 0xD then 1
  else if c >>> 4 = 0xE then 2
  else if c >>> 4 = 0xF then 3
  else 0

/-- A byte at which the text ends: a zero, or one that belongs behind another. -/
def Last (c : Byte) : Prop := c = 0 ∨ (0x80 ≤ c.toNat ∧ c.toNat < 0xC0)

/-- No sequence that is reached lacks just its last byte. -/
def Uncut : Nat → List Byte → Nat → Prop
  | _, [], _ => True
  | more + 1, _ :: rest, room => Uncut more rest room
  | 0, c :: rest, room =>
    Last c ∨ (rest.length + 1 ≠ announced c ∧
      (announced c ≤ rest.length → 2 ≤ room → Uncut (announced c) rest (room - 2)))

/-- How the sequence behind a byte is read, by the number of bytes that are left. -/
inductive SequenceResult (c : Byte) (rest : List Byte) :
    Converting (Option (BitVec 32 × Nat)) → Prop where
  | whole (ucode : BitVec 32) (enough : announced c ≤ rest.length) :
      SequenceResult c rest (.ok (some (ucode, announced c)))
  | missing (few : rest.length + 1 < announced c) : SequenceResult c rest (.ok none)
  | cut (one : rest.length + 1 = announced c) : SequenceResult c rest (.error .outOfBounds)

theorem sequence_last {c : Byte} {rest : List Byte} (last : 0x80 ≤ c.toNat ∧ c.toNat < 0xC0) :
    sequence c rest = .ok none := by
  have lead : (c >>> 4).toNat = c.toNat / 16 := by
    rw [BitVec.toNat_ushiftRight, Nat.shiftRight_eq_div_pow]
  have other (value : Byte) (high : 0xC ≤ value.toNat) : c >>> 4 ≠ value :=
    shift4_ne (by omega)
  have two : ¬(c >>> 4 = 0xC ∨ c >>> 4 = 0xD) :=
    not_or.mpr ⟨other _ (by decide), other _ (by decide)⟩
  rw [sequence, if_neg two, if_neg (other _ (by decide)), if_neg (other _ (by decide)),
    if_pos (by omega)]

theorem sequence_result {c : Byte} {rest : List Byte} (other : ¬(0x80 ≤ c.toNat ∧ c.toNat < 0xC0)) :
    SequenceResult c rest (sequence c rest) := by
  have lead : (c >>> 4).toNat = c.toNat / 16 := by
    rw [BitVec.toNat_ushiftRight, Nat.shiftRight_eq_div_pow]
  have least : announced c = 0 → SequenceResult c rest (.ok (some (part c 0xFF, 0))) := by
    intro none
    have whole := @SequenceResult.whole c rest (part c 0xFF) (by omega)
    rwa [none] at whole
  unfold sequence
  dsimp only
  split
  · next two =>
    have one : announced c = 1 := if_pos two
    rw [if_neg (by omega)]
    match rest with
    | [] => exact .cut one.symm
    | b :: rest => exact one ▸ @SequenceResult.whole c (b :: rest) _ (by simp [one])
  · next two =>
    split
    · next three =>
      have more : announced c = 2 := (if_neg two).trans (if_pos three)
      match rest with
      | [] => exact .missing (by rw [more]; decide)
      | [b] => exact .cut more.symm
      | b :: d :: rest =>
        rw [if_neg (by simp only [List.length_cons]; omega)]
        exact more ▸ @SequenceResult.whole c (b :: d :: rest) _ (by simp [more])
    · next three =>
      split
      · next four =>
        have more : announced c = 3 := (if_neg two).trans ((if_neg three).trans (if_pos four))
        match rest with
        | [] => exact .missing (by rw [more]; decide)
        | [b] => exact .missing (by rw [more]; exact Nat.lt_succ_self 2)
        | [b, d] => exact .cut more.symm
        | b :: d :: e :: rest =>
          rw [if_neg (by simp only [List.length_cons]; omega)]
          exact more ▸ @SequenceResult.whole c (b :: d :: e :: rest) _ (by simp [more])
      · next four =>
        have none : announced c = 0 := (if_neg two).trans ((if_neg three).trans (if_neg four))
        have ascii : ¬8 ≤ (c >>> 4).toNat := by
          intro large
          rcases (by omega : c.toNat / 16 = 0xC ∨ c.toNat / 16 = 0xD ∨ c.toNat / 16 = 0xE ∨
            c.toNat / 16 = 0xF) with same | same | same | same
          · exact two (.inl (shift4 same))
          · exact two (.inr (shift4 same))
          · exact three (shift4 same)
          · exact four (shift4 same)
        rw [if_neg ascii]
        exact least none

theorem utf8ToUtf16From_stays_iff {more : Nat} (fits : out.length ≤ size) :
    Stays size (utf8ToUtf16From size more source out) ↔ Uncut more source (size - out.length) := by
  induction source generalizing more out with
  | nil =>
    rw [utf8ToUtf16From, Uncut]
    exact iff_of_true (stays_ok.mpr fits) trivial
  | cons c rest ih =>
    cases more with
    | succ more =>
      rw [utf8ToUtf16From, Uncut]
      exact ih fits
    | zero =>
      rw [utf8ToUtf16From, Uncut]
      by_cases zero : c = 0
      · rw [if_pos zero]
        exact iff_of_true (stays_ok.mpr fits) (.inl (.inl zero))
      · rw [if_neg zero]
        by_cases last : 0x80 ≤ c.toNat ∧ c.toNat < 0xC0
        · rw [sequence_last last]
          exact iff_of_true (stays_ok.mpr fits) (.inl (.inr last))
        · rw [or_iff_right (show ¬Last c from not_or.mpr ⟨zero, last⟩)]
          generalize read : sequence c rest = result
          have read := read ▸ sequence_result last
          cases read with
          | whole ucode enough =>
            rw [and_iff_right (by omega), forall_prop_of_true enough]
            dsimp only
            split
            · next full => exact iff_of_true (stays_ok.mpr fits) fun room => by omega
            · next room =>
              rw [write_of_le (by simp only [List.length_cons, List.length_nil]; omega),
                forall_prop_of_true (by omega)]
              rw [ih (by simp only [List.length_append, List.length_cons, List.length_nil]; omega),
                List.length_append, ← Nat.sub_sub]
              rfl
          | missing few =>
            exact iff_of_true (stays_ok.mpr fits) ⟨by omega, fun enough => by omega⟩
          | cut one => exact iff_of_false (not_stays_error _) fun both => both.1 one

end Inside

section Text

variable {char : Char} {size : Nat} {out : List Byte}

theorem toNat_or_low {width k high : Nat} {a b : BitVec width} (above : a.toNat = 2 ^ k * high)
    (low : b.toNat < 2 ^ k) : (a ||| b).toNat = 2 ^ k * high + b.toNat := by
  rw [BitVec.toNat_or, above, Nat.two_pow_add_eq_or_of_lt low]

theorem three_bytes : ∀ hi : Byte,
    (0xE0#8 ||| ((hi >>> 4) &&& 0x0F#8)).toNat = 0xE0 + hi.toNat / 16 ∧
      (0x80#8 ||| ((hi &&& 0x0F#8) <<< 2)).toNat = 2 ^ 2 * (0x20 + hi.toNat % 16) ∧
      (hi &&& 0xF8#8 ≠ 0 ↔ 8 ≤ hi.toNat) := by
  decide

theorem two_bytes : ∀ hi : Byte,
    (0xC0#8 ||| ((hi <<< 2) &&& 0x1C#8)).toNat = 2 ^ 2 * (0x30 + hi.toNat % 8) ∧
      (hi ≠ 0 ↔ 1 ≤ hi.toNat) := by
  decide

theorem low_bytes : ∀ lo : Byte, (lo >>> 6).toNat = lo.toNat / 64 ∧
    ((lo >>> 6) &&& 3#8).toNat = lo.toNat / 64 ∧
    (0x80#8 ||| (lo &&& 0x3F#8)).toNat = 0x80 + lo.toNat % 64 ∧
    (lo &&& 0x80#8 ≠ 0 ↔ 0x80 ≤ lo.toNat) := by
  decide

theorem unitUtf8_char (plane : char.toNat ≤ 0xFFFF) :
    unitUtf8 (BitVec.ofNat 8 char.toNat) (BitVec.ofNat 8 (char.toNat / 2 ^ 8)) = utf8 char := by
  have low : (BitVec.ofNat 8 char.toNat).toNat = char.toNat % 256 := BitVec.toNat_ofNat _ _
  have high : (BitVec.ofNat 8 (char.toNat / 2 ^ 8)).toNat = char.toNat / 256 := by
    rw [BitVec.toNat_ofNat]
    omega
  generalize BitVec.ofNat 8 (char.toNat / 2 ^ 8) = hi at high ⊢
  obtain ⟨first, middle, wide⟩ := three_bytes hi
  obtain ⟨lead, some⟩ := two_bytes hi
  unfold unitUtf8
  by_cases three : 0x7FF < char.toNat
  · obtain ⟨a, b, c, bytes, one, two, last⟩ := utf8_three three plane
    generalize BitVec.ofNat 8 char.toNat = lo at low ⊢
    obtain ⟨top, _, bottom, _⟩ := low_bytes lo
    have second := toNat_or_low middle (by rw [top]; omega : (lo >>> 6).toNat < 2 ^ 2)
    rw [if_pos (wide.mpr (by omega)), bytes]
    congr 1
    · exact BitVec.eq_of_toNat_eq (by omega)
    · congr 1
      · exact BitVec.eq_of_toNat_eq (by omega)
      · exact congrArg (fun byte => [byte]) (BitVec.eq_of_toNat_eq (by omega))
  · rw [if_neg (fun high' => by have := wide.mp high'; omega)]
    by_cases two : 0x7F < char.toNat
    · obtain ⟨a, b, bytes, one, last⟩ := utf8_two two (Nat.not_lt.mp three)
      generalize BitVec.ofNat 8 char.toNat = lo at low ⊢
      obtain ⟨_, top, bottom, upper⟩ := low_bytes lo
      have front := toNat_or_low lead (by rw [top]; omega : ((lo >>> 6) &&& 3#8).toNat < 2 ^ 2)
      rw [if_pos (by rw [some, upper]; omega), bytes]
      congr 1
      · exact BitVec.eq_of_toNat_eq (by omega)
      · exact congrArg (fun byte => [byte]) (BitVec.eq_of_toNat_eq (by omega))
    · obtain ⟨_, _, _, upper⟩ := low_bytes (BitVec.ofNat 8 char.toNat)
      rw [if_neg (by rw [some, upper]; omega), utf8_one (Nat.not_lt.mp two)]

theorem part_toNat : ∀ byte : Byte, (part byte 0x1F).toNat = byte.toNat % 32 ∧
    (part byte 0x0F).toNat = byte.toNat % 16 ∧ (part byte 0x3F).toNat = byte.toNat % 64 ∧
    (part byte 0xFF).toNat = byte.toNat := by
  decide

theorem sequence_two {c : Byte} (b : Byte) (rest : List Byte) (lead : c.toNat / 32 = 6) :
    sequence c (b :: rest) = .ok (some ((part c 0x1F <<< 6) ||| part b 0x3F, 1)) := by
  have two : c >>> 4 = 0xC ∨ c >>> 4 = 0xD := by
    rcases (by omega : c.toNat / 16 = 0xC ∨ c.toNat / 16 = 0xD) with even | odd
    · exact .inl (shift4 even)
    · exact .inr (shift4 odd)
  rw [sequence, if_pos two, if_neg (by omega)]
  rfl

theorem sequence_three {c : Byte} (b d : Byte) (rest : List Byte) (lead : c.toNat / 16 = 0xE) :
    sequence c (b :: d :: rest) =
      .ok (some ((part c 0x0F <<< 12) ||| (part b 0x3F <<< 6) ||| part d 0x3F, 2)) := by
  have two : ¬(c >>> 4 = 0xC ∨ c >>> 4 = 0xD) := by
    rintro (even | odd)
    · exact shift4_ne (by rw [lead]; decide) even
    · exact shift4_ne (by rw [lead]; decide) odd
  rw [sequence, if_neg two, if_pos (shift4 lead),
    if_neg (by simp only [List.length_cons]; omega)]
  rfl

theorem sequence_ascii {c : Byte} (rest : List Byte) (ascii : c.toNat < 0x80) :
    sequence c rest = .ok (some (part c 0xFF, 0)) := by
  have lead : (c >>> 4).toNat = c.toNat / 16 := by
    rw [BitVec.toNat_ushiftRight, Nat.shiftRight_eq_div_pow]
  have other (value : Byte) (high : 8 ≤ value.toNat) : c >>> 4 ≠ value := shift4_ne (by omega)
  have two : ¬(c >>> 4 = 0xC ∨ c >>> 4 = 0xD) :=
    not_or.mpr ⟨other _ (by decide), other _ (by decide)⟩
  rw [sequence, if_neg two, if_neg (other _ (by decide)), if_neg (other _ (by decide)),
    if_neg (by omega)]

theorem toNat_shift {value : BitVec 32} {k : Nat} (small : value.toNat * 2 ^ k < 2 ^ 32) :
    (value <<< k).toNat = 2 ^ k * value.toNat := by
  rw [BitVec.toNat_shiftLeft, Nat.shiftLeft_eq, Nat.mod_eq_of_lt small, Nat.mul_comm]

theorem sequence_char (plane : char.toNat ≤ 0xFFFF) (filled : char.toNat ≠ 0) :
    ∃ c tail, utf8 char = c :: tail ∧ c ≠ 0 ∧ ∀ rest, ∃ ucode : BitVec 32,
      sequence c (tail ++ rest) = .ok (some (ucode, tail.length)) ∧ ucode.toNat = char.toNat := by
  have nonzero {c : Byte} (some : c.toNat ≠ 0) : c ≠ 0 := by
    rintro rfl
    exact some rfl
  by_cases three : 0x7FF < char.toNat
  · obtain ⟨a, b, c, bytes, one, two, last⟩ := utf8_three three plane
    refine ⟨a, [b, c], bytes, nonzero (by omega), fun rest =>
      ⟨_, sequence_three b c rest (by omega), ?_⟩⟩
    have first := (part_toNat a).2.1
    have middle := (part_toNat b).2.2.1
    have low := (part_toNat c).2.2.1
    have front := toNat_shift (by rw [first]; omega : (part a 0x0F).toNat * 2 ^ 12 < 2 ^ 32)
    have next := toNat_shift (by rw [middle]; omega : (part b 0x3F).toNat * 2 ^ 6 < 2 ^ 32)
    have both := toNat_or_low front (by rw [next]; omega)
    have above : (part a 0x0F <<< 12 ||| part b 0x3F <<< 6).toNat =
        2 ^ 6 * (2 ^ 6 * (part a 0x0F).toNat + (part b 0x3F).toNat) := by
      omega
    rw [toNat_or_low above (by omega)]
    omega
  · by_cases two : 0x7F < char.toNat
    · obtain ⟨a, b, bytes, one, last⟩ := utf8_two two (Nat.not_lt.mp three)
      refine ⟨a, [b], bytes, nonzero (by omega), fun rest =>
        ⟨_, sequence_two b rest (by omega), ?_⟩⟩
      have first := (part_toNat a).1
      have low := (part_toNat b).2.2.1
      have front := toNat_shift (by rw [first]; omega : (part a 0x1F).toNat * 2 ^ 6 < 2 ^ 32)
      rw [toNat_or_low front (by omega)]
      omega
    · have small : (BitVec.ofNat 8 char.toNat).toNat = char.toNat := by
        rw [BitVec.toNat_ofNat]
        omega
      refine ⟨_, [], utf8_one (Nat.not_lt.mp two), nonzero (by omega), fun rest =>
        ⟨_, sequence_ascii rest (by omega), ?_⟩⟩
      rw [(part_toNat _).2.2.2, small]

theorem utf8ToUtf16From_skip (tail rest : List Byte) :
    utf8ToUtf16From size tail.length (tail ++ rest) out = utf8ToUtf16From size 0 rest out := by
  induction tail with
  | nil => rfl
  | cons byte tail ih => exact ih

variable {text : List Char}

theorem utf16le_bytes (plane : char.toNat ≤ 0xFFFF) :
    utf16le char = [BitVec.ofNat 8 char.toNat, BitVec.ofNat 8 (char.toNat / 2 ^ 8)] :=
  utf16le_one plane

/-- A text of the basic multilingual plane, without NUL. -/
def Plain (text : List Char) : Prop := ∀ char ∈ text, char.toNat ≤ 0xFFFF ∧ char.toNat ≠ 0

instance : Decidable (Plain text) := List.decidableBAll _ _

theorem utf8ToUtf16From_text (plain : Plain text) (room : out.length + 2 * text.length ≤ size) :
    utf8ToUtf16From size 0 (text.flatMap utf8) out = .ok (out ++ text.flatMap utf16le) := by
  induction text generalizing out with
  | nil => exact congrArg Except.ok (List.append_nil out).symm
  | cons char rest ih =>
    obtain ⟨plane, filled⟩ := plain char (List.mem_cons_self ..)
    obtain ⟨c, tail, bytes, nonzero, reads⟩ := sequence_char plane filled
    obtain ⟨ucode, read, value⟩ := reads (rest.flatMap utf8)
    have low : ucode.setWidth 8 = BitVec.ofNat 8 char.toNat := by
      rw [← value]
      rfl
    have high : (ucode >>> 8).setWidth 8 = BitVec.ofNat 8 (char.toNat / 2 ^ 8) := by
      rw [← value, ← Nat.shiftRight_eq_div_pow, ← BitVec.toNat_ushiftRight]
      rfl
    have unit := utf16le_bytes plane
    have length : (utf16le char).length = 2 := by
      rw [unit]
      rfl
    rw [List.length_cons] at room
    rw [List.flatMap_cons, List.flatMap_cons, bytes, List.cons_append, utf8ToUtf16From,
      if_neg nonzero, read]
    dsimp only
    rw [if_neg (by omega), low, high, ← unit, write_of_le (by omega)]
    dsimp only
    rw [utf8ToUtf16From_skip, ih (fun next member => plain next (List.mem_cons_of_mem _ member))
      (by rw [List.length_append]; omega), List.append_assoc]

theorem unitsToUtf8_text (plain : Plain text)
    (room : out.length + (text.flatMap utf8).length ≤ size) :
    unitsToUtf8 nextBytes false size text.length (text.flatMap utf16le) out =
      .ok (out ++ text.flatMap utf8) := by
  induction text generalizing out with
  | nil => exact congrArg Except.ok (List.append_nil out).symm
  | cons char rest ih =>
    obtain ⟨plane, filled⟩ := plain char (List.mem_cons_self ..)
    have nonzero : ¬(BitVec.ofNat 8 char.toNat = 0 ∧ BitVec.ofNat 8 (char.toNat / 2 ^ 8) = 0) := by
      rintro ⟨low, high⟩
      have low := congrArg BitVec.toNat low
      have high := congrArg BitVec.toNat high
      rw [BitVec.toNat_ofNat] at low high
      change _ = 0 at low
      change _ = 0 at high
      omega
    rw [List.flatMap_cons, List.length_append] at room
    have source : nextBytes ((char :: rest).flatMap utf16le) =
        .ok ((BitVec.ofNat 8 char.toNat, BitVec.ofNat 8 (char.toNat / 2 ^ 8)),
          rest.flatMap utf16le) := by
      rw [List.flatMap_cons, utf16le_bytes plane]
      exact nextBytes_cons _ _ _
    rw [List.length_cons, unitsToUtf8, source]
    dsimp only
    rw [if_neg nonzero, unitUtf8_char plane, if_neg (by omega), write_of_le (by omega)]
    dsimp only
    rw [ih (fun next member => plain next (List.mem_cons_of_mem _ member))
      (by rw [List.length_append]; omega), List.flatMap_cons, List.append_assoc]

theorem length_flatMap_utf16le (plain : Plain text) :
    (text.flatMap utf16le).length = 2 * text.length := by
  induction text with
  | nil => rfl
  | cons char rest ih =>
    have rest := ih fun next member => plain next (List.mem_cons_of_mem _ member)
    rw [List.flatMap_cons, utf16le_bytes (plain char (List.mem_cons_self ..)).1,
      List.length_append, rest]
    simp only [List.length_cons, List.length_nil]
    omega

theorem roundTrip (plain : Plain text) {room : Nat} (enough : 2 * text.length ≤ room)
    (enough' : (text.flatMap utf8).length ≤ size) :
    utf8ToUtf16 (text.flatMap utf8) room = .ok (text.flatMap utf16le) ∧
      utf16ToUtf8Buf (text.flatMap utf16le) size = .ok (text.flatMap utf8) := by
  constructor
  · exact utf8ToUtf16From_text plain (by rw [List.length_nil]; omega)
  · rw [utf16ToUtf8Buf, length_flatMap_utf16le plain, Nat.mul_mod_right, Nat.sub_zero,
      Nat.mul_div_cancel_left _ Nat.two_pos]
    exact unitsToUtf8_text plain (by rw [List.length_nil]; omega)

end Text

section Converters

variable {size : Nat} {source : List Byte}

theorem utf8ToUtf16_stays_iff : Stays size (utf8ToUtf16 source size) ↔ Uncut 0 source size :=
  utf8ToUtf16From_stays_iff (Nat.zero_le _)

theorem utf16ToUtf8Buf_stays : Stays size (utf16ToUtf8Buf source size) :=
  unitsToUtf8_stays (nextBytes_supplies (by omega)) (Nat.zero_le _)

theorem utf16NumberToUtf8Buf_stays (number : BitVec 16) :
    Stays size (utf16NumberToUtf8Buf number size) := by
  unfold utf16NumberToUtf8Buf
  dsimp only
  split
  · next room =>
    rw [write_of_le (by rw [List.length_nil]; omega)]
    exact stays_ok.mpr room
  · exact stays_ok.mpr (Nat.zero_le _)

/-- All the converters stay inside the source and the target, but for two: a sequence that lacks
its last byte, and an ASCII character for which there is no room. -/
theorem converters_stay_iff (source : List Byte) (numbers : List (BitVec 16)) (number : BitVec 16)
    (size : BitVec 64) :
    (Stays size.toNat (utf8ToUtf16 source size.toNat) ↔ Uncut 0 source size.toNat) ∧
      (∀ units, 2 * units ≤ source.length →
        Stays size.toNat (utf16ToUtf8 source units size.toNat)) ∧
      (∀ units, units ≤ numbers.length →
        Stays size.toNat (utf16NumbersToUtf8 numbers units size.toNat)) ∧
      Stays size.toNat (utf16ToUtf8Buf source size.toNat) ∧
      Stays size.toNat (utf16NumberToUtf8Buf number size.toNat) ∧
      (∀ bytes, bytes ≤ source.length →
        Stays size.toNat (utf16ToLatin1 source bytes size.toNat)) ∧
      (Stays size.toNat (latin1ToUtf8 source size) ↔ Roomy source size.toNat) ∧
      ∀ text, Plain text → ∀ room room', 2 * text.length ≤ room →
        (text.flatMap utf8).length ≤ room' →
        ∃ units, utf8ToUtf16 (text.flatMap utf8) room = .ok units ∧
          utf16ToUtf8Buf units room' = .ok (text.flatMap utf8) := by
  refine ⟨utf8ToUtf16_stays_iff, ?_, ?_, utf16ToUtf8Buf_stays, utf16NumberToUtf8Buf_stays number,
    ?_, ?_, ?_⟩
  · intro units enough
    exact unitsToUtf8_stays (nextBytes_supplies enough) (Nat.zero_le _)
  · intro units enough
    exact unitsToUtf8_stays (nextUnit_supplies enough) (Nat.zero_le _)
  · intro bytes enough
    exact utf16ToLatin1From_stays (by omega) (by rw [List.length_nil]; omega)
  · exact latin1ToUtf8From_stays_iff (by rw [List.length_nil]; omega)
  · intro text plain room room' enough enough'
    exact ⟨_, roundTrip plain enough enough'⟩

/-- The round trip of a text, and what the converters make of a few bytes. -/
theorem converters_stay_text : ∃ units, utf8ToUtf16 (['é', '€'].flatMap utf8) 4 = .ok units ∧
    utf16ToUtf8Buf units 5 = .ok (['é', '€'].flatMap utf8) :=
  (converters_stay_iff [] [] 0 0).2.2.2.2.2.2.2 ['é', '€']
    (by decide) 4 5 (by decide) (by decide)

/-- A first byte alone at the end, and an ASCII character without room. -/
theorem converters_leave :
    ¬Stays 10 (utf8ToUtf16 [0x61, 0xC3] 10) ∧ ¬Stays 0 (latin1ToUtf8 [0x61] 0) := by
  constructor
  · exact not_stays_error .outOfBounds
  · exact not_stays_error .outOfBounds

end Converters

end Redemption.Utf.Legacy
