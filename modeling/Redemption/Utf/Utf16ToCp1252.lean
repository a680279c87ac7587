import Redemption.Utf.Cp1252
import Redemption.Utf.EncodeSpec

/-! `Utf16LEToCp1252`, the inverse of `Cp1252ToUtf16LE`. -/
namespace Redemption.Utf

open Redemption.Foundation

/-- `Cp1252ToUtf16LEBase::unchecked`: what is written. -/
def cp1252ToUtf16leBytes (input : List Byte) : List Byte := input.flatMap cp1252Unit

/-- How the decoder ends before the end of its input: it returns without success, or it does what
the language leaves undefined: an assertion that fails, a shift past the width of the number, a
lookup outside of the table or a read outside of the input. -/
inductive Halt where
  | failure (out : List Byte)
  | undefined
  deriving DecidableEq, Repr

/-- The entries that are not 0xff in a line of `lut_utf16le_to_cp1252_from_x80_to_x9F`. -/
def lutLine : Nat → List (Byte × Byte)
  | 0 => [(0xC6, 0x88), (0xDC, 0x98)]
  | 1 => [(0x52, 0x8C), (0x53, 0x9C), (0x60, 0x8A), (0x61, 0x9A), (0x78, 0x9F), (0x7D, 0x8E),
      (0x7E, 0x9E), (0x92, 0x83)]
  | 2 => [(0x13, 0x96), (0x14, 0x97), (0x18, 0x91), (0x19, 0x92), (0x1A, 0x82), (0x1C, 0x93),
      (0x1D, 0x94), (0x1E, 0x84), (0x20, 0x86), (0x21, 0x87), (0x22, 0x95), (0x26, 0x85),
      (0x30, 0x89), (0x39, 0x8B), (0x3A, 0x9B), (0xAC, 0x80)]
  | _ => [(0x22, 0x99)]

/-- `lut_utf16le_to_cp1252_from_x80_to_x9F[itab][c0]`: 4 lines of 255 bytes. Only the first 240 of
a line are given a value, so that the others are zero. -/
def lutUtf16leToCp1252 (itab : Nat) (c0 : Byte) : Except Halt Byte :=
  if 4 ≤ itab ∨ 255 ≤ c0.toNat then .error .undefined
  else if 240 ≤ c0.toNat then .ok 0
  else .ok (((lutLine itab).lookup c0).getD 0xFF)

/-- `compatible_from_x80_to_x9F`. -/
def compatibleFromX80ToX9F : BitVec 32 :=
  (1 <<< (0x81 - 0x80)) ||| (1 <<< (0x8d - 0x80)) ||| (1 <<< (0x8f - 0x80)) |||
    (1 <<< (0x90 - 0x80)) ||| (1 <<< (0x9d - 0x80))

/-- `at_1_position`. -/
def at1Position : BitVec 64 :=
  (1 <<< 0x01) ||| (1 <<< 0x02) ||| (1 <<< 0x20) ||| (1 <<< 0x21)

/-- The code of a unit, if any, in `copy_and_advance_utf16le_1na_to_cp1252`. -/
def unitCode (c0 c1 : Byte) : Except Halt (Option Byte) := do
  -- assert(c1 || c0 >= 0x80)
  if c1 = 0 ∧ c0.toNat < 0x80 then .error .undefined
  else if c1 = 0 ∧ (0x9F < c0.toNat ∨
      (1#32 <<< (c0.toNat - 0x80)) &&& compatibleFromX80ToX9F ≠ 0) then .ok (some c0)
  -- 1ull << c1
  else if 64 ≤ c1.toNat then .error .undefined
  else if (1#64 <<< c1.toNat) &&& at1Position = 0 then .ok none
  else
    let itab := (c1 >>> 4) ||| (c1 &&& 1)
    let code ← lutUtf16leToCp1252 itab.toNat c0
    return if code ≠ 0xFF then some code else none

/-- `copy_and_advance_utf16le_1na_to_cp1252`, and the `return` of its callers where it fails. -/
def copyAndAdvance1na (cursor : Cursor) : Except Halt Cursor :=
  match cursor.input with
  | c0 :: c1 :: rest => do
    match ← unitCode c0 c1 with
    | some code => return ⟨rest, cursor.out ++ [code]⟩
    | none => .error (.failure cursor.out)
  | _ => .error .undefined

/-- `copy_and_advance_4utf16le_to_a` and its like: the low bytes of some units. -/
def copyAndAdvanceToA : Nat → Cursor → Except Halt Cursor
  | 0, cursor => .ok cursor
  | count + 1, cursor =>
    match cursor.input with
    | low :: _ :: rest => copyAndAdvanceToA count ⟨rest, cursor.out ++ [low]⟩
    | _ => .error .undefined

/-- A copy that is made if a word has no bit of the mask. -/
def copyIf (ascii : Bool) (count : Nat) (cursor : Cursor) : Except Halt Cursor :=
  if ascii then copyAndAdvanceToA count cursor else .ok cursor

/-- `u32_to_first_u16_endian`. -/
def u32ToFirstU16 (value : BitVec (8 * 4)) : BitVec (8 * 2) := (value &&& 0xffff).setWidth (8 * 2)

/-- The loop over 8 bytes or more, once. -/
def decodeEight (cursor : Cursor) : Except Halt Cursor :=
  let c8 := loadWord 8 cursor.input
  if c8 &&& 0xff80ff80ff80ff80 = 0 then copyAndAdvanceToA 4 cursor
  else do
    let c4 := u64ToFirstU32 c8
    let cursor ← copyIf (c4 &&& 0xff80ff80 = 0) 2 cursor
    -- still of the word at the start of the round
    let c2 := u32ToFirstU16 c4
    let cursor ← copyIf (c2 &&& 0xff80 = 0) 1 cursor
    copyAndAdvance1na cursor

/-- The loop over 2 bytes or more, once. -/
def decodeTwo (cursor : Cursor) : Except Halt Cursor :=
  if loadWord 2 cursor.input &&& 0xff80 = 0 then copyAndAdvanceToA 1 cursor
  else copyAndAdvance1na cursor

/-- A loop while so many bytes are left. -/
def decodeLoop (least : Nat) (round : Cursor → Except Halt Cursor) (cursor : Cursor) :
    Except Halt Cursor :=
  if least ≤ cursor.input.length then
    match round cursor with
    | .error halt => .error halt
    | .ok after =>
      if after.input.length < cursor.input.length then decodeLoop least round after
      else .error .undefined
  else .ok cursor
termination_by cursor.input.length

/-- `Utf16LEToCp1252::unchecked`, from somewhere in the text. -/
def decodeFrom (cursor : Cursor) : Except Halt Cursor := do
  let cursor ← decodeLoop 8 decodeEight cursor
  let cursor ←
    copyIf (4 ≤ cursor.input.length && loadWord 4 cursor.input &&& 0xff80ff80 = 0) 2 cursor
  decodeLoop 2 decodeTwo cursor

/-- What is written with the success, if the language defines it. -/
def outcome : Except Halt Cursor → Option (List Byte × Bool)
  | .ok cursor => some (cursor.out, true)
  | .error (.failure out) => some (out, false)
  | .error .undefined => none

/-- `Utf16LEToCp1252::unchecked`. -/
def utf16leToCp1252 (input : List Byte) : Option (List Byte × Bool) := outcome (decodeFrom ⟨input, []⟩)

/-! The characters one by one. -/

abbrev Utf16Unit := Byte × Byte

/-- The units of a text, without half a unit at its end. -/
def units : List Byte → List Utf16Unit
  | low :: high :: rest => (low, high) :: units rest
  | _ => []

/-- The character that is written as a unit. -/
def codeOf (unit : Utf16Unit) : Option Byte :=
  ((List.range 256).map (BitVec.ofNat 8)).find? fun code => cp1252Unit code = [unit.1, unit.2]

/-- The conversion of the longest front that has one, and whether that is all. -/
def decoded : List Utf16Unit → List Byte × Bool
  | [] => ([], true)
  | unit :: rest =>
    match codeOf unit with
    | none => ([], false)
    | some code => (code :: (decoded rest).1, (decoded rest).2)

section Codes

variable {low high code : Byte}

/-- The code is one that UTF-16 keeps. -/
def Same (code : Byte) : Prop := code.toNat < 0x80 ∨ 0x9F < code.toNat ∨
  (1#32 <<< (code.toNat - 0x80)) &&& compatibleFromX80ToX9F ≠ 0

instance : Decidable (Same code) := inferInstanceAs (Decidable (_ ∨ _ ∨ _))

/-- The line of the table that a high byte leads to. -/
def lineOf (high : Byte) : List (Byte × Byte) := lutLine ((high >>> 4) ||| (high &&& 1)).toNat

/-- What is written for a character: itself and a zero, or an entry of the table. -/
theorem cp1252Unit_cases : ∀ code : Byte,
    (cp1252Unit code = [code, 0] ∧ Same code) ∨
      ((∃ high ∈ [0x02, 0x01, 0x20, 0x21], ∃ entry ∈ lineOf high,
        entry.2 = code ∧ entry.1.toNat < 240 ∧ cp1252Unit code = [entry.1, high]) ∧
          128 ≤ code.toNat) := by
  decide

theorem cp1252Unit_same : ∀ code : Byte, Same code → cp1252Unit code = [code, 0] := by decide

/-- An entry of the table. -/
structure Entry (high : Byte) (entry : Byte × Byte) : Prop where
  unit : cp1252Unit entry.2 = [entry.1, high]
  found : (lineOf high).lookup entry.1 = some entry.2
  some : entry.2 ≠ 0xFF

instance (high : Byte) (entry : Byte × Byte) : Decidable (Entry high entry) :=
  decidable_of_iff (cp1252Unit entry.2 = [entry.1, high] ∧
      (lineOf high).lookup entry.1 = some entry.2 ∧ entry.2 ≠ 0xFF)
    ⟨fun all => ⟨all.1, all.2.1, all.2.2⟩, fun entry => ⟨entry.unit, entry.found, entry.some⟩⟩

theorem lineOf_all : ([0x02, 0x01, 0x20, 0x21] : List Byte).all
    (fun high => (lineOf high).all fun entry => decide (Entry high entry)) = true := by
  decide

theorem lineOf_entry {high : Byte} (line : high ∈ [0x02, 0x01, 0x20, 0x21]) {entry : Byte × Byte}
    (member : entry ∈ lineOf high) : Entry high entry := by
  have all := List.all_eq_true.mp lineOf_all high line
  exact of_decide_eq_true (List.all_eq_true.mp all entry member)

theorem itab_lt : ∀ high ∈ [0x02#8, 0x01, 0x20, 0x21],
    ¬4 ≤ ((high >>> 4) ||| (high &&& 1)).toNat := by
  decide

theorem at1Position_iff : ∀ high : Byte, high.toNat < 64 →
    ((1#64 <<< high.toNat) &&& at1Position ≠ 0 ↔ high ∈ [0x02, 0x01, 0x20, 0x21]) := by
  decide

theorem cp1252Unit_injective {first second : Byte}
    (same : cp1252Unit first = cp1252Unit second) : first = second := by
  rcases cp1252Unit_cases first with ⟨unit, _⟩ | ⟨⟨high, line, entry, member, rfl, _, unit⟩, _⟩
  · rcases cp1252Unit_cases second with ⟨unit', _⟩ | ⟨⟨high', line', entry', _, rfl, _, unit'⟩, _⟩
    · rw [unit, unit'] at same
      exact List.head_eq_of_cons_eq same
    · rw [unit, unit', List.cons.injEq, List.cons.injEq] at same
      rw [← same.2.1] at line'
      exact absurd line' (by decide)
  · rcases cp1252Unit_cases second with ⟨unit', _⟩ | ⟨⟨high', _, entry', member', rfl, _, unit'⟩, _⟩
    · rw [unit, unit', List.cons.injEq, List.cons.injEq] at same
      rw [same.2.1] at line
      exact absurd line (by decide)
    · rw [unit, unit', List.cons.injEq, List.cons.injEq] at same
      obtain ⟨low, rfl, _⟩ := same
      have found := (lineOf_entry line member).found
      rw [low, (lineOf_entry line member').found] at found
      exact (Option.some.inj found).symm

theorem codeOf_eq_some : codeOf (low, high) = some code ↔ cp1252Unit code = [low, high] := by
  unfold codeOf
  constructor
  · intro found
    simpa using List.find?_some found
  · intro unit
    cases found : ((List.range 256).map (BitVec.ofNat 8)).find?
        fun code => cp1252Unit code = [low, high] with
    | none =>
      have member : code ∈ (List.range 256).map (BitVec.ofNat 8) :=
        List.mem_map.mpr ⟨code.toNat, List.mem_range.mpr code.isLt, BitVec.ofNat_toNat 8 code⟩
      exact absurd (List.find?_eq_none.mp found code member) (by simp [unit])
    | some other =>
      have unit' : cp1252Unit other = [low, high] := by simpa using List.find?_some found
      rw [cp1252Unit_injective (unit'.trans unit.symm)]

/-- A unit that has no code, or a high byte that leads to the given part of the table. -/
def Known (unit : Utf16Unit) : Prop :=
  unit.2.toNat < 64 ∧ (unit.2 ∈ [0x02, 0x01, 0x20, 0x21] → unit.1.toNat < 240)

instance (unit : Utf16Unit) : Decidable (Known unit) := inferInstanceAs (Decidable (_ ∧ (_ → _)))

theorem unitCode_eq_iff (other : ¬(high = 0 ∧ low.toNat < 0x80)) :
    unitCode low high = .ok (codeOf (low, high)) ↔ Known (low, high) := by
  have coded (code : Byte) (found : codeOf (low, high) = some code) :
      (high = 0 ∧ low = code ∧ Same code) ∨
        (high ∈ [0x02, 0x01, 0x20, 0x21] ∧ (low, code) ∈ lineOf high ∧ low.toNat < 240) := by
    have unit := codeOf_eq_some.mp found
    rcases cp1252Unit_cases code with ⟨plain, same⟩ | ⟨⟨high', line, entry, member, rfl, small, wide⟩, _⟩
    · rw [plain, List.cons.injEq, List.cons.injEq] at unit
      exact .inl ⟨unit.2.1.symm, unit.1.symm, same⟩
    · rw [wide, List.cons.injEq, List.cons.injEq] at unit
      obtain ⟨rfl, rfl, _⟩ := unit
      exact .inr ⟨line, member, small⟩
  rw [unitCode, if_neg other, Known]
  dsimp only
  split
  · next kept =>
    obtain ⟨rfl, same⟩ := kept
    have unit := cp1252Unit_same low (.inr same)
    rw [codeOf_eq_some.mpr unit]
    exact iff_of_true rfl ⟨by decide, fun member => absurd member (by decide)⟩
  · next changed =>
    split
    · next far => exact iff_of_false (by simp) fun known => by omega
    · next near =>
      have line := at1Position_iff high (by omega)
      split
      · next none =>
        have outside : high ∉ [0x02, 0x01, 0x20, 0x21] := fun member => line.mpr member none
        have missing : codeOf (low, high) = Option.none := by
          rw [Option.eq_none_iff_forall_ne_some]
          intro code found
          rcases coded code found with ⟨zero, rfl, same⟩ | ⟨member, _⟩
          · exact changed ⟨zero, same.resolve_left fun ascii => other ⟨zero, ascii⟩⟩
          · exact outside member
        rw [missing]
        exact iff_of_true rfl ⟨by omega, fun member => absurd member outside⟩
      · next wide =>
        have member := line.mp wide
        rw [and_iff_right (by omega : high.toNat < 64), forall_prop_of_true member]
        have four : ¬4 ≤ ((high >>> 4) ||| (high &&& 1)).toNat := itab_lt high member
        unfold lutUtf16leToCp1252
        by_cases past : 255 ≤ low.toNat
        · rw [if_pos (.inr past)]
          exact iff_of_false (by simp [bind, Except.bind]) fun known => by omega
        · rw [if_neg (not_or.mpr ⟨four, past⟩)]
          by_cases unset : 240 ≤ low.toNat
          · rw [if_pos unset]
            refine iff_of_false ?_ fun known => by omega
            intro zero
            have found : codeOf (low, high) = some 0 := (Except.ok.inj zero).symm
            rcases coded 0 found with ⟨rfl, _⟩ | ⟨_, _, small⟩
            · exact absurd member (by decide)
            · exact absurd unset (Nat.not_le.mpr small)
          · rw [if_neg unset]
            refine iff_of_true ?_ (Nat.lt_of_not_le unset)
            change Except.ok (if ((lineOf high).lookup low).getD 0xFF ≠ 0xFF then
              some (((lineOf high).lookup low).getD 0xFF) else none) = _
            cases found : (lineOf high).lookup low with
            | none =>
              have missing : codeOf (low, high) = none := by
                rw [Option.eq_none_iff_forall_ne_some]
                intro code present
                rcases coded code present with ⟨rfl, _⟩ | ⟨_, entry, _⟩
                · exact absurd member (by decide)
                · rw [(lineOf_entry member entry).found] at found
                  cases found
              rw [missing]
              rfl
            | some code =>
              obtain ⟨front, back, line, _⟩ := List.lookup_eq_some_iff.mp found
              have entry : (low, code) ∈ lineOf high := by simp [line]
              rw [Option.getD_some, if_pos (lineOf_entry member entry).some,
                codeOf_eq_some.mpr (lineOf_entry member entry).unit]

end Codes

/-! The loop, unit by unit. -/

/-- No bit of the mask. -/
def Ascii (unit : Utf16Unit) : Prop := unit.2 = 0 ∧ unit.1.toNat < 0x80

instance (unit : Utf16Unit) : Decidable (Ascii unit) := inferInstanceAs (Decidable (_ ∧ _))

abbrev Outcome := Option (List Byte × Bool)

/-- Bytes that are written before. -/
def Outcome.after (front : List Byte) (rest : Outcome) : Outcome :=
  rest.map fun (out, success) => (front ++ out, success)

/-- The lookup, and what follows where it finds a code. -/
def lookUp (unit : Utf16Unit) (rest : Outcome) : Outcome :=
  match unitCode unit.1 unit.2 with
  | .ok (some code) => rest.after [code]
  | .ok none => some ([], false)
  | .error _ => none

/-- A unit that is tested on its own. -/
def readUnit (unit : Utf16Unit) (rest : Outcome) : Outcome :=
  if Ascii unit then rest.after [unit.1] else lookUp unit rest

/-- The rounds of the loops, on units. -/
def read : List Utf16Unit → Outcome
  | a :: b :: c :: d :: rest =>
    if Ascii a ∧ Ascii b then
      if Ascii c ∧ Ascii d then (read rest).after [a.1, b.1, c.1, d.1]
      else (lookUp d (read rest)).after [a.1, b.1, c.1]
    else if Ascii a then (lookUp b (read (c :: d :: rest))).after [a.1]
    else lookUp a (read (b :: c :: d :: rest))
  | short => short.foldr readUnit (some ([], true))

/-- The lookup of a unit is right, and so is what follows where it finds a code. -/
def LooksUp (unit : Utf16Unit) (rest : Prop) : Prop :=
  ¬Ascii unit ∧ Known unit ∧ (codeOf unit ≠ none → rest)

/-- Where the rounds of the loop meet units for which they are made. -/
def Sane : List Utf16Unit → Prop
  | a :: b :: c :: d :: rest =>
    if Ascii a ∧ Ascii b then
      if Ascii c ∧ Ascii d then Sane rest
      else codeOf c = some c.1 ∧ LooksUp d (Sane rest)
    else if Ascii a then LooksUp b (Sane (c :: d :: rest))
    else LooksUp a (Sane (b :: c :: d :: rest))
  | short => short.foldr (fun unit rest => if Ascii unit then rest else LooksUp unit rest) True

section Reading

variable {unit : Utf16Unit} {rest : List Utf16Unit} {after : Outcome} {sane : Prop}

theorem codeOf_ascii (ascii : Ascii unit) : codeOf unit = some unit.1 := by
  obtain ⟨low, high⟩ := unit
  obtain ⟨zero, small⟩ := ascii
  dsimp only at zero small
  rw [zero]
  exact codeOf_eq_some.mpr (cp1252Unit_same low (.inl small))

theorem Outcome.after_cons (code : Byte) (front : List Byte) :
    after.after (code :: front) = (after.after front).after [code] := by
  cases after <;> rfl

theorem copied_eq_iff : after.after [unit.1] = some (decoded (unit :: rest)) ↔
    codeOf unit = some unit.1 ∧ after = some (decoded rest) := by
  rw [decoded]
  cases after with
  | none => simp [Outcome.after]
  | some found =>
    cases codeOf unit with
    | none => simp [Outcome.after]
    | some code =>
      simp only [Outcome.after, Option.map_some, List.singleton_append, Option.some.injEq,
        Prod.ext_iff, List.cons.injEq, and_assoc, @eq_comm _ unit.1 code]

theorem ascii_eq_iff (ascii : Ascii unit) :
    after.after [unit.1] = some (decoded (unit :: rest)) ↔ after = some (decoded rest) := by
  rw [copied_eq_iff, codeOf_ascii ascii, and_iff_right rfl]

theorem lookUp_eq_iff' : lookUp unit after = some (decoded (unit :: rest)) ↔
    unitCode unit.1 unit.2 = .ok (codeOf unit) ∧
      (codeOf unit ≠ none → after = some (decoded rest)) := by
  rw [lookUp, decoded]
  cases read : unitCode unit.1 unit.2 with
  | error halt => simp
  | ok found =>
    cases found with
    | none => cases codeOf unit <;> simp
    | some code =>
      cases codeOf unit with
      | none => cases after <;> simp [Outcome.after]
      | some other =>
        constructor
        · intro same
          cases after with
          | none => cases same
          | some found =>
            simp only [Outcome.after, Option.map_some, List.singleton_append, Option.some.injEq,
              Prod.mk.injEq, List.cons.injEq] at same
            exact ⟨by rw [same.1.1], fun _ => congrArg some (Prod.ext same.1.2 same.2)⟩
        · rintro ⟨same, follows⟩
          rw [Option.some.inj (Except.ok.inj same), follows (Option.some_ne_none other)]
          rfl

theorem lookUp_eq_iff (sound : after = some (decoded rest) ↔ sane) :
    lookUp unit after = some (decoded (unit :: rest)) ↔ LooksUp unit sane := by
  rw [lookUp_eq_iff', sound, LooksUp, ← and_assoc]
  apply and_congr_left'
  by_cases ascii : Ascii unit
  · refine iff_of_false ?_ fun both => both.1 ascii
    have undefined : unitCode unit.1 unit.2 = .error .undefined := if_pos ascii
    rw [undefined]
    exact fun same => by cases same
  · rw [and_iff_right ascii]
    exact unitCode_eq_iff ascii

theorem foldr_readUnit_eq_iff (text : List Utf16Unit) :
    text.foldr readUnit (some ([], true)) = some (decoded text) ↔
      text.foldr (fun unit rest => if Ascii unit then rest else LooksUp unit rest) True := by
  induction text with
  | nil => exact iff_of_true rfl trivial
  | cons unit rest ih =>
    rw [List.foldr_cons, List.foldr_cons, readUnit]
    split
    · next ascii => rw [ascii_eq_iff ascii, ih]
    · exact lookUp_eq_iff ih

/-- The rounds of the loops convert the text where it is sane, and only there. -/
theorem read_eq_iff (text : List Utf16Unit) : read text = some (decoded text) ↔ Sane text := by
  induction text using read.induct with
  | case1 a b c d rest first last ih =>
    rw [read, if_pos first, if_pos last, Sane, if_pos first, if_pos last,
      Outcome.after_cons, ascii_eq_iff first.1, Outcome.after_cons, ascii_eq_iff first.2,
      Outcome.after_cons, ascii_eq_iff last.1, ascii_eq_iff last.2, ih]
  | case2 a b c d rest first last ih =>
    rw [read, if_pos first, if_neg last, Sane, if_pos first, if_neg last,
      Outcome.after_cons, ascii_eq_iff first.1, Outcome.after_cons, ascii_eq_iff first.2,
      copied_eq_iff, lookUp_eq_iff ih]
  | case3 a b c d rest first ascii ih =>
    rw [read, if_neg first, if_pos ascii, Sane, if_neg first, if_pos ascii, ascii_eq_iff ascii,
      lookUp_eq_iff ih]
  | case4 a b c d rest first ascii ih =>
    rw [read, if_neg first, if_neg ascii, Sane, if_neg first, if_neg ascii, lookUp_eq_iff ih]
  | case5 short few =>
    rw [read.eq_2 short few, Sane.eq_2 short few]
    exact foldr_readUnit_eq_iff short

end Reading

section Rounds

variable {cursor : Cursor} {out : List Byte} {rest odd : List Byte} {a b c d : Utf16Unit}

theorem pair_and_mask {width : Nat} (word mask : BitVec width) (low high : Byte) :
    (word ++ high ++ low) &&& (mask ++ 0xff#8 ++ 0x80#8) = 0 ↔
      Ascii (low, high) ∧ word &&& mask = 0 := by
  have first : ∀ low : Byte, low &&& 0x80#8 = 0 ↔ low.toNat < 0x80 := by decide
  have second : ∀ high : Byte, high &&& 0xff#8 = 0 ↔ high = 0 := by decide
  rw [BitVec.and_append, BitVec.and_append, append_eq_zero, append_eq_zero, first, second, Ascii]
  tauto

theorem word2_ascii : loadWord 2 (a.1 :: a.2 :: rest) &&& 0xff80 = 0 ↔ Ascii a :=
  (pair_and_mask 0#0 0#0 a.1 a.2).trans (and_iff_left rfl)

theorem word4_ascii :
    loadWord 4 (a.1 :: a.2 :: b.1 :: b.2 :: rest) &&& 0xff80ff80 = 0 ↔ Ascii a ∧ Ascii b :=
  (pair_and_mask (loadWord 2 (b.1 :: b.2 :: rest)) 0xff80#16 a.1 a.2).trans
    (and_congr_right' word2_ascii)

theorem word8_ascii :
    loadWord 8 (a.1 :: a.2 :: b.1 :: b.2 :: c.1 :: c.2 :: d.1 :: d.2 :: rest) &&&
      0xff80ff80ff80ff80 = 0 ↔ (Ascii a ∧ Ascii b) ∧ Ascii c ∧ Ascii d := by
  rw [and_assoc]
  exact (pair_and_mask (loadWord 6 _) 0xff80ff80ff80#48 a.1 a.2).trans (and_congr_right'
    ((pair_and_mask (loadWord 4 _) 0xff80ff80#32 b.1 b.2).trans (and_congr_right' word4_ascii)))

/-- The third unit of a round is copied when the first two are ASCII. -/
theorem decodeEight_eq :
    decodeEight ⟨a.1 :: a.2 :: b.1 :: b.2 :: c.1 :: c.2 :: d.1 :: d.2 :: rest, out⟩ =
      if Ascii a ∧ Ascii b then
        if Ascii c ∧ Ascii d then .ok ⟨rest, out ++ [a.1, b.1, c.1, d.1]⟩
        else copyAndAdvance1na ⟨d.1 :: d.2 :: rest, out ++ [a.1, b.1, c.1]⟩
      else if Ascii a then
        copyAndAdvance1na ⟨b.1 :: b.2 :: c.1 :: c.2 :: d.1 :: d.2 :: rest, out ++ [a.1]⟩
      else copyAndAdvance1na
        ⟨a.1 :: a.2 :: b.1 :: b.2 :: c.1 :: c.2 :: d.1 :: d.2 :: rest, out⟩ := by
  have first (bytes : List Byte) : u64ToFirstU32 (loadWord 8 bytes) = loadWord 4 bytes := by
    rw [u64ToFirstU32, setWidth_and_ones _ _ (by decide)]
    exact setWidth_loadWord bytes (by decide)
  have second (bytes : List Byte) : u32ToFirstU16 (loadWord 4 bytes) = loadWord 2 bytes := by
    rw [u32ToFirstU16, setWidth_and_ones _ _ (by decide)]
    exact setWidth_loadWord bytes (by decide)
  unfold decodeEight
  simp only [first, second, word8_ascii, word4_ascii, word2_ascii, copyIf]
  by_cases two : Ascii a ∧ Ascii b
  · by_cases four : Ascii c ∧ Ascii d
    · simp [two, four, copyAndAdvanceToA]
    · simp [two, four, copyAndAdvanceToA, bind, Except.bind]
  · by_cases one : Ascii a
    · have other : ¬Ascii b := fun ascii => two ⟨one, ascii⟩
      simp [one, other, copyAndAdvanceToA, bind, Except.bind]
    · simp [one, bind, Except.bind]

theorem copyAndAdvance1na_shorter {after : Cursor} (done : copyAndAdvance1na cursor = .ok after) :
    after.input.length + 2 = cursor.input.length := by
  unfold copyAndAdvance1na at done
  split at done
  · next low high rest text =>
    obtain ⟨found, _, done⟩ := bind_ok_iff.mp done
    cases found with
    | none => cases done
    | some code =>
      cases done
      rw [text]
      rfl
  · cases done

theorem decodeLoop_round {least : Nat} {round : Cursor → Except Halt Cursor}
    (enough : least ≤ cursor.input.length)
    (shorter : ∀ after, round cursor = .ok after → after.input.length < cursor.input.length) :
    decodeLoop least round cursor = round cursor >>= decodeLoop least round := by
  rw [decodeLoop, if_pos enough]
  cases done : round cursor with
  | error halt => rfl
  | ok after => exact if_pos (shorter after done)

theorem decodeFrom_eight (enough : 8 ≤ cursor.input.length)
    (shorter : ∀ after, decodeEight cursor = .ok after →
      after.input.length < cursor.input.length) :
    decodeFrom cursor = decodeEight cursor >>= decodeFrom := by
  unfold decodeFrom
  rw [decodeLoop_round enough shorter]
  exact bind_assoc _ _ _

theorem decodeFrom_few (few : cursor.input.length < 8) :
    decodeFrom cursor =
      copyIf (4 ≤ cursor.input.length && loadWord 4 cursor.input &&& 0xff80ff80 = 0) 2 cursor >>=
        decodeLoop 2 decodeTwo := by
  rw [decodeFrom, decodeLoop, if_neg (by omega)]
  rfl

theorem lutUtf16leToCp1252_error {itab : Nat} {low : Byte} {halt : Halt}
    (stopped : lutUtf16leToCp1252 itab low = .error halt) : halt = .undefined := by
  unfold lutUtf16leToCp1252 at stopped
  split at stopped
  · exact (Except.error.inj stopped).symm
  · split at stopped <;> cases stopped

theorem unitCode_error {low high : Byte} {halt : Halt}
    (stopped : unitCode low high = .error halt) : halt = .undefined := by
  unfold unitCode at stopped
  split at stopped
  · exact (Except.error.inj stopped).symm
  · split at stopped
    · cases stopped
    · split at stopped
      · exact (Except.error.inj stopped).symm
      · split at stopped
        · cases stopped
        · dsimp only at stopped
          cases found : lutUtf16leToCp1252 ((high >>> 4) ||| (high &&& 1)).toNat low with
          | error cause =>
            rw [found] at stopped
            cases stopped
            exact lutUtf16leToCp1252_error found
          | ok code =>
            rw [found] at stopped
            cases stopped

/-- A loop that reads a text with this outcome, after what is written. -/
def Leads (loop : Cursor → Except Halt Cursor) (input : List Byte) (result : Outcome) : Prop :=
  ∀ out, outcome (loop ⟨input, out⟩) = result.after out

variable {loop : Cursor → Except Halt Cursor} {result : Outcome}

theorem Outcome.after_after (front out : List Byte) :
    (result.after front).after out = result.after (out ++ front) := by
  cases result <;> simp [Outcome.after]

theorem Leads.lookUp (leads : Leads loop rest result) :
    Leads (fun cursor => copyAndAdvance1na cursor >>= loop) (a.1 :: a.2 :: rest)
      (lookUp a result) := by
  intro out
  simp only [copyAndAdvance1na, Utf.lookUp]
  cases looked : unitCode a.1 a.2 with
  | error halt =>
    rw [unitCode_error looked]
    rfl
  | ok found =>
    cases found with
    | none => simp [bind, Except.bind, outcome, Outcome.after]
    | some code =>
      dsimp only
      rw [Outcome.after_after, ← leads]
      rfl

def flat (text : List Utf16Unit) : List Byte := text.flatMap fun unit => [unit.1, unit.2]

theorem decodeTwo_leads (few : odd.length < 2) (text : List Utf16Unit) :
    Leads (decodeLoop 2 decodeTwo) (flat text ++ odd) (text.foldr readUnit (some ([], true))) := by
  induction text with
  | nil =>
    intro out
    rw [decodeLoop, if_neg (by simpa [flat] using few)]
    simp [outcome, Outcome.after]
  | cons unit rest ih =>
    intro out
    have text : flat (unit :: rest) ++ odd = unit.1 :: unit.2 :: (flat rest ++ odd) := rfl
    have round : decodeTwo ⟨unit.1 :: unit.2 :: (flat rest ++ odd), out⟩ =
        if Ascii unit then .ok ⟨flat rest ++ odd, out ++ [unit.1]⟩
        else copyAndAdvance1na ⟨unit.1 :: unit.2 :: (flat rest ++ odd), out⟩ := by
      simp only [decodeTwo, word2_ascii, copyAndAdvanceToA]
    rw [text, decodeLoop_round (by simp), round, List.foldr_cons, readUnit]
    · split
      · rw [Outcome.after_after, ← ih]
        rfl
      · exact ih.lookUp out
    · intro after done
      rw [round] at done
      split at done
      · cases done
        simp only [List.length_cons]
        omega
      · have shorter := copyAndAdvance1na_shorter done
        omega

theorem decodeEight_shorter {after : Cursor}
    (done : decodeEight ⟨a.1 :: a.2 :: b.1 :: b.2 :: c.1 :: c.2 :: d.1 :: d.2 :: rest, out⟩ =
      .ok after) : after.input.length < rest.length + 8 := by
  rw [decodeEight_eq] at done
  split at done
  · split at done
    · cases done
      exact Nat.lt_add_of_pos_right (by decide)
    · have shorter := copyAndAdvance1na_shorter done
      simp only [List.length_cons] at shorter
      omega
  · split at done
    · have shorter := copyAndAdvance1na_shorter done
      simp only [List.length_cons] at shorter
      omega
    · have shorter := copyAndAdvance1na_shorter done
      simp only [List.length_cons] at shorter
      omega

theorem decodeFrom_leads (few : odd.length < 2) (text : List Utf16Unit) :
    Leads decodeFrom (flat text ++ odd) (read text) := by
  have round (a b c d : Utf16Unit) (rest : List Utf16Unit) (out : List Byte) :
      decodeFrom ⟨flat (a :: b :: c :: d :: rest) ++ odd, out⟩ =
        decodeEight ⟨a.1 :: a.2 :: b.1 :: b.2 :: c.1 :: c.2 :: d.1 :: d.2 ::
          (flat rest ++ odd), out⟩ >>= decodeFrom :=
    decodeFrom_eight (Nat.le_add_left 8 _) fun _ done => decodeEight_shorter done
  induction text using read.induct with
  | case1 a b c d rest first last ih =>
    intro out
    rw [round, decodeEight_eq, if_pos first, if_pos last, read, if_pos first, if_pos last,
      Outcome.after_after, ← ih]
    rfl
  | case2 a b c d rest first last ih =>
    intro out
    rw [round, decodeEight_eq, if_pos first, if_neg last, read, if_pos first, if_neg last,
      Outcome.after_after]
    exact ih.lookUp _
  | case3 a b c d rest first ascii ih =>
    intro out
    rw [round, decodeEight_eq, if_neg first, if_pos ascii, read, if_neg first, if_pos ascii,
      Outcome.after_after]
    exact ih.lookUp _
  | case4 a b c d rest first ascii ih =>
    intro out
    rw [round, decodeEight_eq, if_neg first, if_neg ascii, read, if_neg first, if_neg ascii]
    exact ih.lookUp _
  | case5 short four =>
    intro out
    have least : (flat short ++ odd).length < 8 := by
      match short, four with
      | [], _ => simp [flat]; omega
      | [_], _ => simp [flat]; omega
      | [_, _], _ => simp [flat]; omega
      | [_, _, _], _ => simp [flat]; omega
      | _ :: _ :: _ :: _ :: _, four => exact absurd rfl (four _ _ _ _ _)
    have tail := decodeTwo_leads few
    rw [read.eq_2 short four, decodeFrom_few least]
    cases both : (4 ≤ (flat short ++ odd).length &&
        loadWord 4 (flat short ++ odd) &&& 0xff80ff80 = 0 : Bool) with
    | false => exact tail short out
    | true =>
      rw [Bool.and_eq_true, decide_eq_true_eq, decide_eq_true_eq] at both
      match short, both with
      | [], both => exact absurd both.1 (by simp [flat]; omega)
      | [_], both => exact absurd both.1 (by simp [flat]; omega)
      | a :: b :: rest, both =>
        have ascii : Ascii a ∧ Ascii b := word4_ascii.mp both.2
        rw [List.foldr_cons, List.foldr_cons, readUnit, if_pos ascii.1, readUnit, if_pos ascii.2,
          Outcome.after_after, Outcome.after_after, ← tail rest]
        rfl

theorem flat_units (input : List Byte) : ∃ odd, input = flat (units input) ++ odd ∧ odd.length < 2 := by
  induction input using units.induct with
  | case1 low high rest ih =>
    obtain ⟨odd, text, few⟩ := ih
    exact ⟨odd, by rw [units]; exact congrArg (low :: high :: ·) text, few⟩
  | case2 short few =>
    refine ⟨short, by rw [units.eq_2 short few]; rfl, ?_⟩
    match short, few with
    | [], _ => decide
    | [_], _ => exact Nat.one_lt_two
    | _ :: _ :: _, few => exact absurd rfl (few _ _ _)

theorem utf16leToCp1252_eq (input : List Byte) : utf16leToCp1252 input = read (units input) := by
  obtain ⟨odd, text, few⟩ := flat_units input
  have leads := decodeFrom_leads few (units input) []
  rw [← text] at leads
  rw [utf16leToCp1252, leads]
  cases read (units input) <;> rfl

theorem decoded_cp1252 (text : List Byte) :
    decoded (units (cp1252ToUtf16leBytes text)) = (text, true) := by
  induction text with
  | nil => rfl
  | cons code rest ih =>
    have unit : ∃ low high, cp1252Unit code = [low, high] := by
      rcases cp1252Unit_cases code with ⟨plain, _⟩ | ⟨⟨high, _, entry, _, _, _, wide⟩, _⟩
      · exact ⟨_, _, plain⟩
      · exact ⟨_, _, wide⟩
    obtain ⟨low, high, unit⟩ := unit
    rw [cp1252ToUtf16leBytes, List.flatMap_cons, unit]
    change decoded ((low, high) :: units (cp1252ToUtf16leBytes rest)) = _
    rw [decoded, codeOf_eq_some.mpr unit, ih]

/-- The conversion of an input, and the way back from CP1252, are right for the sane texts only. -/
theorem utf16leToCp1252_iff (input text : List Byte) :
    (utf16leToCp1252 input = some (decoded (units input)) ↔ Sane (units input)) ∧
      (utf16leToCp1252 (cp1252ToUtf16leBytes text) = some (text, true) ↔
        Sane (units (cp1252ToUtf16leBytes text))) := by
  rw [utf16leToCp1252_eq, utf16leToCp1252_eq]
  refine ⟨read_eq_iff _, ?_⟩
  have whole := read_eq_iff (units (cp1252ToUtf16leBytes text))
  rw [decoded_cp1252] at whole
  exact whole

/-- The third of four characters is copied as if it were ASCII. -/
theorem utf16leToCp1252_mixed :
    utf16leToCp1252 (cp1252ToUtf16leBytes [0x61, 0x62, 0x80, 0xE9]) ≠
      some ([0x61, 0x62, 0x80, 0xE9], true) := by
  rw [utf16leToCp1252_eq]
  decide

end Rounds

end Redemption.Utf
