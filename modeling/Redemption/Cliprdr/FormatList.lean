import Redemption.Foundation.ByteStream
import Redemption.Foundation.Visit

/-! The format list of the clipboard: `FormatListSerializer`, and `format_list_extract`. -/
namespace Redemption.Cliprdr

open Redemption.Foundation

abbrev CbFormatID := BitVec 32

/-- The kinds of names that a format list holds. -/
inductive NameKind where
  | unicodeLong
  | ascii
  | unicodeShort
  deriving DecidableEq, Repr

/-- `GenericName`. -/
structure FormatName where
  kind : NameKind
  rawName : List Byte
  deriving DecidableEq, Repr

/-- What `process_format` is given. -/
abbrev Format := CbFormatID × FormatName

/-- `format_list_short_name_len`. -/
def formatListShortNameLen : Nat := 32

/-- `AsciiName::max_name_len`. -/
def asciiMaxNameLen : Nat := formatListShortNameLen - 1

/-- `UnicodeShortName::max_name_len`. -/
def unicodeShortMaxNameLen : Nat := formatListShortNameLen - 2

/-- `CbCapabilityFlags::UseLongFormatNames`. -/
def useLongFormatNames : BitVec 32 := 0x00000002

/-- `CbMsgFlags::AsciiNames`. -/
def asciiNames : BitVec 16 := 0x0004

/-- The kind of the names, by the flags. -/
def nameKind (generalFlags : BitVec 32) (msgFlags : BitVec 16) : NameKind :=
  if generalFlags &&& useLongFormatNames ≠ 0 then .unicodeLong
  else if msgFlags &&& asciiNames ≠ 0 then .ascii
  else .unicodeShort

/-- `UTF16ByteLen`: the bytes in front of the first null character; an odd byte is left out. -/
def utf16ByteLen : List Byte → Nat
  | low :: high :: rest => if low ||| high = 0 then 0 else utf16ByteLen rest + 2
  | _ => 0

/-- `strnlen`. -/
def strnlen (bytes : List Byte) (maxLen : Nat) : Nat :=
  ((bytes.take maxLen).takeWhile fun byte => byte ≠ 0).length

/-- `first`, of a view. -/
def first (count : Nat) (view : List Byte) : Checked Empty (List Byte) :=
  if count ≤ view.length then .ok (view.take count) else .error .outOfBounds

/-- `drop_back`, of a view. -/
def dropBack (count : Nat) (view : List Byte) : Checked Empty (List Byte) :=
  if count ≤ view.length then .ok (view.take (view.length - count)) else .error .outOfBounds

/-- A format, and what is behind it; there may be too little for one. -/
abbrev ReadFormat := Checked Empty (Option (Format × List Byte))

/-- A `CLIPRDR_LONG_FORMAT_NAME`, in `format_list_extract`. -/
def readLongFormat (stream : List Byte) : ReadFormat :=
  if stream.length < 6 then .ok none
  else do
    let (formatId, stream) ← inLe 4 stream
    -- the null character is dropped and not checked
    let unterminated ← dropBack 2 stream
    let (data, stream) ← inBytes (utf16ByteLen unterminated + 2) stream
    let name ← dropBack 2 data
    return some ((BitVec.ofNat 32 formatId, ⟨.unicodeLong, name⟩), stream)

/-- A `CLIPRDR_SHORT_FORMAT_NAME`, whose name has the length that is found in the field. -/
def readShortFormat (kind : NameKind) (nameLen : List Byte → Checked Empty Nat)
    (stream : List Byte) : ReadFormat :=
  if stream.length < formatListShortNameLen + 4 then .ok none
  else do
    let (formatId, stream) ← inLe 4 stream
    let (data, stream) ← inBytes formatListShortNameLen stream
    let len ← nameLen data
    let name ← first len data
    return some ((BitVec.ofNat 32 formatId, ⟨kind, name⟩), stream)

def asciiNameLen (data : List Byte) : Checked Empty Nat := .ok (strnlen data asciiMaxNameLen)

def unicodeNameLen (data : List Byte) : Checked Empty Nat := utf16ByteLen <$> dropBack 2 data

/-- A format with a name of a kind. -/
def readFormat : NameKind → List Byte → ReadFormat
  | .unicodeLong => readLongFormat
  | .ascii => readShortFormat .ascii asciiNameLen
  | .unicodeShort => readShortFormat .unicodeShort unicodeNameLen

/-- The formats that `process_format` has been called with, its state, and what has not been read. -/
structure Extracted (σ : Type) where
  calls : List Format
  state : σ
  rest : List Byte
  deriving DecidableEq, Repr

section Extract

variable {σ : Type} (read : List Byte → ReadFormat) (processFormat : σ → Format → Bool × σ)

/-- The loop of `format_list_extract`, as long as there are bytes. -/
def extractLoop : Nat → List Byte → σ → Checked Empty (Extracted σ)
  | 0, stream, state => .ok ⟨[], state, stream⟩
  | fuel + 1, stream, state => do
    match ← read stream with
    | none => return ⟨[], state, stream⟩
    | some (format, stream) => do
      -- the `break` is within the `do … while (0)` of the macro: whatever the answer, the loop goes on
      let (_, state) := processFormat state format
      let later ← extractLoop fuel stream state
      return { later with calls := format :: later.calls }

/-- `format_list_extract`. -/
def formatListExtract (stream : List Byte) (generalFlags : BitVec 32) (msgFlags : BitVec 16)
    (state : σ) : Checked Empty (Extracted σ) :=
  extractLoop (readFormat (nameKind generalFlags msgFlags)) processFormat (stream.length + 1) stream
    state

end Extract

namespace FormatListSerializer

/-- `LongFormatItem::serialize_unchecked`. -/
def longFormatItem (formatId : CbFormatID) (name : List Byte) : List Byte :=
  leBytes 4 formatId.toNat ++ name ++ leBytes 2 0

/-- `ShortFormatItem::serialize_unchecked`; the name is not longer than its field. -/
def shortFormatItem (formatId : CbFormatID) (name : List Byte) : List Byte :=
  leBytes 4 formatId.toNat ++ name ++ List.replicate (formatListShortNameLen - name.length) 0

/-- What is written of a format. -/
def item (format : Format) : List Byte :=
  match format.2.kind with
  | .unicodeLong => longFormatItem format.1 format.2.rawName
  | _ => shortFormatItem format.1 format.2.rawName

/-- `required_size`. -/
def requiredSize (name : FormatName) : Nat :=
  match name.kind with
  | .unicodeLong => 4 + 2 + name.rawName.length
  | _ => 4 + formatListShortNameLen

/-- `serialize`, to a stream with so much room. -/
def serialize (tailroom : Nat) (format : Format) : Option (List Byte) :=
  if requiredSize format.2 ≤ tailroom then some (item format) else none

/-- The formats of a list, one after the other. -/
def serializeList : Nat → List Format → Option (List Byte)
  | _, [] => some []
  | tailroom, format :: rest => do
    let bytes ← serialize tailroom format
    let later ← serializeList (tailroom - bytes.length) rest
    return bytes ++ later

end FormatListSerializer

/-! A format list is read inside its bytes, and the formats that have been written are read back. -/

/-- Whole UTF-16 units, none of which is null. -/
def WholeUnits : List Byte → Prop
  | [] => True
  | [_] => False
  | low :: high :: rest => low ||| high ≠ 0 ∧ WholeUnits rest

/-- A name that its field can hold, with a null character behind it. -/
def FormatName.Admissible (name : FormatName) : Prop :=
  match name.kind with
  | .unicodeLong => WholeUnits name.rawName
  | .ascii => (∀ byte ∈ name.rawName, byte ≠ 0) ∧ name.rawName.length ≤ asciiMaxNameLen
  | .unicodeShort => WholeUnits name.rawName ∧ name.rawName.length ≤ unicodeShortMaxNameLen

/-- A format with an admissible name of a kind. -/
structure NamedFormat (kind : NameKind) where
  formatId : CbFormatID
  rawName : List Byte
  admissible : FormatName.Admissible ⟨kind, rawName⟩

/-- A format, as `process_format` is given it. -/
def NamedFormat.format {kind : NameKind} (named : NamedFormat kind) : Format :=
  (named.formatId, ⟨kind, named.rawName⟩)

section Lengths

theorem utf16ByteLen_le (bytes : List Byte) : utf16ByteLen bytes ≤ bytes.length := by
  fun_induction utf16ByteLen bytes with
  | case1 low high rest zero => exact Nat.zero_le _
  | case2 low high rest some ih =>
    rw [List.length_cons, List.length_cons]
    omega
  | case3 => exact Nat.zero_le _

theorem utf16ByteLen_take (count : Nat) (bytes : List Byte) :
    utf16ByteLen (bytes.take count) ≤ count :=
  Nat.le_trans (utf16ByteLen_le _) (List.length_take_le count bytes)

/-- A name ends where a null character follows, or nothing but an odd byte. -/
theorem utf16ByteLen_append {name : List Byte} (whole : WholeUnits name) {behind : List Byte}
    (ends : utf16ByteLen behind = 0) : utf16ByteLen (name ++ behind) = name.length := by
  fun_induction WholeUnits name with
  | case1 => exact ends
  | case2 => exact whole.elim
  | case3 low high rest ih =>
    rw [List.cons_append, List.cons_append, utf16ByteLen, if_neg whole.1, ih whole.2]
    rfl

theorem utf16ByteLen_behind (rest : List Byte) :
    utf16ByteLen ((0 :: 0 :: rest).take rest.length) = 0 := by
  cases rest with
  | nil => rfl
  | cons first rest =>
    cases rest with
    | nil => rfl
    | cons second rest => rfl

theorem strnlen_le (bytes : List Byte) (maxLen : Nat) : strnlen bytes maxLen ≤ bytes.length := by
  have front := List.takeWhile_prefix (fun byte => decide (byte ≠ 0)) (l := bytes.take maxLen)
  have less := front.length_le
  rw [List.length_take] at less
  exact Nat.le_trans less (Nat.min_le_right _ _)

theorem strnlen_append {name : List Byte} (nonzero : ∀ byte ∈ name, byte ≠ 0) {maxLen : Nat}
    (fits : name.length ≤ maxLen) {count : Nat} :
    strnlen (name ++ List.replicate count 0) maxLen = name.length := by
  have behind : ((List.replicate count (0 : Byte)).take (maxLen - name.length)).takeWhile
      (fun byte => decide (byte ≠ 0)) = [] := by
    rw [List.take_replicate]
    cases min (maxLen - name.length) count <;> rfl
  have all : ∀ byte ∈ name, decide (byte ≠ 0) = true := fun byte mem =>
    decide_eq_true (nonzero byte mem)
  rw [strnlen, List.take_append, List.take_of_length_le fits, List.takeWhile_append_of_pos all,
    behind, List.append_nil]

end Lengths

section Views

theorem first_ok {count : Nat} {view : List Byte} (room : count ≤ view.length) :
    first count view = .ok (view.take count) := if_pos room

theorem dropBack_ok {count : Nat} {view : List Byte} (room : count ≤ view.length) :
    dropBack count view = .ok (view.take (view.length - count)) := if_pos room

theorem dropBack_append {count : Nat} (front : List Byte) {back : List Byte}
    (length : back.length = count) : dropBack count (front ++ back) = .ok front := by
  have room : count ≤ (front ++ back).length := by
    rw [List.length_append]
    omega
  rw [dropBack_ok room, List.length_append, length, Nat.add_sub_cancel, List.take_left]

end Views

/-- What there is of a format is taken from the front of the bytes. -/
def Shortens (stream : List Byte) (answer : ReadFormat) : Prop :=
  ∃ result, answer = .ok result ∧ ∀ format rest, result = some (format, rest) →
    rest.length < stream.length

theorem readLongFormat_shortens (stream : List Byte) : Shortens stream (readLongFormat stream) := by
  rw [readLongFormat]
  by_cases short : stream.length < 6
  · rw [if_pos short]
    exact ⟨none, rfl, nofun⟩
  · have idRoom : 4 ≤ stream.length := by omega
    have length : (stream.drop 4).length = stream.length - 4 := List.length_drop
    have unterminatedRoom : 2 ≤ (stream.drop 4).length := by omega
    have less := utf16ByteLen_take ((stream.drop 4).length - 2) (stream.drop 4)
    have nameRoom : utf16ByteLen ((stream.drop 4).take ((stream.drop 4).length - 2)) + 2 ≤
        (stream.drop 4).length := by omega
    rw [if_neg short, inLe_ok idRoom, ok_bind]
    simp only
    rw [dropBack_ok unterminatedRoom, ok_bind, inBytes_ok nameRoom, ok_bind]
    rw [dropBack_ok (by rw [List.length_take]; omega), ok_bind]
    refine ⟨_, rfl, ?_⟩
    intro format rest same
    cases same
    rw [List.length_drop]
    omega

/-- A short name is read inside the bytes, where its length is found inside the field. -/
theorem readShortFormat_shortens (kind : NameKind) {nameLen : List Byte → Checked Empty Nat}
    (inside : ∀ data : List Byte, data.length = formatListShortNameLen →
      ∃ len, nameLen data = .ok len ∧ len ≤ data.length) (stream : List Byte) :
    Shortens stream (readShortFormat kind nameLen stream) := by
  rw [readShortFormat]
  by_cases short : stream.length < formatListShortNameLen + 4
  · rw [if_pos short]
    exact ⟨none, rfl, nofun⟩
  · rw [if_neg short]
    rw [formatListShortNameLen] at *
    have idRoom : 4 ≤ stream.length := by omega
    have room : 32 ≤ (stream.drop 4).length := by
      rw [List.length_drop]
      omega
    have length : ((stream.drop 4).take 32).length = 32 := by
      rw [List.length_take, Nat.min_eq_left room]
    obtain ⟨len, found, less⟩ := inside _ length
    rw [inLe_ok idRoom, ok_bind]
    simp only
    rw [inBytes_ok room, ok_bind]
    rw [found, ok_bind, first_ok less, ok_bind]
    refine ⟨_, rfl, ?_⟩
    intro format rest same
    cases same
    rw [List.length_drop, List.length_drop]
    omega

theorem readFormat_shortens (kind : NameKind) (stream : List Byte) :
    Shortens stream (readFormat kind stream) := by
  cases kind with
  | unicodeLong => exact readLongFormat_shortens stream
  | ascii =>
    apply readShortFormat_shortens
    exact fun data _ => ⟨_, rfl, strnlen_le _ _⟩
  | unicodeShort =>
    apply readShortFormat_shortens
    intro data length
    have room : 2 ≤ data.length := by
      rw [length, formatListShortNameLen]
      omega
    have less := utf16ByteLen_take (data.length - 2) data
    refine ⟨utf16ByteLen (data.take (data.length - 2)), ?_, by omega⟩
    rw [unicodeNameLen, dropBack_ok room]
    rfl

section Extract

variable {σ : Type} {read : List Byte → ReadFormat} {processFormat : σ → Format → Bool × σ}

theorem extractLoop_total (shortens : ∀ stream, Shortens stream (read stream)) {fuel : Nat}
    {stream : List Byte} (enough : stream.length < fuel) (state : σ) :
    ∃ extracted, extractLoop read processFormat fuel stream state = .ok extracted ∧
      read extracted.rest = .ok none := by
  induction fuel generalizing stream state with
  | zero => exact absurd enough (Nat.not_lt_zero _)
  | succ fuel ih =>
    obtain ⟨result, answer, less⟩ := shortens stream
    rw [extractLoop, answer, ok_bind]
    cases result with
    | none => exact ⟨_, rfl, answer⟩
    | some found =>
      obtain ⟨format, rest⟩ := found
      obtain ⟨later, ran, ends⟩ := ih (Nat.lt_of_lt_of_le (less format rest rfl)
        (Nat.le_of_lt_succ enough)) (processFormat state format).2
      simp only [ran, ok_bind]
      exact ⟨_, rfl, ends⟩

/-- `format_list_extract` stays inside the bytes, whatever they are. -/
theorem formatListExtract_total (processFormat : σ → Format → Bool × σ) (stream : List Byte)
    (generalFlags : BitVec 32) (msgFlags : BitVec 16) (state : σ) :
    ∃ extracted, formatListExtract processFormat stream generalFlags msgFlags state =
      .ok extracted ∧ readFormat (nameKind generalFlags msgFlags) extracted.rest = .ok none :=
  extractLoop_total (readFormat_shortens _) (Nat.lt_succ_self _) state

end Extract

section RoundTrip

theorem readLongFormat_item (formatId : CbFormatID) {name : List Byte} (whole : WholeUnits name)
    (rest : List Byte) :
    readLongFormat (FormatListSerializer.longFormatItem formatId name ++ rest) =
      .ok (some ((formatId, ⟨.unicodeLong, name⟩), rest)) := by
  have long : ¬(FormatListSerializer.longFormatItem formatId name ++ rest).length < 6 := by
    rw [FormatListSerializer.longFormatItem, List.length_append, List.length_append,
      List.length_append, length_leBytes, length_leBytes]
    omega
  have unterminated : dropBack 2 (name ++ (leBytes 2 0 ++ rest)) =
      .ok (name ++ (0 :: 0 :: rest).take rest.length) := by
    have room : 2 ≤ (name ++ (leBytes 2 0 ++ rest)).length := by
      rw [List.length_append, List.length_append, length_leBytes]
      omega
    have cut : (name ++ (leBytes 2 0 ++ rest)).length - 2 = name.length + rest.length := by
      rw [List.length_append, List.length_append, length_leBytes]
      omega
    rw [dropBack_ok room, cut, List.take_length_add_append]
    rfl
  have len : utf16ByteLen (name ++ (0 :: 0 :: rest).take rest.length) = name.length :=
    utf16ByteLen_append whole (utf16ByteLen_behind rest)
  have field : (name ++ leBytes 2 0).length = name.length + 2 := by
    rw [List.length_append, length_leBytes]
  rw [readLongFormat, if_neg long, FormatListSerializer.longFormatItem, List.append_assoc,
    List.append_assoc, inLe_append, ok_bind]
  simp only
  rw [unterminated, ok_bind, len, ← List.append_assoc, inBytes_append field, ok_bind]
  rw [dropBack_append name (length_leBytes 2 0), ok_bind, pure_ok,
    Nat.mod_eq_of_lt formatId.isLt, BitVec.ofNat_toNat, BitVec.setWidth_eq]

theorem readShortFormat_item {kind : NameKind} {nameLen : List Byte → Checked Empty Nat}
    (formatId : CbFormatID) {name : List Byte} (fits : name.length ≤ formatListShortNameLen)
    (found : nameLen (name ++ List.replicate (formatListShortNameLen - name.length) 0) =
      .ok name.length) (rest : List Byte) :
    readShortFormat kind nameLen (FormatListSerializer.shortFormatItem formatId name ++ rest) =
      .ok (some ((formatId, ⟨kind, name⟩), rest)) := by
  have field : (name ++ List.replicate (formatListShortNameLen - name.length) (0 : Byte)).length =
      formatListShortNameLen := by
    rw [List.length_append, List.length_replicate, Nat.add_sub_cancel' fits]
  have long : ¬(FormatListSerializer.shortFormatItem formatId name ++ rest).length <
      formatListShortNameLen + 4 := by
    rw [FormatListSerializer.shortFormatItem, List.append_assoc (leBytes 4 _), List.length_append,
      List.length_append, field, length_leBytes]
    omega
  rw [readShortFormat, if_neg long, FormatListSerializer.shortFormatItem, List.append_assoc,
    List.append_assoc, inLe_append, ok_bind]
  simp only
  rw [← List.append_assoc, inBytes_append field, ok_bind]
  rw [found, ok_bind, first_ok (by rw [field]; exact fits), List.take_left, ok_bind, pure_ok,
    Nat.mod_eq_of_lt formatId.isLt, BitVec.ofNat_toNat, BitVec.setWidth_eq]

theorem utf16ByteLen_zeros (more : Nat) : utf16ByteLen (List.replicate more 0) = 0 := by
  cases more with
  | zero => rfl
  | succ more => cases more <;> rfl

theorem unicodeNameLen_field {name : List Byte} (whole : WholeUnits name)
    (fits : name.length ≤ unicodeShortMaxNameLen) :
    unicodeNameLen (name ++ List.replicate (formatListShortNameLen - name.length) 0) =
      .ok name.length := by
  rw [unicodeShortMaxNameLen, formatListShortNameLen] at *
  obtain ⟨more, is⟩ := Nat.exists_eq_add_of_le fits
  have zeros : 32 - name.length = more + 2 := by omega
  rw [unicodeNameLen, zeros, List.replicate_add more, ← List.append_assoc,
    dropBack_append _ (List.length_replicate), ← utf16ByteLen_append whole (utf16ByteLen_zeros more)]
  rfl

theorem readFormat_item {kind : NameKind} (named : NamedFormat kind) (rest : List Byte) :
    readFormat kind (FormatListSerializer.item named.format ++ rest) =
      .ok (some (named.format, rest)) := by
  have admissible := named.admissible
  cases kind with
  | unicodeLong => exact readLongFormat_item named.formatId admissible rest
  | ascii =>
    obtain ⟨nonzero, fits⟩ := admissible
    refine readShortFormat_item named.formatId (Nat.le_trans fits (Nat.sub_le _ _)) ?_ rest
    rw [asciiNameLen, strnlen_append nonzero fits]
  | unicodeShort =>
    obtain ⟨whole, fits⟩ := admissible
    exact readShortFormat_item named.formatId (Nat.le_trans fits (Nat.sub_le _ _))
      (unicodeNameLen_field whole fits) rest

theorem readFormat_nil (kind : NameKind) : readFormat kind [] = .ok none := by
  cases kind <;> rfl

theorem serializeList_eq {tailroom : Nat} {formats : List Format} {bytes : List Byte}
    (written : FormatListSerializer.serializeList tailroom formats = some bytes) :
    bytes = formats.flatMap FormatListSerializer.item := by
  induction formats generalizing tailroom bytes with
  | nil =>
    cases written
    rfl
  | cons format rest ih =>
    rw [FormatListSerializer.serializeList, FormatListSerializer.serialize] at written
    by_cases room : FormatListSerializer.requiredSize format.2 ≤ tailroom
    · rw [if_pos room] at written
      obtain ⟨first, same, behind⟩ := Option.bind_eq_some_iff.mp written
      obtain ⟨later, more, all⟩ := Option.bind_eq_some_iff.mp behind
      cases same
      cases all
      rw [List.flatMap_cons, ih more]
    · rw [if_neg room] at written
      cases written

/-- The formats that have been written are read back, and all of them are given to `processFormat`. -/
theorem extractLoop_formats {σ : Type} {processFormat : σ → Format → Bool × σ} {kind : NameKind}
    (formats : List (NamedFormat kind)) {fuel : Nat}
    (enough : (formats.flatMap fun named => FormatListSerializer.item named.format).length < fuel)
    (state : σ) :
    extractLoop (readFormat kind) processFormat fuel
        (formats.flatMap fun named => FormatListSerializer.item named.format) state =
      .ok ⟨formats.map NamedFormat.format,
        visitAll processFormat state (formats.map NamedFormat.format), []⟩ := by
  induction formats generalizing fuel state with
  | nil =>
    obtain ⟨fuel, rfl⟩ := Nat.exists_eq_succ_of_ne_zero (Nat.ne_of_gt (Nat.zero_lt_of_lt enough))
    rw [List.flatMap_nil, extractLoop, readFormat_nil]
    rfl
  | cons named formats ih =>
    obtain ⟨fuel, rfl⟩ := Nat.exists_eq_succ_of_ne_zero (Nat.ne_of_gt (Nat.zero_lt_of_lt enough))
    have read := readFormat_item named
      (formats.flatMap fun named => FormatListSerializer.item named.format)
    obtain ⟨result, answer, less⟩ := readFormat_shortens kind
      (FormatListSerializer.item named.format ++
        formats.flatMap fun named => FormatListSerializer.item named.format)
    rw [read] at answer
    cases answer
    have shorter := less named.format _ rfl
    rw [List.flatMap_cons] at enough ⊢
    rw [extractLoop, read, ok_bind]
    simp only
    rw [ih (Nat.lt_of_lt_of_le shorter (Nat.le_of_lt_succ enough))]
    rfl

/-- `format_list_extract` gives all of the formats of a list to `process_format`. -/
theorem formatListExtract_formats {σ : Type} (processFormat : σ → Format → Bool × σ)
    {generalFlags : BitVec 32} {msgFlags : BitVec 16}
    (formats : List (NamedFormat (nameKind generalFlags msgFlags))) {tailroom : Nat}
    {bytes : List Byte}
    (written : FormatListSerializer.serializeList tailroom (formats.map NamedFormat.format) =
      some bytes) (state : σ) :
    formatListExtract processFormat bytes generalFlags msgFlags state =
      .ok ⟨formats.map NamedFormat.format,
        visitAll processFormat state (formats.map NamedFormat.format), []⟩ := by
  rw [serializeList_eq written, List.flatMap_map]
  exact extractLoop_formats formats (Nat.lt_succ_self _) state

end RoundTrip

end Redemption.Cliprdr
