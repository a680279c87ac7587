import Redemption.Cliprdr.Pdus
import Redemption.Cliprdr.FileListParser

/-! What the parsers of the clipboard do with what has been written, and with any bytes. -/
namespace Redemption.Cliprdr

open Redemption.Foundation

namespace CliprdrHeader

theorem read_total (stream : List Byte) : ∃ result, read stream = .ok result := by
  rw [read]
  by_cases short : stream.length < pduLen
  · rw [if_pos short]
    exact ⟨none, rfl⟩
  · rw [if_neg short]
    rw [pduLen] at short
    refine exists_ok_bind (inLe_ok (by omega)) ?_
    refine exists_ok_bind (inLe_ok (by simp only [List.length_drop]; omega)) ?_
    exact exists_ok_bind (inLe_ok (by simp only [List.length_drop]; omega)) ⟨_, rfl⟩

end CliprdrHeader

namespace CliprdrReader

theorem readData_total (header : CliprdrHeader) (stream : List Byte)
    (channelFlags : ChannelFlags) : ∃ result, readData header stream channelFlags = .ok result := by
  refine exists_ok_bind (inBytes_ok (Nat.min_le_left _ _)) ?_
  simp only
  split <;> exact ⟨_, rfl⟩

theorem read_total (header : CliprdrHeader) (chunk : List Byte) (totalLen : BitVec 32)
    (channelFlags : ChannelFlags) :
    ∃ result, read header chunk totalLen channelFlags = .ok result := by
  rw [read]
  by_cases begins : channelFlags.first = true
  · obtain ⟨found, answer⟩ := CliprdrHeader.read_total chunk
    rw [if_pos begins]
    refine exists_ok_bind answer ?_
    cases found with
    | none => exact ⟨_, rfl⟩
    | some found =>
      obtain ⟨header, stream⟩ := found
      simp only
      split
      · exact ⟨_, rfl⟩
      · exact readData_total header stream channelFlags
  · rw [if_neg begins]
    exact readData_total header chunk channelFlags

end CliprdrReader

namespace GeneralFlagsCapability

def capsSetOf (stream : List Byte) : CliprdrCapabilitiesSet :=
  ⟨BitVec.ofNat 16 (leValue (stream.take 2)), BitVec.ofNat 16 (leValue ((stream.drop 2).take 2))⟩

theorem readCapsSet_ok {stream : List Byte} (enough : capsSetLen ≤ stream.length) :
    readCapsSet stream = .ok (some (capsSetOf stream, stream.drop capsSetLen)) := by
  rw [readCapsSet, if_neg (Nat.not_lt.mpr enough)]
  rw [capsSetLen] at enough
  rw [inLe_ok (by omega), ok_bind]
  simp only
  rw [inLe_ok (by rw [List.length_drop]; omega), ok_bind, List.drop_drop]
  rfl

theorem readGeneralCap_ok {stream : List Byte} (enough : generalCapLen ≤ stream.length) :
    ∃ flags, readGeneralCap stream = .ok (some (flags, stream.drop generalCapLen)) := by
  rw [readGeneralCap, if_neg (Nat.not_lt.mpr enough)]
  rw [generalCapLen] at enough
  rw [inLe_ok (by omega), ok_bind]
  simp only
  rw [inLe_ok (by rw [List.length_drop]; omega), ok_bind, List.drop_drop]
  exact ⟨_, rfl⟩

/-- How far behind its header the next set is looked for. -/
def advance (capsSet : CliprdrCapabilitiesSet) : Nat :=
  if capsSet.capabilitySetType = general then generalCapLen + skipLen capsSet generalCapLen
  else skipLen capsSet 0

/-- The sets that `parse` comes to, each with the number of the bytes behind its header. -/
def capabilitySets : Nat → List Byte → List (CliprdrCapabilitiesSet × Nat)
  | 0, _ => []
  | count + 1, stream =>
    if stream.length < capsSetLen then []
    else
      let capsSet := capsSetOf stream
      let room := stream.length - capsSetLen
      if capsSet.lengthCapability.toNat < capsSetLen ∨
          room < capsSet.lengthCapability.toNat - capsSetLen then []
      else (capsSet, room) :: capabilitySets count (stream.drop (capsSetLen + advance capsSet))

/-- A general set, with its capability there, from whose end nothing is skipped that is not there. -/
def Closed (capsSet : CliprdrCapabilitiesSet) (room : Nat) : Prop :=
  capsSet.capabilitySetType = general → generalCapLen ≤ room → advance capsSet ≤ room

theorem capabilitySets_room {count : Nat} {stream : List Byte} {capsSet room}
    (mem : (capsSet, room) ∈ capabilitySets count stream) : room + capsSetLen ≤ stream.length := by
  induction count generalizing stream with
  | zero => cases mem
  | succ count ih =>
    rw [capabilitySets] at mem
    by_cases short : stream.length < capsSetLen
    · rw [if_pos short] at mem
      cases mem
    · rw [if_neg short] at mem
      by_cases bad : (capsSetOf stream).lengthCapability.toNat < capsSetLen ∨
          stream.length - capsSetLen < (capsSetOf stream).lengthCapability.toNat - capsSetLen
      · rw [if_pos bad] at mem
        cases mem
      · rw [if_neg bad] at mem
        obtain same | later := List.mem_cons.mp mem
        · cases same
          omega
        · have less := ih later
          rw [List.length_drop] at less
          omega

variable {capsSet : CliprdrCapabilitiesSet}

/-- What is skipped of a set that is there does not go past its end, unless the set is a general one. -/
theorem skipLen_other
    (enough : capsSetLen ≤ capsSet.lengthCapability.toNat) :
    skipLen capsSet 0 = capsSet.lengthCapability.toNat - capsSetLen := by
  rw [capsSetLen] at *
  rw [skipLen, capsSetLen]
  simp only [BitVec.toNat_sub, BitVec.toNat_setWidth, BitVec.toNat_ofNat]
  omega

theorem skip_ok_iff {skip : Nat} {stream : List Byte}
    {next : List Byte → Checked Empty GeneralFlagsCapability} :
    (∃ result, ((inBytes skip stream : Checked Empty _) >>= fun skipped => next skipped.2) =
        .ok result) ↔
      skip ≤ stream.length ∧ ∃ result, next (stream.drop skip) = .ok result := by
  by_cases room : skip ≤ stream.length
  · rw [inBytes_ok room]
    exact ⟨fun answer => ⟨room, answer⟩, And.right⟩
  · rw [inBytes, if_neg room]
    constructor
    · rintro ⟨_, answer⟩
      cases answer
    · exact fun both => absurd both.1 room

theorem forall_mem_closed_cons {room : Nat}
    {rest : List (CliprdrCapabilitiesSet × Nat)} :
    (∀ capsSet' room', (capsSet', room') ∈ (capsSet, room) :: rest → Closed capsSet' room') ↔
      Closed capsSet room ∧ ∀ capsSet' room', (capsSet', room') ∈ rest → Closed capsSet' room' := by
  constructor
  · intro all
    exact ⟨all _ _ List.mem_cons_self, fun _ _ mem => all _ _ (List.mem_cons_of_mem _ mem)⟩
  · rintro ⟨first, later⟩ capsSet' room' mem
    obtain same | mem := List.mem_cons.mp mem
    · cases same
      exact first
    · exact later _ _ mem

/-- The sets are read inside the bytes exactly where every set is closed. -/
theorem parseSets_ok_iff (count : Nat) (stream : List Byte) (generalFlags : BitVec 32) :
    (∃ result, parseSets count stream generalFlags = .ok result) ↔
      ∀ capsSet room, (capsSet, room) ∈ capabilitySets count stream → Closed capsSet room := by
  induction count generalizing stream generalFlags with
  | zero => exact ⟨fun _ _ _ mem => absurd mem List.not_mem_nil, fun _ => ⟨_, rfl⟩⟩
  | succ count ih =>
    rw [parseSets, capabilitySets]
    by_cases short : stream.length < capsSetLen
    · have none : readCapsSet stream = .ok none := if_pos short
      rw [if_pos short, none]
      exact ⟨fun _ _ _ mem => absurd mem List.not_mem_nil, fun _ => ⟨_, rfl⟩⟩
    · have enough := Nat.le_of_not_lt short
      rw [if_neg short, readCapsSet_ok enough, ok_bind]
      simp only [List.length_drop]
      by_cases bad : (capsSetOf stream).lengthCapability.toNat < capsSetLen ∨
          stream.length - capsSetLen < (capsSetOf stream).lengthCapability.toNat - capsSetLen
      · rw [if_pos bad, if_pos bad]
        exact ⟨fun _ _ _ mem => absurd mem List.not_mem_nil, fun _ => ⟨_, rfl⟩⟩
      · rw [if_neg bad, if_neg bad]
        obtain ⟨long, inside⟩ := not_or.mp bad
        have long := Nat.le_of_not_lt long
        have inside := Nat.le_of_not_lt inside
        by_cases isGeneral : (capsSetOf stream).capabilitySetType = general
        · rw [if_pos isGeneral]
          have far : advance (capsSetOf stream) =
              generalCapLen + skipLen (capsSetOf stream) generalCapLen := if_pos isGeneral
          by_cases there : generalCapLen ≤ stream.length - capsSetLen
          · obtain ⟨flags, read⟩ := @readGeneralCap_ok (stream.drop capsSetLen)
              (by rw [List.length_drop]; exact there)
            rw [read, ok_bind]
            rw [@skip_ok_iff _ _ fun stream => parseSets count stream _, ih, List.length_drop, List.length_drop, List.drop_drop,
              List.drop_drop, forall_mem_closed_cons, far]
            apply and_congr_left
            intro _
            constructor
            · intro enough' _ _
              omega
            · intro closed
              have less := closed isGeneral there
              omega
          · have none : readGeneralCap (stream.drop capsSetLen) = .ok none :=
              if_pos (by rw [List.length_drop]; exact Nat.lt_of_not_le there)
            rw [none]
            refine ⟨fun _ capsSet room mem _ there' => ?_, fun _ => ⟨_, rfl⟩⟩
            obtain same | later := List.mem_cons.mp mem
            · cases same
              exact absurd there' there
            · have less := capabilitySets_room later
              rw [List.length_drop] at less
              omega
        · have far : advance (capsSetOf stream) = skipLen (capsSetOf stream) 0 := if_neg isGeneral
          have skips := skipLen_other long
          rw [if_neg isGeneral, @skip_ok_iff _ _ fun stream => parseSets count stream _, ih, List.length_drop, List.drop_drop,
            forall_mem_closed_cons, far]
          constructor
          · exact fun both => ⟨fun is => absurd is isGeneral, both.2⟩
          · exact fun both => ⟨by rw [skips]; exact inside, both.2⟩

def capabilitySetsOf (data : List Byte) : List (CliprdrCapabilitiesSet × Nat) :=
  if data.length < capsLen then [] else capabilitySets (leValue (data.take 2)) (data.drop capsLen)

/-- `parse` stays inside its data exactly where every set that it comes to is closed. -/
theorem parse_ok_iff (data : List Byte) :
    (∃ result, parse data = .ok result) ↔
      ∀ capsSet room, (capsSet, room) ∈ capabilitySetsOf data → Closed capsSet room := by
  rw [parse, capabilitySetsOf]
  by_cases short : data.length < capsLen
  · have none : readCaps data = .ok none := if_pos short
    rw [if_pos short, none]
    exact ⟨fun _ _ _ mem => absurd mem List.not_mem_nil, fun _ => ⟨_, rfl⟩⟩
  · have enough := Nat.le_of_not_lt short
    have found : readCaps data = .ok (some (leValue (data.take 2), data.drop capsLen)) := by
      rw [readCaps, if_neg short]
      rw [capsLen] at enough
      rw [inLe_ok (by omega), ok_bind]
      simp only
      rw [inBytes_ok (by rw [List.length_drop]; omega), ok_bind, List.drop_drop]
      rfl
    rw [if_neg short, found, ok_bind]
    exact parseSets_ok_iff _ _ _

/-- In data that a chunk can hold, a general set is closed where it announces all of its capability. -/
theorem closed_iff {room : Nat} (held : room < 2 ^ 32 - 4)
    (enough : capsSetLen ≤ capsSet.lengthCapability.toNat)
    (inside : capsSet.lengthCapability.toNat - capsSetLen ≤ room) :
    Closed capsSet room ↔ (capsSet.capabilitySetType = general → generalCapLen ≤ room →
      capsSetLen + generalCapLen ≤ capsSet.lengthCapability.toNat) := by
  have skip : skipLen capsSet generalCapLen = if capsSetLen + generalCapLen ≤
      capsSet.lengthCapability.toNat then capsSet.lengthCapability.toNat - 12
      else 2 ^ 32 + capsSet.lengthCapability.toNat - 12 := by
    rw [skipLen, capsSetLen, generalCapLen]
    simp only [BitVec.toNat_sub, BitVec.toNat_setWidth, BitVec.toNat_ofNat]
    split <;> omega
  constructor
  · intro closed isGeneral there
    have less := closed isGeneral there
    rw [advance, if_pos isGeneral, skip] at less
    by_contra short
    rw [if_neg short] at less
    rw [capsSetLen, generalCapLen] at *
    omega
  · intro announced isGeneral there
    rw [advance, if_pos isGeneral, skip, if_pos (announced isGeneral there)]
    rw [capsSetLen, generalCapLen] at *
    omega

end GeneralFlagsCapability

section Exact

variable {σ τ : Type} (processFormat : σ → Format → Bool × σ)
  (fdFn : τ → FileDescriptor → Bool × τ)

/-- The formats of a list are given to `processFormat` until it refuses one. -/
def ExtractsFormats (bytes : List Byte) (generalFlags : BitVec 32) (msgFlags : BitVec 16)
    (formats : List Format) (state : σ) : Prop :=
  ∃ extracted, formatListExtract processFormat bytes generalFlags msgFlags state = .ok extracted ∧
    extracted.calls = (visit processFormat state formats).values

/-- The descriptors of a file list are given to `fdFn` until it refuses one. -/
def ParsesDescriptors (chunks : List (List Byte)) (buffer : DescriptorBuffer)
    (descriptors : List FileDescriptor) (state : τ) : Prop :=
  ∃ parsed, FileListParser.parseChunks fdFn chunks 0 buffer state = .ok parsed ∧
    parsed.calls = (visit fdFn state descriptors).values ∧
    ((visit fdFn state descriptors).accepted = true → parsed.newBufferOffset = 0)

/-- The parsers read nothing but the bytes that they are given. -/
structure Inside (data : List Byte) : Prop where
  formatListExtract : ∀ generalFlags msgFlags state, ∃ extracted,
    formatListExtract processFormat data generalFlags msgFlags state = .ok extracted
  generalFlagsCapability : ∃ result, GeneralFlagsCapability.parse data = .ok result
  fileListParser : ∀ bufferOffset < fileDescriptorLen, ∀ buffer state, ∃ parsed,
    FileListParser.parse fdFn data bufferOffset buffer state = .ok parsed
  cliprdrReader : ∀ header totalLen channelFlags, ∃ result,
    CliprdrReader.read header data totalLen channelFlags = .ok result

/-- Formats and descriptors that have been written are given to the callbacks up to the first that
is refused, and any data are read inside, exactly where no format but the last is refused and no
general set ends within its capability. -/
theorem parsers_exact {generalFlags : BitVec 32} {msgFlags : BitVec 16}
    (formats : List (NamedFormat (nameKind generalFlags msgFlags))) {tailroom : Nat}
    {bytes : List Byte}
    (written : FormatListSerializer.serializeList tailroom (formats.map NamedFormat.format) =
      some bytes) (state : σ)
    (fds : List NamedDescriptor) {chunks : List (List Byte)}
    (cut : chunks.flatten = fds.flatMap NamedDescriptor.pdu) (buffer : DescriptorBuffer) (state' : τ)
    (data : List Byte) :
    (ExtractsFormats processFormat bytes generalFlags msgFlags (formats.map NamedFormat.format) state ∧
        ParsesDescriptors fdFn chunks buffer (fds.map NamedDescriptor.descriptor) state' ∧
        Inside processFormat fdFn data) ↔
      ((visit processFormat state (formats.map NamedFormat.format).dropLast).accepted = true ∧
        ∀ capsSet room, (capsSet, room) ∈ GeneralFlagsCapability.capabilitySetsOf data →
          GeneralFlagsCapability.Closed capsSet room) := by
  have extracts : ExtractsFormats processFormat bytes generalFlags msgFlags
      (formats.map NamedFormat.format) state ↔
        (visit processFormat state (formats.map NamedFormat.format).dropLast).accepted = true := by
    rw [← visit_all_iff, ExtractsFormats, formatListExtract_formats processFormat formats written]
    constructor
    · rintro ⟨extracted, same, calls⟩
      cases same
      exact calls.symm
    · exact fun all => ⟨_, rfl, all.symm⟩
  have parses : ParsesDescriptors fdFn chunks buffer (fds.map NamedDescriptor.descriptor) state' := by
    obtain ⟨parsed, ran, parses⟩ := @FileListParser.parseChunks_pdus τ fdFn chunks fds [] 0 buffer
      (by decide) (by rw [List.take_zero, List.nil_append, List.append_nil]; exact cut) (by decide)
      state'
    exact ⟨parsed, ran, parses.calls, parses.offset⟩
  rw [extracts, ← GeneralFlagsCapability.parse_ok_iff]
  constructor
  · exact fun ⟨accepted, _, inside⟩ => ⟨accepted, inside.generalFlagsCapability⟩
  · rintro ⟨accepted, parsed⟩
    refine ⟨accepted, parses, ?_, parsed, ?_, fun header => CliprdrReader.read_total header data⟩
    · intro generalFlags msgFlags state
      obtain ⟨extracted, ran, _⟩ := formatListExtract_total processFormat data generalFlags msgFlags
        state
      exact ⟨extracted, ran⟩
    · intro bufferOffset begun buffer state
      obtain ⟨parsed, ran, _⟩ := @FileListParser.parse_total τ fdFn data bufferOffset begun buffer
        state
      exact ⟨parsed, ran⟩

end Exact

/-- A format without a name, as it stands in a list of long names. -/
def unnamed (formatId : CbFormatID) : NamedFormat (nameKind useLongFormatNames 0) :=
  ⟨formatId, [], trivial⟩

/-- A descriptor of a file of three bytes whose name is `a`. -/
def smallFile : NamedDescriptor := ⟨⟨0x40, 0x80, 0, 0, 3, [97, 0]⟩, ⟨by decide, trivial⟩, by decide⟩

/-- A buffer that nothing has been written to. -/
def emptyBuffer : DescriptorBuffer := ⟨List.replicate fileDescriptorLen 0, List.length_replicate⟩

/-- A callback that wants to see nothing behind a Unicode text. -/
def untilText (_ : Unit) (format : Format) : Bool × Unit := (decide (format.1 ≠ 13), ())

def everyFile (_ : Unit) (_ : FileDescriptor) : Bool × Unit := (true, ())

/-- The list of a text and, behind it, of a Unicode text, and a general set of twelve bytes. -/
theorem parsers_exact_text :
    ExtractsFormats untilText [1, 0, 0, 0, 0, 0, 13, 0, 0, 0, 0, 0] useLongFormatNames 0
        ([unnamed 1, unnamed 13].map NamedFormat.format) () ∧
      ParsesDescriptors everyFile [smallFile.pdu] emptyBuffer
        ([smallFile].map NamedDescriptor.descriptor) () ∧
      Inside untilText everyFile [1, 0, 0, 0, 1, 0, 12, 0, 2, 0, 0, 0, 2, 0, 0, 0] := by
  have written : FormatListSerializer.serializeList 12
      ([unnamed 1, unnamed 13].map NamedFormat.format) =
        some [1, 0, 0, 0, 0, 0, 13, 0, 0, 0, 0, 0] := rfl
  have cut : [smallFile.pdu].flatten = [smallFile].flatMap NamedDescriptor.pdu := rfl
  refine (parsers_exact untilText everyFile [unnamed 1, unnamed 13] written () [smallFile] cut
    emptyBuffer () _).mpr ⟨rfl, ?_⟩
  intro capsSet room mem
  have sets : GeneralFlagsCapability.capabilitySetsOf
      [1, 0, 0, 0, 1, 0, 12, 0, 2, 0, 0, 0, 2, 0, 0, 0] = [(⟨1, 12⟩, 8)] := rfl
  rw [sets, List.mem_singleton] at mem
  cases mem
  exact fun _ _ => by decide

/-- The Unicode text comes first, and the text behind it is given to the callback all the same; and
a general set of four bytes makes the parser skip four gigabytes. -/
theorem not_parsers_exact :
    ¬ExtractsFormats untilText [13, 0, 0, 0, 0, 0, 1, 0, 0, 0, 0, 0] useLongFormatNames 0
        ([unnamed 13, unnamed 1].map NamedFormat.format) () ∧
      ¬Inside untilText everyFile [1, 0, 0, 0, 1, 0, 4, 0, 2, 0, 0, 0, 2, 0, 0, 0] := by
  constructor
  · rintro ⟨extracted, ran, calls⟩
    have both : formatListExtract untilText [13, 0, 0, 0, 0, 0, 1, 0, 0, 0, 0, 0]
        useLongFormatNames 0 () = .ok ⟨[unnamed 13, unnamed 1].map NamedFormat.format, (), []⟩ := rfl
    cases ran
    exact absurd calls (by decide)
  · intro inside
    obtain ⟨result, parsed⟩ := inside.generalFlagsCapability
    have faults : GeneralFlagsCapability.parse [1, 0, 0, 0, 1, 0, 4, 0, 2, 0, 0, 0, 2, 0, 0, 0] =
        .error .outOfBounds := by decide
    cases parsed

end Redemption.Cliprdr
