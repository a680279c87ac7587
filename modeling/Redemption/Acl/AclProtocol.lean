import Redemption.Acl.AclReader

/-! The wire format of the fields of the ACL, and what the reader makes of it. -/
namespace Redemption.Acl

open Redemption.Foundation Reader

variable {Config AuthId : Type} [DecidableEq AuthId]

/-- A field on the wire: one without a value is an ask, one with a value may have any type. -/
structure Entry where
  type : Byte
  name : List Byte
  value : Option (List Byte)
  deriving DecidableEq, Repr

namespace Entry

def valueBytes : Option (List Byte) → List Byte
  | none => []
  | some value => beBytes 4 value.length ++ value

def encode (entry : Entry) : List Byte :=
  entry.type :: (beBytes 1 entry.name.length ++ (entry.name ++ valueBytes entry.value))

/-- The reader looks for a value, but behind a name that it knows and that is asked for. -/
structure Fits (ini : Inifile Config AuthId) (entry : Entry) : Prop where
  nameSmall : entry.name.length ≤ 255
  valued : entry.value = none ↔
    (ini.getAclFieldByName entry.name).isSome ∧ isAsk entry.type = true
  valueSmall : ∀ value, entry.value = some value → value.length ≤ maxValueLen

/-- What a field changes. -/
def apply (ini : Inifile Config AuthId) (entry : Entry) (applied : Applied Config AuthId) :
    Applied Config AuthId :=
  match ini.getAclFieldByName entry.name, entry.value with
  | none, _ => applied
  | some authid, none => ini.applyAsk authid applied
  | some authid, some value => ini.applyValue authid value applied

def applyAll (ini : Inifile Config AuthId) (entries : List Entry)
    (applied : Applied Config AuthId) : Applied Config AuthId :=
  entries.foldl (fun applied entry => entry.apply ini applied) applied

/-- A message: the number of its fields, and the fields. -/
def encodeMessage (entries : List Entry) : List Byte :=
  beBytes 2 entries.length ++ entries.flatMap encode

end Entry

namespace Reader.Front

variable (ini : Inifile Config AuthId)

def field (applied : Applied Config AuthId) :
    FrontReader AclError Byte (Applied Config AuthId) :=
  key.andThen fun (type, key) =>
    match ini.getAclFieldByName key with
    | some authid =>
      if isAsk type then .give (ini.applyAsk authid applied)
      else value.andThen fun value => .give (ini.applyValue authid value applied)
    | none => value.andThen fun _ => .give applied

def fields : Nat → Applied Config AuthId →
    FrontReader AclError Byte (Applied Config AuthId)
  | 0, applied => .give applied
  | nfield + 1, applied => (field ini applied).andThen fun applied => fields nfield applied

def message (applied : Applied Config AuthId) :
    FrontReader AclError Byte (Applied Config AuthId) :=
  .guard 4 <| (FrontReader.be 2).andThen fun nfield => fields ini nfield applied

variable {ini}

theorem agrees_readField (applied : Applied Config AuthId) :
    Agrees 0 0 (ini.readField applied) (field ini applied) := by
  apply agrees_readKey.bind
  intro (type, key)
  simp only
  cases ini.getAclFieldByName key with
  | none => exact agrees_readValue.bind fun _ => Follows.give applied
  | some authid =>
    apply Follows.ite
    · intro _
      exact Follows.give _
    · intro _
      exact agrees_readValue.bind fun value => Follows.give _

theorem agrees_readFields (nfield : Nat) (applied : Applied Config AuthId) :
    Agrees 0 0 (ini.readFields nfield applied) (fields ini nfield applied) := by
  induction nfield generalizing applied with
  | zero => exact Follows.give applied
  | succ nfield ih => exact (agrees_readField applied).bind ih

theorem agrees_readMessage (applied : Applied Config AuthId) :
    Agrees 0 0 (ini.readMessage applied) (message ini applied) := by
  have number : Agrees (2 + 2) 2 (inUintBe 2) (FrontReader.be 2) := agrees_inUintBe 2
  have rest := number.bind fun nfield =>
    (@agrees_readFields _ _ _ ini nfield applied).weaken
      (fun _ has => has.less (Nat.zero_le 2)) fun _ has => has
  rw [Inifile.readMessage, readNfield, bind_assoc]
  exact agrees_read (by decide) rest

section Gives

theorem gives_key {type : Byte} {name : List Byte} (small : name.length ≤ 255) :
    key.Gives ([type] ++ (beBytes 1 name.length ++ (name ++ []))) (type, name) := by
  have byte : beBytes 1 name.length = [BitVec.ofNat 8 name.length] := rfl
  have length : (BitVec.ofNat 8 name.length).toNat = name.length := by
    rw [BitVec.toNat_ofNat]
    exact Nat.mod_eq_of_lt (by omega)
  have cells := FrontReader.gives_cells (φ := AclError) name
  apply FrontReader.Gives.guard
  · apply (FrontReader.gives_cell type).andThen
    rw [byte]
    apply (FrontReader.gives_cell _).andThen
    rw [length]
    apply FrontReader.Gives.guard
    · exact cells.andThen (FrontReader.gives_give _)
    · exact Nat.le_of_eq (congrArg List.length (List.append_nil name).symm)
  · simp only [List.length_append, List.length_singleton, length_beBytes]
    omega

theorem gives_value {bytes : List Byte} (small : bytes.length ≤ maxValueLen) :
    value.Gives (beBytes 4 bytes.length ++ bytes) bytes := by
  have number : bytes.length < 2 ^ (8 * 4) := Nat.lt_of_le_of_lt small (by decide)
  apply FrontReader.Gives.guard
  · apply (FrontReader.gives_be number).andThen
    rw [valueBytes, if_neg (Nat.not_lt.mpr small)]
    exact FrontReader.gives_cells bytes
  · rw [List.length_append, length_beBytes]
    exact Nat.le_add_right _ _

omit [DecidableEq AuthId] in
theorem gives_value_then {bytes : List Byte} (small : bytes.length ≤ maxValueLen)
    (change : List Byte → Applied Config AuthId) :
    (FrontReader.andThen value fun bytes => .give (change bytes)).Gives
      (Entry.valueBytes (some bytes)) (change bytes) := by
  have given : (FrontReader.give (change bytes) : FrontReader AclError Byte _).Gives [] _ :=
    FrontReader.gives_give (change bytes)
  have both := @FrontReader.Gives.andThen _ _ _ _ value (fun bytes => .give (change bytes)) _ _ _ _
    (gives_value small) given
  rw [List.append_nil] at both
  exact both

theorem gives_field {entry : Entry} (fits : entry.Fits ini) (applied : Applied Config AuthId) :
    (field ini applied).Gives entry.encode (entry.apply ini applied) := by
  obtain ⟨type, name, value'⟩ := entry
  obtain ⟨nameSmall, valued, valueSmall⟩ := fits
  have split : Entry.encode ⟨type, name, value'⟩ =
      [type] ++ (beBytes 1 name.length ++ (name ++ [])) ++ Entry.valueBytes value' := by
    simp only [Entry.encode, List.append_nil, List.nil_append, List.cons_append,
      List.append_assoc]
  rw [split, field]
  apply (gives_key nameSmall).andThen
  simp only at valued valueSmall ⊢
  rw [Entry.apply]
  cases known : ini.getAclFieldByName name with
  | none =>
    rw [known] at valued
    cases value' with
    | none => cases (valued.mp rfl).1
    | some bytes => exact gives_value_then (valueSmall bytes rfl) fun _ => applied
  | some authid =>
    rw [known] at valued
    cases value' with
    | none =>
      simp only [(valued.mp rfl).2, if_true]
      exact FrontReader.gives_give _
    | some bytes =>
      have no : ¬ isAsk type = true := fun ask => by cases valued.mpr ⟨rfl, ask⟩
      simp only [no]
      exact gives_value_then (valueSmall bytes rfl) fun bytes => ini.applyValue authid bytes applied

theorem gives_fields {entries : List Entry} (fits : ∀ entry ∈ entries, entry.Fits ini)
    (applied : Applied Config AuthId) :
    (fields ini entries.length applied).Gives (entries.flatMap Entry.encode)
      (Entry.applyAll ini entries applied) := by
  induction entries generalizing applied with
  | nil => exact FrontReader.gives_give applied
  | cons entry entries ih =>
    apply (gives_field (fits entry List.mem_cons_self) applied).andThen
    exact ih (fun entry member => fits entry (List.mem_cons_of_mem _ member)) _

/-- A message is read as soon as there are four bytes: its own, or some of what is behind it. -/
theorem message_eq {entries : List Entry} (few : entries.length ≤ 65535)
    (fits : ∀ entry ∈ entries, entry.Fits ini) (applied : Applied Config AuthId)
    {rest : List Byte} (enough : 4 ≤ (Entry.encodeMessage entries ++ rest).length) :
    message ini applied (Entry.encodeMessage entries ++ rest) =
      .ok (some (Entry.applyAll ini entries applied, rest)) := by
  rw [message, FrontReader.guard_enough enough]
  have number : entries.length < 2 ^ (8 * 2) := Nat.lt_succ_of_le few
  exact ((FrontReader.gives_be number).andThen (gives_fields fits applied)) rest

end Gives

section Found

theorem of_key {type : Byte} {name stream rest : List Byte}
    (found : key stream = .ok (some ((type, name), rest))) :
    name.length ≤ 255 ∧ stream = type :: (beBytes 1 name.length ++ (name ++ rest)) := by
  obtain ⟨_, found⟩ := FrontReader.of_guard found
  obtain ⟨type', _, first, found⟩ := FrontReader.andThen_eq_some_iff.mp found
  obtain ⟨nameLen, _, second, found⟩ := FrontReader.andThen_eq_some_iff.mp found
  obtain ⟨_, found⟩ := FrontReader.of_guard found
  obtain ⟨name', _, third, given⟩ := FrontReader.andThen_eq_some_iff.mp found
  obtain rfl := FrontReader.of_cell first
  obtain rfl := FrontReader.of_cell second
  obtain ⟨length, rfl⟩ := FrontReader.of_cells third
  obtain ⟨same, rfl⟩ := FrontReader.of_give given
  cases same
  have byte : beBytes 1 name.length = [nameLen] := by
    rw [length]
    change [BitVec.ofNat 8 nameLen.toNat] = [nameLen]
    rw [BitVec.ofNat_toNat, BitVec.setWidth_eq]
  constructor
  · rw [length]
    exact Nat.le_of_lt_succ nameLen.isLt
  · rw [byte]
    rfl

theorem of_value {bytes stream rest : List Byte}
    (found : value stream = .ok (some (bytes, rest))) :
    bytes.length ≤ maxValueLen ∧
      stream = Entry.valueBytes (some bytes) ++ rest := by
  obtain ⟨_, found⟩ := FrontReader.of_guard found
  obtain ⟨valueLen, _, number, taken⟩ := FrontReader.andThen_eq_some_iff.mp found
  obtain ⟨_, rfl⟩ := FrontReader.of_be number
  rw [valueBytes] at taken
  by_cases big : valueLen > maxValueLen
  · rw [if_pos big] at taken
    cases taken
  · rw [if_neg big] at taken
    obtain ⟨rfl, rfl⟩ := FrontReader.of_cells taken
    exact ⟨Nat.le_of_not_lt big, (List.append_assoc _ _ _).symm⟩

variable {applied after : Applied Config AuthId}

theorem of_field {stream rest : List Byte}
    (found : field ini applied stream = .ok (some (after, rest))) :
    ∃ entry : Entry, entry.Fits ini ∧ stream = entry.encode ++ rest ∧
      after = entry.apply ini applied := by
  obtain ⟨⟨type, name⟩, _, first, behind⟩ := FrontReader.andThen_eq_some_iff.mp found
  obtain ⟨small, rfl⟩ := of_key first
  have encoded : ∀ (value' : Option (List Byte)) (rest : List Byte),
      type :: (beBytes 1 name.length ++ (name ++ (Entry.valueBytes value' ++ rest))) =
        Entry.encode ⟨type, name, value'⟩ ++ rest := by
    intro value' rest
    simp only [Entry.encode, List.cons_append, List.append_assoc]
  simp only at behind
  cases known : ini.getAclFieldByName name with
  | none =>
    rw [known] at behind
    obtain ⟨bytes, _, second, given⟩ := FrontReader.andThen_eq_some_iff.mp behind
    obtain ⟨fits, rfl⟩ := of_value second
    obtain ⟨rfl, rfl⟩ := FrontReader.of_give given
    refine ⟨⟨type, name, some bytes⟩, ⟨small, ?_, ?_⟩, encoded (some bytes) _, ?_⟩
    · rw [known]
      exact ⟨fun none => (by cases none), fun both => (by cases both.1)⟩
    · rintro _ ⟨⟩
      exact fits
    · rw [Entry.apply, known]
  | some authid =>
    rw [known] at behind
    simp only at behind
    by_cases ask : isAsk type = true
    · rw [if_pos ask] at behind
      obtain ⟨rfl, rfl⟩ := FrontReader.of_give behind
      refine ⟨⟨type, name, none⟩, ⟨small, ?_, ?_⟩, encoded none _, ?_⟩
      · rw [known]
        exact ⟨fun _ => ⟨rfl, ask⟩, fun _ => rfl⟩
      · rintro _ ⟨⟩
      · rw [Entry.apply, known]
    · rw [if_neg ask] at behind
      obtain ⟨bytes, _, second, given⟩ := FrontReader.andThen_eq_some_iff.mp behind
      obtain ⟨fits, rfl⟩ := of_value second
      obtain ⟨rfl, rfl⟩ := FrontReader.of_give given
      refine ⟨⟨type, name, some bytes⟩, ⟨small, ?_, ?_⟩, encoded (some bytes) _, ?_⟩
      · exact ⟨fun none => (by cases none), fun both => absurd both.2 ask⟩
      · rintro _ ⟨⟩
        exact fits
      · rw [Entry.apply, known]

theorem of_fields {nfield : Nat} {stream rest : List Byte}
    (found : fields ini nfield applied stream = .ok (some (after, rest))) :
    ∃ entries : List Entry, entries.length = nfield ∧ (∀ entry ∈ entries, entry.Fits ini) ∧
      stream = entries.flatMap Entry.encode ++ rest ∧
      after = Entry.applyAll ini entries applied := by
  induction nfield generalizing applied stream with
  | zero =>
    obtain ⟨rfl, rfl⟩ := FrontReader.of_give found
    exact ⟨[], rfl, List.forall_mem_nil _, rfl, rfl⟩
  | succ nfield ih =>
    obtain ⟨middle, rest', found, found'⟩ := FrontReader.andThen_eq_some_iff.mp found
    obtain ⟨entry, fits, rfl, rfl⟩ := of_field found
    obtain ⟨entries, rfl, fits', rfl, rfl⟩ := ih found'
    refine ⟨entry :: entries, rfl, ?_, ?_, rfl⟩
    · intro other member
      cases member with
      | head => exact fits
      | tail _ member => exact fits' other member
    · rw [List.flatMap_cons, List.append_assoc]

theorem of_message {stream rest : List Byte}
    (found : message ini applied stream = .ok (some (after, rest))) :
    ∃ entries : List Entry, entries.length ≤ 65535 ∧ (∀ entry ∈ entries, entry.Fits ini) ∧
      stream = Entry.encodeMessage entries ++ rest ∧
      after = Entry.applyAll ini entries applied := by
  obtain ⟨_, found⟩ := FrontReader.of_guard found
  obtain ⟨nfield, rest', found, found'⟩ := FrontReader.andThen_eq_some_iff.mp found
  obtain ⟨small, rfl⟩ := FrontReader.of_be found
  obtain ⟨entries, rfl, fits, rfl, rfl⟩ := of_fields found'
  exact ⟨entries, Nat.le_of_lt_succ small, fits, (List.append_assoc _ _ _).symm, rfl⟩

end Found

end Reader.Front

end Redemption.Acl
