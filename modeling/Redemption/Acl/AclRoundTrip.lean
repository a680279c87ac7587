import Redemption.Acl.AclProtocol

/-! Fields that are sent, and that are received again. -/
namespace Redemption.Acl

open Redemption.Foundation Reader

section Writer

/-- A field, as it stands on the wire. -/
def Field.entry : Field → Entry
  | .ask name => ⟨askType, name, none⟩
  | .value name bytes => ⟨valueType, name, some bytes⟩

/-- A field with a name of up to 255 bytes, and a value of up to 1 MiB. -/
structure Field.Sendable (field : Field) : Prop where
  named : field.entry.name ≠ []
  nameSmall : field.entry.name.length ≤ 255
  valueSmall : ∀ value, field.entry.value = some value → value.length ≤ maxValueLen

/-- The fields of a message, as they stand on the wire. -/
def entries (fields : List Field) : List Entry := fields.map Field.entry

theorem length_entries (fields : List Field) : (entries fields).length = fields.length :=
  List.length_map _

namespace Writer

/-- What has been written: what has been sent, and what waits in the buffer. -/
def written (writer : Writer) : List Byte := writer.sent.flatten ++ writer.outStream

/-- A method writes bytes, behind those that have been written. -/
def Writes (before : Writer → Prop) (method : WriterM PUnit) (bytes : List Byte)
    (after : Writer → Prop) : Prop :=
  ∀ writer, before writer → ∃ later, method writer = .ok (⟨⟩, later) ∧
    later.written = writer.written ++ bytes ∧ after later

/-- The stream has so much room. -/
structure Room (len : Nat) (writer : Writer) : Prop where
  room : writer.outStream.length + len ≤ bufLen

theorem Writes.bind {before middle after : Writer → Prop} {method method' : WriterM PUnit}
    {bytes bytes' : List Byte} (writes : Writes before method bytes middle)
    (writes' : Writes middle method' bytes' after) :
    Writes before (method >>= fun _ => method') (bytes ++ bytes') after := by
  intro writer is
  obtain ⟨writer', run, same, is'⟩ := writes writer is
  obtain ⟨later, run', same', is''⟩ := writes' writer' is'
  refine ⟨later, ?_, ?_, is''⟩
  · change (method writer >>= fun p => method' p.2) = _
    rw [run]
    exact run'
  · rw [same', same, List.append_assoc]

theorem writes_outCopyBytes (bytes : List Byte) {room left : Nat}
    (enough : bytes.length + left ≤ room) :
    Writes (Room room) (outCopyBytes bytes) bytes (Room left) := by
  intro writer has
  have is := has.room
  have fits : bytes.length ≤ writer.tailroom := by
    rw [tailroom]
    omega
  refine ⟨_, if_pos fits, (List.append_assoc _ _ _).symm, ⟨?_⟩⟩
  rw [List.length_append]
  omega

theorem writes_sendMultiBuffer : Writes (Room 0) sendMultiBuffer [] (Room bufLen) := by
  intro writer _
  refine ⟨⟨[], writer.sent ++ [writer.outStream]⟩, rfl, ?_, ⟨Nat.le_of_eq (Nat.zero_add _)⟩⟩
  simp only [written, List.flatten_append, List.flatten_singleton, List.append_nil]

theorem Writes.weaken {before middle after : Writer → Prop} {method : WriterM PUnit}
    {bytes : List Byte} (writes : Writes before method bytes middle)
    (weaker : ∀ writer, middle writer → after writer) : Writes before method bytes after := by
  intro writer is
  obtain ⟨later, run, same, is'⟩ := writes writer is
  exact ⟨later, run, same, weaker later is'⟩

/-- There is room for the first part of what does not fit behind the rest, once the buffer has been
sent. -/
theorem writes_makeRoom {len part : Nat} (le : part ≤ len) (fits : part ≤ bufLen) :
    Writes (Room 0) (makeRoom len) [] (Room part) := by
  intro writer has
  have run : makeRoom len writer =
      (if ¬ len ≤ writer.tailroom then sendMultiBuffer else pure ⟨⟩) writer := rfl
  rw [run]
  by_cases room : len ≤ writer.tailroom
  · rw [if_neg (not_not.mpr room)]
    refine ⟨writer, rfl, (List.append_nil _).symm, ⟨?_⟩⟩
    rw [tailroom] at room
    have inBuf := has.room
    omega
  · rw [if_pos room]
    obtain ⟨later, sent, same, is⟩ := writes_sendMultiBuffer writer has
    refine ⟨later, sent, same, ⟨?_⟩⟩
    have empty := is.room
    omega

theorem writes_sendData (data : List Byte) :
    Writes (Room bufLen) (sendData data) data (Room bufLen) := by
  intro writer has
  have empty : writer.outStream = [] := List.length_eq_zero_iff.mp (by
    have room := has.room
    omega)
  refine ⟨⟨writer.outStream, writer.sent ++ [data]⟩, rfl, ?_, ⟨has.room⟩⟩
  simp only [written, empty, List.flatten_append, List.flatten_singleton, List.append_nil]

theorem writes_outValue (value : List Byte) : Writes (Room 0) (outValue value) value (Room 0) := by
  intro writer has
  have inBuf := has.room
  have run : outValue value writer =
      (if value.length ≤ writer.tailroom then outCopyBytes value
        else outCopyBytes (value.take (min writer.tailroom value.length)) >>= fun _ =>
          sendMultiBuffer >>= fun _ =>
            sendData (value.drop (min writer.tailroom value.length))) writer := by
    rw [outValue]
    change (if value.length ≤ writer.tailroom then outCopyBytes value else _) writer = _
    by_cases fits : value.length ≤ writer.tailroom
    · rw [if_pos fits, if_pos fits]
    · rw [if_neg fits, if_neg fits]
      rfl
  rw [run]
  by_cases fits : value.length ≤ writer.tailroom
  · rw [if_pos fits]
    apply writes_outCopyBytes value (Nat.le_refl value.length)
    constructor
    rw [tailroom] at fits
    omega
  · rw [if_neg fits]
    have all := (writes_outCopyBytes (value.take (min writer.tailroom value.length))
      (Nat.le_refl _)).bind (writes_sendMultiBuffer.bind
        (writes_sendData (value.drop (min writer.tailroom value.length))))
    rw [List.nil_append, List.take_append_drop] at all
    apply all.weaken (fun _ is => ⟨Nat.le_trans (Nat.le_add_right _ _) is.room⟩)
    constructor
    rw [List.length_take, tailroom]
    omega

variable {field : Field} {fields : List Field}

theorem writes_pushField (sendable : field.Sendable) :
    Writes (Room 0) (pushField field) field.entry.encode (Room 0) := by
  obtain ⟨_, small, _⟩ := sendable
  cases field with
  | ask name =>
    have fits : 2 + name.length ≤ bufLen := Nat.le_trans (Nat.add_le_add_left small 2) (by decide)
    have len : [askType].length + (1 + name.length) ≤ 2 + name.length := by
      rw [List.length_singleton]
      omega
    have all := (writes_makeRoom (Nat.le_refl _) fits).bind
      ((writes_outCopyBytes [askType] len).bind
      ((writes_outCopyBytes (beBytes 1 name.length) (by rw [length_beBytes])).bind
        (writes_outCopyBytes name (Nat.le_of_eq (Nat.add_zero name.length)))))
    rw [Entry.encode, Field.entry, Entry.valueBytes, List.append_nil]
    exact all
  | value name bytes =>
    have fits : 2 + name.length + 4 ≤ bufLen :=
      Nat.le_trans (Nat.add_le_add_right (Nat.add_le_add_left small 2) 4) (by decide)
    have len : [valueType].length + (1 + (name.length + 4)) ≤ 2 + name.length + 4 := by
      rw [List.length_singleton]
      omega
    have four : (beBytes 4 bytes.length).length + 0 ≤ 4 := by rw [length_beBytes]
    have all := (writes_makeRoom (Nat.le_add_right _ bytes.length) fits).bind
      ((writes_outCopyBytes [valueType] len).bind
      ((writes_outCopyBytes (beBytes 1 name.length) (by rw [length_beBytes])).bind
      ((writes_outCopyBytes name (Nat.le_refl _)).bind
      ((writes_outCopyBytes (beBytes 4 bytes.length) four).bind (writes_outValue bytes)))))
    exact all

theorem writes_pushFields (sendable : ∀ field ∈ fields, field.Sendable) :
    Writes (Room 0) (pushFields fields) ((entries fields).flatMap Entry.encode) (Room 0) := by
  induction fields with
  | nil => exact fun writer has => ⟨writer, rfl, (List.append_nil _).symm, has⟩
  | cons field fields ih =>
    apply (writes_pushField (sendable field List.mem_cons_self)).bind
    exact ih fun field member => sendable field (List.mem_cons_of_mem _ member)

/-- What is sent of fields is a message, whatever buffers it takes. -/
theorem sendFields_sent (sendable : ∀ field ∈ fields, field.Sendable) :
    ∃ later, sendFields fields ⟨[], []⟩ = .ok (⟨⟩, later) ∧
      later.sent.flatten = Entry.encodeMessage (entries fields) := by
  have two : (beBytes 2 fields.length).length + 0 ≤ 2 := by rw [length_beBytes]
  obtain ⟨writer, run, same, _⟩ := ((writes_outCopyBytes (beBytes 2 fields.length) two).bind
    (writes_pushFields sendable)) ⟨[], []⟩ ⟨by decide⟩
  refine ⟨⟨writer.outStream, writer.sent ++ [writer.outStream]⟩, ?_, ?_⟩
  · have steps : sendFields fields = ((outCopyBytes (beBytes 2 fields.length) >>= fun _ =>
        pushFields fields) >>= fun _ => sendBuffer) := by
      rw [bind_assoc]
      rfl
    rw [steps]
    change (_ >>= fun p : PUnit × Writer => sendBuffer p.2) = _
    rw [run]
    rfl
  · rw [written] at same
    simp only [List.flatten_append, List.flatten_singleton]
    rw [same, Entry.encodeMessage, length_entries]
    rfl

end Writer

end Writer

end Redemption.Acl
