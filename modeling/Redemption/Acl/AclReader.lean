import Redemption.Acl.AclSerializer

/-! What the reader of fields makes of all that a transport has, however it comes. -/
namespace Redemption.Acl

open Redemption.Foundation

namespace Transport

theorem bytes_eq (trans : Transport) :
    trans.bytes = trans.answers.headD [] ++ trans.behind.bytes := by
  obtain ⟨answers, given⟩ := trans
  cases answers <;> rfl

theorem headD_ne_nil {trans : Transport} (some : trans.bytes ≠ []) :
    trans.answers.headD [] ≠ [] := by
  obtain ⟨answers, given⟩ := trans
  cases answers with
  | nil => exact absurd rfl some
  | cons answer rest => exact given answer List.mem_cons_self

theorem partialRead_spec {trans : Transport} {room : Nat} (some : trans.bytes ≠ [])
    (positive : 0 < room) :
    ∃ bytes after, trans.partialRead room = (bytes, after) ∧ bytes ≠ [] ∧ bytes.length ≤ room ∧
      bytes ++ after.bytes = trans.bytes := by
  have full := headD_ne_nil some
  rw [partialRead]
  by_cases more : (trans.answers.headD []).drop room ≠ []
  · rw [dif_pos more]
    refine ⟨_, _, rfl, ?_, List.length_take_le room _, ?_⟩
    · intro none
      have length := congrArg List.length none
      have whole := List.length_pos_of_ne_nil full
      rw [List.length_take, List.length_nil] at length
      omega
    · rw [bytes_eq trans, leaving, bytes, List.flatten_cons, ← List.append_assoc,
        List.take_append_drop]
      rfl
  · rw [dif_neg more]
    refine ⟨_, _, rfl, full, ?_, (bytes_eq trans).symm⟩
    exact List.drop_eq_nil_iff.mp (not_not.mp more)

end Transport

namespace Reader

theorem readTo_end {trans : Transport} {room : Nat} (none : trans.bytes = []) :
    readTo trans room = .error (.raised .unexpectedInItemOut) := by
  obtain ⟨answers, given⟩ := trans
  cases answers with
  | nil =>
    rw [readTo, Transport.partialRead]
    simp
  | cons answer rest =>
    have full := given answer List.mem_cons_self
    exact absurd (List.append_eq_nil_iff.mp none).1 full

theorem readTo_some {trans : Transport} {room : Nat} (some : trans.bytes ≠ [])
    (positive : 0 < room) :
    ∃ bytes after, readTo trans room = .ok (bytes, after) ∧ bytes ≠ [] ∧ bytes.length ≤ room ∧
      bytes ++ after.bytes = trans.bytes := by
  obtain ⟨bytes, after, read, full, fits, same⟩ := Transport.partialRead_spec some positive
  refine ⟨bytes, after, ?_, full, fits, same⟩
  rw [readTo, read]
  cases bytes with
  | nil => exact absurd rfl full
  | cons _ _ => rfl

/-- The loop of `read` gets what is needed, and stays inside the buffer; each call brings it on. -/
theorem fill_spec {minimal : Nat} (small : minimal ≤ bufLen) {calls : Nat} {buf : List Byte}
    {trans : Transport} (short : buf.length < minimal) (enough : minimal ≤ buf.length + calls) :
    if (buf ++ trans.bytes).length < minimal then
      fill minimal calls buf trans = .error (.raised .unexpectedInItemOut)
    else ∃ buf' trans', fill minimal calls buf trans = .ok (buf', trans') ∧
      minimal ≤ buf'.length ∧ buf'.length ≤ bufLen ∧ buf' ++ trans'.bytes = buf ++ trans.bytes := by
  induction calls generalizing buf trans with
  | zero => omega
  | succ calls ih =>
    have room : buf.length ≤ bufLen := by omega
    rw [fill, if_pos room]
    by_cases none : trans.bytes = []
    · rw [readTo_end none, none, List.append_nil, if_pos short]
      rfl
    · obtain ⟨bytes, after, read, full, fits, same⟩ :=
        readTo_some none (Nat.sub_pos_of_lt (Nat.lt_of_lt_of_le short small))
      have positive := List.length_pos_of_ne_nil full
      rw [read, ok_bind, ← same, ← List.append_assoc]
      simp only
      by_cases still : (buf ++ bytes).length < minimal
      · rw [if_pos still]
        rw [List.length_append] at still
        apply ih (by rw [List.length_append]; exact still)
        rw [List.length_append]
        omega
      · rw [if_neg still, if_neg (by rw [List.length_append]; omega)]
        refine ⟨_, _, rfl, Nat.le_of_not_lt still, ?_, rfl⟩
        rw [List.length_append]
        omega

/-- The loop of `read_value` gets what remains, and no more. -/
theorem copyRest_spec {calls remaining : Nat} {dynamicbuf : List Byte} {trans : Transport}
    (positive : 0 < remaining) (enough : remaining ≤ calls) :
    if trans.bytes.length < remaining then
      copyRest calls remaining dynamicbuf trans = .error (.raised .unexpectedInItemOut)
    else ∃ trans', copyRest calls remaining dynamicbuf trans =
      .ok (dynamicbuf ++ trans.bytes.take remaining, trans') ∧
      trans'.bytes = trans.bytes.drop remaining := by
  induction calls generalizing remaining dynamicbuf trans with
  | zero => omega
  | succ calls ih =>
    rw [copyRest]
    by_cases none : trans.bytes = []
    · rw [readTo_end none, none, List.length_nil, if_pos positive]
      rfl
    · obtain ⟨bytes, after, read, full, fits, same⟩ := readTo_some none positive
      have some := List.length_pos_of_ne_nil full
      rw [read, ok_bind, ← same]
      simp only
      by_cases done : remaining - bytes.length = 0
      · have length : bytes.length = remaining := by omega
        rw [if_pos done, if_neg (by rw [List.length_append]; omega), List.take_left' length,
          List.drop_left' length]
        exact ⟨_, rfl, rfl⟩
      · rw [if_neg done]
        have later := @ih (remaining - bytes.length) (dynamicbuf ++ bytes) after (by omega)
          (by omega)
        by_cases short : after.bytes.length < remaining - bytes.length
        · rw [if_pos short] at later
          rw [if_pos (by rw [List.length_append]; omega), later]
        · rw [if_neg short] at later
          rw [if_neg (by rw [List.length_append]; omega), List.take_append, List.drop_append,
            List.take_of_length_le fits, List.drop_eq_nil_of_le fits, List.nil_append,
            ← List.append_assoc]
          exact later

/-- All that is before a reader. -/
def ahead (reader : Reader) : List Byte := reader.inStream ++ reader.trans.bytes

/-- So much can be read, in the buffer. -/
structure Has (len : Nat) (reader : Reader) : Prop where
  inBuf : reader.inStream.length ≤ bufLen
  enough : len ≤ reader.inStream.length

/-- A method says what a reader of all that is ahead says. -/
abbrev Agrees {α : Type} (before after : Nat) (method : ReaderM α)
    (front : FrontReader AclError Byte α) : Prop :=
  Follows ahead .raised .unexpectedInItemOut (Has before) (Has after) method front

theorem Has.less {reader : Reader} {len less : Nat} (has : Has len reader) (le : less ≤ len) :
    Has less reader :=
  ⟨has.inBuf, Nat.le_trans le has.enough⟩

variable {α : Type} {before after : Nat}

/-- What `read` waits for is there for what comes behind it. -/
theorem agrees_read {len : Nat} (small : len ≤ bufLen) {rest : ReaderM α}
    {front : FrontReader AclError Byte α} (agrees : Agrees len after rest front) :
    Agrees 0 after (read len >>= fun _ => rest) (FrontReader.guard len front) := by
  apply Follows.guard _ agrees
  intro reader has
  rw [read]
  by_cases needed : reader.inStream.length < len
  · have spec := @fill_spec len small len reader.inStream reader.trans needed (Nat.le_add_left _ _)
    rw [if_pos needed]
    by_cases short : (reader.ahead).length < len
    · rw [if_pos short]
      rw [ahead] at short
      rw [if_pos short] at spec
      rw [spec]
      rfl
    · rw [if_neg short]
      rw [ahead] at short
      rw [if_neg short] at spec
      obtain ⟨buf, trans, filled, enough, inBuf, same⟩ := spec
      rw [filled]
      exact ⟨_, rfl, ⟨inBuf, enough⟩, same⟩
  · have short : ¬ (reader.ahead).length < len := by
      rw [ahead, List.length_append]
      omega
    rw [if_neg needed, if_neg short]
    exact ⟨reader, rfl, ⟨has.inBuf, Nat.le_of_not_lt needed⟩, rfl⟩

theorem agrees_inSkipBytes (len : Nat) :
    Agrees (after + len) after (inSkipBytes len) (FrontReader.cells len) := by
  intro reader has
  have fits : len ≤ reader.inStream.length := Nat.le_trans (Nat.le_add_left _ _) has.enough
  have more : len ≤ reader.ahead.length := by
    rw [ahead, List.length_append]
    omega
  rw [FrontReader.cells, FrontReader.guard_enough more]
  refine ⟨⟨reader.trans, reader.inStream.drop len⟩, ?_, ⟨?_, ?_⟩, ?_⟩
  · rw [inSkipBytes, fromStream, inBytes_ok fits, ahead, List.take_append_of_le_length fits]
    rfl
  · rw [List.length_drop]
    have inBuf := has.inBuf
    omega
  · rw [List.length_drop]
    have enough := has.enough
    omega
  · rw [ahead, ahead, List.drop_append_of_le_length fits]

theorem agrees_inUintBe (width : Nat) :
    Agrees (after + width) after (inUintBe width) (FrontReader.be width) := by
  have mapped : inUintBe width = (inSkipBytes width >>= fun bytes => pure (beValue bytes)) := rfl
  rw [mapped]
  exact (agrees_inSkipBytes width).bind fun bytes => Follows.give (beValue bytes)

theorem agrees_inUint8 : Agrees (after + 1) after inUint8 FrontReader.cell := by
  intro reader has
  obtain ⟨trans, inStream⟩ := reader
  have enough := has.enough
  have inBuf := has.inBuf
  cases inStream with
  | nil => cases enough
  | cons byte rest =>
    refine ⟨⟨trans, rest⟩, rfl, ⟨?_, ?_⟩, rfl⟩
    · exact Nat.le_trans (Nat.le_succ _) inBuf
    · exact Nat.le_of_succ_le_succ enough

namespace Front

def key : FrontReader AclError Byte (Byte × List Byte) :=
  .guard 2 <| FrontReader.cell.andThen fun type => FrontReader.cell.andThen fun nameLen =>
    .guard nameLen.toNat <| (FrontReader.cells nameLen.toNat).andThen fun key => .give (type, key)

/-- A value of a length. -/
def valueBytes (valueLen : Nat) : FrontReader AclError Byte (List Byte) :=
  if valueLen > maxValueLen then fun _ => .error .messageTooBig else .cells valueLen

def value : FrontReader AclError Byte (List Byte) :=
  .guard 4 <| (FrontReader.be 4).andThen valueBytes

end Front

theorem agrees_readKey : Agrees 0 0 readKey Front.key := by
  apply agrees_read (by decide)
  apply agrees_inUint8.bind
  intro type
  apply agrees_inUint8.bind
  intro nameLen
  have small : nameLen.toNat ≤ bufLen := Nat.le_trans (Nat.le_of_lt nameLen.isLt) (by decide)
  have skip : Agrees (0 + nameLen.toNat) 0 _ _ := agrees_inSkipBytes nameLen.toNat
  rw [Nat.zero_add] at skip
  exact agrees_read small (skip.bind fun key => Follows.give (type, key))

theorem agrees_readDynamic {valueLen : Nat} {reader : Reader}
    (more : reader.inStream.length < valueLen) :
    if reader.ahead.length < valueLen then
      readDynamic valueLen reader = .error (.raised .unexpectedInItemOut)
    else ∃ later, readDynamic valueLen reader = .ok (reader.ahead.take valueLen, later) ∧
      Has 0 later ∧ later.ahead = reader.ahead.drop valueLen := by
  have spec := @copyRest_spec _ _ reader.inStream reader.trans (Nat.sub_pos_of_lt more)
    (Nat.le_refl _)
  have length : reader.ahead.length = reader.inStream.length + reader.trans.bytes.length :=
    List.length_append
  rw [readDynamic]
  by_cases short : reader.ahead.length < valueLen
  · rw [if_pos (by omega)] at spec
    rw [if_pos short, spec]
    rfl
  · rw [if_neg (by omega)] at spec
    obtain ⟨trans, copied, rest⟩ := spec
    rw [if_neg short, copied]
    refine ⟨_, congrArg (fun bytes => Except.ok (bytes, (⟨trans, []⟩ : Reader))) ?_,
      ⟨Nat.zero_le _, Nat.le_refl _⟩, ?_⟩
    · rw [ahead, List.take_append, List.take_of_length_le (Nat.le_of_lt more)]
    · rw [ahead, List.nil_append, rest, ahead, List.drop_append,
        List.drop_eq_nil_of_le (Nat.le_of_lt more), List.nil_append]

/-- A value is the same from the buffer, small behind it, or in memory of its own. -/
theorem agrees_readValueBytes (valueLen : Nat) :
    Agrees 0 0 (readValueBytes valueLen) (Front.valueBytes valueLen) := by
  intro reader has
  have inBuf := has.inBuf
  have skip : Agrees (0 + valueLen) 0 _ _ := agrees_inSkipBytes valueLen
  rw [Nat.zero_add] at skip
  have run : readValueBytes valueLen reader =
      (if valueLen ≤ reader.inStream.length then inSkipBytes valueLen
        else if valueLen < 256 then read valueLen >>= fun _ => inSkipBytes valueLen
        else if valueLen > maxValueLen then throw (.raised .messageTooBig)
        else readDynamic valueLen) reader := rfl
  rw [run]
  by_cases buffered : valueLen ≤ reader.inStream.length
  · have small : ¬ valueLen > maxValueLen :=
      Nat.not_lt.mpr (Nat.le_trans buffered (Nat.le_trans inBuf (by decide)))
    rw [if_pos buffered, Front.valueBytes, if_neg small]
    exact skip reader ⟨inBuf, buffered⟩
  · rw [if_neg buffered]
    by_cases short : valueLen < 256
    · have small : ¬ valueLen > maxValueLen :=
        Nat.not_lt.mpr (Nat.le_trans (Nat.le_of_lt short) (by decide))
      have fits : valueLen ≤ bufLen := Nat.le_trans (Nat.le_of_lt short) (by decide)
      have guarded := agrees_read fits skip
      rw [FrontReader.guard_cells] at guarded
      rw [if_pos short, Front.valueBytes, if_neg small]
      exact guarded reader has
    · rw [if_neg short, Front.valueBytes]
      by_cases big : valueLen > maxValueLen
      · rw [if_pos big, if_pos big]
        rfl
      · have spec := agrees_readDynamic (Nat.lt_of_not_le buffered)
        rw [if_neg big, if_neg big]
        by_cases missing : reader.ahead.length < valueLen
        · rw [if_pos missing] at spec
          rw [FrontReader.cells, FrontReader.guard_short missing]
          exact spec
        · rw [if_neg missing] at spec
          rw [FrontReader.cells, FrontReader.guard_enough (Nat.le_of_not_lt missing)]
          exact spec

theorem agrees_readValue : Agrees 0 0 readValue Front.value :=
  agrees_read (by decide) ((agrees_inUintBe 4).bind agrees_readValueBytes)

end Reader

end Redemption.Acl
