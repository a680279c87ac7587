import Redemption.Acl.AclRoundTrip

/-! Batches of messages, as `incoming` receives them. -/
namespace Redemption.Acl

open Redemption.Foundation Reader

variable {Config AuthId : Type} [DecidableEq AuthId] {ini : Inifile Config AuthId}

namespace Entry

/-- Messages, one behind the other. -/
def encodeMessages (messages : List (List Entry)) : List Byte := messages.flatMap encodeMessage

/-- What messages change. -/
def applyMessages (ini : Inifile Config AuthId) (messages : List (List Entry))
    (applied : Applied Config AuthId) : Applied Config AuthId :=
  messages.foldl (fun applied message => applyAll ini message applied) applied

/-- A message that the reader reads as it stands. -/
structure Message (ini : Inifile Config AuthId) (message : List Entry) : Prop where
  few : message.length ≤ 65535
  fits : ∀ entry ∈ message, entry.Fits ini

theorem two_le_encode (entry : Entry) : 2 ≤ entry.encode.length := by
  rw [encode, List.length_cons, List.length_append, length_beBytes]
  omega

theorem two_le_encodeMessage (message : List Entry) : 2 ≤ (encodeMessage message).length := by
  rw [encodeMessage, List.length_append, length_beBytes]
  omega

/-- There are four bytes for a message with a field, or with another message behind it. -/
theorem four_le_encodeMessages {message : List Entry} {messages : List (List Entry)}
    (some : message ≠ [] ∨ messages ≠ []) :
    4 ≤ (encodeMessage message ++ encodeMessages messages).length := by
  rw [List.length_append]
  obtain fields | more := some
  · obtain ⟨entry, rest, rfl⟩ := List.exists_cons_of_ne_nil fields
    have two := two_le_encode entry
    rw [encodeMessage, List.length_append, length_beBytes, List.flatMap_cons, List.length_append]
    omega
  · obtain ⟨other, rest, rfl⟩ := List.exists_cons_of_ne_nil more
    have two := two_le_encodeMessage message
    have two' := two_le_encodeMessage other
    rw [encodeMessages, List.flatMap_cons, List.length_append]
    omega

end Entry

section Run

variable {applied after : Applied Config AuthId} {reader : Reader} {messages : Nat}
  {rest : List Byte}

/-- The loop goes on behind a message, unless the buffer is empty. -/
theorem readMessages_step (messages : Nat) (has : Has 0 reader)
    (found : Front.message ini applied reader.ahead = .ok (some (after, rest))) :
    ∃ later, Has 0 later ∧ later.ahead = rest ∧
      ini.readMessages (messages + 1) applied reader =
        if later.inStream.isEmpty then .ok (after, later)
        else ini.readMessages messages after later := by
  obtain ⟨later, read, has', same⟩ := (Front.agrees_readMessage applied).of_some has found
  refine ⟨later, has', same, ?_⟩
  rw [Inifile.readMessages]
  change (ini.readMessage applied reader >>= fun p => _) = _
  rw [read]
  change (if later.inStream.isEmpty then pure after
    else ini.readMessages messages after : ReaderM _) later = _
  cases later.inStream.isEmpty <;> rfl

theorem readMessages_refused (has : Has 0 reader)
    (refused : ∀ answer, Front.message ini applied reader.ahead ≠ .ok (some answer)) :
    ∃ error, ini.readMessages (messages + 1) applied reader = .error (.raised error) := by
  rw [Inifile.readMessages]
  rcases answer : Front.message ini applied reader.ahead with error | _ | answer'
  · have read := (Front.agrees_readMessage applied).of_error has answer
    refine ⟨error, ?_⟩
    change (ini.readMessage applied reader >>= fun p => _) = _
    rw [read]
    rfl
  · have read := (Front.agrees_readMessage applied).of_none has answer
    refine ⟨.unexpectedInItemOut, ?_⟩
    change (ini.readMessage applied reader >>= fun p => _) = _
    rw [read]
    rfl
  · exact absurd answer (refused answer')

/-- Whatever the bytes, the loop ends in an error, or it has taken them for messages, to a byte
where the buffer is empty. -/
theorem readMessages_cases (has : Has 0 reader) (enough : reader.ahead.length < messages) :
    (∃ error, ini.readMessages messages applied reader = .error (.raised error)) ∨
    ∃ batch left, batch ≠ [] ∧ (∀ message ∈ batch, Entry.Message ini message) ∧
      reader.ahead = Entry.encodeMessages batch ++ left.bytes ∧
      ini.readMessages messages applied reader =
        .ok (Entry.applyMessages ini batch applied, ⟨left, []⟩) := by
  induction messages generalizing applied reader with
  | zero => omega
  | succ messages ih =>
    by_cases is : ∃ answer, Front.message ini applied reader.ahead = .ok (some answer)
    · obtain ⟨⟨after, rest⟩, found⟩ := is
      obtain ⟨entries, few, fits, same, rfl⟩ := Front.of_message found
      obtain ⟨later, has', ahead', run⟩ := readMessages_step messages has found
      have two := Entry.two_le_encodeMessage entries
      have is : Entry.Message ini entries := ⟨few, fits⟩
      rw [run]
      by_cases empty : later.inStream.isEmpty
      · obtain ⟨left, inStream⟩ := later
        obtain rfl := List.isEmpty_iff.mp empty
        right
        refine ⟨[entries], left, List.cons_ne_nil _ _, ?_, ?_, if_pos rfl⟩
        · intro message member
          cases List.mem_singleton.mp member
          exact is
        · rw [same, ← ahead', ahead, List.nil_append, Entry.encodeMessages, List.flatMap_singleton]
      · rw [if_neg empty]
        rw [same, ← ahead', List.length_append] at enough
        obtain failed | ⟨batch, left, some, are, same', run'⟩ :=
          @ih (Entry.applyAll ini entries applied) later has' (by omega)
        · exact .inl failed
        · right
          refine ⟨entries :: batch, left, List.cons_ne_nil _ _, ?_, ?_, run'⟩
          · intro message member
            cases member with
            | head => exact is
            | tail _ member => exact are message member
          · rw [same, ← ahead', same', Entry.encodeMessages, Entry.encodeMessages,
              List.flatMap_cons, List.append_assoc]
    · exact .inl (readMessages_refused has fun answer found => is ⟨answer, found⟩)

end Run

section Sent

/-- A name that is asked for is known; values may have any name. -/
def Field.Taken (ini : Inifile Config AuthId) : Field → Prop
  | .ask name => (ini.getAclFieldByName name).isSome
  | .value _ _ => True

/-- A message that can be sent. -/
structure Sendable (message : List Field) : Prop where
  few : message.length ≤ 65535
  fields : ∀ field ∈ message, field.Sendable

variable {field : Field} {message : List Field} {messages : List (List Field)}

omit [DecidableEq AuthId] in
theorem Field.fits (sendable : field.Sendable) (taken : field.Taken ini) :
    field.entry.Fits ini := by
  obtain ⟨_, nameSmall, valueSmall⟩ := sendable
  refine ⟨nameSmall, ?_, valueSmall⟩
  cases field with
  | ask name => exact ⟨fun _ => ⟨taken, rfl⟩, fun _ => rfl⟩
  | value name bytes =>
    constructor
    · intro none
      cases none
    · intro both
      cases both.2

omit [DecidableEq AuthId] in
theorem Sendable.reads (sendable : Sendable message)
    (taken : ∀ field ∈ message, field.Taken ini) : Entry.Message ini (entries message) := by
  constructor
  · rw [length_entries]
    exact sendable.few
  · intro entry member
    obtain ⟨field, is, rfl⟩ := List.mem_map.mp member
    exact Field.fits (sendable.fields field is) (taken field is)

/-- No value stands where another field does: it would be far too big. -/
theorem value_refused {bytes : List Byte} (fields : ∀ byte rest, bytes = byte :: rest →
      0x21 ≤ byte.toNat) (answer : List Byte × List Byte) :
    Front.value bytes ≠ .ok (some answer) := by
  intro found
  obtain ⟨small, same⟩ := Front.of_value found
  have value := beValue_beBytes 4 answer.1.length
  have length := length_beBytes 4 answer.1.length
  rw [Entry.valueBytes] at same
  cases split : beBytes 4 answer.1.length with
  | nil =>
    rw [split] at length
    cases length
  | cons byte rest =>
    rw [split] at same length value
    have high := le_beValue byte rest
    have least := fields byte _ same
    have three : rest.length = 3 := Nat.succ.inj length
    rw [value, three] at high
    rw [maxValueLen] at small
    omega

theorem first_byte {fields : List Field} (some : fields ≠ []) {tail rest : List Byte} {byte : Byte}
    (same : (entries fields).flatMap Entry.encode ++ tail = byte :: rest) : 0x21 ≤ byte.toNat := by
  cases fields with
  | nil => exact absurd rfl some
  | cons field fields =>
    cases field with
    | ask name =>
      cases same
      exact (by decide : 0x21 ≤ askType.toNat)
    | value name bytes =>
      cases same
      exact (by decide : 0x21 ≤ valueType.toNat)

/-- The fields of a message are read to their end only where no unknown name is asked for: the
value that is looked for behind it is refused, or it takes bytes of what is behind the message. -/
theorem fields_taken (sendable : ∀ field ∈ message, field.Sendable)
    {applied after : Applied Config AuthId} {rest : List Byte}
    (found : Front.fields ini message.length applied
      ((entries message).flatMap Entry.encode ++ rest) = .ok (some (after, rest))) :
    ∀ field ∈ message, field.Taken ini := by
  induction message generalizing applied with
  | nil => exact List.forall_mem_nil _
  | cons field message ih =>
    obtain ⟨is, others⟩ := List.forall_mem_cons.mp sendable
    obtain ⟨middle, rest', first, found'⟩ := FrontReader.andThen_eq_some_iff.mp found
    rw [entries, List.map_cons, List.flatMap_cons, List.append_assoc] at first
    have taken : field.Taken ini := by
      by_contra unknown
      cases field with
      | value name bytes => exact unknown trivial
      | ask name =>
        have key := @Front.gives_key askType name is.nameSmall
          ((entries message).flatMap Entry.encode ++ rest)
        have no : ini.getAclFieldByName name = none := Option.not_isSome_iff_eq_none.mp unknown
        obtain ⟨_, _, found, behind⟩ := FrontReader.andThen_eq_some_iff.mp first
        cases key.symm.trans found
        simp only [no] at behind
        obtain ⟨value, _, given, done⟩ := FrontReader.andThen_eq_some_iff.mp behind
        obtain ⟨_, rfl⟩ := FrontReader.of_give done
        by_cases last : message = []
        · subst last
          obtain ⟨_, same⟩ := FrontReader.of_give found'
          obtain ⟨_, taken⟩ := Front.of_value given
          have length := congrArg List.length taken
          simp only [entries, List.map_nil, List.flatMap_nil, List.nil_append, same,
            List.length_append, Entry.valueBytes, length_beBytes] at length
          omega
        · exact value_refused (fun _ _ => first_byte last) _ given
    have given := Front.gives_field (Field.fits is taken) applied
      ((entries message).flatMap Entry.encode ++ rest)
    cases given.symm.trans first
    exact List.forall_mem_cons.mpr ⟨taken, ih others found'⟩

/-- Messages as they stand on the wire. -/
def encodeMessages (messages : List (List Field)) : List Byte :=
  Entry.encodeMessages (messages.map entries)

/-- What a batch of messages changes. -/
def applyMessages (ini : Inifile Config AuthId) (batch : List (List Field)) (config : Config) :
    Applied Config AuthId :=
  Entry.applyMessages ini (batch.map entries) (config, ∅)

/-- Messages are applied one by one, as far as they are in the buffer when one of them ends; the
others are left to the transport. -/
def Receives (ini : Inifile Config AuthId) (config : Config) (trans : Transport)
    (messages : List (List Field)) : Prop :=
  ∃ batch later left, messages = batch ++ later ∧ batch ≠ [] ∧
    ini.readAclFields config trans = .ok (applyMessages ini batch config, left) ∧
    left.bytes = encodeMessages later

/-- No unknown name is asked for, and there is a field, or another message behind. -/
structure Regular (ini : Inifile Config AuthId) (message : List Field)
    (later : List (List Field)) : Prop where
  some : message ≠ [] ∨ later ≠ []
  taken : ∀ field ∈ message, field.Taken ini

/-- The messages are regular that the loop comes to: the first one, and every other one before which
there is something in the buffer. -/
def EveryRegular (ini : Inifile Config AuthId) :
    Applied Config AuthId → Reader → List (List Field) → Prop
  | _, _, [] => True
  | applied, reader, message :: later =>
    Regular ini message later ∧ ∀ after next, ini.readMessage applied reader = .ok (after, next) →
      next.inStream ≠ [] → EveryRegular ini after next later

/-- The messages that the loop comes to are read one by one: each does what its fields say, and
nothing is taken of what is behind it. -/
def ReadsEach (ini : Inifile Config AuthId) :
    Applied Config AuthId → Reader → List (List Field) → Prop
  | _, _, [] => True
  | applied, reader, message :: later =>
    ∃ next, ini.readMessage applied reader =
        .ok (Entry.applyAll ini (entries message) applied, next) ∧
      next.ahead = encodeMessages later ∧
      (next.inStream ≠ [] →
        ReadsEach ini (Entry.applyAll ini (entries message) applied) next later)

section Reads

variable {applied : Applied Config AuthId} {reader : Reader} {later : List (List Field)}

theorem readMessage_of_regular (has : Has 0 reader) (sendable : Sendable message)
    (same : reader.ahead = encodeMessages (message :: later)) (regular : Regular ini message later) :
    ∃ next, ini.readMessage applied reader =
        .ok (Entry.applyAll ini (entries message) applied, next) ∧
      next.ahead = encodeMessages later ∧ Has 0 next := by
  have is := sendable.reads regular.taken
  have split : reader.ahead = Entry.encodeMessage (entries message) ++
      Entry.encodeMessages (later.map entries) := same
  have some : entries message ≠ [] ∨ later.map entries ≠ [] :=
    regular.some.imp (mt List.map_eq_nil_iff.mp) (mt List.map_eq_nil_iff.mp)
  have found := Front.message_eq is.few is.fits applied (Entry.four_le_encodeMessages some)
  rw [← split] at found
  obtain ⟨next, read, has', ahead⟩ := (Front.agrees_readMessage applied).of_some has found
  exact ⟨next, read, ahead, has'⟩

theorem regular_of_readMessage (has : Has 0 reader) (sendable : Sendable message)
    (same : reader.ahead = encodeMessages (message :: later)) {next : Reader}
    {after : Applied Config AuthId} (read : ini.readMessage applied reader = .ok (after, next))
    (ahead : next.ahead = encodeMessages later) : Regular ini message later := by
  have split : reader.ahead = Entry.encodeMessage (entries message) ++ encodeMessages later := same
  rcases answer : Front.message ini applied reader.ahead with error | _ | ⟨after', rest⟩
  · cases ((Front.agrees_readMessage applied).of_error has answer).symm.trans read
  · cases ((Front.agrees_readMessage applied).of_none has answer).symm.trans read
  · obtain ⟨_, read', _, rfl⟩ := (Front.agrees_readMessage applied).of_some has answer
    cases read'.symm.trans read
    obtain ⟨four, found⟩ := FrontReader.of_guard answer
    have few : message.length < 2 ^ (8 * 2) := Nat.lt_succ_of_le sendable.few
    have number := FrontReader.gives_be (φ := AclError) few
    rw [split] at four
    rw [split, Entry.encodeMessage, length_entries, List.append_assoc,
      FrontReader.andThen_some (number _), ahead] at found
    refine ⟨?_, fields_taken sendable.fields found⟩
    by_contra none
    obtain ⟨rfl, rfl⟩ : message = [] ∧ later = [] := by
      simpa only [not_or, not_not] using none
    exact absurd four (by decide)

/-- Messages that come in are regular exactly where each of them is read. -/
theorem everyRegular_iff (has : Has 0 reader) (sendable : ∀ message ∈ messages, Sendable message)
    (same : reader.ahead = encodeMessages messages) :
    EveryRegular ini applied reader messages ↔ ReadsEach ini applied reader messages := by
  induction messages generalizing applied reader with
  | nil => exact Iff.rfl
  | cons message later ih =>
    obtain ⟨is, others⟩ := List.forall_mem_cons.mp sendable
    constructor
    · rintro ⟨regular, rest⟩
      obtain ⟨next, read, ahead, has'⟩ := readMessage_of_regular has is same regular
      exact ⟨next, read, ahead, fun more => (ih has' others ahead).mp (rest _ _ read more)⟩
    · rintro ⟨next, read, ahead, rest⟩
      have regular := regular_of_readMessage has is same read ahead
      obtain ⟨_, read', _, has'⟩ := readMessage_of_regular has is same regular
      cases read'.symm.trans read
      refine ⟨regular, fun after other read' more => ?_⟩
      cases read'.symm.trans read
      exact (ih has' others ahead).mpr (rest more)

/-- The loop stops behind a message that leaves the buffer empty. -/
theorem readMessages_of_readsEach (some : messages ≠ [])
    (each : ReadsEach ini applied reader messages) {count : Nat} (enough : messages.length ≤ count) :
    ∃ batch later left, messages = batch ++ later ∧ batch ≠ [] ∧
      ini.readMessages count applied reader =
        .ok (Entry.applyMessages ini (batch.map entries) applied, ⟨left, []⟩) ∧
      left.bytes = encodeMessages later := by
  induction messages generalizing applied reader count with
  | nil => exact absurd rfl some
  | cons message later ih =>
    obtain ⟨⟨left, inStream⟩, read, ahead, rest⟩ := each
    obtain ⟨count, rfl⟩ := Nat.exists_eq_succ_of_ne_zero (Nat.ne_of_gt
      (Nat.lt_of_lt_of_le (Nat.succ_pos _) enough))
    have run : ini.readMessages (count + 1) applied reader =
        (if inStream.isEmpty then pure (Entry.applyAll ini (entries message) applied)
          else ini.readMessages count (Entry.applyAll ini (entries message) applied) :
          ReaderM _) ⟨left, inStream⟩ := by
      rw [Inifile.readMessages]
      change (ini.readMessage applied reader >>= fun p => _) = _
      rw [read]
      rfl
    cases inStream with
    | nil => exact ⟨[message], later, left, rfl, List.cons_ne_nil _ _, run, ahead⟩
    | cons byte bytes =>
      have more : later ≠ [] := by
        rintro rfl
        cases ahead
      obtain ⟨batch, later, left, rfl, _, run', bytes⟩ := ih more
        (rest (List.cons_ne_nil _ _)) (Nat.le_of_succ_le_succ enough)
      exact ⟨message :: batch, later, left, rfl, List.cons_ne_nil _ _, run.trans run', bytes⟩

end Reads

theorem length_le_encodeMessages (messages : List (List Field)) :
    messages.length ≤ (encodeMessages messages).length := by
  induction messages with
  | nil => exact Nat.le_refl 0
  | cons message messages ih =>
    have two := Entry.two_le_encodeMessage (entries message)
    change _ ≤ (Entry.encodeMessage (entries message) ++ encodeMessages messages).length
    rw [List.length_append, List.length_cons]
    omega

theorem receives_of_readsEach {config : Config} {trans : Transport} (some : messages ≠ [])
    (same : trans.bytes = encodeMessages messages)
    (each : ReadsEach ini (config, ∅) ⟨trans, []⟩ messages) : Receives ini config trans messages := by
  have enough := length_le_encodeMessages messages
  rw [← same] at enough
  obtain ⟨batch, later, left, split, full, run, rest⟩ :=
    readMessages_of_readsEach some each (Nat.le_succ_of_le enough)
  refine ⟨batch, later, left, split, full, ?_, rest⟩
  rw [Inifile.readAclFields, run]
  rfl

/-- Messages are read one by one, however the transport cuts them, exactly where those are regular
that the loop comes to, and then they are received; what is sent of fields is a message; and
whatever comes ends in an error, or has been taken for messages. -/
theorem acl_protocol (ini : Inifile Config AuthId) :
    (∀ (config : Config) (trans : Transport) (messages : List (List Field)), messages ≠ [] →
      (∀ message ∈ messages, Sendable message) → trans.bytes = encodeMessages messages →
        (EveryRegular ini (config, ∅) ⟨trans, []⟩ messages ↔
          ReadsEach ini (config, ∅) ⟨trans, []⟩ messages) ∧
        (ReadsEach ini (config, ∅) ⟨trans, []⟩ messages → Receives ini config trans messages)) ∧
    (∀ message : List Field, Sendable message → ∃ writer,
      Writer.sendFields message ⟨[], []⟩ = .ok (⟨⟩, writer) ∧
        writer.sent.flatten = encodeMessages [message] ∧
        sendAclData message = .ok (if message.length = 0 then [] else writer.sent)) ∧
    ∀ (config : Config) (trans : Transport),
      (∃ error, ini.readAclFields config trans = .error (.raised error)) ∨
      ∃ batch left, batch ≠ [] ∧ (∀ message ∈ batch, Entry.Message ini message) ∧
        trans.bytes = Entry.encodeMessages batch ++ left.bytes ∧
        ini.readAclFields config trans =
          .ok (Entry.applyMessages ini batch (config, ∅), left) := by
  refine ⟨?_, ?_, ?_⟩
  · intro config trans messages some sendable same
    exact ⟨everyRegular_iff ⟨Nat.zero_le _, Nat.le_refl 0⟩ sendable same,
      receives_of_readsEach some same⟩
  · intro message sendable
    obtain ⟨writer, sent, same⟩ := Writer.sendFields_sent sendable.fields
    refine ⟨writer, sent, same.trans (List.flatMap_singleton _ _).symm, ?_⟩
    rw [sendAclData]
    split
    · rfl
    · rw [sent]
      rfl
  · intro config trans
    obtain ⟨error, failed⟩ | ⟨batch, left, some, are, same, run⟩ :=
      @readMessages_cases _ _ _ ini (config, ∅) ⟨trans, []⟩ (trans.bytes.length + 1)
        ⟨Nat.zero_le _, Nat.le_refl 0⟩ (Nat.lt_succ_self _)
    · refine .inl ⟨error, ?_⟩
      rw [Inifile.readAclFields, failed]
      rfl
    · refine .inr ⟨batch, left, some, are, same, ?_⟩
      rw [Inifile.readAclFields, run]
      rfl

/-- A receiver that knows one name, and keeps its value. -/
def oneName (name : List Byte) : Inifile (List Byte) Unit where
  getAclFieldByName other := if other = name then some () else none
  ask _ config := config
  parse _ value _ := (true, value)

/-- A transport that gives all of its bytes at once. -/
def atOnce (byte : Byte) (rest : List Byte) : Transport where
  answers := [byte :: rest]
  given answer member := by
    cases List.mem_singleton.mp member
    exact List.cons_ne_nil byte rest

/-- A message that comes in two parts, and another one with an unknown ask, which is left alone. -/
def twoMessages : Transport where
  answers := [[0, 2, 0x21, 1, 97, 0, 0, 0], [1, 120, 0x21, 1, 98, 0, 0, 0, 1, 99],
    [0, 1, 0x3F, 1, 97]]
  given := by decide

theorem acl_protocol_batch : Receives (oneName [98]) [] twoMessages
    [[.value [97] [120], .value [98] [99]], [.ask [97]]] := by
  have values : Sendable [.value [97] [120], .value [98] [99]] := by
    refine ⟨by decide, List.forall_mem_cons.mpr ⟨⟨by decide, by decide, ?_⟩,
      List.forall_mem_singleton.mpr ⟨by decide, by decide, ?_⟩⟩⟩ <;>
    · rintro _ ⟨⟩
      decide
  have ask : Sendable [.ask [97]] := by
    refine ⟨by decide, List.forall_mem_singleton.mpr ⟨by decide, by decide, ?_⟩⟩
    rintro _ ⟨⟩
  have sendable := List.forall_mem_cons.mpr ⟨values, List.forall_mem_singleton.mpr ask⟩
  obtain ⟨each, received⟩ := (acl_protocol (oneName [98])).1 [] twoMessages _
    (List.cons_ne_nil _ _) sendable rfl
  refine received (each.mp ⟨⟨.inl (List.cons_ne_nil _ _), ?_⟩, ?_⟩)
  · exact List.forall_mem_cons.mpr ⟨trivial, List.forall_mem_singleton.mpr trivial⟩
  · rintro after next ⟨⟩ more
    exact absurd rfl more

/-- The length of a value is looked for behind the ask of a name that is not known. -/
theorem not_receives_ask :
    ¬ ∀ (ini : Inifile (List Byte) Unit) (config : List Byte) (trans : Transport)
      (messages : List (List Field)), messages ≠ [] → (∀ message ∈ messages, Sendable message) →
        trans.bytes = encodeMessages messages → Receives ini config trans messages := by
  intro all
  have sendable : ∀ message ∈ [[Field.ask [97], Field.value [98] [99]]], Sendable message := by
    intro _ member
    cases List.mem_singleton.mp member
    refine ⟨by decide, ?_⟩
    intro field member
    obtain rfl | member := List.mem_cons.mp member
    · exact ⟨by decide, by decide, by rintro _ ⟨⟩⟩
    · cases List.mem_singleton.mp member
      refine ⟨by decide, by decide, ?_⟩
      rintro _ ⟨⟩
      decide
  obtain ⟨_, _, _, _, _, run, _⟩ := all (oneName [98]) []
    (atOnce 0 [2, 0x3F, 1, 97, 0x21, 1, 98, 0, 0, 0, 1, 99]) _ (List.cons_ne_nil _ _) sendable rfl
  have failed : (oneName [98]).readAclFields []
      (atOnce 0 [2, 0x3F, 1, 97, 0x21, 1, 98, 0, 0, 0, 1, 99]) =
        .error (.raised .messageTooBig) := rfl
  cases run

end Sent

end Redemption.Acl
