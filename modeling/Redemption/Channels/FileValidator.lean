import Redemption.Foundation.FrontReader

/-! `FileValidatorService`: the answers of the validator, and what is sent to it. -/
namespace Redemption.Channels.FileValidator

open Redemption.Foundation

/-- `MsgType::Result`. -/
def msgResult : Byte := 0x05

/-- `FileValidatorHeader::recv`: the type, the length, and what is behind. -/
def recvHeader (stream : List Byte) : Option (Byte × Nat × List Byte) :=
  if stream.length < 5 then none
  else some (stream.headD 0, beValue ((stream.drop 1).take 4), (stream.drop 1).drop 4)

/-- `FileValidatorResultHeader::recv`: the verdict, the id, the size, and what is behind. -/
def recvResultHeader (stream : List Byte) : Option (Byte × Nat × Nat × List Byte) :=
  if stream.length < 9 then none
  else
    let behind := (stream.drop 1).drop 4
    some (stream.headD 0, beValue ((stream.drop 1).take 4), beValue (behind.take 4), behind.drop 4)

inductive State where
  | continuationData
  | waitingData
  | error
  | hasContent
  deriving DecidableEq, Repr

/-- `state <= State::WaitingData`. -/
def State.reads : State → Bool
  | .continuationData | .waitingData => true
  | .error | .hasContent => false

structure FileValidatorService where
  result : Byte
  fileId : Nat
  contentSize : Nat
  content : List Byte
  state : State
  /-- What `Buf64k` holds. -/
  buf : List Byte
  deriving DecidableEq, Repr

/-- What a call reports, with the bytes that an unknown packet has taken from the buffer. -/
inductive Report where
  | error (taken : Nat)
  | hasContent (result : Byte) (fileId : Nat) (content : List Byte)
  deriving DecidableEq, Repr

namespace FileValidatorService

def initial : FileValidatorService := ⟨3, 0, 0, [], .waitingData, []⟩

/-- `read_from`; the transport is only read in two of the states. -/
def readFrom (this : FileValidatorService) (read : List Byte) : FileValidatorService :=
  if this.state.reads then { this with buf := this.buf ++ read } else this

/-- The lambda `read_content`; no more is taken than there is. -/
def readContent (this : FileValidatorService) : FileValidatorService :=
  let remainingBuf := this.contentSize - this.content.length
  let content := this.content ++ this.buf.take remainingBuf
  { this with
    content := content
    buf := this.buf.drop remainingBuf
    state := if content.length < this.contentSize then .continuationData else .hasContent }

/-- `_receive_response`. -/
def receiveResponse (this : FileValidatorService) : FileValidatorService :=
  if this.state = .continuationData then this.readContent
  else match recvHeader this.buf with
    | none => { this with state := .waitingData }
    | some (msgType, msgLen, stream) =>
      if msgType = msgResult then
        match recvResultHeader stream with
        | none => { this with state := .waitingData }
        | some (result, fileId, contentSize, stream) =>
          readContent ⟨result, fileId, contentSize, [], this.state, stream⟩
      else { this with state := .error, buf := stream.drop msgLen }

/-- What is said of a call between two states. -/
def report (this after : FileValidatorService) : Option Report :=
  match after.state with
  | .continuationData | .waitingData => none
  | .error => some (.error (this.buf.length - after.buf.length))
  | .hasContent => some (.hasContent after.result after.fileId after.content)

/-- `receive_response` is called until it waits. -/
def responses (read : List Byte) : Nat → FileValidatorService → List Report × FileValidatorService
  | 0, this => ([], this)
  | fuel + 1, this =>
    let after := (this.readFrom read).receiveResponse
    match report (this.readFrom read) after with
    | none => ([], after)
    | some said =>
      let more := responses read fuel after
      (said :: more.1, more.2)

/-- The same after each of the reads. -/
def session (this : FileValidatorService) : List (List Byte) → List Report
  | [] => []
  | read :: reads =>
    let now := this.responses read (this.buf.length + read.length + 1)
    now.1 ++ now.2.session reads

end FileValidatorService

/-- What the validator sends. Nothing is said of the length in front of a result. -/
inductive Message where
  | answer (msgLen : Nat) (result : Byte) (fileId : Nat) (content : List Byte)
  | other (msgType : Byte) (body : List Byte)
  deriving DecidableEq, Repr

namespace Message

def bytes : Message → List Byte
  | answer msgLen result fileId content =>
    msgResult :: (beBytes 4 msgLen ++
      result :: (beBytes 4 fileId ++ (beBytes 4 content.length ++ content)))
  | other msgType body => msgType :: (beBytes 4 body.length ++ body)

def isOther : Message → Bool
  | answer .. => false
  | other .. => true

/-- The numbers fit their fields, and the types are told apart. -/
def Fits : Message → Prop
  | answer _ _ fileId content => fileId < 2 ^ 32 ∧ content.length < 2 ^ 32
  | other msgType body => msgType ≠ msgResult ∧ body.length < 2 ^ 32

def report : Message → Report
  | answer _ result fileId content => .hasContent result fileId content
  | other _ body => .error (5 + body.length)

/-- So many bytes end behind the header of another message, and inside of it. -/
def Cut : List Message → Nat → Prop
  | [], _ => False
  | message :: rest, count =>
    (count < message.bytes.length ∧ message.isOther ∧ 5 ≤ count) ∨
      (message.bytes.length ≤ count ∧ Cut rest (count - message.bytes.length))

instance decidableCut : (messages : List Message) → (count : Nat) → Decidable (Cut messages count)
  | [], _ => .isFalse id
  | message :: rest, count =>
    have := decidableCut rest (count - message.bytes.length)
    inferInstanceAs (Decidable (_ ∨ _))

/-- No read ends inside of another message, behind its header. -/
def Uncut (messages : List Message) : Nat → List (List Byte) → Prop
  | _, [] => True
  | count, read :: reads =>
    ¬Cut messages (count + read.length) ∧ Uncut messages (count + read.length) reads

def encode (messages : List Message) : List Byte := messages.flatMap bytes

@[simp] theorem encode_nil : encode [] = [] := rfl

@[simp] theorem encode_cons (message : Message) (rest : List Message) :
    encode (message :: rest) = message.bytes ++ encode rest := List.flatMap_cons

theorem drop_answer (msgLen fileId : Nat) (result : Byte) (content behind : List Byte) :
    ((answer msgLen result fileId content).bytes ++ behind).drop 14 = content ++ behind := by
  simp [bytes, List.drop_append, List.drop_eq_nil_of_le]

@[simp] theorem encode_append (first second : List Message) :
    encode (first ++ second) = encode first ++ encode second := List.flatMap_append

theorem five_le_length (message : Message) : 5 ≤ message.bytes.length := by
  cases message <;> simp [bytes]

/-- Not even a header has come of another message, and no complete message. -/
def Begins (messages : List Message) (count : Nat) : Prop :=
  ∀ message ∈ messages.head?, count < message.bytes.length ∧
    (message.isOther → count < 5)

theorem begins_nil {count : Nat} : Begins [] count := nofun

theorem begins_cons {message : Message} {later : List Message} {count : Nat}
    (short : count < message.bytes.length) (header : message.isOther → count < 5) :
    Begins (message :: later) count := by
  rintro _ ⟨rfl⟩
  exact ⟨short, header⟩

theorem Begins.not_cut {messages : List Message} {count : Nat} (begins : Begins messages count) :
    ¬Cut messages count := by
  cases messages with
  | nil => exact id
  | cons message rest =>
    obtain ⟨short, header⟩ := begins message rfl
    rintro (⟨-, other, five⟩ | ⟨whole, -⟩)
    · exact absurd (header other) (Nat.not_lt_of_le five)
    · exact absurd short (Nat.not_lt_of_le whole)

theorem cut_append {first later : List Message} {count : Nat}
    (whole : (encode first).length ≤ count) :
    Cut (first ++ later) count ↔ Cut later (count - (encode first).length) := by
  induction first generalizing count with
  | nil => rfl
  | cons message first ih =>
    rw [encode_cons, List.length_append] at whole ⊢
    rw [← Nat.sub_sub, ← ih (by omega)]
    constructor
    · rintro (⟨short, -⟩ | ⟨-, cut⟩)
      · omega
      · exact cut
    · exact fun cut => .inr ⟨by omega, cut⟩

theorem uncut_append {first later : List Message} {count : Nat} {reads : List (List Byte)}
    (whole : (encode first).length ≤ count) :
    Uncut (first ++ later) count reads ↔ Uncut later (count - (encode first).length) reads := by
  induction reads generalizing count with
  | nil => rfl
  | cons read reads ih =>
    rw [Uncut, Uncut, cut_append (by omega), ih (by omega), Nat.sub_add_comm whole]

end Message

open Message

theorem recvHeader_append (msgType : Byte) (msgLen : Nat) (stream : List Byte) :
    recvHeader (msgType :: (beBytes 4 msgLen ++ stream)) =
      some (msgType, msgLen % 2 ^ 32, stream) := by
  have long : ¬(msgType :: (beBytes 4 msgLen ++ stream)).length < 5 := by simp
  rw [recvHeader, if_neg long]
  simp [List.take_left', List.drop_left', beValue_beBytes]

theorem recvHeader_short {stream : List Byte} (short : stream.length < 5) :
    recvHeader stream = none := if_pos short

theorem recvResultHeader_append (result : Byte) {fileId contentSize : Nat} (stream : List Byte)
    (small : fileId < 2 ^ 32) (small' : contentSize < 2 ^ 32) :
    recvResultHeader (result :: (beBytes 4 fileId ++ (beBytes 4 contentSize ++ stream))) =
      some (result, fileId, contentSize, stream) := by
  have long : ¬(result :: (beBytes 4 fileId ++ (beBytes 4 contentSize ++ stream))).length < 9 := by
    simp
    omega
  rw [recvResultHeader, if_neg long]
  simpa [List.take_left', List.drop_left', beValue_beBytes] using ⟨small, small'⟩

theorem recvResultHeader_short {stream : List Byte} (short : stream.length < 9) :
    recvResultHeader stream = none := if_pos short

theorem take_append_of_le {front back : List Byte} {count : Nat} (whole : front.length ≤ count) :
    (front ++ back).take count = front ++ back.take (count - front.length) := by
  rw [List.take_append, List.take_of_length_le whole]

theorem take_header (first : Byte) (len : Nat) (rest : List Byte) {count : Nat} (five : 5 ≤ count) :
    (first :: (beBytes 4 len ++ rest)).take count =
      first :: (beBytes 4 len ++ rest.take (count - 5)) := by
  show ((first :: beBytes 4 len) ++ rest).take count = (first :: beBytes 4 len) ++ _
  rw [take_append_of_le (by simpa using five)]
  simp

namespace FileValidatorService

variable {this : FileValidatorService} {messages : List Message} {count : Nat}

/-- The first `count` bytes of the messages have come: they are in the buffer, or, behind the header
of a result, in the content and in the buffer. -/
inductive Holds (this : FileValidatorService) : List Message → Nat → Prop
  | plain {messages : List Message} {count : Nat} (outside : this.state ≠ .continuationData)
      (held : this.buf = (encode messages).take count) : Holds this messages count
  | inside {msgLen : Nat} {content : List Byte} {later : List Message} {count : Nat}
      (within : this.state = .continuationData)
      (size : this.contentSize = content.length)
      (held : this.content ++ this.buf = (content ++ encode later).take count)
      (part : this.content.length < content.length) :
      Holds this (.answer msgLen this.result this.fileId content :: later) (14 + count)

/-- A content that is complete in what has come is taken, and reported. -/
theorem readContent_complete {content : List Byte} {later : List Byte}
    (size : this.contentSize = content.length)
    (held : this.content ++ this.buf = (content ++ later).take count)
    (part : this.content.length ≤ content.length) (whole : content.length ≤ count) :
    this.readContent = { this with
      content := content, buf := later.take (count - content.length), state := .hasContent } := by
  rw [take_append_of_le whole] at held
  have taken : this.content ++ this.buf.take (content.length - this.content.length) = content := by
    have front := congrArg (List.take content.length) held
    rwa [List.take_append, List.take_of_length_le part, List.take_left' rfl] at front
  have left : this.buf.drop (content.length - this.content.length) =
      later.take (count - content.length) := by
    have back := congrArg (List.drop content.length) held
    rwa [List.drop_append, List.drop_eq_nil_of_le part, List.nil_append, List.drop_left' rfl]
      at back
  simp only [readContent, size, taken, left, lt_irrefl, if_false]

/-- What has come of a content that is not complete is kept, and nothing is left. -/
theorem readContent_part {content : List Byte} {later : List Byte}
    (size : this.contentSize = content.length)
    (held : this.content ++ this.buf = (content ++ later).take count)
    (short : count < content.length) :
    this.readContent = { this with
      content := this.content ++ this.buf, buf := [], state := .continuationData } := by
  have length := congrArg List.length held
  rw [List.length_append, List.length_take, List.length_append] at length
  have all : this.buf.length ≤ content.length - this.content.length := by omega
  have some' : (this.content ++ this.buf).length < content.length := by
    rw [List.length_append]
    omega
  simp only [readContent, size, List.take_of_length_le all, List.drop_eq_nil_of_le all, some',
    if_true]

/-- One call, for the messages from its position on: it waits for the rest of the first one; or that
is there, and reported; or its body, of another message, is only skipped as far as it is there. -/
def Turn (this : FileValidatorService) (messages : List Message) (count : Nat) : Prop :=
  (report this this.receiveResponse = none ∧ this.receiveResponse.state.reads ∧
    this.receiveResponse.Holds messages count ∧ Begins messages count) ∨
  (∃ message later, messages = message :: later ∧ message.bytes.length ≤ count ∧
    report this this.receiveResponse = some message.report ∧
    ¬this.receiveResponse.state.reads ∧
    this.receiveResponse.Holds later (count - message.bytes.length) ∧
    this.receiveResponse.buf.length < this.buf.length) ∨
  ∃ message later said, messages = message :: later ∧ Cut messages count ∧
    report this this.receiveResponse = some said ∧ said ≠ message.report

theorem length_answer (msgLen : Nat) (result : Byte) (fileId : Nat) (content : List Byte) :
    (Message.answer msgLen result fileId content).bytes.length = 14 + content.length := by
  simp [bytes]
  omega

theorem turn_inside {msgLen : Nat} {content : List Byte} {later : List Message}
    (within : this.state = .continuationData) (size : this.contentSize = content.length)
    (held : this.content ++ this.buf = (content ++ encode later).take count)
    (part : this.content.length < content.length) :
    this.Turn (.answer msgLen this.result this.fileId content :: later) (14 + count) := by
  have called : this.receiveResponse = this.readContent := if_pos within
  have header := length_answer msgLen this.result this.fileId content
  rw [Turn, called]
  rcases Nat.lt_or_ge count content.length with short | whole
  · rw [readContent_part size held short]
    refine .inl ⟨rfl, rfl, .inside rfl size (by rw [List.append_nil, held]) ?_,
      begins_cons (by omega) nofun⟩
    · rw [held, List.length_take]
      omega
  · rw [readContent_complete size held part.le whole]
    refine .inr (.inl ⟨_, later, rfl, by omega, rfl, nofun, .plain nofun ?_, ?_⟩)
    · rw [header, Nat.add_sub_add_left]
    · have taken := congrArg List.length held
      simp only [List.length_append, List.length_take] at taken ⊢
      omega

theorem receiveResponse_plain (outside : this.state ≠ .continuationData) :
    this.receiveResponse = match recvHeader this.buf with
      | none => { this with state := .waitingData }
      | some (msgType, msgLen, stream) =>
        if msgType = msgResult then
          match recvResultHeader stream with
          | none => { this with state := .waitingData }
          | some (result, fileId, contentSize, stream) =>
            readContent ⟨result, fileId, contentSize, [], this.state, stream⟩
        else { this with state := .error, buf := stream.drop msgLen } := if_neg outside

section Header

variable {later : List Message} (outside : this.state ≠ .continuationData) (five : 5 ≤ count)

include outside five

theorem turn_answer {msgLen : Nat} {result : Byte} {fileId : Nat} {content : List Byte}
    (fits : (Message.answer msgLen result fileId content).Fits)
    (held : this.buf = ((Message.answer msgLen result fileId content).bytes ++
      encode later).take count) :
    this.Turn (.answer msgLen result fileId content :: later) count := by
  have called := receiveResponse_plain outside
  have length := length_answer msgLen result fileId content
  have front := held
  simp only [bytes, List.cons_append, List.append_assoc] at front
  rw [take_header _ _ _ five] at front
  have size := congrArg List.length front
  simp only [List.length_cons, List.length_append, length_beBytes, List.length_take] at size
  rw [front, recvHeader_append] at called
  dsimp only at called
  rw [if_pos rfl] at called
  rw [Turn]
  rcases Nat.lt_or_ge count 14 with short | header
  · rw [recvResultHeader_short (by rw [List.length_take]; omega)] at called
    rw [called]
    exact .inl ⟨rfl, rfl, .plain nofun (front.symm.trans held), begins_cons (by omega) nofun⟩
  · rw [take_header _ _ _ (by omega), take_append_of_le (by simp; omega), length_beBytes,
      show count - 5 - 5 - 4 = count - 14 by omega,
      recvResultHeader_append _ _ fits.1 fits.2] at called
    dsimp only at called
    rcases Nat.lt_or_ge (count - 14) content.length with short | whole
    · rw [readContent_part rfl (List.nil_append _) short] at called
      rw [called]
      have inside := @Holds.inside ⟨result, fileId, content.length,
        (content ++ encode later).take (count - 14), .continuationData, []⟩ msgLen content later
        (count - 14) rfl rfl (List.append_nil _) (by simp; omega)
      rw [show 14 + (count - 14) = count by omega] at inside
      exact .inl ⟨rfl, rfl, inside, begins_cons (by omega) nofun⟩
    · rw [readContent_complete rfl (List.nil_append _) (Nat.zero_le _) whole] at called
      rw [called]
      refine .inr (.inl ⟨_, later, rfl, by omega, rfl, nofun, .plain nofun ?_, ?_⟩)
      · rw [length, Nat.sub_sub]
      · simp only [List.length_take]
        omega

theorem turn_other {msgType : Byte} {body : List Byte} (fits : (Message.other msgType body).Fits)
    (held : this.buf = ((Message.other msgType body).bytes ++ encode later).take count) :
    this.Turn (.other msgType body :: later) count := by
  have called := receiveResponse_plain outside
  have length : (Message.other msgType body).bytes.length = 5 + body.length := by
    simp [bytes]
    omega
  simp only [bytes, List.cons_append, List.append_assoc] at held
  rw [take_header _ _ _ five] at held
  have size := congrArg List.length held
  simp only [List.length_cons, List.length_append, length_beBytes, List.length_take] at size
  rw [held, recvHeader_append, Nat.mod_eq_of_lt fits.2] at called
  dsimp only at called
  rw [if_neg fits.1, List.drop_take] at called
  rw [Turn]
  rcases Nat.lt_or_ge count (5 + body.length) with short | whole
  · refine .inr (.inr ⟨_, later, _, rfl, .inl ⟨by omega, rfl, five⟩, by rw [called]; rfl, ?_⟩)
    simp only [Message.report, ne_eq, Report.error.injEq]
    omega
  · rw [List.drop_left' rfl] at called
    rw [called]
    refine .inr (.inl ⟨_, later, rfl, by omega, ?_, nofun, .plain nofun ?_, ?_⟩)
    · simp only [FileValidatorService.report, Message.report, List.length_take,
        Option.some.injEq, Report.error.injEq]
      omega
    · rw [length, Nat.sub_sub]
    · simp only [List.length_take]
      omega

end Header

theorem Holds.turn (holds : this.Holds messages count) (fit : ∀ message ∈ messages, message.Fits) :
    this.Turn messages count := by
  cases holds with
  | inside within size held part => exact turn_inside within size held part
  | plain outside held =>
    have called := receiveResponse_plain outside
    rcases messages with _ | ⟨message, later⟩
    · rw [encode_nil, List.take_nil] at held
      rw [held, recvHeader_short (by decide)] at called
      rw [Turn, called]
      exact .inl ⟨rfl, rfl, .plain nofun (by simp), begins_nil⟩
    have atLeast := five_le_length message
    rcases Nat.lt_or_ge count 5 with short | five
    · rw [recvHeader_short (by rw [held, List.length_take]; omega)] at called
      rw [Turn, called]
      exact .inl ⟨rfl, rfl, .plain nofun held, begins_cons (by omega) fun _ => short⟩
    have fits := fit message List.mem_cons_self
    rw [encode_cons] at held
    cases message with
    | answer => exact turn_answer outside five fits held
    | other => exact turn_other outside five fits held

/-- The calls after a read report the messages that have come as a whole, unless one is cut. -/
theorem responses_cases {read : List Byte} {fuel : Nat}
    (holds : (this.readFrom read).Holds messages count)
    (fit : ∀ message ∈ messages, message.Fits) (enough : (this.readFrom read).buf.length < fuel) :
    (∃ done later, messages = done ++ later ∧ (encode done).length ≤ count ∧
      (this.responses read fuel).1 = done.map Message.report ∧
      (this.responses read fuel).2.Holds later (count - (encode done).length) ∧
      (this.responses read fuel).2.state.reads ∧ Begins later (count - (encode done).length)) ∨
    Cut messages count ∧
      ∀ more, (this.responses read fuel).1 ++ more ≠ messages.map Message.report := by
  induction fuel generalizing this messages count with
  | zero => exact absurd enough (Nat.not_lt_zero _)
  | succ fuel ih =>
    rw [responses]
    rcases holds.turn fit with ⟨silent, waits, held, begins⟩ |
        ⟨message, later, rfl, whole, said, behind, held, less⟩ |
        ⟨message, later, said', rfl, cut, said, wrong⟩
    · rw [silent]
      exact .inl ⟨[], messages, rfl, Nat.zero_le _, rfl, held, waits, begins⟩
    · have unread : (this.readFrom read).receiveResponse.readFrom read =
          (this.readFrom read).receiveResponse := if_neg behind
      simp only [said]
      rcases ih (unread.symm ▸ held) (fun other mem => fit other (List.mem_cons_of_mem _ mem))
          (by rw [unread]; omega) with
        ⟨done, later, rfl, there, reports, held, waits, begins⟩ | ⟨cut, wrong⟩
      · rw [Nat.sub_sub] at held begins
        refine .inl ⟨message :: done, later, rfl, ?_, by rw [reports]; rfl, ?_, waits, ?_⟩
        · rw [encode_cons, List.length_append]
          omega
        · rwa [encode_cons, List.length_append]
        · rwa [encode_cons, List.length_append]
      · exact .inr ⟨.inr ⟨whole, cut⟩, fun more same => wrong more (List.cons.inj same).2⟩
    · simp only [said]
      exact .inr ⟨cut, fun more same => wrong (List.cons.inj same).1⟩

theorem Holds.readFrom {read more : List Byte} (holds : this.Holds messages count)
    (waits : this.state.reads) (ahead : (encode messages).drop count = read ++ more) :
    (this.readFrom read).Holds messages (count + read.length) := by
  rw [FileValidatorService.readFrom, if_pos waits]
  cases holds with
  | plain outside held =>
    refine .plain outside ?_
    rw [List.take_add, ahead, List.take_left' rfl, ← held]
  | inside within size held part =>
    rw [Nat.add_assoc]
    refine .inside within size ?_ part
    rw [← List.drop_drop, encode_cons, drop_answer] at ahead
    rw [List.take_add, ahead, List.take_left' rfl, ← held, List.append_assoc]

/-- From where the messages begin, they are reported exactly where none is cut by a read. -/
theorem session_exact {reads : List (List Byte)} (holds : this.Holds messages count)
    (waits : this.state.reads) (begins : Begins messages count)
    (fit : ∀ message ∈ messages, message.Fits)
    (ahead : (encode messages).drop count = reads.flatten) :
    this.session reads = messages.map Message.report ↔ Uncut messages count reads := by
  induction reads generalizing this messages count with
  | nil =>
    cases messages with
    | nil => exact iff_of_true rfl trivial
    | cons message later =>
      have short := (begins message rfl).1
      rw [List.flatten_nil, List.drop_eq_nil_iff, encode_cons, List.length_append] at ahead
      omega
  | cons read reads ih =>
    rw [session, Uncut]
    have arrived := holds.readFrom waits ahead
    have enough : (this.readFrom read).buf.length < this.buf.length + read.length + 1 := by
      rw [FileValidatorService.readFrom, if_pos waits, List.length_append]
      exact Nat.lt_succ_self _
    rcases responses_cases arrived fit enough with
      ⟨done, later, rfl, there, reports, held, waits, begins⟩ | ⟨cut, wrong⟩
    · have uncut : ¬Cut (done ++ later) (count + read.length) := by
        rw [cut_append there]
        exact begins.not_cut
      rw [reports, List.map_append, List.append_cancel_left_eq, uncut_append there]
      have rest : (encode later).drop (count + read.length - (encode done).length) =
          reads.flatten := by
        have behind := congrArg (List.drop read.length) ahead
        rwa [List.flatten_cons, List.drop_left' rfl, List.drop_drop, encode_append,
          List.drop_append, List.drop_eq_nil_of_le there, List.nil_append] at behind
      rw [ih held waits begins (fun message mem => fit message (List.mem_append_right _ mem)) rest]
      exact (and_iff_right uncut).symm
    · exact iff_of_false (wrong _) fun uncut => uncut.1 cut

end FileValidatorService

/-! What is sent to the validator. -/

/-- `out_copy_bytes` of `StaticOutStream<8*1024>`. -/
def outBytes (message bytes : List Byte) : Checked Unit (List Byte) :=
  if message.length + bytes.length ≤ 8 * 1024 then .ok (message ++ bytes) else .error .outOfBounds

/-- `FileValidatorHeader::emit`. -/
def header (msgType : Byte) (msgLen : Nat) : List Byte := msgType :: beBytes 4 msgLen

/-- An item of the map behind its length. -/
def item (data : List Byte) : List Byte := beBytes 2 data.length ++ data

def openDataMapLen (dataMap : List (List Byte)) : Nat :=
  2 + dataMap.flatten.length + dataMap.length * 2

/-- The loop of `send_data_map`: what is given to the transport. -/
def sendItems (message : List Byte) : List (List Byte) → Checked Unit (List (List Byte))
  | [] => .ok [message]
  | data :: dataMap =>
    if message.length + (data.length + 2) ≤ 8 * 1024 then do
      sendItems (← outBytes message (item data)) dataMap
    else do
      let sent ← sendItems (← outBytes [] (item data)) dataMap
      return message :: sent

def sendDataMap (message : List Byte) (dataMap : List (List Byte)) :
    Checked Unit (List (List Byte)) := do
  sendItems (← outBytes message (beBytes 2 (dataMap.length / 2))) dataMap

def sendOpenData (fileId : Nat) (targetName : List Byte) (dataMap : List (List Byte)) :
    Checked Unit (List (List Byte)) := do
  let pktLen := 4 + 2 + targetName.length + openDataMapLen dataMap
  let message ← outBytes [] (header 0x07 pktLen ++ beBytes 4 fileId)
  sendDataMap (← outBytes message (item targetName)) dataMap

def sendInfos (dataMap : List (List Byte)) : Checked Unit (List (List Byte)) := do
  sendDataMap (← outBytes [] (header 0x06 (openDataMapLen dataMap))) dataMap

/-- `send_header`. -/
def sendHeader (fileId : Nat) (msgType : Byte) (pktLen : Nat) : List Byte :=
  header msgType (4 + pktLen) ++ beBytes 4 fileId

/-- The loop of `send_data_file`, which takes a byte at least each time. -/
def sendDataFile (fileId : Nat) : Nat → List Byte → List (List Byte)
  | 0, _ => []
  | turns + 1, data =>
    if data = [] then []
    else
      let pktLen := min data.length 0x0fffffff
      sendHeader fileId 0x01 pktLen :: data.take pktLen ::
        sendDataFile fileId turns (data.drop pktLen)

/-- The length in the header is that of what follows. -/
def Framed (sent : List Byte) : Prop :=
  5 ≤ sent.length ∧ beValue ((sent.drop 1).take 4) = sent.length - 5

theorem framed_header (msgType : Byte) {msgLen : Nat} {rest : List Byte}
    (length : rest.length = msgLen) : Framed (header msgType msgLen ++ rest) ↔ msgLen < 2 ^ 32 := by
  simp only [Framed, header, List.cons_append, List.drop_succ_cons, List.drop_zero,
    List.take_left' (length_beBytes 4 msgLen), beValue_beBytes, List.length_cons,
    List.length_append, length_beBytes, length]
  rw [show 4 + msgLen + 1 - 5 = msgLen by omega]
  constructor
  · rintro ⟨-, same⟩
    omega
  · intro small
    exact ⟨by omega, Nat.mod_eq_of_lt small⟩

theorem outBytes_ok {message bytes : List Byte} (room : message.length + bytes.length ≤ 8 * 1024) :
    outBytes message bytes = .ok (message ++ bytes) := if_pos room

theorem of_outBytes {message bytes result : List Byte} (put : outBytes message bytes = .ok result) :
    message.length + bytes.length ≤ 8 * 1024 ∧ result = message ++ bytes := by
  rw [outBytes] at put
  split at put
  · rename_i room
    cases put
    exact ⟨room, rfl⟩
  · cases put

@[simp] theorem length_item (data : List Byte) : (item data).length = data.length + 2 := by
  simp [item]
  omega

theorem length_items (dataMap : List (List Byte)) :
    (dataMap.flatMap item).length + 2 = openDataMapLen dataMap := by
  rw [openDataMapLen]
  induction dataMap with
  | nil => rfl
  | cons data dataMap ih =>
    simp only [List.flatMap_cons, List.flatten_cons, List.length_append, length_item,
      List.length_cons] at ih ⊢
    omega

theorem sendItems_ok {message : List Byte} {dataMap : List (List Byte)}
    (small : ∀ data ∈ dataMap, data.length ≤ 8190) :
    ∃ sent, sendItems message dataMap = .ok sent ∧
      sent.flatten = message ++ dataMap.flatMap item := by
  induction dataMap generalizing message with
  | nil => exact ⟨[message], rfl, by simp⟩
  | cons data dataMap ih =>
    have fits := small data List.mem_cons_self
    have later := fun other mem => small other (List.mem_cons_of_mem data mem)
    rw [sendItems, List.flatMap_cons]
    split
    · rename_i room
      rw [outBytes_ok (by rw [length_item]; exact room), ok_bind, ← List.append_assoc]
      exact ih later
    · rw [outBytes_ok (by rw [length_item, List.length_nil]; omega), ok_bind, List.nil_append]
      obtain ⟨sent, done, flat⟩ := @ih (item data) later
      rw [done]
      exact ⟨message :: sent, rfl, by rw [List.flatten_cons, flat]⟩

theorem sendItems_large {message : List Byte} {dataMap sent : List (List Byte)}
    (done : sendItems message dataMap = .ok sent) : ∀ data ∈ dataMap, data.length ≤ 8190 := by
  induction dataMap generalizing message sent with
  | nil => simp
  | cons data dataMap ih =>
    rw [sendItems] at done
    rw [List.forall_mem_cons]
    split at done
    · obtain ⟨next, -, rest⟩ := bind_ok_iff.mp done
      exact ⟨by omega, ih rest⟩
    · obtain ⟨next, put, rest⟩ := bind_ok_iff.mp done
      obtain ⟨later, sent', -⟩ := bind_ok_iff.mp rest
      have room := (of_outBytes put).1
      rw [length_item, List.length_nil] at room
      exact ⟨by omega, ih sent'⟩

/-- A message is sent with the right length exactly where its front and every item fit the buffer,
and the length fits its field. -/
theorem framed_dataMap (msgType : Byte) (front : List Byte) (dataMap : List (List Byte)) :
    (∃ sent, (do
        let message ← outBytes [] (header msgType (front.length + openDataMapLen dataMap) ++ front)
        sendDataMap message dataMap) = .ok sent ∧ Framed sent.flatten) ↔
      front.length ≤ 8185 ∧ (∀ data ∈ dataMap, data.length ≤ 8190) ∧
        front.length + openDataMapLen dataMap < 2 ^ 32 := by
  have five : (header msgType (front.length + openDataMapLen dataMap) ++ front).length =
      5 + front.length := by
    simp [header]
    omega
  have content : ∀ sent : List (List Byte), sent.flatten =
      header msgType (front.length + openDataMapLen dataMap) ++ front ++
        beBytes 2 (dataMap.length / 2) ++ dataMap.flatMap item →
      (Framed sent.flatten ↔ front.length + openDataMapLen dataMap < 2 ^ 32) := by
    intro sent flat
    rw [flat, List.append_assoc, List.append_assoc]
    refine framed_header msgType ?_
    have items := length_items dataMap
    simp only [List.length_append, length_beBytes]
    omega
  constructor
  · rintro ⟨sent, done, framed⟩
    obtain ⟨first, put, rest⟩ := bind_ok_iff.mp done
    obtain ⟨-, rfl⟩ := of_outBytes put
    obtain ⟨second, put', rest'⟩ := bind_ok_iff.mp rest
    obtain ⟨room, rfl⟩ := of_outBytes put'
    have small := sendItems_large rest'
    obtain ⟨sent', done', flat⟩ := sendItems_ok small
    cases rest'.symm.trans done'
    rw [List.nil_append, five, length_beBytes] at room
    exact ⟨by omega, small, (content sent flat).mp framed⟩
  · rintro ⟨room, small, fits⟩
    obtain ⟨sent, done, flat⟩ := sendItems_ok small
    refine ⟨sent, ?_, (content sent flat).mpr fits⟩
    rw [outBytes_ok (by rw [five, List.length_nil]; omega), ok_bind, List.nil_append, sendDataMap,
      outBytes_ok (by rw [five, length_beBytes]; omega), ok_bind, done]

theorem outBytes_bind (message first second : List Byte) :
    (outBytes message first >>= fun message => outBytes message second) =
      outBytes message (first ++ second) := by
  by_cases room : message.length + first.length ≤ 8 * 1024
  · rw [outBytes_ok room, ok_bind, outBytes, outBytes, List.length_append, List.length_append,
      Nat.add_assoc, List.append_assoc]
  · rw [outBytes, if_neg room, outBytes, if_neg (by rw [List.length_append]; omega), error_bind]

theorem sendDataFile_framed (fileId : Nat) {turns : Nat} {data : List Byte}
    (enough : data.length ≤ turns) :
    ∃ messages : List (List Byte), (sendDataFile fileId turns data).flatten = messages.flatten ∧
      (∀ message ∈ messages, Framed message) ∧ messages.flatMap (List.drop 9) = data := by
  induction turns generalizing data with
  | zero =>
    rw [List.length_eq_zero_iff.mp (Nat.le_zero.mp enough)]
    exact ⟨[], rfl, nofun, rfl⟩
  | succ turns ih =>
    rw [sendDataFile]
    split
    · rename_i none
      exact ⟨[], rfl, nofun, none.symm⟩
    · rename_i some'
      obtain ⟨messages, flat, framed, behind⟩ :=
        @ih (data.drop (min data.length 0x0fffffff)) (by rw [List.length_drop]; omega)
      refine ⟨(sendHeader fileId 0x01 (min data.length 0x0fffffff) ++
        data.take (min data.length 0x0fffffff)) :: messages, ?_, ?_, ?_⟩
      · simp only [List.flatten_cons, flat, List.append_assoc]
      · rw [List.forall_mem_cons]
        refine ⟨?_, framed⟩
        rw [sendHeader, List.append_assoc]
        refine (framed_header 0x01 ?_).mpr (by omega)
        rw [List.length_append, length_beBytes, List.length_take]
        omega
      · rw [List.flatMap_cons, behind, List.drop_left' (by simp [sendHeader, header]),
          List.take_append_drop]

/-- The answers of the validator are reported one for one exactly where no read ends inside of
another message, behind its header. What is sent is framed: data always, a map where what is put
into the buffer fits it and the length its field. -/
theorem validator_framed_iff (messages : List Message) (reads : List (List Byte))
    (fit : ∀ message ∈ messages, message.Fits) (whole : encode messages = reads.flatten)
    (fileId : Nat) (targetName data : List Byte) (dataMap : List (List Byte)) :
    (FileValidatorService.initial.session reads = messages.map Message.report ↔
      Uncut messages 0 reads) ∧
    ((∃ sent, sendOpenData fileId targetName dataMap = .ok sent ∧ Framed sent.flatten) ↔
      targetName.length ≤ 8179 ∧ (∀ data ∈ dataMap, data.length ≤ 8190) ∧
        4 + 2 + targetName.length + openDataMapLen dataMap < 2 ^ 32) ∧
    ((∃ sent, sendInfos dataMap = .ok sent ∧ Framed sent.flatten) ↔
      (∀ data ∈ dataMap, data.length ≤ 8190) ∧ openDataMapLen dataMap < 2 ^ 32) ∧
    ∃ sent : List (List Byte), (sendDataFile fileId data.length data).flatten = sent.flatten ∧
      (∀ message ∈ sent, Framed message) ∧ sent.flatMap (List.drop 9) = data := by
  refine ⟨?_, ?_, ?_, sendDataFile_framed fileId le_rfl⟩
  · refine FileValidatorService.session_exact (.plain nofun List.take_zero.symm) rfl ?_ fit whole
    cases messages with
    | nil => exact begins_nil
    | cons message later =>
      have five := five_le_length message
      exact begins_cons (by omega) fun _ => by decide
  · have front : (beBytes 4 fileId ++ item targetName).length = 4 + 2 + targetName.length := by
      simp
      omega
    have framed := framed_dataMap 0x07 (beBytes 4 fileId ++ item targetName) dataMap
    rw [front, ← List.append_assoc, ← outBytes_bind, bind_assoc] at framed
    refine framed.trans (and_congr_left' ?_)
    omega
  · have framed := framed_dataMap 0x06 [] dataMap
    simp only [List.length_nil, Nat.zero_add, List.append_nil, Nat.zero_le, true_and] at framed
    exact framed

/-- A result that is read in two parts, and another message that is not. -/
theorem validator_framed_iff_whole :
    FileValidatorService.initial.session
      [[5, 0, 0, 0, 10, 1, 0, 0, 0, 7], [0, 0, 0, 1, 65, 9, 0, 0, 0, 1, 66]] =
      [.hasContent 1 7 [65], .error 6] :=
  (validator_framed_iff [.answer 10 1 7 [65], .other 9 [66]]
    [[5, 0, 0, 0, 10, 1, 0, 0, 0, 7], [0, 0, 0, 1, 65, 9, 0, 0, 0, 1, 66]]
    (by simp [Fits, msgResult]) (by decide) 0 [] [] []).1.mpr ⟨by decide, by decide, trivial⟩

/-- The rest of another message is taken for one more message. -/
theorem session_cut :
    FileValidatorService.initial.session [[9, 0, 0, 0, 6, 1], [2, 3, 4, 5, 6]] ≠
      [Message.other 9 [1, 2, 3, 4, 5, 6]].map Message.report := by
  decide

end Redemption.Channels.FileValidator
