import Redemption.Foundation.FrontReader
import Redemption.Channels.Drdynvc

/-! Requests to open a dynamic channel are refused in the client's place if its name is not
authorised; all else that the server sends reaches the client. -/
namespace Redemption.Channels

open Redemption.Foundation Redemption.Utils

inductive IdSize where
  | one | two | four
  deriving DecidableEq, Repr

namespace IdSize

def width : IdSize → Nat
  | one => 1
  | two => 2
  | four => 4

def cbId : IdSize → Byte
  | one => 0
  | two => 1
  | four => 2

theorem idWidth_cbId (size : IdSize) : idWidth size.cbId = .ok size.width := by
  cases size <;> rfl

end IdSize

/-- A request to open a channel, with what may be behind it. -/
structure CreateRequest where
  size : IdSize
  sp : BitVec 2
  channelId : Nat
  small : channelId < 2 ^ (8 * size.width)
  name : List Byte
  plain : (0 : Byte) ∉ name
  behind : List Byte

namespace CreateRequest

def header (request : CreateRequest) : DVCHeader :=
  ⟨request.size.cbId, request.sp.setWidth 8, CMD_CREATE⟩

def bytes (request : CreateRequest) : List Byte :=
  request.header.toByte ::
    (leBytes request.size.width request.channelId ++ (request.name ++ 0 :: request.behind))

end CreateRequest

private theorem ofByte_toByte : ∀ (size : IdSize) (sp : BitVec 2),
    DVCHeader.ofByte (DVCHeader.toByte ⟨size.cbId, sp.setWidth 8, CMD_CREATE⟩) =
      ⟨size.cbId, sp.setWidth 8, CMD_CREATE⟩ := by
  intro size
  cases size <;> decide

theorem receiveChannelId_append (size : IdSize) (sp : BitVec 2) {channelId : Nat}
    (small : channelId < 2 ^ (8 * size.width)) (rest : List Byte) :
    receiveChannelId (DVCHeader.toByte ⟨size.cbId, sp.setWidth 8, CMD_CREATE⟩ ::
        (leBytes size.width channelId ++ rest)) =
      .ok (⟨size.cbId, sp.setWidth 8, CMD_CREATE⟩, channelId, rest) := by
  have room : (checkThrow (leBytes size.width channelId ++ rest) size.width .rdpdrPduTruncated :
      Checked ErrorId _) = .ok () := checkThrow_of_le _ (by simp)
  have first : ∀ byte others, (checkThrow (byte :: others : List Byte) 1 .rdpdrPduTruncated :
      Checked ErrorId _) = .ok () := fun _ _ => checkThrow_of_le _ (by simp)
  simp only [receiveChannelId, first, ok_bind, inUint8, ofByte_toByte, size.idWidth_cbId, room,
    inLe_append, Nat.mod_eq_of_lt small, pure_ok]

theorem receive_bytes (request : CreateRequest) :
    DVCCreateRequestPDU.receive request.bytes =
      .ok (⟨request.header, request.channelId, request.name⟩, request.behind) := by
  have stops : (request.name ++ 0 :: request.behind).takeWhile (· ≠ 0) = request.name := by
    rw [List.takeWhile_append_of_pos]
    · simp
    · intro char member
      have some : char ≠ 0 := by
        rintro rfl
        exact request.plain member
      simpa using some
  have short : ¬ request.name.length = (request.name ++ 0 :: request.behind).length := by
    rw [List.length_append, List.length_cons]
    omega
  unfold CreateRequest.bytes CreateRequest.header DVCCreateRequestPDU.receive
  simp only [receiveChannelId_append request.size request.sp request.small, ok_bind, stops]
  rw [if_neg short, List.take_left, ← List.drop_drop, List.drop_left]
  rfl

/-- A response with the smallest width of the id is read as it was meant. -/
theorem emit_refused {channelId : Nat} (small : channelId < 2 ^ 32) :
    ∃ bytes, (DVCCreateResponsePDU.make channelId REFUSED).emit = .ok bytes ∧
      DVCCreateResponsePDU.receive bytes =
        .ok (DVCCreateResponsePDU.make channelId REFUSED, []) := by
  have each : ∀ size : IdSize, channelId < 2 ^ (8 * size.width) →
      (DVCCreateResponsePDU.make channelId REFUSED).header = ⟨size.cbId, 0, CMD_CREATE⟩ →
      ∃ bytes, (DVCCreateResponsePDU.make channelId REFUSED).emit = .ok bytes ∧
        DVCCreateResponsePDU.receive bytes =
          .ok (DVCCreateResponsePDU.make channelId REFUSED, []) := by
    intro size fits header
    refine ⟨(DVCHeader.toByte ⟨size.cbId, 0, CMD_CREATE⟩) ::
      (leBytes size.width channelId ++ leBytes 4 REFUSED), ?_, ?_⟩
    · rw [DVCCreateResponsePDU.emit, header]
      simp only [size.idWidth_cbId, ok_bind]
      rfl
    · have read := receiveChannelId_append size 0 fits (leBytes 4 REFUSED)
      have zero : (0 : BitVec 2).setWidth 8 = (0 : Byte) := by decide
      rw [zero] at read
      have status : (inLe 4 (leBytes 4 REFUSED) : Checked ErrorId _) = .ok (REFUSED, []) := by
        have whole := @inLe_append ErrorId 4 REFUSED []
        rwa [List.append_nil] at whole
      have room : (checkThrow (leBytes 4 REFUSED) 1 .rdpdrPduTruncated : Checked ErrorId _) =
          .ok () := checkThrow_of_le _ (by simp)
      rw [DVCCreateResponsePDU.receive, read]
      simp only [ok_bind, room, status, pure_ok, ← header]
      rfl
  by_cases byte : channelId ≤ 0xFF
  · exact each .one (by simp only [IdSize.width]; omega)
      (by simp [DVCCreateResponsePDU.make, byte, IdSize.cbId])
  · by_cases word : channelId ≤ 0xFFFF
    · exact each .two (by simp only [IdSize.width]; omega)
        (by simp [DVCCreateResponsePDU.make, byte, word, IdSize.cbId])
    · exact each .four small (by simp [DVCCreateResponsePDU.make, byte, word, IdSize.cbId])

private theorem ofByte_cases : ∀ tmp : Byte, (DVCHeader.ofByte tmp).cbId = 3 ∨
    ∃ size : IdSize, (DVCHeader.ofByte tmp).cbId = size.cbId := by
  have every : ∀ tmp : Byte, (DVCHeader.ofByte tmp).cbId = 3 ∨
      (DVCHeader.ofByte tmp).cbId = 0 ∨ (DVCHeader.ofByte tmp).cbId = 1 ∨
      (DVCHeader.ofByte tmp).cbId = 2 := by decide
  intro tmp
  rcases every tmp with three | zero | one | two
  · exact .inl three
  · exact .inr ⟨.one, zero⟩
  · exact .inr ⟨.two, one⟩
  · exact .inr ⟨.four, two⟩

private theorem toByte_ofByte : ∀ tmp : Byte, (DVCHeader.ofByte tmp).cmd = CMD_CREATE →
    DVCHeader.toByte ⟨(DVCHeader.ofByte tmp).cbId,
      ((DVCHeader.ofByte tmp).sp.setWidth 2).setWidth 8, CMD_CREATE⟩ = tmp := by decide

private theorem split_zero {text : List Byte}
    (some : ¬ (text.takeWhile (· ≠ 0)).length = text.length) :
    ∃ behind, text = text.takeWhile (· ≠ 0) ++ 0 :: behind ∧
      (0 : Byte) ∉ text.takeWhile (· ≠ 0) := by
  induction text with
  | nil => exact (some rfl).elim
  | cons char rest ih =>
    by_cases zero : char = 0
    · subst zero
      exact ⟨rest, by simp, by simp⟩
    · have more : (char :: rest).takeWhile (· ≠ 0) = char :: rest.takeWhile (· ≠ 0) :=
        List.takeWhile_cons_of_pos (by simpa using zero)
      rw [more, List.length_cons, List.length_cons] at some
      obtain ⟨behind, parts, plain⟩ := ih (by omega)
      refine ⟨behind, ?_, ?_⟩
      · rw [more, List.cons_append, ← parts]
      · rw [more, List.mem_cons, not_or]
        exact ⟨fun same => zero same.symm, plain⟩

theorem receive_cases (stream : List Byte) :
    (∀ tmp ∈ stream.head?, (DVCHeader.ofByte tmp).cmd = CMD_CREATE →
        ∃ request : CreateRequest, stream = request.bytes) ∨
      ∃ error, DVCCreateRequestPDU.receive stream = .error (.raised error) := by
  cases stream with
  | nil => exact .inr ⟨.rdpdrPduTruncated, rfl⟩
  | cons tmp stream =>
    have first : (checkThrow (tmp :: stream) 1 .rdpdrPduTruncated : Checked ErrorId _) = .ok () :=
      checkThrow_of_le _ (by simp)
    rcases ofByte_cases tmp with three | ⟨size, cbId⟩
    · right
      refine ⟨.rdpProtocol, ?_⟩
      have invalid : idWidth 3 = .error (.raised .rdpProtocol) := rfl
      simp only [DVCCreateRequestPDU.receive, receiveChannelId, first, ok_bind, inUint8, three,
        invalid, error_bind]
    · by_cases room : size.width ≤ stream.length
      · have check : (checkThrow stream size.width .rdpdrPduTruncated : Checked ErrorId _) =
            .ok () := checkThrow_of_le _ room
        have opened : receiveChannelId (tmp :: stream) =
            .ok (DVCHeader.ofByte tmp, leValue (stream.take size.width),
              stream.drop size.width) := by
          simp only [receiveChannelId, first, ok_bind, inUint8, cbId, size.idWidth_cbId, check,
            inLe_ok room, pure_ok]
        by_cases none : ((stream.drop size.width).takeWhile (· ≠ 0)).length =
            (stream.drop size.width).length
        · right
          refine ⟨.rdpProtocol, ?_⟩
          unfold DVCCreateRequestPDU.receive
          simp only [opened, ok_bind]
          rw [if_pos none]
        · left
          intro other same create
          cases same
          obtain ⟨behind, parts, plain⟩ := split_zero none
          have width : (stream.take size.width).length = size.width := List.length_take_of_le room
          have bounded := leValue_lt (stream.take size.width)
          rw [width] at bounded
          have byte := toByte_ofByte tmp create
          rw [cbId] at byte
          refine ⟨⟨size, (DVCHeader.ofByte tmp).sp.setWidth 2, leValue (stream.take size.width),
            bounded, _, plain, behind⟩, ?_⟩
          have whole : leBytes size.width (leValue (stream.take size.width)) =
              stream.take size.width := by
            have same := leBytes_leValue (stream.take size.width)
            rwa [width] at same
          rw [CreateRequest.bytes, CreateRequest.header]
          simp only [byte, whole, ← parts, List.take_append_drop]
      · right
        refine ⟨.rdpdrPduTruncated, ?_⟩
        have short : (checkThrow stream size.width .rdpdrPduTruncated : Checked ErrorId _) =
            .error (.raised .rdpdrPduTruncated) := if_neg room
        simp only [DVCCreateRequestPDU.receive, receiveChannelId, first, ok_bind, inUint8, cbId,
          size.idWidth_cbId, short, error_bind]

/-- A message that asks to open a channel, all in one chunk. -/
structure Asks (chunk : Chunk) (request : CreateRequest) : Prop where
  whole : chunk.isWhole
  data : chunk.data = request.bytes

/-- A chunk that begins a message without a command, or asks to open a channel, all in one
chunk, in a way that is not understood. -/
def Malformed (chunk : Chunk) : Prop :=
  ¬ chunk.onlySuspends ∧
    (chunk.isFirst ∧ chunk.data = [] ∨
      chunk.isWhole ∧ chunk.cmd = .ok CMD_CREATE ∧ ∀ request, ¬ Asks chunk request)

/-- What is to become of a chunk. -/
inductive Handled (allow deny : List (List Byte)) (chunk : Chunk) : List Sent → Prop where
  | refused (request : CreateRequest) (response : List Byte) (asks : Asks chunk request)
      (unauthorised : ¬ Authorises allow deny request.name)
      (failure : DVCCreateResponsePDU.receive response =
        .ok (.make request.channelId REFUSED, [])) :
      Handled allow deny chunk [.toServer ⟨response.length,
        CHANNEL_FLAG_FIRST ||| CHANNEL_FLAG_LAST, response⟩]
  | delivered (others : ∀ request, Asks chunk request → Authorises allow deny request.name) :
      Handled allow deny chunk [.toClient chunk]

/-- A request to open a channel that is not authorised, cut into several chunks; others that only
suspend may come between them. -/
def CutRequest (allow deny : List (List Byte)) (chunks : List Chunk) : Prop :=
  ∃ (request : CreateRequest) (first : Chunk) (middle : List Chunk) (last : Chunk),
    chunks = first :: (middle ++ [last]) ∧ ((first.isFirst ∧ ¬ first.isLast) ∧
      (∀ chunk ∈ middle, ¬ chunk.isFirst ∧ ¬ chunk.isLast) ∧ ¬ last.isFirst ∧ last.isLast) ∧
    (chunks.filter (¬ ·.onlySuspends)).flatMap Chunk.data = request.bytes ∧
    ¬ Authorises allow deny request.name

/-- What is to become of a sequence of chunks. Nothing is said of requests that are cut. -/
inductive Follows (allow deny : List (List Byte)) : List Chunk → List (List Sent) → Prop where
  | nil : Follows allow deny [] []
  | chunk {chunk : Chunk} {sent : List Sent} {rest : List Chunk} {later : List (List Sent)} :
      Handled allow deny chunk sent → Follows allow deny rest later →
      Follows allow deny (chunk :: rest) (sent :: later)
  | cut {chunks rest : List Chunk} {sent later : List (List Sent)} :
      CutRequest allow deny chunks → sent.length = chunks.length → Follows allow deny rest later →
      Follows allow deny (chunks ++ rest) (sent ++ later)

theorem whole_first {chunk : Chunk} (whole : chunk.isWhole) : chunk.isFirst := by
  intro none
  have bit := congrArg (fun flags => flags &&& CHANNEL_FLAG_FIRST) (show _ = _ from whole)
  simp only [BitVec.and_assoc] at bit
  have merged : (CHANNEL_FLAG_FIRST ||| CHANNEL_FLAG_LAST) &&& CHANNEL_FLAG_FIRST =
      CHANNEL_FLAG_FIRST := by decide
  rw [merged] at bit
  rw [show chunk.flags &&& CHANNEL_FLAG_FIRST = 0 from none] at bit
  exact absurd bit (by decide)

theorem whole_acts {chunk : Chunk} (whole : chunk.isWhole) : ¬ chunk.onlySuspends := by
  rintro ⟨_, rest⟩
  have bit := congrArg (fun flags => flags &&& CHANNEL_FLAG_FIRST) rest
  simp only [BitVec.and_assoc] at bit
  exact whole_first whole (bit.trans (by decide))

theorem asks_cmd {chunk : Chunk} {request : CreateRequest} (asks : Asks chunk request) :
    chunk.cmd = .ok CMD_CREATE := by
  have room : (checkThrow chunk.data 1 .rdpDataTruncated : Checked ErrorId _) = .ok () :=
    checkThrow_of_le _ (by rw [asks.data, CreateRequest.bytes, List.length_cons]; omega)
  rw [Chunk.cmd, if_pos (whole_first asks.whole), room, ok_bind, asks.data,
    CreateRequest.bytes, CreateRequest.header]
  simp only [inUint8, ok_bind, ofByte_toByte, pure_ok]

/-- A request is delivered if its name is authorised, else refused. -/
private theorem asked_run (allow deny : List Byte) {chunk : Chunk} {request : CreateRequest}
    (asks : Asks chunk request) :
    ¬ Malformed chunk ∧ ∃ sent, (do
        let (request, _) ← DVCCreateRequestPDU.receive chunk.data
        if (DynamicChannelsAuthorizations.make allow deny).isAuthorized request.channelName then
          return [.toClient chunk]
        else
          let response ← (DVCCreateResponsePDU.make request.channelId REFUSED).emit
          return [.toServer ⟨response.length, CHANNEL_FLAG_FIRST ||| CHANNEL_FLAG_LAST,
            response⟩] : Checked ErrorId (List Sent)) = .ok sent ∧
      Handled (listed allow) (listed deny) chunk sent := by
  have policy := isAuthorized_iff allow deny request.name
  refine ⟨?_, ?_⟩
  · rintro ⟨_, ⟨_, empty⟩ | ⟨_, _, none⟩⟩
    · rw [asks.data] at empty
      cases empty
    · exact none request asks
  · rw [asks.data, receive_bytes]
    simp only [ok_bind]
    by_cases authorised :
        (DynamicChannelsAuthorizations.make allow deny).isAuthorized request.name = true
    · rw [if_pos authorised]
      refine ⟨_, rfl, .delivered fun other asks' => ?_⟩
      have same := asks.data.symm.trans asks'.data
      have read := receive_bytes other
      rw [← same, receive_bytes] at read
      simp only [Except.ok.injEq, Prod.mk.injEq, DVCCreateRequestPDU.mk.injEq] at read
      rw [← read.1.2.2]
      exact policy.mp authorised
    · have small : request.channelId < 2 ^ 32 :=
        Nat.lt_of_lt_of_le request.small (by cases request.size <;> decide)
      obtain ⟨response, emitted, received⟩ := emit_refused small
      rw [if_neg authorised, emitted]
      exact ⟨_, rfl, .refused request response asks (fun listed => authorised (policy.mpr listed))
        received⟩

/-- One chunk: it is dealt with, or an error is raised because it is malformed. -/
theorem processServerMessage_run (allow deny : List Byte) (chunk : Chunk) :
    (¬ Malformed chunk ∧ ∃ sent, processServerMessage (.make allow deny) chunk = .ok sent ∧
        Handled (listed allow) (listed deny) chunk sent) ∨
      (Malformed chunk ∧
        ∃ error, processServerMessage (.make allow deny) chunk = .error (.raised error)) := by
  by_cases suspends : chunk.onlySuspends
  · left
    refine ⟨fun malformed => malformed.1 suspends, [.toClient chunk], if_pos suspends, ?_⟩
    exact .delivered fun request asks => (whole_acts asks.whole suspends).elim
  rw [processServerMessage, if_neg suspends]
  by_cases first : chunk.isFirst
  · cases data : chunk.data with
    | nil =>
      right
      have truncated : chunk.cmd = .error (.raised .rdpDataTruncated) := by
        rw [Chunk.cmd, if_pos first, data]
        rfl
      exact ⟨⟨suspends, .inl ⟨first, data⟩⟩, .rdpDataTruncated, by rw [truncated, error_bind]⟩
    | cons tmp others =>
      have cmd : chunk.cmd = .ok (DVCHeader.ofByte tmp).cmd := by
        have room : (checkThrow (tmp :: others) 1 .rdpDataTruncated : Checked ErrorId _) =
            .ok () := checkThrow_of_le _ (by simp)
        rw [Chunk.cmd, if_pos first, data, room]
        rfl
      rw [← data]
      simp only [cmd, ok_bind]
      by_cases create : (DVCHeader.ofByte tmp).cmd = CMD_CREATE ∧ chunk.isWhole
      · rw [if_pos create]
        obtain ⟨command, whole⟩ := create
        have create : chunk.cmd = .ok CMD_CREATE := by rw [cmd, command]
        rcases receive_cases chunk.data with understood | ⟨error, raised⟩
        · left
          obtain ⟨request, bytes⟩ := understood tmp (by rw [data]; rfl) command
          exact asked_run allow deny ⟨whole, bytes⟩
        · right
          refine ⟨⟨suspends, .inr ⟨whole, create, ?_⟩⟩, error, by rw [raised, error_bind]⟩
          intro request asks
          rw [asks.data, receive_bytes] at raised
          cases raised
      · left
        rw [if_neg create]
        refine ⟨?_, _, rfl, ?_⟩
        · rintro ⟨_, ⟨_, empty⟩ | ⟨whole, command, _⟩⟩
          · rw [data] at empty
            cases empty
          · rw [cmd, Except.ok.injEq] at command
            exact create ⟨command, whole⟩
        · refine .delivered fun request asks => (create ⟨?_, asks.whole⟩).elim
          have command := asks_cmd asks
          rw [cmd, Except.ok.injEq] at command
          exact command
  · left
    have cmd : chunk.cmd = .ok 0 := if_neg first
    have other : ¬ ((0 : Byte) = CMD_CREATE ∧ chunk.isWhole) := fun both => absurd both.1 (by decide)
    simp only [cmd, ok_bind, if_neg other]
    refine ⟨?_, _, rfl, ?_⟩
    · rintro ⟨_, ⟨begins, _⟩ | ⟨whole, _, _⟩⟩
      · exact first begins
      · exact first (whole_first whole)
    · exact .delivered fun request asks => (first (whole_first asks.whole)).elim

/-- The sequence of chunks up to the first that is malformed is dealt with chunk by chunk; that
one raises an error, and the channel is left. A name is authorised as the lists say. -/
theorem processServerMessages_run (allow deny : List Byte) (chunks : List Chunk) :
    (∀ name, (DynamicChannelsAuthorizations.make allow deny).isAuthorized name = true ↔
        Authorises (listed allow) (listed deny) name) ∧
      ∃ before after sent, chunks = before ++ after ∧ (∀ chunk ∈ before, ¬ Malformed chunk) ∧
        Follows (listed allow) (listed deny) before sent ∧
        (processServerMessages (.make allow deny) chunks).1 = sent.flatten ∧
        (after = [] ∧ (processServerMessages (.make allow deny) chunks).2 = none ∨
          ∃ chunk rest error, after = chunk :: rest ∧ Malformed chunk ∧
            (processServerMessages (.make allow deny) chunks).2 = some (.raised error)) := by
  refine ⟨fun name => isAuthorized_iff allow deny name, ?_⟩
  induction chunks with
  | nil => exact ⟨[], [], [], rfl, by simp, .nil, rfl, .inl ⟨rfl, rfl⟩⟩
  | cons chunk rest ih =>
    rcases processServerMessage_run allow deny chunk with
      ⟨sound, now, ran, handled⟩ | ⟨malformed, error, raised⟩
    · obtain ⟨before, after, sent, parts, fine, each, given, ends⟩ := ih
      refine ⟨chunk :: before, after, now :: sent, by rw [parts]; rfl, ?_, .chunk handled each,
        ?_, ?_⟩
      · intro other member
        rcases List.mem_cons.mp member with rfl | later
        · exact sound
        · exact fine other later
      · simp only [processServerMessages, ran, given, List.flatten_cons]
      · simpa only [processServerMessages, ran] using ends
    · refine ⟨[], chunk :: rest, [], rfl, by simp, .nil, ?_, .inr ⟨chunk, rest, error, rfl,
        malformed, ?_⟩⟩
      · simp only [processServerMessages, raised, List.flatten_nil]
      · simp only [processServerMessages, raised]

/-- A request to open the channel `a`. -/
def requestOfA : CreateRequest :=
  ⟨.one, 0, 5, by decide, [0x61], by decide, []⟩

/-- The request in two chunks. -/
def splitRequest : List Chunk :=
  [⟨4, CHANNEL_FLAG_FIRST, [0x10, 0x05]⟩, ⟨4, CHANNEL_FLAG_LAST, [0x61, 0x00]⟩]

example : CutRequest [] [] splitRequest :=
  ⟨requestOfA, _, [], _, rfl, by decide, by decide, fun authorised => authorised.1 rfl⟩

/-- In two chunks, a request that is not authorised reaches the client. And a name that is not
listed is authorised if another is allowed and none is denied. -/
theorem splitRequest_delivered :
    (splitRequest.map Chunk.data).flatten = requestOfA.bytes ∧
      (DynamicChannelsAuthorizations.make [] []).isAuthorized requestOfA.name = false ∧
      processServerMessages (.make [] []) splitRequest = (splitRequest.map .toClient, none) ∧
      (DynamicChannelsAuthorizations.make [0x61] []).isAuthorized [0x62] = true := by
  decide

end Redemption.Channels
