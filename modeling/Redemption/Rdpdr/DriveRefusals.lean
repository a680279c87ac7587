import Redemption.Rdpdr.ChannelFrames
import Redemption.Rdpdr.DriveAccess

/-! The requests of a session that are denied. -/
namespace Redemption.Rdpdr

open Redemption.Foundation Redemption.Channels Redemption.Utils
open ChannelsAuthorizations (RDPDR_DTYP_FILESYSTEM)
open FileSystemChannel (accessDenied)

section Front

variable {front more : List Byte}

theorem drop_take_front {skipped width : Nat} (room : skipped + width ≤ front.length) :
    ((front ++ more).drop skipped).take width = (front.drop skipped).take width := by
  have inside : skipped ≤ front.length := Nat.le_of_add_right_le room
  have behind : width ≤ (front.drop skipped).length := by
    rw [List.length_drop]
    omega
  rw [List.drop_append_of_le_length inside, List.take_append_of_le_length behind]

theorem DeviceIORequest.decode_front (room : 24 ≤ front.length) :
    decode ((front ++ more).drop 4) = decode (front.drop 4) := by
  have first : ((front ++ more).drop 4).take 4 = (front.drop 4).take 4 :=
    drop_take_front (Nat.le_trans (by decide) room)
  simp only [decode, List.drop_drop, Nat.reduceAdd, first,
    drop_take_front (show 8 + 4 ≤ front.length by omega),
    drop_take_front (show 12 + 4 ≤ front.length by omega),
    drop_take_front (show 16 + 4 ≤ front.length by omega),
    drop_take_front (show 20 + 4 ≤ front.length by omega)]

theorem opening_eq {content : List Byte} {opened : Opening} (begun : opening content = some opened) :
    BitVec.ofNat 16 (leValue ((content.drop 2).take 2)) = PAKID_CORE_DEVICE_IOREQUEST ∧
      opened.request.majorFunction = IRP_MJ_CREATE ∧
      opened.request = DeviceIORequest.decode (content.drop 4) := by
  rw [opening] at begun
  split at begun
  · next asked =>
    cases begun
    exact ⟨asked.2.1, asked.2.2, rfl⟩
  · cases begun

end Front

theorem not_control {chunk : Chunk} (first : chunk.flags &&& CHANNEL_FLAG_FIRST ≠ 0) :
    ¬ (chunk.flags ≠ 0 ∧
      chunk.flags &&& ~~~(CHANNEL_FLAG_SUSPEND ||| CHANNEL_FLAG_RESUME) = 0) := by
  rintro ⟨_, control⟩
  have masked : ~~~(CHANNEL_FLAG_SUSPEND ||| CHANNEL_FLAG_RESUME) &&& CHANNEL_FLAG_FIRST =
      CHANNEL_FLAG_FIRST := by decide
  have bit : chunk.flags &&& CHANNEL_FLAG_FIRST = 0 := by
    rw [← masked, ← BitVec.and_assoc, control]
    exact BitVec.zero_and
  exact first bit

namespace FileSystemChannel

variable {params : ChannelParams} {outside : Outside} {channel : FileSystemChannel}

/-- A request is passed on to the client, or the search for an id goes on for ever. -/
theorem passRequestOn_toClient (chunk : Chunk) (offset : Nat) (passes : Bool)
    (noted : Option Noted) :
    ∀ output ∈ (channel.passRequestOn chunk offset passes noted).outputs,
      ∃ sent, output = .toClient sent := by
  intro output member
  cases passes with
  | false => cases member
  | true =>
    rw [passRequestOn, if_pos rfl] at member
    cases found : channel.completionIdManager.getDestIdEx completionIds
        channel.serverDeviceIORequest.completionId with
    | none =>
      simp only [found, Emits.ofLoop_none_bind] at member
      cases member
    | some mapped =>
      obtain ⟨completionId, ids⟩ := mapped
      simp only [found, Emits.ofLoop_some_bind] at member
      split at member
      · obtain rfl := List.mem_singleton.mp member
        exact ⟨_, rfl⟩
      · cases member

/-- A create request for a drive that the proxy does not manage. -/
structure Creates (outside : Outside) (request : DeviceIORequest) : Prop where
  function : request.majorFunction = IRP_MJ_CREATE
  unmanaged : outside.isManagedDrive request.deviceId = false

theorem askEndOfFile_create {flags : BitVec 32} {targetIndex : Option Nat} {filePath : List Byte}
    (creates : channel.serverDeviceIORequest.majorFunction = IRP_MJ_CREATE) :
    channel.askEndOfFile flags targetIndex filePath = pure channel := by
  have neither : ¬ (channel.serverDeviceIORequest.majorFunction = IRP_MJ_READ ∨
      channel.serverDeviceIORequest.majorFunction = IRP_MJ_WRITE) := by
    rw [creates]
    decide
  rw [askEndOfFile]
  exact if_neg neither

/-- A create request is looked at, and passed on if it is not refused. -/
theorem processServerDriveIORequest_create {chunk : Chunk} {stream body : List Byte}
    {request : DeviceIORequest} (first : chunk.flags &&& CHANNEL_FLAG_FIRST ≠ 0)
    (received : DeviceIORequest.receive stream = .ok (request, body))
    (creates : Creates outside request) :
    channel.processServerDriveIORequest params outside chunk stream =
      ({ channel with serverDeviceIORequest := request }.dispatchRequest params none [] body >>=
        fun (channel, passes, noted) =>
          channel.passRequestOn chunk (chunk.data.length - stream.length) passes noted) := by
  have still : (false : Bool) ≠ true := Bool.false_ne_true
  rw [processServerDriveIORequest]
  simp only [decide_eq_true first, if_true, received, Emitting.lift_ok_bind, Emitting.pure_bind,
    creates.unmanaged, Bool.false_eq_true, if_false]
  rw [if_neg still.symm, if_neg (not_not.mpr creates.function), askEndOfFile_create creates.function]
  rfl

section Create

variable {targetIndex : Option Nat} {filePath body : List Byte}
variable (creates : channel.serverDeviceIORequest.majorFunction = IRP_MJ_CREATE)
include creates

theorem dispatchRequest_unread {fault : Fault ErrorId}
    (unread : DeviceCreateRequest.receive body = .error fault) :
    channel.dispatchRequest params targetIndex filePath body = Emitting.lift (.error fault) := by
  simp only [dispatchRequest, creates, if_true, processServerCreateDriveRequest, unread,
    Emitting.lift_error_bind]

variable {create : DeviceCreateRequest} (read : DeviceCreateRequest.receive body = .ok create)
include read

theorem dispatchRequest_refused (refused : channel.refuses params create) :
    channel.dispatchRequest params targetIndex filePath body =
      ⟨[.toServer (denial channel.serverDeviceIORequest)], .ok (channel, false, none)⟩ := by
  simp only [dispatchRequest, creates, if_true, processServerCreateDriveRequest, read,
    Emitting.lift_ok_bind, if_pos refused]
  rfl

theorem dispatchRequest_allowed (allowed : ¬ channel.refuses params create) :
    channel.dispatchRequest params targetIndex filePath body =
      pure (channel, true, some ⟨create.path, 0, 0, 0, 0⟩) := by
  simp only [dispatchRequest, creates, if_true, processServerCreateDriveRequest, read,
    Emitting.lift_ok_bind, if_neg allowed, Emitting.pure_bind]

end Create

section Request

variable {chunk : Chunk} {stream body : List Byte} {request : DeviceIORequest}
variable {asked : FileSystemChannel} (first : chunk.flags &&& CHANNEL_FLAG_FIRST ≠ 0)
variable (received : DeviceIORequest.receive stream = .ok (request, body))
variable (creates : Creates outside request)
variable (asks : { channel with serverDeviceIORequest := request } = asked)
include first received creates asks

/-- A create request that is refused is denied, and nothing else is said. -/
theorem processServerDriveIORequest_refused {create : DeviceCreateRequest}
    (read : DeviceCreateRequest.receive body = .ok create) (refused : asked.refuses params create) :
    channel.processServerDriveIORequest params outside chunk stream =
      ⟨[.toServer (denial request)], .ok (asked, false)⟩ := by
  have same : asked.serverDeviceIORequest = request := congrArg serverDeviceIORequest asks.symm
  have function : asked.serverDeviceIORequest.majorFunction = IRP_MJ_CREATE :=
    same ▸ creates.function
  rw [processServerDriveIORequest_create first received creates, asks,
    dispatchRequest_refused function read refused, same]
  rfl

theorem processServerDriveIORequest_allowed
    (allowed : ∀ create, DeviceCreateRequest.receive body = .ok create →
      ¬ asked.refuses params create)
    (next : FileSystemChannel × Bool → Emits FileSystemChannel)
    (sends : ∀ passed, ∀ output ∈ (next passed).outputs, ∃ sent, output = .toClient sent)
    (answer : Chunk) :
    Output.toServer answer ∉
      (channel.processServerDriveIORequest params outside chunk stream >>= next).outputs := by
  have same : asked.serverDeviceIORequest = request := congrArg serverDeviceIORequest asks.symm
  have function : asked.serverDeviceIORequest.majorFunction = IRP_MJ_CREATE :=
    same ▸ creates.function
  rw [processServerDriveIORequest_create first received creates, asks]
  intro denied
  cases read : DeviceCreateRequest.receive body with
  | error fault =>
    rw [dispatchRequest_unread function read] at denied
    cases denied
  | ok create =>
    rw [dispatchRequest_allowed function read (allowed create read), Emitting.pure_bind] at denied
    rcases Emitting.mem_bind denied with passed | ⟨value, _, sent⟩
    · obtain ⟨_, other⟩ := passRequestOn_toClient _ _ _ _ _ passed
      cases other
    · obtain ⟨_, other⟩ := sends value _ sent
      cases other

end Request

theorem processServerMessage_request {chunk : Chunk}
    (first : chunk.flags &&& CHANNEL_FLAG_FIRST ≠ 0) (room : 4 ≤ chunk.data.length)
    (packet : BitVec.ofNat 16 (leValue ((chunk.data.drop 2).take 2)) = PAKID_CORE_DEVICE_IOREQUEST) :
    channel.processServerMessage params outside chunk =
      ({ channel with serverPacketId := PAKID_CORE_DEVICE_IOREQUEST }.processServerDriveIORequest
          params outside chunk (chunk.data.drop 4) >>= fun (channel, sends) => do
        if sends then Emitting.emit (.toClient chunk)
        return channel) := by
  rw [processServerMessage, if_neg (not_control first)]
  simp only [if_pos first, receivePacketId_ok room, packet, Emitting.lift_ok_bind,
    Emitting.pure_bind]
  rfl

end FileSystemChannel

section Session

variable {params : ChannelParams} {outside : Outside} {before after : List ChannelInput}
variable {channel : FileSystemChannel} {chunk : Chunk} {opened : Opening}

theorem silent_of_cut (first : chunk.flags &&& CHANNEL_FLAG_FIRST ≠ 0)
    (short : chunk.data.length < 24)
    (packet : 4 ≤ chunk.data.length →
      BitVec.ofNat 16 (leValue ((chunk.data.drop 2).take 2)) = PAKID_CORE_DEVICE_IOREQUEST) :
    (FileSystemChannel.session params outside).output (some channel) (.server chunk) = [] := by
  show (channel.processServerMessage params outside chunk).outputs = []
  by_cases room : 4 ≤ chunk.data.length
  · have behind : (chunk.data.drop 4).length < 20 := by
      rw [List.length_drop]
      omega
    rw [FileSystemChannel.processServerMessage_request first room (packet room),
      FileSystemChannel.processServerDriveIORequest]
    simp only [decide_eq_true first, if_true, DeviceIORequest.receive_short behind]
    rfl
  · rw [FileSystemChannel.processServerMessage, if_neg (not_control first)]
    simp only [if_pos first, receivePacketId_short (Nat.lt_of_not_le room)]
    rfl

/-- Where the session is behind a request that is denied. -/
def asking (channel : FileSystemChannel) (request : DeviceIORequest) : FileSystemChannel :=
  { channel with serverPacketId := PAKID_CORE_DEVICE_IOREQUEST, serverDeviceIORequest := request }

section Denied

variable (denied : ToBeDenied params outside before channel chunk after opened)
include denied

theorem ToBeDenied.packet (room : 4 ≤ chunk.data.length) :
    BitVec.ofNat 16 (leValue ((chunk.data.drop 2).take 2)) = PAKID_CORE_DEVICE_IOREQUEST := by
  obtain ⟨packet, _, _⟩ := opening_eq denied.opening
  rw [messageChunks, List.flatMap_cons] at packet
  rw [← packet, drop_take_front room]

theorem ToBeDenied.creates : FileSystemChannel.Creates outside opened.request :=
  ⟨(opening_eq denied.opening).2.1, denied.unmanaged⟩

theorem ToBeDenied.received (room : 24 ≤ chunk.data.length) :
    DeviceIORequest.receive (chunk.data.drop 4) = .ok (opened.request, chunk.data.drop 24) := by
  obtain ⟨_, _, request⟩ := opening_eq denied.opening
  rw [messageChunks, List.flatMap_cons, DeviceIORequest.decode_front room] at request
  have behind : 20 ≤ (chunk.data.drop 4).length := by
    rw [List.length_drop]
    omega
  rw [DeviceIORequest.receive_ok behind, ← request, List.drop_drop]

theorem ToBeDenied.step (deniable : Deniable params channel chunk opened) :
    (FileSystemChannel.session params outside).step (some channel) (.server chunk) =
      (some (asking channel opened.request), [.toServer (denial opened.request)]) := by
  obtain ⟨known, create, read, asked⟩ := deniable
  have room : 24 ≤ chunk.data.length := by
    by_contra short
    have none : (chunk.data.drop 24).length < 32 := by
      rw [List.length_drop]
      omega
    rw [DeviceCreateRequest.receive_short none] at read
    cases read
  have done : channel.processServerMessage params outside chunk =
      ⟨[.toServer (denial opened.request)], .ok (asking channel opened.request)⟩ := by
    rw [FileSystemChannel.processServerMessage_request denied.first
        (Nat.le_trans (by decide) room) (denied.packet (Nat.le_trans (by decide) room)),
      @FileSystemChannel.processServerDriveIORequest_refused _ _
        { channel with serverPacketId := PAKID_CORE_DEVICE_IOREQUEST } _ _ _ _
        (asking channel opened.request) denied.first (denied.received room) denied.creates rfl _
        read ⟨known, asked⟩]
    rfl
  show ((channel.processServerMessage params outside chunk).result.toOption,
    (channel.processServerMessage params outside chunk).outputs) = _
  rw [done]
  rfl

/-- A request that is to be denied is denied exactly if it can be. -/
theorem ToBeDenied.answered_iff :
    Answered params outside channel chunk opened.request ↔
      Deniable params channel chunk opened := by
  constructor
  · intro answered
    by_cases room : 24 ≤ chunk.data.length
    · by_contra undeniable
      have said : Output.toServer (denial opened.request) ∈
          (channel.processServerMessage params outside chunk).outputs :=
        (show (channel.processServerMessage params outside chunk).outputs = _ from answered) ▸
          List.mem_singleton_self _
      rw [FileSystemChannel.processServerMessage_request denied.first
        (Nat.le_trans (by decide) room) (denied.packet (Nat.le_trans (by decide) room))] at said
      refine FileSystemChannel.processServerDriveIORequest_allowed denied.first
        (denied.received room) denied.creates rfl ?_ _ ?_ _ said
      · rintro create read ⟨known, asked⟩
        exact undeniable ⟨known, create, read, asked⟩
      · rintro ⟨_, _ | _⟩ output sent
        · cases sent
        · exact ⟨chunk, List.mem_singleton.mp sent⟩
    · rw [Answered, silent_of_cut denied.first (Nat.lt_of_not_le room) denied.packet] at answered
      cases answered
  · intro deniable
    exact congrArg Prod.snd (denied.step deniable)

end Denied

/-- A request for a drive that the proxy does not manage is going on. -/
structure Following (outside : Outside) (channel : FileSystemChannel) : Prop where
  packet : channel.serverPacketId = PAKID_CORE_DEVICE_IOREQUEST
  unmanaged : outside.isManagedDrive channel.serverDeviceIORequest.deviceId = false

theorem Following.passes (following : Following outside channel) (control : ¬ isControl chunk)
    (later : ¬ chunk.flags &&& CHANNEL_FLAG_FIRST ≠ 0) :
    (FileSystemChannel.session params outside).output (some channel) (.server chunk) =
      [.toClient chunk] := by
  show (channel.processServerMessage params outside chunk).outputs = _
  have still : ¬ (chunk.flags ≠ 0 ∧
      chunk.flags &&& ~~~(CHANNEL_FLAG_SUSPEND ||| CHANNEL_FLAG_RESUME) = 0) := control
  rw [FileSystemChannel.processServerMessage, if_neg still]
  simp only [if_neg later, Emitting.pure_bind, following.packet,
    FileSystemChannel.processServerDriveIORequest, decide_eq_false later, Bool.false_eq_true,
    if_false, following.unmanaged, if_true]
  rfl

theorem Following.client (following : Following outside channel) {next : FileSystemChannel}
    (goes : (FileSystemChannel.session params outside).next (some channel) (.client chunk) =
      some next) : Following outside next := by
  have result : (channel.processClientMessage params outside chunk).result.toOption = some next :=
    goes
  cases done : (channel.processClientMessage params outside chunk).result with
  | error fault =>
    rw [done] at result
    cases result
  | ok channel' =>
    rw [done] at result
    cases result
    have same := FileSystemChannel.processClientMessage_same chunk _ done
    exact ⟨same.packet.trans following.packet, by rw [same.request]; exact following.unmanaged⟩

theorem next_control (control : isControl chunk) :
    (FileSystemChannel.session params outside).next (some channel) (.server chunk) =
      some channel := by
  show (channel.processServerMessage params outside chunk).result.toOption = _
  have still : chunk.flags ≠ 0 ∧
      chunk.flags &&& ~~~(CHANNEL_FLAG_SUSPEND ||| CHANNEL_FLAG_RESUME) = 0 := control
  rw [FileSystemChannel.processServerMessage, if_pos still]
  rfl

theorem laterKept_ended (inputs : List ChannelInput) : LaterKept params outside none inputs := by
  induction inputs with
  | nil => trivial
  | cons input rest ih =>
    cases input with
    | client chunk => exact ih
    | server chunk =>
      rw [LaterKept]
      split
      · exact ih
      · split
        · trivial
        · exact ⟨nofun, fun _ => ih⟩

/-- The later chunks of a request are kept back exactly if there is none, or the session has
ended. -/
theorem laterKept_iff {state : Option FileSystemChannel}
    (following : ∀ channel ∈ state, Following outside channel) (inputs : List ChannelInput) :
    LaterKept params outside state inputs ↔ Unfollowed params outside state inputs := by
  induction inputs generalizing state with
  | nil => exact Iff.rfl
  | cons input rest ih =>
    cases input with
    | client chunk =>
      refine ih fun channel' reached => ?_
      cases state with
      | none => cases reached
      | some channel => exact (following channel rfl).client reached
    | server chunk =>
      rw [LaterKept, Unfollowed]
      by_cases control : isControl chunk
      · rw [if_pos control, if_pos control]
        refine ih fun channel' reached => ?_
        cases state with
        | none => cases reached
        | some channel =>
          rw [next_control control] at reached
          exact following channel' reached
      · rw [if_neg control, if_neg control]
        by_cases first : chunk.flags &&& CHANNEL_FLAG_FIRST ≠ 0
        · rw [if_pos first]
          exact ⟨fun _ => .inl first, fun _ => trivial⟩
        · rw [if_neg first, or_iff_right first]
          cases state with
          | none => exact ⟨fun _ => rfl, fun _ => ⟨nofun, fun _ => laterKept_ended rest⟩⟩
          | some channel =>
            rw [(following channel rfl).passes control first]
            exact ⟨fun kept => absurd (List.mem_singleton_self _) (kept.1 chunk), nofun⟩

/-- What is to be denied in a session is denied, and no chunk of it is passed on, exactly if each
such request can be denied and no chunk of it follows while the session goes on. -/
theorem enforced_iff (params : ChannelParams) (outside : Outside) (inputs : List ChannelInput) :
    Enforced params outside inputs ↔
      ∀ before chunk after channel opened, inputs = before ++ .server chunk :: after →
        ToBeDenied params outside before channel chunk after opened →
          Deniable params channel chunk opened ∧
            (chunk.flags &&& CHANNEL_FLAG_LAST = 0 →
              Unfollowed params outside (behind params outside channel chunk) after) := by
  refine forall_congr' fun before => forall_congr' fun chunk => forall_congr' fun after =>
    forall_congr' fun channel => forall_congr' fun opened => forall_congr' fun _ =>
    forall_congr' fun denied => ?_
  rw [denied.answered_iff]
  refine and_congr_right fun deniable => forall_congr' fun _ => laterKept_iff ?_ after
  intro next reached
  have goes : behind params outside channel chunk = some (asking channel opened.request) :=
    congrArg Prod.fst (denied.step deniable)
  rw [goes] at reached
  cases reached
  exact ⟨rfl, denied.unmanaged⟩

end Session

/-- A session that reads files only, and what is not a part of it. -/
def readOnlyParams : ChannelParams := ⟨true, false, false, false, false, false, true⟩

def outsideNothing : Outside :=
  ⟨id, fun _ => false, fun _ _ _ => [], fun _ => [], fun _ => .error .outOfBounds⟩

def wholeChunk (data : List Byte) : Chunk :=
  ⟨data.length, CHANNEL_FLAG_FIRST ||| CHANNEL_FLAG_LAST, data⟩

/-- The user is logged on, and the client announces a drive. -/
def driveKnown : List ChannelInput :=
  [.server (wholeChunk (sharedHeader PAKID_CORE_USER_LOGGEDON)),
    .client (wholeChunk (sharedHeader PAKID_CORE_DEVICELIST_ANNOUNCE ++ uint32 1 ++ drive.bytes))]

/-- The attributes of a file are asked for, with a disposition. -/
def attributesAsked (createDisposition : BitVec 32) : Chunk :=
  wholeChunk (sharedHeader PAKID_CORE_DEVICE_IOREQUEST ++
    DeviceIORequest.bytes ⟨drive.id, 0, 7, IRP_MJ_CREATE, 0⟩ ++ uint32 0x80 ++ leBytes 8 0 ++
    uint32 0 ++ uint32 0 ++ uint32 createDisposition ++ uint32 0 ++ uint32 4 ++ [0x41, 0, 0, 0])

/-- A file is overwritten though nothing may be written. -/
theorem overwrite_passes :
    ¬ Enforced readOnlyParams outsideNothing
      (driveKnown ++ [.server (attributesAsked Smb2.FILE_OVERWRITE_IF)]) := by
  intro enforced
  have asked : opening (attributesAsked Smb2.FILE_OVERWRITE_IF).data =
      some ⟨⟨drive.id, 0, 7, IRP_MJ_CREATE, 0⟩, 0x80, Smb2.FILE_OVERWRITE_IF, 0, 4, [0x41, 0, 0, 0]⟩ := by
    decide
  have alive : (reached readOnlyParams outsideNothing driveKnown).isSome := by decide
  obtain ⟨answered, _⟩ := enforced driveKnown (attributesAsked Smb2.FILE_OVERWRITE_IF) []
    ((reached readOnlyParams outsideNothing driveKnown).get alive) _ rfl
    ⟨(Option.some_get alive).symm, by decide, asked, by decide, rfl, by decide⟩
  have passed : (FileSystemChannel.session readOnlyParams outsideNothing).output
      (reached readOnlyParams outsideNothing driveKnown)
      (.server (attributesAsked Smb2.FILE_OVERWRITE_IF)) =
      [.toClient (attributesAsked Smb2.FILE_OVERWRITE_IF)] := by
    decide
  cases answered

end Redemption.Rdpdr
