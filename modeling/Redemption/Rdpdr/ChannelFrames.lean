import Redemption.Rdpdr.FileSystemChannel

/-! What a response of the client changes in the channel, and what it leaves. -/
namespace Redemption.Rdpdr

open Redemption.Foundation Redemption.Channels Redemption.Utils

/-- A request without what remains of it. -/
def RequestInfo.asked (info : RequestInfo) : RequestInfo := { info with remaining := 0 }

namespace FileSystemChannel

variable {params : ChannelParams} {outside : Outside} {channel : FileSystemChannel}

/-- The files are written anew, and what remains of the requests. -/
structure OnlyFiles (channel channel' : FileSystemChannel) : Prop where
  same : channel' =
    { channel with targets := channel'.targets, requests := channel'.requests }
  asked : channel'.requests.map RequestInfo.asked = channel.requests.map RequestInfo.asked

namespace OnlyFiles

theorem unchanged : OnlyFiles channel channel := ⟨rfl, rfl⟩

theorem andThen {first second third : FileSystemChannel} (front : OnlyFiles first second)
    (back : OnlyFiles second third) : OnlyFiles first third :=
  ⟨by rw [back.same, front.same], back.asked.trans front.asked⟩

theorem targets (targets : List TargetInfo) : OnlyFiles channel { channel with targets } :=
  ⟨rfl, rfl⟩

theorem setTarget (index : Nat) (target : TargetInfo) :
    OnlyFiles channel (channel.setTarget index target) := ⟨rfl, rfl⟩

theorem setRequest {index : Nat} {info : RequestInfo} (found : channel.requests[index]? = some info)
    (remaining : Nat) : OnlyFiles channel (channel.setRequest index { info with remaining }) := by
  refine ⟨rfl, ?_⟩
  rw [FileSystemChannel.setRequest, List.map_set]
  refine List.ext_getElem? fun other => ?_
  rw [List.getElem?_set]
  split
  · next same =>
    subst same
    obtain ⟨inside, _⟩ := List.getElem?_eq_some_iff.mp found
    rw [List.length_map, if_pos inside, List.getElem?_map, found]
    rfl
  · rfl

end OnlyFiles

theorem continueReadResponse_only {requestIndex : Nat} {info : RequestInfo}
    (found : channel.requests[requestIndex]? = some info) (targetIndex : Option Nat)
    (chunk : List Byte) :
    OnlyFiles channel (channel.continueReadResponse requestIndex info targetIndex chunk) := by
  unfold continueReadResponse
  split
  · exact .unchanged
  · split
    · exact (OnlyFiles.setTarget _ _).andThen
        (@OnlyFiles.setRequest (channel.setTarget _ _) _ _ found _)
    · exact .unchanged

theorem createResponded_only (info : RequestInfo) (chunk : List Byte) :
    (channel.createResponded info chunk).Ensures (OnlyFiles channel) := by
  refine Emitting.ensures_bind fun _ => Emitting.ensures_ite (fun _ => ?_) fun _ => ?_
  · refine Emitting.ensures_ite (fun _ => Emitting.ensures_bind fun _ => ?_) fun _ => ?_
    all_goals
      split
      · exact Emitting.ensures_pure .unchanged
      · exact Emitting.ensures_pure (OnlyFiles.targets _)
  · exact Emitting.ensures_pure .unchanged

theorem closeResponded_only (info : RequestInfo) (targetIndex : Option Nat) :
    (channel.closeResponded outside info targetIndex).Ensures (OnlyFiles channel) := by
  unfold closeResponded
  split
  · exact Emitting.ensures_pure .unchanged
  · intro _ result
    cases result
    exact OnlyFiles.targets _

theorem readResponded_only {requestIndex : Nat} {info : RequestInfo}
    (found : channel.requests[requestIndex]? = some info) (targetIndex : Option Nat)
    (chunk : List Byte) :
    (channel.readResponded requestIndex info targetIndex chunk).Ensures (OnlyFiles channel) := by
  refine Emitting.ensures_bind fun (length, data) => ?_
  have kept := OnlyFiles.setRequest found length.toNat
  have again : (channel.setRequest requestIndex
      { info with remaining := length.toNat }).requests[requestIndex]? =
      some { info with remaining := length.toNat } := by
    obtain ⟨inside, _⟩ := List.getElem?_eq_some_iff.mp found
    exact List.getElem?_set_self inside
  refine Emitting.ensures_ite (fun _ => ?_) fun _ => Emitting.ensures_pure kept
  split
  · exact Emitting.ensures_pure kept
  · refine Emitting.ensures_ite (fun _ => Emitting.ensures_ite (fun _ => ?_) fun _ => ?_) fun _ => ?_
    · exact Emitting.ensures_pure
        ((kept.andThen (OnlyFiles.setRequest again _)).andThen (OnlyFiles.setTarget _ _))
    · exact Emitting.ensures_pure (kept.andThen (OnlyFiles.setTarget _ _))
    · exact Emitting.ensures_pure (kept.andThen (OnlyFiles.setTarget _ _))

theorem writeResponded_only (targetIndex : Option Nat) :
    OnlyFiles channel (channel.writeResponded targetIndex) := by
  unfold writeResponded
  split
  · exact .unchanged
  · split
    · exact OnlyFiles.setTarget _ _
    · exact .unchanged

theorem queryVolumeInformationResponded_only (fsInformationClass : BitVec 32)
    (chunk : List Byte) :
    (channel.queryVolumeInformationResponded fsInformationClass chunk).Ensures
      (OnlyFiles channel) :=
  Emitting.ensures_ite
    (fun _ => Emitting.ensures_bind fun _ => Emitting.ensures_pure .unchanged)
    fun _ => Emitting.ensures_pure .unchanged

theorem queryInformationResponded_only (fsInformationClass fileId : BitVec 32)
    (chunk : List Byte) :
    (channel.queryInformationResponded fsInformationClass fileId chunk).Ensures
      (OnlyFiles channel) := by
  refine Emitting.ensures_ite
    (fun _ => Emitting.ensures_bind fun _ => Emitting.ensures_pure .unchanged)
    fun _ => Emitting.ensures_ite (fun _ => ?_) fun _ => Emitting.ensures_pure .unchanged
  refine Emitting.ensures_bind fun _ => Emitting.ensures_ite (fun _ => ?_)
    fun _ => Emitting.ensures_pure .unchanged
  refine Emitting.ensures_bind fun _ => ?_
  dsimp only
  split
  · exact Emitting.ensures_pure .unchanged
  · exact Emitting.ensures_pure (OnlyFiles.setTarget _ _)

theorem directoryControlResponded_only (fsInformationClass : BitVec 32) (chunk : List Byte) :
    (channel.directoryControlResponded fsInformationClass chunk).Ensures (OnlyFiles channel) := by
  refine Emitting.ensures_ite
    (fun _ => Emitting.ensures_bind fun _ => Emitting.ensures_pure .unchanged)
    fun _ => Emitting.ensures_ite (fun _ => ?_) fun _ => Emitting.ensures_pure .unchanged
  refine Emitting.ensures_bind fun _ => ?_
  exact Emitting.ensures_ite
    (fun _ => Emitting.ensures_bind fun _ => Emitting.ensures_pure .unchanged)
    fun _ => Emitting.ensures_pure .unchanged

/-- Whatever is answered, only the files are written anew, and what remains of the request. -/
theorem dispatchResponse_only {requestIndex : Nat} {info : RequestInfo}
    (found : channel.requests[requestIndex]? = some info) (targetIndex : Option Nat)
    (chunk : List Byte) :
    (channel.dispatchResponse outside requestIndex info targetIndex chunk).Ensures
      (OnlyFiles channel) := by
  refine Emitting.ensures_ite (fun _ => createResponded_only _ _) fun _ => ?_
  refine Emitting.ensures_ite (fun _ => closeResponded_only _ _) fun _ => ?_
  refine Emitting.ensures_ite (fun _ => readResponded_only found _ _) fun _ => ?_
  refine Emitting.ensures_ite
    (fun _ => Emitting.ensures_pure (writeResponded_only _)) fun _ => ?_
  refine Emitting.ensures_ite (fun _ => queryVolumeInformationResponded_only _ _) fun _ => ?_
  refine Emitting.ensures_ite (fun _ => queryInformationResponded_only _ _ _) fun _ => ?_
  refine Emitting.ensures_ite (fun _ => directoryControlResponded_only _ _) fun _ => ?_
  refine Emitting.ensures_ite (fun _ => ?_) fun _ => Emitting.ensures_pure .unchanged
  intro _ result
  cases result
  exact .unchanged

/-- The message of the server that goes on is the same. -/
structure SameRequest (channel channel' : FileSystemChannel) : Prop where
  packet : channel'.serverPacketId = channel.serverPacketId
  request : channel'.serverDeviceIORequest = channel.serverDeviceIORequest

theorem SameRequest.unchanged : SameRequest channel channel := ⟨rfl, rfl⟩

theorem SameRequest.andThen {first second third : FileSystemChannel}
    (front : SameRequest first second) (back : SameRequest second third) :
    SameRequest first third :=
  ⟨back.packet.trans front.packet, back.request.trans front.request⟩

theorem OnlyFiles.sameRequest {channel' : FileSystemChannel} (only : OnlyFiles channel channel') :
    SameRequest channel channel' :=
  ⟨by rw [only.same], by rw [only.same]⟩

theorem forgetRequest_same (flags : BitVec 32) (requestIndex : Nat) :
    SameRequest channel (channel.forgetRequest flags requestIndex) := by
  unfold forgetRequest
  split
  · exact ⟨rfl, rfl⟩
  · exact .unchanged

theorem passResponseOn_same (chunk : Chunk) (offset : Nat) :
    (channel.passResponseOn chunk offset).Ensures fun passed => SameRequest channel passed.1 := by
  refine Emitting.ensures_bind fun _ => Emitting.ensures_ite (fun _ => ?_) fun _ => ?_
  · exact Emitting.ensures_bind fun _ => Emitting.ensures_pure ⟨rfl, rfl⟩
  · refine Emitting.ensures_bind fun _ => Emitting.ensures_bind fun _ => ?_
    refine Emitting.ensures_ite (fun _ => ?_) fun _ => Emitting.ensures_pure ⟨rfl, rfl⟩
    exact Emitting.ensures_bind fun _ => Emitting.ensures_pure ⟨rfl, rfl⟩

/-- The request that a response answers, and where it is kept. -/
def answers (channel : FileSystemChannel) (response : DeviceIOResponse) :
    Option (Nat × RequestInfo) :=
  (channel.findRequestInfo response.deviceId response.completionId).bind fun index =>
    (channel.requests[index]?).map (index, ·)

theorem answers_kept {response : DeviceIOResponse} {requestIndex : Nat} {info : RequestInfo}
    (answered : channel.answers response = some (requestIndex, info)) :
    channel.requests[requestIndex]? = some info := by
  obtain ⟨index, _, found⟩ := Option.bind_eq_some_iff.mp answered
  obtain ⟨_, here, same⟩ := Option.map_eq_some_iff.mp found
  cases same
  exact here

theorem processClientDriveIOResponse_first {chunk : Chunk} {stream body : List Byte}
    {response : DeviceIOResponse} {begun : FileSystemChannel}
    (first : chunk.flags &&& CHANNEL_FLAG_FIRST ≠ 0)
    (received : DeviceIOResponse.receive stream = .ok (response, body))
    (begins : { channel with clientDeviceIOResponse := response } = begun) :
    channel.processClientDriveIOResponse outside chunk stream =
      match begun.answers response with
      | none => pure (begun, true)
      | some (requestIndex, info) =>
        begun.dispatchResponse outside requestIndex info
            (begun.findTargetInfo response.deviceId info.fileId) body >>= fun next =>
          (next.forgetRequest chunk.flags requestIndex).passResponseOn chunk
            (chunk.data.length - stream.length) := by
  subst begins
  generalize found : answers _ response = answered
  simp only [answers] at found
  cases answered with
  | none =>
    simp only [processClientDriveIOResponse, decide_eq_true first, if_true, received,
      Emitting.lift_ok_bind, Emitting.pure_bind, found]
  | some answered =>
    simp only [processClientDriveIOResponse, decide_eq_true first, if_true, received,
      Emitting.lift_ok_bind, Emitting.pure_bind, Bool.true_eq_false, if_false, found]

theorem processClientDriveIOResponse_later {chunk : Chunk} {stream : List Byte}
    (later : ¬ chunk.flags &&& CHANNEL_FLAG_FIRST ≠ 0) :
    channel.processClientDriveIOResponse outside chunk stream =
      match channel.answers channel.clientDeviceIOResponse with
      | none => pure (channel, true)
      | some (requestIndex, info) =>
        let next := if info.majorFunction = IRP_MJ_READ then
            channel.continueReadResponse requestIndex info
              (channel.findTargetInfo channel.clientDeviceIOResponse.deviceId info.fileId) stream
          else channel
        pure (next.forgetRequest chunk.flags requestIndex, true) := by
  generalize found : channel.answers channel.clientDeviceIOResponse = answered
  rw [answers] at found
  cases answered with
  | none =>
    simp only [processClientDriveIOResponse, decide_eq_false later, Bool.false_eq_true, if_false,
      Emitting.pure_bind, found]
  | some answered =>
    simp only [processClientDriveIOResponse, decide_eq_false later, Bool.false_eq_true, if_false,
      Emitting.pure_bind, if_true, found]

theorem processClientDriveIOResponse_cut {chunk : Chunk} {stream : List Byte}
    {fault : Fault ErrorId} (first : chunk.flags &&& CHANNEL_FLAG_FIRST ≠ 0)
    (cut : DeviceIOResponse.receive stream = .error fault) :
    channel.processClientDriveIOResponse outside chunk stream = Emitting.lift (.error fault) := by
  simp only [processClientDriveIOResponse, decide_eq_true first, if_true, cut,
    Emitting.lift_error_bind]

theorem processClientDriveIOResponse_same (chunk : Chunk) (stream : List Byte) :
    (channel.processClientDriveIOResponse outside chunk stream).Ensures fun passed =>
      SameRequest channel passed.1 := by
  by_cases first : chunk.flags &&& CHANNEL_FLAG_FIRST ≠ 0
  · cases received : DeviceIOResponse.receive stream with
    | error fault =>
      rw [processClientDriveIOResponse_cut first received]
      exact Emitting.ensures_lift nofun
    | ok begun =>
      obtain ⟨response, body⟩ := begun
      obtain ⟨begun, begins⟩ : ∃ begun, { channel with clientDeviceIOResponse := response } = begun :=
        ⟨_, rfl⟩
      have start : SameRequest channel begun := begins ▸ ⟨rfl, rfl⟩
      rw [processClientDriveIOResponse_first first received begins]
      split
      · exact Emitting.ensures_pure start
      · next requestIndex info answered =>
        refine (dispatchResponse_only (answers_kept answered) _ _).bind fun next only => ?_
        refine (passResponseOn_same chunk _).mono fun passed same => ?_
        exact start.andThen ((only.sameRequest.andThen (forgetRequest_same _ _)).andThen same)
  · rw [processClientDriveIOResponse_later first]
    split
    · exact Emitting.ensures_pure .unchanged
    · next requestIndex info answered =>
      refine Emitting.ensures_pure (SameRequest.andThen ?_ (forgetRequest_same _ _))
      split
      · exact (continueReadResponse_only (answers_kept answered) _ _).sameRequest
      · exact .unchanged

section Packets

variable (params outside channel)

/-- What is made of a packet of the client whose id is known. -/
def processClientPacket (chunk : Chunk) (stream : List Byte) : Emits FileSystemChannel :=
  if channel.clientPacketId = PAKID_CORE_DEVICELIST_ANNOUNCE then do
    let manager ← Emits.ofManager (channel.manager.processClientDeviceListAnnounceRequest
      (params.manager channel.userLoggedOn) chunk.flags stream)
    return { channel with manager }
  else if channel.clientPacketId = PAKID_CORE_DEVICELIST_REMOVE then do
    let manager ← Emits.ofManager (channel.manager.processClientDriveDeviceListRemove stream)
    return { channel with manager }
  else if channel.clientPacketId = PAKID_CORE_DEVICE_IOCOMPLETION then do
    let (channel, sends) ← channel.processClientDriveIOResponse outside chunk stream
    if sends then Emitting.emit (.toServer chunk)
    return channel
  else if channel.clientPacketId = PAKID_CORE_CLIENT_CAPABILITY then do
    let (data, version02) ← Emitting.lift (outside.coreCapabilityResponse chunk.data)
    Emitting.emit (.toServer { chunk with data })
    return { channel with deviceCapabilityVersion02Supported :=
      channel.deviceCapabilityVersion02Supported || version02 }
  else do
    Emitting.emit (.toServer chunk)
    return channel

theorem processClientMessage_eq (chunk : Chunk) :
    channel.processClientMessage params outside chunk =
      if chunk.flags &&& CHANNEL_FLAG_FIRST ≠ 0 then
        Emitting.lift (receivePacketId chunk.data) >>= fun (packetId, stream) =>
          { channel with clientPacketId := packetId }.processClientPacket params outside chunk stream
      else channel.processClientPacket params outside chunk chunk.data := by
  rw [processClientMessage]
  by_cases first : chunk.flags &&& CHANNEL_FLAG_FIRST ≠ 0
  · rfl
  · rfl

end Packets

theorem processClientPacket_same (chunk : Chunk) (stream : List Byte) :
    (channel.processClientPacket params outside chunk stream).Ensures (SameRequest channel) := by
  refine Emitting.ensures_ite
    (fun _ => Emitting.ensures_bind fun _ => Emitting.ensures_pure ⟨rfl, rfl⟩) fun _ => ?_
  refine Emitting.ensures_ite
    (fun _ => Emitting.ensures_bind fun _ => Emitting.ensures_pure ⟨rfl, rfl⟩) fun _ => ?_
  refine Emitting.ensures_ite (fun _ => ?_) fun _ => ?_
  · refine (processClientDriveIOResponse_same chunk stream).bind fun passed same => ?_
    exact Emitting.ensures_ite (fun _ => Emitting.ensures_bind fun _ => Emitting.ensures_pure same)
      fun _ => Emitting.ensures_pure same
  · refine Emitting.ensures_ite (fun _ => ?_) fun _ => ?_
    · exact Emitting.ensures_bind fun _ => Emitting.ensures_bind fun _ =>
        Emitting.ensures_pure ⟨rfl, rfl⟩
    · exact Emitting.ensures_bind fun _ => Emitting.ensures_pure .unchanged

/-- A message of the client leaves the message of the server that goes on. -/
theorem processClientMessage_same (chunk : Chunk) :
    (channel.processClientMessage params outside chunk).Ensures (SameRequest channel) := by
  rw [processClientMessage_eq]
  refine Emitting.ensures_ite (fun _ => Emitting.ensures_bind fun (packetId, stream) => ?_)
    fun _ => processClientPacket_same _ _
  have begun : SameRequest channel { channel with clientPacketId := packetId } := ⟨rfl, rfl⟩
  exact (processClientPacket_same chunk stream).mono fun _ same => begun.andThen same

end FileSystemChannel

end Redemption.Rdpdr
