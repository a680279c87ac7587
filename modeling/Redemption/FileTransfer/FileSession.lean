import Redemption.FileTransfer.Replies
import Redemption.FileTransfer.Handshake
import Redemption.Foundation.Machine

/-! The transfer between a client that asks for files and a server that sends them: each request is
answered once. -/
namespace Redemption.FileTransfer

open Redemption.Foundation

/-- What a message of the server calls. -/
def FileList.receive (list : FileList) :
    ServerMessage → Checked FileListError (FileList × TransferResult)
  | .fileHeader accepted => list.receiveVncFileRequestResponse accepted
  | .filePacket data => list.receiveVncFileData data
  | .endOfFile => list.receiveVncEndOfFile
  | .abortFileTransfer => list.receiveVncFileAbort

/-- The transfer and the server; the stream ids of the requests of the client, and of the responses
to it. -/
structure FileSession where
  list : FileList
  wire : Wire
  requests : List CbStreamId
  responses : List CbStreamId

/-- What can happen next: the client asks or stops, the server reads a packet or sends, or one of its
messages comes. A choice of the server is part of it. -/
inductive SessionEvent where
  | request (req : FileContentsRequest)
  | stop
  | serve (choice : Bool)
  | push (data : List Byte)
  | finish (byAbort : Bool)
  | deliver

namespace FileSession

def start (files : Files) : FileSession := ⟨.make files, .start, [], []⟩

/-- The result of a call is sent, to both sides. -/
def absorb (session : FileSession) (called : Checked FileListError (FileList × TransferResult)) :
    FileSession × Checked FileListError TransferResult :=
  match called with
  | .error fault => (session, .error fault)
  | .ok (list, result) =>
    ({ session with
      list
      wire := session.wire.postAll result.vncData
      responses := session.responses ++ FileList.answered result }, .ok result)

def step (session : FileSession) : SessionEvent → FileSession × Checked FileListError TransferResult
  | .request req =>
    absorb { session with requests := session.requests ++ [req.streamId] }
      (session.list.rdpRequestedFile req)
  | .stop => session.absorb session.list.stopFileTransfer
  | .serve choice => ({ session with wire := session.wire.serve choice }, .ok .empty)
  | .push data => ({ session with wire := session.wire.push data }, .ok .empty)
  | .finish byAbort => ({ session with wire := session.wire.finish byAbort }, .ok .empty)
  | .deliver =>
    match session.wire.toClient with
    | [] => (session, .ok .empty)
    | (_, message) :: _ =>
      absorb { session with wire := session.wire.taken } (session.list.receive message)

def machine : Machine FileSession SessionEvent (Checked FileListError TransferResult) := ⟨step⟩

/-- A request has another stream id than the one that waits for its response. -/
def Distinct (session : FileSession) : SessionEvent → Prop
  | .request req => req.streamId ∉ session.requests.drop session.responses.length
  | _ => True

/-- The events that the transfer is ready for. Another file is asked for when the server is done and
heard to the end, and not by two requests while the first file is to be rejected; a file is rejected
for another one only when the server does not send it, and the name of the other leaves room. -/
def Foreseen (session : FileSession) : SessionEvent → Prop
  | .request req =>
    (session.list.lindex ≠ invalidLindex → session.list.status ≠ .waitAcceptAndReject) ∧
      (session.list.status = .nothing → session.list.startsFile req = true →
        session.wire.phase = .idle ∧ session.wire.toClient = [])
  | .deliver =>
    session.wire.toClient ≠ [] → session.list.status = .waitAcceptAndReject →
      session.list.lindex ≠ invalidLindex →
        session.wire.toClient.head?.map Prod.snd ≠ some (.fileHeader true) ∧
          ∀ file ∈ session.list.file? session.list.lindex, file.name.length < maxPathLength
  | _ => True

/-- After the step, the responses are those to the first requests in order, all but one of them at
least, and all of them once the server has answered. -/
structure Answers (session : FileSession) (event : SessionEvent) : Prop where
  runs : (machine.output session event).isOk = true
  pending : (machine.next session event).responses <+: (machine.next session event).requests
  single : (machine.next session event).requests.length ≤
    (machine.next session event).responses.length + 1
  settled : (machine.next session event).wire.Settled →
    (machine.next session event).responses = (machine.next session event).requests

/-- A request comes while another one waits for the end of an aborted transfer. -/
def Twice (session : FileSession) : SessionEvent → Prop
  | .request _ => session.list.status = .waitAbortResponse ∧ session.list.lindex ≠ invalidLindex
  | _ => False

instance (session : FileSession) (event : SessionEvent) : Decidable (session.Distinct event) := by
  unfold Distinct
  split <;> infer_instance

instance (session : FileSession) (event : SessionEvent) : Decidable (session.Foreseen event) := by
  unfold Foreseen
  split <;> infer_instance

instance (session : FileSession) (event : SessionEvent) : Decidable (session.Twice event) := by
  unfold Twice
  split <;> infer_instance

/-- What holds between two events. -/
structure Joint (session : FileSession) : Prop where
  inv : session.list.Inv
  agree : session.wire.Agree session.list.status

/-- Each request has its response, or is the one that waits. -/
def Accounted (session : FileSession) : Prop :=
  session.responses ++ session.list.waiting = session.requests

end FileSession

namespace FileList

variable {list : FileList}

theorem Requested.asked {req : FileContentsRequest} {list' : FileList} {packets : List FtPacket}
    (requested : Requested list req list' packets) :
    Asked (list.status = .waitAbortResponse ∧ list.lindex ≠ invalidLindex) list.status
      list'.status packets := by
  unfold Requested at requested
  cases status : list.status with
  | nothing =>
    rw [status] at requested
    rcases requested with ⟨_, next, rfl⟩ | ⟨_, next, path, rfl⟩
    · rw [next]
      exact .idle
    · rw [next]
      exact .started path
  | waitAcceptAndContinue =>
    rw [status] at requested
    obtain ⟨next, rfl⟩ := requested
    rw [next]
    exact .rejects
  | waitAcceptAndReject =>
    rw [status] at requested
    obtain ⟨next, rfl⟩ := requested
    rw [next]
    exact .queued
  | transferInProgress =>
    rw [status] at requested
    obtain ⟨next, rfl⟩ := requested
    exact .aborts next
  | waitAbortResponse =>
    rw [status] at requested
    obtain ⟨next, rfl | ⟨rfl, pending⟩⟩ := requested
    · exact .waits next
    · exact .again ⟨rfl, pending⟩ next
  | finished =>
    rw [status] at requested
    exact requested.elim

/-- A file is asked for at once by nothing but the request of a file. -/
theorem Requested.starts {req : FileContentsRequest} {list' : FileList} {packets : List FtPacket}
    (requested : Requested list req list' packets) (idle : list.status = .nothing)
    (some' : packets ≠ []) : list.startsFile req = true := by
  unfold Requested at requested
  rw [idle] at requested
  rcases requested with ⟨_, _, none⟩ | ⟨starts, _⟩
  · exact absurd none some'
  · exact starts

theorem ignored_leads (inv : list.Inv)
    {called : Checked FileListError (FileList × TransferResult)}
    (ignored : called = .ok (list, .empty)) : LeadsTo list called list.status [] :=
  ⟨list, .empty, ignored, inv, rfl, rfl, rfl⟩

theorem stopFileTransfer_asked (inv : list.Inv) :
    ∃ status packets, Asked False list.status status packets ∧
      LeadsTo list list.stopFileTransfer status packets ∧
        (list.status = .nothing → packets = []) := by
  have leads := stopFileTransfer_leads inv
  cases status : list.status with
  | nothing =>
    rw [status] at leads
    refine ⟨_, _, .idle, ?_, fun _ => rfl⟩
    rw [← status]
    exact ignored_leads inv leads
  | waitAcceptAndContinue =>
    rw [status] at leads
    exact ⟨_, _, .rejects, leads, nofun⟩
  | waitAcceptAndReject =>
    rw [status] at leads
    refine ⟨_, _, .queued, ?_, nofun⟩
    rw [← status]
    exact ignored_leads inv leads
  | transferInProgress =>
    rw [status] at leads
    exact ⟨_, _, .aborts (.inl rfl), leads, nofun⟩
  | waitAbortResponse =>
    rw [status] at leads
    refine ⟨_, _, .waits (.inl rfl), ?_, nofun⟩
    rw [← status]
    exact ignored_leads inv leads
  | finished => exact absurd status inv.unfinished

theorem end_replies (inv : list.Inv) {message : ServerMessage} (ends : message.Ends)
    (runs : list.status = .transferInProgress ∨ list.status = .waitAbortResponse) :
    ∃ status packets, Reply list.status message status packets ∧
      LeadsTo list (list.receive message) status packets := by
  rcases runs with transfers | aborts
  · have leads : LeadsTo list (list.receive message) .nothing [] := by
      rcases ends with rfl | rfl
      · have called : list.receive .endOfFile = list.endTransfer := by
          simp only [receive, receiveVncEndOfFile, transfers]
        rw [called]
        exact endTransfer_leads inv transfers
      · exact aborted_leads inv transfers
    rw [transfers]
    exact ⟨_, _, .finished ends, leads⟩
  · have called : list.receive message = list.abortAnswered := by
      rcases ends with rfl | rfl
      · simp only [receive, receiveVncEndOfFile, aborts]
      · simp only [receive, receiveVncFileAbort, receiveVncEndOfFile, aborts]
    rw [called, aborts]
    rcases abortAnswered_leads inv aborts with done | ⟨path, again⟩
    · exact ⟨_, _, .aborted ends, done⟩
    · exact ⟨_, _, .restarted ends path, again⟩

/-- A message that can come, and that the transfer is ready for, does what the handshake allows. -/
theorem receive_replies (inv : list.Inv) {message : ServerMessage}
    (heard : Audible list.status message)
    (ready : list.status = .waitAcceptAndReject → list.lindex ≠ invalidLindex →
      message ≠ .fileHeader true ∧
        ∀ file ∈ list.file? list.lindex, file.name.length < maxPathLength) :
    ∃ status packets, Reply list.status message status packets ∧
      LeadsTo list (list.receive message) status packets := by
  cases status : list.status with
  | nothing =>
    have ignored : list.receive message = .ok (list, .empty) := by
      cases message with
      | fileHeader accepted => exact response_ignored (.inl status) accepted
      | filePacket data =>
        refine data_ignored inv ?_ data
        rw [status]
        exact TransferStatus.noConfusion
      | endOfFile => simp only [receive, receiveVncEndOfFile, status]
      | abortFileTransfer => simp only [receive, receiveVncFileAbort, status]
    refine ⟨_, _, .unwanted message, ?_⟩
    rw [← status]
    exact ignored_leads inv ignored
  | waitAcceptAndContinue =>
    rw [status] at heard
    obtain ⟨accepted, rfl⟩ := heard
    cases accepted with
    | true => exact ⟨_, _, .accepted, accepted_leads inv status⟩
    | false => exact ⟨_, _, .refused, refused_leads inv status⟩
  | waitAcceptAndReject =>
    rw [status] at heard
    obtain ⟨accepted, rfl⟩ := heard
    by_cases free : list.lindex = invalidLindex
    · exact ⟨_, _, .rejected accepted, rejected_leads inv status free accepted⟩
    · obtain ⟨refused, short⟩ := ready status free
      obtain ⟨path, leads⟩ := replaced_leads inv status free short accepted
      cases accepted with
      | true => exact absurd rfl refused
      | false => exact ⟨_, _, .replaced path, leads⟩
  | transferInProgress =>
    rw [status] at heard
    rcases heard with ⟨data, rfl⟩ | ends
    · rcases data_leads inv status data with more | enough | beyond
      · exact ⟨_, _, .received data, more⟩
      · exact ⟨_, _, .sufficed data, enough⟩
      · exact ⟨_, _, .exceeded data, beyond⟩
    · have replies := end_replies inv ends (.inl status)
      rw [status] at replies
      exact replies
  | waitAbortResponse =>
    rw [status] at heard
    rcases heard with ⟨data, rfl⟩ | ends
    · refine ⟨_, _, .late data, ?_⟩
      rw [← status]
      refine ignored_leads inv (data_ignored inv ?_ data)
      rw [status]
      exact TransferStatus.noConfusion
    · have replies := end_replies inv ends (.inr status)
      rw [status] at replies
      exact replies
  | finished => exact absurd status inv.unfinished

end FileList

namespace FileSession

variable {session : FileSession}

/-- What a step does that the transfer is ready for: it fails nowhere, and is one of the
handshake. -/
structure Stays (session : FileSession) (twice : Prop)
    (stepped : FileSession × Checked FileListError TransferResult) : Prop where
  runs : stepped.2.isOk = true
  inv : stepped.1.list.Inv
  handshake : Handshake twice session.list.status session.wire stepped.1.list.status stepped.1.wire

theorem absorb_stays {called : Checked FileListError (FileList × TransferResult)} {twice : Prop}
    {status : TransferStatus} {packets : List FtPacket} {wire : Wire}
    (leads : session.list.LeadsTo called status packets)
    (handshake : Handshake twice session.list.status session.wire status (wire.postAll packets)) :
    Stays session twice (absorb { session with wire } called) ∧
      (session.Accounted → (absorb { session with wire } called).1.Accounted) := by
  obtain ⟨list', result, left⟩ := leads
  rw [left.called]
  refine ⟨⟨rfl, left.inv, ?_⟩, ?_⟩
  · simp only [absorb, left.packets, left.status]
    exact handshake
  · intro accounted
    simp only [Accounted, absorb, List.append_assoc, left.answers]
    exact accounted

theorem request_stays (joint : session.Joint) {req : FileContentsRequest}
    (foreseen : session.Foreseen (.request req)) :
    Stays session (session.Twice (.request req)) (session.step (.request req)) ∧
      (session.Distinct (.request req) → session.Accounted →
        (session.step (.request req)).1.Accounted) := by
  have spec : ∃ list' result, session.list.rdpRequestedFile req = .ok (list', result) ∧
      list'.Inv ∧ ((session.list.lindex ≠ invalidLindex → session.list.streamId ≠ req.streamId) →
        FileList.answered result ++ list'.waiting = session.list.waiting ++ [req.streamId]) ∧
      FileList.Requested session.list req list' result.vncData := by
    by_cases free : session.list.lindex = invalidLindex
    · obtain ⟨list', result, called, inv, answers, requested⟩ :=
        FileList.rdpRequestedFile_free joint.inv free req
      exact ⟨list', result, called, inv, fun _ => answers, requested⟩
    · obtain ⟨list', result, called, inv, answers, requested⟩ :=
        FileList.rdpRequestedFile_waiting joint.inv free (foreseen.1 free) req
      exact ⟨list', result, called, inv, fun distinct => answers (distinct free), requested⟩
  obtain ⟨list', result, called, inv, answers, requested⟩ := spec
  simp only [step, called, absorb]
  refine ⟨⟨rfl, inv, ?_⟩, ?_⟩
  · refine .asked requested.asked ?_
    intro idle packets
    exact foreseen.2 idle (requested.starts idle packets)
  · intro distinct accounted
    have other : session.list.lindex ≠ invalidLindex → session.list.streamId ≠ req.streamId := by
      intro pending same
      refine distinct ?_
      rw [← accounted, List.drop_left, FileList.waiting_pending pending, same]
      exact List.mem_cons_self
    simp only [Accounted, List.append_assoc, answers other]
    rw [← List.append_assoc, accounted]

/-- An event that the transfer is ready for is a step of the handshake. -/
theorem step_stays (joint : session.Joint) {event : SessionEvent}
    (foreseen : session.Foreseen event) :
    Stays session (session.Twice event) (session.step event) ∧
      (session.Distinct event → session.Accounted → (session.step event).1.Accounted) := by
  cases event with
  | request req => exact request_stays joint foreseen
  | stop =>
    obtain ⟨status, packets, asked, leads, silent⟩ := FileList.stopFileTransfer_asked joint.inv
    obtain ⟨stays, accounted⟩ := absorb_stays leads
      (.asked asked fun idle some' => absurd (silent idle) some')
    exact ⟨stays, fun _ => accounted⟩
  | serve choice => exact ⟨⟨rfl, joint.inv, .serve choice⟩, fun _ => id⟩
  | push data => exact ⟨⟨rfl, joint.inv, .push data⟩, fun _ => id⟩
  | finish byAbort => exact ⟨⟨rfl, joint.inv, .finish byAbort⟩, fun _ => id⟩
  | deliver =>
    cases queue : session.wire.toClient with
    | nil =>
      simp only [step, queue]
      exact ⟨⟨rfl, joint.inv, .rest⟩, fun _ => id⟩
    | cons first rest =>
      obtain ⟨number, message⟩ := first
      have ready : session.list.status = .waitAcceptAndReject →
          session.list.lindex ≠ invalidLindex → message ≠ .fileHeader true ∧
            ∀ file ∈ session.list.file? session.list.lindex, file.name.length < maxPathLength := by
        intro rejects pending
        have both := foreseen (by rw [queue]; exact List.cons_ne_nil _ _) rejects pending
        refine ⟨?_, both.2⟩
        intro accepts
        refine both.1 ?_
        rw [queue, accepts]
        rfl
      obtain ⟨status, packets, reply, leads⟩ :=
        FileList.receive_replies joint.inv (joint.agree.heard queue) ready
      simp only [step, queue]
      obtain ⟨stays, accounted⟩ := absorb_stays leads (.reply queue reply)
      exact ⟨stays, fun _ => accounted⟩

theorem Joint.next (joint : session.Joint) {event : SessionEvent}
    (foreseen : session.Foreseen event) : (machine.next session event).Joint :=
  have stays := (step_stays joint foreseen).1
  ⟨stays.inv, stays.handshake.agree joint.agree⟩

theorem start_joint (files : Files) : (start files).Joint := by
  constructor
  · exact FileList.Inv.of_free (Nat.le_refl _) rfl (.inl rfl)
  · exact .inl Wire.start_quiet

theorem Joint.answers (joint : session.Joint) (accounted : session.Accounted) :
    session.responses <+: session.requests ∧
      session.requests.length ≤ session.responses.length + 1 ∧
        (session.wire.Settled → session.responses = session.requests) := by
  refine ⟨⟨_, accounted⟩, ?_, ?_⟩
  · rw [← accounted, List.length_append]
    apply Nat.add_le_add_left
    unfold FileList.waiting
    split
    · exact Nat.zero_le _
    · exact Nat.le_refl _
  · intro settled
    have free := joint.inv.idle (joint.agree.settled settled)
    rw [← accounted, FileList.waiting_free free, List.append_nil]

/-- In a run of events that the transfer is ready for, whatever their order, each request is
answered once. -/
theorem requests_answered (files : Files) (events : List SessionEvent)
    (ready : machine.EveryStep (fun session event => session.Distinct event ∧
      session.Foreseen event) (start files) events) :
    machine.EveryStep Answers (start files) events := by
  have keeps : ∀ session event, session.Joint ∧ session.Accounted →
      session.Distinct event ∧ session.Foreseen event →
      (machine.next session event).Joint ∧ (machine.next session event).Accounted := by
    intro session event both allowed
    exact ⟨both.1.next allowed.2, (step_stays both.1 allowed.2).2 allowed.1 both.2⟩
  refine Machine.everyStep_of_invariant keeps ?_ ⟨start_joint files, rfl⟩ ready
  · intro session event both allowed
    obtain ⟨stays, accounted⟩ := step_stays both.1 allowed.2
    obtain ⟨pending, single, settled⟩ :=
      (both.1.next allowed.2).answers (accounted allowed.1 both.2)
    exact ⟨stays.runs, pending, single, settled⟩

/-- One file of three bytes, and another. -/
def twoFiles : Files := ⟨[⟨[97], 3, false, by decide⟩, ⟨[98], 3, false, by decide⟩], by decide⟩

/-- A request of a range of a file. -/
def askFor (streamId : CbStreamId) (lindex : CbLindex) (position : BitVec 64)
    (cbRequested : BitVec 32) : SessionEvent :=
  .request ⟨streamId, lindex, 2, position, cbRequested⟩

/-- Two files, one after the other has ended. -/
theorem requests_answered_two :
    machine.EveryStep Answers (start twoFiles)
      [askFor 1 0 0 8, .serve true, .deliver, .serve true, .push [1, 2, 3], .finish false, .deliver,
        .deliver, askFor 2 1 0 8, .serve false, .deliver] :=
  requests_answered twoFiles _ (by decide)

/-- The server still sends the first file when the second one is asked for, and its end comes instead
of an answer. -/
theorem requests_answered_early :
    ¬ machine.EveryStep Answers (start twoFiles)
      [askFor 1 0 0 1, .serve true, .deliver, .serve true, .push [1], .deliver, askFor 2 1 0 8,
        .finish false, .deliver] := by
  rintro ⟨_, _, _, _, _, _, _, _, last, _⟩
  exact absurd last.runs (by decide)

end FileSession

end Redemption.FileTransfer
