import Redemption.FileTransfer.FileList
import Redemption.FileTransfer.Packets

/-! How the status of the transfer, the state of the server and what is under way between them
belong together. -/
namespace Redemption.FileTransfer

open Redemption.Foundation

namespace Wire

/-- Nothing is under way. -/
structure Quiet (wire : Wire) : Prop where
  phase : wire.phase = .idle
  silent : wire.toClient = []
  inert : ∀ packet ∈ wire.toServer, packet.contentType ≠ contentFileTransferRequest
  served : wire.served = wire.sent

/-- A request is under way to the server. -/
structure Asking (wire : Wire) : Prop where
  phase : wire.phase = .idle
  silent : wire.toClient = []
  request : ∃ inert path, wire.toServer = inert ++ [fileRequest path] ∧
    ∀ packet ∈ inert, packet.contentType ≠ contentFileTransferRequest
  served : wire.served + 1 = wire.sent

/-- The answer to a request is under way. -/
structure Answering (wire : Wire) (accepted : Bool) : Prop where
  phase : wire.phase = if accepted then .waitConfirm else .idle
  read : wire.toServer = []
  answer : wire.toClient = [(wire.sent, .fileHeader accepted)]
  served : wire.served = wire.sent

def aborts (count : Nat) : List FtPacket := List.replicate count abortFileTransferPdu

/-- The confirmation of a file is under way, and some aborts behind it. -/
structure Confirming (wire : Wire) (count : Nat) : Prop where
  phase : wire.phase = .waitConfirm
  silent : wire.toClient = []
  confirm : ∃ confirm, wire.toServer = confirm :: aborts count ∧
    confirm.contentType = contentFileHeader ∧ confirm.sizeOrOther ≠ uvncFtErrorCode32
  served : wire.served = wire.sent

/-- Messages with data of the last file. -/
def AllData (wire : Wire) (messages : List (Nat × ServerMessage)) : Prop :=
  ∀ message ∈ messages, ∃ data, message = (wire.sent, .filePacket data)

/-- The file is sent, and some aborts are under way. -/
structure Sending (wire : Wire) (count : Nat) : Prop where
  phase : wire.phase = .sending
  stops : wire.toServer = aborts count
  data : wire.AllData wire.toClient
  served : wire.served = wire.sent

/-- The file has been sent. -/
structure Ended (wire : Wire) : Prop where
  phase : wire.phase = .idle
  stops : ∃ count, wire.toServer = aborts count
  data : ∃ data message, wire.toClient = data ++ [(wire.sent, message)] ∧ wire.AllData data ∧
    message.Ends
  served : wire.served = wire.sent

/-- A file that the transfer has confirmed is on its way, with as many aborts against it as
`allowed`. -/
inductive Running (wire : Wire) (allowed : Nat → Prop) : Prop where
  | confirming (count : Nat) (fits : allowed count) (stage : wire.Confirming count)
  | sending (count : Nat) (fits : allowed count) (stage : wire.Sending count)
  | ended (stage : wire.Ended)

/-- What is under way when the transfer has a status. With `Nothing`, the server may still send. -/
def Agree (wire : Wire) : TransferStatus → Prop
  | .nothing => wire.Quiet ∨ wire.Running fun _ => True
  | .waitAcceptAndContinue | .waitAcceptAndReject =>
    wire.Asking ∨ ∃ accepted, wire.Answering accepted
  | .transferInProgress => wire.Running (· = 0)
  | .waitAbortResponse => wire.Running (· ≠ 0)
  | .finished => False

variable {wire : Wire}

theorem start_quiet : start.Quiet := ⟨rfl, rfl, by simp [start], rfl⟩

theorem aborts_succ (count : Nat) : aborts count ++ [abortFileTransferPdu] = aborts (count + 1) :=
  (List.replicate_succ').symm

theorem aborts_inert (count : Nat) :
    ∀ packet ∈ aborts count, packet.contentType ≠ contentFileTransferRequest := by
  intro packet member
  rw [List.eq_of_mem_replicate member]
  decide

section Server

theorem Quiet.serve (quiet : wire.Quiet) (choice : Bool) : (wire.serve choice).Quiet := by
  cases queue : wire.toServer with
  | nil =>
    rw [serve_nil queue]
    exact quiet
  | cons packet rest =>
    have inert := quiet.inert
    rw [queue] at inert
    rw [serve_inert quiet.phase queue (inert packet List.mem_cons_self)]
    exact ⟨quiet.phase, quiet.silent, fun later member => inert later (List.mem_cons_of_mem _ member),
      quiet.served⟩

theorem Asking.serve (asking : wire.Asking) (choice : Bool) :
    (wire.serve choice).Asking ∨ (wire.serve choice).Answering choice := by
  obtain ⟨inert, path, queue, others⟩ := asking.request
  cases inert with
  | nil =>
    right
    rw [Wire.serve, queue]
    simp only [List.nil_append, Wire.read]
    rw [if_pos ⟨rfl, asking.phase⟩]
    constructor
    · rfl
    · rfl
    · simp only [asking.silent, List.nil_append, asking.served]
    · exact asking.served
  | cons packet rest =>
    left
    rw [serve_inert asking.phase queue (others packet List.mem_cons_self)]
    exact ⟨asking.phase, asking.silent,
      ⟨rest, path, rfl, fun later member => others later (List.mem_cons_of_mem _ member)⟩,
      asking.served⟩

theorem Running.serve {allowed : Nat → Prop} (running : wire.Running allowed) (choice : Bool) :
    (wire.serve choice).Running allowed := by
  cases running with
  | confirming count fits stage =>
    obtain ⟨confirm, queue, header, accepts⟩ := stage.confirm
    refine .sending count fits ?_
    unfold Wire.serve
    rw [queue]
    simp only [Wire.read, header, stage.phase, accepts, if_false, and_self, if_true]
    rw [if_neg (by decide)]
    refine ⟨rfl, rfl, ?_, stage.served⟩
    intro message member
    simp only [stage.silent] at member
    cases member
  | sending count fits stage =>
    cases count with
    | zero =>
      rw [serve_nil stage.stops]
      exact .sending 0 fits stage
    | succ count =>
      have queue : wire.toServer = abortFileTransferPdu :: aborts count := stage.stops
      refine .ended ?_
      unfold Wire.serve
      rw [queue]
      simp only [Wire.read, stage.phase]
      rw [if_neg (by decide), if_neg (by decide), if_pos (by decide)]
      refine ⟨rfl, ⟨count, rfl⟩, ⟨wire.toClient, .ending choice, ?_, stage.data,
        ServerMessage.ending_ends choice⟩, stage.served⟩
      simp only [stage.served]
  | ended stage =>
    obtain ⟨count, stops⟩ := stage.stops
    refine .ended ?_
    cases count with
    | zero =>
      rw [serve_nil stops]
      exact stage
    | succ count =>
      have queue : wire.toServer = abortFileTransferPdu :: aborts count := stops
      rw [serve_inert stage.phase queue (by decide)]
      exact ⟨stage.phase, ⟨count, rfl⟩, stage.data, stage.served⟩

variable {status : TransferStatus}

/-- The server reads a packet: what is under way still belongs to the status. -/
theorem Agree.serve (agree : wire.Agree status) (choice : Bool) :
    (wire.serve choice).Agree status := by
  have waits : wire.Asking ∨ (∃ accepted, wire.Answering accepted) →
      (wire.serve choice).Asking ∨ ∃ accepted, (wire.serve choice).Answering accepted := by
    rintro (asking | ⟨accepted, answering⟩)
    · exact (asking.serve choice).imp_right fun answering => ⟨choice, answering⟩
    · right
      rw [serve_nil answering.read]
      exact ⟨accepted, answering⟩
  cases status with
  | nothing =>
    rcases agree with quiet | running
    · exact .inl (quiet.serve choice)
    · exact .inr (running.serve choice)
  | waitAcceptAndContinue => exact waits agree
  | waitAcceptAndReject => exact waits agree
  | transferInProgress => exact Running.serve agree choice
  | waitAbortResponse => exact Running.serve agree choice
  | finished => exact agree

/-- The phase in which the server sends belongs to a file that runs. -/
theorem Agree.sends (agree : wire.Agree status)
    (phase : wire.phase = .sending) :
    ∃ count, wire.Sending count ∧
      ((∀ wire' : Wire, wire'.Sending count → wire'.Agree status) ∧
        ∀ wire' : Wire, wire'.Ended → wire'.Agree status) := by
  have runs : ∀ {allowed : Nat → Prop}, wire.Running allowed →
      ∃ count, allowed count ∧ wire.Sending count := by
    intro allowed running
    cases running with
    | confirming count fits stage => exact absurd (stage.phase.symm.trans phase) (by decide)
    | sending count fits stage => exact ⟨count, fits, stage⟩
    | ended stage => exact absurd (stage.phase.symm.trans phase) (by decide)
  have waits : ¬ (wire.Asking ∨ ∃ accepted, wire.Answering accepted) := by
    rintro (asking | ⟨accepted, answering⟩)
    · exact absurd (asking.phase.symm.trans phase) (by decide)
    · have other := answering.phase.symm.trans phase
      cases accepted <;> exact absurd other (by decide)
  cases status with
  | nothing =>
    rcases agree with quiet | running
    · exact absurd (quiet.phase.symm.trans phase) (by decide)
    · obtain ⟨count, fits, stage⟩ := runs running
      exact ⟨count, stage, fun _ next => .inr (.sending count fits next),
        fun _ next => .inr (.ended next)⟩
  | waitAcceptAndContinue => exact absurd agree waits
  | waitAcceptAndReject => exact absurd agree waits
  | transferInProgress =>
    obtain ⟨count, fits, stage⟩ := runs agree
    exact ⟨count, stage, fun _ next => .sending count fits next, fun _ next => .ended next⟩
  | waitAbortResponse =>
    obtain ⟨count, fits, stage⟩ := runs agree
    exact ⟨count, stage, fun _ next => .sending count fits next, fun _ next => .ended next⟩
  | finished => exact agree.elim

theorem Agree.push (agree : wire.Agree status) (data : List Byte) :
    (wire.push data).Agree status := by
  unfold Wire.push
  by_cases phase : wire.phase = .sending
  · rw [if_pos phase]
    obtain ⟨count, stage, still, _⟩ := agree.sends phase
    apply still
    refine ⟨phase, stage.stops, ?_, stage.served⟩
    intro message member
    rcases List.mem_append.mp member with before | last
    · exact stage.data message before
    · exact ⟨data, by rw [List.mem_singleton.mp last, stage.served]⟩
  · rw [if_neg phase]
    exact agree

theorem Agree.finish (agree : wire.Agree status) (byAbort : Bool) :
    (wire.finish byAbort).Agree status := by
  unfold Wire.finish
  by_cases phase : wire.phase = .sending
  · rw [if_pos phase]
    obtain ⟨count, stage, _, finishes⟩ := agree.sends phase
    apply finishes
    refine ⟨rfl, ⟨count, stage.stops⟩, ⟨wire.toClient, .ending byAbort, ?_, stage.data,
      ServerMessage.ending_ends byAbort⟩, stage.served⟩
    simp only [stage.served]
  · rw [if_neg phase]
    exact agree

end Server

section Client

variable {allowed : Nat → Prop}

/-- The next message of a file that runs is data of that file, or its end. -/
theorem Running.next (running : wire.Running allowed) {number : Nat}
    {message : ServerMessage} {rest : List (Nat × ServerMessage)}
    (next : wire.toClient = (number, message) :: rest) :
    number = wire.sent ∧ (((∃ data, message = .filePacket data) ∧ wire.taken.Running allowed) ∨
      (message.Ends ∧ wire.taken.Quiet)) := by
  have tail : wire.toClient.tail = rest := by rw [next, List.tail_cons]
  cases running with
  | confirming count fits stage =>
    rw [stage.silent] at next
    cases next
  | sending count fits stage =>
    have all := stage.data
    rw [next] at all
    obtain ⟨data, is⟩ := all _ List.mem_cons_self
    obtain ⟨rfl, rfl⟩ := Prod.mk.inj is
    refine ⟨rfl, .inl ⟨⟨data, rfl⟩, .sending count fits ⟨stage.phase, stage.stops, ?_,
      stage.served⟩⟩⟩
    intro later member
    simp only [taken, tail] at member
    exact all later (List.mem_cons_of_mem _ member)
  | ended stage =>
    obtain ⟨data, last, messages, all, ends⟩ := stage.data
    cases data with
    | nil =>
      rw [next, List.nil_append] at messages
      obtain ⟨same, rfl⟩ := List.cons.inj messages
      obtain ⟨rfl, rfl⟩ := Prod.mk.inj same
      refine ⟨rfl, .inr ⟨ends, stage.phase, tail, ?_, stage.served⟩⟩
      obtain ⟨count, stops⟩ := stage.stops
      intro packet member
      simp only [taken, stops] at member
      exact aborts_inert count packet member
    | cons first more =>
      rw [next, List.cons_append] at messages
      obtain ⟨same, others⟩ := List.cons.inj messages
      obtain ⟨bytes, is⟩ := all first List.mem_cons_self
      rw [is] at same
      obtain ⟨rfl, rfl⟩ := Prod.mk.inj same
      refine ⟨rfl, .inl ⟨⟨bytes, rfl⟩, .ended ⟨stage.phase, stage.stops, ⟨more, last, ?_,
        fun later member => all later (List.mem_cons_of_mem _ member), ends⟩, stage.served⟩⟩⟩
      exact tail.trans others

theorem Running.post_abort (running : wire.Running allowed) :
    (wire.post abortFileTransferPdu).Running (· ≠ 0) := by
  cases running with
  | confirming count fits stage =>
    obtain ⟨confirm, queue, header, accepts⟩ := stage.confirm
    refine .confirming (count + 1) (Nat.succ_ne_zero count) ⟨stage.phase, stage.silent,
      ⟨confirm, ?_, header, accepts⟩, stage.served⟩
    rw [post_toServer, queue, List.cons_append, aborts_succ]
  | sending count fits stage =>
    refine .sending (count + 1) (Nat.succ_ne_zero count) ⟨stage.phase, ?_, stage.data,
      stage.served⟩
    rw [post_toServer, stage.stops, aborts_succ]
  | ended stage =>
    obtain ⟨count, stops⟩ := stage.stops
    refine .ended ⟨stage.phase, ⟨count + 1, ?_⟩, stage.data, stage.served⟩
    rw [post_toServer, stops, aborts_succ]

theorem Running.weaken (running : wire.Running allowed) :
    wire.Running fun _ => True := by
  cases running with
  | confirming count fits stage => exact .confirming count trivial stage
  | sending count fits stage => exact .sending count trivial stage
  | ended stage => exact .ended stage

theorem Quiet.post_request (quiet : wire.Quiet) (path : List Byte) :
    (wire.post (fileRequest path)).Asking :=
  ⟨quiet.phase, quiet.silent, ⟨wire.toServer, path, rfl, quiet.inert⟩,
    congrArg (· + 1) quiet.served⟩

theorem Quiet.post_failure (quiet : wire.Quiet) :
    (wire.post confirmRequestedFileFailure).Quiet := by
  refine ⟨quiet.phase, quiet.silent, ?_, quiet.served⟩
  intro packet member
  rcases List.mem_append.mp member with before | last
  · exact quiet.inert packet before
  · rw [List.mem_singleton.mp last]
    decide

theorem Answering.taken_refused (answering : wire.Answering false) : wire.taken.Quiet := by
  refine ⟨answering.phase, ?_, ?_, answering.served⟩
  · simp only [taken, answering.answer, List.tail_cons]
  · intro packet member
    simp only [taken, answering.read] at member
    cases member

theorem Answering.confirmed (answering : wire.Answering true) {confirm : FtPacket}
    (header : confirm.contentType = contentFileHeader)
    (accepts : confirm.sizeOrOther ≠ uvncFtErrorCode32) :
    (wire.taken.post confirm).Running (· = 0) := by
  rw [post_header header]
  refine .confirming 0 rfl ⟨answering.phase, ?_, ⟨confirm, ?_, header, accepts⟩, answering.served⟩
  · simp only [taken, answering.answer, List.tail_cons]
  · simp only [taken, answering.read, List.nil_append]
    rfl

theorem Running.busy (running : wire.Running allowed)
    (phase : wire.phase = .idle) : wire.toClient ≠ [] := by
  intro silent
  cases running with
  | confirming count fits stage => exact absurd (stage.phase.symm.trans phase) (by decide)
  | sending count fits stage => exact absurd (stage.phase.symm.trans phase) (by decide)
  | ended stage =>
    obtain ⟨data, message, messages, _⟩ := stage.data
    rw [silent] at messages
    exact absurd messages.symm (by simp)

/-- When everything is over, the transfer has nothing to wait for. -/
theorem Agree.settled {status : TransferStatus} (agree : wire.Agree status)
    (settled : wire.Settled) : status = .nothing := by
  obtain ⟨phase, silent, inert⟩ := settled
  have waits : ¬ (wire.Asking ∨ ∃ accepted, wire.Answering accepted) := by
    rintro (asking | ⟨accepted, answering⟩)
    · obtain ⟨before, path, queue, _⟩ := asking.request
      refine inert (fileRequest path) ?_ rfl
      rw [queue]
      exact List.mem_append_right _ List.mem_cons_self
    · have answer := answering.answer
      rw [silent] at answer
      cases answer
  cases status with
  | nothing => rfl
  | waitAcceptAndContinue => exact absurd agree waits
  | waitAcceptAndReject => exact absurd agree waits
  | transferInProgress => exact absurd silent (Running.busy agree phase)
  | waitAbortResponse => exact absurd silent (Running.busy agree phase)
  | finished => exact agree.elim

/-- A request while nothing runs comes to a server that can take it. -/
theorem Agree.quiet (agree : wire.Agree .nothing) (phase : wire.phase = .idle)
    (silent : wire.toClient = []) : wire.Quiet := by
  rcases agree with quiet | running
  · exact quiet
  · exact absurd silent (running.busy phase)

end Client

end Wire

/-- What a request or a stop may do, by the status of the transfer. It may abort a transfer that is
aborted already when it comes `twice`. -/
inductive Asked (twice : Prop) : TransferStatus → TransferStatus → List FtPacket → Prop where
  | idle : Asked twice .nothing .nothing []
  | started (path : List Byte) : Asked twice .nothing .waitAcceptAndContinue [fileRequest path]
  | rejects : Asked twice .waitAcceptAndContinue .waitAcceptAndReject []
  | queued : Asked twice .waitAcceptAndReject .waitAcceptAndReject []
  | aborts {status : TransferStatus} (next : status = .waitAbortResponse ∨ status = .nothing) :
    Asked twice .transferInProgress status [abortFileTransferPdu]
  | waits {status : TransferStatus} (next : status = .waitAbortResponse ∨ status = .nothing) :
    Asked twice .waitAbortResponse status []
  | again (both : twice) {status : TransferStatus}
    (next : status = .waitAbortResponse ∨ status = .nothing) :
    Asked twice .waitAbortResponse status [abortFileTransferPdu]

/-- What a message of the server may do. -/
inductive Reply : TransferStatus → ServerMessage → TransferStatus → List FtPacket → Prop where
  | unwanted (message : ServerMessage) : Reply .nothing message .nothing []
  | accepted : Reply .waitAcceptAndContinue (.fileHeader true) .transferInProgress
    [confirmRequestedFileOk]
  | refused : Reply .waitAcceptAndContinue (.fileHeader false) .nothing []
  | rejected (ok : Bool) : Reply .waitAcceptAndReject (.fileHeader ok) .nothing
    [confirmRequestedFileFailure]
  | replaced (path : List Byte) : Reply .waitAcceptAndReject (.fileHeader false)
    .waitAcceptAndContinue [confirmRequestedFileFailure, fileRequest path]
  | received (data : List Byte) : Reply .transferInProgress (.filePacket data)
    .transferInProgress []
  | sufficed (data : List Byte) : Reply .transferInProgress (.filePacket data) .nothing []
  | exceeded (data : List Byte) : Reply .transferInProgress (.filePacket data) .waitAbortResponse
    [abortFileTransferPdu]
  | finished {message : ServerMessage} (ends : message.Ends) :
    Reply .transferInProgress message .nothing []
  | late (data : List Byte) : Reply .waitAbortResponse (.filePacket data) .waitAbortResponse []
  | aborted {message : ServerMessage} (ends : message.Ends) :
    Reply .waitAbortResponse message .nothing []
  | restarted {message : ServerMessage} (ends : message.Ends) (path : List Byte) :
    Reply .waitAbortResponse message .waitAcceptAndContinue [fileRequest path]

/-- The messages that can come, by the status of the transfer. -/
def Audible : TransferStatus → ServerMessage → Prop
  | .nothing, _ => True
  | .waitAcceptAndContinue, message | .waitAcceptAndReject, message =>
    ∃ accepted, message = .fileHeader accepted
  | .transferInProgress, message | .waitAbortResponse, message =>
    (∃ data, message = .filePacket data) ∨ message.Ends
  | .finished, _ => False

namespace Wire

variable {wire : Wire} {status status' : TransferStatus} {packets : List FtPacket}
  {twice : Prop}

theorem Running.gives_up {allowed : Nat → Prop} (running : wire.Running allowed)
    (next : status = .waitAbortResponse ∨ status = .nothing) :
    (wire.post abortFileTransferPdu).Agree status := by
  rcases next with rfl | rfl
  · exact running.post_abort
  · exact .inr running.post_abort.weaken

/-- A request or a stop keeps the agreement. A file is only asked for of a server that is done. -/
theorem Agree.asked (agree : wire.Agree status) (asked : Asked twice status status' packets)
    (done : status = .nothing → packets ≠ [] → wire.phase = .idle ∧ wire.toClient = []) :
    (wire.postAll packets).Agree status' := by
  cases asked with
  | idle => exact agree
  | started path =>
    obtain ⟨phase, silent⟩ := done rfl (List.cons_ne_nil _ _)
    exact .inl ((agree.quiet phase silent).post_request path)
  | rejects => exact agree
  | queued => exact agree
  | aborts next => exact Running.gives_up agree next
  | waits next =>
    rcases next with rfl | rfl
    · exact agree
    · exact .inr (Running.weaken agree)
  | again _ next => exact Running.gives_up agree next

variable {rest : List (Nat × ServerMessage)}

theorem Agree.heard (agree : wire.Agree status) {number : Nat} {message : ServerMessage}
    (next : wire.toClient = (number, message) :: rest) :
    Audible status message := by
  have waits : wire.Asking ∨ (∃ accepted, wire.Answering accepted) →
      ∃ accepted, message = .fileHeader accepted := by
    rintro (asking | ⟨accepted, answering⟩)
    · rw [asking.silent] at next
      cases next
    · rw [answering.answer] at next
      exact ⟨accepted, (Prod.mk.inj (List.cons.inj next).1).2.symm⟩
  have runs : ∀ {allowed : Nat → Prop}, wire.Running allowed →
      (∃ data, message = .filePacket data) ∨ message.Ends := by
    intro allowed running
    exact (running.next next).2.imp And.left And.left
  cases status with
  | nothing => trivial
  | waitAcceptAndContinue => exact waits agree
  | waitAcceptAndReject => exact waits agree
  | transferInProgress => exact runs agree
  | waitAbortResponse => exact runs agree
  | finished => exact agree

theorem hears_header (waits : wire.Asking ∨ ∃ accepted, wire.Answering accepted) {number : Nat}
    {accepted : Bool}
    (next : wire.toClient = (number, .fileHeader accepted) :: rest) :
    wire.Answering accepted := by
  rcases waits with asking | ⟨other, answering⟩
  · rw [asking.silent] at next
    cases next
  · have same := answering.answer
    rw [next] at same
    have header := (Prod.mk.inj (List.cons.inj same).1).2
    rw [ServerMessage.fileHeader.inj header]
    exact answering

theorem Running.hears_data {allowed : Nat → Prop} (running : wire.Running allowed) {number : Nat}
    {data : List Byte}
    (next : wire.toClient = (number, .filePacket data) :: rest) : wire.taken.Running allowed := by
  rcases (running.next next).2 with ⟨_, later⟩ | ⟨ends, _⟩
  · exact later
  · rcases ends with is | is <;> cases is

theorem Running.hears_end {allowed : Nat → Prop} (running : wire.Running allowed) {number : Nat}
    {message : ServerMessage} (ends : message.Ends)
    (next : wire.toClient = (number, message) :: rest) : wire.taken.Quiet := by
  rcases (running.next next).2 with ⟨⟨data, is⟩, _⟩ | ⟨_, quiet⟩
  · rcases ends with other | other <;> cases is.symm.trans other
  · exact quiet

theorem Agree.reply (agree : wire.Agree status) {number : Nat} {message : ServerMessage}
    (next : wire.toClient = (number, message) :: rest)
    (reply : Reply status message status' packets) :
    (wire.taken.postAll packets).Agree status' := by
  cases reply with
  | unwanted message =>
    rcases agree with quiet | running
    · rw [quiet.silent] at next
      cases next
    · rcases (running.next next).2 with ⟨_, later⟩ | ⟨_, quiet⟩
      · exact .inr later
      · exact .inl quiet
  | accepted => exact (hears_header agree next).confirmed rfl (by decide)
  | refused => exact .inl (hears_header agree next).taken_refused
  | rejected ok =>
    have answering := hears_header agree next
    cases ok with
    | false => exact .inl answering.taken_refused.post_failure
    | true => exact .inr (answering.confirmed rfl (by decide)).weaken
  | replaced path =>
    exact .inl ((hears_header agree next).taken_refused.post_failure.post_request path)
  | received data => exact Running.hears_data agree next
  | sufficed data => exact .inr (Running.hears_data agree next).weaken
  | exceeded data => exact (Running.hears_data agree next).post_abort
  | finished ends => exact .inl (Running.hears_end agree ends next)
  | late data => exact Running.hears_data agree next
  | aborted ends => exact .inl (Running.hears_end agree ends next)
  | restarted ends path => exact .inl ((Running.hears_end agree ends next).post_request path)

end Wire

/-- A step of the handshake between the transfer and the server. A file is only asked for when the
server is done and heard to the end. -/
inductive Handshake (twice : Prop) (status : TransferStatus) (wire : Wire) :
    TransferStatus → Wire → Prop where
  | asked {status' : TransferStatus} {packets : List FtPacket}
    (asked : Asked twice status status' packets)
    (done : status = .nothing → packets ≠ [] → wire.phase = .idle ∧ wire.toClient = []) :
    Handshake twice status wire status' (wire.postAll packets)
  | reply {number : Nat} {message : ServerMessage} {rest : List (Nat × ServerMessage)}
    {status' : TransferStatus} {packets : List FtPacket}
    (next : wire.toClient = (number, message) :: rest)
    (reply : Reply status message status' packets) :
    Handshake twice status wire status' (wire.taken.postAll packets)
  | serve (choice : Bool) : Handshake twice status wire status (wire.serve choice)
  | push (data : List Byte) : Handshake twice status wire status (wire.push data)
  | finish (byAbort : Bool) : Handshake twice status wire status (wire.finish byAbort)
  | rest : Handshake twice status wire status wire

theorem Handshake.agree {twice : Prop} {status status' : TransferStatus} {wire wire' : Wire}
    (handshake : Handshake twice status wire status' wire') (agree : wire.Agree status) :
    wire'.Agree status' := by
  cases handshake with
  | asked asked done => exact agree.asked asked done
  | reply next reply => exact agree.reply next reply
  | serve choice => exact agree.serve choice
  | push data => exact agree.push data
  | finish byAbort => exact agree.finish byAbort
  | rest => exact agree

end Redemption.FileTransfer
