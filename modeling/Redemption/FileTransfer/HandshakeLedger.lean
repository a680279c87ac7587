import Mathlib.Data.List.Nodup
import Redemption.FileTransfer.FileSession

/-! The handshake of a transfer: what has been confirmed and aborted, and whose data comes. -/
namespace Redemption.FileTransfer

open Redemption.Foundation

/-- A file that has been asked for is neither confirmed nor rejected yet. -/
def TransferStatus.Unconfirmed (status : TransferStatus) : Prop :=
  status = .waitAcceptAndContinue ∨ status = .waitAcceptAndReject

namespace Wire

/-- The number of answers to a request under way that accept it. -/
def acceptsUnderWay (wire : Wire) (number : Nat) : Nat :=
  wire.toClient.count (number, .fileHeader true)

/-- What has been recorded of each request. -/
structure Ledger (wire : Wire) (status : TransferStatus) : Prop where
  served_le : wire.served ≤ wire.sent
  accepted_le : ∀ number ∈ wire.accepted, number ≤ wire.served
  confirmed_le : ∀ number ∈ wire.confirmed, number ≤ wire.sent
  aborted_le : ∀ number ∈ wire.aborted, number ≤ wire.sent
  once : ∀ number ∈ wire.accepted, wire.confirmed.count number + wire.acceptsUnderWay number = 1
  refused : ∀ number, (number, .fileHeader false) ∈ wire.toClient → number ∉ wire.accepted
  unconfirmed : status.Unconfirmed → wire.sent ∉ wire.confirmed
  unaborted : status.Unconfirmed ∨ status = .transferInProgress → wire.sent ∉ wire.aborted
  single : wire.aborted.Nodup

variable {wire wire' : Wire} {status status' : TransferStatus}

theorem start_ledger : start.Ledger .nothing where
  served_le := Nat.le_refl _
  accepted_le := nofun
  confirmed_le := nofun
  aborted_le := nofun
  once := nofun
  refused := nofun
  unconfirmed := nofun
  unaborted := nofun
  single := List.nodup_nil

theorem Ledger.relax (ledger : wire.Ledger status)
    (unconfirmed : status'.Unconfirmed → status.Unconfirmed)
    (unaborted : status' = .transferInProgress → status.Unconfirmed ∨
      status = .transferInProgress) : wire.Ledger status' where
  served_le := ledger.served_le
  accepted_le := ledger.accepted_le
  confirmed_le := ledger.confirmed_le
  aborted_le := ledger.aborted_le
  once := ledger.once
  refused := ledger.refused
  unconfirmed := fun waits => ledger.unconfirmed (unconfirmed waits)
  unaborted := fun runs => ledger.unaborted (runs.elim (.inl ∘ unconfirmed) unaborted)
  single := ledger.single

theorem Ledger.idle (ledger : wire.Ledger status)
    (next : status' = .waitAbortResponse ∨ status' = .nothing) : wire.Ledger status' := by
  refine ledger.relax ?_ ?_
  · rintro (is | is) <;> rcases next with other | other <;> cases is.symm.trans other
  · intro is
    rcases next with other | other <;> cases is.symm.trans other

section Server

theorem Ledger.continues (ledger : wire.Ledger status) (continues : Continues wire wire') :
    wire'.Ledger status := by
  obtain ⟨sent, served, accepted, confirmed, aborted, more, toClient, others⟩ := continues
  constructor
  · rw [served, sent]
    exact ledger.served_le
  · rw [accepted, served]
    exact ledger.accepted_le
  · rw [confirmed, sent]
    exact ledger.confirmed_le
  · rw [aborted, sent]
    exact ledger.aborted_le
  · intro number member
    rw [accepted] at member
    have none : more.count (number, .fileHeader true) = 0 :=
      List.count_eq_zero.mpr fun found => others _ found true rfl
    rw [confirmed, acceptsUnderWay, toClient, List.count_append, none, Nat.add_zero]
    exact ledger.once number member
  · intro number member
    rw [toClient] at member
    rw [accepted]
    rcases List.mem_append.mp member with before | late
    · exact ledger.refused number before
    · exact absurd rfl (others _ late false)
  · rw [sent, confirmed]
    exact ledger.unconfirmed
  · rw [sent, aborted]
    exact ledger.unaborted
  · rw [aborted]
    exact ledger.single

/-- The server takes a request: its answer is the first of that number. -/
theorem Ledger.answers (ledger : wire.Ledger status) (asking : wire.Asking)
    (waits : status.Unconfirmed) (choice : Bool) (phase : ServerPhase)
    (toServer : List FtPacket) :
    Ledger { wire with
      phase
      toServer
      toClient := wire.toClient ++ [(wire.served + 1, .fileHeader choice)]
      served := wire.served + 1
      accepted := if choice then wire.accepted ++ [wire.served + 1] else wire.accepted } status := by
  have fresh : wire.served + 1 ∉ wire.accepted := fun member =>
    Nat.not_succ_le_self _ (ledger.accepted_le _ member)
  constructor
  · exact Nat.le_of_eq asking.served
  · intro number member
    cases choice with
    | false => exact Nat.le_succ_of_le (ledger.accepted_le number member)
    | true =>
      rcases List.mem_append.mp member with before | new
      · exact Nat.le_succ_of_le (ledger.accepted_le number before)
      · exact Nat.le_of_eq (List.mem_singleton.mp new)
  · exact ledger.confirmed_le
  · exact ledger.aborted_le
  · intro number member
    simp only [acceptsUnderWay, asking.silent, List.nil_append]
    have before := ledger.once number
    simp only [acceptsUnderWay, asking.silent, List.count_nil, Nat.add_zero] at before
    cases choice with
    | false =>
      have none : List.count (number, ServerMessage.fileHeader true)
          [(wire.served + 1, .fileHeader false)] = 0 := by
        refine List.count_eq_zero.mpr fun found => ?_
        exact absurd (Prod.mk.inj (List.mem_singleton.mp found)).2 (by decide)
      rw [none]
      exact before member
    | true =>
      rcases List.mem_append.mp member with old | new
      · have none : List.count (number, ServerMessage.fileHeader true)
            [(wire.served + 1, .fileHeader true)] = 0 := by
          refine List.count_eq_zero.mpr fun found => ?_
          rw [(Prod.mk.inj (List.mem_singleton.mp found)).1] at old
          exact fresh old
        rw [none]
        exact before old
      · have none : wire.confirmed.count (wire.served + 1) = 0 := by
          refine List.count_eq_zero.mpr ?_
          rw [asking.served]
          exact ledger.unconfirmed waits
        rw [List.mem_singleton.mp new, none, List.count_singleton_self]
  · intro number member
    simp only [asking.silent, List.nil_append, List.mem_singleton] at member
    obtain ⟨rfl, same⟩ := Prod.mk.inj member
    rw [← ServerMessage.fileHeader.inj same]
    exact fresh
  · exact ledger.unconfirmed
  · exact ledger.unaborted
  · exact ledger.single

/-- An idle server that comes to a request has been asked for a file. -/
theorem Agree.asking (agree : wire.Agree status) {packet : FtPacket} {rest : List FtPacket}
    (queue : wire.toServer = packet :: rest)
    (request : packet.contentType = contentFileTransferRequest) :
    wire.Asking ∧ status.Unconfirmed := by
  have member : packet ∈ wire.toServer := by
    rw [queue]
    exact List.mem_cons_self
  have inert : (∀ packet ∈ wire.toServer, packet.contentType ≠ contentFileTransferRequest) →
      False := fun others => others packet member request
  have runs : ∀ {allowed : Nat → Prop}, wire.Running allowed → False := by
    intro allowed running
    apply inert
    intro other member
    cases running with
    | confirming count fits stage =>
      obtain ⟨confirm, stops, header, _⟩ := stage.confirm
      rw [stops] at member
      rcases List.mem_cons.mp member with rfl | late
      · rw [header]
        decide
      · exact aborts_inert count other late
    | sending count fits stage =>
      rw [stage.stops] at member
      exact aborts_inert count other member
    | ended stage =>
      obtain ⟨count, stops⟩ := stage.stops
      rw [stops] at member
      exact aborts_inert count other member
  have waits : wire.Asking ∨ (∃ accepted, wire.Answering accepted) → wire.Asking := by
    rintro (asking | ⟨accepted, answering⟩)
    · exact asking
    · rw [answering.read] at queue
      cases queue
  cases status with
  | nothing =>
    rcases agree with quiet | running
    · exact (inert quiet.inert).elim
    · exact (runs running).elim
  | waitAcceptAndContinue => exact ⟨waits agree, .inl rfl⟩
  | waitAcceptAndReject => exact ⟨waits agree, .inr rfl⟩
  | transferInProgress => exact (runs agree).elim
  | waitAbortResponse => exact (runs agree).elim
  | finished => exact agree.elim

theorem Ledger.serve (ledger : wire.Ledger status) (agree : wire.Agree status) (choice : Bool) :
    (wire.serve choice).Ledger status := by
  rcases serve_cases wire choice with ⟨packet, rest, queue, request, _, is⟩ | continues
  · rw [is]
    obtain ⟨asking, waits⟩ := agree.asking queue request
    exact ledger.answers asking waits choice _ _
  · exact ledger.continues continues

end Server

section Client

theorem Ledger.taken_other (ledger : wire.Ledger status) {number : Nat} {message : ServerMessage}
    {rest : List (Nat × ServerMessage)} (next : wire.toClient = (number, message) :: rest)
    (other : ∀ accepted, message ≠ .fileHeader accepted) : wire.taken.Ledger status := by
  constructor
  · exact ledger.served_le
  · exact ledger.accepted_le
  · exact ledger.confirmed_le
  · exact ledger.aborted_le
  · intro request member
    have before := ledger.once request member
    rw [acceptsUnderWay, next, List.count_cons_of_ne] at before
    · rw [acceptsUnderWay, taken, next]
      exact before
    · intro same
      exact other true (Prod.mk.inj same).2
  · intro request member
    apply ledger.refused
    simp only [taken, next, List.tail_cons] at member
    rw [next]
    exact List.mem_cons_of_mem _ member
  · exact ledger.unconfirmed
  · exact ledger.unaborted
  · exact ledger.single

theorem Ledger.taken_refused (ledger : wire.Ledger status) (answering : wire.Answering false) :
    wire.taken.Ledger status := by
  have silent : wire.taken.toClient = [] := by
    rw [taken, answering.answer, List.tail_cons]
  constructor
  · exact ledger.served_le
  · exact ledger.accepted_le
  · exact ledger.confirmed_le
  · exact ledger.aborted_le
  · intro request member
    have before := ledger.once request member
    rw [acceptsUnderWay, answering.answer, List.count_cons_of_ne] at before
    · rw [acceptsUnderWay, silent]
      exact before
    · intro same
      exact absurd (Prod.mk.inj same).2 (by decide)
  · intro request member
    rw [silent] at member
    cases member
  · exact ledger.unconfirmed
  · exact ledger.unaborted
  · exact ledger.single

/-- The answer to a request is read, and the file confirmed or rejected. -/
theorem Ledger.confirms (ledger : wire.Ledger status) (waits : status.Unconfirmed) {accepted : Bool}
    (answering : wire.Answering accepted) {confirm : FtPacket}
    (header : confirm.contentType = contentFileHeader)
    (next : status' = .transferInProgress ∨ status' = .nothing) :
    (wire.taken.post confirm).Ledger status' := by
  rw [post_header header]
  have silent : wire.taken.toClient = [] := by
    rw [taken, answering.answer, List.tail_cons]
  constructor
  · exact ledger.served_le
  · exact ledger.accepted_le
  · intro number member
    rcases List.mem_append.mp member with before | new
    · exact ledger.confirmed_le number before
    · exact Nat.le_of_eq (List.mem_singleton.mp new)
  · exact ledger.aborted_le
  · intro number member
    have before := ledger.once number member
    rw [acceptsUnderWay, answering.answer] at before
    simp only [acceptsUnderWay, silent, List.count_nil, Nat.add_zero, List.count_append]
    by_cases same : number = wire.sent
    · subst same
      have unconfirmed := List.count_eq_zero.mpr (ledger.unconfirmed waits)
      change wire.confirmed.count wire.sent + List.count wire.sent [wire.sent] = 1
      rw [unconfirmed, List.count_singleton_self]
    · have none : List.count (number, ServerMessage.fileHeader true)
          [(wire.sent, .fileHeader accepted)] = 0 := by
        refine List.count_eq_zero.mpr fun found => ?_
        exact same (Prod.mk.inj (List.mem_singleton.mp found)).1
      rw [none] at before
      change wire.confirmed.count number + List.count number [wire.sent] = 1
      rw [List.count_eq_zero.mpr fun found => same (List.mem_singleton.mp found)]
      exact before
  · intro number member
    rw [silent] at member
    cases member
  · rintro (is | is) <;> rcases next with other | other <;> cases is.symm.trans other
  · exact fun _ => ledger.unaborted (.inl waits)
  · exact ledger.single

theorem Ledger.post_request (ledger : wire.Ledger status) (path : List Byte) :
    (wire.post (fileRequest path)).Ledger .waitAcceptAndContinue := by
  constructor
  · exact Nat.le_succ_of_le ledger.served_le
  · exact ledger.accepted_le
  · exact fun number member => Nat.le_succ_of_le (ledger.confirmed_le number member)
  · exact fun number member => Nat.le_succ_of_le (ledger.aborted_le number member)
  · exact ledger.once
  · exact ledger.refused
  · exact fun _ member => Nat.not_succ_le_self _ (ledger.confirmed_le _ member)
  · exact fun _ member => Nat.not_succ_le_self _ (ledger.aborted_le _ member)
  · exact ledger.single

theorem Ledger.post_abort (ledger : wire.Ledger .transferInProgress)
    (next : status' = .waitAbortResponse ∨ status' = .nothing) :
    (wire.post abortFileTransferPdu).Ledger status' := by
  constructor
  · exact ledger.served_le
  · exact ledger.accepted_le
  · exact ledger.confirmed_le
  · intro number member
    rcases List.mem_append.mp member with before | new
    · exact ledger.aborted_le number before
    · exact Nat.le_of_eq (List.mem_singleton.mp new)
  · exact ledger.once
  · exact ledger.refused
  · rintro (is | is) <;> rcases next with other | other <;> cases is.symm.trans other
  · rintro ((is | is) | is) <;> rcases next with other | other <;> cases is.symm.trans other
  · refine List.nodup_append.mpr ⟨ledger.single, List.pairwise_singleton _ _, ?_⟩
    intro number before other new same
    have open' := ledger.unaborted (.inr rfl)
    rw [same, List.mem_singleton.mp new] at before
    exact open' before

theorem Ledger.asked (ledger : wire.Ledger status) {twice : Prop} {packets : List FtPacket}
    (asked : Asked twice status status' packets) (once : ¬ twice) :
    (wire.postAll packets).Ledger status' := by
  cases asked with
  | idle => exact ledger
  | started path => exact ledger.post_request path
  | rejects => exact ledger.relax (fun _ => .inl rfl) nofun
  | queued => exact ledger
  | aborts next => exact ledger.post_abort next
  | waits next => exact ledger.idle next
  | again both _ => exact absurd both once

theorem Ledger.reply (ledger : wire.Ledger status) (agree : wire.Agree status) {number : Nat}
    {message : ServerMessage} {rest : List (Nat × ServerMessage)} {packets : List FtPacket}
    (next : wire.toClient = (number, message) :: rest)
    (reply : Reply status message status' packets) :
    (wire.taken.postAll packets).Ledger status' := by
  cases reply with
  | unwanted message =>
    refine ledger.taken_other next ?_
    intro accepted is
    rcases agree with quiet | running
    · rw [quiet.silent] at next
      cases next
    · rcases (running.next next).2 with ⟨⟨data, other⟩, _⟩ | ⟨ends, _⟩
      · cases is.symm.trans other
      · exact ends.no_header accepted is
  | accepted => exact ledger.confirms (.inl rfl) (hears_header agree next) rfl (.inl rfl)
  | refused => exact (ledger.taken_refused (hears_header agree next)).idle (.inr rfl)
  | rejected ok => exact ledger.confirms (.inr rfl) (hears_header agree next) rfl (.inr rfl)
  | replaced path =>
    have rejected : (wire.taken.post confirmRequestedFileFailure).Ledger .nothing :=
      ledger.confirms (.inr rfl) (hears_header agree next) rfl (.inr rfl)
    exact rejected.post_request path
  | received data => exact ledger.taken_other next fun _ => ServerMessage.noConfusion
  | sufficed data =>
    exact (ledger.taken_other next fun _ => ServerMessage.noConfusion).idle (.inr rfl)
  | exceeded data =>
    exact (ledger.taken_other next fun _ => ServerMessage.noConfusion).post_abort (.inl rfl)
  | finished ends => exact (ledger.taken_other next ends.no_header).idle (.inr rfl)
  | late data => exact ledger.taken_other next fun _ => ServerMessage.noConfusion
  | aborted ends => exact (ledger.taken_other next ends.no_header).idle (.inr rfl)
  | restarted ends path => exact (ledger.taken_other next ends.no_header).post_request path

end Client

end Wire

/-! The transfer asks the server for one file at a time, and takes what it gets for that file. -/

variable {wire wire' : Wire} {status status' : TransferStatus} {twice : Prop}

/-- Nothing is aborted twice, and each file that the server accepts is confirmed or rejected once. -/
theorem Handshake.ledger (handshake : Handshake twice status wire status' wire')
    (agree : wire.Agree status) (ledger : wire.Ledger status) (once : ¬ twice) :
    wire'.Ledger status' := by
  cases handshake with
  | asked asked _ => exact ledger.asked asked once
  | reply next reply => exact ledger.reply agree next reply
  | serve choice => exact ledger.serve agree choice
  | push data => exact ledger.continues (wire.push_continues data)
  | finish byAbort => exact ledger.continues (wire.finish_continues byAbort)
  | rest => exact ledger

/-- At most one file is asked for, and when it is, the server is done with all the others. -/
def AsksInTurn (wire wire' : Wire) : Prop :=
  wire'.sent = wire.sent ∨
    (wire'.sent = wire.sent + 1 ∧ wire.phase = .idle ∧ wire.served = wire.sent)

theorem Handshake.asks (handshake : Handshake twice status wire status' wire')
    (agree : wire.Agree status) : AsksInTurn wire wire' := by
  cases handshake with
  | asked asked done =>
    cases asked with
    | started path =>
      obtain ⟨phase, silent⟩ := done rfl (List.cons_ne_nil _ _)
      exact .inr ⟨rfl, phase, (agree.quiet phase silent).served⟩
    | idle => exact .inl rfl
    | rejects => exact .inl rfl
    | queued => exact .inl rfl
    | aborts _ => exact .inl rfl
    | waits _ => exact .inl rfl
    | again _ _ => exact .inl rfl
  | reply next reply =>
    cases reply with
    | replaced path =>
      have answering := Wire.hears_header agree next
      exact .inr ⟨rfl, answering.phase, answering.served⟩
    | restarted ends path =>
      have quiet := Wire.Running.hears_end agree ends next
      exact .inr ⟨rfl, quiet.phase, quiet.served⟩
    | unwanted _ => exact .inl rfl
    | accepted => exact .inl rfl
    | refused => exact .inl rfl
    | rejected _ => exact .inl rfl
    | received _ => exact .inl rfl
    | sufficed _ => exact .inl rfl
    | exceeded _ => exact .inl rfl
    | finished _ => exact .inl rfl
    | late _ => exact .inl rfl
    | aborted _ => exact .inl rfl
  | serve choice =>
    rcases wire.serve_cases choice with ⟨_, _, _, _, _, is⟩ | continues
    · exact .inl (by rw [is])
    · exact .inl continues.sent
  | push data => exact .inl (wire.push_continues data).sent
  | finish byAbort => exact .inl (wire.finish_continues byAbort).sent
  | rest => exact .inl rfl

theorem Wire.Agree.data (agree : wire.Agree status) {number : Nat} {data : List Byte}
    {rest : List (Nat × ServerMessage)}
    (next : wire.toClient = (number, .filePacket data) :: rest) : number = wire.sent := by
  have waits : wire.Asking ∨ (∃ accepted, wire.Answering accepted) → number = wire.sent := by
    rintro (asking | ⟨accepted, answering⟩)
    · rw [asking.silent] at next
      cases next
    · rw [answering.answer] at next
      exact (Prod.mk.inj (List.cons.inj next).1).1.symm
  cases status with
  | nothing =>
    rcases agree with quiet | running
    · rw [quiet.silent] at next
      cases next
    · exact (running.next next).1
  | waitAcceptAndContinue => exact waits agree
  | waitAcceptAndReject => exact waits agree
  | transferInProgress => exact (Wire.Running.next agree next).1
  | waitAbortResponse => exact (Wire.Running.next agree next).1
  | finished => exact agree.elim

namespace FileSession

variable {session : FileSession}

/-- A step of an orderly transfer. A request comes to a server that is idle, each file that the
server accepts is confirmed or rejected once, none is aborted twice, data of an aborted or an earlier
file is dropped, and a file can be asked for when everything is over. -/
structure Orderly (session : FileSession) (event : SessionEvent) : Prop where
  runs : (machine.output session event).isOk = true
  asks : AsksInTurn session.wire (machine.next session event).wire
  reads : ∀ packet ∈ session.wire.toServer.head?,
    packet.contentType = contentFileTransferRequest → session.wire.phase = .idle
  confirmed : ∀ number ∈ (machine.next session event).wire.accepted,
    (machine.next session event).wire.confirmed.count number +
      (machine.next session event).wire.acceptsUnderWay number = 1
  aborted : ∀ number, (machine.next session event).wire.aborted.count number ≤ 1
  attributed : ∀ number data rest, session.wire.toClient = (number, .filePacket data) :: rest →
    number ≠ session.wire.sent ∨ number ∈ session.wire.aborted →
      session.list.receiveVncFileData data = .ok (session.list, .empty)
  ready : (machine.next session event).wire.Settled →
    ∀ req, (machine.next session event).list.startsFile req = true →
      ∃ list' result path, (machine.next session event).list.rdpRequestedFile req =
        .ok (list', result) ∧ result.vncData = [fileRequest path]

/-- What holds between two events of an orderly transfer. -/
structure Recorded (session : FileSession) : Prop extends session.Joint where
  ledger : session.wire.Ledger session.list.status

theorem start_recorded (files : Files) : (start files).Recorded :=
  ⟨start_joint files, Wire.start_ledger⟩

theorem Recorded.next (recorded : session.Recorded) {event : SessionEvent}
    (foreseen : session.Foreseen event) (once : ¬ session.Twice event) :
    (machine.next session event).Recorded := by
  have joint := recorded.toJoint
  have handshake := (step_stays joint foreseen).1.handshake
  exact ⟨joint.next foreseen, handshake.ledger joint.agree recorded.ledger once⟩

/-- Data of a file that is not the last one, or has been aborted, goes nowhere. -/
theorem Recorded.drops (recorded : session.Recorded) {number : Nat} {data : List Byte}
    {rest : List (Nat × ServerMessage)}
    (next : session.wire.toClient = (number, .filePacket data) :: rest)
    (stale : number ≠ session.wire.sent ∨ number ∈ session.wire.aborted) :
    session.list.receiveVncFileData data = .ok (session.list, .empty) := by
  have last := recorded.agree.data next
  rcases stale with earlier | aborted
  · exact absurd last earlier
  · refine FileList.data_ignored recorded.inv ?_ data
    intro transfers
    rw [last] at aborted
    exact recorded.ledger.unaborted (.inr transfers) aborted

theorem Joint.ready (joint : session.Joint) (settled : session.wire.Settled)
    {req : FileContentsRequest} (starts : session.list.startsFile req = true) :
    ∃ list' result path, session.list.rdpRequestedFile req = .ok (list', result) ∧
      result.vncData = [fileRequest path] := by
  have idle := joint.agree.settled settled
  obtain ⟨list', result, called, _, _, requested⟩ :=
    FileList.rdpRequestedFile_free joint.inv (joint.inv.idle idle) req
  unfold FileList.Requested at requested
  rw [idle] at requested
  rcases requested with ⟨other, _⟩ | ⟨_, _, path, packets⟩
  · rw [starts] at other
    cases other
  · exact ⟨list', result, path, called, packets⟩

theorem Recorded.orderly (recorded : session.Recorded) {event : SessionEvent}
    (foreseen : session.Foreseen event) (once : ¬ session.Twice event) :
    session.Orderly event := by
  have joint := recorded.toJoint
  have stays := (step_stays joint foreseen).1
  have after := recorded.next foreseen once
  constructor
  · exact stays.runs
  · exact stays.handshake.asks joint.agree
  · intro packet first request
    obtain ⟨rest, queue⟩ : ∃ rest, session.wire.toServer = packet :: rest := by
      rcases List.head?_eq_some_iff.mp first with ⟨rest, queue⟩
      exact ⟨rest, queue⟩
    exact (joint.agree.asking queue request).1.phase
  · exact after.ledger.once
  · exact List.nodup_iff_count_le_one.mp after.ledger.single
  · intro number data rest next stale
    exact recorded.drops next stale
  · intro settled req starts
    exact after.toJoint.ready settled starts

/-- In a run of events that the transfer is ready for, whatever their order, the transfer is
orderly. -/
theorem handshake_orderly (files : Files) (events : List SessionEvent)
    (ready : machine.EveryStep (fun session event => session.Foreseen event ∧
      ¬ session.Twice event) (start files) events) :
    machine.EveryStep Orderly (start files) events :=
  Machine.everyStep_of_invariant
    (fun _ _ recorded allowed => recorded.next allowed.1 allowed.2)
    (fun _ _ recorded allowed => recorded.orderly allowed.1 allowed.2)
    (start_recorded files) ready

/-- The second file is wanted while the first one is sent, and stopped before it is. -/
theorem handshake_orderly_two :
    machine.EveryStep Orderly (start twoFiles)
      [askFor 1 0 0 8, .serve true, .deliver, .serve true, .push [1, 2], askFor 2 1 0 8, .deliver,
        .serve true, .deliver, .serve true, .stop, .deliver, .serve false] :=
  handshake_orderly twoFiles _ (by decide)

/-- The second file is asked for while the server still sends the first one; a third one aborts the
first one again. -/
theorem handshake_orderly_early :
    ¬ machine.EveryStep Orderly (start twoFiles)
      [askFor 1 0 0 1, .serve true, .deliver, .serve true, .push [1], .deliver, askFor 2 1 0 8] ∧
    ¬ machine.EveryStep Orderly (start twoFiles)
      [askFor 1 0 0 8, .serve true, .deliver, askFor 2 1 0 8, askFor 3 0 0 8] := by
  constructor
  · rintro ⟨_, _, _, _, _, _, last, _⟩
    rcases last.asks with same | ⟨_, phase, _⟩
    · exact absurd same (by decide)
    · exact absurd phase (by decide)
  · rintro ⟨_, _, _, _, last, _⟩
    exact absurd (last.aborted 1) (by decide)

end FileSession

end Redemption.FileTransfer
