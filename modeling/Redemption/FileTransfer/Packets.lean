import Mathlib.Data.List.Basic
import Redemption.Foundation.ByteStream

/-! The packets of the file transfer of UltraVNC, and the ones that ask for a file. -/
namespace Redemption.FileTransfer

open Redemption.Foundation

/-- `FileTransferHeader`, and what follows it. -/
structure FtPacket where
  contentType : Byte
  contentParam : BitVec 16
  sizeOrOther : BitVec 32
  dataLen : BitVec 32
  text : List Byte
  deriving DecidableEq, Repr

/-- The length of `pkt::Header` when it is written, which the type of the message is part of. -/
def headerPacketSize : Nat := 12

/-- `FileTransferHeader::pdu_len()`; the type of the message is none of its fields. -/
def fileTransferHeaderLen : Nat := 11

/-- `WINNT_MAX_PATH_SIZE_WITHOUT_NULL`. -/
def maxPathLength : Nat := 259

/-- `file_request_pdu_max_len`. -/
def fileRequestPduMaxLen : Nat := fileTransferHeaderLen + maxPathLength

def contentFileTransferRequest : Byte := 3
def contentFileHeader : Byte := 4
def contentAbortFileTransfer : Byte := 7

/-- What stands in the place of a size where there was an error. -/
def uvncFtErrorCode32 : BitVec 32 := 0xFFFFFFFF

def abortFileTransferPdu : FtPacket := ⟨contentAbortFileTransfer, 3, 0, 0, []⟩

def confirmRequestedFileOk : FtPacket := ⟨contentFileHeader, 0, 0, 0, []⟩

/-- `confirm_requested_file_failure`: the last four bytes of the header are `0xff`. -/
def confirmRequestedFileFailure : FtPacket := ⟨contentFileHeader, 0, 0, 0xFFFFFFFF, []⟩

def fileRequest (path : List Byte) : FtPacket :=
  ⟨contentFileTransferRequest, 0, 0, BitVec.ofNat 32 path.length, path⟩

namespace FtPacket

/-- The number of bytes that a packet takes. -/
def size (packet : FtPacket) : Nat := headerPacketSize + packet.text.length

end FtPacket

/-- What has been written to a stream of `capacity` bytes. -/
structure PacketStream where
  capacity : Nat
  packets : List FtPacket

namespace PacketStream

def used (stream : PacketStream) : Nat := (stream.packets.map FtPacket.size).sum

/-- `out_copy_bytes`. -/
def copy (stream : PacketStream) (packet : FtPacket) : PacketStream :=
  { stream with packets := stream.packets ++ [packet] }

/-- `write_uncompressed_file_request`; the stream has no room for some requests. -/
def writeUncompressedFileRequest (stream : PacketStream) (path : List Byte) :
    Option PacketStream :=
  if stream.used + (fileRequest path).size ≤ stream.capacity then
    some (stream.copy (fileRequest path))
  else none

end PacketStream

/-! The server of the files, and the two channels between it and the transfer. -/

/-- What the server does: nothing, it waits for the confirmation of a file that it can send, or it
sends that file. -/
inductive ServerPhase where
  | idle
  | waitConfirm
  | sending
  deriving DecidableEq, Repr

inductive ServerMessage where
  | fileHeader (accepted : Bool)
  | filePacket (data : List Byte)
  | endOfFile
  | abortFileTransfer
  deriving DecidableEq, Repr

namespace ServerMessage

/-- How a transfer ends. -/
def ending (byAbort : Bool) : ServerMessage :=
  if byAbort then .abortFileTransfer else .endOfFile

def Ends (message : ServerMessage) : Prop := message = .endOfFile ∨ message = .abortFileTransfer

theorem ending_ends (byAbort : Bool) : (ending byAbort).Ends := by
  cases byAbort
  · exact .inl rfl
  · exact .inr rfl

theorem Ends.no_header {message : ServerMessage} (ends : message.Ends) (accepted : Bool) :
    message ≠ .fileHeader accepted := by
  rcases ends with is | is <;> rw [is] <;> exact ServerMessage.noConfusion

end ServerMessage

/-- The server, and what is under way to it and back. The requests of a file are counted when they
are sent, and when they are read; a message carries the number of its request. Of each number there
is a record of its acceptance, its confirmations and its aborts. -/
structure Wire where
  phase : ServerPhase
  toServer : List FtPacket
  toClient : List (Nat × ServerMessage)
  sent : Nat
  served : Nat
  accepted : List Nat
  confirmed : List Nat
  aborted : List Nat
  deriving DecidableEq, Repr

namespace Wire

def start : Wire := ⟨.idle, [], [], 0, 0, [], [], []⟩

/-- A packet is sent to the server. -/
def post (wire : Wire) (packet : FtPacket) : Wire :=
  { wire with
    toServer := wire.toServer ++ [packet]
    sent := if packet.contentType = contentFileTransferRequest then wire.sent + 1 else wire.sent
    confirmed := if packet.contentType = contentFileHeader then wire.confirmed ++ [wire.sent]
      else wire.confirmed
    aborted := if packet.contentType = contentAbortFileTransfer then wire.aborted ++ [wire.sent]
      else wire.aborted }

def postAll (wire : Wire) (packets : List FtPacket) : Wire := packets.foldl post wire

/-- The server reads a packet. It takes a request when it is idle, a confirmation when it waits for
one, and an abort of what it has accepted. -/
def read (wire : Wire) (packet : FtPacket) (choice : Bool) : Wire :=
  if packet.contentType = contentFileTransferRequest ∧ wire.phase = .idle then
    { wire with
      phase := if choice then .waitConfirm else .idle
      toClient := wire.toClient ++ [(wire.served + 1, .fileHeader choice)]
      served := wire.served + 1
      accepted := if choice then wire.accepted ++ [wire.served + 1] else wire.accepted }
  else if packet.contentType = contentFileHeader ∧ wire.phase = .waitConfirm then
    { wire with phase := if packet.sizeOrOther = uvncFtErrorCode32 then .idle else .sending }
  else if packet.contentType = contentAbortFileTransfer ∧ wire.phase ≠ .idle then
    { wire with
      phase := .idle
      toClient := wire.toClient ++ [(wire.served, .ending choice)] }
  else wire

/-- The server reads the next packet, if there is one. -/
def serve (wire : Wire) (choice : Bool) : Wire :=
  match wire.toServer with
  | [] => wire
  | packet :: rest => read { wire with toServer := rest } packet choice

/-- The server sends data of the file. -/
def push (wire : Wire) (data : List Byte) : Wire :=
  if wire.phase = .sending then
    { wire with toClient := wire.toClient ++ [(wire.served, .filePacket data)] }
  else wire

/-- The server is done with the file. -/
def finish (wire : Wire) (byAbort : Bool) : Wire :=
  if wire.phase = .sending then
    { wire with
      phase := .idle
      toClient := wire.toClient ++ [(wire.served, .ending byAbort)] }
  else wire

/-- The message that is read next is taken away. -/
def taken (wire : Wire) : Wire := { wire with toClient := wire.toClient.tail }

/-- Everything that has been asked for is over. -/
def Settled (wire : Wire) : Prop :=
  wire.phase = .idle ∧ wire.toClient = [] ∧
    ∀ packet ∈ wire.toServer, packet.contentType ≠ contentFileTransferRequest

instance (wire : Wire) : Decidable wire.Settled := by
  unfold Settled
  infer_instance

section Posts

variable {wire : Wire} {packet : FtPacket}

@[simp] theorem post_phase : (wire.post packet).phase = wire.phase := rfl

@[simp] theorem post_toServer : (wire.post packet).toServer = wire.toServer ++ [packet] := rfl

@[simp] theorem post_toClient : (wire.post packet).toClient = wire.toClient := rfl

@[simp] theorem post_served : (wire.post packet).served = wire.served := rfl

@[simp] theorem post_accepted : (wire.post packet).accepted = wire.accepted := rfl

theorem post_header (header : packet.contentType = contentFileHeader) :
    wire.post packet = { wire with
      toServer := wire.toServer ++ [packet], confirmed := wire.confirmed ++ [wire.sent] } := by
  unfold post
  rw [header]
  rfl

end Posts

section Reads

variable {wire : Wire}

theorem serve_nil (empty : wire.toServer = []) (choice : Bool) : wire.serve choice = wire := by
  rw [serve, empty]

theorem serve_inert (phase : wire.phase = .idle) {packet : FtPacket} {rest : List FtPacket}
    (queue : wire.toServer = packet :: rest)
    (other : packet.contentType ≠ contentFileTransferRequest) (choice : Bool) :
    wire.serve choice = { wire with toServer := rest } := by
  rw [serve, queue]
  simp only
  rw [read, if_neg fun both => other both.1,
    if_neg fun both => ServerPhase.noConfusion (both.2.symm.trans phase),
    if_neg fun both => both.2 phase]

/-- What the server does with a packet that is no request it takes. -/
structure Continues (wire wire' : Wire) : Prop where
  sent : wire'.sent = wire.sent
  served : wire'.served = wire.served
  accepted : wire'.accepted = wire.accepted
  confirmed : wire'.confirmed = wire.confirmed
  aborted : wire'.aborted = wire.aborted
  messages : ∃ more, wire'.toClient = wire.toClient ++ more ∧
    ∀ message ∈ more, ∀ accepted, message.2 ≠ .fileHeader accepted

theorem Continues.refl : Continues wire wire :=
  ⟨rfl, rfl, rfl, rfl, rfl, [], (List.append_nil _).symm, by simp⟩

theorem Continues.answers {message : ServerMessage}
    (other : ∀ accepted, message ≠ .fileHeader accepted) (phase : ServerPhase)
    (toServer : List FtPacket) :
    Continues wire { wire with
      phase, toServer, toClient := wire.toClient ++ [(wire.served, message)] } :=
  ⟨rfl, rfl, rfl, rfl, rfl, _, rfl, by simpa using other⟩

/-- The server answers a request that it reads when it is idle; otherwise it does no more than end a
transfer. -/
theorem serve_cases (wire : Wire) (choice : Bool) :
    (∃ packet rest, wire.toServer = packet :: rest ∧
        packet.contentType = contentFileTransferRequest ∧ wire.phase = .idle ∧
        wire.serve choice = { wire with
          phase := if choice then .waitConfirm else .idle
          toServer := rest
          toClient := wire.toClient ++ [(wire.served + 1, .fileHeader choice)]
          served := wire.served + 1
          accepted := if choice then wire.accepted ++ [wire.served + 1] else wire.accepted }) ∨
      Continues wire (wire.serve choice) := by
  unfold serve
  cases queue : wire.toServer with
  | nil => exact .inr .refl
  | cons packet rest =>
    simp only [read]
    by_cases request : packet.contentType = contentFileTransferRequest ∧ wire.phase = .idle
    · rw [if_pos request]
      exact .inl ⟨packet, rest, rfl, request.1, request.2, rfl⟩
    · rw [if_neg request]
      right
      split
      · exact ⟨rfl, rfl, rfl, rfl, rfl, [], (List.append_nil _).symm, by simp⟩
      · split
        · exact .answers (ServerMessage.ending_ends choice).no_header _ _
        · exact ⟨rfl, rfl, rfl, rfl, rfl, [], (List.append_nil _).symm, by simp⟩

theorem push_continues (wire : Wire) (data : List Byte) : Continues wire (wire.push data) := by
  unfold push
  split
  · exact .answers (fun _ => ServerMessage.noConfusion) _ _
  · exact .refl

theorem finish_continues (wire : Wire) (byAbort : Bool) :
    Continues wire (wire.finish byAbort) := by
  unfold finish
  split
  · exact .answers (ServerMessage.ending_ends byAbort).no_header _ _
  · exact .refl

end Reads

end Wire

end Redemption.FileTransfer
