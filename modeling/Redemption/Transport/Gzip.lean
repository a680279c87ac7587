import Redemption.Foundation.ByteStream
import Redemption.Foundation.StreamCodec

/-! The transports that compress a recording with zlib, block by block. -/
namespace Redemption.Transport.Gzip

open Redemption.Foundation

/-- `GZIP_COMPRESSION_TRANSPORT_BUFFER_LENGTH`. -/
def bufferLength : Nat := 1024 * 64

inductive ErrorId where
  | transportReadFailed
  | transportNoMoreData
  deriving DecidableEq, Repr

/-- What the target of a `SequencedTransport` is told. -/
inductive TargetCall where
  | send (bytes : List Byte)
  | next
  deriving DecidableEq, Repr

/-- The bytes of all segments that a target was given, one after the other. -/
def targetBytes (calls : List TargetCall) : List Byte :=
  calls.flatMap fun
    | .send bytes => bytes
    | .next => []

/-- `GZipCompressionOutTransport`; neither of its buffers is ever left full. -/
structure OutTransport (zlib : StreamCodec Byte) where
  target : List TargetCall
  compressionStream : zlib.Deflate
  resetCompressor : Bool
  uncompressedData : List Byte
  compressedData : List Byte
  uncompressedRoom : uncompressedData.length < bufferLength
  compressedRoom : compressedData.length < bufferLength

namespace OutTransport

variable {zlib : StreamCodec Byte}

def fresh (zlib : StreamCodec Byte) : OutTransport zlib where
  target := []
  compressionStream := zlib.deflateInit
  resetCompressor := false
  uncompressedData := []
  compressedData := []
  uncompressedRoom := by decide
  compressedRoom := by decide

/-- The header of a block: whether a new stream starts, and how many bytes follow. -/
def blockHeader (reset : Bool) (length : Nat) : List Byte :=
  (if reset then 1 else 0) :: leBytes 4 length

def sendBlock (out : OutTransport zlib) (bytes : List Byte) : OutTransport zlib :=
  { out with
    target := out.target ++ [.send (blockHeader out.resetCompressor bytes.length), .send bytes]
    resetCompressor := false
    compressedData := []
    compressedRoom := by decide }

def sendToTarget (out : OutTransport zlib) : OutTransport zlib :=
  if out.compressedData = [] then out else out.sendBlock out.compressedData

/-- Copy compressed data to the buffer, and send it whenever the buffer is full. -/
def collect (out : OutTransport zlib) (bytes : List Byte) : OutTransport zlib :=
  if _nonempty : bytes = [] then out
  else
    let numberOfBytesToCopy := min (bufferLength - out.compressedData.length) bytes.length
    let filled := out.compressedData ++ bytes.take numberOfBytesToCopy
    let rest := bytes.drop numberOfBytesToCopy
    if room : filled.length < bufferLength then
      collect { out with compressedData := filled, compressedRoom := room } rest
    else collect (out.sendBlock filled) rest
termination_by bytes.length
decreasing_by
  all_goals
    have := out.compressedRoom
    have := List.length_pos_of_ne_nil _nonempty
    simp only [List.length_drop]
    omega

@[simp] theorem compressionStream_sendBlock (out : OutTransport zlib) (bytes : List Byte) :
    (out.sendBlock bytes).compressionStream = out.compressionStream := rfl

@[simp] theorem compressionStream_collect (out : OutTransport zlib) (bytes : List Byte) :
    (out.collect bytes).compressionStream = out.compressionStream := by
  induction out, bytes using collect.induct with
  | case1 out => rw [collect, dif_pos rfl]
  | case2 out bytes nonempty _ _ _ room ih => rw [collect, dif_neg nonempty, dif_pos room, ih]
  | case3 out bytes nonempty _ _ _ full ih =>
    rw [collect, dif_neg nonempty, dif_neg full, ih, compressionStream_sendBlock]

/-- `compress`: call `deflate` until it does not fill the buffer. -/
def compress (out : OutTransport zlib) (data : List Byte) (finish : Bool) : OutTransport zlib :=
  let call := zlib.deflate out.compressionStream data finish bufferLength
  let after := { out with compressionStream := call.state }.collect call.output
  if call.output.length = bufferLength then compress after call.nextIn finish else after
termination_by zlib.bound out.compressionStream data finish
decreasing_by
  rename_i full
  have least := zlib.deflate_bound out.compressionStream data finish bufferLength
  have positive : 0 < bufferLength := by decide
  change zlib.bound (OutTransport.collect _ _).compressionStream _ finish < _
  rw [compressionStream_collect]
  change (zlib.deflate out.compressionStream data finish bufferLength).output.length = _ at full
  simp only
  omega

/-- `do_send`: data is compressed in pieces of the size of the buffer. -/
def doSend (out : OutTransport zlib) (data : List Byte) : OutTransport zlib :=
  if _nonempty : data = [] then out
  else if out.uncompressedData ≠ [] then
    let dataLength := min data.length (bufferLength - out.uncompressedData.length)
    let filled := out.uncompressedData ++ data.take dataLength
    let rest := data.drop dataLength
    if room : filled.length < bufferLength then
      doSend { out with uncompressedData := filled, uncompressedRoom := room } rest
    else
      doSend { out.compress filled false with
        uncompressedData := []
        uncompressedRoom := by decide } rest
  else if room : data.length < bufferLength then
    { out with uncompressedData := data, uncompressedRoom := room }
  else doSend (out.compress (data.take bufferLength) false) (data.drop bufferLength)
termination_by data.length
decreasing_by
  all_goals
    have := out.uncompressedRoom
    have := List.length_pos_of_ne_nil _nonempty
    have : 0 < bufferLength := by decide
    try simp only [rest]
    rw [List.length_drop]
    omega

/-- What `next` and the destructor do first: finish the stream if there is uncompressed data,
and send what is compressed. -/
def flushAll (out : OutTransport zlib) : OutTransport zlib :=
  let finished :=
    if out.uncompressedData ≠ [] then
      { out.compress out.uncompressedData true with
        uncompressedData := []
        uncompressedRoom := by decide }
    else out
  finished.sendToTarget

def next (out : OutTransport zlib) : OutTransport zlib :=
  { out.flushAll with
    target := out.flushAll.target ++ [.next]
    compressionStream := zlib.deflateInit
    resetCompressor := true }

/-- The calls of a user. -/
inductive Call where
  | send (data : List Byte)
  | next

def call (out : OutTransport zlib) : Call → OutTransport zlib
  | .send data => out.doSend data
  | .next => out.next

/-- All that a new transport has given to its target once it is destroyed. -/
def produced (zlib : StreamCodec Byte) (calls : List Call) : List Byte :=
  targetBytes ((calls.foldl call (fresh zlib)).flushAll).target

end OutTransport

/-- `GZipCompressionInTransport`, with what is left of its source. -/
structure InTransport (zlib : StreamCodec Byte) where
  source : List Byte
  compressionStream : zlib.Inflate
  nextIn : List Byte
  uncompressedData : List Byte
  inflatePending : Bool

namespace InTransport

variable {zlib : StreamCodec Byte}

def fresh (zlib : StreamCodec Byte) (source : List Byte) : InTransport zlib where
  source
  compressionStream := zlib.inflateInit
  nextIn := []
  uncompressedData := []
  inflatePending := false

/-- `atomic_read` of the source: all bytes asked for, or the end if there are none. -/
def atomicRead (source : List Byte) (length : Nat) :
    Except ErrorId (Option (List Byte × List Byte)) :=
  if length ≤ source.length then .ok (some (source.take length, source.drop length))
  else if source = [] then .ok none
  else .error .transportNoMoreData

/-- `recv_boom` of the source: the end is an error as well. -/
def recvBoom (source : List Byte) (length : Nat) : Except ErrorId (List Byte × List Byte) := do
  match ← atomicRead source length with
  | some read => return read
  | none => throw .transportNoMoreData

/-- Inflate what has been read, as far as the buffer has room. -/
def inflateNext (input : InTransport zlib) : InTransport zlib :=
  let call := zlib.inflate input.compressionStream input.nextIn bufferLength
  { input with
    compressionStream := call.state
    nextIn := call.nextIn
    uncompressedData := call.output
    inflatePending := call.ok && call.output.length == bufferLength }

/-- The header of the next block and the block, if there is one. -/
def readBlock (input : InTransport zlib) : Except ErrorId (Option (InTransport zlib)) := do
  match ← atomicRead input.source 5 with
  | none => return none
  | some (header, source) =>
    let compressedDataLength := leValue (header.drop 1)
    if bufferLength < compressedDataLength then throw .transportReadFailed
    else
      let (block, source) ← recvBoom source compressedDataLength
      return some { input with
        source
        compressionStream :=
          if header.head? = some 1 then zlib.inflateInit else input.compressionStream
        nextIn := block }

/-- Get more uncompressed data, out of the next block unless there is more of the last. -/
def refill (input : InTransport zlib) : Except ErrorId (Option (InTransport zlib)) :=
  if input.inflatePending then .ok (some input.inflateNext)
  else do
    let ready ← input.readBlock
    return ready.map inflateNext

theorem readBlock_shorter {input ready : InTransport zlib}
    (read : input.readBlock = .ok (some ready)) : ready.source.length < input.source.length := by
  unfold readBlock atomicRead at read
  split at read
  · rw [ok_bind] at read
    simp only at read
    split at read
    · cases read
    · obtain ⟨⟨block, source⟩, received, rest⟩ := bind_ok_iff.mp read
      cases rest
      unfold recvBoom atomicRead at received
      split at received
      · cases received
        simp only [List.length_drop]
        omega
      · split at received <;> cases received
  · split at read <;> cases read

/-- A block that is read makes the source shorter; otherwise there was pending output. -/
theorem refill_shorter {input after : InTransport zlib}
    (refilled : input.refill = .ok (some after)) :
    after.source.length < input.source.length ∨
      input.inflatePending = true ∧ after.source = input.source ∧
        (after.inflatePending = true → after.uncompressedData ≠ []) := by
  unfold refill at refilled
  split at refilled
  · rename_i pending
    cases refilled
    refine .inr ⟨pending, rfl, fun still empty => ?_⟩
    have full : (zlib.inflate input.compressionStream input.nextIn bufferLength).output.length =
        bufferLength := by
      simp only [inflateNext, Bool.and_eq_true, beq_iff_eq] at still
      exact still.2
    simp only [inflateNext] at empty
    rw [empty] at full
    exact absurd full (by decide)
  · left
    obtain ⟨ready, read, rest⟩ := bind_ok_iff.mp refilled
    cases ready with
    | none => cases rest
    | some ready =>
      cases rest
      have shorter := readBlock_shorter read
      exact shorter

/-- `do_atomic_read`: the bytes asked for, or nothing when the source ends before. -/
def doAtomicRead (input : InTransport zlib) (remainingSize : Nat) (read : List Byte) :
    Except ErrorId (Option (List Byte) × InTransport zlib) :=
  if remainingSize = 0 then .ok (some read, input)
  else if _nonempty : input.uncompressedData ≠ [] then
    let dataLength := min remainingSize input.uncompressedData.length
    doAtomicRead { input with uncompressedData := input.uncompressedData.drop dataLength }
      (remainingSize - dataLength) (read ++ input.uncompressedData.take dataLength)
  else
    match _refilled : input.refill with
    | .error error => .error error
    | .ok none => .ok (none, input)
    | .ok (some after) => doAtomicRead after remainingSize read
termination_by (remainingSize, input.source.length,
  if input.uncompressedData = [] then 1 + input.inflatePending.toNat else 0)
decreasing_by
  · left
    have := List.length_pos_of_ne_nil _nonempty
    omega
  · right
    rcases refill_shorter _refilled with shorter | ⟨pending, same, more⟩
    · left
      exact shorter
    · rw [same]
      right
      have none : input.uncompressedData = [] := by simpa using _nonempty
      simp only [none, if_true, pending]
      split
      · rename_i gone
        cases still : after.inflatePending with
        | true => exact absurd gone (more still)
        | false => decide
      · decide

end InTransport

end Redemption.Transport.Gzip
