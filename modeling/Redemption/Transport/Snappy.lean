import Redemption.Foundation.Region
import Redemption.Transport.Gzip

/-! The transports that compress a recording with snappy, chunk by chunk. -/
namespace Redemption.Transport.Snappy

open Redemption.Foundation
open Gzip (ErrorId TargetCall)

/-- `SNAPPY_COMPRESSION_TRANSPORT_BUFFER_LENGTH`. -/
def bufferLength : Nat := 1024 * 64

/-- `MAX_UNCOMPRESSED_DATA_LENGTH`. -/
def maxUncompressedDataLength : Nat := 56000

/-- The snappy library: what it makes of bytes, and what a call that fails has written by then. -/
structure Library where
  compressed : List Byte → List Byte
  uncompressed : List Byte → Option (List Byte)
  spoiled : List Byte → List Byte

namespace Library

variable (snappy : Library)

/-- `snappy_max_compressed_length`. -/
def maxCompressedLength (length : Nat) : Nat := 32 + length + length / 6

/-- `snappy_compress`, where the output has so much room. -/
def compress (data : List Byte) (room : Nat) : Option (List Byte) :=
  if maxCompressedLength data.length ≤ room then some (snappy.compressed data) else none

/-- `snappy_uncompress`, where the output has so much room. -/
def uncompress (data : List Byte) (room : Nat) : Option (List Byte) :=
  (snappy.uncompressed data).filter fun bytes => bytes.length ≤ room

/-- What the call writes, and the length it leaves: that of the data, or the room it was told of where
it fails. -/
def uncompressInto (data : List Byte) (room : Nat) : List Byte × Nat :=
  match snappy.uncompress data room with
  | some bytes => (bytes, bytes.length)
  | none => ((snappy.spoiled data).take room, room)

theorem uncompressInto_le (data : List Byte) (room : Nat) :
    (snappy.uncompressInto data room).1.length ≤ room ∧
      (snappy.uncompressInto data room).2 ≤ room := by
  unfold uncompressInto
  split
  · rename_i bytes accepted
    have fits := of_decide_eq_true (Option.filter_eq_some_iff.mp accepted).2
    exact ⟨fits, fits⟩
  · rw [List.length_take]
    exact ⟨Nat.min_le_left _ _, Nat.le_refl _⟩

/-- What is documented of the library. -/
structure Exact : Prop where
  inverse : ∀ data, snappy.uncompressed (snappy.compressed data) = some data
  bounded : ∀ data, (snappy.compressed data).length ≤ maxCompressedLength data.length

end Library

/-- `SnappyCompressionOutTransport`; its buffer is never left full. -/
structure OutTransport where
  target : List TargetCall
  uncompressedData : Buffer Byte bufferLength
  uncompressedDataLength : Nat
  notFull : uncompressedDataLength < maxUncompressedDataLength

namespace OutTransport

def fresh : OutTransport where
  target := []
  uncompressedData := .filled 0
  uncompressedDataLength := 0
  notFull := by decide

variable (snappy : Library) (memory : Buffer Byte bufferLength)

/-- `compress`: the chunk that is sent; `memory` is what the stream happens to hold. -/
def compress (data : List Byte) : Checked ErrorId (List Byte) := do
  let capacity := bufferLength - 2
  let (dataStream, compressedDataLength) ←
    match snappy.compress data capacity with
    | some bytes => (·, bytes.length) <$> memory.storeBlock 2 bytes
    | none => (·, capacity) <$> memory.storeBlock 2 ((snappy.spoiled data).take capacity)
  let dataStream ← dataStream.storeBlock 0 (leBytes 2 compressedDataLength)
  dataStream.loadBlock 0 (2 + compressedDataLength)

/-- Send the chunk that the buffer holds, where there is anything in it. -/
def flush (out : OutTransport) : Checked ErrorId OutTransport :=
  if out.uncompressedDataLength ≠ 0 then do
    let data ← out.uncompressedData.loadBlock 0 out.uncompressedDataLength
    let chunk ← compress snappy memory data
    return { out with
      target := out.target ++ [.send chunk]
      uncompressedDataLength := 0
      notFull := by decide }
  else .ok out

/-- `do_send`. -/
def doSend (out : OutTransport) (tempData : List Byte) : Checked ErrorId OutTransport :=
  if some' : tempData.length ≠ 0 then
    if out.uncompressedDataLength ≠ 0 then
      let dataLength :=
        min tempData.length (maxUncompressedDataLength - out.uncompressedDataLength)
      do
        let uncompressedData ←
          out.uncompressedData.storeBlock out.uncompressedDataLength (tempData.take dataLength)
        if full : out.uncompressedDataLength + dataLength = maxUncompressedDataLength then do
          let data ← uncompressedData.loadBlock 0 maxUncompressedDataLength
          let chunk ← compress snappy memory data
          doSend { out with
            target := out.target ++ [.send chunk]
            uncompressedData
            uncompressedDataLength := 0
            notFull := by decide } (tempData.drop dataLength)
        else
          doSend { out with
            uncompressedData
            uncompressedDataLength := out.uncompressedDataLength + dataLength
            notFull := by
              have := out.notFull
              omega } (tempData.drop dataLength)
    else if large : maxUncompressedDataLength ≤ tempData.length then do
      let chunk ← compress snappy memory (tempData.take maxUncompressedDataLength)
      doSend { out with target := out.target ++ [.send chunk] }
        (tempData.drop maxUncompressedDataLength)
    else do
      let uncompressedData ← out.uncompressedData.storeBlock 0 tempData
      return { out with
        uncompressedData
        uncompressedDataLength := tempData.length
        notFull := Nat.not_le.mp large }
  else .ok out
termination_by tempData.length
decreasing_by
  all_goals
    have := out.notFull
    have : 0 < maxUncompressedDataLength := by decide
    rw [List.length_drop]
    omega

/-- `next`. -/
def next (out : OutTransport) : Checked ErrorId OutTransport := do
  let out ← out.flush snappy memory
  return { out with target := out.target ++ [.next] }

def call (out : OutTransport) : Gzip.OutTransport.Call → Checked ErrorId OutTransport
  | .send data => out.doSend snappy memory data
  | .next => out.next snappy memory

/-- The target of a new transport once it is destroyed. -/
def produced (calls : List Gzip.OutTransport.Call) : Checked ErrorId (List TargetCall) := do
  let out ← calls.foldlM (call snappy memory) fresh
  let out ← out.flush snappy memory
  return out.target

end OutTransport

/-- `SnappyCompressionInTransport`, with what is left of its source. -/
structure InTransport where
  source : List Byte
  uncompressedData : Nat
  uncompressedDataLength : Nat
  uncompressedDataBuffer : Buffer Byte bufferLength

namespace InTransport

def fresh (source : List Byte) : InTransport := ⟨source, 0, 0, .filled 0⟩

/-- What the source answers. -/
def ofSource {α : Type} (answer : Except ErrorId α) : Checked ErrorId α :=
  match answer with
  | .ok value => .ok value
  | .error error => .error (.raised error)

def fill (room : Nat) (bytes : List Byte) : Checked ErrorId (List Byte) :=
  if bytes.length ≤ room then .ok bytes else .error .outOfBounds

variable (snappy : Library)

/-- Uncompress a chunk. The length is that of the whole buffer unless the call sets it; that it has
failed is logged. -/
def uncompressChunk (input : InTransport) (dataBuf : List Byte) : Checked ErrorId InTransport := do
  let (bytes, length) := snappy.uncompressInto dataBuf bufferLength
  let uncompressedDataBuffer ← input.uncompressedDataBuffer.storeBlock 0 bytes
  return { input with
    uncompressedData := 0
    uncompressedDataLength := length
    uncompressedDataBuffer }

/-- The next chunk of the source, if there is one. -/
def readChunk (input : InTransport) : Checked ErrorId (Option InTransport) := do
  match ← ofSource (Gzip.InTransport.atomicRead input.source 2) with
  | none => return none
  | some (header, source) =>
    let header ← fill bufferLength header
    let (chunk, source) ← ofSource (Gzip.InTransport.recvBoom source (leValue header))
    let dataBuf ← fill bufferLength chunk
    let after ← uncompressChunk snappy { input with source } dataBuf
    return some after

variable {snappy} {input : InTransport}

theorem uncompressChunk_eq (chunk : List Byte) :
    uncompressChunk snappy input chunk = .ok { input with
      uncompressedData := 0
      uncompressedDataLength := (snappy.uncompressInto chunk bufferLength).2
      uncompressedDataBuffer :=
        input.uncompressedDataBuffer.splice 0 (snappy.uncompressInto chunk bufferLength).1 } := by
  have room := (snappy.uncompressInto_le chunk bufferLength).1
  rw [← Nat.zero_add (List.length _)] at room
  simp only [uncompressChunk, Buffer.storeBlock_of_le _ room]
  rfl

/-- The size of the chunk that a source starts with. -/
def chunkLength (source : List Byte) : Nat := leValue (source.take 2)

theorem chunkLength_lt (source : List Byte) : chunkLength source < 2 ^ 16 := by
  have bounded := leValue_lt (source.take 2)
  have short : (source.take 2).length ≤ 2 := List.length_take_le 2 source
  have power : 2 ^ (8 * (source.take 2).length) ≤ 2 ^ 16 :=
    Nat.pow_le_pow_right (by decide) (by omega)
  exact Nat.lt_of_lt_of_le bounded power

theorem readChunk_ended (ended : input.source = []) : input.readChunk snappy = .ok none := by
  unfold readChunk
  rw [ended]
  rfl

theorem readChunk_cut (some' : input.source ≠ [])
    (cut : input.source.length < 2 + chunkLength input.source) :
    ∃ error, input.readChunk snappy = .error (.raised error) := by
  unfold readChunk Gzip.InTransport.atomicRead
  by_cases header : 2 ≤ input.source.length
  · have short : ¬chunkLength input.source ≤ (input.source.drop 2).length := by
      rw [List.length_drop]
      omega
    have received : ∃ error, Gzip.InTransport.recvBoom (input.source.drop 2)
        (chunkLength input.source) = .error error := by
      unfold Gzip.InTransport.recvBoom Gzip.InTransport.atomicRead
      rw [if_neg short]
      split
      · exact ⟨_, rfl⟩
      · exact ⟨_, rfl⟩
    obtain ⟨error, received⟩ := received
    have room : (input.source.take 2).length ≤ bufferLength :=
      Nat.le_trans (List.length_take_le 2 _) (by decide)
    refine ⟨error, ?_⟩
    rw [if_pos header]
    simp only [ofSource, ok_bind, fill, if_pos room]
    rw [← chunkLength, received]
    rfl
  · rw [if_neg header, if_neg some']
    exact ⟨_, rfl⟩

/-- A source that starts with a whole chunk. -/
theorem readChunk_whole (whole : 2 + chunkLength input.source ≤ input.source.length) :
    input.readChunk snappy = .ok (some {
      source := input.source.drop (2 + chunkLength input.source)
      uncompressedData := 0
      uncompressedDataLength := (snappy.uncompressInto
        ((input.source.drop 2).take (chunkLength input.source)) bufferLength).2
      uncompressedDataBuffer := input.uncompressedDataBuffer.splice 0 (snappy.uncompressInto
        ((input.source.drop 2).take (chunkLength input.source)) bufferLength).1 }) := by
  have header : 2 ≤ input.source.length := by omega
  have there : chunkLength input.source ≤ (input.source.drop 2).length := by
    rw [List.length_drop]
    omega
  have received : Gzip.InTransport.recvBoom (input.source.drop 2) (chunkLength input.source) =
      .ok ((input.source.drop 2).take (chunkLength input.source),
        (input.source.drop 2).drop (chunkLength input.source)) := by
    unfold Gzip.InTransport.recvBoom Gzip.InTransport.atomicRead
    rw [if_pos there]
    rfl
  have room : (input.source.take 2).length ≤ bufferLength :=
    Nat.le_trans (List.length_take_le 2 _) (by decide)
  have room' : ((input.source.drop 2).take (chunkLength input.source)).length ≤ bufferLength := by
    have small := chunkLength_lt input.source
    rw [List.length_take_of_le there]
    exact Nat.le_of_lt small
  unfold readChunk Gzip.InTransport.atomicRead
  rw [if_pos header]
  simp only [ofSource, ok_bind, fill, if_pos room]
  rw [← chunkLength, received]
  simp only [ok_bind, if_pos room', uncompressChunk_eq, pure_ok, List.drop_drop]

theorem readChunk_shorter {after : InTransport}
    (read : input.readChunk snappy = .ok (some after)) :
    after.source.length < input.source.length := by
  by_cases ended : input.source = []
  · rw [readChunk_ended ended] at read
    cases read
  by_cases whole : 2 + chunkLength input.source ≤ input.source.length
  · rw [readChunk_whole whole] at read
    cases read
    rw [List.length_drop]
    omega
  · obtain ⟨error, raised⟩ := @readChunk_cut snappy _ ended (Nat.not_le.mp whole)
    rw [raised] at read
    cases read

variable (snappy)

/-- `do_atomic_read`, with `remainingSize` bytes of the `len` that are asked for still to come. -/
def doAtomicRead {len : Nat} (input : InTransport) (remainingSize : Nat) (buffer : Buffer Byte len) :
    Checked ErrorId (Option (Buffer Byte len) × InTransport) :=
  if _some : remainingSize ≠ 0 then
    if _there : input.uncompressedDataLength ≠ 0 then
      let dataLength := min remainingSize input.uncompressedDataLength
      do
        let data ← input.uncompressedDataBuffer.loadBlock input.uncompressedData dataLength
        let buffer ← buffer.storeBlock (len - remainingSize) data
        doAtomicRead { input with
          uncompressedData := input.uncompressedData + dataLength
          uncompressedDataLength := input.uncompressedDataLength - dataLength }
          (remainingSize - dataLength) buffer
    else
      match _chunk : input.readChunk snappy with
      | .error fault => .error fault
      | .ok none =>
        if remainingSize = len then .ok (none, input)
        else .error (.raised .transportReadFailed)
      | .ok (some after) => doAtomicRead after remainingSize buffer
  else .ok (some buffer, input)
termination_by (remainingSize, input.source.length)
decreasing_by
  · left
    omega
  · right
    exact readChunk_shorter _chunk

end InTransport

end Redemption.Transport.Snappy
