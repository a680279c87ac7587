import Redemption.Capture.ImageChunk

/-! What is embedded is read back: the chunks of both sides agree, and the pixels in groups of four. -/
namespace Redemption.Capture

open Redemption.Foundation

/-- A chunk of an image. -/
def imageChunk (chunkType : WrmChunkType) (data : List Byte) : List Byte :=
  sendWrmChunk chunkType data.length 1 ++ data

namespace OutChunkedBuffering

variable {trans : OutChunkedBuffering} {all buffer : List Byte}

/-- What has been given is in full chunks that have been sent, and in the buffer, which is not empty
behind them. -/
structure Buffers (trans : OutChunkedBuffering) (partials : List (List Byte)) (all : List Byte) :
    Prop where
  full : ∀ data ∈ partials, data.length = max
  sent : trans.sent = partials.flatMap (imageChunk .partialImageChunk)
  whole : partials.flatten ++ trans.stream = all
  room : trans.stream.length ≤ max

variable {partials : List (List Byte)}

theorem Buffers.snoc (buffers : Buffers trans partials all)
    (long : max < trans.stream.length + buffer.length) :
    Buffers ⟨[], trans.sent ++ sendWrmChunk .partialImageChunk max 1 ++ trans.stream ++
        buffer.take (max - trans.stream.length)⟩
      (partials ++ [trans.stream ++ buffer.take (max - trans.stream.length)])
      (all ++ buffer.take (max - trans.stream.length)) := by
  have room := buffers.room
  have length : (trans.stream ++ buffer.take (max - trans.stream.length)).length = max := by
    rw [List.length_append, List.length_take]
    omega
  refine ⟨?_, ?_, ?_, Nat.zero_le _⟩
  · intro data member
    rcases List.mem_append.mp member with before | last
    · exact buffers.full data before
    · rw [List.mem_singleton.mp last]
      exact length
  · simp only [List.flatMap_append, List.flatMap_singleton, imageChunk, length, buffers.sent,
      List.append_assoc]
  · simp only [List.flatten_append, List.flatten_singleton, List.append_nil, ← buffers.whole,
      List.append_assoc]

/-- What is sent is buffered behind what there is, and full chunks are sent on. -/
theorem Buffers.doSend (buffers : Buffers trans partials all)
    (some : all ++ buffer ≠ [] → trans.stream ++ buffer ≠ []) :
    ∃ partials', Buffers (trans.doSend buffer) partials' (all ++ buffer) ∧
      (all ++ buffer ≠ [] → (trans.doSend buffer).stream ≠ []) := by
  induction trans, buffer using OutChunkedBuffering.doSend.induct generalizing partials all with
  | case1 trans buffer long toSend =>
    rename_i ih
    rw [OutChunkedBuffering.doSend, if_pos long]
    have split : all ++ buffer = all ++ buffer.take (max - trans.stream.length) ++
        buffer.drop (max - trans.stream.length) := by
      rw [List.append_assoc, List.take_append_drop]
    have behind : buffer.drop (max - trans.stream.length) ≠ [] := by
      rw [ne_eq, List.drop_eq_nil_iff]
      have room := buffers.room
      omega
    rw [split]
    exact ih (buffers.snoc long) fun _ => behind
  | case2 trans buffer short =>
    rw [OutChunkedBuffering.doSend, if_neg short]
    refine ⟨partials, ⟨buffers.full, buffers.sent, ?_, ?_⟩, some⟩
    · rw [← List.append_assoc, buffers.whole]
    · rw [List.length_append]
      exact Nat.le_of_not_lt short

theorem Buffers.sendAll (buffers : Buffers trans partials all)
    (some : all ≠ [] → trans.stream ≠ []) (sends : List (List Byte)) :
    ∃ partials', Buffers (sendAll trans sends) partials' (all ++ sends.flatten) ∧
      (all ++ sends.flatten ≠ [] → (Capture.sendAll trans sends).stream ≠ []) := by
  induction sends generalizing trans partials all with
  | nil =>
    rw [List.flatten_nil, List.append_nil]
    exact ⟨partials, buffers, some⟩
  | cons buffer sends ih =>
    rw [List.flatten_cons, ← List.append_assoc]
    have filled : all ++ buffer ≠ [] → trans.stream ++ buffer ≠ [] := by
      intro any none
      obtain ⟨empty, rfl⟩ := List.append_eq_nil_iff.mp none
      rw [List.append_nil] at any
      exact some any empty
    obtain ⟨partials', buffers', some'⟩ := buffers.doSend filled
    exact ih buffers' some'

theorem Buffers.flush (buffers : Buffers trans partials all)
    (some : trans.stream ≠ []) :
    trans.flush.sent = partials.flatMap (imageChunk .partialImageChunk) ++
      imageChunk .lastImageChunk trans.stream := by
  rw [OutChunkedBuffering.flush, if_pos (List.length_pos_of_ne_nil some), imageChunk,
    ← buffers.sent, List.append_assoc]

end OutChunkedBuffering

namespace InChunkedImage

/-- The chunks that are still to be read hold so much; nothing is read behind the last. -/
inductive Holds (behind : List Byte) : InChunkedImage → List Byte → Prop where
  | last {image : InChunkedImage} (type : image.chunkType = .lastImageChunk)
      (ends : image.trans = behind) : Holds behind image image.inStream
  | more {image next : InChunkedImage} {cells : List Byte} (read : image.nextChunk = .ok next)
      (shorter : next.trans.length < image.trans.length) (some : cells ≠ [])
      (later : Holds behind next cells) : Holds behind image (image.inStream ++ cells)

variable {behind : List Byte} {image : InChunkedImage}

theorem Holds.ends (held : Holds behind image []) : image.trans = behind := by
  generalize same : ([] : List Byte) = cells at held
  cases held with
  | last type ends => exact ends
  | more read shorter some later => exact absurd (List.append_eq_nil_iff.mp same.symm).2 some

theorem Holds.front {cells : List Byte} (held : Holds behind image cells) :
    ∃ more, cells = image.inStream ++ more := by
  cases held with
  | last type ends => exact ⟨[], (List.append_nil _).symm⟩
  | more read shorter some later => exact ⟨_, rfl⟩

theorem Holds.drop {cells : List Byte} (held : Holds behind image cells) {len : Nat}
    (enough : len ≤ image.inStream.length) :
    Holds behind { image with inStream := image.inStream.drop len } (cells.drop len) := by
  cases held with
  | last type ends =>
    exact @Holds.last behind { image with inStream := image.inStream.drop len } type ends
  | @more _ next cells read shorter some later =>
    rw [List.drop_append_of_le_length enough]
    exact @Holds.more behind { image with inStream := image.inStream.drop len } next cells read
      shorter some later

/-- However chunks are cut, what they hold is read as it is asked for. -/
theorem Holds.readLoop {front rest : List Byte} {chunks : Nat}
    (held : Holds behind image (front ++ rest)) (enough : image.trans.length < chunks) :
    ∃ image', InChunkedImage.readLoop chunks front.length image = .ok (front, image') ∧
      Holds behind image' rest := by
  induction chunks generalizing image front with
  | zero => exact absurd enough (Nat.not_lt_zero _)
  | succ chunks ih =>
    rw [InChunkedImage.readLoop]
    by_cases inside : front.length ≤ image.inStream.length
    · obtain ⟨more, same⟩ := held.front
      have taken : image.inStream.take front.length = front := by
        rw [← List.take_append_of_le_length inside, ← same, List.take_left]
      have held' := held.drop inside
      rw [List.drop_left] at held'
      rw [if_pos inside, taken]
      exact ⟨_, rfl, held'⟩
    · rw [if_neg inside]
      generalize same : front ++ rest = cells at held
      cases held with
      | last type ends =>
        have length := congrArg List.length same
        rw [List.length_append] at length
        omega
      | @more _ next cells read shorter some later =>
        obtain ⟨front', rfl, rest'⟩ | ⟨rest', empty, _⟩ := List.append_eq_append_iff.mp same.symm
        · rw [rest'] at later
          obtain ⟨image', loaded, held'⟩ := ih later (by omega)
          have length : (image.inStream ++ front').length - image.inStream.length =
              front'.length := by
            rw [List.length_append, Nat.add_sub_cancel_left]
          refine ⟨image', ?_, held'⟩
          rw [read, ok_bind, length, loaded]
          rfl
        · rw [empty, List.length_append] at inside
          omega

theorem serves_readData (behind : List Byte) : Demand.Serves readData (Holds behind) := by
  intro image front rest held
  exact held.readLoop (Nat.lt_succ_self _)

theorem receive_chunk (chunkType : WrmChunkType) (chunkCount : BitVec 16) {data : List Byte}
    (room : data.length ≤ OutChunkedBuffering.max) (rest : List Byte) :
    receive chunkType (BitVec.ofNat 32 (wrmHeaderSize + data.length)) chunkCount (data ++ rest) =
      .ok ⟨chunkType, BitVec.ofNat 32 (wrmHeaderSize + data.length), chunkCount, data, rest⟩ := by
  rw [OutChunkedBuffering.max] at room
  have len : (BitVec.ofNat 32 (wrmHeaderSize + data.length) - 8).toNat = data.length := by
    have eight : BitVec.toNat (8 : BitVec 32) = 8 := rfl
    rw [wrmHeaderSize, BitVec.toNat_sub, eight, BitVec.toNat_ofNat]
    omega
  have fits : data.length ≤ bufSize := by
    rw [bufSize]
    omega
  rw [receive, len, recvBoom_append rfl fits]
  rfl

theorem receive_header (chunkType : WrmChunkType) {data : List Byte}
    (room : data.length ≤ OutChunkedBuffering.max) (rest : List Byte) :
    recvBoom wrmHeaderSize wrmHeaderSize (imageChunk chunkType data ++ rest) =
        .ok (sendWrmChunk chunkType data.length 1, data ++ rest) ∧
      WrmHeader.ofBytes (sendWrmChunk chunkType data.length 1) =
        ⟨chunkType, BitVec.ofNat 32 (wrmHeaderSize + data.length), 1⟩ := by
  rw [OutChunkedBuffering.max] at room
  constructor
  · rw [imageChunk, List.append_assoc]
    exact recvBoom_append (length_sendWrmChunk _ _ _) (Nat.le_refl _) _
  · exact ofBytes_sendWrmChunk chunkType (by omega) (by decide)

theorem nextChunk_chunk (chunkType : WrmChunkType) {data rest : List Byte}
    (type : image.chunkType = .partialImageChunk)
    (room : data.length ≤ OutChunkedBuffering.max)
    (trans : image.trans = imageChunk chunkType data ++ rest) :
    image.nextChunk =
      .ok ⟨chunkType, BitVec.ofNat 32 (wrmHeaderSize + data.length), 1, data, rest⟩ := by
  obtain ⟨header, fields⟩ := receive_header chunkType room rest
  rw [nextChunk, if_pos type, trans, header, ok_bind]
  simp only [fields]
  exact receive_chunk chunkType 1 room rest

/-- All chunks of an image hold it, and nothing that is behind them. -/
theorem holds_chunks {partials : List (List Byte)} {last : List Byte}
    (full : ∀ data ∈ partials, data.length = OutChunkedBuffering.max) (some : last ≠ [])
    (room : last.length ≤ OutChunkedBuffering.max) (behind : List Byte) :
    ∃ chunkType data rest, partials.flatMap (imageChunk .partialImageChunk) ++
        imageChunk .lastImageChunk last ++ behind = imageChunk chunkType data ++ rest ∧
      data.length ≤ OutChunkedBuffering.max ∧
      ∀ chunkSize chunkCount, Holds behind ⟨chunkType, chunkSize, chunkCount, data, rest⟩
        (partials.flatten ++ last) := by
  induction partials with
  | nil =>
    refine ⟨.lastImageChunk, last, behind, rfl, room, ?_⟩
    intro chunkSize chunkCount
    exact @Holds.last behind ⟨.lastImageChunk, chunkSize, chunkCount, last, behind⟩ rfl rfl
  | cons data partials ih =>
    obtain ⟨chunkType, data', rest, wire, room', held⟩ :=
      ih fun data member => full data (List.mem_cons_of_mem _ member)
    refine ⟨.partialImageChunk, data, imageChunk chunkType data' ++ rest, ?_,
      (full data List.mem_cons_self).le, ?_⟩
    · rw [← wire, List.flatMap_cons, List.append_assoc, List.append_assoc, List.append_assoc]
    · intro chunkSize chunkCount
      rw [List.flatten_cons, List.append_assoc]
      refine @Holds.more behind ⟨.partialImageChunk, chunkSize, chunkCount, data,
        imageChunk chunkType data' ++ rest⟩ _ _ (nextChunk_chunk chunkType rfl room' rfl) ?_ ?_
          (held _ 1)
      · simp only [imageChunk, List.length_append, length_sendWrmChunk]
        omega
      · intro none
        exact some (List.append_eq_nil_iff.mp none).2

end InChunkedImage

end Redemption.Capture
