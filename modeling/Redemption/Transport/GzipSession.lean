import Redemption.Transport.GzipReader

/-! What comes out of a recording that was compressed segment by segment. -/
namespace Redemption.Transport.Gzip

open Redemption.Foundation

variable {zlib : StreamCodec Byte}

/-- The blocks of one stream; the first says whether a new stream starts. -/
def blocks (reset : Bool) : List (List Byte) → List Byte
  | [] => []
  | piece :: pieces => block reset piece ++ pieces.flatMap (block false)

theorem blocks_snoc (reset : Bool) (pieces : List (List Byte)) (piece : List Byte) :
    blocks reset (pieces ++ [piece]) =
      blocks reset pieces ++ block (reset && pieces.isEmpty) piece := by
  cases pieces with
  | nil => simp [blocks]
  | cons first pieces => simp [blocks]

namespace OutTransport

variable {out : OutTransport zlib} {base given : List Byte} {reset : Bool}

/-- Of a stream, what has been given out is either in blocks behind `base` or compressed data
that is not sent yet. -/
def Blocks (out : OutTransport zlib) (base : List Byte) (reset : Bool) (given : List Byte) : Prop :=
  ∃ pieces, Sized pieces ∧ given = pieces.flatten ++ out.compressedData ∧
    targetBytes out.target = base ++ blocks reset pieces ∧
    out.resetCompressor = (reset && pieces.isEmpty)

theorem Blocks.sendBlock {bytes : List Byte} (sent : Blocks out base reset given)
    (nonempty : out.compressedData ++ bytes ≠ [])
    (fits : (out.compressedData ++ bytes).length ≤ bufferLength) :
    Blocks (out.sendBlock (out.compressedData ++ bytes)) base reset (given ++ bytes) := by
  obtain ⟨pieces, sized, same, target, flag⟩ := sent
  refine ⟨pieces ++ [out.compressedData ++ bytes], ?_, ?_, ?_, ?_⟩
  · intro piece member
    rcases List.mem_append.mp member with old | new
    · exact sized piece old
    · rw [List.mem_singleton.mp new]
      exact ⟨nonempty, fits⟩
  · simp [OutTransport.sendBlock, same]
  · rw [blocks_snoc, ← List.append_assoc, ← target, ← flag]
    simp [OutTransport.sendBlock, targetBytes, block]
  · simp [OutTransport.sendBlock]

theorem Blocks.collect {bytes : List Byte} (sent : Blocks out base reset given) :
    Blocks (out.collect bytes) base reset (given ++ bytes) := by
  induction out, bytes using OutTransport.collect.induct generalizing given with
  | case1 out =>
    rw [OutTransport.collect, dif_pos rfl, List.append_nil]
    exact sent
  | case2 out bytes nonempty numberOfBytesToCopy filled rest room =>
    rename_i ih
    rw [OutTransport.collect, dif_neg nonempty, dif_pos room]
    have whole : bytes.take numberOfBytesToCopy ++ rest = bytes := List.take_append_drop _ _
    obtain ⟨pieces, sized, same, target, flag⟩ := sent
    have copied := @ih (given ++ bytes.take numberOfBytesToCopy)
      ⟨pieces, sized, by rw [same, List.append_assoc], target, flag⟩
    rwa [List.append_assoc, whole] at copied
  | case3 out bytes nonempty numberOfBytesToCopy filled rest full =>
    rename_i ih
    rw [OutTransport.collect, dif_neg nonempty, dif_neg full]
    have whole : bytes.take numberOfBytesToCopy ++ rest = bytes := List.take_append_drop _ _
    have least : numberOfBytesToCopy = min (bufferLength - out.compressedData.length) bytes.length :=
      rfl
    have room := out.compressedRoom
    have fits : filled.length ≤ bufferLength := by
      simp only [filled, List.length_append, List.length_take]
      omega
    have some : filled ≠ [] := by
      intro empty
      rw [empty] at full
      exact full (by decide)
    have copied := ih (sent.sendBlock some fits)
    rwa [List.append_assoc, whole] at copied

theorem Blocks.sendToTarget (sent : Blocks out base reset given) :
    ∃ pieces, Sized pieces ∧ given = pieces.flatten ∧
      targetBytes out.sendToTarget.target = base ++ blocks reset pieces ∧
      out.sendToTarget.compressedData = [] := by
  unfold OutTransport.sendToTarget
  split
  · rename_i empty
    obtain ⟨pieces, sized, same, target, _⟩ := sent
    exact ⟨pieces, sized, by rw [same, empty, List.append_nil], target, empty⟩
  · rename_i nonempty
    have fits := Nat.le_of_lt out.compressedRoom
    have all := @Blocks.sendBlock _ _ _ _ _ [] sent (by rwa [List.append_nil]) (by rwa [List.append_nil])
    rw [List.append_nil, List.append_nil] at all
    obtain ⟨pieces, sized, same, target, _⟩ := all
    exact ⟨pieces, sized, by simpa [OutTransport.sendBlock] using same, target, rfl⟩

@[simp] theorem uncompressedData_collect (out : OutTransport zlib) (bytes : List Byte) :
    (out.collect bytes).uncompressedData = out.uncompressedData := by
  induction out, bytes using collect.induct with
  | case1 out => rw [collect, dif_pos rfl]
  | case2 out bytes nonempty _ _ _ room ih => rw [collect, dif_neg nonempty, dif_pos room, ih]
  | case3 out bytes nonempty _ _ _ full ih =>
    rw [collect, dif_neg nonempty, dif_neg full, ih]
    rfl

@[simp] theorem uncompressedData_sendToTarget (out : OutTransport zlib) :
    out.sendToTarget.uncompressedData = out.uncompressedData := by
  unfold OutTransport.sendToTarget
  split <;> rfl

theorem compress_eq (out : OutTransport zlib) (data : List Byte) (finish : Bool) :
    out.compress data finish =
      let call := zlib.deflate out.compressionStream data finish bufferLength
      let after := { out with compressionStream := call.state }.collect call.output
      if call.output.length = bufferLength then after.compress call.nextIn finish else after := by
  rw [compress]

@[simp] theorem uncompressedData_compress (out : OutTransport zlib) (data : List Byte)
    (finish : Bool) : (out.compress data finish).uncompressedData = out.uncompressedData := by
  induction out, data using @compress.induct _ finish with
  | case1 out data call after =>
    rename_i full ih
    rw [compress_eq]
    simp only
    rw [if_pos full, ih]
    exact uncompressedData_collect _ _
  | case2 out data call =>
    rename_i short
    rw [compress_eq]
    simp only
    rw [if_neg short]
    exact uncompressedData_collect _ _

theorem compress_continues {taken : List Byte} (data : List Byte)
    (deflating : zlib.Deflating out.compressionStream taken given none)
    (sent : Blocks out base reset given) :
    ∃ given', zlib.Deflating (out.compress data false).compressionStream (taken ++ data) given'
        none ∧
      Blocks (out.compress data false) base reset given' := by
  induction out, data using @compress.induct _ false generalizing taken given with
  | case1 out data call after =>
    rename_i full ih
    have state : after.compressionStream = call.state := compressionStream_collect _ _
    have collected : Blocks after base reset (given ++ call.output) := Blocks.collect sent
    have next := StreamApi.Deflating.call deflating data bufferLength
    rw [← state] at next
    obtain ⟨given', deflating', sent'⟩ := ih next collected
    rw [List.append_assoc, used_append (zlib.deflate_suffix _ _ _ _)] at deflating'
    rw [compress_eq]
    simp only
    rw [if_pos full]
    exact ⟨given', deflating', sent'⟩
  | case2 out data call =>
    rename_i short
    let after := { out with compressionStream := call.state }.collect call.output
    have state : after.compressionStream = call.state := compressionStream_collect _ _
    have collected : Blocks after base reset (given ++ call.output) := Blocks.collect sent
    have next := StreamApi.Deflating.call deflating data bufferLength
    have less := Nat.lt_of_le_of_ne (zlib.deflate_fits out.compressionStream data false _) short
    rw [← state, zlib.deflate_stops deflating data bufferLength less, used_nil] at next
    rw [compress_eq]
    simp only
    rw [if_neg short]
    exact ⟨_, next, collected⟩

theorem compress_finishes {taken : List Byte} {left : Option (List Byte)} (data : List Byte)
    (deflating : zlib.Deflating out.compressionStream taken given left)
    (only : ∀ rest, left = some rest → data = rest) (sent : Blocks out base reset given) :
    ∃ given', zlib.Inflates given' (taken ++ data) ∧
      Blocks (out.compress data true) base reset given' := by
  induction out, data using @compress.induct _ true generalizing taken given left with
  | case1 out data call after =>
    rename_i full ih
    have state : after.compressionStream = call.state := compressionStream_collect _ _
    have collected : Blocks after base reset (given ++ call.output) := Blocks.collect sent
    have next := StreamApi.Deflating.finish deflating data bufferLength only
    rw [← state] at next
    obtain ⟨given', inflates, sent'⟩ :=
      ih next (fun _ same => Option.some.inj same) collected
    rw [List.append_assoc, used_append (zlib.deflate_suffix _ _ _ _)] at inflates
    rw [compress_eq]
    simp only
    rw [if_pos full]
    exact ⟨given', inflates, sent'⟩
  | case2 out data call =>
    rename_i short
    have collected : Blocks ({ out with compressionStream := call.state }.collect call.output) base reset (given ++ call.output) := Blocks.collect sent
    have less := Nat.lt_of_le_of_ne (zlib.deflate_fits out.compressionStream data true _) short
    rw [compress_eq]
    simp only
    rw [if_neg short]
    exact ⟨_, (zlib.deflate_finishes deflating data bufferLength only less).2,
      collected⟩

/-- A transport in the middle of a segment: whole buffers of it have been compressed, and the
rest waits. -/
def Writing (out : OutTransport zlib) (base : List Byte) (reset : Bool) (segment : List Byte) :
    Prop :=
  ∃ taken given, zlib.Deflating out.compressionStream taken given none ∧
    segment = taken ++ out.uncompressedData ∧ Blocks out base reset given ∧
    taken.length % bufferLength = 0 ∧ (taken = [] → given = [])

variable {segment : List Byte}

private theorem emptied (nothing : out.uncompressedData = []) :
    { out with uncompressedData := [], uncompressedRoom := by decide } = out := by
  cases out
  simp only at nothing
  subst nothing
  rfl

theorem Writing.compress {data : List Byte} (writing : Writing out base reset segment)
    (full : (out.uncompressedData ++ data).length = bufferLength) :
    Writing { out.compress (out.uncompressedData ++ data) false with
      uncompressedData := []
      uncompressedRoom := by decide } base reset (segment ++ data) := by
  obtain ⟨taken, given, deflating, same, sent, whole, _⟩ := writing
  obtain ⟨given', deflating', sent'⟩ :=
    compress_continues (out.uncompressedData ++ data) deflating sent
  refine ⟨_, given', deflating', ?_, sent', ?_, fun empty => ?_⟩
  · rw [same, List.append_assoc]
    exact (List.append_nil _).symm
  · rw [List.length_append, full, Nat.add_mod_right, whole]
  · rw [(List.append_eq_nil_iff.mp empty).2] at full
    exact absurd full (by decide)

theorem Writing.doSend {data : List Byte} (writing : Writing out base reset segment) :
    Writing (out.doSend data) base reset (segment ++ data) := by
  induction out, data using OutTransport.doSend.induct generalizing segment with
  | case1 out =>
    rw [OutTransport.doSend, dif_pos rfl, List.append_nil]
    exact writing
  | case2 out data nonempty waiting dataLength filled rest room =>
    rename_i ih
    rw [OutTransport.doSend, dif_neg nonempty, if_pos waiting, dif_pos room]
    have whole : data.take dataLength ++ rest = data := List.take_append_drop _ _
    obtain ⟨taken, given, deflating, same, sent, even, none⟩ := writing
    have filling := @ih (segment ++ data.take dataLength)
      ⟨taken, given, deflating, by rw [same, List.append_assoc], sent, even, none⟩
    rwa [List.append_assoc, whole] at filling
  | case3 out data nonempty waiting dataLength filled rest full =>
    rename_i ih
    rw [OutTransport.doSend, dif_neg nonempty, if_pos waiting, dif_neg full]
    have whole : data.take dataLength ++ rest = data := List.take_append_drop _ _
    have least : dataLength = min data.length (bufferLength - out.uncompressedData.length) := rfl
    have room := out.uncompressedRoom
    have exactly : filled.length = bufferLength := by
      simp only [filled, List.length_append, List.length_take] at full ⊢
      omega
    have filling := ih (writing.compress exactly)
    rwa [List.append_assoc, whole] at filling
  | case4 out data nonempty empty room =>
    rw [OutTransport.doSend, dif_neg nonempty, if_neg empty, dif_pos room]
    obtain ⟨taken, given, deflating, same, sent, even, none⟩ := writing
    have nothing : out.uncompressedData = [] := by simpa using empty
    rw [nothing, List.append_nil] at same
    exact ⟨taken, given, deflating, by rw [same], sent, even, none⟩
  | case5 out data nonempty empty large =>
    rename_i ih
    rw [OutTransport.doSend, dif_neg nonempty, if_neg empty, dif_neg large]
    have nothing : out.uncompressedData = [] := by simpa using empty
    have exactly : (out.uncompressedData ++ data.take bufferLength).length = bufferLength := by
      rw [nothing, List.nil_append, List.length_take]
      omega
    have compressed := writing.compress exactly
    rw [emptied (by rw [uncompressedData_compress, nothing])] at compressed
    simp only [nothing, List.nil_append] at compressed
    have filling := ih compressed
    rwa [List.append_assoc, List.take_append_drop] at filling

/-- What comes back of a segment whose stream was finished only if data was waiting. -/
def kept (segment : List Byte) : List Byte :=
  if segment.length % bufferLength = 0 then [] else segment

/-- Nothing comes out of the compressor before the stream of this segment is finished, if it is
not finished at all. -/
def Silent (zlib : StreamCodec Byte) (segment : List Byte) : Prop :=
  segment.length % bufferLength = 0 → segment = [] ∨
    ∀ state taken given, zlib.Deflating state taken given none → given = []

theorem Writing.flushAll (writing : Writing out base reset segment) (silent : Silent zlib segment) :
    ∃ source, targetBytes out.flushAll.target = base ++ source ∧
      out.flushAll.compressedData = [] ∧ out.flushAll.uncompressedData = [] ∧
      Streams zlib reset source (kept segment) := by
  obtain ⟨taken, given, deflating, same, sent, even, none⟩ := writing
  unfold OutTransport.flushAll
  split
  · rename_i waiting
    obtain ⟨given', inflates, finished⟩ :=
      compress_finishes out.uncompressedData deflating nofun sent
    have finished' : Blocks { out.compress out.uncompressedData true with
        uncompressedData := []
        uncompressedRoom := by decide } base reset given' := finished
    obtain ⟨pieces, sized, whole, target, empty⟩ := finished'.sendToTarget
    refine ⟨_, target, empty, by rw [uncompressedData_sendToTarget], ?_⟩
    have room := out.uncompressedRoom
    have some := List.length_pos_of_ne_nil waiting
    have odd : segment.length % bufferLength ≠ 0 := by
      rw [same, List.length_append, Nat.add_mod, even, Nat.zero_add, Nat.mod_mod,
        Nat.mod_eq_of_lt room]
      omega
    rw [kept, if_neg odd, same]
    rw [whole] at inflates
    cases pieces with
    | nil =>
      have nothing := List.append_eq_nil_iff.mp (StreamCodec.inflates_nil inflates)
      exact absurd nothing.2 waiting
    | cons piece pieces =>
      have stream := @Streams.stream _ reset _ _ _ _ _ _ id sized inflates .done
      simpa [blocks] using stream
  · rename_i nothing
    have nothing : out.uncompressedData = [] := by simpa using nothing
    rw [nothing, List.append_nil] at same
    obtain ⟨pieces, sized, whole, target, empty⟩ := sent.sendToTarget
    have flat : pieces.flatten = [] := by
      rw [← whole]
      rcases silent (by rw [same, even]) with ended | silent
      · exact none (same.symm.trans ended)
      · exact silent _ _ _ deflating
    have no : pieces = [] := by
      cases pieces with
      | nil => rfl
      | cons piece pieces =>
        exact absurd (List.append_eq_nil_iff.mp flat).1 (sized piece List.mem_cons_self).1
    subst no
    refine ⟨_, target, empty, by rw [uncompressedData_sendToTarget, nothing], ?_⟩
    rw [kept, same, if_pos even]
    exact .done

/-- The data of the segments that calls lead to, after some of the first is there. -/
def segments (segment : List Byte) : List Call → List (List Byte)
  | [] => [segment]
  | .send data :: calls => segments (segment ++ data) calls
  | .next :: calls => segment :: segments [] calls

/-- All data that is sent. -/
def sent (calls : List Call) : List Byte :=
  calls.flatMap fun
    | .send data => data
    | .next => []

theorem flatten_segments (segment : List Byte) (calls : List Call) :
    (segments segment calls).flatten = segment ++ sent calls := by
  induction calls generalizing segment with
  | nil => simp [segments, sent]
  | cons call calls ih =>
    cases call with
    | send data =>
      rw [segments, ih]
      simp [sent]
    | next =>
      rw [segments, List.flatten_cons, ih]
      simp [sent]

theorem Writing.run {calls : List Call} (writing : Writing out base reset segment)
    (silent : ∀ ended ∈ segments segment calls, Silent zlib ended) :
    ∃ source, targetBytes ((calls.foldl call out).flushAll).target = base ++ source ∧
      Streams zlib reset source ((segments segment calls).map kept).flatten := by
  induction calls generalizing out base reset segment with
  | nil =>
    obtain ⟨source, target, _, _, streams⟩ := writing.flushAll (silent _ List.mem_cons_self)
    exact ⟨source, target, by simpa [segments] using streams⟩
  | cons call calls ih =>
    cases call with
    | send data => exact ih (@Writing.doSend _ _ _ _ _ data writing) silent
    | next =>
      obtain ⟨source, target, flushed, empty, streams⟩ :=
        writing.flushAll (silent _ List.mem_cons_self)
      have opened : Writing out.next (base ++ source) true [] := by
        refine ⟨[], [], .init, ?_, ⟨[], nofun, ?_, ?_, rfl⟩, rfl, id⟩
        · exact empty.symm
        · exact flushed.symm
        · have sent : targetBytes out.next.target = targetBytes out.flushAll.target := by
            simp [OutTransport.next, targetBytes]
          rw [sent, target]
          exact (List.append_nil _).symm
      obtain ⟨source', target', streams'⟩ :=
        ih opened fun ended member => silent ended (List.mem_cons_of_mem _ member)
      refine ⟨source ++ source', ?_, streams.append streams'⟩
      rw [← List.append_assoc]
      exact target'

theorem writing_fresh (zlib : StreamCodec Byte) : Writing (fresh zlib) [] false [] :=
  ⟨[], [], .init, rfl, ⟨[], nofun, rfl, rfl, rfl⟩, rfl, id⟩

theorem produced_streams {calls : List Call} (zlib : StreamCodec Byte)
    (silent : ∀ ended ∈ segments [] calls, Silent zlib ended) :
    Streams zlib false (produced zlib calls) ((segments [] calls).map kept).flatten := by
  obtain ⟨source, target, streams⟩ := (writing_fresh zlib).run silent
  rwa [produced, target]

end OutTransport

open OutTransport

theorem kept_length_le (pieces : List (List Byte)) :
    (pieces.map kept).flatten.length ≤ pieces.flatten.length := by
  induction pieces with
  | nil => exact Nat.le_refl _
  | cons piece pieces ih =>
    rw [List.map_cons, List.flatten_cons, List.flatten_cons, List.length_append,
      List.length_append]
    have le : (kept piece).length ≤ piece.length := by
      unfold kept
      split
      · exact Nat.zero_le _
      · exact Nat.le_refl _
    omega

theorem kept_length_eq {pieces : List (List Byte)}
    (same : (pieces.map kept).flatten.length = pieces.flatten.length) :
    ∀ piece ∈ pieces, piece.length % bufferLength = 0 → piece = [] := by
  induction pieces with
  | nil => nofun
  | cons piece pieces ih =>
    rw [List.map_cons, List.flatten_cons, List.flatten_cons, List.length_append,
      List.length_append] at same
    have most := kept_length_le pieces
    have le : (kept piece).length ≤ piece.length := by
      have single := kept_length_le [piece]
      simpa using single
    intro other member even
    rcases List.mem_cons.mp member with rfl | later
    · have lost : (kept other).length = 0 := by rw [kept, if_pos even, List.length_nil]
      exact List.eq_nil_of_length_eq_zero (by omega)
    · exact ih (by omega) other later even

/-- A codec that holds back all it is given shows which streams are finished. -/
theorem finished_of_reads {calls : List Call}
    (reads : ∀ (zlib : StreamCodec Byte) (lengths : List Nat),
      (InTransport.fresh zlib (produced zlib calls)).atomicReads lengths =
        .ok (InTransport.served (sent calls) lengths)) :
    ∀ segment ∈ segments [] calls, segment.length % bufferLength = 0 → segment = [] := by
  have whole : (segments [] calls).flatten = sent calls := by
    rw [flatten_segments, List.nil_append]
  have silent : ∀ ended ∈ segments [] calls, Silent (holding Byte) ended :=
    fun _ _ _ => .inr fun _ _ _ deflating => holding_silent deflating
  have read := reads (holding Byte) [(sent calls).length]
  rw [InTransport.atomicReads_streams (produced_streams _ silent)] at read
  have most := kept_length_le (segments [] calls)
  have enough : (sent calls).length ≤ ((segments [] calls).map kept).flatten.length := by
    by_contra short
    simp only [InTransport.served, if_neg short, le_refl, if_true] at read
    cases read
  rw [whole] at most
  exact kept_length_eq (by rw [whole]; omega)

/-- What is sent and split into segments is read back, whatever the reads, exactly if no segment
is a positive number of whole buffers: the stream of such a segment is never finished. -/
theorem gzip_session (calls : List Call) :
    (∀ (zlib : StreamCodec Byte) (lengths : List Nat),
      (InTransport.fresh zlib (produced zlib calls)).atomicReads lengths =
        .ok (InTransport.served (sent calls) lengths)) ↔
    ∀ segment ∈ segments [] calls, segment.length % bufferLength = 0 → segment = [] := by
  refine ⟨finished_of_reads, fun good zlib lengths => ?_⟩
  have whole : (segments [] calls).flatten = sent calls := by
    rw [flatten_segments, List.nil_append]
  have all : (segments [] calls).map kept = segments [] calls := by
    conv_rhs => rw [← List.map_id (segments [] calls)]
    refine List.map_congr_left fun segment member => ?_
    unfold kept
    split
    · rename_i even
      exact (good segment member even).symm
    · rfl
  have streams := produced_streams zlib fun ended member even => .inl (good ended member even)
  rw [all, whole] at streams
  exact InTransport.atomicReads_streams streams lengths

/-- A recording of one segment of exactly one buffer is lost. -/
theorem gzip_session_lost :
    ¬ ∀ calls : List Call, ∀ (zlib : StreamCodec Byte) (lengths : List Nat),
      (InTransport.fresh zlib (produced zlib calls)).atomicReads lengths =
        .ok (InTransport.served (sent calls) lengths) := by
  intro always
  have good := finished_of_reads (always [.send (List.replicate bufferLength 0)])
  have lost := good _ List.mem_cons_self (by simp)
  have length := congrArg List.length lost
  rw [List.nil_append, List.length_replicate] at length
  exact absurd length (by decide)

end Redemption.Transport.Gzip
