import Mathlib.Data.List.Induction
import Redemption.Transport.SnappyReader
import Redemption.Transport.GzipSession

/-! What is sent through a snappy recording is read back, and what the reads of any source give is
genuine as long as they stay before the first corrupt chunk. -/
namespace Redemption.Transport.Snappy

open Redemption.Foundation
open Gzip (ErrorId TargetCall targetBytes)
open Gzip.OutTransport (Call sent)

/-- A chunk as it is sent. -/
def frame (snappy : Library) (data : List Byte) : List Byte :=
  leBytes 2 (snappy.compressed data).length ++ snappy.compressed data

namespace OutTransport

variable {snappy : Library} {memory : Buffer Byte bufferLength} {out : OutTransport}
  {chunks : List (List Byte)} {pending data : List Byte}

/-- The target has got the chunks, and the buffer starts with what is pending. -/
structure Writes (snappy : Library) (out : OutTransport) (chunks : List (List Byte))
    (pending : List Byte) : Prop where
  target : targetBytes out.target = chunks.flatMap (frame snappy)
  small : ∀ chunk ∈ chunks, chunk.length ≤ maxUncompressedDataLength
  count : out.uncompressedDataLength = pending.length
  begins : out.uncompressedData.Begins pending

theorem writes_fresh : Writes snappy fresh [] [] := ⟨rfl, nofun, rfl, rfl⟩

/-- The compressed form of a chunk fits its stream. -/
theorem compressed_le (exact : snappy.Exact) (small : data.length ≤ maxUncompressedDataLength) :
    Library.maxCompressedLength data.length ≤ bufferLength - 2 ∧
      (snappy.compressed data).length ≤ bufferLength - 2 := by
  have bounded := exact.bounded data
  unfold Library.maxCompressedLength bufferLength maxUncompressedDataLength at *
  omega

theorem compress_ok (exact : snappy.Exact) (small : data.length ≤ maxUncompressedDataLength) :
    compress snappy memory data = .ok (frame snappy data) := by
  obtain ⟨room, fits⟩ := compressed_le exact small
  have whole : bufferLength - 2 + 2 = bufferLength := by decide
  have header := length_leBytes 2 (snappy.compressed data).length
  unfold compress Library.compress
  simp only [if_pos room]
  rw [Buffer.storeBlock_of_le _ (by omega)]
  simp only [Functor.map, Except.map, ok_bind]
  rw [Buffer.storeBlock_of_le _ (by rw [header]; omega), ok_bind,
    Buffer.loadBlock_of_le _ (by omega)]
  have laid := @Buffer.slice_splice_head _ _ (memory.splice 2 (snappy.compressed data)) 0
    (leBytes 2 (snappy.compressed data).length) (snappy.compressed data).length
  rw [header, Nat.zero_add, Buffer.slice_splice] at laid
  rw [laid, frame]

/-- A chunk that is sent stands behind the others. -/
theorem targetBytes_send (target : List TargetCall) (bytes : List Byte) :
    targetBytes (target ++ [.send bytes]) = targetBytes target ++ bytes := by
  simp [targetBytes]

theorem Writes.chunk (writes : Writes snappy out chunks pending) {chunk : List Byte}
    (fits : chunk.length ≤ maxUncompressedDataLength) {next : OutTransport}
    (target : next.target = out.target ++ [.send (frame snappy chunk)])
    (empty : next.uncompressedDataLength = 0) : Writes snappy next (chunks ++ [chunk]) [] where
  target := by
    simp only [target, targetBytes_send, writes.target, List.flatMap_append, List.flatMap_cons,
      List.flatMap_nil, List.append_nil]
  small := by
    intro other member
    rcases List.mem_append.mp member with before | last
    · exact writes.small other before
    · rw [List.mem_singleton.mp last]
      exact fits
  count := empty
  begins := Buffer.begins_nil _

theorem Writes.flush (exact : snappy.Exact) (writes : Writes snappy out chunks pending) :
    ∃ out' chunks', out.flush snappy memory = .ok out' ∧ Writes snappy out' chunks' [] ∧
      chunks'.flatten = chunks.flatten ++ pending := by
  by_cases some' : out.uncompressedDataLength ≠ 0
  · have small : pending.length ≤ maxUncompressedDataLength := by
      rw [← writes.count]
      exact Nat.le_of_lt out.notFull
    have room : maxUncompressedDataLength ≤ bufferLength := by decide
    have begins : out.uncompressedData.slice 0 pending.length = pending := writes.begins
    refine ⟨{ out with
      target := out.target ++ [.send (frame snappy pending)]
      uncompressedDataLength := 0
      notFull := by decide }, chunks ++ [pending], ?_, writes.chunk small rfl rfl,
      by simp⟩
    rw [OutTransport.flush, if_pos some', writes.count, Buffer.loadBlock_of_le _ (by omega), ok_bind,
      begins, compress_ok exact small]
    rfl
  · have none' : pending = [] := by
      rw [← List.length_eq_zero_iff, ← writes.count]
      exact Decidable.not_not.mp some'
    subst none'
    exact ⟨out, chunks, if_neg some', writes, (List.append_nil _).symm⟩

theorem doSend_nil (out : OutTransport) : out.doSend snappy memory [] = .ok out := by
  rw [OutTransport.doSend]
  exact dif_neg fun some' => some' rfl

/-- What a round of `do_send` makes of some of the data. -/
structure Round (snappy : Library) (memory : Buffer Byte bufferLength) (out : OutTransport)
    (chunks : List (List Byte)) (pending data : List Byte) (out' : OutTransport)
    (chunks' : List (List Byte)) (pending' rest : List Byte) : Prop where
  goesOn : out.doSend snappy memory data = out'.doSend snappy memory rest
  shorter : rest.length < data.length
  writes : Writes snappy out' chunks' pending'
  whole : chunks'.flatten ++ pending' ++ rest = chunks.flatten ++ pending ++ data

/-- A round where something is pending: the data is put behind it, up to a full chunk. -/
theorem Writes.round_pending (exact : snappy.Exact) (writes : Writes snappy out chunks pending)
    (some' : data.length ≠ 0) (there : out.uncompressedDataLength ≠ 0) :
    ∃ out' chunks' pending' rest,
      Round snappy memory out chunks pending data out' chunks' pending' rest := by
  have room : maxUncompressedDataLength ≤ bufferLength := by decide
  have notFull := out.notFull
  have count := writes.count
  have taken : (data.take (min data.length (maxUncompressedDataLength -
      out.uncompressedDataLength))).length =
      min data.length (maxUncompressedDataLength - out.uncompressedDataLength) :=
    List.length_take_of_le (Nat.min_le_left _ _)
  have shorter : (data.drop (min data.length (maxUncompressedDataLength -
      out.uncompressedDataLength))).length < data.length := by
    rw [List.length_drop]
    omega
  have begins := writes.begins.splice (data.take (min data.length
    (maxUncompressedDataLength - out.uncompressedDataLength)))
  rw [← count] at begins
  by_cases full : out.uncompressedDataLength + min data.length (maxUncompressedDataLength -
      out.uncompressedDataLength) = maxUncompressedDataLength
  · have all : (pending ++ data.take (min data.length (maxUncompressedDataLength -
        out.uncompressedDataLength))).length = maxUncompressedDataLength := by
      rw [List.length_append, taken, ← count, full]
    rw [Buffer.Begins, all] at begins
    refine ⟨{
      target := out.target ++ [.send (frame snappy (pending ++ data.take (min data.length
        (maxUncompressedDataLength - out.uncompressedDataLength))))]
      uncompressedData := out.uncompressedData.splice out.uncompressedDataLength (data.take
        (min data.length (maxUncompressedDataLength - out.uncompressedDataLength)))
      uncompressedDataLength := 0
      notFull := by decide }, _, _, _, ?_, shorter, writes.chunk (Nat.le_of_eq all) rfl rfl, ?_⟩
    · rw [OutTransport.doSend, dif_pos some', if_pos there]
      dsimp only
      rw [Buffer.storeBlock_of_le _ (by rw [taken]; omega), ok_bind, dif_pos full,
        Buffer.loadBlock_of_le _ (by omega), ok_bind, begins,
        compress_ok exact (Nat.le_of_eq all), ok_bind]
    · simp only [List.flatten_append, List.flatten_cons, List.flatten_nil, List.append_nil,
        List.append_assoc, List.take_append_drop]
  · refine ⟨{
      target := out.target
      uncompressedData := out.uncompressedData.splice out.uncompressedDataLength (data.take
        (min data.length (maxUncompressedDataLength - out.uncompressedDataLength)))
      uncompressedDataLength := out.uncompressedDataLength + min data.length
        (maxUncompressedDataLength - out.uncompressedDataLength)
      notFull := by omega }, chunks, _, _, ?_, shorter,
      ⟨writes.target, writes.small, by rw [List.length_append, taken, ← count], begins⟩, ?_⟩
    · rw [OutTransport.doSend, dif_pos some', if_pos there]
      dsimp only
      rw [Buffer.storeBlock_of_le _ (by rw [taken]; omega), ok_bind, dif_neg full]
    · simp only [List.append_assoc, List.take_append_drop]

/-- A round where nothing is pending: a full chunk is sent at once, and less is kept. -/
theorem Writes.round_empty (exact : snappy.Exact) (writes : Writes snappy out chunks pending)
    (some' : data.length ≠ 0) (there : ¬out.uncompressedDataLength ≠ 0) :
    ∃ out' chunks' pending' rest,
      Round snappy memory out chunks pending data out' chunks' pending' rest := by
  have room : maxUncompressedDataLength ≤ bufferLength := by decide
  have positive : 0 < maxUncompressedDataLength := by decide
  have none' : pending = [] := by
    rw [← List.length_eq_zero_iff, ← writes.count]
    exact Decidable.not_not.mp there
  subst none'
  by_cases large : maxUncompressedDataLength ≤ data.length
  · have all := List.length_take_of_le large
    refine ⟨{ out with target := out.target ++ [.send (frame snappy (data.take
      maxUncompressedDataLength))] }, _, _, data.drop maxUncompressedDataLength, ?_, ?_,
      writes.chunk (Nat.le_of_eq all) rfl writes.count, ?_⟩
    · rw [OutTransport.doSend, dif_pos some', if_neg there, dif_pos large,
        compress_ok exact (Nat.le_of_eq all), ok_bind]
    · rw [List.length_drop]
      omega
    · simp only [List.flatten_append, List.flatten_cons, List.flatten_nil, List.append_nil,
        List.append_assoc, List.take_append_drop]
  · refine ⟨{ out with
      uncompressedData := out.uncompressedData.splice 0 data
      uncompressedDataLength := data.length
      notFull := Nat.not_le.mp large }, chunks, data, [], ?_, Nat.pos_of_ne_zero some',
      ⟨writes.target, writes.small, rfl, Buffer.slice_splice _ _ _⟩, ?_⟩
    · rw [OutTransport.doSend, dif_pos some', if_neg there, dif_neg large,
        Buffer.storeBlock_of_le _ (by omega), ok_bind, doSend_nil]
      rfl
    · simp only [List.append_nil]

/-- Round by round, all the data is sent or pending. -/
theorem Writes.doSend (exact : snappy.Exact) (bound : Nat) (bounded : data.length ≤ bound)
    (writes : Writes snappy out chunks pending) :
    ∃ out' chunks' pending', out.doSend snappy memory data = .ok out' ∧
      Writes snappy out' chunks' pending' ∧
      chunks'.flatten ++ pending' = chunks.flatten ++ pending ++ data := by
  induction bound generalizing data out chunks pending with
  | zero =>
    have none' : data = [] := List.eq_nil_of_length_eq_zero (Nat.le_zero.mp bounded)
    subst none'
    exact ⟨out, chunks, pending, doSend_nil out, writes, (List.append_nil _).symm⟩
  | succ bound ih =>
    by_cases some' : data.length ≠ 0
    · have round : ∃ out' chunks' pending' rest,
          Round snappy memory out chunks pending data out' chunks' pending' rest := by
        by_cases there : out.uncompressedDataLength ≠ 0
        · exact writes.round_pending exact some' there
        · exact writes.round_empty exact some' there
      obtain ⟨next, chunks', pending', rest, round⟩ := round
      obtain ⟨out', chunks'', pending'', ran, writes', whole⟩ :=
        ih (Nat.le_of_lt_succ (Nat.lt_of_lt_of_le round.shorter bounded)) round.writes
      exact ⟨out', chunks'', pending'', round.goesOn.trans ran, writes', whole.trans round.whole⟩
    · have none' : data = [] := List.eq_nil_of_length_eq_zero (Decidable.not_not.mp some')
      subst none'
      exact ⟨out, chunks, pending, doSend_nil out, writes, (List.append_nil _).symm⟩

/-- All that is sent reaches the target or is pending, whatever segments it is cut into. -/
theorem Writes.run (exact : snappy.Exact) (calls : List Call)
    (writes : Writes snappy out chunks pending) :
    ∃ out' chunks' pending', calls.foldlM (call snappy memory) out = .ok out' ∧
      Writes snappy out' chunks' pending' ∧
      chunks'.flatten ++ pending' = chunks.flatten ++ pending ++ sent calls := by
  induction calls generalizing out chunks pending with
  | nil => exact ⟨out, chunks, pending, rfl, writes, (List.append_nil _).symm⟩
  | cons step calls ih =>
    rw [List.foldlM_cons]
    cases step with
    | send data =>
      obtain ⟨out', chunks', pending', ran, writes', whole⟩ :=
        @Writes.doSend _ memory _ _ _ data exact _ (Nat.le_refl _) writes
      obtain ⟨out'', chunks'', pending'', ran', writes'', whole'⟩ := ih writes'
      refine ⟨out'', chunks'', pending'', ?_, writes'', ?_⟩
      · rw [call, ran, ok_bind, ran']
      · rw [whole', whole, List.append_assoc]
        rfl
    | next =>
      obtain ⟨out', chunks', ran, writes', whole⟩ := @Writes.flush _ memory _ _ _ exact writes
      have told : Writes snappy { out' with target := out'.target ++ [.next] } chunks' [] :=
        ⟨by rw [← writes'.target]; simp [targetBytes], writes'.small, writes'.count,
          Buffer.begins_nil _⟩
      obtain ⟨out'', chunks'', pending'', ran', writes'', whole'⟩ := ih told
      refine ⟨out'', chunks'', pending'', ?_, writes'', ?_⟩
      · rw [call, next, ran, ok_bind]
        exact ran'
      · rw [whole', whole, List.append_nil]
        rfl

/-- Once the transport is destroyed, the target has all that was sent, in chunks. -/
theorem produced_frames (exact : snappy.Exact) (calls : List Call) :
    ∃ (target : List TargetCall) (chunks : List (List Byte)), produced snappy memory calls = .ok target ∧
      targetBytes target = chunks.flatMap (frame snappy) ∧
      (∀ chunk ∈ chunks, chunk.length ≤ maxUncompressedDataLength) ∧
      chunks.flatten = sent calls := by
  obtain ⟨out, chunks, pending, ran, writes, whole⟩ := @Writes.run _ memory _ _ _ exact calls
    writes_fresh
  obtain ⟨out', chunks', ran', writes', whole'⟩ := @Writes.flush _ memory _ _ _ exact writes
  refine ⟨out'.target, chunks', ?_, writes'.target, writes'.small, ?_⟩
  · rw [produced, ran, ok_bind, ran']
    rfl
  · rw [whole', whole]
    rfl

end OutTransport

namespace InTransport

variable {snappy : Library}

theorem frame_length (exact : snappy.Exact) {data : List Byte}
    (small : data.length ≤ maxUncompressedDataLength) (rest : List Byte) :
    chunkLength (frame snappy data ++ rest) = (snappy.compressed data).length := by
  have fits := (OutTransport.compressed_le exact small).2
  have room : bufferLength - 2 < 2 ^ (8 * 2) := by decide
  rw [chunkLength, frame, List.append_assoc, List.take_left' (length_leBytes 2 _),
    leValue_leBytes, Nat.mod_eq_of_lt (by omega)]

/-- The chunks that are sent are all accepted. -/
theorem portions_frames (exact : snappy.Exact) (chunks : List (List Byte))
    (small : ∀ chunk ∈ chunks, chunk.length ≤ maxUncompressedDataLength) :
    portions snappy (chunks.flatMap (frame snappy)) = (chunks.map some, true) := by
  induction chunks with
  | nil =>
    rw [portions]
    rfl
  | cons data chunks ih =>
    have small' := small data List.mem_cons_self
    have rest := ih fun chunk member => small chunk (List.mem_cons_of_mem _ member)
    have length := frame_length exact small' (chunks.flatMap (frame snappy))
    have size : (frame snappy data).length = 2 + (snappy.compressed data).length := by
      rw [frame, List.length_append, length_leBytes]
    have room : data.length ≤ bufferLength := Nat.le_trans small' (by decide)
    rw [List.flatMap_cons, portions, dif_pos (by rw [length, List.length_append, size]; omega)]
    simp only [length]
    rw [← size, List.drop_left, rest]
    have chunk : ((frame snappy data ++ chunks.flatMap (frame snappy)).drop 2).take
        (snappy.compressed data).length = snappy.compressed data := by
      rw [frame, List.append_assoc, List.drop_left' (length_leBytes 2 _), List.take_left]
    rw [chunk, Library.uncompress, exact.inverse, Option.filter_some,
      if_pos (decide_eq_true room)]
    rfl

section Genuine

/-- The bytes of the reads that return `Ok`. -/
def okBytes (reads : List (Checked ErrorId (Option (List Byte)))) : List Byte :=
  reads.flatMap fun
    | .ok (some bytes) => bytes
    | _ => []

/-- Reads give nothing but the data of accepted chunks, the one that gets to a chunk that is corrupt or
too large ends in an error, and none goes outside of the memory. -/
structure Genuine (snappy : Library) (source : List Byte) (lens : List Nat) : Prop where
  accepted : okBytes (atomicReads snappy (fresh source) lens) <+:
    genuine (portions snappy source).1
  ends : none ∈ (portions snappy source).1 → ∀ front len back, lens = front ++ len :: back →
    (genuine (portions snappy source).1).length < front.sum + len →
      ∀ read, (atomicReads snappy (fresh source) lens)[front.length]? ≠ some (.ok read)
  inside : .error .outOfBounds ∉ atomicReads snappy (fresh source) lens

/-- Reads that never get past the data before a chunk that is not accepted, unless they ask for more
than there would be if each such chunk counted for a whole buffer. -/
def StaysBefore (snappy : Library) (source : List Byte) (lens : List Nat) : Prop :=
  none ∈ (portions snappy source).1 → ∀ front, front <+: lens →
    front.sum ≤ held [] (portions snappy source).1 →
      front.sum ≤ (genuine (portions snappy source).1).length

/-- With chunks that are all accepted, everything is genuine. -/
theorem held_accepted {later : List (Option (List Byte))} (accepted : none ∉ later) :
    held [] later = (genuine later).length := by
  rw [held, List.length_nil, Nat.zero_add]
  induction later with
  | nil => rfl
  | cons portion later ih =>
    rw [List.mem_cons, not_or] at accepted
    cases portion with
    | none => exact absurd rfl accepted.1
    | some data =>
      rw [List.map_cons, List.sum_cons, ih accepted.2, genuine, List.length_append, size]

/-- Otherwise, a buffer more is ahead. -/
theorem held_refused {later : List (Option (List Byte))} (refused : none ∈ later) :
    (genuine later).length < held [] later := by
  rw [held, List.length_nil, Nat.zero_add]
  induction later with
  | nil => cases refused
  | cons portion later ih =>
    rw [List.map_cons, List.sum_cons]
    cases portion with
    | none =>
      have positive : 0 < bufferLength := by decide
      exact Nat.lt_of_lt_of_le positive (Nat.le_add_right _ _)
    | some data =>
      have more := ih (List.mem_of_ne_of_mem (fun same => by cases same) refused)
      rw [genuine, List.length_append, size]
      omega

theorem exists_split (lens : List Nat) (limit : Nat) :
    ∃ firsts rest, lens = firsts ++ rest ∧ firsts.sum ≤ limit ∧
      (rest = [] ∨ ∃ len back, rest = len :: back ∧ limit < firsts.sum + len) := by
  induction lens generalizing limit with
  | nil => exact ⟨[], [], rfl, Nat.zero_le _, .inl rfl⟩
  | cons len lens ih =>
    by_cases fits : len ≤ limit
    · obtain ⟨firsts, rest, rfl, within, last⟩ := ih (limit - len)
      refine ⟨len :: firsts, rest, rfl, by rw [List.sum_cons]; omega, ?_⟩
      rcases last with none' | ⟨front, back, same, more⟩
      · exact .inl none'
      · exact .inr ⟨front, back, same, by rw [List.sum_cons]; omega⟩
    · exact ⟨[], _, rfl, Nat.zero_le _, .inr ⟨len, lens, rfl, by
        rw [List.sum_nil, Nat.zero_add]
        exact Nat.not_le.mp fits⟩⟩

variable {source : List Byte} {lens : List Nat}

theorem Genuine.staysBefore (genuine' : Genuine snappy source lens) :
    StaysBefore snappy source lens := by
  intro refused front before within
  induction front using List.reverseRecOn with
  | nil => exact Nat.zero_le _
  | append_singleton front len ih =>
    obtain ⟨back, rfl⟩ := before
    by_contra beyond
    rw [List.sum_append, List.sum_singleton] at within beyond
    obtain ⟨pieces, _, _, _, counts, runs, _⟩ := @atomicReads_enough _ _ _ _ _ (front ++ [len])
      (ahead_fresh source) (by rw [List.sum_append, List.sum_singleton]; exact within)
    have count := congrArg List.length counts
    rw [List.length_map, List.length_append, List.length_singleton] at count
    have last : front.length < pieces.length := by omega
    apply genuine'.ends refused front len back (List.append_assoc _ _ _) (by omega)
      (some (pieces.get ⟨front.length, last⟩))
    rw [runs, List.getElem?_append_left (by rwa [List.length_map]), List.getElem?_map,
      List.getElem?_eq_getElem last]
    rfl

theorem StaysBefore.genuine (stays : StaysBefore snappy source lens) :
    Genuine snappy source lens := by
  obtain ⟨firsts, rest, rfl, within, last⟩ := exists_split lens (held [] (portions snappy source).1)
  obtain ⟨pieces, input', front', later', counts, runs, ahead', takes⟩ :=
    @atomicReads_enough _ _ _ _ _ firsts (ahead_fresh source) within
  have count := congrArg List.length counts
  have total : pieces.flatten.length = firsts.sum := by
    rw [List.length_flatten, counts]
  rw [List.length_map] at count
  have few : firsts.sum ≤ (Snappy.genuine (portions snappy source).1).length := by
    by_cases refused : none ∈ (portions snappy source).1
    · exact stays refused firsts (List.prefix_append _ _) within
    · rwa [← held_accepted refused]
  have tail : okBytes (atomicReads snappy input' rest) = [] ∧
      (none ∈ (portions snappy source).1 → ∀ (index : Nat) (read : Option (List Byte)),
        (atomicReads snappy input' rest)[index]? ≠ some (.ok read)) ∧
      .error .outOfBounds ∉ atomicReads snappy input' rest := by
    rcases last with rfl | ⟨len, back, rfl, beyond⟩
    · exact ⟨rfl, fun _ _ _ => nofun, nofun⟩
    · have held' := takes.held
      rcases atomicReads_short ahead' (by omega : held front' later' < len) back with
        ⟨error, raised⟩ | ⟨all, ended⟩
      · rw [raised]
        refine ⟨rfl, ?_, ?_⟩
        · rintro _ (_ | index) read same <;> cases same
        · intro member
          cases List.mem_singleton.mp member
      · rw [ended]
        refine ⟨?_, ?_, ?_⟩
        · rw [okBytes, List.flatMap_cons, List.nil_append, List.flatMap_map,
            List.flatMap_eq_nil_iff]
          intro len _
          by_cases none' : len = 0
          · rw [if_pos none']
          · rw [if_neg none']
        · intro refused
          have more := held_refused refused
          omega
        · intro member
          rcases List.mem_cons.mp member with same | later
          · cases same
          · obtain ⟨_, _, same⟩ := List.mem_map.mp later
            cases same
  have ok : okBytes (pieces.map fun bytes => Except.ok (some bytes)) = pieces.flatten := by
    rw [okBytes, List.flatMap_map, List.flatMap_id']
  refine ⟨?_, ?_, ?_⟩
  · have whole := takes.genuine (by rwa [total, List.nil_append])
    rw [List.nil_append] at whole
    rw [runs, okBytes, List.flatMap_append, ← okBytes, ok, ← okBytes, tail.1, List.append_nil, whole]
    exact List.prefix_append _ _
  · intro refused front len back same beyond read
    have behind : pieces.length ≤ front.length := by
      rw [count]
      by_contra inside
      have first : front ++ [len] <+: firsts := by
        apply @List.prefix_of_prefix_length_le _ _ _ (firsts ++ rest)
        · rw [same]
          exact ⟨back, List.append_assoc _ _ _⟩
        · exact List.prefix_append _ _
        · rw [List.length_append, List.length_singleton]
          omega
      obtain ⟨more, rfl⟩ := first
      rw [List.sum_append, List.sum_append, List.sum_singleton] at few
      omega
    rw [runs, List.getElem?_append_right (by rwa [List.length_map])]
    exact tail.2.1 refused _ read
  · rw [runs]
    intro member
    rcases List.mem_append.mp member with before | behind
    · obtain ⟨_, _, same⟩ := List.mem_map.mp before
      cases same
    · exact tail.2.2 behind

end Genuine

end InTransport

open InTransport

/-- What is sent is read back, whatever segments and reads it is cut into; and the reads of any source
are genuine exactly where they stay before the first chunk that is not accepted. -/
theorem snappy_recording (snappy : Library) (exact : snappy.Exact)
    (memory : Buffer Byte bufferLength) :
    (∀ calls : List Call, ∃ (target : List TargetCall) (chunks : List (List Byte)),
      OutTransport.produced snappy memory calls = .ok target ∧
      targetBytes target = chunks.flatMap (frame snappy) ∧
      (∀ chunk ∈ chunks, (snappy.compressed chunk).length < 2 ^ 16) ∧
      ∀ lens : List Nat, lens.sum ≤ (sent calls).length →
        ∃ pieces : List (List Byte), pieces.map List.length = lens ∧
          atomicReads snappy (fresh (targetBytes target)) lens =
            (pieces.map fun bytes => .ok (some bytes)) ∧
          pieces.flatten = (sent calls).take lens.sum) ∧
    ∀ (source : List Byte) (lens : List Nat),
      Genuine snappy source lens ↔ StaysBefore snappy source lens := by
  refine ⟨?_, fun source lens => ⟨Genuine.staysBefore, StaysBefore.genuine⟩⟩
  intro calls
  obtain ⟨target, chunks, ran, frames, small, whole⟩ :=
    @OutTransport.produced_frames _ memory exact calls
  have portions' := portions_frames exact chunks small
  refine ⟨target, chunks, ran, frames, ?_, ?_⟩
  · intro chunk member
    have fits := (OutTransport.compressed_le exact (small chunk member)).2
    have room : bufferLength - 2 < 2 ^ 16 := by decide
    omega
  · intro lens few
    have ahead := @ahead_fresh snappy (targetBytes target)
    rw [frames, portions', ← frames] at ahead
    have accepted : none ∉ chunks.map (some : List Byte → Option (List Byte)) := by
      intro member
      obtain ⟨_, _, same⟩ := List.mem_map.mp member
      cases same
    have all := held_accepted accepted
    rw [genuine_map_some, whole] at all
    obtain ⟨pieces, input', _, _, counts, runs, _, takes⟩ :=
      @atomicReads_enough _ _ _ _ _ lens ahead (by rwa [all])
    have total : pieces.flatten.length = lens.sum := by
      rw [List.length_flatten, counts]
    refine ⟨pieces, counts, ?_, ?_⟩
    · have run := runs []
      rwa [List.append_nil, atomicReads, List.append_nil] at run
    · have same := takes.genuine (by
        rw [total, List.nil_append, genuine_map_some, whole]
        exact few)
      rw [List.nil_append, genuine_map_some, whole] at same
      rw [same, ← total, List.take_left]

/-- Data that is short enough for one literal. -/
def Literal (data : List Byte) : Prop := data.length ≤ 60 ∧ data ≠ []

instance (data : List Byte) : Decidable (Literal data) := inferInstanceAs (Decidable (_ ∧ _))

/-- The format of the library as far as short data goes that has nothing to be compressed: the length,
and the data as one literal. Other data is marked by a length of zero. -/
def literals : Library where
  compressed data :=
    if Literal data then
      BitVec.ofNat 8 data.length :: BitVec.ofNat 8 (4 * (data.length - 1)) :: data
    else 0 :: data
  uncompressed bytes :=
    match bytes with
    | [] => none
    | length :: rest =>
      if length = 0 then if Literal rest then none else some rest
      else
        match rest with
        | [] => none
        | tag :: data =>
          if Literal data ∧ length = BitVec.ofNat 8 data.length ∧
            tag = BitVec.ofNat 8 (4 * (data.length - 1)) then some data else none
  spoiled _ := []

theorem literals_exact : literals.Exact where
  inverse data := by
    unfold literals
    simp only
    by_cases short : Literal data
    · have positive : BitVec.ofNat 8 data.length ≠ 0 := by
        have some' := List.length_pos_of_ne_nil short.2
        have few := short.1
        intro none'
        have value := congrArg BitVec.toNat none'
        rw [BitVec.toNat_ofNat, Nat.mod_eq_of_lt (by omega)] at value
        exact Nat.ne_of_gt some' value
      rw [if_pos short]
      simp only [if_neg positive]
      rw [if_pos ⟨short, trivial, trivial⟩]
    · rw [if_neg short]
      simp only [if_true, if_neg short]
  bounded data := by
    unfold literals Library.maxCompressedLength
    simp only
    split
    · simp only [List.length_cons]
      omega
    · simp only [List.length_cons]
      omega

theorem snappy_recording_literals :
    (∃ (target : List TargetCall) (chunks : List (List Byte)),
      OutTransport.produced literals (.filled 0) [.send [1, 2, 3], .next, .send [4]] = .ok target ∧
      targetBytes target = chunks.flatMap (frame literals) ∧
      (∀ chunk ∈ chunks, (literals.compressed chunk).length < 2 ^ 16) ∧
      ∀ lens : List Nat, lens.sum ≤ 4 →
        ∃ pieces : List (List Byte), pieces.map List.length = lens ∧
          atomicReads literals (fresh (targetBytes target)) lens =
            (pieces.map fun bytes => .ok (some bytes)) ∧
          pieces.flatten = ([1, 2, 3, 4] : List Byte).take lens.sum) ∧
    (Genuine literals [1, 0, 1] [1] ↔ StaysBefore literals [1, 0, 1] [1]) :=
  ⟨(snappy_recording literals literals_exact (.filled 0)).1 [.send [1, 2, 3], .next, .send [4]],
    (snappy_recording literals literals_exact (.filled 0)).2 [1, 0, 1] [1]⟩

/-- A chunk that announces a byte and has none is not accepted. -/
theorem portions_refused : portions literals [1, 0, 1] = ([none], true) := by
  have whole : 2 + chunkLength [1, 0, 1] ≤ ([1, 0, 1] : List Byte).length := by decide
  have rest : ([1, 0, 1] : List Byte).drop (2 + chunkLength [1, 0, 1]) = [] := by decide
  have ended : portions literals [] = ([], true) := by
    rw [portions]
    rfl
  have refused : literals.uncompress ((([1, 0, 1] : List Byte).drop 2).take (chunkLength [1, 0, 1]))
      bufferLength = none := by decide
  rw [portions, dif_pos whole]
  simp only [rest, ended, refused]

/-- A read of a corrupt chunk returns `Ok`. -/
theorem snappy_corrupt_chunk :
    ¬∀ snappy : Library, snappy.Exact → ∀ source lens, Genuine snappy source lens := by
  intro always
  have stays := (always literals literals_exact [1, 0, 1] [1]).staysBefore
  rw [StaysBefore, portions_refused] at stays
  have impossible := stays (by decide) [1] (List.prefix_refl _) (by decide)
  cases impossible

end Redemption.Transport.Snappy
