import Redemption.Transport.Snappy

/-! What the reads of a snappy recording give: the data of its chunks, as long as they are accepted. -/
namespace Redemption.Transport.Snappy

open Redemption.Foundation
open Gzip (ErrorId)

section Portions

variable (snappy : Library)

/-- What the chunks of a source are uncompressed to, nothing for one that is corrupt or too large; and
whether the source ends with the last of them. -/
def portions (source : List Byte) : List (Option (List Byte)) × Bool :=
  if _whole : 2 + InTransport.chunkLength source ≤ source.length then
    let later := portions (source.drop (2 + InTransport.chunkLength source))
    (snappy.uncompress ((source.drop 2).take (InTransport.chunkLength source)) bufferLength ::
      later.1, later.2)
  else ([], source = [])
termination_by source.length
decreasing_by
  rw [List.length_drop]
  omega

/-- How many bytes a chunk counts for. -/
def size : Option (List Byte) → Nat
  | some data => data.length
  | none => bufferLength

/-- The data of the chunks up to the first one that is not accepted. -/
def genuine : List (Option (List Byte)) → List Byte
  | [] => []
  | some data :: later => data ++ genuine later
  | none :: _ => []

theorem size_uncompress (chunk : List Byte) :
    size (snappy.uncompress chunk bufferLength) =
      (snappy.uncompressInto chunk bufferLength).2 := by
  unfold Library.uncompressInto
  split
  · rename_i accepted
    rw [accepted]
    rfl
  · rename_i refused
    rw [refused]
    rfl

theorem genuine_map_some (chunks : List (List Byte)) :
    genuine (chunks.map some) = chunks.flatten := by
  induction chunks with
  | nil => rfl
  | cons data chunks ih => rw [List.map_cons, genuine, ih, List.flatten_cons]

end Portions

namespace InTransport

variable {snappy : Library} {input : InTransport} {front : List Byte}
  {later : List (Option (List Byte))} {clean : Bool}

/-- What a transport will still give: what is uncompressed, and the chunks of the source. -/
structure Ahead (snappy : Library) (input : InTransport) (front : List Byte)
    (later : List (Option (List Byte))) (clean : Bool) : Prop where
  inside : input.uncompressedData + front.length ≤ bufferLength
  count : input.uncompressedDataLength = front.length
  cells : input.uncompressedDataBuffer.slice input.uncompressedData front.length = front
  source : portions snappy input.source = (later, clean)

theorem ahead_fresh (source : List Byte) :
    Ahead snappy (fresh source) [] (portions snappy source).1 (portions snappy source).2 :=
  ⟨Nat.zero_le _, rfl, rfl, rfl⟩

/-- How many bytes are ahead, and those of them that are genuine. -/
def held (front : List Byte) (later : List (Option (List Byte))) : Nat :=
  front.length + (later.map size).sum

section Rounds

variable {len remainingSize : Nat} {buffer : Buffer Byte len} {done : List Byte}

/-- What is uncompressed is copied first. -/
theorem doAtomicRead_copy (ahead : Ahead snappy input front later clean) (some' : remainingSize ≠ 0)
    (there : front ≠ []) (begins : buffer.Begins done)
    (places : done.length + remainingSize = len) :
    ∃ input' buffer', doAtomicRead snappy input remainingSize buffer =
        doAtomicRead snappy input' (remainingSize - min remainingSize front.length) buffer' ∧
      Ahead snappy input' (front.drop (min remainingSize front.length)) later clean ∧
      buffer'.Begins (done ++ front.take (min remainingSize front.length)) := by
  have inside := ahead.inside
  have within : min remainingSize front.length ≤ front.length := Nat.min_le_right _ _
  generalize count : min remainingSize front.length = dataLength at within
  have taken : (front.take dataLength).length = dataLength := List.length_take_of_le within
  have split' : input.uncompressedDataBuffer.slice input.uncompressedData dataLength =
        front.take dataLength ∧
      input.uncompressedDataBuffer.slice (input.uncompressedData + dataLength)
        (front.length - dataLength) = front.drop dataLength := by
    have cells := ahead.cells
    have whole : front.length = dataLength + (front.length - dataLength) := by omega
    rw [whole, Buffer.slice_append] at cells
    conv at cells =>
      rhs
      rw [← List.take_append_drop dataLength front]
    exact List.append_inj cells (by rw [Buffer.length_slice, taken])
  have place : len - remainingSize = done.length := by omega
  refine ⟨{ input with
    uncompressedData := input.uncompressedData + dataLength
    uncompressedDataLength := input.uncompressedDataLength - dataLength },
    buffer.splice done.length (front.take dataLength), ?_, ⟨?_, ?_, ?_, ahead.source⟩,
    begins.splice _⟩
  · have some'' : input.uncompressedDataLength ≠ 0 := by
      rw [ahead.count]
      exact Nat.ne_of_gt (List.length_pos_of_ne_nil there)
    rw [doAtomicRead, dif_pos some', dif_pos some'']
    simp only [ahead.count, count]
    rw [Buffer.loadBlock_of_le _ (by omega), ok_bind, split'.1, place,
      Buffer.storeBlock_of_le _ (by omega), ok_bind]
  · rw [List.length_drop]
    simp only
    omega
  · rw [List.length_drop, ahead.count]
  · rw [List.length_drop]
    exact split'.2

/-- Where nothing is uncompressed, the next chunk decides. -/
theorem doAtomicRead_next (empty : input.uncompressedDataLength = 0) (some' : remainingSize ≠ 0) :
    doAtomicRead snappy input remainingSize buffer =
      match input.readChunk snappy with
      | .error fault => .error fault
      | .ok none =>
        if remainingSize = len then .ok (none, input)
        else .error (.raised .transportReadFailed)
      | .ok (some after) => doAtomicRead snappy after remainingSize buffer := by
  rw [doAtomicRead, dif_pos some', dif_neg (fun more => more empty)]
  split
  · rename_i failed
    rw [failed]
  · rename_i ended
    rw [ended]
  · rename_i loaded
    rw [loaded]

/-- A source with a chunk to come starts with it. -/
theorem portions_cons {source : List Byte} {portion : Option (List Byte)}
    (source' : portions snappy source = (portion :: later, clean)) :
    2 + chunkLength source ≤ source.length ∧
      snappy.uncompress ((source.drop 2).take (chunkLength source)) bufferLength = portion ∧
      portions snappy (source.drop (2 + chunkLength source)) = (later, clean) := by
  rw [portions] at source'
  split at source'
  · rename_i whole
    obtain ⟨both, ends⟩ := Prod.mk.inj source'
    obtain ⟨first, rest⟩ := List.cons.inj both
    exact ⟨whole, first, Prod.ext rest ends⟩
  · cases source'

theorem portions_nil {source : List Byte} (source' : portions snappy source = ([], clean)) :
    source.length < 2 + chunkLength source ∧ (clean = true ↔ source = []) := by
  rw [portions] at source'
  split at source'
  · cases source'
  · rename_i cut
    obtain ⟨_, rfl⟩ := Prod.mk.inj source'
    exact ⟨Nat.not_le.mp cut, decide_eq_true_iff⟩

/-- Where nothing is uncompressed, the next chunk is. -/
theorem doAtomicRead_load {portion : Option (List Byte)}
    (ahead : Ahead snappy input [] (portion :: later) clean) (some' : remainingSize ≠ 0) :
    ∃ input' front', doAtomicRead snappy input remainingSize buffer =
        doAtomicRead snappy input' remainingSize buffer ∧
      Ahead snappy input' front' later clean ∧ held [] (portion :: later) = held front' later ∧
      (∀ data, portion = some data → front' = data) := by
  obtain ⟨whole, portion', rest⟩ := portions_cons ahead.source
  generalize chunk' : (input.source.drop 2).take (chunkLength input.source) = chunk at portion'
  have read := @readChunk_whole snappy input whole
  rw [chunk'] at read
  have fits := snappy.uncompressInto_le chunk bufferLength
  have counts := size_uncompress snappy chunk
  rw [portion'] at counts
  generalize input'' : ({
    source := input.source.drop (2 + chunkLength input.source)
    uncompressedData := 0
    uncompressedDataLength := (snappy.uncompressInto chunk bufferLength).2
    uncompressedDataBuffer := input.uncompressedDataBuffer.splice 0
      (snappy.uncompressInto chunk bufferLength).1 } : InTransport) = input' at read
  refine ⟨input', input'.uncompressedDataBuffer.slice 0 (size portion), ?_, ?_, ?_, ?_⟩
  · rw [doAtomicRead_next ahead.count some', read]
  · subst input''
    refine ⟨?_, ?_, ?_, rest⟩
    · rw [Buffer.length_slice, counts, Nat.zero_add]
      exact fits.2
    · rw [Buffer.length_slice, counts]
    · rw [Buffer.length_slice]
  · rw [held, held, Buffer.length_slice, List.map_cons, List.sum_cons, List.length_nil,
      Nat.zero_add]
  · rintro data rfl
    subst input''
    have same : (snappy.uncompressInto chunk bufferLength).1 = data := by
      unfold Library.uncompressInto
      rw [portion']
    simp only [same]
    exact Buffer.slice_splice _ _ _

/-- Where nothing is ahead, the read ends at the end of the source, or in an error. -/
theorem doAtomicRead_end (ahead : Ahead snappy input [] [] clean) (some' : remainingSize ≠ 0) :
    (∃ error, doAtomicRead snappy input remainingSize buffer = .error (.raised error)) ∧
        ¬(clean = true ∧ remainingSize = len) ∨
      (clean = true ∧ remainingSize = len) ∧
        doAtomicRead snappy input remainingSize buffer = .ok (none, input) := by
  obtain ⟨cut, ends⟩ := portions_nil ahead.source
  rw [doAtomicRead_next ahead.count some']
  by_cases ended : input.source = []
  · rw [readChunk_ended ended]
    by_cases first : remainingSize = len
    · exact .inr ⟨⟨ends.mpr ended, first⟩, if_pos first⟩
    · exact .inl ⟨⟨_, if_neg first⟩, fun both => first both.2⟩
  · obtain ⟨error, read⟩ := @readChunk_cut snappy input ended cut
    rw [read]
    exact .inl ⟨⟨error, rfl⟩, fun both => ended (ends.mp both.1)⟩

/-- What a number of bytes that are taken leaves of what is ahead. -/
structure Takes (front : List Byte) (later : List (Option (List Byte))) (bytes front' : List Byte)
    (later' : List (Option (List Byte))) : Prop where
  held : held front later = bytes.length + held front' later'
  genuine : bytes.length ≤ (front ++ genuine later).length →
    front ++ genuine later = bytes ++ (front' ++ genuine later')

/-- As long as enough is ahead, a read takes what it asks for. -/
theorem doAtomicRead_enough (bound : Nat) (bounded : remainingSize + later.length ≤ bound)
    (ahead : Ahead snappy input front later clean) (enough : remainingSize ≤ held front later)
    (begins : buffer.Begins done) (places : done.length + remainingSize = len) :
    ∃ input' buffer' bytes front' later',
      doAtomicRead snappy input remainingSize buffer = .ok (some buffer', input') ∧
      bytes.length = remainingSize ∧ buffer'.Begins (done ++ bytes) ∧
      Ahead snappy input' front' later' clean ∧ Takes front later bytes front' later' := by
  induction bound generalizing input front later remainingSize buffer done with
  | zero =>
    have none' : remainingSize = 0 := by omega
    subst none'
    refine ⟨input, buffer, [], front, later, ?_, rfl, by rwa [List.append_nil], ahead,
      ⟨(Nat.zero_add _).symm, fun _ => rfl⟩⟩
    rw [doAtomicRead, dif_neg (fun some' => some' rfl)]
  | succ bound ih =>
    by_cases some' : remainingSize = 0
    · subst some'
      refine ⟨input, buffer, [], front, later, ?_, rfl, by rwa [List.append_nil], ahead,
        ⟨(Nat.zero_add _).symm, fun _ => rfl⟩⟩
      rw [doAtomicRead, dif_neg (fun some' => some' rfl)]
    by_cases there : front = []
    · subst there
      cases later with
      | nil =>
        rw [held, List.map_nil, List.sum_nil, List.length_nil] at enough
        omega
      | cons portion later =>
        obtain ⟨input', front', loads, ahead', counts, same⟩ :=
          @doAtomicRead_load _ _ _ _ _ _ buffer _ ahead some'
        rw [List.length_cons] at bounded
        obtain ⟨input'', buffer', bytes, front'', later', ran, count, begins', ahead'', takes⟩ :=
          @ih input' front' later _ buffer done (by omega) ahead' (by omega) begins places
        refine ⟨input'', buffer', bytes, front'', later', loads.trans ran, count, begins', ahead'',
          ⟨counts.trans takes.held, ?_⟩⟩
        cases portion with
        | none =>
          intro few
          rw [List.nil_append, genuine, List.length_nil] at few
          omega
        | some data =>
          obtain rfl := same data rfl
          exact takes.genuine
    · obtain ⟨input', buffer', copies, ahead', begins'⟩ :=
        doAtomicRead_copy ahead some' there begins places
      have positive := List.length_pos_of_ne_nil there
      have within : min remainingSize front.length ≤ front.length := Nat.min_le_right _ _
      have some'' : 0 < min remainingSize front.length := by omega
      have less : min remainingSize front.length ≤ remainingSize := Nat.min_le_left _ _
      generalize min remainingSize front.length = dataLength at *
      have taken : (front.take dataLength).length = dataLength := List.length_take_of_le within
      have counts : held front later = dataLength + held (front.drop dataLength) later := by
        rw [held, held, List.length_drop]
        omega
      obtain ⟨input'', buffer'', bytes, front', later', ran, count, begins'', ahead'', takes⟩ :=
        @ih input' _ later (remainingSize - dataLength) buffer' _ (by omega) ahead' (by omega)
          begins' (by
            rw [List.length_append, taken]
            omega)
      refine ⟨input'', buffer'', front.take dataLength ++ bytes, front', later',
        copies.trans ran, ?_, by rwa [← List.append_assoc], ahead'', ?_, ?_⟩
      · rw [List.length_append, taken, count]
        omega
      · rw [counts, takes.held, List.length_append, taken, Nat.add_assoc]
      · intro few
        rw [List.length_append, List.length_append, taken] at few
        rw [List.append_assoc, ← takes.genuine (by
            rw [List.length_append, List.length_drop]
            omega),
          ← List.append_assoc, List.take_append_drop]

/-- Where too little is ahead, a read ends in an error, or at the end of the source. -/
theorem doAtomicRead_short (bound : Nat) (bounded : remainingSize + later.length ≤ bound)
    (ahead : Ahead snappy input front later clean) (short : held front later < remainingSize)
    (begins : buffer.Begins done) (places : done.length + remainingSize = len) :
    (∃ error, doAtomicRead snappy input remainingSize buffer = .error (.raised error)) ∨
      ∃ input', doAtomicRead snappy input remainingSize buffer = .ok (none, input') ∧ done = [] ∧
        held front later = 0 ∧ clean = true ∧ Ahead snappy input' [] [] clean := by
  induction bound generalizing input front later remainingSize buffer done with
  | zero => omega
  | succ bound ih =>
    have some' : remainingSize ≠ 0 := by omega
    by_cases there : front = []
    · subst there
      cases later with
      | nil =>
        rcases @doAtomicRead_end _ _ _ _ _ buffer ahead some' with
          ⟨raised, _⟩ | ⟨⟨ends, all⟩, ended⟩
        · exact .inl raised
        · exact .inr ⟨input, ended, List.eq_nil_of_length_eq_zero (by omega), rfl, ends, ahead⟩
      | cons portion later =>
        obtain ⟨input', front', loads, ahead', counts, _⟩ :=
          @doAtomicRead_load _ _ _ _ _ _ buffer _ ahead some'
        rw [List.length_cons] at bounded
        rw [loads, counts]
        exact @ih input' front' later _ buffer done (by omega) ahead' (by omega) begins places
    · have positive := List.length_pos_of_ne_nil there
      obtain ⟨input', buffer', copies, ahead', begins'⟩ :=
        doAtomicRead_copy ahead some' there begins places
      have whole : min remainingSize front.length = front.length := by
        unfold held at short
        omega
      rw [whole] at copies ahead' begins'
      rw [List.drop_length] at ahead'
      rw [List.take_length] at begins'
      have counts : held front later = front.length + held [] later := by
        rw [held, held, List.length_nil, Nat.zero_add]
      rw [copies]
      rcases @ih input' [] later (remainingSize - front.length) buffer' _ (by omega) ahead'
        (by omega) begins' (by rw [List.length_append]; omega) with raised | ⟨_, _, none', _⟩
      · exact .inl raised
      · exact absurd (List.append_eq_nil_iff.mp none').2 there

end Rounds

section Reads

/-- `atomic_read`. -/
def atomicRead (snappy : Library) (input : InTransport) (len : Nat) :
    Checked ErrorId (Option (List Byte) × InTransport) := do
  let (read, after) ← doAtomicRead snappy input len (.filled 0 : Buffer Byte len)
  return (read.map (·.slice 0 len), after)

/-- What reads of the given lengths return, up to the first error. -/
def atomicReads (snappy : Library) (input : InTransport) :
    List Nat → List (Checked ErrorId (Option (List Byte)))
  | [] => []
  | len :: lens =>
    match atomicRead snappy input len with
    | .error fault => [.error fault]
    | .ok (read, after) => .ok read :: atomicReads snappy after lens

variable {len : Nat}

theorem atomicRead_enough (ahead : Ahead snappy input front later clean)
    (enough : len ≤ held front later) :
    ∃ input' bytes front' later', atomicRead snappy input len = .ok (some bytes, input') ∧
      bytes.length = len ∧ Ahead snappy input' front' later' clean ∧
      Takes front later bytes front' later' := by
  obtain ⟨input', buffer', bytes, front', later', ran, count, begins, ahead', takes⟩ :=
    @doAtomicRead_enough _ _ _ _ _ len _ (.filled 0) [] _ (Nat.le_refl _) ahead enough
      (Buffer.begins_nil _) (Nat.zero_add _)
  refine ⟨input', bytes, front', later', ?_, count, ahead', takes⟩
  rw [atomicRead, ran, ok_bind]
  rw [List.nil_append, Buffer.Begins, count] at begins
  simp only [Option.map_some, begins, pure_ok]

theorem atomicRead_short (ahead : Ahead snappy input front later clean)
    (short : held front later < len) :
    (∃ error, atomicRead snappy input len = .error (.raised error)) ∨
      ∃ input', atomicRead snappy input len = .ok (none, input') ∧ held front later = 0 ∧
        clean = true ∧ Ahead snappy input' [] [] clean := by
  rcases @doAtomicRead_short _ _ _ _ _ len _ (.filled 0) [] _ (Nat.le_refl _) ahead short
    (Buffer.begins_nil _) (Nat.zero_add _) with ⟨error, raised⟩ | ⟨input', ended, _, rest⟩
  · exact .inl ⟨error, by rw [atomicRead, raised]; rfl⟩
  · exact .inr ⟨input', by rw [atomicRead, ended]; rfl, rest⟩

/-- Reads of no more than is ahead return the bytes one after the other. -/
theorem atomicReads_enough {lens : List Nat} (ahead : Ahead snappy input front later clean)
    (enough : lens.sum ≤ held front later) :
    ∃ (pieces : List (List Byte)) (input' : InTransport) (front' : List Byte)
      (later' : List (Option (List Byte))), pieces.map List.length = lens ∧
      (∀ more, atomicReads snappy input (lens ++ more) =
        (pieces.map fun bytes => .ok (some bytes)) ++ atomicReads snappy input' more) ∧
      Ahead snappy input' front' later' clean ∧ Takes front later pieces.flatten front' later' := by
  induction lens generalizing input front later with
  | nil =>
    exact ⟨[], input, front, later, rfl, fun _ => rfl, ahead, (Nat.zero_add _).symm, fun _ => rfl⟩
  | cons len lens ih =>
    rw [List.sum_cons] at enough
    obtain ⟨input', bytes, front', later', ran, count, ahead', takes⟩ :=
      @atomicRead_enough _ _ _ _ _ len ahead (by omega)
    obtain ⟨pieces, input'', front'', later'', counts, runs, ahead'', takes'⟩ :=
      ih ahead' (by have := takes.held; omega)
    refine ⟨bytes :: pieces, input'', front'', later'', ?_, ?_, ahead'', ?_, ?_⟩
    · rw [List.map_cons, counts, count]
    · intro more
      rw [List.cons_append, atomicReads, ran]
      simp only [runs, List.map_cons, List.cons_append]
    · rw [takes.held, takes'.held, List.flatten_cons, List.length_append, Nat.add_assoc]
    · intro few
      rw [List.flatten_cons, List.length_append] at few
      have first := takes.genuine (by omega)
      rw [first, List.length_append] at few
      rw [first, takes'.genuine (by omega), List.flatten_cons, List.append_assoc]

/-- At the end of the source, the reads return that it is the end. -/
theorem atomicReads_ended (lens : List Nat) (ahead : Ahead snappy input [] [] true) :
    atomicReads snappy input lens =
      lens.map fun len => .ok (if len = 0 then some [] else none) := by
  induction lens with
  | nil => rfl
  | cons len lens ih =>
    have read : atomicRead snappy input len =
        .ok (if len = 0 then some [] else none, input) := by
      by_cases none' : len = 0
      · subst none'
        rw [atomicRead, doAtomicRead, dif_neg (fun some' => some' rfl)]
        rfl
      · rcases @doAtomicRead_end _ _ _ len _ (.filled 0) ahead none' with
          ⟨_, other⟩ | ⟨_, ended⟩
        · exact absurd ⟨rfl, rfl⟩ other
        · rw [atomicRead, ended, if_neg none']
          rfl
    rw [atomicReads, read]
    simp only [ih, List.map_cons]

/-- A read of more than is ahead is the last one, or all that follow are at the end. -/
theorem atomicReads_short (ahead : Ahead snappy input front later clean)
    (short : held front later < len) (lens : List Nat) :
    (∃ error, atomicReads snappy input (len :: lens) = [.error (.raised error)]) ∨
      held front later = 0 ∧ atomicReads snappy input (len :: lens) =
        .ok none :: lens.map fun len => .ok (if len = 0 then some [] else none) := by
  rcases atomicRead_short ahead short with ⟨error, raised⟩ | ⟨input', ended, all, rfl, ahead'⟩
  · exact .inl ⟨error, by rw [atomicReads, raised]⟩
  · refine .inr ⟨all, ?_⟩
    rw [atomicReads, ended]
    simp only [atomicReads_ended lens ahead']

end Reads

end InTransport

end Redemption.Transport.Snappy
