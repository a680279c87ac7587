import Redemption.Transport.Gzip

/-! Reading blocks of whole zlib streams gives back what is in the streams. -/
namespace Redemption.Transport.Gzip

open Redemption.Foundation

variable {zlib : StreamCodec Byte}

/-- A block as it is sent. -/
def block (reset : Bool) (bytes : List Byte) : List Byte :=
  OutTransport.blockHeader reset bytes.length ++ bytes

/-- Bytes that may be sent as blocks. -/
def Sized (pieces : List (List Byte)) : Prop :=
  ∀ piece ∈ pieces, piece ≠ [] ∧ piece.length ≤ bufferLength

/-- The blocks of whole streams, and what is in the streams. Once a stream has `started`, the
first block of the next has to say that it starts another. -/
inductive Streams (zlib : StreamCodec Byte) : Bool → List Byte → List Byte → Prop where
  | done {started : Bool} : Streams zlib started [] []
  | stream {started reset : Bool} {piece : List Byte} {pieces : List (List Byte)}
      {content source data : List Byte} (announced : started = true → reset = true)
      (sized : Sized (piece :: pieces))
      (inflates : zlib.Inflates (piece ++ pieces.flatten) content)
      (rest : Streams zlib true source data) :
      Streams zlib started (block reset piece ++ (pieces.flatMap (block false) ++ source))
        (content ++ data)

theorem Streams.append {started : Bool} {source source' data data' : List Byte}
    (first : Streams zlib started source data) (second : Streams zlib true source' data') :
    Streams zlib started (source ++ source') (data ++ data') := by
  induction first with
  | done =>
    rw [List.nil_append, List.nil_append]
    cases second with
    | done => exact .done
    | stream announced sized inflates rest =>
      exact .stream (fun _ => announced rfl) sized inflates rest
  | stream announced sized inflates rest ih =>
    have more := Streams.stream announced sized inflates ih
    simpa only [List.append_assoc] using more

namespace InTransport

variable {input : InTransport zlib} {data : List Byte}

/-- The data that a transport will still give: what is uncompressed, what is to come of the
stream it is in, and what the streams behind hold. -/
inductive Holds (input : InTransport zlib) : List Byte → Prop where
  | idle {data : List Byte} (fresh : input.compressionStream = zlib.inflateInit)
      (none : input.uncompressedData = []) (settled : input.inflatePending = false)
      (rest : Streams zlib false input.source data) : Holds input data
  | within {whole content taken given more source data : List Byte} {pieces : List (List Byte)}
      (inflates : zlib.Inflates whole content)
      (inflating : zlib.Inflating whole input.compressionStream taken given)
      (sized : Sized pieces)
      (spelled : taken ++ (if input.inflatePending then input.nextIn else []) ++
        pieces.flatten = whole)
      (behind : input.source = pieces.flatMap (block false) ++ source)
      (complete : given ++ more = content)
      (finished : input.inflatePending = false → pieces = [] → more = [])
      (rest : Streams zlib true source data) :
      Holds input (input.uncompressedData ++ (more ++ data))

theorem holds_inflateNext {whole content taken given more source : List Byte}
    {pieces : List (List Byte)} (inflates : zlib.Inflates whole content)
    (inflating : zlib.Inflating whole input.compressionStream taken given)
    (sized : Sized pieces) (spelled : taken ++ input.nextIn ++ pieces.flatten = whole)
    (behind : input.source = pieces.flatMap (block false) ++ source)
    (complete : given ++ more = content) (rest : Streams zlib true source data) :
    Holds input.inflateNext (more ++ data) := by
  have room : 0 < bufferLength := by decide
  have inside : taken ++ input.nextIn <+: whole := ⟨_, spelled⟩
  obtain ⟨suffix, fits, part, short, full⟩ :=
    inflates _ _ _ inflating input.nextIn bufferLength room inside
  have next := StreamApi.Inflating.call inflating input.nextIn bufferLength inside
  obtain ⟨more', parts⟩ := part
  rw [← complete, List.append_assoc] at parts
  have split := List.append_cancel_left parts
  have settled : input.inflateNext.inflatePending = false →
      input.inflateNext.nextIn = [] ∧ (pieces = [] → more' = []) := by
    intro no
    have all (last : given ++ (zlib.inflate input.compressionStream input.nextIn
        bufferLength).output = content) : more' = [] := by
      rw [← complete, ← split, ← List.append_assoc] at last
      exact (List.append_cancel_left (last.symm.trans (List.append_nil _).symm) : _)
    rcases Nat.lt_or_ge (zlib.inflate input.compressionStream input.nextIn
      bufferLength).output.length bufferLength with less | more
    · obtain ⟨emptied, last⟩ := short less
      refine ⟨emptied, fun none => all (last ?_)⟩
      rw [← spelled, none, List.flatten_nil, List.append_nil]
    · have exactly := Nat.le_antisymm fits more
      simp only [inflateNext, exactly, beq_self_eq_true, Bool.and_true] at no
      obtain ⟨emptied, last⟩ := full exactly no
      exact ⟨emptied, fun _ => all last⟩
  have spelled' : taken ++ used input.nextIn input.inflateNext.nextIn ++
      (if input.inflateNext.inflatePending then input.inflateNext.nextIn else []) ++
        pieces.flatten = whole := by
    have apart := used_append suffix
    cases pending : input.inflateNext.inflatePending with
    | true =>
      rw [if_pos rfl, List.append_assoc taken]
      change taken ++ (used input.nextIn (zlib.inflate _ _ _).nextIn ++
        (zlib.inflate _ _ _).nextIn) ++ _ = _
      rw [apart, spelled]
    | false =>
      rw [if_neg Bool.false_ne_true, List.append_nil, (settled pending).1, used_nil, spelled]
  rw [← split, List.append_assoc]
  exact .within inflates next sized spelled' behind (by rw [List.append_assoc, split, complete])
    (fun no => (settled no).2) rest

theorem readBlock_block {reset : Bool} {piece source : List Byte}
    (sized : piece.length ≤ bufferLength) (first : input.source = block reset piece ++ source) :
    input.readBlock = .ok (some { input with
      source
      compressionStream := if reset then zlib.inflateInit else input.compressionStream
      nextIn := piece }) := by
  have header : (OutTransport.blockHeader reset piece.length).length = 5 := by
    simp [OutTransport.blockHeader]
  have five : 5 ≤ input.source.length := by
    rw [first, block, List.length_append, List.length_append]
    omega
  have length : leValue ((OutTransport.blockHeader reset piece.length).drop 1) = piece.length := by
    have small : bufferLength < 2 ^ (8 * 4) := by decide
    rw [OutTransport.blockHeader, List.drop_one, List.tail_cons, leValue_leBytes,
      Nat.mod_eq_of_lt (by omega)]
  have flag : ((OutTransport.blockHeader reset piece.length).head? = some 1) ↔ reset = true := by
    cases reset <;> simp [OutTransport.blockHeader]
  have front : input.source.take 5 = OutTransport.blockHeader reset piece.length := by
    rw [first, block, List.append_assoc, List.take_left' header]
  have back : input.source.drop 5 = piece ++ source := by
    rw [first, block, List.append_assoc, List.drop_left' header]
  have received : recvBoom (piece ++ source) piece.length = .ok (piece, source) := by
    have enough : piece.length ≤ (piece ++ source).length := by
      rw [List.length_append]
      omega
    rw [recvBoom, atomicRead, if_pos enough, List.take_left, List.drop_left]
    rfl
  rw [readBlock, atomicRead, if_pos five, front, back]
  simp only [ok_bind, length, received, if_neg (Nat.not_lt.mpr sized), pure_ok, flag]

/-- With nothing uncompressed left, either there is more or the source has ended. -/
theorem refill_run (holds : Holds input data) (none : input.uncompressedData = []) :
    (input.refill = .ok .none ∧ data = []) ∨
      ∃ after, input.refill = .ok (some after) ∧ Holds after data := by
  have opens {started : Bool} {source : List Byte} (streams : Streams zlib started source data)
      (settled : input.inflatePending = false) (same : input.source = source)
      (fresh : started = false → input.compressionStream = zlib.inflateInit) :
      (input.refill = .ok .none ∧ data = []) ∨
        ∃ after, input.refill = .ok (some after) ∧ Holds after data := by
    have blocked : input.refill = (do return (← input.readBlock).map inflateNext) := by
      rw [refill, if_neg (by rw [settled]; decide)]
    cases streams with
    | done =>
      left
      rw [blocked, readBlock, same]
      exact ⟨rfl, rfl⟩
    | @stream _ reset piece pieces content source data announced sized inflates rest =>
      right
      have begun : (if reset then zlib.inflateInit else input.compressionStream) =
          zlib.inflateInit := by
        cases reset with
        | true => rfl
        | false =>
          cases started with
          | true => exact absurd (announced rfl) Bool.false_ne_true
          | false => exact fresh rfl
      rw [blocked, readBlock_block (sized piece List.mem_cons_self).2 same, begun]
      refine ⟨_, rfl, holds_inflateNext inflates .init
        (fun other member => sized other (List.mem_cons_of_mem piece member)) rfl rfl rfl rest⟩
  cases holds with
  | idle fresh _ settled rest => exact opens rest settled rfl fun _ => fresh
  | @within whole content taken given more source data pieces inflates inflating sized spelled
      behind complete finished rest =>
    rw [none, List.nil_append]
    cases pending : input.inflatePending with
    | true =>
      rw [pending, if_pos rfl] at spelled
      exact .inr ⟨input.inflateNext, by rw [refill, if_pos pending],
        holds_inflateNext inflates inflating sized spelled behind complete rest⟩
    | false =>
      cases pieces with
      | nil =>
        rw [finished pending rfl, List.nil_append]
        rw [none, finished pending rfl, List.nil_append, List.nil_append] at opens
        exact opens rest pending behind nofun
      | cons piece pieces =>
        rw [pending, if_neg Bool.false_ne_true, List.append_nil] at spelled
        rw [List.flatMap_cons, List.append_assoc] at behind
        right
        rw [refill, if_neg (by rw [pending]; decide),
          readBlock_block (sized piece List.mem_cons_self).2 behind]
        refine ⟨_, rfl, holds_inflateNext inflates inflating
          (fun other member => sized other (List.mem_cons_of_mem piece member)) ?_ rfl complete
          rest⟩
        rw [← spelled, List.flatten_cons, List.append_assoc]

theorem Holds.take (holds : Holds input data) {length : Nat}
    (within : length ≤ input.uncompressedData.length) :
    length ≤ data.length ∧ data.take length = input.uncompressedData.take length ∧
      Holds { input with uncompressedData := input.uncompressedData.drop length }
        (data.drop length) := by
  cases holds with
  | idle fresh none settled rest =>
    rw [none, List.length_nil] at within
    have zero := Nat.le_zero.mp within
    subst zero
    exact ⟨Nat.zero_le _, by simp, .idle fresh (by simp [none]) settled (by simpa using rest)⟩
  | within inflates inflating sized spelled behind complete finished rest =>
    refine ⟨?_, List.take_append_of_le_length within, ?_⟩
    · rw [List.length_append]
      omega
    · rw [List.drop_append_of_le_length within]
      exact .within inflates inflating sized spelled behind complete finished rest

/-- An atomic read gives the next bytes, or nothing once fewer are left. -/
theorem doAtomicRead_run (remainingSize : Nat) (read : List Byte) (holds : Holds input data) :
    ∃ after, input.doAtomicRead remainingSize read =
        .ok (if remainingSize ≤ data.length then some (read ++ data.take remainingSize) else none,
          after) ∧
      Holds after (if remainingSize ≤ data.length then data.drop remainingSize else []) := by
  induction input, remainingSize, read using doAtomicRead.induct generalizing data with
  | case1 input read =>
    refine ⟨input, ?_, ?_⟩
    · rw [doAtomicRead, if_pos rfl, if_pos (Nat.zero_le _), List.take_zero, List.append_nil]
    · rwa [if_pos (Nat.zero_le _), List.drop_zero]
  | case2 input remainingSize read positive nonempty dataLength =>
    rename_i ih
    obtain ⟨enough, front, rest⟩ := @Holds.take _ _ _ holds dataLength (by omega)
    obtain ⟨after, reads, holds'⟩ := ih rest
    have same : remainingSize - dataLength ≤ (data.drop dataLength).length ↔
        remainingSize ≤ data.length := by
      rw [List.length_drop]
      omega
    have sum : dataLength + (remainingSize - dataLength) = remainingSize := by omega
    simp only [same, List.drop_drop, sum] at reads holds'
    refine ⟨after, ?_, holds'⟩
    rw [doAtomicRead, if_neg positive, dif_pos nonempty]
    rw [reads, ← front, List.append_assoc, ← List.take_add, sum]
  | case3 input remainingSize read positive empty error refilled =>
    rcases refill_run holds (by simpa using empty) with ⟨ended, _⟩ | ⟨after, more, _⟩
    · rw [refilled] at ended
      cases ended
    · rw [refilled] at more
      cases more
  | case4 input remainingSize read positive empty refilled =>
    rcases refill_run holds (by simpa using empty) with ⟨_, rfl⟩ | ⟨after, more, _⟩
    · have short : ¬ remainingSize ≤ ([] : List Byte).length := by
        rw [List.length_nil]
        omega
      refine ⟨input, ?_, by rwa [if_neg short]⟩
      rw [doAtomicRead, if_neg positive, dif_neg empty, if_neg short]
      split
      · rename_i error failed
        rw [refilled] at failed
        cases failed
      · rfl
      · rename_i after more
        rw [refilled] at more
        cases more
    · rw [refilled] at more
      cases more
  | case5 input remainingSize read positive empty after refilled ih =>
    rcases refill_run holds (by simpa using empty) with ⟨ended, _⟩ | ⟨after', more, holds'⟩
    · rw [refilled] at ended
      cases ended
    · rw [refilled] at more
      cases more
      obtain ⟨last, reads, kept⟩ := ih holds'
      refine ⟨last, ?_, kept⟩
      rw [doAtomicRead, if_neg positive, dif_neg empty, ← reads]
      split
      · rename_i error failed
        rw [refilled] at failed
        cases failed
      · rename_i ended
        rw [refilled] at ended
        cases ended
      · rename_i after more
        rw [refilled] at more
        cases more
        rfl

/-- Reads of the given lengths, one after the other. -/
def atomicReads (input : InTransport zlib) :
    List Nat → Except ErrorId (List (Option (List Byte)))
  | [] => .ok []
  | length :: lengths => do
    let (read, after) ← input.doAtomicRead length []
    let reads ← after.atomicReads lengths
    return read :: reads

/-- What reads of the given lengths should give of `data`: each the next bytes, or the end where
fewer are left. -/
def served (data : List Byte) : List Nat → List (Option (List Byte))
  | [] => []
  | length :: lengths =>
    if length ≤ data.length then some (data.take length) :: served (data.drop length) lengths
    else none :: served [] lengths

theorem atomicReads_run (holds : Holds input data) (lengths : List Nat) :
    input.atomicReads lengths = .ok (served data lengths) := by
  induction lengths generalizing input data with
  | nil => rfl
  | cons length lengths ih =>
    obtain ⟨after, read, holds'⟩ := doAtomicRead_run length [] holds
    rw [atomicReads, read, ok_bind]
    simp only [ih holds', ok_bind, pure_ok, List.nil_append, served]
    split <;> rfl

theorem atomicReads_streams {source : List Byte} (streams : Streams zlib false source data)
    (lengths : List Nat) : (fresh zlib source).atomicReads lengths = .ok (served data lengths) :=
  atomicReads_run (.idle rfl rfl rfl streams) lengths

end InTransport

end Redemption.Transport.Gzip
