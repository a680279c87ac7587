import Redemption.Tpdu.TpduBuffer

/-! Well-formed packets come out as they went in, however their bytes arrive. -/
namespace Redemption.Tpdu

open Redemption.Foundation

/-- Whole packets as `X224Extractor` understands them, with their types. -/
inductive WellFormed (bytes : List Byte) : Nat → Prop where
  | fastPath (long : 4 ≤ bytes.length) (action : bytes[0] &&& 0x03 = 0x0)
      (length : (X224Extractor.fastPathLength bytes[1] bytes[2]).1 = bytes.length) :
      WellFormed bytes fastpath
  | x224 {type : Nat} (long : 6 ≤ bytes.length) (version : bytes[0] &&& 0x03 = 0x3)
      (length : uint16Be bytes[2] bytes[3] = bytes.length)
      (code : X224Extractor.tpduType bytes[5] = some type) : WellFormed bytes type

/-- A well-formed packet. -/
structure Pdu where
  bytes : List Byte
  type : Nat
  wellFormed : WellFormed bytes type

def stream (pdus : List Pdu) : List Byte := pdus.flatMap Pdu.bytes

/-- What a reader learns about a packet. -/
def Pdu.seen (pdu : Pdu) : List Byte × Nat := (pdu.bytes, pdu.type)

namespace WellFormed

variable {bytes : List Byte} {type : Nat}

theorem four_le (wellFormed : WellFormed bytes type) : 4 ≤ bytes.length := by
  cases wellFormed with
  | fastPath long => exact long
  | x224 long => omega

theorem length_le (wellFormed : WellFormed bytes type) : bytes.length ≤ maxLen := by
  cases wellFormed with
  | fastPath long action length =>
    unfold X224Extractor.fastPathLength at length
    unfold maxLen
    split at length <;> simp only at length <;> omega
  | x224 long version length code =>
    unfold uint16Be at length
    unfold maxLen
    omega

end WellFormed

namespace X224Extractor

/-- The members tell the type of a packet whose header has been read. -/
def Knows (extractor : X224Extractor) (bytes : List Byte) (type : Nat) : Prop :=
  (extractor.hasFastPath = true ∧ type = fastpath) ∨
    (extractor.hasFastPath = false ∧ ∃ long : 6 ≤ bytes.length, tpduType bytes[5] = some type)

variable {buf : Buf64k} {bytes later more : List Byte} {type : Nat}

private theorem byteAt_eq (spelled : buf.av ++ later = bytes ++ more) {offset : Nat}
    (arrived : offset < buf.remaining) (inside : offset < bytes.length) :
    buf.byteAt offset = bytes[offset] := by
  have known : offset < buf.av.length := by rwa [Buf64k.length_av]
  rw [← Buf64k.getElem_av buf known, ← @List.getElem_append_left _ _ _ later]
  · simp only [spelled]
    exact List.getElem_append_left inside
  · rw [List.length_append]
    omega

/-- A header is read as soon as enough of it is there, and before the packet is whole. -/
theorem readHeader_run (extractor : X224Extractor) (wellFormed : WellFormed bytes type)
    (spelled : buf.av ++ later = bytes ++ more) :
    (buf.remaining < bytes.length ∧ extractor.readHeader buf = (.ok none, extractor)) ∨
      ∃ extractor', extractor.readHeader buf = (.ok (some bytes.length), extractor') ∧
        extractor'.Knows bytes type := by
  have least := wellFormed.four_le
  by_cases few : buf.remaining < 4
  · exact .inl ⟨by omega, by rw [readHeader, if_pos few]⟩
  · have at0 := @byteAt_eq _ _ _ _ spelled 0 (by omega) (by omega)
    have at1 := @byteAt_eq _ _ _ _ spelled 1 (by omega) (by omega)
    have at2 := @byteAt_eq _ _ _ _ spelled 2 (by omega) (by omega)
    have at3 := @byteAt_eq _ _ _ _ spelled 3 (by omega) (by omega)
    cases wellFormed with
    | fastPath long action length =>
      right
      refine ⟨{ hasFastPath := true, type := fastpath }, ?_, .inl ⟨rfl, rfl⟩⟩
      have header : (fastPathLength bytes[1] bytes[2]).2 ≤ 3 := by
        unfold fastPathLength
        split
        · exact Nat.le_refl 3
        · exact Nat.le_succ 2
      simp only [readHeader, few, if_false, at0, at1, at2, action, if_true, length]
      rw [if_neg (by omega)]
    | x224 long version length code =>
      by_cases short : buf.remaining < 6
      · left
        refine ⟨by omega, ?_⟩
        simp only [readHeader, few, if_false, at0, version, short, if_true]
        rw [if_neg (by decide)]
      · right
        refine ⟨{ extractor with hasFastPath := false }, ?_, .inr ⟨rfl, long, code⟩⟩
        simp only [readHeader, few, if_false, at0, at2, at3, version, short, length]
        rw [if_neg (by decide), if_pos trivial, if_neg (by omega)]

theorem prepareData_run {extractor : X224Extractor} (knows : extractor.Knows bytes type)
    (spelled : buf.av ++ later = bytes ++ more) (whole : bytes.length ≤ buf.remaining) :
    ∃ extractor', extractor.prepareData buf = (.ok (), extractor') ∧ extractor'.getType = type := by
  rcases knows with ⟨fast, rfl⟩ | ⟨slow, long, code⟩
  · exact ⟨{ extractor with type := fastpath }, by rw [prepareData, if_pos fast], by simp [getType, fast]⟩
  · have at5 := @byteAt_eq _ _ _ _ spelled 5 (by omega) (by omega)
    refine ⟨{ extractor with type }, ?_, by simp [getType, slow]⟩
    simp [prepareData, slow, at5, code]

end X224Extractor

namespace TpduBuffer

/-- A packet whose header has been read is the next of the stream. -/
def Expects (buffer : TpduBuffer) : List Pdu → Prop
  | [] => buffer.state = .header
  | pdu :: _ => buffer.state = .data →
      buffer.pduLen = pdu.bytes.length ∧ buffer.extractors.Knows pdu.bytes pdu.type

variable {buffer : TpduBuffer} {later : List Byte}

theorem expects_of_header (header : buffer.state = .header) (pdus : List Pdu) :
    buffer.Expects pdus := by
  cases pdus with
  | nil => exact header
  | cons pdu rest =>
    intro data
    rw [header] at data
    cases data

/-- `next` gives out the first packet of the stream once all its bytes are there. -/
theorem next_whole {pdu : Pdu} {rest : List Pdu} {more : List Byte}
    (expects : buffer.Expects (pdu :: rest))
    (spelled : buffer.pending ++ later = pdu.bytes ++ more)
    (whole : pdu.bytes.length ≤ buffer.pending.length) :
    ∃ buffer', buffer.next .pdu = (.ok true, buffer') ∧ buffer'.state = .header ∧
      (buffer'.currentPduBuffer, buffer'.currentPduGetType) = pdu.seen ∧
      buffer'.pending = buffer.pending.drop pdu.bytes.length := by
  have front : buffer.pending.take pdu.bytes.length = pdu.bytes := by
    rw [← @List.take_append_of_le_length _ _ later _ whole, spelled, List.take_left]
  cases state : buffer.state with
  | header =>
    have same := buffer.av_consumed state
    have arrived : pdu.bytes.length ≤ (buffer.consumed state).remaining := by
      rwa [← Buf64k.length_av, same]
    rcases X224Extractor.readHeader_run buffer.extractors pdu.wellFormed
        (show (buffer.consumed state).av ++ later = pdu.bytes ++ more by rw [same, spelled]) with
      ⟨part, _⟩ | ⟨extractors, header, knows⟩
    · omega
    · obtain ⟨known, prepared, type⟩ := X224Extractor.prepareData_run knows
        (show (buffer.consumed state).av ++ later = pdu.bytes ++ more by rw [same, spelled]) arrived
      refine ⟨⟨.header, known, pdu.bytes.length, buffer.consumed state, fun _ => arrived⟩,
        ?_, rfl, ?_, ?_⟩
      · rw [next_header state, extractHeader]
        simp only [TpduType.extractor, x224, header, arrived, dite_true, prepared]
      · simp only [currentPduBuffer, currentPduGetType, same, front, type, Pdu.seen]
      · simp only [pending, same]
  | data =>
    obtain ⟨length, knows⟩ := expects state
    have same : buffer.buf.av = buffer.pending := by simp [pending, state]
    have arrived : pdu.bytes.length ≤ buffer.buf.remaining := by
      rwa [← Buf64k.length_av, same]
    obtain ⟨known, prepared, type⟩ := X224Extractor.prepareData_run knows
      (show buffer.buf.av ++ later = pdu.bytes ++ more by rw [same, spelled]) arrived
    refine ⟨⟨.header, known, buffer.pduLen, buffer.buf, fun _ => length ▸ arrived⟩,
      ?_, rfl, ?_, ?_⟩
    · rw [next_data state, extractData]
      simp only [TpduType.extractor, x224, length, arrived, dite_true, prepared]
    · simp only [currentPduBuffer, currentPduGetType, length, same, front, type, Pdu.seen]
    · simp only [pending, state, length]

/-- `next` gives out nothing while bytes of the first packet are missing. -/
theorem next_part {pdus : List Pdu} (expects : buffer.Expects pdus)
    (spelled : buffer.pending ++ later = stream pdus)
    (part : ∀ pdu ∈ pdus.head?, buffer.pending.length < pdu.bytes.length) :
    ∃ buffer', buffer.next .pdu = (.ok false, buffer') ∧ buffer'.Expects pdus ∧
      buffer'.buf.av = buffer.pending ∧ buffer'.pending = buffer.pending := by
  cases state : buffer.state with
  | header =>
    have same := buffer.av_consumed state
    have waiting : ∀ extractors, (buffer.extractors.readHeader (buffer.consumed state) =
        (.ok none, extractors)) → ∃ buffer', buffer.next .pdu = (.ok false, buffer') ∧
        buffer'.Expects pdus ∧ buffer'.buf.av = buffer.pending ∧
        buffer'.pending = buffer.pending := by
      intro extractors header
      refine ⟨⟨.header, extractors, 0, buffer.consumed state, fun _ => Nat.zero_le _⟩, ?_,
        expects_of_header rfl pdus, same, ?_⟩
      · rw [next_header state, extractHeader]
        simp only [TpduType.extractor, x224, header]
      · simp only [pending, same, List.drop_zero]
    cases pdus with
    | nil =>
      have none : buffer.pending = [] := (List.append_eq_nil_iff.mp spelled).1
      have empty : (buffer.consumed state).remaining = 0 := by
        rw [← Buf64k.length_av, same, none, List.length_nil]
      exact waiting buffer.extractors (by rw [X224Extractor.readHeader, if_pos (by omega)])
    | cons pdu rest =>
      have missing := part pdu rfl
      have spelled' : (buffer.consumed state).av ++ later = pdu.bytes ++ stream rest := by
        rw [same, spelled, stream, List.flatMap_cons, stream]
      rcases X224Extractor.readHeader_run buffer.extractors pdu.wellFormed spelled' with
        ⟨_, header⟩ | ⟨extractors, header, knows⟩
      · exact waiting buffer.extractors header
      · have behind : ¬ pdu.bytes.length ≤ (buffer.consumed state).remaining := by
          rw [← Buf64k.length_av, same]
          omega
        have stays : StateRead.data = .header →
            pdu.bytes.length ≤ (buffer.consumed state).remaining := by
          intro header
          cases header
        refine ⟨⟨.data, extractors, pdu.bytes.length, buffer.consumed state, stays⟩, ?_,
          fun _ => ⟨rfl, knows⟩, same, same⟩
        rw [next_header state, extractHeader]
        simp only [TpduType.extractor, x224, header, behind, dite_false]
  | data =>
    cases pdus with
    | nil =>
      have header : buffer.state = .header := expects
      rw [state] at header
      cases header
    | cons pdu rest =>
      obtain ⟨length, knows⟩ := expects state
      have missing := part pdu rfl
      have same : buffer.buf.av = buffer.pending := by simp [pending, state]
      have behind : ¬ buffer.pduLen ≤ buffer.buf.remaining := by
        rw [← Buf64k.length_av, same]
        omega
      refine ⟨buffer, ?_, fun _ => ⟨length, knows⟩, same, rfl⟩
      rw [next_data state, extractData, dif_neg behind]

/-- Calling `next` until it returns false: what each call before showed, and what is left. -/
inductive Drains : TpduBuffer → List (List Byte × Nat) → TpduBuffer → Prop where
  | stop {buffer last : TpduBuffer} (none : buffer.next .pdu = (.ok false, last)) :
      Drains buffer [] last
  | packet {buffer current last : TpduBuffer} {rest : List (List Byte × Nat)}
      (some : buffer.next .pdu = (.ok true, current)) (others : Drains current rest last) :
      Drains buffer ((current.currentPduBuffer, current.currentPduGetType) :: rest) last

/-- The stream of packets behind the first that have arrived whole. -/
theorem drains_run {pdus : List Pdu} {later : List Byte} {buffer : TpduBuffer}
    (expects : buffer.Expects pdus) (spelled : buffer.pending ++ later = stream pdus) :
    ∃ whole rest last, pdus = whole ++ rest ∧ Drains buffer (whole.map Pdu.seen) last ∧
      last.Expects rest ∧ last.buf.av = last.pending ∧
      buffer.pending = stream whole ++ last.pending ∧
      ∀ pdu ∈ rest.head?, last.pending.length < pdu.bytes.length := by
  induction pdus generalizing buffer with
  | nil =>
    obtain ⟨last, none, expects', settled, same⟩ := next_part expects spelled nofun
    exact ⟨[], [], last, rfl, .stop none, expects', settled.trans same.symm, same.symm, nofun⟩
  | cons pdu rest ih =>
    have spelled' : buffer.pending ++ later = pdu.bytes ++ stream rest := by
      rw [spelled, stream, List.flatMap_cons, stream]
    by_cases arrived : pdu.bytes.length ≤ buffer.pending.length
    · obtain ⟨current, some, header, seen, left⟩ := next_whole expects spelled' arrived
      have split : buffer.pending = pdu.bytes ++ current.pending := by
        rw [left, ← List.take_append_drop pdu.bytes.length buffer.pending]
        congr 1
        · rw [← @List.take_append_of_le_length _ _ later _ arrived, spelled', List.take_left]
        · rw [List.take_append_drop]
      have behind : current.pending ++ later = stream rest := by
        rw [split, List.append_assoc] at spelled'
        exact List.append_cancel_left spelled'
      obtain ⟨whole, remaining, last, parts, drains, expects', settled, taken, missing⟩ :=
        ih (expects_of_header header rest) behind
      refine ⟨pdu :: whole, remaining, last, by rw [parts, List.cons_append], ?_, expects', settled,
        ?_, missing⟩
      · rw [List.map_cons, ← seen]
        exact .packet some drains
      · rw [split, taken, stream, stream, List.flatMap_cons, List.append_assoc]
    · have part : ∀ first ∈ (pdu :: rest).head?, buffer.pending.length < first.bytes.length := by
        intro first member
        cases member
        omega
      obtain ⟨last, none, expects', settled, same⟩ := next_part expects spelled part
      exact ⟨[], pdu :: rest, last, rfl, .stop none, expects', settled.trans same.symm, same.symm,
        same ▸ part⟩

/-- Reads of the given sizes from a source, each followed by calls of `next` until it returns
false. A read gives at most what it asks for, what the buffer has room for and what is there. -/
inductive Receives : TpduBuffer → List Byte → List Nat → List (List Byte × Nat) → TpduBuffer →
    List Byte → Prop where
  | done {buffer : TpduBuffer} {source : List Byte} : Receives buffer source [] [] buffer source
  | load {buffer drained last : TpduBuffer} {source left : List Byte} {size : Nat}
      {sizes : List Nat} {packets others : List (List Byte × Nat)}
      (drains : Drains (buffer.loadData (.ofSize size source)) packets drained)
      (rest : Receives drained (source.drop (min size buffer.buf.room)) sizes others last left) :
      Receives buffer source (size :: sizes) (packets ++ others) last left

/-- However a stream of packets arrives, what has been given out is the packets that have
arrived whole; the rest of what has arrived is still there, and there is room for more. -/
theorem receives_run {pdus : List Pdu} {source : List Byte} {buffer : TpduBuffer}
    (sizes : List Nat) (expects : buffer.Expects pdus) (settled : buffer.buf.av = buffer.pending)
    (spelled : buffer.pending ++ source = stream pdus)
    (part : ∀ pdu ∈ pdus.head?, buffer.pending.length < pdu.bytes.length) :
    ∃ whole rest last left, pdus = whole ++ rest ∧
      Receives buffer source sizes (whole.map Pdu.seen) last left ∧
      last.buf.av = last.pending ∧ last.pending ++ left = stream rest ∧
      ∀ pdu ∈ rest.head?, last.pending.length < pdu.bytes.length := by
  induction sizes generalizing pdus source buffer with
  | nil => exact ⟨[], pdus, buffer, source, rfl, .done, settled, spelled, part⟩
  | cons size sizes ih =>
    have loaded : (buffer.loadData (.ofSize size source)).pending =
        buffer.pending ++ source.take (min size buffer.buf.room) := pending_loadData _ _
    have spelled' : (buffer.loadData (.ofSize size source)).pending ++
        source.drop (min size buffer.buf.room) = stream pdus := by
      rw [loaded, List.append_assoc, List.take_append_drop, spelled]
    have expects' : (buffer.loadData (.ofSize size source)).Expects pdus := by
      cases pdus with
      | nil => exact expects
      | cons pdu rest => exact expects
    obtain ⟨now, behind, drained, parts, drains, expecting, settledNow, taken, missing⟩ :=
      drains_run expects' spelled'
    have more : drained.pending ++ source.drop (min size buffer.buf.room) = stream behind := by
      rw [taken, parts, stream, stream, List.flatMap_append, List.append_assoc] at spelled'
      exact List.append_cancel_left spelled'
    obtain ⟨whole, rest, last, left, parts', receives, settled', left', missing'⟩ :=
      ih expecting settledNow more missing
    refine ⟨now ++ whole, rest, last, left, ?_, ?_, settled', left', missing'⟩
    · rw [parts, parts', List.append_assoc]
    · rw [List.map_append]
      exact .load drains receives

end TpduBuffer

end Redemption.Tpdu
