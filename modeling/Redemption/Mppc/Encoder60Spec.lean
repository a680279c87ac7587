import Redemption.Mppc.Encoder60
import Redemption.Mppc.Decoder60Spec
import Redemption.Mppc.Encoder

/-! What the compressor of RDP 6.0 writes for one packet: the bits of tokens that parse
it, and the end of stream marker. -/
namespace Redemption.Mppc

open Redemption.Foundation
open Redemption.Foundation.Lz

theorem Output.insertAll60_append {capacity : Nat} (front back : List (Nat × Nat))
    (out : Output capacity) :
    out.insertAll60 (front ++ back) = match out.insertAll60 front with
      | .error fault => .error fault
      | .ok out => out.insertAll60 back := by
  induction front generalizing out with
  | nil => rfl
  | cons insertion rest ih =>
    rw [List.cons_append, insertAll60, insertAll60]
    cases insertNBits60 insertion.1 insertion.1 insertion.2 out with
    | error fault => rfl
    | ok next => exact ih next

namespace Encoder60

theorem emitTokens_ok {tokens : List (Token Byte)} {cache cache' : OffsetCache}
    {insertions : List (Nat × Nat)} {out out' : Output histBufLen60}
    (written : tokensInsertions60 cache tokens = .ok (cache', insertions))
    (inserted : out.insertAll60 insertions = .ok out') :
    emitTokens tokens (cache, out) = .ok (cache', out') := by
  induction tokens generalizing cache insertions out with
  | nil =>
    cases written
    cases inserted
    rfl
  | cons token tokens ih =>
    obtain ⟨⟨cache₁, front⟩, head, tail⟩ := bind_ok_iff.mp written
    obtain ⟨⟨cache₂, back⟩, rest, all⟩ := bind_ok_iff.mp tail
    cases all
    rw [Output.insertAll60_append] at inserted
    cases first : out.insertAll60 front with
    | error fault =>
      rw [first] at inserted
      cases inserted
    | ok next =>
      rw [first] at inserted
      simp only [emitTokens, emitToken, head, first]
      exact ih rest inserted

theorem emitTokens_split {front back : List (Token Byte)} {coding last : Coding}
    (emitted : emitTokens (front ++ back) coding = .ok last) :
    ∃ middle, emitTokens front coding = .ok middle ∧ emitTokens back middle = .ok last := by
  induction front generalizing coding with
  | nil => exact ⟨coding, rfl, emitted⟩
  | cons token front ih =>
    rw [List.cons_append, emitTokens] at emitted
    rw [emitTokens]
    cases first : emitToken token coding with
    | error fault =>
      rw [first] at emitted
      cases emitted
    | ok next =>
      rw [first] at emitted
      exact ih emitted

theorem emitAll_emit (rounds : List Found) (coding : Coding) :
    emitAll emit rounds coding = emitTokens (rounds.map Found.token) coding := by
  induction rounds generalizing coding with
  | nil => rfl
  | cons found rest ih =>
    rw [List.map_cons, emitAll, emitTokens, emit]
    cases emitToken found.token coding with
    | error fault => rfl
    | ok next => exact ih next

/-- What holds once `prepare` has put a packet into the history. -/
structure Prepared (enc : Encoder60) (data : List Byte) : Prop where
  nonempty : 0 < data.length
  room : enc.historyOffset + data.length < histBufLen60
  text : ∀ index (bounded : index < data.length),
    enc.historyBuffer.cell (enc.historyOffset + index) = data[index]
  below : enc.hashTabMgr.Below (max 1 enc.historyOffset)
  undoes : enc.hashTabMgr.Undoes enc.hashTabMgr.table
  clear : ∀ index, enc.outputBuffer.cell index = 0
  four : enc.offsetCache.length = 4

section Packet

variable {enc : Encoder60} {data : List Byte}

private theorem Prepared.search (prepared : enc.Prepared data) :
    SearchRoom limits60 (shorten data.length) histBufLen60 enc.historyOffset data.length where
  minimum := Nat.le_refl 3
  longest := by
    intro longest found
    cases found
    decide
  room := by
    have room := prepared.room
    show enc.historyOffset + data.length + 3 ≤ histBufLen60 + 2
    omega
  shortens := by
    intro lom
    unfold shorten
    split
    · rename_i whole
      exact .inr ⟨rfl, whole⟩
    · exact .inl rfl

private theorem scanned_valid (prepared : enc.Prepared data) {ctr finish : Nat}
    {rounds : List Found}
    (scanned : Scanned limits60 (shorten data.length) enc.historyBuffer enc.historyOffset data.length
      ctr finish rounds) : ∀ found ∈ rounds, Valid60 found.token := by
  have room := prepared.room
  induction scanned with
  | stop _ => exact fun found member => (List.not_mem_nil member).elim
  | @round ctr finish found rest more here _ ih =>
    intro other member
    rcases List.mem_cons.mp member with rfl | later
    · cases here with
      | literal => trivial
      | @matched previousMatch lom earlier long inside short same =>
        have most := short 514 rfl
        have least : 3 ≤ lom := long
        have small : enc.historyOffset + data.length < 65536 := room
        have cut : lom - 1 ≤ shorten data.length lom ∧ shorten data.length lom ≤ lom := by
          unfold shorten
          split <;> omega
        refine ⟨?_, ?_, ?_, ?_⟩ <;> omega
    · exact ih other later

/-- How the attempt starts: what is skipped, and what is written for it. -/
private theorem start_run (prepared : enc.Prepared data) :
    ∃ (first : List Byte) (manager : HashTableManager),
      first = enc.historyBuffer.slice enc.historyOffset first.length ∧
      (enc.historyOffset = 0 → first.length = 2) ∧ (0 < enc.historyOffset → first = []) ∧
      manager.Below (enc.historyOffset + first.length) ∧
      manager.Undoes enc.hashTabMgr.table ∧
      ∀ coding coding' : Coding, emitTokens (first.map .literal) coding = .ok coding' →
        enc.encodeStart coding = .ok (first.length, manager, coding') := by
  by_cases front : enc.historyOffset = 0
  · have below := prepared.below
    rw [front] at below
    obtain ⟨manager, seeded, below', undoes⟩ := updateFirst_run limits60 enc.historyBuffer
      (show 2 + limits60.minimumMatchLength ≤ histBufLen60 + 1 by decide) (below.mono (by decide))
      prepared.undoes
    have loaded : (enc.historyBuffer.loadBlock 0 2 : Checked ErrorId _) =
        .ok (enc.historyBuffer.slice 0 2) := Buffer.loadBlock_of_le _ (by decide)
    refine ⟨enc.historyBuffer.slice 0 2, manager, ?_, fun _ => Buffer.length_slice _ _ _,
      fun absurd => by omega, ?_, undoes, ?_⟩
    · rw [Buffer.length_slice, front]
    · rw [front, Buffer.length_slice]
      exact below'
    · intro coding coding' emitted
      have counter : limits60.minimumMatchLength - 1 = 2 := rfl
      simp only [encodeStart, front, if_true, counter, loaded, ok_bind, emitted, run, seeded, pure_ok,
        Buffer.length_slice]
  · refine ⟨[], enc.hashTabMgr, rfl, fun absurd => (front absurd).elim, fun _ => rfl, ?_,
      prepared.undoes, ?_⟩
    · exact prepared.below.mono (by rw [List.length_nil]; omega)
    · intro coding coding' emitted
      cases emitted
      simp only [encodeStart, front, if_false, List.length_nil]

/-- The parts of a packet, with the bits that they are written as. -/
structure Parts (enc : Encoder60) (data : List Byte) (tokens : List (Token Byte))
    (manager : HashTableManager) (cache : OffsetCache) (insertions : List (Nat × Nat))
    (marker : Nat × Nat) : Prop where
  written : tokensInsertions60 enc.offsetCache tokens = .ok (cache, insertions)
  isMarker : lecCode 256 = .ok marker
  valid : ∀ token ∈ tokens, Valid60 token
  undoes : manager.Undoes enc.hashTabMgr.table
  two : enc.historyOffset = 0 → 2 ≤ tokens.length
  few : data.length ≤ 2 → tokens.length ≤ 2
  below : 0 < enc.historyOffset ∨ 2 ≤ data.length →
    manager.Below (enc.historyOffset + data.length)
  parse : 0 < enc.historyOffset ∨ 2 ≤ data.length →
    Parses enc.historyBuffer.cell enc.historyOffset (enc.historyOffset + data.length) tokens
  encoded : ∀ coding out', coding.1 = enc.offsetCache →
    coding.2.insertAll60 (insertions ++ [marker]) = .ok out' →
    enc.encodePacket data coding = .ok (manager, cache, out')

theorem encodePacket_run (prepared : enc.Prepared data) :
    ∃ tokens manager cache insertions marker,
      enc.Parts data tokens manager cache insertions marker := by
  have ready := prepared.search
  obtain ⟨first, manager, spelled, two, none, below, undoes, starts⟩ := start_run prepared
  have started : 0 < enc.historyOffset + first.length := by
    by_cases front : enc.historyOffset = 0
    · omega
    · omega
  obtain ⟨rounds, finish, manager', scanned, below', undoes', reacts⟩ :=
    scan_run enc.historyBuffer ready data.length first.length (by omega) started manager below
      undoes
  have valid : ∀ token ∈ first.map .literal ++ rounds.map Found.token ++
      (data.drop finish).map .literal, Valid60 token :=
    packet_valid (fun _ => trivial) (scanned_valid prepared scanned)
  obtain ⟨cache, insertions, written, _, _, _⟩ := tokens_written prepared.four valid
  obtain ⟨code, isMarker, _⟩ := endOfStream_run
  have inside : 0 < enc.historyOffset ∨ 2 ≤ data.length → finish ≤ data.length := by
    intro enough
    apply scanned.finish_le ready
    by_cases front : enc.historyOffset = 0
    · omega
    · simp [none (by omega)]
  refine ⟨_, manager', cache, insertions, (13, code), written, isMarker, valid, undoes', ?_, ?_, ?_,
    ?_, ?_⟩
  · intro front
    simp only [List.length_append, List.length_map]
    omega
  · intro small
    cases scanned with
    | stop done =>
      simp only [List.length_append, List.length_map, List.length_nil, List.length_drop]
      by_cases front : enc.historyOffset = 0
      · omega
      · rw [none (by omega), List.length_nil]
        omega
    | round more _ _ =>
      simp only [limits60] at more
      omega
  · intro enough
    exact below'.mono (by omega)
  · exact fun enough => scanned.packet_parses ready spelled prepared.text (inside enough)
  · intro coding out' cached inserted
    obtain ⟨cache₀, out⟩ := coding
    subst cached
    rw [Output.insertAll60_append] at inserted
    cases body : out.insertAll60 insertions with
    | error fault =>
      rw [body] at inserted
      cases inserted
    | ok next =>
      rw [body] at inserted
      obtain ⟨middle, early, last⟩ := emitTokens_split (emitTokens_ok written body)
      obtain ⟨opened, start, rest⟩ := emitTokens_split early
      have searched := reacts emit opened
      simp only [emitAll_emit, rest] at searched
      simp only [encodePacket, starts _ _ start, ok_bind, searched, last, run, isMarker, inserted,
        pure_ok]

end Packet

end Encoder60

end Redemption.Mppc
