import Redemption.Mppc.Decoder60
import Redemption.Mppc.Decoder

/-! The decompressor of RDP 6.0 rebuilds the text that the tokens of a packet parse. -/
namespace Redemption.Mppc

open Redemption.Foundation
open Redemption.Foundation.Lz

section Copy

variable {size : Nat} {text : Nat → Byte}

/-- A text that repeats itself after `period` bytes is the same at all multiples of it. -/
private theorem periodic {start period length : Nat}
    (repeats : ∀ index < length, period ≤ index →
      text (start + index) = text (start + index - period)) :
    ∀ index < length, text (start + index) = text (start + index % period) := by
  intro index
  induction index using Nat.strongRecOn with
  | _ index ih =>
    intro bounded
    by_cases later : period ≤ index
    · by_cases none : period = 0
      · simp [none]
      · have previous := ih (index - period) (by omega) (by omega)
        rw [repeats index bounded later, Nat.add_sub_assoc later, previous,
          ← Nat.mod_eq_sub_mod later]
    · rw [Nat.mod_eq_of_lt (Nat.lt_of_not_le later)]

/-- Going round in the first `period` bytes continues a periodic text. -/
private theorem copyRound_run {start period count i32 done : Nat} {history : Buffer Byte size}
    (positive : 0 < period) (agree : AgreeBelow history.cell text (start + period + done))
    (room : start + period + done + count ≤ size)
    (place : (if period ≤ i32 then 0 else i32) = done % period)
    (repeats : ∀ index < period + done + count,
      text (start + index) = text (start + index % period)) :
    ∃ history', copyRound (fun i32 => decide (period ≤ i32)) start count i32
        (start + period + done) history = .ok history' ∧
      AgreeBelow history'.cell text (start + period + done + count) := by
  induction count generalizing history i32 done with
  | zero => exact ⟨history, rfl, agree⟩
  | succ count ih =>
    have near : done % period < period := Nat.mod_lt _ positive
    have value : history.cell (start + done % period) = text (start + period + done) := by
      have here := repeats (period + done) (by omega)
      rw [Nat.add_mod_left, ← Nat.add_assoc] at here
      rw [here]
      exact agree _ (by omega)
    have next : AgreeBelow (history.set (start + period + done)
        (history.cell (start + done % period))).cell text (start + period + (done + 1)) := by
      intro index bounded
      by_cases last : index = start + period + done
      · subst last
        rw [Buffer.cell_set_same, value]
      · rw [Buffer.cell_set_other _ _ last]
        exact agree index (by omega)
    have turn : (if period ≤ done % period + 1 then 0 else done % period + 1) =
        (done + 1) % period := by
      by_cases one : period = 1
      · subst one
        simp [Nat.mod_one]
      · rw [Nat.add_mod_eq_ite]
        have small : 1 % period = 1 := Nat.mod_eq_of_lt (by omega)
        rw [small]
        split <;> omega
    obtain ⟨history', run, agree'⟩ := ih next (by omega) turn
      (fun index bounded => repeats index (by omega))
    refine ⟨history', ?_, ?_⟩
    · have shift : start + period + done + 1 = start + period + (done + 1) := by omega
      simp only [copyRound, decide_eq_true_eq, place]
      rw [Buffer.load_of_lt _ (by omega), ok_bind, Buffer.store_of_lt _ (by omega), ok_bind, shift]
      exact run
    · have total : start + period + done + (count + 1) = start + period + (done + 1) + count := by
        omega
      rw [total]
      exact agree'

theorem copyTuple60_run {history : Buffer Byte size} {historyPtr copyOffset lom : Nat}
    (positive : 0 < copyOffset) (reaches : copyOffset ≤ historyPtr)
    (room : historyPtr + lom ≤ size)
    (repeats : ∀ index < lom, text (historyPtr + index) = text (historyPtr + index - copyOffset))
    (agree : AgreeBelow history.cell text historyPtr) :
    ∃ history', copyTuple60 history historyPtr copyOffset lom = .ok history' ∧
      AgreeBelow history'.cell text (historyPtr + lom) := by
  have copied := copyMatch_run (min lom copyOffset) (historyPtr - copyOffset) historyPtr history
    (by omega) (by omega)
  have first := @copyForward_agree _ text history.cell (historyPtr - copyOffset) historyPtr
    (min lom copyOffset) (by omega) (fun index bounded => by
      rw [repeats index (by omega)]
      congr 1
      omega) agree
  unfold copyTuple60
  simp only [if_pos reaches, copied, ok_bind]
  by_cases short : lom ≤ copyOffset
  · rw [Nat.min_eq_left short] at first ⊢
    rw [Nat.sub_eq_zero_of_le short]
    exact ⟨_, rfl, first⟩
  · rw [Nat.min_eq_right (by omega)] at first ⊢
    have place : historyPtr - copyOffset + copyOffset = historyPtr := by omega
    rw [place]
    have round : ∀ index < lom, text (historyPtr + index) = text (historyPtr + index % copyOffset) :=
      periodic fun index bounded _ => repeats index bounded
    have inside : historyPtr + copyOffset + 0 + (lom - copyOffset) ≤ size := by omega
    have from0 : (if copyOffset ≤ 0 then 0 else 0) = 0 % copyOffset := by
      rw [if_neg (by omega), Nat.zero_mod]
    have periods : ∀ index < copyOffset + 0 + (lom - copyOffset),
        text (historyPtr + index) = text (historyPtr + index % copyOffset) := by
      intro index bounded
      exact round index (by omega)
    obtain ⟨history', run, agree'⟩ := copyRound_run positive first inside from0 periods
    refine ⟨history', run, ?_⟩
    have total : historyPtr + copyOffset + 0 + (lom - copyOffset) = historyPtr + lom := by omega
    rw [total] at agree'
    exact agree'

end Copy

/-- A token that RDP 6.0 has codes for. -/
def Valid60 : Token Byte → Prop
  | .literal _ => True
  | .copy offset length => 0 < offset ∧ offset < 65536 ∧ 2 ≤ length ∧ length ≤ 514

theorem Valid60.span {token : Token Byte} (valid : Valid60 token) : 0 < token.span := by
  cases token with
  | literal value => exact Nat.one_pos
  | copy offset length =>
    obtain ⟨_, _, two, _⟩ := valid
    exact Nat.lt_of_lt_of_le Nat.two_pos two

/-- The tokens go on with the text at a position. -/
def Continues (text : Nat → Byte) (position : Nat) : Token Byte → Prop
  | .literal value => value = text position
  | .copy offset length => offset ≤ position ∧
      ∀ index < length, text (position + index) = text (position + index - offset)

namespace Progress60

/-- The progress made by reading one token of a text. -/
structure Reads60 (text : Nat → Byte) (progress progress' : Progress60) (token : Token Byte)
    (cache : OffsetCache) (rest : List Bool) : Prop where
  window : progress'.window.Ready transposeByte rest
  agree : AgreeBelow progress'.history.cell text (progress.historyPtr + token.span)
  historyPtr : progress'.historyPtr = progress.historyPtr + token.span
  offsetCache : progress'.offsetCache = cache

private theorem round_literal {text : Nat → Byte} {progress : Progress60} {rest : List Bool}
    {width code : Nat} (narrow : width ≤ 13)
    (reads : ∀ (window : Window) (rest : List Bool),
      Spells window.d32 (lsbBits width code ++ rest) →
      window.readCode getLECindex huffLenLEC 14 lecWidths 0 =
        .ok ((text progress.historyPtr).toNat, width))
    (ready : progress.window.Ready transposeByte (lsbBits width code ++ rest))
    (agree : AgreeBelow progress.history.cell text progress.historyPtr)
    (room : progress.historyPtr < histBufLen60) :
    ∃ progress', progress.round = .ok (false, progress') ∧
      Reads60 text progress progress' (.literal (text progress.historyPtr)) progress.offsetCache
        rest := by
  have read := reads progress.window _ (ready.spells_front (by simp; omega))
  have byte : (text progress.historyPtr).toNat < 256 := (text progress.historyPtr).isLt
  have next := ready.consume_refill width (by simp) (by omega)
  rw [List.drop_left' (length_lsbBits width code)] at next
  have same : BitVec.ofNat 8 (text progress.historyPtr).toNat = text progress.historyPtr :=
    BitVec.ofNat_toNat _ _ |>.trans (BitVec.setWidth_eq _)
  refine ⟨{ progress with
      window := (progress.window.consume width).refill transposeByte
      history := progress.history.set progress.historyPtr (text progress.historyPtr)
      historyPtr := progress.historyPtr + 1 }, ?_, next, ?_, rfl, rfl⟩
  · simp only [round, read, ok_bind, byte, if_true, literal, same,
      Buffer.store_of_lt _ room, pure_ok]
  · intro index bounded
    simp only [Token.span] at bounded
    by_cases last : index = progress.historyPtr
    · subst last
      simp only [Buffer.cell_set_same]
    · simp only [Buffer.cell_set_other _ _ last]
      exact agree index (by omega)

/-- Every token has codes, and one round of the decompressor reads them back. -/
theorem token_run {cache : OffsetCache} (four : cache.length = 4) {token : Token Byte}
    (valid : Valid60 token) :
    ∃ cache' insertions, tokenInsertions60 cache token = .ok (cache', insertions) ∧
      cache'.length = 4 ∧ Output.FitsWidth insertions ∧
      5 ≤ (Output.insertedBits60 insertions).length ∧
      (Output.insertedBits60 insertions).length ≤ 53 ∧
      ∀ (text : Nat → Byte) (progress : Progress60) (rest : List Bool),
        progress.offsetCache = cache → Continues text progress.historyPtr token →
        progress.window.Ready transposeByte (Output.insertedBits60 insertions ++ rest) →
        AgreeBelow progress.history.cell text progress.historyPtr →
        progress.historyPtr + token.span ≤ histBufLen60 →
        ∃ progress', progress.round = .ok (false, progress') ∧
          Reads60 text progress progress' token cache' rest := by
  cases token with
  | literal value =>
    obtain ⟨width, code, isCode, fits, least, most, reads⟩ := lec_run (show value.toNat < 293 by omega)
    have bits : Output.insertedBits60 [(width, code)] = lsbBits width code := by
      simp [Output.insertedBits60]
    refine ⟨cache, [(width, code)], ?_, four, ?_, ?_, ?_, ?_⟩
    · simp only [tokenInsertions60, isCode, ok_bind, pure_ok]
    · intro insertion member
      rw [List.mem_singleton.mp member]
      exact fits
    · rw [bits, length_lsbBits]
      exact least
    · rw [bits, length_lsbBits]
      omega
    · rw [bits]
      intro text progress rest same continues ready agree room
      subst same
      have isText : value = text progress.historyPtr := continues
      subst isText
      exact round_literal most reads ready agree room
  | copy copyOffset lom =>
    obtain ⟨positive, small, long, short⟩ := valid
    obtain ⟨cache', first, written, four', fits, least, most, readsFirst⟩ :=
      cached_run four positive small
    obtain ⟨second, writtenLength, fitsLength, mostLength, readsSecond⟩ := length_run long short
    refine ⟨cache', first ++ second, ?_, four', ?_, ?_, ?_, ?_⟩
    · simp only [tokenInsertions60, written, ok_bind, writtenLength, pure_ok]
    · intro insertion member
      rcases List.mem_append.mp member with early | late
      · exact fits insertion early
      · exact fitsLength insertion late
    · rw [Output.insertedBits60_append, List.length_append]
      omega
    · rw [Output.insertedBits60_append, List.length_append]
      omega
    · rw [Output.insertedBits60_append]
      intro text progress rest same continues ready agree room
      subst same
      obtain ⟨reaches, repeats⟩ := continues
      rw [List.append_assoc] at ready
      obtain ⟨symbol, width, read, beyond, offset⟩ := readsFirst progress.window _
        (ready.spells_front (by omega))
      have middle := ready.consume_refill (Output.insertedBits60 first).length (by simp) (by omega)
      rw [List.drop_left' rfl] at middle
      have length := readsSecond _ _ (middle.spells_front (by omega))
      have last := middle.consume_refill (Output.insertedBits60 second).length (by simp) (by omega)
      rw [List.drop_left' rfl] at last
      have inside : progress.historyPtr + lom ≤ histBufLen60 := room
      obtain ⟨history, copied, agree'⟩ := copyTuple60_run positive reaches inside repeats agree
      refine ⟨⟨Window.refill transposeByte _, history, progress.historyPtr + lom, cache'⟩, ?_,
        last, agree', rfl, rfl⟩
      have notLiteral : ¬ symbol < 256 := by omega
      have notEnd : ¬ symbol = 256 := by omega
      have some : ¬ copyOffset = 0 := by omega
      simp only [round, read, ok_bind, notLiteral, if_false, notEnd, copy, offset, some, length,
        copied, pure_ok]

end Progress60

/-- The insertions for tokens one after the other, and the cache behind them. -/
def tokensInsertions60 (cache : OffsetCache) :
    List (Token Byte) → Checked ErrorId (OffsetCache × List (Nat × Nat))
  | [] => .ok (cache, [])
  | token :: rest => do
    let (cache, front) ← tokenInsertions60 cache token
    let (cache, back) ← tokensInsertions60 cache rest
    return (cache, front ++ back)

theorem tokens_written {cache : OffsetCache} (four : cache.length = 4) {tokens : List (Token Byte)}
    (valid : ∀ token ∈ tokens, Valid60 token) :
    ∃ cache' insertions, tokensInsertions60 cache tokens = .ok (cache', insertions) ∧
      cache'.length = 4 ∧ Output.FitsWidth insertions ∧
      5 * tokens.length ≤ (Output.insertedBits60 insertions).length ∧
      (Output.insertedBits60 insertions).length ≤ 53 * tokens.length := by
  induction tokens generalizing cache with
  | nil =>
    exact ⟨cache, [], rfl, four, fun _ absurd => (List.not_mem_nil absurd).elim, Nat.le_refl _,
      Nat.le_refl _⟩
  | cons token tokens ih =>
    obtain ⟨cache₁, front, written, four₁, fits, wide, most, _⟩ :=
      Progress60.token_run four (valid token List.mem_cons_self)
    obtain ⟨cache₂, back, writtenRest, four₂, fitsRest, wideRest, mostRest⟩ :=
      ih four₁ fun other member => valid other (List.mem_cons_of_mem token member)
    refine ⟨cache₂, front ++ back, ?_, four₂, ?_, ?_⟩
    · simp only [tokensInsertions60, written, ok_bind, writtenRest, pure_ok]
    · intro insertion member
      rcases List.mem_append.mp member with early | late
      · exact fits insertion early
      · exact fitsRest insertion late
    · rw [Output.insertedBits60_append, List.length_append, List.length_cons]
      omega

theorem endOfStream_run : ∃ code, lecCode 256 = .ok (13, code) ∧ code < 2 ^ 13 ∧
    ∀ (window : Window) (rest : List Bool), Spells window.d32 (lsbBits 13 code ++ rest) →
      window.readCode getLECindex huffLenLEC 14 lecWidths 0 = .ok (256, 13) := by
  obtain ⟨width, code, isCode, fits, _, _, reads⟩ := lec_run (show 256 < 293 by decide)
  have wide : ∃ code, lecCode 256 = .ok (13, code) := ⟨_, rfl⟩
  obtain ⟨other, isOther⟩ := wide
  rw [isOther] at isCode
  cases isCode
  exact ⟨_, isOther, fits, reads⟩

/-- The loop reads back all tokens up to the end of stream marker. -/
theorem tokens_run {text : Nat → Byte} {start finish : Nat} {tokens : List (Token Byte)}
    (parse : Parses text start finish tokens) (valid : ∀ token ∈ tokens, Valid60 token)
    (room : finish ≤ histBufLen60) {cache cache' : OffsetCache} (four : cache.length = 4)
    {insertions : List (Nat × Nat)}
    (written : tokensInsertions60 cache tokens = .ok (cache', insertions))
    {marker : Nat × Nat} (isMarker : lecCode 256 = .ok marker)
    {progress : Progress60} {rest : List Bool} {fuel : Nat} (enough : tokens.length < fuel)
    (same : progress.offsetCache = cache) (here : progress.historyPtr = start)
    (ready : progress.window.Ready transposeByte
      (Output.insertedBits60 insertions ++ (Output.insertedBits60 [marker] ++ rest)))
    (agree : AgreeBelow progress.history.cell text start) :
    ∃ progress', progress.run fuel = .ok progress' ∧ progress'.historyPtr = finish ∧
      progress'.offsetCache = cache' ∧ AgreeBelow progress'.history.cell text finish := by
  obtain ⟨code, isCode, _, reads⟩ := endOfStream_run
  rw [isCode] at isMarker
  cases isMarker
  have bits : Output.insertedBits60 [(13, code)] = lsbBits 13 code := by
    simp [Output.insertedBits60]
  rw [bits] at ready
  have goes : 8 ≤ progress.window.bitsLeft := by
    rw [ready.length, List.length_append, List.length_append, length_lsbBits]
    omega
  obtain ⟨fuel, rfl⟩ := Nat.exists_eq_succ_of_ne_zero (show fuel ≠ 0 by omega)
  induction tokens generalizing start cache insertions progress fuel with
  | nil =>
    cases written
    cases parse with
    | done =>
      have spelled : progress.window.Ready transposeByte (lsbBits 13 code ++ rest) := ready
      have read := reads progress.window _
        (spelled.spells_front (by rw [length_lsbBits]; decide))
      refine ⟨{ progress with window := progress.window.consume 13 }, ?_, here, same, agree⟩
      have literal : ¬ 256 < 256 := by decide
      simp only [Progress60.run, goes, if_true, Progress60.round, read, ok_bind, literal, if_false,
        pure_ok]
  | cons token tokens ih =>
    have head := valid token List.mem_cons_self
    have others := fun other member => valid other (List.mem_cons_of_mem token member)
    obtain ⟨cache₁, front, writtenHead, four₁, fits, wide, -, readsToken⟩ :=
      Progress60.token_run four head
    have split : ∃ next, Parses text next finish tokens ∧ next = start + token.span ∧
        Continues text start token := by
      cases parse with
      | literal tail => exact ⟨_, tail, rfl, rfl⟩
      | copy positive reaches repeats tail => exact ⟨_, tail, rfl, reaches, repeats⟩
    obtain ⟨next, tail, isNext, continues⟩ := split
    have inside := tail.start_le_finish
    obtain ⟨cache₂, back, writtenTail, four₂, _⟩ := tokens_written four₁ others
    simp only [tokensInsertions60, writtenHead, ok_bind, writtenTail, pure_ok] at written
    cases written
    rw [Output.insertedBits60_append, List.append_assoc] at ready
    subst here
    obtain ⟨progress', round, read⟩ := readsToken text progress _ same continues ready agree
      (by omega)
    have ready' := read.window
    have goes' : 8 ≤ progress'.window.bitsLeft := by
      rw [ready'.length, List.length_append, List.length_append, length_lsbBits]
      omega
    obtain ⟨fuel, rfl⟩ := Nat.exists_eq_succ_of_ne_zero
      (show fuel ≠ 0 by rw [List.length_cons] at enough; omega)
    obtain ⟨last, run, reached, cached, agree'⟩ := ih tail others four₁ writtenTail
      read.offsetCache (by rw [read.historyPtr, isNext]) (by rw [isNext]; exact read.agree)
      ready' goes' fuel (by rw [List.length_cons] at enough; omega)
    refine ⟨last, ?_, reached, cached, agree'⟩
    rw [Progress60.run, if_pos goes, round, ok_bind]
    simp only [Bool.false_eq_true, if_false, run]

section Start

/-- The first bytes of the input, each with its lowest bit first. -/
private theorem loadWord_getLsbD {input : List Byte} {d32 : BitVec 32} {tmp : Nat}
    (room : tmp + 8 * input.length ≤ 32) (index : Nat) :
    (Window.loadWord d32 tmp input).getLsbD index = (d32.getLsbD index ||
      decide (tmp ≤ index) &&
        ((bytesToBits (input.map transposeByte))[index - tmp]?.getD false)) := by
  induction input generalizing d32 tmp with
  | nil => simp [Window.loadWord]
  | cons byte input ih =>
    rw [List.length_cons] at room
    rw [Window.loadWord, ih (by omega), List.map_cons, bytesToBits_cons, transposeByte_eq,
      bitsOf_reverse, BitVec.getLsbD_or, BitVec.getLsbD_shiftLeft, BitVec.getLsbD_setWidth]
    rcases Nat.lt_or_ge index tmp with before | reached
    · simp [before, Nat.not_le.mpr before, show ¬ tmp + 8 ≤ index by omega]
    · rcases Nat.lt_or_ge index (tmp + 8) with within | after
      · rw [List.getElem?_append_left (by simp; omega), getElem?_lsbBits _ (by omega),
          BitVec.testBit_toNat]
        simp [reached, Nat.not_lt.mpr reached, Nat.not_le.mpr within, show index < 32 by omega,
          show index - tmp < 32 by omega]
      · rw [List.getElem?_append_right (by simp; omega), length_lsbBits, Nat.sub_sub,
          BitVec.getLsbD_of_ge byte (index - tmp) (by omega)]
        simp [after, reached]

/-- The first load turns the input round: not so where the high half of the word is zero
and its low half is not. -/
def TurnsRound (bits : List Bool) : Prop :=
  (∃ index, 16 ≤ index ∧ index < 32 ∧ bits[index]? = some true) ∨
    ∀ index < 32, bits[index]? ≠ some true

/-- The window of RDP 6.0 on a packet whose first load is turned round. -/
theorem start60_ready {cbuf : List Byte}
    (turns : TurnsRound (bytesToBits (cbuf.map transposeByte))) :
    (Window.start60 cbuf).Ready transposeByte (bytesToBits (cbuf.map transposeByte)) := by
  have few : (cbuf.take 4).length ≤ 4 := List.length_take_le _ _
  have split : bytesToBits (cbuf.map transposeByte) =
      bytesToBits ((cbuf.take 4).map transposeByte) ++
        bytesToBits ((cbuf.drop 4).map transposeByte) := by
    rw [← bytesToBits_append, ← List.map_append, List.take_append_drop]
  have stops : cbuf.drop 4 = [] ∨ (cbuf.take 4).length = 4 := by
    rcases Nat.lt_or_ge cbuf.length 4 with short | long
    · exact .inl (List.drop_of_length_le (Nat.le_of_lt short))
    · exact .inr (by rw [List.length_take]; omega)
  have front : ∀ index < 32, (bytesToBits ((cbuf.take 4).map transposeByte))[index]? =
      (bytesToBits (cbuf.map transposeByte))[index]? := by
    intro index bounded
    rcases stops with none | full
    · rw [split, none, List.map_nil, bytesToBits_nil, List.append_nil]
    · rw [split, List.getElem?_append_left (by simp only [length_bytesToBits, List.length_map]; omega)]
  have loaded : ∀ index < 32, (Window.loadWord 0 0 (cbuf.take 4)).getLsbD index =
      (bytesToBits (cbuf.map transposeByte))[index]?.getD false := by
    intro index bounded
    rw [loadWord_getLsbD (by omega), Nat.sub_zero, front index bounded]
    simp
  have turned : transposebits (Window.loadWord 0 0 (cbuf.take 4)) =
      (Window.loadWord 0 0 (cbuf.take 4)).reverse := by
    refine transposebits_eq ?_
    rcases turns with ⟨index, above, bounded, set⟩ | clear
    · refine .inl fun none => ?_
      have bit := congrArg (fun word => word.getLsbD (index - 16)) none
      simp only [BitVec.getLsbD_ushiftRight, Nat.add_sub_cancel' above, loaded index bounded, set]
        at bit
      simp at bit
    · refine .inr (BitVec.eq_of_getLsbD_eq fun index bounded => ?_)
      rw [loaded index bounded]
      cases bit : (bytesToBits (cbuf.map transposeByte))[index]? with
      | none => simp
      | some value =>
        cases value with
        | false => simp
        | true => exact (clear index bounded bit).elim
  have spells : Spells (transposebits (Window.loadWord 0 0 (cbuf.take 4)))
      (bytesToBits ((cbuf.take 4).map transposeByte)) := by
    refine ⟨by simp only [length_bytesToBits, List.length_map]; omega, fun index => ?_⟩
    rw [turned, BitVec.getMsbD_reverse]
    by_cases bounded : index < 32
    · rw [loaded index bounded, front index bounded]
    · rw [BitVec.getLsbD_of_ge _ _ (Nat.le_of_not_lt bounded), List.getElem?_eq_none
        (by simp only [length_bytesToBits, List.length_map]; omega)]
      rfl
  have whole : cbuf.drop 4 = [] ∨ (bytesToBits ((cbuf.take 4).map transposeByte)).length = 32 := by
    rcases stops with none | full
    · exact .inl none
    · exact .inr (by simp only [length_bytesToBits, List.length_map, full])
  have ready := Window.loadCurrent_run transposeByte spells 0 whole
  rw [← split] at ready
  have length : ((8 * (cbuf.take 4).length : Nat) : Int) =
      (bytesToBits ((cbuf.take 4).map transposeByte)).length := by
    rw [length_bytesToBits, List.length_map]
  rw [← length] at ready
  exact ready

end Start

namespace Decoder60

/-- The flags move the decompressor to where it has the text up to a position, with these
cached offsets. -/
structure Arranges (dec : Decoder60) (ctype : Flags) (text : Nat → Byte) (position : Nat)
    (cache : OffsetCache) (placed : Decoder60) (thisPtr : Nat) : Prop where
  arranged : dec.arrange ctype = .ok (placed, thisPtr)
  historyPtr : placed.historyPtr = position
  offsetCache : placed.offsetCache = cache
  agree : AgreeBelow placed.historyBuf.cell text position
  flushed : ctype.has packetFlushed = true → position = 0
  settled : ¬ ctype.has packetFlushed = true → thisPtr = position

/-- Decompressing a packet that parses a text right behind what the history already
holds of it gives the text, and the history then holds it too. -/
theorem decompress_run {dec placed : Decoder60} {thisPtr start finish : Nat} {ctype : Flags}
    {text : Nat → Byte} {cache cache' : OffsetCache}
    (arranges : dec.Arranges ctype text start cache placed thisPtr)
    (compressed : ctype &&& packetCompressed = packetCompressed) (four : cache.length = 4)
    {tokens : List (Token Byte)} (parse : Parses text start finish tokens)
    (valid : ∀ token ∈ tokens, Valid60 token) (room : finish ≤ histBufLen60)
    {insertions : List (Nat × Nat)}
    (written : tokensInsertions60 cache tokens = .ok (cache', insertions))
    {marker : Nat × Nat} (isMarker : lecCode 256 = .ok marker) {cbuf : List Byte}
    {padding : List Bool} (bits : bytesToBits (cbuf.map transposeByte) =
      Output.insertedBits60 insertions ++ (Output.insertedBits60 [marker] ++ padding))
    (turns : TurnsRound (bytesToBits (cbuf.map transposeByte))) :
    ∃ dec', (decompress60 dec cbuf ctype >>= view) = .ok (dec',
        (List.range (finish - start)).map fun index => text (start + index)) ∧
      dec'.historyPtr = finish ∧ dec'.offsetCache = cache' ∧
      AgreeBelow dec'.historyBuf.cell text finish := by
  have ready := start60_ready turns
  rw [bits] at ready
  obtain ⟨_, _, written', _, _, wide, -⟩ := tokens_written four valid
  rw [written] at written'
  cases written'
  have few : tokens.length < 2 * cbuf.length := by
    obtain ⟨code, isCode, _⟩ := endOfStream_run
    cases isMarker
    have total := congrArg List.length bits
    simp only [length_bytesToBits, List.length_map, List.length_append, Output.insertedBits60,
      List.flatMap_cons, List.flatMap_nil, length_lsbBits] at total wide
    omega
  obtain ⟨progress, run, reached, cached, agree⟩ := @tokens_run _ _ _ _ parse valid room _ _ four _
    written _ isMarker ⟨.start60 cbuf, placed.historyBuf, placed.historyPtr, placed.offsetCache⟩ _ _
    few arranges.offsetCache arranges.historyPtr ready arranges.agree
  have forward := parse.start_le_finish
  have rlen : (if ctype.has packetFlushed then progress.historyPtr
      else Decoder.distance progress.historyPtr thisPtr) = finish - start := by
    rw [reached]
    split
    · rename_i flushed
      rw [arranges.flushed flushed, Nat.sub_zero]
    · rename_i settled
      have small : finish < 2 ^ 32 := Nat.lt_of_le_of_lt room (by decide)
      rw [arranges.settled settled, Decoder.distance_eq forward small]
  have size : start + (finish - start) ≤ histBufLen60 := by omega
  have compressing : ¬ ctype &&& packetCompressed ≠ packetCompressed := not_not.mpr compressed
  have shown : progress.history.slice start (finish - start) =
      (List.range (finish - start)).map fun index => text (start + index) := by
    apply List.map_congr_left
    intro index bounded
    have inside : index < finish - start := List.mem_range.mp bounded
    exact agree _ (by omega)
  have decompressed : decompress60 dec cbuf ctype =
      .ok (⟨progress.history, progress.historyPtr, progress.offsetCache⟩, placed.historyPtr,
        finish - start) := by
    simp only [decompress60, decompress, arranges.arranged, ok_bind, compressing, if_false, run,
      pure_ok, rlen]
  refine ⟨⟨progress.history, progress.historyPtr, progress.offsetCache⟩, ?_, reached, cached, agree⟩
  simp only [decompressed, ok_bind, view, arranges.historyPtr, Buffer.loadBlock_of_le _ size, pure_ok,
    shown]

end Decoder60

end Redemption.Mppc
