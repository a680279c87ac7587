import Redemption.Foundation.Region
import Redemption.Vnc.Encoder

/-! `BasicStaticBuffer`: the buffer that the encoders read from, and the loads that fill it. -/
namespace Redemption.Vnc

open Redemption.Foundation

/-- `BasicStaticBuffer`, with a capacity and the width of its `size_type`. -/
structure BasicStaticBuffer (capacity bits : Nat) where
  len : BitVec bits
  idx : BitVec bits
  buf : Buffer Byte capacity

abbrev Buf64k := BasicStaticBuffer 65535 16

namespace BasicStaticBuffer

variable {capacity bits : Nat} {ε : Type} (buffer : BasicStaticBuffer capacity bits)

def remaining : BitVec bits := buffer.len - buffer.idx

/-- `av`: what is unread. -/
def av : Checked ε (List Byte) := buffer.buf.loadBlock buffer.idx.toNat buffer.remaining.toNat

/-- `advance`; the assertion is part of it. -/
def advance (n : Nat) : Checked ε (BasicStaticBuffer capacity bits) :=
  if n ≤ buffer.remaining.toNat then .ok { buffer with idx := buffer.idx + BitVec.ofNat bits n }
  else .error .outOfBounds

/-- What `read_with` does first: the unread bytes are moved to the start. -/
def compact : Checked ε (BasicStaticBuffer capacity bits) :=
  if buffer.idx = buffer.len then .ok { buffer with len := 0, idx := 0 }
  else if buffer.idx = 0 then .ok buffer
  else do
    let unread ← buffer.av
    let buf ← buffer.buf.storeBlock 0 unread
    return { len := buffer.len - buffer.idx, idx := 0, buf }

/-- `read_from`, where so many of the incoming bytes have arrived; also what comes in later. -/
def readFrom (arrived : Nat) (incoming : List Byte) :
    Checked ε (BasicStaticBuffer capacity bits × List Byte) := do
  let moved ← buffer.compact
  let readLen := min (capacity - moved.len.toNat) arrived
  let data := incoming.take readLen
  let buf ← moved.buf.storeBlock moved.len.toNat data
  return ({ moved with len := moved.len + BitVec.ofNat bits data.length, buf },
    incoming.drop readLen)

/-- The unread bytes. -/
structure Holds (unread : List Byte) : Prop where
  ordered : buffer.idx.toNat ≤ buffer.len.toNat
  inside : buffer.len.toNat ≤ capacity
  count : unread.length = buffer.len.toNat - buffer.idx.toNat
  cells : buffer.buf.slice buffer.idx.toNat unread.length = unread

variable {buffer} {unread : List Byte}

theorem exists_holds_nil (capacity bits : Nat) :
    ∃ buffer : BasicStaticBuffer capacity bits, buffer.Holds [] :=
  ⟨⟨0, 0, .filled 0⟩, Nat.zero_le _, Nat.zero_le _, rfl, rfl⟩

theorem Holds.remaining_eq (holds : buffer.Holds unread) :
    buffer.remaining.toNat = unread.length := by
  rw [remaining, BitVec.toNat_sub_of_le holds.ordered, holds.count]

theorem Holds.le_capacity (holds : buffer.Holds unread) : unread.length ≤ capacity := by
  have inside := holds.inside
  have count := holds.count
  omega

theorem Holds.unique {other : List Byte} (holds : buffer.Holds unread)
    (holds' : buffer.Holds other) : unread = other := by
  rw [← holds.cells, ← holds'.cells, holds.count, holds'.count]

theorem Holds.av_ok (holds : buffer.Holds unread) : (buffer.av : Checked ε _) = .ok unread := by
  have count := holds.count
  have ordered := holds.ordered
  have inside := holds.inside
  rw [av, holds.remaining_eq, Buffer.loadBlock_of_le _ (by omega), holds.cells]

theorem Holds.advance_ok {front back : List Byte} (holds : buffer.Holds (front ++ back)) :
    ∃ next, (buffer.advance front.length : Checked ε _) = .ok next ∧ next.Holds back := by
  have count := holds.count
  have ordered := holds.ordered
  have inside := holds.inside
  rw [List.length_append] at count
  have place : (buffer.idx + BitVec.ofNat bits front.length).toNat =
      buffer.idx.toNat + front.length := by
    rw [BitVec.toNat_add, BitVec.toNat_ofNat, Nat.add_mod_mod, Nat.mod_eq_of_lt (by omega)]
  refine ⟨_, if_pos (by rw [holds.remaining_eq, List.length_append]; omega), ?_, inside, ?_, ?_⟩
  · simp only [place]
    omega
  · simp only [place]
    omega
  · have cells := holds.cells
    rw [List.length_append, Buffer.slice_append] at cells
    simp only [place]
    exact (List.append_inj cells (Buffer.length_slice _ _ _)).2

theorem Holds.compact_ok (holds : buffer.Holds unread) :
    ∃ moved, (buffer.compact : Checked ε _) = .ok moved ∧ moved.Holds unread ∧
      moved.idx.toNat = 0 := by
  by_cases read : buffer.idx = buffer.len
  · have none : unread = [] := by
      rw [← List.length_eq_zero_iff, holds.count, read, Nat.sub_self]
    subst none
    exact ⟨_, if_pos read, ⟨Nat.zero_le _, Nat.zero_le _, rfl, rfl⟩, BitVec.toNat_zero⟩
  by_cases first : buffer.idx = 0
  · refine ⟨buffer, ?_, holds, ?_⟩
    · rw [compact, if_neg read, if_pos first]
    · rw [first]
      exact BitVec.toNat_zero
  · have room := holds.le_capacity
    have length : (buffer.len - buffer.idx).toNat = unread.length := holds.remaining_eq
    refine ⟨{ len := buffer.len - buffer.idx, idx := 0, buf := buffer.buf.splice 0 unread },
      ?_, ⟨?_, ?_, ?_, ?_⟩, BitVec.toNat_zero⟩
    · rw [compact, if_neg read, if_neg first, holds.av_ok, ok_bind, Buffer.storeBlock_of_le _ (by omega)]
      rfl
    · exact Nat.zero_le _
    · rwa [length]
    · exact length.symm
    · exact Buffer.slice_splice _ _ _

/-- Behind a load, the unread bytes stand at the start, with as much behind them as has arrived and
as there is room for. -/
theorem Holds.readFrom_ok (holds : buffer.Holds unread) (fits : capacity < 2 ^ bits)
    (arrived : Nat) (incoming : List Byte) :
    ∃ next, (buffer.readFrom arrived incoming : Checked ε _) =
        .ok (next, incoming.drop (min (capacity - unread.length) arrived)) ∧
      next.Holds (unread ++ incoming.take (min (capacity - unread.length) arrived)) := by
  obtain ⟨moved, compacted, held, first⟩ := @Holds.compact_ok _ _ ε _ _ holds
  have count := held.count
  have inside := held.inside
  rw [first, Nat.sub_zero] at count
  generalize length : incoming.take (min (capacity - unread.length) arrived) = data
  have room : unread.length + data.length ≤ capacity := by
    rw [← length, List.length_take]
    omega
  have place : (moved.len + BitVec.ofNat bits data.length).toNat =
      unread.length + data.length := by
    rw [BitVec.toNat_add, BitVec.toNat_ofNat, Nat.add_mod_mod, Nat.mod_eq_of_lt (by omega), count]
  refine ⟨⟨moved.len + BitVec.ofNat bits data.length, moved.idx,
    moved.buf.splice unread.length data⟩, ?_, ⟨?_, ?_, ?_, ?_⟩⟩
  · rw [readFrom, compacted, ok_bind]
    simp only [← count, length, Buffer.storeBlock_of_le moved.buf room]
    rfl
  · rw [first]
    exact Nat.zero_le _
  · simp only [place]
    exact room
  · simp only [place, first, List.length_append]
    rfl
  · have begins : moved.buf.Begins unread := by
      have cells := held.cells
      rwa [first] at cells
    simp only [first]
    exact begins.splice data

end BasicStaticBuffer

/-- Where the calls of an encoder lead to: it exits, with what is unread and what comes in later, or
it asks for more data with a full buffer. -/
inductive Fed (σ ο : Type) where
  | exited (encoder : σ) (buf : Buf64k) (incoming : List Byte) (drawn : List ο)
  | stalled

section Feed

variable {σ ο : Type}

/-- The `State::Data` of `FrameBufferUpdateCtx::run` on a buffer: the encoder is called until it
exits, and where it asks for more, the buffer is loaded with what has arrived by then. -/
def feed (call : Encoder σ ο) (arrivals : Nat → Nat) :
    Nat → Nat → σ → Buf64k → List Byte → List ο → Checked VncError (Fed σ ο)
  | 0, _, _, _, _, _ => .error (.raised .unfinished)
  | rounds + 1, loads, encoder, buf, incoming, drawn => do
    let unread ← buf.av
    let answer ← call encoder unread
    let buf ← buf.advance (unread.length - answer.buf.length)
    match answer.state with
    | .ready => feed call arrivals rounds loads answer.encoder buf incoming (drawn ++ answer.drawn)
    | .exit => .ok (.exited answer.encoder buf incoming (drawn ++ answer.drawn))
    | .needMoreData =>
      if buf.remaining.toNat = 65535 then .ok .stalled
      else do
        let (buf, incoming) ← buf.readFrom (arrivals loads) incoming
        feed call arrivals rounds (loads + 1) answer.encoder buf incoming (drawn ++ answer.drawn)

variable {call : Encoder σ ο} {arrivals : Nat → Nat} {loads : Nat} {encoder next : σ}
  {buf : Buf64k} {front back incoming : List Byte} {drawn more : List ο}

/-- With more rounds, the calls that have come to an end lead to the same. -/
theorem feed_more {rounds : Nat} {outcome : Fed σ ο}
    (ended : feed call arrivals rounds loads encoder buf incoming drawn = .ok outcome)
    (extra : Nat) :
    feed call arrivals (rounds + extra) loads encoder buf incoming drawn = .ok outcome := by
  induction rounds generalizing loads encoder buf incoming drawn with
  | zero => cases ended
  | succ rounds ih =>
    rw [Nat.add_right_comm, feed]
    obtain ⟨unread, read, ended⟩ := bind_ok_iff.mp ended
    obtain ⟨answer, answers, ended⟩ := bind_ok_iff.mp ended
    obtain ⟨buf', advanced, ended⟩ := bind_ok_iff.mp ended
    simp only [read, ok_bind, answers, advanced]
    split at ended
    · exact ih ended
    · exact ended
    · split at ended
      · rwa [if_pos ‹_›]
      · rw [if_neg ‹_›]
        obtain ⟨loaded', loads', ended⟩ := bind_ok_iff.mp ended
        rw [loads', ok_bind]
        exact ih ended

theorem feed_agree {rounds rounds' : Nat} {outcome outcome' : Fed σ ο}
    (ended : feed call arrivals rounds loads encoder buf incoming drawn = .ok outcome)
    (ended' : feed call arrivals rounds' loads encoder buf incoming drawn = .ok outcome') :
    outcome = outcome' := by
  have first := feed_more ended rounds'
  have second := feed_more ended' rounds
  rw [Nat.add_comm] at second
  exact Except.ok.inj (first.symm.trans second)

def loaded (unread arrived : Nat) : Nat := min (65535 - unread) arrived

theorem feed_ready (holds : buf.Holds (front ++ back))
    (answers : call encoder (front ++ back) = .ok ⟨.ready, next, back, more⟩) :
    ∃ buf', buf'.Holds back ∧ ∀ rounds, feed call arrivals (rounds + 1) loads encoder buf incoming
      drawn = feed call arrivals rounds loads next buf' incoming (drawn ++ more) := by
  obtain ⟨buf', advanced, held⟩ := @BasicStaticBuffer.Holds.advance_ok _ _ VncError _ _ _ holds
  refine ⟨buf', held, fun rounds => ?_⟩
  simp only [feed, holds.av_ok, ok_bind, answers, List.length_append, Nat.add_sub_cancel, advanced]

theorem feed_exit (holds : buf.Holds (front ++ back))
    (answers : call encoder (front ++ back) = .ok ⟨.exit, next, back, more⟩) :
    ∃ buf', buf'.Holds back ∧ ∀ rounds, feed call arrivals (rounds + 1) loads encoder buf incoming
      drawn = .ok (.exited next buf' incoming (drawn ++ more)) := by
  obtain ⟨buf', advanced, held⟩ := @BasicStaticBuffer.Holds.advance_ok _ _ VncError _ _ _ holds
  refine ⟨buf', held, fun rounds => ?_⟩
  simp only [feed, holds.av_ok, ok_bind, answers, List.length_append, Nat.add_sub_cancel, advanced]

variable {unread : List Byte}

theorem feed_load (holds : buf.Holds unread)
    (answers : call encoder unread = .ok ⟨.needMoreData, encoder, unread, []⟩)
    (room : unread.length ≠ 65535) :
    ∃ buf', buf'.Holds (unread ++ incoming.take (loaded unread.length (arrivals loads))) ∧
      ∀ rounds, feed call arrivals (rounds + 1) loads encoder buf incoming drawn =
        feed call arrivals rounds (loads + 1) encoder buf'
          (incoming.drop (loaded unread.length (arrivals loads))) drawn := by
  obtain ⟨same, advanced, held⟩ :=
    @BasicStaticBuffer.Holds.advance_ok _ _ VncError _ [] unread holds
  obtain ⟨buf', read, held'⟩ := @BasicStaticBuffer.Holds.readFrom_ok _ _ VncError _ _ held
    (by decide) (arrivals loads) incoming
  rw [List.length_nil] at advanced
  refine ⟨buf', held', fun rounds => ?_⟩
  simp only [feed, holds.av_ok, ok_bind, answers, Nat.sub_self, advanced, held.remaining_eq,
    if_neg room, read, List.append_nil, loaded]

theorem feed_stalls (holds : buf.Holds unread)
    (answers : call encoder unread = .ok ⟨.needMoreData, encoder, unread, []⟩)
    (full : unread.length = 65535) (rounds : Nat) :
    feed call arrivals (rounds + 1) loads encoder buf incoming drawn = .ok .stalled := by
  obtain ⟨same, advanced, held⟩ :=
    @BasicStaticBuffer.Holds.advance_ok _ _ VncError _ [] unread holds
  rw [List.length_nil] at advanced
  simp only [feed, holds.av_ok, ok_bind, answers, Nat.sub_self, advanced, held.remaining_eq,
    if_pos full]

end Feed

end Redemption.Vnc
