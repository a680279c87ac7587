import Mathlib.Data.List.Forall2
import Redemption.Foundation.ByteStream

/-! Programs that may raise errors of their own, but never access memory out of bounds. -/
namespace Redemption.Foundation

universe u v

section Rules

variable {ε : Type u} {α β : Type v}

/-- A run without a fault of memory, whose result, if it comes to one, is as `post` says. -/
def Sound (run : Checked ε α) (post : α → Prop) : Prop :=
  match run with
  | .ok value => post value
  | .error (.raised _) => True
  | .error .outOfBounds => False

variable {run : Checked ε α} {post weaker : α → Prop}

theorem sound_ok {value : α} (holds : post value) : Sound (.ok value : Checked ε α) post := holds

theorem sound_raised (error : ε) : Sound (.error (.raised error) : Checked ε α) post := trivial

theorem Sound.mono (sound : Sound run post) (implies : ∀ value, post value → weaker value) :
    Sound run weaker := by
  match run, sound with
  | .ok value, holds => exact implies value holds
  | .error (.raised _), _ => trivial

theorem Sound.bind {next : α → Checked ε β} {after : β → Prop} (sound : Sound run post)
    (goesOn : ∀ value, post value → Sound (next value) after) : Sound (run >>= next) after := by
  match run, sound with
  | .ok value, holds => exact goesOn value holds
  | .error (.raised _), _ => trivial

theorem sound_ite {condition : Prop} [Decidable condition] {other : Checked ε α}
    (yes : condition → Sound run post) (no : ¬condition → Sound other post) :
    Sound (if condition then run else other) post := by
  by_cases holds : condition
  · rw [if_pos holds]
    exact yes holds
  · rw [if_neg holds]
    exact no holds

/-- A sound run, and what is thrown is as `thrown` says. -/
def Settles (run : Checked ε α) (post : α → Prop) (thrown : ε → Prop) : Prop :=
  match run with
  | .ok value => post value
  | .error (.raised error) => thrown error
  | .error .outOfBounds => False

variable {thrown thrown' : ε → Prop}

theorem Settles.sound (settles : Settles run post thrown) : Sound run post := by
  match run, settles with
  | .ok value, holds => exact holds
  | .error (.raised _), _ => trivial

theorem Settles.mono (settles : Settles run post thrown)
    (implies : ∀ value, post value → weaker value) (implies' : ∀ error, thrown error → thrown' error) :
    Settles run weaker thrown' := by
  match run, settles with
  | .ok value, holds => exact implies value holds
  | .error (.raised error), holds => exact implies' error holds

theorem Settles.found (settles : Settles run post thrown) :
    Settles run (fun value => post value ∧ run = .ok value) thrown := by
  match run, settles with
  | .ok value, holds => exact ⟨holds, rfl⟩
  | .error (.raised error), holds => exact holds

theorem Sound.settles (sound : Sound run post) : Settles run post fun _ => True := by
  match run, sound with
  | .ok value, holds => exact holds
  | .error (.raised _), _ => trivial

theorem Settles.bind {next : α → Checked ε β} {after : β → Prop} (settles : Settles run post thrown)
    (goesOn : ∀ value, post value → Settles (next value) after thrown) :
    Settles (run >>= next) after thrown := by
  match run, settles with
  | .ok value, holds => exact goesOn value holds
  | .error (.raised _), holds => exact holds

theorem settles_ite {condition : Prop} [Decidable condition] {other : Checked ε α}
    (yes : condition → Settles run post thrown) (no : ¬condition → Settles other post thrown) :
    Settles (if condition then run else other) post thrown := by
  by_cases holds : condition
  · rw [if_pos holds]
    exact yes holds
  · rw [if_neg holds]
    exact no holds

theorem Sound.of_ok {value : α} (sound : Sound run post) (result : run = .ok value) :
    post value := by
  subst result
  exact sound

theorem sound_true_iff : Sound run (fun _ => True) ↔ run ≠ .error .outOfBounds := by
  match run with
  | .ok value => simp [Sound]
  | .error (.raised error) => simp [Sound]
  | .error .outOfBounds => simp [Sound]

theorem Sound.no_fault (sound : Sound run post) : run ≠ .error .outOfBounds :=
  sound_true_iff.mp (sound.mono fun _ _ => trivial)

end Rules

section Lists

variable {ε α β : Type}

theorem sound_mapM {step : α → Checked ε β} {post : β → Prop} (items : List α)
    (each : ∀ item ∈ items, Sound (step item) post) :
    Sound (items.mapM step) fun values => ∀ value ∈ values, post value := by
  induction items with
  | nil =>
    apply sound_ok
    intro value member
    cases member
  | cons item rest ih =>
    rw [List.mapM_cons]
    apply (each item List.mem_cons_self).bind
    intro first holds
    apply (ih fun other member => each other (List.mem_cons_of_mem _ member)).bind
    intro others hold
    apply sound_ok
    intro value member
    rcases List.mem_cons.mp member with same | later
    · rw [same]
      exact holds
    · exact hold value later

/-- Where each of a list of runs succeeds with a related value, all of them do. -/
theorem mapM_related {step : α → Checked ε β} {related : α → β → Prop} {items : List α}
    (each : ∀ item ∈ items, ∃ value, step item = .ok value ∧ related item value) :
    ∃ values, items.mapM step = .ok values ∧ List.Forall₂ related items values := by
  induction items with
  | nil => exact ⟨[], rfl, .nil⟩
  | cons item rest ih =>
    obtain ⟨value, done, holds⟩ := each item List.mem_cons_self
    obtain ⟨values, ran, hold⟩ := ih fun other member => each other (List.mem_cons_of_mem _ member)
    exact ⟨value :: values, by rw [List.mapM_cons, done, ok_bind, ran]; rfl, .cons holds hold⟩

theorem sound_foldlM {σ ι : Type} {step : σ → ι → Checked ε σ} {invariant : σ → Prop}
    (items : List ι)
    (each : ∀ item ∈ items, ∀ state, invariant state → Sound (step state item) invariant)
    {state : σ} (holds : invariant state) : Sound (items.foldlM step state) invariant := by
  induction items generalizing state with
  | nil => exact sound_ok holds
  | cons item rest ih =>
    rw [List.foldlM_cons]
    apply (each item List.mem_cons_self state holds).bind
    intro next kept
    exact ih (fun other member => each other (List.mem_cons_of_mem _ member)) kept

theorem foldlM_range_ok {σ : Type} {step : σ → Nat → Checked ε σ} (inv : Nat → σ → Prop)
    {count : Nat} {start : σ} (begins : inv 0 start)
    (steps : ∀ n < count, ∀ state, inv n state → ∃ next, step state n = .ok next ∧ inv (n + 1) next) :
    ∃ last, (List.range count).foldlM step start = .ok last ∧ inv count last := by
  induction count with
  | zero => exact ⟨start, rfl, begins⟩
  | succ count ih =>
    obtain ⟨state, done, holds⟩ := ih fun n inside => steps n (by omega)
    obtain ⟨next, stepped, holds'⟩ := steps count (by omega) state holds
    refine ⟨next, ?_, holds'⟩
    rw [List.range_succ, List.foldlM_append, done, ok_bind, List.foldlM_cons, stepped]
    rfl

theorem foldlM_range_total {σ : Type} {step : σ → Nat → Checked ε σ} {count : Nat}
    (steps : ∀ n < count, ∀ state, ∃ next, step state n = .ok next) (start : σ) :
    ∃ last, (List.range count).foldlM step start = .ok last := by
  obtain ⟨last, ran, _⟩ := @foldlM_range_ok ε σ step (fun _ _ => True) count start trivial
    fun n inside state _ => (steps n inside state).imp fun _ stepped => ⟨stepped, trivial⟩
  exact ⟨last, ran⟩

/-- A loop over consecutive numbers, each step of which succeeds and leads to what the next one
starts from. -/
theorem foldlM_range'_ok {σ : Type} {step : σ → Nat → Except ε σ} {holds : Nat → σ → Prop}
    (start count : Nat)
    (each : ∀ index, start ≤ index → index < start + count → ∀ state, holds index state →
      ∃ next, step state index = .ok next ∧ holds (index + 1) next)
    {state : σ} (first : holds start state) :
    ∃ final, (List.range' start count).foldlM step state = .ok final ∧
      holds (start + count) final := by
  induction count generalizing start state with
  | zero => exact ⟨state, rfl, first⟩
  | succ count ih =>
    obtain ⟨next, stepped, kept⟩ := each start (Nat.le_refl _) (by omega) state first
    obtain ⟨final, ran, last⟩ := ih (start + 1)
      (fun index lower upper => each index (by omega) (by omega)) kept
    refine ⟨final, ?_, ?_⟩
    · rw [List.range'_succ, List.foldlM_cons, stepped, ok_bind, ran]
    · rw [Nat.add_right_comm, Nat.add_assoc] at last
      exact last

end Lists

/-- The number of so many bytes at a place. -/
def leAt (stream : List Byte) (place width : Nat) : Nat := leValue ((stream.drop place).take width)

section Memory

variable {ε : Type} {stream : List Byte} {count : Nat}

theorem sound_inLe_at {place width : Nat} (room : place + width ≤ stream.length) :
    Sound (inLe width (stream.drop place) : Checked ε _) fun result =>
      result = (leAt stream place width, stream.drop (place + width)) := by
  rw [inLe_ok (by rw [List.length_drop]; omega), List.drop_drop]
  exact sound_ok rfl

theorem leAt_part {start count place width : Nat} (inside : place + width ≤ count) :
    leAt ((stream.drop start).take count) place width = leAt stream (start + place) width := by
  rw [leAt, leAt, List.drop_take, List.drop_drop, List.take_take, Nat.min_eq_left (by omega)]

theorem sound_inUint8_at {place : Nat} (room : place + 1 ≤ stream.length) :
    Sound (inUint8 (stream.drop place) : Checked ε _) fun result =>
      result.1.toNat = leAt stream place 1 ∧ result.2 = stream.drop (place + 1) := by
  obtain ⟨byte, rest, split⟩ := List.exists_cons_of_ne_nil
    (fun none => absurd (List.drop_eq_nil_iff.mp none) (by omega) : stream.drop place ≠ [])
  have tail : stream.drop (place + 1) = rest := by
    rw [← List.drop_drop, split, List.drop_succ_cons, List.drop_zero]
  rw [split, tail, leAt, split]
  exact sound_ok ⟨(Nat.add_zero _).symm, rfl⟩

theorem sound_checkThrow (stream : List Byte) (needed : Nat) (error : ε) :
    Sound (checkThrow stream needed error) fun _ => needed ≤ stream.length := by
  unfold checkThrow
  by_cases room : needed ≤ stream.length
  · rw [if_pos room]
    exact sound_ok room
  · rw [if_neg room]
    exact sound_raised error

theorem sound_inBytes (room : count ≤ stream.length) :
    Sound (inBytes count stream : Checked ε _) fun result =>
      result.1.length = count ∧ result.2.length = stream.length - count := by
  rw [inBytes, if_pos room]
  refine sound_ok ⟨?_, ?_⟩
  · exact List.length_take_of_le room
  · exact List.length_drop

theorem sound_inUint8 (room : 1 ≤ stream.length) :
    Sound (inUint8 stream : Checked ε _) fun result =>
      result.2.length = stream.length - 1 := by
  cases stream with
  | nil => simp at room
  | cons byte rest => exact sound_ok (by simp)

variable {β : Type} {size start : Nat} (buffer : Buffer β size) {values : List β}

theorem sound_load {index : Nat} (room : index < size) :
    Sound (buffer.load index : Checked ε _) fun _ => True := by
  rw [Buffer.load_of_lt _ room]
  exact sound_ok trivial

theorem sound_store {index : Nat} (room : index < size) (value : β) :
    Sound (buffer.store index value : Checked ε _) fun _ => True := by
  rw [Buffer.store_of_lt _ room]
  exact sound_ok trivial

theorem sound_storeBlock (room : start + values.length ≤ size) :
    Sound (buffer.storeBlock start values : Checked ε _) fun _ => True := by
  rw [Buffer.storeBlock_of_le _ room]
  exact sound_ok trivial

theorem sound_loadBlock (room : start + count ≤ size) :
    Sound (buffer.loadBlock start count : Checked ε _) fun values => values.length = count := by
  rw [Buffer.loadBlock_of_le _ room]
  exact sound_ok (Buffer.length_slice _ _ _)

end Memory

end Redemption.Foundation
