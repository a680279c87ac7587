import Mathlib.Algebra.Ring.Nat
import Mathlib.Logic.Function.Basic

/-! Parsing a text into literals and back-references, and replaying the tokens on
a memory that already agrees with the text below the current position. -/
namespace Redemption.Foundation.Lz

universe u

/-- One step of a dictionary code. -/
inductive Token (β : Type u) where
  | literal (value : β)
  | copy (offset length : Nat)
  deriving DecidableEq, Repr

/-- How much text one token stands for. -/
def Token.span {β : Type u} : Token β → Nat
  | .literal _ => 1
  | .copy _ length => length

variable {β : Type u}

/-- The tokens spell the text from the first position up to the second. -/
inductive Parses (text : Nat → β) : Nat → Nat → List (Token β) → Prop where
  | done {position} : Parses text position position []
  | literal {position finish rest} (tail : Parses text (position + 1) finish rest) :
      Parses text position finish (.literal (text position) :: rest)
  | copy {position finish offset length rest} (positive : 0 < offset)
      (reaches : offset ≤ position)
      (repeats : ∀ index < length,
        text (position + index) = text (position + index - offset))
      (tail : Parses text (position + length) finish rest) :
      Parses text position finish (.copy offset length :: rest)

variable {text : Nat → β}

theorem Parses.append {start middle finish : Nat}
    {front back : List (Token β)} (first : Parses text start middle front)
    (second : Parses text middle finish back) : Parses text start finish (front ++ back) := by
  induction first with
  | done => exact second
  | literal _ ih => exact .literal (ih second)
  | copy positive reaches repeats _ ih => exact .copy positive reaches repeats (ih second)

variable {start finish : Nat} {tokens : List (Token β)}

theorem Parses.start_le_finish
    (parse : Parses text start finish tokens) : start ≤ finish := by
  induction parse with
  | done => exact Nat.le_refl _
  | literal _ ih => omega
  | copy _ _ _ _ ih => omega

theorem Parses.finish_eq
    (parse : Parses text start finish tokens) :
    finish = start + (tokens.map Token.span).sum := by
  induction parse with
  | done => simp
  | literal _ ih => simp only [List.map_cons, List.sum_cons, Token.span]; omega
  | copy _ _ _ _ ih => simp only [List.map_cons, List.sum_cons, Token.span]; omega

theorem Parses.length_le
    (parse : Parses text start finish tokens) (spans : ∀ token ∈ tokens, 0 < token.span) :
    start + tokens.length ≤ finish := by
  induction parse with
  | done => exact Nat.le_refl _
  | literal _ ih =>
    have rest := ih fun token member => spans token (.tail _ member)
    rw [List.length_cons]
    omega
  | copy _ _ _ _ ih =>
    have rest := ih fun token member => spans token (.tail _ member)
    have here := spans _ List.mem_cons_self
    rw [Token.span] at here
    rw [List.length_cons]
    omega

/-- A byte that has not been there before is a literal. -/
theorem Parses.fresh
    (parse : Parses text start finish tokens) (more : start < finish)
    (spans : ∀ token ∈ tokens, 0 < token.span)
    (fresh : ∀ before < start, text before ≠ text start) :
    ∃ rest, tokens = .literal (text start) :: rest ∧ Parses text (start + 1) finish rest := by
  cases parse with
  | done => exact absurd more (Nat.lt_irrefl _)
  | literal tail => exact ⟨_, rfl, tail⟩
  | copy positive reaches repeats _ =>
    have span := spans _ List.mem_cons_self
    have same := repeats 0 span
    exact absurd same.symm (fresh _ (by omega))

theorem Parses.shift {text other : Nat → β}
    (parse : Parses text start finish tokens) (shift : Nat)
    (same : ∀ index < finish, other (index + shift) = text index) :
    Parses other (start + shift) (finish + shift) tokens := by
  induction parse with
  | done => exact .done
  | @literal position finish rest tail ih =>
    have after := tail.start_le_finish
    have here := ih same
    rw [← same position after]
    rw [Nat.add_right_comm] at here
    exact .literal here
  | @copy position finish offset length rest positive reaches repeats tail ih =>
    have after := tail.start_le_finish
    have here := ih same
    rw [Nat.add_right_comm] at here
    refine .copy positive (Nat.le_add_right_of_le reaches) (fun index bounded => ?_) here
    rw [Nat.add_right_comm, same _ (by omega), repeats index bounded, ← same _ (by omega)]
    congr 1
    omega

theorem Parses.literals {start : Nat} (values : List β)
    (spelled : ∀ index (bounded : index < values.length),
      text (start + index) = values[index]) :
    Parses text start (start + values.length) (values.map .literal) := by
  induction values generalizing start with
  | nil => exact .done
  | cons head rest ih =>
    have here : text start = head := spelled 0 (Nat.succ_pos _)
    have tail : Parses text (start + 1) (start + 1 + rest.length) (rest.map .literal) := by
      refine ih fun index bounded => ?_
      have next := spelled (index + 1) (by simpa using bounded)
      have shifted : start + 1 + index = start + (index + 1) := by omega
      rw [shifted, next, List.getElem_cons_succ]
    have total : start + (head :: rest).length = start + 1 + rest.length := by
      simp only [List.length_cons]
      omega
    rw [total, List.map_cons, ← here]
    exact .literal tail

/-- Two memories hold the same cells below a position. -/
def AgreeBelow (left right : Nat → β) (position : Nat) : Prop :=
  ∀ index < position, left index = right index

theorem AgreeBelow.update {left right : Nat → β} {position : Nat} {value : β}
    (agree : AgreeBelow left right position) (same : value = right position) :
    AgreeBelow (Function.update left position value) right (position + 1) := by
  intro index bounded
  by_cases here : index = position
  · subst here
    simp [same]
  · rw [Function.update_of_ne here]
    exact agree index (by omega)

/-- The replicating copy: cells written early may be read again. -/
def copyForward : Nat → Nat → Nat → (Nat → β) → (Nat → β)
  | 0, _, _, memory => memory
  | length + 1, source, target, memory =>
    copyForward length (source + 1) (target + 1)
      (Function.update memory target (memory source))

theorem copyForward_agree {text memory : Nat → β} {source target : Nat} (length : Nat)
    (before : source < target)
    (repeats : ∀ index < length, text (target + index) = text (source + index))
    (agree : AgreeBelow memory text target) :
    AgreeBelow (copyForward length source target memory) text (target + length) := by
  induction length generalizing source target memory with
  | zero => exact agree
  | succ length ih =>
    have same : memory source = text target := by
      have copied := repeats 0 (by omega)
      rw [agree source before]
      simpa using copied.symm
    have later : ∀ index < length,
        text (target + 1 + index) = text (source + 1 + index) := by
      intro index bounded
      have shifted := repeats (index + 1) (by omega)
      have left : target + 1 + index = target + (index + 1) := by omega
      have right : source + 1 + index = source + (index + 1) := by omega
      rw [left, right, shifted]
    have rest := ih (show source + 1 < target + 1 by omega) later (agree.update same)
    have total : target + (length + 1) = target + 1 + length := by omega
    rw [total]
    exact rest

/-- What a decoder does to its memory when it reads one token. -/
def step (memory : Nat → β) (position : Nat) : Token β → Nat → β
  | .literal value => Function.update memory position value
  | .copy offset length => copyForward length (position - offset) position memory

/-- Replaying tokens rebuilds the text that they parse. -/
def replay (memory : Nat → β) (position : Nat) : List (Token β) → Nat → β
  | [] => memory
  | token :: rest => replay (step memory position token) (position + token.span) rest

theorem replay_agrees
    (parse : Parses text start finish tokens) (memory : Nat → β)
    (agree : AgreeBelow memory text start) :
    AgreeBelow (replay memory start tokens) text finish := by
  induction parse generalizing memory with
  | done => exact agree
  | literal _ ih => exact ih _ (agree.update rfl)
  | @copy position finish offset length rest positive reaches repeats _ ih =>
    refine ih _ (copyForward_agree length (by omega) (fun index bounded => ?_) agree)
    rw [repeats index bounded]
    congr 1
    omega

end Redemption.Foundation.Lz
