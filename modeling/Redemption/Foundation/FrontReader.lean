import Redemption.Foundation.Buffer
import Redemption.Foundation.ByteStream

/-! Readers of values at the front of a stream, which may not be there yet. -/
namespace Redemption.Foundation

universe u

variable {φ α β γ : Type u}

/-- A reader gives a value and what is behind it, or asks for more. -/
abbrev FrontReader (φ β α : Type u) := List β → Except φ (Option (α × List β))

namespace FrontReader

/-- A value that nothing is read for. -/
def give (value : α) : FrontReader φ β α := fun stream => .ok (some (value, stream))

/-- One value is read behind another, and may depend on it. -/
def andThen (first : FrontReader φ β α) (next : α → FrontReader φ β γ) : FrontReader φ β γ :=
  fun stream => do
    match ← first stream with
    | none => return none
    | some (value, rest) => next value rest

/-- Nothing is read before there is so much. -/
def guard (len : Nat) (reader : FrontReader φ β α) : FrontReader φ β α :=
  fun stream => if stream.length < len then .ok none else reader stream

/-- Cells as they stand in the stream. -/
def cells (len : Nat) : FrontReader φ β (List β) :=
  guard len fun stream => .ok (some (stream.take len, stream.drop len))

/-- The next cell. -/
def cell : FrontReader φ β β
  | [] => .ok none
  | value :: rest => .ok (some (value, rest))

variable {reader first : FrontReader φ β α} {next : α → FrontReader φ β γ}
  {front back rest bytes bytes' : List β} {len : Nat} {value : α} {result : γ}

theorem guard_short (short : rest.length < len) : guard len reader rest = .ok none := if_pos short

theorem guard_enough (enough : len ≤ rest.length) : guard len reader rest = reader rest :=
  if_neg (Nat.not_lt.mpr enough)

theorem guard_cells : guard len (cells len : FrontReader φ β _) = cells len := by
  funext stream
  by_cases short : stream.length < len
  · rw [guard_short short, cells, guard_short short]
  · rw [guard_enough (Nat.le_of_not_lt short)]

theorem andThen_some (found : first bytes = .ok (some (value, rest))) :
    first.andThen next bytes = next value rest := by
  rw [andThen, found]
  rfl

theorem andThen_none (missing : first bytes = .ok none) :
    first.andThen next bytes = .ok none := by
  rw [andThen, missing]
  rfl

theorem guard_cells_andThen {next : List β → FrontReader φ β γ} :
    guard len ((cells len).andThen next) = (cells len).andThen next := by
  funext stream
  by_cases short : stream.length < len
  · have missing : (cells len : FrontReader φ β _) stream = .ok none := guard_short short
    rw [guard_short short, andThen_none missing]
  · rw [guard_enough (Nat.le_of_not_lt short)]

theorem andThen_eq_some_iff {stream : List β} {answer : γ × List β} :
    first.andThen next stream = .ok (some answer) ↔
      ∃ value rest, first stream = .ok (some (value, rest)) ∧
        next value rest = .ok (some answer) := by
  rw [andThen]
  cases first stream with
  | error fault =>
    constructor
    · intro found
      cases found
    · rintro ⟨_, _, found, _⟩
      cases found
  | ok answer' =>
    cases answer' with
    | none =>
      constructor
      · intro found
        cases found
      · rintro ⟨_, _, found, _⟩
        cases found
    | some answer' =>
      constructor
      · intro found
        exact ⟨answer'.1, answer'.2, rfl, found⟩
      · rintro ⟨_, _, found, found'⟩
        cases found
        exact found'

theorem of_guard {stream : List β} {answer : α × List β}
    (found : guard len reader stream = .ok (some answer)) :
    len ≤ stream.length ∧ reader stream = .ok (some answer) := by
  by_cases short : stream.length < len
  · rw [guard_short short] at found
    cases found
  · rw [guard_enough (Nat.le_of_not_lt short)] at found
    exact ⟨Nat.le_of_not_lt short, found⟩

theorem of_give {stream rest : List β} {value' : α}
    (found : (give value : FrontReader φ β α) stream = .ok (some (value', rest))) :
    value' = value ∧ rest = stream := by
  cases found
  exact ⟨rfl, rfl⟩

theorem of_cell {stream rest : List β} {value : β}
    (found : (cell : FrontReader φ β β) stream = .ok (some (value, rest))) :
    stream = value :: rest := by
  cases stream with
  | nil => cases found
  | cons _ _ =>
    cases found
    rfl

theorem of_cells {stream rest taken : List β}
    (found : (cells len : FrontReader φ β _) stream = .ok (some (taken, rest))) :
    taken.length = len ∧ stream = taken ++ rest := by
  obtain ⟨enough, found⟩ := of_guard found
  cases found
  exact ⟨List.length_take_of_le enough, (List.take_append_drop len stream).symm⟩

/-- Bytes that stand for a value, whatever is behind them. -/
def Gives (reader : FrontReader φ β α) (bytes : List β) (value : α) : Prop :=
  ∀ rest, reader (bytes ++ rest) = .ok (some (value, rest))

/-- Bytes that stand for a value, which may not be read before there is more. -/
def Offers (reader : FrontReader φ β α) (bytes : List β) (value : α) : Prop :=
  ∀ rest, reader (bytes ++ rest) = .ok (some (value, rest)) ∨ reader (bytes ++ rest) = .ok none

/-- More is asked for, as long as not all of the bytes are there. -/
def Waits (reader : FrontReader φ β α) (bytes : List β) : Prop :=
  ∀ front back, back ≠ [] → bytes = front ++ back → reader front = .ok none

/-- The reader comes to an end, whatever it is given. -/
def Total (reader : FrontReader φ β α) : Prop := ∀ stream, ∃ answer, reader stream = .ok answer

/-- The reader takes so much, where it is there. -/
def Takes (reader : FrontReader φ β α) (len : Nat) : Prop :=
  ∀ stream, len ≤ stream.length → ∃ value, reader stream = .ok (some (value, stream.drop len))

theorem Gives.offers (gives : Gives reader bytes value) : Offers reader bytes value :=
  fun rest => .inl (gives rest)

theorem gives_give (value : α) : Gives (give value : FrontReader φ β α) [] value := fun _ => rfl

theorem gives_cell (value : β) : Gives (cell : FrontReader φ β β) [value] value := fun _ => rfl

theorem waits_nil (reader : FrontReader φ β α) : Waits reader [] := by
  intro front back some same
  exact absurd (List.append_eq_nil_iff.mp same.symm).2 some

theorem Gives.andThen (gives : Gives first bytes value)
    (gives' : Gives (next value) bytes' result) :
    Gives (first.andThen next) (bytes ++ bytes') result := by
  intro rest
  rw [List.append_assoc, andThen_some (gives _)]
  exact gives' rest

/-- A part of two values is a part of the first, or the first and a part of the second. -/
theorem Waits.andThen (waits : Waits first bytes) (offers : Offers first bytes value)
    (waits' : Waits (next value) bytes') : Waits (first.andThen next) (bytes ++ bytes') := by
  intro front back some same
  obtain ⟨middle, is, is'⟩ | ⟨middle, is, is'⟩ := List.append_eq_append_iff.mp same
  · obtain found | missing := offers middle
    · rw [is, andThen_some found]
      exact waits' middle back some is'
    · rw [is, andThen_none missing]
  · cases middle with
    | nil =>
      rw [List.append_nil] at is
      obtain found | missing := offers []
      · rw [List.append_nil] at found
        rw [← is, andThen_some found]
        exact waits' [] back some (by rw [is', List.nil_append, List.nil_append])
      · rw [List.append_nil] at missing
        rw [← is, andThen_none missing]
    | cons cell middle =>
      exact andThen_none (waits front (cell :: middle) (List.cons_ne_nil _ _) is)

theorem Gives.guard (gives : Gives reader bytes value) (enough : len ≤ bytes.length) :
    Gives (guard len reader) bytes value := by
  intro rest
  rw [guard_enough (by rw [List.length_append]; exact Nat.le_add_right_of_le enough)]
  exact gives rest

theorem Offers.guard (offers : Offers reader bytes value) (len : Nat) :
    Offers (guard len reader) bytes value := by
  intro rest
  by_cases short : (bytes ++ rest).length < len
  · exact .inr (guard_short short)
  · rw [guard_enough (Nat.le_of_not_lt short)]
    exact offers rest

theorem Waits.guard (waits : Waits reader bytes) (len : Nat) : Waits (guard len reader) bytes := by
  intro front back some same
  by_cases short : front.length < len
  · exact guard_short short
  · rw [guard_enough (Nat.le_of_not_lt short)]
    exact waits front back some same

/-- Bytes of a fixed length are waited for by a guard, and what is behind them by its reader. -/
theorem waits_guard_andThen (gives : Gives first bytes value) (enough : bytes.length ≤ len)
    (waits : Waits (next value) bytes') :
    Waits (guard len (first.andThen next)) (bytes ++ bytes') := by
  intro front back some same
  obtain ⟨middle, is, is'⟩ | ⟨middle, is, is'⟩ := List.append_eq_append_iff.mp same
  · by_cases short : front.length < len
    · exact guard_short short
    · rw [guard_enough (Nat.le_of_not_lt short), is, andThen_some (gives middle)]
      exact waits middle back some is'
  · cases middle with
    | nil =>
      rw [List.append_nil] at is
      by_cases short : front.length < len
      · exact guard_short short
      · have found := gives []
        rw [List.append_nil] at found
        rw [guard_enough (Nat.le_of_not_lt short), ← is, andThen_some found]
        exact waits [] back some (by rw [is', List.nil_append, List.nil_append])
    | cons cell middle =>
      apply guard_short
      rw [is, List.length_append, List.length_cons] at enough
      omega

theorem gives_cells (cells' : List β) :
    Gives (cells cells'.length : FrontReader φ β _) cells' cells' := by
  intro rest
  rw [cells, guard_enough (by rw [List.length_append]; exact Nat.le_add_right _ _), List.take_left,
    List.drop_left]

theorem waits_cells (cells' : List β) :
    Waits (cells cells'.length : FrontReader φ β _) cells' := by
  intro front back some same
  apply guard_short
  have more := List.length_pos_of_ne_nil some
  rw [same, List.length_append]
  omega

theorem total_give (value : α) : Total (give value : FrontReader φ β α) := fun _ => ⟨_, rfl⟩

theorem total_cells (len : Nat) : Total (cells len : FrontReader φ β _) := by
  intro stream
  by_cases short : stream.length < len
  · exact ⟨none, guard_short short⟩
  · exact ⟨_, guard_enough (Nat.le_of_not_lt short)⟩

theorem Total.guard (total : Total reader) (len : Nat) : Total (guard len reader) := by
  intro stream
  by_cases short : stream.length < len
  · exact ⟨none, guard_short short⟩
  · rw [guard_enough (Nat.le_of_not_lt short)]
    exact total stream

theorem Total.andThen (total : Total first) (later : ∀ value, Total (next value)) :
    Total (first.andThen next) := by
  intro stream
  obtain ⟨answer, found⟩ := total stream
  cases answer with
  | none => exact ⟨none, andThen_none found⟩
  | some answer =>
    rw [andThen_some found]
    exact later answer.1 answer.2

/-- What is read behind a guard without further checks, and what checks for itself behind it. -/
theorem Takes.total_guard_andThen {fixed : Nat} (takes : Takes first fixed) (enough : fixed ≤ len)
    (later : ∀ value, Total (next value)) : Total (FrontReader.guard len (first.andThen next)) := by
  intro stream
  by_cases short : stream.length < len
  · exact ⟨none, guard_short short⟩
  · obtain ⟨value, found⟩ := takes stream (Nat.le_trans enough (Nat.le_of_not_lt short))
    rw [guard_enough (Nat.le_of_not_lt short), andThen_some found]
    exact later value _

theorem Takes.andThen {len' : Nat} (takes : Takes first len)
    (later : ∀ value, Takes (next value) len') : Takes (first.andThen next) (len + len') := by
  intro stream enough
  obtain ⟨value, found⟩ := takes stream (Nat.le_trans (Nat.le_add_right _ _) enough)
  rw [andThen_some found, ← List.drop_drop]
  apply later
  rw [List.length_drop]
  omega

theorem takes_give (value : α) : Takes (give value : FrontReader φ β α) 0 :=
  fun _ _ => ⟨value, rfl⟩

/-- On a stream, the reader comes to an end, and what it gives is as it says. -/
def Ends (reader : FrontReader φ β α) (stream : List β) (post : α → List β → Prop) : Prop :=
  ∃ answer, reader stream = .ok answer ∧ ∀ value rest, answer = some (value, rest) → post value rest

section Ends

variable {stream : List β} {post : α → List β → Prop} {post' : γ → List β → Prop}

theorem Ends.andThen (ends : Ends first stream post)
    (later : ∀ value rest, post value rest → Ends (next value) rest post') :
    Ends (first.andThen next) stream post' := by
  obtain ⟨answer, found, is⟩ := ends
  cases answer with
  | none => exact ⟨none, andThen_none found, fun _ _ none => by cases none⟩
  | some answer =>
    obtain ⟨value, rest⟩ := answer
    obtain ⟨answer', found', is'⟩ := later value rest (is value rest rfl)
    exact ⟨answer', (andThen_some found).trans found', is'⟩

theorem ends_give (holds : post value stream) :
    Ends (give value : FrontReader φ β α) stream post := by
  refine ⟨_, rfl, ?_⟩
  rintro _ _ ⟨⟩
  exact holds

theorem ends_cells {post : List β → List β → Prop}
    (holds : len ≤ stream.length → post (stream.take len) (stream.drop len)) :
    Ends (cells len : FrontReader φ β _) stream post := by
  by_cases short : stream.length < len
  · exact ⟨none, guard_short short, fun _ _ none => by cases none⟩
  · refine ⟨_, guard_enough (Nat.le_of_not_lt short), ?_⟩
    rintro _ _ ⟨⟩
    exact holds (Nat.le_of_not_lt short)

end Ends

end FrontReader

end Redemption.Foundation

/-! Numbers in a byte stream, the highest byte first. -/
namespace Redemption.Foundation

universe u

/-- The low bytes of a number, the highest first. -/
def beBytes (width value : Nat) : List (BitVec 8) := (leBytes width value).reverse

/-- The number that bytes stand for, the highest first. -/
def beValue (bytes : List (BitVec 8)) : Nat := leValue bytes.reverse

@[simp] theorem length_beBytes (width value : Nat) : (beBytes width value).length = width := by
  rw [beBytes, List.length_reverse, length_leBytes]

theorem beValue_beBytes (width value : Nat) :
    beValue (beBytes width value) = value % 2 ^ (8 * width) := by
  rw [beValue, beBytes, List.reverse_reverse, leValue_leBytes]

theorem beValue_lt (bytes : List (BitVec 8)) : beValue bytes < 2 ^ (8 * bytes.length) := by
  rw [beValue, ← List.length_reverse]
  exact leValue_lt bytes.reverse

theorem leBytes_leValue (bytes : List (BitVec 8)) :
    leBytes bytes.length (leValue bytes) = bytes := by
  induction bytes with
  | nil => rfl
  | cons byte rest ih =>
    have low : BitVec.ofNat 8 (byte.toNat + 2 ^ 8 * leValue rest) = byte := by
      apply BitVec.eq_of_toNat_eq
      rw [BitVec.toNat_ofNat]
      omega
    have high : (byte.toNat + 2 ^ 8 * leValue rest) / 2 ^ 8 = leValue rest := by omega
    rw [leValue, List.length_cons, leBytes, low, high, ih]

theorem beBytes_beValue (bytes : List (BitVec 8)) :
    beBytes bytes.length (beValue bytes) = bytes := by
  rw [beBytes, beValue, ← List.length_reverse, leBytes_leValue, List.reverse_reverse]

theorem le_beValue (byte : BitVec 8) (rest : List (BitVec 8)) :
    byte.toNat * 2 ^ (8 * rest.length) ≤ beValue (byte :: rest) := by
  have append : ∀ low : List (BitVec 8),
      leValue (low ++ [byte]) = leValue low + 2 ^ (8 * low.length) * byte.toNat := by
    intro low
    induction low with
    | nil => simp [leValue]
    | cons head low ih =>
      have power : 2 ^ (8 * (low.length + 1)) = 2 ^ 8 * 2 ^ (8 * low.length) := by ring
      rw [List.cons_append, leValue, leValue, ih, List.length_cons, power]
      ring
  rw [beValue, List.reverse_cons, append, List.length_reverse, Nat.mul_comm]
  exact Nat.le_add_left _ _

namespace FrontReader

variable {φ : Type}

/-- A number of so many bytes, the highest first. -/
def be (width : Nat) : FrontReader φ (BitVec 8) Nat :=
  (cells width).andThen fun bytes => give (beValue bytes)

theorem be_enough {width : Nat} {stream : List (BitVec 8)} (enough : width ≤ stream.length) :
    (be width : FrontReader φ _ _) stream =
      .ok (some (beValue (stream.take width), stream.drop width)) :=
  andThen_some (guard_enough enough)

theorem of_be {width value : Nat} {stream rest : List (BitVec 8)}
    (found : (be width : FrontReader φ _ _) stream = .ok (some (value, rest))) :
    value < 2 ^ (8 * width) ∧ stream = beBytes width value ++ rest := by
  obtain ⟨bytes, rest', found, found'⟩ := andThen_eq_some_iff.mp found
  obtain ⟨rfl, rfl⟩ := of_cells found
  obtain ⟨rfl, rfl⟩ := of_give found'
  exact ⟨beValue_lt bytes, by rw [beBytes_beValue]⟩

theorem gives_be {width value : Nat} (small : value < 2 ^ (8 * width)) :
    (be width : FrontReader φ _ _).Gives (beBytes width value) value := by
  intro rest
  have length := length_beBytes width value
  rw [be_enough (by rw [List.length_append, length]; exact Nat.le_add_right _ _),
    List.take_left' length, List.drop_left' length, beValue_beBytes, Nat.mod_eq_of_lt small]

end FrontReader

/-! Readers with a state, which say what a reader at the front of all that is ahead says. -/

theorem stateT_bind {σ φ α γ : Type u} {first : StateT σ (Except φ) α}
    {next : α → StateT σ (Except φ) γ} {state later : σ} {value : α}
    (done : first state = .ok (value, later)) : (first >>= next) state = next value later := by
  change (first state >>= fun p => next p.1 p.2) = _
  rw [done]
  rfl

theorem stateT_bind_error {σ φ α γ : Type u} {first : StateT σ (Except φ) α}
    {next : α → StateT σ (Except φ) γ} {state : σ} {fault : φ}
    (failed : first state = .error fault) : (first >>= next) state = .error fault := by
  change (first state >>= fun p => next p.1 p.2) = _
  rw [failed]
  rfl

variable {σ ε φ α β γ : Type u} (ahead : σ → List β) (raise : ε → φ) (missing : ε)

/-- From states of one kind to states of another, a reader says what one at the front of all that
is ahead says; where that asks for more, there is none. -/
def Follows (before after : σ → Prop) (reader : StateT σ (Except φ) α)
    (front : FrontReader ε β α) : Prop :=
  ∀ state, before state →
    match front (ahead state) with
    | .ok (some (value, rest)) =>
      ∃ later, reader state = .ok (value, later) ∧ after later ∧ ahead later = rest
    | .ok none => reader state = .error (raise missing)
    | .error error => reader state = .error (raise error)

namespace Follows

variable {ahead raise missing} {before middle after : σ → Prop} {reader : StateT σ (Except φ) α}
  {front : FrontReader ε β α} {next : α → StateT σ (Except φ) γ}
  {front' : α → FrontReader ε β γ} {state : σ}

theorem of_some (follows : Follows ahead raise missing before after reader front)
    (is : before state)
    {value : α} {rest : List β} (found : front (ahead state) = .ok (some (value, rest))) :
    ∃ later, reader state = .ok (value, later) ∧ after later ∧ ahead later = rest := by
  have said := follows state is
  rw [found] at said
  exact said

theorem of_none (follows : Follows ahead raise missing before after reader front)
    (is : before state)
    (short : front (ahead state) = .ok none) : reader state = .error (raise missing) := by
  have said := follows state is
  rw [short] at said
  exact said

theorem of_error (follows : Follows ahead raise missing before after reader front)
    (is : before state)
    {error : ε} (failed : front (ahead state) = .error error) :
    reader state = .error (raise error) := by
  have said := follows state is
  rw [failed] at said
  exact said

theorem give (value : α) :
    Follows ahead raise missing before before (pure value) (FrontReader.give value) :=
  fun state is => ⟨state, rfl, is, rfl⟩

theorem bind (follows : Follows ahead raise missing before middle reader front)
    (later : ∀ value, Follows ahead raise missing middle after (next value) (front' value)) :
    Follows ahead raise missing before after (reader >>= next) (front.andThen front') := by
  intro state is
  rcases answer : front (ahead state) with error | _ | ⟨value, rest⟩
  · have failed := follows.of_error is answer
    rw [FrontReader.andThen, answer, stateT_bind_error failed]
    rfl
  · have short := follows.of_none is answer
    rw [FrontReader.andThen_none answer, stateT_bind_error short]
  · obtain ⟨state', found, is', rfl⟩ := follows.of_some is answer
    rw [FrontReader.andThen_some answer, stateT_bind found]
    exact later value state' is'

theorem weaken {before' after' : σ → Prop}
    (follows : Follows ahead raise missing before after reader front)
    (stronger : ∀ state, before' state → before state)
    (weaker : ∀ state, after state → after' state) :
    Follows ahead raise missing before' after' reader front := by
  intro state is
  rcases answer : front (ahead state) with error | _ | ⟨value, rest⟩
  · exact follows.of_error (stronger state is) answer
  · exact follows.of_none (stronger state is) answer
  · obtain ⟨later, found, is', same⟩ := follows.of_some (stronger state is) answer
    exact ⟨later, found, weaker later is', same⟩

theorem ite {condition : Prop} [Decidable condition] {other : StateT σ (Except φ) α}
    {otherFront : FrontReader ε β α}
    (follows : condition → Follows ahead raise missing before after reader front)
    (follows' : ¬ condition → Follows ahead raise missing before after other otherFront) :
    Follows ahead raise missing before after (if condition then reader else other)
      (if condition then front else otherFront) := by
  by_cases is : condition
  · rw [if_pos is, if_pos is]
    exact follows is
  · rw [if_neg is, if_neg is]
    exact follows' is

/-- What is waited for before more is read: a state that has it follows the guard. -/
theorem guard {len : Nat} {wait : StateT σ (Except φ) PUnit} {rest : StateT σ (Except φ) α}
    (waits : ∀ state, before state →
      if (ahead state).length < len then wait state = .error (raise missing)
      else ∃ later, wait state = .ok (⟨⟩, later) ∧ middle later ∧ ahead later = ahead state)
    (follows : Follows ahead raise missing middle after rest front) :
    Follows ahead raise missing before after (wait >>= fun _ => rest)
      (FrontReader.guard len front) := by
  intro state is
  have said := waits state is
  by_cases short : (ahead state).length < len
  · rw [if_pos short] at said
    rw [FrontReader.guard_short short, stateT_bind_error said]
  · rw [if_neg short] at said
    obtain ⟨later, found, is', same⟩ := said
    rw [FrontReader.guard_enough (Nat.le_of_not_lt short), stateT_bind found, ← same]
    exact follows later is'

end Follows

end Redemption.Foundation
