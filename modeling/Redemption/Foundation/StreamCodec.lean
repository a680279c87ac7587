import Mathlib.Data.List.Basic

/-! Streaming compression as a library offers it: calls that take some of the input and give
at most so much output. What a compressor holds back comes out when the stream is finished. -/
namespace Redemption.Foundation

/-- What a call leaves behind and gives out. -/
structure Deflated (σ β : Type) where
  state : σ
  nextIn : List β
  output : List β

/-- What a call of the decompressor leaves behind and gives out; `ok` tells whether it may be
called for more output. -/
structure Inflated (σ β : Type) extends Deflated σ β where
  ok : Bool

/-- The calls of a library; a compressor's call says whether the stream is to be finished. -/
structure StreamApi (β : Type) where
  Deflate : Type
  deflateInit : Deflate
  deflate : Deflate → List β → Bool → Nat → Deflated Deflate β
  Inflate : Type
  inflateInit : Inflate
  inflate : Inflate → List β → Nat → Inflated Inflate β

/-- The part of the input that a call took. -/
def used {β : Type} (input left : List β) : List β := input.take (input.length - left.length)

theorem used_append {β : Type} {input left : List β} (suffix : left <:+ input) :
    used input left ++ left = input := by
  obtain ⟨front, rfl⟩ := suffix
  simp [used]

@[simp] theorem used_nil {β : Type} (input : List β) : used input [] = input := by
  simp [used]

namespace StreamApi

variable {β : Type} (api : StreamApi β)

/-- A decompressor that has taken the first and given the second list, in calls with pieces of
`whole`. -/
inductive Inflating (whole : List β) : api.Inflate → List β → List β → Prop where
  | init : Inflating whole api.inflateInit [] []
  | call {state : api.Inflate} {taken given : List β} (before : Inflating whole state taken given)
      (input : List β) (room : Nat) (within : taken ++ input <+: whole) :
      Inflating whole (api.inflate state input room).state
        (taken ++ used input (api.inflate state input room).nextIn)
        (given ++ (api.inflate state input room).output)

/-- However the pieces of `whole` are given, the decompressor gives back pieces of `content`. It
takes the whole input unless the output is full and it says so, and all of `content` is out when
all is taken and the output not full, or full and nothing more to come. -/
def Inflates (whole content : List β) : Prop :=
  ∀ state taken given, api.Inflating whole state taken given →
    ∀ (input : List β) (room : Nat), 0 < room → taken ++ input <+: whole →
      let call := api.inflate state input room
      call.nextIn <:+ input ∧ call.output.length ≤ room ∧ given ++ call.output <+: content ∧
        (call.output.length < room → call.nextIn = [] ∧
          (taken ++ input = whole → given ++ call.output = content)) ∧
        (call.output.length = room → call.ok = false →
          call.nextIn = [] ∧ given ++ call.output = content)

/-- A compressor that has taken the first and given the second list. Once it is told to finish,
it is given only what it left of the input until then. -/
inductive Deflating : api.Deflate → List β → List β → Option (List β) → Prop where
  | init : Deflating api.deflateInit [] [] none
  | call {state : api.Deflate} {taken given : List β} (before : Deflating state taken given none)
      (input : List β) (room : Nat) :
      Deflating (api.deflate state input false room).state
        (taken ++ used input (api.deflate state input false room).nextIn)
        (given ++ (api.deflate state input false room).output) none
  | finish {state : api.Deflate} {taken given : List β} {left : Option (List β)}
      (before : Deflating state taken given left) (input : List β) (room : Nat)
      (only : ∀ rest, left = some rest → input = rest) :
      Deflating (api.deflate state input true room).state
        (taken ++ used input (api.deflate state input true room).nextIn)
        (given ++ (api.deflate state input true room).output)
        (some (api.deflate state input true room).nextIn)

end StreamApi

/-- A library that does what it promises. -/
structure StreamCodec (β : Type) extends StreamApi β where
  /-- How much output a call can still lead to. -/
  bound : Deflate → List β → Bool → Nat
  deflate_suffix : ∀ state input finish room, (deflate state input finish room).nextIn <:+ input
  deflate_fits : ∀ state input finish room, (deflate state input finish room).output.length ≤ room
  deflate_bound : ∀ state input finish room,
    (deflate state input finish room).output.length +
      bound (deflate state input finish room).state (deflate state input finish room).nextIn
        finish ≤ bound state input finish
  /-- A call stops when the input is empty or the output full. -/
  deflate_stops : ∀ {state taken given}, toStreamApi.Deflating state taken given none →
    ∀ input room, (deflate state input false room).output.length < room →
      (deflate state input false room).nextIn = []
  /-- Finishing stops when the output is full; otherwise a stream of all the input is out. -/
  deflate_finishes : ∀ {state taken given left}, toStreamApi.Deflating state taken given left →
    ∀ input room, (∀ rest, left = some rest → input = rest) →
      (deflate state input true room).output.length < room →
      (deflate state input true room).nextIn = [] ∧
        toStreamApi.Inflates (given ++ (deflate state input true room).output) (taken ++ input)
  /-- A new decompressor has nothing to give. -/
  inflate_nothing : ∀ room, (inflate inflateInit [] room).output = []

theorem StreamCodec.inflates_nil {β : Type} {codec : StreamCodec β} {content : List β}
    (inflates : codec.Inflates [] content) : content = [] := by
  have none := codec.inflate_nothing 1
  obtain ⟨_, _, _, few, _⟩ := inflates _ _ _ .init [] 1 Nat.one_pos (List.prefix_refl [])
  have all := (few (by rw [none]; exact Nat.one_pos)).2 rfl
  rw [none] at all
  exact all.symm

/-- The calls of a codec that changes nothing; its compressor gives out nothing before the end. -/
abbrev holdingApi (β : Type) : StreamApi β where
  Deflate := List β
  deflateInit := []
  deflate held input finish room :=
    if finish then ⟨(held ++ input).drop room, [], (held ++ input).take room⟩
    else ⟨held ++ input, [], []⟩
  Inflate := List β
  inflateInit := []
  inflate queue input room := ⟨⟨(queue ++ input).drop room, [], (queue ++ input).take room⟩, true⟩

section Holding

variable {β : Type}

private theorem holding_inflating {whole : List β} {queue : (holdingApi β).Inflate}
    {taken given : List β}
    (inflating : (holdingApi β).Inflating whole queue taken given) :
    taken = given ++ queue := by
  induction inflating with
  | init => rfl
  | call before input room within ih =>
    simp only [holdingApi, used_nil, List.append_assoc, List.take_append_drop]
    rw [ih, List.append_assoc]

private theorem holding_deflating {held : (holdingApi β).Deflate}
    {taken given : List β} {left : Option (List β)}
    (deflating : (holdingApi β).Deflating held taken given left) :
    taken = given ++ held := by
  induction deflating with
  | init => rfl
  | call before input room ih =>
    simp only [holdingApi, Bool.false_eq_true, if_false, used_nil, List.append_nil]
    rw [ih, List.append_assoc]
  | finish before input room only ih =>
    simp only [holdingApi, if_true, used_nil, List.append_assoc, List.take_append_drop]
    rw [ih, List.append_assoc]

private theorem holding_inflates (whole : List β) : (holdingApi β).Inflates whole whole := by
  intro (queue : List β) taken given inflating input room _ within
  have same : taken = given ++ queue := holding_inflating inflating
  have inside : given ++ (queue ++ input) <+: whole := by rwa [same, List.append_assoc] at within
  have part : given ++ (queue ++ input).take room <+: whole :=
    ((List.prefix_append_right_inj given).mpr (List.take_prefix room _)).trans inside
  have ended (few : ((queue ++ input).take room).length < room) (all : taken ++ input = whole) :
      given ++ (queue ++ input).take room = whole := by
    rw [List.length_take] at few
    rw [List.take_of_length_le (by omega), ← List.append_assoc, ← same, all]
  exact ⟨List.nil_suffix, List.length_take_le _ _, part, fun few => ⟨rfl, ended few⟩, nofun⟩

/-- A codec that changes nothing, but gives out nothing before the end. -/
def holding (β : Type) : StreamCodec β where
  toStreamApi := holdingApi β
  bound (held : List β) input _ := (held ++ input).length
  deflate_suffix held input finish room := by
    cases finish <;> exact List.nil_suffix
  deflate_fits (held : List β) input finish room := by
    cases finish with
    | false => exact Nat.zero_le room
    | true => exact List.length_take_le room (held ++ input)
  deflate_bound (held : List β) input finish room := by
    cases finish with
    | false =>
      change 0 + ((held ++ input) ++ []).length ≤ (held ++ input).length
      exact Nat.le_of_eq (by rw [List.append_nil, Nat.zero_add])
    | true =>
      change ((held ++ input).take room).length + ((held ++ input).drop room ++ []).length ≤
        (held ++ input).length
      exact Nat.le_of_eq (by rw [List.append_nil, ← List.length_append, List.take_append_drop])
  deflate_stops _ _ _ _ := rfl
  deflate_finishes := by
    intro (held : List β) taken given left deflating input room _ short
    have same : taken = given ++ held := holding_deflating deflating
    have few : ((held ++ input).take room).length < room := short
    rw [List.length_take] at few
    have whole : (held ++ input).take room = held ++ input := List.take_of_length_le (by omega)
    refine ⟨rfl, ?_⟩
    change (holdingApi β).Inflates (given ++ (held ++ input).take room) (taken ++ input)
    rw [whole, same, List.append_assoc]
    exact holding_inflates _
  inflate_nothing room := List.take_nil

/-- Nothing comes out before the stream is finished. -/
theorem holding_silent {held : (holding β).Deflate} {taken given : List β}
    (deflating : (holding β).Deflating held taken given none) : given = [] := by
  generalize ended : (none : Option (List β)) = left at deflating
  induction deflating with
  | init => rfl
  | call before input room ih => exact (List.append_nil _).trans (ih rfl)
  | finish => cases ended

end Holding

/-! Hashes of a stream that is given piece by piece. -/

universe u

/-- A keyed hash: its calls, and the hash of a whole stream that they compute. -/
structure StreamHash (κ β δ : Type u) where
  State : Type u
  init : κ → State
  update : State → List β → State
  final : State → δ
  hash : κ → List β → δ
  final_updates : ∀ (key : κ) (pieces : List (List β)), final (pieces.foldl update (init key)) = hash key pieces.flatten

namespace StreamHash

variable {κ β δ : Type u} (streamHash : StreamHash κ β δ)

/-- The states that can be reached when a stream has been given, in whatever pieces. -/
def Absorbed (key : κ) (state : streamHash.State) (stream : List β) : Prop :=
  ∃ pieces : List (List β), state = pieces.foldl streamHash.update (streamHash.init key) ∧
    stream = pieces.flatten

variable {streamHash} {key : κ} {state : streamHash.State} {stream : List β}

theorem absorbed_init (key : κ) : streamHash.Absorbed key (streamHash.init key) [] :=
  ⟨[], rfl, rfl⟩

theorem Absorbed.update (absorbed : streamHash.Absorbed key state stream) (piece : List β) :
    streamHash.Absorbed key (streamHash.update state piece) (stream ++ piece) := by
  obtain ⟨pieces, rfl, rfl⟩ := absorbed
  exact ⟨pieces ++ [piece], by rw [List.foldl_append]; rfl, by simp⟩

theorem Absorbed.final (absorbed : streamHash.Absorbed key state stream) :
    streamHash.final state = streamHash.hash key stream := by
  obtain ⟨pieces, rfl, rfl⟩ := absorbed
  exact streamHash.final_updates key pieces

end StreamHash

/-- The stream itself as its hash. -/
def wholeStream (κ β : Type u) : StreamHash κ β (κ × List β) where
  State := κ × List β
  init key := (key, [])
  update state piece := (state.1, state.2 ++ piece)
  final := id
  hash := Prod.mk
  final_updates key pieces := by
    have run (start : List β) :
        pieces.foldl (fun (state : κ × List β) piece => (state.1, state.2 ++ piece)) (key, start) =
          (key, start ++ pieces.flatten) := by
      induction pieces generalizing start with
      | nil => simp
      | cons piece pieces ih => simp [ih]
    exact run []

/-! A decompressor that is given its input piece by piece and gives out at most so much at a
time; what it holds back comes out later. -/

/-- What a call leaves behind: how much input it took, and what it gave out. -/
structure Inflation (σ β : Type) where
  state : σ
  taken : Nat
  output : List β

/-- The calls of a decompressor: one with input, and one without that is to end the stream and
says whether it has ended. -/
structure Inflater (σ β : Type) where
  inflate : σ → List β → Nat → Inflation σ β
  finish : σ → Nat → Bool × σ × List β

/-- `Expands state compressed data` holds where the first list is a continuation of the stream
that a decompressor in `state` gives the second for, and the stream does not end in it. Each
call gives out the next part of the data. -/
structure Inflater.Correct {σ β : Type} (inflater : Inflater σ β)
    (Expands : σ → List β → List β → Prop) : Prop where
  inflate_fits : ∀ {state chunk rest data}, Expands state (chunk ++ rest) data → ∀ room,
    (inflater.inflate state chunk room).taken ≤ chunk.length ∧
      (inflater.inflate state chunk room).output.length ≤ room
  /-- A call with input and room for output is not in vain. -/
  inflate_moves : ∀ {state chunk rest data}, Expands state (chunk ++ rest) data → ∀ room,
    0 < room → chunk ≠ [] → 0 < (inflater.inflate state chunk room).taken ∨
      (inflater.inflate state chunk room).output ≠ []
  inflate_gives : ∀ {state chunk rest data}, Expands state (chunk ++ rest) data → ∀ room,
    ∃ more, data = (inflater.inflate state chunk room).output ++ more ∧
      Expands (inflater.inflate state chunk room).state
        (chunk.drop (inflater.inflate state chunk room).taken ++ rest) more
  finish_goes_on : ∀ {state data}, Expands state [] data → ∀ room,
    (inflater.finish state room).1 = false
  finish_fits : ∀ {state data}, Expands state [] data → ∀ room,
    (inflater.finish state room).2.2.length ≤ room
  /-- Given room, what is left comes out. -/
  finish_moves : ∀ {state data}, Expands state [] data → ∀ room, 0 < room →
    (inflater.finish state room).2.2 = [] → data = []
  finish_gives : ∀ {state data}, Expands state [] data → ∀ room,
    ∃ more, data = (inflater.finish state room).2.2 ++ more ∧
      Expands (inflater.finish state room).2.1 [] more

/-- The decompressor of data that is not compressed; its state is what it holds back. -/
def copying (β : Type) : Inflater (List β) β where
  inflate held input room :=
    ⟨(held ++ input).drop room, input.length, (held ++ input).take room⟩
  finish held room := (false, held.drop room, held.take room)

theorem copying_correct (β : Type) :
    (copying β).Correct fun held compressed data => data = held ++ compressed where
  inflate_fits := by
    intro held chunk rest data _ room
    refine ⟨Nat.le_refl _, ?_⟩
    exact List.length_take_le _ _
  inflate_moves := by
    intro held chunk rest data _ room _ some'
    exact .inl (List.length_pos_iff.mpr some')
  inflate_gives := by
    intro held chunk rest data same room
    refine ⟨(held ++ chunk).drop room ++ rest, ?_, ?_⟩
    · rw [same]
      simp only [copying]
      rw [← List.append_assoc, ← List.append_assoc, List.take_append_drop]
    · simp [copying]
  finish_goes_on := by
    intro held data _ room
    rfl
  finish_fits := by
    intro held data _ room
    exact List.length_take_le _ _
  finish_moves := by
    intro held data same room positive none
    cases held with
    | nil => exact same
    | cons byte held =>
      obtain ⟨more, rfl⟩ := Nat.exists_eq_succ_of_ne_zero (Nat.pos_iff_ne_zero.mp positive)
      simp [copying] at none
  finish_gives := by
    intro held data same room
    refine ⟨held.drop room, ?_, ?_⟩
    · simp [copying, same]
    · simp [copying]

end Redemption.Foundation
