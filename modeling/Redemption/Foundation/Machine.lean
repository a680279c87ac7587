import Mathlib.Data.List.Basic

/-! Machines that answer every input, and what holds at every step of a run. -/
namespace Redemption.Foundation

universe u v w

/-- A machine with states `σ` that takes inputs `ι` and gives outputs `ο`. -/
structure Machine (σ : Type u) (ι : Type v) (ο : Type w) where
  step : σ → ι → σ × ο

namespace Machine

variable {σ : Type u} {ι : Type v} {ο : Type w} (machine : Machine σ ι ο)

def next (state : σ) (input : ι) : σ := (machine.step state input).1

def output (state : σ) (input : ι) : ο := (machine.step state input).2

/-- The state that a run ends in. -/
def run (state : σ) (inputs : List ι) : σ := inputs.foldl machine.next state

/-- A property of the state and the input before each step of a run. -/
def EveryStep (property : σ → ι → Prop) : σ → List ι → Prop
  | _, [] => True
  | state, input :: rest =>
    property state input ∧ EveryStep property (machine.next state input) rest

@[simp] theorem run_nil (state : σ) : machine.run state [] = state := rfl

@[simp] theorem run_cons (state : σ) (input : ι) (rest : List ι) :
    machine.run state (input :: rest) = machine.run (machine.next state input) rest := rfl

theorem run_append (state : σ) (first second : List ι) :
    machine.run state (first ++ second) = machine.run (machine.run state first) second :=
  List.foldl_append

variable {machine}

/-- What can be decided at a step can be decided of a run. -/
instance decidableEveryStep {property : σ → ι → Prop} [decides : ∀ state input,
    Decidable (property state input)] :
    (state : σ) → (inputs : List ι) → Decidable (machine.EveryStep property state inputs)
  | _, [] => .isTrue trivial
  | state, input :: rest =>
    @instDecidableAnd _ _ (decides state input) (decidableEveryStep (machine.next state input) rest)

theorem invariant_run {invariant : σ → Prop} {allowed : σ → ι → Prop}
    (keeps : ∀ state input, invariant state → allowed state input →
      invariant (machine.next state input))
    {state : σ} (holds : invariant state) {inputs : List ι}
    (every : machine.EveryStep allowed state inputs) : invariant (machine.run state inputs) := by
  induction inputs generalizing state with
  | nil => exact holds
  | cons input rest ih => exact ih (keeps state input holds every.1) every.2

/-- Where each allowed step keeps an invariant and is good, a whole run is good. -/
theorem everyStep_of_invariant {invariant : σ → Prop} {allowed good : σ → ι → Prop}
    (keeps : ∀ state input, invariant state → allowed state input →
      invariant (machine.next state input))
    (fine : ∀ state input, invariant state → allowed state input → good state input)
    {state : σ} (holds : invariant state) {inputs : List ι}
    (every : machine.EveryStep allowed state inputs) : machine.EveryStep good state inputs := by
  induction inputs generalizing state with
  | nil => trivial
  | cons input rest ih =>
    exact ⟨fine state input holds every.1, ih (keeps state input holds every.1) every.2⟩

theorem everyStep_append {property : σ → ι → Prop} {state : σ} {first second : List ι} :
    machine.EveryStep property state (first ++ second) ↔
      machine.EveryStep property state first ∧
        machine.EveryStep property (machine.run state first) second := by
  induction first generalizing state with
  | nil => exact ⟨fun every => ⟨trivial, every⟩, fun both => both.2⟩
  | cons input rest ih =>
    constructor
    · intro every
      obtain ⟨front, back⟩ := ih.mp every.2
      exact ⟨⟨every.1, front⟩, back⟩
    · intro both
      exact ⟨both.1.1, ih.mpr ⟨both.1.2, both.2⟩⟩

theorem everyStep_and {first second : σ → ι → Prop} {state : σ} {inputs : List ι} :
    machine.EveryStep (fun state input => first state input ∧ second state input) state inputs ↔
      machine.EveryStep first state inputs ∧ machine.EveryStep second state inputs := by
  induction inputs generalizing state with
  | nil => exact ⟨fun _ => ⟨trivial, trivial⟩, fun _ => trivial⟩
  | cons input rest ih =>
    constructor
    · intro every
      obtain ⟨front, back⟩ := ih.mp every.2
      exact ⟨⟨every.1.1, front⟩, every.1.2, back⟩
    · intro both
      exact ⟨⟨both.1.1, both.2.1⟩, ih.mpr ⟨both.1.2, both.2.2⟩⟩

theorem everyStep_of_forall {property : σ → ι → Prop}
    (all : ∀ state input, property state input) (state : σ) (inputs : List ι) :
    machine.EveryStep property state inputs := by
  induction inputs generalizing state with
  | nil => trivial
  | cons input rest ih => exact ⟨all state input, ih _⟩

/-- Where an invariant that allowed steps keep makes exactly these steps good, a whole run is
good exactly when each of its steps is allowed. -/
theorem everyStep_iff {invariant : σ → Prop} {allowed good : σ → ι → Prop}
    (keeps : ∀ state input, invariant state → allowed state input →
      invariant (machine.next state input))
    (exact : ∀ state input, invariant state → (good state input ↔ allowed state input))
    {state : σ} (holds : invariant state) (inputs : List ι) :
    machine.EveryStep good state inputs ↔ machine.EveryStep allowed state inputs := by
  constructor
  · intro every
    induction inputs generalizing state with
    | nil => trivial
    | cons input rest ih =>
      have fits := (exact state input holds).mp every.1
      exact ⟨fits, ih (keeps state input holds fits) every.2⟩
  · exact everyStep_of_invariant keeps (fun state input inv => (exact state input inv).mpr) holds

end Machine

end Redemption.Foundation

/-! A sender that may give up on a message, and a receiver that only sees what was
sent: when one step keeps the two in lockstep, whole sessions round trip. -/
namespace Redemption.Foundation

universe u

/-- A sender with state `σ` and a receiver with state `δ`. Sending message `μ`
either produces a wire value or gives up; receiving one produces a payload. -/
structure Channel (ε σ δ μ ω π : Type u) where
  send : σ → μ → Except ε (σ × Option ω)
  receive : δ → ω → Except ε (δ × π)
  payload : μ → π

namespace Channel

variable {ε σ δ μ ω π : Type u} (channel : Channel ε σ δ μ ω π)

/-- Each message of a session with the wire value it was sent as, if it was. -/
def sendAll : σ → List μ → Except ε (List (μ × Option ω))
  | _, [] => .ok []
  | state, message :: rest =>
    match channel.send state message with
    | .error fault => .error fault
    | .ok (next, wire) =>
      match sendAll next rest with
      | .error fault => .error fault
      | .ok entries => .ok ((message, wire) :: entries)

def receiveAll : δ → List ω → Except ε (List π)
  | _, [] => .ok []
  | state, wire :: rest =>
    match channel.receive state wire with
    | .error fault => .error fault
    | .ok (next, payload) =>
      match receiveAll next rest with
      | .error fault => .error fault
      | .ok payloads => .ok (payload :: payloads)

/-- The wire values of a session, without the messages given up on. -/
def wires (entries : List (μ × Option ω)) : List ω := entries.filterMap Prod.snd

/-- The payloads of the messages that were really sent. -/
def delivered (entries : List (μ × Option ω)) : List π :=
  entries.filterMap fun entry => entry.2.map fun _ => channel.payload entry.1

/-- The sender meets no fault, and a receiver fed exactly what was sent gives
back exactly the messages behind it, in order. -/
def RoundTrip (sender : σ) (receiver : δ) (messages : List μ) : Prop :=
  ∃ entries, channel.sendAll sender messages = .ok entries ∧
    channel.receiveAll receiver (wires entries) = .ok (channel.delivered entries)

/-- A condition that every step of the sender's run meets. -/
def EveryStep (allowed : σ → μ → Prop) : σ → List μ → Prop
  | _, [] => True
  | state, message :: rest =>
    allowed state message ∧
      ∀ next wire, channel.send state message = .ok (next, wire) →
        EveryStep allowed next rest

/-- One step in lockstep: giving up keeps the relation, and a value that is sent
is received as the message's payload. -/
def StepAgrees (related : σ → δ → Prop) (receiver : δ) (message : μ) (next : σ) :
    Option ω → Prop
  | none => related next receiver
  | some wire => ∃ receiver', channel.receive receiver wire =
      .ok (receiver', channel.payload message) ∧ related next receiver'

section Lockstep

variable (related : σ → δ → Prop) (allowed : σ → μ → Prop)
  (agrees : ∀ sender receiver message, related sender receiver → allowed sender message →
    ∃ next wire, channel.send sender message = .ok (next, wire) ∧
      channel.StepAgrees related receiver message next wire)
  {sender : σ} {receiver : δ} (start : related sender receiver) (messages : List μ)
  (every : channel.EveryStep allowed sender messages)

include agrees start every

theorem roundTrip_of_lockstep : channel.RoundTrip sender receiver messages := by
  induction messages generalizing sender receiver with
  | nil => exact ⟨[], rfl, rfl⟩
  | cons message rest ih =>
    obtain ⟨now, later⟩ := every
    obtain ⟨next, wire, sent, step⟩ := agrees sender receiver message start now
    cases wire with
    | none =>
      obtain ⟨entries, sentRest, received⟩ := ih step (later next none sent)
      refine ⟨(message, none) :: entries, by simp [sendAll, sent, sentRest], ?_⟩
      simpa [wires, delivered] using received
    | some wire =>
      obtain ⟨receiver', receivedNow, related'⟩ := step
      obtain ⟨entries, sentRest, received⟩ := ih related' (later next (some wire) sent)
      refine ⟨(message, some wire) :: entries, by simp [sendAll, sent, sentRest], ?_⟩
      simp only [wires, delivered] at received
      simp [wires, delivered, receiveAll, receivedNow, received]

/-- Where allowed steps keep the two sides in lockstep and are good, a whole run is good. -/
theorem everyStep_of_lockstep {good : σ → μ → Prop}
    (fine : ∀ sender receiver message, related sender receiver → allowed sender message →
      good sender message) :
    channel.EveryStep good sender messages := by
  induction messages generalizing sender receiver with
  | nil => trivial
  | cons message rest ih =>
    obtain ⟨now, later⟩ := every
    refine ⟨fine sender receiver message start now, fun reached shown ran => ?_⟩
    obtain ⟨next, wire, sent, step⟩ := agrees sender receiver message start now
    rw [sent] at ran
    cases ran
    cases shown with
    | none => exact ih step (later reached none sent)
    | some wire =>
      obtain ⟨receiver', -, related'⟩ := step
      exact ih related' (later reached (some wire) sent)

end Lockstep

theorem everyStep_of_mem {allowed : μ → Prop} (sender : σ) {messages : List μ}
    (each : ∀ message ∈ messages, allowed message) :
    channel.EveryStep (fun _ message => allowed message) sender messages := by
  induction messages generalizing sender with
  | nil => trivial
  | cons message rest ih =>
    exact ⟨each message List.mem_cons_self, fun next _ _ =>
      ih next fun other later => each other (List.mem_cons_of_mem _ later)⟩

theorem everyStep_of_forall {allowed : σ → μ → Prop}
    (always : ∀ state message, allowed state message) (sender : σ) (messages : List μ) :
    channel.EveryStep allowed sender messages := by
  induction messages generalizing sender with
  | nil => trivial
  | cons message rest ih => exact ⟨always sender message, fun next _ _ => ih next⟩

end Channel

end Redemption.Foundation
