import Mathlib.Data.BitVec
import Mathlib.Logic.Function.Basic
import Redemption.Foundation.Machine

/-! Services that translate the ids of a source to those of a destination, which has ids of its
own. -/
namespace Redemption.Foundation

universe u v

/-- The id of the destination that one of the source is mapped to, and whose an id of the
destination is: that of the source, or the destination's own. -/
@[ext] structure Translation (ι : Type u) where
  forward : ι → Option ι
  backward : ι → Option (Option ι)

namespace Translation

variable {ι : Type u} [DecidableEq ι]

def Bijective (table : Translation ι) : Prop :=
  ∀ src dest, table.forward src = some dest ↔ table.backward dest = some (some src)

def map (table : Translation ι) (src dest : ι) : Translation ι :=
  ⟨Function.update table.forward src (some dest),
    Function.update table.backward dest (some (some src))⟩

def unmap (table : Translation ι) (src dest : ι) : Translation ι :=
  ⟨Function.update table.forward src none, Function.update table.backward dest none⟩

def reserve (table : Translation ι) (dest : ι) : Translation ι :=
  ⟨table.forward, Function.update table.backward dest (some none)⟩

def release (table : Translation ι) (dest : ι) : Translation ι :=
  ⟨table.forward, Function.update table.backward dest none⟩

variable {table : Translation ι} {src dest : ι}

@[simp] theorem map_forward :
    (table.map src dest).forward = Function.update table.forward src (some dest) := rfl

@[simp] theorem map_backward :
    (table.map src dest).backward = Function.update table.backward dest (some (some src)) := rfl

@[simp] theorem unmap_forward :
    (table.unmap src dest).forward = Function.update table.forward src none := rfl

@[simp] theorem unmap_backward :
    (table.unmap src dest).backward = Function.update table.backward dest none := rfl

theorem unmap_map (fresh : table.forward src = none) (free : table.backward dest = none) :
    (table.map src dest).unmap src dest = table := by
  apply Translation.ext
  · rw [unmap_forward, map_forward, Function.update_idem, ← fresh, Function.update_eq_self]
  · rw [unmap_backward, map_backward, Function.update_idem, ← free, Function.update_eq_self]

theorem release_reserve (free : table.backward dest = none) :
    (table.reserve dest).release dest = table := by
  rw [reserve, release, Function.update_idem, ← free, Function.update_eq_self]

theorem Bijective.map (bijective : table.Bijective) (fresh : table.forward src = none)
    (free : table.backward dest = none) : (table.map src dest).Bijective := by
  intro src' dest'
  have same := bijective src' dest'
  rw [map_forward, map_backward]
  rcases eq_or_ne src' src with rfl | other <;> rcases eq_or_ne dest' dest with rfl | other'
  · simp only [Function.update_self]
  · rw [fresh] at same
    simpa [other', other'.symm] using same
  · rw [free] at same
    simpa [other, other.symm] using same
  · rwa [Function.update_of_ne other, Function.update_of_ne other']

theorem Bijective.unmap (bijective : table.Bijective) (mapped : table.forward src = some dest) :
    (table.unmap src dest).Bijective := by
  intro src' dest'
  have same := bijective src' dest'
  rw [unmap_forward, unmap_backward]
  rcases eq_or_ne src' src with rfl | other <;> rcases eq_or_ne dest' dest with rfl | other'
  · simp only [Function.update_self, reduceCtorEq]
  · rw [mapped] at same
    simpa [other', other'.symm] using same
  · rw [(bijective src dest').mp mapped] at same
    simpa [other, other.symm] using same
  · rwa [Function.update_of_ne other, Function.update_of_ne other']

theorem Bijective.update (bijective : table.Bijective) {owner : Option (Option ι)}
    (unmapped : ∀ src, table.backward dest ≠ some (some src)) (own : ∀ src, owner ≠ some (some src)) :
    Bijective ⟨table.forward, Function.update table.backward dest owner⟩ := by
  intro src' dest'
  dsimp only
  rcases eq_or_ne dest' dest with rfl | other
  · rw [Function.update_self, bijective]
    exact iff_of_false (unmapped src') (own src')
  · rw [Function.update_of_ne other]
    exact bijective src' dest'

end Translation

/-- What a service is asked for: the id that one of the source is translated to, an id for the
destination itself, and to forget either. -/
inductive IdRequest (ι : Type u) where
  | translate (src : ι)
  | own
  | release (dest : ι)
  | unmap (src : ι)
  deriving DecidableEq, Repr

inductive IdReply (ι : Type u) where
  | id (dest : ι)
  | done
  | refused
  deriving DecidableEq, Repr

/-- A service: it gives no reply where it never comes to an end. Some ids are `kept`: they are
translated to themselves, in some services without a record. -/
structure IdService (ι : Type u) (σ : Type v) where
  machine : Machine σ (IdRequest ι) (Option (IdReply ι))
  view : σ → Translation ι
  isOwn : σ → ι → Option Bool
  kept : ι → Prop
  records : Prop

namespace IdService

variable {ι : Type u} {σ : Type v} [DecidableEq ι] (service : IdService ι σ)

/-- What a request does: an id is only handed to a new owner when it has none. -/
def Answers (before after : Translation ι) : IdRequest ι → Option (IdReply ι) → Prop
  | .translate src, some (.id dest) => (service.kept src → dest = src) ∧
    ((before.forward src = some dest ∨ service.kept src ∧ ¬service.records) ∧ after = before ∨
      (before.forward src = none ∧ before.backward dest = none) ∧ after = before.map src dest)
  | .own, some (.id dest) => before.backward dest = none ∧ after = before.reserve dest
  | .release dest, some .done => before.backward dest = some none ∧ after = before.release dest
  | .release dest, some .refused => before.backward dest ≠ some none ∧ after = before
  | .unmap src, some .done => ∃ dest, before.forward src = some dest ∧ after = before.unmap src dest
  | .unmap src, some .refused => before.forward src = none ∧ after = before
  | _, _ => False

/-- To forget what has just been registered leaves the translations as they were. -/
def Undoes (state : σ) : IdRequest ι → Prop
  | .translate src => (service.view state).forward src = none →
    service.view (service.machine.run state [.translate src, .unmap src]) = service.view state
  | .own => ∀ dest, service.machine.output state .own = some (.id dest) →
    service.view (service.machine.run state [.own, .release dest]) = service.view state
  | _ => True

/-- What holds in every state. -/
structure Sound (state : σ) : Prop where
  bijective : (service.view state).Bijective
  isOwn : ∀ dest, service.isOwn state dest = ((service.view state).backward dest).map Option.isNone
  kept : ∀ src dest, service.kept src → (service.view state).forward src = some dest → dest = src

/-- The translations stay bijective in a run, and every step answers. -/
structure Faithful (state : σ) (requests : List (IdRequest ι)) : Prop where
  steps : service.machine.EveryStep (fun state request =>
    service.Answers (service.view state) (service.view (service.machine.next state request))
      request (service.machine.output state request) ∧ service.Undoes state request) state requests
  sound : service.Sound (service.machine.run state requests)

variable {service}

theorem Answers.bijective {before after : Translation ι} {request : IdRequest ι}
    {reply : Option (IdReply ι)} (answers : service.Answers before after request reply)
    (bijective : before.Bijective) : after.Bijective := by
  match request, reply, answers with
  | .translate _, some (.id _), ⟨_, .inl ⟨_, same⟩⟩ => exact same ▸ bijective
  | .translate _, some (.id _), ⟨_, .inr ⟨fresh, same⟩⟩ =>
    exact same ▸ bijective.map fresh.1 fresh.2
  | .own, some (.id _), ⟨free, same⟩ =>
    exact same ▸ bijective.update (fun _ mapped => nomatch free.symm.trans mapped) nofun
  | .release _, some .done, ⟨own, same⟩ =>
    exact same ▸ bijective.update (fun _ mapped => nomatch own.symm.trans mapped) nofun
  | .release _, some .refused, ⟨_, same⟩ => exact same ▸ bijective
  | .unmap _, some .done, ⟨_, mapped, same⟩ => exact same ▸ bijective.unmap mapped
  | .unmap _, some .refused, ⟨_, same⟩ => exact same ▸ bijective

theorem Answers.kept {before after : Translation ι} {request : IdRequest ι}
    {reply : Option (IdReply ι)} (answers : service.Answers before after request reply)
    (kept : ∀ src dest, service.kept src → before.forward src = some dest → dest = src) :
    ∀ src dest, service.kept src → after.forward src = some dest → dest = src := by
  match request, reply, answers with
  | .translate _, some (.id _), ⟨_, .inl ⟨_, same⟩⟩ => exact same ▸ kept
  | .translate src, some (.id _), ⟨itself, .inr ⟨_, same⟩⟩ =>
    subst same
    intro src' dest' isKept mapped
    rcases eq_or_ne src' src with rfl | other
    · rw [Translation.map_forward, Function.update_self] at mapped
      exact Option.some.inj mapped ▸ itself isKept
    · rw [Translation.map_forward, Function.update_of_ne other] at mapped
      exact kept src' dest' isKept mapped
  | .own, some (.id _), ⟨_, same⟩ => exact same ▸ kept
  | .release _, some .done, ⟨_, same⟩ => exact same ▸ kept
  | .release _, some .refused, ⟨_, same⟩ => exact same ▸ kept
  | .unmap src, some .done, ⟨_, _, same⟩ =>
    subst same
    intro src' dest' isKept mapped
    rcases eq_or_ne src' src with rfl | other
    · rw [Translation.unmap_forward, Function.update_self] at mapped
      cases mapped
    · rw [Translation.unmap_forward, Function.update_of_ne other] at mapped
      exact kept src' dest' isKept mapped
  | .unmap _, some .refused, ⟨_, same⟩ => exact same ▸ kept

variable {allowed : σ → IdRequest ι → Prop} {invariant : σ → Prop}
  (keeps : ∀ state request, invariant state → allowed state request →
    invariant (service.machine.next state request))
  (answers : ∀ state request, invariant state → allowed state request →
    service.Answers (service.view state) (service.view (service.machine.next state request))
      request (service.machine.output state request))
  (release : ∀ state dest, allowed state (.release dest))
  (unmap : ∀ state src, allowed state (.unmap src))

include keeps answers release unmap

/-- What is registered is forgotten by a step that answers as well. -/
theorem undoes_of_answers {state : σ} {request : IdRequest ι}
    (holds : invariant state) (may : allowed state request) : service.Undoes state request := by
  have first := answers state request holds may
  have later := keeps state request holds may
  match request with
  | .release _ | .unmap _ => trivial
  | .own =>
    intro dest given
    have second := answers _ (.release dest) later (release _ dest)
    rw [given] at first
    rw [first.2] at second
    have own : ((service.view state).reserve dest).backward dest = some none :=
      Function.update_self ..
    rw [Machine.run_cons, Machine.run_cons, Machine.run_nil]
    match service.machine.output (service.machine.next state .own) (.release dest), second with
    | some .done, released => exact released.2.trans (Translation.release_reserve first.1)
    | some .refused, refused => exact absurd own refused.1
  | .translate src =>
    intro fresh
    have second := answers _ (.unmap src) later (unmap _ src)
    rw [Machine.run_cons, Machine.run_cons, Machine.run_nil]
    match service.machine.output state (.translate src), first with
    | some (.id dest), ⟨_, .inl ⟨mapped, same⟩⟩ =>
      rw [same] at second
      match service.machine.output (service.machine.next state (.translate src)) (.unmap src),
        second with
      | some .done, ⟨_, found, _⟩ => exact nomatch fresh.symm.trans found
      | some .refused, refused => exact refused.2
    | some (.id dest), ⟨_, .inr ⟨isFresh, same⟩⟩ =>
      rw [same] at second
      have now : ((service.view state).map src dest).forward src = some dest :=
        Function.update_self ..
      match service.machine.output (service.machine.next state (.translate src)) (.unmap src),
        second with
      | some .done, ⟨_, found, unmapped⟩ =>
        obtain rfl := Option.some.inj (now.symm.trans found)
        exact unmapped.trans (Translation.unmap_map isFresh.1 isFresh.2)
      | some .refused, refused => exact nomatch now.symm.trans refused.1

/-- A service whose allowed steps answer is faithful in every run of them. -/
theorem faithful_of_answers
    (isOwn : ∀ state dest,
      service.isOwn state dest = ((service.view state).backward dest).map Option.isNone)
    {state : σ} (holds : invariant state) (sound : service.Sound state)
    {requests : List (IdRequest ι)} (every : service.machine.EveryStep allowed state requests) :
    service.Faithful state requests where
  steps := Machine.everyStep_of_invariant keeps (fun state request inv may =>
    ⟨answers state request inv may, undoes_of_answers keeps answers release unmap inv may⟩)
    holds every
  sound := (Machine.invariant_run
    (show ∀ state request, invariant state ∧ service.Sound state → allowed state request →
        invariant (service.machine.next state request) ∧
          service.Sound (service.machine.next state request) from fun state request inv may => ⟨keeps state request inv.1 may,
      (answers state request inv.1 may).bijective inv.2.bijective, isOwn _,
      (answers state request inv.1 may).kept inv.2.kept⟩) ⟨holds, sound⟩ every).2

end IdService

section Search

variable {w : Nat} (good : BitVec w → Prop) [DecidablePred good]

/-- The first good id from `id` on, in so many turns. -/
def firstFrom : Nat → BitVec w → Option (BitVec w)
  | 0, _ => none
  | turns + 1, id => if good id then some id else firstFrom turns (id + 1)

theorem add_ofNat_succ (id : BitVec w) (steps : Nat) :
    id + BitVec.ofNat w (steps + 1) = id + 1 + BitVec.ofNat w steps := by
  rw [BitVec.ofNat_add, BitVec.add_comm (BitVec.ofNat w steps), ← BitVec.add_assoc]
  rfl

theorem add_ofNat_sub (id other : BitVec w) :
    id + BitVec.ofNat w (other - id).toNat = other := by
  rw [BitVec.ofNat_toNat, BitVec.setWidth_eq, BitVec.add_comm, BitVec.sub_add_cancel]

variable {good}

/-- Where there is a good id, one that is not further away is found. -/
theorem firstFrom_ofNat {turns distance : Nat} {id : BitVec w}
    (near : distance < turns) (fine : good (id + BitVec.ofNat w distance)) :
    ∃ steps ≤ distance, firstFrom good turns id = some (id + BitVec.ofNat w steps) ∧
      good (id + BitVec.ofNat w steps) := by
  induction turns generalizing id distance with
  | zero => omega
  | succ turns ih =>
    by_cases here : good id
    · refine ⟨0, Nat.zero_le _, ?_⟩
      rw [BitVec.add_zero]
      exact ⟨if_pos here, here⟩
    · cases distance with
      | zero => exact absurd (BitVec.add_zero id ▸ fine) here
      | succ distance =>
        rw [add_ofNat_succ] at fine
        obtain ⟨steps, close, found, isGood⟩ := ih (by omega) fine
        refine ⟨steps + 1, by omega, ?_⟩
        rw [add_ofNat_succ, firstFrom, if_neg here]
        exact ⟨found, isGood⟩

theorem firstFrom_some (id : BitVec w) {other : BitVec w} (fine : good other) :
    ∃ found, firstFrom good (2 ^ w) id = some found ∧ good found := by
  have there := add_ofNat_sub id other
  obtain ⟨steps, -, found⟩ := firstFrom_ofNat (other - id).isLt (there.symm ▸ fine)
  exact ⟨_, found⟩

/-- A search that comes to `id` last finds another one. -/
theorem firstFrom_next {id other : BitVec w} (fine : good other) (different : other ≠ id) :
    ∃ found, firstFrom good (2 ^ w) (id + 1) = some found ∧ good found ∧ found ≠ id := by
  have there := add_ofNat_sub id other
  cases distance : (other - id).toNat with
  | zero =>
    rw [distance, BitVec.add_zero] at there
    exact absurd there.symm different
  | succ distance' =>
    rw [distance, add_ofNat_succ] at there
    obtain ⟨steps, close, found, isGood⟩ := firstFrom_ofNat
      (show distance' < 2 ^ w by omega) (there.symm ▸ fine)
    refine ⟨_, found, isGood, fun same => ?_⟩
    rw [← add_ofNat_succ] at same
    have zero : BitVec.ofNat w (steps + 1) = 0 := by
      simpa using same
    have value := congrArg BitVec.toNat zero
    rw [BitVec.toNat_ofNat, Nat.mod_eq_of_lt (by omega)] at value
    exact absurd value (Nat.succ_ne_zero _)

end Search

end Redemption.Foundation
