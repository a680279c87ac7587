import Redemption.Foundation.Lz
import Redemption.Mppc.HashTable

/-! The greedy match search that all four bulk compressors run over the packet that
was just copied into their history. -/
namespace Redemption.Mppc

open Redemption.Foundation
open Redemption.Foundation.Lz

/-- The constants of one compressor's search. -/
structure MatchLimits where
  minimumMatchLength : Nat
  /-- Where the compressor has a longest match at all. -/
  maximumMatchLength : Option Nat
  deriving DecidableEq, Repr

/-- What one round of the search hands to the encoder. -/
inductive Found where
  | literal (value : Byte)
  | matched (ctr offset previousMatch lom : Nat)
  deriving DecidableEq, Repr

def Found.token : Found → Token Byte
  | .literal value => .literal value
  | .matched _ offset previousMatch lom => .copy (offset - previousMatch) lom

/-- An encoder's reaction to what was found; a thrown error keeps its output. -/
abbrev Emit (σ : Type) := Found → σ → Except (MppcFault × σ) σ

def emitAll {σ : Type} (emit : Emit σ) : List Found → σ → Except (MppcFault × σ) σ
  | [], out => .ok out
  | found :: rest, out =>
    match emit found out with
    | .error fault => .error fault
    | .ok next => emitAll emit rest next

variable {size : Nat}

/-- The positions that a search skips at the start of the history. -/
def updateFirst (limits : MatchLimits) (history : Buffer Byte size) (counter : Nat)
    (manager : HashTableManager) : Checked ErrorId HashTableManager :=
  (List.range counter).foldlM
    (fun manager index => manager.updateIndirect limits.minimumMatchLength history index) manager

/-- The loop on `lom`: each round hashes one more position before it compares. -/
def extendMatch (limits : MatchLimits) (history : Buffer Byte size)
    (dataSize ctr offset previousMatch : Nat) :
    Nat → Nat → HashTableManager → Checked ErrorId (Nat × HashTableManager)
  | 0, lom, manager => .ok (lom, manager)
  | fuel + 1, lom, manager =>
    if ctr + lom < dataSize ∧ limits.maximumMatchLength.all (lom < ·) then do
      let manager ← manager.updateIndirect limits.minimumMatchLength history (offset + lom - 1)
      let next ← history.load (offset + lom)
      let earlier ← history.load (previousMatch + lom)
      if next ≠ earlier then .ok (lom, manager)
      else extendMatch limits history dataSize ctr offset previousMatch fuel (lom + 1) manager
    else .ok (lom, manager)

/-- One round of the search at `ctr`; `shorten` is what the compressor does to a match. -/
def findMatch (limits : MatchLimits) (shorten : Nat → Nat) (history : Buffer Byte size)
    (historyOffset dataSize ctr : Nat) (manager : HashTableManager) :
    Checked ErrorId (Found × HashTableManager) := do
  let offset := historyOffset + ctr
  let data ← history.loadBlock offset limits.minimumMatchLength
  let hash := sign data
  let previousMatch := manager.getOffset hash
  let manager := manager.update hash offset
  let earlier ← history.loadBlock previousMatch limits.minimumMatchLength
  if data ≠ earlier then
    let value ← history.load offset
    return (.literal value, manager)
  else
    let manager ← manager.updateIndirect limits.minimumMatchLength history (offset + 1)
    let (lom, manager) ← extendMatch limits history dataSize ctr offset previousMatch
      dataSize limits.minimumMatchLength manager
    return (.matched ctr offset previousMatch (shorten lom), manager)

/-- How far `ctr` moves on. -/
def Found.advance : Found → Nat
  | .literal _ => 1
  | .matched _ _ _ lom => lom

/-- The main loop of a compressor. An error leaves the hash table as it is then. -/
def scan {σ : Type} (limits : MatchLimits) (shorten : Nat → Nat) (emit : Emit σ)
    (history : Buffer Byte size) (historyOffset dataSize : Nat) :
    Nat → Nat → HashTableManager → σ →
      Except (MppcFault × HashTableManager × σ) (Nat × HashTableManager × σ)
  | 0, ctr, manager, out => .ok (ctr, manager, out)
  | fuel + 1, ctr, manager, out =>
    if ctr + (limits.minimumMatchLength - 1) < dataSize then
      match findMatch limits shorten history historyOffset dataSize ctr manager with
      | .error fault => .error (fault, manager, out)
      | .ok (found, manager) =>
        match emit found out with
        | .error (fault, out) => .error (fault, manager, out)
        | .ok out =>
          scan limits shorten emit history historyOffset dataSize fuel (ctr + found.advance)
            manager out
    else .ok (ctr, manager, out)

end Redemption.Mppc

/-! What a search can find: every round is a literal of the text or a match with
earlier text, and the hash table keeps to positions already passed. -/
namespace Redemption.Mppc

open Redemption.Foundation
open Redemption.Foundation.Lz
open HashTableManager

variable {size : Nat}

/-- A round at `ctr` either copies out one byte or has compared a whole match. -/
inductive FoundAt (limits : MatchLimits) (shorten : Nat → Nat) (history : Buffer Byte size)
    (historyOffset dataSize ctr : Nat) : Found → Prop where
  | literal : FoundAt limits shorten history historyOffset dataSize ctr
      (.literal (history.cell (historyOffset + ctr)))
  | matched {previousMatch lom} (earlier : previousMatch < historyOffset + ctr)
      (long : limits.minimumMatchLength ≤ lom) (inside : ctr + lom ≤ dataSize)
      (short : ∀ longest, limits.maximumMatchLength = some longest → lom ≤ longest)
      (same : ∀ index < lom, history.cell (previousMatch + index) =
        history.cell (historyOffset + ctr + index)) :
      FoundAt limits shorten history historyOffset dataSize ctr
        (.matched ctr (historyOffset + ctr) previousMatch (shorten lom))

/-- The rounds of a search, from `ctr` to where it stops. -/
inductive Scanned (limits : MatchLimits) (shorten : Nat → Nat) (history : Buffer Byte size)
    (historyOffset dataSize : Nat) : Nat → Nat → List Found → Prop where
  | stop {ctr} (done : dataSize ≤ ctr + (limits.minimumMatchLength - 1)) :
      Scanned limits shorten history historyOffset dataSize ctr ctr []
  | round {ctr finish found rest} (more : ctr + (limits.minimumMatchLength - 1) < dataSize)
      (here : FoundAt limits shorten history historyOffset dataSize ctr found)
      (tail : Scanned limits shorten history historyOffset dataSize (ctr + found.advance)
        finish rest) :
      Scanned limits shorten history historyOffset dataSize ctr finish (found :: rest)

/-- What holds of a compressor's search before it starts. -/
structure SearchRoom (limits : MatchLimits) (shorten : Nat → Nat)
    (size historyOffset dataSize : Nat) : Prop where
  minimum : 3 ≤ limits.minimumMatchLength
  longest : ∀ longest, limits.maximumMatchLength = some longest →
    limits.minimumMatchLength ≤ longest
  room : historyOffset + dataSize + limits.minimumMatchLength ≤ size + 2
  shortens : ∀ lom, shorten lom = lom ∨ shorten lom = lom - 1 ∧ lom = dataSize

section Search

variable {limits : MatchLimits} {shorten : Nat → Nat} {history : Buffer Byte size}
  {historyOffset dataSize : Nat}

/-- `lom` bytes at the two positions are known to agree. -/
private structure Agreeing (limits : MatchLimits) (history : Buffer Byte size)
    (dataSize ctr offset previousMatch lom : Nat) : Prop where
  long : limits.minimumMatchLength ≤ lom
  inside : ctr + lom ≤ dataSize
  short : ∀ longest, limits.maximumMatchLength = some longest → lom ≤ longest
  same : ∀ index < lom, history.cell (previousMatch + index) = history.cell (offset + index)

private theorem Agreeing.next {ctr offset previousMatch lom : Nat}
    (agreeing : Agreeing limits history dataSize ctr offset previousMatch lom)
    (more : ctr + lom < dataSize) (shorter : limits.maximumMatchLength.all (lom < ·) = true)
    (equal : history.cell (previousMatch + lom) = history.cell (offset + lom)) :
    Agreeing limits history dataSize ctr offset previousMatch (lom + 1) := by
  have long := agreeing.long
  refine ⟨by omega, by omega, ?_, ?_⟩
  · intro longest found
    have below : lom < longest := by simpa [found] using shorter
    omega
  · intro index bounded
    by_cases last : index = lom
    · subst last
      exact equal
    · exact agreeing.same index (by omega)

theorem updateIndirect_eq (minimum : Nat) (manager : HashTableManager) {offset : Nat}
    (room : offset + minimum ≤ size) :
    manager.updateIndirect minimum history offset =
      .ok (manager.update (sign (history.slice offset minimum)) offset) := by
  simp [updateIndirect, Buffer.loadBlock_of_le _ room]

variable {base : BitVec 16 → Nat}

private theorem updateEach_run (limits : MatchLimits) (history : Buffer Byte size) {bound : Nat}
    (room : bound + limits.minimumMatchLength ≤ size + 1)
    (positions : List Nat) (early : ∀ index ∈ positions, index < bound)
    (manager : HashTableManager) (below : manager.Below bound) (undoes : manager.Undoes base) :
    ∃ manager', positions.foldlM (fun manager index =>
        manager.updateIndirect limits.minimumMatchLength history index) manager = .ok manager' ∧
      manager'.Below bound ∧ manager'.Undoes base := by
  induction positions generalizing manager with
  | nil => exact ⟨manager, rfl, below, undoes⟩
  | cons position rest ih =>
    have here := early position List.mem_cons_self
    rw [List.foldlM_cons, updateIndirect_eq limits.minimumMatchLength manager (by omega), ok_bind]
    exact ih (fun index member => early index (List.mem_cons_of_mem _ member)) _
      (below.update _ here) (undoes.update _ _)

theorem updateFirst_run (limits : MatchLimits) (history : Buffer Byte size) {counter : Nat}
    (room : counter + limits.minimumMatchLength ≤ size + 1)
    {manager : HashTableManager} (below : manager.Below counter) (undoes : manager.Undoes base) :
    ∃ manager', updateFirst limits history counter manager = .ok manager' ∧
      manager'.Below counter ∧ manager'.Undoes base :=
  updateEach_run limits history room _ (fun _ member => List.mem_range.mp member) manager below
    undoes

private theorem extendMatch_run (ready : SearchRoom limits shorten size historyOffset dataSize)
    {ctr previousMatch : Nat}
    (earlier : previousMatch < historyOffset + ctr) (fuel lom : Nat)
    (manager : HashTableManager)
    (agreeing : Agreeing limits history dataSize ctr (historyOffset + ctr) previousMatch lom)
    (below : manager.Below (historyOffset + ctr + lom - 1)) (undoes : manager.Undoes base) :
    ∃ lom' manager', extendMatch limits history dataSize ctr (historyOffset + ctr)
        previousMatch fuel lom manager = .ok (lom', manager') ∧
      Agreeing limits history dataSize ctr (historyOffset + ctr) previousMatch lom' ∧
      manager'.Below (historyOffset + ctr + lom') ∧
      (ctr + lom' = dataSize → manager'.Below (historyOffset + ctr + lom' - 1)) ∧
      manager'.Undoes base := by
  induction fuel generalizing lom manager with
  | zero => exact ⟨lom, manager, rfl, agreeing, below.mono (by omega), fun _ => below, undoes⟩
  | succ fuel ih =>
    unfold extendMatch
    split
    · rename_i going
      obtain ⟨more, shorter⟩ := going
      have minimum := ready.minimum
      have room := ready.room
      rw [updateIndirect_eq limits.minimumMatchLength manager (by omega), ok_bind,
        Buffer.load_of_lt history (by omega), ok_bind, Buffer.load_of_lt history (by omega),
        ok_bind]
      have hashed : (manager.update
          (sign (history.slice (historyOffset + ctr + lom - 1) limits.minimumMatchLength))
          (historyOffset + ctr + lom - 1)).Below (historyOffset + ctr + lom) :=
        (below.mono (by omega)).update _ (by omega)
      split
      · exact ⟨lom, _, rfl, agreeing, hashed, fun atEnd => by omega, undoes.update _ _⟩
      · rename_i equal
        have equal := (not_not.mp equal).symm
        exact ih (lom + 1) _ (agreeing.next more shorter equal)
          (hashed.mono (by omega)) (undoes.update _ _)
    · exact ⟨lom, manager, rfl, agreeing, below.mono (by omega), fun _ => below, undoes⟩

/-- One round finds something that is really there, and keeps the table in order. -/
theorem findMatch_run (history : Buffer Byte size)
    (ready : SearchRoom limits shorten size historyOffset dataSize) {ctr : Nat} (started : 0 < historyOffset + ctr)
    (more : ctr + (limits.minimumMatchLength - 1) < dataSize) (manager : HashTableManager)
    (below : manager.Below (historyOffset + ctr)) (undoes : manager.Undoes base) :
    ∃ found manager', findMatch limits shorten history historyOffset dataSize ctr manager =
        .ok (found, manager') ∧
      FoundAt limits shorten history historyOffset dataSize ctr found ∧
      manager'.Below (historyOffset + (ctr + found.advance)) ∧ manager'.Undoes base := by
  have minimum := ready.minimum
  have room := ready.room
  let data := history.slice (historyOffset + ctr) limits.minimumMatchLength
  let previousMatch := manager.getOffset (sign data)
  have earlier : previousMatch < historyOffset + ctr := below (sign data)
  have updated : (manager.update (sign data) (historyOffset + ctr)).Below
      (historyOffset + ctr + 1) := (below.mono (by omega)).update _ (by omega)
  unfold findMatch
  simp only [Buffer.loadBlock_of_le history
    (show historyOffset + ctr + limits.minimumMatchLength ≤ size by omega), ok_bind]
  rw [Buffer.loadBlock_of_le history
    (show previousMatch + limits.minimumMatchLength ≤ size by omega), ok_bind]
  split
  · rw [Buffer.load_of_lt history (by omega), ok_bind]
    exact ⟨_, _, rfl, .literal, updated, undoes.update _ _⟩
  · rename_i equal
    have equal := (Buffer.slice_eq_slice_iff history history _ _ _).mp (not_not.mp equal)
    rw [updateIndirect_eq limits.minimumMatchLength _ (by omega), ok_bind]
    have agreeing : Agreeing limits history dataSize ctr (historyOffset + ctr) previousMatch
        limits.minimumMatchLength :=
      ⟨Nat.le_refl _, by omega, ready.longest, fun index bounded => (equal index bounded).symm⟩
    have seconded : ((manager.update (sign data) (historyOffset + ctr)).update
        (sign (history.slice (historyOffset + ctr + 1) limits.minimumMatchLength))
        (historyOffset + ctr + 1)).Below
          (historyOffset + ctr + limits.minimumMatchLength - 1) :=
      (updated.mono (by omega)).update _ (by omega)
    obtain ⟨lom, manager', extended, agreed, reached, tight, undoes'⟩ :=
      extendMatch_run ready earlier dataSize limits.minimumMatchLength _ agreeing
        seconded ((undoes.update _ _).update _ _)
    rw [extended, ok_bind]
    refine ⟨_, manager', rfl,
      .matched earlier agreed.long agreed.inside agreed.short agreed.same, ?_, undoes'⟩
    rcases ready.shortens lom with whole | ⟨cut, all⟩
    · simpa [Found.advance, whole, Nat.add_assoc] using reached
    · have inside := agreed.inside
      have atEnd := tight (by omega)
      simp only [Found.advance, cut]
      exact atEnd.mono (by omega)

theorem FoundAt.advance_pos (ready : SearchRoom limits shorten size historyOffset dataSize)
    {ctr : Nat} {found : Found}
    (at' : FoundAt limits shorten history historyOffset dataSize ctr found) :
    0 < found.advance := by
  have minimum := ready.minimum
  cases at' with
  | literal => exact Nat.one_pos
  | @matched previousMatch lom _ long _ _ _ =>
    rcases ready.shortens lom with whole | ⟨cut, _⟩
    · simp only [Found.advance, whole]
      omega
    · simp only [Found.advance, cut]
      omega

/-- A whole search: what it finds, and how an encoder that reacts to it fares. -/
theorem scan_run (history : Buffer Byte size)
    (ready : SearchRoom limits shorten size historyOffset dataSize) (fuel ctr : Nat) (enough : dataSize ≤ ctr + fuel)
    (started : 0 < historyOffset + ctr) (manager : HashTableManager)
    (below : manager.Below (historyOffset + ctr)) (undoes : manager.Undoes base) :
    ∃ rounds finish manager',
      Scanned limits shorten history historyOffset dataSize ctr finish rounds ∧
      manager'.Below (historyOffset + finish) ∧ manager'.Undoes base ∧
      ∀ {σ : Type} (emit : Emit σ) (out : σ),
        match emitAll emit rounds out with
        | .ok out' => scan limits shorten emit history historyOffset dataSize fuel ctr manager
            out = .ok (finish, manager', out')
        | .error (fault, out') => ∃ stopped : HashTableManager, stopped.Undoes base ∧
            scan limits shorten emit history historyOffset dataSize fuel ctr manager out =
              .error (fault, stopped, out') := by
  induction fuel generalizing ctr manager with
  | zero => exact ⟨[], ctr, manager, .stop (by omega), below, undoes, fun emit out => rfl⟩
  | succ fuel ih =>
    by_cases more : ctr + (limits.minimumMatchLength - 1) < dataSize
    · obtain ⟨found, manager₁, run, here, below₁, undoes₁⟩ :=
        findMatch_run history ready started more manager below undoes
      have moved := here.advance_pos ready
      obtain ⟨rounds, finish, manager', tail, below', undoes', reacts⟩ :=
        ih (ctr + found.advance) (by omega) (by omega) manager₁ below₁ undoes₁
      refine ⟨found :: rounds, finish, manager', .round more here tail, below', undoes', ?_⟩
      intro σ emit out
      simp only [emitAll, scan, more, if_true, run]
      cases reaction : emit found out with
      | error fault => exact ⟨manager₁, undoes₁, rfl⟩
      | ok next => exact reacts emit next
    · refine ⟨[], ctr, manager, .stop (by omega), below, undoes, fun emit out => ?_⟩
      simp [emitAll, scan, more]

private theorem shorten_le (ready : SearchRoom limits shorten size historyOffset dataSize)
    (lom : Nat) : shorten lom ≤ lom := by
  rcases ready.shortens lom with whole | ⟨cut, _⟩ <;> omega

theorem Scanned.finish_le (ready : SearchRoom limits shorten size historyOffset dataSize)
    {ctr finish : Nat} {rounds : List Found}
    (scanned : Scanned limits shorten history historyOffset dataSize ctr finish rounds)
    (start : ctr ≤ dataSize) : finish ≤ dataSize := by
  induction scanned with
  | stop _ => exact start
  | round more here _ ih =>
    apply ih
    cases here with
    | literal =>
      simp only [Found.advance]
      omega
    | @matched previousMatch lom _ _ inside _ _ =>
      have := shorten_le ready lom
      simp only [Found.advance]
      omega

/-- The rounds of a search spell the part of the history that they ran over. -/
theorem Scanned.parses (ready : SearchRoom limits shorten size historyOffset dataSize)
    {ctr finish : Nat} {rounds : List Found}
    (scanned : Scanned limits shorten history historyOffset dataSize ctr finish rounds) :
    Parses history.cell (historyOffset + ctr) (historyOffset + finish)
      (rounds.map Found.token) := by
  induction scanned with
  | stop _ => exact .done
  | round _ here _ ih =>
    cases here with
    | literal => exact .literal ih
    | @matched previousMatch lom earlier _ _ _ same =>
      have shorter := shorten_le ready lom
      refine .copy (by omega) (by omega) (fun index bounded => ?_) ?_
      · rw [← same index (by omega)]
        congr 1
        omega
      · simpa [Found.advance, Nat.add_assoc] using ih

/-- Literals, what a search has found, and literals again spell a packet that is in the history. -/
theorem Scanned.packet_parses {data first : List Byte} {finish : Nat} {rounds : List Found}
    (ready : SearchRoom limits shorten size historyOffset data.length)
    (scanned : Scanned limits shorten history historyOffset data.length first.length finish rounds)
    (spelled : first = history.slice historyOffset first.length)
    (text : ∀ index (bounded : index < data.length),
      history.cell (historyOffset + index) = data[index])
    (stopped : finish ≤ data.length) :
    Parses history.cell historyOffset (historyOffset + data.length)
      (first.map .literal ++ rounds.map Found.token ++ (data.drop finish).map .literal) := by
  have front : Parses history.cell historyOffset (historyOffset + first.length)
      (first.map .literal) := by
    apply Parses.literals
    intro index bounded
    have cell := List.getElem_of_eq spelled bounded
    rw [cell, Buffer.getElem_slice]
  have back : Parses history.cell (historyOffset + finish) (historyOffset + data.length)
      ((data.drop finish).map .literal) := by
    have total : historyOffset + data.length =
        historyOffset + finish + (data.drop finish).length := by
      rw [List.length_drop]
      omega
    rw [total]
    apply Parses.literals
    intro index bounded
    rw [List.getElem_drop, ← text _ (by omega), Nat.add_assoc]
  exact (front.append (scanned.parses ready)).append back

theorem packet_valid {valid : Token Byte → Prop} {first last : List Byte} {rounds : List Found}
    (literal : ∀ byte, valid (.literal byte)) (each : ∀ found ∈ rounds, valid found.token) :
    ∀ token ∈ first.map .literal ++ rounds.map Found.token ++ last.map .literal, valid token := by
  simp only [List.forall_mem_append, List.forall_mem_map]
  exact ⟨⟨fun byte _ => literal byte, each⟩, fun byte _ => literal byte⟩

end Search

end Redemption.Mppc
