import Redemption.Capture.PatternCompilation
import Mathlib.Data.List.Nodup

/-! What a `PatternSearcher` reports, call after call. -/
namespace Redemption.Capture.PatternSearcher

open Foundation

/-- The ids stand for the entries of the legend. -/
structure Carries (d : PatternSearcher) (legend : Legend) : Prop where
  nbPattern : d.nbPattern = legend.length
  db : d.db = some legend.expressions ∨ d.db = none ∧ legend = []
  texts : ∀ (id : Nat) (entry : CapturePattern × Bool), legend[id]? = some entry →
    ∃ result : InternalPatternFound, d.internal[id]? = some result ∧ result.pattern = entry.1.pattern
  kills : legend.BoundedBy d.nbPatternKill

/-- What holds between two calls. -/
structure Keeps (d : PatternSearcher) (legend : Legend) (calls : Nat) : Prop
    extends Carries d legend where
  capacity : d.internal.length = d.capacity
  room : legend.length ≤ d.capacity
  streams : d.streams.length = if d.isKbd then legend.length else 0
  nbCall : d.nbCall = BitVec.ofNat 64 calls
  earlier : ∀ result ∈ d.internal, result.callId.toNat ≤ calls
  offsets : ∀ (id : Nat) (stream : List Byte) (result : InternalPatternFound),
    d.streams[id]? = some stream → d.internal[id]? = some result →
    result.offsetData + BitVec.ofNat 64 stream.length = d.totalLen

/-- The data a pattern is searched behind: what was typed since its last reset. -/
def stream (d : PatternSearcher) (id : Nat) : List Byte := d.streams.getD id []

/-- Data the library takes, in which no match goes back beyond its horizon. -/
structure Scannable (hs : Hyperscan) (d : PatternSearcher) (str : List Byte) : Prop where
  size : str.length < 2 ^ 32
  near : ∀ (id : Nat) (stream : List Byte), d.streams[id]? = some stream → ∀ hit ∈ d.hits hs stream str,
    hit.id = id → hit.stop - hit.start ≤ 2 ^ 16

/-- The results of a scan: each pattern that matches, once, under its own text and status. -/
structure Reports (hs : Hyperscan) (Matches : List Byte → List Byte → List Byte → Prop)
    (d : PatternSearcher) (legend : Legend) (str : List Byte) (found : List PatternFound) :
    Prop where
  once : (found.map (·.id)).Nodup
  matching : ∀ id : Nat, id ∈ found.map (·.id) ↔ ∃ entry, legend[id]? = some entry ∧
    Matches entry.1.expression (d.stream id) str
  meanings : ∀ patt ∈ found, ∃ entry, legend[patt.id]? = some entry ∧
    patt.pattern = entry.1.pattern ∧ patt.isPatternKill = entry.2
  lengths : d.isKbd = true → ∀ patt ∈ found,
    ∃ hit, ((d.hits hs (d.stream patt.id) str).filter (·.id = patt.id)).head? = some hit ∧
      patt.matchLen = BitVec.ofNat 64 ((d.stream patt.id ++ str).length - hit.start)

section Gather

variable (hs : Hyperscan) (d : PatternSearcher) (callId : BitVec 64)
  (before : List InternalPatternFound)

/-- The context once the callback has seen these matches. -/
structure Gathered (seen : List Hit) (ctx : Ctx) : Prop where
  once : (ctx.scanResults.map (·.id)).Nodup
  ids : ∀ id, id ∈ ctx.scanResults.map (·.id) ↔ id ∈ seen.map (·.id)
  entries : ∀ patt ∈ ctx.scanResults, ∃ result hit, before[patt.id]? = some result ∧
    (seen.filter (·.id = patt.id)).head? = some hit ∧
    patt = ⟨result.pattern, patt.id, patt.id < d.nbPatternKill, hs.som hit⟩
  internal : ∀ id, ctx.internal[id]? = before[id]?.map fun result =>
    if id ∈ seen.map (·.id) then { result with callId := callId } else result

theorem gathered_nil : Gathered hs d callId before [] ⟨[], before⟩ where
  once := List.nodup_nil
  ids id := Iff.rfl
  entries patt member := absurd member List.not_mem_nil
  internal id := by simp

theorem length_le_of_nodup {ids : List Nat} {bound : Nat} (once : ids.Nodup)
    (inside : ∀ id ∈ ids, id < bound) : ids.length ≤ bound := by
  have within : ids ⊆ List.range bound := fun id member => List.mem_range.mpr (inside id member)
  simpa using (List.subperm_of_subset once within).length_le

variable {hs d callId before} {seen : List Hit} {ctx : Ctx}

theorem Gathered.again (gathered : Gathered hs d callId before seen ctx) {hit : Hit}
    (known : hit.id ∈ seen.map (·.id)) : Gathered hs d callId before (seen ++ [hit]) ctx where
  once := gathered.once
  ids id := by
    rw [gathered.ids, List.map_append, List.mem_append, List.map_singleton, List.mem_singleton]
    constructor
    · exact Or.inl
    · rintro (old | rfl)
      · exact old
      · exact known
  entries patt member := by
    obtain ⟨result, first, stored, found, same⟩ := gathered.entries patt member
    refine ⟨result, first, stored, ?_, same⟩
    rw [List.filter_append, List.head?_append, found, Option.some_or]
  internal id := by
    rw [gathered.internal]
    congr 1
    funext result
    have same : id ∈ (seen ++ [hit]).map (·.id) ↔ id ∈ seen.map (·.id) := by
      simp only [List.map_append, List.mem_append, List.map_singleton, List.mem_singleton]
      constructor
      · rintro (old | rfl)
        · exact old
        · exact known
      · exact Or.inl
    simp only [same]

theorem Gathered.ids_lt (gathered : Gathered hs d callId before seen ctx) :
    ∀ id ∈ ctx.scanResults.map (·.id), id < before.length := by
  intro id member
  obtain ⟨patt, reported, rfl⟩ := List.mem_map.mp member
  obtain ⟨_, _, stored, _⟩ := gathered.entries patt reported
  exact (List.getElem?_eq_some_iff.mp stored).1

theorem Gathered.first (gathered : Gathered hs d callId before seen ctx) {hit : Hit}
    {result : InternalPatternFound} (stored : before[hit.id]? = some result)
    (new : hit.id ∉ seen.map (·.id)) :
    Gathered hs d callId before (seen ++ [hit]) {
      scanResults := ctx.scanResults ++
        [⟨result.pattern, hit.id, hit.id < d.nbPatternKill, hs.som hit⟩]
      internal := ctx.internal.set hit.id { result with callId := callId } } where
  once := by
    rw [List.map_append, List.nodup_append]
    refine ⟨gathered.once, by simp, ?_⟩
    rintro id member _ (_ | ⟨_, ⟨⟩⟩) rfl
    exact new ((gathered.ids _).mp member)
  ids id := by
    simp only [List.map_append, List.mem_append, gathered.ids, List.map_singleton]
  entries patt member := by
    rcases List.mem_append.mp member with old | last
    · obtain ⟨result, first, stored, found, same⟩ := gathered.entries patt old
      refine ⟨result, first, stored, ?_, same⟩
      rw [List.filter_append, List.head?_append, found, Option.some_or]
    · obtain rfl := List.mem_singleton.mp last
      refine ⟨result, hit, stored, ?_, rfl⟩
      have none : seen.filter (·.id = hit.id) = [] := by
        refine List.filter_eq_nil_iff.mpr fun other member same => new ?_
        exact List.mem_map.mpr ⟨other, member, by simpa using same⟩
      rw [List.filter_append, none]
      simp
  internal id := by
    rw [List.getElem?_set]
    have length : hit.id < ctx.internal.length := by
      have there := gathered.internal hit.id
      rw [stored] at there
      exact (List.getElem?_eq_some_iff.mp there).1
    by_cases here : hit.id = id
    · subst here
      rw [if_pos rfl, if_pos length, stored]
      simp
    · rw [if_neg here, gathered.internal]
      congr 1
      funext result
      have same : id ∈ (seen ++ [hit]).map (·.id) ↔ id ∈ seen.map (·.id) := by
        simp [Ne.symm here]
      simp only [same]

variable (fresh : ∀ result ∈ before, result.callId ≠ callId) (capacity : before.length = d.capacity)
include fresh capacity

theorem Gathered.matcher (gathered : Gathered hs d callId before seen ctx)
    (streamId : Option Nat) {hit : Hit} (inside : hit.id < before.length) :
    ∃ after, PatternSearcher.matcher hs d callId streamId ctx hit = .ok after ∧
      Gathered hs d callId before
        (seen ++ [hit].filter fun hit => !skips streamId hit) after := by
  unfold PatternSearcher.matcher
  by_cases other : skips streamId hit = true
  · refine ⟨ctx, if_pos other, ?_⟩
    simpa [other] using gathered
  · have own : [hit].filter (fun hit => !skips streamId hit) = [hit] := by
      simp [other]
    have stored := List.getElem?_eq_getElem inside
    have cached := gathered.internal hit.id
    rw [stored, Option.map_some] at cached
    rw [if_neg other, own, cached]
    by_cases known : hit.id ∈ seen.map (·.id)
    · rw [if_pos known]
      exact ⟨ctx, if_pos rfl, gathered.again known⟩
    · rw [if_neg known]
      have room : ctx.scanResults.length < d.capacity := by
        have all : (hit.id :: ctx.scanResults.map (·.id)).Nodup :=
          List.nodup_cons.mpr ⟨fun old => known ((gathered.ids _).mp old), gathered.once⟩
        have bounded : ∀ id ∈ hit.id :: ctx.scanResults.map (·.id), id < before.length :=
          List.forall_mem_cons.mpr ⟨inside, gathered.ids_lt⟩
        have most := length_le_of_nodup all bounded
        rw [List.length_cons, List.length_map, capacity] at most
        exact most
      refine ⟨_, ?_, gathered.first stored known⟩
      simp only [fresh _ (List.getElem_mem inside), if_false, room, if_true]

theorem Gathered.foldlM (streamId : Option Nat) (hits : List Hit)
    (inside : ∀ hit ∈ hits, hit.id < before.length)
    (gathered : Gathered hs d callId before seen ctx) :
    ∃ after, hits.foldlM (PatternSearcher.matcher hs d callId streamId) ctx = .ok after ∧
      Gathered hs d callId before
        (seen ++ hits.filter fun hit => !skips streamId hit) after := by
  induction hits generalizing seen ctx with
  | nil => exact ⟨ctx, rfl, by simpa using gathered⟩
  | cons hit hits ih =>
    obtain ⟨next, called, gathered⟩ :=
      gathered.matcher fresh capacity streamId (inside hit List.mem_cons_self)
    obtain ⟨after, done, gathered⟩ :=
      ih (fun hit member => inside hit (List.mem_cons_of_mem _ member)) gathered
    refine ⟨after, ?_, ?_⟩
    · rw [List.foldlM_cons, called, ok_bind, done]
    · rw [List.append_assoc, ← List.filter_append] at gathered
      exact gathered

/-- The matches that the streams report under their own ids. -/
def streamHits (hs : Hyperscan) (d : PatternSearcher) (str : List Byte) :
    Nat → List (List Byte) → List Hit
  | _, [] => []
  | streamId, stream :: rest =>
    (d.hits hs stream str).filter (·.id = streamId) ++ streamHits hs d str (streamId + 1) rest

theorem Gathered.scanStreams (str : List Byte) (streams : List (List Byte)) (streamId : Nat)
    (inside : ∀ stream ∈ streams, ∀ hit ∈ d.hits hs stream str, hit.id < before.length)
    (gathered : Gathered hs d callId before seen ctx) :
    ∃ after, PatternSearcher.scanStreams hs d callId str streamId streams ctx = .ok after ∧
      Gathered hs d callId before (seen ++ streamHits hs d str streamId streams) after := by
  induction streams generalizing streamId seen ctx with
  | nil => exact ⟨ctx, rfl, by simpa [streamHits] using gathered⟩
  | cons stream streams ih =>
    obtain ⟨next, called, gathered⟩ := gathered.foldlM fresh capacity (some streamId)
      (d.hits hs stream str) (inside stream List.mem_cons_self)
    obtain ⟨after, done, gathered⟩ := ih (streamId + 1)
      (fun stream member => inside stream (List.mem_cons_of_mem _ member)) gathered
    refine ⟨after, ?_, ?_⟩
    · rw [PatternSearcher.scanStreams, called]
      exact done
    · have own : (fun hit => !skips (some streamId) hit) =
          fun hit : Hit => decide (hit.id = streamId) := by
        funext hit
        by_cases same : hit.id = streamId <;> simp [skips, same]
      rw [own, List.append_assoc] at gathered
      exact gathered

end Gather

theorem filter_streamHits (hs : Hyperscan) (d : PatternSearcher) (str : List Byte)
    (streams : List (List Byte)) (streamId id : Nat) :
    (streamHits hs d str streamId streams).filter (·.id = id) =
      if streamId ≤ id then
        match streams[id - streamId]? with
        | none => []
        | some stream => (d.hits hs stream str).filter (·.id = id)
      else [] := by
  induction streams generalizing streamId with
  | nil => simp [streamHits]
  | cons stream streams ih =>
    rw [streamHits, List.filter_append, ih, List.filter_filter]
    rcases Nat.lt_trichotomy id streamId with before | rfl | behind
    · rw [if_neg (by omega), if_neg (by omega), List.append_nil]
      refine List.filter_eq_nil_iff.mpr fun hit _ both => ?_
      simp only [Bool.and_eq_true, decide_eq_true_eq] at both
      omega
    · simp
    · have none : (d.hits hs stream str).filter
          (fun hit => decide (hit.id = id) && decide (hit.id = streamId)) = [] := by
        refine List.filter_eq_nil_iff.mpr fun hit _ both => ?_
        simp only [Bool.and_eq_true, decide_eq_true_eq] at both
        omega
      rw [none, List.nil_append, if_pos (by omega), if_pos (by omega),
        show id - streamId = id - (streamId + 1) + 1 by omega, List.getElem?_cons_succ]

theorem head?_streamHits {hs : Hyperscan} {d : PatternSearcher} {str : List Byte}
    {streams : List (List Byte)} {id : Nat} {hit : Hit}
    (first : ((streamHits hs d str 0 streams).filter (·.id = id)).head? = some hit) :
    ∃ stream, streams[id]? = some stream ∧
      ((d.hits hs stream str).filter (·.id = id)).head? = some hit := by
  rw [filter_streamHits, if_pos (Nat.zero_le _), Nat.sub_zero] at first
  cases stored : streams[id]? with
  | none =>
    rw [stored] at first
    cases first
  | some stream =>
    rw [stored] at first
    exact ⟨stream, rfl, first⟩

theorem mem_streamHits {hs : Hyperscan} {d : PatternSearcher} {str : List Byte}
    {streams : List (List Byte)} {id : Nat} :
    id ∈ (streamHits hs d str 0 streams).map (·.id) ↔
      ∃ stream, streams[id]? = some stream ∧ ∃ hit ∈ d.hits hs stream str, hit.id = id := by
  have own (hits : List Hit) :
      (∃ hit ∈ hits, hit.id = id) ↔ ∃ hit, hit ∈ hits.filter (·.id = id) := by
    simp
  rw [List.mem_map, own, filter_streamHits, if_pos (Nat.zero_le _), Nat.sub_zero]
  cases streams[id]? with
  | none => simp
  | some stream => simp

section Finish

/-- What the loop over the results makes of one. -/
def finished (totalLen : BitVec 64) (internal : List InternalPatternFound) (patt : PatternFound) :
    PatternFound :=
  { patt with
    matchLen := totalLen - (patt.matchLen + ((internal[patt.id]?).map (·.offsetData)).getD 0) }

theorem finishStreams_ok (totalLen : BitVec 64) (results : List PatternFound)
    (streams : List (List Byte)) (internal : List InternalPatternFound)
    (once : (results.map (·.id)).Nodup)
    (inside : ∀ patt ∈ results, patt.id < streams.length ∧ patt.id < internal.length) :
    ∃ streams' internal', finishStreams totalLen results streams internal =
        .ok (results.map (finished totalLen internal), streams', internal') ∧
      (∀ id : Nat, streams'[id]? = (streams[id]?).map fun stream =>
        if id ∈ results.map (·.id) then [] else stream) ∧
      ∀ id : Nat, internal'[id]? = (internal[id]?).map fun result =>
        if id ∈ results.map (·.id) then { result with offsetData := totalLen } else result := by
  induction results generalizing streams internal with
  | nil => exact ⟨streams, internal, rfl, by simp, by simp⟩
  | cons patt results ih =>
    obtain ⟨new, once⟩ := List.nodup_cons.mp once
    obtain ⟨here, stored⟩ := inside patt List.mem_cons_self
    obtain ⟨streams', internal', done, streams_eq, internal_eq⟩ :=
      ih (streams.set patt.id [])
        (internal.set patt.id { internal[patt.id] with offsetData := totalLen }) once
        (fun other member => by
          simpa only [List.length_set] using inside other (List.mem_cons_of_mem _ member))
    refine ⟨streams', internal', ?_, ?_, ?_⟩
    · have others : results.map (finished totalLen (internal.set patt.id
          { internal[patt.id] with offsetData := totalLen })) =
          results.map (finished totalLen internal) := by
        refine List.map_congr_left fun other member => ?_
        have apart : patt.id ≠ other.id :=
          fun same => new (List.mem_map.mpr ⟨other, member, same.symm⟩)
        rw [finished, finished, List.getElem?_set_ne apart]
      rw [finishStreams, if_pos here, List.getElem?_eq_getElem stored]
      simp only [done, others, ok_bind, List.map_cons, finished, List.getElem?_eq_getElem stored,
        Option.map_some, Option.getD_some]
    · intro id
      rw [streams_eq, List.getElem?_set]
      by_cases same : patt.id = id
      · subst same
        rw [if_pos rfl, if_pos here, List.getElem?_eq_getElem here]
        simp
      · rw [if_neg same]
        simp [Ne.symm same]
    · intro id
      rw [internal_eq, List.getElem?_set]
      by_cases same : patt.id = id
      · subst same
        rw [if_pos rfl, if_pos stored, List.getElem?_eq_getElem stored]
        simp
      · rw [if_neg same]
        simp [Ne.symm same]

end Finish

theorem length_of_getElem? {α β : Type} {list : List α} {other : List β} (f : Nat → α → β)
    (same : ∀ index : Nat, other[index]? = (list[index]?).map (f index)) :
    other.length = list.length := by
  apply Nat.le_antisymm
  · have beyond := same list.length
    rw [List.getElem?_eq_none (Nat.le_refl _)] at beyond
    exact List.getElem?_eq_none_iff.mp beyond
  · have beyond := same other.length
    rw [List.getElem?_eq_none (Nat.le_refl _)] at beyond
    exact List.getElem?_eq_none_iff.mp (Option.map_eq_none_iff.mp beyond.symm)

section Calls

variable {hs : Hyperscan} {accepts : List Byte → Bool}
  {Matches : List Byte → List Byte → List Byte → Prop} {d : PatternSearcher} {legend : Legend}
  {calls : Nat} {str : List Byte}

/-- New stream positions, offsets and call ids leave the texts and the statuses. -/
theorem Keeps.revise (keeps : Keeps d legend calls) (later : Nat) (totalLen : BitVec 64)
    (streams : List (List Byte)) {internal : List InternalPatternFound}
    (f : Nat → InternalPatternFound → InternalPatternFound)
    (same : ∀ id : Nat, internal[id]? = (d.internal[id]?).map (f id))
    (patterns : ∀ id result, (f id result).pattern = result.pattern)
    (earlier : ∀ id result, result.callId.toNat ≤ calls → (f id result).callId.toNat ≤ later)
    (length : streams.length = d.streams.length)
    (offsets : ∀ (id : Nat) (stream : List Byte) (result : InternalPatternFound),
      streams[id]? = some stream → internal[id]? = some result →
      result.offsetData + BitVec.ofNat 64 stream.length = totalLen) :
    Keeps { d with nbCall := BitVec.ofNat 64 later, totalLen, streams, internal } legend later where
  nbPattern := keeps.nbPattern
  db := keeps.db
  texts id entry found := by
    obtain ⟨result, stored, text⟩ := keeps.texts id entry found
    refine ⟨f id result, ?_, (patterns id result).trans text⟩
    rw [same, stored, Option.map_some]
  kills := keeps.kills
  capacity := (length_of_getElem? f same).trans keeps.capacity
  room := keeps.room
  streams := length.trans keeps.streams
  nbCall := rfl
  earlier result member := by
    obtain ⟨id, inside, rfl⟩ := List.mem_iff_getElem.mp member
    have stored := same id
    rw [List.getElem?_eq_getElem inside] at stored
    obtain ⟨old, there, revised⟩ := Option.map_eq_some_iff.mp stored.symm
    rw [← revised]
    exact earlier id old (keeps.earlier old (List.mem_of_getElem? there))
  offsets := offsets

theorem Carries.hits_iff (documented : hs.Documented accepts Matches) (carries : Carries d legend)
    (stream : List Byte) (id : Nat) :
    (∃ hit ∈ d.hits hs stream str, hit.id = id) ↔
      ∃ entry, legend[id]? = some entry ∧ Matches entry.1.expression stream str := by
  unfold hits
  rcases carries.db with db | ⟨db, empty⟩
  · rw [db]
    simp only [documented.finds, Legend.expressions, List.getElem?_map, Option.map_eq_some_iff]
    constructor
    · rintro ⟨_, ⟨entry, found, rfl⟩, matching⟩
      exact ⟨entry, found, matching⟩
    · rintro ⟨entry, found, matching⟩
      exact ⟨_, ⟨entry, found, rfl⟩, matching⟩
  · subst empty
    simp [db]

theorem Keeps.hits_lt (documented : hs.Documented accepts Matches) (keeps : Keeps d legend calls)
    {stream : List Byte} {hit : Hit} (member : hit ∈ d.hits hs stream str) :
    hit.id < d.internal.length := by
  obtain ⟨entry, found, _⟩ := (keeps.hits_iff documented stream hit.id).mp ⟨hit, member, rfl⟩
  have inside := (List.getElem?_eq_some_iff.mp found).1
  rw [keeps.capacity]
  exact Nat.lt_of_lt_of_le inside keeps.room

theorem Keeps.fresh (keeps : Keeps d legend calls) (few : calls + 1 < 2 ^ 64) :
    d.nbCall + 1 = BitVec.ofNat 64 (calls + 1) ∧
      ∀ result ∈ d.internal, result.callId ≠ d.nbCall + 1 := by
  have next : d.nbCall + 1 = BitVec.ofNat 64 (calls + 1) := by
    rw [keeps.nbCall, BitVec.ofNat_add]
    rfl
  refine ⟨next, fun result member same => ?_⟩
  have old := keeps.earlier result member
  rw [same, next, BitVec.toNat_ofNat, Nat.mod_eq_of_lt few] at old
  omega

/-- A result of the callback says of its id what the legend says. -/
theorem Keeps.meaning (documented : hs.Documented accepts Matches) (keeps : Keeps d legend calls)
    {hit : Hit} {stream : List Byte} {result : InternalPatternFound}
    (member : hit ∈ d.hits hs stream str) (stored : d.internal[hit.id]? = some result) :
    ∃ entry, legend[hit.id]? = some entry ∧ result.pattern = entry.1.pattern ∧
      decide (hit.id < d.nbPatternKill) = entry.2 := by
  obtain ⟨entry, found, _⟩ := (keeps.hits_iff documented stream hit.id).mp ⟨hit, member, rfl⟩
  obtain ⟨other, there, text⟩ := keeps.texts _ _ found
  rw [stored] at there
  cases there
  refine ⟨entry, found, text, ?_⟩
  rw [Bool.eq_iff_iff, decide_eq_true_eq]
  exact keeps.kills _ _ found

theorem Keeps.scan_block (documented : hs.Documented accepts Matches)
    (keeps : Keeps d legend calls) (few : calls + 1 < 2 ^ 64) (scannable : Scannable hs d str)
    (block : d.isKbd = false) :
    ∃ found next, d.scan hs str = .ok (found, next) ∧ Reports hs Matches d legend str found ∧
      Keeps next legend (calls + 1) := by
  obtain ⟨callId, fresh⟩ := keeps.fresh few
  have none : d.streams = [] := List.length_eq_zero_iff.mp (by rw [keeps.streams, block]; rfl)
  obtain ⟨ctx, done, gathered⟩ :=
    (gathered_nil hs d (d.nbCall + 1) d.internal).foldlM fresh keeps.capacity
      .none (d.hits hs [] str) fun hit => keeps.hits_lt documented
  have all : (d.hits hs [] str).filter (fun hit => !skips .none hit) = d.hits hs [] str :=
    List.filter_eq_self.mpr fun _ _ => rfl
  rw [List.nil_append, all] at gathered
  have stream (id : Nat) : d.stream id = [] := by
    rw [PatternSearcher.stream, none]
    rfl
  refine ⟨ctx.scanResults, { d with nbCall := d.nbCall + 1, internal := ctx.internal }, ?_,
    ⟨gathered.once, ?_, ?_, ?_⟩, ?_⟩
  · simp only [PatternSearcher.scan, scannable.size, not_true_eq_false, if_false, block,
      Bool.false_eq_true, done, ok_bind]
  · intro id
    rw [gathered.ids, stream, ← keeps.hits_iff documented, List.mem_map]
  · intro patt member
    obtain ⟨result, hit, stored, first, same⟩ := gathered.entries patt member
    have hitMember := List.mem_filter.mp (List.mem_of_mem_head? (by rw [first]; rfl))
    have id := of_decide_eq_true hitMember.2
    rw [← id] at stored ⊢
    obtain ⟨entry, found, text, kill⟩ := keeps.meaning documented hitMember.1 stored
    refine ⟨entry, found, ?_, ?_⟩
    · rw [same, ← text]
    · rw [same, ← kill, id]
  · intro kbd
    rw [block] at kbd
    cases kbd
  · have kept := keeps.revise (calls + 1) d.totalLen d.streams _ gathered.internal ?_ ?_ rfl ?_
    · rw [callId]
      exact kept
    · intro id result
      split <;> rfl
    · intro id result old
      split
      · rw [callId, BitVec.toNat_ofNat]
        exact Nat.mod_le _ _
      · omega
    · intro id stream result found
      rw [none] at found
      cases found

theorem matchLen_eq {offset totalLen : BitVec 64} {stream more start : Nat}
    (behind : offset + BitVec.ofNat 64 stream = totalLen) (inside : start ≤ stream + more) :
    totalLen + BitVec.ofNat 64 more - (BitVec.ofNat 64 start + offset) =
      BitVec.ofNat 64 (stream + more - start) := by
  have sum : BitVec.ofNat 64 stream + BitVec.ofNat 64 more =
      BitVec.ofNat 64 (stream + more - start) + BitVec.ofNat 64 start := by
    rw [← BitVec.ofNat_add, ← BitVec.ofNat_add, Nat.sub_add_cancel inside]
  subst behind
  bv_omega

theorem stream_of_getElem? {id : Nat} {stream : List Byte} (stored : d.streams[id]? = some stream) :
    d.stream id = stream := by
  rw [PatternSearcher.stream, List.getD_eq_getElem?_getD, stored, Option.getD_some]

/-- The length that is reported reaches from the start of the match to the end of the data. -/
theorem Keeps.length_reported (documented : hs.Documented accepts Matches)
    (keeps : Keeps d legend calls) (scannable : Scannable hs d str) {id : Nat} {hit : Hit}
    (stored : d.streams[id]? = some (d.stream id))
    (first : ((d.hits hs (d.stream id) str).filter (·.id = id)).head? = some hit)
    {result : InternalPatternFound} (entry : d.internal[id]? = some result) :
    d.totalLen + BitVec.ofNat 64 str.length - (hs.som hit + result.offsetData) =
      BitVec.ofNat 64 ((d.stream id ++ str).length - hit.start) := by
  have member := List.mem_filter.mp (List.mem_of_mem_head? (by rw [first]; rfl))
  have near := scannable.near id _ stored hit member.1 (of_decide_eq_true member.2)
  have inside : hit.start ≤ (d.stream id ++ str).length := by
    have scanned := member.1
    unfold hits at scanned
    cases db : d.db with
    | none =>
      rw [db] at scanned
      cases scanned
    | some db' =>
      rw [db] at scanned
      obtain ⟨before, behind⟩ := documented.lies _ _ _ _ scanned
      exact Nat.le_trans before behind
  rw [List.length_append] at inside ⊢
  rw [documented.starts hit near]
  exact matchLen_eq (keeps.offsets id _ result stored entry) inside

section Scanned

variable (documented : hs.Documented accepts Matches) (keeps : Keeps d legend calls)
  {callId : BitVec 64} {ctx : Ctx}
  (gathered : Gathered hs d callId d.internal (streamHits hs d str 0 d.streams) ctx)

include documented keeps gathered

theorem Keeps.reported {patt : PatternFound} (member : patt ∈ ctx.scanResults) :
    ∃ hit entry, d.streams[patt.id]? = some (d.stream patt.id) ∧
      ((d.hits hs (d.stream patt.id) str).filter (·.id = patt.id)).head? = some hit ∧
      legend[patt.id]? = some entry ∧
      patt = ⟨entry.1.pattern, patt.id, entry.2, hs.som hit⟩ := by
  obtain ⟨result, hit, stored, first, same⟩ := gathered.entries patt member
  obtain ⟨stream, at', first⟩ := head?_streamHits first
  have hitMember := List.mem_filter.mp (List.mem_of_mem_head? (by rw [first]; rfl))
  have id := of_decide_eq_true hitMember.2
  rw [← id] at stored
  obtain ⟨entry, found, text, kill⟩ := keeps.meaning documented hitMember.1 stored
  rw [id] at found kill
  refine ⟨hit, entry, ?_, ?_, found, ?_⟩
  · rw [stream_of_getElem? at', at']
  · rw [stream_of_getElem? at', first]
  · rw [← text, ← kill]
    exact same

theorem Keeps.reports (scannable : Scannable hs d str) (kbd : d.isKbd = true) :
    Reports hs Matches d legend str
      (ctx.scanResults.map (finished (d.totalLen + BitVec.ofNat 64 str.length) ctx.internal)) := by
  have count : d.streams.length = legend.length := by rw [keeps.streams, kbd]; rfl
  generalize total : d.totalLen + BitVec.ofNat 64 str.length = totalLen
  have ids : (ctx.scanResults.map (finished totalLen ctx.internal)).map (·.id) =
      ctx.scanResults.map (·.id) := by
    rw [List.map_map]
    rfl
  constructor
  · rw [ids]
    exact gathered.once
  · intro id
    rw [ids, gathered.ids, mem_streamHits]
    constructor
    · rintro ⟨_, stored, found⟩
      rw [stream_of_getElem? stored]
      exact (keeps.hits_iff documented _ id).mp found
    · rintro ⟨entry, found, matching⟩
      have inside := (List.getElem?_eq_some_iff.mp found).1
      have stored := List.getElem?_eq_getElem (count ▸ inside)
      rw [stream_of_getElem? stored] at matching
      exact ⟨_, stored, (keeps.hits_iff documented _ id).mpr ⟨entry, found, matching⟩⟩
  · intro patt member
    obtain ⟨patt, reported, rfl⟩ := List.mem_map.mp member
    obtain ⟨_, entry, _, _, found, same⟩ := keeps.reported documented gathered reported
    refine ⟨entry, found, ?_, ?_⟩
    · change patt.pattern = _
      rw [same]
    · change patt.isPatternKill = _
      rw [same]
  · intro _ patt member
    obtain ⟨patt, reported, rfl⟩ := List.mem_map.mp member
    obtain ⟨hit, _, stored, first, _, same⟩ := keeps.reported documented gathered reported
    refine ⟨hit, first, ?_⟩
    have entry := List.getElem?_eq_getElem
      (gathered.ids_lt _ (List.mem_map_of_mem (f := (·.id)) reported))
    have offset : (ctx.internal[patt.id]?).map (·.offsetData) =
        (d.internal[patt.id]?).map (·.offsetData) := by
      rw [gathered.internal, Option.map_map]
      congr 1
      funext result
      split <;> rfl
    have reaches := keeps.length_reported documented scannable stored first entry
    rw [total] at reaches
    change totalLen - (patt.matchLen + ((ctx.internal[patt.id]?).map (·.offsetData)).getD 0) = _
    have som : patt.matchLen = hs.som hit := by rw [same]
    rw [offset, entry, Option.map_some, Option.getD_some, som]
    exact reaches

omit documented in
theorem Keeps.finished {totalLen : BitVec 64} {streams : List (List Byte)}
    {internal : List InternalPatternFound} (next : callId = BitVec.ofNat 64 (calls + 1))
    (total : d.totalLen + BitVec.ofNat 64 str.length = totalLen)
    (streams_eq : ∀ id : Nat, streams[id]? = ((d.streams.map (· ++ str))[id]?).map fun stream =>
      if id ∈ ctx.scanResults.map (·.id) then [] else stream)
    (internal_eq : ∀ id : Nat, internal[id]? = (ctx.internal[id]?).map fun result =>
      if id ∈ ctx.scanResults.map (·.id) then { result with offsetData := totalLen } else result) :
    Keeps { d with nbCall := callId, totalLen, streams, internal } legend (calls + 1) := by
  have kept := @Keeps.revise _ _ _ keeps (calls + 1) totalLen streams internal (fun id result =>
      if id ∈ ctx.scanResults.map (·.id) then
        { result with callId, offsetData := totalLen } else result) ?_ ?_ ?_ ?_ ?_
  · rw [next]
    exact kept
  · intro id
    rw [internal_eq, gathered.internal, Option.map_map]
    congr 1
    funext result
    simp only [Function.comp_apply, gathered.ids]
    split <;> rfl
  · intro id result
    split <;> rfl
  · intro id result old
    split
    · rw [next, BitVec.toNat_ofNat]
      exact Nat.mod_le _ _
    · omega
  · rw [length_of_getElem? _ streams_eq, List.length_map]
  · intro id stream result found entry
    rw [streams_eq, List.getElem?_map, Option.map_map] at found
    rw [internal_eq, gathered.internal, Option.map_map] at entry
    obtain ⟨old, stored, rfl⟩ := Option.map_eq_some_iff.mp found
    obtain ⟨result, held, rfl⟩ := Option.map_eq_some_iff.mp entry
    simp only [Function.comp_apply, gathered.ids]
    by_cases known : id ∈ (streamHits hs d str 0 d.streams).map (·.id)
    · simp [known]
    · simp only [known, if_false, List.length_append, BitVec.ofNat_add]
      rw [← BitVec.add_assoc, keeps.offsets id old result stored held, total]

end Scanned

theorem Keeps.scan_kbd (documented : hs.Documented accepts Matches)
    (keeps : Keeps d legend calls) (few : calls + 1 < 2 ^ 64) (scannable : Scannable hs d str)
    (kbd : d.isKbd = true) :
    ∃ found next, d.scan hs str = .ok (found, next) ∧ Reports hs Matches d legend str found ∧
      Keeps next legend (calls + 1) := by
  obtain ⟨callId, fresh⟩ := keeps.fresh few
  obtain ⟨ctx, done, gathered⟩ :=
    (gathered_nil hs d (d.nbCall + 1) d.internal).scanStreams fresh keeps.capacity str
      d.streams 0 fun stream _ hit => keeps.hits_lt documented
  rw [List.nil_append] at gathered
  have length : ctx.internal.length = d.internal.length := length_of_getElem? _ gathered.internal
  have inside : ∀ patt ∈ ctx.scanResults,
      patt.id < (d.streams.map (· ++ str)).length ∧ patt.id < ctx.internal.length := by
    intro patt member
    obtain ⟨_, _, stored, _⟩ := keeps.reported documented gathered member
    rw [List.length_map, length]
    exact ⟨(List.getElem?_eq_some_iff.mp stored).1,
      gathered.ids_lt _ (List.mem_map_of_mem (f := (·.id)) member)⟩
  obtain ⟨streams, internal, finish, streams_eq, internal_eq⟩ :=
    finishStreams_ok (d.totalLen + BitVec.ofNat 64 str.length) ctx.scanResults
      (d.streams.map (· ++ str)) ctx.internal gathered.once inside
  refine ⟨_, _, ?_, keeps.reports documented gathered scannable kbd,
    keeps.finished gathered callId rfl streams_eq internal_eq⟩
  simp only [PatternSearcher.scan, scannable.size, not_true_eq_false, if_false, kbd, if_true,
    done, ok_bind, finish]

theorem Keeps.getElem?_resetKbdStreams (keeps : Keeps d legend calls) (id : Nat) :
    d.resetKbdStreams.internal[id]? = (d.internal[id]?).map fun result =>
      if id < d.streams.length then { result with offsetData := d.totalLen } else result := by
  have few : d.streams.length ≤ d.internal.length := by
    rw [keeps.streams, keeps.capacity]
    split
    · exact keeps.room
    · exact Nat.zero_le _
  have front : ((d.internal.take d.streams.length).map fun result =>
      { result with offsetData := d.totalLen }).length = d.streams.length := by
    rw [List.length_map, List.length_take, Nat.min_eq_left few]
  rw [PatternSearcher.resetKbdStreams]
  rcases Nat.lt_or_ge id d.streams.length with inside | behind
  · rw [List.getElem?_append_left (by omega), List.getElem?_map, List.getElem?_take_of_lt inside]
    simp only [inside, if_true]
  · rw [List.getElem?_append_right (by omega), List.getElem?_drop, front,
      Nat.add_sub_cancel' behind]
    simp only [Nat.not_lt.mpr behind, if_false, Option.map_id']

theorem Keeps.resetKbdStreams (keeps : Keeps d legend calls) :
    Keeps d.resetKbdStreams legend calls := by
  have kept := keeps.revise calls d.totalLen (d.streams.map fun _ => []) _ keeps.getElem?_resetKbdStreams ?_ ?_
    (List.length_map _) ?_
  · rw [← keeps.nbCall] at kept
    exact kept
  · intro id result
    split <;> rfl
  · intro id result old
    split <;> exact old
  · intro id stream result found entry
    rw [List.getElem?_map] at found
    rw [keeps.getElem?_resetKbdStreams] at entry
    obtain ⟨_, stored, rfl⟩ := Option.map_eq_some_iff.mp found
    obtain ⟨result, _, rfl⟩ := Option.map_eq_some_iff.mp entry
    rw [if_pos (List.getElem?_eq_some_iff.mp stored).1]
    simp

end Calls

/-- The calls of a session: scans of data the library takes, and resets. -/
inductive Session (hs : Hyperscan) (start : PatternSearcher) : Nat → PatternSearcher → Prop where
  | start : Session hs start 0 start
  | reset {calls : Nat} {d : PatternSearcher} (session : Session hs start calls d) :
      Session hs start calls d.resetKbdStreams
  | scanned {calls : Nat} {d next : PatternSearcher} {str : List Byte} {found : List PatternFound}
      (session : Session hs start calls d) (scannable : Scannable hs d str)
      (done : d.scan hs str = .ok (found, next)) : Session hs start (calls + 1) next

variable {hs : Hyperscan} {accepts : List Byte → Bool}
  {Matches : List Byte → List Byte → List Byte → Prop} {legend : Legend}

theorem Keeps.session (documented : hs.Documented accepts Matches) {start d : PatternSearcher}
    (keeps : Keeps start legend 0) {calls : Nat} (session : Session hs start calls d)
    (few : calls < 2 ^ 64) : Keeps d legend calls := by
  induction session with
  | start => exact keeps
  | reset _ ih => exact (ih few).resetKbdStreams
  | @scanned calls d next str found _ scannable done ih =>
    have before := ih (by omega)
    cases kbd : d.isKbd with
    | false =>
      obtain ⟨_, _, done', _, kept⟩ := before.scan_block documented few scannable kbd
      rw [done] at done'
      cases done'
      exact kept
    | true =>
      obtain ⟨_, _, done', _, kept⟩ := before.scan_kbd documented few scannable kbd
      rw [done] at done'
      cases done'
      exact kept

theorem keeps_opened {compiled : Compilation} {block : List Byte} {len : Nat} (isKbd : Bool)
    (compilation : compiled.Of block len legend) : Keeps (opened isKbd len compiled) legend 0 := by
  obtain ⟨rest, texts, unused⟩ := compilation.stands.texts
  have fresh : ∀ result ∈ compiled.arrays.internal, result.callId = 0 := by
    rw [texts]
    refine List.forall_mem_append.mpr ⟨?_, unused⟩
    intro result member
    obtain ⟨_, _, rfl⟩ := List.mem_map.mp member
    rfl
  have entry {id : Nat} {entry : CapturePattern × Bool} (found : legend[id]? = some entry) :
      compiled.arrays.internal[id]? = some ⟨entry.1.pattern, 0, 0⟩ := by
    have inside := (List.getElem?_eq_some_iff.mp found).1
    rw [texts, List.getElem?_append_left (by rw [List.length_map]; exact inside),
      List.getElem?_map, found, Option.map_some]
  have streams : (opened isKbd len compiled).streams.length =
      if isKbd then legend.length else 0 := by
    unfold opened
    rcases compilation.db with db | ⟨db, empty⟩
    · cases isKbd <;> simp [db, compilation.nbPattern]
    · simp [db, empty]
  exact {
    nbPattern := compilation.nbPattern
    db := compilation.db
    texts := fun id _ found => ⟨_, entry found, rfl⟩
    kills := compilation.stands.kills
    capacity := compilation.room
    room := by
      have length := congrArg List.length texts
      rw [compilation.room, List.length_append, List.length_map] at length
      exact Nat.le.intro length.symm
    streams := streams
    nbCall := rfl
    earlier := fun result member => by
      rw [fresh result member]
      exact Nat.le_refl _
    offsets := fun id stream result found stored => by
      have inside := (List.getElem?_eq_some_iff.mp found).1
      have nothing : stream = [] := by
        unfold opened at found
        split at found
        · exact (List.mem_replicate.mp (List.mem_of_getElem? found)).2
        · cases found
      have known : id < legend.length := by
        rw [streams] at inside
        split at inside
        · exact inside
        · omega
      have kept := stored.symm.trans (entry (List.getElem?_eq_getElem known))
      cases kept
      subst nothing
      rfl }

/-- Kill and notify patterns keep their meaning: the valid ones are compiled, each under an id
that says what it is for, and every scan of a session reports those that match. -/
def KeepsMeaning (hs : Hyperscan) (accepts : List Byte → Bool)
    (Matches : List Byte → List Byte → List Byte → Prop) (kill notify : List CapturePattern)
    (capType : CaptureType) : Prop :=
  ∃ legend : Legend, legend.Perm ((selectedLegend kill notify capType).valid accepts) ∧
    (construct hs kill notify capType = .ok none ∧ legend = [] ∨
      ∃ start, construct hs kill notify capType = .ok (some start) ∧
        ∀ calls d, Session hs start calls d → calls + 1 < 2 ^ 64 →
          Carries d legend ∧ ∀ str, Scannable hs d str →
            ∃ found next, d.scan hs str = .ok (found, next) ∧
              Reports hs Matches d legend str found)

/-- Where no removal harms another pattern, kill and notify patterns keep their meaning. -/
theorem patternSearcher_keepsMeaning (documented : hs.Documented accepts Matches)
    (kill notify : List CapturePattern) (capType : CaptureType)
    (few : (selectedLegend kill notify capType).length < 2 ^ 32)
    (harmless : RemovalsHarmless kill notify capType hs) :
    KeepsMeaning hs accepts Matches kill notify capType := by
  by_cases empty : selectedLegend kill notify capType = []
  · refine ⟨[], ?_, .inl ⟨construct_eq_none empty, rfl⟩⟩
    rw [empty]
    exact .refl _
  · obtain ⟨block, compiled, legend, constructed, compilation, perm⟩ :=
      construct_harmless documented few empty harmless
    have keeps := keeps_opened (capType == .kbd) compilation
    refine ⟨legend, perm, .inr ⟨_, constructed, ?_⟩⟩
    intro calls d session fewCalls
    have kept := keeps.session documented session (by omega)
    refine ⟨kept.toCarries, fun str scannable => ?_⟩
    cases kbd : d.isKbd with
    | false =>
      obtain ⟨found, next, done, reports, _⟩ :=
        kept.scan_block documented fewCalls scannable kbd
      exact ⟨found, next, done, reports⟩
    | true =>
      obtain ⟨found, next, done, reports, _⟩ :=
        kept.scan_kbd documented fewCalls scannable kbd
      exact ⟨found, next, done, reports⟩

/-- Where an expression without special characters starts, if it ends in the new data. -/
def literalStarts (stream str expression : List Byte) : List Nat :=
  (List.range ((stream ++ str).length + 1)).filter fun start =>
    ((stream ++ str).drop start).take expression.length = expression ∧
      stream.length < start + expression.length

/-- The library on expressions without special characters, and on an opening parenthesis. -/
def literal : Hyperscan where
  compile expressions :=
    match expressions.findIdx? (· = [0x28]) with
    | some pos => .failed pos
    | none => if expressions = [] then .failed (-1) else .success
  scan db stream str := (List.range db.length).flatMap fun id =>
    (literalStarts stream str (db.getD id [])).map fun start =>
      ⟨id, start, start + (db.getD id []).length⟩
  som hit := BitVec.ofNat 64 hit.start

theorem literal_documented : literal.Documented (fun expression => decide (expression ≠ [0x28]))
    fun expression stream str => literalStarts stream str expression ≠ [] where
  compiles expressions some valid := by
    have none : expressions.findIdx? (· = [0x28]) = .none := by
      refine List.findIdx?_eq_none_iff.mpr fun expression member => ?_
      simpa using valid expression member
    simp only [literal, none, if_neg some]
  names expressions malformed := by
    obtain ⟨expression, member, refused⟩ := malformed
    cases found : expressions.findIdx? (· = [0x28]) with
    | none =>
      have fine := List.findIdx?_eq_none_iff.mp found expression member
      simp at fine refused
      exact absurd refused fine
    | some pos =>
      obtain ⟨inside, same, _⟩ := List.findIdx?_eq_some_iff_getElem.mp found
      refine ⟨pos, by simp only [literal, found], expressions[pos],
        List.getElem?_eq_getElem inside, ?_⟩
      simpa using same
  nothing := .inr ⟨-1, by decide, by rfl⟩
  finds db stream str id := by
    simp only [literal, List.mem_flatMap, List.mem_map, List.mem_range]
    constructor
    · rintro ⟨_, ⟨id, inside, start, found, rfl⟩, rfl⟩
      refine ⟨db[id], List.getElem?_eq_getElem inside, ?_⟩
      rw [List.getD_eq_getElem?_getD, List.getElem?_eq_getElem inside, Option.getD_some] at found
      exact List.ne_nil_of_mem found
    · rintro ⟨expression, stored, found⟩
      obtain ⟨inside, rfl⟩ := List.getElem?_eq_some_iff.mp stored
      obtain ⟨start, member⟩ := List.exists_mem_of_ne_nil _ found
      refine ⟨_, ⟨id, inside, start, ?_, rfl⟩, rfl⟩
      rw [List.getD_eq_getElem?_getD, stored, Option.getD_some]
      exact member
  lies db stream str hit member := by
    simp only [literal, List.mem_flatMap, List.mem_map] at member
    obtain ⟨id, _, start, found, rfl⟩ := member
    refine ⟨Nat.le_add_right _ _, ?_⟩
    simp only [literalStarts, List.mem_filter, List.mem_range, decide_eq_true_eq] at found
    obtain ⟨inside, same, _⟩ := found
    have length := congrArg List.length same
    rw [List.length_take, List.length_drop] at length
    generalize (db.getD id []).length = size at length ⊢
    generalize (stream ++ str).length = total at length inside ⊢
    change start + size ≤ total
    omega
  starts _ _ := rfl

/-- With the malformed pattern the last of those to kill for, nothing is harmed. -/
theorem patternSearcher_keepsMeaning_last :
    KeepsMeaning literal (fun expression => decide (expression ≠ [0x28]))
      (fun expression stream str => literalStarts stream str expression ≠ [])
      [⟨true, true, .reg, [0x61]⟩, ⟨true, true, .reg, [0x28]⟩] [⟨true, true, .reg, [0x62]⟩] .kbd :=
  patternSearcher_keepsMeaning literal_documented _ _ _ (by decide)
    ⟨⟨by decide, by decide⟩, trivial⟩

/-- With it the first, the pattern to notify of takes its place and its status. -/
theorem patternSearcher_exchanges :
    ¬KeepsMeaning literal (fun expression => decide (expression ≠ [0x28]))
      (fun expression stream str => literalStarts stream str expression ≠ [])
      [⟨true, true, .reg, [0x28]⟩, ⟨true, true, .reg, [0x61]⟩]
      [⟨true, true, .reg, [0x62]⟩] .kbd := by
  rintro ⟨legend, perm, keeps⟩
  have constructed : construct literal
      [⟨true, true, .reg, [0x28]⟩, ⟨true, true, .reg, [0x61]⟩] [⟨true, true, .reg, [0x62]⟩] .kbd =
      .ok (some {
        nbCall := 0, totalLen := 0, db := some [[0x62], [0x61]], streams := [[], []]
        internal := [⟨[0x62], 0, 0⟩, ⟨[0x61], 0, 0⟩, ⟨[0x62], 0, 0⟩]
        capacity := 3, nbPattern := 2, nbPatternKill := 1, isKbd := true }) := by decide
  rw [constructed] at keeps
  obtain ⟨_, same, session⟩ := keeps.resolve_left (by simp)
  cases same
  obtain ⟨carries, _⟩ := session 0 _ .start (by decide)
  have two : legend.length = 2 := carries.nbPattern.symm
  have inside : 0 < legend.length := by omega
  have found := List.getElem?_eq_getElem inside
  have kills := (carries.kills 0 _ found).mp (by decide)
  obtain ⟨result, stored, text⟩ := carries.texts 0 _ found
  cases stored
  have member := perm.mem_iff.mp (List.getElem_mem inside)
  generalize legend[0] = entry at *
  have valid : (selectedLegend [⟨true, true, .reg, [0x28]⟩, ⟨true, true, .reg, [0x61]⟩]
      [⟨true, true, .reg, [0x62]⟩] .kbd).valid (fun expression => decide (expression ≠ [0x28])) =
      [(⟨true, true, .reg, [0x61]⟩, true), (⟨true, true, .reg, [0x62]⟩, false)] := by decide
  rcases List.mem_cons.mp member with rfl | member
  · exact absurd text (by decide)
  · obtain rfl := List.mem_singleton.mp member
    exact absurd kills (by decide)

end Redemption.Capture.PatternSearcher
