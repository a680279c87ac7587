import Redemption.Capture.PatternSearcher
import Redemption.Foundation.SwapRemove

/-! The constructor of `PatternSearcher`: which patterns it compiles, under which ids. -/
namespace Redemption.Capture

open Foundation SwapRemove

/-- What the regex library promises: it fails naming an expression it does not accept, or takes
them all; it reports the ids of the expressions that match; the start of a match is what it
says as long as it is not beyond its horizon. -/
structure Hyperscan.Documented (hs : Hyperscan) (accepts : List Byte → Bool)
    (Matches : List Byte → List Byte → List Byte → Prop) : Prop where
  compiles (expressions : List (List Byte)) (some : expressions ≠ [])
    (valid : ∀ expression ∈ expressions, accepts expression = true) :
    hs.compile expressions = .success
  names (expressions : List (List Byte))
    (malformed : ∃ expression ∈ expressions, accepts expression = false) :
    ∃ pos : Nat, hs.compile expressions = .failed pos ∧
      ∃ expression, expressions[pos]? = some expression ∧ accepts expression = false
  nothing : hs.compile [] = .success ∨ ∃ expression < 0, hs.compile [] = .failed expression
  finds (db : List (List Byte)) (stream str : List Byte) (id : Nat) :
    (∃ hit ∈ hs.scan db stream str, hit.id = id) ↔
      ∃ expression, db[id]? = some expression ∧ Matches expression stream str
  lies (db : List (List Byte)) (stream str : List Byte) (hit : Hit)
    (member : hit ∈ hs.scan db stream str) :
    hit.start ≤ hit.stop ∧ hit.stop ≤ (stream ++ str).length
  starts (hit : Hit) (near : hit.stop - hit.start ≤ 2 ^ 16) :
    hs.som hit = BitVec.ofNat 64 hit.start

/-- The expression the library sees of a pattern: a string ends at its first zero. -/
def CapturePattern.expression (pattern : CapturePattern) : List Byte :=
  pattern.expressionText.takeWhile (· ≠ 0)

section Table

theorem length_pointerBytes (pointer : Nat) : (pointerBytes pointer).length = 8 := rfl

variable (pointers : List Nat) (rest : List PointerByte)

theorem length_table : (pointers.flatMap pointerBytes).length = 8 * pointers.length := by
  induction pointers with
  | nil => rfl
  | cons pointer pointers ih =>
    rw [List.flatMap_cons, List.length_append, ih, length_pointerBytes, List.length_cons]
    omega

theorem table_split (slot : Nat) :
    pointers.flatMap pointerBytes =
      (pointers.take slot).flatMap pointerBytes ++ (pointers.drop slot).flatMap pointerBytes := by
  rw [← List.flatMap_append, List.take_append_drop]

variable {pointers} {slot : Nat}

theorem take_table (inside : slot ≤ pointers.length) :
    (pointers.flatMap pointerBytes ++ rest).take (8 * slot) =
      (pointers.take slot).flatMap pointerBytes := by
  rw [table_split pointers slot, List.append_assoc]
  exact List.take_left' (by rw [length_table, List.length_take, Nat.min_eq_left inside])

theorem drop_table (inside : slot ≤ pointers.length) :
    (pointers.flatMap pointerBytes ++ rest).drop (8 * slot) =
      (pointers.drop slot).flatMap pointerBytes ++ rest := by
  rw [table_split pointers slot, List.append_assoc]
  exact List.drop_left' (by rw [length_table, List.length_take, Nat.min_eq_left inside])

theorem slot_table (inside : slot < pointers.length) :
    ((pointers.flatMap pointerBytes ++ rest).drop (8 * slot)).take 8 =
      pointerBytes pointers[slot] := by
  rw [drop_table rest inside.le, List.drop_eq_getElem_cons inside, List.flatMap_cons,
    List.append_assoc]
  exact List.take_left' (length_pointerBytes _)

theorem loadPointer_table (inside : slot < pointers.length) :
    loadPointer (pointers.flatMap pointerBytes ++ rest) slot = .ok pointers[slot] := by
  unfold loadPointer
  rw [slot_table rest inside]
  exact if_pos rfl

theorem memmove_ok {table : List PointerByte} {dest src count : Nat}
    (room : max dest src + count ≤ table.length) :
    memmove table dest src count =
      .ok (table.take dest ++ (table.drop src).take count ++ table.drop (dest + count)) :=
  if_pos room

/-- A move of less than a slot leaves nothing behind once that slot is written. -/
theorem memmove_memmove {table : List PointerByte} {dest src count slot : Nat} (near : count ≤ 8)
    (room : max dest src + count ≤ table.length) (behind : dest + count ≤ slot)
    (inside : slot + 8 ≤ table.length) :
    (memmove table dest src count >>= fun moved => memmove moved dest slot 8) =
      .ok (table.take dest ++ (table.drop slot).take 8 ++ table.drop (dest + 8)) := by
  have front : (table.take dest ++ (table.drop src).take count).length = dest + count := by
    rw [List.length_append, List.length_take, List.length_take, List.length_drop]
    omega
  have later {offset : Nat} (far : dest + count ≤ offset) :
      (table.take dest ++ (table.drop src).take count ++ table.drop (dest + count)).drop offset =
        table.drop offset := by
    obtain ⟨more, rfl⟩ := Nat.exists_eq_add_of_le far
    rw [← List.drop_drop, List.drop_left' front, List.drop_drop]
  have earlier : (table.take dest ++ (table.drop src).take count ++
      table.drop (dest + count)).take dest = table.take dest := by
    rw [List.append_assoc]
    exact List.take_left' (by rw [List.length_take]; omega)
  rw [memmove_ok room, ok_bind, memmove_ok, later behind, later (by omega), earlier]
  rw [List.length_append, front, List.length_drop]
  omega

/-- Where the bytes that are moved belong to one slot, only that slot changes. -/
theorem memmove_table {init : List Nat} (last pos : Nat) (inside : pos ≤ init.length)
    (near : init.length - pos ≤ 8) :
    (memmove ((init ++ [last]).flatMap pointerBytes ++ rest) (8 * pos) (8 * (pos + 1))
        (init.length - pos) >>= fun moved => memmove moved (8 * pos) (8 * init.length) 8) =
      .ok ((init.set pos last).flatMap pointerBytes ++ (pointerBytes last ++ rest)) := by
  have length : (init ++ [last]).length = init.length + 1 := List.length_append
  have room : 8 * (init.length + 1) ≤
      ((init ++ [last]).flatMap pointerBytes ++ rest).length := by
    rw [List.length_append, length_table, length]
    omega
  rw [memmove_memmove near (by omega) (by omega) (by omega), take_table rest (by omega),
    slot_table rest (by omega), show 8 * pos + 8 = 8 * (pos + 1) by omega,
    drop_table rest (by omega), List.getElem_append_right (Nat.le_refl _)]
  rcases Nat.lt_or_eq_of_le inside with before | rfl
  · rw [List.set_eq_take_append_cons_drop, if_pos before, List.take_append_of_le_length inside,
      List.drop_append_of_le_length before]
    simp
  · rw [List.set_eq_of_length_le (Nat.le_refl _), List.take_left,
      List.drop_eq_nil_of_le (by omega)]
    simp

end Table

/-- The patterns behind the ids of a searcher, each with whether it is one to kill for. -/
abbrev Legend := List (CapturePattern × Bool)

def Legend.expressions (legend : Legend) : List (List Byte) := legend.map (·.1.expression)

/-- The kill/notify boundary says of every id what its pattern is for. -/
def Legend.BoundedBy (legend : Legend) (nbPatternKill : Nat) : Prop :=
  ∀ id entry, legend[id]? = some entry → (id < nbPatternKill ↔ entry.2 = true)

/-- The arrays hold the entries of the legend, and behind them what they held before. -/
structure Stands (block : List Byte) (arrays : CompileArrays) (legend : Legend) : Prop where
  table : ∃ (pointers : List Nat) (rest : List PointerByte), arrays.expressions = pointers.flatMap pointerBytes ++ rest ∧
    pointers.map (cString block) = legend.map fun entry => .ok entry.1.expression
  texts : ∃ rest, arrays.internal =
    legend.map (fun entry => ⟨entry.1.pattern, 0, 0⟩) ++ rest ∧
    ∀ result ∈ rest, result.callId = 0
  kills : legend.BoundedBy arrays.nbPatternKill

variable {arrays : CompileArrays}

theorem Stands.readExpressions {block : List Byte} {legend : Legend}
    (stands : Stands block arrays legend) :
    readExpressions arrays.expressions block legend.length = .ok legend.expressions := by
  obtain ⟨pointers, rest, same, strings⟩ := stands.table
  have length : pointers.length = legend.length := by simpa using congrArg List.length strings
  have each (slot : Nat) (member : slot ∈ List.range legend.length) :
      (loadPointer arrays.expressions slot >>= cString block) =
        .ok (legend.expressions.getD slot []) := by
    have inside : slot < legend.length := List.mem_range.mp member
    have string := congrArg (·[slot]?) strings
    simp only [List.getElem?_map, List.getElem?_eq_getElem inside,
      List.getElem?_eq_getElem (length ▸ inside), Option.map_some, Option.some.injEq] at string
    rw [same, loadPointer_table rest (length ▸ inside), ok_bind, string]
    simp [Legend.expressions, inside]
  rw [Capture.readExpressions, mapM_ok each]
  congr 1
  apply List.ext_getElem
  · simp [Legend.expressions]
  · intro slot _ inside
    simp [inside]

/-- A removal that keeps everything in its place: what is moved belongs to the removed slot, and
the last entry is for the same as the one it replaces, or nothing but the boundary moves. -/
structure Spares (remaining nbPatternKill pos : Nat) : Prop where
  near : remaining - pos ≤ 8
  same : nbPatternKill ≤ pos ∨ pos + 1 = nbPatternKill ∨ remaining < nbPatternKill

theorem Legend.BoundedBy.removeAt {init : Legend} {last : CapturePattern × Bool}
    {nbPatternKill pos : Nat} (bounded : BoundedBy (init ++ [last]) nbPatternKill)
    (spares : Spares init.length nbPatternKill pos) :
    BoundedBy (init.set pos last)
      (if pos < nbPatternKill then nbPatternKill - 1 else nbPatternKill) := by
  have ends := bounded init.length last (by simp)
  have same := spares.same
  intro id entry found
  have inside : id < init.length := by
    simpa using (List.getElem?_eq_some_iff.mp found).1
  rw [List.getElem?_set] at found
  by_cases here : pos = id
  · rw [if_pos here, if_pos (here ▸ inside)] at found
    cases found
    rw [← ends]
    split <;> omega
  · rw [if_neg here] at found
    rw [← bounded id entry (by rw [List.getElem?_append_left inside, found])]
    split <;> omega

theorem Stands.removeMalformed {block : List Byte} {legend : Legend}
    (stands : Stands block arrays legend) {remaining pos : Nat}
    (length : legend.length = remaining + 1) (small : remaining < 2 ^ 32) (inside : pos ≤ remaining)
    (spares : Spares remaining arrays.nbPatternKill pos) :
    ∃ arrays', removeMalformed arrays remaining pos = .ok arrays' ∧
      Stands block arrays' (removeAt legend pos) ∧
      arrays'.internal.length = arrays.internal.length ∧
      arrays'.nbPatternKill =
        if pos < arrays.nbPatternKill then arrays.nbPatternKill - 1 else arrays.nbPatternKill := by
  obtain ⟨pointers, rest, same, strings⟩ := stands.table
  obtain ⟨texts, texts', unused⟩ := stands.texts
  rcases List.eq_nil_or_concat legend with rfl | ⟨init, last, rfl⟩
  · simp at length
  rw [List.concat_eq_append] at *
  have count : init.length = remaining := by simpa using length
  subst count
  rcases List.eq_nil_or_concat pointers with rfl | ⟨pinit, plast, rfl⟩
  · simpa using congrArg List.length strings
  rw [List.concat_eq_append] at *
  have pcount : pinit.length = init.length := by simpa using congrArg List.length strings
  have bytes : (BitVec.ofNat 32 init.length - BitVec.ofNat 32 pos).toNat = init.length - pos := by
    rw [BitVec.toNat_sub, BitVec.toNat_ofNat, BitVec.toNat_ofNat]
    omega
  have moved := memmove_table rest plast pos (by omega) (pcount ▸ spares.near)
  rw [pcount] at moved
  have entry : arrays.internal[init.length]? = some ⟨last.1.pattern, 0, 0⟩ := by
    rw [texts']
    simp
  refine ⟨{
      expressions := (pinit.set pos plast).flatMap pointerBytes ++ (pointerBytes plast ++ rest)
      internal := arrays.internal.set pos ⟨last.1.pattern, 0, 0⟩
      nbPatternKill :=
        if pos < arrays.nbPatternKill then arrays.nbPatternKill - 1 else arrays.nbPatternKill },
    ?_, ?_, List.length_set, rfl⟩
  · rw [Capture.removeMalformed, bytes, same, ← bind_assoc, moved, ok_bind, entry]
  · rw [removeAt_concat]
    refine ⟨⟨pinit.set pos plast, _, rfl, ?_⟩, ⟨⟨last.1.pattern, 0, 0⟩ :: texts, ?_,
        List.forall_mem_cons.mpr ⟨rfl, unused⟩⟩,
      stands.kills.removeAt spares⟩
    · have removed := congrArg (removeAt · pos) strings
      simpa only [List.map_append, List.map_singleton, removeAt_concat, List.map_set] using removed
    · rw [texts', List.map_append, List.map_singleton, List.append_assoc, List.singleton_append,
        set_last _ _ _ (by rw [List.length_map]; exact inside), List.map_set]

/-- Every removal spares the others, from so many expressions with the boundary there. -/
def Harmless (hs : Hyperscan) : Nat → List (List Byte) → Nat → Prop
  | 0, _, _ => True
  | remaining + 1, expressions, nbPatternKill =>
    match hs.compile expressions with
    | .success => True
    | .failed expression =>
      let pos := expression.toNat
      Spares remaining nbPatternKill pos ∧
        Harmless hs remaining (removeAt expressions pos)
          (if pos < nbPatternKill then nbPatternKill - 1 else nbPatternKill)

/-- The entries of the legend that the library accepts. -/
def Legend.valid (accepts : List Byte → Bool) (legend : Legend) : Legend :=
  legend.filter fun entry => accepts entry.1.expression

/-- What the constructor goes on with once the legend is all the library has left. -/
structure Compilation.Of (compiled : Compilation) (block : List Byte) (room : Nat)
    (legend : Legend) : Prop where
  stands : Stands block compiled.arrays legend
  nbPattern : compiled.nbPattern = legend.length
  db : compiled.db = some legend.expressions ∨ compiled.db = none ∧ legend = []
  room : compiled.arrays.internal.length = room

variable {hs : Hyperscan} {accepts : List Byte → Bool}
  {Matches : List Byte → List Byte → List Byte → Prop}

theorem Hyperscan.Documented.attempt (documented : hs.Documented accepts Matches)
    {block : List Byte} {legend : Legend}
    (stands : Stands block arrays legend) :
    (∃ db, compileMulti hs block arrays legend.length = .ok (.done db) ∧
        legend.valid accepts = legend ∧
        (db = some legend.expressions ∨ db = none ∧ legend = [])) ∨
      ∃ pos : Nat, compileMulti hs block arrays legend.length = .ok (.malformed pos) ∧
        hs.compile legend.expressions = .failed pos ∧
        ∃ inside : pos < legend.length, accepts (legend[pos].1.expression) = false := by
  rw [compileMulti, stands.readExpressions, ok_bind]
  by_cases malformed : ∃ expression ∈ legend.expressions, accepts expression = false
  · right
    obtain ⟨pos, failed, expression, found, refused⟩ := documented.names _ malformed
    simp only [Legend.expressions, List.getElem?_map, Option.map_eq_some_iff] at found
    obtain ⟨entry, found, rfl⟩ := found
    obtain ⟨inside, rfl⟩ := List.getElem?_eq_some_iff.mp found
    refine ⟨pos, ?_, failed, inside, refused⟩
    rw [failed]
    simp
  · left
    have valid : ∀ expression ∈ legend.expressions, accepts expression = true := by
      intro expression member
      by_contra refused
      exact malformed ⟨expression, member, by simpa using refused⟩
    have all : legend.valid accepts = legend := by
      refine List.filter_eq_self.mpr fun entry member => ?_
      exact valid _ (List.mem_map_of_mem member)
    by_cases empty : legend = []
    · subst empty
      rcases documented.nothing with success | ⟨expression, negative, failed⟩
      · exact ⟨some [], by simp [Legend.expressions, success], rfl, .inl rfl⟩
      · exact ⟨none, by simp [Legend.expressions, failed, negative], rfl, .inr ⟨rfl, rfl⟩⟩
    · have success := documented.compiles legend.expressions (by simpa [Legend.expressions]) valid
      exact ⟨some legend.expressions, by rw [success], all, .inl rfl⟩

theorem compileLoop_harmless (documented : hs.Documented accepts Matches) {block : List Byte}
    (nbPattern : Nat) (small : nbPattern ≤ 2 ^ 32) {legend : Legend}
    (length : legend.length = nbPattern) (stands : Stands block arrays legend)
    (harmless : Harmless hs nbPattern legend.expressions arrays.nbPatternKill) :
    ∃ compiled final, compileLoop hs block arrays nbPattern = .ok compiled ∧
      compiled.Of block arrays.internal.length final ∧
      final.Perm (legend.valid accepts) := by
  induction nbPattern generalizing arrays legend with
  | zero =>
    rcases documented.attempt stands with ⟨db, done, all, fine⟩ | ⟨pos, _, _, inside, _⟩
    · rw [length] at done
      refine ⟨⟨arrays, 0, db⟩, legend, ?_, ⟨stands, length.symm, fine, rfl⟩, ?_⟩
      · rw [compileLoop, done]
        rfl
      · rw [all]
    · omega
  | succ remaining ih =>
    rcases documented.attempt stands with
      ⟨db, done, all, fine⟩ | ⟨pos, malformed, failed, inside, refused⟩
    · rw [length] at done
      refine ⟨⟨arrays, remaining + 1, db⟩, legend, ?_, ⟨stands, length.symm, fine, rfl⟩, ?_⟩
      · rw [compileLoop, done]
        rfl
      · rw [all]
    · rw [Harmless, failed] at harmless
      obtain ⟨spares, later⟩ := harmless
      rw [Int.toNat_natCast] at spares later
      obtain ⟨arrays', removed, stands', room, boundary⟩ :=
        stands.removeMalformed length (by omega) (by omega) spares
      rw [← boundary, Legend.expressions, removeAt_map] at later
      obtain ⟨compiled, final, done, fine, perm⟩ :=
        ih (by omega) (by rw [length_removeAt, length, Nat.add_sub_cancel]) stands' later
      refine ⟨compiled, final, ?_, room ▸ fine, perm.trans ?_⟩
      · rw [length] at malformed
        simp only [compileLoop, malformed, ok_bind, removed, done]
      · have dropped := (perm_removeAt legend inside).filter
          (fun entry => accepts entry.1.expression)
        rw [List.filter_cons_of_neg (by simp [refused])] at dropped
        exact dropped.symm

section Block

theorem takeWhile_zero (text rest : List Byte) :
    (text ++ 0 :: rest).takeWhile (· ≠ 0) = text.takeWhile (· ≠ 0) := by
  induction text with
  | nil => simp
  | cons byte text ih =>
    rw [List.cons_append, List.takeWhile_cons, List.takeWhile_cons, ih]

theorem cString_pointersFrom (front : List Byte) (patterns : List CapturePattern) :
    (pointersFrom front.length patterns).map (cString (front ++ expressionBlock patterns)) =
      patterns.map fun pattern => .ok pattern.expression := by
  induction patterns generalizing front with
  | nil => rfl
  | cons pattern patterns ih =>
    have block : front ++ expressionBlock (pattern :: patterns) =
        (front ++ (pattern.expressionText ++ [0])) ++ expressionBlock patterns := by
      simp only [expressionBlock, List.flatMap_cons, List.append_assoc]
    have length : front.length + pattern.expressionText.length + 1 =
        (front ++ (pattern.expressionText ++ [0])).length := by
      simp only [List.length_append, List.length_singleton]
      omega
    rw [pointersFrom, List.map_cons, List.map_cons, block, length, ih]
    congr 1
    rw [cString, if_pos (by simp only [List.length_append, List.length_singleton]; omega),
      List.append_assoc, List.drop_left' rfl, List.append_assoc, List.singleton_append,
      takeWhile_zero]
    rfl

theorem length_escape_le (patt : List Byte) : (escape patt).length ≤ 2 * patt.length := by
  induction patt with
  | nil => exact Nat.le_refl _
  | cons c patt ih =>
    rw [escape, List.flatMap_cons, List.length_append, List.length_cons]
    have one : (if c ∈ escapedCharacters then [0x5C, c] else [c]).length ≤ 2 := by split <;> simp
    unfold escape at ih
    omega

theorem length_expressionBlock_le (patterns : List CapturePattern) :
    (expressionBlock patterns).length ≤ (patterns.map fun pattern =>
      (if pattern.patternType.isStr then pattern.pattern.length else 0) +
        (if pattern.patternType.isExact then 4 else 0)).sum +
      (patterns.map (·.pattern.length)).sum + patterns.length := by
  induction patterns with
  | nil => exact Nat.le_refl _
  | cons pattern patterns ih =>
    have escaped := length_escape_le pattern.pattern
    have text : pattern.expressionText.length ≤
        (if pattern.patternType.isStr then pattern.pattern.length else 0) +
          (if pattern.patternType.isExact then 4 else 0) + pattern.pattern.length := by
      unfold CapturePattern.expressionText
      cases pattern.patternType <;>
        simp [PatternType.isStr, PatternType.isExact, List.length_append] <;> omega
    rw [expressionBlock, List.flatMap_cons, List.length_append, List.length_append,
      List.length_singleton]
    simp only [List.map_cons, List.sum_cons, List.length_cons]
    unfold expressionBlock at ih
    omega

theorem sum_stored (patterns : List CapturePattern) :
    (patterns.map (·.pattern.length + 1)).sum =
      (patterns.map (·.pattern.length)).sum + patterns.length := by
  induction patterns with
  | nil => rfl
  | cons pattern patterns ih =>
    simp only [List.map_cons, List.sum_cons, List.length_cons, ih]
    omega

end Block

section Construct

/-- The patterns of the searched type with what they are for, in the order of their ids. -/
def selectedLegend (kill notify : List CapturePattern) (capType : CaptureType) : Legend :=
  (kill.filter (·.is capType)).map (·, true) ++ (notify.filter (·.is capType)).map (·, false)

variable (kill notify : List CapturePattern) (capType : CaptureType)

theorem selectedPatterns_eq :
    selectedPatterns kill notify capType = (selectedLegend kill notify capType).map Prod.fst := by
  simp [selectedPatterns, selectedLegend, List.filter_append, Function.comp_def]

theorem selectedLegend_boundedBy :
    (selectedLegend kill notify capType).BoundedBy (kill.filter (·.is capType)).length := by
  intro id entry found
  unfold selectedLegend at found
  rcases Nat.lt_or_ge id (kill.filter (·.is capType)).length with before | behind
  · rw [List.getElem?_append_left (by simpa using before), List.getElem?_map,
      List.getElem?_eq_getElem before] at found
    cases found
    simp [before]
  · rw [List.getElem?_append_right (by simpa using behind), List.getElem?_map] at found
    obtain ⟨pattern, _, rfl⟩ := Option.map_eq_some_iff.mp found
    simp [behind]

/-- No removal of the constructor harms another pattern. -/
def RemovalsHarmless (hs : Hyperscan) : Prop :=
  Harmless hs (selectedLegend kill notify capType).length
    (selectedLegend kill notify capType).expressions (kill.filter (·.is capType)).length

variable {kill notify capType}

theorem construct_eq_none (empty : selectedLegend kill notify capType = []) :
    PatternSearcher.construct hs kill notify capType = .ok none := by
  simp [PatternSearcher.construct, selectedPatterns_eq, empty]

theorem construct_harmless (documented : hs.Documented accepts Matches)
    (few : (selectedLegend kill notify capType).length < 2 ^ 32)
    (some' : selectedLegend kill notify capType ≠ [])
    (harmless : RemovalsHarmless kill notify capType hs) :
    ∃ block compiled final,
      PatternSearcher.construct hs kill notify capType = .ok (some (.opened (capType == .kbd)
        (selectedLegend kill notify capType).length compiled)) ∧
      compiled.Of block (selectedLegend kill notify capType).length final ∧
      final.Perm ((selectedLegend kill notify capType).valid accepts) := by
  have room := length_expressionBlock_le (selectedPatterns kill notify capType)
  have selected := selectedPatterns_eq kill notify capType
  have bounded := selectedLegend_boundedBy kill notify capType
  have strings := cString_pointersFrom [] (selectedPatterns kill notify capType)
  unfold RemovalsHarmless at harmless
  have kills : (kill.filter (·.is capType)).length ≤ (selectedLegend kill notify capType).length := by
    simp [selectedLegend]
  generalize kills' : (kill.filter (·.is capType)).length = nbKill at kills bounded harmless
  generalize selectedLegend kill notify capType = legend at *
  have count : (selectedPatterns kill notify capType).length = legend.length := by
    rw [selected, List.length_map]
  have len : (BitVec.ofNat 32 legend.length).toNat = legend.length := by
    rw [BitVec.toNat_ofNat, Nat.mod_eq_of_lt few]
  have len' : (BitVec.ofNat 32 nbKill).toNat = nbKill := by
    rw [BitVec.toNat_ofNat, Nat.mod_eq_of_lt (by omega)]
  have stands : Stands (expressionBlock (selectedPatterns kill notify capType)) {
      expressions := (pointersFrom 0 (selectedPatterns kill notify capType)).flatMap pointerBytes
      internal := (selectedPatterns kill notify capType).map fun pattern => ⟨pattern.pattern, 0, 0⟩
      nbPatternKill := nbKill } legend := by
    refine ⟨⟨_, [], (List.append_nil _).symm, ?_⟩, ⟨[], ?_, List.forall_mem_nil _⟩, bounded⟩
    · rw [List.nil_append] at strings
      rw [List.length_nil] at strings
      rw [strings, selected, List.map_map]
      rfl
    · rw [List.append_nil, selected, List.map_map]
      rfl
  obtain ⟨compiled, final, done, fine, perm⟩ :=
    compileLoop_harmless documented legend.length few.le rfl stands harmless
  simp only [List.length_map, count] at fine
  refine ⟨_, compiled, final, ?_, fine, perm⟩
  have positive : legend.length ≠ 0 := by simpa using some'
  simp only [PatternSearcher.construct, count, len, kills', len', if_neg positive, fits, sum_stored,
    Nat.le_refl, if_true, ok_bind, done]
  rw [if_pos (by omega), ok_bind]

end Construct

end Redemption.Capture
