import Redemption.Transport.MwrmReader

/-! Lines come out of the line reader as they are in the file, however it is read. -/
namespace Redemption.Transport.Mwrm

open Redemption.Foundation Redemption.Utils

theorem Source.partialRead_eq (source : Source) (length : Nat) :
    (source.partialRead length).1 ++ (source.partialRead length).2.rest = source.rest ∧
      (source.partialRead length).1.length ≤ length ∧
      (0 < length → (source.partialRead length).1 = [] → source.rest = []) := by
  have front (count : Nat) (positive : 0 < length → 0 < count) (le : count ≤ length) :
      source.rest.take count ++ source.rest.drop count = source.rest ∧
        (source.rest.take count).length ≤ length ∧
        (0 < length → source.rest.take count = [] → source.rest = []) := by
    refine ⟨List.take_append_drop _ _, ?_, fun some empty => ?_⟩
    · rw [List.length_take]
      omega
    · rcases List.take_eq_nil_iff.mp empty with zero | none
      · omega
      · exact none
  unfold Source.partialRead
  split
  · exact front length id (Nat.le_refl _)
  · exact front _ (fun some => by omega) (Nat.min_le_right _ _)

theorem Source.partialRead_append (source : Source) (data : List Byte) (length : Nat) :
    data ++ (source.partialRead length).1 ++ (source.partialRead length).2.rest =
      data ++ source.rest := by
  rw [List.append_assoc, (source.partialRead_eq length).1]

/-- The characters before the first new line, and what is behind it. -/
structure FirstLine (text line rest : List Byte) : Prop where
  parts : text = line ++ 10 :: rest
  plain : (10 : Byte) ∉ line

namespace FirstLine

variable {text line rest front back : List Byte}

theorem front_le (first : FirstLine text line rest) (split : text = front ++ back)
    (none : (10 : Byte) ∉ front) : front.length ≤ line.length := by
  have same := first.parts
  rw [split] at same
  rcases List.append_eq_append_iff.mp same with ⟨middle, parts, _⟩ | ⟨middle, parts, tail⟩
  · rw [parts, List.length_append]
    omega
  · cases middle with
    | nil => rw [parts, List.append_nil]
    | cons char middle =>
      have lf : char = 10 := (List.cons.inj tail).1.symm
      exact absurd (by rw [parts, lf]; simp) none

theorem front_eq (first : FirstLine text line rest) (split : text = front ++ back)
    (some : (10 : Byte) ∈ front) : ∃ middle, front = line ++ 10 :: middle ∧ middle ++ back = rest := by
  have same := first.parts
  rw [split] at same
  rcases List.append_eq_append_iff.mp same with ⟨middle, parts, _⟩ | ⟨middle, parts, tail⟩
  · exact absurd (by rw [parts]; exact List.mem_append_left _ some) first.plain
  · cases middle with
    | nil =>
      rw [parts, List.append_nil] at some
      exact absurd some first.plain
    | cons char middle =>
      obtain ⟨lf, behind⟩ := List.cons.inj tail
      exact ⟨middle, by rw [parts, lf], behind.symm⟩

end FirstLine

def beforeLf (text : List Byte) : List Byte := text.takeWhile (· ≠ 10)

theorem beforeLf_append {front : List Byte} (none : (10 : Byte) ∉ front) (back : List Byte) :
    beforeLf (front ++ back) = front ++ beforeLf back := by
  refine List.takeWhile_append_of_pos fun char member => ?_
  rw [decide_eq_true_eq]
  rintro rfl
  exact none member

theorem beforeLf_line {line : List Byte} (plain : (10 : Byte) ∉ line) (rest : List Byte) :
    beforeLf (line ++ 10 :: rest) = line := by
  rw [beforeLf_append plain]
  exact List.append_nil line

theorem length_beforeLf {text : List Byte} :
    (beforeLf text).length = text.length ↔ (10 : Byte) ∉ text := by
  constructor
  · intro same some
    obtain ⟨line, rest, parts, plain⟩ := List.eq_append_cons_of_mem some
    rw [parts, beforeLf_line plain, List.length_append, List.length_cons] at same
    omega
  · intro none
    have all := beforeLf_append none []
    rw [List.append_nil] at all
    rw [all, List.length_append]
    rfl

namespace LineReader

variable {data line rest : List Byte}

theorem findNewLine_eq (data : List Byte) (start : Nat) :
    findNewLine data start = start + (beforeLf (data.drop start)).length := rfl

theorem findNewLine_append (read : List Byte) (none : (10 : Byte) ∉ data) :
    findNewLine (data ++ read) data.length = (beforeLf (data ++ read)).length := by
  rw [findNewLine_eq, List.drop_left, beforeLf_append none, List.length_append]

/-- Reading on goes up to the end of a line that fits the buffer. -/
theorem fill_run {ibuf : Source} {pos : Nat} (first : FirstLine (data ++ ibuf.rest) line rest)
    (none : (10 : Byte) ∉ data) (fits : line.length < capacity) :
    ∃ middle ibuf', fill data ibuf pos = (line ++ 10 :: middle, ibuf', line.length) ∧
      middle ++ ibuf'.rest = rest ∧ (line ++ 10 :: middle).length ≤ capacity := by
  induction data, ibuf, pos using fill.induct with
  | case1 data ibuf pos read empty =>
    have small := first.front_le rfl none
    have ended := (ibuf.partialRead_eq (capacity - data.length)).2.2 (by omega) empty
    have parts := first.parts
    rw [ended, List.append_nil] at parts
    exact absurd (by rw [parts]; simp) none
  | case2 data ibuf pos read nonempty more pos' goesOn ih =>
    have whole : more ++ read.2.rest = data ++ ibuf.rest := ibuf.partialRead_append data _
    have none' : (10 : Byte) ∉ more :=
      length_beforeLf.mp ((findNewLine_append _ none).symm.trans goesOn)
    rw [fill, dif_neg nonempty]
    rw [if_pos goesOn]
    exact ih (by rw [whole]; exact first) none'
  | case3 data ibuf pos read nonempty more pos' found =>
    have fits' := (ibuf.partialRead_eq (capacity - data.length)).2.1
    have whole : more ++ read.2.rest = data ++ ibuf.rest := ibuf.partialRead_append data _
    have some : (10 : Byte) ∈ more := by
      by_contra none'
      exact found ((findNewLine_append _ none).trans (length_beforeLf.mpr none'))
    have small := first.front_le rfl none
    obtain ⟨middle, same, behind⟩ := first.front_eq whole.symm some
    have place : pos' = line.length := by
      refine (findNewLine_append _ none).trans ?_
      change (beforeLf more).length = _
      rw [same, beforeLf_line first.plain]
    refine ⟨middle, read.2, ?_, behind, ?_⟩
    · rw [fill, dif_neg nonempty]
      rw [if_neg found]
      exact Prod.ext same (Prod.ext rfl place)
    · rw [← same, List.length_append]
      have room : read.1.length ≤ capacity - data.length := fits'
      omega

/-- What a line reader has not given yet. -/
structure Pending (reader : LineReader) (rest : List Byte) : Prop where
  inside : reader.eol ≤ reader.data.length
  text : reader.data.drop reader.eol ++ reader.ibuf.rest = rest
  fits : reader.data.length ≤ capacity

theorem pending_fresh (source : Source) : Pending (fresh source) source.rest :=
  ⟨Nat.le_refl _, rfl, Nat.zero_le _⟩

/-- A reader that will give nothing any more. -/
def AtEnd (reader : LineReader) : Prop :=
  reader.data.length < reader.eol ∨ (reader.eol = reader.data.length ∧ reader.ibuf.rest = [])

theorem nextLine_line {reader : LineReader} (pending : Pending reader (line ++ 10 :: rest))
    (plain : (10 : Byte) ∉ line) (fits : line.length < capacity) :
    ∃ after, reader.nextLine = .ok (true, after) ∧ after.getBuf = line ++ [10] ∧
      Pending after rest := by
  have first : FirstLine (reader.data.drop reader.eol ++ reader.ibuf.rest) line rest :=
    ⟨pending.text, plain⟩
  have inside : ¬ reader.eof < reader.eol := Nat.not_lt.mpr pending.inside
  unfold nextLine
  rw [if_neg inside]
  by_cases some : (10 : Byte) ∈ reader.data.drop reader.eol
  · obtain ⟨middle, same, behind⟩ := first.front_eq rfl some
    have length := congrArg List.length same
    rw [List.length_drop, List.length_append, List.length_cons] at length
    have found : findNewLine reader.data reader.eol = reader.eol + line.length := by
      rw [findNewLine_eq, same, beforeLf_line plain]
    have short : ¬ reader.eol + line.length = reader.data.length := by omega
    refine ⟨⟨reader.data, reader.eol + line.length + 1, reader.eol, reader.ibuf⟩, ?_, ?_, ?_⟩
    · have some' : ¬ reader.data.length = 0 := by omega
      simp only [found, eof, if_neg short, if_neg some']
    · have taken : (reader.data.take reader.eol).length = reader.eol :=
        List.length_take_of_le pending.inside
      rw [getBuf]
      rw [List.drop_take, same]
      have count : reader.eol + line.length + 1 - reader.eol = (line ++ [10]).length := by
        rw [List.length_append, List.length_singleton]
        omega
      have split : line ++ 10 :: middle = (line ++ [10]) ++ middle := by simp
      rw [count, split, List.take_left]
    · refine ⟨?_, ?_, pending.fits⟩
      · change reader.eol + line.length + 1 ≤ reader.data.length
        omega
      · have count : reader.eol + line.length + 1 = reader.eol + (line ++ [10]).length := by
          rw [List.length_append, List.length_singleton]
          omega
        have split : line ++ 10 :: middle = (line ++ [10]) ++ middle := by simp
        rw [count, ← List.drop_drop, same, split, List.drop_left, behind]
  · have found : findNewLine reader.data reader.eol = reader.data.length := by
      rw [findNewLine_eq, length_beforeLf.mpr some, List.length_drop]
      have within := pending.inside
      omega
    obtain ⟨middle, ibuf, filled, behind, fits'⟩ :=
      @fill_run _ _ _ _ reader.data.length first some fits
    have short : ¬ line.length = (line ++ 10 :: middle).length := by
      rw [List.length_append, List.length_cons]
      omega
    have split : line ++ 10 :: middle = (line ++ [10]) ++ middle := by simp
    have count : line.length + 1 = (line ++ [10]).length := by simp
    refine ⟨⟨line ++ 10 :: middle, line.length + 1, 0, ibuf⟩, ?_, ?_, ?_⟩
    · simp only [found, eof, if_true, filled, if_neg short]
      rw [if_neg (by simp)]
    · change ((line ++ 10 :: middle).take (line.length + 1)).drop 0 = _
      rw [List.drop_zero, count, split, List.take_left]
    · refine ⟨?_, ?_, fits'⟩
      · change line.length + 1 ≤ _
        rw [List.length_append, List.length_cons]
        omega
      · rw [count, split, List.drop_left, behind]

theorem Pending.atEnd {reader : LineReader} (pending : Pending reader []) : AtEnd reader := by
  obtain ⟨front, back⟩ := List.append_eq_nil_iff.mp pending.text
  right
  exact ⟨Nat.le_antisymm pending.inside (List.drop_eq_nil_iff.mp front), back⟩

theorem nextLine_end {reader : LineReader} (ended : AtEnd reader) :
    ∃ after, reader.nextLine = .ok (false, after) ∧ AtEnd after := by
  unfold nextLine
  rcases ended with beyond | ⟨same, empty⟩
  · exact ⟨reader, if_pos beyond, .inl beyond⟩
  · have inside : ¬ reader.eof < reader.eol := by
      rw [same]
      exact Nat.lt_irrefl _
    have none : reader.data.drop reader.eol = [] := by rw [same, List.drop_length]
    have found : findNewLine reader.data reader.eol = reader.data.length := by
      rw [findNewLine_eq, none, same]
      rfl
    have nothing : (reader.ibuf.partialRead (capacity - ([] : List Byte).length)).1 = [] := by
      have parts := (reader.ibuf.partialRead_eq (capacity - ([] : List Byte).length)).1
      rw [empty] at parts
      exact (List.append_eq_nil_iff.mp parts).1
    have rest : (reader.ibuf.partialRead (capacity - ([] : List Byte).length)).2.rest = [] := by
      have parts := (reader.ibuf.partialRead_eq (capacity - ([] : List Byte).length)).1
      rw [empty] at parts
      exact (List.append_eq_nil_iff.mp parts).2
    have filled : fill [] reader.ibuf reader.data.length =
        ([], (reader.ibuf.partialRead (capacity - ([] : List Byte).length)).2,
          reader.data.length) := by
      rw [fill, dif_pos nothing]
    rw [if_neg inside]
    simp only [found, eof, if_true, none, filled, List.length_nil]
    refine ⟨_, rfl, ?_⟩
    split
    · rename_i zero
      exact .inr ⟨zero, rest⟩
    · exact .inl (Nat.succ_pos _)

end LineReader

/-! What successive calls of the line reader give, up to the end of a file. -/

/-- What one call of `next_line` gives. -/
inductive Outcome where
  /-- `Ok`, with these characters in `get_buf`. -/
  | line (buf : List Byte)
  /-- `Ok`, but `get_buf` ends behind what was read. -/
  | pastTheEnd
  | eof
  | thrown
  deriving DecidableEq, Repr

/-- A file: its lines, what is behind the last new line, and how it is read. -/
structure TextFile where
  lines : List (List Byte)
  tail : List Byte
  sizes : List Nat
  plain : ∀ line ∈ lines, (10 : Byte) ∉ line
  plainTail : (10 : Byte) ∉ tail
  fits : ∀ line ∈ lines, line.length < LineReader.capacity

namespace TextFile

def source (file : TextFile) : Source :=
  ⟨file.lines.flatMap (· ++ [10]) ++ file.tail, file.sizes⟩

/-- What is to be given for a file: each line; then the end of the file, also if it is asked
for again, or an error because the last line has no end. -/
def outcomes (lines : List (List Byte)) (tail : List Byte) (again : Nat) : List Outcome :=
  lines.map (fun line => .line (line ++ [10])) ++
    if tail = [] then List.replicate (again + 1) .eof else [.thrown]

end TextFile

namespace LineReader

def outcome (there : Bool) (after : LineReader) : Outcome :=
  if there then
    if after.eol ≤ after.eof then .line after.getBuf else .pastTheEnd
  else .eof

/-- So many calls, or up to the first that throws, each with the state it was made in. -/
def calls : Nat → LineReader → List (LineReader × Outcome)
  | 0, _ => []
  | count + 1, reader =>
    match reader.nextLine with
    | .error _ => [(reader, .thrown)]
    | .ok (there, after) => (reader, outcome there after) :: calls count after

theorem calls_ok {reader after : LineReader} {there : Bool} (count : Nat)
    (given : reader.nextLine = .ok (there, after)) :
    calls (count + 1) reader = (reader, outcome there after) :: calls count after := by
  simp only [calls, given]

theorem calls_error {reader : LineReader} {error : ErrorId} (count : Nat)
    (given : reader.nextLine = .error error) :
    calls (count + 1) reader = [(reader, .thrown)] := by
  simp only [calls, given]

/-- A line without an end is in the buffer, behind another, and there is nothing to read. -/
def Stranded (reader : LineReader) : Prop :=
  0 < reader.eol ∧ reader.eol < reader.eof ∧ (10 : Byte) ∉ reader.data.drop reader.eol ∧
    reader.ibuf.rest = []

variable {reader : LineReader} {line rest tail : List Byte}

/-- Without a new line, reading on goes up to the end or up to the end of the buffer. If
nothing is read, the position stays what it was. -/
theorem fill_tail {data : List Byte} {ibuf : Source} {pos : Nat}
    (plain : (10 : Byte) ∉ data ++ ibuf.rest) :
    ((fill data ibuf pos).1 = data ∧ (fill data ibuf pos).2.2 = pos ∧
        (ibuf.rest = [] ∨ capacity ≤ data.length)) ∨
      ((fill data ibuf pos).2.2 = (fill data ibuf pos).1.length ∧
        (fill data ibuf pos).1 ≠ [] ∧ ibuf.rest ≠ []) := by
  induction data, ibuf, pos using fill.induct with
  | case1 data ibuf pos read empty =>
    left
    rw [fill, dif_pos empty]
    refine ⟨rfl, rfl, ?_⟩
    by_cases room : 0 < capacity - data.length
    · exact .inl ((ibuf.partialRead_eq (capacity - data.length)).2.2 room empty)
    · exact .inr (by omega)
  | case2 data ibuf pos read nonempty more pos' goesOn ih =>
    right
    obtain ⟨parts, _, _⟩ := ibuf.partialRead_eq (capacity - data.length)
    have whole : more ++ read.2.rest = data ++ ibuf.rest := ibuf.partialRead_append data _
    have some : more ≠ [] := fun none => nonempty (List.append_eq_nil_iff.mp none).2
    have unread : ibuf.rest ≠ [] := by
      intro none
      rw [none] at parts
      exact nonempty (List.append_eq_nil_iff.mp parts).1
    rw [fill, dif_neg nonempty]
    rw [if_pos goesOn]
    rcases ih (by rw [whole]; exact plain) with ⟨same, stays, _⟩ | ⟨ends, given, _⟩
    · refine ⟨stays.trans (goesOn.trans ?_), ?_, unread⟩
      · exact congrArg List.length same.symm
      · exact fun none => some (same.symm.trans none)
    · exact ⟨ends, given, unread⟩
  | case3 data ibuf pos read nonempty more pos' found =>
    exfalso
    have whole : more ++ read.2.rest = data ++ ibuf.rest := ibuf.partialRead_append data _
    have none : (10 : Byte) ∉ more := by
      intro some
      apply plain
      rw [← whole]
      exact List.mem_append_left _ some
    have none' : (10 : Byte) ∉ data := fun some => plain (List.mem_append_left _ some)
    exact found ((findNewLine_append _ none').trans (length_beforeLf.mpr none))

theorem nextLine_tail (pending : Pending reader tail) (plain : (10 : Byte) ∉ tail)
    (some : tail ≠ []) :
    (reader.Stranded → ∃ after, reader.nextLine = .ok (true, after) ∧ after.eof < after.eol) ∧
      (¬ reader.Stranded → reader.nextLine = .error .transportReadFailed) := by
  have inside : ¬ reader.eof < reader.eol := Nat.not_lt.mpr pending.inside
  have text := pending.text
  rw [← text] at plain some
  have none : (10 : Byte) ∉ reader.data.drop reader.eol :=
    fun member => plain (List.mem_append_left _ member)
  have found : findNewLine reader.data reader.eol = reader.eof := by
    rw [findNewLine_eq, length_beforeLf.mpr none, List.length_drop]
    exact Nat.add_sub_cancel' pending.inside
  have left : (reader.data.drop reader.eol).length = reader.data.length - reader.eol :=
    List.length_drop
  have within := pending.inside
  have fits := pending.fits
  unfold nextLine
  rw [if_neg inside]
  simp only [found, if_true]
  rcases @fill_tail _ _ reader.eof plain with ⟨same, stays, why⟩ | ⟨ends, given, unread⟩
  · constructor
    · rintro ⟨behind, before, _, _⟩
      have short : ¬ reader.eof = (reader.data.drop reader.eol).length := by
        rw [left, eof]
        omega
      have filled : ¬ (reader.data.drop reader.eol).length = 0 := by
        rw [eof] at before
        omega
      rw [same, stays, if_neg short, if_neg filled, if_neg short]
      refine ⟨_, rfl, ?_⟩
      show (reader.data.drop reader.eol).length < reader.eof + 1
      rw [left, eof]
      omega
    · intro reachable
      have front : reader.eol = 0 := by
        by_contra behind
        rcases why with empty | full
        · have before : reader.eol < reader.eof := by
            rw [empty, List.append_nil] at some
            have positive := List.length_pos_of_ne_nil some
            rw [eof]
            omega
          exact reachable ⟨by omega, before, none, empty⟩
        · omega
      have all : reader.eof = (reader.data.drop reader.eol).length := by
        rw [left, eof, front]
        rfl
      have filled : ¬ (reader.data.drop reader.eol).length = 0 := by
        intro zero
        have empty := List.eq_nil_of_length_eq_zero zero
        rcases why with nothing | full
        · exact some (by rw [empty, nothing]; rfl)
        · have bounded : 0 < capacity := by decide
          omega
      rw [same, stays, if_neg filled, if_pos all]
  · constructor
    · rintro ⟨_, _, _, empty⟩
      exact (unread empty).elim
    · intro _
      have filled : ¬ (fill (reader.data.drop reader.eol) reader.ibuf reader.eof).1.length = 0 :=
        fun zero => given (List.eq_nil_of_length_eq_zero zero)
      rw [if_neg filled, if_pos ends]

theorem calls_end {count : Nat} (ended : AtEnd reader) :
    (calls count reader).map Prod.snd = List.replicate count .eof ∧
      ∀ call ∈ calls count reader, ¬ call.1.Stranded := by
  induction count generalizing reader with
  | zero => exact ⟨rfl, fun _ member => (List.not_mem_nil member).elim⟩
  | succ count ih =>
    obtain ⟨after, given, ended'⟩ := nextLine_end ended
    obtain ⟨all, none⟩ := ih ended'
    rw [calls_ok count given]
    constructor
    · rw [List.map_cons, all, List.replicate_succ]
      rfl
    · intro call member
      rcases List.mem_cons.mp member with rfl | later
      · rintro ⟨_, before, _, _⟩
        change reader.eol < reader.data.length at before
        rcases ended with beyond | ⟨same, _⟩ <;> omega
      · exact none call later

/-- The calls give the lines of a file and its end exactly if none of them is made with a
stranded line. -/
theorem calls_pending {lines : List (List Byte)} {again : Nat}
    (pending : Pending reader (lines.flatMap (· ++ [10]) ++ tail))
    (plain : ∀ line ∈ lines, (10 : Byte) ∉ line) (plainTail : (10 : Byte) ∉ tail)
    (fits : ∀ line ∈ lines, line.length < capacity) :
    (calls (lines.length + (again + 1)) reader).map Prod.snd =
        TextFile.outcomes lines tail again ↔
      ∀ call ∈ calls (lines.length + (again + 1)) reader, ¬ call.1.Stranded := by
  induction lines generalizing reader with
  | nil =>
    rw [List.length_nil, Nat.zero_add]
    by_cases some : tail = []
    · subst some
      obtain ⟨all, none⟩ := @calls_end _ (again + 1) pending.atEnd
      exact iff_of_true all none
    · obtain ⟨past, ends⟩ := nextLine_tail pending plainTail some
      simp only [TextFile.outcomes, List.map_nil, List.nil_append, if_neg some]
      by_cases stranded : reader.Stranded
      · obtain ⟨after, given, beyond⟩ := past stranded
        have behind : ¬ after.eol ≤ after.eof := Nat.not_le.mpr beyond
        simp only [calls_ok again given, outcome, if_true, if_neg behind, List.map_cons,
          List.mem_cons]
        refine iff_of_false ?_ ?_
        · intro same
          cases (List.cons.inj same).1
        · intro none
          exact none _ (.inl rfl) stranded
      · simp only [calls_error again (ends stranded), List.map_cons, List.map_nil,
          List.mem_singleton]
        exact iff_of_true trivial (by rintro call rfl; exact stranded)
  | cons line lines ih =>
    have split : (line :: lines).flatMap (· ++ [10]) ++ tail =
        line ++ 10 :: (lines.flatMap (· ++ [10]) ++ tail) := by simp
    rw [split] at pending
    obtain ⟨after, given, buf, pending'⟩ := nextLine_line pending
      (plain line List.mem_cons_self) (fits line List.mem_cons_self)
    have reachable : ¬ reader.Stranded := by
      rintro ⟨_, _, none, empty⟩
      have text := pending.text
      rw [empty, List.append_nil] at text
      exact none (by rw [text]; simp)
    have within : after.eol ≤ after.eof := pending'.inside
    have later := ih pending' (fun other member => plain other (List.mem_cons_of_mem _ member))
      (fun other member => fits other (List.mem_cons_of_mem _ member))
    have count : (line :: lines).length + (again + 1) = lines.length + (again + 1) + 1 := by
      rw [List.length_cons]
      omega
    have expected : TextFile.outcomes (line :: lines) tail again =
        .line (line ++ [10]) :: TextFile.outcomes lines tail again := rfl
    rw [count, calls_ok _ given, expected]
    simp only [outcome, if_true, if_pos within, buf, List.map_cons, List.mem_cons,
      List.cons.injEq, true_and]
    rw [later]
    constructor
    · rintro none call (rfl | member)
      · exact reachable
      · exact none call member
    · exact fun none call member => none call (.inr member)

/-- Lines, and then the end or an error: this is what is given exactly if no call finds a
last line without an end that is all in the buffer and behind another one. -/
theorem calls_file (file : TextFile) (again : Nat) :
    (calls (file.lines.length + (again + 1)) (fresh file.source)).map Prod.snd =
        TextFile.outcomes file.lines file.tail again ↔
      ∀ call ∈ calls (file.lines.length + (again + 1)) (fresh file.source),
        ¬ call.1.Stranded :=
  calls_pending (pending_fresh file.source) file.plain file.plainTail file.fits

/-- A line and a letter that are read at once. -/
def strandedFile : TextFile where
  lines := [[97]]
  tail := [98]
  sizes := []
  plain := by decide
  plainTail := by decide
  fits := by decide

theorem calls_strandedFile :
    (calls (strandedFile.lines.length + 1) (fresh strandedFile.source)).map Prod.snd ≠
      TextFile.outcomes strandedFile.lines strandedFile.tail 0 := by
  simp [calls, nextLine, fill, findNewLine, fresh, strandedFile, TextFile.source,
    TextFile.outcomes, Source.partialRead, capacity, lineMax, outcome, eof]

end LineReader

end Redemption.Transport.Mwrm
