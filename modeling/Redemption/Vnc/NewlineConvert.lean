import Redemption.Foundation.Buffer
import Redemption.Foundation.ByteStream

/-! Newlines of Windows in text for Linux, and those of Linux in text for Windows. -/
namespace Redemption.Vnc.NewlineConvert

open Foundation

/-- Part of the memory. -/
structure View where
  start : Nat
  size : Nat
  deriving DecidableEq, Repr

abbrev View.stop (view : View) : Nat := view.start + view.size

abbrev Memory := Nat → Byte

def CR : Byte := 0x0D

def LF : Byte := 0x0A

inductive NewlineError where
  | streamMemoryTooSmall
  deriving DecidableEq, Repr

def View.read (view : View) (memory : Memory) (address : Nat) : Checked NewlineError Byte :=
  if view.start ≤ address ∧ address < view.stop then .ok (memory address)
  else .error .outOfBounds

def View.write (view : View) (memory : Memory) (address : Nat) (byte : Byte) :
    Checked NewlineError Memory :=
  if view.start ≤ address ∧ address < view.stop then .ok (Function.update memory address byte)
  else .error .outOfBounds

section WindowsToLinux

/-- The loop that passes over what stays as it is, `remaining` bytes before its `last`. -/
def skipKept (source : View) (memory : Memory) : Nat → Nat → Checked NewlineError Nat
  | 0, first => .ok first
  | remaining + 1, first => do
    let c ← source.read memory first
    if c ≠ CR then skipKept source memory remaining (first + 1)
    else if remaining = 0 then .ok first
    else
      let next ← source.read memory (first + 1)
      if next ≠ LF then skipKept source memory remaining (first + 1) else .ok first

/-- Where a loop has come to: `last - first` bytes are left to it. -/
structure Cursor where
  memory : Memory
  remaining : Nat
  first : Nat
  p : Nat

/-- The loop for a destination that is shorter than the source: every newline that is converted
moves `last` on, and at the end of the source the loop is left. -/
def convertShort (source destination : View) (memory : Memory) :
    Nat → Nat → Nat → Checked NewlineError Cursor
  | 0, first, p => .ok ⟨memory, 0, first, p⟩
  | remaining + 1, first, p => do
    let c ← source.read memory first
    if c = CR then
      let next ← source.read memory (first + 1)
      if next = LF then
        let byte ← source.read memory (first + 1)
        let memory ← destination.write memory p byte
        if first + (remaining + 1) + 1 = source.stop then .ok ⟨memory, remaining, first + 2, p + 1⟩
        else convertShort source destination memory remaining (first + 2) (p + 1)
      else
        let memory ← destination.write memory p c
        convertShort source destination memory remaining (first + 1) (p + 1)
    else
      let memory ← destination.write memory p c
      convertShort source destination memory remaining (first + 1) (p + 1)

/-- The loop over the rest of the source. -/
def convertRest (source destination : View) (memory : Memory) :
    Nat → Nat → Nat → Checked NewlineError (Memory × Nat)
  | 0, _, p => .ok (memory, p)
  | 1, first, p => do
    let c ← source.read memory first
    let memory ← destination.write memory p c
    .ok (memory, p + 1)
  | remaining + 2, first, p => do
    let c ← source.read memory first
    if c = CR then
      let next ← source.read memory (first + 1)
      if next = LF then
        let memory ← destination.write memory p next
        convertRest source destination memory remaining (first + 2) (p + 1)
      else
        let memory ← destination.write memory p c
        convertRest source destination memory (remaining + 1) (first + 1) (p + 1)
    else
      let memory ← destination.write memory p c
      convertRest source destination memory (remaining + 1) (first + 1) (p + 1)

/-- What follows the bytes that are kept. -/
def convertFrom (source destination : View) (memory : Memory) (first p : Nat) :
    Checked NewlineError (Memory × Nat) := do
  let cursor ← (if destination.size < source.size then
      convertShort source destination memory (source.start + destination.size - first) first p
    else .ok ⟨memory, source.stop - first, first, p⟩ : Checked NewlineError Cursor)
  if cursor.p ≠ destination.stop then
    convertRest source destination cursor.memory cursor.remaining cursor.first cursor.p
  else .ok (cursor.memory, cursor.p)

/-- `windows_to_linux_newline_convert`: the memory, and where what was written ends. -/
def windowsToLinux (memory : Memory) (source destination : View) :
    Checked NewlineError (Memory × Nat) := do
  let first ← (if destination.start = source.start then
      skipKept source memory (min destination.size source.size) source.start
    else .ok source.start : Checked NewlineError Nat)
  convertFrom source destination memory first (destination.start + (first - source.start))

end WindowsToLinux

section LinuxToWindows

/-- `memchr`: where the first newline of a text of the source is, counted from its start. -/
def memchr (source : View) (memory : Memory) : Nat → Nat → Checked NewlineError (Option Nat)
  | _, 0 => .ok none
  | s, length + 1 => do
    let c ← source.read memory s
    if c = LF then .ok (some 0)
    else
      let found ← memchr source memory (s + 1) length
      .ok (found.map (· + 1))

def memcpy (source destination : View) (memory : Memory) (d s length : Nat) :
    Checked NewlineError Memory :=
  if source.start ≤ s ∧ s + length ≤ source.stop ∧
      destination.start ≤ d ∧ d + length ≤ destination.stop then
    .ok fun address => if d ≤ address ∧ address < d + length then memory (s + (address - d))
      else memory address
  else .error .outOfBounds

/-- What is written for a line: its text, which may be empty, and the newline. -/
def writeLine (source destination : View) (memory : Memory) (d s l : Nat) :
    Checked NewlineError Memory := do
  let copied ← (if l = 0 then .ok memory else memcpy source destination memory d s l :
    Checked NewlineError Memory)
  let memory ← destination.write copied (d + l) CR
  destination.write memory (d + l + 1) LF

/-- The loop over the newlines, and what is behind the last. -/
def convertLines (source destination : View) (memory : Memory) (s sLength d dLength : Nat) :
    Checked NewlineError (Memory × Nat) :=
  match memchr source memory s sLength with
  | .error fault => .error fault
  | .ok none =>
    if sLength > dLength then .error (.raised .streamMemoryTooSmall)
    else do
      let memory ← memcpy source destination memory d s sLength
      .ok (memory, d + sLength)
  | .ok (some l) =>
    if l + 2 > dLength then .error (.raised .streamMemoryTooSmall)
    else
      match writeLine source destination memory d s l with
      | .error fault => .error fault
      | .ok memory =>
        if l < sLength then
          convertLines source destination memory (s + l + 1) (sLength - (l + 1)) (d + l + 2)
            (dLength - l - 2)
        else .error .outOfBounds
termination_by sLength

/-- `linux_to_windows_newline_convert`. -/
def linuxToWindows (memory : Memory) (source destination : View) :
    Checked NewlineError (Memory × Nat) :=
  convertLines source destination memory source.start source.size destination.start
    destination.size

end LinuxToWindows

/-- The text with every pair of CR and LF replaced by LF. -/
def toLinux : List Byte → List Byte
  | [] => []
  | [c] => [c]
  | c :: next :: rest =>
    if c = CR ∧ next = LF then LF :: toLinux rest else c :: toLinux (next :: rest)

/-- The text with every LF replaced by a pair of CR and LF. -/
def toWindows (text : List Byte) : List Byte :=
  text.flatMap fun c => if c = LF then [CR, LF] else [c]

/-- No CR stands before an LF. -/
def NoPair (text : List Byte) : Prop := ¬[CR, LF] <:+: text

theorem length_toLinux_le (text : List Byte) : (toLinux text).length ≤ text.length := by
  fun_induction toLinux text with
  | case1 => exact Nat.le_refl _
  | case2 => exact Nat.le_refl _
  | case3 c next rest pair ih => simp only [List.length_cons]; omega
  | case4 c next rest single ih =>
    simp only [List.length_cons] at ih ⊢
    omega

theorem toLinux_cons {c : Byte} {rest : List Byte} (kept : c ≠ CR ∨ rest.head? ≠ some LF) :
    toLinux (c :: rest) = c :: toLinux rest := by
  cases rest with
  | nil => rfl
  | cons next rest =>
    rw [toLinux, if_neg]
    rintro ⟨rfl, rfl⟩
    simp at kept

theorem toLinux_pair (rest : List Byte) : toLinux (CR :: LF :: rest) = LF :: toLinux rest := by
  rw [toLinux, if_pos ⟨rfl, rfl⟩]

theorem toLinux_toWindows {text : List Byte} (none : NoPair text) :
    toLinux (toWindows text) = text := by
  induction text with
  | nil => rfl
  | cons c rest ih =>
    have later : NoPair rest := fun pair => none (pair.trans (List.suffix_cons c rest).isInfix)
    rw [toWindows, List.flatMap_cons]
    by_cases newline : c = LF
    · subst newline
      rw [if_pos rfl]
      exact (toLinux_pair _).trans (congrArg (LF :: ·) (ih later))
    · rw [if_neg newline]
      refine (toLinux_cons ?_).trans (congrArg (c :: ·) (ih later))
      by_cases cr : c = CR
      · right
        subst cr
        cases rest with
        | nil => nofun
        | cons next rest =>
          have other : next ≠ LF := by
            rintro rfl
            exact none ⟨[], rest, rfl⟩
          rw [List.flatMap_cons, if_neg other]
          exact fun same => other (Option.some.inj same)
      · exact .inl cr

section Holds

/-- A text stands at an address. -/
def Holds (memory : Memory) : Nat → List Byte → Prop
  | _, [] => True
  | address, c :: rest => memory address = c ∧ Holds memory (address + 1) rest

variable {memory after : Memory} {address p : Nat} {text : List Byte}

theorem Holds.frame (holds : Holds memory address text)
    (same : ∀ other, address ≤ other → other < address + text.length → after other = memory other) :
    Holds after address text := by
  induction text generalizing address with
  | nil => trivial
  | cons c rest ih =>
    obtain ⟨here, later⟩ := holds
    rw [List.length_cons] at same
    refine ⟨?_, ih later fun other low high => same other (by omega) (by omega)⟩
    rw [same address (Nat.le_refl _) (by omega), here]

theorem holds_append {front back : List Byte} :
    Holds memory address (front ++ back) ↔
      Holds memory address front ∧ Holds memory (address + front.length) back := by
  induction front generalizing address with
  | nil => simp [Holds]
  | cons c front ih =>
    rw [List.cons_append, Holds, Holds, ih, List.length_cons, and_assoc,
      show address + 1 + front.length = address + (front.length + 1) by omega]

/-- What stands in a view. -/
def View.bytes (view : View) (memory : Memory) : List Byte :=
  (List.range view.size).map fun index => memory (view.start + index)

theorem View.length_bytes (view : View) (memory : Memory) : (view.bytes memory).length = view.size := by
  simp [View.bytes]

theorem holds_bytes (view : View) (memory : Memory) : Holds memory view.start (view.bytes memory) := by
  obtain ⟨start, size⟩ := view
  unfold View.bytes
  induction size generalizing start with
  | zero => trivial
  | succ size ih =>
    rw [List.range_succ_eq_map, List.map_cons, List.map_map]
    refine ⟨rfl, ?_⟩
    have later := ih (start + 1)
    refine Eq.mp (congrArg (Holds memory (start + 1)) (List.map_congr_left fun index _ => ?_)) later
    change memory (start + 1 + index) = memory (start + (index + 1))
    rw [Nat.add_assoc, Nat.add_comm 1]

theorem bytes_of_holds (holds : Holds memory address text) :
    View.bytes ⟨address, text.length⟩ memory = text := by
  induction text generalizing address with
  | nil => rfl
  | cons c rest ih =>
    rw [View.bytes, List.length_cons, List.range_succ_eq_map, List.map_cons, List.map_map]
    refine congrArg₂ List.cons holds.1 (Eq.trans (List.map_congr_left fun index _ => ?_)
      (ih holds.2))
    change memory (address + (index + 1)) = memory (address + 1 + index)
    rw [Nat.add_assoc, Nat.add_comm 1]

/-- From an address on a text was written, and nothing else. -/
structure Written (before after : Memory) (p : Nat) (text : List Byte) : Prop where
  holds : Holds after p text
  others : ∀ address, address < p ∨ p + text.length ≤ address → after address = before address

theorem written_nil (memory : Memory) (p : Nat) : Written memory memory p [] :=
  ⟨trivial, fun _ _ => rfl⟩

theorem Written.cons {c : Byte} (written : Written (Function.update memory p c) after (p + 1) text) :
    Written memory after p (c :: text) where
  holds := ⟨by rw [written.others p (by omega), Function.update_self], written.holds⟩
  others address apart := by
    rw [List.length_cons] at apart
    rw [written.others address (by omega), Function.update_of_ne (by omega)]

theorem Written.append {middle : Memory} {front back : List Byte}
    (first : Written memory middle p front) (second : Written middle after (p + front.length) back) :
    Written memory after p (front ++ back) where
  holds := holds_append.mpr
    ⟨first.holds.frame fun other _ high => second.others other (by omega), second.holds⟩
  others address apart := by
    rw [List.length_append] at apart
    rw [second.others address (by omega), first.others address (by omega)]

theorem View.read_ok {view : View} (low : view.start ≤ address) (high : address < view.stop) :
    view.read memory address = .ok (memory address) := if_pos ⟨low, high⟩

theorem View.write_ok {view : View} (low : view.start ≤ address) (high : address < view.stop)
    (c : Byte) : view.write memory address c = .ok (Function.update memory address c) :=
  if_pos ⟨low, high⟩

end Holds

section Loops

variable {source destination : View} {memory : Memory} {first p : Nat}

/-- A write leaves what is behind it in the source: it is before that, or not in the source. -/
theorem Holds.write {rest : List Byte} (holds : Holds memory (first + 1) rest) (stop p : Nat)
    (c : Byte) (ends : first + 1 + rest.length ≤ stop)
    (clear : p ≤ first ∨ stop ≤ p) : Holds (Function.update memory p c) (first + 1) rest :=
  holds.frame fun other low high => Function.update_of_ne (by omega) _ _

theorem skipKept_ok {text : List Byte} (remaining : Nat) (holds : Holds memory first text)
    (within : remaining ≤ text.length) (low : source.start ≤ first)
    (ends : first + text.length ≤ source.stop) :
    ∃ kept ≤ remaining, skipKept source memory remaining first = .ok (first + kept) ∧
      toLinux text = text.take kept ++ toLinux (text.drop kept) := by
  induction remaining generalizing first text with
  | zero => exact ⟨0, Nat.le_refl _, rfl, rfl⟩
  | succ remaining ih =>
    cases text with
    | nil => simp at within
    | cons c rest =>
      obtain ⟨here, later⟩ := holds
      rw [List.length_cons] at within ends
      have pass (kept : c ≠ CR ∨ rest.head? ≠ some LF)
          (goes : skipKept source memory (remaining + 1) first =
            skipKept source memory remaining (first + 1)) :
          ∃ kept ≤ remaining + 1,
            skipKept source memory (remaining + 1) first = .ok (first + kept) ∧
            toLinux (c :: rest) = (c :: rest).take kept ++ toLinux ((c :: rest).drop kept) := by
        obtain ⟨more, most, done, split⟩ := ih later (by omega) (by omega) (by omega)
        refine ⟨more + 1, by omega, ?_, ?_⟩
        · rw [goes, done, Nat.add_assoc, Nat.add_comm 1]
        · rw [toLinux_cons kept, split]
          rfl
      have read := @View.read_ok memory _ _ low (by omega : first < source.stop)
      rw [here] at read
      by_cases cr : c = CR
      · by_cases last : remaining = 0
        · refine ⟨0, by omega, ?_, rfl⟩
          rw [skipKept, read, ok_bind, if_neg (not_not.mpr cr), if_pos last]
          rfl
        · cases rest with
          | nil =>
            simp only [List.length_nil] at within
            omega
          | cons next rest =>
            have behind := @View.read_ok memory _ _ (Nat.le_succ_of_le low)
              (by omega : first + 1 < source.stop)
            rw [later.1] at behind
            by_cases newline : next = LF
            · refine ⟨0, by omega, ?_, rfl⟩
              rw [skipKept, read, ok_bind, if_neg (not_not.mpr cr), if_neg last, behind, ok_bind,
                if_neg (not_not.mpr newline)]
              rfl
            · refine pass (.inr fun same => newline (Option.some.inj same)) ?_
              rw [skipKept, read, ok_bind, if_neg (not_not.mpr cr), if_neg last, behind, ok_bind,
                if_pos newline]
      · refine pass (.inl cr) ?_
        rw [skipKept, read, ok_bind, if_pos cr]

theorem convertRest_ok (text : List Byte) (holds : Holds memory first text)
    (low : source.start ≤ first) (ends : first + text.length = source.stop)
    (clear : p ≤ first ∨ source.stop ≤ p) (begins : destination.start ≤ p)
    (room : p + text.length ≤ destination.stop) :
    ∃ after, convertRest source destination memory text.length first p =
        .ok (after, p + (toLinux text).length) ∧ Written memory after p (toLinux text) := by
  fun_induction toLinux text generalizing memory first p with
  | case1 => exact ⟨memory, rfl, written_nil _ _⟩
  | case2 c =>
    rw [List.length_singleton] at ends room
    refine ⟨Function.update memory p c, ?_, .cons (written_nil _ _)⟩
    rw [List.length_singleton, convertRest, View.read_ok low (by omega), holds.1, ok_bind,
      View.write_ok begins (by omega), ok_bind]
  | case3 c next rest pair ih =>
    obtain ⟨rfl, rfl⟩ := pair
    obtain ⟨here, there, later⟩ := holds
    simp only [List.length_cons] at ends room ⊢
    have behind := later.write source.stop p LF (by omega) (by omega)
    obtain ⟨after, done, written⟩ :=
      @ih _ (first + 2) (p + 1) behind (by omega) (by omega) (by omega) (by omega) (by omega)
    refine ⟨after, ?_, written.cons⟩
    rw [convertRest, View.read_ok low (by omega), here, ok_bind, if_pos rfl,
      View.read_ok (by omega) (by omega), there, ok_bind, if_pos rfl,
      View.write_ok begins (by omega), ok_bind, done]
    congr 2
    omega
  | case4 c next rest single ih =>
    obtain ⟨here, later⟩ := holds
    simp only [List.length_cons] at ends room ih ⊢
    have behind := later.write source.stop p c (by simp only [List.length_cons]; omega) clear
    obtain ⟨after, done, written⟩ :=
      @ih _ (first + 1) (p + 1) behind (by omega) (by omega) (by omega) (by omega) (by omega)
    refine ⟨after, ?_, written.cons⟩
    have goes : convertRest source destination memory (rest.length + 1 + 1) first p =
        convertRest source destination (Function.update memory p c) (rest.length + 1) (first + 1)
          (p + 1) := by
      rw [convertRest, View.read_ok low (by omega), here, ok_bind]
      by_cases cr : c = CR
      · have other : next ≠ LF := fun newline => single ⟨cr, newline⟩
        rw [if_pos cr, View.read_ok (by omega) (by omega), later.1, ok_bind, if_neg other,
          View.write_ok begins (by omega), ok_bind]
      · rw [if_neg cr, View.write_ok begins (by omega), ok_bind]
    rw [goes, done]
    congr 2
    omega

/-- What the loop for a short destination leaves: all that fits, or the end of the source is near
enough that the rest fits. -/
def EndsShort (source : View) (memory : Memory) (p : Nat) (text : List Byte) (remaining : Nat)
    (cursor : Cursor) : Prop :=
  ∃ front, Written memory cursor.memory p front ∧ cursor.p = p + front.length ∧
    (front.length = remaining ∧ front = (toLinux text).take remaining ∨
      ∃ rest, toLinux text = front ++ toLinux rest ∧ cursor.remaining = rest.length ∧
        Holds cursor.memory cursor.first rest ∧ source.start ≤ cursor.first ∧
        cursor.first + rest.length = source.stop ∧ front.length + rest.length = remaining ∧
        (cursor.p ≤ cursor.first ∨ source.stop ≤ cursor.p))

theorem EndsShort.cons {c : Byte} {text rest : List Byte} {remaining : Nat} {cursor : Cursor}
    (converted : toLinux text = c :: toLinux rest)
    (ends : EndsShort source (Function.update memory p c) (p + 1) rest remaining cursor) :
    EndsShort source memory p text (remaining + 1) cursor := by
  obtain ⟨front, written, stands, ends⟩ := ends
  refine ⟨c :: front, written.cons, ?_, ?_⟩
  · rw [stands, List.length_cons]
    omega
  · rcases ends with ⟨length, full⟩ | ⟨behind, split, count, holds, low, stop, length, clear⟩
    · left
      refine ⟨by rw [List.length_cons, length], ?_⟩
      rw [converted, List.take_succ_cons, full]
    · right
      refine ⟨behind, ?_, count, holds, low, stop, ?_, clear⟩
      · rw [converted, split, List.cons_append]
      · rw [List.length_cons]
        omega

theorem convertShort_ok (remaining : Nat) {text : List Byte} (holds : Holds memory first text)
    (short : remaining < text.length)
    (low : source.start ≤ first) (ends : first + text.length = source.stop)
    (clear : p ≤ first ∨ source.stop ≤ p) (begins : destination.start ≤ p)
    (room : p + remaining = destination.stop) :
    ∃ cursor, convertShort source destination memory remaining first p = .ok cursor ∧
      EndsShort source memory p text remaining cursor := by
  induction remaining generalizing memory first p text with
  | zero => exact ⟨_, rfl, [], written_nil _ _, rfl, .inl ⟨rfl, rfl⟩⟩
  | succ remaining ih =>
    cases text with
    | nil => simp at short
    | cons c rest =>
      obtain ⟨here, later⟩ := holds
      rw [List.length_cons] at short ends
      have read := @View.read_ok memory _ _ low (by omega : first < source.stop)
      rw [here] at read
      have behind := @View.read_ok memory _ _ (Nat.le_succ_of_le low)
        (by omega : first + 1 < source.stop)
      have write (c : Byte) := @View.write_ok memory p destination begins (by omega) c
      have pass (kept : c ≠ CR ∨ rest.head? ≠ some LF)
          (goes : convertShort source destination memory (remaining + 1) first p =
            convertShort source destination (Function.update memory p c) remaining (first + 1)
              (p + 1)) :
          ∃ cursor, convertShort source destination memory (remaining + 1) first p = .ok cursor ∧
            EndsShort source memory p (c :: rest) (remaining + 1) cursor := by
        obtain ⟨cursor, done, left⟩ := @ih _ (first + 1) (p + 1) _
          (later.write source.stop p c (by omega) clear) (by omega) (by omega) (by omega) (by omega) (by omega) (by omega)
        exact ⟨cursor, goes.trans done, left.cons (toLinux_cons kept)⟩
      by_cases cr : c = CR
      · cases rest with
        | nil => simp only [List.length_nil] at short; omega
        | cons next rest =>
          rw [later.1] at behind
          rw [List.length_cons] at short ends
          by_cases newline : next = LF
          · subst cr newline
            have kept := later.2.write source.stop p LF (by omega) (by omega)
            by_cases last : first + (remaining + 1) + 1 = source.stop
            · refine ⟨⟨Function.update memory p LF, remaining, first + 2, p + 1⟩, ?_, ?_⟩
              · rw [convertShort, read, ok_bind, if_pos rfl, behind, ok_bind, if_pos rfl, ok_bind,
                  write, ok_bind, if_pos last]
              · refine EndsShort.cons (toLinux_pair rest) ⟨[], written_nil _ _, rfl, .inr ?_⟩
                refine ⟨rest, rfl, ?_, kept, ?_, ?_, ?_, ?_⟩ <;> simp only [List.length_nil] <;> omega
            · obtain ⟨cursor, done, left⟩ := @ih _ (first + 2) (p + 1) _ kept (by omega) (by omega)
                (by omega) (by omega) (by omega) (by omega)
              refine ⟨cursor, ?_, left.cons (toLinux_pair rest)⟩
              rw [convertShort, read, ok_bind, if_pos rfl, behind, ok_bind, if_pos rfl, ok_bind,
                write, ok_bind, if_neg last]
              exact done
          · refine pass (.inr fun same => newline (Option.some.inj same)) ?_
            rw [convertShort, read, ok_bind, if_pos cr, behind, ok_bind, if_neg newline, write,
              ok_bind]
      · refine pass (.inl cr) ?_
        rw [convertShort, read, ok_bind, if_neg cr, write, ok_bind]

end Loops

section Conversions

variable {source destination : View} {memory : Memory}

/-- The two have no byte in common. -/
def Separate (source destination : View) : Prop :=
  destination.stop ≤ source.start ∨ source.stop ≤ destination.start

/-- The two are one buffer, or separate. -/
def Apart (source destination : View) : Prop :=
  destination.start = source.start ∨ Separate source destination

theorem convertFrom_ok {text : List Byte} {first p : Nat} (holds : Holds memory first text)
    (low : source.start ≤ first) (ends : first + text.length = source.stop)
    (clear : p ≤ first ∨ source.stop ≤ p) (begins : destination.start ≤ p)
    (inside : p ≤ destination.stop)
    (fits : destination.size < source.size ∨ p + text.length ≤ destination.stop)
    (short : destination.size < source.size → source.start + destination.size = first +
      (destination.stop - p) ∧ destination.stop - p < text.length) :
    ∃ after, convertFrom source destination memory first p =
        .ok (after, p + ((toLinux text).take (destination.stop - p)).length) ∧
      Written memory after p ((toLinux text).take (destination.stop - p)) := by
  unfold convertFrom
  have most := length_toLinux_le text
  by_cases small : destination.size < source.size
  · obtain ⟨count, many⟩ := short small
    rw [if_pos small, show source.start + destination.size - first = destination.stop - p by omega]
    obtain ⟨cursor, done, front, written, stands, left⟩ :=
      convertShort_ok (destination.stop - p) holds many low ends clear begins (by omega)
    rw [done, ok_bind]
    rcases left with ⟨length, full⟩ | ⟨rest, split, remaining, holds', low', stop, length, clear'⟩
    · refine ⟨cursor.memory, ?_, full ▸ written⟩
      rw [if_neg (by omega), ← full, stands]
    · have few := length_toLinux_le rest
      have all : (toLinux text).take (destination.stop - p) = front ++ toLinux rest := by
        rw [split, List.take_of_length_le (by rw [List.length_append]; omega)]
      rw [all]
      by_cases full : cursor.p = destination.stop
      · have empty : rest = [] := List.length_eq_zero_iff.mp (by omega)
        subst empty
        refine ⟨cursor.memory, ?_, ?_⟩
        · rw [if_neg (not_not.mpr full), stands, List.length_append]
          rfl
        · simpa [toLinux] using written
      · obtain ⟨after, done, written'⟩ := @convertRest_ok source destination cursor.memory
          cursor.first cursor.p rest holds' low' stop clear' (by omega) (by omega)
        refine ⟨after, ?_, written.append (stands ▸ written')⟩
        rw [if_pos full, remaining, done, stands, List.length_append, Nat.add_assoc]
  · have room := fits.resolve_left small
    rw [if_neg small, ok_bind, List.take_of_length_le (by omega)]
    by_cases full : p = destination.stop
    · have empty : text = [] := List.length_eq_zero_iff.mp (by omega)
      subst empty
      exact ⟨memory, if_neg (not_not.mpr full), written_nil _ _⟩
    · obtain ⟨after, done, written⟩ := @convertRest_ok source destination memory first p text
        holds low ends clear begins room
      refine ⟨after, ?_, written⟩
      rw [if_pos full, show source.stop - first = text.length by omega, done]

/-- The text for Linux, as much of it as there is room for, is what is written. -/
theorem windowsToLinux_ok (apart : Apart source destination) :
    ∃ after, windowsToLinux memory source destination = .ok (after, destination.start +
        ((toLinux (source.bytes memory)).take destination.size).length) ∧
      Written memory after destination.start
        ((toLinux (source.bytes memory)).take destination.size) := by
  have holds := holds_bytes source memory
  have length := source.length_bytes memory
  generalize source.bytes memory = text at holds length
  have stop : source.stop = source.start + source.size := rfl
  have stop' : destination.stop = destination.start + destination.size := rfl
  unfold windowsToLinux
  by_cases same : destination.start = source.start
  · obtain ⟨kept, most, done, split⟩ :=
      @skipKept_ok source memory source.start text (min destination.size source.size) holds
        (by omega) (Nat.le_refl _) (by omega)
    have front : (text.take kept).length = kept := by
      rw [List.length_take]
      omega
    have holds' := holds
    rw [← List.take_append_drop kept text, holds_append, front] at holds'
    obtain ⟨after, rest, written⟩ := @convertFrom_ok source destination memory
      (text.drop kept) (source.start + kept) (destination.start + kept) holds'.2 (by omega)
      (by rw [List.length_drop]; omega) (by omega) (by omega) (by omega)
      (by rw [List.length_drop]; omega) (by rw [List.length_drop]; omega)
    have out : (toLinux text).take destination.size = text.take kept ++
        (toLinux (text.drop kept)).take (destination.stop - (destination.start + kept)) := by
      rw [split, List.take_append, front, List.take_of_length_le (by omega)]
      congr 2
      omega
    rw [out]
    refine ⟨after, ?_, ?_⟩
    · rw [if_pos same, done, ok_bind, Nat.add_sub_cancel_left]
      rw [rest, List.length_append, front, Nat.add_assoc]
    · have start : Written memory memory destination.start (text.take kept) :=
        ⟨same ▸ holds'.1, fun _ _ => rfl⟩
      exact start.append (front.symm ▸ written)
  · have clear : destination.stop ≤ source.start ∨ source.stop ≤ destination.start :=
      apart.resolve_left same
    obtain ⟨after, rest, written⟩ := @convertFrom_ok source destination memory text source.start
      destination.start holds (Nat.le_refl _) (by omega) (by omega) (Nat.le_refl _) (by omega)
      (by omega) (by omega)
    rw [show destination.stop - destination.start = destination.size by omega] at rest written
    refine ⟨after, ?_, written⟩
    rw [if_neg same, ok_bind, Nat.sub_self]
    exact rest

theorem memchr_ok {text : List Byte} {s : Nat} (holds : Holds memory s text)
    (low : source.start ≤ s) (ends : s + text.length ≤ source.stop) :
    memchr source memory s text.length = .ok (text.findIdx? (· = LF)) := by
  induction text generalizing s with
  | nil => rfl
  | cons c rest ih =>
    obtain ⟨here, later⟩ := holds
    rw [List.length_cons] at ends
    rw [List.length_cons, memchr, View.read_ok low (by omega), here, ok_bind, List.findIdx?_cons]
    by_cases newline : c = LF
    · simp [newline]
    · rw [if_neg newline, ih later (by omega) (by omega), ok_bind]
      simp [newline]

theorem memcpy_ok {text : List Byte} {s d : Nat} (holds : Holds memory s text)
    (low : source.start ≤ s) (ends : s + text.length ≤ source.stop) (begins : destination.start ≤ d)
    (room : d + text.length ≤ destination.stop) :
    ∃ after, memcpy source destination memory d s text.length = .ok after ∧
      Written memory after d text := by
  refine ⟨_, if_pos ⟨low, ends, begins, room⟩, ?_, ?_⟩
  · have copied : ∀ front back, front ++ back = text → Holds memory (s + front.length) back →
        Holds (fun address => if d ≤ address ∧ address < d + text.length then
          memory (s + (address - d)) else memory address) (d + front.length) back := by
      intro front back
      induction back generalizing front with
      | nil => exact fun _ _ => trivial
      | cons c back ih =>
        intro split held
        have length := congrArg List.length split
        rw [List.length_append, List.length_cons] at length
        refine ⟨?_, ?_⟩
        · refine (if_pos (by omega)).trans ?_
          rw [Nat.add_sub_cancel_left]
          exact held.1
        · have later := ih (front ++ [c]) (by rw [List.append_assoc]; exact split)
          rw [List.length_append, List.length_singleton] at later
          exact later held.2
    exact copied [] text rfl holds
  · intro address apart
    exact if_neg (by omega)

theorem writeLine_ok {line : List Byte} {s d : Nat} (holds : Holds memory s line)
    (low : source.start ≤ s) (ends : s + line.length ≤ source.stop) (begins : destination.start ≤ d)
    (room : d + line.length + 2 ≤ destination.stop) :
    ∃ after, writeLine source destination memory d s line.length = .ok after ∧
      Written memory after d (line ++ [CR, LF]) := by
  obtain ⟨copied, done, written⟩ : ∃ copied,
      (if line.length = 0 then .ok memory
        else memcpy source destination memory d s line.length : Checked NewlineError Memory) =
        .ok copied ∧ Written memory copied d line := by
    by_cases empty : line.length = 0
    · rw [List.length_eq_zero_iff.mp empty]
      exact ⟨memory, rfl, written_nil _ _⟩
    · rw [if_neg empty]
      exact memcpy_ok holds low ends begins (by omega)
  refine ⟨_, ?_, written.append (.cons (.cons (written_nil _ _)))⟩
  rw [writeLine, done, ok_bind, View.write_ok (by omega) (by omega), ok_bind,
    View.write_ok (by omega) (by omega)]

theorem toWindows_line {line : List Byte} (none : LF ∉ line) : toWindows line = line := by
  induction line with
  | nil => rfl
  | cons c rest ih =>
    have other : c ≠ LF := fun same => none (same ▸ List.mem_cons_self)
    rw [toWindows, List.flatMap_cons, if_neg other]
    exact congrArg (c :: ·) (ih fun member => none (List.mem_cons_of_mem _ member))

theorem toWindows_append (front back : List Byte) :
    toWindows (front ++ back) = toWindows front ++ toWindows back := List.flatMap_append

theorem split_line (text : List Byte) :
    text.findIdx? (· = LF) = none ∧ LF ∉ text ∨
      ∃ line rest, text = line ++ LF :: rest ∧ LF ∉ line ∧
        text.findIdx? (· = LF) = some line.length := by
  induction text with
  | nil => exact .inl ⟨rfl, List.not_mem_nil⟩
  | cons c text ih =>
    rw [List.findIdx?_cons]
    by_cases newline : c = LF
    · exact .inr ⟨[], text, by rw [newline]; rfl, List.not_mem_nil, by simp [newline]⟩
    · rcases ih with ⟨none, free⟩ | ⟨line, rest, split, free, found⟩
      · exact .inl ⟨by simp [newline, none], by simp [free, Ne.symm newline]⟩
      · exact .inr ⟨c :: line, rest, by rw [split]; rfl, by simp [free, Ne.symm newline],
          by simp [newline, found]⟩

theorem convertLines_ok (apart : Separate source destination) (count : Nat) {memory : Memory} {text : List Byte} {s d dLength : Nat}
    (few : text.length < count) (holds : Holds memory s text) (low : source.start ≤ s)
    (ends : s + text.length = source.stop) (begins : destination.start ≤ d)
    (room : d + dLength = destination.stop) :
    if (toWindows text).length ≤ dLength then
      ∃ after, convertLines source destination memory s text.length d dLength =
          .ok (after, d + (toWindows text).length) ∧ Written memory after d (toWindows text)
    else convertLines source destination memory s text.length d dLength =
      .error (.raised .streamMemoryTooSmall) := by
  unfold Separate at apart
  induction count generalizing memory text s d dLength with
  | zero => omega
  | succ count ih =>
    rw [convertLines, memchr_ok holds low (by omega)]
    rcases split_line text with ⟨none, free⟩ | ⟨line, rest, rfl, free, found⟩
    · rw [none, toWindows_line free]
      by_cases fits : text.length ≤ dLength
      · rw [if_pos fits]
        obtain ⟨after, done, written⟩ := @memcpy_ok source destination memory text s d holds low
          (by omega) begins (by omega)
        refine ⟨after, ?_, written⟩
        simp only [Nat.not_lt.mpr fits, if_false, done, ok_bind]
      · rw [if_neg fits]
        exact if_pos (by omega)
    · rw [found]
      have whole : toWindows (line ++ LF :: rest) = (line ++ [CR, LF]) ++ toWindows rest := by
        rw [toWindows_append, toWindows_line free, List.append_assoc]
        rfl
      have length := congrArg List.length whole
      simp only [List.length_append, List.length_cons, List.length_nil] at length few ends ⊢
      rw [holds_append] at holds
      obtain ⟨front, _, behind⟩ := holds
      by_cases fits : line.length + 2 ≤ dLength
      · obtain ⟨middle, line_done, line_written⟩ := @writeLine_ok source destination memory line s d
          front low (by omega) begins (by omega)
        have kept : Holds middle (s + line.length + 1) rest :=
          behind.frame fun other low high => line_written.others other
            (by simp only [List.length_append, List.length_cons, List.length_nil]; omega)
        have later := @ih middle rest (s + line.length + 1) (d + line.length + 2)
          (dLength - line.length - 2) (by omega) kept (by omega) (by omega) (by omega) (by omega)
        simp only [show ¬line.length + 2 > dLength by omega, if_false, line_done,
          show line.length < line.length + (rest.length + 1) by omega, if_true,
          show line.length + (rest.length + 1) - (line.length + 1) = rest.length by omega]
        by_cases all : (toWindows rest).length ≤ dLength - line.length - 2
        · rw [if_pos all] at later
          obtain ⟨after, done, written⟩ := later
          rw [if_pos (by omega)]
          refine ⟨after, ?_, ?_⟩
          · rw [done, length]
            congr 2
            omega
          · rw [whole]
            refine line_written.append ?_
            simpa [Nat.add_assoc] using written
        · rw [if_neg all] at later
          rw [if_neg (by omega), later]
      · rw [if_neg (by omega)]
        exact if_pos (by omega)

/-- The text for Windows is written where it fits, and an error raised where it does not. -/
theorem linuxToWindows_ok (apart : Separate source destination) :
    if (toWindows (source.bytes memory)).length ≤ destination.size then
      ∃ after, linuxToWindows memory source destination =
          .ok (after, destination.start + (toWindows (source.bytes memory)).length) ∧
        Written memory after destination.start (toWindows (source.bytes memory))
    else linuxToWindows memory source destination = .error (.raised .streamMemoryTooSmall) := by
  have all := @convertLines_ok source destination apart (source.size + 1) memory
    (source.bytes memory) source.start destination.start destination.size
    (by rw [source.length_bytes]; omega) (holds_bytes source memory) (Nat.le_refl _)
    (by rw [source.length_bytes]) (Nat.le_refl _) rfl
  rw [source.length_bytes] at all
  exact all

end Conversions

/-- The conversions write what they should, where they should, and raise an error only for want of
room; what goes to Windows comes back. -/
theorem newlines_convert (memory : Memory) (source destination : View)
    (apart : Apart source destination) :
    (∃ after, windowsToLinux memory source destination = .ok (after, destination.start +
        ((toLinux (source.bytes memory)).take destination.size).length) ∧
      Written memory after destination.start
        ((toLinux (source.bytes memory)).take destination.size)) ∧
    (Separate source destination →
      (linuxToWindows memory source destination = .error (.raised .streamMemoryTooSmall) ↔
        destination.size < (toWindows (source.bytes memory)).length) ∧
      ((toWindows (source.bytes memory)).length ≤ destination.size →
        ∃ after stop, linuxToWindows memory source destination = .ok (after, stop) ∧
          stop = destination.start + (toWindows (source.bytes memory)).length ∧
          Written memory after destination.start (toWindows (source.bytes memory)) ∧
          (NoPair (source.bytes memory) → ∀ back : View,
            Apart ⟨destination.start, stop - destination.start⟩ back →
            ∃ final, windowsToLinux after ⟨destination.start, stop - destination.start⟩ back =
                .ok (final, back.start + ((source.bytes memory).take back.size).length) ∧
              Written after final back.start ((source.bytes memory).take back.size)))) := by
  refine ⟨windowsToLinux_ok apart, fun separate => ⟨?_, fun fits => ?_⟩⟩
  · have all := @linuxToWindows_ok source destination memory separate
    split at all
    · obtain ⟨after, done, _⟩ := all
      rw [done]
      refine iff_of_false nofun (by omega)
    · exact iff_of_true all (by omega)
  · have all := @linuxToWindows_ok source destination memory separate
    rw [if_pos fits] at all
    obtain ⟨after, done, written⟩ := all
    refine ⟨after, _, done, rfl, written, fun none back apart' => ?_⟩
    rw [Nat.add_sub_cancel_left] at apart' ⊢
    have there : View.bytes ⟨destination.start, (toWindows (source.bytes memory)).length⟩ after =
        toWindows (source.bytes memory) :=
      bytes_of_holds written.holds
    have returned := @windowsToLinux_ok _ back after apart'
    rw [there, toLinux_toWindows none] at returned
    exact returned

/-- In place, "a" and "b" on two lines. -/
theorem newlines_convert_inPlace :
    ∃ after, windowsToLinux (fun address => [0x61, CR, LF, 0x62].getD address 0) ⟨0, 4⟩ ⟨0, 4⟩ =
        .ok (after, 3) ∧
      Written (fun address => [0x61, CR, LF, 0x62].getD address 0) after 0 [0x61, LF, 0x62] :=
  (newlines_convert (fun address => [0x61, CR, LF, 0x62].getD address 0) ⟨0, 4⟩ ⟨0, 4⟩
    (.inl rfl)).1

end Redemption.Vnc.NewlineConvert
