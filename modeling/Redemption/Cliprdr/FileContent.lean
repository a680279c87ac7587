import Redemption.Foundation.Region
import Redemption.Foundation.ByteStream

/-! `FileContent`: what is copied from a file, in memory or, when there is too much of it, in a
temporary file that is read through a window. -/
namespace Redemption.Cliprdr

open Foundation

def fileContentMemoryMax : Nat := 512 * 1024

inductive FileContentError where
  | assertion
  | unexpected
  | rdpDataTruncated
  deriving DecidableEq, Repr

/-- The temporary file. Writes, reads and seeks transfer everything that exists. -/
structure TmpFile where
  data : List Byte
  offset : Nat
  deriving DecidableEq, Repr

def TmpFile.write (file : TmpFile) (bytes : List Byte) : TmpFile where
  data := file.data.take file.offset ++ bytes ++ file.data.drop (file.offset + bytes.length)
  offset := file.offset + bytes.length

def TmpFile.read (file : TmpFile) (len : Nat) : List Byte × TmpFile :=
  let bytes := (file.data.drop file.offset).take len
  (bytes, { file with offset := file.offset + bytes.length })

/-- The members. What a buffer holds before it is written to is any bytes. -/
structure FileContent where
  memoryBuffer : Buffer Byte fileContentMemoryMax
  requested : Buffer Byte fileContentMemoryMax
  pos : Nat
  capacity : Nat
  fd : Option TmpFile
  dataLen : Nat
  dataPos : Nat

namespace FileContent

variable (d : FileContent)

/-- `remaining` of the window. -/
abbrev remaining : Nat := d.capacity - d.pos

/-- `append`. -/
def append (data : List Byte) : Checked FileContentError FileContent :=
  if d.dataPos ≠ 0 then .error (.raised .assertion)
  else if d.dataLen + data.length ≤ fileContentMemoryMax then do
    let memoryBuffer ← d.memoryBuffer.storeBlock d.dataLen data
    .ok { d with memoryBuffer, dataLen := d.dataLen + data.length }
  else
    match d.fd with
    | some file => .ok { d with fd := some (file.write data), dataLen := d.dataLen + data.length }
    | none => do
      let memory ← d.memoryBuffer.loadBlock 0 d.dataLen
      let file := ((⟨[], 0⟩ : TmpFile).write memory).write data
      .ok { d with fd := some file, dataLen := d.dataLen + data.length }

/-- The window is moved on: what is left of it, and behind that more of the file. -/
def refill : Checked FileContentError FileContent := do
  let left ← d.requested.loadBlock d.pos d.remaining
  let moved ← d.requested.storeBlock 0 left
  let len := min (fileContentMemoryMax - d.remaining) (d.dataLen - d.dataPos)
  match d.fd with
  | none => .error (.raised .unexpected)
  | some file =>
    let (bytes, file) := file.read len
    if bytes.length ≠ len then .error (.raised .unexpected)
    else do
      let requested ← moved.storeBlock d.remaining bytes
      .ok { d with requested, pos := 0, capacity := d.remaining + len, fd := some file }

/-- `read`. -/
def read (n : Nat) : Checked FileContentError (List Byte × FileContent) :=
  if d.dataPos + n > d.dataLen ∨ n > fileContentMemoryMax then .error (.raised .rdpDataTruncated)
  else if d.dataLen ≤ fileContentMemoryMax then do
    let bytes ← d.memoryBuffer.loadBlock d.dataPos n
    .ok (bytes, { d with dataPos := d.dataPos + n })
  else do
    let d ← (if d.remaining < n then d.refill else .ok d : Checked FileContentError FileContent)
    let bytes ← d.requested.loadBlock d.pos n
    .ok (bytes, { d with pos := d.pos + n, dataPos := d.dataPos + n })

/-- `seek`, with the window emptied. -/
def seek (offset : Nat) : Checked FileContentError FileContent :=
  match d.fd with
  | none => .error (.raised .unexpected)
  | some file => .ok { d with pos := 0, capacity := 0, fd := some { file with offset } }

/-- `set_offset`. -/
def setOffset (offset : Nat) : Checked FileContentError FileContent :=
  if offset = d.dataPos then .ok d
  else if ¬offset < d.dataPos then .error (.raised .assertion)
  else
    let d := { d with dataPos := offset }
    if d.dataLen > fileContentMemoryMax then d.seek offset else .ok d

/-- `set_read_mode`. -/
def setReadMode : Checked FileContentError FileContent :=
  if d.dataPos ≠ 0 then .error (.raised .assertion)
  else if d.dataLen ≤ fileContentMemoryMax then .ok d
  else d.seek 0

/-- `clear`. -/
def clear : FileContent :=
  { d with dataLen := 0, dataPos := 0, capacity := 0, pos := 0, fd := none }

inductive Op where
  | read (n : Nat)
  | setOffset (offset : Nat)
  deriving DecidableEq, Repr

def run : FileContent → List Op → Checked FileContentError (List (List Byte))
  | _, [] => .ok []
  | d, .read n :: ops => do
    let (bytes, d) ← d.read n
    let later ← run d ops
    .ok (bytes :: later)
  | d, .setOffset offset :: ops => do
    let d ← d.setOffset offset
    run d ops

/-- A session: the appends to a cleared content, then the reads and seeks. -/
def session (chunks : List (List Byte)) (ops : List Op) :
    Checked FileContentError (List (List Byte)) := do
  let d ← chunks.foldlM append d.clear
  let d ← d.setReadMode
  run d ops

end FileContent

section Store

/-- Reads of what is there, of no more than the limit, and seeks to earlier positions. -/
def Admissible (len : Nat) : Nat → List FileContent.Op → Prop
  | _, [] => True
  | pos, .read n :: ops =>
    n ≤ fileContentMemoryMax ∧ pos + n ≤ len ∧ Admissible len (pos + n) ops
  | pos, .setOffset offset :: ops => offset ≤ pos ∧ Admissible len offset ops

def reads (content : List Byte) : Nat → List FileContent.Op → List (List Byte)
  | _, [] => []
  | pos, .read n :: ops => (content.drop pos).take n :: reads content (pos + n) ops
  | _, .setOffset offset :: ops => reads content offset ops

/-- No window is refilled while some of it is left and less than a whole window is left to read. -/
def Unbroken (len : Nat) : Nat → Nat → List FileContent.Op → Prop
  | _, _, [] => True
  | pos, window, .read n :: ops =>
    if n ≤ window then Unbroken len (pos + n) (window - n) ops
    else (window = 0 ∨ pos + fileContentMemoryMax ≤ len) ∧
      Unbroken len (pos + n) (min fileContentMemoryMax (len - pos) - n) ops
  | pos, window, .setOffset offset :: ops =>
    if offset = pos then Unbroken len pos window ops else Unbroken len offset 0 ops

end Store

namespace FileContent

/-- The bytes that were appended, while there are more to come. -/
structure Filling (content : List Byte) (d : FileContent) : Prop where
  length : d.dataLen = content.length
  start : d.dataPos = 0
  small : content.length ≤ fileContentMemoryMax → d.fd = none ∧ d.memoryBuffer.Begins content
  large : fileContentMemoryMax < content.length → d.fd = some ⟨content, content.length⟩

/-- The bytes that are read, from a position, with so many of them in the window. -/
structure Reading (content : List Byte) (pos window : Nat) (d : FileContent) : Prop where
  length : d.dataLen = content.length
  position : d.dataPos = pos
  inside : pos ≤ content.length
  small : content.length ≤ fileContentMemoryMax → d.memoryBuffer.Begins content
  large : fileContentMemoryMax < content.length →
    d.capacity = d.pos + window ∧ d.capacity ≤ fileContentMemoryMax ∧
      d.fd = some ⟨content, pos + window⟩ ∧ pos + window ≤ content.length ∧
      d.requested.slice d.pos window = (content.drop pos).take window

variable {content : List Byte} {d : FileContent}

theorem Filling.append (filling : Filling content d) (data : List Byte) :
    ∃ next, d.append data = .ok next ∧ Filling (content ++ data) next := by
  have length : d.dataLen + data.length = (content ++ data).length := by
    rw [filling.length, List.length_append]
  unfold FileContent.append
  rw [if_neg (not_not.mpr filling.start)]
  by_cases fits : d.dataLen + data.length ≤ fileContentMemoryMax
  · obtain ⟨closed, begins⟩ := filling.small (by rw [← filling.length]; omega)
    rw [if_pos fits, Buffer.storeBlock_of_le _ fits, ok_bind]
    refine ⟨_, rfl, length, filling.start, fun _ => ⟨closed, ?_⟩, fun big => by omega⟩
    rw [filling.length]
    exact begins.splice data
  · rw [if_neg fits]
    have open' {next : FileContent} (same : next.dataLen = d.dataLen + data.length)
        (start : next.dataPos = 0)
        (file : next.fd = some ⟨content ++ data, (content ++ data).length⟩) :
        Filling (content ++ data) next :=
      ⟨same.trans length, start, fun small => by omega, fun _ => file⟩
    by_cases big : fileContentMemoryMax < content.length
    · rw [filling.large big]
      refine ⟨_, rfl, open' rfl filling.start ?_⟩
      simp [TmpFile.write, List.drop_eq_nil_of_le]
    · obtain ⟨closed, begins⟩ := filling.small (by omega)
      rw [closed]
      rw [Buffer.loadBlock_of_le _ (by rw [filling.length]; omega), ok_bind, filling.length,
        begins]
      refine ⟨_, rfl, open' (by rw [filling.length]) filling.start ?_⟩
      simp [TmpFile.write]

theorem Filling.appends (filling : Filling content d) (chunks : List (List Byte)) :
    ∃ next, chunks.foldlM FileContent.append d = .ok next ∧
      Filling (content ++ chunks.flatten) next := by
  induction chunks generalizing content d with
  | nil => exact ⟨d, rfl, by rwa [List.flatten_nil, List.append_nil]⟩
  | cons chunk chunks ih =>
    obtain ⟨middle, done, filling⟩ := filling.append chunk
    obtain ⟨next, rest, filling⟩ := ih filling
    refine ⟨next, ?_, by rwa [List.flatten_cons, ← List.append_assoc]⟩
    rw [List.foldlM_cons, done, ok_bind, rest]

theorem Filling.setReadMode (filling : Filling content d) :
    ∃ next, d.setReadMode = .ok next ∧ Reading content 0 0 next := by
  unfold FileContent.setReadMode
  rw [if_neg (not_not.mpr filling.start), filling.length]
  by_cases small : content.length ≤ fileContentMemoryMax
  · rw [if_pos small]
    exact ⟨d, rfl, filling.length, filling.start, Nat.zero_le _, fun _ => (filling.small small).2,
      fun big => by omega⟩
  · rw [if_neg small, seek, filling.large (by omega)]
    refine ⟨_, rfl, filling.length, filling.start, Nat.zero_le _, fun low => absurd low small, ?_⟩
    exact fun _ => ⟨rfl, Nat.zero_le _, rfl, Nat.zero_le _, rfl⟩

variable {pos window : Nat}

theorem Reading.setOffset (reading : Reading content pos window d) {offset : Nat}
    (earlier : offset ≤ pos) : ∃ next, d.setOffset offset = .ok next ∧
      Reading content offset (if offset = pos then window else 0) next := by
  have inside := reading.inside
  unfold FileContent.setOffset
  rw [reading.position]
  by_cases same : offset = pos
  · rw [if_pos same, if_pos same]
    exact ⟨d, rfl, same ▸ reading⟩
  · rw [if_neg same, if_neg same, if_neg (by omega)]
    rw [reading.length]
    by_cases big : content.length > fileContentMemoryMax
    · obtain ⟨_, _, file, _⟩ := reading.large big
      rw [if_pos big, seek]
      rw [file]
      refine ⟨_, rfl, rfl, rfl, by omega, fun low => by omega, ?_⟩
      exact fun _ => ⟨rfl, Nat.zero_le _, rfl, by omega, rfl⟩
    · rw [if_neg big]
      exact ⟨_, rfl, rfl, rfl, by omega, reading.small, fun low => absurd low big⟩

theorem Reading.take (reading : Reading content pos window d)
    (big : fileContentMemoryMax < content.length) {n : Nat} (held : n ≤ window) :
    ∃ next, (do
        let bytes ← d.requested.loadBlock d.pos n
        .ok (bytes, { d with pos := d.pos + n, dataPos := d.dataPos + n }) :
          Checked FileContentError _) = .ok ((content.drop pos).take n, next) ∧
      Reading content (pos + n) (window - n) next := by
  obtain ⟨capacity, room, file, there, stands⟩ := reading.large big
  rw [← Nat.add_sub_cancel' held, Buffer.slice_append] at stands
  have length : ((content.drop pos).take n).length = n := by
    rw [List.length_take, List.length_drop]
    omega
  have split : (content.drop pos).take (n + (window - n)) =
      (content.drop pos).take n ++ (content.drop (pos + n)).take (window - n) := by
    rw [List.take_add, List.drop_drop]
  rw [split] at stands
  obtain ⟨front, back⟩ := List.append_inj stands (by rw [Buffer.length_slice, length])
  rw [Buffer.loadBlock_of_le _ (by omega), ok_bind, front]
  refine ⟨_, rfl, reading.length, by rw [← reading.position], by omega, fun low => by omega, ?_⟩
  intro _
  refine ⟨?_, room, ?_, by omega, back⟩
  · change d.capacity = d.pos + n + (window - n)
    omega
  · rw [show pos + n + (window - n) = pos + window by omega]
    exact file

/-- The window is refilled where all of it can be, or none of it was left. -/
theorem Reading.refill (reading : Reading content pos window d)
    (big : fileContentMemoryMax < content.length) :
    if window = 0 ∨ pos + fileContentMemoryMax ≤ content.length then
      ∃ next, d.refill = .ok next ∧
        Reading content pos (min fileContentMemoryMax (content.length - pos)) next
    else d.refill = .error (.raised .unexpected) := by
  obtain ⟨capacity, room, file, there, stands⟩ := reading.large big
  have inside := reading.inside
  have left : d.remaining = window := by
    unfold remaining
    omega
  unfold FileContent.refill
  rw [left, Buffer.loadBlock_of_le _ (by omega), ok_bind, stands, file, reading.length,
    reading.position]
  have count : ((content.drop pos).take window).length = window := by
    rw [List.length_take, List.length_drop]
    omega
  have begins := (d.requested.begins_nil).splice ((content.drop pos).take window)
  rw [Buffer.storeBlock_of_le _ (by omega), ok_bind]
  rw [List.nil_append, List.length_nil] at begins
  generalize len : min (fileContentMemoryMax - window) (content.length - pos) = len'
  have some' : ((content.drop (pos + window)).take len').length =
      min len' (content.length - (pos + window)) := by
    rw [List.length_take, List.length_drop]
  simp only [TmpFile.read, some']
  by_cases whole : window = 0 ∨ pos + fileContentMemoryMax ≤ content.length
  · have all : min len' (content.length - (pos + window)) = len' := by omega
    rw [if_pos whole, all, if_neg (not_not.mpr rfl), Buffer.storeBlock_of_le _ (by omega), ok_bind]
    have filled := begins.splice ((content.drop (pos + window)).take len')
    rw [count, ← List.drop_drop, ← List.take_add, show window + len' =
      min fileContentMemoryMax (content.length - pos) by omega] at filled
    refine ⟨_, rfl, rfl, rfl, inside, fun low => by omega, fun _ => ?_⟩
    refine ⟨?_, ?_, ?_, by omega, ?_⟩
    · change window + len' = 0 + _
      omega
    · change window + len' ≤ _
      omega
    · rw [show pos + min fileContentMemoryMax (content.length - pos) = pos + window + len' by omega]
    · rw [Buffer.Begins, List.length_take, List.length_drop] at filled
      rw [show min (min fileContentMemoryMax (content.length - pos)) (content.length - pos) =
        min fileContentMemoryMax (content.length - pos) by omega, List.drop_drop] at filled
      exact filled
  · rw [if_neg whole, if_pos (by omega)]

/-- Whether a read of so many bytes leaves no window broken. -/
def Whole (content : List Byte) (pos window n : Nat) : Prop :=
  content.length ≤ fileContentMemoryMax ∨ n ≤ window ∨ window = 0 ∨
    pos + fileContentMemoryMax ≤ content.length

theorem Reading.read_small (reading : Reading content pos window d)
    (small : content.length ≤ fileContentMemoryMax) {n : Nat} (there : pos + n ≤ content.length) :
    d.memoryBuffer.loadBlock (ε := FileContentError) pos n = .ok ((content.drop pos).take n) := by
  have begins := reading.small small
  have split : content.length = pos + (n + (content.length - (pos + n))) := by omega
  rw [Buffer.Begins, split, Buffer.slice_append, Buffer.slice_append, Nat.zero_add] at begins
  have cut : content = content.take pos ++ ((content.drop pos).take n ++
      content.drop (pos + n)) := by
    rw [← List.drop_drop, List.take_append_drop, List.take_append_drop]
  obtain ⟨_, back⟩ := List.append_inj (begins.trans cut)
    (by rw [Buffer.length_slice, List.length_take]; omega)
  obtain ⟨here, _⟩ := List.append_inj back
    (by rw [Buffer.length_slice, List.length_take, List.length_drop]; omega)
  rw [Buffer.loadBlock_of_le _ (by omega), here]

theorem Reading.read (reading : Reading content pos window d) {n : Nat}
    (most : n ≤ fileContentMemoryMax) (there : pos + n ≤ content.length) :
    (Whole content pos window n →
      ∃ next, d.read n = .ok ((content.drop pos).take n, next) ∧
        Reading content (pos + n) (if n ≤ window then window - n
          else min fileContentMemoryMax (content.length - pos) - n) next) ∧
    (¬Whole content pos window n → d.read n = .error (.raised .unexpected)) := by
  have length := reading.length
  have position := reading.position
  unfold FileContent.read Whole
  rw [if_neg (by omega)]
  by_cases small : content.length ≤ fileContentMemoryMax
  · refine ⟨fun _ => ?_, fun broken => absurd (.inl small) broken⟩
    rw [if_pos (by omega), position, reading.read_small small there, ok_bind]
    exact ⟨_, rfl, length, rfl, there, reading.small, fun big => by omega⟩
  · have big : fileContentMemoryMax < content.length := by omega
    obtain ⟨capacity, _⟩ := reading.large big
    have left : d.remaining = window := by
      unfold remaining
      omega
    rw [if_neg (by omega), left]
    by_cases held : n ≤ window
    · refine ⟨fun _ => ?_, fun broken => absurd (.inr (.inl held)) broken⟩
      rw [if_pos held, if_neg (by omega), ok_bind]
      exact reading.take big held
    · have refilled := reading.refill big
      rw [if_neg held, if_pos (by omega)]
      constructor
      · intro whole
        rw [if_pos (by omega)] at refilled
        obtain ⟨middle, done, reading⟩ := refilled
        rw [done, ok_bind]
        exact reading.take big (by omega)
      · intro broken
        rw [if_neg (by omega)] at refilled
        rw [refilled, error_bind]

theorem Reading.run (ops : List Op) (reading : Reading content pos window d)
    (admissible : Admissible content.length pos ops) :
    (content.length ≤ fileContentMemoryMax ∨ Unbroken content.length pos window ops →
      d.run ops = .ok (reads content pos ops)) ∧
    (¬(content.length ≤ fileContentMemoryMax ∨ Unbroken content.length pos window ops) →
      d.run ops = .error (.raised .unexpected)) := by
  induction ops generalizing d pos window with
  | nil => exact ⟨fun _ => rfl, fun broken => absurd (.inr trivial) broken⟩
  | cons op ops ih =>
    cases op with
    | read n =>
      obtain ⟨most, there, later⟩ := admissible
      obtain ⟨fine, fails⟩ := reading.read most there
      by_cases whole : Whole content pos window n
      · obtain ⟨next, done, reading⟩ := fine whole
        have rest := ih reading later
        have goes : (content.length ≤ fileContentMemoryMax ∨
            Unbroken content.length pos window (.read n :: ops)) ↔
            (content.length ≤ fileContentMemoryMax ∨ Unbroken content.length (pos + n)
              (if n ≤ window then window - n
                else min fileContentMemoryMax (content.length - pos) - n) ops) := by
          rw [Unbroken]
          by_cases held : n ≤ window
          · rw [if_pos held, if_pos held]
          · rw [if_neg held, if_neg held]
            constructor
            · exact Or.imp id And.right
            · rintro (small | unbroken)
              · exact .inl small
              · rcases whole with small | low | refilled
                · exact .inl small
                · exact absurd low held
                · exact .inr ⟨refilled, unbroken⟩
        rw [FileContent.run, done, ok_bind, goes]
        dsimp only
        refine ⟨fun unbroken => ?_, fun broken => ?_⟩
        · rw [rest.1 unbroken]
          rfl
        · rw [rest.2 broken]
          rfl
      · refine ⟨fun unbroken => absurd ?_ whole, fun _ => ?_⟩
        · rcases unbroken with small | unbroken
          · exact .inl small
          · rw [Unbroken] at unbroken
            by_cases held : n ≤ window
            · exact .inr (.inl held)
            · rw [if_neg held] at unbroken
              exact .inr (.inr unbroken.1)
        · rw [FileContent.run, fails whole, error_bind]
    | setOffset offset =>
      obtain ⟨earlier, later⟩ := admissible
      obtain ⟨next, done, reading⟩ := reading.setOffset earlier
      have rest := ih reading later
      rw [FileContent.run, done, ok_bind, reads, Unbroken]
      by_cases same : offset = pos
      · rw [if_pos same] at rest ⊢
        exact same ▸ rest
      · rwa [if_neg same] at rest ⊢

/-- What a session gives for every list of appends and every run of reads and seeks. -/
theorem session_eq (d : FileContent) (chunks : List (List Byte)) (ops : List Op)
    (admissible : Admissible chunks.flatten.length 0 ops) :
    (chunks.flatten.length ≤ fileContentMemoryMax ∨ Unbroken chunks.flatten.length 0 0 ops →
      d.session chunks ops = .ok (reads chunks.flatten 0 ops)) ∧
    (¬(chunks.flatten.length ≤ fileContentMemoryMax ∨ Unbroken chunks.flatten.length 0 0 ops) →
      d.session chunks ops = .error (.raised .unexpected)) := by
  have cleared : Filling [] d.clear :=
    ⟨rfl, rfl, fun _ => ⟨rfl, Buffer.begins_nil _⟩, fun big => absurd big (Nat.not_lt_zero _)⟩
  obtain ⟨filled, done, filling⟩ := cleared.appends chunks
  obtain ⟨opened, ready, reading⟩ := filling.setReadMode
  rw [session, done, ok_bind, ready, ok_bind]
  exact reading.run ops admissible

/-- The content is a faithful store of what was appended just where it is in memory, or no window
is broken; in no case is a buffer left. -/
theorem session_faithful_iff (d : FileContent) (chunks : List (List Byte)) (ops : List Op)
    (admissible : Admissible chunks.flatten.length 0 ops) :
    (d.session chunks ops = .ok (reads chunks.flatten 0 ops) ↔
      chunks.flatten.length ≤ fileContentMemoryMax ∨ Unbroken chunks.flatten.length 0 0 ops) ∧
    d.session chunks ops ≠ .error .outOfBounds := by
  obtain ⟨fine, fails⟩ := session_eq d chunks ops admissible
  by_cases whole : chunks.flatten.length ≤ fileContentMemoryMax ∨
      Unbroken chunks.flatten.length 0 0 ops
  · rw [fine whole]
    exact ⟨iff_of_true rfl whole, nofun⟩
  · rw [fails whole]
    exact ⟨iff_of_false nofun whole, nofun⟩

/-- A temporary file: the second read refills a window that is not used up, the third follows a
step back to its first half. -/
theorem session_faithful_iff_refilled :
    (⟨Buffer.filled 0, Buffer.filled 0, 0, 0, none, 0, 0⟩ : FileContent).session
      [List.replicate 524288 0, List.replicate 524288 1]
      [.read 300000, .read 300000, .setOffset 524287, .read 2] =
    .ok [List.replicate 300000 0, List.replicate 224288 0 ++ List.replicate 75712 1, [0, 1]] := by
  have most : fileContentMemoryMax = 524288 := rfl
  have length : [List.replicate 524288 (0 : Byte), List.replicate 524288 1].flatten.length =
      1048576 := by
    rw [List.flatten_cons, List.flatten_cons, List.flatten_nil, List.append_nil, List.length_append,
      List.length_replicate, List.length_replicate]
  have given : reads [List.replicate 524288 0, List.replicate 524288 1].flatten 0
      [.read 300000, .read 300000, .setOffset 524287, .read 2] =
      [List.replicate 300000 0, List.replicate 224288 0 ++ List.replicate 75712 1, [0, 1]] := by
    simp only [reads, List.flatten_cons, List.flatten_nil, List.append_nil, List.drop_append,
      List.take_append, List.drop_replicate, List.take_replicate, List.length_replicate,
      Nat.reduceAdd, Nat.reduceSub, Nat.min_def, Nat.reduceLeDiff, if_true, if_false,
      List.replicate_zero]
    rfl
  rw [← given]
  exact (session_faithful_iff _ _ _ (by rw [length]; simp [Admissible, most])).1.mpr
    (.inr (by rw [length]; simp [Unbroken, most]))

/-- A read that needs the last byte of a window and one more, near the end of the file. -/
theorem session_fails : ¬∀ d : FileContent, d.session
    [List.replicate 524288 0, List.replicate 75712 0] [.read 524287, .read 2] =
      .ok (reads [List.replicate 524288 0, List.replicate 75712 0].flatten 0
        [.read 524287, .read 2]) := by
  intro faithful
  have length : [List.replicate 524288 (0 : Byte), List.replicate 75712 0].flatten.length =
      600000 := by
    rw [List.flatten_cons, List.flatten_cons, List.flatten_nil, List.append_nil, List.length_append,
      List.length_replicate, List.length_replicate]
  have most : fileContentMemoryMax = 524288 := rfl
  have empty : FileContent :=
    ⟨Buffer.filled 0, Buffer.filled 0, 0, 0, none, 0, 0⟩
  have fails := (session_eq empty [List.replicate 524288 0, List.replicate 75712 0]
    [.read 524287, .read 2] (by rw [length]; simp [Admissible, most])).2
    (by rw [length]; simp [Unbroken, most])
  rw [faithful empty] at fails
  cases fails

end FileContent

end Redemption.Cliprdr
