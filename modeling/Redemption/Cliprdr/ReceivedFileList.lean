import Redemption.Cliprdr.FileListParser
import Redemption.Utf.Legacy

/-! `FormatDataResponseReceiveFileList`: the files of a list whose descriptors come in fragments. -/
namespace Redemption.Cliprdr.ReceivedFileList

open Foundation Utf.Legacy

/-- `CliprdFileInfo`. -/
structure CliprdFileInfo where
  fileSize : BitVec 64
  fileName : List Byte
  deriving DecidableEq, Repr

inductive ReceiveError where
  | pduTruncated
  deriving DecidableEq, Repr

/-- `FD_FILESIZE`. -/
def hasFileSize : BitVec 32 := 0x00000040

/-- The text of the field of a name, up to a null character; `behind` is what happens to stand in
the array where nothing is written to it. -/
def fileNameOf (behind field : List Byte) : Checked ReceiveError (List Byte) :=
  match utf16ToUtf8 field (520 / 2) (520 / 2 * 4) with
  | .ok name => .ok ((name ++ behind).takeWhile (· ≠ 0))
  | .error _ => .error .outOfBounds

/-- `receive_file`, with what it uses of `FileDescriptor::receive`. -/
def receiveFile (behind stream : List Byte) :
    Checked ReceiveError (CliprdFileInfo × List Byte) := do
  checkThrow stream fileDescriptorLen .pduTruncated
  let (flags, stream) ← inLe 4 stream
  let (_, stream) ← inBytes 32 stream
  let (_, stream) ← inLe 4 stream
  let (_, stream) ← inBytes 16 stream
  let (_, stream) ← inLe 8 stream
  let (fileSizeHigh, stream) ← inLe 4 stream
  let (fileSizeLow, stream) ← inLe 4 stream
  let (field, stream) ← inBytes fileNameFieldLen stream
  let fileName ← fileNameOf behind field
  return (⟨if BitVec.ofNat 32 flags &&& hasFileSize ≠ 0 then
      BitVec.ofNat 64 fileSizeLow ||| BitVec.ofNat 64 fileSizeHigh <<< 32 else ~~~0, fileName⟩, stream)

/-- The files, and what has been written to the stream for the beginning of a descriptor. -/
structure Receiver where
  files : List CliprdFileInfo
  descriptorStream : List Byte
  deriving DecidableEq, Repr

/-- A fragment, behind its header: whether it is the first or the last one of its response, and
what of the header is used. -/
structure Fragment where
  first : Bool
  last : Bool
  fail : Bool
  dataLen : BitVec 32
  chunk : List Byte

/-- `out_copy_bytes` to the stream. -/
def copyTo (stream bytes : List Byte) : Checked ReceiveError (List Byte) :=
  if stream.length + bytes.length ≤ fileDescriptorLen then .ok (stream ++ bytes)
  else .error .outOfBounds

/-- The loop over the descriptors that are whole. -/
def receiveFiles (behind : List Byte) : Nat → List Byte → List CliprdFileInfo →
    Checked ReceiveError (List CliprdFileInfo × List Byte)
  | 0, chunk, files => .ok (files, chunk)
  | turns + 1, chunk, files =>
    if fileDescriptorLen ≤ chunk.length then do
      let (file, chunk) ← receiveFile behind chunk
      receiveFiles behind turns chunk (files ++ [file])
    else .ok (files, chunk)

def readsCount (fragment : Fragment) : Prop := fragment.fail = false ∧ 4 ≤ fragment.dataLen.toNat

instance (fragment : Fragment) : Decidable (readsCount fragment) := inferInstanceAs (Decidable (_ ∧ _))

/-- What comes before the loop: the count is skipped, or a descriptor is completed. -/
def receiveStart (behind : List Byte) (receiver : Receiver) (fragment : Fragment) :
    Checked ReceiveError (Receiver × List Byte) :=
  if fragment.first then
    if readsCount fragment then do
      let (_, chunk) ← inLe 4 fragment.chunk
      .ok (receiver, chunk)
    else .ok (receiver, fragment.chunk)
  else if receiver.descriptorStream.length ≠ 0 then do
    let (complement, chunk) ← inBytes (fileDescriptorLen - receiver.descriptorStream.length)
      fragment.chunk
    let whole ← copyTo receiver.descriptorStream complement
    let (file, _) ← receiveFile behind whole
    .ok (⟨receiver.files ++ [file], []⟩, chunk)
  else .ok (receiver, fragment.chunk)

/-- `format_data_response` for a fragment of a file list. -/
def receiveFragment (behind : List Byte) (receiver : Receiver) (fragment : Fragment) :
    Checked ReceiveError Receiver := do
  let (receiver, chunk) ← receiveStart behind
    (if fragment.first then { receiver with files := [] } else receiver) fragment
  let (files, chunk) ← receiveFiles behind chunk.length chunk receiver.files
  if chunk.length ≠ 0 then do
    let stream ← copyTo [] chunk
    .ok ⟨files, stream⟩
  else .ok ⟨files, receiver.descriptorStream⟩

def receiveAll (behind : List Byte) (receiver : Receiver) (fragments : List Fragment) :
    Checked ReceiveError Receiver := fragments.foldlM (receiveFragment behind) receiver

section Descriptors

variable (behind : List Byte)

/-- The file of the bytes of a descriptor. -/
def decode (block : List Byte) : CliprdFileInfo :=
  match receiveFile behind block with
  | .ok (file, _) => file
  | .error _ => ⟨0, []⟩

theorem receiveFile_ok {stream : List Byte} (enough : fileDescriptorLen ≤ stream.length) :
    receiveFile behind stream =
      .ok (decode behind (stream.take fileDescriptorLen), stream.drop fileDescriptorLen) := by
  have run : ∀ bytes : List Byte, fileDescriptorLen ≤ bytes.length → ∃ fileName,
      fileNameOf behind ((bytes.drop 72).take fileNameFieldLen) = .ok fileName ∧
      receiveFile behind bytes = .ok (⟨if BitVec.ofNat 32 (leValue (bytes.take 4)) &&& hasFileSize ≠ 0
        then BitVec.ofNat 64 (leValue ((bytes.drop 68).take 4)) |||
          BitVec.ofNat 64 (leValue ((bytes.drop 64).take 4)) <<< 32 else ~~~0, fileName⟩,
        bytes.drop fileDescriptorLen) := by
    intro bytes room
    have length : 592 ≤ bytes.length := room
    have field : ((bytes.drop 72).take fileNameFieldLen).length = 520 := by
      rw [List.length_take, List.length_drop, fileNameFieldLen]
      omega
    obtain ⟨name, converted, -⟩ := @unitsToUtf8_stays (520 / 2 * 4) [] _ _ true (520 / 2) _
      (nextBytes_supplies (by rw [field])) (Nat.zero_le _)
    have named : fileNameOf behind ((bytes.drop 72).take fileNameFieldLen) =
        .ok ((name ++ behind).takeWhile (· ≠ 0)) := by
      rw [fileNameOf, utf16ToUtf8, converted]
    refine ⟨_, named, ?_⟩
    rw [receiveFile, checkThrow_of_le _ room, ok_bind, inLe_ok (by omega), ok_bind]
    dsimp only
    iterate 6
      first
        | rw [inBytes_ok (by simp only [List.length_drop]; omega), ok_bind]
        | rw [inLe_ok (by simp only [List.length_drop]; omega), ok_bind]
    rw [inBytes_ok (by simp only [List.length_drop, fileNameFieldLen]; omega), ok_bind]
    simp only [List.drop_drop] at named ⊢
    rw [named]
    rfl
  obtain ⟨fileName, named, whole⟩ := run stream enough
  obtain ⟨fileName', named', block⟩ := run (stream.take fileDescriptorLen)
    (by rw [List.length_take]; omega)
  have inside : ∀ offset length, offset + length ≤ fileDescriptorLen →
      ((stream.take fileDescriptorLen).drop offset).take length = (stream.drop offset).take length := by
    intro offset length bounded
    rw [List.drop_take, List.take_take, Nat.min_eq_left (by omega)]
  rw [inside 72 fileNameFieldLen (by decide), named] at named'
  cases named'
  rw [inside 68 4 (by decide), inside 64 4 (by decide), List.take_take,
    Nat.min_eq_left (by decide)] at block
  rw [whole, decode, block]

/-- The name of whole units, each of which is converted on its own. -/
def utf8OfUnits : List Byte → List Byte
  | lo :: hi :: rest => unitUtf8 lo hi ++ utf8OfUnits rest
  | _ => []

/-- The file that a descriptor describes. -/
def info (named : NamedDescriptor) : CliprdFileInfo where
  fileSize := if named.descriptor.flags &&& hasFileSize ≠ 0 then
    named.descriptor.fileSizeLow.setWidth 64 ||| named.descriptor.fileSizeHigh.setWidth 64 <<< 32
    else ~~~0
  fileName := utf8OfUnits named.descriptor.unicodeFileName

theorem unitUtf8_nonzero {lo hi : Byte} (unit : lo ||| hi ≠ 0) :
    (∀ byte ∈ unitUtf8 lo hi, byte ≠ 0) ∧ (unitUtf8 lo hi).length ≤ 3 := by
  rw [unitUtf8]
  split
  · simp [BitVec.or_eq_zero_iff]
  · split
    · simp [BitVec.or_eq_zero_iff]
    · rename_i one
      obtain ⟨rfl, -⟩ := not_or.mp one |>.imp not_not.mp id
      simpa using unit

/-- The conversion of a name, and of the null character behind it. -/
theorem unitsToUtf8_name {name : List Byte} (whole : WholeUnits name) {count size : Nat}
    (zeros : Nat) {out : List Byte} (units : name.length < 2 * count)
    (room : out.length + 3 * count ≤ size) :
    unitsToUtf8 nextBytes true size count (name ++ List.replicate (zeros + 2) 0) out =
      .ok (out ++ utf8OfUnits name ++ [0]) := by
  obtain ⟨count, rfl⟩ := Nat.exists_eq_succ_of_ne_zero (by omega : count ≠ 0)
  match name, whole with
  | [], _ =>
    have source : nextBytes ([] ++ List.replicate (zeros + 2) (0 : Byte)) =
        .ok ((0, 0), List.replicate zeros 0) := rfl
    rw [unitsToUtf8, source]
    dsimp only
    rw [if_pos ⟨rfl, rfl⟩, if_pos ⟨rfl, by omega⟩, write_of_le (by simp; omega)]
    simp [utf8OfUnits]
  | lo :: hi :: rest, whole =>
    have unit := unitUtf8_nonzero whole.1
    have nonzero : ¬(lo = 0 ∧ hi = 0) := fun zero =>
      whole.1 (BitVec.or_eq_zero_iff.mpr zero)
    have source : nextBytes (lo :: hi :: rest ++ List.replicate (zeros + 2) 0) =
        .ok ((lo, hi), rest ++ List.replicate (zeros + 2) 0) := rfl
    simp only [List.length_cons] at units
    rw [unitsToUtf8, source]
    dsimp only
    rw [if_neg nonzero, if_neg (by omega), write_of_le (by omega)]
    dsimp only
    rw [unitsToUtf8_name whole.2 zeros (by omega) (by rw [List.length_append]; omega), utf8OfUnits]
    simp only [List.append_assoc]

theorem utf8OfUnits_nonzero {name : List Byte} (whole : WholeUnits name) :
    ∀ byte ∈ utf8OfUnits name, byte ≠ 0 := by
  match name, whole with
  | [], _ => simp [utf8OfUnits]
  | lo :: hi :: rest, whole =>
    intro byte member
    rcases List.mem_append.mp member with here | later
    · exact (unitUtf8_nonzero whole.1).1 byte here
    · exact utf8OfUnits_nonzero whole.2 byte later

theorem fileNameOf_name (named : NamedDescriptor) :
    fileNameOf behind (named.descriptor.unicodeFileName ++
        List.replicate (fileNameFieldLen - named.descriptor.unicodeFileName.length) 0) =
      .ok (utf8OfUnits named.descriptor.unicodeFileName) := by
  have fits : named.descriptor.unicodeFileName.length + 2 ≤ 520 := named.fits
  obtain ⟨zeros, is⟩ := Nat.exists_eq_add_of_le named.fits
  have nonzero := utf8OfUnits_nonzero named.whole
  rw [show fileNameFieldLen - named.descriptor.unicodeFileName.length = zeros + 2 by omega,
    fileNameOf, utf16ToUtf8, unitsToUtf8_name named.whole zeros (by omega) (by simp)]
  dsimp only
  rw [List.nil_append, List.append_assoc,
    List.takeWhile_append_of_pos (by simpa using nonzero), List.singleton_append,
    List.takeWhile_cons_of_neg (by simp), List.append_nil]

theorem decode_pdu (named : NamedDescriptor) : decode behind named.pdu = info named := by
  rw [decode, receiveFile, checkThrow_of_le _ (Nat.le_of_eq named.length_pdu.symm), ok_bind,
    NamedDescriptor.pdu, FileDescriptor.write, inLe_append, ok_bind]
  dsimp only
  rw [inBytes_append List.length_replicate, ok_bind]
  rw [inLe_append, ok_bind]
  rw [inBytes_append List.length_replicate, ok_bind]
  rw [inLe_append, ok_bind]
  rw [inLe_append, ok_bind]
  rw [inLe_append, ok_bind]
  have field : (named.descriptor.unicodeFileName ++ List.replicate
      (fileNameFieldLen - named.descriptor.unicodeFileName.length) (0 : Byte)).length =
      fileNameFieldLen := by
    have fits := named.fits
    rw [List.length_append, List.length_replicate]
    omega
  have last := inBytes_append (ε := ReceiveError) field []
  rw [List.append_nil] at last
  rw [last, ok_bind, fileNameOf_name, Nat.mod_eq_of_lt named.descriptor.flags.isLt,
    Nat.mod_eq_of_lt named.descriptor.fileSizeHigh.isLt,
    Nat.mod_eq_of_lt named.descriptor.fileSizeLow.isLt, info]
  simp only [BitVec.ofNat_toNat, BitVec.setWidth_eq]
  rfl

end Descriptors

section Fragments

variable (behind : List Byte)

/-- The files of the descriptors that are whole, and the bytes behind them. -/
def decodeAll (data : List Byte) : List CliprdFileInfo × List Byte :=
  if fileDescriptorLen ≤ data.length then
    let rest := decodeAll (data.drop fileDescriptorLen)
    (decode behind (data.take fileDescriptorLen) :: rest.1, rest.2)
  else ([], data)
termination_by data.length
decreasing_by
  have positive : 0 < fileDescriptorLen := by decide
  rw [List.length_drop]
  omega

theorem decodeAll_short {data : List Byte} (short : data.length < fileDescriptorLen) :
    decodeAll behind data = ([], data) := by
  rw [decodeAll, if_neg (Nat.not_le.mpr short)]

theorem decodeAll_block {block : List Byte} (length : block.length = fileDescriptorLen)
    (rest : List Byte) : decodeAll behind (block ++ rest) =
      (decode behind block :: (decodeAll behind rest).1, (decodeAll behind rest).2) := by
  rw [decodeAll, if_pos (by rw [List.length_append]; omega), List.take_left' length,
    List.drop_left' length]

theorem decodeAll_rest (data : List Byte) :
    (decodeAll behind data).2.length < fileDescriptorLen := by
  induction data using decodeAll.induct behind with
  | case1 data enough ih =>
    rw [decodeAll, if_pos enough]
    exact ih
  | case2 data short =>
    rw [decodeAll, if_neg short]
    exact Nat.lt_of_not_le short

theorem decodeAll_append (first second : List Byte) :
    decodeAll behind (first ++ second) =
      ((decodeAll behind first).1 ++ (decodeAll behind ((decodeAll behind first).2 ++ second)).1,
        (decodeAll behind ((decodeAll behind first).2 ++ second)).2) := by
  induction first using decodeAll.induct behind with
  | case1 data enough ih =>
    have split := List.take_append_drop fileDescriptorLen data
    have length : (data.take fileDescriptorLen).length = fileDescriptorLen := by
      rw [List.length_take, Nat.min_eq_left enough]
    rw [← split, List.append_assoc, decodeAll_block behind length, decodeAll_block behind length, ih]
    rfl
  | case2 data short =>
    rw [decodeAll_short behind (Nat.lt_of_not_le short)]
    rfl

theorem decodeAll_pdus (ds : List NamedDescriptor) :
    decodeAll behind (ds.flatMap NamedDescriptor.pdu) = (ds.map info, []) := by
  induction ds with
  | nil => exact decodeAll_short behind (by decide)
  | cons named ds ih =>
    rw [List.flatMap_cons, decodeAll_block behind named.length_pdu, ih, decode_pdu, List.map_cons]

theorem receiveFiles_ok (turns : Nat) (chunk : List Byte) (files : List CliprdFileInfo)
    (enough : chunk.length ≤ turns) : receiveFiles behind turns chunk files =
      .ok (files ++ (decodeAll behind chunk).1, (decodeAll behind chunk).2) := by
  have positive : 0 < fileDescriptorLen := by decide
  induction turns generalizing chunk files with
  | zero =>
    rw [receiveFiles, decodeAll_short behind (by omega), List.append_nil]
  | succ turns ih =>
    by_cases whole : fileDescriptorLen ≤ chunk.length
    · rw [receiveFiles, if_pos whole, receiveFile_ok behind whole, ok_bind]
      dsimp only
      rw [ih _ _ (by rw [List.length_drop]; omega), decodeAll.eq_def behind chunk, if_pos whole,
        List.append_assoc]
      rfl
    · rw [receiveFiles, if_neg whole, decodeAll_short behind (Nat.lt_of_not_le whole),
        List.append_nil]

/-- What the fragments of a response bring behind the count. -/
def Fragment.body (fragment : Fragment) : List Byte :=
  if fragment.first ∧ readsCount fragment then fragment.chunk.drop 4 else fragment.chunk

/-- A count is not cut, a descriptor that has begun is completed by the next fragment, and nothing
is left of an earlier response when the first of several fragments ends with a descriptor. -/
structure Allowed (receiver : Receiver) (fragment : Fragment) : Prop where
  count : fragment.first → readsCount fragment → 4 ≤ fragment.chunk.length
  completes : fragment.first = false → receiver.descriptorStream ≠ [] →
    fileDescriptorLen ≤ receiver.descriptorStream.length + fragment.chunk.length
  clean : fragment.first → fragment.last ∨ receiver.descriptorStream = [] ∨
    ¬fileDescriptorLen ∣ fragment.body.length

/-- The bytes that are still to be decoded. -/
def pending (receiver : Receiver) (fragment : Fragment) : List Byte :=
  if fragment.first then fragment.body else receiver.descriptorStream ++ fragment.chunk

variable {receiver : Receiver} {fragment : Fragment}

/-- The stream holds what is left of the bytes, or, when the response begins and nothing is left,
what it held before. -/
theorem receiveFragment_ok (allowed : Allowed receiver fragment)
    (short : receiver.descriptorStream.length < fileDescriptorLen) :
    receiveFragment behind receiver fragment = .ok
      ⟨(if fragment.first then [] else receiver.files) ++
          (decodeAll behind (pending receiver fragment)).1,
        if fragment.first ∧ (decodeAll behind (pending receiver fragment)).2 = [] then
          receiver.descriptorStream else (decodeAll behind (pending receiver fragment)).2⟩ := by
  have ends : ∀ (files : List CliprdFileInfo) (old chunk : List Byte),
      chunk.length < fileDescriptorLen →
      (if chunk.length ≠ 0 then (do
          let stream ← copyTo [] chunk
          .ok ⟨files, stream⟩ : Checked ReceiveError Receiver) else .ok ⟨files, old⟩) =
        .ok ⟨files, if chunk = [] then old else chunk⟩ := by
    intro files old chunk less
    cases chunk with
    | nil => rfl
    | cons byte rest =>
      rw [if_pos (by simp), copyTo, if_pos (by rw [List.length_nil]; omega), ok_bind, if_neg (by simp)]
      rfl
  have loop : ∀ (receiver' : Receiver) (chunk : List Byte),
      receiveStart behind (if fragment.first then { receiver with files := [] } else receiver) fragment =
        .ok (receiver', chunk) → receiveFragment behind receiver fragment = .ok
          ⟨receiver'.files ++ (decodeAll behind chunk).1, if (decodeAll behind chunk).2 = [] then
            receiver'.descriptorStream else (decodeAll behind chunk).2⟩ := by
    intro receiver' chunk begun
    rw [receiveFragment, begun, ok_bind]
    dsimp only
    rw [receiveFiles_ok behind _ _ _ le_rfl, ok_bind]
    exact ends _ _ _ (decodeAll_rest behind chunk)
  cases first : fragment.first with
  | true =>
    have begun : receiveStart behind { receiver with files := [] } fragment =
        .ok ({ receiver with files := [] }, fragment.body) := by
      rw [receiveStart, if_pos first, Fragment.body]
      by_cases reads : readsCount fragment
      · rw [if_pos reads, inLe_ok (allowed.count first reads), if_pos ⟨first, reads⟩]
        rfl
      · rw [if_neg reads, if_neg fun both => reads both.2]
    have done := loop { receiver with files := [] } fragment.body (by rw [if_pos first]; exact begun)
    simpa [pending, first] using done
  | false =>
    by_cases empty : receiver.descriptorStream = []
    · have begun : receiveStart behind receiver fragment = .ok (receiver, fragment.chunk) := by
        rw [receiveStart, first, if_neg Bool.false_ne_true, if_neg (by rw [empty]; simp)]
      have done := loop receiver fragment.chunk (by rw [first]; exact begun)
      rw [done]
      simp only [pending, first, empty, Bool.false_eq_true, if_false, false_and, List.nil_append]
      split <;> simp_all
    · have room := allowed.completes first empty
      have nonempty : receiver.descriptorStream.length ≠ 0 := mt List.length_eq_zero_iff.mp empty
      have whole : (receiver.descriptorStream ++ fragment.chunk.take
          (fileDescriptorLen - receiver.descriptorStream.length)).length = fileDescriptorLen := by
        rw [List.length_append, List.length_take]
        omega
      have begun : receiveStart behind receiver fragment = .ok (⟨receiver.files ++ [decode behind
          (receiver.descriptorStream ++ fragment.chunk.take
            (fileDescriptorLen - receiver.descriptorStream.length))], []⟩,
          fragment.chunk.drop (fileDescriptorLen - receiver.descriptorStream.length)) := by
        rw [receiveStart, first, if_neg Bool.false_ne_true, if_pos nonempty, inBytes_ok (by omega), ok_bind]
        dsimp only
        rw [copyTo, if_pos (by rw [List.length_append] at whole; omega), ok_bind,
          receiveFile_ok behind (Nat.le_of_eq whole.symm), List.take_of_length_le (Nat.le_of_eq whole)]
        rfl
      have done := loop _ _ (by rw [first]; exact begun)
      have split : pending receiver fragment = receiver.descriptorStream ++ fragment.chunk.take
          (fileDescriptorLen - receiver.descriptorStream.length) ++
          fragment.chunk.drop (fileDescriptorLen - receiver.descriptorStream.length) := by
        rw [pending, first, List.append_assoc, List.take_append_drop]
        rfl
      rw [done, split, decodeAll_block behind whole]
      split <;> simp_all

theorem decodeAll_length (data : List Byte) : data.length =
    fileDescriptorLen * (decodeAll behind data).1.length + (decodeAll behind data).2.length := by
  induction data using decodeAll.induct behind with
  | case1 data enough ih =>
    rw [decodeAll, if_pos enough]
    dsimp only
    rw [List.length_cons, Nat.mul_succ]
    rw [List.length_drop] at ih
    omega
  | case2 data short =>
    rw [decodeAll_short behind (Nat.lt_of_not_le short)]
    exact (Nat.zero_add _).symm

/-- Every fragment of a run is allowed. -/
def EveryAllowed : Receiver → List Fragment → Prop
  | _, [] => True
  | receiver, fragment :: rest => Allowed receiver fragment ∧
      ∀ next, receiveFragment behind receiver fragment = .ok next → EveryAllowed next rest

/-- A run of allowed fragments reads and writes inside the buffers. -/
theorem receiveAll_ok {fragments : List Fragment}
    (short : receiver.descriptorStream.length < fileDescriptorLen)
    (every : EveryAllowed behind receiver fragments) :
    ∃ last, receiveAll behind receiver fragments = .ok last ∧
      last.descriptorStream.length < fileDescriptorLen := by
  induction fragments generalizing receiver with
  | nil => exact ⟨receiver, rfl, short⟩
  | cons fragment rest ih =>
    have step := receiveFragment_ok behind every.1 short
    rw [receiveAll, List.foldlM_cons, step, ok_bind]
    refine ih ?_ (every.2 _ step)
    dsimp only
    split
    · exact short
    · exact decodeAll_rest behind _

theorem everyAllowed_append {front back : List Fragment}
    (every : EveryAllowed behind receiver (front ++ back)) :
    EveryAllowed behind receiver front ∧ ∀ middle,
      receiveAll behind receiver front = .ok middle → EveryAllowed behind middle back := by
  induction front generalizing receiver with
  | nil =>
    refine ⟨trivial, fun middle run => ?_⟩
    cases run
    exact every
  | cons fragment front ih =>
    refine ⟨⟨every.1, fun next step => (ih (every.2 next step)).1⟩, fun middle run => ?_⟩
    obtain ⟨next, step, later⟩ := bind_ok_iff.mp run
    exact (ih (every.2 next step)).2 middle later

theorem receiveAll_later {rest : List Fragment}
    (short : receiver.descriptorStream.length < fileDescriptorLen)
    (every : EveryAllowed behind receiver rest)
    (later : ∀ fragment ∈ rest, fragment.first = false) :
    receiveAll behind receiver rest = .ok
      ⟨receiver.files ++
          (decodeAll behind (receiver.descriptorStream ++ rest.flatMap Fragment.chunk)).1,
        (decodeAll behind (receiver.descriptorStream ++ rest.flatMap Fragment.chunk)).2⟩ := by
  induction rest generalizing receiver with
  | nil =>
    rw [List.flatMap_nil, List.append_nil, decodeAll_short behind short, List.append_nil]
    rfl
  | cons fragment rest ih =>
    have follows := later fragment List.mem_cons_self
    have step := receiveFragment_ok behind every.1 short
    simp only [pending, follows, Bool.false_eq_true, if_false, false_and] at step
    rw [receiveAll, List.foldlM_cons, step, ok_bind, ← receiveAll,
      ih (decodeAll_rest behind _) (every.2 _ step) fun other member =>
        later other (List.mem_cons_of_mem _ member), List.flatMap_cons, ← List.append_assoc,
      decodeAll_append behind (receiver.descriptorStream ++ fragment.chunk), List.append_assoc]

/-- The fragments of a response with these descriptors, cut anywhere. -/
def IsResponse (ds : List NamedDescriptor) : List Fragment → Prop
  | [] => False
  | first :: rest => (first.first ∧ readsCount first ∧ (rest ≠ [] → first.last = false)) ∧
      (∀ fragment ∈ rest, fragment.first = false) ∧ ∃ count,
        first.chunk ++ rest.flatMap Fragment.chunk =
          leBytes 4 count ++ ds.flatMap NamedDescriptor.pdu

theorem receiveAll_response {ds : List NamedDescriptor} {response : List Fragment}
    (short : receiver.descriptorStream.length < fileDescriptorLen)
    (every : EveryAllowed behind receiver response) (whole : IsResponse ds response) :
    ∃ last, receiveAll behind receiver response = .ok last ∧ last.files = ds.map info := by
  match response, whole with
  | first :: rest, ⟨⟨isFirst, reads, notLast⟩, later, count, bytes⟩ =>
    have room := every.1.count isFirst reads
    have body : first.body = first.chunk.drop 4 := if_pos ⟨isFirst, reads⟩
    have together : first.body ++ rest.flatMap Fragment.chunk = ds.flatMap NamedDescriptor.pdu := by
      have dropped := congrArg (List.drop 4) bytes
      rwa [List.drop_append_of_le_length room, List.drop_left' (length_leBytes 4 count), ← body]
        at dropped
    have step := receiveFragment_ok behind every.1 short
    rw [pending, if_pos isFirst, if_pos isFirst, List.nil_append] at step
    have stream : rest ≠ [] → (if first.first ∧ (decodeAll behind first.body).2 = [] then
        receiver.descriptorStream else (decodeAll behind first.body).2) =
        (decodeAll behind first.body).2 := by
      intro more
      split
      · rename_i nothing
        rcases every.1.clean isFirst with isLast | clean | cut
        · exact absurd isLast (by rw [notLast more]; exact Bool.false_ne_true)
        · rw [clean, nothing.2]
        · have length := decodeAll_length behind first.body
          rw [nothing.2, List.length_nil, Nat.add_zero] at length
          exact absurd ⟨_, length⟩ cut
      · rfl
    rw [receiveAll, List.foldlM_cons, step, ok_bind, ← receiveAll]
    by_cases more : rest = []
    · subst more
      rw [List.flatMap_nil, List.append_nil] at together
      exact ⟨_, rfl, by rw [together, decodeAll_pdus]⟩
    · have next := every.2 _ step
      rw [stream more] at next ⊢
      have all := decodeAll_append behind first.body (rest.flatMap Fragment.chunk)
      rw [together, decodeAll_pdus] at all
      exact ⟨_, receiveAll_later behind (decodeAll_rest behind _) next later,
        (congrArg Prod.fst all).symm⟩

end Fragments

/-- `aé` of 5 * 2^32 + 7 bytes, and `b` of a size that is not given. -/
def twoFiles : List NamedDescriptor :=
  [⟨⟨hasFileSize, 0x80, 0, 5, 7, [0x61, 0, 0xe9, 0]⟩, ⟨by decide, by decide, trivial⟩, by decide⟩,
    ⟨⟨0, 0x80, 0, 9, 9, [0x62, 0]⟩, ⟨by decide, trivial⟩, by decide⟩]

def twoFilesBytes : List Byte := leBytes 4 2 ++ twoFiles.flatMap NamedDescriptor.pdu

/-- The count, a whole descriptor and 100 bytes of the next one. -/
def firstFragment : Fragment := ⟨true, false, false, 1188, twoFilesBytes.take 696⟩

def secondFragment : Fragment := ⟨false, true, false, 1188, twoFilesBytes.drop 696⟩

end Redemption.Cliprdr.ReceivedFileList
