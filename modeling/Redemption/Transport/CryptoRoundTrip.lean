import Redemption.Transport.CryptoReader

/-! Any reads of an encrypted recording: what they give, and when the recording is too long. -/
namespace Redemption.Transport.Crypto

open Redemption.Foundation

variable {δ : Type} {hmac : StreamHash (List Byte) Byte δ} {codecs : Codecs}
  {cctx : CryptoContext} {key : List Byte} {iv : Iv}

/-- A call of `partial_read` or of `atomic_read`. -/
inductive Call where
  | partialRead (len : Nat)
  | atomicRead (len : Nat)

inductive Answer where
  | bytes (read : List Byte)
  | all (read : Option (List Byte))

namespace InCrypto

variable {input after : InCrypto} {rest : List Byte}

/-- Calls on a transport, one after the other. -/
def reads (codecs : Codecs) (input : InCrypto) : List Call → Except ErrorId (List Answer)
  | [] => .ok []
  | .partialRead len :: calls => do
    let (read, input) ← input.doPartialRead codecs len
    return .bytes read :: (← input.reads codecs calls)
  | .atomicRead len :: calls => do
    let (read, input) ← input.doAtomicRead codecs len
    return .all read :: (← input.reads codecs calls)

end InCrypto

/-- What calls should give of `rest`. A partial read gives some of the next bytes, an atomic read
all that it asks for; when nothing is left they give nothing and the end. What is given from an
atomic read on that asks for more than is left is not said. -/
inductive Answers : List Byte → List Call → List Answer → Prop where
  | nil {rest : List Byte} : Answers rest [] []
  | partialRead {len : Nat} {read rest : List Byte} {calls : List Call} {answers : List Answer}
      (fits : read.length ≤ len) (some : 0 < len → read = [] → rest = [])
      (more : Answers rest calls answers) :
      Answers (read ++ rest) (.partialRead len :: calls) (.bytes read :: answers)
  | atomicRead {read rest : List Byte} {calls : List Call} {answers : List Answer}
      (more : Answers rest calls answers) :
      Answers (read ++ rest) (.atomicRead read.length :: calls) (.all (some read) :: answers)
  | ended {len : Nat} {calls : List Call} {answers : List Answer} (some : 0 < len)
      (more : Answers [] calls answers) :
      Answers [] (.atomicRead len :: calls) (.all none :: answers)
  | beyond {len : Nat} {rest : List Byte} {calls : List Call} {answers : List Answer}
      (left : rest ≠ []) (short : rest.length < len) :
      Answers rest (.atomicRead len :: calls) answers

theorem InCrypto.reads_run {input : InCrypto} {rest : List Byte}
    (holds : Holds codecs key iv input rest) (calls : List Call) :
    ∃ answers, input.reads codecs calls = .ok answers ∧ Answers rest calls answers := by
  induction calls generalizing input rest with
  | nil => exact ⟨[], rfl, .nil⟩
  | cons call calls ih =>
    cases call with
    | partialRead len =>
      obtain ⟨bytes, after, rest', read, rfl, holds', fits, some⟩ := doPartialRead_run holds len
      obtain ⟨answers, run, right⟩ := ih holds'
      refine ⟨.bytes bytes :: answers, ?_, .partialRead fits (fun positive none => ?_) right⟩
      · rw [reads, read]
        simp only [ok_bind, run, pure_ok]
      · exact (List.append_eq_nil_iff.mp (some positive none)).2
    | atomicRead len =>
      obtain ⟨after, read, holds'⟩ := doAtomicRead_run holds len
      obtain ⟨answers, run, right⟩ := ih holds'
      refine ⟨.all (if len ≤ rest.length then some (rest.take len) else none) :: answers, ?_, ?_⟩
      · rw [reads, read]
        simp only [ok_bind, run, pure_ok]
      · rcases Nat.lt_or_ge rest.length len with short | enough
        · rw [if_neg (Nat.not_le.mpr short)]
          by_cases none : rest = []
          · subst none
            rw [List.drop_nil] at right
            exact .ended short right
          · exact .beyond none short
        · have length : (rest.take len).length = len := List.length_take_of_le enough
          have whole := @Answers.atomicRead (rest.take len) _ _ _ right
          rw [List.take_append_drop, length] at whole
          rwa [if_pos enough]

section Opening

variable {rawSize : BitVec 32} {middle derivator : List Byte}

theorem length_headerBuf (iv : Iv) : (Ocrypto.headerBuf iv).length = 40 := by
  rw [Ocrypto.headerBuf, List.length_append, iv.property]
  rfl

/-- The transport of an encrypted file that has just been opened. -/
def opened (key : List Byte) (iv : Iv) (rawSize : BitVec 32) (middle : List Byte) : InCrypto where
  source := middle ++ Ocrypto.trailer rawSize
  eof := false
  fileLen := rawSize.toNat
  currentLen := 0
  clearData := []
  ectx := some (key, iv.val)
  encrypted := true

/-- A file that begins and ends like a recording is opened as one. -/
theorem openFile_recording {mode : EncryptionMode} (read : mode ≠ .notEncrypted) :
    InCrypto.openFile cctx mode
      (Ocrypto.headerBuf iv ++ (middle ++ Ocrypto.trailer rawSize)) derivator =
      .ok (opened (cctx.derivedKey derivator) iv rawSize middle) := by
  have length := length_headerBuf iv
  have data : (Ocrypto.headerBuf iv ++ (middle ++ Ocrypto.trailer rawSize)).take 40 =
      Ocrypto.headerBuf iv := List.take_left' length
  have behind : (Ocrypto.headerBuf iv ++ (middle ++ Ocrypto.trailer rawSize)).drop 40 =
      middle ++ Ocrypto.trailer rawSize := List.drop_left' length
  have eight : (Ocrypto.trailer rawSize).length = 8 := by
    rw [Ocrypto.trailer, List.length_append, length_leBytes]
    rfl
  have last : (Ocrypto.headerBuf iv ++ (middle ++ Ocrypto.trailer rawSize)).drop
      ((Ocrypto.headerBuf iv ++ (middle ++ Ocrypto.trailer rawSize)).length - 8) =
        Ocrypto.trailer rawSize := by
    have total (front : List Byte) : (front ++ Ocrypto.trailer rawSize).length - 8 =
        front.length := by
      rw [List.length_append, eight, Nat.add_sub_cancel]
    rw [← List.append_assoc, total]
    exact List.drop_left
  have magic : leValue ((Ocrypto.headerBuf iv).take 4) = WABCRYPTOFILE_MAGIC := by
    change leValue [0x57, 0x43, 0x46, 0x4D] = _
    decide
  have version : leValue (((Ocrypto.headerBuf iv).drop 4).take 4) = WABCRYPTOFILE_VERSION := by
    change leValue [0x01, 0x00, 0x00, 0x00] = _
    decide
  have vector : (Ocrypto.headerBuf iv).drop 8 = iv.val := rfl
  have trail : leValue ((Ocrypto.trailer rawSize).take 4).reverse = WABCRYPTOFILE_MAGIC := by
    change leValue [0x57, 0x43, 0x46, 0x4D] = _
    decide
  have size : leValue ((Ocrypto.trailer rawSize).drop 4) = rawSize.toNat := by
    change leValue (leBytes 4 rawSize.toNat) = _
    rw [leValue_leBytes]
    exact Nat.mod_eq_of_lt rawSize.isLt
  rw [InCrypto.openFile]
  simp only [data, length, behind, last, magic, version, vector, trail, size]
  rw [if_neg (by decide), if_neg read, if_neg (by decide), if_neg (by decide), if_neg (by decide)]
  rfl

end Opening

/-- A recording is read back: it is written without an error, opened without an error, and any
calls give what they should. -/
def ReadsBack (codecs : Codecs) (hmac : StreamHash (List Byte) Byte δ) (cctx : CryptoContext)
    (writes : List (List Byte)) (mode : EncryptionMode) : Prop :=
  ∀ (derivator : List Byte) (iv : Iv) (calls : List Call), ∃ file input answers,
    recordFile codecs cctx hmac derivator iv writes = .ok file ∧
    InCrypto.openFile cctx mode file derivator = .ok input ∧
    input.reads codecs calls = .ok answers ∧ Answers writes.flatten calls answers

theorem readsBack_of_short {writes : List (List Byte)} {mode : EncryptionMode}
    (encryption : cctx.getWithEncryption = true) (read : mode ≠ .notEncrypted)
    (short : writes.flatten.length < 2 ^ 32) : ReadsBack codecs hmac cctx writes mode := by
  intro derivator iv calls
  obtain ⟨chunks, fits, same, recorded⟩ :=
    @recordFile_run _ hmac codecs _ encryption derivator iv writes
  have begun : InCrypto.Holds codecs (cctx.derivedKey derivator) iv
      (opened (cctx.derivedKey derivator) iv (BitVec.ofNat 32 writes.flatten.length)
        (chunks.flatMap (chunk codecs (cctx.derivedKey derivator) iv.val))) chunks.flatten := by
    refine .reading rfl rfl rfl fits rfl ?_
    change 0 + chunks.flatten.length = _ % 2 ^ 32
    rw [same, Nat.mod_eq_of_lt short, Nat.zero_add]
  obtain ⟨answers, run, right⟩ := InCrypto.reads_run begun calls
  rw [same] at right
  exact ⟨_, _, answers, recorded, openFile_recording read, run, right⟩

section Long

namespace InCrypto

variable {input after : InCrypto} {fileLen : Nat}

/-- Reading goes at most one chunk beyond the length that the trailer says. -/
structure Bounded (fileLen : Nat) (input : InCrypto) : Prop where
  encrypted : input.encrypted = true
  same : input.fileLen = fileLen
  chunk : input.clearData.length ≤ CRYPTO_BUFFER_SIZE
  within : input.currentLen ≤ fileLen + CRYPTO_BUFFER_SIZE
  before : input.eof = false → input.currentLen ≤ fileLen

theorem bounded_rawRead {length : Nat} {bytes : List Byte} (bounded : Bounded fileLen input)
    (read : input.rawRead length = .ok (bytes, after)) :
    Bounded fileLen after ∧ after.currentLen = input.currentLen ∧ after.eof = input.eof := by
  unfold rawRead at read
  split at read
  · cases read
    exact ⟨⟨bounded.encrypted, bounded.same, bounded.chunk, bounded.within, bounded.before⟩, rfl,
      rfl⟩
  · cases read

theorem bounded_readChunk (bounded : Bounded fileLen input)
    (read : input.readChunk codecs = .ok after) :
    Bounded fileLen after ∧ after.currentLen = input.currentLen := by
  obtain ⟨⟨hlen, first⟩, started, read⟩ := bind_ok_iff.mp read
  obtain ⟨bounded', same', _⟩ := bounded_rawRead bounded started
  simp only at read
  split at read
  · cases read
    exact ⟨⟨bounded'.encrypted, bounded'.same, Nat.zero_le _, bounded'.within, nofun⟩, same'⟩
  · split at read
    · cases read
    · obtain ⟨⟨rawBuf, second⟩, body, read⟩ := bind_ok_iff.mp read
      obtain ⟨bounded'', same'', _⟩ := bounded_rawRead bounded' body
      split at read
      · split at read
        · split at read
          · split at read
            · cases read
            · rename_i fits
              cases read
              exact ⟨⟨bounded''.encrypted, bounded''.same, Nat.le_of_not_lt fits,
                bounded''.within, bounded''.before⟩, same''.trans same'⟩
          · cases read
        · cases read
      · cases read

theorem bounded_copyClear (bounded : Bounded fileLen input) (more : input.eof = false)
    (len : Nat) :
    Bounded fileLen (input.copyClear len).2 ∧
      (input.copyClear len).2.currentLen = input.currentLen + (input.copyClear len).1.length := by
  have chunk := bounded.chunk
  have before := bounded.before more
  have taken : (input.copyClear len).1.length = min len input.clearData.length := by
    simp only [copyClear, List.length_take]
    omega
  refine ⟨⟨bounded.encrypted, bounded.same, ?_, ?_, fun goesOn => ?_⟩, by rw [taken]; rfl⟩
  · simp only [copyClear, List.length_drop]
    omega
  · change input.currentLen + min len input.clearData.length ≤ _
    omega
  · simp only [copyClear, more, Bool.false_or, decide_eq_false_iff_not] at goesOn ⊢
    rw [bounded.same] at goesOn
    omega

theorem bounded_doPartialRead {len : Nat} {bytes : List Byte} (bounded : Bounded fileLen input)
    (read : input.doPartialRead codecs len = .ok (bytes, after)) :
    Bounded fileLen after ∧ after.currentLen = input.currentLen + bytes.length := by
  unfold doPartialRead at read
  split at read
  · cases read
    exact ⟨bounded, rfl⟩
  · rename_i more
    rw [if_pos bounded.encrypted] at read
    split at read
    · obtain ⟨next, started, read⟩ := bind_ok_iff.mp read
      obtain ⟨bounded', same⟩ := bounded_readChunk bounded started
      split at read
      · cases read
        exact ⟨bounded', same⟩
      · rename_i goesOn
        cases read
        rw [← same]
        exact bounded_copyClear bounded' (by simpa using goesOn) len
    · cases read
      exact bounded_copyClear bounded (by simpa using more) len

theorem bounded_readAll {len res : Nat} {buffer bytes : List Byte} (bounded : Bounded fileLen input)
    (read : input.readAll codecs len buffer = .ok (bytes, res, after)) :
    after.currentLen + buffer.length = input.currentLen + bytes.length ∧
      Bounded fileLen after := by
  induction length : len using Nat.strong_induction_on generalizing input buffer len with
  | _ count ih =>
    subst length
    rw [readAll] at read
    split at read
    · cases read
    · rename_i part next found
      obtain ⟨bounded', same⟩ := bounded_doPartialRead bounded found
      have fits := length_doPartialRead codecs found
      split at read
      · obtain ⟨sum, bounded''⟩ := ih (len - part.length) (by omega) bounded' read rfl
        rw [List.length_append] at sum
        exact ⟨by omega, bounded''⟩
      · cases read
        rw [List.length_append]
        exact ⟨by omega, bounded'⟩

theorem bounded_doAtomicRead {len : Nat} {bytes : List Byte} (bounded : Bounded fileLen input)
    (start : input.currentLen = 0)
    (read : input.doAtomicRead codecs len = .ok (some bytes, after)) :
    len ≤ fileLen + CRYPTO_BUFFER_SIZE := by
  obtain ⟨⟨buffer, res, last⟩, run, read⟩ := bind_ok_iff.mp read
  obtain ⟨sum, bounded'⟩ := bounded_readAll bounded run
  simp only at read
  split at read
  · cases read
  · split at read
    · rename_i whole
      have within := bounded'.within
      simp only [List.length_nil] at sum
      omega
    · cases read

end InCrypto

/-- A recording that is read back is not longer than its trailer says. -/
theorem short_of_readsBack {writes : List (List Byte)} {mode : EncryptionMode}
    (encryption : cctx.getWithEncryption = true) (read : mode ≠ .notEncrypted)
    (back : ReadsBack codecs hmac cctx writes mode) : writes.flatten.length < 2 ^ 32 := by
  by_contra long
  obtain ⟨file, input, answers, recorded, opens, run, right⟩ :=
    back [] ⟨List.replicate 32 0, List.length_replicate⟩ [.atomicRead writes.flatten.length]
  obtain ⟨chunks, _, _, recorded'⟩ := @recordFile_run _ hmac codecs _ encryption [] ⟨List.replicate 32 0, List.length_replicate⟩ writes
  rw [recorded'] at recorded
  cases recorded
  rw [openFile_recording read] at opens
  cases opens
  generalize transport : opened _ _ _ _ = input at run
  have bounded : input.Bounded (writes.flatten.length % 2 ^ 32) := by
    rw [← transport]
    exact ⟨rfl, rfl, Nat.zero_le _, Nat.zero_le _, fun _ => Nat.zero_le _⟩
  have start : input.currentLen = 0 := by
    rw [← transport]
    rfl
  obtain ⟨⟨answer, after⟩, did, run⟩ := bind_ok_iff.mp run
  cases run
  have some : ∃ bytes, answer = some bytes := by
    generalize all : writes.flatten = rest at right long
    generalize asked : Call.atomicRead rest.length = call at right
    cases right with
    | atomicRead => exact ⟨_, rfl⟩
    | ended =>
      simp only [List.length_nil] at long
      omega
    | beyond left short =>
      cases asked
      omega
  obtain ⟨bytes, rfl⟩ := some
  have within := InCrypto.bounded_doAtomicRead bounded start did
  have chunk : CRYPTO_BUFFER_SIZE < 2 ^ 32 := by decide
  omega

end Long

/-- An encrypted recording is read back exactly if its length fits the trailer. -/
theorem crypto_round_trip (codecs : Codecs) (hmac : StreamHash (List Byte) Byte δ)
    (cctx : CryptoContext) (writes : List (List Byte)) :
    (ReadsBack codecs hmac { cctx with traceType := .cryptofile } writes .auto ∧
      ReadsBack codecs hmac { cctx with traceType := .cryptofile } writes .encrypted) ↔
    writes.flatten.length < 2 ^ 32 :=
  ⟨fun back => short_of_readsBack rfl (by decide) back.1,
    fun short => ⟨readsBack_of_short rfl (by decide) short,
      readsBack_of_short rfl (by decide) short⟩⟩

/-- A recording of 4 GiB is not read back. -/
theorem crypto_too_long :
    ¬ ∀ (codecs : Codecs) (hmac : StreamHash (List Byte) Byte (List Byte × List Byte))
      (cctx : CryptoContext) (writes : List (List Byte)),
      ReadsBack codecs hmac { cctx with traceType := .cryptofile } writes .auto := by
  intro always
  have short := short_of_readsBack rfl (by decide)
    (always plainCodecs (wholeStream _ _) ⟨.cryptofile, [], id⟩ [List.replicate (2 ^ 32) 0])
  rw [List.flatten_singleton, List.length_replicate] at short
  exact Nat.lt_irrefl _ short

end Redemption.Transport.Crypto
