import Redemption.Transport.CryptoTransport

/-! A recording that was encrypted reads back as it was written, as far as its length fits. -/
namespace Redemption.Transport.Crypto

open Redemption.Foundation

variable {δ : Type} {hmac : StreamHash (List Byte) Byte δ} {codecs : Codecs}
  {cctx : CryptoContext} {key : List Byte} {iv : Iv}

/-- Data that may be stored as chunks. -/
def Fits (chunks : List (List Byte)) : Prop :=
  ∀ data ∈ chunks, data ≠ [] ∧ data.length ≤ CRYPTO_BUFFER_SIZE

section Writer

variable {o : Ocrypto hmac} {file data : List Byte}

/-- A writer that has put `data` into the chunks of a file and its buffer. -/
structure Recording (codecs : Codecs) (cctx : CryptoContext) (key : List Byte) (iv : Iv)
    (o : Ocrypto hmac) (file data : List Byte) : Prop where
  opened : o.Opened cctx key iv.val file
  chunks : ∃ chunks, Fits chunks ∧
    file = Ocrypto.headerBuf iv ++ chunks.flatMap (chunk codecs key iv.val) ∧
    data = chunks.flatten ++ o.buf
  counted : o.rawSize = BitVec.ofNat 32 data.length

private theorem fits_snoc {chunks : List (List Byte)} (fits : Fits chunks) (nonempty : data ≠ [])
    (small : data.length ≤ CRYPTO_BUFFER_SIZE) : Fits (chunks ++ [data]) := by
  intro other member
  rcases List.mem_append.mp member with old | new
  · exact fits other old
  · rw [List.mem_singleton.mp new]
    exact ⟨nonempty, small⟩

theorem Recording.write (encryption : cctx.getWithEncryption = true)
    (recording : Recording codecs cctx key iv o file data) (more : List Byte) :
    ∃ written after, o.write codecs cctx more = .ok (written, after) ∧
      Recording codecs cctx key iv after (file ++ written)
        (data ++ more.take (o.consumed cctx more)) := by
  obtain ⟨written, after, wrote, opened, cases⟩ :=
    @Ocrypto.write_run _ _ codecs _ _ _ _ _ recording.opened more
  obtain ⟨size, small, kept⟩ := cases encryption
  obtain ⟨chunks, fits, same, parts⟩ := recording.chunks
  refine ⟨written, after, wrote, opened, ?_, ?_⟩
  · rcases kept with ⟨none, buf⟩ | ⟨flushed, nonempty, empty⟩
    · exact ⟨chunks, fits, by rw [none, List.append_nil, same],
        by rw [parts, buf, List.append_assoc]⟩
    · refine ⟨chunks ++ [_], fits_snoc fits nonempty small, ?_, ?_⟩
      · rw [same, flushed, List.flatMap_append, List.flatMap_singleton, List.append_assoc]
      · rw [parts, empty, List.append_nil, List.flatten_append, List.flatten_singleton,
          List.append_assoc]
  · have taken : (more.take (o.consumed cctx more)).length = o.consumed cctx more := by
      rw [List.length_take]
      unfold Ocrypto.consumed
      split <;> omega
    rw [size, recording.counted, List.length_append, taken, BitVec.ofNat_add]

theorem Recording.sendData (encryption : cctx.getWithEncryption = true)
    (recording : Recording codecs cctx key iv o file data) (more : List Byte) :
    ∃ written after, Crypto.sendData codecs cctx o more = .ok (written, after) ∧
      Recording codecs cctx key iv after (file ++ written) (data ++ more) := by
  induction length : more.length using Nat.strong_induction_on generalizing o file data more with
  | _ count ih =>
    rw [Crypto.sendData]
    split
    · rename_i empty
      exact ⟨[], o, rfl, by rwa [empty, List.append_nil, List.append_nil]⟩
    · rename_i nonempty
      obtain ⟨written, next, wrote, recording'⟩ := recording.write encryption more
      have positive := List.length_pos_of_ne_nil nonempty
      have shorter : (more.drop (o.consumed cctx more)).length < count := by
        have room := o.room
        rw [List.length_drop]
        unfold Ocrypto.consumed
        split <;> omega
      obtain ⟨rest, after, sent, recording''⟩ := ih _ shorter recording' _ rfl
      refine ⟨written ++ rest, after, ?_, ?_⟩
      · rw [wrote]
        simp only [ok_bind, sent, pure_ok]
      · rwa [List.append_assoc, List.append_assoc, List.take_append_drop] at recording''

theorem Recording.doSends (encryption : cctx.getWithEncryption = true)
    (recording : Recording codecs cctx key iv o file data) (writes : List (List Byte)) :
    ∃ written after, Crypto.doSends codecs cctx o writes = .ok (written, after) ∧
      Recording codecs cctx key iv after (file ++ written) (data ++ writes.flatten) := by
  induction writes generalizing o file data with
  | nil =>
    exact ⟨[], o, rfl, by rwa [List.flatten_nil, List.append_nil, List.append_nil]⟩
  | cons more writes ih =>
    obtain ⟨written, next, sent, recording'⟩ := recording.sendData encryption more
    obtain ⟨rest, after, run, recording''⟩ := ih recording'
    refine ⟨written ++ rest, after, ?_, ?_⟩
    · rw [Crypto.doSends, sent]
      simp only [ok_bind, run, pure_ok]
    · rwa [List.append_assoc, List.append_assoc, ← List.flatten_cons] at recording''

/-- The chunks that a recording is stored in, behind the header and before the trailer. -/
theorem recordFile_run (encryption : cctx.getWithEncryption = true) (derivator : List Byte)
    (iv : Iv) (writes : List (List Byte)) :
    ∃ chunks, Fits chunks ∧ chunks.flatten = writes.flatten ∧
      recordFile codecs cctx hmac derivator iv writes = .ok (Ocrypto.headerBuf iv ++
        (chunks.flatMap (chunk codecs (cctx.derivedKey derivator) iv.val) ++
          Ocrypto.trailer (BitVec.ofNat 32 writes.flatten.length))) := by
  obtain ⟨header, begun, begins, opened, empty, started⟩ :=
    @Ocrypto.openFile_run _ _ cctx (Ocrypto.fresh hmac) ⟨rfl, rfl⟩ derivator iv
  obtain ⟨same, zero⟩ := started encryption
  have recording : Recording codecs cctx (cctx.derivedKey derivator) iv begun header [] :=
    ⟨opened, ⟨[], nofun, by rw [same, List.flatMap_nil, List.append_nil], by rw [empty]; rfl⟩, zero⟩
  obtain ⟨written, last, sent, recording'⟩ := recording.doSends encryption writes
  obtain ⟨rest, hashes, after, closed, _, _, ended⟩ :=
    @Ocrypto.close_run _ _ codecs _ _ _ _ _ recording'.opened
  obtain ⟨chunks, fits, file, parts⟩ := recording'.chunks
  have run : recordFile codecs cctx hmac derivator iv writes = .ok (header ++ written ++ rest) := by
    rw [recordFile, begins]
    simp only [ok_bind, sent, closed, pure_ok]
  rw [run, file, ended encryption, recording'.counted, List.nil_append]
  rw [List.nil_append] at parts
  by_cases none : last.buf = []
  · rw [none, List.append_nil] at parts
    exact ⟨chunks, fits, parts.symm, by rw [if_pos none, List.nil_append, List.append_assoc]⟩
  · refine ⟨chunks ++ [last.buf], fits_snoc fits none (Nat.le_of_lt last.room), ?_, ?_⟩
    · rw [parts, List.flatten_append, List.flatten_singleton]
    · rw [if_neg none, List.flatMap_append, List.flatMap_singleton]
      simp only [List.append_assoc]

end Writer

namespace InCrypto

variable {input after : InCrypto} {rest : List Byte} {total : Nat}

/-- The data that a transport will still give: at the end nothing, before it the clear data and
that of the chunks. -/
inductive Holds (codecs : Codecs) (key : List Byte) (iv : Iv) (input : InCrypto) :
    List Byte → Prop where
  | ended (eof : input.eof = true) : Holds codecs key iv input []
  | reading {chunks : List (List Byte)} {rawSize : BitVec 32} (more : input.eof = false)
      (encrypted : input.encrypted = true) (ectx : input.ectx = some (key, iv.val))
      (fits : Fits chunks)
      (behind : input.source = chunks.flatMap (chunk codecs key iv.val) ++ Ocrypto.trailer rawSize)
      (counted : input.currentLen + (input.clearData ++ chunks.flatten).length = input.fileLen) :
      Holds codecs key iv input (input.clearData ++ chunks.flatten)

theorem rawRead_append {front back : List Byte} (source : input.source = front ++ back) :
    input.rawRead front.length = .ok (front, { input with source := back }) := by
  have enough : front.length ≤ input.source.length := by
    rw [source, List.length_append]
    omega
  rw [rawRead, if_pos enough, source, List.take_left, List.drop_left]

theorem readChunk_chunk {data back : List Byte} (ectx : input.ectx = some (key, iv.val))
    (fits : data.length ≤ CRYPTO_BUFFER_SIZE)
    (source : input.source = chunk codecs key iv.val data ++ back) :
    input.readChunk codecs = .ok { input with source := back, clearData := data } := by
  have small := @length_encrypt_le codecs key iv.val _ fits
  have bound : snappyMaxCompressedLength CRYPTO_BUFFER_SIZE + AES_BLOCK_SIZE < 2 ^ (8 * 4) := by
    decide
  have limit : snappyMaxCompressedLength CRYPTO_BUFFER_SIZE + AES_BLOCK_SIZE <
      WABCRYPTOFILE_EOF_MAGIC := by decide
  rw [chunk, List.append_assoc] at source
  have length := rawRead_append source
  rw [length_leBytes] at length
  have value := leValue_leBytes 4 (codecs.encrypt key iv.val (codecs.snappyCompress data)).length
  rw [Nat.mod_eq_of_lt (by omega)] at value
  have body := @rawRead_append ({ input with
    source := codecs.encrypt key iv.val (codecs.snappyCompress data) ++ back }) _ _ rfl
  rw [readChunk, length]
  simp only [ok_bind, value]
  rw [if_neg (by omega), if_neg (by omega), body]
  simp only [ok_bind, ectx, codecs.decrypt_encrypt, codecs.snappyUncompress_compress]
  rw [if_neg (Nat.not_lt.mpr fits)]
  rfl

theorem readChunk_trailer {rawSize : BitVec 32} (source : input.source = Ocrypto.trailer rawSize) :
    ∃ after, input.readChunk codecs = .ok after ∧ after.eof = true := by
  have length := @rawRead_append _ ([0x4D, 0x46, 0x43, 0x57]) _ source
  have value : leValue [0x4D, 0x46, 0x43, 0x57] = WABCRYPTOFILE_EOF_MAGIC := by decide
  refine ⟨{ input with source := leBytes 4 rawSize.toNat, clearData := [], eof := true }, ?_, rfl⟩
  rw [readChunk]
  change (input.rawRead [(0x4D : Byte), 0x46, 0x43, 0x57].length >>= _) = _
  rw [length]
  simp only [ok_bind, value, if_true, pure_ok]

/-- Copying takes the front of the clear data, and sets the end when all is read. -/
theorem copyClear_run {chunks : List (List Byte)} {rawSize : BitVec 32} (len : Nat)
    (more : input.eof = false) (encrypted : input.encrypted = true)
    (ectx : input.ectx = some (key, iv.val)) (fits : Fits chunks)
    (behind : input.source = chunks.flatMap (chunk codecs key iv.val) ++ Ocrypto.trailer rawSize)
    (counted : input.currentLen + (input.clearData ++ chunks.flatten).length = input.fileLen) :
    ∃ rest, input.clearData ++ chunks.flatten = (input.copyClear len).1 ++ rest ∧
      Holds codecs key iv (input.copyClear len).2 rest := by
  refine ⟨input.clearData.drop (min len input.clearData.length) ++ chunks.flatten, ?_, ?_⟩
  · rw [← List.append_assoc, copyClear, List.take_append_drop]
  · have lengths : input.currentLen + min len input.clearData.length +
        (input.clearData.drop (min len input.clearData.length) ++ chunks.flatten).length =
          input.fileLen := by
      rw [← counted, List.length_append, List.length_append, List.length_drop]
      omega
    by_cases all : input.fileLen ≤ input.currentLen + min len input.clearData.length
    · have none : input.clearData.drop (min len input.clearData.length) ++ chunks.flatten = [] :=
        List.eq_nil_of_length_eq_zero (by omega)
      rw [none]
      refine .ended ?_
      simp [copyClear, all]
    · exact .reading (by simp [copyClear, more, all]) encrypted ectx fits behind lengths

/-- A partial read gives the next bytes, at least one if one is asked for and left. -/
theorem doPartialRead_run (holds : Holds codecs key iv input rest) (len : Nat) :
    ∃ bytes after rest', input.doPartialRead codecs len = .ok (bytes, after) ∧
      rest = bytes ++ rest' ∧ Holds codecs key iv after rest' ∧ bytes.length ≤ len ∧
      (0 < len → bytes = [] → rest = []) := by
  cases holds with
  | ended eof =>
    exact ⟨[], input, [], by rw [doPartialRead, if_pos eof], rfl, .ended eof, Nat.zero_le _,
      fun _ _ => rfl⟩
  | @reading chunks rawSize more encrypted ectx fits behind counted =>
    have copied {ready : InCrypto} {chunks : List (List Byte)} (nonempty : ready.clearData ≠ [])
        (more : ready.eof = false) (encrypted : ready.encrypted = true)
        (ectx : ready.ectx = some (key, iv.val)) (fits : Fits chunks)
        (behind : ready.source =
          chunks.flatMap (chunk codecs key iv.val) ++ Ocrypto.trailer rawSize)
        (counted : ready.currentLen + (ready.clearData ++ chunks.flatten).length =
          ready.fileLen) :
        ∃ rest', ready.clearData ++ chunks.flatten = (ready.copyClear len).1 ++ rest' ∧
          Holds codecs key iv (ready.copyClear len).2 rest' ∧
          (ready.copyClear len).1.length ≤ len ∧
          (0 < len → (ready.copyClear len).1 = [] → ready.clearData ++ chunks.flatten = []) := by
      obtain ⟨rest', parts, holds'⟩ :=
        copyClear_run len more encrypted ectx fits behind counted
      refine ⟨rest', parts, holds', length_copyClear ready len, fun positive none => ?_⟩
      have length := congrArg List.length none
      have some := List.length_pos_of_ne_nil nonempty
      rw [copyClear, List.length_take, List.length_nil] at length
      omega
    have encrypted' : ¬ input.eof = true := by
      rw [more]
      decide
    rw [doPartialRead, if_neg encrypted', if_pos encrypted]
    by_cases empty : input.clearData = []
    · rw [if_pos empty]
      cases chunks with
      | nil =>
        obtain ⟨after, read, eof⟩ := @readChunk_trailer codecs _ _ behind
        refine ⟨[], after, [], ?_, by rw [empty]; rfl, .ended eof, Nat.zero_le _,
          fun _ _ => by rw [empty]; rfl⟩
        rw [read]
        simp only [ok_bind, eof, if_true, pure_ok]
      | cons data chunks =>
        rw [List.flatMap_cons, List.append_assoc] at behind
        obtain ⟨nonempty, small⟩ := fits data List.mem_cons_self
        have read := readChunk_chunk ectx small behind
        obtain ⟨rest', parts, holds', fit, some⟩ := @copied
          { input with source := _, clearData := data } chunks
          nonempty more encrypted ectx (fun other member => fits other (List.mem_cons_of_mem _ member))
          rfl (by rw [empty] at counted; exact counted)
        refine ⟨_, _, rest', ?_, by rw [empty]; exact parts, holds', fit,
          fun positive none => by rw [empty]; exact some positive none⟩
        rw [read]
        simp only [ok_bind, more, Bool.false_eq_true, if_false, pure_ok]
    · rw [if_neg empty]
      obtain ⟨rest', parts, holds', fit, some⟩ :=
        copied empty more encrypted ectx fits behind counted
      exact ⟨_, _, rest', rfl, parts, holds', fit, some⟩

/-- The loop of an atomic read goes on until it has all or the end is reached. -/
theorem readAll_run (holds : Holds codecs key iv input rest) (remainingLen : Nat)
    (buffer : List Byte) :
    ∃ bytes res after rest', input.readAll codecs remainingLen buffer =
        .ok (buffer ++ bytes, res, after) ∧
      rest = bytes ++ rest' ∧ Holds codecs key iv after rest' ∧ bytes.length ≤ remainingLen ∧
      (bytes.length < remainingLen → rest' = [] ∧ res = 0) := by
  induction length : remainingLen using Nat.strong_induction_on
    generalizing input rest remainingLen buffer with
  | _ count ih =>
    subst length
    obtain ⟨part, next, rest', read, rfl, holds', fits, some⟩ := doPartialRead_run holds remainingLen
    rw [readAll]
    split
    · rename_i error failed
      rw [read] at failed
      cases failed
    · rename_i res after found
      rw [read] at found
      cases found
      split
      · obtain ⟨bytes, last, after, rest'', run, rfl, holds'', fits', few⟩ :=
          ih (remainingLen - part.length) (by omega) holds' _ (buffer ++ part) rfl
        refine ⟨part ++ bytes, last, after, rest'', by rw [run, List.append_assoc],
          by rw [List.append_assoc], holds'', ?_, fun less => few ?_⟩
        · rw [List.length_append]
          omega
        · rw [List.length_append] at less
          omega
      · rename_i whole
        refine ⟨part, part.length, next, rest', rfl, rfl, holds', fits, fun less => ?_⟩
        have none : part.length = 0 := by
          by_contra other
          exact whole ⟨other, by omega⟩
        have empty := List.eq_nil_of_length_eq_zero none
        exact ⟨(List.append_eq_nil_iff.mp (some (by omega) empty)).2, none⟩

/-- An atomic read gives the bytes asked for, or the end if fewer are left: these are lost. -/
theorem doAtomicRead_run (holds : Holds codecs key iv input rest) (len : Nat) :
    ∃ after, input.doAtomicRead codecs len =
        .ok (if len ≤ rest.length then some (rest.take len) else none, after) ∧
      Holds codecs key iv after (rest.drop len) := by
  obtain ⟨bytes, res, after, rest', run, rfl, holds', fits, few⟩ := readAll_run holds len []
  refine ⟨after, ?_, ?_⟩
  · rw [doAtomicRead, run]
    simp only [ok_bind, List.nil_append]
    rcases Nat.lt_or_ge bytes.length len with less | all
    · obtain ⟨none, zero⟩ := few less
      have short : ¬ len ≤ (bytes ++ rest').length := by
        rw [none, List.append_nil]
        omega
      rw [if_neg (fun both => both.1 zero), if_neg (Nat.ne_of_lt less), if_neg short]
      rfl
    · have same := Nat.le_antisymm fits all
      have enough : len ≤ (bytes ++ rest').length := by
        rw [List.length_append]
        omega
      rw [if_neg (fun both => both.2 same), if_pos same, if_pos enough, List.take_left' same]
      rfl
  · rcases Nat.lt_or_ge bytes.length len with less | all
    · rw [(few less).1, List.append_nil, List.drop_of_length_le (by omega)]
      rw [(few less).1] at holds'
      exact holds'
    · rwa [List.drop_left' (Nat.le_antisymm fits all)]

end InCrypto

end Redemption.Transport.Crypto
