import Redemption.Transport.CryptoHashes

/-! What the writer of recordings gives out, and what its checksums are of. -/
namespace Redemption.Transport.Crypto

open Redemption.Foundation

variable {δ : Type} {hmac : StreamHash (List Byte) Byte δ} {codecs : Codecs}
  {cctx : CryptoContext} {key iv : List Byte}

/-- Data as it is stored: compressed, encrypted, and the length before it. -/
def chunk (codecs : Codecs) (key iv data : List Byte) : List Byte :=
  leBytes 4 (codecs.encrypt key iv (codecs.snappyCompress data)).length ++
    codecs.encrypt key iv (codecs.snappyCompress data)

theorem length_encrypt_le {data : List Byte} (fits : data.length ≤ CRYPTO_BUFFER_SIZE) :
    (codecs.encrypt key iv (codecs.snappyCompress data)).length ≤
      snappyMaxCompressedLength CRYPTO_BUFFER_SIZE + AES_BLOCK_SIZE := by
  have encrypted := codecs.length_encrypt key iv (codecs.snappyCompress data)
  have compressed := codecs.length_snappyCompress data
  simp only [snappyMaxCompressedLength] at compressed ⊢
  omega

theorem length_chunk_le {data : List Byte} (fits : data.length ≤ CRYPTO_BUFFER_SIZE) :
    (chunk codecs key iv data).length + 8 ≤ resultBufferSize := by
  have encrypted := @length_encrypt_le codecs key iv _ fits
  have small : snappyMaxCompressedLength CRYPTO_BUFFER_SIZE + AES_BLOCK_SIZE + 12 ≤
      resultBufferSize := by decide
  rw [chunk, List.length_append, length_leBytes]
  omega

namespace Ocrypto

variable {o : Ocrypto hmac} {file : List Byte}

/-- A writer whose bytes so far are those of `file`. -/
structure Opened (cctx : CryptoContext) (key iv : List Byte) (o : Ocrypto hmac)
    (file : List Byte) : Prop where
  hashing : cctx.getWithChecksum = true → ∃ full quick, o.hm = some full ∧ o.hm4k = some quick ∧
    hmac.Absorbed cctx.hmacKey full file ∧ hmac.Absorbed cctx.hmacKey quick (file.take 4096) ∧
    o.fileSize = file.length
  ciphering : cctx.getWithEncryption = true → o.ectx = some (key, iv)
  settled : cctx.getWithChecksum = false → o.hm = none ∧ o.hm4k = none

/-- The checksums take in all that is written, and nothing else changes. -/
theorem updateHmac_run (opened : Opened cctx key iv o file) (buf : List Byte) :
    ∃ hm hm4k fileSize, o.updateHmac cctx buf = .ok { o with hm, hm4k, fileSize } ∧
      Opened cctx key iv { o with hm, hm4k, fileSize } (file ++ buf) := by
  cases checksum : cctx.getWithChecksum with
  | false =>
    refine ⟨o.hm, o.hm4k, o.fileSize, by rw [updateHmac, checksum]; rfl, ?_,
      opened.ciphering, opened.settled⟩
    rw [checksum]
    nofun
  | true =>
    obtain ⟨full, quick, hm, hm4k, absorbed, first, size⟩ := opened.hashing checksum
    by_cases less : o.fileSize < 4096
    · refine ⟨some (hmac.update full buf),
        some (hmac.update quick (buf.take (min (4096 - o.fileSize) buf.length))),
        o.fileSize + buf.length, ?_, fun _ => ⟨_, _, rfl, rfl, absorbed.update buf, ?_, ?_⟩,
        opened.ciphering, fun no => absurd (checksum.symm.trans no) (by decide)⟩
      · simp [updateHmac, checksum, hm, hm4k, less, DelayedHmac.update]
      · have more := first.update (buf.take (min (4096 - o.fileSize) buf.length))
        have same : (file ++ buf).take 4096 =
            file.take 4096 ++ buf.take (min (4096 - o.fileSize) buf.length) := by
          rw [List.take_append, size, List.take_eq_take_min (i := 4096 - file.length)]
        rwa [same]
      · rw [List.length_append, size]
    · refine ⟨some (hmac.update full buf), some quick, o.fileSize + buf.length, ?_,
        fun _ => ⟨_, _, rfl, rfl, absorbed.update buf, ?_, ?_⟩, opened.ciphering,
        fun no => absurd (checksum.symm.trans no) (by decide)⟩
      · simp [updateHmac, checksum, hm, hm4k, less, DelayedHmac.update]
      · rwa [List.take_append_of_le_length (by omega)]
      · rw [List.length_append, size]

theorem flush_run {data : List Byte} {buflen : Nat} (opened : Opened cctx key iv o file)
    (encryption : cctx.getWithEncryption = true) (nonempty : data ≠ [])
    (fits : (chunk codecs key iv data).length ≤ buflen) :
    ∃ after, o.flush codecs cctx data buflen = .ok (chunk codecs key iv data, after) ∧
      Opened cctx key iv after (file ++ chunk codecs key iv data) ∧ after.buf = [] ∧
      after.rawSize = o.rawSize := by
  obtain ⟨hm, hm4k, fileSize, updated, opened'⟩ :=
    updateHmac_run opened (chunk codecs key iv data)
  refine ⟨{ o with hm, hm4k, fileSize, buf := [], room := by decide }, ?_,
    ⟨opened'.hashing, opened'.ciphering, opened'.settled⟩, rfl, rfl⟩
  have cipher := opened.ciphering encryption
  have room : ¬ buflen < (chunk codecs key iv data).length := Nat.not_lt.mpr fits
  conv_lhs => rw [flush, if_neg nonempty, cipher]
  change (if buflen < (chunk codecs key iv data).length then _ else _) = _
  rw [if_neg room]
  change (o.updateHmac cctx (chunk codecs key iv data) >>= _) = _
  rw [updated]
  rfl

theorem openHmac_run (closed : o.hm = none ∧ o.hm4k = none) :
    ∃ begun, o.openHmac cctx = .ok begun ∧ begun.buf = [] ∧
      (cctx.getWithChecksum = true → ∃ full quick, begun.hm = some full ∧ begun.hm4k = some quick ∧
        hmac.Absorbed cctx.hmacKey full [] ∧ hmac.Absorbed cctx.hmacKey quick [] ∧
        begun.fileSize = 0) ∧
      (cctx.getWithChecksum = false → begun.hm = none ∧ begun.hm4k = none) := by
  obtain ⟨hm, hm4k⟩ := closed
  cases checksum : cctx.getWithChecksum with
  | false =>
    refine ⟨{ o with fileSize := 0, buf := [], room := by decide }, ?_, rfl, nofun,
      fun _ => ⟨hm, hm4k⟩⟩
    rw [openHmac, checksum]
    rfl
  | true =>
    have absorbed := @StreamHash.absorbed_init _ _ _ hmac cctx.hmacKey
    refine ⟨{ o with
        fileSize := 0
        buf := []
        room := by decide
        hm := some (hmac.init cctx.hmacKey)
        hm4k := some (hmac.init cctx.hmacKey) }, ?_, rfl,
      fun _ => ⟨_, _, rfl, rfl, absorbed, absorbed, rfl⟩, nofun⟩
    simp only [openHmac, checksum, if_true, hm, hm4k]
    rfl

theorem openFile_run (closed : o.hm = none ∧ o.hm4k = none) (derivator : List Byte) (iv : Iv) :
    ∃ written after, o.openFile cctx derivator iv = .ok (written, after) ∧
      Opened cctx (cctx.derivedKey derivator) iv.val after written ∧ after.buf = [] ∧
      (cctx.getWithEncryption = true → written = headerBuf iv ∧ after.rawSize = 0) := by
  obtain ⟨begun, begins, empty, hashing, settled⟩ := @openHmac_run _ _ cctx _ closed
  cases encryption : cctx.getWithEncryption with
  | false =>
    refine ⟨[], begun, ?_, ⟨hashing, fun no => ?_, settled⟩, empty, nofun⟩
    · rw [openFile, begins, encryption]
      rfl
    · rw [encryption] at no
      cases no
  | true =>
    have opened : Opened cctx (cctx.derivedKey derivator) iv.val { begun with
        rawSize := 0
        ectx := some (cctx.derivedKey derivator, iv.val) } [] :=
      ⟨hashing, fun _ => rfl, settled⟩
    obtain ⟨hm, hm4k, fileSize, updated, opened'⟩ := updateHmac_run opened (headerBuf iv)
    refine ⟨headerBuf iv, _, ?_, opened', empty, fun _ => ⟨rfl, rfl⟩⟩
    rw [openFile, begins, encryption]
    simp only [ok_bind, if_true, updated]
    rfl

/-- A call of `write` takes some of the data: it is kept, or given out with what was kept, or
given out as it is without encryption. -/
theorem write_run (opened : Opened cctx key iv o file) (data : List Byte) :
    ∃ written after, o.write codecs cctx data = .ok (written, after) ∧
      Opened cctx key iv after (file ++ written) ∧
      (cctx.getWithEncryption = true →
        after.rawSize = o.rawSize + BitVec.ofNat 32 (o.consumed cctx data) ∧
        let filled := o.buf ++ data.take (o.consumed cctx data)
        filled.length ≤ CRYPTO_BUFFER_SIZE ∧
        ((written = [] ∧ after.buf = filled) ∨
          (written = chunk codecs key iv filled ∧ filled ≠ [] ∧ after.buf = []))) := by
  cases encryption : cctx.getWithEncryption with
  | false =>
    obtain ⟨hm, hm4k, fileSize, updated, opened'⟩ := updateHmac_run opened data
    refine ⟨data, _, ?_, opened', nofun⟩
    rw [write, encryption, updated]
    rfl
  | true =>
    have consumed : o.consumed cctx data =
        min (CRYPTO_BUFFER_SIZE - o.buf.length) data.length := by
      rw [Ocrypto.consumed, encryption, if_pos rfl]
    have kept := o.room
    have fits : (o.buf ++ data.take (o.consumed cctx data)).length ≤ CRYPTO_BUFFER_SIZE := by
      rw [List.length_append, List.length_take]
      omega
    by_cases room : (o.buf ++ data.take (o.consumed cctx data)).length < CRYPTO_BUFFER_SIZE
    · refine ⟨[], { o with
          buf := o.buf ++ data.take (o.consumed cctx data)
          room := room
          rawSize := o.rawSize + BitVec.ofNat 32 (o.consumed cctx data) }, ?_, ?_,
        fun _ => ⟨rfl, fits, .inl ⟨rfl, rfl⟩⟩⟩
      · rw [write, encryption, if_pos rfl, dif_pos room]
        rfl
      · rw [List.append_nil]
        exact ⟨opened.hashing, opened.ciphering, opened.settled⟩
    · have nonempty : o.buf ++ data.take (o.consumed cctx data) ≠ [] := by
        intro empty
        rw [empty] at room
        exact room (by decide)
      have enough := @length_chunk_le codecs key iv _ fits
      obtain ⟨after, flushed, opened', empty, size⟩ :=
        @flush_run _ _ codecs _ _ _ _ _ _ _ opened encryption nonempty (Nat.le_of_add_right_le enough)
      refine ⟨_, { after with rawSize := after.rawSize + BitVec.ofNat 32 (o.consumed cctx data) },
        ?_, ⟨opened'.hashing, opened'.ciphering, opened'.settled⟩,
        fun _ => ⟨by rw [size], fits, .inr ⟨rfl, nonempty, empty⟩⟩⟩
      rw [write, encryption, if_pos rfl, dif_neg room, flushed]
      rfl

/-- Closing gives out what was kept and the trailer, and the checksums of the whole file. -/
theorem close_run (opened : Opened cctx key iv o file) :
    ∃ written hashes after, o.close codecs cctx = .ok (written, hashes, after) ∧
      (after.hm = none ∧ after.hm4k = none) ∧
      (cctx.getWithChecksum = true → hashes = some (hmac.hash cctx.hmacKey
        ((file ++ written).take 4096), hmac.hash cctx.hmacKey (file ++ written))) ∧
      (cctx.getWithEncryption = true → written =
        (if o.buf = [] then [] else chunk codecs key iv o.buf) ++ trailer o.rawSize) := by
  -- Whatever is written last, the checksums are finished in the same way.
  have finish {last : Ocrypto hmac} {written : List Byte}
      (ended : Opened cctx key iv last (file ++ written)) :
      ∃ hashes after, (if cctx.getWithChecksum then do
          let full ← last.hm.final
          let quick ← last.hm4k.final
          return (written, some (quick.1, full.1), { last with hm := full.2, hm4k := quick.2 })
        else return (written, none, last) : Except ErrorId _) = .ok (written, hashes, after) ∧
        (after.hm = none ∧ after.hm4k = none) ∧
        (cctx.getWithChecksum = true → hashes = some (hmac.hash cctx.hmacKey
          ((file ++ written).take 4096), hmac.hash cctx.hmacKey (file ++ written))) := by
    cases checksum : cctx.getWithChecksum with
    | false =>
      exact ⟨none, last, rfl, ended.settled checksum, fun on => absurd on Bool.false_ne_true⟩
    | true =>
      obtain ⟨full, quick, hm, hm4k, absorbed, first, _⟩ := ended.hashing checksum
      refine ⟨some (hmac.final quick, hmac.final full), { last with hm := none, hm4k := none }, ?_,
        ⟨rfl, rfl⟩, fun _ => by rw [absorbed.final, first.final]⟩
      rw [hm, hm4k]
      rfl
  cases encryption : cctx.getWithEncryption with
  | false =>
    obtain ⟨hashes, after, closed, none, same⟩ :=
      @finish _ [] (by rwa [List.append_nil])
    refine ⟨[], hashes, after, ?_, none, same, fun on => absurd on Bool.false_ne_true⟩
    rw [close, encryption]
    exact closed
  | true =>
    have flushed : ∃ kept last, o.flush codecs cctx o.buf resultBufferSize = .ok (kept, last) ∧
        Opened cctx key iv last (file ++ kept) ∧ last.rawSize = o.rawSize ∧
        kept.length + 8 ≤ resultBufferSize ∧
        kept = if o.buf = [] then [] else chunk codecs key iv o.buf := by
      by_cases empty : o.buf = []
      · exact ⟨[], o, by rw [flush, if_pos empty], by rwa [List.append_nil], rfl, by decide,
          by rw [if_pos empty]⟩
      · have enough := @length_chunk_le codecs key iv _ (Nat.le_of_lt o.room)
        obtain ⟨last, flushed, opened', _, size⟩ :=
          @flush_run _ _ codecs _ _ _ _ _ _ _ opened encryption empty (Nat.le_of_add_right_le enough)
        exact ⟨_, last, flushed, opened', size, enough, by rw [if_neg empty]⟩
    obtain ⟨kept, last, flushed, opened', size, enough, same⟩ := flushed
    obtain ⟨hm, hm4k, fileSize, updated, ended⟩ := updateHmac_run opened' (trailer last.rawSize)
    rw [List.append_assoc] at ended
    obtain ⟨hashes, after, closed, none, sums⟩ := finish ended
    refine ⟨_, hashes, after, ?_, none, sums, fun _ => by rw [size, same]⟩
    rw [close, encryption, if_pos rfl, flushed]
    simp only [ok_bind, if_neg (Nat.not_lt.mpr enough)]
    rw [updated]
    exact closed

/-- Calls of `write`, one after the other: what they give out. -/
def writes (codecs : Codecs) (cctx : CryptoContext) (o : Ocrypto hmac) :
    List (List Byte) → Except ErrorId (List Byte × Ocrypto hmac)
  | [] => .ok ([], o)
  | data :: rest => do
    let (written, o) ← o.write codecs cctx data
    let (more, o) ← o.writes codecs cctx rest
    return (written ++ more, o)

theorem writes_run (opened : Opened cctx key iv o file) (calls : List (List Byte)) :
    ∃ written after, o.writes codecs cctx calls = .ok (written, after) ∧
      Opened cctx key iv after (file ++ written) := by
  induction calls generalizing o file with
  | nil => exact ⟨[], o, rfl, by rwa [List.append_nil]⟩
  | cons data rest ih =>
    obtain ⟨written, next, wrote, opened', _⟩ := @write_run _ _ codecs _ _ _ _ _ opened data
    obtain ⟨more, after, run, opened''⟩ := ih opened'
    refine ⟨written ++ more, after, ?_, by rwa [← List.append_assoc]⟩
    rw [writes, wrote]
    simp only [ok_bind, run, pure_ok]

end Ocrypto

/-- What is done with a writer from `open` to `close`. -/
structure Session where
  derivator : List Byte
  iv : Iv
  writes : List (List Byte)

/-- The file that a session leads to, and the quick and the full hash. -/
structure Recorded (δ : Type) where
  file : List Byte
  hashes : Option (δ × δ)

def Ocrypto.session (codecs : Codecs) (cctx : CryptoContext) (o : Ocrypto hmac)
    (session : Session) : Except ErrorId (Recorded δ × Ocrypto hmac) := do
  let (header, o) ← o.openFile cctx session.derivator session.iv
  let (written, o) ← o.writes codecs cctx session.writes
  let (rest, hashes, o) ← o.close codecs cctx
  return (⟨header ++ written ++ rest, hashes⟩, o)

def Ocrypto.sessions (codecs : Codecs) (cctx : CryptoContext) (o : Ocrypto hmac) :
    List Session → Except ErrorId (List (Recorded δ))
  | [] => .ok []
  | session :: rest => do
    let (recorded, o) ← o.session codecs cctx session
    let more ← o.sessions codecs cctx rest
    return recorded :: more

/-- The hashes of a file, which are also those that are computed when it is read. -/
def Matches (hmac : StreamHash (List Byte) Byte δ) (hmacKey : List Byte) (recorded : Recorded δ) :
    Prop :=
  ∃ qhash fhash, recorded.hashes = some (qhash, fhash) ∧
    qhash = hmac.hash hmacKey (recorded.file.take 4096) ∧
    fhash = hmac.hash hmacKey recorded.file ∧
    ∀ calls, readQhash hmac hmacKey calls (some recorded.file) = some qhash ∧
      readFhash hmac hmacKey calls (some recorded.file) = some fhash

theorem Ocrypto.session_run {o : Ocrypto hmac} (closed : o.hm = none ∧ o.hm4k = none)
    (checksum : cctx.getWithChecksum = true) (session : Session) :
    ∃ recorded after, o.session codecs cctx session = .ok (recorded, after) ∧
      (after.hm = none ∧ after.hm4k = none) ∧ Matches hmac cctx.hmacKey recorded := by
  obtain ⟨header, begun, begins, opened, _⟩ :=
    @openFile_run _ _ cctx _ closed session.derivator session.iv
  obtain ⟨written, last, wrote, opened'⟩ :=
    @writes_run _ _ codecs _ _ _ _ _ opened session.writes
  obtain ⟨rest, hashes, after, closes, none, sums, _⟩ := @close_run _ _ codecs _ _ _ _ _ opened'
  refine ⟨⟨header ++ written ++ rest, hashes⟩, after, ?_, none,
    _, _, sums checksum, rfl, rfl, fun calls => ⟨readQhash_eq _ _ _, readFhash_eq _ _ _⟩⟩
  rw [Ocrypto.session, begins]
  simp only [ok_bind, wrote, closes, pure_ok]

theorem Ocrypto.sessions_run {o : Ocrypto hmac} (closed : o.hm = none ∧ o.hm4k = none)
    (checksum : cctx.getWithChecksum = true) (sessions : List Session) :
    ∃ recorded, o.sessions codecs cctx sessions = .ok recorded ∧
      recorded.length = sessions.length ∧
      ∀ one ∈ recorded, Matches hmac cctx.hmacKey one := by
  induction sessions generalizing o with
  | nil => exact ⟨[], rfl, rfl, nofun⟩
  | cons session rest ih =>
    obtain ⟨recorded, next, did, closed', fine⟩ :=
      @session_run _ _ codecs _ _ closed checksum session
    obtain ⟨more, run, length, all⟩ := ih closed'
    refine ⟨recorded :: more, ?_, by rw [List.length_cons, length, List.length_cons],
      List.forall_mem_cons.mpr ⟨fine, all⟩⟩
    rw [sessions, did]
    simp only [ok_bind, run, pure_ok]

/-- The kind of recording with checksums, encrypted or not. -/
def hashedTraceType (encryption : Bool) : TraceType :=
  if encryption then .cryptofile else .localfileHashed

/-- The checksums of every file that one writer writes are those of this file alone, and those
that are computed when the file is read, however it is read. -/
theorem ocrypto_hashes (codecs : Codecs) (hmac : StreamHash (List Byte) Byte δ)
    (cctx : CryptoContext) (encryption : Bool) (sessions : List Session) :
    ∃ recorded, (Ocrypto.fresh hmac).sessions codecs
        { cctx with traceType := hashedTraceType encryption } sessions = .ok recorded ∧
      recorded.length = sessions.length ∧
      ∀ one ∈ recorded, Matches hmac cctx.hmacKey one := by
  have checksum : CryptoContext.getWithChecksum
      { cctx with traceType := hashedTraceType encryption } = true := by
    cases encryption <;> rfl
  exact Ocrypto.sessions_run ⟨rfl, rfl⟩ checksum sessions

end Redemption.Transport.Crypto
