import Redemption.Transport.OcryptoSpec

/-! The transports that write and read a recording in a file. -/
namespace Redemption.Transport.Crypto

open Redemption.Foundation

variable {δ : Type} {hmac : StreamHash (List Byte) Byte δ} (codecs : Codecs)
  (cctx : CryptoContext)

/-- `send_data`: give data to the writer until it has taken all of it. -/
def sendData (o : Ocrypto hmac) (data : List Byte) : Except ErrorId (List Byte × Ocrypto hmac) :=
  if _nonempty : data = [] then .ok ([], o)
  else do
    let (written, after) ← o.write codecs cctx data
    let (more, after) ← sendData after (data.drop (o.consumed cctx data))
    return (written ++ more, after)
termination_by data.length
decreasing_by
  have positive := List.length_pos_of_ne_nil _nonempty
  have room := o.room
  have some : 0 < o.consumed cctx data := by
    unfold Ocrypto.consumed
    split
    · omega
    · exact positive
  rw [List.length_drop]
  omega

/-- `do_send`, once for each list. -/
def doSends (o : Ocrypto hmac) : List (List Byte) → Except ErrorId (List Byte × Ocrypto hmac)
  | [] => .ok ([], o)
  | data :: rest => do
    let (written, o) ← sendData codecs cctx o data
    let (more, o) ← doSends o rest
    return (written ++ more, o)

/-- The file that an `OutCryptoTransport` writes from `open` to `close`. -/
def recordFile (hmac : StreamHash (List Byte) Byte δ) (derivator : List Byte) (iv : Iv)
    (writes : List (List Byte)) : Except ErrorId (List Byte) := do
  let (header, o) ← (Ocrypto.fresh hmac).openFile cctx derivator iv
  let (written, o) ← doSends codecs cctx o writes
  let (rest, _, _) ← o.close codecs cctx
  return header ++ written ++ rest

/-- `InCryptoTransport::EncryptionMode`. -/
inductive EncryptionMode where
  | auto
  | encrypted
  | notEncrypted
  deriving DecidableEq, Repr

/-- `InCryptoTransport`: the rest of its file, and the clear data that is not read yet, which is
what `clear_data` holds from `clear_pos` to `raw_size`. -/
structure InCrypto where
  source : List Byte
  eof : Bool
  fileLen : Nat
  currentLen : Nat
  clearData : List Byte
  ectx : Option (List Byte × List Byte)
  encrypted : Bool

namespace InCrypto

/-- A file that is read as it is, after its first bytes. -/
def openPlain (file data : List Byte) : InCrypto where
  source := file.drop data.length
  eof := false
  fileLen := file.length
  currentLen := 0
  clearData := data
  ectx := none
  encrypted := false

/-- `open`, and whether the header or its absence is accepted. -/
def openFile (mode : EncryptionMode) (file derivator : List Byte) : Except ErrorId InCrypto :=
  let data := file.take 40
  if data.length < 40 then
    if mode = .encrypted then .error .transportReadFailed else .ok (openPlain file data)
  else if mode = .notEncrypted then .ok (openPlain file data)
  else if leValue (data.take 4) ≠ WABCRYPTOFILE_MAGIC then
    if mode = .encrypted then .error .transportReadFailed else .ok (openPlain file data)
  else if WABCRYPTOFILE_VERSION < leValue ((data.drop 4).take 4) then .error .transportReadFailed
  else
    let trail := file.drop (file.length - 8)
    if leValue (trail.take 4).reverse ≠ WABCRYPTOFILE_MAGIC then .error .transportReadFailed
    else .ok {
      source := file.drop 40
      eof := false
      fileLen := leValue (trail.drop 4)
      currentLen := 0
      clearData := []
      ectx := some (cctx.derivedKey derivator, data.drop 8)
      encrypted := true }

/-- `raw_read`: exactly so many bytes of the file. -/
def rawRead (input : InCrypto) (length : Nat) : Except ErrorId (List Byte × InCrypto) :=
  if length ≤ input.source.length then
    .ok (input.source.take length, { input with source := input.source.drop length })
  else .error .transportReadFailed

/-- The clear data of the next chunk, or the end of the file. -/
def readChunk (input : InCrypto) : Except ErrorId InCrypto := do
  let (hlen, input) ← input.rawRead 4
  let encLen := leValue hlen
  if encLen = WABCRYPTOFILE_EOF_MAGIC then
    return { input with clearData := [], eof := true }
  else if snappyMaxCompressedLength CRYPTO_BUFFER_SIZE + AES_BLOCK_SIZE < encLen then
    throw .transportReadFailed
  else
    let (rawBuf, input) ← input.rawRead encLen
    let some (key, iv) := input.ectx | throw .sslCallFailed
    let some packBuf := codecs.decrypt key iv rawBuf | throw .sslCallFailed
    let some clearData := codecs.snappyUncompress packBuf | throw .transportReadFailed
    if CRYPTO_BUFFER_SIZE < clearData.length then throw .transportReadFailed
    else return { input with clearData }

/-- Copy clear data to the caller. -/
def copyClear (input : InCrypto) (len : Nat) : List Byte × InCrypto :=
  let copiableSize := min len input.clearData.length
  let currentLen := input.currentLen + copiableSize
  (input.clearData.take copiableSize, { input with
    clearData := input.clearData.drop copiableSize
    currentLen
    eof := input.eof || decide (input.fileLen ≤ currentLen) })

/-- `do_partial_read` of a file that is not encrypted. -/
def partialReadPlain (input : InCrypto) (len : Nat) : List Byte × InCrypto :=
  if len < input.clearData.length then input.copyClear len
  else
    let remainingLen := len - input.clearData.length
    let bytes := input.source.take remainingLen
    let currentLen := input.currentLen + len
    (input.clearData ++ bytes, { input with
      source := input.source.drop remainingLen
      clearData := []
      currentLen
      eof := input.eof || decide (bytes.length < remainingLen) ||
        decide (input.fileLen ≤ currentLen) })

/-- `do_partial_read`: the bytes that are read. -/
def doPartialRead (input : InCrypto) (len : Nat) : Except ErrorId (List Byte × InCrypto) :=
  if input.eof then .ok ([], input)
  else if input.encrypted then
    if input.clearData = [] then do
      let input ← input.readChunk codecs
      if input.eof then return ([], input) else return input.copyClear len
    else .ok (input.copyClear len)
  else .ok (input.partialReadPlain len)

theorem length_copyClear (input : InCrypto) (len : Nat) : (input.copyClear len).1.length ≤ len := by
  simp only [copyClear, List.length_take]
  omega

theorem length_partialReadPlain (input : InCrypto) (len : Nat) :
    (input.partialReadPlain len).1.length ≤ len := by
  unfold partialReadPlain
  split
  · exact length_copyClear input len
  · simp only [List.length_append, List.length_take]
    omega

theorem length_doPartialRead {input after : InCrypto} {len : Nat} {bytes : List Byte}
    (read : input.doPartialRead codecs len = .ok (bytes, after)) : bytes.length ≤ len := by
  unfold doPartialRead at read
  split at read
  · cases read
    exact Nat.zero_le _
  · split at read
    · split at read
      · obtain ⟨next, _, read⟩ := bind_ok_iff.mp read
        split at read
        · cases read
          exact Nat.zero_le _
        · cases read
          exact length_copyClear _ _
      · cases read
        exact length_copyClear _ _
    · have fits := length_partialReadPlain input len
      rw [Except.ok.inj read] at fits
      exact fits

/-- The loop of `do_atomic_read`: what is read in all, and the size of the last part. -/
def readAll (input : InCrypto) (remainingLen : Nat) (buffer : List Byte) :
    Except ErrorId (List Byte × Nat × InCrypto) :=
  match _read : input.doPartialRead codecs remainingLen with
  | .error error => .error error
  | .ok (res, after) =>
    if res.length ≠ 0 ∧ res.length ≠ remainingLen then
      readAll after (remainingLen - res.length) (buffer ++ res)
    else .ok (buffer ++ res, res.length, after)
termination_by remainingLen
decreasing_by
  have fits := length_doPartialRead codecs _read
  omega

/-- `do_atomic_read`: the bytes asked for, or the end of the file. -/
def doAtomicRead (input : InCrypto) (len : Nat) :
    Except ErrorId (Option (List Byte) × InCrypto) := do
  let (buffer, res, input) ← input.readAll codecs len []
  if res ≠ 0 ∧ buffer.length ≠ len then throw .transportReadFailed
  else return (if buffer.length = len then some buffer else none, input)

end InCrypto

end Redemption.Transport.Crypto
