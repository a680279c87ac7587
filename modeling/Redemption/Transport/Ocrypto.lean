import Redemption.Foundation.ByteStream
import Redemption.Foundation.StreamCodec

/-! What the transports of encrypted recordings use of other libraries and of their context. -/
namespace Redemption.Transport.Crypto

open Redemption.Foundation

inductive ErrorId where
  | transportReadFailed
  | sslCallFailed
  | sslCallHmacInitFailed
  | sslCallHmacUpdateFailed
  | sslCallHmacFinalFailed
  | cryptoBufferTooSmall
  deriving DecidableEq, Repr

def CRYPTO_BUFFER_SIZE : Nat := 4096 * 4

def AES_BLOCK_SIZE : Nat := 16

/-- "MFCW", read as a little-endian number. -/
def WABCRYPTOFILE_MAGIC : Nat := 0x4D464357

def WABCRYPTOFILE_EOF_MAGIC : Nat := 0x5743464D

def WABCRYPTOFILE_VERSION : Nat := 1

/-- `snappy_max_compressed_length`. -/
def snappyMaxCompressedLength (length : Nat) : Nat := 32 + length + length / 6

/-- Snappy, and AES in blocks that are encrypted one after the other with the same key and vector:
each undoes what it did, and makes nothing longer than it may. -/
structure Codecs where
  snappyCompress : List Byte → List Byte
  snappyUncompress : List Byte → Option (List Byte)
  encrypt : List Byte → List Byte → List Byte → List Byte
  decrypt : List Byte → List Byte → List Byte → Option (List Byte)
  snappyUncompress_compress : ∀ data, snappyUncompress (snappyCompress data) = some data
  length_snappyCompress : ∀ data,
    (snappyCompress data).length ≤ snappyMaxCompressedLength data.length
  decrypt_encrypt : ∀ key iv data, decrypt key iv (encrypt key iv data) = some data
  length_encrypt : ∀ key iv data, (encrypt key iv data).length ≤ data.length + AES_BLOCK_SIZE

/-- Codecs that change nothing. -/
def plainCodecs : Codecs where
  snappyCompress := id
  snappyUncompress := some
  encrypt _ _ := id
  decrypt _ _ := some
  snappyUncompress_compress _ := rfl
  length_snappyCompress data := by
    simp only [snappyMaxCompressedLength, id_eq]
    omega
  decrypt_encrypt _ _ _ := rfl
  length_encrypt _ _ _ := Nat.le_add_right _ _

/-- `TraceType`. -/
inductive TraceType where
  | localfile
  | localfileHashed
  | cryptofile
  deriving DecidableEq, Repr

/-- `CryptoContext`, with its keys loaded. -/
structure CryptoContext where
  traceType : TraceType
  hmacKey : List Byte
  derivedKey : List Byte → List Byte

namespace CryptoContext

def getWithEncryption (context : CryptoContext) : Bool := context.traceType == .cryptofile

def getWithChecksum (context : CryptoContext) : Bool := context.traceType != .localfile

end CryptoContext

/-- `SslHMAC_Sha256_Delayed`: nothing until it is initialised. -/
abbrev DelayedHmac {δ : Type} (hmac : StreamHash (List Byte) Byte δ) := Option hmac.State

namespace DelayedHmac

variable {δ : Type} {hmac : StreamHash (List Byte) Byte δ}

def init (delayed : DelayedHmac hmac) (key : List Byte) : Except ErrorId (DelayedHmac hmac) :=
  match delayed with
  | some _ => .error .sslCallHmacInitFailed
  | none => .ok (some (hmac.init key))

def update (delayed : DelayedHmac hmac) (data : List Byte) : Except ErrorId (DelayedHmac hmac) :=
  match delayed with
  | some state => .ok (some (hmac.update state data))
  | none => .error .sslCallHmacUpdateFailed

def final (delayed : DelayedHmac hmac) : Except ErrorId (δ × DelayedHmac hmac) :=
  match delayed with
  | some state => .ok (hmac.final state, none)
  | none => .error .sslCallHmacFinalFailed

end DelayedHmac

/-- A random vector. -/
abbrev Iv := { iv : List Byte // iv.length = 32 }

/-! The writer of recordings, encrypted or not, with or without checksums. -/

/-- The size of `result_buffer`. -/
def resultBufferSize : Nat := 65536

/-- `ocrypto`; its buffer is never left full. -/
structure Ocrypto {δ : Type} (hmac : StreamHash (List Byte) Byte δ) where
  hm : DelayedHmac hmac
  hm4k : DelayedHmac hmac
  ectx : Option (List Byte × List Byte)
  rawSize : BitVec 32
  fileSize : Nat
  buf : List Byte
  room : buf.length < CRYPTO_BUFFER_SIZE

namespace Ocrypto

variable {δ : Type} {hmac : StreamHash (List Byte) Byte δ} (codecs : Codecs)
  (cctx : CryptoContext)

/-- A writer before it is opened. -/
def fresh (hmac : StreamHash (List Byte) Byte δ) : Ocrypto hmac where
  hm := none
  hm4k := none
  ectx := none
  rawSize := 0
  fileSize := 0
  buf := []
  room := by decide

def updateHmac (o : Ocrypto hmac) (buf : List Byte) : Except ErrorId (Ocrypto hmac) :=
  if cctx.getWithChecksum then do
    let hm ← o.hm.update buf
    let hm4k ←
      if o.fileSize < 4096 then o.hm4k.update (buf.take (min (4096 - o.fileSize) buf.length))
      else pure o.hm4k
    return { o with hm, hm4k, fileSize := o.fileSize + buf.length }
  else .ok o

/-- `flush`: the bytes of a chunk, or nothing if there is no data. -/
def flush (o : Ocrypto hmac) (data : List Byte) (buflen : Nat) :
    Except ErrorId (List Byte × Ocrypto hmac) :=
  if data = [] then .ok ([], o)
  else do
    let compressedBuf := codecs.snappyCompress data
    let some (key, iv) := o.ectx | throw .sslCallFailed
    let ciphered := codecs.encrypt key iv compressedBuf
    let cipheredBuf := leBytes 4 ciphered.length ++ ciphered
    if buflen < cipheredBuf.length then throw .cryptoBufferTooSmall
    else
      let o ← o.updateHmac cctx cipheredBuf
      return (cipheredBuf, { o with buf := [], room := by decide })

/-- The header of an encrypted file. -/
def headerBuf (iv : Iv) : List Byte :=
  [0x57, 0x43, 0x46, 0x4D] ++ leBytes 4 WABCRYPTOFILE_VERSION ++ iv.val

/-- The first part of `open`: the counters and the checksums of a new file. -/
def openHmac (o : Ocrypto hmac) : Except ErrorId (Ocrypto hmac) := do
  let o := { o with fileSize := 0, buf := [], room := by decide }
  if cctx.getWithChecksum then
    let hm ← o.hm.init cctx.hmacKey
    let hm4k ← o.hm4k.init cctx.hmacKey
    return { o with hm, hm4k }
  else return o

/-- `open`: the bytes of the header, if there is one. -/
def openFile (o : Ocrypto hmac) (derivator : List Byte) (iv : Iv) :
    Except ErrorId (List Byte × Ocrypto hmac) := do
  let o ← o.openHmac cctx
  if cctx.getWithEncryption then
    let o := { o with
      rawSize := 0
      ectx := some (cctx.derivedKey derivator, iv.val) }
    let o ← o.updateHmac cctx (headerBuf iv)
    return (headerBuf iv, o)
  else return ([], o)

/-- What ends an encrypted file. -/
def trailer (rawSize : BitVec 32) : List Byte :=
  [0x4D, 0x46, 0x43, 0x57] ++ leBytes 4 rawSize.toNat

/-- `close`: the last bytes, and the quick and the full hash if there are checksums. -/
def close (o : Ocrypto hmac) :
    Except ErrorId (List Byte × Option (δ × δ) × Ocrypto hmac) := do
  let (written, o) ←
    if cctx.getWithEncryption then do
      let (chunk, o) ← o.flush codecs cctx o.buf resultBufferSize
      if resultBufferSize < chunk.length + 8 then throw .cryptoBufferTooSmall
      else
        let tmpBuf := trailer o.rawSize
        let o ← o.updateHmac cctx tmpBuf
        pure (chunk ++ tmpBuf, o)
    else pure ([], o)
  if cctx.getWithChecksum then do
    let (fhash, hm) ← o.hm.final
    let (qhash, hm4k) ← o.hm4k.final
    return (written, some (qhash, fhash), { o with hm, hm4k })
  else return (written, none, o)

/-- How much of some data a call of `write` takes. -/
def consumed (o : Ocrypto hmac) (data : List Byte) : Nat :=
  if cctx.getWithEncryption then min (CRYPTO_BUFFER_SIZE - o.buf.length) data.length
  else data.length

/-- `write`: the bytes for the file; the data that is not `consumed` has to be given again. -/
def write (o : Ocrypto hmac) (data : List Byte) : Except ErrorId (List Byte × Ocrypto hmac) :=
  if cctx.getWithEncryption then do
    let availableSize := o.consumed cctx data
    let buf := o.buf ++ data.take availableSize
    let (written, o) ←
      if room : buf.length < CRYPTO_BUFFER_SIZE then pure ([], { o with buf, room })
      else o.flush codecs cctx buf resultBufferSize
    return (written, { o with rawSize := o.rawSize + BitVec.ofNat 32 availableSize })
  else do
    let o ← o.updateHmac cctx data
    return (data, o)

end Ocrypto

end Redemption.Transport.Crypto
