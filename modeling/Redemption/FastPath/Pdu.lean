import Redemption.Foundation.ByteStream
import Redemption.Mppc.HashTable

/-! `CryptContext`: RC4 encryption and signatures, over the functions of the library that
it calls. -/
namespace Redemption.FastPath

open Redemption.Foundation

/-- What `SslRC4`, `SslSha1` and `SslMd5` compute. RC4 is a stream cipher: with one state it
changes no length, and twice is as good as not at all. -/
structure Ssl where
  Rc4 : Type
  setKey : List Byte → Rc4
  crypt : Rc4 → List Byte → Rc4 × List Byte
  sha1 : List Byte → List Byte
  md5 : List Byte → List Byte
  length_crypt : ∀ rc4 data, (crypt rc4 data).2.length = data.length
  crypt_crypt : ∀ rc4 data, crypt rc4 (crypt rc4 data).2 = ((crypt rc4 data).1, data)
  length_md5 : ∀ data, (md5 data).length = 16

def ENCRYPTION_METHOD_40BIT : Nat := 0x01
def ENCRYPTION_METHOD_FIPS : Nat := 0x10

/-- The fields of `CryptContext`. -/
structure CryptContext (ssl : Ssl) where
  useCount : Nat
  signKey : List Byte
  key : List Byte
  updateKey : List Byte
  rc4 : ssl.Rc4
  encryptionMethod : Nat

section Model

variable {ssl : Ssl}

/-- `Sign`, from its key to `final`, for an output of so many bytes. -/
def signFinal (ssl : Ssl) (key data : List Byte) (outLen : Nat) : List Byte :=
  let shasig := ssl.sha1 (key ++ List.replicate 40 0x36 ++ data)
  (ssl.md5 (key ++ List.replicate 48 0x5c ++ shasig)).take outLen

/-- `ssllib::sec_make_40bit`. -/
def secMake40bit (key : List Byte) : List Byte := [0xd1, 0x26, 0x9e] ++ key.drop 3

namespace CryptContext

/-- How many bytes of a key are used. -/
def keylen (context : CryptContext ssl) : Nat :=
  if context.encryptionMethod = ENCRYPTION_METHOD_40BIT then 8 else 16

/-- What `decrypt` does first every 4096 uses. -/
def renewKey (context : CryptContext ssl) : CryptContext ssl :=
  let keylen := context.keylen
  let key := signFinal ssl (context.updateKey.take keylen) (context.key.take keylen) 16
  let crypted := (ssl.crypt (ssl.setKey (key.take keylen)) (key.take keylen)).2
  let key := crypted ++ key.drop keylen
  let key := if context.encryptionMethod = ENCRYPTION_METHOD_40BIT then secMake40bit key else key
  { context with key, rc4 := ssl.setKey (key.take keylen), useCount := 0 }

def decrypt (context : CryptContext ssl) (data : List Byte) : CryptContext ssl × List Byte :=
  let context := if context.useCount = 4096 then context.renewKey else context
  let (rc4, outData) := ssl.crypt context.rc4 data
  ({ context with rc4, useCount := context.useCount + 1 }, outData)

def sign (context : CryptContext ssl) (data : List Byte) : List Byte :=
  signFinal ssl (context.signKey.take context.keylen) (leBytes 4 data.length ++ data) 8

@[simp] theorem length_decrypt (context : CryptContext ssl) (data : List Byte) :
    (context.decrypt data).2.length = data.length := ssl.length_crypt _ _

@[simp] theorem length_sign (context : CryptContext ssl) (data : List Byte) :
    (context.sign data).length = 8 := by
  simp [sign, signFinal, ssl.length_md5]

/-- A party with the same context takes the encryption back, and both go on with one context. -/
theorem decrypt_decrypt (context : CryptContext ssl) (data : List Byte) :
    context.decrypt (context.decrypt data).2 = ((context.decrypt data).1, data) := by
  simp only [decrypt, ssl.crypt_crypt]

@[simp] theorem decrypt_encryptionMethod (context : CryptContext ssl) (data : List Byte) :
    (context.decrypt data).1.encryptionMethod = context.encryptionMethod := by
  unfold decrypt
  split <;> rfl

end CryptContext

end Model

/-! The headers of fast-path updates: what the server writes, and what a client reads. -/

/-- The errors that are raised here, and those of the compressors. -/
inductive ErrorId where
  | mppc (error : Mppc.ErrorId)
  | bufferTooSmall
  | rdpFastpath
  deriving DecidableEq, Repr

inductive UpdateType where
  | orders | bitmap | palette | synchronize | surfcmds | ptrNull | ptrDefault | ptrPosition
  | color | cached | pointer
  deriving DecidableEq, Repr

def UpdateType.code : UpdateType → Byte
  | .orders => 0x0
  | .bitmap => 0x1
  | .palette => 0x2
  | .synchronize => 0x3
  | .surfcmds => 0x4
  | .ptrNull => 0x5
  | .ptrDefault => 0x6
  | .ptrPosition => 0x8
  | .color => 0x9
  | .cached => 0xA
  | .pointer => 0xB

/-- Which of the fragments of an update a fragment is. -/
inductive Fragmentation where
  | single | last | first | next
  deriving DecidableEq, Repr

def Fragmentation.code : Fragmentation → Byte
  | .single => 0x0
  | .last => 0x1
  | .first => 0x2
  | .next => 0x3

def FASTPATH_OUTPUT_COMPRESSION_USED : Byte := 0x2
def FASTPATH_OUTPUT_ACTION_FASTPATH : Byte := 0x0
def FASTPATH_OUTPUT_ENCRYPTED : Byte := 0x2

/-- `FastPath::Update_Send`. -/
def updateSend (datalen : Nat) (updateCode fragmentation compression compressionFlags : Byte) :
    List Byte :=
  [(updateCode &&& 0x0F) ||| ((fragmentation &&& 0x3) <<< 4) ||| ((compression &&& 0x3) <<< 6)] ++
    (if compression &&& FASTPATH_OUTPUT_COMPRESSION_USED ≠ 0 then [compressionFlags] else []) ++
    leBytes 2 datalen

/-- `out_2BUE`: one byte up to 127, else two in big-endian order, with the highest bit set. -/
def out2BUE (v : Nat) : List Byte :=
  if v ≤ 127 then [BitVec.ofNat 8 v]
  else [BitVec.ofNat 8 ((v ||| 0x8000) >>> 8), BitVec.ofNat 8 (v ||| 0x8000)]

/-- `in_2BUE`. -/
def in2BUE (stream : List Byte) : Checked ErrorId (Nat × List Byte) := do
  let (first, stream) ← inUint8 stream
  if first &&& 0x80 ≠ 0 then do
    let (second, stream) ← inUint8 stream
    return (((first &&& 0x7F).toNat <<< 8) + second.toNat, stream)
  else return (first.toNat, stream)

/-- The length that `ServerUpdatePDU_Send` writes, a `uint16_t`. -/
def pduLength (secFlags : Byte) (dataSz : Nat) : Nat :=
  let length := (1 + (if secFlags &&& FASTPATH_OUTPUT_ENCRYPTED ≠ 0 then 8 else 0) + dataSz) % 2 ^ 16
  (length + (if 127 ≤ length then 2 else 1)) % 2 ^ 16

/-- `FastPath::ServerUpdatePDU_Send` without FIPS information: the header, and the data as it
is after the constructor, with the context. -/
def serverUpdatePDUSend {ssl : Ssl} (crypt : CryptContext ssl) (data : List Byte)
    (secFlags : Byte) : CryptContext ssl × List Byte × List Byte :=
  let header := (FASTPATH_OUTPUT_ACTION_FASTPATH ||| ((secFlags &&& 0x03) <<< 6)) ::
    out2BUE (pduLength secFlags data.length)
  if secFlags &&& FASTPATH_OUTPUT_ENCRYPTED ≠ 0 then
    let signature := crypt.sign data
    let (crypt, data) := crypt.decrypt data
    (crypt, header ++ signature, data)
  else (crypt, header, data)

/-- What `FastPath::ServerUpdatePDU_Recv` reads. -/
structure ServerUpdatePDU where
  secFlags : Byte
  length : Nat
  payload : List Byte

/-- `FastPath::ServerUpdatePDU_Recv`. -/
def serverUpdatePDURecv {ssl : Ssl} (decrypt : CryptContext ssl) (stream : List Byte) :
    Checked ErrorId (CryptContext ssl × ServerUpdatePDU) := do
  let (fpOutputHeader, stream) ← inUint8 stream
  if fpOutputHeader &&& 0x03 ≠ 0 then .error (.raised .rdpFastpath)
  else
    let secFlags := (fpOutputHeader >>> 6) &&& 3
    let (length, stream) ← in2BUE stream
    if decrypt.encryptionMethod = ENCRYPTION_METHOD_FIPS then .error (.raised .rdpFastpath)
    else if secFlags &&& FASTPATH_OUTPUT_ENCRYPTED ≠ 0 then do
      checkThrow stream 8 .rdpFastpath
      let (_, stream) ← inBytes 8 stream
      let (decrypt, payload) := decrypt.decrypt stream
      return (decrypt, ⟨secFlags, length, payload⟩)
    else return (decrypt, ⟨secFlags, length, stream⟩)

/-- `rdp_mppc_dec`. -/
structure RdpMppcDec where
  State : Type
  decompress : State → List Byte → Mppc.Flags → Checked Mppc.ErrorId (State × List Byte)

/-- An error of a compressor or a decompressor, among the others. -/
def liftMppc {α : Type} : Checked Mppc.ErrorId α → Checked ErrorId α
  | .ok value => .ok value
  | .error .outOfBounds => .error .outOfBounds
  | .error (.raised error) => .error (.raised (.mppc error))

@[simp] theorem liftMppc_ok {α : Type} (value : α) : liftMppc (.ok value) = .ok value := rfl

theorem liftMppc_eq_ok {α : Type} {result : Checked Mppc.ErrorId α} {value : α}
    (lifted : liftMppc result = .ok value) : result = .ok value := by
  cases result with
  | ok other =>
    rw [liftMppc_ok, Except.ok.injEq] at lifted
    rw [lifted]
  | error fault => cases fault <;> cases lifted

/-- What `FastPath::Update_Recv` reads. -/
structure Update where
  updateCode : Byte
  fragmentation : Byte
  payload : List Byte

/-- The flags of the compressor, where they are in the header. -/
def inCompressionFlags (used : Bool) (stream : List Byte) : Checked ErrorId (Byte × List Byte) :=
  if used then inUint8 stream else .ok (0, stream)

/-- `FastPath::Update_Recv`. -/
def updateRecv (dec : RdpMppcDec) (state : dec.State) (stream : List Byte) :
    Checked ErrorId (dec.State × Update × List Byte) := do
  checkThrow stream 1 .rdpFastpath
  let (updateHeader, stream) ← inUint8 stream
  let updateCode := updateHeader &&& 0xF
  let fragmentation := (updateHeader >>> 4) &&& 0x3
  let compression := (updateHeader >>> 6) &&& 0x3
  let used := compression &&& FASTPATH_OUTPUT_COMPRESSION_USED != 0
  checkThrow stream ((if used then 1 else 0) + 2) .rdpFastpath
  let (compressionFlags, stream) ← inCompressionFlags used stream
  let (size, stream) ← inLe 2 stream
  checkThrow stream size .rdpFastpath
  let (data, stream) ← inBytes size stream
  if used && Mppc.Flags.has compressionFlags Mppc.packetCompressed then do
    let (state, payload) ← liftMppc (dec.decompress state data compressionFlags)
    return (state, ⟨updateCode, fragmentation, payload⟩, stream)
  else return (state, ⟨updateCode, fragmentation, data⟩, stream)

/-- A client that reads one update from each PDU. -/
def receive {ssl : Ssl} (dec : RdpMppcDec) (decrypt : CryptContext ssl) (state : dec.State)
    (pdu : List Byte) : Checked ErrorId (CryptContext ssl × dec.State × Update) := do
  let (decrypt, server) ← serverUpdatePDURecv decrypt pdu
  let (state, update, _) ← updateRecv dec state server.payload
  return (decrypt, state, update)

/-! What is written as a fast-path update is read back, and is as long as it says. -/

/-- `compression`: whether the flags of a compressor are in the header. -/
def compressionOf (used : Bool) : Byte := if used then FASTPATH_OUTPUT_COMPRESSION_USED else 0

/-- What an update is made of. -/
structure UpdateParts where
  updateCode : UpdateType
  fragmentation : Fragmentation
  used : Bool
  compressionFlags : Byte
  data : List Byte

namespace UpdateParts

def bytes (parts : UpdateParts) : List Byte :=
  updateSend parts.data.length parts.updateCode.code parts.fragmentation.code
    (compressionOf parts.used) parts.compressionFlags ++ parts.data

/-- The data are to be decompressed. -/
def compressed (parts : UpdateParts) : Bool :=
  parts.used && Mppc.Flags.has parts.compressionFlags Mppc.packetCompressed

end UpdateParts

theorem length_updateSend_le (datalen : Nat)
    (updateCode fragmentation compression compressionFlags : Byte) :
    (updateSend datalen updateCode fragmentation compression compressionFlags).length ≤ 4 := by
  unfold updateSend
  split <;> simp

theorem UpdateParts.length_bytes_le (parts : UpdateParts) :
    parts.bytes.length ≤ parts.data.length + 4 := by
  have header := length_updateSend_le parts.data.length parts.updateCode.code
    parts.fragmentation.code (compressionOf parts.used) parts.compressionFlags
  rw [bytes, List.length_append]
  omega

theorem marked_byte : ∀ value < 128,
    BitVec.ofNat 8 value &&& 0x80 = 0 ∧ BitVec.ofNat 8 (0x80 + value) &&& 0x80 ≠ 0 ∧
      (BitVec.ofNat 8 (0x80 + value) &&& 0x7F).toNat = value := by decide

theorem or_marked {v : Nat} (small : v < 2 ^ 15) : v ||| 0x8000 = 0x8000 + v := by
  have disjoint := Nat.two_pow_add_eq_or_of_lt small 1
  rw [Nat.or_comm]
  simpa using disjoint.symm

theorem in2BUE_out2BUE {v : Nat} (small : v < 2 ^ 15) (rest : List Byte) :
    in2BUE (out2BUE v ++ rest) = .ok (v, rest) := by
  by_cases short : v ≤ 127
  · have clear := (marked_byte v (by omega)).1
    have same : (BitVec.ofNat 8 v).toNat = v := by
      rw [BitVec.toNat_ofNat]
      omega
    rw [out2BUE, if_pos short]
    simp only [List.cons_append, List.nil_append, in2BUE, inUint8, ok_bind, clear, ne_eq,
      not_true_eq_false, if_false, same, pure_ok]
  · have whole := or_marked small
    have high : BitVec.ofNat 8 ((v ||| 0x8000) >>> 8) = BitVec.ofNat 8 (0x80 + v / 2 ^ 8) := by
      rw [whole, Nat.shiftRight_eq_div_pow]
      congr 1
      omega
    have low : (BitVec.ofNat 8 (v ||| 0x8000)).toNat = v % 2 ^ 8 := by
      rw [whole, BitVec.toNat_ofNat]
      omega
    obtain ⟨_, marked, value⟩ := marked_byte (v / 2 ^ 8) (by omega)
    have sum : v / 2 ^ 8 * 2 ^ 8 + v % 2 ^ 8 = v := Nat.div_add_mod' v (2 ^ 8)
    rw [out2BUE, if_neg short]
    simp only [List.cons_append, List.nil_append, in2BUE, inUint8, ok_bind, high]
    rw [if_pos marked, value, low, pure_ok, Nat.shiftLeft_eq, sum]

theorem length_out2BUE (v : Nat) : (out2BUE v).length = if v ≤ 127 then 1 else 2 := by
  unfold out2BUE
  split <;> rfl

section Pdu

variable {ssl : Ssl}

/-- The flags of a PDU at some encryption level. -/
def secFlagsOf (encryptionLevel : Int) : Byte :=
  if 1 < encryptionLevel then FASTPATH_OUTPUT_ENCRYPTED else 0

/-- A PDU as it is sent, and the context after it. -/
def serverUpdatePDU (crypt : CryptContext ssl) (encryptionLevel : Int) (update : List Byte) :
    CryptContext ssl × List Byte :=
  let (crypt, header, data) := serverUpdatePDUSend crypt update (secFlagsOf encryptionLevel)
  (crypt, header ++ data)

/-- The length that a PDU says it has. -/
def lengthField (pdu : List Byte) : Option Nat :=
  match in2BUE (pdu.drop 1) with
  | .ok (length, _) => some length
  | .error _ => none

theorem length_serverUpdatePDUSend (crypt : CryptContext ssl) (update : List Byte)
    (secFlags : Byte) :
    (serverUpdatePDUSend crypt update secFlags).2.1.length ≤ 11 ∧
      (serverUpdatePDUSend crypt update secFlags).2.2.length = update.length := by
  have short : (out2BUE (pduLength secFlags update.length)).length ≤ 2 := by
    rw [length_out2BUE]
    split <;> omega
  unfold serverUpdatePDUSend
  by_cases encrypted : secFlags &&& FASTPATH_OUTPUT_ENCRYPTED ≠ 0
  · rw [if_pos encrypted]
    refine ⟨?_, crypt.length_decrypt update⟩
    simp only [List.length_append, List.length_cons, CryptContext.length_sign]
    omega
  · rw [if_neg encrypted]
    refine ⟨?_, rfl⟩
    simp only [List.length_cons]
    omega

/-- The bytes that a signature takes. -/
def signatureSize (secFlags : Byte) : Nat :=
  if secFlags &&& FASTPATH_OUTPUT_ENCRYPTED ≠ 0 then 8 else 0

theorem pduLength_eq (secFlags : Byte) {dataSz : Nat} (small : dataSz + 11 < 2 ^ 15) :
    pduLength secFlags dataSz = 1 + signatureSize secFlags + dataSz +
      (if 127 ≤ 1 + signatureSize secFlags + dataSz then 2 else 1) := by
  have size : signatureSize secFlags ≤ 8 := by
    unfold signatureSize
    split <;> omega
  show ((1 + signatureSize secFlags + dataSz) % 2 ^ 16 +
    (if 127 ≤ (1 + signatureSize secFlags + dataSz) % 2 ^ 16 then 2 else 1)) % 2 ^ 16 = _
  rw [Nat.mod_eq_of_lt (by omega : 1 + signatureSize secFlags + dataSz < 2 ^ 16)]
  split <;> omega

theorem pduLength_le (secFlags : Byte) {dataSz : Nat} (small : dataSz + 11 < 2 ^ 15) :
    pduLength secFlags dataSz ≤ dataSz + 11 := by
  have size : signatureSize secFlags ≤ 8 := by
    unfold signatureSize
    split <;> omega
  rw [pduLength_eq secFlags small]
  split <;> omega

/-- The field says how long the PDU is, whichever of its forms it has. -/
theorem serverUpdatePDU_length (crypt : CryptContext ssl) (encryptionLevel : Int)
    {update : List Byte} (small : update.length + 11 < 2 ^ 15) :
    (serverUpdatePDU crypt encryptionLevel update).2.length =
        pduLength (secFlagsOf encryptionLevel) update.length ∧
      lengthField (serverUpdatePDU crypt encryptionLevel update).2 =
        some (pduLength (secFlagsOf encryptionLevel) update.length) := by
  have length := pduLength_eq (secFlagsOf encryptionLevel) small
  have room := pduLength_le (secFlagsOf encryptionLevel) small
  have fits : pduLength (secFlagsOf encryptionLevel) update.length < 2 ^ 15 := by omega
  have field := length_out2BUE (pduLength (secFlagsOf encryptionLevel) update.length)
  unfold serverUpdatePDU serverUpdatePDUSend
  unfold signatureSize at length
  by_cases encrypted : secFlagsOf encryptionLevel &&& FASTPATH_OUTPUT_ENCRYPTED ≠ 0
  · rw [if_pos encrypted] at length ⊢
    refine ⟨?_, ?_⟩
    · simp only [List.length_append, List.length_cons, CryptContext.length_sign,
        CryptContext.length_decrypt, field]
      split at length <;> split <;> omega
    · simp only [lengthField, List.cons_append, List.append_assoc, List.drop_succ_cons,
        List.drop_zero, in2BUE_out2BUE fits]
  · rw [if_neg encrypted] at length ⊢
    refine ⟨?_, ?_⟩
    · simp only [List.length_append, List.length_cons, field]
      split at length <;> split <;> omega
    · simp only [lengthField, List.cons_append, List.drop_succ_cons, List.drop_zero,
        in2BUE_out2BUE fits]

theorem header_run (encryptionLevel : Int) :
    (FASTPATH_OUTPUT_ACTION_FASTPATH ||| ((secFlagsOf encryptionLevel &&& 0x03) <<< 6)) &&& 0x03 =
        0 ∧
      ((FASTPATH_OUTPUT_ACTION_FASTPATH ||| ((secFlagsOf encryptionLevel &&& 0x03) <<< 6)) >>> 6) &&&
        3 = secFlagsOf encryptionLevel := by
  unfold secFlagsOf
  split <;> decide

/-- A client with the same context gets the update that was sent, and keeps the context. -/
theorem serverUpdatePDURecv_run (crypt : CryptContext ssl) (encryptionLevel : Int)
    {update : List Byte} (small : update.length + 11 < 2 ^ 15)
    (supported : crypt.encryptionMethod ≠ ENCRYPTION_METHOD_FIPS) :
    serverUpdatePDURecv crypt (serverUpdatePDU crypt encryptionLevel update).2 =
      .ok ((serverUpdatePDU crypt encryptionLevel update).1,
        ⟨secFlagsOf encryptionLevel, pduLength (secFlagsOf encryptionLevel) update.length,
          update⟩) := by
  have room := pduLength_le (secFlagsOf encryptionLevel) small
  have fits : pduLength (secFlagsOf encryptionLevel) update.length < 2 ^ 15 := by omega
  obtain ⟨action, secFlags⟩ := header_run encryptionLevel
  unfold serverUpdatePDU serverUpdatePDUSend
  by_cases encrypted : secFlagsOf encryptionLevel &&& FASTPATH_OUTPUT_ENCRYPTED ≠ 0
  · have signed : (crypt.sign update).length = 8 := crypt.length_sign update
    have remains : 8 ≤ (crypt.sign update ++ (crypt.decrypt update).2).length := by
      rw [List.length_append, signed]
      omega
    rw [if_pos encrypted]
    simp only [List.cons_append, List.append_assoc, serverUpdatePDURecv, inUint8, ok_bind,
      action, ne_eq, not_true_eq_false, if_false, in2BUE_out2BUE fits, supported, secFlags]
    rw [if_pos encrypted, checkThrow_of_le _ remains, ok_bind, inBytes_append signed, ok_bind]
    simp only [crypt.decrypt_decrypt, pure_ok]
  · rw [if_neg encrypted]
    simp only [List.cons_append, serverUpdatePDURecv, inUint8, ok_bind,
      action, ne_eq, not_true_eq_false, if_false, in2BUE_out2BUE fits, supported, secFlags]
    rw [if_neg encrypted, pure_ok]

theorem serverUpdatePDU_encryptionMethod (crypt : CryptContext ssl) (encryptionLevel : Int)
    (update : List Byte) :
    (serverUpdatePDU crypt encryptionLevel update).1.encryptionMethod =
      crypt.encryptionMethod := by
  by_cases encrypted : secFlagsOf encryptionLevel &&& FASTPATH_OUTPUT_ENCRYPTED ≠ 0
  · have method := crypt.decrypt_encryptionMethod update
    simpa only [serverUpdatePDU, serverUpdatePDUSend, if_pos encrypted] using method
  · simp only [serverUpdatePDU, serverUpdatePDUSend, if_neg encrypted]

private theorem updateHeader_run (updateCode : UpdateType) (fragmentation : Fragmentation)
    (used : Bool) :
    ((updateCode.code &&& 0x0F) ||| ((fragmentation.code &&& 0x3) <<< 4) |||
        ((compressionOf used &&& 0x3) <<< 6)) &&& 0xF = updateCode.code ∧
      (((updateCode.code &&& 0x0F) ||| ((fragmentation.code &&& 0x3) <<< 4) |||
        ((compressionOf used &&& 0x3) <<< 6)) >>> 4) &&& 0x3 = fragmentation.code ∧
      (((updateCode.code &&& 0x0F) ||| ((fragmentation.code &&& 0x3) <<< 4) |||
        ((compressionOf used &&& 0x3) <<< 6)) >>> 6) &&& 0x3 = compressionOf used := by
  cases updateCode <;> cases fragmentation <;> cases used <;> decide

/-- A client reads the parts of an update, and decompresses the data where it is told to. -/
theorem updateRecv_run (dec : RdpMppcDec) (state : dec.State) (parts : UpdateParts)
    (small : parts.data.length < 2 ^ 16) {state' : dec.State} {payload : List Byte}
    (plain : parts.compressed = false → state' = state ∧ payload = parts.data)
    (decompressed : parts.compressed = true →
      dec.decompress state parts.data parts.compressionFlags = .ok (state', payload)) :
    updateRecv dec state parts.bytes =
      .ok (state', ⟨parts.updateCode.code, parts.fragmentation.code, payload⟩, []) := by
  obtain ⟨updateCode, fragmentation, used, flags, data⟩ := parts
  obtain ⟨code, fragment, compression⟩ := updateHeader_run updateCode fragmentation used
  have size : data.length % 2 ^ (8 * 2) = data.length := Nat.mod_eq_of_lt small
  have whole : (inBytes data.length data : Checked ErrorId _) = .ok (data, []) := by
    have all := @inBytes_append ErrorId data.length data rfl []
    rwa [List.append_nil] at all
  have all : (checkThrow data data.length .rdpFastpath : Checked ErrorId _) = .ok () :=
    checkThrow_of_le _ (Nat.le_refl _)
  simp only [UpdateParts.compressed] at plain decompressed
  cases used with
  | false =>
    obtain ⟨same, same'⟩ := plain rfl
    subst same
    subst same'
    have off : ¬ (compressionOf false &&& FASTPATH_OUTPUT_COMPRESSION_USED ≠ 0) := by decide
    have off' : (compressionOf false &&& FASTPATH_OUTPUT_COMPRESSION_USED != 0) = false := by
      decide
    have room : (checkThrow (leBytes 2 payload.length ++ payload) (0 + 2) .rdpFastpath :
        Checked ErrorId _) = .ok () := checkThrow_of_le _ (by simp)
    have first : ∀ byte rest, (checkThrow (byte :: rest : List Byte) 1 .rdpFastpath :
        Checked ErrorId _) = .ok () := fun _ _ => checkThrow_of_le _ (by simp)
    simp only [updateRecv, UpdateParts.bytes, updateSend, if_neg off, List.cons_append,
      List.nil_append, first, ok_bind, inUint8, code, fragment, compression, off', room,
      inCompressionFlags, inLe_append, size, all, whole, Bool.false_and, Bool.false_eq_true,
      if_false, pure_ok]
  | true =>
    have on : compressionOf true &&& FASTPATH_OUTPUT_COMPRESSION_USED ≠ 0 := by decide
    have on' : (compressionOf true &&& FASTPATH_OUTPUT_COMPRESSION_USED != 0) = true := by
      decide
    have room : (checkThrow (flags :: (leBytes 2 data.length ++ data)) (1 + 2) .rdpFastpath :
        Checked ErrorId _) = .ok () := checkThrow_of_le _ (by simp)
    have first : ∀ byte rest, (checkThrow (byte :: rest : List Byte) 1 .rdpFastpath :
        Checked ErrorId _) = .ok () := fun _ _ => checkThrow_of_le _ (by simp)
    simp only [updateRecv, UpdateParts.bytes, updateSend, if_pos on, List.cons_append,
      List.nil_append, first, ok_bind, inUint8, code, fragment, compression, on', if_true, room,
      inCompressionFlags, inLe_append, size, all, whole, Bool.true_and]
    cases flagged : Mppc.Flags.has flags Mppc.packetCompressed with
    | false =>
      obtain ⟨same, same'⟩ := plain (by rw [flagged]; rfl)
      subst same
      subst same'
      rfl
    | true =>
      have opened := decompressed (by rw [flagged]; rfl)
      simp only [opened, liftMppc_ok, ok_bind, if_true, pure_ok]

/-- A client with the same context gets what was sent, and keeps the context. -/
theorem receive_run (crypt : CryptContext ssl) (encryptionLevel : Int) (dec : RdpMppcDec)
    (state : dec.State) (parts : UpdateParts) (small : parts.data.length + 15 < 2 ^ 15)
    (supported : crypt.encryptionMethod ≠ ENCRYPTION_METHOD_FIPS)
    {state' : dec.State} {payload : List Byte}
    (plain : parts.compressed = false → state' = state ∧ payload = parts.data)
    (decompressed : parts.compressed = true →
      dec.decompress state parts.data parts.compressionFlags = .ok (state', payload)) :
    receive dec crypt state (serverUpdatePDU crypt encryptionLevel parts.bytes).2 =
      .ok ((serverUpdatePDU crypt encryptionLevel parts.bytes).1, state',
        ⟨parts.updateCode.code, parts.fragmentation.code, payload⟩) := by
  have length := parts.length_bytes_le
  simp only [receive, serverUpdatePDURecv_run crypt encryptionLevel
      (by omega : parts.bytes.length + 11 < 2 ^ 15) supported, ok_bind,
    updateRecv_run dec state parts (by omega) plain decompressed, pure_ok]

end Pdu

end Redemption.FastPath
