import Redemption.FastPath.FastPathUpdate

/-! Fast-path input: what a client writes before its events, and what a server reads. -/
namespace Redemption.FastPath

open Redemption.Foundation

def FASTPATH_INPUT_ACTION_FASTPATH : Byte := 0x0
def FASTPATH_INPUT_ENCRYPTED : Byte := 0x2

section Model

variable {ssl : Ssl}

/-- The flags that `ClientInputEventPDU_Send` puts in the header. -/
def inputSecFlags (encryptionLevel encryptionMethod : BitVec 32) : Byte :=
  if encryptionLevel ||| encryptionMethod ≠ 0 then FASTPATH_INPUT_ENCRYPTED else 0

/-- The length that `ClientInputEventPDU_Send` writes, a `uint16_t`. -/
def inputLength (dataSz : Nat) (numEvents secFlags : Byte)
    (fipsInformation : Option (BitVec 32)) : Nat :=
  (1 + (if 127 < dataSz then 2 else 1) + (if fipsInformation.isSome then 4 else 0) +
    (if secFlags &&& FASTPATH_INPUT_ENCRYPTED ≠ 0 then 8 else 0) +
    (if 15 < numEvents.toNat then 1 else 0) + dataSz) % 2 ^ 16

/-- `FastPath::ClientInputEventPDU_Send`: the header, and the data as it is after the
constructor, with the context. -/
def clientInputEventPDUSend (crypt : CryptContext ssl) (data : List Byte) (numEvents : Byte)
    (encryptionLevel encryptionMethod : BitVec 32) (fipsInformation : Option (BitVec 32)) :
    CryptContext ssl × List Byte × List Byte :=
  let secFlags := inputSecFlags encryptionLevel encryptionMethod
  let fpInputHeader := FASTPATH_INPUT_ACTION_FASTPATH |||
    ((if 15 < numEvents.toNat then 0 else numEvents) <<< 2) ||| (secFlags <<< 6)
  let fips := match fipsInformation with
    | some information => (leBytes 4 information.toNat).reverse
    | none => []
  let header :=
    fpInputHeader :: (out2BUE (inputLength data.length numEvents secFlags fipsInformation) ++ fips)
  let count := if 15 < numEvents.toNat then [numEvents] else []
  if secFlags &&& FASTPATH_INPUT_ENCRYPTED ≠ 0 then
    let signature := crypt.sign data
    let (crypt, data) := crypt.decrypt data
    (crypt, header ++ (signature ++ count), data)
  else (crypt, header ++ count, data)

/-- What `FastPath::ClientInputEventPDU_Recv` reads. -/
structure ClientInputEventPDU where
  fpInputHeader : Byte
  numEvents : Byte
  secFlags : Byte
  length : Nat
  dataSignature : List Byte
  payload : List Byte

/-- The signature and the decrypted payload, where there are some. -/
def openPayload (decrypt : CryptContext ssl) (numEvents secFlags : Byte) (stream : List Byte) :
    Checked ErrorId (CryptContext ssl × List Byte × List Byte) :=
  if secFlags &&& FASTPATH_INPUT_ENCRYPTED ≠ 0 then do
    checkThrow stream (8 + if numEvents = 0 then 1 else 0) .rdpFastpath
    let (dataSignature, stream) ← inBytes 8 stream
    let (decrypt, payload) := decrypt.decrypt stream
    return (decrypt, dataSignature, payload)
  else .ok (decrypt, List.replicate 8 0, stream)

/-- The number of events, which is before them if it is not in the header. -/
def readNumEvents (numEvents : Byte) (payload : List Byte) :
    Checked ErrorId (Byte × List Byte) :=
  if numEvents = 0 then do
    checkThrow payload 1 .rdpFastpath
    inUint8 payload
  else .ok (numEvents, payload)

/-- `FastPath::ClientInputEventPDU_Recv`. -/
def clientInputEventPDURecv (decrypt : CryptContext ssl) (stream : List Byte) :
    Checked ErrorId (CryptContext ssl × ClientInputEventPDU) := do
  let (fpInputHeader, stream) ← inUint8 stream
  if fpInputHeader &&& 0x03 ≠ 0 then .error (.raised .rdpFastpath)
  else
    let numEvents := (fpInputHeader &&& 0x3C) >>> 2
    let secFlags := (fpInputHeader >>> 6) &&& 3
    let (length, stream) ← in2BUE stream
    let (decrypt, dataSignature, payload) ← openPayload decrypt numEvents secFlags stream
    let (numEvents, payload) ← readNumEvents numEvents payload
    return (decrypt, { fpInputHeader, numEvents, secFlags, length, dataSignature, payload })

end Model

/-- The events of one PDU. -/
structure InputEvents where
  data : List Byte
  numEvents : Byte
  some : 0 < data.length
  bounded : data.length ≤ 32000
  counted : numEvents ≠ 0

/-- The bytes that a stream cipher puts over its text. -/
structure Keystream (ssl : Ssl) where
  bytes : ssl.Rc4 → Nat → Byte
  crypt_eq : ∀ rc4 data, (ssl.crypt rc4 data).2 =
    data.mapIdx fun index byte => byte ^^^ bytes rc4 index

section Spec

variable {ssl : Ssl} (keys : Keystream ssl) (crypt : CryptContext ssl)
  (encryptionLevel encryptionMethod : BitVec 32) (events : InputEvents)

/-- The state that the next text is encrypted with. -/
def CryptContext.nextRc4 : ssl.Rc4 :=
  (if crypt.useCount = 4096 then crypt.renewKey else crypt).rc4

/-- A PDU as it is sent. -/
def clientInputPDU : List Byte :=
  let (_, header, data) := clientInputEventPDUSend crypt events.data events.numEvents
    encryptionLevel encryptionMethod none
  header ++ data

/-- How many bytes the length of a PDU takes. -/
def lengthForm (pdu : List Byte) : Nat :=
  if (pdu.drop 1).head?.getD 0 &&& 0x80 ≠ 0 then 2 else 1

/-- A server with the same context reads the events that were sent, and the length is right
and has the form that it is to have. -/
structure InputArrives : Prop where
  received : ∃ decrypt pdu,
    clientInputEventPDURecv crypt
        (clientInputPDU crypt encryptionLevel encryptionMethod events) = .ok (decrypt, pdu) ∧
      pdu.numEvents = events.numEvents ∧ pdu.payload = events.data ∧
      pdu.length = (clientInputPDU crypt encryptionLevel encryptionMethod events).length
  form : lengthForm (clientInputPDU crypt encryptionLevel encryptionMethod events) =
    if (clientInputPDU crypt encryptionLevel encryptionMethod events).length ≤ 127 then 1 else 2

/-- The bytes of a PDU that are neither events nor its length. -/
def inputOverhead : Nat :=
  1 + (if encryptionLevel ||| encryptionMethod ≠ 0 then 8 else 0) +
    (if 15 < events.numEvents.toNat then 1 else 0)

/-- Short events are so short that the whole PDU is short. -/
def ShortStaysShort : Prop :=
  events.data.length ≤ 127 →
    inputOverhead encryptionLevel encryptionMethod events + 1 + events.data.length ≤ 127

/-- Where the number of events is neither in the header nor in the clear, nothing is changed by
the encryption of these events. -/
def CountStaysClear : Prop :=
  encryptionLevel ||| encryptionMethod ≠ 0 → 15 < events.numEvents.toNat →
    ∀ index ≤ events.data.length, keys.bytes crypt.nextRc4 index = 0

theorem Keystream.decrypt_eq (data : List Byte) :
    (crypt.decrypt data).2 =
      data.mapIdx fun index byte => byte ^^^ keys.bytes crypt.nextRc4 index :=
  keys.crypt_eq _ _

theorem Keystream.decrypt_count (numEvents : Byte) (data : List Byte) :
    (crypt.decrypt (numEvents :: (crypt.decrypt data).2)).2 =
      (numEvents ^^^ keys.bytes crypt.nextRc4 0) ::
        data.mapIdx fun index byte =>
          byte ^^^ keys.bytes crypt.nextRc4 index ^^^ keys.bytes crypt.nextRc4 (index + 1) := by
  rw [keys.decrypt_eq, keys.decrypt_eq, List.mapIdx_cons, List.mapIdx_mapIdx]
  rfl

private theorem zero_of_xor {byte key : Byte} (same : byte ^^^ key = byte) : key = 0 := by
  have twice := congrArg (byte ^^^ ·) same
  simpa [← BitVec.xor_assoc] using twice

/-- One byte too early, the keystream takes nothing back unless it is zero. -/
theorem Keystream.decrypt_count_iff (numEvents : Byte) (data : List Byte) :
    (crypt.decrypt (numEvents :: (crypt.decrypt data).2)).2 = numEvents :: data ↔
      ∀ index ≤ data.length, keys.bytes crypt.nextRc4 index = 0 := by
  rw [keys.decrypt_count, List.cons.injEq]
  constructor
  · rintro ⟨first, others⟩
    intro index bounded
    induction index with
    | zero => exact zero_of_xor first
    | succ index ih =>
      have here := ih (by omega)
      have same := List.getElem_of_eq others
        (by rw [List.length_mapIdx]; omega : index < _)
      have still : data[index] ^^^ (0 : Byte) = data[index] := BitVec.xor_zero
      rw [List.getElem_mapIdx, here, still] at same
      exact zero_of_xor same
  · intro zero
    constructor
    · simp [zero 0 (Nat.zero_le _)]
    · apply List.ext_getElem (List.length_mapIdx)
      intro index bounded inside
      rw [List.getElem_mapIdx, zero index (by omega), zero (index + 1) (by omega)]
      simp

private theorem inputHeader_run (secFlags : Byte) (flags : secFlags = 0 ∨ secFlags = 2) :
    ∀ numEvents : Byte, numEvents.toNat ≤ 15 →
      (FASTPATH_INPUT_ACTION_FASTPATH ||| (numEvents <<< 2) ||| (secFlags <<< 6)) &&& 0x03 = 0 ∧
      ((FASTPATH_INPUT_ACTION_FASTPATH ||| (numEvents <<< 2) ||| (secFlags <<< 6)) &&& 0x3C) >>> 2 =
        numEvents ∧
      ((FASTPATH_INPUT_ACTION_FASTPATH ||| (numEvents <<< 2) ||| (secFlags <<< 6)) >>> 6) &&& 3 =
        secFlags := by
  rcases flags with rfl | rfl <;> decide

theorem inputSecFlags_cases :
    (inputSecFlags encryptionLevel encryptionMethod = 2 ∧
        encryptionLevel ||| encryptionMethod ≠ 0) ∨
      (inputSecFlags encryptionLevel encryptionMethod = 0 ∧
        ¬ encryptionLevel ||| encryptionMethod ≠ 0) := by
  unfold inputSecFlags
  split
  · rename_i on
    exact .inl ⟨rfl, on⟩
  · rename_i off
    exact .inr ⟨rfl, off⟩

/-- The first byte of a PDU. -/
def inputHeader : Byte :=
  FASTPATH_INPUT_ACTION_FASTPATH |||
    ((if 15 < events.numEvents.toNat then 0 else events.numEvents) <<< 2) |||
    (inputSecFlags encryptionLevel encryptionMethod <<< 6)

/-- What is behind the length of a PDU. -/
def inputBody : List Byte :=
  let count := if 15 < events.numEvents.toNat then [events.numEvents] else []
  if encryptionLevel ||| encryptionMethod ≠ 0 then
    crypt.sign events.data ++ (count ++ (crypt.decrypt events.data).2)
  else count ++ events.data

private theorem clientInputPDU_eq :
    clientInputPDU crypt encryptionLevel encryptionMethod events =
      inputHeader encryptionLevel encryptionMethod events ::
        (out2BUE (inputLength events.data.length events.numEvents
          (inputSecFlags encryptionLevel encryptionMethod) none) ++
        inputBody crypt encryptionLevel encryptionMethod events) := by
  unfold clientInputPDU clientInputEventPDUSend inputBody inputHeader
  rcases inputSecFlags_cases encryptionLevel encryptionMethod with ⟨flags, on⟩ | ⟨flags, off⟩
  · have encrypted : (2 : Byte) &&& FASTPATH_INPUT_ENCRYPTED ≠ 0 := by decide
    simp only [flags, if_pos encrypted, if_pos on, List.append_nil, List.cons_append,
      List.append_assoc]
  · have clear : ¬ (0 : Byte) &&& FASTPATH_INPUT_ENCRYPTED ≠ 0 := by decide
    simp only [flags, if_neg clear, if_neg off, List.append_nil, List.cons_append,
      List.append_assoc]

/-- The bytes of the signature and of the count in front of the events. -/
private theorem length_clientInputPDU :
    (clientInputPDU crypt encryptionLevel encryptionMethod events).length =
      inputOverhead encryptionLevel encryptionMethod events +
        (out2BUE (inputLength events.data.length events.numEvents
          (inputSecFlags encryptionLevel encryptionMethod) none)).length + events.data.length := by
  rw [clientInputPDU_eq, List.length_cons, List.length_append]
  unfold inputBody inputOverhead
  split <;> split <;>
    simp only [List.length_append, List.length_singleton, List.length_nil,
      CryptContext.length_sign, CryptContext.length_decrypt] <;> omega

/-- The number that is written: the size of the PDU if the form of the length was foreseen. -/
private theorem inputLength_eq :
    inputLength events.data.length events.numEvents
        (inputSecFlags encryptionLevel encryptionMethod) none =
      inputOverhead encryptionLevel encryptionMethod events +
        (if 127 < events.data.length then 2 else 1) + events.data.length := by
  have bounded := events.bounded
  unfold inputLength inputOverhead at *
  rcases inputSecFlags_cases encryptionLevel encryptionMethod with ⟨flags, on⟩ | ⟨flags, off⟩
  · have encrypted : (2 : Byte) &&& FASTPATH_INPUT_ENCRYPTED ≠ 0 := by decide
    rw [flags, if_pos encrypted, if_pos on] at *
    simp only [Option.isSome_none, Bool.false_eq_true, if_false]
    rw [Nat.mod_eq_of_lt]
    · omega
    · split <;> split <;> omega
  · have clear : ¬ (0 : Byte) &&& FASTPATH_INPUT_ENCRYPTED ≠ 0 := by decide
    rw [flags, if_neg clear, if_neg off] at *
    simp only [Option.isSome_none, Bool.false_eq_true, if_false]
    rw [Nat.mod_eq_of_lt]
    · omega
    · split <;> split <;> omega

private theorem inputLength_small :
    inputLength events.data.length events.numEvents
      (inputSecFlags encryptionLevel encryptionMethod) none < 2 ^ 15 := by
  have bounded := events.bounded
  have small : inputOverhead encryptionLevel encryptionMethod events ≤ 10 := by
    unfold inputOverhead
    split <;> split <;> omega
  rw [inputLength_eq]
  split <;> omega

/-- The count and the events as a server with the same context reads them. -/
def readBack : List Byte :=
  if encryptionLevel ||| encryptionMethod ≠ 0 ∧ 15 < events.numEvents.toNat then
    (crypt.decrypt (events.numEvents :: (crypt.decrypt events.data).2)).2
  else events.numEvents :: events.data

private theorem readNumEvents_header {numEvents : Byte} (some : numEvents ≠ 0)
    (payload : List Byte) : readNumEvents numEvents payload = .ok (numEvents, payload) :=
  if_neg some

private theorem readNumEvents_first (numEvents : Byte) (payload : List Byte) :
    readNumEvents 0 (numEvents :: payload) = .ok (numEvents, payload) := by
  have room : (checkThrow (numEvents :: payload) 1 .rdpFastpath : Checked ErrorId _) = .ok () :=
    checkThrow_of_le _ (by simp)
  simp only [readNumEvents, if_true, room, ok_bind, inUint8]

private theorem openPayload_clear (decrypt : CryptContext ssl) (numEvents : Byte)
    (stream : List Byte) :
    openPayload decrypt numEvents 0 stream = .ok (decrypt, List.replicate 8 0, stream) :=
  if_neg (by decide)

private theorem openPayload_encrypted (decrypt : CryptContext ssl) (numEvents : Byte)
    {signature : List Byte} (signed : signature.length = 8) {stream : List Byte}
    (some : 0 < stream.length) :
    openPayload decrypt numEvents 2 (signature ++ stream) =
      .ok ((decrypt.decrypt stream).1, signature, (decrypt.decrypt stream).2) := by
  have encrypted : (2 : Byte) &&& FASTPATH_INPUT_ENCRYPTED ≠ 0 := by decide
  have room : (8 + if numEvents = 0 then 1 else 0) ≤ (signature ++ stream).length := by
    rw [List.length_append, signed]
    split <;> omega
  rw [openPayload, if_pos encrypted, checkThrow_of_le _ room, ok_bind, inBytes_append signed,
    ok_bind]
  rfl

private theorem clientInputEventPDURecv_eq {decrypt : CryptContext ssl}
    {header count secFlags numEvents : Byte} {length : Nat} {signature payload data : List Byte}
    {body : List Byte} (small : length < 2 ^ 15) (action : header &&& 0x03 = 0)
    (counted : (header &&& 0x3C) >>> 2 = count) (flags : (header >>> 6) &&& 3 = secFlags)
    (opened : openPayload crypt count secFlags body = .ok (decrypt, signature, payload))
    (first : readNumEvents count payload = .ok (numEvents, data)) :
    clientInputEventPDURecv crypt (header :: (out2BUE length ++ body)) =
      .ok (decrypt, ⟨header, numEvents, secFlags, length, signature, data⟩) := by
  simp only [clientInputEventPDURecv, inUint8, ok_bind, action, ne_eq, not_true_eq_false,
    if_false, in2BUE_out2BUE small, counted, flags, opened, first, pure_ok]

private theorem clientInputEventPDURecv_run : ∃ decrypt pdu,
    clientInputEventPDURecv crypt
        (clientInputPDU crypt encryptionLevel encryptionMethod events) = .ok (decrypt, pdu) ∧
      pdu.numEvents :: pdu.payload = readBack crypt encryptionLevel encryptionMethod events ∧
      pdu.length = inputLength events.data.length events.numEvents
        (inputSecFlags encryptionLevel encryptionMethod) none := by
  have small := inputLength_small encryptionLevel encryptionMethod events
  have some := events.some
  rw [clientInputPDU_eq]
  unfold readBack inputBody inputHeader
  rcases inputSecFlags_cases encryptionLevel encryptionMethod with ⟨flags, on⟩ | ⟨flags, off⟩
  · have signed := crypt.length_sign events.data
    rw [flags] at small ⊢
    rw [if_pos on]
    by_cases many : 15 < events.numEvents.toNat
    · obtain ⟨action, count, secFlags⟩ := inputHeader_run 2 (.inr rfl) 0 (by decide)
      rw [if_pos many, if_pos many, if_pos ⟨on, many⟩]
      have opened := openPayload_encrypted crypt 0 signed
        (by simp : 0 < ([events.numEvents] ++ (crypt.decrypt events.data).2).length)
      have inside := crypt.length_decrypt ([events.numEvents] ++ (crypt.decrypt events.data).2)
      cases clear : (crypt.decrypt ([events.numEvents] ++ (crypt.decrypt events.data).2)).2 with
      | nil =>
        rw [clear] at inside
        cases inside
      | cons first others =>
        rw [clear] at opened
        exact ⟨_, _, clientInputEventPDURecv_eq crypt small action count secFlags opened
          (readNumEvents_first first others), clear.symm, rfl⟩
    · obtain ⟨action, count, secFlags⟩ :=
        inputHeader_run 2 (.inr rfl) events.numEvents (by omega)
      have apart : ¬ (encryptionLevel ||| encryptionMethod ≠ 0 ∧ 15 < events.numEvents.toNat) :=
        fun both => many both.2
      rw [if_neg many, if_neg many, if_neg apart]
      have opened := openPayload_encrypted crypt events.numEvents signed
        (by simpa using some : 0 < ([] ++ (crypt.decrypt events.data).2).length)
      rw [List.nil_append] at opened ⊢
      rw [crypt.decrypt_decrypt] at opened
      exact ⟨_, _, clientInputEventPDURecv_eq crypt small action count secFlags opened
        (readNumEvents_header events.counted _), rfl, rfl⟩
  · have apart : ¬ (encryptionLevel ||| encryptionMethod ≠ 0 ∧ 15 < events.numEvents.toNat) :=
      fun both => off both.1
    rw [flags] at small ⊢
    rw [if_neg off, if_neg apart]
    by_cases many : 15 < events.numEvents.toNat
    · obtain ⟨action, count, secFlags⟩ := inputHeader_run 0 (.inl rfl) 0 (by decide)
      rw [if_pos many, if_pos many]
      exact ⟨_, _, clientInputEventPDURecv_eq crypt small action count secFlags
        (openPayload_clear crypt 0 _) (readNumEvents_first events.numEvents events.data), rfl, rfl⟩
    · obtain ⟨action, count, secFlags⟩ :=
        inputHeader_run 0 (.inl rfl) events.numEvents (by omega)
      rw [if_neg many, if_neg many]
      exact ⟨_, _, clientInputEventPDURecv_eq crypt small action count secFlags
        (openPayload_clear crypt events.numEvents _)
        (readNumEvents_header events.counted _), rfl, rfl⟩

/-- The events are read back unless the count is taken for their first byte. -/
private theorem readBack_iff :
    readBack crypt encryptionLevel encryptionMethod events = events.numEvents :: events.data ↔
      CountStaysClear keys crypt encryptionLevel encryptionMethod events := by
  unfold readBack CountStaysClear
  split
  · rename_i both
    rw [keys.decrypt_count_iff]
    exact ⟨fun zero _ _ => zero, fun zero => zero both.1 both.2⟩
  · rename_i apart
    exact iff_of_true rfl fun on many => (apart ⟨on, many⟩).elim

/-- The form of the length is foreseen unless short events make a long PDU. -/
private theorem length_iff :
    inputLength events.data.length events.numEvents
          (inputSecFlags encryptionLevel encryptionMethod) none =
        (clientInputPDU crypt encryptionLevel encryptionMethod events).length ↔
      ShortStaysShort encryptionLevel encryptionMethod events := by
  rw [length_clientInputPDU, length_out2BUE, inputLength_eq]
  unfold ShortStaysShort
  by_cases long : 127 < events.data.length
  · rw [if_pos long]
    split <;> omega
  · rw [if_neg long]
    split <;> omega

private theorem lengthForm_eq {v : Nat} (small : v < 2 ^ 15) (header : Byte)
    (rest : List Byte) :
    lengthForm (header :: (out2BUE v ++ rest)) = if v ≤ 127 then 1 else 2 := by
  unfold lengthForm out2BUE
  split
  · exact if_neg (not_not_intro (marked_byte v (by omega)).1)
  · have high : (v ||| 0x8000) >>> 8 = 0x80 + v / 2 ^ 8 := by
      rw [or_marked small, Nat.shiftRight_eq_div_pow]
      omega
    simp only [List.drop_succ_cons, List.drop_zero, List.cons_append, List.head?_cons,
      Option.getD_some, high]
    exact if_pos (marked_byte (v / 2 ^ 8) (by omega)).2.1

/-- The events arrive if they are read back, and the length is that of the PDU. -/
private theorem arrives_iff :
    InputArrives crypt encryptionLevel encryptionMethod events ↔
      inputLength events.data.length events.numEvents
            (inputSecFlags encryptionLevel encryptionMethod) none =
          (clientInputPDU crypt encryptionLevel encryptionMethod events).length ∧
        readBack crypt encryptionLevel encryptionMethod events =
          events.numEvents :: events.data := by
  obtain ⟨decrypt, pdu, read, back, length⟩ :=
    clientInputEventPDURecv_run crypt encryptionLevel encryptionMethod events
  rw [← length, ← back, List.cons.injEq]
  constructor
  · rintro ⟨⟨other, pdu', read', count, payload, size⟩, _⟩
    rw [read] at read'
    cases read'
    exact ⟨size, count, payload⟩
  · rintro ⟨size, count, payload⟩
    refine ⟨⟨decrypt, pdu, read, count, payload, size⟩, ?_⟩
    have form := lengthForm_eq (inputLength_small encryptionLevel encryptionMethod events)
      (inputHeader encryptionLevel encryptionMethod events)
      (inputBody crypt encryptionLevel encryptionMethod events)
    rwa [← clientInputPDU_eq, ← length, size] at form

/-- The events arrive, with the right length in the right form, exactly if the length is in the
form that the sender took for granted, and the count is not in the clear where it is read from
what is decrypted. -/
theorem clientInput_arrives :
    InputArrives crypt encryptionLevel encryptionMethod events ↔
      ShortStaysShort encryptionLevel encryptionMethod events ∧
        CountStaysClear keys crypt encryptionLevel encryptionMethod events := by
  rw [arrives_iff, length_iff, readBack_iff keys]

end Spec

/-- So many events of one byte. -/
def zeroEvents (size : Nat) (some : 0 < size) (bounded : size ≤ 32000) (numEvents : Byte)
    (counted : numEvents ≠ 0) : InputEvents where
  data := List.replicate size 0
  numEvents
  some := by simpa using some
  bounded := by simpa using bounded
  counted

def invertingKeys : Keystream invertingSsl where
  bytes _ _ := 0xFF
  crypt_eq _ data := by
    change data.map (· ^^^ 0xFF) = data.mapIdx fun _ byte => byte ^^^ 0xFF
    induction data with
    | nil => rfl
    | cons byte rest ih => rw [List.map_cons, List.mapIdx_cons, ih]

/-- A key that is pressed and released: two events of two bytes. -/
def keyEvents : InputEvents where
  data := [0x00, 0x1E, 0x01, 0x1E]
  numEvents := 2
  some := by decide
  bounded := by decide
  counted := by decide

theorem clientInput_arrives_encrypted : InputArrives invertingContext 1 1 keyEvents :=
  (clientInput_arrives invertingKeys invertingContext 1 1 keyEvents).mpr
    ⟨fun _ => by decide, fun _ many => absurd many (by decide)⟩

/-- In the clear, 126 bytes of events make a PDU that is longer than it says; encrypted, 16
events are not read back. -/
theorem clientInput_fails :
    ¬ InputArrives plainContext 0 0 (zeroEvents 126 (by decide) (by decide) 1 (by decide)) ∧
      ¬ InputArrives invertingContext 1 1
        (zeroEvents 16 (by decide) (by decide) 16 (by decide)) := by
  constructor
  · rw [arrives_iff, length_iff]
    rintro ⟨short, _⟩
    simp [ShortStaysShort, zeroEvents, inputOverhead] at short
  · rw [arrives_iff]
    exact fun both => absurd both.2 (by decide)

end Redemption.FastPath
