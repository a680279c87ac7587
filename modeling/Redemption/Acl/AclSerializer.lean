import Redemption.Foundation.FrontReader
import Mathlib.Data.Finset.Insert

/-! The fields that are exchanged with the ACL: `Reader`, `read_acl_fields` and `Writer`. -/
namespace Redemption.Acl

open Redemption.Foundation

/-- The errors of `acl_serializer.cpp`. -/
inductive AclError where
  /-- `ERR_ACL_UNEXPECTED_IN_ITEM_OUT` -/
  | unexpectedInItemOut
  /-- `ERR_ACL_MESSAGE_TOO_BIG` -/
  | messageTooBig
  deriving DecidableEq, Repr

/-- A transport, by what it answers to one `partial_read` after the other; an answer is never
empty before the end. -/
structure Transport where
  answers : List (List Byte)
  given : ∀ answer ∈ answers, answer ≠ []

namespace Transport

/-- What is still to come. -/
def bytes (trans : Transport) : List Byte := trans.answers.flatten

/-- The transport behind its first answer. -/
def behind (trans : Transport) : Transport where
  answers := trans.answers.tail
  given answer member := trans.given answer (List.mem_of_mem_tail member)

/-- The transport with a part of its first answer left. -/
def leaving (trans : Transport) (left : List Byte) (some : left ≠ []) : Transport where
  answers := left :: trans.answers.tail
  given answer member := by
    cases member with
    | head => exact some
    | tail _ member => exact trans.given answer (List.mem_of_mem_tail member)

/-- `partial_read`, to so much room: nothing at the end, and otherwise what fits of the answer. -/
def partialRead (trans : Transport) (room : Nat) : List Byte × Transport :=
  let answer := trans.answers.headD []
  if more : answer.drop room ≠ [] then (answer.take room, trans.leaving (answer.drop room) more)
  else (answer, trans.behind)

end Transport

/-- What a receiver does: `get_acl_field_by_name`, and `ask` and `parse` of a field. -/
structure Inifile (Config AuthId : Type) where
  getAclFieldByName : List Byte → Option AuthId
  ask : AuthId → Config → Config
  parse : AuthId → List Byte → Config → Bool × Config

/-- The members of `Reader` that are left from one call to the next: `in_stream`, as far as it has
not been read. -/
structure Reader where
  trans : Transport
  inStream : List Byte

/-- A method of `Reader`. -/
abbrev ReaderM := StateT Reader (Checked AclError)

namespace Reader

/-- The size of the buffer of the reader. -/
def bufLen : Nat := 65536

/-- Fault where no more than the stream is read. -/
def fromStream {α : Type} (read : List Byte → Checked AclError (α × List Byte)) : ReaderM α :=
  fun reader => do
    let (value, inStream) ← read reader.inStream
    return (value, { reader with inStream })

def inUint8 : ReaderM Byte := fromStream Foundation.inUint8

def inUintBe (width : Nat) : ReaderM Nat :=
  (fun bytes => beValue bytes) <$> fromStream (inBytes width)

def inSkipBytes (len : Nat) : ReaderM (List Byte) := fromStream (inBytes len)

/-- `read_to`. -/
def readTo (trans : Transport) (room : Nat) : Checked AclError (List Byte × Transport) :=
  match trans.partialRead room with
  | ([], _) => .error (.raised .unexpectedInItemOut)
  | (bytes, trans) => .ok (bytes, trans)

/-- The loop of `read`, which has so many calls to make at most: each gives a byte. -/
def fill (minimalRequirement : Nat) : Nat → List Byte → Transport →
    Checked AclError (List Byte × Transport)
  | 0, _, _ => .error .outOfBounds
  | calls + 1, buf, trans =>
    if buf.length ≤ bufLen then do
      let (bytes, trans) ← readTo trans (bufLen - buf.length)
      let buf := buf ++ bytes
      if buf.length < minimalRequirement then fill minimalRequirement calls buf trans
      else return (buf, trans)
    else .error .outOfBounds

/-- `read`. -/
def read (minimalRequirement : Nat) : ReaderM PUnit := fun reader =>
  if reader.inStream.length < minimalRequirement then do
    let (inStream, trans) ←
      fill minimalRequirement minimalRequirement reader.inStream reader.trans
    return (⟨⟩, ⟨trans, inStream⟩)
  else return (⟨⟩, reader)

/-- `read_nfield`. -/
def readNfield : ReaderM Nat := do
  read 4
  inUintBe 2

/-- `read_key`, with the type. -/
def readKey : ReaderM (Byte × List Byte) := do
  read 2
  let type ← inUint8
  let nameLen ← inUint8
  read nameLen.toNat
  let key ← inSkipBytes nameLen.toNat
  return (type, key)

def askType : Byte := 0x3F

def valueType : Byte := 0x21

/-- `is_ask`, which only asserts that the type is one of the two. -/
def isAsk (type : Byte) : Bool := type = askType

/-- The loop of `read_value`, with so much of a value remaining. -/
def copyRest : Nat → Nat → List Byte → Transport → Checked AclError (List Byte × Transport)
  | 0, _, _, _ => .error .outOfBounds
  | calls + 1, remaining, dynamicbuf, trans => do
    let (bytes, trans) ← readTo trans remaining
    let dynamicbuf := dynamicbuf ++ bytes
    if remaining - bytes.length = 0 then return (dynamicbuf, trans)
    else copyRest calls (remaining - bytes.length) dynamicbuf trans

def maxValueLen : Nat := 1024 * 1024

/-- The part of `read_value` for a value that is not in the buffer, and not small. -/
def readDynamic (valueLen : Nat) : ReaderM (List Byte) := fun reader => do
  let remaining := valueLen - reader.inStream.length
  let (dynamicbuf, trans) ← copyRest remaining remaining reader.inStream reader.trans
  return (dynamicbuf, ⟨trans, []⟩)

/-- `read_value`, behind the length of the value. -/
def readValueBytes (valueLen : Nat) : ReaderM (List Byte) := do
  if valueLen ≤ (← get).inStream.length then inSkipBytes valueLen
  else if valueLen < 256 then do
    read valueLen
    inSkipBytes valueLen
  else if valueLen > maxValueLen then throw (.raised .messageTooBig)
  else readDynamic valueLen

/-- `read_value`. -/
def readValue : ReaderM (List Byte) := do
  read 4
  let valueLen ← inUintBe 4
  readValueBytes valueLen

end Reader

section Fields

variable {Config AuthId : Type} [DecidableEq AuthId]

/-- What `read_acl_fields` has changed: the configuration, and the mask of fields. -/
abbrev Applied (Config AuthId : Type) := Config × Finset AuthId

namespace Inifile

variable (ini : Inifile Config AuthId)

/-- A field is asked for. -/
def applyAsk (authid : AuthId) (applied : Applied Config AuthId) : Applied Config AuthId :=
  (ini.ask authid applied.1, applied.2)

/-- A field has a value. -/
def applyValue (authid : AuthId) (value : List Byte) (applied : Applied Config AuthId) :
    Applied Config AuthId :=
  let (parsed, config) := ini.parse authid value applied.1
  (config, if parsed then insert authid applied.2 else applied.2)

/-- The body of the loop of `read_acl_fields`. -/
def readField (applied : Applied Config AuthId) : ReaderM (Applied Config AuthId) := do
  let (type, key) ← Reader.readKey
  match ini.getAclFieldByName key with
  | some authid =>
    if Reader.isAsk type then return ini.applyAsk authid applied
    else do
      let value ← Reader.readValue
      return ini.applyValue authid value applied
  | none => do
    let _ ← Reader.readValue
    return applied

/-- The loop of `read_acl_fields`, for the fields of a message. -/
def readFields : Nat → Applied Config AuthId → ReaderM (Applied Config AuthId)
  | 0, applied => return applied
  | nfield + 1, applied => do
    let applied ← ini.readField applied
    readFields nfield applied

/-- A message of `read_acl_fields`. -/
def readMessage (applied : Applied Config AuthId) : ReaderM (Applied Config AuthId) := do
  let nfield ← Reader.readNfield
  ini.readFields nfield applied

/-- The loop of `read_acl_fields`, for so many messages at most. -/
def readMessages : Nat → Applied Config AuthId → ReaderM (Applied Config AuthId)
  | 0, _ => throw .outOfBounds
  | messages + 1, applied => do
    let applied ← ini.readMessage applied
    if (← get).inStream.isEmpty then return applied
    else readMessages messages applied

/-- `read_acl_fields`, and what of the transport it has left: messages take bytes. -/
def readAclFields (config : Config) (authTrans : Transport) :
    Checked AclError (Applied Config AuthId × Transport) := do
  let (applied, reader) ← ini.readMessages (authTrans.bytes.length + 1) (config, ∅) ⟨authTrans, []⟩
  return (applied, reader.trans)

end Inifile

end Fields

/-- A field that is sent: an ask, or a value. -/
inductive Field where
  | ask (name : List Byte)
  | value (name value : List Byte)
  deriving DecidableEq, Repr

/-- The members of `Writer`: what `out_stream` holds, and what has been sent. -/
structure Writer where
  outStream : List Byte
  sent : List (List Byte)
  deriving DecidableEq, Repr

/-- Nothing is raised by `Writer`: a buffer that is too small would be a fault. -/
abbrev WriterM := StateT Writer (Checked Empty)

namespace Writer

/-- The size of the buffer of the writer. -/
def bufLen : Nat := 65536

def tailroom (writer : Writer) : Nat := bufLen - writer.outStream.length

/-- Bytes are put behind those that the stream holds. -/
def outCopyBytes (bytes : List Byte) : WriterM PUnit := fun writer =>
  if bytes.length ≤ writer.tailroom then
    .ok (⟨⟩, { writer with outStream := writer.outStream ++ bytes })
  else .error .outOfBounds

/-- `send_data`. -/
def sendData (data : List Byte) : WriterM PUnit :=
  modify fun writer => { writer with sent := writer.sent ++ [data] }

/-- `send_buffer`. -/
def sendBuffer : WriterM PUnit := do sendData (← get).outStream

/-- `send_multi_buffer`. -/
def sendMultiBuffer : WriterM PUnit := do
  sendBuffer
  modify fun writer => { writer with outStream := [] }

/-- The buffer is sent first, where it has not so much room. -/
def makeRoom (len : Nat) : WriterM PUnit := do
  if ¬ len ≤ (← get).tailroom then sendMultiBuffer

/-- `push_ask`. -/
def pushAsk (name : List Byte) : WriterM PUnit := do
  makeRoom (2 + name.length)
  outCopyBytes [Reader.askType]
  outCopyBytes (beBytes 1 name.length)
  outCopyBytes name

/-- The last part of `push_value`. -/
def outValue (value : List Byte) : WriterM PUnit := do
  if value.length ≤ (← get).tailroom then outCopyBytes value
  else do
    let min := min (← get).tailroom value.length
    outCopyBytes (value.take min)
    sendMultiBuffer
    sendData (value.drop min)

/-- `push_value`. -/
def pushValue (name value : List Byte) : WriterM PUnit := do
  makeRoom (2 + name.length + 4 + value.length)
  outCopyBytes [Reader.valueType]
  outCopyBytes (beBytes 1 name.length)
  outCopyBytes name
  outCopyBytes (beBytes 4 value.length)
  outValue value

def pushField : Field → WriterM PUnit
  | .ask name => pushAsk name
  | .value name value => pushValue name value

def pushFields : List Field → WriterM PUnit
  | [] => return ⟨⟩
  | field :: fields => do
    pushField field
    pushFields fields

end Writer

/-- What a `Writer` does with fields, from its constructor to the last `send_buffer`. -/
def Writer.sendFields (fields : List Field) : WriterM PUnit := do
  outCopyBytes (beBytes 2 fields.length)
  pushFields fields
  sendBuffer

/-- `send_acl_data`, of the fields that have changed: what is given to the transport. -/
def sendAclData (fields : List Field) : Checked Empty (List (List Byte)) :=
  if fields.length = 0 then .ok []
  else do
    let (_, writer) ← Writer.sendFields fields ⟨[], []⟩
    return writer.sent

end Redemption.Acl
