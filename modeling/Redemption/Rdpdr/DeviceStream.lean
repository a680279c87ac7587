import Redemption.Foundation.FrontReader
import Redemption.Rdpdr.DeviceManager

/-! The devices in a stream of announces, byte by byte, whatever the chunks are. -/
namespace Redemption.Rdpdr

open Redemption.Foundation Redemption.Channels

/-- A device as a client announces it. -/
structure Device where
  header : DeviceHeader
  data : List Byte
  deriving DecidableEq, Repr

namespace DeviceHeader

def bytes (header : DeviceHeader) : List Byte :=
  uint32 header.deviceType ++ uint32 header.deviceId ++ header.preferredDosName ++
    uint32 header.deviceDataLength

/-- The header in the first twenty bytes of a stream. -/
def decode (stream : List Byte) : DeviceHeader :=
  ⟨BitVec.ofNat 32 (leValue (stream.take 4)), BitVec.ofNat 32 (leValue ((stream.drop 4).take 4)),
    (stream.drop 8).take 8, BitVec.ofNat 32 (leValue ((stream.drop 16).take 4))⟩

end DeviceHeader

namespace Device

def id (device : Device) : BitVec 32 := device.header.deviceId

/-- The device in a list of devices. -/
def bytes (device : Device) : List Byte := device.header.bytes ++ device.data

end Device

/-- What becomes of devices while they are read. -/
inductive Effect where
  | refused (deviceId : BitVec 32)
  | opened (header : DeviceHeader)
  | arrived (device : Device)
  deriving DecidableEq, Repr

/-- Where a stream of devices is cut: in a header, in the data of a device that is authorised, or in
that of another. -/
inductive Parser where
  | header (saved : List Byte)
  | data (header : DeviceHeader) (got : List Byte)
  | skipping (remaining : Nat)
  deriving DecidableEq, Repr

section Scan

variable (params : Params)

/-- The header of a device is complete. -/
def enter (header : DeviceHeader) : Parser × List Effect :=
  if params.authorized header.deviceType then
    if header.deviceDataLength.toNat = 0 then (.header [], [.opened header, .arrived ⟨header, []⟩])
    else (.data header [], [.opened header])
  else if header.deviceDataLength.toNat = 0 then (.header [], [.refused header.deviceId])
  else (.skipping header.deviceDataLength.toNat, [.refused header.deviceId])

def consume (byte : Byte) : Parser → Parser × List Effect
  | .header saved =>
    if saved.length + 1 < 20 then (.header (saved ++ [byte]), [])
    else enter params (.decode (saved ++ [byte]))
  | .data header got =>
    if got.length + 1 < header.deviceDataLength.toNat then (.data header (got ++ [byte]), [])
    else (.header [], [.arrived ⟨header, got ++ [byte]⟩])
  | .skipping remaining =>
    if 1 < remaining then (.skipping (remaining - 1), []) else (.header [], [])

def scan : Parser → List Byte → Parser × List Effect
  | parser, [] => (parser, [])
  | parser, byte :: rest =>
    let (parser, effects) := consume params byte parser
    let (parser, later) := scan parser rest
    (parser, effects ++ later)

end Scan

/-- The devices that have arrived, and those that are refused. -/
def arrivals (effects : List Effect) : List Device :=
  effects.filterMap fun
    | .arrived device => some device
    | _ => none

/-- A drive without data. -/
def drive : Device :=
  ⟨⟨ChannelsAuthorizations.RDPDR_DTYP_FILESYSTEM, 1, [67, 58, 0, 0, 0, 0, 0, 0], 0⟩, []⟩

/-- A new message of the client begins. A device whose data is missing is not given up. -/
def Parser.restart : Parser → Parser
  | .header _ => .header []
  | parser => parser

namespace Message

/-- The parts of the stream of devices, behind the number of devices of each message. -/
def body : Message → List Byte
  | .deviceListAnnounce flags chunk =>
    if flags &&& CHANNEL_FLAG_FIRST ≠ 0 then chunk.drop 4 else chunk
  | _ => []

/-- Where the stream is before a message is read. -/
def entry (parser : Parser) : Message → Parser
  | .deviceListAnnounce flags _ =>
    if flags &&& CHANNEL_FLAG_FIRST ≠ 0 then parser.restart else parser
  | _ => parser

/-- What a message does to the stream. -/
def scanned (params : Params) (parser : Parser) (message : Message) : Parser × List Effect :=
  scan params (message.entry parser) message.body

end Message

theorem inUint32_ok {stream : List Byte} (room : 4 ≤ stream.length) :
    inUint32 stream = .ok (BitVec.ofNat 32 (leValue (stream.take 4)), stream.drop 4) := by
  rw [inUint32, inLe_ok room]
  rfl

end Redemption.Rdpdr
