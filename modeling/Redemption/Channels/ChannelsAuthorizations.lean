import Redemption.Utils.NameList

/-! `ChannelsAuthorizations` and `compute_authorized_channels`: which static channels a session
may use, and for what. -/
namespace Redemption.Channels

open Redemption.Foundation Redemption.Utils

/-- `ChannelNameId::lower`: a lower case character, widened as a signed one. -/
def lower (char : Byte) : BitVec 64 :=
  if 0x41 ≤ char ∧ char ≤ 0x5A then (char - 0x41 + 0x61).setWidth 64 else char.signExtend 64

/-- `ChannelNameId`: the characters of a short name, in one word. -/
def channelNameId (name : List Byte) : BitVec 64 :=
  (name.zipIdx.map fun (char, index) => lower char <<< (8 * index)).foldr (· ||| ·) 0

/-- The flags of `cliprdr_restriction_`, `rdpdr_restriction_`, `rdpsnd_restriction_` and
`rdpcap_restriction_`. -/
inductive Restriction where
  | cliprdrUp
  | cliprdrDown
  | cliprdrFile
  | rdpdrPrinter
  | rdpdrPort
  | rdpdrDriveRead
  | rdpdrDriveWrite
  | rdpdrSmartcard
  | rdpsndAudioOutput
  | rdpcapAudioInput
  deriving DecidableEq

/-- The channel a flag is about. -/
inductive Group where
  | cliprdr
  | rdpdr
  | rdpsnd
  | rdpcap
  deriving DecidableEq

/-- `cliprde_list`, `rdpdr_list`, `rdpsnd_list` and `rdpcap_list`. -/
def Group.restrictions : Group → List Restriction
  | .cliprdr => [.cliprdrUp, .cliprdrDown, .cliprdrFile]
  | .rdpdr => [.rdpdrPrinter, .rdpdrPort, .rdpdrDriveRead, .rdpdrDriveWrite, .rdpdrSmartcard]
  | .rdpsnd => [.rdpsndAudioOutput]
  | .rdpcap => [.rdpcapAudioInput]

def Restriction.name : Restriction → List Byte
  | .cliprdrUp => chars "cliprdr_up"
  | .cliprdrDown => chars "cliprdr_down"
  | .cliprdrFile => chars "cliprdr_file"
  | .rdpdrPrinter => chars "rdpdr_printer"
  | .rdpdrPort => chars "rdpdr_port"
  | .rdpdrDriveRead => chars "rdpdr_drive_read"
  | .rdpdrDriveWrite => chars "rdpdr_drive_write"
  | .rdpdrSmartcard => chars "rdpdr_smartcard"
  | .rdpsndAudioOutput => chars "rdpsnd_audio_output"
  | .rdpcapAudioInput => chars "rdpcap_audio_input"

def CLIPRDR : BitVec 64 := channelNameId (chars "cliprdr")
def RDPDR : BitVec 64 := channelNameId (chars "rdpdr")
def RDPSND : BitVec 64 := channelNameId (chars "rdpsnd")

/-- The name that stands for the whole group. Audio capture is not a static channel. -/
def Group.id : Group → BitVec 64
  | .cliprdr => CLIPRDR
  | .rdpdr => RDPDR
  | .rdpsnd => RDPSND
  | .rdpcap => 0

/-- What the constructor reads from a list of names. -/
structure Extracted where
  all : Bool
  ids : List (BitVec 64)
  largeIds : List (List Byte)

def isWildcard (name : List Byte) : Bool := name.head? = some 0x2A

/-- The lambda `extract` of the constructor. -/
def extractNames (list : List Byte) : Extracted where
  all := (listed list).any isWildcard
  ids := ((listed list).filter fun name => ¬ isWildcard name ∧ name.length ≤ 7).map channelNameId
  largeIds := (listed list).filter fun name => ¬ isWildcard name ∧ 7 < name.length

/-- `normalize`: a short name sets all flags of its group, else long names set one each. -/
def normalize (set : Bool) (largeIds : List (List Byte))
    (settled : List (BitVec 64) × (Restriction → Bool)) (group : Group) :
    List (BitVec 64) × (Restriction → Bool) :=
  let (ids, values) := settled
  if group.id ∈ ids then
    (ids.filter (· ≠ group.id), fun flag => if flag ∈ group.restrictions then set else values flag)
  else
    (ids, fun flag =>
      if flag ∈ group.restrictions ∧ flag.name ∈ largeIds then set else values flag)

/-- The lambda `normalize` of the constructor. -/
def normalizeGroups (set : Bool) (extracted : Extracted) (values : Restriction → Bool) :
    List (BitVec 64) × (Restriction → Bool) :=
  [.cliprdr, .rdpdr, .rdpsnd, .rdpcap].foldl (normalize set extracted.largeIds)
    (extracted.ids, values)

/-- The members of `ChannelsAuthorizations`. The two parts of `allow_and_deny_` are only asked
what is in them, so that their order does not matter. -/
structure ChannelsAuthorizations where
  allowIds : List (BitVec 64)
  denyIds : List (BitVec 64)
  allAllow : Bool
  allDeny : Bool
  restriction : Restriction → Bool

namespace ChannelsAuthorizations

/-- The constructor. -/
def make (allow deny : List Byte) : ChannelsAuthorizations :=
  let allowed := extractNames allow
  let denied := extractNames deny
  let (allowIds, values) := normalizeGroups true allowed fun _ => allowed.all && !denied.all
  let (denyIds, values) := normalizeGroups false denied values
  let clipboard := values .cliprdrUp || values .cliprdrDown
  let devices := Group.rdpdr.restrictions.any values || Group.rdpsnd.restrictions.any values
  let channels := [(CLIPRDR, clipboard), (RDPDR, devices), (RDPSND, devices)]
  { allowIds := allowIds ++ (channels.filter (·.2)).map (·.1)
    denyIds := denyIds ++ (channels.filter (!·.2)).map (·.1)
    allAllow := allowed.all
    allDeny := denied.all
    restriction := values }

def isAuthorized (authorizations : ChannelsAuthorizations) (id : BitVec 64) : Bool :=
  if authorizations.allDeny then id ∈ authorizations.allowIds
  else if authorizations.allAllow then id ∉ authorizations.denyIds
  else id ∉ authorizations.denyIds ∧ id ∈ authorizations.allowIds

def RDPDR_DTYP_SERIAL : BitVec 32 := 0x00000001
def RDPDR_DTYP_PARALLEL : BitVec 32 := 0x00000002
def RDPDR_DTYP_PRINT : BitVec 32 := 0x00000004
def RDPDR_DTYP_FILESYSTEM : BitVec 32 := 0x00000008
def RDPDR_DTYP_SMARTCARD : BitVec 32 := 0x00000020

/-- An unknown type is refused (and asserted not to come). -/
def rdpdrTypeIsAuthorized (authorizations : ChannelsAuthorizations) (deviceType : BitVec 32) :
    Bool :=
  if deviceType = RDPDR_DTYP_SERIAL ∨ deviceType = RDPDR_DTYP_PARALLEL then
    authorizations.restriction .rdpdrPort
  else if deviceType = RDPDR_DTYP_PRINT then authorizations.restriction .rdpdrPrinter
  else if deviceType = RDPDR_DTYP_FILESYSTEM then
    authorizations.restriction .rdpdrDriveRead || authorizations.restriction .rdpdrDriveWrite
  else if deviceType = RDPDR_DTYP_SMARTCARD then authorizations.restriction .rdpdrSmartcard
  else false

/-- The accessor of each right: `cliprdr_up_is_authorized` and its like, and
`rdpdr_type_is_authorized` for the devices that are not drives. -/
def grants (authorizations : ChannelsAuthorizations) : Restriction → Bool
  | .rdpdrPrinter => authorizations.rdpdrTypeIsAuthorized RDPDR_DTYP_PRINT
  | .rdpdrPort => authorizations.rdpdrTypeIsAuthorized RDPDR_DTYP_SERIAL
  | .rdpdrSmartcard => authorizations.rdpdrTypeIsAuthorized RDPDR_DTYP_SMARTCARD
  | flag => authorizations.restriction flag

end ChannelsAuthorizations

/-- The search from the end of the last erasure: `skipped` characters are in one. -/
def eraseFrom (pattern : List Byte) : Nat → List Byte → List Byte
  | _, [] => []
  | skipped + 1, _ :: rest => eraseFrom pattern skipped rest
  | 0, char :: rest =>
    if pattern <+: char :: rest then eraseFrom pattern (pattern.length - 1) rest
    else char :: eraseFrom pattern 0 rest

/-- The lambda `remove`: whether there is something to erase, and what is left. -/
def remove (text pattern : List Byte) : Bool × List Byte :=
  (pattern <:+: text, eraseFrom pattern 0 text)

/-- One comma less at the end. -/
def popComma (text : List Byte) : List Byte :=
  if text.getLast? = some COMMA then text.dropLast else text

/-- `proxy_opt` with the two rights that the right to a drive stands for. -/
def expandOptions (proxyOpt : List Byte) : List Byte :=
  let text := (proxyOpt.reverse.dropWhile (· = COMMA)).reverse ++ [COMMA]
  let (removed, text) := remove text (chars "RDP_DRIVE,")
  popComma (if removed then text ++ chars "RDP_DRIVE_READ,RDP_DRIVE_WRITE" else text)

/-- The names that are taken out of a list. -/
def ownNames : List (List Byte) :=
  [chars "cliprdr", chars "rdpdr", chars "rdpsnd"] ++
    (Group.cliprdr.restrictions ++ Group.rdpdr.restrictions ++ Group.rdpsnd.restrictions).map
      Restriction.name

/-- What is left of a list without the names that the options decide. -/
def residue (original : List Byte) : List Byte :=
  popComma (ownNames.foldl (fun text name => (remove text (name ++ [COMMA])).2)
    (original ++ [COMMA]))

/-- `opts_channels`. -/
def optsChannels : List (List Byte × Restriction) :=
  [(chars "RDP_CLIPBOARD_UP", .cliprdrUp),
    (chars "RDP_CLIPBOARD_DOWN", .cliprdrDown),
    (chars "RDP_CLIPBOARD_FILE", .cliprdrFile),
    (chars "RDP_PRINTER", .rdpdrPrinter),
    (chars "RDP_COM_PORT", .rdpdrPort),
    (chars "RDP_DRIVE_READ", .rdpdrDriveRead),
    (chars "RDP_DRIVE_WRITE", .rdpdrDriveWrite),
    (chars "RDP_SMARTCARD", .rdpdrSmartcard),
    (chars "RDP_AUDIO_OUTPUT", .rdpsndAudioOutput),
    (chars "RDP_AUDIO_INPUT", .rdpcapAudioInput)]

def computeAuthorizedChannels (originalAllow originalDeny proxyOpt : List Byte) :
    List Byte × List Byte :=
  let proxyOpt := expandOptions proxyOpt
  optsChannels.foldl (fun (allow, deny) (opt, channel) =>
    if opt <:+: proxyOpt then (allow ++ COMMA :: channel.name, deny)
    else (allow, deny ++ COMMA :: channel.name)) (residue originalAllow, residue originalDeny)

end Redemption.Channels
