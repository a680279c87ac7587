import Redemption.Foundation.ByteStream

/-! `GlyphCache`, and the order that puts a glyph into the cache of a client. -/
namespace Redemption.Glyphs

open Redemption.Foundation

def numberOfGlyphCaches : Nat := 10

def numberOfGlyphCacheEntries : Nat := 254

/-- `align4`, of a `uint16_t`. -/
def align4 (value : Nat) : Nat := (value % 2 ^ 16 + 3) / 4 * 4 % 2 ^ 16

/-- `nbbytes`, a `uint8_t`. -/
def nbbytes (value : Nat) : Nat := (value + 7) / 8 % 2 ^ 8

def datasize (width height : BitVec 16) : Nat := align4 (nbbytes width.toNat * height.toNat)

/-- What is drawn for a glyph. -/
@[ext]
structure Picture where
  offsetx : BitVec 16
  offsety : BitVec 16
  width : BitVec 16
  height : BitVec 16
  data : List Byte
  deriving DecidableEq

/-- `RDPFontChar` with data. -/
structure FontChar extends Picture where
  incby : BitVec 16
  sized : data.length = datasize width height

/-- `font_item_equal`; `memcmp` compares as many bytes as both have. -/
def fontItemEqual (fontChar1 fontChar2 : FontChar) : Bool :=
  fontChar1.offsetx = fontChar2.offsetx && fontChar1.offsety = fontChar2.offsety
    && fontChar1.width = fontChar2.width && fontChar1.height = fontChar2.height
    && fontChar1.data = fontChar2.data

theorem fontItemEqual_iff {fontChar1 fontChar2 : FontChar} :
    fontItemEqual fontChar1 fontChar2 = true ↔ fontChar1.toPicture = fontChar2.toPicture := by
  simp [fontItemEqual, Picture.ext_iff, and_assoc]

/-- What stops the drawing of a text, besides an access out of bounds. -/
inductive GlyphError where
  /-- A signed counter overflows. -/
  | overflow
  | assertion
  /-- A loop that takes more turns than there are bytes. -/
  | endless
  | streamMemoryTooSmall
  deriving DecidableEq, Repr

structure Glyph where
  stamp : Nat
  cached : Bool
  fontItem : Option FontChar

structure GlyphCache where
  glyphStamp : Nat
  numberOfEntriesInCache : Fin numberOfGlyphCaches → BitVec 8
  glyphs : Fin numberOfGlyphCaches → Nat → Glyph

inductive GlyphCacheResult where
  | foundInCache
  | addedToCache
  deriving DecidableEq, Repr

/-- The loop of `priv_add_glyph` from an entry on: the entry with the glyph, or else the first of
those with the least stamp. -/
def lookForMatch (glyphs : Nat → Glyph) (fontItem : FontChar) :
    Nat → Nat → Nat → Nat → Checked GlyphError (GlyphCacheResult × Nat)
  | 0, _, _, ci => .ok (.addedToCache, ci)
  | left + 1, cacheIndex, oldest, ci =>
    if numberOfGlyphCacheEntries ≤ cacheIndex then .error .outOfBounds
    else if (glyphs cacheIndex).fontItem.any (fontItemEqual · fontItem) then
      .ok (.foundInCache, cacheIndex)
    else if (glyphs cacheIndex).stamp < oldest then
      lookForMatch glyphs fontItem left (cacheIndex + 1) (glyphs cacheIndex).stamp cacheIndex
    else lookForMatch glyphs fontItem left (cacheIndex + 1) oldest ci

namespace GlyphCache

variable (cache : GlyphCache)

def fresh (numberOfEntries : Fin numberOfGlyphCaches → BitVec 8) : GlyphCache :=
  ⟨0, numberOfEntries, fun _ _ => ⟨0, false, none⟩⟩

def setGlyph (cacheid : Fin numberOfGlyphCaches) (cacheidx : Nat) (glyph : Glyph) : GlyphCache :=
  { cache with
    glyphs := Function.update cache.glyphs cacheid
      (Function.update (cache.glyphs cacheid) cacheidx glyph) }

/-- `add_glyph` with its `priv_add_glyph`. -/
def addGlyph (fontItem : FontChar) (cacheid : Fin numberOfGlyphCaches) :
    Checked GlyphError (GlyphCacheResult × Nat × GlyphCache) := do
  let glyphStamp := cache.glyphStamp + 1
  if 2 ^ 31 ≤ glyphStamp then .error (.raised .overflow)
  let (result, cacheidx) ← lookForMatch (cache.glyphs cacheid) fontItem
    (cache.numberOfEntriesInCache cacheid).toNat 0 0x7fffffff 0
  let item := cache.glyphs cacheid cacheidx
  let glyph : Glyph := match result with
    | .foundInCache => { item with stamp := glyphStamp }
    | .addedToCache => ⟨glyphStamp, true, some fontItem⟩
  return (result, cacheidx, { cache with glyphStamp }.setGlyph cacheid cacheidx glyph)

def isCached (cacheId : Fin numberOfGlyphCaches) (cacheIndex : Nat) : Bool :=
  (cache.glyphs cacheId cacheIndex).cached

def setCached (cacheId : Fin numberOfGlyphCaches) (cacheIndex : Nat) (cached : Bool) : GlyphCache :=
  cache.setGlyph cacheId cacheIndex { cache.glyphs cacheId cacheIndex with cached }

end GlyphCache

/-- `RDPGlyphCache`. -/
structure RDPGlyphCache where
  cacheId : Byte
  cacheIndex : BitVec 16
  x : BitVec 16
  y : BitVec 16
  cx : BitVec 16
  cy : BitVec 16
  aj : List Byte
  deriving DecidableEq

def tsCacheGlyph : Byte := 3

namespace RDPGlyphCache

def datasize (cmd : RDPGlyphCache) : Nat := Glyphs.datasize cmd.cx cmd.cy

def totalOrderSize (cmd : RDPGlyphCache) : Nat := (18 + cmd.datasize) % 2 ^ 16

/-- `emit`, with the control byte that says a standard secondary order and one glyph. -/
def emit (cmd : RDPGlyphCache) : List Byte :=
  [3] ++ leBytes 2 (cmd.datasize + 12 - 7) ++ leBytes 2 8 ++ [tsCacheGlyph] ++
    ([cmd.cacheId, 1] ++ leBytes 2 cmd.cacheIndex.toNat ++ leBytes 2 cmd.x.toNat ++
      leBytes 2 cmd.y.toNat ++ leBytes 2 cmd.cx.toNat ++ leBytes 2 cmd.cy.toNat ++ cmd.aj)

/-- `receive`, after the header. -/
def receive (stream : List Byte) : Checked Empty (RDPGlyphCache × List Byte) := do
  let (cacheId, stream) ← inUint8 stream
  let (_, stream) ← inUint8 stream
  let (cacheIndex, stream) ← inLe 2 stream
  let (x, stream) ← inLe 2 stream
  let (y, stream) ← inLe 2 stream
  let (cx, stream) ← inLe 2 stream
  let (cy, stream) ← inLe 2 stream
  let (aj, stream) ← inBytes (Glyphs.datasize (BitVec.ofNat 16 cx) (BitVec.ofNat 16 cy)) stream
  return (⟨cacheId, BitVec.ofNat 16 cacheIndex, BitVec.ofNat 16 x, BitVec.ofNat 16 y,
    BitVec.ofNat 16 cx, BitVec.ofNat 16 cy, aj⟩, stream)

/-- What comes after the control byte of an order, up to the order itself: the length and the
flags of a secondary order, and its type. -/
def receiveHeader (stream : List Byte) : Checked Empty (Byte × List Byte) := do
  let (_, stream) ← inUint8 stream
  let (_, stream) ← inLe 2 stream
  let (_, stream) ← inLe 2 stream
  inUint8 stream

theorem receive_emit (cmd : RDPGlyphCache) (sized : cmd.aj.length = cmd.datasize) :
    (receiveHeader cmd.emit >>= fun header => receive header.2) = .ok (cmd, []) := by
  have data : inBytes (ε := Empty) (Glyphs.datasize cmd.cx cmd.cy) cmd.aj = .ok (cmd.aj, []) := by
    have whole := inBytes_append (ε := Empty) sized []
    rwa [List.append_nil] at whole
  have narrow (value : BitVec 16) : BitVec.ofNat 16 (value.toNat % 2 ^ (8 * 2)) = value := by
    apply BitVec.eq_of_toNat_eq
    rw [BitVec.toNat_ofNat, Nat.mod_mod, Nat.mod_eq_of_lt value.isLt]
  simp only [emit, receiveHeader, receive, List.append_assoc, List.cons_append, List.nil_append,
    inUint8, inLe_append, ok_bind, pure_ok, narrow, data]

end RDPGlyphCache

/-! Texts that are drawn through the glyph cache. -/

def soCharIncEqualBmBase : BitVec 16 := 0x20

/-- `RDPGlyphIndex`: what the cache is about. -/
structure RDPGlyphIndex where
  cacheId : Fin numberOfGlyphCaches
  flAccel : BitVec 16
  uiCharinc : BitVec 16
  /-- As many bytes of the array as `data_len` says; the others are zero. -/
  data : List Byte
  within : data.length < 2 ^ 8

namespace RDPGlyphIndex

variable (cmd : RDPGlyphIndex)

def dataLen : Byte := BitVec.ofNat 8 cmd.data.length

/-- The 256 bytes of a copy. -/
def array : List Byte := cmd.data ++ List.replicate (2 ^ 8 - cmd.data.length) 0

def hasDeltaByte : Bool := cmd.uiCharinc = 0 && cmd.flAccel &&& soCharIncEqualBmBase = 0

end RDPGlyphIndex

/-- What a client gets. -/
inductive Order where
  /-- The bytes of a `RDPGlyphCache`. -/
  | glyphCache (bytes : List Byte)
  /-- A `RDPGlyphIndex`; its text is a field that is left out when it is empty. -/
  | glyphIndex (cacheId : Fin numberOfGlyphCaches) (data : Option (List Byte))

/-- What of a serializer decides on a drawing. -/
structure Serializer where
  /-- The owner of the bitmap cache is a recorder. -/
  recorder : Bool
  maxRequestSize : Nat
  maxPacketSize : Nat

def serializerHeaderSize : Nat := 106

/-- `reserve_order`; what it sends first changes no cache. -/
def Serializer.reserveOrder (serializer : Serializer) (askedSize : Nat) : Checked GlyphError Unit :=
  if serializer.maxRequestSize = 0 ∧ serializer.maxPacketSize < askedSize + serializerHeaderSize then
    .error (.raised .streamMemoryTooSmall)
  else .ok ()

/-- A byte of an array. -/
def load (data : List Byte) (index : Nat) : Checked GlyphError Byte :=
  match data[index]? with
  | some value => .ok value
  | none => .error .outOfBounds

/-- `get_delta`: the number and the cursor after it. -/
def getDelta (data : List Byte) (i : Byte) : Checked GlyphError (BitVec 16 × Byte) := do
  let delta ← load data i.toNat
  if delta = 0x80 then
    let low ← load data (i + 1).toNat
    let high ← load data ((i + 1).toNat + 1)
    return (BitVec.ofNat 16 (leValue [low, high]), i + 1 + 2)
  return (delta.setWidth 16, i + 1)

/-- A drawing that is under way. -/
structure Drawing where
  glyphCache : GlyphCache
  data : List Byte
  orders : List Order

section Draw

variable (serializer : Serializer)

def emitGlyphCache (glyphCache : GlyphCache) (cacheId : Fin numberOfGlyphCaches)
    (cacheIndex : Nat) : Checked GlyphError (List Order) :=
  match (glyphCache.glyphs cacheId cacheIndex).fontItem with
  | none => .error (.raised .assertion)
  | some fc => do
    let cmd : RDPGlyphCache := ⟨BitVec.ofNat 8 cacheId, BitVec.ofNat 16 cacheIndex, fc.offsetx,
      fc.offsety, fc.width, fc.height, fc.data⟩
    serializer.reserveOrder cmd.totalOrderSize
    return [.glyphCache cmd.emit]

variable (source : Fin 254 → Option FontChar)

/-- A glyph of a text: it gets an entry, and the client the glyph when it has none. -/
def drawGlyph (cacheId : Fin numberOfGlyphCaches) (glyphCache : GlyphCache) (index : Fin 254) :
    Checked GlyphError (Nat × GlyphCache × List Order) :=
  match source index with
  | none => .error (.raised .assertion)
  | some fc => do
    let (result, cacheIndex, glyphCache) ← glyphCache.addGlyph fc cacheId
    if result = .addedToCache then
      let orders ← emitGlyphCache serializer glyphCache cacheId cacheIndex
      return (cacheIndex, glyphCache, orders)
    else if serializer.recorder ∧ ¬ glyphCache.isCached cacheId cacheIndex then
      let orders ← emitGlyphCache serializer glyphCache cacheId cacheIndex
      return (cacheIndex, glyphCache.setCached cacheId cacheIndex true, orders)
    else return (cacheIndex, glyphCache, [])

variable (cmd : RDPGlyphIndex)

/-- A turn of the loop over a text. -/
def drawItem (drawing : Drawing) (i : Byte) : Checked GlyphError (Drawing × Byte) := do
  let opcode ← load drawing.data i.toNat
  if glyph : opcode.toNat < 254 then
    let (cacheIndex, glyphCache, orders) ←
      drawGlyph serializer source cmd.cacheId drawing.glyphCache ⟨opcode.toNat, glyph⟩
    let drawing : Drawing :=
      ⟨glyphCache, drawing.data.set i.toNat (BitVec.ofNat 8 cacheIndex), drawing.orders ++ orders⟩
    if cmd.hasDeltaByte then
      let (_, i) ← getDelta drawing.data (i + 1)
      return (drawing, i)
    return (drawing, i + 1)
  else if opcode = 0xFE then
    let _ ← load drawing.data (i + 1).toNat
    if cmd.hasDeltaByte then
      let (_, i) ← getDelta drawing.data (i + 1 + 1)
      return (drawing, i)
    return (drawing, i + 1 + 1)
  else
    let _ ← load drawing.data (i + 1).toNat
    let _ ← load drawing.data (i + 1 + 1).toNat
    if i + 1 + 1 + 1 = cmd.dataLen then return (drawing, i + 1 + 1 + 1)
    else .error (.raised .assertion)

/-- The loop over a text. -/
def drawItems : Nat → Drawing → Byte → Checked GlyphError Drawing
  | 0, _, _ => .error (.raised .endless)
  | fuel + 1, drawing, i =>
    if i < cmd.dataLen then do
      let (drawing, i) ← drawItem serializer source cmd drawing i
      drawItems fuel drawing i
    else .ok drawing

/-- `draw` of a `RDPGlyphIndex`. -/
def draw (glyphCache : GlyphCache) : Checked GlyphError (GlyphCache × List Order) := do
  let drawing ← drawItems serializer source cmd (2 ^ 8) ⟨glyphCache, cmd.array, []⟩ 0
  serializer.reserveOrder 297
  let text := if cmd.dataLen = 0 then none else some (drawing.data.take cmd.dataLen.toNat)
  return (drawing.glyphCache, drawing.orders ++ [.glyphIndex cmd.cacheId text])

end Draw

/-- The distance to a glyph or a fragment, in one byte or in three. -/
inductive Delta where
  | short (value : Byte) (plain : value ≠ 0x80)
  | long (value : BitVec 16)

def Delta.bytes : Delta → List Byte
  | .short value _ => [value]
  | .long value => 0x80 :: leBytes 2 value.toNat

inductive Item where
  | glyph (index : Fin 254) (delta : Delta)
  /-- A fragment that the client has. -/
  | use (fragment : Byte) (delta : Delta)

/-- A well-formed text: glyphs and fragments, and a name for the whole at its end. -/
structure Fragment where
  items : List Item
  add : Option (Byte × Byte)

def deltaBytes (hasDeltaByte : Bool) (delta : Delta) : List Byte :=
  if hasDeltaByte then delta.bytes else []

def Item.bytes (hasDeltaByte : Bool) : Item → List Byte
  | .glyph index delta => BitVec.ofNat 8 index :: deltaBytes hasDeltaByte delta
  | .use fragment delta => 0xFE :: fragment :: deltaBytes hasDeltaByte delta

def addBytes : Option (Byte × Byte) → List Byte
  | none => []
  | some (index, size) => [0xFF, index, size]

def Fragment.bytes (hasDeltaByte : Bool) (fragment : Fragment) : List Byte :=
  fragment.items.flatMap (Item.bytes hasDeltaByte) ++ addBytes fragment.add

end Redemption.Glyphs
