import Redemption.Foundation.ByteStream

/-! The sliding buffer that bytes arrive in: what has been read and not yet consumed lies
between `idx` and `len`. -/
namespace Redemption.Tpdu

open Redemption.Foundation

/-- `Capacity` of `Buf64k`: the largest `uint16_t`. -/
def maxLen : Nat := 65535

structure Buf64k where
  buf : Buffer Byte maxLen
  len : Nat
  idx : Nat
  ordered : idx ≤ len
  bounded : len ≤ maxLen

/-- A transport's `partial_read`: at most as many bytes as it is asked for. -/
structure PartialRead where
  read : Nat → List Byte
  short : ∀ asked, (read asked).length ≤ asked

/-- A transport that has `source` to give and gives at most `size` bytes of it now. -/
def PartialRead.ofSize (size : Nat) (source : List Byte) : PartialRead where
  read asked := source.take (min size asked)
  short asked := by
    rw [List.length_take]
    omega

namespace Buf64k

/-- An empty buffer; `memory` is what its array happens to hold. -/
def empty (memory : Nat → Byte) : Buf64k := ⟨⟨memory⟩, 0, 0, Nat.le_refl 0, Nat.zero_le _⟩

def remaining (buffer : Buf64k) : Nat := buffer.len - buffer.idx

/-- `av()`: the bytes not yet consumed. -/
def av (buffer : Buf64k) : List Byte := buffer.buf.slice buffer.idx buffer.remaining

/-- The byte `offset` behind the first that is not consumed; `sub` does not compare the
offset with what remains. -/
def byteAt (buffer : Buf64k) (offset : Nat) : Byte := buffer.buf.cell (buffer.idx + offset)

def advance (buffer : Buf64k) (n : Nat) (enough : n ≤ buffer.remaining) : Buf64k :=
  { buffer with
    idx := buffer.idx + n
    ordered := by
      have := buffer.ordered
      unfold remaining at enough
      omega }

/-- The `memmove` to the front of the array. -/
def compact (buffer : Buf64k) : Buf64k where
  buf := buffer.buf.splice 0 buffer.av
  len := buffer.len - buffer.idx
  idx := 0
  ordered := Nat.zero_le _
  bounded := Nat.le_trans (Nat.sub_le _ _) buffer.bounded

/-- Append what the transport gives for the rest of the array. -/
def append (buffer : Buf64k) (source : PartialRead) : Buf64k where
  buf := buffer.buf.splice buffer.len (source.read (maxLen - buffer.len))
  len := buffer.len + (source.read (maxLen - buffer.len)).length
  idx := buffer.idx
  ordered := Nat.le_trans buffer.ordered (Nat.le_add_right _ _)
  bounded := by
    have := buffer.bounded
    have := source.short (maxLen - buffer.len)
    omega

/-- `read_with`. -/
def readWith (buffer : Buf64k) (source : PartialRead) : Buf64k :=
  if buffer.idx = buffer.len then
    { buf := buffer.buf.splice 0 (source.read maxLen)
      len := (source.read maxLen).length
      idx := 0
      ordered := Nat.zero_le _
      bounded := source.short maxLen }
  else if buffer.idx ≠ 0 then buffer.compact.append source
  else buffer.append source

/-- How many bytes the next read may add. -/
def room (buffer : Buf64k) : Nat := maxLen - buffer.remaining

@[simp] theorem length_av (buffer : Buf64k) : buffer.av.length = buffer.remaining := by
  simp [av]

theorem getElem_av (buffer : Buf64k) {offset : Nat} (inside : offset < buffer.av.length) :
    buffer.av[offset] = buffer.byteAt offset := by
  simp [av, byteAt]

/-- What `av()` starts with is what stands at the front of the buffer. -/
theorem byteAt_of_av {buffer : Buf64k} {front rest : List Byte} {offset : Nat}
    (spelled : buffer.av = front ++ rest) (inside : offset < front.length) :
    buffer.byteAt offset = front[offset] := by
  have known : offset < buffer.av.length := by
    rw [spelled, List.length_append]
    omega
  rw [← getElem_av buffer known]
  simp [spelled, inside]

theorem av_advance (buffer : Buf64k) {n : Nat} (enough : n ≤ buffer.remaining) :
    (buffer.advance n enough).av = buffer.av.drop n := by
  apply List.ext_getElem
  · simp only [length_av, List.length_drop, remaining, advance]
    omega
  · intro offset inside _
    rw [getElem_av, List.getElem_drop, getElem_av]
    simp [byteAt, advance, Nat.add_assoc]

private theorem av_compact (buffer : Buf64k) : buffer.compact.av = buffer.av := by
  apply List.ext_getElem
  · simp [remaining, compact]
  · intro offset _ inside
    rw [getElem_av]
    simpa [byteAt, compact] using Buffer.cell_splice_inside buffer.buf 0 buffer.av inside

private theorem av_append (buffer : Buf64k) (source : PartialRead) :
    (buffer.append source).av = buffer.av ++ source.read (maxLen - buffer.len) := by
  have ordered := buffer.ordered
  apply List.ext_getElem
  · simp only [length_av, List.length_append, remaining, append]
    omega
  · intro offset inside _
    rw [getElem_av]
    by_cases old : offset < buffer.av.length
    · rw [List.getElem_append_left old, getElem_av]
      apply Buffer.cell_splice_before
      simp only [length_av, remaining] at old
      simp only [append]
      omega
    · have start : buffer.idx + offset = buffer.len + (offset - buffer.av.length) := by
        simp only [length_av, remaining] at old ⊢
        omega
      rw [List.getElem_append_right (Nat.le_of_not_lt old)]
      simp only [byteAt, append, start]
      exact Buffer.cell_splice_inside _ _ _ _

theorem av_readWith (buffer : Buf64k) (source : PartialRead) :
    (buffer.readWith source).av = buffer.av ++ source.read buffer.room := by
  unfold readWith
  split
  · rename_i consumed
    have none : buffer.av = [] := List.eq_nil_of_length_eq_zero (by simp [remaining, consumed])
    have whole : buffer.room = maxLen := by simp [room, remaining, consumed]
    rw [none, whole, List.nil_append]
    exact Buffer.slice_eq_of_getElem _ 0 _ fun index inside =>
      Buffer.cell_splice_inside buffer.buf 0 _ inside
  · split
    · rw [av_append, av_compact]
      rfl
    · have same : buffer.room = maxLen - buffer.len := by
        have : buffer.idx = 0 := by omega
        simp [room, remaining, this]
      rw [av_append, same]

end Buf64k

/-! Cutting a byte stream into X.224, fast-path and CredSSP packets. -/

inductive ErrorId where
  | x224
  | negoInconsistentFlags
  deriving DecidableEq, Repr

/-- The types of `Extractors`, by their numbers. -/
def fastpath : Nat := 1
def crTpdu : Nat := 0xE0
def ccTpdu : Nat := 0xD0
def drTpdu : Nat := 0x80
def dtTpdu : Nat := 0xF0
def erTpdu : Nat := 0x70

/-- The bytes of a big-endian `uint16_t`. -/
def uint16Be (high low : Byte) : Nat := high.toNat * 2 ^ 8 + low.toNat

/-- The members of `X224Extractor`. -/
structure X224Extractor where
  hasFastPath : Bool
  type : Nat
  deriving DecidableEq, Repr

/-- The two operations that `extract` needs. Only `X224Extractor` has members; a header that is
there gives a length of 16 bits. -/
structure Extractor where
  readHeader : X224Extractor → Buf64k → Except ErrorId (Option Nat) × X224Extractor
  prepareData : X224Extractor → Buf64k → Except ErrorId Unit × X224Extractor

namespace X224Extractor

/-- The length in a fast-path header, and how long the header is at least. -/
def fastPathLength (second third : Byte) : Nat × Nat :=
  if second &&& 0x80 ≠ 0 then ((second &&& 0x7F).toNat * 2 ^ 8 + third.toNat, 3)
  else (second.toNat, 2)

def readHeader (extractor : X224Extractor) (buf : Buf64k) :
    Except ErrorId (Option Nat) × X224Extractor :=
  -- a fast-path header has 2 or 3 bytes, and at least 2 bytes of data are assumed behind it
  if buf.remaining < 4 then (.ok none, extractor)
  else if buf.byteAt 0 &&& 0x03 = 0x0 then
    let (len, minLen) := fastPathLength (buf.byteAt 1) (buf.byteAt 2)
    if len < minLen then (.error .x224, extractor)
    else (.ok (some len), { hasFastPath := true, type := fastpath })
  else if buf.byteAt 0 &&& 0x03 = 0x3 then
    if buf.remaining < 6 then (.ok none, extractor)
    else
      let len := uint16Be (buf.byteAt 2) (buf.byteAt 3)
      if len < 6 then (.error .x224, extractor)
      else (.ok (some len), { extractor with hasFastPath := false })
  else (.error .x224, extractor)

/-- The type of a TPDU by its code. -/
def tpduType (code : Byte) : Option Nat :=
  if code &&& 0xF0 = 0xE0 then some crTpdu
  else if code &&& 0xF0 = 0xD0 then some ccTpdu
  else if code &&& 0xF0 = 0x80 then some drTpdu
  else if code &&& 0xF0 = 0xF0 then some dtTpdu
  else if code &&& 0xF0 = 0x70 then some erTpdu
  else none

def prepareData (extractor : X224Extractor) (buf : Buf64k) :
    Except ErrorId Unit × X224Extractor :=
  if extractor.hasFastPath then (.ok (), { extractor with type := fastpath })
  else
    match tpduType (buf.byteAt 5) with
    | some type => (.ok (), { extractor with type })
    | none => (.error .x224, { extractor with type := 0 })

def getType (extractor : X224Extractor) : Nat :=
  if extractor.hasFastPath then fastpath else extractor.type

end X224Extractor

def x224 : Extractor := ⟨X224Extractor.readHeader, X224Extractor.prepareData⟩

namespace CredsspExtractor

/-- The three encodings of a length; each is narrowed to a `uint16_t`. -/
def readHeader (buf : Buf64k) : Except ErrorId (Option Nat) :=
  if buf.remaining < 4 then .ok none
  else if buf.byteAt 1 ≤ 0x7F then .ok (some (((buf.byteAt 1).toNat + 2) % 2 ^ 16))
  else if buf.byteAt 1 = 0x81 then .ok (some (((buf.byteAt 2).toNat + 3) % 2 ^ 16))
  else if buf.byteAt 1 = 0x82 then
    .ok (some ((uint16Be (buf.byteAt 2) (buf.byteAt 3) + 4) % 2 ^ 16))
  else .error .negoInconsistentFlags

end CredsspExtractor

def credssp : Extractor :=
  ⟨fun members buf => (CredsspExtractor.readHeader buf, members), fun members _ => (.ok (), members)⟩

/-- `TpduType`. -/
inductive TpduType where
  | pdu
  | credssp
  deriving DecidableEq, Repr

def TpduType.extractor : TpduType → Extractor
  | .pdu => Tpdu.x224
  | .credssp => Tpdu.credssp

inductive StateRead where
  | header
  | data
  deriving DecidableEq, Repr

/-- Between two packets, the packet given out last is still in the buffer. -/
structure TpduBuffer where
  state : StateRead
  extractors : X224Extractor
  pduLen : Nat
  buf : Buf64k
  held : state = .header → pduLen ≤ buf.remaining

namespace TpduBuffer

/-- A new buffer; neither its array nor the union of extractors is set to anything. -/
def fresh (memory : Nat → Byte) (extractors : X224Extractor) : TpduBuffer where
  state := .header
  extractors
  pduLen := 0
  buf := .empty memory
  held := fun _ => Nat.zero_le _

def loadData (buffer : TpduBuffer) (source : PartialRead) : TpduBuffer where
  state := buffer.state
  extractors := buffer.extractors
  pduLen := buffer.pduLen
  buf := buffer.buf.readWith source
  held := fun header => by
    have kept := congrArg List.length (buffer.buf.av_readWith source)
    have := buffer.held header
    simp only [List.length_append, Buf64k.length_av] at kept
    omega

def currentPduBuffer (buffer : TpduBuffer) : List Byte := buffer.buf.av.take buffer.pduLen

def currentPduGetType (buffer : TpduBuffer) : Nat := buffer.extractors.getType

/-- The buffer with the current packet consumed. -/
def consumed (buffer : TpduBuffer) (header : buffer.state = .header) : Buf64k :=
  buffer.buf.advance buffer.pduLen (buffer.held header)

/-- What `extract` does between two packets, `buf` being what is left without the last. -/
def extractHeader (extractor : Extractor) (members : X224Extractor) (buf : Buf64k) :
    Except ErrorId Bool × TpduBuffer :=
  match extractor.readHeader members buf with
  | (.error error, extractors) =>
    (.error error, { state := .header, extractors, pduLen := 0, buf, held := fun _ => Nat.zero_le _ })
  | (.ok none, extractors) =>
    (.ok false, { state := .header, extractors, pduLen := 0, buf, held := fun _ => Nat.zero_le _ })
  | (.ok (some pduLen), extractors) =>
    if whole : pduLen ≤ buf.remaining then
      match extractor.prepareData extractors buf with
      | (.error error, extractors) =>
        (.error error, { state := .header, extractors, pduLen, buf, held := fun _ => whole })
      | (.ok (), extractors) =>
        (.ok true, { state := .header, extractors, pduLen, buf, held := fun _ => whole })
    else (.ok false, { state := .data, extractors, pduLen, buf, held := nofun })

/-- What `extract` does while a packet is incomplete. -/
def extractData (extractor : Extractor) (buffer : TpduBuffer) : Except ErrorId Bool × TpduBuffer :=
  if whole : buffer.pduLen ≤ buffer.buf.remaining then
    match extractor.prepareData buffer.extractors buffer.buf with
    | (.error error, extractors) =>
      (.error error, { buffer with state := .header, extractors, held := fun _ => whole })
    | (.ok (), extractors) =>
      (.ok true, { buffer with state := .header, extractors, held := fun _ => whole })
  else (.ok false, buffer)

/-- `extract`: false until a whole packet is there. What an error leaves behind stays. -/
def extract (extractor : Extractor) (buffer : TpduBuffer) : Except ErrorId Bool × TpduBuffer :=
  match state : buffer.state with
  | .header => extractHeader extractor buffer.extractors (buffer.consumed state)
  | .data => extractData extractor buffer

def next (buffer : TpduBuffer) (packet : TpduType) : Except ErrorId Bool × TpduBuffer :=
  buffer.extract packet.extractor

theorem next_header {buffer : TpduBuffer} (header : buffer.state = .header) (packet : TpduType) :
    buffer.next packet =
      extractHeader packet.extractor buffer.extractors (buffer.consumed header) := by
  unfold next extract
  split
  · rfl
  · rename_i data
    rw [header] at data
    cases data

theorem next_data {buffer : TpduBuffer} (data : buffer.state = .data) (packet : TpduType) :
    buffer.next packet = extractData packet.extractor buffer := by
  unfold next extract
  split
  · rename_i header
    rw [data] at header
    cases header
  · rfl

/-- The bytes that no packet given out so far, but the buffer, holds. -/
def pending (buffer : TpduBuffer) : List Byte :=
  match buffer.state with
  | .header => buffer.buf.av.drop buffer.pduLen
  | .data => buffer.buf.av

theorem av_consumed (buffer : TpduBuffer) (header : buffer.state = .header) :
    (buffer.consumed header).av = buffer.pending := by
  rw [consumed, Buf64k.av_advance, pending, header]

theorem pending_loadData (buffer : TpduBuffer) (source : PartialRead) :
    (buffer.loadData source).pending = buffer.pending ++ source.read buffer.buf.room := by
  cases header : buffer.state with
  | header =>
    have held : buffer.pduLen ≤ buffer.buf.av.length := by
      rw [Buf64k.length_av]
      exact buffer.held header
    simp only [pending, loadData, header, Buf64k.av_readWith, List.drop_append_of_le_length held]
  | data => simp only [pending, loadData, header, Buf64k.av_readWith]

end TpduBuffer

end Redemption.Tpdu
