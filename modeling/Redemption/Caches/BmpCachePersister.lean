import Redemption.Caches.SignedCache

/-! `BmpCachePersister`: the bitmaps of persistent caches on a disk. -/
namespace Redemption.Caches

open Redemption.Foundation

inductive PersisterError where
  /-- `ERR_PDBC_LOAD`. -/
  | pdbcLoad
  /-- A file that ends too early. -/
  | transportNoMoreData
  | assertion
  deriving DecidableEq, Repr

def BitsPerPixel.byte : BitsPerPixel → Byte
  | .bpp8 => 8
  | .bpp15 => 15
  | .bpp16 => 16
  | .bpp24 => 24
  | .bpp32 => 32

/-- The depth that a byte says; other ones fail an assertion. -/
def BitsPerPixel.ofByte (byte : Byte) : Checked PersisterError BitsPerPixel :=
  if byte = 8 then .ok .bpp8
  else if byte = 15 then .ok .bpp15
  else if byte = 16 then .ok .bpp16
  else if byte = 24 then .ok .bpp24
  else if byte = 32 then .ok .bpp32
  else .error (.raised .assertion)

def magic : List Byte := [0x50, 0x44, 0x42, 0x43]

def currentVersion : Byte := 1

/-- `sizeof(BGRPalette)`. -/
def paletteSize : Nat := 1024

section Save

/-- Bytes that are put into a stream of some capacity, after those that it has. -/
def outBytes (capacity : Nat) (stream bytes : List Byte) : Checked PersisterError (List Byte) :=
  if stream.length + bytes.length ≤ capacity then .ok (stream ++ bytes) else .error .outOfBounds

/-- The palette is only there with 8 bits per pixel. -/
def outPalette (stream : List Byte) (bmp : Bitmap) : Checked PersisterError (List Byte) :=
  if bmp.bpp = .bpp8 then outBytes 65535 stream bmp.palette else .ok stream

/-- What is sent for an element: what the stream has after `rewind`, and the data. -/
def saveBitmap (sig : Signature) (bmp : Bitmap) : Checked PersisterError (List Byte) := do
  let bmpSize := bmp.bmpSize % 2 ^ 16
  let stream ← outBytes 65535 [] (leBytes 8 sig.toNat)
  let stream ← outBytes 65535 stream [bmp.bpp.byte]
  let stream ← outBytes 65535 stream (leBytes 2 bmp.cx)
  let stream ← outBytes 65535 stream (leBytes 2 bmp.cy)
  let stream ← outPalette stream bmp
  let stream ← outBytes 65535 stream (leBytes 2 bmpSize)
  return stream ++ bmp.data.take bmpSize

variable {δ : Type} (config : Config) (state : SignedCache δ)

/-- The elements with a bitmap, in order. -/
def SignedCache.saved (id : Fin 5) : List (Signature × Bitmap) :=
  (List.range (state.size id)).filterMap (state.slot id)

def saveBitmaps : List (Signature × Bitmap) → Checked PersisterError (List Byte)
  | [] => .ok []
  | (sig, bmp) :: rest => do
    let first ← saveBitmap sig bmp
    let others ← saveBitmaps rest
    return first ++ others

def saveToDisk (id : Fin 5) : Checked PersisterError (List Byte) := do
  let bitmaps := if (config.options id).isPersistent then state.saved id else []
  let stream ← outBytes 65535 [] (leBytes 2 bitmaps.length)
  let bytes ← saveBitmaps bitmaps
  return stream ++ bytes

/-- The caches that are counted, from one on. -/
def saveCaches : List (Fin 5) → Checked PersisterError (List Byte)
  | [] => .ok []
  | id :: rest => do
    let first ← saveToDisk config state id
    let others ← saveCaches rest
    return first ++ others

def Config.ids : List (Fin 5) := (List.finRange 5).filter (·.val < config.numberOfCache)

def saveAllToDisk : Checked PersisterError (List Byte) := do
  let stream ← outBytes 128 [] magic
  let stream ← outBytes 128 stream [currentVersion]
  let bytes ← saveCaches config state config.ids
  return stream ++ bytes

end Save

section Load

/-- What is left of a file, and where the next bytes of it go in the buffer. -/
structure Disk where
  file : List Byte
  offset : Nat

/-- `recv_boom` to the end of what a buffer of some size has. -/
def Disk.recv (disk : Disk) (capacity count : Nat) :
    Checked PersisterError (List Byte × Disk) :=
  if capacity < disk.offset + count then .error .outOfBounds
  else if disk.file.length < count then .error (.raised .transportNoMoreData)
  else .ok (disk.file.take count, ⟨disk.file.drop count, disk.offset + count⟩)

/-- The buffer is used from its start again. -/
def Disk.rewind (disk : Disk) : Disk := { disk with offset := 0 }

/-- A bitmap of a file: its palette is the last one that was read. -/
structure DiskBitmap where
  sig : Signature
  bpp : BitsPerPixel
  cx : Nat
  cy : Nat
  palette : List Byte
  data : List Byte

/-- The palette that a bitmap of some depth comes with, or else the last one. -/
def readPalette (bpp : BitsPerPixel) (palette : List Byte) (disk : Disk) :
    Checked PersisterError (List Byte × Disk) :=
  if bpp = .bpp8 then disk.recv 65536 paletteSize else .ok (palette, disk)

/-- What both loops read for a bitmap. -/
def readBitmap (palette : List Byte) (disk : Disk) :
    Checked PersisterError (DiskBitmap × Disk) := do
  let (header, disk) ← disk.recv 65536 13
  let (sig, header) ← inLe 8 header
  let (byte, header) ← inUint8 header
  let bpp ← BitsPerPixel.ofByte byte
  let (cx, header) ← inLe 2 header
  let (cy, _) ← inLe 2 header
  let (palette, disk) ← readPalette bpp palette disk
  let (size, disk) ← disk.recv 65536 2
  let (bmpSize, _) ← inLe 2 size
  let (data, disk) ← disk.rewind.recv 65536 bmpSize
  return (⟨BitVec.ofNat 64 sig, bpp, cx, cy, palette, data⟩, disk)

/-- The lines of a bitmap, each with zeros up to the size of a line. -/
def copyLines (dataWidth lineSize : Nat) : Nat → List Byte → List Byte
  | 0, _ => []
  | lines + 1, src =>
    src.take dataWidth ++ List.replicate (lineSize - dataWidth) 0 ++
      copyLines dataWidth lineSize lines (src.drop dataWidth)

/-- `Bitmap` of data that is not compressed; behind the data that was received nothing is read. -/
def DiskBitmap.bitmap (disk : DiskBitmap) : Checked PersisterError Bitmap :=
  let dataWidth := disk.cx * nbBytesPerPixel disk.bpp
  let cx := align4 disk.cx % 2 ^ 16
  let lineSize := cx * nbBytesPerPixel disk.bpp
  if dataWidth * disk.cy ≤ disk.data.length ∧ dataWidth ≤ lineSize then
    .ok ⟨disk.bpp, cx, disk.cy, copyLines dataWidth lineSize disk.cy disk.data,
      if disk.bpp = .bpp8 then disk.palette else []⟩
  else .error .outOfBounds

/-- The first bytes of a file. -/
def readMagic (disk : Disk) : Checked PersisterError Disk := do
  let (stream, disk) ← disk.recv 16 5
  if stream.take 4 ≠ magic then .error (.raised .pdbcLoad)
  else if stream.drop 4 ≠ [currentVersion] then .error (.raised .pdbcLoad)
  else return disk.rewind

variable {δ : Type} [LinearOrder δ] (config : Config) (digest : Digest δ)

/-- The loop of `load_from_disk`, from a bitmap on. -/
def loadBitmaps (id : Fin 5) : Nat → Nat → List Byte → Disk → SignedCache δ →
    Checked PersisterError (Disk × SignedCache δ)
  | 0, _, _, disk, state => .ok (disk, state)
  | count + 1, i, palette, disk, state => do
    let (read, disk) ← readBitmap palette disk
    if (config.options id).isPersistent ∧ i < state.size id then
      let bmp ← read.bitmap
      loadBitmaps id count (i + 1) read.palette disk.rewind
        (state.put config digest id (BitVec.ofNat 16 i) bmp read.sig)
    else loadBitmaps id count (i + 1) read.palette disk.rewind state

def loadFromDisk (disk : Disk) (state : SignedCache δ) (id : Fin 5) :
    Checked PersisterError (Disk × SignedCache δ) := do
  let (stream, disk) ← disk.recv 65536 2
  let (bitmapCount, _) ← inLe 2 stream
  let (disk, state) ← loadBitmaps config digest id bitmapCount 0 digest.classic332 disk state
  return (disk.rewind, state)

def loadCaches : List (Fin 5) → Disk → SignedCache δ →
    Checked PersisterError (Disk × SignedCache δ)
  | [], disk, state => .ok (disk, state)
  | id :: rest, disk, state => do
    let (disk, state) ← loadFromDisk config digest disk state id
    loadCaches rest disk state

def loadAllFromDisk (file : List Byte) (state : SignedCache δ) :
    Checked PersisterError (SignedCache δ) := do
  let disk ← readMagic ⟨file, 0⟩
  let (_, state) ← loadCaches config digest config.ids disk state
  return state

end Load

section Preload

/-- `bmp_map`: the bitmaps of each cache by their signatures. -/
abbrev BmpMap := Fin 5 → Signature → Option Bitmap

def BmpMap.set (bmpMap : BmpMap) (id : Fin 5) (key : Signature) (bmp : Option Bitmap) : BmpMap :=
  Function.update bmpMap id (Function.update (bmpMap id) key bmp)

variable {δ : Type} [LinearOrder δ] (config : Config) (digest : Digest δ)

/-- The loop of `preload_from_disk`, from a bitmap on. -/
def preloadBitmaps (id : Fin 5) : Nat → List Byte → Disk → BmpMap →
    Checked PersisterError (Disk × BmpMap)
  | 0, _, disk, bmpMap => .ok (disk, bmpMap)
  | count + 1, palette, disk, bmpMap => do
    let (read, disk) ← readBitmap palette disk
    if (config.options id).isPersistent then
      if (bmpMap id read.sig).isSome then .error (.raised .assertion)
      let bmp ← read.bitmap
      if read.sig ≠ digest.signature (digest.sha1 bmp) then .error (.raised .assertion)
      preloadBitmaps id count read.palette disk.rewind (bmpMap.set id read.sig (some bmp))
    else preloadBitmaps id count read.palette disk.rewind bmpMap

def preloadFromDisk (disk : Disk) (bmpMap : BmpMap) (id : Fin 5) :
    Checked PersisterError (Disk × BmpMap) := do
  let (stream, disk) ← disk.recv 65536 2
  let (bitmapCount, _) ← inLe 2 stream
  let (disk, bmpMap) ← preloadBitmaps config digest id bitmapCount digest.classic332 disk bmpMap
  return (disk.rewind, bmpMap)

def preloadCaches : List (Fin 5) → Disk → BmpMap → Checked PersisterError (Disk × BmpMap)
  | [], disk, bmpMap => .ok (disk, bmpMap)
  | id :: rest, disk, bmpMap => do
    let (disk, bmpMap) ← preloadFromDisk config digest disk bmpMap id
    preloadCaches rest disk bmpMap

/-- The constructor. -/
def preload (file : List Byte) : Checked PersisterError BmpMap := do
  let disk ← readMagic ⟨file, 0⟩
  let (_, bmpMap) ← preloadCaches config digest config.ids disk (fun _ _ => none)
  return bmpMap

/-- `process_key_list`. -/
def processKeyList (id : Fin 5) : List Signature → Nat → SignedCache δ × BmpMap →
    Checked PersisterError (SignedCache δ × BmpMap)
  | [], _, both => .ok both
  | key :: rest, cacheIndex, (state, bmpMap) =>
    if cacheIndex < state.size id % 2 ^ 16 then
      if (state.slot id cacheIndex).isSome then .error (.raised .assertion)
      else match bmpMap id key with
        | some bmp =>
          processKeyList id rest (cacheIndex + 1)
            (state.put config digest id (BitVec.ofNat 16 cacheIndex) bmp key, bmpMap.set id key none)
        | none => processKeyList id rest (cacheIndex + 1) (state, bmpMap)
    else .ok (state, bmpMap)

/-- Lists of keys that come one after the other. -/
def processKeyLists (id : Fin 5) : List (List Signature) → Nat → SignedCache δ × BmpMap →
    Checked PersisterError (SignedCache δ × BmpMap)
  | [], _, both => .ok both
  | keys :: rest, firstEntryIndex, both => do
    let both ← processKeyList config digest id keys firstEntryIndex both
    processKeyLists id rest (firstEntryIndex + keys.length) both

end Preload

/-! A bitmap that is saved is read back. -/

/-- A bitmap that a file can hold: it has no padding, and its size fits in two bytes. -/
structure Storable (bmp : Bitmap) : Prop extends Genuine bmp where
  aligned : bmp.cx % 4 = 0
  small : bmp.bmpSize < 2 ^ 16

/-- The size of a palette is right. -/
def PaletteSized (bmp : Bitmap) : Prop :=
  bmp.palette.length = if bmp.bpp = .bpp8 then paletteSize else 0

section Bytes

variable {sig : Signature} {bmp : Bitmap}

/-- What is in a file for a bitmap. -/
def bitmapBytes (sig : Signature) (bmp : Bitmap) : List Byte :=
  (leBytes 8 sig.toNat ++ [bmp.bpp.byte] ++ leBytes 2 bmp.cx ++ leBytes 2 bmp.cy) ++ bmp.palette ++
    leBytes 2 (bmp.bmpSize % 2 ^ 16) ++ bmp.data.take (bmp.bmpSize % 2 ^ 16)

theorem saveBitmap_eq (palette : PaletteSized bmp) :
    saveBitmap sig bmp = .ok (bitmapBytes sig bmp) := by
  have out (stream bytes : List Byte) (room : stream.length + bytes.length ≤ 65535) :
      outBytes 65535 stream bytes = .ok (stream ++ bytes) := if_pos room
  have withPalette (stream : List Byte) (room : stream.length ≤ 100) :
      outPalette stream bmp = .ok (stream ++ bmp.palette) := by
    by_cases eight : bmp.bpp = .bpp8
    · rw [PaletteSized, if_pos eight, paletteSize] at palette
      rw [outPalette, if_pos eight, out _ _ (by omega)]
    · rw [PaletteSized, if_neg eight] at palette
      rw [outPalette, if_neg eight, List.length_eq_zero_iff.mp palette, List.append_nil]
  have short : bmp.palette.length ≤ 1024 := by
    rw [PaletteSized, paletteSize] at palette
    split at palette <;> omega
  rw [saveBitmap]
  simp only [out, withPalette, ok_bind, pure_ok, List.length_append, length_leBytes,
    List.length_singleton, List.length_nil, List.nil_append, Nat.reduceAdd, Nat.reduceLeDiff]
  rw [out _ _ (by simp only [List.length_append, length_leBytes, List.length_singleton]; omega)]
  rfl

theorem recv_append {front rest : List Byte} {capacity count offset : Nat}
    (length : front.length = count) (room : offset + count ≤ capacity) :
    Disk.recv ⟨front ++ rest, offset⟩ capacity count = .ok (front, ⟨rest, offset + count⟩) := by
  have inFile : ¬ (front ++ rest).length < count := by
    rw [List.length_append]
    omega
  rw [Disk.recv, if_neg (Nat.not_lt_of_le room), if_neg inFile, List.take_left' length,
    List.drop_left' length]

theorem ofByte_byte (bpp : BitsPerPixel) : BitsPerPixel.ofByte bpp.byte = .ok bpp := by
  cases bpp <;> rfl

/-- What is read of the bytes of a bitmap. -/
def diskBitmap (sig : Signature) (bmp : Bitmap) (palette : List Byte) : DiskBitmap :=
  ⟨sig, bmp.bpp, bmp.cx, bmp.cy, if bmp.bpp = .bpp8 then bmp.palette else palette, bmp.data⟩

theorem readBitmap_bitmapBytes (storable : Storable bmp) (palette rest : List Byte) {offset : Nat}
    (near : offset ≤ 2) :
    readBitmap palette ⟨bitmapBytes sig bmp ++ rest, offset⟩ =
      .ok (diskBitmap sig bmp palette, ⟨rest, bmp.bmpSize⟩) := by
  have size : bmp.bmpSize % 2 ^ 16 = bmp.bmpSize := Nat.mod_eq_of_lt storable.small
  have data : bmp.data.take bmp.bmpSize = bmp.data :=
    List.take_of_length_le (Nat.le_of_eq storable.data)
  have bytes : bitmapBytes sig bmp ++ rest =
      (leBytes 8 sig.toNat ++ (bmp.bpp.byte :: (leBytes 2 bmp.cx ++ leBytes 2 bmp.cy))) ++
        (bmp.palette ++ (leBytes 2 bmp.bmpSize ++ (bmp.data ++ rest))) := by
    rw [bitmapBytes, size, data]
    simp
  have header := @recv_append
    (leBytes 8 sig.toNat ++ (bmp.bpp.byte :: (leBytes 2 bmp.cx ++ leBytes 2 bmp.cy)))
    (bmp.palette ++ (leBytes 2 bmp.bmpSize ++ (bmp.data ++ rest))) 65536 13 offset
    (by simp) (by omega)
  have palettes (rest : List Byte) :
      readPalette bmp.bpp palette ⟨bmp.palette ++ rest, offset + 13⟩ =
        .ok (if bmp.bpp = .bpp8 then bmp.palette else palette,
          ⟨rest, offset + 13 + if bmp.bpp = .bpp8 then paletteSize else 0⟩) := by
    have length := storable.palette
    by_cases eight : bmp.bpp = .bpp8
    · rw [if_pos eight] at length
      rw [readPalette, if_pos eight, if_pos eight, if_pos eight]
      exact recv_append length (by rw [paletteSize]; omega)
    · rw [if_neg eight] at length
      rw [readPalette, if_neg eight, if_neg eight, if_neg eight,
        List.length_eq_zero_iff.mp length]
      rfl
  have last : inLe (ε := PersisterError) 2 (leBytes 2 bmp.bmpSize) = .ok (bmp.bmpSize, []) := by
    have whole := inLe_append (ε := PersisterError) 2 bmp.bmpSize []
    rw [List.append_nil, Nat.mod_eq_of_lt storable.small] at whole
    exact whole
  have height : inLe (ε := PersisterError) 2 (leBytes 2 bmp.cy) = .ok (bmp.cy, []) := by
    have whole := inLe_append (ε := PersisterError) 2 bmp.cy []
    rw [List.append_nil, Nat.mod_eq_of_lt storable.height] at whole
    exact whole
  have signature : BitVec.ofNat 64 (sig.toNat % 2 ^ (8 * 8)) = sig := by
    apply BitVec.eq_of_toNat_eq
    rw [BitVec.toNat_ofNat, Nat.mod_mod, Nat.mod_eq_of_lt sig.isLt]
  have fits : offset + 13 + (if bmp.bpp = .bpp8 then paletteSize else 0) + 2 ≤ 65536 := by
    rw [paletteSize]
    split <;> omega
  have width : bmp.cx % 2 ^ (8 * 2) = bmp.cx := Nat.mod_eq_of_lt storable.width
  have dataFits : 0 + bmp.bmpSize ≤ 65536 := by
    omega
  rw [bytes, readBitmap, header]
  simp only [ok_bind, inLe_append, inUint8, ofByte_byte, palettes, width, height, signature,
    recv_append (length_leBytes 2 bmp.bmpSize) fits, last, Disk.rewind,
    recv_append storable.data dataFits, pure_ok, Nat.zero_add]
  rfl

theorem copyLines_same (width lines : Nat) (src : List Byte) :
    copyLines width width lines src = src.take (width * lines) := by
  induction lines generalizing src with
  | zero => simp [copyLines]
  | succ lines ih =>
    rw [copyLines, Nat.sub_self, List.replicate_zero, List.append_nil, ih, Nat.mul_succ,
      Nat.add_comm, List.take_add]

theorem bitmap_diskBitmap (storable : Storable bmp) (palette : List Byte) :
    (diskBitmap sig bmp palette).bitmap = .ok bmp := by
  have aligned := storable.aligned
  have width := storable.width
  have cx : align4 bmp.cx % 2 ^ 16 = bmp.cx := by
    rw [align4, Nat.mod_eq_of_lt] <;> omega
  have size : bmp.cx * nbBytesPerPixel bmp.bpp * bmp.cy = bmp.data.length := storable.data.symm
  have same : (if (diskBitmap sig bmp palette).bpp = .bpp8 then
      (diskBitmap sig bmp palette).palette else []) = bmp.palette := by
    change (if bmp.bpp = .bpp8 then (diskBitmap sig bmp palette).palette else []) = bmp.palette
    by_cases eight : bmp.bpp = .bpp8
    · rw [if_pos eight, diskBitmap, if_pos eight]
    · have length := storable.palette
      rw [if_neg eight] at length
      rw [if_neg eight, List.length_eq_zero_iff.mp length]
  rw [DiskBitmap.bitmap, same]
  simp only [diskBitmap, cx, size, copyLines_same]
  rw [if_pos ⟨Nat.le_refl _, Nat.le_refl _⟩, List.take_length]

end Bytes

end Redemption.Caches
