import Redemption.Foundation.Buffer
import Redemption.Foundation.ByteStream

/-! `PatternSearcher`: compiles the kill and notify patterns and searches what a session shows
or types. The regex library is a parameter. -/
namespace Redemption.Capture

open Foundation

inductive PatternType where
  | reg
  | str
  | exactReg
  | exactStr
  deriving DecidableEq, Repr

inductive CaptureType where
  | unknown
  | ocr
  | kbd
  deriving DecidableEq, Repr

structure CapturePattern where
  isOcr : Bool
  isKbd : Bool
  patternType : PatternType
  pattern : List Byte
  deriving DecidableEq, Repr

/-- `is`; no flag answers to `unknown`. -/
def CapturePattern.is (pattern : CapturePattern) : CaptureType → Bool
  | .unknown => false
  | .ocr => pattern.isOcr
  | .kbd => pattern.isKbd

/-- `str_type_mask`. -/
def PatternType.isStr : PatternType → Bool
  | .str | .exactStr => true
  | .reg | .exactReg => false

/-- `exact_type_mask`. -/
def PatternType.isExact : PatternType → Bool
  | .exactReg | .exactStr => true
  | .reg | .str => false

/-- The characters `{}[]()|\^$.?+*`. -/
def escapedCharacters : List Byte :=
  [0x7B, 0x7D, 0x5B, 0x5D, 0x28, 0x29, 0x7C, 0x5C, 0x5E, 0x24, 0x2E, 0x3F, 0x2B, 0x2A]

def escape (patt : List Byte) : List Byte :=
  patt.flatMap fun c => if c ∈ escapedCharacters then [0x5C, c] else [c]

/-- What is written for a pattern before its terminating zero. -/
def CapturePattern.expressionText (pattern : CapturePattern) : List Byte :=
  let body := if pattern.patternType.isStr then escape pattern.pattern else pattern.pattern
  if pattern.patternType.isExact then [0x5E, 0x28] ++ body ++ [0x29, 0x24] else body

/-- A match the library finds: of which id, and where in the stream. -/
structure Hit where
  id : Nat
  start : Nat
  stop : Nat
  deriving DecidableEq, Repr

inductive Compiled where
  | success
  | failed (expression : Int)
  deriving DecidableEq, Repr

/-- The regex library: a call of `hs_compile_multi`, the matches of a scan of new data behind
the data the stream has seen, and the `from` that a match is reported with. -/
structure Hyperscan where
  compile : List (List Byte) → Compiled
  scan : List (List Byte) → List Byte → List Byte → List Hit
  som : Hit → BitVec 64

/-- A byte of a pointer in memory: the pointer it is of, and which of its eight bytes. -/
structure PointerByte where
  pointer : Nat
  index : Nat
  deriving DecidableEq, Repr

def pointerBytes (pointer : Nat) : List PointerByte := (List.range 8).map (⟨pointer, ·⟩)

inductive SearcherError where
  | assertion
  deriving DecidableEq, Repr

/-- Entries written one after the other to an array. -/
def fits (capacity written : Nat) : Checked SearcherError Unit :=
  if written ≤ capacity then .ok () else .error .outOfBounds

/-- The pointer in a slot of the table; bytes of different pointers make none. -/
def loadPointer (table : List PointerByte) (slot : Nat) : Checked SearcherError Nat :=
  match (table.drop (8 * slot)).take 8 with
  | [] => .error .outOfBounds
  | first :: rest =>
    if first :: rest = pointerBytes first.pointer then .ok first.pointer
    else .error .outOfBounds

/-- `memmove` of `count` bytes of the table. -/
def memmove (table : List PointerByte) (dest src count : Nat) :
    Checked SearcherError (List PointerByte) :=
  if max dest src + count ≤ table.length then
    .ok (table.take dest ++ (table.drop src).take count ++ table.drop (dest + count))
  else .error .outOfBounds

/-- The string at an offset of the block of expressions, up to its zero. -/
def cString (block : List Byte) (pointer : Nat) : Checked SearcherError (List Byte) :=
  if pointer < block.length then .ok ((block.drop pointer).takeWhile (· ≠ 0))
  else .error .outOfBounds

/-- The expressions the library sees in the first `count` slots. -/
def readExpressions (table : List PointerByte) (block : List Byte) (count : Nat) :
    Checked SearcherError (List (List Byte)) :=
  (List.range count).mapM fun slot => do
    let pointer ← loadPointer table slot
    cString block pointer

/-- `InternalPatternFound`. -/
structure InternalPatternFound where
  pattern : List Byte
  callId : BitVec 64
  offsetData : BitVec 64
  deriving DecidableEq, Repr

/-- What the loop that drops malformed patterns works on. -/
structure CompileArrays where
  expressions : List PointerByte
  internal : List InternalPatternFound
  nbPatternKill : Nat
  deriving DecidableEq, Repr

/-- The body of that loop, `nbPattern` being the number of patterns after it. -/
def removeMalformed (arrays : CompileArrays) (nbPattern pos : Nat) :
    Checked SearcherError CompileArrays := do
  -- The count is meant in entries, and `memmove` takes it in bytes.
  let count := (BitVec.ofNat 32 nbPattern - BitVec.ofNat 32 pos).toNat
  let moved ← memmove arrays.expressions (8 * pos) (8 * (pos + 1)) count
  let expressions ← memmove moved (8 * pos) (8 * nbPattern) 8
  match arrays.internal[nbPattern]? with
  | none => .error .outOfBounds
  | some last => .ok {
      expressions
      internal := arrays.internal.set pos last
      nbPatternKill :=
        if pos < arrays.nbPatternKill then arrays.nbPatternKill - 1 else arrays.nbPatternKill }

/-- What the compilation leaves: the arrays, how many patterns remain, and the database. -/
structure Compilation where
  arrays : CompileArrays
  nbPattern : Nat
  db : Option (List (List Byte))
  deriving DecidableEq, Repr

/-- What a call of `hs_compile_multi` leads to: the constructor goes on, with the database or
without one, or it drops an entry. -/
inductive Attempt where
  | done (db : Option (List (List Byte)))
  | malformed (pos : Nat)
  deriving DecidableEq, Repr

/-- The call of `hs_compile_multi` for the first `nbPattern` entries. -/
def compileMulti (hs : Hyperscan) (block : List Byte) (arrays : CompileArrays) (nbPattern : Nat) :
    Checked SearcherError Attempt := do
  let expressions ← readExpressions arrays.expressions block nbPattern
  match hs.compile expressions with
  | .success => .ok (.done (some expressions))
  | .failed expression =>
    if expression < 0 then .ok (.done none) else .ok (.malformed expression.toNat)

/-- The loop around that call. -/
def compileLoop (hs : Hyperscan) (block : List Byte) (arrays : CompileArrays) :
    Nat → Checked SearcherError Compilation
  | 0 => do
    match ← compileMulti hs block arrays 0 with
    | .done db => .ok ⟨arrays, 0, db⟩
    | .malformed _ => .error .outOfBounds
  | nbPattern + 1 => do
    match ← compileMulti hs block arrays (nbPattern + 1) with
    | .done db => .ok ⟨arrays, nbPattern + 1, db⟩
    | .malformed pos =>
      match removeMalformed arrays nbPattern pos with
      | .error fault => .error fault
      | .ok arrays => compileLoop hs block arrays nbPattern

/-- The pointers to the strings of a block that starts with those of `patterns`. -/
def pointersFrom (offset : Nat) : List CapturePattern → List Nat
  | [] => []
  | pattern :: rest =>
    offset :: pointersFrom (offset + pattern.expressionText.length + 1) rest

/-- The expressions, each with its zero. -/
def expressionBlock (patterns : List CapturePattern) : List Byte :=
  patterns.flatMap fun pattern => pattern.expressionText ++ [0]

/-- `PatternFound`. -/
structure PatternFound where
  pattern : List Byte
  id : Nat
  isPatternKill : Bool
  matchLen : BitVec 64
  deriving DecidableEq, Repr

/-- `PatternSearcher::D`. A stream is the data it has seen since its last reset; `capacity` is
the number of entries that the two result arrays were allocated with. -/
structure PatternSearcher where
  nbCall : BitVec 64
  totalLen : BitVec 64
  db : Option (List (List Byte))
  streams : List (List Byte)
  internal : List InternalPatternFound
  capacity : Nat
  nbPattern : Nat
  nbPatternKill : Nat
  isKbd : Bool
  deriving DecidableEq, Repr

/-- The patterns of the searched type, those to kill first. -/
def selectedPatterns (kill notify : List CapturePattern) (capType : CaptureType) :
    List CapturePattern :=
  (kill ++ notify).filter (·.is capType)

namespace PatternSearcher

/-- The searcher once the patterns are compiled; there are streams only with a database. -/
def opened (isKbd : Bool) (len : Nat) (compiled : Compilation) : PatternSearcher where
  nbCall := 0
  totalLen := 0
  db := compiled.db
  streams := if isKbd ∧ compiled.db.isSome then List.replicate compiled.nbPattern [] else []
  internal := compiled.arrays.internal
  capacity := len
  nbPattern := compiled.nbPattern
  nbPatternKill := compiled.arrays.nbPatternKill
  isKbd := isKbd

/-- The constructor; `none` is the searcher that holds nothing. -/
def construct (hs : Hyperscan) (kill notify : List CapturePattern) (capType : CaptureType) :
    Checked SearcherError (Option PatternSearcher) :=
  let selected := selectedPatterns kill notify capType
  let nbKill := BitVec.ofNat 32 (kill.filter (·.is capType)).length
  let isKbd := capType == .kbd
  let len := (BitVec.ofNat 32 selected.length).toNat
  let strLen := (selected.map (·.pattern.length)).sum
  let transformedStrLen := (selected.map fun pattern =>
    (if pattern.patternType.isStr then pattern.pattern.length else 0) +
      (if pattern.patternType.isExact then 4 else 0)).sum + strLen
  if len = 0 then .ok none
  else do
    fits len selected.length
    fits (strLen + len) (selected.map (·.pattern.length + 1)).sum
    fits (transformedStrLen + len) (expressionBlock selected).length
    let arrays : CompileArrays := {
      expressions := (pointersFrom 0 selected).flatMap pointerBytes
      internal := selected.map fun pattern => ⟨pattern.pattern, 0, 0⟩
      nbPatternKill := nbKill.toNat }
    let compiled ← compileLoop hs (expressionBlock selected) arrays len
    .ok (some (opened isKbd len compiled))

/-- What a scan reads and writes through the context of its callback. -/
structure Ctx where
  scanResults : List PatternFound
  internal : List InternalPatternFound
  deriving DecidableEq, Repr

/-- The streams' callback passes over the ids of other streams. -/
def skips (streamId : Option Nat) (hit : Hit) : Bool :=
  match streamId with
  | none => false
  | some streamId => hit.id != streamId

/-- `matcher`. -/
def matcher (hs : Hyperscan) (d : PatternSearcher) (callId : BitVec 64) (streamId : Option Nat)
    (ctx : Ctx) (hit : Hit) : Checked SearcherError Ctx :=
  if skips streamId hit then .ok ctx
  else
    match ctx.internal[hit.id]? with
    | none => .error .outOfBounds
    | some cache =>
      if cache.callId = callId then .ok ctx
      else if ctx.scanResults.length < d.capacity then
        .ok {
          scanResults := ctx.scanResults ++
            [⟨cache.pattern, hit.id, hit.id < d.nbPatternKill, hs.som hit⟩]
          internal := ctx.internal.set hit.id { cache with callId := callId } }
      else .error .outOfBounds

/-- The matches of a scan by the library; without a database it refuses to scan. -/
def hits (hs : Hyperscan) (d : PatternSearcher) (stream str : List Byte) : List Hit :=
  match d.db with
  | none => []
  | some db => hs.scan db stream str

/-- `hs_scan_stream` for every stream, each under its own id. -/
def scanStreams (hs : Hyperscan) (d : PatternSearcher) (callId : BitVec 64) (str : List Byte) :
    Nat → List (List Byte) → Ctx → Checked SearcherError Ctx
  | _, [], ctx => .ok ctx
  | streamId, stream :: rest, ctx =>
    match (d.hits hs stream str).foldlM (matcher hs d callId (some streamId)) ctx with
    | .error fault => .error fault
    | .ok ctx => scanStreams hs d callId str (streamId + 1) rest ctx

/-- The loop over the results: each stream that matched starts over. -/
def finishStreams (totalLen : BitVec 64) : List PatternFound → List (List Byte) →
    List InternalPatternFound →
    Checked SearcherError (List PatternFound × List (List Byte) × List InternalPatternFound)
  | [], streams, internal => .ok ([], streams, internal)
  | patt :: rest, streams, internal =>
    if patt.id < streams.length then
      match internal[patt.id]? with
      | none => .error .outOfBounds
      | some result => do
        let matchLen := totalLen - (patt.matchLen + result.offsetData)
        let (found, streams, internal) ← finishStreams totalLen rest (streams.set patt.id [])
          (internal.set patt.id { result with offsetData := totalLen })
        .ok ({ patt with matchLen } :: found, streams, internal)
    else .error .outOfBounds

/-- `scan`. -/
def scan (hs : Hyperscan) (d : PatternSearcher) (str : List Byte) :
    Checked SearcherError (List PatternFound × PatternSearcher) :=
  let callId := d.nbCall + 1
  let ctx : Ctx := ⟨[], d.internal⟩
  if ¬str.length < 2 ^ 32 then .error (.raised .assertion)
  else if d.isKbd then do
    let ctx ← scanStreams hs d callId str 0 d.streams ctx
    let totalLen := d.totalLen + BitVec.ofNat 64 str.length
    let (found, streams, internal) ←
      finishStreams totalLen ctx.scanResults (d.streams.map (· ++ str)) ctx.internal
    .ok (found, { d with nbCall := callId, totalLen, streams, internal })
  else do
    let ctx ← (d.hits hs [] str).foldlM (matcher hs d callId none) ctx
    .ok (ctx.scanResults, { d with nbCall := callId, internal := ctx.internal })

/-- `reset_kbd_streams`: one entry of the results a stream. -/
def resetKbdStreams (d : PatternSearcher) : PatternSearcher :=
  { d with
    streams := d.streams.map fun _ => []
    internal := (d.internal.take d.streams.length).map
        (fun result => { result with offsetData := d.totalLen }) ++
      d.internal.drop d.streams.length }

end PatternSearcher

end Redemption.Capture
