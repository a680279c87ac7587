import Redemption.Rfx.BitStream

/-! `Rlgr::decode`. -/
namespace Redemption.Rfx

open Redemption.Foundation

inductive RlgrMode where
  | rlgr1
  | rlgr3
  deriving DecidableEq, Repr

namespace Rlgr

/-- `KPMAX` -/
def kpMax : Nat := 80

/-- `LSGR` -/
def lsGr : Nat := 3

/-- `UP_GR` -/
def upGr : Nat := 4

/-- `DN_GR` -/
def dnGr : Nat := 6

/-- `UQ_GR` -/
def uqGr : Nat := 3

/-- `DQ_GR` -/
def dqGr : Nat := 3

/-- A parameter is raised, to its maximum at most. -/
def up (param amount : Nat) : Nat := min (param + amount) kpMax

/-- A parameter is lowered, to zero at least. -/
def down (param amount : Nat) : Nat := param - amount

/-- The largest `int`. -/
def intMax : Nat := 2 ^ 31 - 1

/-- The `break` where so many bits are not there. -/
def need (nbits : Nat) : BitReaderM PUnit := do
  if (← get).getRemainingLength < nbits then throw .brk

/-- `cnt`: the leading bits of the next word, as far as there are any. -/
def countLeading (ones : Bool) (bs : InBitStream) : Nat :=
  min (lzcntS (if ones then ~~~ bs.peekBits 32 else bs.peekBits 32)) bs.getRemainingLength

/-- The loop over words of leading bits, of which there are not more than bytes. -/
def scanLoop (ones : Bool) : Nat → Nat → Nat → BitReaderM Nat
  | 0, _, vk => return vk
  | words + 1, cnt, vk => do
    if cnt = 32 ∧ 32 ≤ (← get).getRemainingLength then do
      InBitStream.shift 32
      let cnt := countLeading ones (← get)
      scanLoop ones words cnt (vk + cnt)
    else return vk

/-- Leading bits, and the bit behind them. -/
def scan (ones : Bool) : BitReaderM Nat := do
  let cnt := countLeading ones (← get)
  let vk ← scanLoop ones (← get).bytes.length cnt cnt
  InBitStream.shift (vk % 32)
  need 1
  InBitStream.shift 1
  return vk

/-- The parameters `k`, `kp`, `kr` and `krp`. -/
structure Params where
  k : Nat
  kp : Nat
  kr : Nat
  krp : Nat
  deriving DecidableEq, Repr

namespace Params

def initial : Params := ⟨1, 1 <<< lsGr, 1, 1 <<< lsGr⟩

def withKp (params : Params) (kp : Nat) : Params := { params with kp, k := kp >>> lsGr }

def withKrp (params : Params) (krp : Nat) : Params := { params with krp, kr := krp >>> lsGr }

end Params

/-- The loop that adds up a run. -/
def addRuns : Nat → Nat → Params → Except Stop (Nat × Params)
  | 0, run, params => .ok (run, params)
  | vk + 1, run, params =>
    if run + 1 <<< params.k ≤ intMax then
      addRuns vk (run + 1 <<< params.k) (params.withKp (up params.kp upGr))
    else .error .overflow

def readRun (params : Params) : BitReaderM (Nat × Params) := do
  let vk ← scan false
  let (run, params) ← addRuns vk 0 params
  need params.k
  let low ← InBitStream.getBits params.k
  if run + low.toNat ≤ intMax then return (run + low.toNat, params) else throw .overflow

/-- The update of `kr` and `krp` behind a code. -/
def updateKr (params : Params) (vk : Nat) : Params :=
  if vk = 0 then params.withKrp (down params.krp 2)
  else if vk ≠ 1 then params.withKrp (up params.krp vk)
  else params

/-- A code: what is behind sixteen bits of it is lost. -/
def readCode (params : Params) : BitReaderM (BitVec 16 × Params) := do
  let vk ← scan true
  need params.kr
  let low ← InBitStream.getBits params.kr
  return (low.setWidth 16 ||| BitVec.ofNat 16 (vk <<< params.kr), updateKr params vk)

/-- What is written in a turn of the loop: zeros, and the values behind them. -/
structure Written where
  zeros : Nat
  values : List (BitVec 16)
  deriving DecidableEq, Repr

/-- Run-length mode. -/
def readRunLength (params : Params) : BitReaderM (Params × Written) := do
  let (run, params) ← readRun params
  need 1
  let sign ← InBitStream.getBits 1
  let (code, params) ← readCode params
  let mag := if sign ≠ 0 then -(code + 1) else code + 1
  return (params.withKp (down params.kp dnGr), ⟨run, [mag]⟩)

/-- A value, of twice its size and its sign. -/
def magOf {width : Nat} (val : BitVec width) : BitVec 16 :=
  if val &&& 1 ≠ 0 then -(((val + 1) >>> 1).setWidth 16) else (val >>> 1).setWidth 16

/-- Golomb-Rice mode of `RLGR1`; `code + 1` is an `int`. -/
def readSingle (params : Params) : BitReaderM (Params × Written) := do
  let (code, params) ← readCode params
  if code = 0 then return (params.withKp (up params.kp uqGr), ⟨0, [0]⟩)
  else return (params.withKp (down params.kp dqGr), ⟨0, [magOf (code.setWidth 32)]⟩)

/-- Golomb-Rice mode of `RLGR3`; the code is counted as an `int16_t`. -/
def readPair (params : Params) : BitReaderM (Params × Written) := do
  let (code, params) ← readCode params
  let nIdx := if code ≠ 0 then 32 - lzcntS (code.signExtend 32) else 0
  need nIdx
  let val1 ← InBitStream.getBits nIdx
  let val2 := code.setWidth 32 - val1
  let params :=
    if val1 ≠ 0 ∧ val2 ≠ 0 then params.withKp (down params.kp (2 * dqGr))
    else if val1 = 0 ∧ val2 = 0 then params.withKp (up params.kp (2 * uqGr))
    else params
  return (params, ⟨0, [magOf val1, magOf val2]⟩)

/-- What a turn of the loop reads. -/
def readTurn (mode : RlgrMode) (params : Params) : BitReaderM (Params × Written) :=
  if params.k ≠ 0 then readRunLength params
  else
    match mode with
    | .rlgr1 => readSingle params
    | .rlgr3 => readPair params

/-- A value is written, where there is room for it. -/
def writeValue (dstSize : Nat) (out : List (BitVec 16)) (mag : BitVec 16) : List (BitVec 16) :=
  if out.length < dstSize then out ++ [mag] else out

/-- What a turn of the loop writes. -/
def write (dstSize : Nat) (out : List (BitVec 16)) (written : Written) : List (BitVec 16) :=
  let size := if out.length + written.zeros > dstSize then dstSize - out.length else written.zeros
  written.values.foldl (writeValue dstSize) (out ++ List.replicate size 0)

/-- The loop of `decode`: each turn takes bits. -/
def decodeLoop (mode : RlgrMode) (dstSize : Nat) :
    Nat → Params → InBitStream → List (BitVec 16) → Except Stop (List (BitVec 16))
  | 0, _, _, out => .ok out
  | turns + 1, params, bs, out =>
    if 0 < bs.getRemainingLength ∧ out.length < dstSize then
      match readTurn mode params bs with
      | .ok ((params, written), bs) =>
        decodeLoop mode dstSize turns params bs (write dstSize out written)
      | .error .brk => .ok out
      | .error stop => .error stop
    else .ok out

/-- `decode`: its result, and what it has written. -/
def decode (mode : RlgrMode) (src : List Byte) (dstSize : Nat) :
    Except Stop (Bool × List (BitVec 16)) :=
  if src.length = 0 ∨ dstSize = 0 then .ok (false, [])
  else do
    let out ← decodeLoop mode dstSize (8 * src.length) .initial (.ofBytes src) []
    let size := dstSize - out.length
    if size * 2 ≤ intMax then
      let out := out ++ List.replicate size 0
      return (out.length = dstSize, out)
    else .error .overflow

end Rlgr

end Redemption.Rfx
