import Redemption.Rfx.Rlgr

/-! What the decoder reads of the bits before it, however they lie in words and bytes. -/
namespace Redemption.Rfx

open Redemption.Foundation

namespace InBitStream

variable {bs : InBitStream}

theorem getBits_ok (sane : bs.Sane) {nbits : Nat} (enough : nbits ≤ bs.bits.length) :
    ∃ later, getBits nbits bs = .ok (BitVec.ofNat 32 (bitsValue (bs.bits.take nbits)), later) ∧
      later.Sane ∧ later.bits = bs.bits.drop nbits := by
  obtain ⟨ret, later, picked, sane', drop, value⟩ := pick_spec sane nbits 0
  have none : nbits - bs.bits.length = 0 := Nat.sub_eq_zero_of_le enough
  rw [none] at picked
  have same : ret = BitVec.ofNat 32 (bitsValue (bs.bits.take nbits)) := by
    apply BitVec.eq_of_toNat_eq
    rw [value, BitVec.toNat_ofNat]
    change (0 * _ + _) % _ = _
    rw [Nat.zero_mul, Nat.zero_add]
  refine ⟨later, ?_, sane', drop⟩
  rw [getBits, picked, same]

theorem shift_ok (sane : bs.Sane) {nbits : Nat} (enough : nbits ≤ bs.bits.length) :
    ∃ later, shift nbits bs = .ok (⟨⟩, later) ∧ later.Sane ∧ later.bits = bs.bits.drop nbits := by
  obtain ⟨later, picked, sane', drop⟩ := getBits_ok sane enough
  refine ⟨later, ?_, sane', drop⟩
  rw [shift]
  change (getBits nbits bs >>= fun p => _) = _
  rw [picked]
  rfl

theorem peekBits_toNat (sane : bs.Sane) :
    (bs.peekBits 32).toNat =
      bitsValue (bs.bits.take 32 ++ List.replicate (32 - bs.bits.length) false) := by
  obtain ⟨ret, later, picked, _, _, value⟩ := pick_spec sane 32 0
  have small := bitsValue_lt (bs.bits.take 32 ++ List.replicate (32 - bs.bits.length) false)
  have length : (bs.bits.take 32 ++ List.replicate (32 - bs.bits.length) false).length = 32 := by
    rw [List.length_append, List.length_take, List.length_replicate]
    omega
  have small' := bitsValue_lt (bs.bits.take 32)
  have fits : bitsValue (bs.bits.take 32) < 2 ^ 32 :=
    small'.trans_le (Nat.pow_le_pow_right (by decide) (List.length_take_le 32 _))
  change _ = (0 * _ + _) % _ at value
  rw [Nat.zero_mul, Nat.zero_add, Nat.mod_eq_of_lt fits] at value
  rw [length, bitsValue_append, bitsValue_replicate_false, List.length_replicate,
    Nat.add_zero] at small
  rw [peekBits, picked, bitsValue_append, bitsValue_replicate_false, List.length_replicate,
    Nat.add_zero]
  rw [BitVec.toNat_shiftLeft, value, Nat.shiftLeft_eq, Nat.mod_eq_of_lt small]

end InBitStream

namespace Rlgr

variable {bs : InBitStream}

/-- The bits that are counted in a word are those that lead the bits before the stream. -/
theorem countLeading_eq (sane : bs.Sane) (ones : Bool) :
    countLeading ones bs = lead ones (bs.bits.take 32) := by
  have value := InBitStream.peekBits_toNat sane
  have length : (bs.bits.take 32 ++ List.replicate (32 - bs.bits.length) false).length = 32 := by
    rw [List.length_append, List.length_take, List.length_replicate]
    omega
  have count : lzcntS (if ones then ~~~ bs.peekBits 32 else bs.peekBits 32) =
      lead ones (bs.bits.take 32 ++ List.replicate (32 - bs.bits.length) false) := by
    cases ones with
    | false => exact lzcntS_eq length value
    | true =>
      have opposite := bitsValue_not
        (bs.bits.take 32 ++ List.replicate (32 - bs.bits.length) false)
      rw [length, ← value] at opposite
      rw [if_pos rfl, ← Bool.not_false, ← lead_map_not]
      apply lzcntS_eq
      · rw [List.length_map, length]
      · rw [BitVec.toNat_not]
        omega
  have le := lead_le ones (bs.bits.take 32)
  rw [List.length_take] at le
  rw [countLeading, count, ← InBitStream.length_bits sane, lead_append, List.length_take]
  by_cases within : lead ones (bs.bits.take 32) < min 32 bs.bits.length
  · rw [if_pos within]
    omega
  · rw [if_neg within]
    have pad := lead_le ones (List.replicate (32 - bs.bits.length) false)
    rw [List.length_replicate] at pad
    omega

theorem bytes_lt {later : InBitStream} (sane : bs.Sane) (sane' : later.Sane)
    (rest : later.bits = bs.bits.drop 32) (enough : 32 ≤ bs.bits.length) :
    later.bytes.length < bs.bytes.length := by
  have before := InBitStream.length_bits sane
  have after := InBitStream.length_bits sane'
  have small := sane.small
  rw [rest, List.length_drop] at after
  rw [InBitStream.getRemainingLength] at before after
  omega

/-- The words of leading bits are passed by, and what is left is less than a word. -/
theorem scanLoop_spec (ones : Bool) {words cnt vk : Nat} (sane : bs.Sane)
    (enough : bs.bytes.length ≤ words) (counted : cnt = min 32 (lead ones bs.bits)) :
    ∃ passed later, scanLoop ones words cnt vk bs = .ok (vk + (lead ones bs.bits - cnt), later) ∧
      later.Sane ∧ later.bits = bs.bits.drop (32 * passed) ∧ 32 * passed ≤ lead ones bs.bits ∧
      lead ones bs.bits < 32 * passed + 32 := by
  have le := lead_le ones bs.bits
  have remaining := InBitStream.length_bits sane
  induction words generalizing cnt vk bs with
  | zero =>
    have short : bs.bits.length < 32 := by
      have small := sane.small
      rw [remaining, InBitStream.getRemainingLength]
      omega
    refine ⟨0, bs, ?_, sane, rfl, Nat.zero_le _, by omega⟩
    have all : lead ones bs.bits - cnt = 0 := by omega
    rw [all]
    rfl
  | succ words ih =>
    have run : scanLoop ones (words + 1) cnt vk bs =
        (if cnt = 32 ∧ 32 ≤ bs.getRemainingLength then
          InBitStream.shift 32 >>= fun _ => get >>= fun bs =>
            scanLoop ones words (countLeading ones bs) (vk + countLeading ones bs)
          else pure vk : BitReaderM Nat) bs := rfl
    rw [run]
    by_cases more : cnt = 32 ∧ 32 ≤ bs.getRemainingLength
    · have word : 32 ≤ bs.bits.length := by
        rw [remaining]
        exact more.2
      obtain ⟨next, shifted, sane', rest⟩ := InBitStream.shift_ok sane word
      have whole : 32 ≤ lead ones bs.bits := by omega
      have left : lead ones next.bits = lead ones bs.bits - 32 := by
        rw [rest]
        exact lead_drop ones whole
      have fewer := bytes_lt sane sane' rest word
      have count := countLeading_eq sane' ones
      rw [lead_take] at count
      obtain ⟨passed, later, looped, sane'', drop, low, high⟩ :=
        @ih next (countLeading ones next) (vk + countLeading ones next) sane'
          (Nat.le_of_lt_succ (fewer.trans_le enough)) count (lead_le _ _)
          (InBitStream.length_bits sane')
      have total : vk + countLeading ones next + (lead ones next.bits - countLeading ones next) =
          vk + (lead ones bs.bits - cnt) := by omega
      rw [if_pos more, stateT_bind shifted, ← total]
      refine ⟨passed + 1, later, looped, sane'', ?_, by omega, by omega⟩
      rw [drop, rest, List.drop_drop]
      congr 1
      omega
    · have all : lead ones bs.bits - cnt = 0 := by omega
      rw [if_neg more, all]
      exact ⟨0, bs, rfl, sane, rfl, Nat.zero_le _, by omega⟩

/-- A method reads what a reader at the front of the bits does, and breaks where there are too
few. -/
abbrev Reads {α : Type} (method : BitReaderM α) (front : FrontReader Stop Bool α) : Prop :=
  Follows InBitStream.bits id .brk InBitStream.Sane InBitStream.Sane method front

namespace Front

/-- So many bits, as a number. -/
def bits (nbits : Nat) : FrontReader Stop Bool (BitVec 32) :=
  (FrontReader.cells nbits).andThen fun bits => .give (BitVec.ofNat 32 (bitsValue bits))

/-- Leading bits, and one behind them. -/
def unary (is : Bool) : FrontReader Stop Bool Nat := fun stream =>
  match stream.drop (lead is stream) with
  | [] => .ok none
  | _ :: rest => .ok (some (lead is stream, rest))

/-- What takes no bits. -/
def lift {α : Type} (result : Except Stop α) : FrontReader Stop Bool α := fun stream =>
  result.map fun value => some (value, stream)

end Front

theorem reads_need {nbits : Nat} {α : Type} {method : BitReaderM α}
    {front : FrontReader Stop Bool α}
    (reads : Follows InBitStream.bits id .brk (fun bs => bs.Sane ∧ nbits ≤ bs.bits.length)
      InBitStream.Sane method front) :
    Reads (need nbits >>= fun _ => method) (FrontReader.guard nbits front) := by
  apply Follows.guard _ reads
  intro bs sane
  have run : need nbits bs = (if bs.getRemainingLength < nbits then throw .brk else pure ⟨⟩ :
    BitReaderM PUnit) bs := rfl
  rw [run, InBitStream.length_bits sane]
  by_cases short : bs.getRemainingLength < nbits
  · rw [if_pos short, if_pos short]
    rfl
  · rw [if_neg short, if_neg short]
    refine ⟨bs, rfl, ⟨sane, ?_⟩, rfl⟩
    rw [InBitStream.length_bits sane]
    exact Nat.le_of_not_lt short

theorem reads_getBits (nbits : Nat) :
    Reads (need nbits >>= fun _ => InBitStream.getBits nbits) (Front.bits nbits) := by
  have same : FrontReader.guard nbits (Front.bits nbits) = Front.bits nbits :=
    FrontReader.guard_cells_andThen
  rw [← same]
  apply reads_need
  intro bs ⟨sane, enough⟩
  obtain ⟨later, picked, sane', drop⟩ := InBitStream.getBits_ok sane enough
  have taken : Front.bits nbits bs.bits = .ok (some
      (BitVec.ofNat 32 (bitsValue (bs.bits.take nbits)), bs.bits.drop nbits)) :=
    FrontReader.andThen_some (FrontReader.guard_enough enough)
  rw [taken]
  exact ⟨later, picked, sane', drop⟩

theorem reads_scan (ones : Bool) : Reads (scan ones) (Front.unary ones) := by
  intro bs sane
  have count := countLeading_eq sane ones
  rw [lead_take] at count
  obtain ⟨passed, looped, loop, sane', drop, low, high⟩ :=
    @scanLoop_spec bs ones bs.bytes.length (countLeading ones bs) (countLeading ones bs) sane
      (Nat.le_refl _) count
  have all : countLeading ones bs + (lead ones bs.bits - countLeading ones bs) =
      lead ones bs.bits := by omega
  have le := lead_le ones bs.bits
  have within : lead ones bs.bits % 32 ≤ looped.bits.length := by
    rw [drop, List.length_drop]
    omega
  obtain ⟨ended, shifted, sane'', rest⟩ := InBitStream.shift_ok sane' within
  have behind : ended.bits = bs.bits.drop (lead ones bs.bits) := by
    rw [rest, drop, List.drop_drop]
    congr 1
    omega
  have run : scan ones bs = (need 1 >>= fun _ => InBitStream.shift 1 >>= fun _ =>
      pure (lead ones bs.bits) : BitReaderM Nat) ended := by
    rw [all] at loop
    change (scanLoop ones bs.bytes.length (countLeading ones bs) (countLeading ones bs) >>= fun vk =>
      InBitStream.shift (vk % 32) >>= fun _ => need 1 >>= fun _ => InBitStream.shift 1 >>= fun _ =>
        pure vk) bs = _
    rw [stateT_bind loop, stateT_bind shifted]
  have last : Reads (need 1 >>= fun _ => InBitStream.shift 1 >>= fun _ =>
      pure (lead ones bs.bits) : BitReaderM Nat)
      ((Front.bits 1).andThen fun _ => FrontReader.give (lead ones bs.bits)) := by
    have steps : (need 1 >>= fun _ => InBitStream.shift 1 >>= fun _ =>
        pure (lead ones bs.bits) : BitReaderM Nat) =
        ((need 1 >>= fun _ => InBitStream.getBits 1) >>= fun _ => pure (lead ones bs.bits)) := by
      simp only [InBitStream.shift, bind_assoc, pure_bind]
    rw [steps]
    exact (reads_getBits 1).bind fun _ => Follows.give _
  have said := last ended sane''
  rw [run, Front.unary]
  rw [behind] at said
  cases front : bs.bits.drop (lead ones bs.bits) with
  | nil =>
    rw [front] at said
    exact said
  | cons bit rest =>
    rw [front] at said
    exact said

theorem reads_lift {α : Type} (result : Except Stop α) :
    Reads (liftM result : BitReaderM α) (Front.lift result) := by
  intro bs sane
  cases result with
  | error stop => rfl
  | ok value => exact ⟨bs, rfl, sane, rfl⟩

namespace Front

/-- What stops behind the bits that have been read. -/
def stop {α : Type} (stop : Stop) : FrontReader Stop Bool α := fun _ => .error stop

def run (params : Params) : FrontReader Stop Bool (Nat × Params) :=
  (unary false).andThen fun vk => (lift (addRuns vk 0 params)).andThen fun (run, params) =>
    (bits params.k).andThen fun low =>
      if run + low.toNat ≤ intMax then .give (run + low.toNat, params) else stop .overflow

def code (params : Params) : FrontReader Stop Bool (BitVec 16 × Params) :=
  (unary true).andThen fun vk => (bits params.kr).andThen fun low =>
    .give (low.setWidth 16 ||| BitVec.ofNat 16 (vk <<< params.kr), updateKr params vk)

def runLength (params : Params) : FrontReader Stop Bool (Params × Written) :=
  (run params).andThen fun (run, params) => (bits 1).andThen fun sign =>
    (code params).andThen fun (code, params) =>
      .give (params.withKp (down params.kp dnGr),
        ⟨run, [if sign ≠ 0 then -(code + 1) else code + 1]⟩)

def single (params : Params) : FrontReader Stop Bool (Params × Written) :=
  (code params).andThen fun (code, params) =>
    if code = 0 then .give (params.withKp (up params.kp uqGr), ⟨0, [0]⟩)
    else .give (params.withKp (down params.kp dqGr), ⟨0, [magOf (code.setWidth 32)]⟩)

/-- The bits of the first value of a pair. -/
def pairBits (code : BitVec 16) : Nat :=
  if code ≠ 0 then 32 - lzcntS (code.signExtend 32) else 0

/-- The parameters behind a pair. -/
def pairParams (params : Params) (val1 val2 : BitVec 32) : Params :=
  if val1 ≠ 0 ∧ val2 ≠ 0 then params.withKp (down params.kp (2 * dqGr))
  else if val1 = 0 ∧ val2 = 0 then params.withKp (up params.kp (2 * uqGr))
  else params

def pair (params : Params) : FrontReader Stop Bool (Params × Written) :=
  (code params).andThen fun (code, params) => (bits (pairBits code)).andThen fun val1 =>
    .give (pairParams params val1 (code.setWidth 32 - val1),
      ⟨0, [magOf val1, magOf (code.setWidth 32 - val1)]⟩)

def turn (mode : RlgrMode) (params : Params) : FrontReader Stop Bool (Params × Written) :=
  if params.k ≠ 0 then runLength params
  else
    match mode with
    | .rlgr1 => single params
    | .rlgr3 => pair params

end Front

theorem reads_bits {nbits : Nat} {α : Type} {next : BitVec 32 → BitReaderM α}
    {front : BitVec 32 → FrontReader Stop Bool α} (reads : ∀ value, Reads (next value) (front value)) :
    Reads (need nbits >>= fun _ => InBitStream.getBits nbits >>= next)
      ((Front.bits nbits).andThen front) := by
  rw [← bind_assoc]
  exact (reads_getBits nbits).bind reads

theorem reads_stop {α : Type} (stop : Stop) :
    Reads (throw stop : BitReaderM α) (Front.stop stop) := fun _ _ => rfl

theorem reads_readRun (params : Params) : Reads (readRun params) (Front.run params) := by
  apply (reads_scan false).bind
  intro vk
  apply (reads_lift (addRuns vk 0 params)).bind
  intro (run, params)
  apply reads_bits
  intro low
  apply Follows.ite
  · intro _
    exact Follows.give _
  · intro _
    exact reads_stop .overflow

theorem reads_readCode (params : Params) : Reads (readCode params) (Front.code params) := by
  apply (reads_scan true).bind
  intro vk
  apply reads_bits
  intro low
  exact Follows.give _

theorem reads_readTurn (mode : RlgrMode) (params : Params) :
    Reads (readTurn mode params) (Front.turn mode params) := by
  apply Follows.ite
  · intro _
    apply (reads_readRun params).bind
    intro (run, params)
    apply reads_bits
    intro sign
    apply (reads_readCode params).bind
    intro (code, params)
    exact Follows.give _
  · intro _
    cases mode with
    | rlgr1 =>
      apply (reads_readCode params).bind
      intro (code, params)
      apply Follows.ite
      · intro _
        exact Follows.give _
      · intro _
        exact Follows.give _
    | rlgr3 =>
      apply (reads_readCode params).bind
      intro (code, params)
      apply reads_bits
      intro val1
      exact Follows.give _

end Rlgr

end Redemption.Rfx

/-! A reference encoder of RLGR1 and RLGR3: the parameters evolve as those of the decoder do. -/
namespace Redemption.Rfx.Rlgr.Encoder

open Redemption.Foundation

abbrev Coefficient := BitVec 16

def magnitude (value : Coefficient) : Nat :=
  if value.msb then 2 ^ 16 - value.toNat else value.toNat

/-- `Get2MagSign`: twice the size, less one for a negative value. -/
def twoMagSign (value : Coefficient) : Nat :=
  2 * magnitude value - value.msb.toNat

/-- `GetMinBits`. -/
def minBits (value : Nat) : Nat := if value = 0 then 0 else value.log2 + 1

/-- `CodeGR`: a unary part, and a remainder; the parameter `krp` behind it. -/
def codeGr (krp value : Nat) : List Bool × Nat :=
  let kr := krp >>> lsGr
  let vk := value >>> kr
  (List.replicate vk true ++ [false] ++ bitsOf kr value,
    if vk = 0 then down krp 2 else if vk ≠ 1 then up krp vk else krp)

/-- The zero bits of a run, the parameter `kp` behind them, and what remains of the run. -/
def outputRun : Nat → Nat → Nat → Nat × Nat × Nat
  | 0, kp, numZeros => (0, kp, numZeros)
  | turns + 1, kp, numZeros =>
    let runMax := 1 <<< (kp >>> lsGr)
    if runMax ≤ numZeros then
      let (count, kp, numZeros) := outputRun turns (up kp upGr) (numZeros - runMax)
      (count + 1, kp, numZeros)
    else (0, kp, numZeros)

/-- What is encoded at once: a run of zeros and the value behind it, or the zeros at the end; a
value; or two values, of which the second may be missing at the end. -/
inductive Symbol where
  | run (numZeros : Nat) (value : Coefficient)
  | zeros (numZeros : Nat)
  | single (value : Coefficient)
  | pair (first second : Coefficient)
  deriving DecidableEq, Repr

/-- What is encoded next, and what is behind it. -/
def next (mode : RlgrMode) (kp : Nat) (input : List Coefficient) : Symbol × List Coefficient :=
  if kp >>> lsGr ≠ 0 then
    let numZeros := (input.takeWhile (· = 0)).length
    match input.drop numZeros with
    | value :: rest => (.run numZeros value, rest)
    | [] => (.zeros numZeros, [])
  else
    match mode, input with
    | _, [] => (.zeros 0, [])
    | .rlgr1, value :: rest => (.single value, rest)
    | .rlgr3, [first] => (.pair first 0, [])
    | .rlgr3, first :: second :: rest => (.pair first second, rest)

def runBits (kp numZeros : Nat) : List Bool × Nat :=
  let (count, kp, rest) := outputRun numZeros kp numZeros
  (List.replicate count false ++ [true] ++ bitsOf (kp >>> lsGr) rest, kp)

/-- The bits of a symbol, and the parameters `kp` and `krp` behind it. -/
def encodeSymbol (kp krp : Nat) : Symbol → List Bool × Nat × Nat
  | .run numZeros value =>
    let (run, kp) := runBits kp numZeros
    let (code, krp) := codeGr krp (magnitude value - 1)
    (run ++ [value.msb] ++ code, down kp dnGr, krp)
  | .zeros numZeros => ((runBits kp numZeros).1, kp, krp)
  | .single value =>
    let (code, krp) := codeGr krp (twoMagSign value)
    (code, if value = 0 then up kp uqGr else down kp dqGr, krp)
  | .pair first second =>
    let sum := twoMagSign first + twoMagSign second
    let (code, krp) := codeGr krp sum
    (code ++ bitsOf (minBits sum) (twoMagSign first),
      if first ≠ 0 ∧ second ≠ 0 then down kp (2 * dqGr)
      else if first = 0 ∧ second = 0 then up kp (2 * uqGr)
      else kp, krp)

/-- The symbols of coefficients, each with its bits: none takes nothing. -/
def encodeLoop (mode : RlgrMode) : Nat → Nat → Nat → List Coefficient → List (Symbol × List Bool)
  | 0, _, _, _ => []
  | _ + 1, _, _, [] => []
  | turns + 1, kp, krp, input =>
    let (symbol, rest) := next mode kp input
    let (bits, kp, krp) := encodeSymbol kp krp symbol
    (symbol, bits) :: encodeLoop mode turns kp krp rest

def symbols (mode : RlgrMode) (input : List Coefficient) : List (Symbol × List Bool) :=
  encodeLoop mode input.length (1 <<< lsGr) (1 <<< lsGr) input

def encode (mode : RlgrMode) (input : List Coefficient) : List Bool :=
  (symbols mode input).flatMap Prod.snd

end Redemption.Rfx.Rlgr.Encoder
