import Redemption.Rfx.RlgrRoundTrip

/-! Whole runs of the decoder: on what the reference encoder has written, and on any bytes. -/
namespace Redemption.Rfx.Rlgr

open Redemption.Foundation Encoder

/-- The loop of `decode`, on bits. -/
def Front.loop (mode : RlgrMode) (dstSize : Nat) :
    Nat → Params → List Bool → List (BitVec 16) → Except Stop (List (BitVec 16))
  | 0, _, _, out => .ok out
  | turns + 1, params, stream, out =>
    if stream ≠ [] ∧ out.length < dstSize then
      match Front.turn mode params stream with
      | .ok (some ((params, written), rest)) =>
        loop mode dstSize turns params rest (write dstSize out written)
      | .ok none | .error .brk => .ok out
      | .error stop => .error stop
    else .ok out

variable {mode : RlgrMode} {dstSize : Nat}

section Ends

variable {params : Params} {stream : List Bool}

theorem Front.ends_bits {post : BitVec 32 → List Bool → Prop} (nbits : Nat)
    (holds : ∀ value rest, value.toNat < 2 ^ nbits → rest.length ≤ stream.length →
      post value rest) : (Front.bits nbits).Ends stream post := by
  have cells : (FrontReader.cells nbits : FrontReader Stop Bool _).Ends stream fun bits rest =>
      bits.length = nbits ∧ rest.length ≤ stream.length := by
    apply FrontReader.ends_cells
    intro enough
    rw [List.length_drop]
    exact ⟨List.length_take_of_le enough, Nat.sub_le _ _⟩
  apply cells.andThen
  intro bits rest ⟨length, le⟩
  apply FrontReader.ends_give
  apply holds _ _ _ le
  have small := bitsValue_lt bits
  rw [length] at small
  rw [BitVec.toNat_ofNat]
  exact Nat.lt_of_le_of_lt (Nat.mod_le _ _) small

theorem Front.ends_unary {post : Nat → List Bool → Prop} (is : Bool)
    (holds : ∀ vk rest, vk + rest.length < stream.length → post vk rest) :
    (Front.unary is).Ends stream post := by
  rw [FrontReader.Ends, Front.unary]
  cases front : stream.drop (lead is stream) with
  | nil => exact ⟨none, rfl, fun _ _ none => by cases none⟩
  | cons bit rest =>
    refine ⟨_, rfl, ?_⟩
    rintro _ _ ⟨⟩
    apply holds
    have length := congrArg List.length front
    rw [List.length_drop, List.length_cons] at length
    omega

/-- A code changes `kr` and `krp` only. -/
theorem Front.ends_code (good : params.Good) :
    (Front.code params).Ends stream fun value rest =>
      value.2.Good ∧ rest.length < stream.length := by
  apply (Front.ends_unary true fun vk rest less => less).andThen
  intro vk rest less
  apply (Front.ends_bits params.kr fun value rest' _ le => le).andThen
  intro value rest' le
  apply FrontReader.ends_give
  exact ⟨good.updateKr vk, by omega⟩

theorem addRuns_ok (good : params.Good) {vk run : Nat} (fits : run + vk * 2 ^ 10 ≤ intMax) :
    ∃ run' params', addRuns vk run params = .ok (run', params') ∧ run' ≤ run + vk * 2 ^ 10 ∧
      params'.Good := by
  induction vk generalizing run params with
  | zero => exact ⟨run, params, rfl, by omega, good⟩
  | succ vk ih =>
    have most : 2 ^ params.k ≤ 2 ^ 10 := Nat.pow_le_pow_right (by decide) good.k_le
    obtain ⟨run', params', added, le, good'⟩ :=
      @ih (params.withKp (up params.kp upGr)) (good.withKp (up_le _ _)) (run + 2 ^ params.k)
        (by omega)
    refine ⟨run', params', ?_, by omega, good'⟩
    rw [addRuns, Nat.one_shiftLeft, if_pos (by omega)]
    exact added

theorem Front.ends_run (good : params.Good) (few : stream.length < 2 ^ 21) :
    (Front.run params).Ends stream fun value rest =>
      value.2.Good ∧ rest.length < stream.length := by
  apply (Front.ends_unary false fun vk rest less => less).andThen
  intro vk rest less
  have bounded : 0 + vk * 2 ^ 10 ≤ intMax := by
    rw [intMax]
    omega
  obtain ⟨run, params', added, le, good'⟩ := addRuns_ok good bounded
  have lifted : Front.lift (addRuns vk 0 params) = FrontReader.give (run, params') := by
    rw [added]
    rfl
  have given : (Front.lift (addRuns vk 0 params)).Ends rest fun value rest' =>
      value = (run, params') ∧ rest' = rest := by
    rw [lifted]
    exact FrontReader.ends_give ⟨rfl, rfl⟩
  apply given.andThen
  rintro _ _ ⟨rfl, rfl⟩
  apply (Front.ends_bits params'.k fun value rest' small le' => And.intro small le').andThen
  rintro low rest' ⟨small, le'⟩
  have most : 2 ^ params'.k ≤ 2 ^ 10 := Nat.pow_le_pow_right (by decide) good'.k_le
  have fits : run + low.toNat ≤ intMax := by
    rw [intMax]
    omega
  rw [if_pos fits]
  exact FrontReader.ends_give ⟨good', by omega⟩

/-- A turn of the loop takes bits, and keeps the parameters good; no run overflows in less than 2^21
bits. -/
theorem Front.ends_turn (mode : RlgrMode) (good : params.Good) (few : stream.length < 2 ^ 21) :
    (Front.turn mode params).Ends stream fun value rest =>
      value.1.Good ∧ rest.length < stream.length := by
  by_cases runs : params.k ≠ 0
  · have same : Front.turn mode params = Front.runLength params := if_pos runs
    rw [same]
    apply (Front.ends_run good few).andThen
    intro (run, params') rest ⟨good', less⟩
    apply (Front.ends_bits 1 fun _ rest' _ le => le).andThen
    intro sign rest' le
    apply (Front.ends_code good').andThen
    intro (code, params'') rest'' ⟨good'', less'⟩
    apply FrontReader.ends_give
    exact ⟨good''.withKp (down_le good''.kpSmall), by omega⟩
  · cases mode with
    | rlgr1 =>
      have same : Front.turn .rlgr1 params = Front.single params := if_neg runs
      rw [same]
      apply (Front.ends_code good).andThen
      intro (code, params') rest ⟨good', less⟩
      simp only
      by_cases zero : code = 0
      · rw [if_pos zero]
        exact FrontReader.ends_give ⟨good'.withKp (up_le _ _), less⟩
      · rw [if_neg zero]
        exact FrontReader.ends_give ⟨good'.withKp (down_le good'.kpSmall), less⟩
    | rlgr3 =>
      have same : Front.turn .rlgr3 params = Front.pair params := if_neg runs
      rw [same]
      apply (Front.ends_code good).andThen
      intro (code, params') rest ⟨good', less⟩
      apply (Front.ends_bits (Front.pairBits code) fun _ rest' _ le => le).andThen
      intro val1 rest' le
      apply FrontReader.ends_give
      refine ⟨?_, by omega⟩
      rw [Front.pairParams]
      by_cases both : val1 ≠ 0 ∧ code.setWidth 32 - val1 ≠ 0
      · rw [if_pos both]
        exact good'.withKp (down_le good'.kpSmall)
      · rw [if_neg both]
        by_cases neither : val1 = 0 ∧ code.setWidth 32 - val1 = 0
        · rw [if_pos neither]
          exact good'.withKp (up_le _ _)
        · rw [if_neg neither]
          exact good'

end Ends

theorem decodeLoop_eq {turns : Nat} {params : Params} {bs : InBitStream} (sane : bs.Sane)
    {out : List (BitVec 16)} :
    decodeLoop mode dstSize turns params bs out =
      Front.loop mode dstSize turns params bs.bits out := by
  induction turns generalizing params bs out with
  | zero => rfl
  | succ turns ih =>
    have more : bs.bits ≠ [] ↔ 0 < bs.getRemainingLength := by
      rw [← InBitStream.length_bits sane, List.length_pos_iff]
    rw [decodeLoop, Front.loop]
    by_cases on : bs.bits ≠ [] ∧ out.length < dstSize
    · rw [if_pos on, if_pos ⟨more.mp on.1, on.2⟩]
      have reads := reads_readTurn mode params
      rcases answer : Front.turn mode params bs.bits with stop | _ | ⟨⟨params', written⟩, rest⟩
      · rw [reads.of_error sane answer]
        cases stop <;> rfl
      · rw [reads.of_none sane answer]
        rfl
      · obtain ⟨later, read, sane', rfl⟩ := reads.of_some sane answer
        rw [read]
        exact ih sane'
    · rw [if_neg on, if_neg fun both => on ⟨more.mpr both.1, both.2⟩]

section Write

variable {out : List (BitVec 16)}

theorem take_take_append (front back : List (BitVec 16)) (count : Nat) :
    (front.take count ++ back).take count = (front ++ back).take count := by
  rw [List.take_append, List.take_append, List.take_take, Nat.min_self, List.length_take]
  by_cases long : count ≤ front.length
  · rw [Nat.min_eq_left long, Nat.sub_self, Nat.sub_eq_zero_of_le long]
  · rw [Nat.min_eq_right (Nat.le_of_not_le long)]

theorem writeValues_eq (room : out.length ≤ dstSize) (values : List (BitVec 16)) :
    values.foldl (writeValue dstSize) out = (out ++ values).take dstSize := by
  induction values generalizing out with
  | nil => rw [List.append_nil, List.take_of_length_le room, List.foldl_nil]
  | cons value values ih =>
    rw [List.foldl_cons, writeValue]
    by_cases more : out.length < dstSize
    · rw [if_pos more, ih (by rw [List.length_append]; exact more), List.append_assoc]
      rfl
    · have full : out.length = dstSize := Nat.le_antisymm room (Nat.le_of_not_lt more)
      rw [if_neg more, ih room, List.take_left' full, List.take_left' full]

theorem write_eq (room : out.length ≤ dstSize) (written : Written) :
    write dstSize out written =
      (out ++ (List.replicate written.zeros 0 ++ written.values)).take dstSize := by
  have zeros : out ++ List.replicate (if out.length + written.zeros > dstSize then
      dstSize - out.length else written.zeros) 0 =
        (out ++ List.replicate written.zeros 0).take dstSize := by
    by_cases long : out.length + written.zeros > dstSize
    · rw [if_pos long, List.take_append, List.take_of_length_le room, List.take_replicate,
        Nat.min_eq_left (by omega)]
    · rw [if_neg long, List.take_of_length_le]
      rw [List.length_append, List.length_replicate]
      omega
  rw [write, zeros, writeValues_eq (List.length_take_le _ _), take_take_append, List.append_assoc]

end Write

/-- In less than 2^21 bits the loop comes to an end, and writes no more than there is room for. -/
theorem Front.loop_ok {turns : Nat} {params : Params} {stream : List Bool}
    {out : List (BitVec 16)} (good : params.Good) (few : stream.length < 2 ^ 21)
    (room : out.length ≤ dstSize) :
    ∃ out', Front.loop mode dstSize turns params stream out = .ok out' ∧ out'.length ≤ dstSize := by
  induction turns generalizing params stream out with
  | zero => exact ⟨out, rfl, room⟩
  | succ turns ih =>
    rw [Front.loop]
    by_cases on : stream ≠ [] ∧ out.length < dstSize
    · rw [if_pos on]
      obtain ⟨answer, found, is⟩ := Front.ends_turn mode good few
      rw [found]
      cases answer with
      | none => exact ⟨out, rfl, room⟩
      | some answer =>
        obtain ⟨⟨params', written⟩, rest⟩ := answer
        obtain ⟨good', less⟩ := is _ _ rfl
        apply ih good' (by omega)
        rw [write_eq room]
        exact List.length_take_le _ _
    · rw [if_neg on]
      exact ⟨out, rfl, room⟩

/-- Whatever the bytes are, all of the output is written, and nothing behind it: what the loop has
not written are zeros. -/
theorem decode_ok (mode : RlgrMode) {src : List Byte} (some : src ≠ [])
    (few : src.length < 2 ^ 18) (positive : 0 < dstSize) (small : dstSize < 2 ^ 30) :
    ∃ written : List (BitVec 16), written.length ≤ dstSize ∧
      decodeLoop mode dstSize (8 * src.length) .initial (.ofBytes src) [] = .ok written ∧
      decode mode src dstSize =
        .ok (true, written ++ List.replicate (dstSize - written.length) 0) := by
  have bits := length_bytesToBits src
  have short : (InBitStream.ofBytes src).bits.length < 2 ^ 21 := by
    rw [InBitStream.bits_ofBytes, bits]
    omega
  obtain ⟨out, looped, room⟩ := @Front.loop_ok mode dstSize (8 * src.length) _ _ []
    Params.Good.initial short (Nat.zero_le _)
  have full : (out ++ List.replicate (dstSize - out.length) 0).length = dstSize := by
    rw [List.length_append, List.length_replicate]
    omega
  have fits : (dstSize - out.length) * 2 ≤ intMax := by
    rw [intMax]
    omega
  rw [← decodeLoop_eq (InBitStream.sane_ofBytes src)] at looped
  refine ⟨out, room, looped, ?_⟩
  have guard : ¬ (src.length = 0 ∨ dstSize = 0) := by
    rintro (none | none)
    · exact some (List.length_eq_zero_iff.mp none)
    · omega
  rw [decode, if_neg guard, looped, ok_bind, if_pos fits]
  change Except.ok (decide (_ = _), _) = _
  rw [full, decide_eq_true rfl]

section Encoded

variable {kp krp : Nat}

/-- A pair whose code is a positive `int16_t`. -/
def Encoder.Symbol.Fits : Symbol → Prop
  | .pair first second => twoMagSign first + twoMagSign second < 2 ^ 15
  | _ => True

instance : DecidablePred Encoder.Symbol.Fits
  | .pair _ _ => inferInstanceAs (Decidable (_ < _))
  | .run _ _ => .isTrue trivial
  | .zeros _ => .isTrue trivial
  | .single _ => .isTrue trivial

/-- What a symbol stands for. -/
def Encoder.Symbol.written : Symbol → Written
  | .run numZeros value => ⟨numZeros, [value]⟩
  | .zeros numZeros => ⟨numZeros, []⟩
  | .single value => ⟨0, [value]⟩
  | .pair first second => ⟨0, [first, second]⟩

/-- A symbol that the decoder reads in a turn. -/
structure Turned (mode : RlgrMode) (kp krp : Nat) (symbol : Symbol) : Prop where
  gives : (Front.turn mode (Front.paramsOf kp krp)).Gives (encodeSymbol kp krp symbol).1
    (Front.paramsOf (encodeSymbol kp krp symbol).2.1 (encodeSymbol kp krp symbol).2.2,
      symbol.written)
  kpSmall : (encodeSymbol kp krp symbol).2.1 ≤ kpMax
  krpSmall : (encodeSymbol kp krp symbol).2.2 ≤ kpMax
  some : (encodeSymbol kp krp symbol).1 ≠ []

theorem codeGr_ne_nil (krp value : Nat) : (codeGr krp value).1 ≠ [] := by
  rw [codeGr]
  simp

theorem turned_run (kpSmall : kp ≤ kpMax) (krpSmall : krp ≤ kpMax) (runs : kp >>> lsGr ≠ 0)
    {numZeros : Nat} (fits : numZeros ≤ intMax) {value : Coefficient} (some : value ≠ 0) :
    Turned mode kp krp (.run numZeros value) := by
  refine ⟨?_, down_le (Front.runBits_small (Front.paramsOf_good kpSmall krpSmall) fits),
    Front.codeGr_small krpSmall _, ?_⟩
  · have same : Front.turn mode (Front.paramsOf kp krp) =
      Front.runLength (Front.paramsOf kp krp) := if_pos runs
    rw [same]
    exact Front.gives_runLength kpSmall krpSmall fits some
  · rw [encodeSymbol]
    simp

theorem turned_single (kpSmall : kp ≤ kpMax) (krpSmall : krp ≤ kpMax) (rice : kp >>> lsGr = 0)
    (value : Coefficient) : Turned .rlgr1 kp krp (.single value) := by
  refine ⟨?_, ?_, Front.codeGr_small krpSmall _, codeGr_ne_nil _ _⟩
  · have same : Front.turn .rlgr1 (Front.paramsOf kp krp) =
      Front.single (Front.paramsOf kp krp) := if_neg (not_not.mpr rice)
    rw [same]
    exact Front.gives_single kpSmall krpSmall value
  · rw [encodeSymbol]
    by_cases zero : value = 0
    · simp only [if_pos zero]
      exact up_le _ _
    · simp only [if_neg zero]
      exact down_le kpSmall

theorem turned_pair (kpSmall : kp ≤ kpMax) (krpSmall : krp ≤ kpMax) (rice : kp >>> lsGr = 0)
    {first second : Coefficient} (fits : twoMagSign first + twoMagSign second < 2 ^ 15) :
    Turned .rlgr3 kp krp (.pair first second) := by
  refine ⟨?_, ?_, Front.codeGr_small krpSmall _, ?_⟩
  · have same : Front.turn .rlgr3 (Front.paramsOf kp krp) =
      Front.pair (Front.paramsOf kp krp) := if_neg (not_not.mpr rice)
    rw [same]
    exact Front.gives_pair kpSmall krpSmall fits
  · rw [encodeSymbol]
    by_cases both : first ≠ 0 ∧ second ≠ 0
    · rw [if_pos both]
      exact down_le kpSmall
    · rw [if_neg both]
      by_cases neither : first = 0 ∧ second = 0
      · rw [if_pos neither]
        exact up_le _ _
      · rw [if_neg neither]
        exact kpSmall
  · intro none
    exact codeGr_ne_nil _ _ (List.append_eq_nil_iff.mp none).1

theorem zeros_split (input : List Coefficient) :
    input = List.replicate (input.takeWhile (· = 0)).length 0 ++
      input.drop (input.takeWhile (· = 0)).length ∧
    ∀ value rest, input.drop (input.takeWhile (· = 0)).length = value :: rest → value ≠ 0 := by
  induction input with
  | nil => exact ⟨rfl, fun _ _ none => by cases none⟩
  | cons value input ih =>
    by_cases zero : value = 0
    · have taken : (value :: input).takeWhile (· = 0) = value :: input.takeWhile (· = 0) :=
        List.takeWhile_cons_of_pos (decide_eq_true zero)
      rw [taken, List.length_cons, List.replicate_succ, List.drop_succ_cons, List.cons_append,
        ← ih.1, zero]
      exact ⟨rfl, ih.2⟩
    · have taken : (value :: input).takeWhile (· = 0) = [] :=
        List.takeWhile_cons_of_neg (by rw [decide_eq_true_eq]; exact zero)
      rw [taken]
      refine ⟨rfl, ?_⟩
      rintro _ _ ⟨⟩
      exact zero

/-- What is encoded next: zeros to the end, or what the decoder reads in a turn; only what is behind
the end is written more than there is. -/
theorem next_cases (kpSmall : kp ≤ kpMax) (krpSmall : krp ≤ kpMax) {input : List Coefficient}
    (some : input ≠ []) (short : input.length ≤ intMax)
    (fits : (next mode kp input).1.Fits) :
    (kp >>> lsGr ≠ 0 ∧ input = List.replicate input.length 0 ∧
      next mode kp input = (.zeros input.length, [])) ∨
    (Turned mode kp krp (next mode kp input).1 ∧
      ∃ front behind, front ≠ [] ∧ input = front ++ (next mode kp input).2 ∧
        List.replicate (next mode kp input).1.written.zeros 0 ++
          (next mode kp input).1.written.values = front ++ behind ∧
        ((next mode kp input).2 ≠ [] → behind = [])) := by
  by_cases runs : kp >>> lsGr ≠ 0
  · obtain ⟨split, other⟩ := zeros_split input
    have length := congrArg List.length split
    rw [List.length_append, List.length_replicate] at length
    cases behind : input.drop (input.takeWhile (· = 0)).length with
    | nil =>
      have unfolded : next mode kp input = (.zeros (input.takeWhile (· = 0)).length, []) := by
        unfold next
        rw [if_pos runs]
        simp only [behind]
      rw [unfolded]
      rw [behind, List.append_nil] at split
      rw [behind, List.length_nil, Nat.add_zero] at length
      rw [← length] at split
      exact .inl ⟨runs, split, by rw [length]⟩
    | cons value rest =>
      have unfolded : next mode kp input =
          (.run (input.takeWhile (· = 0)).length value, rest) := by
        unfold next
        rw [if_pos runs]
        simp only [behind]
      rw [unfolded] at fits ⊢
      rw [behind] at split
      refine .inr ⟨?_, List.replicate (input.takeWhile (· = 0)).length 0 ++ [value], [], ?_, ?_, ?_,
        fun _ => rfl⟩
      · exact turned_run kpSmall krpSmall runs (by omega) (other value rest behind)
      · simp
      · rw [List.append_assoc]
        exact split
      · rw [List.append_nil]
        rfl
  · have rice := not_not.mp runs
    cases mode with
    | rlgr1 =>
      cases input with
      | nil => exact absurd rfl some
      | cons value rest =>
        have unfolded : next .rlgr1 kp (value :: rest) = (.single value, rest) := if_neg runs
        rw [unfolded]
        exact .inr ⟨turned_single kpSmall krpSmall rice value, [value], [], List.cons_ne_nil _ _, rfl,
          rfl, fun _ => rfl⟩
    | rlgr3 =>
      rcases input with _ | ⟨first, _ | ⟨second, rest⟩⟩
      · exact absurd rfl some
      · have unfolded : next .rlgr3 kp [first] = (.pair first 0, []) := if_neg runs
        rw [unfolded] at fits ⊢
        exact .inr ⟨turned_pair kpSmall krpSmall rice fits, [first], [0], List.cons_ne_nil _ _, rfl,
          rfl, fun more => absurd rfl more⟩
      · have unfolded : next .rlgr3 kp (first :: second :: rest) = (.pair first second, rest) :=
          if_neg runs
        rw [unfolded] at fits ⊢
        exact .inr ⟨turned_pair kpSmall krpSmall rice fits, [first, second], [],
          List.cons_ne_nil _ _, rfl, rfl, fun _ => rfl⟩

/-- The last zeros are read, or there are too few bits behind them: nothing else is written. -/
theorem loop_zeros (kpSmall : kp ≤ kpMax) (krpSmall : krp ≤ kpMax) (runs : kp >>> lsGr ≠ 0)
    {numZeros turns : Nat} {padding : List Bool} {out : List (BitVec 16)}
    (room : out.length + numZeros = dstSize) (short : dstSize ≤ intMax) (some : 0 < numZeros) :
    Front.loop mode dstSize (turns + 1) (Front.paramsOf kp krp) ((runBits kp numZeros).1 ++ padding)
        out = .ok out ∨
      Front.loop mode dstSize (turns + 1) (Front.paramsOf kp krp)
        ((runBits kp numZeros).1 ++ padding) out = .ok (out ++ List.replicate numZeros 0) := by
  have good := Front.paramsOf_good kpSmall krpSmall
  have fits : numZeros ≤ intMax := by omega
  have given := Front.gives_run good fits padding
  have good' : ((Front.paramsOf kp krp).withKp (runBits kp numZeros).2).Good :=
    good.withKp (Front.runBits_small good fits)
  have nonempty : (runBits kp numZeros).1 ++ padding ≠ [] := by
    rw [runBits]
    simp
  have same : Front.turn mode (Front.paramsOf kp krp) =
    Front.runLength (Front.paramsOf kp krp) := if_pos runs
  have read : Front.turn mode (Front.paramsOf kp krp) ((runBits kp numZeros).1 ++ padding) = _ :=
    (congrFun same _).trans (FrontReader.andThen_some given)
  have ends : (FrontReader.andThen (Front.bits 1) fun sign =>
      (Front.code ((Front.paramsOf kp krp).withKp (runBits kp numZeros).2)).andThen
        fun read => .give (read.2.withKp (down read.2.kp dnGr),
          (⟨numZeros, [if sign ≠ 0 then -(read.1 + 1) else read.1 + 1]⟩ : Written))).Ends padding
      fun value _ => value.2.zeros = numZeros := by
    apply (Front.ends_bits 1 fun _ rest _ le => le).andThen
    intro sign rest _
    apply (Front.ends_code good').andThen
    intro _ rest' _
    exact FrontReader.ends_give rfl
  obtain ⟨answer, found, is⟩ := ends
  have turned : Front.turn mode (Front.paramsOf kp krp) ((runBits kp numZeros).1 ++ padding) =
    .ok answer := read.trans found
  rw [Front.loop, if_pos ⟨nonempty, by omega⟩, turned]
  cases answer with
  | none => exact .inl rfl
  | some answer =>
    obtain ⟨⟨params, zeros, values⟩, rest⟩ := answer
    obtain rfl := is _ _ rfl
    right
    have full : (out ++ List.replicate zeros (0 : BitVec 16)).length = dstSize := by
      rw [List.length_append, List.length_replicate]
      exact room
    have written : write dstSize out ⟨zeros, values⟩ = out ++ List.replicate zeros 0 := by
      rw [write_eq (by omega), ← List.append_assoc, List.take_left' full]
    simp only [written]
    cases turns with
    | zero => rfl
    | succ turns =>
      rw [Front.loop, if_neg]
      intro both
      omega

theorem loop_full {turns : Nat} {params : Params} {stream : List Bool} {out : List (BitVec 16)}
    (room : out.length + ([] : List Coefficient).length = dstSize) :
    ∃ out', Front.loop mode dstSize turns params stream out = .ok out' ∧
      out' ++ List.replicate (dstSize - out'.length) 0 = out ++ [] := by
  rw [List.length_nil] at room
  refine ⟨out, ?_, ?_⟩
  · cases turns with
    | zero => rfl
    | succ turns =>
      rw [Front.loop, if_neg]
      intro both
      omega
  · rw [← room, Nat.add_zero, Nat.sub_self, List.replicate_zero]

theorem encodeLoop_cons (mode : RlgrMode) (fuel kp krp : Nat) {input : List Coefficient}
    (some : input ≠ []) :
    encodeLoop mode (fuel + 1) kp krp input =
      ((next mode kp input).1, (encodeSymbol kp krp (next mode kp input).1).1) ::
        encodeLoop mode fuel (encodeSymbol kp krp (next mode kp input).1).2.1
          (encodeSymbol kp krp (next mode kp input).1).2.2 (next mode kp input).2 := by
  cases input with
  | nil => exact absurd rfl some
  | cons value rest => rfl

/-- What has been encoded is decoded; what has not been written are zeros. -/
theorem loop_encode {fuel turns : Nat} (kpSmall : kp ≤ kpMax) (krpSmall : krp ≤ kpMax)
    {input : List Coefficient} {padding : List Bool} {out : List (BitVec 16)}
    (whole : input.length ≤ fuel)
    (fits : ∀ symbol ∈ encodeLoop mode fuel kp krp input, symbol.1.Fits)
    (enough : ((encodeLoop mode fuel kp krp input).flatMap Prod.snd).length ≤ turns)
    (room : out.length + input.length = dstSize) (short : dstSize ≤ intMax) :
    ∃ out', Front.loop mode dstSize turns (Front.paramsOf kp krp)
        ((encodeLoop mode fuel kp krp input).flatMap Prod.snd ++ padding) out = .ok out' ∧
      out' ++ List.replicate (dstSize - out'.length) 0 = out ++ input := by
  induction fuel generalizing kp krp input turns out with
  | zero =>
    have none : input = [] := List.length_eq_zero_iff.mp (Nat.le_zero.mp whole)
    subst none
    exact loop_full room
  | succ fuel ih =>
    by_cases some : input = []
    · subst some
      exact loop_full room
    have unfolded := encodeLoop_cons mode fuel kp krp some
    have length := List.length_pos_of_ne_nil some
    rw [unfolded, List.flatMap_cons] at enough ⊢
    rw [unfolded] at fits
    have first := fits _ List.mem_cons_self
    obtain ⟨runs, zeros, last⟩ | ⟨turned, front, behind, full, split, written, more⟩ :=
      next_cases kpSmall krpSmall some (by omega) first
    · have none : encodeLoop mode fuel kp krp [] = [] := by cases fuel <;> rfl
      rw [last] at enough ⊢
      have symbol : encodeSymbol kp krp (.zeros input.length) =
        ((runBits kp input.length).1, kp, krp) := rfl
      simp only [symbol, none, List.flatMap_nil, List.append_nil] at enough ⊢
      have bits : 0 < (runBits kp input.length).1.length := by
        rw [runBits]
        simp
      obtain ⟨turns, rfl⟩ := Nat.exists_eq_succ_of_ne_zero (by omega : turns ≠ 0)
      obtain looped | looped :=
        @loop_zeros mode dstSize kp krp kpSmall krpSmall runs _ turns padding out room short length
      · refine ⟨out, looped, ?_⟩
        rw [← room, Nat.add_sub_cancel_left, ← zeros]
      · refine ⟨_, looped, ?_⟩
        have whole' : dstSize - (out ++ List.replicate input.length (0 : BitVec 16)).length = 0 := by
          rw [List.length_append, List.length_replicate]
          omega
        rw [whole', List.replicate_zero, List.append_nil, ← zeros]
    · generalize next mode kp input = symbol at *
      obtain ⟨symbol, rest⟩ := symbol
      simp only at *
      have bits := List.length_pos_of_ne_nil turned.some
      have front' := List.length_pos_of_ne_nil full
      rw [List.length_append] at enough
      obtain ⟨turns, rfl⟩ := Nat.exists_eq_succ_of_ne_zero (by omega : turns ≠ 0)
      have sizes := congrArg List.length split
      rw [List.length_append] at sizes
      have nonempty : (encodeSymbol kp krp symbol).1 ++ (encodeLoop mode fuel
          (encodeSymbol kp krp symbol).2.1 (encodeSymbol kp krp symbol).2.2 rest).flatMap Prod.snd ++
            padding ≠ [] := by
        intro none
        have none' := (List.append_eq_nil_iff.mp (List.append_eq_nil_iff.mp none).1).1
        exact turned.some none'
      have wrote : write dstSize out symbol.written = out ++ front := by
        rw [write_eq (by omega), written]
        by_cases end' : rest = []
        · subst end'
          rw [← List.append_assoc, List.take_left']
          rw [List.length_append]
          rw [List.length_nil] at sizes
          omega
        · rw [more end', List.append_nil, List.take_of_length_le]
          rw [List.length_append]
          omega
      obtain ⟨out', looped, same⟩ := @ih _ _ turns turned.kpSmall turned.krpSmall rest (out ++ front)
        (by omega) (fun symbol member => fits symbol (List.mem_cons_of_mem _ member)) (by omega)
        (by rw [List.length_append]; omega)
      refine ⟨out', ?_, ?_⟩
      · rw [Front.loop, if_pos ⟨nonempty, by omega⟩, List.append_assoc, turned.gives]
        simp only
        rw [wrote]
        exact looped
      · rw [same, split, List.append_assoc]

end Encoded

end Redemption.Rfx.Rlgr

/-! `Rlgr::decode` is the inverse of the reference encoder, and total on the bytes of a tile. -/
namespace Redemption.Rfx.Rlgr

open Redemption.Foundation Encoder

variable {mode : RlgrMode} {dstSize : Nat}

/-- Each turn takes bits: more turns than there are bits change nothing. -/
theorem Front.loop_turns {turns : Nat} {params : Params} {stream : List Bool}
    {out : List (BitVec 16)} (good : params.Good) (few : stream.length < 2 ^ 21)
    (enough : stream.length ≤ turns) :
    Front.loop mode dstSize turns params stream out =
      Front.loop mode dstSize stream.length params stream out := by
  generalize same : stream.length = least at enough ⊢
  induction least using Nat.strong_induction_on generalizing turns params stream out with
  | _ least ih =>
    cases least with
    | zero =>
      have none : stream = [] := List.length_eq_zero_iff.mp same
      cases turns with
      | zero => rfl
      | succ turns =>
        exact if_neg fun on => on.1 none
    | succ least =>
      obtain ⟨turns, rfl⟩ := Nat.exists_eq_succ_of_ne_zero (by omega : turns ≠ 0)
      rw [Front.loop, Front.loop]
      by_cases on : stream ≠ [] ∧ out.length < dstSize
      · rw [if_pos on, if_pos on]
        obtain ⟨answer, found, is⟩ := Front.ends_turn mode good few
        rw [found]
        cases answer with
        | none => rfl
        | some answer =>
          obtain ⟨⟨params', written⟩, rest⟩ := answer
          obtain ⟨good', less⟩ := is _ _ rfl
          have more : rest.length ≤ turns := by omega
          have more' : rest.length ≤ least := by omega
          exact (ih rest.length (by omega) good' (by omega) rfl more).trans
            (ih rest.length (by omega) good' (by omega) rfl more').symm
      · rw [if_neg on, if_neg on]

/-- The loop has come to its end when its turns have: nothing is left to the number of them. -/
theorem decodeLoop_turns {src : List Byte} {turns : Nat} (few : src.length < 2 ^ 18)
    (enough : 8 * src.length ≤ turns) :
    decodeLoop mode dstSize turns .initial (.ofBytes src) [] =
      decodeLoop mode dstSize (8 * src.length) .initial (.ofBytes src) [] := by
  have sane := InBitStream.sane_ofBytes src
  have length : (InBitStream.ofBytes src).bits.length = 8 * src.length := by
    rw [InBitStream.bits_ofBytes, length_bytesToBits]
  have same := @Front.loop_turns mode dstSize turns _ _ [] Params.Good.initial
    (by rw [length]; omega) (by rw [length]; exact enough)
  rw [decodeLoop_eq sane, decodeLoop_eq sane, same, length]

theorem runBits_ne_nil (kp numZeros : Nat) : (runBits kp numZeros).1 ≠ [] := by
  rw [runBits]
  simp

theorem encode_ne_nil {input : List Coefficient} (some : input ≠ []) (short : input.length ≤ intMax)
    (fits : ∀ symbol ∈ symbols mode input, symbol.1.Fits) : encode mode input ≠ [] := by
  obtain ⟨fuel, length⟩ := Nat.exists_eq_succ_of_ne_zero (List.length_pos_of_ne_nil some).ne'
  have unfolded := encodeLoop_cons mode fuel (1 <<< lsGr) (1 <<< lsGr) some
  rw [← Nat.succ_eq_add_one, ← length] at unfolded
  rw [symbols, unfolded] at fits
  have first := fits _ List.mem_cons_self
  rw [encode, symbols, unfolded, List.flatMap_cons]
  intro none
  have none' := (List.append_eq_nil_iff.mp none).1
  obtain ⟨_, _, last⟩ | ⟨turned, _⟩ := @next_cases mode (1 <<< lsGr) (1 <<< lsGr)
    (by decide) (by decide) input some short first
  · rw [last] at none'
    exact runBits_ne_nil _ _ none'
  · exact turned.some none'

/-- What has been encoded is decoded, whatever bits are behind it. -/
theorem decode_encode {input : List Coefficient} {src : List Byte} {padding : List Bool}
    (some : input ≠ []) (short : input.length < 2 ^ 30)
    (fits : ∀ symbol ∈ symbols mode input, symbol.1.Fits)
    (encoded : bytesToBits src = encode mode input ++ padding) :
    decode mode src input.length = .ok (true, input) := by
  have small : input.length ≤ intMax := by
    rw [intMax]
    omega
  have bits := List.length_pos_of_ne_nil (encode_ne_nil some small fits)
  have sizes := congrArg List.length encoded
  rw [length_bytesToBits, List.length_append] at sizes
  obtain ⟨out, looped, whole⟩ := @loop_encode mode input.length (1 <<< lsGr) (1 <<< lsGr)
    input.length (8 * src.length) (by decide) (by decide) input padding [] (Nat.le_refl _) fits
    (by rw [sizes]; exact Nat.le_add_right _ _) (Nat.zero_add _) small
  rw [List.nil_append] at whole
  have fits' : (input.length - out.length) * 2 ≤ intMax := by
    rw [intMax]
    omega
  have guard : ¬ (src.length = 0 ∨ input.length = 0) := by
    rintro (none | none)
    · omega
    · exact some (List.length_eq_zero_iff.mp none)
  have same : Front.loop mode input.length (8 * src.length) .initial
      (encode mode input ++ padding) [] = .ok out := looped
  rw [decode, if_neg guard, decodeLoop_eq (InBitStream.sane_ofBytes src), InBitStream.bits_ofBytes,
    encoded, same, ok_bind, if_pos fits']
  change Except.ok (decide (_ = _), _) = _
  rw [whole, decide_eq_true rfl]

/-- Coefficients are decoded from what they are encoded to, if no code of a pair is a negative
`int16_t`; and whatever the bytes are, the loop ends, and all of the output is written: what the
loop has not written are zeros. Without bytes, or without an output, nothing is. -/
theorem decode_inverse (mode : RlgrMode) :
    (∀ (input : List Coefficient) (src : List Byte) (padding : List Bool),
      input ≠ [] → input.length < 2 ^ 30 → (∀ symbol ∈ symbols mode input, symbol.1.Fits) →
      bytesToBits src = encode mode input ++ padding →
      decode mode src input.length = .ok (true, input)) ∧
    (∀ (src : List Byte) (dstSize : Nat),
      src ≠ [] → src.length < 2 ^ 18 → 0 < dstSize → dstSize < 2 ^ 30 →
      ∃ written : List (BitVec 16), written.length ≤ dstSize ∧
        (∀ turns, 8 * src.length ≤ turns →
          decodeLoop mode dstSize turns .initial (.ofBytes src) [] = .ok written) ∧
        decode mode src dstSize =
          .ok (true, written ++ List.replicate (dstSize - written.length) 0)) ∧
    ∀ (src : List Byte) (dstSize : Nat), src = [] ∨ dstSize = 0 →
      decode mode src dstSize = .ok (false, []) := by
  refine ⟨?_, ?_, ?_⟩
  · intro input src padding some short fits encoded
    exact decode_encode some short fits encoded
  · intro src dstSize some few positive small
    obtain ⟨written, room, looped, decoded⟩ := @decode_ok dstSize mode src some few positive small
    refine ⟨written, room, ?_, decoded⟩
    intro turns enough
    rw [decodeLoop_turns few enough]
    exact looped
  · intro src dstSize none
    have guard : src.length = 0 ∨ dstSize = 0 := none.imp_left List.length_eq_zero_iff.mpr
    rw [decode, if_pos guard]

/-- Runs, one of them of five zeros, and pairs that are coded with different parameters. -/
theorem decode_inverse_runs_and_pairs :
    decode .rlgr3 [153, 234, 200, 39, 7, 147, 255, 255, 185, 72, 0] 22 = .ok (true,
      [5, -3, 2, 1, 0, 0, 0, 0, 0, 7, 0, 0, 0, 0, 0, 0, 0, -1, 40, 9, 0, 0]) ∧
    ∃ written : List (BitVec 16), written.length ≤ 4096 ∧
      (∀ turns, 88 ≤ turns → decodeLoop .rlgr3 4096 turns .initial
        (.ofBytes [153, 234, 200, 39, 7, 147, 255, 255, 185, 72, 0]) [] = .ok written) ∧
      decode .rlgr3 [153, 234, 200, 39, 7, 147, 255, 255, 185, 72, 0] 4096 =
        .ok (true, written ++ List.replicate (4096 - written.length) 0) := by
  obtain ⟨inverse, total, _⟩ := decode_inverse .rlgr3
  constructor
  · exact inverse [5, -3, 2, 1, 0, 0, 0, 0, 0, 7, 0, 0, 0, 0, 0, 0, 0, -1, 40, 9, 0, 0]
      [153, 234, 200, 39, 7, 147, 255, 255, 185, 72, 0] (List.replicate 6 false) (by decide)
      (by decide) (by decide +kernel) (by decide +kernel)
  · exact total [153, 234, 200, 39, 7, 147, 255, 255, 185, 72, 0] 4096 (by decide) (by decide)
      (by decide) (by decide)

/-- A pair whose code is a negative `int16_t` takes bits of what is behind it; no bytes are no
zeros; and the size of 2^30 zeros in bytes overflows. -/
theorem not_decode_inverse :
    (¬ ∀ (input : List Coefficient) (src : List Byte) (padding : List Bool),
      input.length = 4096 → bytesToBits src = encode .rlgr3 input ++ padding →
      decode .rlgr3 src 4096 = .ok (true, input)) ∧
    (¬ ∀ (src : List Byte), ∃ out, out.length = 4096 ∧ decode .rlgr1 src 4096 = .ok (true, out)) ∧
    decode .rlgr1 [0x00] (2 ^ 30) = .error .overflow := by
  refine ⟨?_, ?_, by decide⟩
  · intro inverse
    have decoded := inverse ([1, 40, 0, 16384, 0] ++ List.replicate 4091 0)
      [135, 255, 255, 255, 255, 255, 255, 255, 255, 255, 250, 135, 255, 255, 255, 248, 0, 128, 0,
        0, 0, 0, 3, 254, 128] (List.replicate 7 false) (by decide +kernel) (by decide +kernel)
    have other : decode .rlgr3
        [135, 255, 255, 255, 255, 255, 255, 255, 255, 255, 250, 135, 255, 255, 255, 248, 0, 128, 0,
          0, 0, 0, 3, 254, 128] 4096 ≠
        .ok (true, [1, 40, 0, 16384, 0] ++ List.replicate 4091 0) := by decide +kernel
    exact other decoded
  · intro total
    obtain ⟨out, length, decoded⟩ := total []
    cases decoded

end Redemption.Rfx.Rlgr
