import Redemption.Foundation.StreamCodec
import Redemption.Foundation.ByteStream

/-! `Zdecompressor`, and the loops that inflate the data of one rectangle. -/
namespace Redemption.Vnc

open Redemption.Foundation

/-- A `Zdecompressor`: the state of the stream and the part of `out` that is in use. -/
structure Zdecompressor (σ : Type) where
  z : σ
  out : List Byte

/-- How much of the input one call is given. -/
def inflateStep : Nat := 32768

namespace Zdecompressor

variable {σ : Type} (inflater : Inflater σ Byte) (outsize : Nat) (zd : Zdecompressor σ)

def available : Nat := zd.out.length

def availOut : Nat := outsize - zd.out.length

def full : Bool := zd.availOut outsize == 0

/-- `update`, with the amount of data it has processed. -/
def update (data : List Byte) : Zdecompressor σ × Nat :=
  let call := inflater.inflate zd.z data (zd.availOut outsize)
  (⟨call.state, zd.out ++ call.output⟩, call.taken)

/-- `flush_ready` into a vector. -/
def flushReady (vec : List Byte) : Zdecompressor σ × List Byte := (⟨zd.z, []⟩, vec ++ zd.out)

def finish : Bool × Zdecompressor σ :=
  let call := inflater.finish zd.z (zd.availOut outsize)
  (call.1, ⟨call.2.1, zd.out ++ call.2.2⟩)

/-- The body of the first loop: make room for output. -/
def makeRoom (uncompressed : List Byte) : Zdecompressor σ × List Byte :=
  if zd.full outsize then zd.flushReady uncompressed else (zd, uncompressed)

/-- The first loop, which gives the accumulated data to the decompressor. -/
def feed (accumulator : List Byte) :
    Nat → Nat → Zdecompressor σ → List Byte → Option (Zdecompressor σ × List Byte)
  | 0, _, _, _ => none
  | fuel + 1, q, zd, uncompressed =>
    if q < accumulator.length then
      let (zd, uncompressed) := zd.makeRoom outsize uncompressed
      let (zd, processed) := zd.update inflater outsize
        ((accumulator.drop q).take (min inflateStep (accumulator.length - q)))
      feed accumulator fuel (q + processed) zd uncompressed
    else some (zd, uncompressed)

/-- The second loop, which takes out what the decompressor holds back. -/
def drain : Nat → Zdecompressor σ → List Byte → Option (Zdecompressor σ × List Byte)
  | 0, _, _ => none
  | fuel + 1, zd, uncompressed =>
    let (ended, zd) := zd.finish inflater outsize
    if !ended && zd.available != 0 then
      let (zd, uncompressed) := zd.flushReady uncompressed
      drain fuel zd uncompressed
    else some (zd, uncompressed)

/-- Both loops, one after the other. -/
def inflateAll (fuel : Nat) (accumulator : List Byte) : Option (Zdecompressor σ × List Byte) :=
  match feed inflater outsize accumulator fuel 0 zd [] with
  | none => none
  | some (zd, uncompressed) => drain inflater outsize fuel zd uncompressed

variable {inflater outsize zd} {Expands : σ → List Byte → List Byte → Prop}
variable (correct : inflater.Correct Expands) (positive : 0 < outsize)

theorem makeRoom_keeps (positive : 0 < outsize) (zd : Zdecompressor σ) (uncompressed : List Byte) :
    (zd.makeRoom outsize uncompressed).1.z = zd.z ∧
      (zd.makeRoom outsize uncompressed).2 ++ (zd.makeRoom outsize uncompressed).1.out =
        uncompressed ++ zd.out ∧
      0 < (zd.makeRoom outsize uncompressed).1.availOut outsize := by
  unfold makeRoom
  by_cases full : zd.full outsize = true
  · rw [if_pos full]
    refine ⟨rfl, ?_, ?_⟩
    · simp [flushReady]
    · simpa [flushReady, availOut] using positive
  · rw [if_neg full]
    refine ⟨rfl, rfl, ?_⟩
    simp only [Zdecompressor.full, beq_iff_eq] at full
    exact Nat.pos_of_ne_zero full

include correct positive in
theorem feed_ok (accumulator : List Byte) (fuel q : Nat) (zd : Zdecompressor σ)
    (uncompressed data : List Byte) (expands : Expands zd.z (accumulator.drop q) data)
    (enough : accumulator.length - q + data.length < fuel) :
    ∃ zd' uncompressed' more,
      feed inflater outsize accumulator fuel q zd uncompressed = some (zd', uncompressed') ∧
        uncompressed' ++ zd'.out ++ more = uncompressed ++ zd.out ++ data ∧
        more.length ≤ data.length ∧ Expands zd'.z [] more := by
  induction fuel generalizing q zd uncompressed data with
  | zero => omega
  | succ fuel ih =>
    unfold feed
    by_cases inside : q < accumulator.length
    · rw [if_pos inside]
      obtain ⟨state, kept, room⟩ := makeRoom_keeps positive zd uncompressed
      generalize zd.makeRoom outsize uncompressed = cleared at state kept room
      obtain ⟨zd₁, uncompressed₁⟩ := cleared
      simp only at state kept room ⊢
      generalize length : min inflateStep (accumulator.length - q) = step
      have nonempty : (accumulator.drop q).take step ≠ [] := by
        rw [← List.length_pos_iff, List.length_take, List.length_drop]
        unfold inflateStep at length
        omega
      have split : accumulator.drop q =
          (accumulator.drop q).take step ++ (accumulator.drop q).drop step :=
        (List.take_append_drop _ _).symm
      rw [split, ← state] at expands
      obtain ⟨taken, _⟩ := correct.inflate_fits expands (zd₁.availOut outsize)
      have moves := correct.inflate_moves expands (zd₁.availOut outsize) room nonempty
      obtain ⟨more, same, expands'⟩ := correct.inflate_gives expands (zd₁.availOut outsize)
      simp only [update]
      generalize inflater.inflate zd₁.z ((accumulator.drop q).take step)
        (zd₁.availOut outsize) = call at taken moves same expands'
      have left : ((accumulator.drop q).take step).drop call.taken ++
          (accumulator.drop q).drop step = accumulator.drop (q + call.taken) := by
        rw [← List.drop_append_of_le_length taken, List.take_append_drop, List.drop_drop]
      rw [left] at expands'
      have fewer : accumulator.length - (q + call.taken) + more.length < fuel := by
        have lengths := congrArg List.length same
        rw [List.length_append] at lengths
        rw [List.length_take, List.length_drop] at taken
        rcases moves with some' | some'
        · omega
        · have := List.length_pos_iff.mpr some'
          omega
      obtain ⟨zd', uncompressed', rest, ran, whole, shorter, expands''⟩ :=
        ih (q + call.taken) ⟨call.state, zd₁.out ++ call.output⟩ uncompressed₁ more expands' fewer
      refine ⟨zd', uncompressed', rest, ran, ?_, ?_, expands''⟩
      · rw [whole, same, ← kept]
        simp
      · rw [same, List.length_append]
        omega
    · rw [if_neg inside]
      rw [List.drop_eq_nil_of_le (by omega)] at expands
      exact ⟨zd, uncompressed, data, rfl, rfl, Nat.le_refl _, expands⟩

include correct positive in
theorem drain_ok (fuel : Nat) (zd : Zdecompressor σ) (uncompressed data : List Byte)
    (expands : Expands zd.z [] data)
    (enough : data.length + (if zd.out = [] then 0 else 1) < fuel) :
    ∃ z, drain inflater outsize fuel zd uncompressed =
        some (⟨z, []⟩, uncompressed ++ zd.out ++ data) ∧ Expands z [] [] := by
  induction fuel generalizing zd uncompressed data with
  | zero => omega
  | succ fuel ih =>
    have goesOn := correct.finish_goes_on expands (zd.availOut outsize)
    have moves := correct.finish_moves expands (zd.availOut outsize)
    obtain ⟨more, same, expands'⟩ := correct.finish_gives expands (zd.availOut outsize)
    unfold drain
    simp only [finish, goesOn, available, Bool.not_false, Bool.true_and, bne_iff_ne, ne_eq,
      List.length_eq_zero_iff]
    generalize inflater.finish zd.z (zd.availOut outsize) = call at moves same expands'
    by_cases nothing : zd.out ++ call.2.2 = []
    · obtain ⟨noOut, noOutput⟩ := List.append_eq_nil_iff.mp nothing
      have noData := moves (by simpa [availOut, noOut] using positive) noOutput
      have noMore : more = [] := by
        rw [noData] at same
        exact (List.append_eq_nil_iff.mp same.symm).2
      rw [if_neg (by simpa using nothing)]
      refine ⟨call.2.1, ?_, ?_⟩
      · rw [nothing, noOut, noData]
        simp
      · rwa [noMore] at expands'
    · rw [if_pos (by simpa using nothing)]
      have lengths := congrArg List.length same
      rw [List.length_append] at lengths
      have fewer : more.length + (if ([] : List Byte) = [] then 0 else 1) < fuel := by
        rw [if_pos rfl]
        by_cases noOut : zd.out = []
        · have some' : call.2.2 ≠ [] := by
            intro none
            exact nothing (by rw [noOut, none]; rfl)
          have := List.length_pos_iff.mpr some'
          omega
        · rw [if_neg noOut] at enough
          omega
      obtain ⟨z, ran, final⟩ :=
        ih ⟨call.2.1, []⟩ (uncompressed ++ (zd.out ++ call.2.2)) more expands' fewer
      refine ⟨z, ?_, final⟩
      simp only [flushReady]
      rw [ran, same]
      simp

include correct positive in
/-- Given an empty decompressor and all of the input, the loops inflate all of the data, and
the decompressor is empty again. -/
theorem inflateAll_ok {compressed data : List Byte} (empty : zd.out = [])
    (expands : Expands zd.z compressed data) {fuel : Nat}
    (enough : compressed.length + data.length + 1 < fuel) :
    ∃ z, zd.inflateAll inflater outsize fuel compressed = some (⟨z, []⟩, data) ∧
      Expands z [] [] := by
  obtain ⟨zd', uncompressed', more, fed, whole, shorter, expands'⟩ :=
    feed_ok correct positive compressed fuel 0 zd [] data expands (by omega)
  obtain ⟨z, drained, final⟩ := drain_ok correct positive fuel zd' uncompressed' more expands'
    (by split <;> omega)
  refine ⟨z, ?_, final⟩
  rw [inflateAll, fed]
  simp only
  rw [drained, whole, empty]
  rfl

end Zdecompressor

end Redemption.Vnc
