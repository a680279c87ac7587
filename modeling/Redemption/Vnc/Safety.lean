import Redemption.Foundation.Machine
import Redemption.Vnc.Cursor
import Redemption.Vnc.Hextile
import Redemption.Vnc.Rre
import Redemption.Vnc.ZrleSafety

/-! The encoders under a hostile server: when every call stays inside of the memory that belongs
to it. -/
namespace Redemption.Vnc

open Redemption.Foundation Redemption.Utils

/-- The encoders of `FrameBufferUpdateCtx` that read pixels. -/
inductive EncoderKind where
  | raw
  | rre
  | hextile
  | zrle
  | cursor
  deriving DecidableEq, Repr

/-- An encoder at work; `σ` are the states of the decompressor. -/
inductive RectEncoder (σ : Type) where
  | raw (raw : Raw)
  | rre (rre : RRE)
  | hextile (hextile : Hextile)
  | zrle (zrle : Zrle σ)
  | cursor (cursor : Cursor)

/-- What an encoder gives to the drawable. -/
inductive Order where
  | draw (drawn : Drawn)
  | newPointer (pointer : VncPointer)

/-- What a rectangle is decoded with: the size of a pixel and its format, the decompressor, how
many rounds of its loops are followed, and what memory happens to hold. -/
structure DecodeSetup (σ : Type) where
  Bpp : Nat
  format : PixelFormat
  inflater : Inflater σ Byte
  outsize : Nat
  rounds : Nat
  zd : Zdecompressor σ
  memory : Nat → Byte

namespace DecodeSetup

variable {σ : Type} (setup : DecodeSetup σ)

def zrle : ZrleSetup σ :=
  ⟨setup.Bpp, setup.inflater, setup.outsize, ⟨setup.memory⟩, setup.rounds⟩

def masks : PointerMasks := ⟨⟨setup.memory⟩, ⟨setup.memory⟩⟩

end DecodeSetup

def Answer.map {σ τ ο π : Type} (wrap : σ → τ) (order : ο → π) (answer : Answer σ ο) :
    Answer τ π :=
  ⟨answer.state, wrap answer.encoder, answer.buf, answer.drawn.map order⟩

namespace RectEncoder

variable {σ : Type} (setup : DecodeSetup σ)

/-- The encoder that is made for a rectangle. -/
def make (kind : EncoderKind) (rect : Rect) : Checked VncError (RectEncoder σ) :=
  match kind with
  | .raw => .ok (.raw ⟨setup.Bpp, rect⟩)
  | .rre => do
    let rre ← RRE.make setup.memory setup.Bpp rect
    return .rre rre
  | .hextile => .ok (.hextile (Hextile.make setup.Bpp rect))
  | .zrle => .ok (.zrle (Zrle.new rect setup.zd))
  | .cursor => .ok (.cursor ⟨setup.Bpp, rect, setup.format⟩)

/-- `operator()` of the encoder. -/
def call (encoder : RectEncoder σ) (buf : List Byte) :
    Checked VncError (Answer (RectEncoder σ) Order) :=
  match encoder with
  | raw encoder => do
    let answer ← encoder.call buf
    return answer.map RectEncoder.raw Order.draw
  | rre encoder => do
    let answer ← encoder.call buf
    return answer.map RectEncoder.rre Order.draw
  | hextile encoder => do
    let answer ← encoder.call ⟨setup.memory⟩ buf
    return answer.map RectEncoder.hextile Order.draw
  | zrle encoder => do
    let answer ← encoder.call setup.zrle buf
    return answer.map RectEncoder.zrle Order.draw
  | cursor encoder => do
    let answer ← encoder.call setup.masks buf
    return answer.map RectEncoder.cursor Order.newPointer

/-- A call accesses only memory of the encoder and bytes that are there, and a subrectangle
outside of the rectangle ends in an error. -/
structure Good (encoder : RectEncoder σ) (buf : List Byte) : Prop where
  sound : encoder.call setup buf ≠ .error .outOfBounds
  outside : ∀ inner subrec, encoder = .rre inner → inner.Next buf subrec →
    ¬subrec.Inside inner.rect → ∃ error, encoder.call setup buf = .error (.raised error)

/-- The subrectangle that comes next lies inside of the rectangle; every tile of the data that is
decoded next finds the pixel of a solid tile and refers to entries of its palette. -/
def Allowed (encoder : RectEncoder σ) (buf : List Byte) : Prop :=
  match encoder with
  | rre encoder => encoder.Allowed buf
  | zrle encoder => encoder.Allowed setup.zrle buf
  | _ => True

/-- What holds of an encoder between the calls. -/
def Invariant (encoder : RectEncoder σ) : Prop :=
  match encoder with
  | raw _ => True
  | rre encoder => encoder.Reserved
  | hextile encoder => encoder.Fits
  | zrle encoder => encoder.Ready
  | cursor encoder =>
    encoder.rect.cx * encoder.rect.cy * encoder.Bpp < 2 ^ 31 ∧ encoder.rect.cy ≤ 32768

end RectEncoder

/-- The calls of an encoder: one that goes on, with what is unread, or the end of them. -/
inductive Session (σ : Type) where
  | running (encoder : RectEncoder σ) (buf : List Byte)
  | stopped

namespace Session

variable {σ : Type} (setup : DecodeSetup σ)

/-- A call after more bytes have come in; an exit or an error is the last. -/
def step : Session σ → List Byte → Session σ × List Order
  | stopped, _ => (stopped, [])
  | running encoder buf, chunk =>
    match encoder.call setup (buf ++ chunk) with
    | .error _ => (stopped, [])
    | .ok answer =>
      (if answer.state = .exit then stopped else running answer.encoder answer.buf, answer.drawn)

def machine : Machine (Session σ) (List Byte) (List Order) where
  step := step setup

/-- The session of a new encoder. -/
def start (kind : EncoderKind) (rect : Rect) : Session σ :=
  match RectEncoder.make setup kind rect with
  | .ok encoder => running encoder []
  | .error _ => stopped

def Good (session : Session σ) (chunk : List Byte) : Prop :=
  ∀ encoder buf, session = running encoder buf → encoder.Good setup (buf ++ chunk)

def Allowed (session : Session σ) (chunk : List Byte) : Prop :=
  ∀ encoder buf, session = running encoder buf → encoder.Allowed setup (buf ++ chunk)

def Invariant (session : Session σ) : Prop :=
  ∀ encoder buf, session = running encoder buf → encoder.Invariant

end Session

section Calls

variable {σ : Type} {setup : DecodeSetup σ} {encoder : RectEncoder σ}

/-- A call through the sum does what the call of the encoder does. -/
theorem map_sound_iff {τ ο : Type} {run : Checked VncError (Answer τ ο)}
    (wrap : τ → RectEncoder σ) (order : ο → Order) :
    (do let answer ← run; return answer.map wrap order : Checked VncError _) ≠
      .error .outOfBounds ↔ Sound run fun _ => True := by
  rw [sound_true_iff]
  match run with
  | .ok answer => simp
  | .error (.raised error) => simp
  | .error .outOfBounds => simp

theorem good_iff (positive : 0 < setup.Bpp) (pixel : setup.Bpp ≤ 4)
    (invariant : encoder.Invariant) (buf : List Byte) :
    encoder.Good setup buf ↔ encoder.Allowed setup buf := by
  cases encoder with
  | raw inner =>
    refine ⟨fun _ => trivial, fun _ => ⟨?_, ?_⟩⟩
    · exact (map_sound_iff _ _).mpr (inner.call_sound buf)
    · intro other subrec same
      cases same
  | rre inner =>
    rw [RectEncoder.Allowed, ← RRE.good_iff invariant buf]
    constructor
    · intro good
      refine ⟨(map_sound_iff _ _).mp good.sound, ?_⟩
      intro subrec next outside
      obtain ⟨error, raised⟩ := good.outside inner subrec rfl next outside
      refine ⟨error, ?_⟩
      rw [RectEncoder.call] at raised
      cases called : inner.call buf with
      | ok answer =>
        rw [called] at raised
        cases raised
      | error fault =>
        rw [called] at raised
        cases raised
        rfl
    · intro good
      refine ⟨(map_sound_iff _ _).mpr good.sound, ?_⟩
      intro other subrec same next outside
      cases same
      obtain ⟨error, raised⟩ := good.outside subrec next outside
      refine ⟨error, ?_⟩
      rw [RectEncoder.call, raised]
      rfl
  | hextile inner =>
    refine ⟨fun _ => trivial, fun _ => ⟨?_, ?_⟩⟩
    · exact (map_sound_iff _ _).mpr ((Hextile.call_sound invariant buf).mono fun _ _ => trivial)
    · intro other subrec same
      cases same
  | zrle inner =>
    rw [RectEncoder.Allowed, ← @Zrle.call_sound_iff σ setup.zrle inner positive pixel invariant buf]
    constructor
    · intro good
      exact (map_sound_iff _ _).mp good.sound
    · intro sound
      refine ⟨(map_sound_iff _ _).mpr sound, ?_⟩
      intro other subrec same
      cases same
  | cursor inner =>
    refine ⟨fun _ => trivial, fun _ => ⟨?_, ?_⟩⟩
    · exact (map_sound_iff _ _).mpr
        ((Cursor.call_sound invariant.1 invariant.2 buf).mono fun _ _ => trivial)
    · intro other subrec same
      cases same

theorem call_invariant (invariant : encoder.Invariant) {buf : List Byte}
    (allowed : encoder.Allowed setup buf) {answer : Answer (RectEncoder σ) Order}
    (called : encoder.call setup buf = .ok answer) : answer.encoder.Invariant := by
  cases encoder with
  | raw inner =>
    obtain ⟨inside, _, same⟩ := bind_ok_iff.mp called
    cases same
    trivial
  | rre inner =>
    obtain ⟨inside, ran, same⟩ := bind_ok_iff.mp called
    cases same
    exact (RRE.call_sound invariant allowed).of_ok ran
  | hextile inner =>
    obtain ⟨inside, ran, same⟩ := bind_ok_iff.mp called
    cases same
    exact (Hextile.call_sound invariant buf).of_ok ran
  | zrle inner =>
    obtain ⟨inside, ran, same⟩ := bind_ok_iff.mp called
    cases same
    obtain ⟨rect, start⟩ := invariant
    exact ⟨rect, (Zrle.call_walk ran).trans start⟩
  | cursor inner =>
    obtain ⟨inside, ran, same⟩ := bind_ok_iff.mp called
    cases same
    have kept := (Cursor.call_sound invariant.1 invariant.2 buf).of_ok ran
    change RectEncoder.Invariant (.cursor inside.encoder)
    rw [kept]
    exact invariant

/-- The number of bytes of a rectangle fits an `int`, for the encoders that compute it. -/
def SizeFits (kind : EncoderKind) (Bpp : Nat) (rect : Rect) : Prop :=
  kind = .rre ∨ kind = .cursor → rect.cx * rect.cy * Bpp < 2 ^ 31

theorem start_invariant (positive : 0 < setup.Bpp) (pixel : setup.Bpp ≤ 4) {kind : EncoderKind}
    {x y : BitVec 16} {width height : Nat}
    (fits : SizeFits kind setup.Bpp (Rect.of x y width height)) :
    (Session.start setup kind (Rect.of x y width height)).Invariant := by
  intro encoder buf same
  cases kind with
  | raw =>
    cases same
    trivial
  | rre =>
    have reserved := RRE.make_reserved setup.memory positive (fits (.inl rfl))
    simp only [Session.start, RectEncoder.make] at same
    cases made : RRE.make setup.memory setup.Bpp (Rect.of x y width height) with
    | ok rre =>
      rw [made] at same
      cases same
      exact reserved.of_ok made
    | error fault =>
      rw [made] at same
      cases same
  | hextile =>
    cases same
    exact Hextile.make_fits pixel _
  | zrle =>
    cases same
    exact ⟨_, rfl⟩
  | cursor =>
    cases same
    refine ⟨fits (.inr rfl), ?_⟩
    unfold Rect.of
    split
    · rename_i bounds
      exact bounds.2.2
    · exact Nat.zero_le _

end Calls

variable {σ : Type}

/-- Pixels of two bytes, and data that does not compress. -/
def plainSetup : DecodeSetup (List Byte) where
  Bpp := 2
  format := ⟨⟨11, 31⟩, ⟨5, 63⟩, ⟨0, 31⟩⟩
  inflater := copying Byte
  outsize := 64
  rounds := 8
  zd := ⟨[], []⟩
  memory := fun _ => 0

/-- One subrectangle of a single pixel, at the given line. -/
def onePixel (y : Byte) : List (List Byte) :=
  [[0, 0, 0, 1, 0, 0], [0xFF, 0xFF, 0, 0, 0, y, 0, 1, 0, 1]]

end Redemption.Vnc
