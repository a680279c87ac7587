import Redemption.Vnc.ZrleRun

/-! The data of a ZRLE rectangle arrives in pieces, is inflated in pieces, and is drawn at
once. -/
namespace Redemption.Vnc

open Redemption.Foundation Redemption.Utils

variable {σ : Type}

/-- The encoder is done: what it has drawn, what it has left behind, and the decompressor. -/
structure Done (orders : List Drawn) (rest : List Byte) (zd : Zdecompressor σ)
    (outcome : Outcome (Zrle σ) Drawn) : Prop where
  finished : outcome.finished = true
  drawn : outcome.drawn = orders
  left : outcome.buf ++ outcome.unread.flatten = rest
  zd : outcome.encoder.zd = zd

section Drive

variable {setup : ZrleSetup σ} {compressed data rest : List Byte} {orders : List Drawn}
variable {zd : Zdecompressor σ}

private theorem data_complete {zrle : Zrle σ} {buf more : List Byte}
    (inflated : zrle.zd.inflateAll setup.inflater setup.outsize setup.rounds compressed =
      some (zd, data))
    (draws : libFramebufferUpdateZrle setup.Bpp setup.memory zrle.walk data = .ok orders)
    (length : zrle.zlibCompressedDataLength = compressed.length)
    (before : zrle.accumulator.length ≤ compressed.length)
    (enough : compressed.length ≤ zrle.accumulator.length + buf.length)
    (arrives : zrle.accumulator ++ (buf ++ more) = compressed ++ rest) :
    ∃ left, zrle.data setup buf =
        .ok ⟨.exit, { zrle with zd, accumulator := [], state := .exit }, left, orders⟩ ∧
      left ++ more = rest := by
  have split : zrle.accumulator ++ buf.take (compressed.length - zrle.accumulator.length) ++
      (buf.drop (compressed.length - zrle.accumulator.length) ++ more) = compressed ++ rest := by
    rw [← arrives, List.append_assoc, ← List.append_assoc (buf.take _), List.take_append_drop]
  have lengths : (zrle.accumulator ++
      buf.take (compressed.length - zrle.accumulator.length)).length = compressed.length := by
    rw [List.length_append, List.length_take]
    omega
  obtain ⟨front, back⟩ := List.append_inj split lengths
  refine ⟨_, ?_, back⟩
  rw [Zrle.data, if_neg (by omega)]
  simp only [length, front, Zrle.complete, inflated, draws, ok_bind, pure_ok]

/-- In the state `Data` the encoder collects the data until all of it is there. -/
theorem drive_data (chunks : List (List Byte)) {zrle : Zrle σ} {buf : List Byte}
    (nonempty : zrle.walk.r.isEmpty = false) (state : zrle.state = .data)
    (inflated : zrle.zd.inflateAll setup.inflater setup.outsize setup.rounds compressed =
      some (zd, data))
    (draws : libFramebufferUpdateZrle setup.Bpp setup.memory zrle.walk data = .ok orders)
    (length : zrle.zlibCompressedDataLength = compressed.length)
    (before : zrle.accumulator.length ≤ compressed.length)
    (arrives : zrle.accumulator ++ (buf ++ chunks.flatten) = compressed ++ rest)
    {fuel : Nat} (enough : chunks.length < fuel) :
    ∃ outcome, drive (Zrle.call setup) fuel zrle buf chunks [] = .ok outcome ∧
      Done orders rest zd outcome := by
  induction chunks generalizing zrle buf fuel with
  | nil =>
    obtain ⟨fuel, rfl⟩ := Nat.exists_eq_succ_of_ne_zero (Nat.ne_zero_of_lt enough)
    have all : compressed.length ≤ zrle.accumulator.length + buf.length := by
      have lengths := congrArg List.length arrives
      rw [List.length_append, List.length_append, List.length_append, List.flatten_nil,
        List.length_nil] at lengths
      omega
    obtain ⟨left, called, back⟩ := data_complete inflated draws length before all arrives
    refine ⟨_, by rw [drive, Zrle.call, nonempty, state]; simp only [called]; rfl, ?_⟩
    exact ⟨rfl, rfl, back, rfl⟩
  | cons chunk chunks ih =>
    obtain ⟨fuel, rfl⟩ := Nat.exists_eq_succ_of_ne_zero (Nat.ne_zero_of_lt enough)
    by_cases all : compressed.length ≤ zrle.accumulator.length + buf.length
    · obtain ⟨left, called, back⟩ := data_complete inflated draws length before all arrives
      refine ⟨_, by rw [drive, Zrle.call, nonempty, state]; simp only [called]; rfl, ?_⟩
      exact ⟨rfl, rfl, back, rfl⟩
    · have called : zrle.data setup buf =
          .ok ⟨.needMoreData, { zrle with accumulator := zrle.accumulator ++ buf }, [], []⟩ := by
        rw [Zrle.data, if_pos (by omega)]
      obtain ⟨outcome, ran, done⟩ := @ih { zrle with accumulator := zrle.accumulator ++ buf }
        ([] ++ chunk) nonempty state inflated draws length
        (by rw [List.length_append]; omega)
        (by rw [← arrives, List.flatten_cons]; simp) fuel (Nat.lt_of_succ_lt_succ enough)
      refine ⟨outcome, ?_, done⟩
      rw [drive, Zrle.call, nonempty, state]
      simp only [called]
      exact ran

/-- The length in front of the data. -/
def lengthHeader (length : Nat) : List Byte := (leBytes 4 length).reverse

@[simp] theorem length_lengthHeader (length : Nat) : (lengthHeader length).length = 4 := by
  simp [lengthHeader]

theorem beValue_lengthHeader {length : Nat} (short : length < 2 ^ 32) :
    beValue (lengthHeader length) = length := by
  rw [beValue, lengthHeader, List.reverse_reverse, leValue_leBytes]
  exact Nat.mod_eq_of_lt short

variable {chunks : List (List Byte)} {zrle : Zrle σ} {buf : List Byte}
  (nonempty : zrle.walk.r.isEmpty = false) (state : zrle.state = .header)
  (short : compressed.length < 2 ^ 32)
  (inflated : zrle.zd.inflateAll setup.inflater setup.outsize setup.rounds compressed =
    some (zd, data))
  (draws : libFramebufferUpdateZrle setup.Bpp setup.memory zrle.walk data = .ok orders)
  (arrives : buf ++ chunks.flatten = lengthHeader compressed.length ++ (compressed ++ rest))

include nonempty state short inflated draws arrives

private theorem drive_length (long : 4 ≤ buf.length) {fuel : Nat} (enough : chunks.length + 1 < fuel) :
    ∃ outcome, drive (Zrle.call setup) fuel zrle buf chunks [] = .ok outcome ∧
      Done orders rest zd outcome := by
  obtain ⟨fuel, rfl⟩ := Nat.exists_eq_succ_of_ne_zero (Nat.ne_zero_of_lt enough)
  have split : buf.take 4 ++ (buf.drop 4 ++ chunks.flatten) =
      lengthHeader compressed.length ++ (compressed ++ rest) := by
    rw [← arrives, ← List.append_assoc, List.take_append_drop]
  obtain ⟨front, back⟩ := List.append_inj split (by
    rw [List.length_take_of_le long, length_lengthHeader])
  have value : beValue (buf.take 4) = compressed.length := by
    rw [front]
    exact beValue_lengthHeader short
  obtain ⟨outcome, ran, done⟩ := @drive_data σ setup compressed data rest orders zd chunks
    { zrle with
      zlibCompressedDataLength := compressed.length
      accumulator := []
      state := .data } (buf.drop 4) nonempty rfl inflated draws rfl (Nat.zero_le _) back fuel
    (by omega)
  refine ⟨outcome, ?_, done⟩
  rw [drive, Zrle.call, nonempty, state]
  simp only [Zrle.header, if_neg (Nat.not_lt.mpr long), value]
  exact ran

/-- In the state `Header` the encoder waits for the length. -/
theorem drive_header {fuel : Nat} (enough : chunks.length + 1 < fuel) :
    ∃ outcome, drive (Zrle.call setup) fuel zrle buf chunks [] = .ok outcome ∧
      Done orders rest zd outcome := by
  induction chunks generalizing buf fuel with
  | nil =>
    have long : 4 ≤ buf.length := by
      have lengths := congrArg List.length arrives
      rw [List.flatten_nil, List.append_nil, List.length_append, length_lengthHeader] at lengths
      omega
    exact drive_length nonempty state short inflated draws arrives long enough
  | cons chunk chunks ih =>
    by_cases long : 4 ≤ buf.length
    · exact drive_length nonempty state short inflated draws arrives long enough
    · obtain ⟨fuel, rfl⟩ := Nat.exists_eq_succ_of_ne_zero (Nat.ne_zero_of_lt enough)
      rw [List.flatten_cons, ← List.append_assoc] at arrives
      have fewer : chunks.length + 1 < fuel := by
        rw [List.length_cons] at enough
        omega
      obtain ⟨outcome, ran, done⟩ := ih arrives fewer
      refine ⟨outcome, ?_, done⟩
      rw [drive, Zrle.call, nonempty, state]
      simp only [Zrle.header, if_pos (Nat.lt_of_not_le long)]
      exact ran

end Drive

/-- How the data of a rectangle arrives: compressed for a decompressor that is in step with the
server, and cut into what the reads of the socket give. -/
structure Arrival (σ : Type) (data : List Byte) where
  inflater : Inflater σ Byte
  outsize : Nat
  outsize_pos : 0 < outsize
  Expands : σ → List Byte → List Byte → Prop
  correct : inflater.Correct Expands
  zd : Zdecompressor σ
  empty : zd.out = []
  compressed : List Byte
  short : compressed.length < 2 ^ 32
  expands : Expands zd.z compressed data
  rest : List Byte
  chunks : List (List Byte)
  arrives : chunks.flatten = lengthHeader compressed.length ++ (compressed ++ rest)

namespace Arrival

variable {data : List Byte}

/-- The outcome of the calls at two bytes per pixel. -/
def outcome (arrival : Arrival σ data) (memory : TileData) (rect : Rect) (rounds : Nat) :
    Checked VncError (Outcome (Zrle σ) Drawn) :=
  drive (Zrle.call ⟨2, arrival.inflater, arrival.outsize, memory, rounds⟩) rounds
    (Zrle.new rect arrival.zd) [] arrival.chunks []

/-- As many rounds as the loops may need. -/
def bound (arrival : Arrival σ data) : Nat :=
  arrival.compressed.length + data.length + arrival.chunks.length + 2

end Arrival

/-- For every rectangle none of whose tiles starts past the coordinates of 16 bits and every
well-formed stream for it, the tiles drawn partition the rectangle and show the pixels of the
stream; how the data arrives and how it is inflated makes no difference, and what comes behind it
is left in the buffer. -/
theorem zrle_draws (memory : TileData) (rect : Rect) (fits : TileWalk.Fits 64 rect)
    (codes : List TileCode) (stream : StreamFor 2 rect.area codes) :
    ∃ orders, rect.area.Partition (orders.map Drawn.area) ∧
      DrawsStream rect.area codes orders ∧
      ∀ {σ : Type} (arrival : Arrival σ (streamBytes 2 codes)) (rounds : Nat),
        arrival.bound ≤ rounds →
        ∃ outcome, arrival.outcome memory rect rounds = .ok outcome ∧
          outcome.finished = true ∧ outcome.drawn = orders ∧
          (rect.isEmpty = false → outcome.buf ++ outcome.unread.flatten = arrival.rest ∧
            outcome.encoder.zd.out = [] ∧ arrival.Expands outcome.encoder.zd.z [] []) := by
  cases some' : rect.isEmpty with
  | true =>
    have none := TileWalk.count_of_isEmpty (show 0 < 64 by decide) some'
    have noCodes : codes = [] := by
      have count := stream.1
      exact List.eq_nil_of_length_eq_zero (by omega)
    subst noCodes
    refine ⟨[], DrawsStream.partition stream drawsFrom_nil, drawsFrom_nil, ?_⟩
    intro σ arrival rounds enough
    unfold Arrival.bound at enough
    obtain ⟨fuel, rfl⟩ := Nat.exists_eq_succ_of_ne_zero (show rounds ≠ 0 by omega)
    have called : Zrle.call ⟨2, arrival.inflater, arrival.outsize, memory, fuel + 1⟩
        (Zrle.new rect arrival.zd) [] = .ok ⟨.exit, Zrle.new rect arrival.zd, [], []⟩ :=
      if_pos some'
    refine ⟨⟨true, Zrle.new rect arrival.zd, [], arrival.chunks, []⟩, ?_, rfl, rfl, ?_⟩
    · rw [Arrival.outcome, drive, called]
      rfl
    · intro nonempty
      cases nonempty
  | false =>
    obtain ⟨wide, high⟩ := Rect.isEmpty_eq_false.mp some'
    obtain ⟨orders, draws, spelled⟩ :=
      @libFramebufferUpdateZrle_ok rect memory fits wide high codes stream
    refine ⟨orders, spelled.partition stream, spelled, ?_⟩
    intro σ arrival rounds enough
    unfold Arrival.bound at enough
    have loops : arrival.compressed.length + (streamBytes 2 codes).length + 1 < rounds := by omega
    obtain ⟨z, inflated, final⟩ := Zdecompressor.inflateAll_ok arrival.correct arrival.outsize_pos
      arrival.empty arrival.expands loops
    obtain ⟨outcome, ran, done⟩ := @drive_header σ
      ⟨2, arrival.inflater, arrival.outsize, memory, rounds⟩ arrival.compressed _ arrival.rest
      orders ⟨z, []⟩ arrival.chunks (Zrle.new rect arrival.zd) [] some' rfl arrival.short inflated
      draws arrival.arrives rounds (by omega)
    refine ⟨outcome, ran, done.finished, done.drawn, ?_⟩
    intro _
    rw [done.zd]
    exact ⟨done.left, rfl, final⟩

/-- A rectangle of 66 by 2 pixels, one tile of which is solid and the other a plain run of four. -/
def smallRect : Rect := Rect.of 10 20 66 2

def smallCodes : List TileCode := [.solid 0xF800, .plainRle [(0x07E0, 3), (0x001F, 1)]]

theorem small_stream : StreamFor 2 smallRect.area smallCodes := by
  refine ⟨by decide, ?_⟩
  intro offset code stands
  match offset, stands with
  | 0, stands =>
    cases stands
    exact (by decide : 0xF800 < 2 ^ (8 * 2))
  | 1, stands =>
    cases stands
    exact ⟨by decide, by decide⟩
  | offset + 2, stands => simp [smallCodes] at stands

/-- The data of a rectangle as a server sends it that does not compress, in two pieces. -/
def plainArrival (data : List Byte) (short : data.length < 2 ^ 32) : Arrival (List Byte) data where
  inflater := copying Byte
  outsize := 4
  outsize_pos := by decide
  Expands held compressed data := data = held ++ compressed
  correct := copying_correct Byte
  zd := ⟨[], []⟩
  empty := rfl
  compressed := data
  short := short
  expands := rfl
  rest := [7]
  chunks := [(lengthHeader data.length).take 3, (lengthHeader data.length).drop 3 ++ (data ++ [7])]
  arrives := by
    rw [List.flatten_cons, List.flatten_cons, List.flatten_nil, List.append_nil,
      ← List.append_assoc, List.take_append_drop]

/-- The drawing of the small rectangle. -/
theorem zrle_draws_small :
    ∃ orders, smallRect.area.Partition (orders.map Drawn.area) ∧
      DrawsStream smallRect.area smallCodes orders ∧
      ∃ outcome, (plainArrival (streamBytes 2 smallCodes) (by decide)).outcome (Buffer.filled 0)
        smallRect 100 =
        .ok outcome ∧ outcome.finished = true ∧ outcome.drawn = orders := by
  obtain ⟨orders, partition, draws, every⟩ :=
    zrle_draws (Buffer.filled 0) smallRect (by constructor <;> decide) smallCodes small_stream
  obtain ⟨outcome, ran, finished, drawn, _⟩ :=
    every (plainArrival (streamBytes 2 smallCodes) (by decide)) 100 (by decide)
  exact ⟨orders, partition, draws, outcome, ran, finished, drawn⟩

/-- A rectangle whose second tile starts past the largest coordinate. -/
def pastRight : Rect := Rect.of 32760 0 100 1

def pastRightCodes : List TileCode := [.solid 0, .solid 0]

theorem pastRight_stream : StreamFor 2 pastRight.area pastRightCodes := by
  refine ⟨by decide, ?_⟩
  intro offset code stands
  match offset, stands with
  | 0, stands =>
    cases stands
    exact (by decide : 0 < 2 ^ (8 * 2))
  | 1, stands =>
    cases stands
    exact (by decide : 0 < 2 ^ (8 * 2))
  | offset + 2, stands => simp [pastRightCodes] at stands

/-- The coordinate of its second tile wraps around, and the tile is drawn at the left. -/
theorem zrle_draws_past_right :
    StreamFor 2 pastRight.area pastRightCodes ∧
      ∃ outcome, (plainArrival (streamBytes 2 pastRightCodes) (by decide)).outcome
          (Buffer.filled 0) pastRight 100 = .ok outcome ∧
        outcome.finished = true ∧ ¬pastRight.area.Partition (outcome.drawn.map Drawn.area) := by
  refine ⟨pastRight_stream, _, rfl, rfl, ?_⟩
  intro partition
  have member : (⟨-32712, 0, 36, 1⟩ : Area) ∈
      [(⟨32760, 0, 64, 1⟩ : Area), ⟨-32712, 0, 36, 1⟩] := by decide
  have inside := partition.inside _ member (-32712) 0 (by decide)
  revert inside
  decide

end Redemption.Vnc
