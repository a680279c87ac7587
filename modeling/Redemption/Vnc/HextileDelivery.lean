import Redemption.Vnc.HextileTiles

/-! A Hextile rectangle is drawn as the protocol defines it, in whatever pieces it arrives. -/
namespace Redemption.Vnc

open Redemption.Foundation Redemption.Utils

section Stream

variable {Bpp : Nat} {rect : Rect} {carried : Carried}

/-- The colours that can be taken over are pixels. -/
structure Carried.Small (Bpp : Nat) (carried : Carried) : Prop where
  background : ∀ color, carried.background = some color → color < 2 ^ (8 * Bpp)
  foreground : ∀ color, carried.foreground = some color → color < 2 ^ (8 * Bpp)

theorem colorAt_small {limit background : Nat} {color : Subrect → Nat} {list : List Subrect}
    (small : background < limit) (each : ∀ subrect ∈ list, color subrect < limit)
    (column line : Nat) : colorAt background color list column line < limit := by
  unfold colorAt
  induction list generalizing background with
  | nil => exact small
  | cons subrect list ih =>
    rw [List.foldl_cons]
    apply ih
    · split
      · exact each subrect List.mem_cons_self
      · exact small
    · exact fun other member => each other (List.mem_cons_of_mem _ member)

section Colors

variable {width height background foreground : Nat} {tileType : Byte} {list : List Subrect}

theorem background_small (small : carried.Small Bpp) (given : background < 2 ^ (8 * Bpp)) :
    HextileCode.background carried tileType background < 2 ^ (8 * Bpp) := by
  unfold HextileCode.background
  split
  · exact given
  · cases taken : carried.background with
    | none => exact Nat.two_pow_pos _
    | some color => exact small.background color taken

theorem foreground_small (small : carried.Small Bpp) (given : foreground < 2 ^ (8 * Bpp))
    {color : Nat} (known : HextileCode.foreground carried tileType foreground = some color) :
    color < 2 ^ (8 * Bpp) := by
  unfold HextileCode.foreground at known
  split at known
  · rw [← Option.some.inj known]
    exact given
  · exact small.foreground color known

theorem subrectColor_small (small : carried.Small Bpp)
    (fit : HextileCode.SubrectsFit Bpp carried width height tileType background foreground list)
    {subrect : Subrect} (member : subrect ∈ list) :
    HextileCode.subrectColor carried tileType foreground subrect < 2 ^ (8 * Bpp) := by
  unfold HextileCode.subrectColor
  split
  · exact fit.colors subrect member
  · cases known : HextileCode.foreground carried tileType foreground with
    | none => exact Nat.two_pow_pos _
    | some color => exact foreground_small small fit.givenForeground known

end Colors

variable {width height : Nat} {code : HextileCode}

theorem pixels_small (small : carried.Small Bpp)
    (wellFormed : code.WellFormed Bpp carried width height) :
    ∀ pixel ∈ code.pixels carried width height, pixel < 2 ^ (8 * Bpp) := by
  cases code with
  | raw tileType pixels => exact wellFormed.2.2
  | subrects tileType background foreground list =>
    have fit : HextileCode.SubrectsFit Bpp carried width height tileType background foreground
      list := wellFormed
    intro pixel member
    obtain ⟨place, _, rfl⟩ := List.mem_map.mp member
    exact colorAt_small (background_small small fit.givenBackground)
      (fun subrect => subrectColor_small small fit) _ _

theorem carries_small (small : carried.Small Bpp)
    (wellFormed : code.WellFormed Bpp carried width height) :
    (code.carries carried).Small Bpp := by
  cases code with
  | raw tileType pixels =>
    constructor
    · intro color taken
      cases taken
    · intro color taken
      cases taken
  | subrects tileType background foreground list =>
    have fit : HextileCode.SubrectsFit Bpp carried width height tileType background foreground
      list := wellFormed
    constructor
    · intro color taken
      rw [← Option.some.inj taken]
      exact background_small small fit.givenBackground
    · intro color taken
      simp only [HextileCode.carries] at taken
      split at taken
      · cases taken
      · exact foreground_small small fit.givenForeground taken

theorem HextileFrom.count {area : Area} {index : Nat} {codes : List HextileCode}
    (stream : HextileFrom Bpp area index carried codes) :
    index + codes.length = TileGrid.count 16 area := by
  induction codes generalizing index carried with
  | nil => exact stream
  | cons code codes ih =>
    have := ih stream.2
    rw [List.length_cons]
    omega

/-- The orders that draw the codes from the current tile of a walk on. -/
def HextilePaints (Bpp : Nat) : TileWalk → Carried → List HextileCode → List Drawn → Prop
  | walk, carried, code :: codes, order :: orders =>
    code.WellFormed Bpp carried walk.tile.cx walk.tile.cy ∧
      drawTile Bpp walk.tile
        (pixelBytes Bpp (code.pixels carried walk.tile.cx walk.tile.cy)) = .ok order ∧
      match walk.nextTile 16 with
      | none => codes = [] ∧ orders = []
      | some next => HextilePaints Bpp next (code.carries carried) codes orders
  | _, _, _, _ => False

theorem paints_of_stream (fits : TileWalk.Fits 16 rect) (codes : List HextileCode) {index : Nat}
    {walk : TileWalk} (at' : TileWalk.At 16 rect index walk)
    (some' : index < TileGrid.count 16 rect.area) (small : carried.Small Bpp)
    (stream : HextileFrom Bpp rect.area index carried codes) :
    ∃ orders, HextilePaints Bpp walk carried codes orders ∧
      HextileDraws rect.area index carried codes orders := by
  induction codes generalizing index walk carried with
  | nil =>
    have last : index = TileGrid.count 16 rect.area := stream
    omega
  | cons code codes ih =>
    obtain ⟨wellFormed, stream⟩ := stream
    have place := at'.area_eq (by decide) some' fits
    have width : (TileGrid.tile 16 rect.area index).width = walk.tile.cx := by rw [← place]; rfl
    have height : (TileGrid.tile 16 rect.area index).height = walk.tile.cy := by
      rw [← place]
      rfl
    have wellFormed' := wellFormed
    rw [width, height] at wellFormed'
    obtain ⟨order, drawn, draws⟩ := @drawTile_ok Bpp walk.tile
      (code.pixels carried walk.tile.cx walk.tile.cy) (Hextile.count_of_wellFormed wellFormed')
      (pixels_small small wellFormed') []
    rw [List.append_nil] at drawn
    rw [place, ← width, ← height] at draws
    rcases at'.next (by decide) (by decide) some' with ⟨more, next, stepped, at''⟩ | ⟨last, stepped⟩
    · obtain ⟨orders, paints, rest⟩ := ih at'' more (carries_small small wellFormed) stream
      refine ⟨order :: orders, ⟨wellFormed', drawn, ?_⟩, draws, rest⟩
      rw [stepped]
      exact paints
    · have count := stream.count
      have none : codes = [] := List.eq_nil_of_length_eq_zero (by omega)
      subst none
      refine ⟨[order], ⟨wellFormed', drawn, ?_⟩, draws, trivial⟩
      rw [stepped]
      exact ⟨rfl, rfl⟩

theorem HextileDraws.areas {area : Area} {index : Nat} {codes : List HextileCode}
    {orders : List Drawn} (draws : HextileDraws area index carried codes orders) :
    orders.map Drawn.area = (List.range' index codes.length).map (TileGrid.tile 16 area) := by
  induction codes generalizing index carried orders with
  | nil =>
    cases orders with
    | nil => rfl
    | cons order orders => cases draws
  | cons code codes ih =>
    cases orders with
    | nil => cases draws
    | cons order orders =>
      obtain ⟨first, rest⟩ := draws
      rw [List.map_cons, List.length_cons, List.range'_succ, List.map_cons, first.1, ih rest]

theorem HextileDraws.partition {area : Area} {codes : List HextileCode} {orders : List Drawn}
    (stream : HextileFor Bpp area codes) (draws : HextileDraws area 0 carried codes orders) :
    area.Partition (orders.map Drawn.area) := by
  have count := stream.count
  rw [Nat.zero_add] at count
  rw [draws.areas, count, ← List.range_eq_range']
  exact TileGrid.partition_tiles (by decide) area

end Stream

section Calls

open Hextile

variable {rest : List Byte}

/-- An encoder between two calls: what is left to decode, and what that will draw. -/
structure Pending (carried : Carried) (codes : List HextileCode) (orders : List Drawn)
    (hextile : Hextile) : Prop where
  fits : hextile.Fits
  nonempty : hextile.walk.r.isEmpty = false
  paints : HextilePaints hextile.Bpp hextile.walk carried codes orders
  ready : ∀ code later, codes = code :: later → ReadyFor carried code hextile

theorem nextTile_r {side : Nat} {walk next : TileWalk} (stepped : walk.nextTile side = some next) :
    next.r = walk.r := by
  unfold TileWalk.nextTile at stepped
  split at stepped
  · split at stepped
    · cases stepped
    · cases stepped
      rfl
  · cases stepped
    rfl

theorem Pending.cons {carried : Carried} {codes : List HextileCode} {orders : List Drawn}
    {hextile : Hextile} (pending : Pending carried codes orders hextile) :
    ∃ code later order others, codes = code :: later ∧ orders = order :: others := by
  have paints := pending.paints
  cases codes with
  | nil => cases orders <;> cases paints
  | cons code later =>
    cases orders with
    | nil => cases paints
    | cons order others => exact ⟨code, later, order, others, rfl, rfl⟩

theorem bytes_pos (Bpp : Nat) (code : HextileCode) : 0 < (code.bytes Bpp).length := by
  cases code <;> exact Nat.succ_pos _

/-- The encoder has come to its end, or it waits for the end of a tile. -/
def Answers (rest more : List Byte) (drawn orders : List Drawn) (answer : Answer Hextile Drawn) :
    Prop :=
  (answer.state = .exit ∧ answer.drawn = drawn ++ orders ∧ answer.buf ++ more = rest) ∨
    (answer.state = .needMoreData ∧ more ≠ [] ∧
      ∃ carried codes front later, orders = front ++ later ∧ answer.drawn = drawn ++ front ∧
        Pending carried codes later answer.encoder ∧
        answer.buf ++ more = hextileBytes answer.encoder.Bpp codes ++ rest)

section Tile

variable {memory : HexTileData} {hextile : Hextile} {carried : Carried} {code : HextileCode}
variable {codes : List HextileCode} {order : Drawn} {orders : List Drawn}

/-- A tile whose end is missing stays in front of the buffer, and the encoder goes on waiting. -/
theorem Pending.waits (pending : Pending carried (code :: codes) orders hextile)
    {buf missing : List Byte} (some' : buf ≠ []) (part : missing ≠ [])
    (split : code.bytes hextile.Bpp = buf ++ missing) (paints : orders ≠ []) :
    ∃ hextile', hextile.decodeTile memory buf = .ok (hextile', none) ∧
      hextile'.Bpp = hextile.Bpp ∧ Pending carried (code :: codes) orders hextile' := by
  obtain ⟨order, others, rfl⟩ := List.exists_cons_of_ne_nil paints
  obtain ⟨hextile', decoded, ⟨walk, pixel⟩, ready⟩ :=
    @decodeTile_part hextile carried memory code (pending.ready code codes rfl) pending.paints.1
      buf missing split.symm some' part
  refine ⟨hextile', decoded, pixel, ⟨⟨?_, ?_⟩, ?_, ?_, ?_⟩⟩
  · rw [pixel]
    exact pending.fits.pixel
  · rw [walk]
    exact pending.fits.tile
  · rw [walk]
    exact pending.nonempty
  · rw [pixel, walk]
    exact pending.paints
  · intro other later same
    cases same
    exact ready

/-- A tile that is there is drawn, and the encoder is ready for the next. -/
theorem Pending.draws (pending : Pending carried (code :: codes) (order :: orders) hextile)
    (left : List Byte) :
    ∃ hextile', hextile.decodeTile memory (code.bytes hextile.Bpp ++ left) =
        .ok (hextile', some (order, left)) ∧
      hextile'.Bpp = hextile.Bpp ∧ hextile'.walk = hextile.walk ∧
      match hextile.walk.nextTile 16 with
      | none => codes = [] ∧ orders = []
      | some next => Pending (code.carries carried) codes orders { hextile' with walk := next } := by
  obtain ⟨wellFormed, draws, following⟩ := pending.paints
  obtain ⟨hextile', decoded, ⟨walk, pixel⟩, holds⟩ :=
    @decodeTile_whole hextile carried memory code order pending.fits
      (pending.ready code codes rfl) wellFormed draws left
  simp only at walk pixel
  refine ⟨hextile', decoded, pixel, walk, ?_⟩
  cases stepped : hextile.walk.nextTile 16 with
  | none =>
    rw [stepped] at following
    exact following
  | some next =>
    rw [stepped] at following
    refine ⟨⟨?_, pending.fits.tile.next stepped⟩, ?_, ?_, ?_⟩
    · simp only [pixel]
      exact pending.fits.pixel
    · simp only [nextTile_r stepped]
      exact pending.nonempty
    · simp only [pixel]
      exact following
    · intro other later _
      have ready := holds.readyFor other
      cases other with
      | raw tileType pixels => trivial
      | subrects tileType background foreground list =>
        exact ⟨ready.background, ready.foreground⟩

end Tile

theorem Answers.prepend {more : List Byte} {drawn orders : List Drawn} {order : Drawn}
    {answer : Answer Hextile Drawn} (answers : Answers rest more (drawn ++ [order]) orders answer) :
    Answers rest more drawn (order :: orders) answer := by
  rcases answers with ⟨state, all, left⟩ | ⟨state, part, carried, codes, front, later, split, some',
    pending, arrives⟩
  · exact .inl ⟨state, by rw [all, List.append_assoc, List.singleton_append], left⟩
  · refine .inr ⟨state, part, carried, codes, order :: front, later, ?_, ?_, pending, arrives⟩
    · rw [split, List.cons_append]
    · rw [some', List.append_assoc, List.singleton_append]

theorem tiles_run (memory : HexTileData) (codes : List HextileCode) {orders : List Drawn}
    {hextile : Hextile} {carried : Carried} (pending : Pending carried codes orders hextile)
    {buf more : List Byte} (arrives : buf ++ more = hextileBytes hextile.Bpp codes ++ rest)
    {fuel lastRemaining : Nat} (enough : buf.length < fuel)
    (progress : lastRemaining = 0 ∨ buf.length < lastRemaining) (drawn : List Drawn) :
    ∃ answer, tiles memory fuel hextile buf lastRemaining drawn = .ok answer ∧
      Answers rest more drawn orders answer := by
  induction codes generalizing orders hextile carried buf fuel lastRemaining drawn with
  | nil =>
    obtain ⟨code, later, order, others, none, _⟩ := pending.cons
    cases none
  | cons code codes ih =>
    obtain ⟨_, _, order, others, _, rfl⟩ := pending.cons
    obtain ⟨fuel, rfl⟩ := Nat.exists_eq_succ_of_ne_zero (show fuel ≠ 0 by omega)
    have spelled := bytes_pos hextile.Bpp code
    have front : buf ++ more =
        code.bytes hextile.Bpp ++ (hextileBytes hextile.Bpp codes ++ rest) := by
      rw [arrives, hextileBytes, List.flatMap_cons, List.append_assoc, ← hextileBytes]
    have lengths := congrArg List.length front
    simp only [List.length_append] at lengths
    by_cases empty : buf.length = 0
    · refine ⟨⟨.needMoreData, hextile, buf, drawn⟩, by rw [tiles, if_pos empty], .inr ⟨rfl, ?_,
        carried, _, [], _, rfl, by rw [List.append_nil], pending, arrives⟩⟩
      intro none
      rw [none, List.length_nil] at lengths
      omega
    · have moved : ¬buf.length = lastRemaining := by omega
      by_cases whole : (code.bytes hextile.Bpp).length ≤ buf.length
      · obtain ⟨left, rfl⟩ : ∃ left, buf = code.bytes hextile.Bpp ++ left :=
          List.prefix_of_prefix_length_le (List.prefix_append _ _)
            (front ▸ List.prefix_append _ _) whole |>.imp fun _ => Eq.symm
        rw [List.append_assoc] at front
        have behind := List.append_cancel_left front
        rw [List.length_append] at enough
        obtain ⟨hextile', decoded, pixel, walk, following⟩ := @Pending.draws memory _ _ _ _ _ _
          pending left
        cases stepped : hextile.walk.nextTile 16 with
        | none =>
          rw [stepped] at following
          obtain ⟨rfl, rfl⟩ := following
          refine ⟨⟨.exit, hextile', left, drawn ++ [order]⟩, ?_, .inl ⟨rfl, rfl, behind⟩⟩
          rw [tiles, if_neg empty, if_neg moved, decoded, ok_bind]
          simp only [walk, stepped]
          rfl
        | some next =>
          rw [stepped] at following
          obtain ⟨answer, ran, answers⟩ := @ih others { hextile' with walk := next } _ following
            left (by simp only [pixel]; exact behind) fuel
            (code.bytes hextile.Bpp ++ left).length (by omega)
            (.inr (by rw [List.length_append]; omega)) (drawn ++ [order])
          refine ⟨answer, ?_, answers.prepend⟩
          rw [tiles, if_neg empty, if_neg moved, decoded, ok_bind]
          simp only [walk, stepped]
          exact ran
      · obtain ⟨missing, split⟩ : ∃ missing, code.bytes hextile.Bpp = buf ++ missing :=
          List.prefix_of_prefix_length_le (front ▸ List.prefix_append _ _)
            (List.prefix_append _ _) (Nat.le_of_not_le whole) |>.imp fun _ => Eq.symm
        have part : missing ≠ [] := by
          intro none
          rw [none, List.append_nil] at split
          rw [split] at whole
          exact whole (Nat.le_refl _)
        obtain ⟨hextile', decoded, pixel, pending'⟩ := @Pending.waits memory _ _ _ _ _ pending _ _
          (fun none => empty (by rw [none]; rfl)) part split (List.cons_ne_nil _ _)
        refine ⟨⟨.needMoreData, hextile', buf, drawn⟩, ?_, .inr ⟨rfl, ?_, carried, code :: codes, [],
          order :: others, rfl, by rw [List.append_nil], pending', ?_⟩⟩
        · rw [tiles, if_neg empty, if_neg moved, decoded, ok_bind]
          rfl
        · intro none
          rw [none, List.length_nil] at lengths
          omega
        · simp only [pixel]
          exact arrives

theorem call_run (memory : HexTileData) {codes : List HextileCode} {orders : List Drawn}
    {hextile : Hextile} {carried : Carried} (pending : Pending carried codes orders hextile)
    {buf more : List Byte} (arrives : buf ++ more = hextileBytes hextile.Bpp codes ++ rest) :
    ∃ answer, hextile.call memory buf = .ok answer ∧ Answers rest more [] orders answer := by
  rw [Hextile.call, if_neg (by rw [pending.nonempty]; exact Bool.false_ne_true)]
  exact tiles_run memory codes pending arrives (Nat.lt_succ_self _) (.inl rfl) []

theorem drive_tiles (memory : HexTileData) (chunks : List (List Byte)) {codes : List HextileCode}
    {orders : List Drawn} {hextile : Hextile} {carried : Carried}
    (pending : Pending carried codes orders hextile) {buf : List Byte}
    (arrives : buf ++ chunks.flatten = hextileBytes hextile.Bpp codes ++ rest)
    {fuel : Nat} (enough : chunks.length < fuel) (drawn : List Drawn) :
    ∃ outcome, drive (Hextile.call memory) fuel hextile buf chunks drawn = .ok outcome ∧
      outcome.finished = true ∧ outcome.drawn = drawn ++ orders ∧
      outcome.buf ++ outcome.unread.flatten = rest := by
  induction chunks generalizing codes orders hextile carried buf fuel drawn with
  | nil =>
    obtain ⟨fuel, rfl⟩ := Nat.exists_eq_succ_of_ne_zero (Nat.ne_zero_of_lt enough)
    obtain ⟨⟨state, encoder, left, some'⟩, called, answers⟩ := call_run memory pending arrives
    rcases answers with ⟨exit, all, behind⟩ | ⟨_, part, _⟩
    · simp only at exit all behind
      subst exit
      refine ⟨⟨true, encoder, left, [], drawn ++ some'⟩, ?_, rfl, ?_, behind⟩
      · rw [drive, called]
        rfl
      · rw [all, List.nil_append]
    · exact absurd rfl part
  | cons chunk chunks ih =>
    obtain ⟨fuel, rfl⟩ := Nat.exists_eq_succ_of_ne_zero (Nat.ne_zero_of_lt enough)
    obtain ⟨⟨state, encoder, left, some'⟩, called, answers⟩ := call_run memory pending arrives
    rcases answers with ⟨exit, all, behind⟩ | ⟨needs, _, carried', codes', front, later, split, all,
      pending', arrives'⟩
    · simp only at exit all behind
      subst exit
      refine ⟨⟨true, encoder, left, chunk :: chunks, drawn ++ some'⟩, ?_, rfl, ?_, behind⟩
      · rw [drive, called]
        rfl
      · rw [all, List.nil_append]
    · simp only at needs all pending' arrives'
      subst needs
      rw [List.nil_append] at all
      rw [List.flatten_cons, ← List.append_assoc] at arrives'
      obtain ⟨outcome, ran', finished, same, behind⟩ := ih pending' arrives'
        (Nat.lt_of_succ_lt_succ enough) (drawn ++ some')
      refine ⟨outcome, ?_, finished, ?_, behind⟩
      · rw [drive, called]
        exact ran'
      · rw [same, all, split, List.append_assoc]

end Calls

/-- For every rectangle none of whose tiles starts past the coordinates of 16 bits and every
well-formed stream for it, the tiles drawn partition the rectangle and show the pixels of the
stream; the pieces in which it arrives make no difference, and what comes behind it is left in the
buffer. -/
theorem hextile_draws (Bpp : Nat) (pixel : Bpp ≤ 4) (rect : Rect) (fits : TileWalk.Fits 16 rect)
    (codes : List HextileCode) (stream : HextileFor Bpp rect.area codes) :
    ∃ orders, rect.area.Partition (orders.map Drawn.area) ∧
      HextileDraws rect.area 0 ⟨none, none⟩ codes orders ∧
      ∀ (memory : HexTileData) (buf : List Byte) (chunks : List (List Byte)) (rest : List Byte)
        (rounds : Nat), buf ++ chunks.flatten = hextileBytes Bpp codes ++ rest →
        chunks.length < rounds →
        ∃ outcome, drive (Hextile.call memory) rounds (Hextile.make Bpp rect) buf chunks [] =
            .ok outcome ∧
          outcome.finished = true ∧ outcome.drawn = orders ∧
          outcome.buf ++ outcome.unread.flatten = rest := by
  cases some' : rect.isEmpty with
  | true =>
    have noTiles := TileWalk.count_of_isEmpty (show 0 < 16 by decide) some'
    have count := stream.count
    have noCodes : codes = [] := List.eq_nil_of_length_eq_zero (by omega)
    subst noCodes
    have draws : HextileDraws rect.area 0 ⟨none, none⟩ [] [] := trivial
    refine ⟨[], draws.partition stream, draws, ?_⟩
    intro memory buf chunks rest rounds arrives enough
    obtain ⟨fuel, rfl⟩ := Nat.exists_eq_succ_of_ne_zero (Nat.ne_zero_of_lt enough)
    have called : Hextile.call memory (Hextile.make Bpp rect) buf =
        .ok ⟨.exit, Hextile.make Bpp rect, buf, []⟩ := if_pos some'
    refine ⟨⟨true, Hextile.make Bpp rect, buf, chunks, []⟩, ?_, rfl, rfl, arrives⟩
    rw [drive, called]
    rfl
  | false =>
    obtain ⟨wide, high⟩ := Rect.isEmpty_eq_false.mp some'
    have small : Carried.Small Bpp ⟨none, none⟩ := by
      constructor
      · intro color taken
        cases taken
      · intro color taken
        cases taken
    have holds : Hextile.Holds ⟨none, none⟩ (Hextile.make Bpp rect) := by
      constructor
      · intro color taken
        cases taken
      · intro color taken
        cases taken
    obtain ⟨orders, paints, draws⟩ := paints_of_stream fits codes
      (TileWalk.at_start (by decide) (by decide) wide high)
      (TileGrid.count_pos (by decide) wide high) small stream
    refine ⟨orders, draws.partition stream, draws, ?_⟩
    intro memory buf chunks rest rounds arrives enough
    have pending : Pending ⟨none, none⟩ codes orders (Hextile.make Bpp rect) :=
      ⟨Hextile.make_fits pixel rect, some', paints, fun code _ _ => holds.readyFor code⟩
    exact drive_tiles memory chunks pending arrives enough []

/-- A rectangle of two tiles: a background with two subrectangles, then one that takes over both
colours and has a subrectangle of its own. -/
def smallHextile : List HextileCode :=
  [.subrects 14 0xF800 0x07E0 [⟨0, 0, 0, 4, 2⟩, ⟨0, 2, 1, 3, 1⟩],
    .subrects 8 0 0 [⟨0, 1, 0, 1, 2⟩]]

theorem smallHextile_stream : HextileFor 2 (Rect.of 10 20 18 2).area smallHextile := by
  refine ⟨?_, ?_, rfl⟩
  · constructor <;> decide
  · constructor <;> decide

/-- Its drawing, where the header of the first tile comes in two pieces. -/
theorem hextile_draws_small :
    ∃ orders, (Rect.of 10 20 18 2).area.Partition (orders.map Drawn.area) ∧
      HextileDraws (Rect.of 10 20 18 2).area 0 ⟨none, none⟩ smallHextile orders ∧
      ∃ outcome, drive (Hextile.call (Buffer.filled 0)) 3 (Hextile.make 2 (Rect.of 10 20 18 2)) []
          [[14, 0], [0xF8, 0xE0, 0x07, 2, 0x00, 0x31, 0x21, 0x20, 8, 1, 0x10, 0x01, 99]] [] =
          .ok outcome ∧
        outcome.drawn = orders ∧ outcome.buf ++ outcome.unread.flatten = [99] := by
  obtain ⟨orders, partition, draws, every⟩ := hextile_draws 2 (by decide) (Rect.of 10 20 18 2)
    (by constructor <;> decide) smallHextile smallHextile_stream
  obtain ⟨outcome, ran, _, drawn, left⟩ := every (Buffer.filled 0) []
    [[14, 0], [0xF8, 0xE0, 0x07, 2, 0x00, 0x31, 0x21, 0x20, 8, 1, 0x10, 0x01, 99]] [99] 3
    (by decide) (by decide)
  exact ⟨orders, partition, draws, outcome, ran, drawn, left⟩

/-- Two raw tiles, the second of which starts past the largest coordinate. -/
def pastRightHextile : List HextileCode :=
  [.raw 1 (List.replicate 16 0), .raw 1 (List.replicate 4 0)]

/-- The coordinate of the second tile wraps around, and the tile is drawn at the left. -/
theorem hextile_draws_past_right :
    HextileFor 1 (Rect.of 32760 0 20 1).area pastRightHextile ∧
      ∃ outcome, drive (Hextile.call (Buffer.filled 0)) 1 (Hextile.make 1 (Rect.of 32760 0 20 1))
          (hextileBytes 1 pastRightHextile) [] [] = .ok outcome ∧
        outcome.finished = true ∧
        ¬(Rect.of 32760 0 20 1).area.Partition (outcome.drawn.map Drawn.area) := by
  refine ⟨⟨⟨by decide, by decide, by decide⟩, ⟨by decide, by decide, by decide⟩, rfl⟩, _, rfl, rfl,
    ?_⟩
  intro partition
  have member : (⟨-32760, 0, 4, 1⟩ : Area) ∈
      [(⟨32760, 0, 16, 1⟩ : Area), ⟨-32760, 0, 4, 1⟩] := by decide
  have inside := partition.inside _ member (-32760) 0 (by decide)
  revert inside
  decide

end Redemption.Vnc
