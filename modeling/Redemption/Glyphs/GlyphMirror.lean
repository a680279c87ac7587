import Mathlib.Data.List.Forall2
import Redemption.Foundation.Machine
import Redemption.Glyphs.GlyphSlots
import Redemption.Glyphs.GlyphText

/-! A client that keeps the glyphs it is sent draws the glyphs of each text. -/
namespace Redemption.Glyphs

open Redemption.Foundation

/-- The glyphs of a client, and the last text that it was sent. -/
structure Client where
  glyphs : Fin numberOfGlyphCaches → Nat → Option Picture
  text : List Byte

namespace Client

def fresh : Client := ⟨fun _ _ => none, []⟩

def store (client : Client) (cacheId : Fin numberOfGlyphCaches) (cacheIndex : Nat)
    (picture : Picture) : Client :=
  { client with
    glyphs := Function.update client.glyphs cacheId
      (Function.update (client.glyphs cacheId) cacheIndex (some picture)) }

/-- What a client does with an order. -/
def receive (client : Client) : Order → Client
  | .glyphCache bytes =>
    match RDPGlyphCache.receiveHeader bytes >>= fun header => RDPGlyphCache.receive header.2 with
    | .error _ => client
    | .ok (cmd, _) =>
      if known : cmd.cacheId.toNat < numberOfGlyphCaches then
        client.store ⟨cmd.cacheId.toNat, known⟩ cmd.cacheIndex.toNat
          ⟨cmd.x, cmd.y, cmd.cx, cmd.cy, cmd.aj⟩
      else client
  | .glyphIndex _ data => { client with text := data.getD client.text }

def after (client : Client) (orders : List Order) : Client := orders.foldl receive client

theorem after_append (client : Client) (first second : List Order) :
    client.after (first ++ second) = (client.after first).after second := List.foldl_append

end Client

/-- A well-formed text, and the glyphs that it is about. -/
structure TextCall where
  cmd : RDPGlyphIndex
  source : Fin 254 → Option FontChar
  fragment : Fragment
  wellFormed : cmd.data = fragment.bytes cmd.hasDeltaByte
  present : ∀ index delta, Item.glyph index delta ∈ fragment.items → source index ≠ none

/-- An item of a text and the one that is sent for it, which shows the same to a client. -/
inductive Shown (source : Fin 254 → Option FontChar) (size : Nat) (glyphs : Nat → Option Picture) :
    Item → Item → Prop where
  | glyph {index entry : Fin 254} {delta : Delta} {fc : FontChar} (given : source index = some fc)
      (negotiated : entry.val < size) (here : glyphs entry = some fc.toPicture) :
      Shown source size glyphs (.glyph index delta) (.glyph entry delta)
  | use {fragment : Byte} {delta : Delta} :
      Shown source size glyphs (.use fragment delta) (.use fragment delta)

/-- A serializer and its client, until an error. -/
abbrev Session := Option (GlyphCache × Client)

section Model

variable (serializer : Serializer)

def Session.step (session : Session) (call : TextCall) :
    Session × Option (Checked GlyphError (List Order)) :=
  match session with
  | none => (none, none)
  | some (cache, client) =>
    match draw serializer call.source call.cmd cache with
    | .error fault => (none, some (.error fault))
    | .ok (cache, orders) => (some (cache, client.after orders), some (.ok orders))

def Session.machine : Machine Session TextCall (Option (Checked GlyphError (List Order))) :=
  ⟨Session.step serializer⟩

/-- A text is drawn within its array, and the client draws the glyphs of its source. -/
def Mirrored (session : Session) (call : TextCall) : Prop :=
  match session with
  | none => True
  | some (cache, client) =>
    match draw serializer call.source call.cmd cache with
    | .error fault => fault = .raised .streamMemoryTooSmall
    | .ok (_, orders) =>
      ∃ items, (client.after orders).text = (Fragment.mk items call.fragment.add).bytes
          call.cmd.hasDeltaByte ∧
        List.Forall₂ (Shown call.source (cache.size call.cmd.cacheId)
          ((client.after orders).glyphs call.cmd.cacheId)) call.fragment.items items

end Model

/-- The glyphs of a text, one after the other. -/
def Fragment.indices (fragment : Fragment) : List (Fin 254) :=
  fragment.items.filterMap fun
    | .glyph index _ => some index
    | .use _ _ => none

def TextCall.pictures (call : TextCall) : Finset Picture :=
  (call.fragment.indices.filterMap fun index => (call.source index).map (·.toPicture)).toFinset

/-- The different glyphs of a text have room in its cache, a cache has not too many entries, the
counter of uses does not overflow, and no text is left out. -/
structure Fits (cache : GlyphCache) (client : Client) (call : TextCall) : Prop where
  room : call.pictures.card ≤ cache.size call.cmd.cacheId
  within : cache.size call.cmd.cacheId ≤ numberOfGlyphCacheEntries ∨ call.fragment.indices = []
  uses : cache.glyphStamp + call.fragment.indices.length < 2 ^ 31
  sent : call.cmd.data ≠ [] ∨ client.text = []

def Session.Allowed (session : Session) (call : TextCall) : Prop :=
  match session with
  | none => True
  | some (cache, client) => Fits cache client call

/-- The client has the glyphs of all the entries. -/
def Mirror (cache : GlyphCache) (client : Client) : Prop :=
  ∀ cacheid cacheidx picture, (cache.slots cacheid).key cacheidx = some picture →
    client.glyphs cacheid cacheidx = some picture

/-- What holds between the texts. -/
structure Kept (cache : GlyphCache) (client : Client) : Prop where
  valid : ∀ cacheid, (cache.slots cacheid).Valid (cache.size cacheid)
  mirror : Mirror cache client

def Session.Invariant : Session → Prop
  | none => True
  | some (cache, client) => Kept cache client

section OneGlyph

variable {serializer : Serializer} {cache after : GlyphCache} {client : Client}
variable {cacheId : Fin numberOfGlyphCaches} {picture : Picture} {entry : Nat}

theorem emitGlyphCache_arrives (small : entry < 2 ^ 16)
    (here : (cache.slots cacheId).key entry = some picture) :
    emitGlyphCache serializer cache cacheId entry = .error (.raised .streamMemoryTooSmall) ∨
    ∃ orders, emitGlyphCache serializer cache cacheId entry = .ok orders ∧
      client.after orders = client.store cacheId entry picture := by
  obtain ⟨fc, held, rfl⟩ := Option.map_eq_some_iff.mp here
  rw [emitGlyphCache, held]
  dsimp only
  rw [Serializer.reserveOrder]
  split
  · left
    rfl
  · right
    refine ⟨_, rfl, ?_⟩
    have known : (BitVec.ofNat 8 cacheId.val).toNat < numberOfGlyphCaches := by
      rw [BitVec.toNat_ofNat, Nat.mod_eq_of_lt (Nat.lt_trans cacheId.isLt (by decide))]
      exact cacheId.isLt
    have sameId : (⟨(BitVec.ofNat 8 cacheId.val).toNat, known⟩ : Fin numberOfGlyphCaches) =
        cacheId := by
      apply Fin.ext
      exact (BitVec.toNat_ofNat _ _).trans
        (Nat.mod_eq_of_lt (Nat.lt_trans cacheId.isLt (by decide)))
    have sameIndex : (BitVec.ofNat 16 entry).toNat = entry := by
      rw [BitVec.toNat_ofNat, Nat.mod_eq_of_lt small]
    simp only [Client.after, List.foldl_cons, List.foldl_nil, Client.receive,
      RDPGlyphCache.receive_emit ⟨_, _, _, _, _, _, _⟩ fc.sized, dif_pos known, sameId, sameIndex]

theorem Placed.key_self (placed : Placed cache cacheId picture entry after) :
    (after.slots cacheId).key entry = some picture := by
  rw [placed.slots, Slots.key_put_self]

theorem Placed.mirror_store (placed : Placed cache cacheId picture entry after)
    (mirror : Mirror cache client) : Mirror after (client.store cacheId entry picture) := by
  intro otherId other shown held
  by_cases sameId : otherId = cacheId
  · subst sameId
    rw [placed.slots] at held
    by_cases same : other = entry
    · subst same
      rw [Slots.key_put_self] at held
      simp only [Client.store, Function.update_self, held]
    · rw [Slots.key_put_of_ne same] at held
      simp only [Client.store, Function.update_self, Function.update_of_ne same]
      exact mirror otherId other shown held
  · rw [placed.others otherId sameId] at held
    simp only [Client.store, Function.update_of_ne sameId]
    exact mirror otherId other shown held

theorem Placed.mirror_found (placed : Placed cache cacheId picture entry after)
    (mirror : Mirror cache client) (found : (cache.slots cacheId).key entry = some picture) :
    Mirror after client := by
  intro otherId other shown held
  by_cases sameId : otherId = cacheId
  · subst sameId
    rw [placed.slots] at held
    by_cases same : other = entry
    · subst same
      rw [Slots.key_put_self] at held
      exact mirror otherId other shown (found.trans held)
    · rw [Slots.key_put_of_ne same] at held
      exact mirror otherId other shown held
  · rw [placed.others otherId sameId] at held
    exact mirror otherId other shown held

theorem Placed.setCached (placed : Placed cache cacheId picture entry after) (cached : Bool) :
    Placed cache cacheId picture entry (after.setCached cacheId entry cached) where
  chosen := placed.chosen
  slots := by rw [slots_setCached, placed.slots]
  others := by
    intro other different
    rw [slots_setCached, placed.others other different]
  entries := placed.entries

theorem Mirror.setCached (mirror : Mirror cache client) (cached : Bool) :
    Mirror (cache.setCached cacheId entry cached) client := by
  intro otherId other shown held
  rw [slots_setCached] at held
  exact mirror otherId other shown held

/-- A glyph of a text gets an entry that the client has then as well. -/
theorem drawGlyph_mirror {source : Fin 254 → Option FontChar} {index : Fin 254} {fc : FontChar}
    (kept : Kept cache client) (given : source index = some fc)
    (some_entry : 0 < cache.size cacheId)
    (within : cache.size cacheId ≤ numberOfGlyphCacheEntries)
    (room : cache.glyphStamp + 1 < 2 ^ 31) :
    drawGlyph serializer source cacheId cache index = .error (.raised .streamMemoryTooSmall) ∨
    ∃ entry after orders,
      drawGlyph serializer source cacheId cache index = .ok (entry, after, orders) ∧
      Placed cache cacheId fc.toPicture entry after ∧ Mirror after (client.after orders) := by
  obtain ⟨result, entry, after, added, placed, found⟩ :=
    @addGlyph_placed _ _ fc some_entry within room (kept.valid cacheId)
  have small : entry < 2 ^ 16 :=
    Nat.lt_of_lt_of_le placed.chosen.within (Nat.le_trans within (by decide))
  rw [drawGlyph, given]
  simp only [added, ok_bind]
  by_cases isNew : result = .addedToCache
  · rw [if_pos isNew]
    rcases @emitGlyphCache_arrives serializer after client _ _ _ small placed.key_self with
      failed | ⟨orders, sent, arrived⟩
    · left
      rw [failed]
      rfl
    · right
      rw [sent]
      refine ⟨entry, after, orders, rfl, placed, ?_⟩
      rw [arrived]
      exact placed.mirror_store kept.mirror
  · rw [if_neg isNew]
    split
    · rcases @emitGlyphCache_arrives serializer after client _ _ _ small placed.key_self with
        failed | ⟨orders, sent, arrived⟩
      · left
        rw [failed]
        rfl
      · right
        rw [sent]
        refine ⟨entry, after.setCached cacheId entry true, orders, rfl, placed.setCached true, ?_⟩
        rw [arrived]
        exact (placed.mirror_store kept.mirror).setCached true
    · right
      have old : result = .foundInCache := by
        cases result with
        | foundInCache => rfl
        | addedToCache => exact absurd rfl isNew
      exact ⟨entry, after, [], rfl, placed, placed.mirror_found kept.mirror (found old)⟩

end OneGlyph

section Loop

variable {serializer : Serializer} {source : Fin 254 → Option FontChar} {cmd : RDPGlyphIndex}

/-- What holds in the middle of a text: the entries used since its start have wanted glyphs. -/
structure Under (cmd : RDPGlyphIndex) (since : Nat) (wanted : Finset Picture) (client : Client)
    (drawing : Drawing) : Prop where
  kept : Kept drawing.glyphCache (client.after drawing.orders)
  recent : Slots.Recent (drawing.glyphCache.size cmd.cacheId) since wanted
    (drawing.glyphCache.slots cmd.cacheId)
  past : since ≤ drawing.glyphCache.glyphStamp
  room : wanted.card ≤ drawing.glyphCache.size cmd.cacheId
  within : wanted = ∅ ∨ drawing.glyphCache.size cmd.cacheId ≤ numberOfGlyphCacheEntries

/-- What was used since a time in one cache is still there in another. -/
def Keeps (cmd : RDPGlyphIndex) (since : Nat) (cache after : GlyphCache) : Prop :=
  after.numberOfEntriesInCache = cache.numberOfEntriesInCache ∧
  ∀ entry picture, Slots.Holds since (cache.slots cmd.cacheId) entry picture →
    Slots.Holds since (after.slots cmd.cacheId) entry picture

/-- An item that was drawn, and what is sent for it. -/
inductive Drawn (source : Fin 254 → Option FontChar) (size since : Nat) (slots : Slots Picture) :
    Item → Item → Prop where
  | glyph {index entry : Fin 254} {delta : Delta} {fc : FontChar} (given : source index = some fc)
      (negotiated : entry.val < size) (holds : Slots.Holds since slots entry fc.toPicture) :
      Drawn source size since slots (.glyph index delta) (.glyph entry delta)
  | use {fragment : Byte} {delta : Delta} :
      Drawn source size since slots (.use fragment delta) (.use fragment delta)

/-- A glyph keeps what holds in the middle of a text, and what was used before it. -/
theorem Under.glyph {since : Nat} {wanted : Finset Picture} {client : Client} {drawing : Drawing}
    {picture : Picture} {entry : Nat} {after : GlyphCache} {orders : List Order}
    {data : List Byte} (under : Under cmd since wanted client drawing)
    (placed : Placed drawing.glyphCache cmd.cacheId picture entry after)
    (mirror : Mirror after ((client.after drawing.orders).after orders))
    (asked : picture ∈ wanted) :
    Under cmd since wanted client ⟨after, data, drawing.orders ++ orders⟩ ∧
      Keeps cmd since drawing.glyphCache after ∧
      Slots.Holds since (after.slots cmd.cacheId) entry picture := by
  have sameSize : after.size cmd.cacheId = drawing.glyphCache.size cmd.cacheId := by
    rw [GlyphCache.size, placed.entries, GlyphCache.size]
  refine ⟨⟨⟨placed.valid under.kept.valid, ?_⟩, ?_, ?_, ?_, ?_⟩, ⟨placed.entries, ?_⟩, ?_⟩
  · rw [Client.after_append]
    exact mirror
  · rw [sameSize, placed.slots]
    exact Slots.recent_put under.recent asked
  · have clock : (after.slots cmd.cacheId).clock = drawing.glyphCache.glyphStamp + 1 := by
      rw [placed.slots, Slots.clock_put]
      rfl
    exact Nat.le_trans under.past (Nat.le_of_lt (Nat.lt_of_lt_of_eq (Nat.lt_succ_self _) clock.symm))
  · exact sameSize ▸ under.room
  · exact sameSize ▸ under.within
  · intro other held holds
    rw [placed.slots]
    exact Slots.holds_put (under.kept.valid cmd.cacheId) under.recent under.past asked under.room
      placed.chosen holds
  · rw [placed.slots]
    exact Slots.holds_put_self under.past

theorem Keeps.refl (since : Nat) (cache : GlyphCache) : Keeps cmd since cache cache :=
  ⟨rfl, fun _ _ holds => holds⟩

theorem Keeps.trans {since : Nat} {first second third : GlyphCache}
    (front : Keeps cmd since first second) (back : Keeps cmd since second third) :
    Keeps cmd since first third :=
  ⟨back.1.trans front.1, fun entry picture holds => back.2 entry picture (front.2 entry picture holds)⟩

theorem Keeps.size {since : Nat} {cache after : GlyphCache} (keeps : Keeps cmd since cache after) :
    after.size cmd.cacheId = cache.size cmd.cacheId := by
  rw [GlyphCache.size, keeps.1, GlyphCache.size]

theorem drawItems_turn {fuel : Nat} {drawing : Drawing} {front : List Byte}
    (more : front.length < cmd.data.length) :
    drawItems serializer source cmd (fuel + 1) drawing (cursor front) =
      drawItem serializer source cmd drawing (cursor front) >>= fun turned =>
        drawItems serializer source cmd fuel turned.1 turned.2 := by
  have within := cmd.within
  have before : cursor front < cmd.dataLen := by
    rw [BitVec.lt_def, cursor_toNat (Nat.lt_trans more within), RDPGlyphIndex.dataLen,
      BitVec.toNat_ofNat, Nat.mod_eq_of_lt within]
    exact more
  rw [drawItems, if_pos before]

theorem drawItems_end (fuel : Nat) (drawing : Drawing) :
    drawItems serializer source cmd (fuel + 1) drawing cmd.dataLen = .ok drawing := by
  rw [drawItems, if_neg (BitVec.lt_irrefl _)]

theorem drawItems_last {add : Option (Byte × Byte)} {rest front : List Byte} {fuel : Nat}
    {drawing : Drawing} (data : drawing.data = front ++ addBytes add ++ rest)
    (whole : (front ++ addBytes add).length = cmd.data.length)
    (turns : cmd.data.length < front.length + fuel) :
    drawItems serializer source cmd fuel drawing (cursor front) = .ok drawing := by
  obtain ⟨glyphCache, bytes, orders⟩ := drawing
  subst data
  cases add with
  | none =>
    rw [addBytes, List.append_nil] at whole
    obtain ⟨fuel, rfl⟩ : ∃ less, fuel = less + 1 := ⟨fuel - 1, by omega⟩
    have ends : cursor front = cmd.dataLen := by
      rw [cursor, RDPGlyphIndex.dataLen, whole]
    rw [ends]
    exact drawItems_end _ _
  | some named =>
    obtain ⟨index, size⟩ := named
    have length : front.length + 3 = cmd.data.length := by
      rw [List.length_append] at whole
      exact whole
    obtain ⟨fuel, rfl⟩ : ∃ less, fuel = less + 1 + 1 := ⟨fuel - 2, by omega⟩
    rw [drawItems_turn (by omega), addBytes, drawItem_add whole]
    exact drawItems_end _ _

/-- The number of glyphs among some items. -/
def glyphCount (items : List Item) : Nat := (Fragment.mk items none).indices.length

variable {since : Nat} {wanted : Finset Picture} {client : Client}

theorem drawItem_drawn {item : Item} {front behind : List Byte} {drawing : Drawing}
    (data : drawing.data = front ++ item.bytes cmd.hasDeltaByte ++ behind)
    (small : (front ++ item.bytes cmd.hasDeltaByte).length < 2 ^ 8)
    (glyphs : ∀ index delta, item = .glyph index delta →
      ∃ fc, source index = some fc ∧ fc.toPicture ∈ wanted)
    (uses : drawing.glyphCache.glyphStamp + glyphCount [item] < 2 ^ 31)
    (under : Under cmd since wanted client drawing) :
    drawItem serializer source cmd drawing (cursor front) =
      .error (.raised .streamMemoryTooSmall) ∨
    ∃ sent turned, drawItem serializer source cmd drawing (cursor front) =
        .ok (turned, cursor (front ++ sent.bytes cmd.hasDeltaByte)) ∧
      turned.data = front ++ sent.bytes cmd.hasDeltaByte ++ behind ∧
      (sent.bytes cmd.hasDeltaByte).length = (item.bytes cmd.hasDeltaByte).length ∧
      turned.glyphCache.glyphStamp = drawing.glyphCache.glyphStamp + glyphCount [item] ∧
      Under cmd since wanted client turned ∧ Keeps cmd since drawing.glyphCache turned.glyphCache ∧
      ∀ later, Keeps cmd since turned.glyphCache later →
        Drawn source (later.size cmd.cacheId) since (later.slots cmd.cacheId) item sent := by
  obtain ⟨glyphCache, bytes, orders⟩ := drawing
  subst data
  cases item with
  | glyph index delta =>
    obtain ⟨fc, given, asked⟩ := glyphs index delta rfl
    have some_entry : 0 < glyphCache.size cmd.cacheId :=
      Nat.lt_of_lt_of_le (Finset.card_pos.mpr ⟨_, asked⟩) under.room
    have small254 : glyphCache.size cmd.cacheId ≤ numberOfGlyphCacheEntries := by
      rcases under.within with empty | fits
      · rw [empty] at asked
        exact absurd asked (Finset.notMem_empty _)
      · exact fits
    rw [drawItem_glyph small]
    rcases drawGlyph_mirror under.kept given some_entry small254 uses with
      failed | ⟨entry, after, sent, drew, placed, mirror⟩
    · left
      rw [failed]
      rfl
    · right
      have below : entry < 254 := Nat.lt_of_lt_of_le placed.chosen.within small254
      have sameLength : ((Item.glyph ⟨entry, below⟩ delta).bytes cmd.hasDeltaByte).length =
          ((Item.glyph index delta).bytes cmd.hasDeltaByte).length := by
        simp [Item.bytes]
      obtain ⟨underAfter, keeps, holds⟩ := under.glyph placed mirror asked
      rw [drew]
      refine ⟨.glyph ⟨entry, below⟩ delta, _, ?_, rfl, sameLength, ?_, underAfter, keeps, ?_⟩
      · rw [ok_bind, cursor, cursor, List.length_append, List.length_append, sameLength]
        simp [Item.bytes]
      · exact congrArg Slots.clock placed.slots
      · intro later keepsLater
        refine .glyph given ?_ (keepsLater.2 entry _ holds)
        rw [keepsLater.size, keeps.size]
        exact placed.chosen.within
  | use fragment delta =>
    rw [drawItem_use small]
    exact .inr ⟨.use fragment delta, _, rfl, rfl, rfl, rfl,
      ⟨under.kept, under.recent, under.past, under.room, under.within⟩, .refl _ _, fun _ _ => .use⟩

theorem drawItems_drawn {add : Option (Byte × Byte)} {rest : List Byte} (items : List Item)
    {fuel : Nat} {front : List Byte} {drawing : Drawing}
    (data : drawing.data =
      front ++ (items.flatMap (Item.bytes cmd.hasDeltaByte) ++ addBytes add) ++ rest)
    (whole : (front ++ (items.flatMap (Item.bytes cmd.hasDeltaByte) ++ addBytes add)).length =
      cmd.data.length)
    (turns : cmd.data.length < front.length + fuel)
    (glyphs : ∀ index delta, Item.glyph index delta ∈ items →
      ∃ fc, source index = some fc ∧ fc.toPicture ∈ wanted)
    (uses : drawing.glyphCache.glyphStamp + glyphCount items < 2 ^ 31)
    (under : Under cmd since wanted client drawing) :
    drawItems serializer source cmd fuel drawing (cursor front) =
      .error (.raised .streamMemoryTooSmall) ∨
    ∃ final drawn, drawItems serializer source cmd fuel drawing (cursor front) = .ok final ∧
      Under cmd since wanted client final ∧ Keeps cmd since drawing.glyphCache final.glyphCache ∧
      List.Forall₂ (Drawn source (final.glyphCache.size cmd.cacheId) since
        (final.glyphCache.slots cmd.cacheId)) items drawn ∧
      final.data = front ++ (drawn.flatMap (Item.bytes cmd.hasDeltaByte) ++ addBytes add) ++ rest
    := by
  have within := cmd.within
  induction items generalizing fuel front drawing with
  | nil =>
    exact .inr ⟨drawing, [], drawItems_last data whole turns, under, .refl _ _, .nil, data⟩
  | cons item items ih =>
    have shape : drawing.data = front ++ item.bytes cmd.hasDeltaByte ++
        (items.flatMap (Item.bytes cmd.hasDeltaByte) ++ addBytes add ++ rest) := by
      rw [data]
      simp
    have length : front.length + (item.bytes cmd.hasDeltaByte).length +
        (items.flatMap (Item.bytes cmd.hasDeltaByte) ++ addBytes add).length =
        cmd.data.length := by
      rw [← whole]
      simp [Nat.add_assoc]
    have advances : 0 < (item.bytes cmd.hasDeltaByte).length := by
      cases item with
      | glyph _ _ => exact Nat.succ_pos _
      | use _ _ => exact Nat.succ_pos _
    have counts : glyphCount (item :: items) = glyphCount [item] + glyphCount items := by
      cases item with
      | glyph _ _ => exact Nat.add_comm _ 1
      | use _ _ => exact (Nat.zero_add _).symm
    obtain ⟨fuel, rfl⟩ : ∃ less, fuel = less + 1 := ⟨fuel - 1, by omega⟩
    rw [drawItems_turn (by omega)]
    rcases drawItem_drawn shape (by rw [List.length_append]; omega)
        (fun index delta same => glyphs index delta (same ▸ List.mem_cons_self)) (by omega) under with
      failed | ⟨sent, turned, drew, turnedData, same, stamp, underTurned, keeps, shows⟩
    · left
      rw [failed]
      rfl
    · rw [drew, ok_bind]
      rcases @ih fuel (front ++ sent.bytes cmd.hasDeltaByte) turned
          (by rw [turnedData]; simp) (by rw [List.length_append, List.length_append, same]; exact length)
          (by rw [List.length_append]; omega)
          (fun index delta member => glyphs index delta (List.mem_cons_of_mem _ member))
          (by omega) underTurned with
        failed | ⟨final, drawn, ends, underFinal, keepsFinal, sameItems, finalData⟩
      · exact .inl failed
      · refine .inr ⟨final, sent :: drawn, ends, underFinal, keeps.trans keepsFinal,
          .cons (shows _ keepsFinal) sameItems, ?_⟩
        rw [finalData]
        simp

end Loop

section Text

variable {serializer : Serializer} {cache : GlyphCache} {client : Client} {call : TextCall}

theorem mem_pictures {index : Fin 254} {delta : Delta} {fc : FontChar}
    (member : Item.glyph index delta ∈ call.fragment.items) (given : call.source index = some fc) :
    fc.toPicture ∈ call.pictures := by
  apply List.mem_toFinset.mpr
  apply List.mem_filterMap.mpr
  refine ⟨index, List.mem_filterMap.mpr ⟨_, member, rfl⟩, ?_⟩
  rw [given]
  rfl

theorem under_start (kept : Kept cache client) (fits : Fits cache client call) (data : List Byte) :
    Under call.cmd cache.glyphStamp call.pictures client ⟨cache, data, []⟩ where
  kept := kept
  recent := by
    intro entry _ used
    exact absurd ((kept.valid call.cmd.cacheId).stamped entry) (Nat.not_le_of_lt used)
  past := Nat.le_refl _
  room := fits.room
  within := by
    rcases fits.within with small | none
    · exact .inr small
    · left
      rw [TextCall.pictures, none]
      rfl

theorem length_bytes {hasDeltaByte : Bool} {source : Fin 254 → Option FontChar} {size since : Nat}
    {slots : Slots Picture} {items drawn : List Item}
    (same : List.Forall₂ (Drawn source size since slots) items drawn) :
    (drawn.flatMap (Item.bytes hasDeltaByte)).length =
      (items.flatMap (Item.bytes hasDeltaByte)).length := by
  induction same with
  | nil => rfl
  | cons first _ ih =>
    rw [List.flatMap_cons, List.flatMap_cons, List.length_append, List.length_append, ih]
    cases first with
    | glyph _ _ _ => rfl
    | use => rfl

theorem draw_drawn (kept : Kept cache client) (fits : Fits cache client call) :
    draw serializer call.source call.cmd cache = .error (.raised .streamMemoryTooSmall) ∨
    ∃ after orders drawn, draw serializer call.source call.cmd cache = .ok (after, orders) ∧
      Kept after (client.after orders) ∧ after.size call.cmd.cacheId = cache.size call.cmd.cacheId ∧
      (client.after orders).text =
        (Fragment.mk drawn call.fragment.add).bytes call.cmd.hasDeltaByte ∧
      List.Forall₂ (Drawn call.source (after.size call.cmd.cacheId) cache.glyphStamp
        (after.slots call.cmd.cacheId)) call.fragment.items drawn := by
  have present : ∀ index delta, Item.glyph index delta ∈ call.fragment.items →
      ∃ fc, call.source index = some fc ∧ fc.toPicture ∈ call.pictures := by
    intro index delta member
    obtain ⟨fc, given⟩ := Option.ne_none_iff_exists'.mp (call.present index delta member)
    exact ⟨fc, given, mem_pictures member given⟩
  have wellFormed := call.wellFormed
  rw [Fragment.bytes] at wellFormed
  have under := under_start kept fits call.cmd.array
  rw [draw]
  rcases @drawItems_drawn serializer call.source call.cmd _ _ client call.fragment.add
      (List.replicate (2 ^ 8 - call.cmd.data.length) 0) call.fragment.items (2 ^ 8) []
      ⟨cache, call.cmd.array, []⟩ (by rw [List.nil_append, ← wellFormed]; rfl)
      (by rw [List.nil_append, ← wellFormed]) (by have within := call.cmd.within; simpa using within)
      present fits.uses under with
    failed | ⟨final, drawn, ends, underFinal, keeps, same, data⟩
  · left
    rw [show cursor [] = 0 from rfl] at failed
    rw [failed]
    rfl
  · rw [show cursor [] = 0 from rfl] at ends
    rw [ends]
    rw [Serializer.reserveOrder]
    split
    · exact .inl rfl
    · right
      have length : ((Fragment.mk drawn call.fragment.add).bytes call.cmd.hasDeltaByte).length =
          call.cmd.data.length := by
        rw [Fragment.bytes, List.length_append, length_bytes same, ← List.length_append,
          ← wellFormed]
      have dataLen : call.cmd.dataLen.toNat = call.cmd.data.length := by
        rw [RDPGlyphIndex.dataLen, BitVec.toNat_ofNat, Nat.mod_eq_of_lt call.cmd.within]
      refine ⟨final.glyphCache, _, drawn, rfl, ?_, keeps.size, ?_, same⟩
      · rw [Client.after_append]
        exact ⟨underFinal.kept.valid, underFinal.kept.mirror⟩
      · rw [Client.after_append]
        by_cases empty : call.cmd.data = []
        · have nothing : call.cmd.dataLen = 0 := by
            rw [RDPGlyphIndex.dataLen, empty]
            rfl
          have unchanged : final = ⟨cache, call.cmd.array, []⟩ := by
            rw [← nothing] at ends
            exact Except.ok.inj (ends.symm.trans
              (@drawItems_end serializer call.source call.cmd (2 ^ 8 - 1) _))
          rw [empty] at length
          rw [List.length_eq_zero_iff.mp length, unchanged, if_pos nothing]
          exact fits.sent.resolve_left (fun some_text => some_text empty)
        · have something : call.cmd.dataLen ≠ 0 := by
            intro zero
            rw [zero] at dataLen
            exact empty (List.length_eq_zero_iff.mp dataLen.symm)
          rw [if_neg something, data, dataLen, ← length]
          exact List.take_left

/-- What is drawn with entries of the cache is shown by a client that has the same. -/
theorem Drawn.shown {since : Nat} {item drawn : Item} {cacheId : Fin numberOfGlyphCaches}
    {source : Fin 254 → Option FontChar} {size : Nat} (mirror : Mirror cache client)
    (same : Drawn source size since (cache.slots cacheId) item drawn) :
    Shown source size (client.glyphs cacheId) item drawn := by
  cases same with
  | glyph given negotiated holds => exact .glyph given negotiated (mirror _ _ _ holds.2)
  | use => exact .use

theorem invariant_step {session : Session} (holds : session.Invariant)
    (allowed : session.Allowed call) :
    ((Session.machine serializer).next session call).Invariant := by
  cases session with
  | none => trivial
  | some both =>
    obtain ⟨cache, client⟩ := both
    simp only [Machine.next, Session.machine, Session.step]
    rcases @draw_drawn serializer _ _ _ holds allowed with
      failed | ⟨after, orders, _, done, kept, _⟩
    · rw [failed]
      trivial
    · rw [done]
      exact kept

theorem mirrored_step {session : Session} (holds : session.Invariant)
    (allowed : session.Allowed call) : Mirrored serializer session call := by
  cases session with
  | none => trivial
  | some both =>
    obtain ⟨cache, client⟩ := both
    rw [Mirrored]
    rcases @draw_drawn serializer _ _ _ holds allowed with
      failed | ⟨after, orders, drawn, done, kept, size, text, same⟩
    · rw [failed]
    · rw [done]
      refine ⟨drawn, text, ?_⟩
      rw [size] at same
      exact same.imp fun _ _ => Drawn.shown kept.mirror

end Text

/-- A serializer and a client without glyphs. -/
def Session.fresh (numberOfEntries : Fin numberOfGlyphCaches → BitVec 8) : Session :=
  some (.fresh numberOfEntries, .fresh)

theorem invariant_fresh (numberOfEntries : Fin numberOfGlyphCaches → BitVec 8) :
    (Session.fresh numberOfEntries).Invariant := by
  refine ⟨fun _ => ⟨fun _ => Nat.le_refl 0, ?_⟩, ?_⟩
  · intro _ _ _ _ _ held
    exact nomatch held
  · intro _ _ _ held
    exact nomatch held

/-- A client that keeps the glyphs it is sent shows the glyphs of every text, in a run of texts
that fit. -/
theorem glyph_mirror (serializer : Serializer)
    (numberOfEntries : Fin numberOfGlyphCaches → BitVec 8) (calls : List TextCall)
    (fit : (Session.machine serializer).EveryStep Session.Allowed (.fresh numberOfEntries) calls) :
    (Session.machine serializer).EveryStep (Mirrored serializer) (.fresh numberOfEntries) calls :=
  @Machine.everyStep_of_invariant _ _ _ _ Session.Invariant Session.Allowed (Mirrored serializer)
    (fun _ _ => invariant_step) (fun _ _ => mirrored_step) _ (invariant_fresh numberOfEntries) _ fit

/-- A glyph of no size, which differs from others in where it is. -/
def dot (offsetx : BitVec 16) : FontChar where
  offsetx := offsetx
  offsety := 0
  width := 0
  height := 0
  data := []
  incby := 0
  sized := show 0 = datasize 0 0 by decide

def firstCache : Fin numberOfGlyphCaches := ⟨0, by decide⟩

/-- A text of two different glyphs. -/
def twoDots : TextCall where
  cmd := ⟨firstCache, 0, 1, [0, 1], by decide⟩
  source index := some (dot (BitVec.ofNat 16 index))
  fragment := ⟨[.glyph 0 (.long 0), .glyph 1 (.long 0)], none⟩
  wellFormed := rfl
  present := by
    intro _ _ _
    exact nofun

theorem glyph_mirror_dots : (Session.machine ⟨false, 0, 1000⟩).EveryStep
    (Mirrored ⟨false, 0, 1000⟩) (.fresh fun _ => 2) [twoDots] := by
  apply glyph_mirror
  refine ⟨⟨?_, .inl ?_, ?_, .inl ?_⟩, trivial⟩
  · decide
  · decide
  · decide
  · decide

/-- With one entry, the second glyph of a text takes the place of the first. -/
theorem glyph_mirror_one_entry : ¬ ∀ (serializer : Serializer)
    (numberOfEntries : Fin numberOfGlyphCaches → BitVec 8) (calls : List TextCall),
    (Session.machine serializer).EveryStep (Mirrored serializer) (.fresh numberOfEntries) calls := by
  intro every
  obtain ⟨mirrored, _⟩ := every ⟨false, 0, 1000⟩ (fun _ => 1) [twoDots]
  have drawn : ∃ after orders,
      draw ⟨false, 0, 1000⟩ twoDots.source twoDots.cmd (.fresh fun _ => 1) = .ok (after, orders) ∧
      (Client.fresh.after orders).glyphs firstCache 0 = some (dot 1).toPicture :=
    ⟨_, _, rfl, rfl⟩
  obtain ⟨after, orders, done, shown⟩ := drawn
  simp only [Mirrored, Session.fresh, done] at mirrored
  obtain ⟨items, _, same⟩ := mirrored
  cases same with
  | cons first _ =>
    cases first with
    | glyph given negotiated here =>
      rw [Nat.lt_one_iff.mp negotiated] at here
      obtain rfl := Option.some.inj given
      have same := congrArg Picture.offsetx (Option.some.inj (here.symm.trans shown))
      exact absurd same (by decide)

end Redemption.Glyphs
