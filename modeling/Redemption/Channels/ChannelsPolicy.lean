import Redemption.Channels.ListItems

/-! The rights of a session follow the options of the proxy, where the items of the lists of the
administrator and of the options are spelled as the code looks for them. -/
namespace Redemption.Channels

open Redemption.Foundation Redemption.Utils

def Restriction.group : Restriction → Group
  | .cliprdrUp | .cliprdrDown | .cliprdrFile => .cliprdr
  | .rdpdrPrinter | .rdpdrPort | .rdpdrDriveRead | .rdpdrDriveWrite | .rdpdrSmartcard => .rdpdr
  | .rdpsndAudioOutput => .rdpsnd
  | .rdpcapAudioInput => .rdpcap

/-- The option that asks for a right. -/
def Restriction.option : Restriction → List Byte
  | .cliprdrUp => chars "RDP_CLIPBOARD_UP"
  | .cliprdrDown => chars "RDP_CLIPBOARD_DOWN"
  | .cliprdrFile => chars "RDP_CLIPBOARD_FILE"
  | .rdpdrPrinter => chars "RDP_PRINTER"
  | .rdpdrPort => chars "RDP_COM_PORT"
  | .rdpdrDriveRead => chars "RDP_DRIVE_READ"
  | .rdpdrDriveWrite => chars "RDP_DRIVE_WRITE"
  | .rdpdrSmartcard => chars "RDP_SMARTCARD"
  | .rdpsndAudioOutput => chars "RDP_AUDIO_OUTPUT"
  | .rdpcapAudioInput => chars "RDP_AUDIO_INPUT"

/-- All flags, in the order of `opts_channels`. -/
def Restriction.all : List Restriction := optsChannels.map (·.2)

theorem Restriction.mem_all (flag : Restriction) : flag ∈ Restriction.all := by
  cases flag <;> decide

theorem optsChannels_eq : optsChannels = Restriction.all.map fun flag => (flag.option, flag) := rfl

theorem mem_restrictions (flag : Restriction) (group : Group) :
    flag ∈ group.restrictions ↔ flag.group = group := by
  cases flag <;> cases group <;> decide

theorem Group.id_injective {group other : Group} (same : group.id = other.id) : group = other := by
  revert same
  cases group <;> cases other <;> decide

theorem Restriction.name_injective {flag other : Restriction} (same : flag.name = other.name) :
    flag = other := by
  revert same
  cases flag <;> cases other <;> decide

theorem Restriction.tokens_name (flag : Restriction) : tokens flag.name = [flag.name] := by
  cases flag <;> decide

theorem Restriction.name_long (flag : Restriction) :
    isWildcard flag.name = false ∧ 7 < flag.name.length := by
  cases flag <;> decide

section Normalize

variable (set : Bool) (largeIds : List (List Byte))

/-- What `normalize` does to the groups it has gone through. -/
theorem foldl_normalize (groups : List Group) (ids : List (BitVec 64))
    (values : Restriction → Bool) (apart : groups.Nodup) :
    (∀ id, id ∈ (groups.foldl (normalize set largeIds) (ids, values)).1 ↔
      id ∈ ids ∧ ∀ group ∈ groups, id ≠ group.id) ∧
    ∀ flag, (groups.foldl (normalize set largeIds) (ids, values)).2 flag =
      if flag.group ∈ groups ∧ (flag.group.id ∈ ids ∨ flag.name ∈ largeIds) then set
      else values flag := by
  induction groups generalizing ids values with
  | nil => simp
  | cons group rest ih =>
    have fresh : group ∉ rest := (List.nodup_cons.mp apart).1
    rw [List.foldl_cons, normalize]
    by_cases whole : group.id ∈ ids
    · rw [if_pos whole]
      obtain ⟨left, settled⟩ := ih (ids.filter (· ≠ group.id))
        (fun flag => if flag ∈ group.restrictions then set else values flag)
        (List.nodup_cons.mp apart).2
      refine ⟨fun id => ?_, fun flag => ?_⟩
      · rw [left]
        simp [and_assoc]
      · rw [settled]
        simp only [mem_restrictions]
        by_cases mine : flag.group = group
        · simp [mine, fresh, whole]
        · have other : flag.group.id ≠ group.id := fun same => mine (Group.id_injective same)
          simp [mine, other]
    · rw [if_neg whole]
      obtain ⟨left, settled⟩ := ih ids
        (fun flag => if flag ∈ group.restrictions ∧ flag.name ∈ largeIds then set else values flag)
        (List.nodup_cons.mp apart).2
      refine ⟨fun id => ?_, fun flag => ?_⟩
      · rw [left]
        have kept : id ∈ ids → id ≠ group.id := fun listed same => whole (same ▸ listed)
        simp only [List.forall_mem_cons]
        exact ⟨fun held => ⟨held.1, kept held.1, held.2⟩, fun held => ⟨held.1, held.2.2⟩⟩
      · rw [settled]
        simp only [mem_restrictions]
        by_cases mine : flag.group = group
        · simp [mine, fresh, whole]
        · simp [mine]

end Normalize

/-- A list names a flag, by its own name or by that of its group. -/
def Extracted.Names (extracted : Extracted) (flag : Restriction) : Prop :=
  flag.group.id ∈ extracted.ids ∨ flag.name ∈ extracted.largeIds

instance (extracted : Extracted) (flag : Restriction) : Decidable (extracted.Names flag) :=
  inferInstanceAs (Decidable (_ ∨ _))

/-- A list names a channel that is in no group. -/
def Extracted.Lists (extracted : Extracted) (id : BitVec 64) : Prop :=
  id ∈ extracted.ids ∧ ∀ group : Group, id ≠ group.id

theorem normalizeGroups_ids (set : Bool) (extracted : Extracted) (values : Restriction → Bool)
    (id : BitVec 64) :
    id ∈ (normalizeGroups set extracted values).1 ↔ extracted.Lists id := by
  rw [normalizeGroups, (foldl_normalize set _ _ _ _ (by decide)).1, Extracted.Lists]
  refine and_congr_right fun _ => ⟨fun apart group => apart group ?_, fun apart group _ => apart group⟩
  cases group <;> decide

theorem normalizeGroups_values (set : Bool) (extracted : Extracted) (values : Restriction → Bool)
    (flag : Restriction) :
    (normalizeGroups set extracted values).2 flag =
      if extracted.Names flag then set else values flag := by
  have known : flag.group ∈ [Group.cliprdr, .rdpdr, .rdpsnd, .rdpcap] := by
    cases flag <;> decide
  rw [normalizeGroups, (foldl_normalize set _ _ _ _ (by decide)).2]
  by_cases named : extracted.Names flag
  · rw [if_pos ⟨known, named⟩, if_pos named]
  · rw [if_neg fun both => named both.2, if_neg named]

namespace ChannelsAuthorizations

theorem make_restriction (allow deny : List Byte) (flag : Restriction) :
    (make allow deny).restriction flag = true ↔
      ¬ (extractNames deny).Names flag ∧
        ((extractNames allow).Names flag ∨
          (extractNames allow).all = true ∧ (extractNames deny).all = false) := by
  simp only [make, normalizeGroups_values]
  by_cases denied : (extractNames deny).Names flag
  · simp [denied]
  · by_cases allowed : (extractNames allow).Names flag
    · simp [denied, allowed]
    · simp [denied, allowed]

theorem grants_eq (authorizations : ChannelsAuthorizations) (flag : Restriction) :
    authorizations.grants flag = authorizations.restriction flag := by
  cases flag <;> rfl

/-- The channel of a group is pushed to the allowed or to the denied ones. -/
def pushed (authorizations : ChannelsAuthorizations) (id : BitVec 64) : Bool :=
  if id = CLIPRDR then
    authorizations.restriction .cliprdrUp || authorizations.restriction .cliprdrDown
  else Group.rdpdr.restrictions.any authorizations.restriction ||
    Group.rdpsnd.restrictions.any authorizations.restriction

private theorem mem_kept (clipboard devices : Bool) (keep : Bool → Bool) (id : BitVec 64) :
    id ∈ ([(CLIPRDR, clipboard), (RDPDR, devices), (RDPSND, devices)].filter
        fun channel => keep channel.2).map (·.1) ↔
      id ∈ [CLIPRDR, RDPDR, RDPSND] ∧ keep (if id = CLIPRDR then clipboard else devices) = true := by
  have devicesApart : RDPDR ≠ CLIPRDR := by decide
  have soundApart : RDPSND ≠ CLIPRDR := by decide
  constructor
  · intro kept
    obtain ⟨⟨_, allowed⟩, member, rfl⟩ := List.mem_map.mp kept
    obtain ⟨listed, held⟩ := List.mem_filter.mp member
    simp only [List.mem_cons, List.not_mem_nil, or_false, Prod.mk.injEq] at listed
    rcases listed with ⟨rfl, rfl⟩ | ⟨rfl, rfl⟩ | ⟨rfl, rfl⟩
    · exact ⟨by simp, by simpa using held⟩
    · exact ⟨by simp, by simpa [devicesApart] using held⟩
    · exact ⟨by simp, by simpa [soundApart] using held⟩
  · rintro ⟨known, kept⟩
    refine List.mem_map.mpr ⟨(id, if id = CLIPRDR then clipboard else devices),
      List.mem_filter.mpr ⟨?_, kept⟩, rfl⟩
    simp only [List.mem_cons, List.not_mem_nil, or_false] at known
    rcases known with rfl | rfl | rfl
    · simp
    · simp [devicesApart]
    · simp [soundApart]

theorem mem_allowIds (allow deny : List Byte) (id : BitVec 64) :
    id ∈ (make allow deny).allowIds ↔ (extractNames allow).Lists id ∨
      id ∈ [CLIPRDR, RDPDR, RDPSND] ∧ (make allow deny).pushed id = true := by
  simp only [make, List.mem_append, normalizeGroups_ids, pushed]
  exact or_congr_right (mem_kept _ _ (fun allowed => allowed) id)

theorem mem_denyIds (allow deny : List Byte) (id : BitVec 64) :
    id ∈ (make allow deny).denyIds ↔ (extractNames deny).Lists id ∨
      id ∈ [CLIPRDR, RDPDR, RDPSND] ∧ (make allow deny).pushed id = false := by
  simp only [make, List.mem_append, normalizeGroups_ids, pushed]
  rw [← Bool.not_eq_true']
  exact or_congr_right (mem_kept _ _ (!·) id)

/-- A channel of a group is authorised exactly if one of its flags is set. -/
theorem isAuthorized_group (allow deny : List Byte) {id : BitVec 64}
    (known : id ∈ [CLIPRDR, RDPDR, RDPSND]) :
    (make allow deny).isAuthorized id = (make allow deny).pushed id := by
  have inGroup (extracted : Extracted) : ¬ extracted.Lists id := by
    intro listed
    simp only [List.mem_cons, List.not_mem_nil, or_false] at known
    rcases known with same | same | same
    · exact listed.2 .cliprdr same
    · exact listed.2 .rdpdr same
    · exact listed.2 .rdpsnd same
  simp only [isAuthorized, mem_allowIds, mem_denyIds, inGroup, known, false_or, true_and]
  cases (make allow deny).pushed id
  · simp
  · simp

theorem isAuthorized_other (allow deny : List Byte) {id : BitVec 64}
    (other : id ∉ [CLIPRDR, RDPDR, RDPSND]) :
    (make allow deny).isAuthorized id = true ↔
      if (extractNames deny).all then (extractNames allow).Lists id
      else ¬ (extractNames deny).Lists id ∧
        ((extractNames allow).all = true ∨ (extractNames allow).Lists id) := by
  have closes : (make allow deny).allDeny = (extractNames deny).all := by simp only [make]
  have opens : (make allow deny).allAllow = (extractNames allow).all := by simp only [make]
  have allowed : id ∈ (make allow deny).allowIds ↔ (extractNames allow).Lists id := by
    simp only [mem_allowIds, other, false_and, or_false]
  have denied : id ∈ (make allow deny).denyIds ↔ (extractNames deny).Lists id := by
    simp only [mem_denyIds, other, false_and, or_false]
  simp only [isAuthorized, closes, opens]
  by_cases closed : (extractNames deny).all = true
  · simp [closed, allowed]
  · by_cases wild : (extractNames allow).all = true
    · simp [closed, wild, denied]
    · simp [closed, wild, allowed, denied]

end ChannelsAuthorizations

/-- The text that names rights are appended as. -/
def appended (flags : List Restriction) : List Byte := flags.flatMap fun flag => COMMA :: flag.name

theorem listed_appended (front : List Byte) (flags : List Restriction) :
    listed (front ++ appended flags) =
      if Unread front then [] else listed front ++ flags.map Restriction.name := by
  induction flags generalizing front with
  | nil =>
    rw [appended, List.flatMap_nil, List.append_nil, List.map_nil, List.append_nil, listed_eq]
    by_cases void : Unread front
    · rw [if_pos void, if_pos void]
    · rw [if_neg void, if_neg void]
  | cons flag rest ih =>
    have head : Unread (front ++ COMMA :: flag.name) ↔ Unread front := by
      cases front <;> simp [Unread, COMMA]
    have next : front ++ appended (flag :: rest) = (front ++ COMMA :: flag.name) ++ appended rest := by
      simp [appended]
    rw [next, ih, listed_append, flag.tokens_name]
    simp only [head]
    by_cases void : Unread front
    · rw [if_pos void, if_pos void]
    · rw [if_neg void, if_neg void, if_neg void, List.map_cons, List.append_assoc,
        List.singleton_append]

theorem extractNames_appended (front : List Byte) (flags : List Restriction) :
    (extractNames (front ++ appended flags)).all = (extractNames front).all ∧
      (extractNames (front ++ appended flags)).ids = (extractNames front).ids ∧
      (extractNames (front ++ appended flags)).largeIds =
        if Unread front then [] else (extractNames front).largeIds ++
          flags.map Restriction.name := by
  have names (name : List Byte) (one : name ∈ flags.map Restriction.name) :
      isWildcard name = false ∧ 7 < name.length := by
    obtain ⟨flag, -, rfl⟩ := List.mem_map.mp one
    exact flag.name_long
  by_cases void : Unread front
  · simp [extractNames, listed_appended, void, listed_unread void]
  · simp only [extractNames, listed_appended, if_neg void, List.any_append, List.filter_append]
    refine ⟨?_, ?_, ?_⟩
    · have tame : (flags.map Restriction.name).any isWildcard = false :=
        List.any_eq_false.mpr fun name one => by simp [(names name one).1]
      rw [tame, Bool.or_false]
    · have none : (flags.map Restriction.name).filter
          (fun name => decide (¬ isWildcard name = true ∧ name.length ≤ 7)) = [] :=
        List.filter_eq_nil_iff.mpr fun name one => by
          have := (names name one).2
          simp only [decide_eq_true_eq]
          omega
      rw [none, List.append_nil]
    · have every : (flags.map Restriction.name).filter
          (fun name => decide (¬ isWildcard name = true ∧ 7 < name.length)) =
            flags.map Restriction.name :=
        List.filter_eq_self.mpr fun name one => by simp [names name one]
      rw [every]

/-- The text of an option is somewhere in the options. -/
def Found (proxyOpt : List Byte) (flag : Restriction) : Prop :=
  flag.option <:+: expandOptions proxyOpt

instance (proxyOpt : List Byte) : DecidablePred (Found proxyOpt) :=
  fun _ => inferInstanceAs (Decidable (_ <:+: _))

/-- A right is appended to the allowed ones if its option is found, else to the denied ones. -/
theorem computeAuthorizedChannels_eq (originalAllow originalDeny proxyOpt : List Byte) :
    computeAuthorizedChannels originalAllow originalDeny proxyOpt =
      (residue originalAllow ++ appended (Restriction.all.filter (Found proxyOpt ·)),
        residue originalDeny ++ appended (Restriction.all.filter (¬ Found proxyOpt ·))) := by
  have step (flags : List Restriction) (allow deny : List Byte) :
      (flags.map fun flag => (flag.option, flag)).foldl (fun lists known =>
        if known.1 <:+: expandOptions proxyOpt then (lists.1 ++ COMMA :: known.2.name, lists.2)
        else (lists.1, lists.2 ++ COMMA :: known.2.name)) (allow, deny) =
      (allow ++ appended (flags.filter (Found proxyOpt ·)),
        deny ++ appended (flags.filter (¬ Found proxyOpt ·))) := by
    induction flags generalizing allow deny with
    | nil => simp [appended]
    | cons flag rest ih =>
      rw [List.map_cons, List.foldl_cons]
      by_cases found : Found proxyOpt flag
      · have within : flag.option <:+: expandOptions proxyOpt := found
        simp only [if_pos within, ih]
        simp [appended, found]
      · have absent : ¬ flag.option <:+: expandOptions proxyOpt := found
        simp only [if_neg absent, ih]
        simp [appended, found]
  rw [computeAuthorizedChannels, optsChannels_eq]
  exact step _ _ _

/-- The authorisations of a session. -/
def sessionAuthorizations (originalAllow originalDeny proxyOpt : List Byte) :
    ChannelsAuthorizations :=
  let (allow, deny) := computeAuthorizedChannels originalAllow originalDeny proxyOpt
  .make allow deny

/-- An option is an element of the options; that of a drive stands for both its rights. -/
def Requested (proxyOpt : List Byte) (flag : Restriction) : Prop :=
  flag.option ∈ tokens proxyOpt ∨
    flag ∈ [Restriction.rdpdrDriveRead, .rdpdrDriveWrite] ∧ chars "RDP_DRIVE" ∈ tokens proxyOpt

instance (proxyOpt : List Byte) : DecidablePred (Requested proxyOpt) :=
  fun _ => inferInstanceAs (Decidable (_ ∨ _))

/-- The short names of channels in a list that are in no group. -/
def OtherChannel (list : List Byte) (id : BitVec 64) : Prop :=
  id ∉ [CLIPRDR, RDPDR, RDPSND] ∧
    ∃ name ∈ tokens list, isWildcard name = false ∧ name.length ≤ 7 ∧ channelNameId name = id

/-- The rights are those that the options ask for, whatever the lists are. -/
structure FollowsOptions (originalAllow originalDeny proxyOpt : List Byte) : Prop where
  rights (flag : Restriction) :
    (sessionAuthorizations originalAllow originalDeny proxyOpt).grants flag = true ↔
      Requested proxyOpt flag
  cliprdr :
    (sessionAuthorizations originalAllow originalDeny proxyOpt).isAuthorized CLIPRDR = true ↔
      ∃ flag ∈ [Restriction.cliprdrUp, .cliprdrDown],
        (sessionAuthorizations originalAllow originalDeny proxyOpt).grants flag = true
  devices {id : BitVec 64} (known : id ∈ [RDPDR, RDPSND]) :
    (sessionAuthorizations originalAllow originalDeny proxyOpt).isAuthorized id = true ↔
      ∃ flag ∈ Group.rdpdr.restrictions ++ Group.rdpsnd.restrictions,
        (sessionAuthorizations originalAllow originalDeny proxyOpt).grants flag = true
  denied {id : BitVec 64} (other : OtherChannel originalDeny id) :
    (sessionAuthorizations originalAllow originalDeny proxyOpt).isAuthorized id = false

/-- A short name of a channel. -/
def Short (name : List Byte) : Prop := isWildcard name = false ∧ name ≠ [] ∧ name.length ≤ 7

instance : DecidablePred Short := fun _ => inferInstanceAs (Decidable (_ ∧ _))

/-- A name stands for a flag: it is its own, or a short one of its group. -/
def Stands (name : List Byte) (flag : Restriction) : Prop :=
  name = flag.name ∨ Short name ∧ channelNameId name = flag.group.id

instance (name : List Byte) (flag : Restriction) : Decidable (Stands name flag) :=
  inferInstanceAs (Decidable (_ ∨ _))

/-- The items of the lists and of the options are spelled as the code looks for them. -/
structure ItemsAgree (originalAllow originalDeny proxyOpt : List Byte) : Prop where
  allowText : 0 ∉ originalAllow
  denyText : 0 ∉ originalDeny
  /-- An item of the deny list that ends in one of the names that are taken out is that name. -/
  plain : Plain originalDeny
  /-- The other items of the deny list do not stand for a right that is asked for. -/
  free : ∀ item ∈ pieces COMMA originalDeny, ltrim item ∉ ownNames →
    ∀ flag, Requested proxyOpt flag → ¬ Stands (trim item) flag
  /-- Where the deny list has a wildcard, its other channels are not in the allow list. -/
  wild : (∃ name ∈ tokens originalDeny, isWildcard name = true) → Plain originalAllow ∧
    ∀ name ∈ tokens originalDeny, ∀ other ∈ tokens originalAllow, Short name → Short other →
      channelNameId name = channelNameId other → channelNameId name ∈ [CLIPRDR, RDPDR, RDPSND]
  /-- An option whose text is in an item is asked for. -/
  options : ∀ item ∈ pieces COMMA proxyOpt, ∀ flag : Restriction, flag.option <:+: item →
    Requested proxyOpt flag
  /-- There is nothing before the option for both rights to a drive but blanks, and no blank behind
  it. -/
  drives : ∀ item ∈ pieces COMMA proxyOpt,
    chars "RDP_DRIVE" <:+ item ∨ trim item = chars "RDP_DRIVE" → ltrim item = chars "RDP_DRIVE"

section Session

variable (originalAllow originalDeny proxyOpt : List Byte)

private theorem session_eq : sessionAuthorizations originalAllow originalDeny proxyOpt =
    .make (residue originalAllow ++ appended (Restriction.all.filter (Found proxyOpt ·)))
      (residue originalDeny ++ appended (Restriction.all.filter (¬ Found proxyOpt ·))) := by
  rw [sessionAuthorizations, computeAuthorizedChannels_eq]

/-- A list names a right after the names that were appended to what is left of it. -/
private theorem names_appended (front : List Byte) (flags : List Restriction) (flag : Restriction) :
    (extractNames (front ++ appended flags)).Names flag ↔
      (extractNames front).Names flag ∨ ¬ Unread front ∧ flag ∈ flags := by
  obtain ⟨-, ids, large⟩ := extractNames_appended front flags
  rw [Extracted.Names, Extracted.Names, ids, large, or_assoc]
  refine or_congr_right ?_
  by_cases void : Unread front
  · simp [void, extractNames, listed_unread void]
  · have named : flag.name ∈ flags.map Restriction.name ↔ flag ∈ flags := by
      refine ⟨fun member => ?_, List.mem_map_of_mem⟩
      obtain ⟨other, listed, same⟩ := List.mem_map.mp member
      rwa [← Restriction.name_injective same]
    rw [if_neg void, List.mem_append, named, and_iff_right void]

/-- Where the lists are read, a right is granted to those whose option is found, unless what is left
of the deny list names it. -/
theorem session_grants (allowRead : ¬ Unread (residue originalAllow))
    (denyRead : ¬ Unread (residue originalDeny)) (flag : Restriction) :
    (sessionAuthorizations originalAllow originalDeny proxyOpt).grants flag = true ↔
      Found proxyOpt flag ∧ ¬ (extractNames (residue originalDeny)).Names flag := by
  have chosen : flag ∈ Restriction.all.filter (Found proxyOpt ·) ↔ Found proxyOpt flag := by
    simp [flag.mem_all]
  have refused : flag ∈ Restriction.all.filter (¬ Found proxyOpt ·) ↔ ¬ Found proxyOpt flag := by
    simp [flag.mem_all]
  rw [ChannelsAuthorizations.grants_eq, session_eq, ChannelsAuthorizations.make_restriction,
    names_appended, names_appended, chosen, refused]
  by_cases found : Found proxyOpt flag
  · simp [found, allowRead]
  · simp [found, denyRead]

/-- The other channels are authorised as what is left of the lists says. -/
theorem session_other {id : BitVec 64} (other : id ∉ [CLIPRDR, RDPDR, RDPSND]) :
    (sessionAuthorizations originalAllow originalDeny proxyOpt).isAuthorized id = true ↔
      if (extractNames (residue originalDeny)).all then
        (extractNames (residue originalAllow)).Lists id
      else ¬ (extractNames (residue originalDeny)).Lists id ∧
        ((extractNames (residue originalAllow)).all = true ∨
          (extractNames (residue originalAllow)).Lists id) := by
  obtain ⟨allowAll, allowIds, -⟩ :=
    extractNames_appended (residue originalAllow) (Restriction.all.filter (Found proxyOpt ·))
  obtain ⟨denyAll, denyIds, -⟩ :=
    extractNames_appended (residue originalDeny) (Restriction.all.filter (¬ Found proxyOpt ·))
  rw [session_eq, ChannelsAuthorizations.isAuthorized_other _ _ other]
  simp only [Extracted.Lists, allowAll, allowIds, denyAll, denyIds]

theorem session_pushed {id : BitVec 64} (known : id ∈ [CLIPRDR, RDPDR, RDPSND]) :
    (sessionAuthorizations originalAllow originalDeny proxyOpt).isAuthorized id =
      (sessionAuthorizations originalAllow originalDeny proxyOpt).pushed id := by
  rw [session_eq]
  exact ChannelsAuthorizations.isAuthorized_group _ _ known

end Session

section Agree

variable {originalAllow originalDeny proxyOpt list : List Byte}

theorem mem_tokens_iff {name : List Byte} :
    name ∈ tokens list ↔ name ≠ [] ∧ ∃ item ∈ pieces COMMA list, trim item = name := by
  rw [tokens, List.mem_filter, List.mem_map, decide_eq_true_iff, and_comm]

theorem prefix_trim (item : List Byte) : trim item <+: ltrim item := by
  rw [← List.reverse_suffix, trim, rtrim, List.reverse_reverse]
  exact List.dropWhile_suffix _

theorem channelNameId_ne_zero {name : List Byte} (some : name ≠ []) (text : 0 ∉ name) :
    channelNameId name ≠ 0 := by
  have lowered : ∀ char : Byte, lower char = 0 → char = 0 := by decide
  cases name with
  | nil => exact absurd rfl some
  | cons char name =>
    intro zero
    have first : lower char <<< (8 * 0) = 0 := (BitVec.or_eq_zero_iff.mp zero).1
    rw [Nat.mul_zero, BitVec.shiftLeft_zero] at first
    exact text (List.mem_cons.mpr (.inl (lowered char first).symm))

/-- No name of a text without a null character has the id of audio capture. -/
theorem tokens_id_ne {name : List Byte} (text : 0 ∉ list) (member : name ∈ tokens list) :
    channelNameId name ≠ 0 := by
  obtain ⟨some, item, among, rfl⟩ := mem_tokens_iff.mp member
  refine channelNameId_ne_zero some fun null => ?_
  have within : (0 : Byte) ∈ (pieces COMMA list).flatMap (· ++ [COMMA]) :=
    List.mem_flatMap.mpr ⟨item, among, List.mem_append_left _
      ((List.dropWhile_sublist _).subset ((prefix_trim item).subset null))⟩
  rw [← without_nil, without_pieces, List.mem_append] at within
  exact within.elim text (by decide)

theorem names_iff (read : ¬ Unread list) (flag : Restriction) :
    (extractNames list).Names flag ↔ ∃ name ∈ tokens list, Stands name flag := by
  simp only [Extracted.Names, extractNames, listed_eq, if_neg read, List.mem_map, List.mem_filter,
    decide_eq_true_eq, Bool.not_eq_true]
  constructor
  · rintro (⟨name, ⟨member, tame, short⟩, id⟩ | ⟨member, _⟩)
    · exact ⟨name, member, .inr ⟨⟨tame, (mem_tokens_iff.mp member).1, short⟩, id⟩⟩
    · exact ⟨_, member, .inl rfl⟩
  · rintro ⟨name, member, rfl | ⟨⟨tame, _, short⟩, id⟩⟩
    · exact .inr ⟨member, flag.name_long⟩
    · exact .inl ⟨name, ⟨member, tame, short⟩, id⟩

theorem mem_ids_iff (read : ¬ Unread list) (id : BitVec 64) : id ∈ (extractNames list).ids ↔
    ∃ name ∈ tokens list, isWildcard name = false ∧ name.length ≤ 7 ∧ channelNameId name = id := by
  simp only [extractNames, listed_eq, if_neg read, List.mem_map, List.mem_filter,
    decide_eq_true_eq, Bool.not_eq_true, and_assoc]

namespace ItemsAgree

variable (agree : ItemsAgree originalAllow originalDeny proxyOpt)

include agree

/-- An option is found where it is asked for. -/
theorem found_iff (flag : Restriction) : Found proxyOpt flag ↔ Requested proxyOpt flag := by
  have word : Word flag.option := by cases flag <;> decide
  have other : rtrim (chars "RDP_DRIVE") ≠ flag.option := by cases flag <;> decide
  have both : flag.option <:+: chars "RDP_DRIVE_READ,RDP_DRIVE_WRITE" ↔
      flag ∈ [Restriction.rdpdrDriveRead, .rdpdrDriveWrite] := by cases flag <;> decide
  rw [Found, infix_expandOptions word fun item member ends => agree.drives item member (.inl ends),
    both]
  constructor
  · rintro (⟨item, member, _, found⟩ | ⟨⟨item, member, same⟩, drive⟩)
    · exact agree.options item member flag (found.trans (List.dropWhile_suffix _).isInfix)
    · exact .inr ⟨drive, mem_tokens_iff.mpr ⟨by decide, item, member, congrArg rtrim same⟩⟩
  · rintro (asked | ⟨drive, asked⟩)
    · obtain ⟨_, item, member, same⟩ := mem_tokens_iff.mp asked
      refine .inl ⟨item, member, fun drive => other ((congrArg rtrim drive).symm.trans same), ?_⟩
      exact same ▸ (prefix_trim item).isInfix
    · obtain ⟨_, item, member, same⟩ := mem_tokens_iff.mp asked
      exact .inr ⟨⟨item, member, agree.drives item member (.inr same)⟩, drive⟩

theorem denyRead : ¬ Unread (residue originalDeny) := residue_read agree.denyText

/-- What is left of the deny list does not name what is asked for. -/
theorem not_names {flag : Restriction} (asked : Requested proxyOpt flag) :
    ¬ (extractNames (residue originalDeny)).Names flag := by
  rw [names_iff agree.denyRead]
  rintro ⟨name, member, stands⟩
  obtain ⟨_, item, among, other, rfl⟩ := (mem_tokens_residue agree.plain).mp member
  exact agree.free item among other flag asked stands

/-- Another channel of the deny list is left in it. -/
theorem lists {id : BitVec 64} (other : OtherChannel originalDeny id) :
    (extractNames (residue originalDeny)).Lists id := by
  obtain ⟨apart, name, member, tame, short, rfl⟩ := other
  have nonzero := tokens_id_ne agree.denyText member
  obtain ⟨some, item, among, rfl⟩ := mem_tokens_iff.mp member
  have own : ∀ name ∈ ownNames, isWildcard (rtrim name) = false → (rtrim name).length ≤ 7 →
      channelNameId (rtrim name) ∈ [CLIPRDR, RDPDR, RDPSND] := by decide +kernel
  refine ⟨(mem_ids_iff agree.denyRead _).mpr ⟨_, (mem_tokens_residue agree.plain).mpr
    ⟨some, item, among, fun mine => apart (own _ mine tame short), rfl⟩, tame, short, rfl⟩, ?_⟩
  rintro (_ | _) same
  all_goals simp_all [Group.id]

end ItemsAgree

end Agree

/-- Where the items agree, the session has the rights that its options ask for. -/
theorem followsOptions_of_itemsAgree (originalAllow originalDeny proxyOpt : List Byte)
    (agree : ItemsAgree originalAllow originalDeny proxyOpt) :
    FollowsOptions originalAllow originalDeny proxyOpt := by
  have allowRead := residue_read agree.allowText
  refine ⟨fun flag => ?_, ?_, ?_, ?_⟩
  · rw [session_grants _ _ _ allowRead agree.denyRead, agree.found_iff]
    exact and_iff_left_of_imp agree.not_names
  · rw [session_pushed _ _ _ (by simp)]
    simp [ChannelsAuthorizations.pushed, ChannelsAuthorizations.grants_eq]
  · intro id known
    have apart : id ≠ CLIPRDR := by
      rintro rfl
      revert known
      decide
    rw [session_pushed _ _ _ (List.mem_cons_of_mem _ known)]
    simp only [ChannelsAuthorizations.pushed, if_neg apart, ChannelsAuthorizations.grants_eq,
      ← List.any_append, List.any_eq_true]
  · intro id other
    rw [← Bool.not_eq_true, session_other _ _ _ other.1]
    split
    · rename_i closed
      rintro ⟨allowed, _⟩
      simp only [extractNames, listed_eq, if_neg agree.denyRead, List.any_eq_true] at closed
      obtain ⟨star, among, wildcard⟩ := closed
      obtain ⟨full, item, listed, _, rfl⟩ := (mem_tokens_residue agree.plain).mp among
      obtain ⟨plain, unlisted⟩ := agree.wild ⟨_, mem_tokens_iff.mpr ⟨full, item, listed, rfl⟩, wildcard⟩
      obtain ⟨apart, name, member, tame, short, rfl⟩ := other
      obtain ⟨name', among', tame', short', same⟩ := (mem_ids_iff allowRead _).mp allowed
      obtain ⟨some', item', listed', _, rfl⟩ := (mem_tokens_residue plain).mp among'
      exact apart (unlisted name member _ (mem_tokens_iff.mpr ⟨some', item', listed', rfl⟩)
        ⟨tame, (mem_tokens_iff.mp member).1, short⟩ ⟨tame', some', short'⟩ same.symm)
    · exact fun both => both.1 (agree.lists other)

/-- The drive and the printer are asked for, while the lists allow other rights, and deny the group of
these and, with a wildcard, another channel. -/
theorem followsOptions_mixed : FollowsOptions (chars "drdynvc,rdpdr_port, cliprdr_up")
    (chars "*, rdpdr,rdpsnd_audio_output, seamrdp") (chars "RDP_DRIVE, RDP_PRINTER,RDP_OTHER") := by
  refine followsOptions_of_itemsAgree _ _ _ ⟨by decide, by decide, by decide, ?_, fun _ => ?_, ?_,
    by decide⟩
  · intro item listed other flag asked
    revert item
    cases flag <;> decide +kernel
  · exact ⟨by decide, by decide +kernel⟩
  · intro item listed flag
    revert item
    cases flag <;> decide

/-- A group that is denied in capitals is not taken out of the list, and denies what an option
asks for. -/
theorem capitals_block :
    ¬ FollowsOptions [] (chars "CLIPRDR") (chars "RDP_CLIPBOARD_UP") := by
  intro follows
  have asked : Requested (chars "RDP_CLIPBOARD_UP") .cliprdrUp := .inl (by decide)
  have granted := (follows.rights .cliprdrUp).mpr asked
  have refused : (sessionAuthorizations [] (chars "CLIPRDR") (chars "RDP_CLIPBOARD_UP")).grants
      .cliprdrUp = false := by decide +kernel
  exact absurd granted (by decide)

end Redemption.Channels
