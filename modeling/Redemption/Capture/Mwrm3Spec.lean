import Redemption.Capture.Mwrm3

/-! The packets that are serialized are parsed again, as soon as there is enough behind them. -/
namespace Redemption.Capture.Mwrm3

open Redemption.Foundation

/-- A hash that is absent, or whole. -/
def Hash (hash : List Byte) : Prop := hash = [] ∨ hash.length = hashLen

/-- What the serializer accepts. -/
def Packet.Accepted : Packet → Prop
  | .wrmNew filename => filename.length ≤ 65535
  | .wrmState _ _ quickHash fullHash => Hash quickHash ∧ Hash fullHash
  | .fdxNew filename => filename.length ≤ 65535
  | .tflNew _ _ _ _ originalFilename tflFilename quickHash fullHash signature =>
    originalFilename.length ≤ 65535 ∧ tflFilename.length ≤ 65535 ∧ Hash quickHash ∧
      Hash fullHash ∧ Hash signature
  | .mwrmHeaderCompatibility => True

/-- The size that the second group of a transfer counts is there, behind the original file name. -/
def Packet.Backed (further : List Byte) : Packet → Prop
  | .tflNew _ _ _ _ _ tflFilename quickHash fullHash signature =>
    2 ≤ (tflFilename ++ quickHash ++ fullHash ++ signature ++ further).length
  | _ => True

namespace Readers

theorem gives_u8 (value : Byte) : u8.read.Gives [value] value := fun _ => rfl

theorem gives_u16 {value : Nat} (small : value ≤ 65535) :
    u16.read.Gives (leBytes 2 value) value := by
  intro rest
  have bounded : value < 2 ^ (8 * 2) := Nat.lt_succ_of_le small
  simp only [u16, inLe_append, Nat.mod_eq_of_lt bounded]
  rfl

theorem gives_u64 (value : BitVec 64) : u64.read.Gives (leBytes 8 value.toNat) value := by
  intro rest
  rw [u64]
  simp only [inLe_append, Nat.mod_eq_of_lt value.isLt]
  change Except.ok (some (BitVec.ofNat 64 value.toNat, rest)) = _
  rw [BitVec.ofNat_toNat, BitVec.setWidth_eq]

theorem takes_u8 : u8.read.Takes 1 := by
  intro stream enough
  cases stream with
  | nil => cases enough
  | cons byte rest => exact ⟨byte, rfl⟩

theorem takes_u16 : u16.read.Takes 2 := by
  intro stream enough
  refine ⟨leValue (stream.take 2), ?_⟩
  simp only [u16, inLe_ok enough]
  rfl

theorem takes_u64 : u64.read.Takes 8 := by
  intro stream enough
  refine ⟨BitVec.ofNat 64 (leValue (stream.take 8)), ?_⟩
  rw [u64]
  simp only [inLe_ok enough]
  rfl

/-- A name is waited for behind its length, which the group has waited for. -/
theorem waits_u16bytes {filename : List Byte} (small : filename.length ≤ 65535) :
    (FrontReader.guard u16bytes.size u16bytes.read).Waits
      (leBytes 2 filename.length ++ filename) :=
  FrontReader.waits_guard_andThen (gives_u16 small)
    (Nat.le_of_eq (length_leBytes 2 filename.length)) (FrontReader.waits_cells filename)

theorem gives_u16bytes {filename : List Byte} (small : filename.length ≤ 65535) :
    (FrontReader.guard u16bytes.size u16bytes.read).Gives
      (leBytes 2 filename.length ++ filename) filename := by
  apply FrontReader.Gives.guard
  · exact (gives_u16 small).andThen (FrontReader.gives_cells filename)
  · rw [List.length_append, length_leBytes]
    exact Nat.le_add_right _ _

theorem total_u16bytes : (FrontReader.guard u16bytes.size u16bytes.read).Total :=
  takes_u16.total_guard_andThen (Nat.le_refl 2) FrontReader.total_cells

end Readers

open Readers

section Hashes

variable {mask : Byte} {leftShift : Nat} {hash : List Byte}

theorem gives_optionalHash (is : Hash hash) (there : bit mask leftShift = !hash.isEmpty) :
    (optionalHash mask leftShift).Gives hash hash := by
  rw [optionalHash, optionalValue]
  obtain rfl | whole := is
  · rw [if_neg (by rw [there]; decide)]
    exact FrontReader.gives_give []
  · have some : hash.isEmpty = false := by
      cases hash with
      | nil => cases whole
      | cons _ _ => rfl
    rw [if_pos (by rw [there, some]; rfl), staticBytes, ← whole]
    exact (FrontReader.gives_cells hash).guard (Nat.le_refl _)

theorem waits_optionalHash (is : Hash hash) (there : bit mask leftShift = !hash.isEmpty) :
    (optionalHash mask leftShift).Waits hash := by
  obtain rfl | whole := is
  · exact FrontReader.waits_nil _
  · have some : hash.isEmpty = false := by
      cases hash with
      | nil => cases whole
      | cons _ _ => rfl
    rw [optionalHash, optionalValue, if_pos (by rw [there, some]; rfl), staticBytes, ← whole]
    exact (FrontReader.waits_cells hash).guard _

theorem total_optionalHash (mask : Byte) (leftShift : Nat) :
    (optionalHash mask leftShift).Total := by
  rw [optionalHash, optionalValue]
  cases bit mask leftShift with
  | true => exact (FrontReader.total_cells hashLen).guard _
  | false => exact FrontReader.total_give []

end Hashes

namespace WrmState

def mask (quickHash fullHash : List Byte) : Byte :=
  presence quickHash <<< 0 ||| presence fullHash <<< 1

theorem bit_quickHash (quickHash fullHash : List Byte) :
    bit (mask quickHash fullHash) 0 = !quickHash.isEmpty := by
  rw [mask, presence, presence]
  cases quickHash.isEmpty <;> cases fullHash.isEmpty <;> decide

theorem bit_fullHash (quickHash fullHash : List Byte) :
    bit (mask quickHash fullHash) 1 = !fullHash.isEmpty := by
  rw [mask, presence, presence]
  cases quickHash.isEmpty <;> cases fullHash.isEmpty <;> decide

theorem gives_fields (fileSize duration : BitVec 64) (mask : Byte) :
    fields.Gives (leBytes 8 fileSize.toNat ++ (leBytes 8 duration.toNat ++ ([mask] ++ [])))
      (fileSize, duration, mask) :=
  (gives_u64 fileSize).andThen ((gives_u64 duration).andThen
    ((gives_u8 mask).andThen (FrontReader.gives_give _)))

theorem takes_fields : fields.Takes (8 + (8 + (1 + 0))) :=
  takes_u64.andThen fun _ => takes_u64.andThen fun _ => takes_u8.andThen fun _ =>
    FrontReader.takes_give _

theorem total_unserialize : unserialize.Total :=
  takes_fields.total_guard_andThen (by decide) fun (_, _, mask) =>
    (total_optionalHash mask 0).andThen fun _ => (total_optionalHash mask 1).andThen fun _ =>
      FrontReader.total_give _

theorem serialized {fileSize duration : BitVec 64} {quickHash fullHash : List Byte}
    (quick : Hash quickHash) (full : Hash fullHash) :
    unserialize.Gives (leBytes 8 fileSize.toNat ++ (leBytes 8 duration.toNat ++
        ([mask quickHash fullHash] ++ [])) ++ (quickHash ++ (fullHash ++ [])))
      (.wrmState fileSize duration quickHash fullHash) ∧
    unserialize.Waits (leBytes 8 fileSize.toNat ++ (leBytes 8 duration.toNat ++
        ([mask quickHash fullHash] ++ [])) ++ (quickHash ++ (fullHash ++ []))) := by
  have bits := bit_quickHash quickHash fullHash
  have bits' := bit_fullHash quickHash fullHash
  have given := gives_optionalHash quick bits
  have given' := gives_optionalHash full bits'
  constructor
  · apply FrontReader.Gives.guard
    · exact (gives_fields fileSize duration _).andThen
        (given.andThen (given'.andThen (FrontReader.gives_give _)))
    · simp only [List.length_append, length_leBytes, List.length_singleton, u64, u8]
      omega
  · apply FrontReader.waits_guard_andThen (gives_fields fileSize duration _)
    · simp only [List.length_append, length_leBytes, List.length_singleton, List.length_nil, u64,
        u8]
      omega
    · exact (waits_optionalHash quick bits).andThen given.offers
        ((waits_optionalHash full bits').andThen given'.offers (FrontReader.waits_nil _))

end WrmState

namespace TflNew

/-- The mask of a transfer. -/
def mask (direction : Direction) (transferedStatus : TransferedStatus)
    (quickHash fullHash signature : List Byte) : Byte :=
  presence quickHash <<< 0 ||| presence fullHash <<< 1 ||| presence signature <<< 2 |||
    (direction.toByte &&& 0b11) <<< 3 ||| (transferedStatus.toByte &&& 0b11) <<< 5

section Mask

variable (direction' : Direction) (status : TransferedStatus)
  (quickHash fullHash signature : List Byte)

theorem mask_parts :
    bit (mask direction' status quickHash fullHash signature) 0 = !quickHash.isEmpty ∧
    bit (mask direction' status quickHash fullHash signature) 1 = !fullHash.isEmpty ∧
    bit (mask direction' status quickHash fullHash signature) 2 = !signature.isEmpty ∧
    direction (mask direction' status quickHash fullHash signature) = direction' ∧
    transferedStatus (mask direction' status quickHash fullHash signature) = status := by
  rw [mask, presence, presence, presence]
  cases quickHash.isEmpty <;> cases fullHash.isEmpty <;> cases signature.isEmpty <;>
    cases direction' <;> cases status <;> decide

end Mask

def fieldBytes (fields : Fields) : List Byte :=
  leBytes 8 fields.idx.toNat ++ (leBytes 8 fields.fileSize.toNat ++ ([fields.mask] ++
    (leBytes 2 fields.originalFilenameLen ++ (leBytes 2 fields.tflFilenameLen ++ []))))

theorem length_fieldBytes (fields : Fields) : (fieldBytes fields).length = 21 := by
  simp only [fieldBytes, List.length_append, length_leBytes, List.length_singleton, List.length_nil]

theorem gives_fields {values : Fields} (original : values.originalFilenameLen ≤ 65535)
    (tfl : values.tflFilenameLen ≤ 65535) : fields.Gives (fieldBytes values) values :=
  (gives_u64 values.idx).andThen ((gives_u64 values.fileSize).andThen
    ((gives_u8 values.mask).andThen ((gives_u16 original).andThen
      ((gives_u16 tfl).andThen (FrontReader.gives_give _)))))

theorem takes_fields : fields.Takes (8 + (8 + (1 + (2 + (2 + 0))))) :=
  takes_u64.andThen fun _ => takes_u64.andThen fun _ => takes_u8.andThen fun _ =>
    takes_u16.andThen fun _ => takes_u16.andThen fun _ => FrontReader.takes_give _

theorem total_unserialize : unserialize.Total := by
  have total : firstGroup.Total :=
    takes_fields.total_guard_andThen (by decide) fun fields =>
      (FrontReader.total_cells fields.originalFilenameLen).andThen fun _ =>
        FrontReader.total_give _
  refine total.andThen fun (fields, _) => ?_
  exact ((FrontReader.total_cells fields.tflFilenameLen).guard _).andThen fun _ =>
    (total_optionalHash fields.mask 0).andThen fun _ =>
      (total_optionalHash fields.mask 1).andThen fun _ =>
        (total_optionalHash fields.mask 2).andThen fun _ => FrontReader.total_give _

section Serialized

variable {values : Fields} {originalFilename : List Byte}

theorem gives_firstGroup (original : values.originalFilenameLen = originalFilename.length)
    (small : originalFilename.length ≤ 65535) (tfl : values.tflFilenameLen ≤ 65535) :
    (FrontReader.andThen fields fun fields =>
      (u16bytesData fields.originalFilenameLen).read.andThen fun originalFilename =>
        .give (fields, originalFilename)).Gives
      (fieldBytes values ++ (originalFilename ++ [])) (values, originalFilename) := by
  apply (gives_fields (original ▸ small) tfl).andThen
  rw [u16bytesData, original]
  exact (FrontReader.gives_cells originalFilename).andThen (FrontReader.gives_give _)

theorem waits_firstGroup (original : values.originalFilenameLen = originalFilename.length)
    (small : originalFilename.length ≤ 65535) (tfl : values.tflFilenameLen ≤ 65535) :
    firstGroup.Waits (fieldBytes values ++ (originalFilename ++ [])) := by
  apply FrontReader.waits_guard_andThen (gives_fields (original ▸ small) tfl)
  · rw [length_fieldBytes]
    decide
  · rw [u16bytesData, original]
    exact (FrontReader.waits_cells originalFilename).andThen
      (FrontReader.gives_cells originalFilename).offers (FrontReader.waits_nil _)

variable {values : Fields} {original tfl quickHash fullHash signature : List Byte}

/-- What there is behind the type of a transfer. -/
def body (values : Fields) (original tfl quickHash fullHash signature : List Byte) : List Byte :=
  (fieldBytes values ++ (original ++ [])) ++
    (tfl ++ (quickHash ++ (fullHash ++ (signature ++ []))))

/-- The fields say what is behind them. -/
structure Describes (values : Fields) (original tfl quickHash fullHash signature : List Byte) :
    Prop where
  originalLen : values.originalFilenameLen = original.length
  tflLen : values.tflFilenameLen = tfl.length
  originalSmall : original.length ≤ 65535
  tflSmall : tfl.length ≤ 65535
  quick : Hash quickHash ∧ bit values.mask 0 = !quickHash.isEmpty
  full : Hash fullHash ∧ bit values.mask 1 = !fullHash.isEmpty
  sha256 : Hash signature ∧ bit values.mask 2 = !signature.isEmpty

/-- The packet of the fields and of what is behind them. -/
def packet (values : Fields) (original tfl quickHash fullHash signature : List Byte) : Packet :=
  .tflNew values.idx values.fileSize (direction values.mask) (transferedStatus values.mask) original
    tfl quickHash fullHash signature

theorem waits_body (describes : Describes values original tfl quickHash fullHash signature) :
    unserialize.Waits (body values original tfl quickHash fullHash signature) := by
  have small := describes.tflLen.trans_le describes.tflSmall
  have given :=
    (gives_firstGroup describes.originalLen describes.originalSmall small).offers.guard 23
  have second : (secondGroup values.tflFilenameLen).Offers tfl tfl := by
    rw [secondGroup, describes.tflLen]
    exact (FrontReader.gives_cells tfl).offers.guard _
  have third := gives_optionalHash describes.quick.1 describes.quick.2
  have fourth := gives_optionalHash describes.full.1 describes.full.2
  have fifth := gives_optionalHash describes.sha256.1 describes.sha256.2
  apply (waits_firstGroup describes.originalLen describes.originalSmall small).andThen given
  apply FrontReader.Waits.andThen _ second
  · apply (waits_optionalHash describes.quick.1 describes.quick.2).andThen third.offers
    apply (waits_optionalHash describes.full.1 describes.full.2).andThen fourth.offers
    apply (waits_optionalHash describes.sha256.1 describes.sha256.2).andThen fifth.offers
    exact FrontReader.waits_nil _
  · rw [secondGroup, describes.tflLen]
    exact (FrontReader.waits_cells tfl).guard _

/-- A transfer is read where two bytes are there behind the original file name, and otherwise more
is asked for. -/
theorem unserialize_body (describes : Describes values original tfl quickHash fullHash signature)
    (further : List Byte) :
    unserialize (body values original tfl quickHash fullHash signature ++ further) =
      if 2 ≤ (tfl ++ quickHash ++ fullHash ++ signature ++ further).length then
        .ok (some (packet values original tfl quickHash fullHash signature, further))
      else .ok none := by
  have small := describes.tflLen.trans_le describes.tflSmall
  have first := gives_firstGroup describes.originalLen describes.originalSmall small
  have third := gives_optionalHash describes.quick.1 describes.quick.2
  have fourth := gives_optionalHash describes.full.1 describes.full.2
  have fifth := gives_optionalHash describes.sha256.1 describes.sha256.2
  have behind : (FrontReader.andThen (optionalHash values.mask 0) fun quickHash =>
      (optionalHash values.mask 1).andThen fun fullHash =>
        (optionalHash values.mask 2).andThen fun signature =>
          .give (packet values original tfl quickHash fullHash signature)).Gives
      (quickHash ++ (fullHash ++ (signature ++ [])))
      (packet values original tfl quickHash fullHash signature) :=
    third.andThen (fourth.andThen (fifth.andThen (FrontReader.gives_give _)))
  have size : (u16bytesData values.tflFilenameLen).size = 2 := rfl
  have total : (fieldBytes values ++ (original ++ []) ++ (tfl ++ (quickHash ++ (fullHash ++
      (signature ++ []))) ++ further)).length = 21 + original.length +
        (tfl ++ quickHash ++ fullHash ++ signature ++ further).length := by
    simp only [List.length_append, length_fieldBytes, List.length_nil]
    omega
  have rest : (tfl ++ (quickHash ++ (fullHash ++ (signature ++ []))) ++ further).length =
      (tfl ++ quickHash ++ fullHash ++ signature ++ further).length := by
    simp only [List.length_append, List.length_nil]
    omega
  rw [body, List.append_assoc, unserialize]
  by_cases enough : 2 ≤ (tfl ++ quickHash ++ fullHash ++ signature ++ further).length
  · rw [if_pos enough]
    have found := first (tfl ++ (quickHash ++ (fullHash ++ (signature ++ []))) ++ further)
    have found' : firstGroup _ = _ := (FrontReader.guard_enough (by
      rw [total]
      exact Nat.le_trans (by decide : _ ≤ 21 + 2) (by omega))).trans found
    have found'' : secondGroup values.tflFilenameLen (tfl ++ (quickHash ++ (fullHash ++
        (signature ++ []))) ++ further) =
        .ok (some (tfl, quickHash ++ (fullHash ++ (signature ++ [])) ++ further)) := by
      rw [secondGroup, FrontReader.guard_enough (by rw [size, rest]; exact enough), u16bytesData,
        describes.tflLen, List.append_assoc]
      exact FrontReader.gives_cells tfl _
    rw [FrontReader.andThen_some found']
    exact (FrontReader.andThen_some found'').trans (behind further)
  · rw [if_neg enough]
    by_cases short : (fieldBytes values ++ (original ++ []) ++ (tfl ++ (quickHash ++ (fullHash ++
        (signature ++ []))) ++ further)).length < 23
    · exact FrontReader.andThen_none (FrontReader.guard_short short)
    · have found' : firstGroup _ = _ := (FrontReader.guard_enough (Nat.le_of_not_lt short)).trans
        (first (tfl ++ (quickHash ++ (fullHash ++ (signature ++ []))) ++ further))
      rw [FrontReader.andThen_some found']
      apply FrontReader.andThen_none
      apply FrontReader.guard_short
      omega

end Serialized

end TflNew

theorem total_unserialize (type : PacketType) : (unserialize type).Total := by
  cases type with
  | wrmNew => exact total_u16bytes.andThen fun _ => FrontReader.total_give _
  | fdxNew => exact total_u16bytes.andThen fun _ => FrontReader.total_give _
  | wrmState => exact WrmState.total_unserialize
  | tflNew => exact TflNew.total_unserialize
  | mwrmHeaderCompatibility =>
    exact (FrontReader.total_cells 1).andThen fun _ => FrontReader.total_give _

/-- `parse_packet` stays inside its bytes, whatever they are. -/
theorem parsePacket_total (av : List Byte) : ∃ result, parsePacket av = .ok result := by
  rw [parsePacket]
  by_cases enough : 2 ≤ av.length
  · rw [if_pos enough]
    refine exists_ok_bind (inLe_ok enough) ?_
    simp only
    cases PacketType.ofNat? (leValue (av.take 2)) with
    | none => exact ⟨_, rfl⟩
    | some type =>
      obtain ⟨answer, found⟩ := total_unserialize type (av.drop 2)
      refine exists_ok_bind found ?_
      cases answer <;> exact ⟨_, rfl⟩
  · rw [if_neg enough]
    exact ⟨_, rfl⟩

theorem PacketType.ofNat?_toNat (type : PacketType) : ofNat? type.toNat = some type := by
  cases type <;> rfl

/-- What `parse_packet` says, by what is behind the type. -/
def answer : Option (Packet × List Byte) → ParserResult
  | some (packet, remaining) => .ok packet remaining
  | none => .needMoreData

theorem parsePacket_type (type : PacketType) {buf : List Byte} {found}
    (read : unserialize type buf = .ok found) :
    parsePacket (leBytes 2 type.toNat ++ buf) = .ok (answer found) := by
  have enough : 2 ≤ (leBytes 2 type.toNat ++ buf).length := by
    rw [List.length_append, length_leBytes]
    exact Nat.le_add_right _ _
  have value : type.toNat % 2 ^ (8 * 2) = type.toNat := by cases type <;> rfl
  rw [parsePacket, if_pos enough, inLe_append, ok_bind, value]
  simp only [PacketType.ofNat?_toNat, read, ok_bind]
  cases found <;> rfl

/-- What there is behind the type of a packet. -/
def Packet.body : Packet → List Byte
  | .wrmNew filename | .fdxNew filename => leBytes 2 filename.length ++ filename
  | .wrmState fileSize duration quickHash fullHash =>
    leBytes 8 fileSize.toNat ++ (leBytes 8 duration.toNat ++
      ([WrmState.mask quickHash fullHash] ++ [])) ++ (quickHash ++ (fullHash ++ []))
  | .tflNew idx fileSize direction transferedStatus originalFilename tflFilename quickHash fullHash
      signature =>
    TflNew.body ⟨idx, fileSize,
      TflNew.mask direction transferedStatus quickHash fullHash signature,
      originalFilename.length, tflFilename.length⟩ originalFilename tflFilename quickHash fullHash
      signature
  | .mwrmHeaderCompatibility => [10]

def Packet.type : Packet → PacketType
  | .wrmNew _ => .wrmNew
  | .wrmState .. => .wrmState
  | .fdxNew _ => .fdxNew
  | .tflNew .. => .tflNew
  | .mwrmHeaderCompatibility => .mwrmHeaderCompatibility

theorem serialize_eq (packet : Packet) :
    serialize packet = leBytes 2 packet.type.toNat ++ packet.body := by
  cases packet <;>
    simp only [serialize, Packet.body, Packet.type, TflNew.body, TflNew.fieldBytes, TflNew.mask,
      WrmState.mask, List.append_assoc, List.append_nil]

section Framed

variable {packet : Packet} {further : List Byte}

/-- What is behind the type stands for the packet, or more is asked for behind it. -/
structure Framed (packet : Packet) (further : List Byte) : Prop where
  backed : packet.Backed further →
    unserialize packet.type (packet.body ++ further) = .ok (some (packet, further))
  starved : ¬ packet.Backed further → unserialize packet.type (packet.body ++ further) = .ok none
  waits : (unserialize packet.type).Waits packet.body

theorem framed_of_gives (gives : (unserialize packet.type).Gives packet.body packet)
    (backed : packet.Backed further) (waits : (unserialize packet.type).Waits packet.body) :
    Framed packet further :=
  ⟨fun _ => gives further, fun starved => absurd backed starved, waits⟩

theorem named (new : List Byte → Packet) {filename : List Byte} (small : filename.length ≤ 65535) :
    (FrontReader.andThen (.guard u16bytes.size u16bytes.read) fun filename =>
      (.give (new filename) : Unserialize)).Gives (leBytes 2 filename.length ++ filename)
      (new filename) ∧
    (FrontReader.andThen (.guard u16bytes.size u16bytes.read) fun filename =>
      (.give (new filename) : Unserialize)).Waits (leBytes 2 filename.length ++ filename) := by
  have gives := gives_u16bytes small
  rw [← List.append_nil (leBytes 2 filename.length ++ filename)]
  constructor
  · exact gives.andThen (FrontReader.gives_give _)
  · exact (waits_u16bytes small).andThen gives.offers (FrontReader.waits_nil _)

theorem framed_tflNew {idx fileSize : BitVec 64} {direction' : Direction}
    {status : TransferedStatus} {original tfl quickHash fullHash signature : List Byte}
    (originalSmall : original.length ≤ 65535) (tflSmall : tfl.length ≤ 65535)
    (quick : Hash quickHash) (full : Hash fullHash) (sha256 : Hash signature) :
    Framed (.tflNew idx fileSize direction' status original tfl quickHash fullHash signature)
      further := by
  obtain ⟨bit, bit', bit'', is, is'⟩ :=
    TflNew.mask_parts direction' status quickHash fullHash signature
  have describes : TflNew.Describes ⟨idx, fileSize,
      TflNew.mask direction' status quickHash fullHash signature, original.length, tfl.length⟩
      original tfl quickHash fullHash signature :=
    ⟨rfl, rfl, originalSmall, tflSmall, ⟨quick, bit⟩, ⟨full, bit'⟩, ⟨sha256, bit''⟩⟩
  have read := TflNew.unserialize_body describes further
  rw [TflNew.packet] at read
  simp only [is, is'] at read
  exact ⟨fun backed => read.trans (if_pos backed), fun starved => read.trans (if_neg starved),
    TflNew.waits_body describes⟩

theorem framed (accepted : packet.Accepted) (further : List Byte) : Framed packet further := by
  cases packet with
  | wrmNew filename =>
    obtain ⟨gives, waits⟩ := named .wrmNew accepted
    exact framed_of_gives gives trivial waits
  | fdxNew filename =>
    obtain ⟨gives, waits⟩ := named .fdxNew accepted
    exact framed_of_gives gives trivial waits
  | wrmState fileSize duration quickHash fullHash =>
    obtain ⟨gives, waits⟩ := WrmState.serialized accepted.1 accepted.2
    exact framed_of_gives gives trivial waits
  | tflNew idx fileSize direction status original tfl quickHash fullHash signature =>
    obtain ⟨originalSmall, tflSmall, quick, full, sha256⟩ := accepted
    exact framed_tflNew originalSmall tflSmall quick full sha256
  | mwrmHeaderCompatibility =>
    have gives := @FrontReader.gives_cells (Fault Empty) Byte [10]
    exact framed_of_gives (gives.andThen (FrontReader.gives_give _)) trivial
      ((FrontReader.waits_cells [10]).andThen gives.offers (FrontReader.waits_nil _))

/-- A part of a packet is no packet: not even its type is there, or its type and a part of what is
behind it. -/
theorem Framed.parsePacket_part (framed : Framed packet further) {front back : List Byte}
    (some : back ≠ []) (same : serialize packet = front ++ back) :
    parsePacket front = .ok .needMoreData := by
  rw [serialize_eq] at same
  obtain ⟨middle, is, is'⟩ | ⟨middle, is, is'⟩ := List.append_eq_append_iff.mp same
  · rw [is]
    exact parsePacket_type packet.type (framed.waits middle back some is')
  · cases middle with
    | nil =>
      rw [List.append_nil] at is
      rw [List.nil_append] at is'
      have found := parsePacket_type packet.type
        (framed.waits [] packet.body (is' ▸ some) (List.nil_append _).symm)
      rw [List.append_nil, is] at found
      exact found
    | cons cell middle =>
      have len := congrArg List.length is
      rw [length_leBytes, List.length_append, List.length_cons] at len
      rw [parsePacket, if_neg (by omega)]

end Framed

/-- A packet that is serialized is parsed again, with what is behind it, where there are two bytes
behind the original file name of a transfer; a part of it asks for more, and no bytes are left. -/
theorem parsePacket_serialize_iff {packet : Packet} (accepted : packet.Accepted)
    (further : List Byte) :
    (parsePacket (serialize packet ++ further) = .ok (.ok packet further) ∧
      (∀ front back, back ≠ [] → serialize packet = front ++ back →
        parsePacket front = .ok .needMoreData) ∧
      ∀ av, ∃ result, parsePacket av = .ok result) ↔ packet.Backed further := by
  have framed := framed accepted further
  have whole : ∀ {found}, unserialize packet.type (packet.body ++ further) = .ok found →
      parsePacket (serialize packet ++ further) = .ok (answer found) := by
    intro found read
    rw [serialize_eq, List.append_assoc]
    exact parsePacket_type packet.type read
  constructor
  · intro parsed
    by_contra starved
    have missing := (whole (framed.starved starved)).symm.trans parsed.1
    cases missing
  · intro backed
    exact ⟨whole (framed.backed backed), fun _ _ => framed.parsePacket_part, parsePacket_total⟩

theorem parsePacket_serialize_iff_letters :
    (parsePacket (serialize (.tflNew 1 0 .clientToServer .broken [] [97, 98] [] [] []) ++ []) =
        .ok (.ok (.tflNew 1 0 .clientToServer .broken [] [97, 98] [] [] []) []) ∧
      (∀ front back, back ≠ [] →
        serialize (.tflNew 1 0 .clientToServer .broken [] [97, 98] [] [] []) = front ++ back →
        parsePacket front = .ok .needMoreData) ∧
      ∀ av, ∃ result, parsePacket av = .ok result) ↔
      (Packet.tflNew 1 0 .clientToServer .broken [] [97, 98] [] [] []).Backed [] :=
  @parsePacket_serialize_iff (.tflNew 1 0 .clientToServer .broken [] [97, 98] [] [] [])
    ⟨by decide, by decide, .inl rfl, .inl rfl, .inl rfl⟩ []

/-- A transfer of a file without a name, whose file has one of a letter, is not parsed. -/
theorem not_parsePacket_serialize :
    ¬ (∀ packet : Packet, packet.Accepted → ∀ further,
      parsePacket (serialize packet ++ further) = .ok (.ok packet further)) := by
  intro parsed
  have found := parsed (.tflNew 1 0 .clientToServer .broken [] [97] [] [] [])
    ⟨by decide, by decide, .inl rfl, .inl rfl, .inl rfl⟩ []
  revert found
  decide

end Redemption.Capture.Mwrm3
