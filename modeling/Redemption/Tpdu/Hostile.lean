import Redemption.Foundation.Machine
import Redemption.Tpdu.Framing

/-! What `next` gives out for bytes that may be anything, and where a CredSSP length wraps. -/
namespace Redemption.Tpdu

open Redemption.Foundation

/-- How long the header is that a packet starts with. -/
def TpduType.headerLength (packet : TpduType) (first second : Byte) : Nat :=
  match packet with
  | .pdu => if first &&& 0x03 = 0x0 then (X224Extractor.fastPathLength second 0).2 else 6
  | .credssp => if second ≤ 0x7F then 2 else if second = 0x81 then 3 else 4

/-- A CredSSP header whose length, with the header, does not fit 16 bits. -/
def Wraps (buf : Buf64k) : Prop :=
  4 ≤ buf.remaining ∧ buf.byteAt 1 = 0x82 ∧ 65532 ≤ uint16Be (buf.byteAt 2) (buf.byteAt 3)

/-- What an `Extractor` announces: at least the header, unless the length wraps. -/
def Announces (packet : TpduType) (buf : Buf64k) (length : Nat) : Prop :=
  4 ≤ buf.remaining ∧
    (packet.headerLength (buf.byteAt 0) (buf.byteAt 1) ≤ length ↔
      ¬ (packet = .credssp ∧ Wraps buf)) ∧
    (packet = .credssp ∧ Wraps buf → length ≤ buf.remaining)

variable {buf : Buf64k}

theorem announces_of_le {packet : TpduType} {length : Nat}
    (room : 4 ≤ buf.remaining)
    (enough : packet.headerLength (buf.byteAt 0) (buf.byteAt 1) ≤ length)
    (whole : ¬ (packet = .credssp ∧ Wraps buf)) : Announces packet buf length :=
  ⟨room, iff_of_true enough whole, fun wraps => (whole wraps).elim⟩

private theorem fastPathLength_snd (second third : Byte) :
    (X224Extractor.fastPathLength second third).2 = (X224Extractor.fastPathLength second 0).2 := by
  unfold X224Extractor.fastPathLength
  split <;> rfl

theorem X224Extractor.readHeader_announces {extractor extractor' : X224Extractor}
    {length : Nat} (read : extractor.readHeader buf = (.ok (some length), extractor')) :
    Announces .pdu buf length := by
  unfold X224Extractor.readHeader at read
  split at read
  · cases read
  · refine announces_of_le (by omega) ?_ nofun
    unfold TpduType.headerLength
    split at read
    · rename_i fast
      simp only at read
      split at read
      · cases read
      · rename_i enough
        cases read
        rw [fastPathLength_snd] at enough
        simp only [fast, if_true]
        omega
    · rename_i slow
      simp only [slow, if_false]
      split at read
      · split at read
        · cases read
        · simp only at read
          split at read
          · cases read
          · cases read
            omega
      · cases read

theorem CredsspExtractor.readHeader_announces {length : Nat}
    (read : CredsspExtractor.readHeader buf = .ok (some length)) :
    Announces .credssp buf length := by
  unfold CredsspExtractor.readHeader at read
  split at read
  · cases read
  · have room : 4 ≤ buf.remaining := by omega
    split at read
    · rename_i short
      have header : TpduType.credssp.headerLength (buf.byteAt 0) (buf.byteAt 1) = 2 := by
        simp only [TpduType.headerLength, short, if_true]
      cases read
      refine announces_of_le room (by omega) fun wraps => ?_
      rw [wraps.2.2.1] at short
      exact absurd short (by decide)
    · split at read
      · rename_i one
        have header : TpduType.credssp.headerLength (buf.byteAt 0) (buf.byteAt 1) = 3 := by
          simp only [TpduType.headerLength, one]
          rfl
        cases read
        refine announces_of_le room (by omega) fun wraps => ?_
        rw [wraps.2.2.1] at one
        exact absurd one (by decide)
      · split at read
        · rename_i two
          have header : TpduType.credssp.headerLength (buf.byteAt 0) (buf.byteAt 1) = 4 := by
            simp only [TpduType.headerLength, two]
            rfl
          have bound : uint16Be (buf.byteAt 2) (buf.byteAt 3) < 65536 := by
            unfold uint16Be
            omega
          cases read
          unfold Announces Wraps
          rw [header, two]
          simp only [true_and, room]
          omega
        · cases read

theorem TpduType.readHeader_announces {packet : TpduType} {extractor extractor' : X224Extractor}
    {length : Nat}
    (read : packet.extractor.readHeader extractor buf = (.ok (some length), extractor')) :
    Announces packet buf length := by
  cases packet with
  | pdu => exact X224Extractor.readHeader_announces read
  | credssp => exact CredsspExtractor.readHeader_announces (congrArg Prod.fst read)

theorem CredsspExtractor.readHeader_wraps (wraps : Wraps buf) :
    ∃ length, CredsspExtractor.readHeader buf = .ok (some length) := by
  obtain ⟨room, two, _⟩ := wraps
  refine ⟨(uint16Be (buf.byteAt 2) (buf.byteAt 3) + 4) % 2 ^ 16, ?_⟩
  rw [CredsspExtractor.readHeader, if_neg (by omega), two]
  rfl

/-- What `extract` gives where it reads a header. -/
theorem extractHeader_spec {packet : TpduType} {members : X224Extractor}
    {outcome : Except ErrorId Bool} {after : TpduBuffer}
    (run : TpduBuffer.extractHeader packet.extractor members buf = (outcome, after)) :
    after.buf = buf ∧
      (after.state = .data → 4 ≤ buf.remaining ∧
        packet.headerLength (buf.byteAt 0) (buf.byteAt 1) ≤ after.pduLen) ∧
      (outcome = .ok true → after.pduLen ≤ buf.remaining ∧ Announces packet buf after.pduLen) ∧
      (packet = .credssp ∧ Wraps buf → outcome = .ok true) := by
  rcases read : packet.extractor.readHeader members buf with ⟨result, members'⟩
  have found (wraps : packet = .credssp ∧ Wraps buf) : ∃ length, result = .ok (some length) := by
    obtain ⟨rfl, wraps⟩ := wraps
    obtain ⟨length, known⟩ := CredsspExtractor.readHeader_wraps wraps
    exact ⟨length, (congrArg Prod.fst read).symm.trans known⟩
  rw [TpduBuffer.extractHeader, read] at run
  rcases result with error | (_ | length)
  · cases run
    refine ⟨rfl, ?_, ?_, fun wraps => ?_⟩
    · intro data
      cases data
    · intro ok
      cases ok
    · obtain ⟨_, same⟩ := found wraps
      cases same
  · cases run
    refine ⟨rfl, ?_, ?_, fun wraps => ?_⟩
    · intro data
      cases data
    · intro ok
      cases ok
    · obtain ⟨_, same⟩ := found wraps
      cases same
  · have announces := TpduType.readHeader_announces read
    simp only at run
    split at run
    · rename_i whole
      rcases prepared : packet.extractor.prepareData members' buf with ⟨ready, members''⟩
      rw [prepared] at run
      cases ready with
      | error error =>
        cases run
        refine ⟨rfl, ?_, ?_, fun wraps => ?_⟩
        · intro data
          cases data
        · intro ok
          cases ok
        · obtain ⟨rfl, _⟩ := wraps
          cases prepared
      | ok value =>
        cases run
        refine ⟨rfl, ?_, fun _ => ⟨whole, announces⟩, fun _ => rfl⟩
        intro data
        cases data
    · rename_i part
      cases run
      have unwrapped : ¬ (packet = .credssp ∧ Wraps buf) := fun wraps =>
        part (announces.2.2 wraps)
      refine ⟨rfl, fun _ => ⟨announces.1, announces.2.1.mpr unwrapped⟩, ?_,
        fun wraps => (unwrapped wraps).elim⟩
      intro ok
      cases ok

/-- What `extract` gives while a packet is incomplete. -/
theorem extractData_spec {extractor : Extractor} {buffer after : TpduBuffer}
    {outcome : Except ErrorId Bool} (run : buffer.extractData extractor = (outcome, after)) :
    after.buf = buffer.buf ∧ after.pduLen = buffer.pduLen ∧
      (after.state = .data → buffer.state = .data) ∧
      (outcome = .ok true → after.pduLen ≤ buffer.buf.remaining) := by
  unfold TpduBuffer.extractData at run
  split at run
  · rename_i whole
    rcases prepared : extractor.prepareData buffer.extractors buffer.buf with ⟨ready, members⟩
    rw [prepared] at run
    cases ready with
    | error error =>
      cases run
      refine ⟨rfl, rfl, ?_, ?_⟩
      · intro data
        cases data
      · intro ok
        cases ok
    | ok value =>
      cases run
      refine ⟨rfl, rfl, ?_, fun _ => whole⟩
      intro data
      cases data
  · cases run
    refine ⟨rfl, rfl, id, ?_⟩
    intro ok
    cases ok

/-- A buffer with what is known about it: all bytes it was given, and as which type of packet
the header was read last. -/
structure Reader where
  buffer : TpduBuffer
  received : List Byte
  framedAs : TpduType

/-- What is called on a buffer. -/
inductive Call where
  | load (source : PartialRead)
  | next (packet : TpduType)

def Reader.step (reader : Reader) : Call → Reader × Option (Except ErrorId Bool)
  | .load source =>
    ({ reader with
        buffer := reader.buffer.loadData source
        received := reader.received ++ source.read reader.buffer.buf.room }, none)
  | .next packet =>
    ({ reader with
        buffer := (reader.buffer.next packet).2
        framedAs := if reader.buffer.state = .header then packet else reader.framedAs },
      some (reader.buffer.next packet).1)

def reading : Machine Reader Call (Option (Except ErrorId Bool)) := ⟨Reader.step⟩

/-- The current packet is not empty, at least as long as its header, and a piece of the bytes
received. -/
def Reader.Sound (reader : Reader) : Prop :=
  0 < reader.buffer.pduLen ∧
    reader.framedAs.headerLength (reader.buffer.buf.byteAt 0) (reader.buffer.buf.byteAt 1) ≤
      reader.buffer.pduLen ∧
    reader.buffer.currentPduBuffer.length = reader.buffer.pduLen ∧
    reader.buffer.currentPduBuffer <:+: reader.received

/-- Where `next` returns true, there is a sound packet. -/
def Reader.Good (reader : Reader) (call : Call) : Prop :=
  reading.output reader call = some (.ok true) → (reading.next reader call).Sound

/-- The call reads a CredSSP header whose length wraps. -/
def Reader.ReadsWrapped (reader : Reader) (call : Call) : Prop :=
  call = .next .credssp ∧
    ∃ header : reader.buffer.state = .header, Wraps (reader.buffer.consumed header)

/-- What every reader keeps. -/
structure Reader.Kept (reader : Reader) : Prop where
  suffix : reader.buffer.buf.av <:+ reader.received
  announced : reader.buffer.state = .data → 4 ≤ reader.buffer.buf.remaining ∧
    reader.framedAs.headerLength (reader.buffer.buf.byteAt 0) (reader.buffer.buf.byteAt 1) ≤
      reader.buffer.pduLen

private theorem headerLength_pos (packet : TpduType) (first second : Byte) :
    0 < packet.headerLength first second := by
  cases packet with
  | pdu =>
    unfold TpduType.headerLength X224Extractor.fastPathLength
    simp only
    split
    · split <;> exact Nat.succ_pos _
    · exact Nat.succ_pos _
  | credssp =>
    unfold TpduType.headerLength
    simp only
    split
    · exact Nat.succ_pos _
    · split <;> exact Nat.succ_pos _

/-- A packet that lies in the buffer is sound when it is as long as its header. -/
theorem Reader.sound_iff {reader : Reader} (suffix : reader.buffer.buf.av <:+ reader.received)
    (whole : reader.buffer.pduLen ≤ reader.buffer.buf.remaining) :
    reader.Sound ↔
      reader.framedAs.headerLength (reader.buffer.buf.byteAt 0) (reader.buffer.buf.byteAt 1) ≤
        reader.buffer.pduLen := by
  have positive := headerLength_pos reader.framedAs (reader.buffer.buf.byteAt 0)
    (reader.buffer.buf.byteAt 1)
  constructor
  · exact fun sound => sound.2.1
  · intro least
    refine ⟨by omega, least, ?_, ?_⟩
    · rw [TpduBuffer.currentPduBuffer, List.length_take, Buf64k.length_av]
      omega
    · exact (List.take_prefix _ _).isInfix.trans suffix.isInfix

private theorem Reader.Kept.load {reader : Reader} (kept : reader.Kept) (source : PartialRead) :
    (reading.next reader (.load source)).Kept := by
  have loaded : (reader.buffer.buf.readWith source).av =
      reader.buffer.buf.av ++ source.read reader.buffer.buf.room := Buf64k.av_readWith _ _
  have same {offset : Nat} (inside : offset < reader.buffer.buf.remaining) :
      (reader.buffer.buf.readWith source).byteAt offset = reader.buffer.buf.byteAt offset := by
    have inside' : offset < reader.buffer.buf.av.length := by rwa [Buf64k.length_av]
    rw [Buf64k.byteAt_of_av loaded inside', Buf64k.getElem_av]
  have length := congrArg List.length loaded
  rw [List.length_append, Buf64k.length_av, Buf64k.length_av] at length
  constructor
  · obtain ⟨before, spelled⟩ := kept.suffix
    refine ⟨before, ?_⟩
    change before ++ (reader.buffer.buf.readWith source).av = _
    rw [loaded, ← List.append_assoc, spelled]
    rfl
  · intro data
    obtain ⟨four, least⟩ := kept.announced data
    refine ⟨?_, ?_⟩
    · change 4 ≤ (reader.buffer.buf.readWith source).remaining
      omega
    · change reader.framedAs.headerLength ((reader.buffer.buf.readWith source).byteAt 0)
        ((reader.buffer.buf.readWith source).byteAt 1) ≤ reader.buffer.pduLen
      rw [same (by omega), same (by omega)]
      exact least

private theorem Reader.Kept.next {reader : Reader} (kept : reader.Kept) (packet : TpduType) :
    (reading.next reader (.next packet)).Kept ∧
      (reader.Good (.next packet) ↔ ¬ reader.ReadsWrapped (.next packet)) := by
  cases state : reader.buffer.state with
  | header =>
    have run := TpduBuffer.next_header state packet
    rcases result : TpduBuffer.extractHeader packet.extractor reader.buffer.extractors
      (reader.buffer.consumed state) with ⟨outcome, after⟩
    rw [result] at run
    obtain ⟨buf, announced, sound, wrapped⟩ := extractHeader_spec result
    have stepped : reading.step reader (.next packet) =
        ({ reader with buffer := after, framedAs := packet }, some outcome) := by
      simp only [reading, Reader.step, run, state, if_true]
    have suffix : after.buf.av <:+ reader.received := by
      rw [buf, TpduBuffer.av_consumed, TpduBuffer.pending, state]
      exact (List.drop_suffix _ _).trans kept.suffix
    have now : reading.next reader (.next packet) =
        { reader with buffer := after, framedAs := packet } := congrArg Prod.fst stepped
    refine ⟨?_, ?_⟩
    · rw [now]
      exact ⟨suffix, by simpa only [buf] using announced⟩
    · have reads : reader.ReadsWrapped (.next packet) ↔
          packet = .credssp ∧ Wraps (reader.buffer.consumed state) := by
        constructor
        · rintro ⟨call, header, wraps⟩
          cases call
          exact ⟨rfl, wraps⟩
        · rintro ⟨rfl, wraps⟩
          exact ⟨rfl, state, wraps⟩
      have given : reading.output reader (.next packet) = some outcome :=
        congrArg Prod.snd stepped
      rw [reads, Reader.Good, now, given]
      constructor
      · intro good wraps
        have yes := wrapped wraps
        obtain ⟨whole, announces⟩ := sound yes
        have least := (good (by rw [yes])).2.1
        simp only [buf] at least
        exact announces.2.1.mp least wraps
      · intro unwrapped yes
        obtain ⟨whole, announces⟩ := sound (Option.some.inj yes)
        refine (Reader.sound_iff suffix (by rwa [buf])).mpr ?_
        simp only [buf]
        exact announces.2.1.mpr unwrapped
  | data =>
    have run := TpduBuffer.next_data state packet
    rcases result : reader.buffer.extractData packet.extractor with ⟨outcome, after⟩
    rw [result] at run
    obtain ⟨buf, length, still, sound⟩ := extractData_spec result
    obtain ⟨four, least⟩ := kept.announced state
    have stepped : reading.step reader (.next packet) =
        ({ reader with buffer := after }, some outcome) := by
      simp [reading, Reader.step, run, state]
    have suffix : after.buf.av <:+ reader.received := by
      rw [buf]
      exact kept.suffix
    have now : reading.next reader (.next packet) = { reader with buffer := after } :=
      congrArg Prod.fst stepped
    refine ⟨?_, ?_⟩
    · rw [now]
      refine ⟨suffix, fun _ => ?_⟩
      simp only [buf, length]
      exact ⟨four, least⟩
    · have given : reading.output reader (.next packet) = some outcome :=
        congrArg Prod.snd stepped
      refine iff_of_true ?_ ?_
      · rw [Reader.Good, now, given]
        intro yes
        refine (Reader.sound_iff suffix ?_).mpr ?_
        · simpa only [buf] using sound (Option.some.inj yes)
        · simpa only [buf, length] using least
      · rintro ⟨_, header, _⟩
        rw [state] at header
        cases header

/-- A buffer that nothing has been loaded into. -/
def Reader.fresh (memory : Nat → Byte) (extractors : X224Extractor) (framedAs : TpduType) :
    Reader :=
  ⟨.fresh memory extractors, [], framedAs⟩

/-- Whatever is loaded and asked for, `next` is sound exactly as long as no CredSSP length
wraps. -/
theorem reading_good_iff (memory : Nat → Byte) (extractors : X224Extractor) (framedAs : TpduType)
    (calls : List Call) :
    reading.EveryStep Reader.Good (.fresh memory extractors framedAs) calls ↔
      reading.EveryStep (fun reader call => ¬ reader.ReadsWrapped call)
        (.fresh memory extractors framedAs) calls := by
  apply @Machine.everyStep_iff _ _ _ _ Reader.Kept
  · intro reader call kept _
    cases call with
    | load source => exact kept.load source
    | next packet => exact (kept.next packet).1
  · intro reader call kept
    cases call with
    | load source => exact iff_of_true nofun nofun
    | next packet => exact (kept.next packet).2
  · exact ⟨List.suffix_refl [], nofun⟩

/-- Packets come out as they went in however they arrive, and what comes out of other bytes is
sound unless a CredSSP length wraps. -/
theorem tpduBuffer_run (memory : Nat → Byte) (extractors : X224Extractor) :
    (∀ (pdus : List Pdu) (sizes : List Nat), ∃ whole rest last left,
      pdus = whole ++ rest ∧
      TpduBuffer.Receives (.fresh memory extractors) (stream pdus) sizes (whole.map Pdu.seen)
        last left ∧
      stream pdus = stream whole ++ last.buf.av ++ left ∧
      (∀ pdu ∈ rest.head?, last.buf.av.length < pdu.bytes.length) ∧
      (left = [] → rest = []) ∧ 0 < last.buf.room) ∧
    ∀ (framedAs : TpduType) (calls : List Call),
      reading.EveryStep Reader.Good (.fresh memory extractors framedAs) calls ↔
        reading.EveryStep (fun reader call => ¬ reader.ReadsWrapped call)
          (.fresh memory extractors framedAs) calls := by
  refine ⟨fun pdus sizes => ?_, reading_good_iff memory extractors⟩
  obtain ⟨whole, rest, last, left, parts, receives, settled, more, missing⟩ :=
    @TpduBuffer.receives_run pdus (stream pdus) (.fresh memory extractors) sizes (TpduBuffer.expects_of_header rfl pdus) rfl rfl (fun pdu _ => Nat.lt_of_lt_of_le (Nat.succ_pos 3) pdu.wellFormed.four_le)
  refine ⟨whole, rest, last, left, parts, receives, ?_, settled ▸ missing, ?_, ?_⟩
  · rw [settled, parts, stream, List.flatMap_append, List.append_assoc, more]
    rfl
  · rintro rfl
    cases rest with
    | nil => rfl
    | cons pdu rest =>
      have short := missing pdu rfl
      rw [List.append_nil] at more
      rw [more, stream, List.flatMap_cons, List.length_append] at short
      omega
  · cases rest with
    | nil =>
      have none : last.buf.av = [] := settled.trans (List.append_eq_nil_iff.mp more).1
      have empty := congrArg List.length none
      rw [Buf64k.length_av, List.length_nil] at empty
      rw [Buf64k.room, empty]
      decide
    | cons pdu rest =>
      have short := missing pdu rfl
      have most := pdu.wellFormed.length_le
      rw [← settled, Buf64k.length_av] at short
      unfold Buf64k.room
      omega

/-- Four bytes announce a CredSSP packet of 65536 bytes, and `next` gives out an empty one. -/
theorem tpduBuffer_wrapped : ¬ ∀ (memory : Nat → Byte) (extractors : X224Extractor)
    (framedAs : TpduType) (calls : List Call),
    reading.EveryStep Reader.Good (.fresh memory extractors framedAs) calls := by
  intro all
  have every := (reading_good_iff _ _ _ _).mp (all (fun _ => 0) ⟨false, 0⟩ .credssp
    [.load (.ofSize 4 [0x30, 0x82, 0xFF, 0xFC]), .next .credssp])
  refine every.2.1 ⟨rfl, rfl, ?_⟩
  unfold Wraps
  decide

end Redemption.Tpdu
