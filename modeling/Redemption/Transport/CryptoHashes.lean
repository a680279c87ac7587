import Redemption.Transport.Ocrypto

/-! The checksums of recordings: those of the writer, and those of the stored file. -/
namespace Redemption.Transport.Crypto

open Redemption.Foundation

variable {δ : Type} {hmac : StreamHash (List Byte) Byte δ}

/-- How a call of `read` goes: it is interrupted, or gives at most so many bytes and one. -/
inductive ReadCall where
  | interrupted
  | atMost (more : Nat)

/-- A call of `read` on the rest of a file; once the calls are used up, it gives all it can. -/
def readSome (calls : List ReadCall) (rest : List Byte) (requested : Nat) :
    Option (List Byte) × List ReadCall × List Byte :=
  match calls with
  | [] => (some (rest.take requested), [], rest.drop requested)
  | .interrupted :: calls => (none, calls, rest)
  | .atMost more :: calls =>
    (some (rest.take (min (more + 1) requested)), calls, rest.drop (min (more + 1) requested))

theorem readSome_shorter (calls : List ReadCall) (rest : List Byte) (requested : Nat)
    (some : (readSome calls rest requested).1 ≠ some []) :
    (readSome calls rest requested).2.1.length + (readSome calls rest requested).2.2.length <
      calls.length + rest.length := by
  cases calls with
  | nil =>
    have nonempty : rest.take requested ≠ [] := fun empty => some (congrArg _ empty)
    have positive := List.length_pos_of_ne_nil nonempty
    rw [List.length_take] at positive
    simp only [readSome, List.length_nil, List.length_drop]
    omega
  | cons call calls =>
    cases call with
    | interrupted =>
      simp only [readSome, List.length_cons]
      omega
    | atMost more =>
      simp only [readSome, List.length_cons, List.length_drop]
      omega

/-- The loop of `read_qhash`, which fills a buffer of 4096 bytes. -/
def fillBuffer (calls : List ReadCall) (rest buffer : List Byte) : List Byte :=
  match _read : (readSome calls rest (4096 - buffer.length)).1 with
  | none =>
    fillBuffer (readSome calls rest (4096 - buffer.length)).2.1
      (readSome calls rest (4096 - buffer.length)).2.2 buffer
  | some bytes =>
    if bytes = [] then buffer
    else if (buffer ++ bytes).length = 4096 then buffer ++ bytes
    else
      fillBuffer (readSome calls rest (4096 - buffer.length)).2.1
        (readSome calls rest (4096 - buffer.length)).2.2 (buffer ++ bytes)
termination_by calls.length + rest.length
decreasing_by
  · exact readSome_shorter calls rest _ (by rw [_read]; nofun)
  · rename_i nonempty _
    exact readSome_shorter calls rest _ (by rw [_read]; simpa using nonempty)

/-- `InCryptoTransport::read_qhash` of a file, if there is one. -/
def readQhash (hmac : StreamHash (List Byte) Byte δ) (hmacKey : List Byte) (calls : List ReadCall)
    (file : Option (List Byte)) : Option δ :=
  file.map fun bytes =>
    hmac.final (hmac.update (hmac.init hmacKey) (fillBuffer calls bytes []))

/-- The loop of `read_fhash`. -/
def hashRest (calls : List ReadCall) (rest : List Byte) (hm4k : hmac.State) : hmac.State :=
  match _read : (readSome calls rest (128 * 1024)).1 with
  | none =>
    hashRest (readSome calls rest (128 * 1024)).2.1 (readSome calls rest (128 * 1024)).2.2 hm4k
  | some bytes =>
    if bytes = [] then hm4k
    else
      hashRest (readSome calls rest (128 * 1024)).2.1 (readSome calls rest (128 * 1024)).2.2
        (hmac.update hm4k bytes)
termination_by calls.length + rest.length
decreasing_by
  · exact readSome_shorter calls rest _ (by rw [_read]; nofun)
  · rename_i nonempty
    exact readSome_shorter calls rest _ (by rw [_read]; simpa using nonempty)

/-- `InCryptoTransport::read_fhash` of a file, if there is one. -/
def readFhash (hmac : StreamHash (List Byte) Byte δ) (hmacKey : List Byte) (calls : List ReadCall)
    (file : Option (List Byte)) : Option δ :=
  file.map fun bytes => hmac.final (hashRest calls bytes (hmac.init hmacKey))

section Reads

variable {calls : List ReadCall} {rest buffer : List Byte} {requested : Nat}

/-- What is read comes off the front of the file, and nothing is read only at its end. -/
theorem readSome_eq {bytes : List Byte} (positive : 0 < requested)
    (read : (readSome calls rest requested).1 = some bytes) :
    bytes ++ (readSome calls rest requested).2.2 = rest ∧ bytes.length ≤ requested ∧
      (bytes = [] → rest = []) := by
  have front (count : Nat) (some : 0 < count) (le : count ≤ requested)
      (same : rest.take count = bytes) :
      bytes ++ rest.drop count = rest ∧ bytes.length ≤ requested ∧ (bytes = [] → rest = []) := by
    rw [← same]
    refine ⟨List.take_append_drop _ _, ?_, fun empty => ?_⟩
    · rw [List.length_take]
      omega
    · rcases List.take_eq_nil_iff.mp empty with zero | none
      · omega
      · exact none
  cases calls with
  | nil => exact front requested positive (Nat.le_refl _) (Option.some.inj read)
  | cons call calls =>
    cases call with
    | interrupted => cases read
    | atMost more => exact front _ (by omega) (Nat.min_le_right _ _) (Option.some.inj read)

theorem readSome_interrupted (read : (readSome calls rest requested).1 = none) :
    (readSome calls rest requested).2.2 = rest := by
  cases calls with
  | nil => cases read
  | cons call calls =>
    cases call with
    | interrupted => rfl
    | atMost more => cases read

theorem fillBuffer_eq (room : buffer.length < 4096) :
    fillBuffer calls rest buffer = (buffer ++ rest).take 4096 := by
  induction calls, rest, buffer using fillBuffer.induct with
  | case1 calls rest buffer read ih =>
    rw [fillBuffer]
    split
    · rw [ih room, readSome_interrupted read]
    · rename_i bytes found
      rw [read] at found
      cases found
  | case2 calls rest buffer read =>
    obtain ⟨_, _, ended⟩ := readSome_eq (by omega) read
    rw [fillBuffer]
    split
    · rename_i other
      rw [read] at other
      cases other
    · rename_i other found
      rw [read] at found
      cases found
      rw [if_pos rfl, ended rfl, List.append_nil, List.take_of_length_le (by omega)]
  | case3 calls rest buffer bytes read nonempty full =>
    obtain ⟨parts, _, _⟩ := readSome_eq (by omega) read
    rw [fillBuffer]
    split
    · rename_i other
      rw [read] at other
      cases other
    · rename_i other found
      rw [read] at found
      cases found
      rw [if_neg nonempty, if_pos full]
      conv_rhs => rw [← parts, ← List.append_assoc, List.take_left' full]
  | case4 calls rest buffer bytes read nonempty more ih =>
    obtain ⟨parts, fits, _⟩ := readSome_eq (by omega) read
    rw [fillBuffer]
    split
    · rename_i other
      rw [read] at other
      cases other
    · rename_i other found
      rw [read] at found
      cases found
      have less : (buffer ++ bytes).length < 4096 := by
        rw [List.length_append] at more ⊢
        omega
      rw [if_neg nonempty, if_neg more, ih less, List.append_assoc, parts]

theorem hashRest_absorbed {key stream : List Byte} {state : hmac.State}
    (absorbed : hmac.Absorbed key state stream) :
    hmac.Absorbed key (hashRest calls rest state) (stream ++ rest) := by
  induction calls, rest, state using hashRest.induct generalizing stream with
  | case1 calls rest state read ih =>
    rw [hashRest]
    split
    · have more := ih absorbed
      rwa [readSome_interrupted read] at more ⊢
    · rename_i bytes found
      rw [read] at found
      cases found
  | case2 calls rest state read =>
    obtain ⟨_, _, ended⟩ := readSome_eq (by decide) read
    rw [hashRest]
    split
    · rename_i other
      rw [read] at other
      cases other
    · rename_i other found
      rw [read] at found
      cases found
      rw [if_pos rfl, ended rfl, List.append_nil]
      exact absorbed
  | case3 calls rest state bytes read nonempty ih =>
    obtain ⟨parts, _, _⟩ := readSome_eq (by decide) read
    rw [hashRest]
    split
    · rename_i other
      rw [read] at other
      cases other
    · rename_i other found
      rw [read] at found
      cases found
      rw [if_neg nonempty]
      have more := ih (absorbed.update bytes)
      rwa [List.append_assoc, parts] at more

/-- However the file is read, the quick hash is that of its first 4096 bytes. -/
theorem readQhash_eq (hmacKey : List Byte) (calls : List ReadCall) (file : List Byte) :
    readQhash hmac hmacKey calls (some file) = some (hmac.hash hmacKey (file.take 4096)) := by
  have absorbed := (@StreamHash.absorbed_init _ _ _ hmac hmacKey).update (file.take 4096)
  rw [readQhash, Option.map_some, fillBuffer_eq (by decide), List.nil_append, absorbed.final,
    List.nil_append]

/-- However the file is read, the full hash is that of all its bytes. -/
theorem readFhash_eq (hmacKey : List Byte) (calls : List ReadCall) (file : List Byte) :
    readFhash hmac hmacKey calls (some file) = some (hmac.hash hmacKey file) := by
  have absorbed := @hashRest_absorbed _ _ calls file _ _ _ (@StreamHash.absorbed_init _ _ _ hmac hmacKey)
  rw [readFhash, Option.map_some, absorbed.final, List.nil_append]

end Reads

end Redemption.Transport.Crypto
