import Redemption.Foundation.Buffer
import Redemption.Foundation.Chunks

/-! Readers of a stream that are called again when more of it has come: how the stream is cut makes
no difference to them. -/
namespace Redemption.Foundation

universe u

/-- What a call says: a unit has been read, more data is needed, or there is no more to be read. -/
inductive CallStatus where
  | completed
  | waits
  | stops
  deriving DecidableEq, Repr

/-- What a call of a reader gives: its events, its state after it, and what it leaves unread. -/
structure Call (σ β ε : Type u) where
  status : CallStatus
  events : List ε
  state : σ
  rest : List β
  deriving DecidableEq, Repr

namespace Call

variable {σ β ε τ : Type u}

/-- Events in front of those of a call. -/
def after (events : List ε) (call : Call σ β ε) : Call σ β ε :=
  { call with events := events ++ call.events }

/-- The state of a call is put into another one. -/
def wrap (wrapper : CallStatus → σ → τ) (call : Call σ β ε) : Call τ β ε :=
  ⟨call.status, call.events, wrapper call.status call.state, call.rest⟩

end Call

/-- A reader, called with what has been received and not been read. The weight of a state is the
number of units that it may end without reading anything. -/
structure Resumable (σ β ε φ : Type u) where
  call : σ → List β → Except φ (Call σ β ε)
  weight : σ → Nat

/-- What a reader has done of what it has been given. -/
structure Delivery (σ β ε : Type u) where
  events : List ε
  state : σ
  rest : List β
  stopped : Bool
  deriving DecidableEq, Repr

namespace Resumable

variable {σ β ε φ : Type u} (reader : Resumable σ β ε φ)

/-- The reader is called until it needs more, or stops. -/
def drain : Nat → σ → List β → Except φ (Delivery σ β ε)
  | 0, state, buffer => .ok ⟨[], state, buffer, false⟩
  | fuel + 1, state, buffer => do
    let call ← reader.call state buffer
    match call.status with
    | .completed => do
      let later ← drain fuel call.state call.rest
      return { later with events := call.events ++ later.events }
    | .waits => return ⟨call.events, call.state, call.rest, false⟩
    | .stops => return ⟨call.events, call.state, call.rest, true⟩

/-- The most that a reader can read. -/
def size (state : σ) (buffer : List β) : Nat := reader.weight state + buffer.length

/-- There are no more calls than the reader can read units. -/
def receive (state : σ) (buffer : List β) : Except φ (Delivery σ β ε) :=
  reader.drain (reader.size state buffer + 1) state buffer

/-- A stream comes in chunks, until the reader stops. -/
def deliver : σ → List β → List (List β) → Except φ (Delivery σ β ε)
  | state, buffer, [] => .ok ⟨[], state, buffer, false⟩
  | state, buffer, chunk :: chunks => do
    let first ← reader.receive state (buffer ++ chunk)
    if first.stopped then return first
    else do
      let later ← deliver first.state first.rest chunks
      return { later with events := first.events ++ later.events }

/-- A call that can be resumed. Data that comes behind what it reads changes nothing of it, and one
that waits has done a part of what it does with more. -/
structure Lawful (resume : σ → List β → Except φ (Call σ β ε)) (fragments : Fragments ε)
    (read : List β → Except φ (Call σ β ε)) : Prop where
  total : ∀ buffer, ∃ call, read buffer = .ok call ∧ call.rest.length ≤ buffer.length
  completed : ∀ {buffer call}, read buffer = .ok call → call.status = .completed →
    ∀ more, read (buffer ++ more) = .ok { call with rest := call.rest ++ more }
  stops : ∀ {buffer call}, read buffer = .ok call → call.status = .stops →
    ∀ more, ∃ whole, read (buffer ++ more) = .ok whole ∧ whole.status = .stops ∧
      fragments.coalesce whole.events = fragments.coalesce call.events
  waits : ∀ {buffer call}, read buffer = .ok call → call.status = .waits →
    ∀ more, ∃ whole later, read (buffer ++ more) = .ok whole ∧
      resume call.state (call.rest ++ more) = .ok later ∧ whole.status = later.status ∧
      fragments.coalesce whole.events = fragments.coalesce (call.events ++ later.events) ∧
      (whole.status ≠ .stops → whole.state = later.state ∧ whole.rest = later.rest)

/-- A reader whose calls can be resumed, and that comes to an end. -/
structure Resumes (fragments : Fragments ε) : Prop where
  lawful : ∀ state, Lawful reader.call fragments (reader.call state)
  advances : ∀ {state buffer call}, reader.call state buffer = .ok call →
    call.status = .completed → reader.size call.state call.rest < reader.size state buffer
  lightens : ∀ {state buffer call}, reader.call state buffer = .ok call → call.status = .waits →
    reader.size call.state call.rest ≤ reader.size state buffer

/-- Two deliveries are the same: the same events but for fragments, and then the same state, where the
reader has not stopped. -/
structure Alike (fragments : Fragments ε) (first second : Delivery σ β ε) : Prop where
  events : fragments.coalesce first.events = fragments.coalesce second.events
  stopped : first.stopped = second.stopped
  state : first.stopped = false → first.state = second.state
  rest : first.stopped = false → first.rest = second.rest

variable {fragments : Fragments ε} {first second third : Delivery σ β ε}

theorem Alike.refl (delivery : Delivery σ β ε) : Alike fragments delivery delivery :=
  ⟨rfl, rfl, fun _ => rfl, fun _ => rfl⟩

theorem Alike.symm (alike : Alike fragments first second) : Alike fragments second first :=
  ⟨alike.events.symm, alike.stopped.symm,
    fun goes => (alike.state (alike.stopped.trans goes)).symm,
    fun goes => (alike.rest (alike.stopped.trans goes)).symm⟩

theorem Alike.trans (front : Alike fragments first second) (back : Alike fragments second third) :
    Alike fragments first third :=
  ⟨front.events.trans back.events, front.stopped.trans back.stopped,
    fun goes => (front.state goes).trans (back.state (front.stopped.symm.trans goes)),
    fun goes => (front.rest goes).trans (back.rest (front.stopped.symm.trans goes))⟩

/-- The same events in front of deliveries that are the same. -/
theorem Alike.prepend (alike : Alike fragments first second) {events events' : List ε}
    (same : fragments.coalesce events = fragments.coalesce events') :
    Alike fragments { first with events := events ++ first.events }
      { second with events := events' ++ second.events } :=
  ⟨Fragments.coalesce_append same alike.events, alike.stopped, alike.state, alike.rest⟩

section Drain

variable {reader} {state : σ} {buffer : List β} {call : Call σ β ε} {fuel : Nat}

theorem drain_completed (called : reader.call state buffer = .ok call)
    (completed : call.status = .completed) (fuel : Nat) :
    reader.drain (fuel + 1) state buffer = do
      let later ← reader.drain fuel call.state call.rest
      return { later with events := call.events ++ later.events } := by
  rw [drain, called]
  simp only [ok_bind, completed]

theorem drain_waits (called : reader.call state buffer = .ok call) (waits : call.status = .waits)
    (fuel : Nat) :
    reader.drain (fuel + 1) state buffer = .ok ⟨call.events, call.state, call.rest, false⟩ := by
  rw [drain, called]
  simp only [ok_bind, waits]
  rfl

theorem drain_stops (called : reader.call state buffer = .ok call) (stops : call.status = .stops)
    (fuel : Nat) :
    reader.drain (fuel + 1) state buffer = .ok ⟨call.events, call.state, call.rest, true⟩ := by
  rw [drain, called]
  simp only [ok_bind, stops]
  rfl

end Drain

section Runs

variable {reader}

theorem size_append (state : σ) (buffer more : List β) :
    reader.size state (buffer ++ more) = reader.size state buffer + more.length := by
  rw [size, size, List.length_append, Nat.add_assoc]

/-- A reader that can be called again comes to an end. -/
theorem Resumes.drain_total (resumes : reader.Resumes fragments) (fuel : Nat) (state : σ)
    (buffer : List β) : ∃ delivery, reader.drain fuel state buffer = .ok delivery := by
  induction fuel generalizing state buffer with
  | zero => exact ⟨_, rfl⟩
  | succ fuel ih =>
    obtain ⟨call, called, _⟩ := (resumes.lawful state).total buffer
    cases status : call.status with
    | completed =>
      obtain ⟨later, ran⟩ := ih call.state call.rest
      rw [drain_completed called status, ran]
      exact ⟨_, rfl⟩
    | waits => exact ⟨_, drain_waits called status fuel⟩
    | stops => exact ⟨_, drain_stops called status fuel⟩

/-- More calls than data make no difference. -/
theorem Resumes.drain_enough (resumes : reader.Resumes fragments) {fuel fuel' : Nat} {state : σ}
    {buffer : List β} (enough : reader.size state buffer < fuel)
    (enough' : reader.size state buffer < fuel') :
    reader.drain fuel state buffer = reader.drain fuel' state buffer := by
  induction fuel generalizing fuel' state buffer with
  | zero => exact absurd enough (Nat.not_lt_zero _)
  | succ fuel ih =>
    obtain ⟨more, rfl⟩ := Nat.exists_eq_succ_of_ne_zero (Nat.ne_of_gt (Nat.zero_lt_of_lt enough'))
    obtain ⟨call, called, _⟩ := (resumes.lawful state).total buffer
    cases status : call.status with
    | completed =>
      have less := resumes.advances called status
      rw [drain_completed called status, drain_completed called status,
        ih (Nat.lt_of_lt_of_le less (Nat.le_of_lt_succ enough))
          (Nat.lt_of_lt_of_le less (Nat.le_of_lt_succ enough'))]
    | waits => rw [drain_waits called status, drain_waits called status]
    | stops => rw [drain_stops called status, drain_stops called status]

/-- What is behind a unit is read as if it were alone. -/
theorem Resumes.receive_completed (resumes : reader.Resumes fragments) {state : σ} {buffer : List β}
    {call : Call σ β ε} (called : reader.call state buffer = .ok call)
    (completed : call.status = .completed) :
    reader.receive state buffer = do
      let later ← reader.receive call.state call.rest
      return { later with events := call.events ++ later.events } := by
  rw [receive, drain_completed called completed, receive,
    resumes.drain_enough (resumes.advances called completed) (Nat.lt_succ_self _)]

/-- Where the reader has not stopped, it can read no more than before. -/
theorem Resumes.drain_size (resumes : reader.Resumes fragments) {fuel : Nat} {state : σ}
    {buffer : List β} {delivery : Delivery σ β ε}
    (ran : reader.drain fuel state buffer = .ok delivery) (goes : delivery.stopped = false) :
    reader.size delivery.state delivery.rest ≤ reader.size state buffer := by
  induction fuel generalizing state buffer delivery with
  | zero =>
    cases ran
    exact Nat.le_refl _
  | succ fuel ih =>
    obtain ⟨call, called, _⟩ := (resumes.lawful state).total buffer
    cases status : call.status with
    | completed =>
      obtain ⟨later, went⟩ := resumes.drain_total fuel call.state call.rest
      rw [drain_completed called status, went] at ran
      cases ran
      have less := ih went goes
      exact Nat.le_trans less (Nat.le_of_lt (resumes.advances called status))
    | waits =>
      rw [drain_waits called status] at ran
      cases ran
      exact resumes.lightens called status
    | stops =>
      rw [drain_stops called status] at ran
      cases ran
      cases goes

/-- Calls that are alike go on alike. -/
theorem Resumes.drain_alike (resumes : reader.Resumes fragments) {state state' : σ}
    {buffer buffer' : List β} {whole later : Call σ β ε} {events : List ε}
    (called : reader.call state buffer = .ok whole) (called' : reader.call state' buffer' = .ok later)
    (status : whole.status = later.status)
    (same : fragments.coalesce whole.events = fragments.coalesce (events ++ later.events))
    (goes : whole.status ≠ .stops → whole.state = later.state ∧ whole.rest = later.rest)
    {fuel fuel' : Nat} (enough : reader.size state buffer < fuel)
    (enough' : reader.size state' buffer' < fuel')
    {first second : Delivery σ β ε} (ran : reader.drain fuel state buffer = .ok first)
    (ran' : reader.drain fuel' state' buffer' = .ok second) :
    Alike fragments first { second with events := events ++ second.events } := by
  obtain ⟨fuel, rfl⟩ := Nat.exists_eq_succ_of_ne_zero (Nat.ne_of_gt (Nat.zero_lt_of_lt enough))
  obtain ⟨fuel', rfl⟩ := Nat.exists_eq_succ_of_ne_zero (Nat.ne_of_gt (Nat.zero_lt_of_lt enough'))
  cases is : whole.status with
  | completed =>
    have is' := status.symm.trans is
    have less := resumes.advances called is
    have less' := resumes.advances called' is'
    obtain ⟨states, rests⟩ := goes (by rw [is]; exact CallStatus.noConfusion)
    rw [drain_completed called is] at ran
    rw [drain_completed called' is', ← states, ← rests] at ran'
    obtain ⟨rest, ended⟩ := resumes.drain_total fuel whole.state whole.rest
    rw [← states, ← rests] at less'
    rw [ended, ok_bind] at ran
    rw [resumes.drain_enough (Nat.lt_of_lt_of_le less' (Nat.le_of_lt_succ enough'))
      (Nat.lt_of_lt_of_le less (Nat.le_of_lt_succ enough)), ended, ok_bind] at ran'
    cases ran
    cases ran'
    have joined := (@Alike.refl _ _ _ fragments rest).prepend same
    rw [List.append_assoc] at joined
    exact joined
  | waits =>
    have is' := status.symm.trans is
    obtain ⟨states, rests⟩ := goes (by rw [is]; exact CallStatus.noConfusion)
    rw [drain_waits called is] at ran
    rw [drain_waits called' is'] at ran'
    cases ran
    cases ran'
    exact ⟨same, rfl, fun _ => states, fun _ => rests⟩
  | stops =>
    rw [drain_stops called is] at ran
    rw [drain_stops called' (status.symm.trans is)] at ran'
    cases ran
    cases ran'
    exact ⟨same, rfl, nofun, nofun⟩

/-- The calls with more data do what the calls without it have done, and what the next calls do. -/
theorem Resumes.drain_append (resumes : reader.Resumes fragments) {fuel fuel' fuel'' : Nat}
    {state : σ} {buffer more : List β} (enough : reader.size state buffer < fuel)
    (enough' : reader.size state (buffer ++ more) < fuel')
    (enough'' : reader.size state (buffer ++ more) < fuel'')
    {first whole : Delivery σ β ε} (ran : reader.drain fuel state buffer = .ok first)
    (ran' : reader.drain fuel' state (buffer ++ more) = .ok whole) :
    if first.stopped then Alike fragments whole first
    else ∀ later, reader.drain fuel'' first.state (first.rest ++ more) = .ok later →
      Alike fragments whole { later with events := first.events ++ later.events } := by
  induction fuel generalizing fuel' state buffer first whole with
  | zero => exact absurd enough (Nat.not_lt_zero _)
  | succ fuel ih =>
    obtain ⟨fuel', rfl⟩ := Nat.exists_eq_succ_of_ne_zero (Nat.ne_of_gt (Nat.zero_lt_of_lt enough'))
    obtain ⟨call, called, _⟩ := (resumes.lawful state).total buffer
    cases status : call.status with
    | completed =>
      have less := resumes.advances called status
      have less' : reader.size call.state (call.rest ++ more) <
          reader.size state (buffer ++ more) := by
        rw [size_append, size_append]
        exact Nat.add_lt_add_right less _
      rw [drain_completed called status] at ran
      rw [drain_completed ((resumes.lawful state).completed called status more) status] at ran'
      obtain ⟨front, went⟩ := resumes.drain_total fuel call.state call.rest
      obtain ⟨back, ended⟩ := resumes.drain_total fuel' call.state (call.rest ++ more)
      rw [went, ok_bind] at ran
      rw [ended, ok_bind] at ran'
      cases ran
      cases ran'
      have alike := ih (Nat.lt_of_lt_of_le less (Nat.le_of_lt_succ enough))
        (Nat.lt_of_lt_of_le less' (Nat.le_of_lt_succ enough')) (Nat.lt_trans less' enough'')
        went ended
      by_cases stopped : front.stopped = true
      · rw [if_pos stopped] at alike ⊢
        exact alike.prepend rfl
      · rw [if_neg stopped] at alike ⊢
        intro later run
        rw [List.append_assoc]
        exact (alike later run).prepend rfl
    | waits =>
      rw [drain_waits called status] at ran
      cases ran
      intro later run
      obtain ⟨all, next, calledAll, calledNext, statuses, same, goes⟩ :=
        (resumes.lawful state).waits called status more
      have lighter : reader.size call.state (call.rest ++ more) ≤
          reader.size state (buffer ++ more) := by
        rw [size_append, size_append]
        exact Nat.add_le_add_right (resumes.lightens called status) _
      exact resumes.drain_alike calledAll calledNext statuses same goes enough'
        (Nat.lt_of_le_of_lt lighter enough'') ran' run
    | stops =>
      rw [drain_stops called status] at ran
      obtain ⟨all, calledAll, stops, same⟩ := (resumes.lawful state).stops called status more
      rw [drain_stops calledAll stops] at ran'
      cases ran
      cases ran'
      exact ⟨same, rfl, nofun, nofun⟩

/-- However a stream is cut, a reader does the same with it. -/
theorem Resumes.deliver_alike (resumes : reader.Resumes fragments) (chunks : List (List β))
    (state : σ) (buffer chunk : List β) :
    ∃ first whole, reader.deliver state buffer (chunk :: chunks) = .ok first ∧
      reader.receive state (buffer ++ chunk ++ chunks.flatten) = .ok whole ∧
        Alike fragments first whole := by
  induction chunks generalizing state buffer chunk with
  | nil =>
    obtain ⟨whole, ran⟩ := resumes.drain_total (reader.size state (buffer ++ chunk) + 1) state
      (buffer ++ chunk)
    refine ⟨whole, whole, ?_, ?_, .refl whole⟩
    · rw [deliver, receive, ran, ok_bind]
      by_cases stopped : whole.stopped = true
      · rw [if_pos stopped]
        rfl
      · rw [if_neg stopped]
        simp only [deliver, ok_bind, List.append_nil]
        rw [Bool.not_eq_true] at stopped
        rw [← stopped]
        rfl
    · rw [List.flatten_nil, List.append_nil]
      exact ran
  | cons next chunks ih =>
    obtain ⟨first, ran⟩ := resumes.drain_total (reader.size state (buffer ++ chunk) + 1) state
      (buffer ++ chunk)
    obtain ⟨whole, ranWhole⟩ := resumes.drain_total
      (reader.size state (buffer ++ chunk ++ (next :: chunks).flatten) + 1) state
      (buffer ++ chunk ++ (next :: chunks).flatten)
    have alike := resumes.drain_append (Nat.lt_succ_self _) (Nat.lt_succ_self _)
      (Nat.lt_succ_self _) ran ranWhole
    rw [deliver, receive, ran, ok_bind]
    by_cases stopped : first.stopped = true
    · rw [if_pos stopped] at alike ⊢
      exact ⟨first, whole, rfl, ranWhole, alike.symm⟩
    · rw [if_neg stopped] at alike ⊢
      obtain ⟨later, rest, delivered, received, same⟩ := ih first.state first.rest next
      rw [delivered, ok_bind]
      refine ⟨_, whole, rfl, ranWhole, ?_⟩
      rw [List.append_assoc, ← List.flatten_cons, receive] at received
      rw [Bool.not_eq_true] at stopped
      have shorter : reader.size first.state (first.rest ++ (next :: chunks).flatten) ≤
          reader.size state (buffer ++ chunk ++ (next :: chunks).flatten) := by
        rw [size_append, size_append _ _ (next :: chunks).flatten]
        exact Nat.add_le_add_right (resumes.drain_size ran stopped) _
      rw [resumes.drain_enough (Nat.lt_succ_self _) (Nat.lt_succ_of_le shorter)] at received
      exact (same.prepend rfl).trans (alike rest received).symm

end Runs

section Parts

variable {resume : σ → List β → Except φ (Call σ β ε)} {read : List β → Except φ (Call σ β ε)}

/-- A call that is answered without reading anything. -/
def Decided (read : List β → Except φ (Call σ β ε)) : Prop :=
  ∃ status events state, status ≠ .waits ∧
    ∀ buffer, read buffer = .ok ⟨status, events, state, buffer⟩

theorem Decided.lawful (decided : Decided read) : Lawful resume fragments read := by
  obtain ⟨status, events, state, done, answers⟩ := decided
  constructor
  · exact fun buffer => ⟨_, answers buffer, Nat.le_refl _⟩
  · intro buffer call called completed more
    rw [answers] at called
    cases called
    exact answers _
  · intro buffer call called stops more
    rw [answers] at called
    cases called
    exact ⟨_, answers _, stops, rfl⟩
  · intro buffer call called waits
    rw [answers] at called
    cases called
    exact absurd waits done

/-- A call that waits for so many data, and then goes on with them. -/
def await (len : Nat) (state : σ) (next : List β → List β → Except φ (Call σ β ε))
    (buffer : List β) : Except φ (Call σ β ε) :=
  if buffer.length < len then .ok ⟨.waits, [], state, buffer⟩
  else next (buffer.take len) (buffer.drop len)

theorem await_enough {len : Nat} {state : σ} {next : List β → List β → Except φ (Call σ β ε)}
    {buffer : List β} (enough : len ≤ buffer.length) :
    await len state next buffer = next (buffer.take len) (buffer.drop len) :=
  if_neg (Nat.not_lt.mpr enough)

theorem lawful_await {len : Nat} {state : σ} {next : List β → List β → Except φ (Call σ β ε)}
    (again : resume state = await len state next)
    (lawful : ∀ data : List β, data.length = len → Lawful resume fragments (next data)) :
    Lawful resume fragments (await len state next) := by
  have taken : ∀ {buffer : List β}, len ≤ buffer.length → (buffer.take len).length = len :=
    fun enough => by rw [List.length_take, Nat.min_eq_left enough]
  have total : ∀ buffer, ∃ call, await len state next buffer = .ok call ∧
      call.rest.length ≤ buffer.length := by
    intro buffer
    by_cases short : buffer.length < len
    · exact ⟨_, if_pos short, Nat.le_refl _⟩
    · have enough := Nat.le_of_not_lt short
      obtain ⟨call, called, less⟩ := (lawful _ (taken enough)).total (buffer.drop len)
      rw [await_enough enough]
      rw [List.length_drop] at less
      exact ⟨call, called, Nat.le_trans less (Nat.sub_le _ _)⟩
  have longer : ∀ {buffer : List β}, len ≤ buffer.length → ∀ more,
      await len state next (buffer ++ more) = next (buffer.take len) (buffer.drop len ++ more) := by
    intro buffer enough more
    rw [await_enough (by rw [List.length_append]; exact Nat.le_add_right_of_le enough),
      List.take_append_of_le_length enough, List.drop_append_of_le_length enough]
  constructor
  · exact total
  · intro buffer call called completed more
    by_cases short : buffer.length < len
    · rw [await, if_pos short] at called
      cases called
      cases completed
    · have enough := Nat.le_of_not_lt short
      rw [await_enough enough] at called
      rw [longer enough]
      exact (lawful _ (taken enough)).completed called completed more
  · intro buffer call called stops more
    by_cases short : buffer.length < len
    · rw [await, if_pos short] at called
      cases called
      cases stops
    · have enough := Nat.le_of_not_lt short
      rw [await_enough enough] at called
      rw [longer enough]
      exact (lawful _ (taken enough)).stops called stops more
  · intro buffer call called waits more
    by_cases short : buffer.length < len
    · rw [await, if_pos short] at called
      cases called
      obtain ⟨whole, answered, _⟩ := total (buffer ++ more)
      refine ⟨whole, whole, answered, ?_, rfl, rfl, fun _ => ⟨rfl, rfl⟩⟩
      rw [again]
      exact answered
    · have enough := Nat.le_of_not_lt short
      rw [await_enough enough] at called
      rw [longer enough]
      exact (lawful _ (taken enough)).waits called waits more

theorem Lawful.after (lawful : Lawful resume fragments read) (events : List ε) :
    Lawful resume fragments fun buffer => Call.after events <$> read buffer := by
  constructor
  · intro buffer
    obtain ⟨call, called, less⟩ := lawful.total buffer
    exact ⟨call.after events, by rw [called]; rfl, less⟩
  · intro buffer call called completed more
    obtain ⟨inner, answered, rfl⟩ := map_ok_iff.mp called
    rw [lawful.completed answered completed more]
    rfl
  · intro buffer call called stops more
    obtain ⟨inner, answered, rfl⟩ := map_ok_iff.mp called
    obtain ⟨whole, all, stopped, same⟩ := lawful.stops answered stops more
    rw [all]
    exact ⟨_, rfl, stopped, Fragments.coalesce_append rfl same⟩
  · intro buffer call called waits more
    obtain ⟨inner, answered, rfl⟩ := map_ok_iff.mp called
    obtain ⟨whole, later, all, next, statuses, same, goes⟩ := lawful.waits answered waits more
    refine ⟨whole.after events, later, by rw [all]; rfl, next, statuses, ?_, goes⟩
    rw [Call.after, Call.after, List.append_assoc]
    exact Fragments.coalesce_append rfl same

variable {τ : Type u}

theorem Lawful.wrap (lawful : Lawful resume fragments read) {wrapper : CallStatus → σ → τ}
    {resume' : τ → List β → Except φ (Call τ β ε)}
    (again : ∀ state, resume' (wrapper .waits state) =
      fun buffer => Call.wrap wrapper <$> resume state buffer) :
    Lawful resume' fragments fun buffer => Call.wrap wrapper <$> read buffer := by
  constructor
  · intro buffer
    obtain ⟨call, called, less⟩ := lawful.total buffer
    exact ⟨call.wrap wrapper, by rw [called]; rfl, less⟩
  · intro buffer call called completed more
    obtain ⟨inner, answered, rfl⟩ := map_ok_iff.mp called
    rw [lawful.completed answered completed more]
    rfl
  · intro buffer call called stops more
    obtain ⟨inner, answered, rfl⟩ := map_ok_iff.mp called
    obtain ⟨whole, all, stopped, same⟩ := lawful.stops answered stops more
    rw [all]
    exact ⟨_, rfl, stopped, same⟩
  · intro buffer call called waits more
    obtain ⟨inner, answered, rfl⟩ := map_ok_iff.mp called
    obtain ⟨whole, later, all, next, statuses, same, goes⟩ := lawful.waits answered waits more
    have status : inner.status = .waits := waits
    refine ⟨whole.wrap wrapper, later.wrap wrapper, by rw [all]; rfl, ?_, statuses, same, ?_⟩
    · rw [Call.wrap, status, again]
      change Call.wrap wrapper <$> resume inner.state (inner.rest ++ more) = _
      rw [next]
      rfl
    · intro ends
      obtain ⟨states, rests⟩ := goes ends
      refine ⟨?_, rests⟩
      rw [Call.wrap, Call.wrap, statuses, states]

end Parts

end Resumable

end Redemption.Foundation
