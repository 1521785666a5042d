import LibNekit.Library.Machine
import LibNekit.Source.DataFlow.FlowStateMachine

/-!
# FlowStateMachine over whole runs

A run is any sequence of operations whose assertions hold. The fields stay in step
with the state: `Consistent` is what every operation keeps, and it is strong enough
to say which operations are left once the flow is Closed.
-/
namespace LibNekit.Guarantees.FlowStates

open LibNekit.Source LibNekit.Library LibNekit.Source.FlowStateMachine

inductive Operation where
  | connectBegin | connected
  | readBegin | readEnd | readClosed
  | writeBegin | writeEnd | writeCloseBegin | writeCloseEnd
  | closed | errored
  deriving DecidableEq, Repr

def Operation.apply : Operation → FlowStateMachine → Checked FlowStateMachine
  | .connectBegin, m => m.connectBegin
  | .connected, m => m.connected
  | .readBegin, m => m.readBegin
  | .readEnd, m => m.readEnd
  | .readClosed, m => m.readClose
  | .writeBegin, m => m.writeBegin
  | .writeEnd, m => m.writeEnd
  | .writeCloseBegin, m => m.writeCloseBegin
  | .writeCloseEnd, m => m.writeCloseEnd
  | .closed, m => .ok m.close
  | .errored, m => .ok m.errored

/-- An operation whose assertions do not hold ends the run. -/
def operations : Machine FlowStateMachine Operation Fault where
  admits _ _ := True
  step := Operation.apply

/-- The order Init, Establishing, Established, Closing, Closed. -/
def rank : FlowState → Nat
  | .init => 0
  | .establishing => 1
  | .established => 2
  | .closing => 3
  | .closed => 4

structure Consistent (m : FlowStateMachine) : Prop where
  closed : m.state = .closed ↔ m.readClosed = true ∧ m.writeClosed = true
  early : rank m.state < rank .closing →
    m.readClosed = false ∧ m.writeClosed = false ∧ m.writeClosing = false
  reading : m.reading = true → m.readClosed = false
  writing : m.writing = true → m.writeClosed = false ∧ m.writeClosing = false
  closing : m.writeClosing = true → m.writeClosed = false

/-- One operation keeps the fields in step, and the state goes forward. -/
structure Advances (m m' : FlowStateMachine) : Prop where
  consistent : Consistent m'
  forward : rank m.state ≤ rank m'.state

variable {m m' : FlowStateMachine}

theorem fresh_consistent (type : FlowType) : Consistent { type } := by
  constructor <;> simp

/-- A side that can be read or written is open. -/
theorem readable_open (consistent : Consistent m) (readable : m.isReadable = true) :
    m.state ≠ .closed ∧ m.readClosed = false := by
  have early := consistent.early
  simp only [isReadable, openFor, Bool.and_eq_true, Bool.or_eq_true, Bool.not_eq_true', beq_iff_eq] at readable
  obtain ⟨-, (⟨-, state⟩ | state) | ⟨state, closed⟩⟩ := readable <;> rw [state] at early ⊢
  · exact ⟨nofun, (early (by decide)).1⟩
  · exact ⟨nofun, (early (by decide)).1⟩
  · exact ⟨nofun, closed⟩

theorem writable_open (consistent : Consistent m) (writable : m.isWritable = true) :
    m.state ≠ .closed ∧ m.writeClosed = false ∧ m.writeClosing = false := by
  have early := consistent.early
  simp only [isWritable, openFor, Bool.and_eq_true, Bool.or_eq_true, Bool.not_eq_true', beq_iff_eq] at writable
  obtain ⟨-, (⟨-, state⟩ | state) | ⟨state, closed⟩⟩ := writable <;> rw [state] at early ⊢
  · exact ⟨nofun, (early (by decide)).2⟩
  · exact ⟨nofun, (early (by decide)).2⟩
  · exact ⟨nofun, closed⟩

/-! ## One operation -/

theorem read_advances (consistent : Consistent m) (op : Operation)
    (reads : op = .readBegin ∨ op = .readEnd ∨ op = .readClosed) (applied : op.apply m = .ok m') :
    Advances m m' := by
  rcases reads with rfl | rfl | rfl
  · obtain ⟨readable, rfl⟩ := readBegin_ok.mp applied
    have opened := readable_open consistent readable
    exact ⟨⟨consistent.closed, consistent.early, fun _ => opened.2, consistent.writing, consistent.closing⟩,
      Nat.le_refl _⟩
  · obtain ⟨-, rfl⟩ := readEnd_ok.mp applied
    exact ⟨⟨consistent.closed, consistent.early, nofun, consistent.writing, consistent.closing⟩, Nat.le_refl _⟩
  · obtain ⟨state, -, rfl⟩ := readClose_ok.mp applied
    rcases state with state | state
    · have early := consistent.early (by rw [state]; decide)
      simp only [state, if_true]
      exact ⟨⟨by simp [early], nofun, nofun, consistent.writing, consistent.closing⟩, by simp [state, rank]⟩
    · simp only [state, reduceCtorEq, if_false]
      refine ⟨⟨by simp, fun earlier => ?_, nofun, consistent.writing, consistent.closing⟩, ?_⟩
      · dsimp only at earlier
        split at earlier <;> exact absurd earlier (by decide)
      · rw [state]
        dsimp only
        split <;> decide

theorem write_advances (consistent : Consistent m) (op : Operation)
    (writes : op = .writeBegin ∨ op = .writeEnd) (applied : op.apply m = .ok m') : Advances m m' := by
  rcases writes with rfl | rfl
  · obtain ⟨writable, rfl⟩ := writeBegin_ok.mp applied
    have opened := writable_open consistent writable
    exact ⟨⟨consistent.closed, consistent.early, consistent.reading, fun _ => opened.2, consistent.closing⟩,
      Nat.le_refl _⟩
  · obtain ⟨-, rfl⟩ := writeEnd_ok.mp applied
    exact ⟨⟨consistent.closed, consistent.early, consistent.reading, nofun, consistent.closing⟩, Nat.le_refl _⟩

theorem writeClose_advances (consistent : Consistent m) (op : Operation)
    (closes : op = .writeCloseBegin ∨ op = .writeCloseEnd) (applied : op.apply m = .ok m') :
    Advances m m' := by
  rcases closes with rfl | rfl
  · obtain ⟨state, opened, rfl⟩ := writeCloseBegin_ok.mp applied
    refine ⟨⟨by simp [opened], nofun, consistent.reading, nofun, fun _ => opened.1⟩, ?_⟩
    rcases state with state | state <;> simp [state, rank]
  · obtain ⟨closing, rfl⟩ := writeCloseEnd_ok.mp applied
    have opened : m.writeClosed = false := consistent.closing closing
    have state : m.state = .closing := by
      have notClosed : m.state ≠ .closed := by simp [consistent.closed, opened]
      have late : ¬rank m.state < rank .closing := fun earlier => by
        simp [(consistent.early earlier).2.2] at closing
      revert notClosed late
      cases m.state <;> decide
    refine ⟨⟨by simp [state], fun earlier => ?_, consistent.reading, fun busy => ?_, nofun⟩, ?_⟩
    · dsimp only at earlier
      rw [state] at earlier
      split at earlier <;> exact absurd earlier (by decide)
    · simp [(consistent.writing busy).2] at closing
    · rw [state]
      dsimp only
      split <;> decide

/-- The step lemma: every operation keeps the fields in step. -/
theorem advances (consistent : Consistent m) (op : Operation) (applied : op.apply m = .ok m') :
    Advances m m' := by
  cases op with
  | connectBegin =>
    obtain ⟨state, rfl⟩ := connectBegin_ok.mp applied
    have early := consistent.early (by rw [state]; decide)
    exact ⟨⟨by simp [early], fun _ => early, consistent.reading, consistent.writing, consistent.closing⟩,
      by simp [state, rank]⟩
  | connected =>
    obtain ⟨state, rfl⟩ := connected_ok.mp applied
    have early := consistent.early (by rcases state with state | state <;> rw [state] <;> decide)
    refine ⟨⟨by simp [early], fun _ => early, consistent.reading, consistent.writing, consistent.closing⟩, ?_⟩
    rcases state with state | state <;> simp [state, rank]
  | readBegin | readEnd | readClosed => exact read_advances consistent _ (by simp) applied
  | writeBegin | writeEnd => exact write_advances consistent _ (by simp) applied
  | writeCloseBegin | writeCloseEnd => exact writeClose_advances consistent _ (by simp) applied
  | closed | errored =>
    cases applied
    refine ⟨⟨by simp [close, FlowStateMachine.errored], nofun, nofun, nofun, nofun⟩, ?_⟩
    show rank m.state ≤ 4
    cases m.state <;> decide

/-! ## The end of a flow -/

/-- Nothing is in progress on a closed flow. -/
theorem Consistent.still (consistent : Consistent m) (state : m.state = .closed) :
    m.reading = false ∧ m.writing = false ∧ m.writeClosing = false := by
  obtain ⟨readClosed, writeClosed⟩ := consistent.closed.mp state
  refine ⟨?_, ?_, ?_⟩ <;> by_contra busy <;> rw [Bool.not_eq_false] at busy
  · simp [consistent.reading busy] at readClosed
  · simp [(consistent.writing busy).1] at writeClosed
  · simp [consistent.closing busy] at writeClosed

/-- In Closed every assertion fails; `Closed()` and `Errored()` have none. -/
theorem closed_legal (consistent : Consistent m) (state : m.state = .closed) (op : Operation) :
    (∃ m', op.apply m = .ok m') ↔ op = .closed ∨ op = .errored := by
  obtain ⟨reading, writing, writeClosing⟩ := consistent.still state
  constructor
  · rintro ⟨m', applied⟩
    cases op with
    | connectBegin =>
      have legal := (connectBegin_ok.mp applied).1
      simp [state] at legal
    | connected =>
      have legal := (connected_ok.mp applied).1
      simp [state] at legal
    | readBegin => exact absurd state (readable_open consistent (readBegin_ok.mp applied).1).1
    | readEnd =>
      have legal := (readEnd_ok.mp applied).1
      simp [reading] at legal
    | readClosed =>
      have legal := (readClose_ok.mp applied).1
      simp [state] at legal
    | writeBegin => exact absurd state (writable_open consistent (writeBegin_ok.mp applied).1).1
    | writeEnd =>
      have legal := (writeEnd_ok.mp applied).1
      simp [writing] at legal
    | writeCloseBegin =>
      have legal := (writeCloseBegin_ok.mp applied).1
      simp [state] at legal
    | writeCloseEnd =>
      have legal := (writeCloseEnd_ok.mp applied).1
      simp [writeClosing] at legal
    | closed | errored => simp
  · rintro (rfl | rfl) <;> exact ⟨_, rfl⟩

/-! ## Whole runs -/

theorem run_consistent {type : FlowType} {ops : List Operation} (ran : operations.run ops { type } = .ok m) :
    Consistent m :=
  Machine.Reachable.invariant ⟨ops, Machine.admitted_all (fun _ _ => trivial) ops _, ran⟩ (fresh_consistent type)
    fun _ _ _ consistent _ applied => (advances consistent _ applied).consistent

/-- What the states of a run look like, and where the next operation may lead. -/
theorem flow_state_machine_runs (type : FlowType) (ops : List Operation) (m : FlowStateMachine)
    (ran : operations.run ops { type } = .ok m) :
    (m.state = .closed ↔ m.readClosed = true ∧ m.writeClosed = true) ∧
    (m.state = .closed → m.reading = false ∧ m.writing = false ∧ m.writeClosing = false ∧
      ∀ op : Operation, (∃ m', op.apply m = .ok m') ↔ op = .closed ∨ op = .errored) ∧
    (rank m.state < rank .closing →
      m.readClosed = false ∧ m.writeClosed = false ∧ m.writeClosing = false) ∧
    (m.reading = true → m.readClosed = false) ∧
    (m.writing = true → m.writeClosed = false ∧ m.writeClosing = false) ∧
    ∀ (op : Operation) (m' : FlowStateMachine), op.apply m = .ok m' → rank m.state ≤ rank m'.state := by
  have consistent := run_consistent ran
  refine ⟨consistent.closed, fun state => ?_, consistent.early, consistent.reading, consistent.writing,
    fun op m' applied => (advances consistent op applied).forward⟩
  obtain ⟨reading, writing, writeClosing⟩ := consistent.still state
  exact ⟨reading, writing, writeClosing, closed_legal consistent state⟩

/-- A local flow that is opened, half-closed by its peer and then closed. -/
theorem flow_state_machine_runs_both_ways :
    operations.run [.connectBegin, .connected, .readBegin, .readEnd, .readClosed, .writeCloseBegin,
      .writeCloseEnd] { type := .local } =
        .ok { type := .local, state := .closed, readClosed := true, writeClosed := true } ∧
    ∀ op : Operation,
      (∃ m', op.apply { type := .local, state := .closed, readClosed := true, writeClosed := true } = .ok m') ↔
        op = .closed ∨ op = .errored :=
  ⟨rfl, ((flow_state_machine_runs .local [.connectBegin, .connected, .readBegin, .readEnd, .readClosed,
    .writeCloseBegin, .writeCloseEnd] _ rfl).2.1 rfl).2.2.2⟩

end LibNekit.Guarantees.FlowStates
