import LibNekit.Source.Transport.Established

/-!
# A local TcpSocket and its own state machine

The guards let a local flow be read, written and half-closed while it is still
Establishing. The completions are written for a flow that is Established: EOF and
`CloseWrite` meet an assertion, and an error makes the pending `Continue` meet one.
Apart from those inputs every completion finds the machine as it expects it.
-/
namespace LibNekit.Guarantees.TcpSocketStates

open LibNekit.Source LibNekit.Library LibNekit.Source.TcpSocket LibNekit.Source.FlowStateMachine

/-- What a completed operation has to leave in the state machine. -/
def Reports (e : Event) (m : FlowStateMachine) : Prop :=
  match e with
  | .readDone (some .endOfFile) => m.readClosed = true
  | .readDone (some .other) | .writeDone (some _) | .writeClosed (some _) => m.state = .closed
  | _ => True

/-- The inputs that the socket is written for. -/
def Foreseen (e : Event) (o : Owned) : Prop :=
  match e with
  | .readDone (some .endOfFile) | .call .closeWrite => o.socket.stateMachine.state ≠ .establishing
  | .continued => o.socket.stateMachine.state ≠ .closed
  | .writeClosed (some _) => o.socket.stateMachine.readClosed = true
  | _ => True

/-- `Continue` has been called or not; its callback is owed in between. -/
def Waiting (o : Owned) : Prop :=
  (o.progress = .opened ∧ o.socket.continuing = none) ∨
    (o.progress = .continued ∧ o.socket.continuing = some {})

/-- The states that runs reach. -/
inductive Situation (o : Owned) : Prop where
  | created (machine : o.socket.stateMachine = { type := .local }) (progress : o.progress = .created)
      (read : o.socket.read = none) (write : o.socket.write = none)
      (continuing : o.socket.continuing = none)
  | establishing (reading writing : Bool)
      (machine : o.socket.stateMachine = establishing .local reading writing)
      (read : o.socket.read = if reading then some {} else none)
      (write : o.socket.write = if writing then some { kind := .write } else none)
      (waiting : Waiting o)
  | running (read : ReadHalf) (write : WriteHalf) (established : o.socket.Established .local read write)
      (progress : o.progress = .continued)
  | dead (dead : o.socket.Dead .local)
      (waiting : Waiting o ∨ o.progress = .continued ∧ o.socket.continuing = none)

/-- A step is either foreseen and goes well, or neither. -/
def Judged (e : Event) (o : Owned) : Prop :=
  (Foreseen e o ∧ ∃ o', o.step e = .ok o' ∧ Reports e o'.socket.stateMachine ∧ Situation o') ∨
    (¬Foreseen e o ∧ ∀ o', o.step e = .ok o' → ¬Reports e o'.socket.stateMachine)

variable {o : Owned}

theorem situation_accepted : Situation { socket := accepted } :=
  .created rfl rfl rfl rfl rfl

theorem Waiting.progress (waiting : Waiting o) : o.progress ≠ .created := by
  rcases waiting with ⟨opened, -⟩ | ⟨continued, -⟩ <;> simp [*]

/-! ## Calls -/

theorem judged_open (situation : Situation o) (admits : o.Admits (.call .open)) :
    Judged (.call .open) o := by
  have fresh : o.progress = .created := admits
  cases situation with
  | created machine progress read write continuing =>
    refine Or.inl ⟨trivial, ⟨{ o.socket with
      stateMachine := establishing .local false false, opening := some {} }, .opened⟩, ?_, trivial, ?_⟩
    · simp [Owned.step, Owned.call, TcpSocket.open, machine, connectBegin, boostAssert]
      rfl
    · exact .establishing false false rfl read write (Or.inl ⟨rfl, continuing⟩)
  | establishing reading writing machine read write waiting => exact absurd fresh waiting.progress
  | running read write established progress => simp [progress] at fresh
  | dead dead waiting =>
    rcases waiting with waiting | ⟨continued, -⟩
    · exact absurd fresh waiting.progress
    · simp [continued] at fresh

theorem judged_continue (situation : Situation o) (admits : o.Admits (.call .continue)) :
    Judged (.call .continue) o := by
  have opened : o.progress = .opened := admits
  refine Or.inl ⟨trivial, ⟨{ o.socket with continuing := some {} }, .continued⟩, rfl, trivial, ?_⟩
  cases situation with
  | created machine progress read write continuing => simp [progress] at opened
  | establishing reading writing machine read write waiting =>
    exact .establishing reading writing machine read write (Or.inr ⟨rfl, rfl⟩)
  | running read write established progress => simp [progress] at opened
  | dead dead waiting =>
    exact .dead ⟨dead.stateMachine, dead.read, dead.write⟩ (Or.inl (Or.inr ⟨rfl, rfl⟩))

theorem judged_read (situation : Situation o) (admits : o.Admits (.call .read)) :
    Judged (.call .read) o := by
  have readable : o.socket.stateMachine.isReadable = true := admits
  cases situation with
  | created machine progress read write continuing =>
    rw [machine] at readable
    simp [isReadable, openFor] at readable
  | establishing reading writing machine read write waiting =>
    obtain rfl : reading = false := by simpa [machine] using readable
    refine Or.inl ⟨trivial, { o with socket := { o.socket with
      stateMachine := establishing .local true writing, read := some {} } }, ?_, trivial,
      .establishing true writing rfl rfl write waiting⟩
    simp [Owned.step, Owned.call, beginRead, machine, readBegin_establishing]
  | running read write established progress =>
    obtain rfl := established.isReadable.mp readable
    obtain ⟨socket, begun, busy⟩ := established.beginRead
    refine Or.inl ⟨trivial, { o with socket }, ?_, trivial, .running .busy write busy progress⟩
    simp [Owned.step, Owned.call, begun]
  | dead dead waiting =>
    rw [dead.stateMachine] at readable
    simp at readable

theorem judged_write (situation : Situation o) (admits : o.Admits (.call .write)) :
    Judged (.call .write) o := by
  have writable : o.socket.stateMachine.isWritable = true := admits
  cases situation with
  | created machine progress read write continuing =>
    rw [machine] at writable
    simp [isWritable, openFor] at writable
  | establishing reading writing machine read write waiting =>
    obtain rfl : writing = false := by simpa [machine] using writable
    refine Or.inl ⟨trivial, { o with socket := { o.socket with
      stateMachine := establishing .local reading true, write := some { kind := .write } } }, ?_,
      trivial, .establishing reading true rfl read rfl waiting⟩
    simp [Owned.step, Owned.call, beginWrite, machine, writeBegin_establishing]
  | running read write established progress =>
    obtain rfl := established.isWritable.mp writable
    obtain ⟨socket, begun, busy⟩ := established.beginWrite
    refine Or.inl ⟨trivial, { o with socket }, ?_, trivial, .running read .busy busy progress⟩
    simp [Owned.step, Owned.call, begun]
  | dead dead waiting =>
    rw [dead.stateMachine] at writable
    simp at writable

theorem judged_closeWrite (situation : Situation o) (admits : o.Admits (.call .closeWrite)) :
    Judged (.call .closeWrite) o := by
  have closable : o.socket.stateMachine.isWritable = true := admits
  cases situation with
  | created machine progress read write continuing =>
    rw [machine] at closable
    simp [isWritable, openFor] at closable
  | establishing reading writing machine read write waiting =>
    -- the guard holds, the assertion does not
    refine Or.inr ⟨fun foreseen => foreseen (by rw [machine]; rfl), fun o' stepped => ?_⟩
    simp [Owned.step, Owned.call, closeWrite, machine, writeCloseBegin, boostAssert] at stepped
  | running read write established progress =>
    obtain rfl := established.isWritable.mp closable
    obtain ⟨socket, begun, closing⟩ := established.closeWrite
    refine Or.inl ⟨?_, { o with socket }, ?_, trivial, .running read .closing closing progress⟩
    · show o.socket.stateMachine.state ≠ .establishing
      rw [established.state]
      exact stateOf_ne_establishing _ _
    · simp [Owned.step, Owned.call, begun]
  | dead dead waiting =>
    rw [dead.stateMachine] at closable
    simp at closable

/-! ## Completions -/

theorem judged_opened (situation : Situation o) (admits : o.Admits .opened) : Judged .opened o := by
  obtain ⟨owed, opening⟩ := Option.isSome_iff_exists.mp admits
  refine Or.inl ⟨trivial, { o with socket := { o.socket with opening := none } }, ?_, trivial, ?_⟩
  · simp [Owned.step, onOpened, opening]
  cases situation with
  | created machine progress read write continuing => exact .created machine progress read write continuing
  | establishing reading writing machine read write waiting =>
    exact .establishing reading writing machine read write waiting
  | running read write established progress =>
    obtain ⟨machine, owedRead, owedWrite, continuing⟩ := established
    exact .running read write ⟨machine, owedRead, owedWrite, continuing⟩ progress
  | dead dead waiting => exact .dead ⟨dead.stateMachine, dead.read, dead.write⟩ waiting

theorem judged_continued (situation : Situation o) (admits : o.Admits .continued) :
    Judged .continued o := by
  obtain ⟨owed, continuing⟩ := Option.isSome_iff_exists.mp admits
  cases situation with
  | created machine progress read write none => simp [none] at continuing
  | establishing reading writing machine read write waiting =>
    rcases waiting with ⟨-, none⟩ | ⟨progress, pending⟩
    · simp [none] at continuing
    refine Or.inl ⟨?_, { o with socket := { o.socket with
      stateMachine := ofHalves .local (if reading then .busy else .idle)
        (if writing then .busy else .idle), continuing := none } }, ?_, trivial,
      .running _ _ ⟨rfl, ?_, ?_, rfl⟩ progress⟩
    · show o.socket.stateMachine.state ≠ .closed
      rw [machine, establishing_state]
      decide
    · simp [Owned.step, onContinued, pending, machine, connected_establishing]
    · exact read.trans (by cases reading <;> rfl)
    · exact write.trans (by cases writing <;> rfl)
  | running read write established progress => simp [established.continuing] at continuing
  | dead dead waiting =>
    refine Or.inr ⟨fun foreseen => foreseen (by rw [dead.stateMachine]; rfl), fun o' stepped => ?_⟩
    have pending : o.socket.continuing = some {} := by
      rcases waiting with (⟨-, none⟩ | ⟨-, pending⟩) | ⟨-, none⟩
      · simp [none] at continuing
      · exact pending
      · simp [none] at continuing
    simp [Owned.step, onContinued, pending, dead.stateMachine, connected, boostAssert] at stepped

/-- The machine of a socket that an error has closed. -/
theorem closed_reports (e : Event) : Reports e (ofHalves .local .closed .closed) := by
  unfold Reports
  split <;> first | rfl | trivial

/-- An error leaves a dead socket. -/
theorem judged_error {e : Event} {socket : TcpSocket} (foreseen : Foreseen e o)
    (stepped : o.step e = .ok { o with socket }) (dead : socket.Dead .local)
    (same : socket.continuing = o.socket.continuing)
    (waiting : Waiting o ∨ o.progress = .continued ∧ o.socket.continuing = none) : Judged e o := by
  refine Or.inl ⟨foreseen, _, stepped, ?_, .dead dead ?_⟩
  · show Reports e socket.stateMachine
    rw [dead.stateMachine]
    exact closed_reports e
  · rw [Waiting] at waiting ⊢
    dsimp only
    rwa [same]

theorem judged_readDone (ec : ErrorCode) (situation : Situation o) (admits : o.Admits (.readDone ec)) :
    Judged (.readDone ec) o := by
  have owed : o.socket.read.isSome = true := admits
  cases situation with
  | created machine progress read write continuing => simp [read] at owed
  | establishing reading writing machine read write waiting =>
    obtain rfl : reading = true := by
      cases reading
      · simp [read] at owed
      · rfl
    rw [if_pos rfl] at read
    cases ec with
    | none =>
      refine Or.inl ⟨trivial, { o with socket := { o.socket with
        stateMachine := establishing .local false writing, read := none } }, ?_, trivial,
        .establishing false writing rfl rfl write waiting⟩
      simp [Owned.step, onRead, read, machine, readEnd_establishing]
    | some error =>
      cases error with
      | endOfFile =>
        refine Or.inr ⟨fun foreseen => foreseen (by rw [machine]; rfl), fun o' stepped => ?_⟩
        simp [Owned.step, onRead, read, machine, readEnd_establishing, readClose, boostAssert] at stepped
      | other =>
        refine @judged_error o _ { o.socket with
          stateMachine := ofHalves .local .closed .closed, read := none }.cancelWrite trivial ?_
          ⟨rfl, by simp [cancelWrite], by simp [cancelWrite]⟩ rfl (Or.inl waiting)
        simp [Owned.step, onRead, read, machine, readEnd_establishing, cancelWrite]
  | running read write established progress =>
    obtain rfl := established.read_isSome.mp owed
    cases ec with
    | none =>
      obtain ⟨socket, called, idle⟩ := established.onRead_data
      refine Or.inl ⟨trivial, { o with socket }, ?_, trivial, .running .idle write idle progress⟩
      simp [Owned.step, called]
    | some error =>
      cases error with
      | endOfFile =>
        obtain ⟨socket, called, closed⟩ := established.onRead_eof
        refine Or.inl ⟨?_, { o with socket }, ?_, closed.readClosed.mpr rfl,
          .running .closed write closed progress⟩
        · show o.socket.stateMachine.state ≠ .establishing
          rw [established.state]
          exact stateOf_ne_establishing _ _
        · simp [Owned.step, called]
      | other =>
        obtain ⟨socket, called, dead, none⟩ := established.onRead_error
        refine judged_error trivial ?_ dead (none.trans established.continuing.symm)
          (Or.inr ⟨progress, established.continuing⟩)
        simp [Owned.step, called]
  | dead dead waiting =>
    refine @judged_error o _ { o.socket with read := none } ?_ ?_
      ⟨dead.stateMachine, by simp, dead.write⟩ rfl waiting
    · unfold Foreseen
      split <;> first | trivial | (rw [dead.stateMachine]; simp)
    · simp [Owned.step, onRead_canceled ec owed dead.read]

theorem judged_writeDone (ec : ErrorCode) (situation : Situation o)
    (admits : o.Admits (.writeDone ec)) : Judged (.writeDone ec) o := by
  have owed : o.socket.write.map OwedWrite.kind = some .write := admits
  cases situation with
  | created machine progress read write continuing => simp [write] at owed
  | establishing reading writing machine read write waiting =>
    obtain rfl : writing = true := by
      cases writing
      · simp [write] at owed
      · rfl
    rw [if_pos rfl] at write
    cases ec with
    | none =>
      refine Or.inl ⟨trivial, { o with socket := { o.socket with
        stateMachine := establishing .local reading false, write := none } }, ?_, trivial,
        .establishing reading false rfl read rfl waiting⟩
      simp [Owned.step, onWritten, write, machine, writeEnd_establishing]
    | some error =>
      refine @judged_error o _ { o.socket with
        stateMachine := ofHalves .local .closed .closed, write := none }.cancelRead trivial ?_
        ⟨rfl, by simp [cancelRead], by simp [cancelRead]⟩ rfl (Or.inl waiting)
      simp [Owned.step, onWritten, write, machine, writeEnd_establishing, cancelRead]
  | running read write established progress =>
    obtain rfl := (established.write_kind .write).mp owed
    cases ec with
    | none =>
      obtain ⟨socket, called, idle⟩ := established.onWritten_ok
      refine Or.inl ⟨trivial, { o with socket }, ?_, trivial, .running read .idle idle progress⟩
      simp [Owned.step, called]
    | some error =>
      obtain ⟨socket, called, dead, none⟩ := established.onWritten_error error
      refine judged_error trivial ?_ dead (none.trans established.continuing.symm)
        (Or.inr ⟨progress, established.continuing⟩)
      simp [Owned.step, called]
  | dead dead waiting =>
    refine @judged_error o _ { o.socket with write := none } trivial ?_
      ⟨dead.stateMachine, dead.read, by simp⟩ rfl waiting
    simp [Owned.step, onWritten_canceled ec (isSome_of_kind owed) dead.write]

theorem judged_writeClosed (ec : ErrorCode) (situation : Situation o)
    (admits : o.Admits (.writeClosed ec)) : Judged (.writeClosed ec) o := by
  have owed : o.socket.write.map OwedWrite.kind = some .closeWrite := admits
  cases situation with
  | created machine progress read write continuing => simp [write] at owed
  | establishing reading writing machine read write waiting =>
    cases writing <;> simp [write] at owed
  | running read write established progress =>
    obtain rfl := (established.write_kind .closeWrite).mp owed
    obtain ⟨socket, called, closed⟩ := established.onWriteClosed ec
    have stepped : o.step (.writeClosed ec) = .ok { o with socket } := by simp [Owned.step, called]
    have stays : Situation { o with socket } := .running read .closed closed progress
    cases ec with
    | none => exact Or.inl ⟨trivial, _, stepped, trivial, stays⟩
    | some error =>
      have reports : socket.stateMachine.state = .closed ↔ read = .closed := by
        rw [closed.state]
        simp
      by_cases eof : read = .closed
      · exact Or.inl ⟨established.readClosed.mpr eof, _, stepped, reports.mpr eof, stays⟩
      · -- the error is passed on and the flow stays half open
        refine Or.inr ⟨fun foreseen => eof (established.readClosed.mp foreseen), fun o' again => ?_⟩
        obtain rfl := Except.ok.inj (stepped.symm.trans again)
        exact fun reported => eof (reports.mp reported)
  | dead dead waiting =>
    refine @judged_error o _ { o.socket with write := none } ?_ ?_
      ⟨dead.stateMachine, dead.read, by simp⟩ rfl waiting
    · unfold Foreseen
      split <;> first | trivial | (rw [dead.stateMachine]; rfl)
    · simp [Owned.step, onWriteClosed_canceled ec (isSome_of_kind owed) dead.write]

/-! ## Runs -/

theorem judged {e : Event} (situation : Situation o) (admits : o.Admits e) : Judged e o := by
  cases e with
  | call c =>
    cases c with
    | «open» => exact judged_open situation admits
    | «continue» => exact judged_continue situation admits
    | read => exact judged_read situation admits
    | write => exact judged_write situation admits
    | closeWrite => exact judged_closeWrite situation admits
  | opened => exact judged_opened situation admits
  | continued => exact judged_continued situation admits
  | readDone ec => exact judged_readDone ec situation admits
  | writeDone ec => exact judged_writeDone ec situation admits
  | writeClosed ec => exact judged_writeClosed ec situation admits

theorem Judged.iff {e : Event} (judged : Judged e o) :
    (∃ o', o.step e = .ok o' ∧ Reports e o'.socket.stateMachine) ↔ Foreseen e o := by
  rcases judged with ⟨foreseen, o', stepped, reports, -⟩ | ⟨unforeseen, fails⟩
  · exact ⟨fun _ => foreseen, fun _ => ⟨o', stepped, reports⟩⟩
  · constructor
    · rintro ⟨o', stepped, reports⟩
      exact absurd reports (fails o' stepped)
    · exact fun foreseen => absurd foreseen unforeseen

theorem Judged.situation {e : Event} {o' : Owned} (judged : Judged e o) (foreseen : Foreseen e o)
    (stepped : o.step e = .ok o') : Situation o' := by
  rcases judged with ⟨-, o₁, stepped₁, -, situation⟩ | ⟨unforeseen, -⟩
  · obtain rfl : o₁ = o' := Except.ok.inj (stepped₁.symm.trans stepped)
    exact situation
  · exact absurd foreseen unforeseen

/-- No assertion fails and every completion leaves the state it should, in exactly
the runs that keep to what is foreseen. -/
theorem socket_keeps_its_state_machine_iff (events : List Event)
    (admitted : machine.Admitted events { socket := accepted }) :
    machine.AllSteps (fun e _ o' => Reports e o'.socket.stateMachine) events { socket := accepted } ↔
      machine.Along Foreseen events { socket := accepted } := by
  have decides : ∀ e o, Situation o → machine.admits e o →
      ((∃ o', machine.step e o = .ok o' ∧ Reports e o'.socket.stateMachine) ↔ Foreseen e o) :=
    fun e o situation admits => (judged situation admits).iff
  have preserved : ∀ e o o', Situation o → machine.admits e o → Foreseen e o →
      machine.step e o = .ok o' → Situation o' :=
    fun e o o' situation admits foreseen stepped =>
      (judged situation admits).situation foreseen stepped
  exact Machine.allSteps_iff_along decides preserved events _ situation_accepted admitted

/-- A socket that is read early, established, and closed from both ends. -/
def wholeLife : List Event :=
  [.call .open, .opened, .call .read, .call .continue, .continued, .readDone none, .call .read,
    .call .closeWrite, .readDone (some .endOfFile), .writeClosed none]

theorem socket_keeps_its_state_machine_iff_wholeLife :
    machine.Admitted wholeLife { socket := accepted } ∧
      (machine.AllSteps (fun e _ o' => Reports e o'.socket.stateMachine) wholeLife
          { socket := accepted } ↔
        machine.Along Foreseen wholeLife { socket := accepted }) :=
  ⟨by decide, socket_keeps_its_state_machine_iff wholeLife (by decide)⟩

/-- EOF reaches a socket that is read before `Continue`. -/
theorem early_eof_fails_assertion :
    machine.Admitted [.call .open, .opened, .call .read, .readDone (some .endOfFile)]
        { socket := accepted } ∧
      machine.run [.call .open, .opened, .call .read, .readDone (some .endOfFile)]
        { socket := accepted } = .error .assertion :=
  ⟨by decide, rfl⟩

end LibNekit.Guarantees.TcpSocketStates
