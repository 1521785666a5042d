import LibNekit.Source.Transport.Established
import LibNekit.Source.Transport.TcpTunnel

/-!
# A tunnel over two TcpSockets is released exactly when it should be

Each direction is reading, writing, closing or ended, and the two directions fix
both sockets: the read half of a socket belongs to the direction that starts there,
the write half to the one that ends there. A callback moves one direction on, or the
tunnel is released.
-/
namespace LibNekit.Guarantees.TunnelRelease

open LibNekit.Source LibNekit.Library LibNekit.Source.FlowStateMachine LibNekit.Source.TcpTunnel

inductive Relay where
  | reading | writing | closing | ended
  deriving DecidableEq

/-- The half it reads from. -/
def Relay.source : Relay → ReadHalf
  | .reading => .busy
  | .writing => .idle
  | .closing | .ended => .closed

/-- The half it writes to. -/
def Relay.target : Relay → WriteHalf
  | .reading => .idle
  | .writing => .busy
  | .closing => .closing
  | .ended => .closed

def flowType : Side → FlowType
  | .local => .local
  | .remote => .remote

/-- The flow on `side` while the directions are in `phase`. -/
def Serves (socket : TcpSocket) (side : Side) (phase : Side → Relay) : Prop :=
  socket.Established (flowType side) (phase side).source (phase side.other).target

/-- An error that is not EOF, of a `Read` or of a `Write`. -/
def IsError : Event → Prop
  | .readDone _ (some .other) | .writeDone _ (some _) => True
  | _ => False

/-- `CloseWrite` of the flow on `side` has completed. -/
def HalfClosed (past : List Event) (side : Side) : Prop := ∃ ec, Event.writeClosed side ec ∈ past

structure Forwarding (past : List Event) (t : TcpTunnel) (phase : Side → Relay) : Prop where
  alive : t.released = false
  serves : ∀ side, Serves (t.flow side) side phase
  unfinished : ∃ side, phase side ≠ .ended
  noError : ∀ e ∈ past, ¬IsError e
  halfClosed : ∀ side, HalfClosed past side → phase side.other = .ended

structure Released (t : TcpTunnel) : Prop where
  released : t.released = true
  timer : t.timer = false
  canceled : ∀ side, (∀ owed ∈ (t.flow side).read, owed.canceled = true) ∧
    ∀ owed ∈ (t.flow side).write, owed.canceled = true

def Inv (past : List Event) (t : TcpTunnel) : Prop :=
  (∃ phase, Forwarding past t phase) ∨ Released t

/-! ## Field updates -/

variable {t : TcpTunnel} {side : Side} {socket : TcpSocket}

@[simp] theorem set_released : (t.set side socket).released = t.released := rfl

@[simp] theorem set_flow_same : (t.set side socket).flow side = socket := by simp [TcpTunnel.set]

@[simp] theorem set_flow_other : (t.set side socket).flow side.other = t.flow side.other := by
  cases side <;> simp [TcpTunnel.set, Side.other]

@[simp] theorem set_other_flow : (t.set side.other socket).flow side = t.flow side := by
  cases side <;> simp [TcpTunnel.set, Side.other]

@[simp] theorem side_other_other (side : Side) : side.other.other = side := by cases side <;> rfl

@[simp] theorem other_ne (side : Side) : side.other ≠ side := by cases side <;> decide

@[simp] theorem ne_other (side : Side) : side ≠ side.other := by cases side <;> decide

theorem forall_sides {P : Side → Prop} (side : Side) (here : P side) (there : P side.other) :
    ∀ s, P s := by
  intro s
  cases side <;> cases s
  all_goals first
    | exact here
    | exact there

/-! ## Pieces of the callbacks -/

theorem alive_ok (alive : t.released = false) : t.alive = .ok () := by simp [TcpTunnel.alive, alive]

theorem releaseTunnel_ok (alive : t.released = false) :
    ∃ t', t.releaseTunnel = .ok t' ∧ Released t' := by
  refine ⟨_, by rw [TcpTunnel.releaseTunnel, alive_ok alive]; rfl, rfl, rfl, fun side => ⟨?_, ?_⟩⟩
  · simp [TcpSocket.destroy, TcpSocket.cancelRead, TcpSocket.cancelWrite]
  · simp [TcpSocket.destroy, TcpSocket.cancelRead, TcpSocket.cancelWrite]

/-- The socket has reported an error, and the callback of the tunnel releases it. -/
theorem releaseTunnel_set (alive : t.released = false) :
    ∃ t', ({ t.set side socket with timer := true } : TcpTunnel).releaseTunnel = .ok t' ∧ Released t' :=
  @releaseTunnel_ok { t.set side socket with timer := true } alive

theorem resetTimer_ok (alive : t.released = false) : t.resetTimer = .ok { t with timer := true } := by
  simp [TcpTunnel.resetTimer, alive_ok alive]

/-- The socket has reported, and the callback of the tunnel restarts the timer. -/
theorem resetTimer_set (alive : t.released = false) :
    (t.set side socket).resetTimer = .ok { t.set side socket with timer := true } :=
  resetTimer_ok alive

theorem checkTunnelStatus_stays (alive : t.released = false)
    (running : (t.flow side).stateMachine.state ≠ .closed) : t.checkTunnelStatus = .ok t := by
  rw [TcpTunnel.checkTunnelStatus, alive_ok alive]
  cases side <;> simp [running]

theorem checkTunnelStatus_releases (alive : t.released = false)
    (closed : ∀ side, (t.flow side).stateMachine.state = .closed) :
    ∃ t', t.checkTunnelStatus = .ok t' ∧ Released t' := by
  rw [TcpTunnel.checkTunnelStatus, alive_ok alive]
  simp only [ok_bind, closed, and_self, if_true]
  exact releaseTunnel_ok alive

/-- The head of `ForwardLocal` and `ForwardRemote` goes on with the tunnel it was
given. -/
theorem forward_ok {type type' : FlowType} {write : WriteHalf} {read : ReadHalf}
    (alive : t.released = false) (source : (t.flow side).Established type .idle write)
    (target : (t.flow side.other).Established type' read .idle) :
    ∃ socket, t.forward side = .ok (t.set side socket) ∧ socket.Established type .busy write := by
  have running : (t.flow side).stateMachine.state ≠ .closed := by
    rw [source.state]
    simp
  obtain ⟨socket, begun, established⟩ := source.beginRead
  refine ⟨socket, ?_, established⟩
  rw [TcpTunnel.forward, checkTunnelStatus_stays alive running]
  simp only [ok_bind, alive_ok alive, boostAssert_of (source.isReadable.mpr rfl),
    boostAssert_of (target.isWritable.mpr rfl), begun, pure_eq_ok]

theorem complete_reported {callback : TcpSocket → Checked (TcpSocket × TcpSocket.Report)}
    {handler : TcpSocket.ErrorCode → TcpTunnel → Checked TcpTunnel} {ec : TcpSocket.ErrorCode}
    (called : callback (t.flow side) = .ok (socket, some ec)) :
    t.complete side callback handler = handler ec (t.set side socket) := by
  simp [TcpTunnel.complete, called]

/-! ## One callback -/

variable {past : List Event} {phase : Side → Relay}

/-- One direction moves on. -/
theorem Forwarding.advance {e : Event} (side : Side) (next : Relay)
    (forwarding : Forwarding past t phase) {t' : TcpTunnel} (alive : t'.released = false)
    (source : Serves (t'.flow side) side (Function.update phase side next))
    (target : Serves (t'.flow side.other) side.other (Function.update phase side next))
    (unfinished : next ≠ .ended ∨ phase side.other ≠ .ended) (noError : ¬IsError e)
    (halfClosed : ∀ s ec, e = .writeClosed s ec → s.other = side ∧ next = .ended)
    (forward : phase side ≠ .ended) : Inv (past ++ [e]) t' := by
  refine Or.inl ⟨Function.update phase side next, alive, forall_sides side source target, ?_, ?_, ?_⟩
  · rcases unfinished with here | there
    · exact ⟨side, by simpa using here⟩
    · exact ⟨side.other, by simpa using there⟩
  · intro e' member
    rcases List.mem_append.mp member with earlier | last
    · exact forwarding.noError e' earlier
    · rw [List.mem_singleton.mp last]
      exact noError
  · rintro s ⟨ec, member⟩
    rcases List.mem_append.mp member with earlier | last
    · have ended := forwarding.halfClosed s ⟨ec, earlier⟩
      have other : s.other ≠ side := by
        rintro rfl
        exact forward ended
      rw [Function.update_of_ne other]
      exact ended
    · obtain ⟨rfl, rfl⟩ := halfClosed s ec (List.mem_singleton.mp last).symm
      simp

theorem read_busy {relay : Relay} (busy : relay.source = .busy) : relay = .reading := by
  cases relay <;> first | rfl | cases busy

theorem write_busy {relay : Relay} (busy : relay.target = .busy) : relay = .writing := by
  cases relay <;> first | rfl | cases busy

theorem write_closing {relay : Relay} (closing : relay.target = .closing) : relay = .closing := by
  cases relay <;> first | rfl | cases closing

@[simp] theorem target_closed {relay : Relay} : relay.target = .closed ↔ relay = .ended := by
  cases relay <;> simp [Relay.target]

theorem serves_eq (socket : TcpSocket) (side : Side) (phase : Side → Relay) :
    Serves socket side phase ↔
      socket.Established (flowType side) (phase side).source (phase side.other).target := Iff.rfl

theorem Forwarding.readDone (forwarding : Forwarding past t phase) (ec : TcpSocket.ErrorCode)
    (admits : (t.flow side).read.isSome = true) :
    ∃ t', step (.readDone side ec) t = .ok t' ∧ Inv (past ++ [.readDone side ec]) t' := by
  have serves := forwarding.serves side
  have reading := read_busy (serves.read_isSome.mp admits)
  rw [serves_eq, reading] at serves
  have target := forwarding.serves side.other
  rw [serves_eq, side_other_other, reading] at target
  have notEnded : phase side ≠ .ended := by simp [reading]
  cases ec with
  | none =>
    obtain ⟨socket, called, source⟩ := serves.onRead_data
    obtain ⟨writer, begun, written⟩ := target.beginWrite
    refine ⟨({ t.set side socket with timer := true }).set side.other writer, ?_, ?_⟩
    · rw [step, complete_reported called, TcpTunnel.onRead, resetTimer_set forwarding.alive]
      simp [begun]
    · refine forwarding.advance side .writing forwarding.alive ?_ ?_ (Or.inl (by simp))
        id (by simp) notEnded
      · simpa [Serves, Relay.source] using source
      · simpa [Serves, Relay.target] using written
  | some error =>
    cases error with
    | endOfFile =>
      obtain ⟨socket, called, source⟩ := serves.onRead_eof
      obtain ⟨writer, begun, closing⟩ := target.closeWrite
      have closable : (t.flow side.other).stateMachine.isWriteClosable = true :=
        target.isWritable.mpr rfl
      refine ⟨({ t.set side socket with timer := true }).set side.other writer, ?_, ?_⟩
      · rw [step, complete_reported called, TcpTunnel.onRead, resetTimer_set forwarding.alive]
        simp [closable, begun]
      · refine forwarding.advance side .closing forwarding.alive ?_ ?_
          (Or.inl (by simp)) id (by simp) notEnded
        · simpa [Serves, Relay.source] using source
        · simpa [Serves, Relay.target] using closing
    | other =>
      obtain ⟨socket, called, -⟩ := serves.onRead_error
      obtain ⟨t', released, inv⟩ := @releaseTunnel_set t side socket forwarding.alive
      refine ⟨t', ?_, Or.inr inv⟩
      rw [step, complete_reported called, TcpTunnel.onRead, resetTimer_set forwarding.alive]
      exact released

theorem Forwarding.writeDone (forwarding : Forwarding past t phase) (ec : TcpSocket.ErrorCode)
    (admits : (t.flow side).write.map TcpSocket.OwedWrite.kind = some .write) :
    ∃ t', step (.writeDone side ec) t = .ok t' ∧ Inv (past ++ [.writeDone side ec]) t' := by
  have serves := forwarding.serves side
  have writing := write_busy ((serves.write_kind .write).mp admits)
  rw [serves_eq, writing] at serves
  have source := forwarding.serves side.other
  rw [serves_eq, side_other_other, writing] at source
  have notEnded : phase side.other ≠ .ended := by simp [writing]
  cases ec with
  | none =>
    obtain ⟨socket, called, written⟩ := serves.onWritten_ok
    obtain ⟨reader, forwarded, reading⟩ := @forward_ok { t.set side socket with timer := true }
      side.other _ _ _ _ forwarding.alive (by simpa [Relay.source] using source)
      (by simpa [Relay.target] using written)
    refine ⟨({ t.set side socket with timer := true } : TcpTunnel).set side.other reader, ?_, ?_⟩
    · rw [step, complete_reported called, TcpTunnel.onWritten, resetTimer_set forwarding.alive]
      exact forwarded
    · refine forwarding.advance side.other .reading forwarding.alive ?_ ?_
        (Or.inl (by simp)) id (by simp) notEnded
      · simpa [Serves, Relay.source] using reading
      · simpa [Serves, Relay.target] using written
  | some error =>
    obtain ⟨socket, called, -⟩ := serves.onWritten_error error
    obtain ⟨t', released, inv⟩ := @releaseTunnel_set t side socket forwarding.alive
    refine ⟨t', ?_, Or.inr inv⟩
    rw [step, complete_reported called, TcpTunnel.onWritten, resetTimer_set forwarding.alive]
    exact released

theorem Forwarding.writeClosed (forwarding : Forwarding past t phase) (ec : TcpSocket.ErrorCode)
    (admits : (t.flow side).write.map TcpSocket.OwedWrite.kind = some .closeWrite) :
    ∃ t', step (.writeClosed side ec) t = .ok t' ∧ Inv (past ++ [.writeClosed side ec]) t' := by
  have serves := forwarding.serves side
  have closing := write_closing ((serves.write_kind .closeWrite).mp admits)
  rw [serves_eq, closing] at serves
  have source := forwarding.serves side.other
  rw [serves_eq, side_other_other, closing] at source
  have notEnded : phase side.other ≠ .ended := by simp [closing]
  obtain ⟨socket, called, closed⟩ := serves.onWriteClosed ec
  have stepped : step (.writeClosed side ec) t =
      ({ t.set side socket with timer := true } : TcpTunnel).checkTunnelStatus := by
    rw [step, complete_reported called, TcpTunnel.onWriteClosed, resetTimer_set forwarding.alive]
    rfl
  rw [stepped]
  by_cases last : phase side = .ended
  · -- the other direction has ended before: both sockets are closed
    rw [last] at closed source
    obtain ⟨t', released, inv⟩ := @checkTunnelStatus_releases
      { t.set side socket with timer := true } forwarding.alive
      (forall_sides side (by simp [closed.state, Relay.source])
        (by simp [source.state, Relay.source, Relay.target]))
    exact ⟨t', released, Or.inr inv⟩
  · refine ⟨_, @checkTunnelStatus_stays _ side.other forwarding.alive ?_, ?_⟩
    · simp only [set_flow_other, source.state]
      simpa [Relay.source] using last
    · refine forwarding.advance side.other .ended forwarding.alive ?_ ?_
        (Or.inr (by simpa using last)) id ?_ notEnded
      · simpa [Serves, Relay.source] using source
      · simpa [Serves, Relay.target] using closed
      · rintro s ec' ⟨⟩
        exact ⟨rfl, rfl⟩

theorem Forwarding.timeout (forwarding : Forwarding past t phase) :
    ∃ t', step .timeout t = .ok t' ∧ Inv (past ++ [.timeout]) t' := by
  by_cases armed : t.timer = true
  · obtain ⟨t', released, inv⟩ := @releaseTunnel_ok { t with timer := false } forwarding.alive
    refine ⟨t', ?_, Or.inr inv⟩
    rw [step, if_pos armed]
    exact released
  · refine ⟨t, by rw [step, if_neg armed], Or.inl ⟨phase, ?_⟩⟩
    refine { forwarding with noError := ?_, halfClosed := ?_ }
    · intro e member
      rcases List.mem_append.mp member with earlier | last
      · exact forwarding.noError e earlier
      · rw [List.mem_singleton.mp last]
        exact id
    · rintro s ⟨ec, member⟩
      rcases List.mem_append.mp member with earlier | last
      · exact forwarding.halfClosed s ⟨ec, earlier⟩
      · cases List.mem_singleton.mp last

/-- A socket of a released tunnel that owes nothing but cancelled callbacks. -/
theorem Released.set (released : Released t) (read : ∀ owed ∈ socket.read, owed.canceled = true)
    (write : ∀ owed ∈ socket.write, owed.canceled = true) : Released (t.set side socket) where
  released := released.released
  timer := released.timer
  canceled := forall_sides side (by simpa using ⟨read, write⟩)
    (by simpa using released.canceled side.other)

/-- A callback that is not reported leaves the tunnel alone. -/
theorem complete_canceled {callback : TcpSocket → Checked (TcpSocket × TcpSocket.Report)}
    {handler : TcpSocket.ErrorCode → TcpTunnel → Checked TcpTunnel}
    (called : callback (t.flow side) = .ok (socket, none)) :
    t.complete side callback handler = .ok (t.set side socket) := by
  simp [TcpTunnel.complete, called]

theorem Released.step {e : Event} (released : Released t) (admits : Admits e t) :
    ∃ t', step e t = .ok t' ∧ Released t' := by
  cases e with
  | readDone side ec =>
    obtain ⟨read, write⟩ := released.canceled side
    exact ⟨_, complete_canceled (TcpSocket.onRead_canceled ec admits read),
      released.set (by simp) write⟩
  | writeDone side ec =>
    obtain ⟨read, write⟩ := released.canceled side
    exact ⟨_, complete_canceled (TcpSocket.onWritten_canceled ec (TcpSocket.isSome_of_kind admits) write),
      released.set read (by simp)⟩
  | writeClosed side ec =>
    obtain ⟨read, write⟩ := released.canceled side
    exact ⟨_, complete_canceled (TcpSocket.onWriteClosed_canceled ec (TcpSocket.isSome_of_kind admits) write),
      released.set read (by simp)⟩
  | timeout => exact ⟨t, by simp [TcpTunnel.step, released.timer], released⟩

/-! ## Runs -/

theorem inv_step (past : List Event) (e : Event) (t : TcpTunnel) (inv : Inv past t)
    (admits : machine.admits e t) : ∃ t', machine.step e t = .ok t' ∧ Inv (past ++ [e]) t' := by
  rcases inv with ⟨phase, forwarding⟩ | released
  · cases e with
    | readDone side ec => exact forwarding.readDone ec admits
    | writeDone side ec => exact forwarding.writeDone ec admits
    | writeClosed side ec => exact forwarding.writeClosed ec admits
    | timeout => exact forwarding.timeout
  · obtain ⟨t', stepped, stays⟩ := released.step admits
    exact ⟨t', stepped, Or.inr stays⟩

/-- The sockets at `BeginForward`: one that was opened and continued, and one that
was connected. -/
theorem start_established (side : Side) :
    (start.flow side).Established (flowType side) .idle .idle := by
  cases side <;> exact ⟨rfl, rfl, rfl, rfl⟩

example : (do
      let s ← TcpSocket.accepted.open
      let s ← (← s.onOpened).1.continue
      return (← s.onContinued).1 : Checked TcpSocket) = .ok (start.flow .local) := by decide

example : (do return (← (← TcpSocket.unconnected.connect).onConnected none).1 : Checked TcpSocket) =
    .ok (start.flow .remote) := by decide

theorem beginForward_ok : ∃ t, start.beginForward = .ok t ∧ Inv [] t := by
  obtain ⟨reader, begun, reading⟩ := @forward_ok start .local _ _ _ _ rfl (start_established .local)
    (start_established .remote)
  obtain ⟨reader', begun', reading'⟩ := @forward_ok (start.set .local reader) .remote _ _ _ _ rfl
    (start_established .remote) reading
  refine ⟨(start.set .local reader).set .remote reader', ?_,
    Or.inl ⟨fun _ => .reading, rfl, forall_sides .local reading reading', ⟨.local, by simp⟩, by simp,
      by rintro side ⟨ec, member⟩; cases member⟩⟩
  rw [TcpTunnel.beginForward, TcpTunnel.forwardLocal, begun]
  exact begun'

/-- What is promised when `events` have led to `t`. -/
structure Promise (events : List Event) (t : TcpTunnel) : Prop where
  afterError : (∃ e ∈ events, IsError e) → t.released = true
  afterBoth : (∀ side, Event.readDone side (some .endOfFile) ∈ events ∧ HalfClosed events side) →
    t.released = true

theorem Inv.promise {events : List Event} (inv : Inv events t) : Promise events t := by
  rcases inv with ⟨phase, forwarding⟩ | released
  · constructor
    · rintro ⟨e, member, error⟩
      exact absurd error (forwarding.noError e member)
    · intro both
      obtain ⟨side, running⟩ := forwarding.unfinished
      have ended := forwarding.halfClosed side.other (both side.other).2
      rw [side_other_other] at ended
      exact absurd ended running
  · exact ⟨fun _ => released.released, fun _ => released.released⟩

/-- From `BeginForward` on every run succeeds: no assertion fails, the tunnel is
released once at most and not used afterwards. It has been released when an error was
reported, and when both directions have ended. -/
theorem tunnel_released_when_it_should :
    ∃ t₀, start.beginForward = .ok t₀ ∧ ∀ events, machine.Admitted events t₀ →
      ∃ t, machine.run events t₀ = .ok t ∧ Promise events t := by
  obtain ⟨t₀, begun, inv⟩ := beginForward_ok
  refine ⟨t₀, begun, fun events admitted => ?_⟩
  obtain ⟨t, ran, inv⟩ := Machine.run_history inv_step events [] t₀ inv admitted
  exact ⟨t, ran, inv.promise⟩

/-- Data one way, then EOF and the half-close of both directions. -/
def bothEnd : List Event :=
  [.readDone .local none, .writeDone .remote none, .readDone .local (some .endOfFile),
    .readDone .remote (some .endOfFile), .writeClosed .local none, .writeClosed .remote none]

theorem tunnel_released_when_it_should_bothEnd :
    ∃ t₀ t, start.beginForward = .ok t₀ ∧ machine.run bothEnd t₀ = .ok t ∧ Promise bothEnd t := by
  obtain ⟨t₀, begun, runs⟩ := tunnel_released_when_it_should
  have admitted : machine.Admitted bothEnd t₀ := by
    obtain rfl := Except.ok.inj begun
    decide
  obtain ⟨t, ran, promise⟩ := runs bothEnd admitted
  exact ⟨t₀, t, begun, ran, promise⟩

end LibNekit.Guarantees.TunnelRelease
