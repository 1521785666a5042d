import LibNekit.Source.Buffer.WellFormed
import LibNekit.Source.Transport.Tunnel

/-!
# The tunnel relays each direction faithfully

Each direction is in one of three phases: a `Read` is outstanding, the Buffer it
delivered is being written, or EOF has been seen. The phases of the two directions
never share a counter, so an interleaving of completions is a sequence of phase
changes of one direction or the other.
-/
namespace LibNekit.Guarantees.TunnelRelay

open LibNekit.Source LibNekit.Library LibNekit.Source.Tunnel

/-- What is promised at every moment for the data read from `source` and written
to `target`. -/
structure Faithful (source target : Flow) : Prop where
  inOrder : target.passed.flatMap Buffer.content <+: source.delivered.flatMap Buffer.content
  missing : ∃ handed, handed.length ≤ 1 ∧ source.delivered = target.passed ++ handed
  oneRead : source.reads ≤ 1
  oneWrite : target.writes.length + target.closes ≤ 1
  halfClose : target.halfClosed = true → source.eof = true ∧ target.written = source.delivered

/-- The phases of one direction. -/
inductive Phase (source target : Flow) : Prop where
  | reading (reads : source.reads = 1) (writes : target.writes = []) (closes : target.closes = 0)
      (flowing : source.eof = false ∧ target.halfClosed = false)
  | writing (reads : source.reads = 0) (buffer : Buffer) (writes : target.writes = [buffer])
      (closes : target.closes = 0) (flowing : source.eof = false ∧ target.halfClosed = false)
  | ended (reads : source.reads = 0) (writes : target.writes = []) (closes : target.closes ≤ 1)
      (eof : source.eof = true)

/-- One direction while forwarding. -/
structure Relaying (source target : Flow) : Prop where
  passed : target.passed = source.delivered
  written : target.passed = target.written ++ target.writes
  phase : Phase source target

/-- One direction before `BeginForward`. -/
structure Idle (source target : Flow) : Prop where
  passed : target.passed = source.delivered
  written : target.passed = target.written
  reads : source.reads = 0
  writes : target.writes = []
  closes : target.closes = 0
  flowing : source.eof = false ∧ target.halfClosed = false

theorem faithful_of_passed {source target : Flow} (passed : target.passed = source.delivered)
    (oneRead : source.reads ≤ 1) (oneWrite : target.writes.length + target.closes ≤ 1)
    (halfClose : target.halfClosed = true → source.eof = true ∧ target.written = source.delivered) :
    Faithful source target where
  inOrder := passed ▸ List.prefix_refl _
  missing := ⟨[], by simp, by simp [passed]⟩
  oneRead := oneRead
  oneWrite := oneWrite
  halfClose := halfClose

theorem Relaying.faithful {source target : Flow} (relaying : Relaying source target) :
    Faithful source target := by
  obtain ⟨passed, written, phase⟩ := relaying
  cases phase with
  | reading reads writes closes flowing =>
    exact faithful_of_passed passed (by omega) (by simp [writes, closes]) (by simp [flowing.2])
  | writing reads buffer writes closes flowing =>
    exact faithful_of_passed passed (by omega) (by simp [writes, closes]) (by simp [flowing.2])
  | ended reads writes closes eof =>
    refine faithful_of_passed passed (by omega) (by simpa [writes] using closes) fun _ => ⟨eof, ?_⟩
    rw [← passed, written, writes, List.append_nil]

theorem Idle.faithful {source target : Flow} (idle : Idle source target) :
    Faithful source target :=
  faithful_of_passed idle.passed (by simp [idle.reads]) (by simp [idle.writes, idle.closes])
    (by simp [idle.flowing.2])

/-- The invariant: both directions, in the form the stage calls for. -/
def Inv (t : Tunnel) : Prop :=
  match t.stage with
  | .opening | .matching | .connecting | .continuing => ∀ s, Idle (t.flow s) (t.flow s.other)
  | .forwarding => ∀ s, Relaying (t.flow s) (t.flow s.other)
  | .released => ∀ s, Faithful (t.flow s) (t.flow s.other)

theorem Inv.faithful {t : Tunnel} (inv : Inv t) (s : Side) : Faithful (t.flow s) (t.flow s.other) := by
  unfold Inv at inv
  split at inv
  all_goals first
    | exact (inv s).faithful
    | exact inv s

theorem inv_released {t : Tunnel} (faithful : ∀ s, Faithful (t.flow s) (t.flow s.other)) :
    Inv t.releaseTunnel := faithful

theorem inv_idle {t : Tunnel} (early : t.stage ≠ .forwarding ∧ t.stage ≠ .released) :
    Inv t ↔ ∀ s, Idle (t.flow s) (t.flow s.other) := by
  unfold Inv
  split <;> simp_all

theorem inv_forwarding {t : Tunnel} (stage : t.stage = .forwarding) :
    Inv t ↔ ∀ s, Relaying (t.flow s) (t.flow s.other) := by
  simp [Inv, stage]

/-! ## Field updates -/

@[simp] theorem set_stage (t : Tunnel) (s : Side) (f : Flow) : (t.set s f).stage = t.stage := rfl

@[simp] theorem set_flow_same (t : Tunnel) (s : Side) (f : Flow) : (t.set s f).flow s = f := by
  simp [Tunnel.set]

@[simp] theorem set_flow_other (t : Tunnel) (s : Side) (f : Flow) :
    (t.set s f).flow s.other = t.flow s.other := by
  cases s <;> simp [Tunnel.set, Side.other]

@[simp] theorem set_other_flow (t : Tunnel) (s : Side) (f : Flow) :
    (t.set s.other f).flow s = t.flow s := by
  cases s <;> simp [Tunnel.set, Side.other]

@[simp] theorem other_other (s : Side) : s.other.other = s := by cases s <;> rfl

/-- Both directions, one of them named. -/
theorem forall_side {P : Side → Prop} (s : Side) : (∀ d, P d) ↔ P s ∧ P s.other := by
  constructor
  · exact fun all => ⟨all s, all s.other⟩
  · rintro ⟨here, there⟩ d
    cases s <;> cases d
    all_goals first
      | exact here
      | exact there

/-! ## One direction -/

/-- A direction reads the source fields of one flow and the target fields of the
other. -/
theorem Relaying.congr {source target source' target' : Flow} (h : Relaying source target)
    (sameSource : source'.delivered = source.delivered ∧ source'.reads = source.reads ∧
      source'.eof = source.eof)
    (sameTarget : target'.passed = target.passed ∧ target'.written = target.written ∧
      target'.writes = target.writes ∧ target'.closes = target.closes ∧
      target'.halfClosed = target.halfClosed) : Relaying source' target' := by
  obtain ⟨delivered, reads, eof⟩ := sameSource
  obtain ⟨passed, written, writes, closes, halfClosed⟩ := sameTarget
  refine ⟨by rw [passed, delivered, h.passed], by rw [passed, written, writes, h.written], ?_⟩
  cases h.phase with
  | reading r w c f =>
    exact .reading (reads.trans r) (writes.trans w) (closes.trans c) ⟨eof.trans f.1, halfClosed.trans f.2⟩
  | writing r b w c f =>
    exact .writing (reads.trans r) b (writes.trans w) (closes.trans c)
      ⟨eof.trans f.1, halfClosed.trans f.2⟩
  | ended r w c e => exact .ended (reads.trans r) (writes.trans w) (closes ▸ c) (eof.trans e)

theorem Idle.congr {source target source' target' : Flow} (h : Idle source target)
    (sameSource : source'.delivered = source.delivered ∧ source'.reads = source.reads ∧
      source'.eof = source.eof)
    (sameTarget : target'.passed = target.passed ∧ target'.written = target.written ∧
      target'.writes = target.writes ∧ target'.closes = target.closes ∧
      target'.halfClosed = target.halfClosed) : Idle source' target' := by
  obtain ⟨delivered, reads, eof⟩ := sameSource
  obtain ⟨passed, written, writes, closes, halfClosed⟩ := sameTarget
  exact ⟨by rw [passed, delivered, h.passed], by rw [passed, written, h.written], reads.trans h.reads,
    writes.trans h.writes, closes.trans h.closes, ⟨eof.trans h.flowing.1, halfClosed.trans h.flowing.2⟩⟩

/-- An outstanding `Read` means the direction is reading. -/
theorem Relaying.is_reading {source target : Flow} (h : Relaying source target)
    (outstanding : 0 < source.reads) : source.reads = 1 ∧ target.writes = [] ∧ target.closes = 0 ∧
      source.eof = false ∧ target.halfClosed = false := by
  cases h.phase with
  | reading reads writes closes flowing => exact ⟨reads, writes, closes, flowing⟩
  | writing reads | ended reads => omega

/-- An outstanding `Write` means the direction is writing. -/
theorem Relaying.is_writing {source target : Flow} (h : Relaying source target)
    (outstanding : target.writes ≠ []) : source.reads = 0 ∧ (∃ buffer, target.writes = [buffer]) ∧
      target.closes = 0 ∧ source.eof = false ∧ target.halfClosed = false := by
  cases h.phase with
  | reading reads writes => exact absurd writes outstanding
  | writing reads buffer writes closes flowing => exact ⟨reads, ⟨buffer, writes⟩, closes, flowing⟩
  | ended reads writes => exact absurd writes outstanding

/-- A delivered Buffer is passed on. -/
theorem Relaying.data {source target : Flow} (h : Relaying source target)
    (outstanding : 0 < source.reads) (buffer : Buffer) :
    Relaying (source.readDone (.data buffer)) (target.write buffer) := by
  obtain ⟨reads, writes, closes, flowing⟩ := h.is_reading outstanding
  refine ⟨by simp [Flow.write, Flow.readDone, h.passed], by simp [Flow.write, h.written], ?_⟩
  exact .writing (by simp [Flow.readDone, reads]) buffer (by simp [Flow.write, writes])
    (by simp [Flow.write, closes]) (by simpa [Flow.write, Flow.readDone] using flowing)

/-- EOF ends the direction, with or without a half-close. -/
theorem Relaying.ended {source target target' : Flow} (h : Relaying source target)
    (outstanding : 0 < source.reads)
    (closed : target' = target ∨ target' = target.closeWrite) :
    Relaying (source.readDone .eof) target' := by
  obtain ⟨reads, writes, closes, -⟩ := h.is_reading outstanding
  have passed := h.passed
  have written := h.written
  rcases closed with rfl | rfl
  · exact ⟨passed, written, .ended (by simp [Flow.readDone, reads]) writes (by omega) rfl⟩
  · exact ⟨passed, written, .ended (by simp [Flow.readDone, reads]) writes
      (by simp [Flow.closeWrite, closes]) rfl⟩

/-- A failed `Read` leaves the record as it is. -/
theorem Relaying.readError {source target : Flow} (h : Relaying source target)
    (outstanding : 0 < source.reads) : Faithful (source.readDone .error) target := by
  obtain ⟨reads, writes, closes, -, notClosed⟩ := h.is_reading outstanding
  exact faithful_of_passed h.passed (by simp [Flow.readDone, reads]) (by simp [writes, closes])
    (by simp [notClosed])

/-- A finished `Write` is recorded and the next `Read` is issued. -/
theorem Relaying.resumed {source target : Flow} (h : Relaying source target)
    (outstanding : target.writes ≠ []) : Relaying source.read (target.writeDone true) := by
  obtain ⟨reads, ⟨buffer, writes⟩, closes, flowing⟩ := h.is_writing outstanding
  refine ⟨h.passed, by simp [Flow.writeDone, h.written, writes], ?_⟩
  exact .reading (by simp [Flow.read, reads]) (by simp [Flow.writeDone, writes]) closes flowing

theorem Relaying.writeError {source target : Flow} (h : Relaying source target)
    (outstanding : target.writes ≠ []) : Faithful source (target.writeDone false) := by
  obtain ⟨reads, ⟨buffer, writes⟩, closes, -, notClosed⟩ := h.is_writing outstanding
  exact faithful_of_passed h.passed (by omega) (by simp [Flow.writeDone, writes, closes])
    (by simp [Flow.writeDone, notClosed])

theorem Relaying.closeDone {source target : Flow} (h : Relaying source target)
    (outstanding : 0 < target.closes) : Relaying source target.closeDone := by
  have passed := h.passed
  have written := h.written
  cases h.phase with
  | reading _ _ closes | writing _ _ _ closes => omega
  | ended reads writes closes eof =>
    exact ⟨passed, written, .ended reads writes (by simp [Flow.closeDone]; omega) eof⟩

/-- `BeginForward` issues the first `Read`. -/
theorem Idle.started {source target : Flow} (h : Idle source target) : Relaying source.read target :=
  ⟨h.passed, by rw [h.written, h.writes, List.append_nil],
    .reading (by simp [Flow.read, h.reads]) h.writes h.closes h.flowing⟩

/-! ## One step of the tunnel -/

theorem inv_check {t : Tunnel} (inv : Inv t) :
    Inv t.checkTunnelStatus := by
  unfold checkTunnelStatus
  split
  · exact inv_released inv.faithful
  · exact inv

/-- `ForwardLocal` or `ForwardRemote` while one of the flows is not closed: only its
assertions can fail. -/
theorem forward_eq {t : Tunnel} (source : Side) (forwarding : t.stage = .forwarding)
    (alive : (t.flow .local).machine.state ≠ .closed ∨ (t.flow .remote).machine.state ≠ .closed) :
    forward source t = .error .assertion ∨
      forward source t = .ok (t.set source (t.flow source).read) := by
  have status : t.checkTunnelStatus = t := by
    unfold checkTunnelStatus
    rw [if_neg]
    tauto
  unfold forward boostAssert
  simp only [status, forwarding, reduceCtorEq, if_false]
  by_cases readable : (t.flow source).machine.isReadable
  · by_cases writable : (t.flow source.other).machine.isWritable
    · right
      simp [readable, writable]
    · left
      simp [readable, writable]
  · left
    simp [readable]

/-- What the completion of a step is: an assertion of the tunnel, or a state that
keeps the invariant. -/
def Keeps (result : Checked Tunnel) : Prop :=
  (∃ fault, result = .error fault ∧ fault = .assertion) ∨ ∃ t, result = .ok t ∧ Inv t

theorem keeps_readDone {t : Tunnel} {s : Side} (result : ReadResult) (inv : Inv t)
    (forwarding : t.stage = .forwarding) (outstanding : 0 < (t.flow s).reads) :
    Inv ((t.set s ((t.flow s).readDone result)).onRead s result) := by
  have both := (forall_side s).mp ((inv_forwarding forwarding).mp inv)
  rw [other_other] at both
  obtain ⟨here, there⟩ := both
  cases result with
  | data buffer =>
    refine (inv_forwarding (by simpa [onRead] using forwarding)).mpr ((forall_side s).mpr ⟨?_, ?_⟩)
    · simpa [onRead] using here.data outstanding buffer
    · simpa [onRead] using there.congr (by simp [Flow.write]) (by simp [Flow.readDone])
  | eof =>
    simp only [onRead, set_flow_other]
    split
    · refine (inv_forwarding (by simpa using forwarding)).mpr ((forall_side s).mpr ⟨?_, ?_⟩)
      · simpa using here.ended outstanding (Or.inr rfl)
      · simpa using there.congr (by simp [Flow.closeWrite]) (by simp [Flow.readDone])
    · refine inv_check
        ((inv_forwarding (by simpa using forwarding)).mpr ((forall_side s).mpr ⟨?_, ?_⟩))
      · simpa using here.ended outstanding (Or.inl rfl)
      · simpa using there.congr (by simp) (by simp [Flow.readDone])
  | error =>
    refine inv_released ((forall_side s).mpr ⟨?_, ?_⟩)
    · simpa using here.readError outstanding
    · simpa using (there.congr (by simp) (by simp [Flow.readDone])).faithful

theorem keeps_writeDone {t : Tunnel} {s : Side} (success : Bool) (inv : Inv t)
    (forwarding : t.stage = .forwarding) (outstanding : (t.flow s).writes ≠ [])
    (alive : success = true → (t.flow s).machine.state ≠ .closed) :
    Keeps ((t.set s ((t.flow s).writeDone success)).onWritten s success) := by
  have both := (forall_side s).mp ((inv_forwarding forwarding).mp inv)
  rw [other_other] at both
  obtain ⟨back, into⟩ := both
  cases success with
  | false =>
    refine Or.inr ⟨_, rfl, inv_released ((forall_side s).mpr ⟨?_, ?_⟩)⟩
    · simpa using (back.congr (by simp [Flow.writeDone]) (by simp)).faithful
    · simpa using into.writeError outstanding
  | true =>
    -- The next `Read` is issued on the other flow.
    have resumed : onWritten s true (t.set s ((t.flow s).writeDone true)) =
        forward s.other (t.set s ((t.flow s).writeDone true)) := by cases s <;> rfl
    have open_flow : ((t.set s ((t.flow s).writeDone true)).flow s).machine.state ≠ .closed := by
      simpa [Flow.writeDone] using alive rfl
    rw [resumed]
    rcases forward_eq (t := t.set s ((t.flow s).writeDone true)) s.other (by simpa using forwarding)
      (by cases s; exacts [Or.inl open_flow, Or.inr open_flow]) with failed | went
    · exact Or.inl ⟨_, failed, rfl⟩
    · refine Or.inr ⟨_, went, (inv_forwarding (by simpa using forwarding)).mpr
        ((forall_side s).mpr ⟨?_, ?_⟩)⟩
      · simpa using back.congr (by simp [Flow.writeDone]) (by simp [Flow.read])
      · simpa using into.resumed outstanding

theorem keeps_beginForward {t : Tunnel} (idle : ∀ s, Idle (t.flow s) (t.flow s.other))
    (forwarding : t.stage = .forwarding) (alive : (t.flow .local).machine.state ≠ .closed) :
    Keeps (beginForward t) := by
  unfold beginForward forwardLocal forwardRemote
  rcases forward_eq .local forwarding (Or.inl alive) with failed | went
  · exact Or.inl ⟨_, by rw [failed]; rfl, rfl⟩
  rw [went, ok_bind]
  rcases forward_eq (t := t.set .local (t.flow .local).read) .remote (by simpa using forwarding)
    (Or.inl (by simpa [Flow.read] using alive)) with failed | went'
  · exact Or.inl ⟨_, failed, rfl⟩
  · refine Or.inr ⟨_, went', (inv_forwarding (by simpa using forwarding)).mpr
      ((forall_side .local).mpr ⟨?_, ?_⟩)⟩
    · have started := (idle .local).started
      simpa [Tunnel.set, Side.other] using started.congr (by simp) (by simp [Flow.read, Side.other])
    · have started := (idle .remote).started
      simpa [Tunnel.set, Side.other] using started.congr (by simp) (by simp [Flow.read, Side.other])

theorem keeps_proceed {t : Tunnel} (success : Bool) {next : Stage} (inv : Inv t)
    (early : t.stage ≠ .forwarding ∧ t.stage ≠ .released)
    (earlyNext : next ≠ .forwarding ∧ next ≠ .released) : Inv (t.proceed success next) := by
  unfold proceed
  split
  · exact (inv_idle earlyNext).mpr ((inv_idle early).mp inv)
  · exact inv_released inv.faithful

theorem keeps_expose {t : Tunnel} (s : Side) (machine : FlowStateMachine) (inv : Inv t)
    (live : t.stage ≠ .released) : Inv (t.set s { t.flow s with machine }) := by
  by_cases forwarding : t.stage = .forwarding
  · have both := (forall_side s).mp ((inv_forwarding forwarding).mp inv)
    rw [other_other] at both
    refine (inv_forwarding (by simpa using forwarding)).mpr ((forall_side s).mpr ⟨?_, ?_⟩)
    · simpa using both.1.congr (by simp) (by simp)
    · simpa using both.2.congr (by simp) (by simp)
  · have both := (forall_side s).mp ((inv_idle ⟨forwarding, live⟩).mp inv)
    rw [other_other] at both
    refine (inv_idle (by simpa using ⟨forwarding, live⟩)).mpr ((forall_side s).mpr ⟨?_, ?_⟩)
    · simpa using both.1.congr (by simp) (by simp)
    · simpa using both.2.congr (by simp) (by simp)

/-- Every event the contract allows. -/
theorem step_keeps {t : Tunnel} {event : Event} (inv : Inv t) (contract : Contract event t) :
    Keeps (step event t) := by
  cases event with
  | opened success | matched success | connected success =>
    have stage : t.stage = _ := contract
    exact Or.inr ⟨_, rfl, keeps_proceed success inv (by simp [stage]) (by simp)⟩
  | continued success =>
    obtain ⟨stage, alive⟩ := contract
    have idle := (inv_idle (by simp [stage])).mp inv
    cases success with
    | false => exact Or.inr ⟨_, rfl, inv_released inv.faithful⟩
    | true => exact keeps_beginForward (t := { t with stage := .forwarding }) idle rfl (alive rfl)
  | readDone s result =>
    exact Or.inr ⟨_, rfl, keeps_readDone result inv contract.1 contract.2⟩
  | writeDone s success =>
    exact keeps_writeDone success inv contract.1 contract.2.1 contract.2.2
  | closeDone s =>
    obtain ⟨forwarding, outstanding⟩ := contract
    have both := (forall_side s).mp ((inv_forwarding forwarding).mp inv)
    rw [other_other] at both
    refine Or.inr ⟨_, rfl, inv_check
      ((inv_forwarding (by simpa using forwarding)).mpr ((forall_side s).mpr ⟨?_, ?_⟩))⟩
    · simpa using both.1.congr (by simp [Flow.closeDone]) (by simp)
    · simpa using both.2.closeDone outstanding
  | timeout => exact Or.inr ⟨_, rfl, inv_released inv.faithful⟩
  | expose s machine => exact Or.inr ⟨_, rfl, keeps_expose s machine inv contract⟩

/-! ## Every run -/

theorem inv_init : Inv Tunnel.init :=
  (inv_idle (by simp [Tunnel.init])).mpr fun s => by
    cases s <;> exact ⟨rfl, rfl, rfl, rfl, rfl, rfl, rfl⟩

/-- For every interleaving of completions that respects the contract, both
directions are relayed faithfully at every moment; a run can only end early in one
of the tunnel's own assertions, never in a callback that outlives the tunnel. -/
theorem tunnel_relays_faithfully (events : List Event)
    (admitted : Tunnel.machine.Admitted events Tunnel.init) :
    (∀ t, Tunnel.machine.run events Tunnel.init = .ok t →
      ∀ s, Faithful (t.flow s) (t.flow s.other)) ∧
    ∀ fault, Tunnel.machine.run events Tunnel.init = .error fault → fault = .assertion := by
  have kept : Keeps (Tunnel.machine.run events Tunnel.init) := by
    apply Machine.run_invariant_upTo (m := Tunnel.machine) _ events _ inv_init admitted
    exact fun event t inv contract => step_keeps inv contract
  rcases kept with ⟨fault, failed, rfl⟩ | ⟨t, ran, inv⟩
  · exact ⟨by simp [failed], by simp [failed]⟩
  · simp only [ran, Except.ok.injEq, forall_eq', reduceCtorEq, false_implies, implies_true, and_true]
    exact inv.faithful

/-- A tunnel is set up, relays one Buffer and sees the client half-close. -/
def relayed : List Event :=
  [.opened true, .matched true, .connected true,
    .expose .local { type := .local, state := .established },
    .expose .remote { type := .remote, state := .established }, .continued true,
    .readDone .local (.data ⟨[⟨0, [1, 2], 0, 2⟩], some 0, 2⟩), .writeDone .remote true,
    .readDone .local .eof]

theorem tunnel_relays_faithfully_relayed :
    ∃ t, Tunnel.machine.run relayed Tunnel.init = .ok t ∧ (t.flow .remote).halfClosed = true ∧
      ∀ s, Faithful (t.flow s) (t.flow s.other) :=
  ⟨_, rfl, rfl, (tunnel_relays_faithfully relayed (by decide +kernel)).1 _ rfl⟩

end LibNekit.Guarantees.TunnelRelay
