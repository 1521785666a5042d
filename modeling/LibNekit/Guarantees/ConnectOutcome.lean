import LibNekit.Guarantees.Socks5EarlyData
import LibNekit.Source.DataFlow.HttpDataFlow
import LibNekit.Source.DataFlow.SpeedDataFlow
import LibNekit.Source.DataFlow.TlsDataFlow
import LibNekit.Source.Transport.TcpSocket

/-!
# What Connect reports and what StateMachine shows

A remote flow that reports success should be Established, readable and writable, and
one that reports an error Closed. TcpSocket and HttpDataFlow keep this. The others
each forget one transition: Socks5DataFlow when it succeeds, TlsDataFlow when the next
hop cannot connect, SpeedDataFlow when the last candidate fails.
-/
namespace LibNekit.Guarantees.ConnectOutcome

open LibNekit.Source LibNekit.Library LibNekit.Guarantees.Socks5EarlyData
open LibNekit.Guarantees.Socks5Encoding LibNekit.Guarantees.Socks5Request

/-- A flow that a tunnel can use. -/
def Ready (machine : FlowStateMachine) : Prop :=
  machine.state = .established ∧ machine.isReadable = true ∧ machine.isWritable = true

/-- The state machine is what the handler was told, if it was told anything. -/
def Agrees (told : Option Bool) (machine : FlowStateMachine) : Prop :=
  match told with
  | none => True
  | some true => Ready machine
  | some false => machine.state = .closed

/-- The machine of a flow from `ConnectBegin()` to the end of `Connect`. -/
abbrev establishing : FlowStateMachine := { type := .remote, state := .establishing }

theorem connectBegin_init {m : FlowStateMachine} (begun : FlowStateMachine.connectBegin { type := .remote } = .ok m) :
    m = establishing := by
  cases begun
  rfl

theorem ready_connected {m : FlowStateMachine} (connected : establishing.connected = .ok m) :
    m = { establishing with state := .established } ∧ Ready m := by
  cases connected
  exact ⟨rfl, rfl, rfl, rfl⟩

/-! ## TcpSocket -/

structure TcpConnect where
  socket : TcpSocket := .unconnected
  told : Option Bool := none
  deriving DecidableEq, Repr

inductive TcpConnect.Event where
  | callConnect
  | connected (ec : TcpSocket.ErrorCode)
  deriving DecidableEq, Repr

def TcpConnect.step : Event → TcpConnect → Checked TcpConnect
  | .callConnect, c => return { c with socket := ← c.socket.connect }
  | .connected ec, c => do
    let (socket, report) ← c.socket.onConnected ec
    return { socket, told := report.map Option.isNone }

/-- `Connect` is called once, and its callback arrives. -/
def tcpMachine : Machine TcpConnect TcpConnect.Event Fault where
  admits
    | .callConnect, c => c.socket.stateMachine.state = .init
    | .connected _, c => c.socket.connecting.isSome
  step := TcpConnect.step

/-- The callback of a running `Connect` is owed while the socket is Establishing. -/
inductive TcpConnect.Stage : TcpConnect → Prop where
  | created : Stage {}
  | connecting : Stage { socket := { stateMachine := establishing, connecting := some {} } }
  | finished {c : TcpConnect} : c.socket.connecting = none → c.socket.stateMachine.state ≠ .init → Stage c

theorem tcp_step (e : TcpConnect.Event) (c c' : TcpConnect) (stage : TcpConnect.Stage c)
    (admits : tcpMachine.admits e c) (stepped : tcpMachine.step e c = .ok c') :
    Agrees c'.told c'.socket.stateMachine ∧ TcpConnect.Stage c' := by
  cases e with
  | callConnect =>
    cases stage with
    | created =>
      cases stepped
      exact ⟨trivial, .connecting⟩
    | connecting => cases admits
    | finished _ begun => exact absurd admits begun
  | connected ec =>
    cases stage with
    | created => cases admits
    | connecting =>
      cases ec with
      | none =>
        cases stepped
        exact ⟨⟨rfl, rfl, rfl⟩, .finished rfl (by decide)⟩
      | some error =>
        cases stepped
        exact ⟨rfl, .finished rfl nofun⟩
    | finished none_owed _ =>
      simp [tcpMachine, none_owed] at admits

/-! ## HttpDataFlow -/

/-- What the handler was told. -/
def httpTold (f : HttpDataFlow) : Option Bool :=
  match f.stage with
  | .finished result => some (result = .success)
  | _ => none

/-- The next hop connects by the same law, and a completed write or read leaves it as it
was. -/
def httpMachine : Machine HttpDataFlow HttpDataFlow.Event Fault where
  admits e f :=
    match e with
    | .callConnect => f.stage = .created
    | .nextConnected success nextHop _ => f.stage = .connecting ∧ Agrees (some success) nextHop
    | .written success nextHop => (∃ request, f.stage = .requesting request) ∧
        (success = true → Ready f.nextHop → Ready nextHop)
    | .read result nextHop _ => f.stage = .reading ∧
        ∀ buffer, result = .data buffer → Ready f.nextHop → Ready nextHop
  step := HttpDataFlow.step

/-- The flow is Establishing over a ready next hop until the handler is told. -/
def HttpLawful (f : HttpDataFlow) : Prop :=
  match f.stage with
  | .created => f.stateMachine = { type := .remote }
  | .connecting => f.stateMachine = establishing
  | .requesting _ | .reading => f.stateMachine = establishing ∧ Ready f.nextHop
  | .finished result => Agrees (some (result = .success)) f.exposed

theorem httpLawful_fail {f : HttpDataFlow} {result : HttpDataFlow.ConnectResult} (wrong : result ≠ .success) :
    HttpLawful (f.fail result) := by
  simp only [HttpLawful, HttpDataFlow.fail, wrong, decide_false]
  rfl

/-- The end of the response: the next hop is handed out, or the flow is Closed. -/
theorem httpLawful_finishResponse {f f' : HttpDataFlow} {buffer : Buffer}
    (machine : f.stateMachine = establishing) (ready : Ready f.nextHop)
    (finished : f.finishResponse buffer = .ok f') : HttpLawful f' := by
  unfold HttpDataFlow.finishResponse at finished
  split at finished
  · obtain ⟨rest, -, finished⟩ := bind_eq_ok.mp finished
    obtain ⟨stateMachine, connected, finished⟩ := bind_eq_ok.mp finished
    have keeps : ∀ g : HttpDataFlow, g = { f with pendingPayload := rest } ∨ g = f →
        g.stateMachine.connected = .ok stateMachine →
        HttpLawful { g with stateMachine, stage := .finished .success } := by
      rintro g (rfl | rfl) connected
      all_goals
        rw [machine] at connected
        obtain ⟨rfl, -⟩ := ready_connected connected
        exact ready
    cases finished
    refine keeps _ ?_ connected
    split
    · exact Or.inl rfl
    · exact Or.inr rfl
  · cases finished
    exact httpLawful_fail nofun

theorem httpLawful_onRead {f f' : HttpDataFlow} {next : Nat} {result : HttpDataFlow.ReadResult}
    (machine : f.stateMachine = establishing) (ready : ∀ buffer, result = .data buffer → Ready f.nextHop)
    (read : f.onRead next result = .ok f') : HttpLawful f' := by
  unfold HttpDataFlow.onRead at read
  split at read
  · cases read
    exact httpLawful_fail nofun
  · cases read
    exact httpLawful_fail nofun
  · rename_i buffer
    obtain ⟨⟨outcome, rewriter⟩, -, read⟩ := bind_eq_ok.mp read
    dsimp only at read
    split at read
    · cases read
      exact httpLawful_fail nofun
    · split at read
      · exact @httpLawful_finishResponse { f with rewriter } _ _ machine (ready buffer rfl) read
      · cases read
        exact ⟨machine, ready buffer rfl⟩

theorem http_step (e : HttpDataFlow.Event) (f f' : HttpDataFlow) (lawful : HttpLawful f)
    (admits : httpMachine.admits e f) (stepped : httpMachine.step e f = .ok f') : HttpLawful f' := by
  cases e with
  | callConnect =>
    have stage : f.stage = .created := admits
    have machine : f.stateMachine = { type := .remote } := by simpa only [HttpLawful, stage] using lawful
    simp only [httpMachine, HttpDataFlow.step, stage, HttpDataFlow.callConnect, machine] at stepped
    obtain ⟨stateMachine, begun, stepped⟩ := bind_eq_ok.mp stepped
    cases stepped
    exact connectBegin_init begun
  | nextConnected success nextHop next =>
    obtain ⟨stage, law⟩ := admits
    have machine : f.stateMachine = establishing := by simpa only [HttpLawful, stage] using lawful
    simp only [httpMachine, HttpDataFlow.step, stage, HttpDataFlow.onNextConnected] at stepped
    split at stepped
    · cases stepped
      exact httpLawful_fail nofun
    · rename_i succeeded
      rw [not_not] at succeeded
      obtain ⟨buffer, -, stepped⟩ := bind_eq_ok.mp stepped
      cases stepped
      rw [succeeded] at law
      exact ⟨machine, law⟩
  | written success nextHop =>
    obtain ⟨⟨request, stage⟩, law⟩ := admits
    have held : f.stateMachine = establishing ∧ Ready f.nextHop := by
      simpa only [HttpLawful, stage] using lawful
    simp only [httpMachine, HttpDataFlow.step, stage, HttpDataFlow.onWritten] at stepped
    cases stepped
    split
    · rename_i succeeded
      exact ⟨held.1, law succeeded held.2⟩
    · exact httpLawful_fail nofun
  | read result nextHop next =>
    obtain ⟨stage, law⟩ := admits
    have held : f.stateMachine = establishing ∧ Ready f.nextHop := by
      simpa only [HttpLawful, stage] using lawful
    simp only [httpMachine, HttpDataFlow.step, stage] at stepped
    refine httpLawful_onRead ?_ ?_ stepped
    · exact held.1
    · exact fun buffer data => law buffer data held.2

theorem agrees_of_httpLawful {f : HttpDataFlow} (lawful : HttpLawful f) : Agrees (httpTold f) f.exposed := by
  unfold HttpLawful at lawful
  unfold httpTold
  split at lawful <;> simp_all [Agrees]

/-! ## TlsDataFlow -/

def tlsTold (f : TlsDataFlow) : Option Bool :=
  match f.stage with
  | .finished success => some success
  | _ => none

/-- The next hop's Connect reports an error. -/
def NextHopFails (e : TlsDataFlow.Event) : Prop := e = .nextConnected none

/-- Establishing until the handler is told. -/
def TlsPending (f : TlsDataFlow) : Prop :=
  match f.stage with
  | .created => f.stateMachine = { type := .remote }
  | .finished _ => True
  | _ => f.stateMachine = establishing

theorem tls_handShake {f f' : TlsDataFlow} {answer : TlsDataFlow.TunnelAnswer}
    (machine : f.stateMachine = establishing) (shook : f.handShake answer = .ok f') :
    TlsPending f' ∧ Agrees (tlsTold f') f'.exposed := by
  unfold TlsDataFlow.handShake at shook
  split at shook
  · split at shook
    · cases shook
      exact ⟨machine, trivial⟩
    · rw [machine] at shook
      obtain ⟨stateMachine, connected, shook⟩ := bind_eq_ok.mp shook
      cases shook
      exact ⟨trivial, (ready_connected connected).2⟩
  · cases shook
    cases answer.cipherText
    · exact ⟨machine, trivial⟩
    · exact ⟨machine, trivial⟩
  · cases shook
    exact ⟨trivial, rfl⟩

theorem tls_step (e : TlsDataFlow.Event) (f f' : TlsDataFlow) (pending : TlsPending f)
    (admits : TlsDataFlow.machine.admits e f) (stepped : TlsDataFlow.machine.step e f = .ok f') :
    TlsPending f' ∧ (Agrees (tlsTold f') f'.exposed ↔ ¬NextHopFails e) := by
  have good : ∀ {g : TlsDataFlow}, e ≠ .nextConnected none → TlsPending g ∧ Agrees (tlsTold g) g.exposed →
      TlsPending g ∧ (Agrees (tlsTold g) g.exposed ↔ ¬NextHopFails e) :=
    fun other both => ⟨both.1, fun _ => other, fun _ => both.2⟩
  cases e with
  | callConnect =>
    have stage : f.stage = .created := admits
    have machine : f.stateMachine = { type := .remote } := by simpa only [TlsPending, stage] using pending
    simp only [TlsDataFlow.machine, TlsDataFlow.step, TlsDataFlow.callConnect, machine] at stepped
    obtain ⟨stateMachine, begun, stepped⟩ := bind_eq_ok.mp stepped
    cases stepped
    exact good nofun ⟨connectBegin_init begun, trivial⟩
  | nextConnected answer =>
    have stage : f.stage = .connecting := admits
    have machine : f.stateMachine = establishing := by simpa only [TlsPending, stage] using pending
    cases answer with
    | none =>
      cases stepped
      refine ⟨trivial, fun agrees => ?_, fun other => absurd rfl other⟩
      have closed : f.stateMachine.state = .closed := agrees
      rw [machine] at closed
      cases closed
    | some answer => exact good nofun (tls_handShake machine stepped)
  | written answer =>
    have stage : f.stage = .writing := admits
    have machine : f.stateMachine = establishing := by simpa only [TlsPending, stage] using pending
    cases answer with
    | none =>
      cases stepped
      exact good nofun ⟨trivial, rfl⟩
    | some answer => exact good nofun (tls_handShake machine stepped)
  | read answer =>
    have stage : f.stage = .reading := admits
    have machine : f.stateMachine = establishing := by simpa only [TlsPending, stage] using pending
    cases answer with
    | none =>
      cases stepped
      exact good nofun ⟨trivial, rfl⟩
    | some answer => exact good nofun (tls_handShake machine stepped)

/-! ## SpeedDataFlow -/

/-- The candidates connect by the same law. -/
def speedMachine : Machine SpeedDataFlow SpeedDataFlow.Event Fault where
  admits e f :=
    match e with
    | .callConnect => f.stateMachine.state = .init
    | .timer i => f.stateMachine.state ≠ .init ∧ f.dataFlows[i]? = some .waiting
    | .connected i success machine => f.dataFlows[i]? = some .connecting ∧ Agrees (some success) machine
  step := SpeedDataFlow.step

/-- The last candidate reports an error. -/
def LastCandidateFails (e : SpeedDataFlow.Event) (f : SpeedDataFlow) : Prop :=
  (∃ i machine, e = .connected i false machine) ∧ f.currentActiveConnection = 1

/-- The candidates that have not failed. -/
def alive (candidates : List SpeedDataFlow.Candidate) : Nat := candidates.countP (· ≠ .failed)

inductive SpeedStage (f : SpeedDataFlow) : Prop where
  | created : f.stateMachine = { type := .remote } → f.told = none →
      (∀ c ∈ f.dataFlows, c = .waiting) → SpeedStage f
  | connecting : f.stateMachine = establishing → f.told = none →
      f.currentActiveConnection = alive f.dataFlows → SpeedStage f
  | failed : f.stateMachine = establishing → f.told = some false → alive f.dataFlows = 0 → SpeedStage f
  | succeeded : f.dataFlows = [] → f.told = some true → (∃ m, f.exposed = .ok m ∧ Ready m) → SpeedStage f

structure SpeedLawful (f : SpeedDataFlow) : Prop where
  fits : f.dataFlows.length < sizeRange
  stage : SpeedStage f

theorem alive_set {candidates : List SpeedDataFlow.Candidate} {i : Nat} {old new : SpeedDataFlow.Candidate}
    (found : candidates[i]? = some old) (running : old ≠ .failed) :
    alive (candidates.set i new) = alive candidates - 1 + (if new = .failed then 0 else 1) ∧
      0 < alive candidates := by
  obtain ⟨inside, here⟩ := List.getElem?_eq_some_iff.mp found
  have positive : 0 < alive candidates := by
    refine List.countP_pos_iff.mpr ⟨old, List.mem_of_getElem? found, by simpa using running⟩
  refine ⟨?_, positive⟩
  rw [alive, List.countP_set inside, here]
  cases new <;> simp [running, alive]

theorem exposed_establishing {f : SpeedDataFlow} (machine : f.stateMachine = establishing) :
    f.exposed = .ok establishing := by
  simp [SpeedDataFlow.exposed, machine]

theorem not_alive_of_mem {candidates : List SpeedDataFlow.Candidate} {i : Nat} {c : SpeedDataFlow.Candidate}
    (found : candidates[i]? = some c) (running : c ≠ .failed) : alive candidates ≠ 0 := by
  have := (@alive_set candidates i c c found running).2
  omega

theorem speed_step (e : SpeedDataFlow.Event) (f f' : SpeedDataFlow) (lawful : SpeedLawful f)
    (admits : speedMachine.admits e f) (stepped : speedMachine.step e f = .ok f') :
    SpeedLawful f' ∧ ((∃ m, f'.exposed = .ok m ∧ Agrees f'.told m) ↔ ¬LastCandidateFails e f) := by
  obtain ⟨fits, stage⟩ := lawful
  cases e with
  | callConnect =>
    have initial : f.stateMachine.state = .init := admits
    cases stage with
    | created machine told all =>
      simp only [speedMachine, SpeedDataFlow.step, SpeedDataFlow.callConnect, machine] at stepped
      obtain ⟨stateMachine, begun, stepped⟩ := bind_eq_ok.mp stepped
      cases stepped
      have same := connectBegin_init begun
      have count : f.dataFlows.length = alive f.dataFlows :=
        (List.countP_eq_length.mpr fun c member => by simp [all c member]).symm
      refine ⟨⟨fits, .connecting same told count⟩, fun _ => ?_, fun _ => ⟨_, exposed_establishing same, ?_⟩⟩
      · rintro ⟨⟨i, machine, wrong⟩, -⟩
        cases wrong
      · rw [told]
        trivial
    | connecting machine => rw [machine] at initial; cases initial
    | failed machine => rw [machine] at initial; cases initial
    | succeeded none_left told exposed =>
      obtain ⟨m, shown, ready⟩ := exposed
      simp only [SpeedDataFlow.exposed, initial, or_true, true_or, if_true] at shown
      cases shown
      rw [ready.1] at initial
      cases initial
  | timer i =>
    obtain ⟨begun, waiting⟩ := admits
    cases stage with
    | created machine => rw [machine] at begun; exact absurd rfl begun
    | connecting machine told count =>
      cases stepped
      obtain ⟨same, positive⟩ := @alive_set f.dataFlows i _ .connecting waiting nofun
      refine ⟨⟨by simpa using fits, .connecting machine told ?_⟩, fun _ => ?_, fun _ =>
        ⟨_, exposed_establishing machine, ?_⟩⟩
      · show f.currentActiveConnection = alive (f.dataFlows.set i .connecting)
        rw [same, count, if_neg (by decide)]
        omega
      · rintro ⟨⟨i, machine, wrong⟩, -⟩
        cases wrong
      · show Agrees f.told establishing
        rw [told]
        trivial
    | failed machine told none_alive => exact absurd none_alive (not_alive_of_mem waiting nofun)
    | succeeded none_left => simp [none_left] at waiting
  | connected i success machine =>
    obtain ⟨connecting, law⟩ := admits
    cases stage with
    | created own told all =>
      have waiting := all _ (List.mem_of_getElem? connecting)
      cases waiting
    | connecting own told count =>
      obtain ⟨same, positive⟩ := @alive_set f.dataFlows i _ .failed connecting nofun
      have bound : alive f.dataFlows ≤ f.dataFlows.length := List.countP_le_length
      have left : sizeSub f.currentActiveConnection 1 = f.currentActiveConnection - 1 :=
        sizeSub_eq (by omega) (by omega)
      cases success with
      | true =>
        simp only [speedMachine, SpeedDataFlow.step, SpeedDataFlow.onConnected, own] at stepped
        obtain ⟨stateMachine, connected, stepped⟩ := bind_eq_ok.mp stepped
        cases stepped
        obtain ⟨rfl, -⟩ := ready_connected connected
        refine ⟨⟨(by decide : 0 < sizeRange), .succeeded rfl rfl ⟨machine, rfl, law⟩⟩, fun _ => ?_, fun _ => ⟨machine, rfl, law⟩⟩
        rintro ⟨⟨i, machine, wrong⟩, -⟩
        cases wrong
      | false =>
        rw [if_pos rfl, Nat.add_zero] at same
        simp only [speedMachine, SpeedDataFlow.step, SpeedDataFlow.onConnected, left] at stepped
        cases stepped
        by_cases last : f.currentActiveConnection = 1
        · refine ⟨⟨by simpa using fits, .failed own (by simp [last]) (by simp only; omega)⟩, ?_, ?_⟩
          · rintro ⟨m, shown, agrees⟩
            rw [exposed_establishing (by exact own)] at shown
            cases shown
            simp [last, Agrees] at agrees
          · exact fun others => absurd ⟨⟨i, machine, rfl⟩, last⟩ others
        · have more : f.currentActiveConnection - 1 ≠ 0 := by omega
          refine ⟨⟨by simpa using fits, .connecting own ?_ (by simp only; omega)⟩, fun _ => ?_, fun _ =>
            ⟨_, exposed_establishing own, ?_⟩⟩
          · simp only [if_neg more]
            exact told
          · rintro ⟨-, one⟩
            exact last one
          · simp only [if_neg more, told]
            trivial
    | failed own told none_alive => exact absurd none_alive (not_alive_of_mem connecting nofun)
    | succeeded none_left => simp [none_left] at connecting

/-! ## Socks5DataFlow -/

def socks5Told (f : Socks5DataFlow) : Option Bool :=
  match f.stage with
  | .finished result => some (result = .success)
  | _ => none

/-- The last task of `Connect` finds nothing left in the reader: the success exit. -/
def NegotiationSucceeds (e : Socks5DataFlow.Event) (f : Socks5DataFlow) : Prop :=
  (∃ next, e = .runTask next) ∧ (∃ buffer, f.stage = .posted .rest buffer) ∧ f.streamReader.buffer.size = 0

/-- Establishing until an error, after a success as well. -/
def Socks5Lawful (f : Socks5DataFlow) : Prop :=
  match f.stage with
  | .created => f.stateMachine = { type := .remote }
  | .finished result => f.stateMachine = establishing ∧ result = .success ∨
      f.stateMachine.state = .closed ∧ result ≠ .success
  | _ => f.stateMachine = establishing

/-- A handler goes on, or fails. -/
inductive GoesOn (f f' : Socks5DataFlow) : Prop where
  | on : f'.stateMachine = f.stateMachine → socks5Told f' = none → (f'.stage ≠ .created) → GoesOn f f'
  | fails {result : Socks5DataFlow.ConnectResult} : f'.stateMachine = f.stateMachine.errored →
      f'.stage = .finished result → result ≠ .success → GoesOn f f'

open Socks5DataFlow

variable {f f' : Socks5DataFlow} {next : Nat} {buffer : Buffer}

theorem goesOn_follow {phase : Phase} {ran : StreamReader × StreamReader.Action} :
    GoesOn f (f.follow phase ran) := by
  obtain ⟨reader, action⟩ := ran
  cases action with
  | read => exact .on rfl rfl nofun
  | post buffer => exact .on rfl rfl nofun

theorem goesOn_nextConnected {success : Bool} (ran : f.onNextConnected next success = .ok f') : GoesOn f f' := by
  cases success with
  | false =>
    cases ran
    exact .fails rfl rfl nofun
  | true =>
    obtain ⟨b₁, -, ran⟩ := bind_eq_ok.mp ran
    obtain ⟨b₂, -, ran⟩ := bind_eq_ok.mp ran
    obtain ⟨b₃, -, ran⟩ := bind_eq_ok.mp ran
    cases ran
    exact .on rfl rfl nofun

theorem goesOn_written {success : Bool} {phase : Phase} {n : Nat}
    (ran : (do
      if ¬success then return f.fail .nextHopError
      return f.follow phase (← f.streamReader.readToLength next n) : Checked Socks5DataFlow) = .ok f') :
    GoesOn f f' := by
  split at ran
  · cases ran
    exact .fails rfl rfl nofun
  · obtain ⟨read, -, ran⟩ := bind_eq_ok.mp ran
    cases ran
    exact goesOn_follow

theorem goesOn_onRead {phase : Phase} {data : Option Buffer} (ran : f.onRead phase next data = .ok f') :
    GoesOn f f' := by
  cases data with
  | none =>
    cases ran
    exact .fails rfl rfl nofun
  | some data =>
    obtain ⟨read, -, ran⟩ := bind_eq_ok.mp ran
    cases ran
    exact goesOn_follow

theorem goesOn_onMethod (ran : f.onMethod next buffer = .ok f') : GoesOn f f' := by
  obtain ⟨version, -, ran⟩ := bind_eq_ok.mp ran
  split at ran
  · cases ran
    exact .fails rfl rfl nofun
  obtain ⟨method, -, ran⟩ := bind_eq_ok.mp ran
  split at ran
  · cases ran
    exact .fails rfl rfl nofun
  obtain ⟨request, -, ran⟩ := bind_eq_ok.mp ran
  cases ran
  exact .on rfl rfl nofun

theorem goesOn_onReply (ran : f.onReply next buffer = .ok f') : GoesOn f f' := by
  unfold onReply at ran
  iterate 3
    obtain ⟨value, -, ran⟩ := bind_eq_ok.mp ran
    split at ran
    · cases ran
      exact .fails rfl rfl nofun
  obtain ⟨type, -, ran⟩ := bind_eq_ok.mp ran
  obtain ⟨length, -, ran⟩ := bind_eq_ok.mp ran
  split at ran
  · cases ran
    exact .fails rfl rfl nofun
  · obtain ⟨read, -, ran⟩ := bind_eq_ok.mp ran
    cases ran
    exact goesOn_follow

/-- What a handler leaves of an establishing flow. -/
theorem GoesOn.lawful (goes : GoesOn f f') (own : f.stateMachine = establishing) :
    Socks5Lawful f' ∧ ∀ nextHop, Agrees (socks5Told f') (f'.exposed nextHop) := by
  cases goes with
  | on same untold begun =>
    refine ⟨?_, fun nextHop => by rw [untold]; trivial⟩
    unfold Socks5Lawful
    unfold socks5Told at untold
    split
    · rename_i created
      exact absurd created begun
    · rename_i finished
      simp [finished] at untold
    · rw [same, own]
  | fails same finished wrong =>
    have closed : f'.stateMachine.state = .closed := by rw [same]; rfl
    refine ⟨?_, fun nextHop => ?_⟩
    · rw [Socks5Lawful, finished]
      exact Or.inr ⟨closed, wrong⟩
    · simp [socks5Told, finished, wrong, exposed, closed, Agrees]

theorem socks5_step (e : Event) (f f' : Socks5DataFlow) (lawful : Socks5Lawful f)
    (admits : machine.admits e f) (stepped : machine.step e f = .ok f') :
    Socks5Lawful f' ∧ ∀ nextHop, Agrees (socks5Told f') (f'.exposed nextHop) ↔ ¬NegotiationSucceeds e f := by
  have good : GoesOn f f' → f.stateMachine = establishing → ¬NegotiationSucceeds e f →
      Socks5Lawful f' ∧ ∀ nextHop, Agrees (socks5Told f') (f'.exposed nextHop) ↔ ¬NegotiationSucceeds e f :=
    fun goes own other => ⟨(goes.lawful own).1, fun nextHop => ⟨fun _ => other,
      fun _ => (goes.lawful own).2 nextHop⟩⟩
  cases stage : f.stage with
  | created =>
    have own : f.stateMachine = { type := .remote } := by simpa only [Socks5Lawful, stage] using lawful
    cases e <;> simp only [machine, Admits, step, stage] at admits stepped
    simp only [callConnect, own] at stepped
    obtain ⟨stateMachine, begun, stepped⟩ := bind_eq_ok.mp stepped
    cases stepped
    refine ⟨connectBegin_init begun, fun nextHop => ⟨fun _ => ?_, fun _ => trivial⟩⟩
    rintro ⟨⟨next, wrong⟩, -⟩
    cases wrong
  | connecting =>
    have own : f.stateMachine = establishing := by simpa only [Socks5Lawful, stage] using lawful
    cases e <;> simp only [machine, Admits, step, stage] at admits stepped
    refine good (goesOn_nextConnected stepped) own ?_
    rintro ⟨⟨next, wrong⟩, -⟩
    cases wrong
  | greeting buffer =>
    have own : f.stateMachine = establishing := by simpa only [Socks5Lawful, stage] using lawful
    cases e <;> simp only [machine, Admits, step, stage] at admits stepped
    refine good (goesOn_written stepped) own ?_
    rintro ⟨⟨next, wrong⟩, -⟩
    cases wrong
  | requesting buffer =>
    have own : f.stateMachine = establishing := by simpa only [Socks5Lawful, stage] using lawful
    cases e <;> simp only [machine, Admits, step, stage] at admits stepped
    refine good (goesOn_written stepped) own ?_
    rintro ⟨⟨next, wrong⟩, -⟩
    cases wrong
  | reading phase =>
    have own : f.stateMachine = establishing := by simpa only [Socks5Lawful, stage] using lawful
    cases e <;> simp only [machine, Admits, step, stage] at admits stepped
    refine good (goesOn_onRead stepped) own ?_
    rintro ⟨⟨next, wrong⟩, -⟩
    cases wrong
  | posted phase buffer =>
    have own : f.stateMachine = establishing := by simpa only [Socks5Lawful, stage] using lawful
    cases e <;> simp only [machine, Admits, step, stage] at admits stepped
    cases phase with
    | method =>
      refine good (goesOn_onMethod stepped) own ?_
      rintro ⟨-, ⟨other, wrong⟩, -⟩
      rw [stage] at wrong
      cases wrong
    | reply =>
      refine good (goesOn_onReply stepped) own ?_
      rintro ⟨-, ⟨other, wrong⟩, -⟩
      rw [stage] at wrong
      cases wrong
    | rest =>
      obtain rfl : f.onRest = f' := Except.ok.inj stepped
      by_cases empty : f.streamReader.buffer.size = 0
      · have told : socks5Told f.onRest = some true := by
          simp [onRest, StreamReader.consumeRemainData, Buffer.move, empty, socks5Told]
        have own' : f.onRest.stateMachine = establishing := by
          simp [onRest, StreamReader.consumeRemainData, Buffer.move, empty, own]
        refine ⟨?_, fun nextHop => ⟨fun agrees => ?_, fun other => ?_⟩⟩
        · simp [Socks5Lawful, onRest, StreamReader.consumeRemainData, Buffer.move, empty, own]
        · rw [told, exposed, own', if_pos (by decide)] at agrees
          cases agrees.1
        · exact absurd ⟨⟨_, rfl⟩, ⟨buffer, stage⟩, empty⟩ other
      · have failed : f.onRest.stage = .finished (.error .invalidResponse) := by
          simp [onRest, StreamReader.consumeRemainData, Buffer.move, empty, fail]
        have closed : f.onRest.stateMachine = f.stateMachine.errored := by
          simp [onRest, StreamReader.consumeRemainData, Buffer.move, empty, fail]
        exact good (.fails closed failed (by decide)) own fun succeeds => empty succeeds.2.2
  | finished result =>
    cases e <;> simp only [machine, Admits, stage] at admits

/-! ## All flows -/

/-- For every remote flow and every run of Connect over lawful next hops: the outcome and
the state agree, unless the run takes the exit that forgets its transition. -/
theorem connect_outcome_agrees_iff (target : Endpoint) (authorization : Option Bytes) (nextHop : FlowStateMachine)
    (candidates : Nat) (few : candidates < sizeRange) :
    (∀ events, tcpMachine.Admitted events {} →
      tcpMachine.EachStep (fun _ _ c => Agrees c.told c.socket.stateMachine) events {}) ∧
    (∀ events, httpMachine.Admitted events (HttpDataFlow.init target authorization) →
      httpMachine.EachStep (fun _ _ f => Agrees (httpTold f) f.exposed) events
        (HttpDataFlow.init target authorization)) ∧
    (∀ events, machine.Admitted events { targetEndpoint := target } →
      (machine.EachStep (fun _ _ f => Agrees (socks5Told f) (f.exposed nextHop)) events
          { targetEndpoint := target } ↔
        machine.EachStep (fun e f _ => ¬NegotiationSucceeds e f) events { targetEndpoint := target })) ∧
    (∀ events, TlsDataFlow.machine.Admitted events TlsDataFlow.init →
      (TlsDataFlow.machine.EachStep (fun _ _ f => Agrees (tlsTold f) f.exposed) events TlsDataFlow.init ↔
        TlsDataFlow.machine.EachStep (fun e _ _ => ¬NextHopFails e) events TlsDataFlow.init)) ∧
    ∀ events,
      speedMachine.Admitted events (SpeedDataFlow.init candidates) →
      (speedMachine.EachStep (fun _ _ f => ∃ m, f.exposed = .ok m ∧ Agrees f.told m) events
          (SpeedDataFlow.init candidates) ↔
        speedMachine.EachStep (fun e f _ => ¬LastCandidateFails e f) events
          (SpeedDataFlow.init candidates)) := by
  refine ⟨?_, ?_, ?_, ?_, ?_⟩
  · intro events admitted
    exact Machine.eachStep_of_invariant tcp_step events {} .created admitted
  · intro events admitted
    have good : ∀ e f f', HttpLawful f → httpMachine.admits e f → httpMachine.step e f = .ok f' →
        Agrees (httpTold f') f'.exposed ∧ HttpLawful f' := by
      intro e f f' lawful admits stepped
      have lawful' := http_step e f f' lawful admits stepped
      exact ⟨agrees_of_httpLawful lawful', lawful'⟩
    exact Machine.eachStep_of_invariant good events _ rfl admitted
  · intro events admitted
    exact Machine.eachStep_iff (fun e f f' lawful admits stepped =>
      (socks5_step e f f' lawful admits stepped).2 nextHop)
      (fun e f f' lawful admits stepped => (socks5_step e f f' lawful admits stepped).1) events _ rfl admitted
  · intro events admitted
    exact Machine.eachStep_iff (fun e f f' pending admits stepped => (tls_step e f f' pending admits stepped).2)
      (fun e f f' pending admits stepped => (tls_step e f f' pending admits stepped).1) events _ rfl admitted
  · intro events admitted
    refine Machine.eachStep_iff (fun e f f' lawful admits stepped =>
      (speed_step e f f' lawful admits stepped).2)
      (fun e f f' lawful admits stepped => (speed_step e f f' lawful admits stepped).1) events _
      ⟨by simpa [SpeedDataFlow.init] using few, .created rfl rfl ?_⟩ admitted
    intro c member
    exact (List.mem_replicate.mp member).2

/-- A socket that connects, a TLS flow whose next hop does not, and a candidate that
connects. -/
theorem connect_outcome_agrees_iff_examples :
    tcpMachine.EachStep (fun _ _ c => Agrees c.told c.socket.stateMachine) [.callConnect, .connected none] {} ∧
    (TlsDataFlow.machine.EachStep (fun _ _ f => Agrees (tlsTold f) f.exposed)
        [.callConnect, .nextConnected none] TlsDataFlow.init ↔
      TlsDataFlow.machine.EachStep (fun e _ _ => ¬NextHopFails e) [.callConnect, .nextConnected none]
        TlsDataFlow.init) ∧
    (speedMachine.EachStep (fun _ _ f => ∃ m, f.exposed = .ok m ∧ Agrees f.told m)
        [.callConnect, .timer 0, .connected 0 true { establishing with state := .established }]
        (SpeedDataFlow.init 1) ↔
      speedMachine.EachStep (fun e f _ => ¬LastCandidateFails e f)
        [.callConnect, .timer 0, .connected 0 true { establishing with state := .established }]
        (SpeedDataFlow.init 1)) := by
  obtain ⟨tcp, -, -, tls, speed⟩ := connect_outcome_agrees_iff (clientFor [97, 46, 98]).targetEndpoint none establishing 1
    (by decide)
  refine ⟨tcp _ ⟨rfl, ?_⟩, tls _ (by decide), speed _ ⟨rfl, ?_⟩⟩
  · rintro _ ⟨⟩
    exact ⟨rfl, fun _ _ => trivial⟩
  · rintro _ ⟨⟩
    refine ⟨⟨nofun, rfl⟩, ?_⟩
    rintro _ ⟨⟩
    exact ⟨⟨rfl, rfl, rfl, rfl⟩, fun _ _ => trivial⟩

/-- The three exits that leave the flow Establishing: a negotiation that succeeds, a next
hop that cannot connect, and a last candidate that fails. -/
theorem forgotten_transitions :
    ((machine.run (negotiation 2 [pieceOf 0 [5, 0]] [pieceOf 1 plainReply] [])
        (Socks5EarlyData.init (clientFor [97, 46, 98]).targetEndpoint)).map fun f =>
          (socks5Told f, f.stateMachine.state)) = .ok (some true, .establishing) ∧
      TlsDataFlow.machine.Admitted [.callConnect, .nextConnected none] TlsDataFlow.init ∧
      ((TlsDataFlow.machine.run [.callConnect, .nextConnected none] TlsDataFlow.init).map fun f =>
          (tlsTold f, f.exposed.state)) = .ok (some false, .establishing) ∧
      ((speedMachine.run [.callConnect, .timer 0, .connected 0 false { establishing with state := .closed }]
          (SpeedDataFlow.init 1)).map fun f => (f.told, f.exposed.map FlowStateMachine.state)) =
        .ok (some false, .ok .establishing) := by
  decide +kernel

end LibNekit.Guarantees.ConnectOutcome
