import LibNekit.Source.DataFlow.Socks5Handshake
import LibNekit.Source.DataFlow.Socks5Request

/-!
# The state of a SOCKS5 server flow during its handshake

`NegotiateRead` calls `Connected()` when it has read the request, and `Continue`
calls it again. The flow is Established before `Continue`, and the second call meets
its assertion.
-/
namespace LibNekit.Guarantees.Socks5HandshakeStates

open LibNekit.Source LibNekit.Library LibNekit.Source.Socks5Server LibNekit.Source.Socks5ServerDataFlow
open LibNekit.Source.Socks5Handshake

/-- Establishing from `Open` until `Continue`'s handler is told; Established, readable
and writable from then on. -/
def Respects (_ : Event) (_ h : Socks5Handshake) : Prop :=
  match h.stage with
  | .continued => h.flow.stateMachine.state = .established ∧
      h.flow.stateMachine.isReadable = true ∧ h.flow.stateMachine.isWritable = true
  | .created | .failed => True
  | _ => h.flow.stateMachine.state = .establishing

/-- A handshake in which nothing fails: the greeting and the request in pieces. -/
def handshake (greeting request : List Buffer) : List Event :=
  .callOpen :: .nextOpened true :: greeting.map (fun b => .read (some b)) ++
    .replyWritten true :: request.map (fun b => .read (some b)) ++
    [.callContinue, .responseWritten true, .nextContinued true]

/-- `Open`'s handler has not been told success. -/
def Unopened (h : Socks5Handshake) : Prop := h.stage ∉ [.opened, .responding, .continuing]

variable {flow flow' : Socks5ServerDataFlow}

/-- The request is the only one to report success. -/
theorem readRequest_success (read : flow.readRequest = .ok (flow', .handler .success)) :
    flow'.stateMachine.state = .established := by
  rw [readRequest_eq] at read
  generalize verdict flow.pendingAuth = decided at read
  cases decided with
  | more => cases read
  | error code => cases read
  | request host port =>
    obtain ⟨stateMachine, connected, read⟩ := bind_eq_ok.mp read
    obtain ⟨_, -, connected⟩ := bind_eq_ok.mp connected
    cases connected
    cases read
    rfl

theorem readVersion_not_success {buffer : Buffer} :
    flow.readVersion buffer ≠ .ok (flow', .handler .success) := by
  intro read
  unfold readVersion at read
  split at read
  · cases read
  obtain ⟨version, -, read⟩ := bind_eq_ok.mp read
  split at read
  · cases read
  obtain ⟨len, -, read⟩ := bind_eq_ok.mp read
  dsimp only at read
  split at read
  · cases read
  split at read
  · cases read
  split at read
  · cases read
  obtain ⟨reply, -, read⟩ := bind_eq_ok.mp read
  cases read

theorem onNegotiateRead_success {buffer : Option Buffer}
    (read : flow.onNegotiateRead buffer = .ok (flow', .handler .success)) :
    flow'.stateMachine.state = .established := by
  unfold onNegotiateRead at read
  split at read
  · cases read
  split at read
  · cases read
  obtain ⟨appended, -, read⟩ := bind_eq_ok.mp read
  split at read
  · exact absurd read readVersion_not_success
  · exact readRequest_success read

theorem unopened_of_stage {h : Socks5Handshake} (stage : Stage) (found : h.stage = stage)
    (early : stage ∉ [.opened, .responding, .continuing] := by decide) : Unopened h := by
  rw [Unopened, found]
  exact early

/-- Success cannot be told to `Open`'s handler without leaving Establishing. -/
theorem unopened_step (text : AddressText) (e : Event) (h h' : Socks5Handshake) (unopened : Unopened h)
    (admits : (machine text).admits e h) (stepped : (machine text).step e h = .ok h')
    (respects : Respects e h h') : Unopened h' := by
  cases e with
  | callOpen =>
    obtain ⟨stateMachine, -, stepped⟩ := bind_eq_ok.mp stepped
    cases stepped
    exact unopened_of_stage .opening rfl
  | nextOpened success =>
    cases stepped
    cases success
    · exact unopened_of_stage .failed rfl
    · exact unopened_of_stage .reading rfl
  | read buffer =>
    obtain ⟨⟨flow, effect⟩, read, stepped⟩ := bind_eq_ok.mp stepped
    cases stepped
    cases effect with
    | negotiateRead => exact unopened_of_stage .reading rfl
    | write buffer => exact unopened_of_stage .replying rfl
    | handler result =>
      cases result with
      | success =>
        have early : flow.stateMachine.state = .establishing := respects
        rw [onNegotiateRead_success read] at early
        cases early
      | nextHopError => exact unopened_of_stage .failed rfl
      | error code => exact unopened_of_stage .failed rfl
  | replyWritten success =>
    cases stepped
    cases success
    · exact unopened_of_stage .failed rfl
    · exact unopened_of_stage .reading rfl
  | callContinue =>
    have opened : h.stage = .opened := admits
    simp [Unopened, opened] at unopened
  | responseWritten success =>
    have responding : h.stage = .responding := admits
    simp [Unopened, responding] at unopened
  | nextContinued success =>
    have continuing : h.stage = .continuing := admits
    simp [Unopened, continuing] at unopened

/-- No handshake keeps the state it should have. -/
theorem handshake_never_respects_states (text : AddressText) (greeting request : List Buffer)
    (admitted : (machine text).Admitted (handshake greeting request) init) :
    ¬(machine text).AllSteps Respects (handshake greeting request) init := by
  intro steps
  have shape : handshake greeting request =
      (.callOpen :: .nextOpened true :: greeting.map (fun b => .read (some b)) ++
        .replyWritten true :: request.map (fun b => .read (some b))) ++
      .callContinue :: [.responseWritten true, .nextContinued true] := by simp [handshake]
  rw [shape] at steps admitted
  obtain ⟨h, unopened, admits⟩ := steps.finds (unopened_step text) _ admitted (unopened_of_stage .created rfl)
  have opened : h.stage = .opened := admits
  simp [Unopened, opened] at unopened

/-- A greeting and a request for 127.0.0.1:80, each in one piece. -/
def plainGreeting : Buffer := ⟨[⟨0, [5, 1, 0], 0, 3⟩], some 0, 3⟩

def plainRequest : Buffer := ⟨[⟨1, [5, 1, 0, 1, 127, 0, 0, 1, 0, 80], 0, 10⟩], some 1, 10⟩

/-- Addresses that cannot be read or printed. -/
def noText : AddressText := ⟨fun _ => none, fun _ => []⟩

theorem handshake_never_respects_states_plain :
    ¬(machine noText).AllSteps Respects (handshake [plainGreeting] [plainRequest]) init :=
  handshake_never_respects_states noText [plainGreeting] [plainRequest] (by decide +kernel)

/-- The flow is Established when `Open`'s handler is told, and `Continue`'s completion
fails an assertion. -/
theorem plain_handshake_connects_twice :
    (machine noText).Admitted (handshake [plainGreeting] [plainRequest]) init ∧
    (((machine noText).run ((handshake [plainGreeting] [plainRequest]).take 5) init).map fun h =>
      (h.stage, h.flow.stateMachine.state)) = .ok (.opened, .established) ∧
    (machine noText).run (handshake [plainGreeting] [plainRequest]) init = .error .assertion := by
  decide +kernel

end LibNekit.Guarantees.Socks5HandshakeStates
