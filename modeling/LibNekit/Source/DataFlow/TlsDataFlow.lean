import LibNekit.Library.Machine
import LibNekit.Source.DataFlow.FlowStateMachine

/-!
# TlsDataFlow

`Connect` and `HandShake` of tls_data_flow.cc. What the TLS library does is an input:
each call of `HandShake` is given the action that the tunnel asks for and whether it
has cipher text to send.
-/
namespace LibNekit.Source

open LibNekit.Library

namespace TlsDataFlow

/-- `TlsTunnel::HandShakeAction` -/
inductive HandShakeAction where
  | success | wantIo
  deriving DecidableEq, Repr

/-- What the tunnel says: `none` is an error. -/
structure TunnelAnswer where
  action : Option HandShakeAction
  cipherText : Bool
  deriving DecidableEq, Repr

inductive Stage where
  | created
  /-- `data_flow_->Connect` -/
  | connecting
  /-- `data_flow_->Write` of cipher text -/
  | writing
  /-- `data_flow_->Read` of cipher text -/
  | reading
  /-- The handler was told. -/
  | finished (success : Bool)
  deriving DecidableEq, Repr

/-- A completion that succeeded comes with the tunnel's answer. -/
inductive Event where
  | callConnect
  | nextConnected (answer : Option TunnelAnswer)
  | written (answer : Option TunnelAnswer)
  | read (answer : Option TunnelAnswer)
  deriving DecidableEq, Repr

end TlsDataFlow

open TlsDataFlow

structure TlsDataFlow where
  stateMachine : FlowStateMachine := { type := .remote }
  stage : TlsDataFlow.Stage := .created
  deriving DecidableEq, Repr

namespace TlsDataFlow

def init : TlsDataFlow := {}

/-- `Errored()`, then the handler. -/
def fail (f : TlsDataFlow) : TlsDataFlow :=
  { stateMachine := f.stateMachine.errored, stage := .finished false }

/-- `Connect(endpoint, handler)` -/
def callConnect (f : TlsDataFlow) : Checked TlsDataFlow := do
  let stateMachine ← f.stateMachine.connectBegin
  return { stateMachine, stage := .connecting }

/-- `HandShake()` -/
def handShake (answer : TunnelAnswer) (f : TlsDataFlow) : Checked TlsDataFlow := do
  match answer.action with
  | some .success =>
    if answer.cipherText then return { f with stage := .writing }
    let stateMachine ← f.stateMachine.connected
    return { stateMachine, stage := .finished true }
  | some .wantIo => return { f with stage := if answer.cipherText then .writing else .reading }
  | none => return f.fail

/-- The callback of the next hop's `Connect`. The error is passed on without
`Errored()`. -/
def onNextConnected (answer : Option TunnelAnswer) (f : TlsDataFlow) : Checked TlsDataFlow :=
  match answer with
  | none => .ok { f with stage := .finished false }
  | some answer => f.handShake answer

/-- The callbacks of the next hop's `Write` and `Read`. -/
def onIo (answer : Option TunnelAnswer) (f : TlsDataFlow) : Checked TlsDataFlow :=
  match answer with
  | none => .ok f.fail
  | some answer => f.handShake answer

def step : Event → TlsDataFlow → Checked TlsDataFlow
  | .callConnect, f => f.callConnect
  | .nextConnected answer, f => f.onNextConnected answer
  | .written answer, f => f.onIo answer
  | .read answer, f => f.onIo answer

/-- Only what is owed arrives. -/
def Admits (e : Event) (f : TlsDataFlow) : Prop :=
  match e with
  | .callConnect => f.stage = .created
  | .nextConnected _ => f.stage = .connecting
  | .written _ => f.stage = .writing
  | .read _ => f.stage = .reading

instance (e : Event) (f : TlsDataFlow) : Decidable (Admits e f) := by
  unfold Admits
  split <;> infer_instance

def machine : Machine TlsDataFlow Event Fault := ⟨Admits, step⟩

instance (e : Event) (f : TlsDataFlow) : Decidable (machine.admits e f) :=
  inferInstanceAs (Decidable (Admits e f))

/-- `StateMachine()` -/
def exposed (f : TlsDataFlow) : FlowStateMachine := f.stateMachine

end TlsDataFlow

end LibNekit.Source
