import LibNekit.Library.Machine
import LibNekit.Source.Crypto.TlsTunnel
import LibNekit.Source.DataFlow.FlowStateMachine

/-!
# The handshake of a TlsDataFlow

`Connect` and `HandShake` of tls_data_flow.cc with the tunnel that they drive. The next
hop completes one operation at a time.
-/
namespace LibNekit.Source

open LibNekit.Library Ssl

namespace TlsHandShake

inductive Stage where
  | created
  /-- `data_flow_->Connect` -/
  | connecting
  /-- `data_flow_->Write` of cipher text -/
  | writing (data : Bytes)
  /-- `data_flow_->Read` of cipher text -/
  | reading
  /-- The handler was told. -/
  | finished (success : Bool)
  /-- It was cancelled, and the last callback is gone. -/
  | abandoned
  deriving DecidableEq, Repr

/-- The completions of the next hop succeed or do not. -/
inductive Event where
  | connect
  | nextConnected (success : Bool)
  | written (success : Bool)
  | read (buffer : Option Chunks)
  | cancel

end TlsHandShake

/-- `sent` is what the next hop has written. -/
structure TlsHandShake (σ : Type) where
  stateMachine : FlowStateMachine := { type := .remote }
  stage : TlsHandShake.Stage := .created
  /-- Whether `connect_cancelable_` is cancelled. -/
  cancelled : Bool := false
  tunnel : TlsTunnel := {}
  session : σ
  sent : Bytes := []

namespace TlsHandShake

variable {σ : Type}

/-- `Errored()`, then the handler. -/
def fail (x : TlsHandShake σ) : TlsHandShake σ :=
  { x with stateMachine := x.stateMachine.errored, stage := .finished false }

/-- `data_flow_->Write(tunnel_.ReadCipherTextData(), ..)` -/
def write (x : TlsHandShake σ) : TlsHandShake σ :=
  { x with stage := .writing x.tunnel.readCipherTextData.1, tunnel := x.tunnel.readCipherTextData.2 }

/-- `HandShake` after the tunnel has been asked. -/
def proceed (action : Except Nat TlsTunnel.HandShakeAction) (x : TlsHandShake σ) : Checked (TlsHandShake σ) :=
  match action with
  | .ok .success =>
    if x.tunnel.pendingReadCipher ≠ [] then .ok x.write
    else do
      let stateMachine ← x.stateMachine.connected
      return { x with stateMachine, stage := .finished true }
  | .ok .wantIo => .ok (if x.tunnel.pendingReadCipher ≠ [] then x.write else { x with stage := .reading })
  | .error _ => .ok x.fail

/-- `HandShake()` -/
def handShake (lib : OpenSsl σ) (x : TlsHandShake σ) : Checked (TlsHandShake σ) := do
  let ((action, tunnel), session) ← on lib x.tunnel.handShake x.session
  proceed action { x with tunnel, session }

/-- `Connect(endpoint, handler)` -/
def connect (x : TlsHandShake σ) : Checked (TlsHandShake σ) := do
  let stateMachine ← x.stateMachine.connectBegin
  return { x with stateMachine, stage := .connecting }

/-- The callback of the next hop's `Connect`. Its error is passed on without `Errored()`. -/
def onNextConnected (lib : OpenSsl σ) (success : Bool) (x : TlsHandShake σ) : Checked (TlsHandShake σ) :=
  if x.cancelled then .ok { x with stage := .abandoned }
  else if success = false then .ok { x with stage := .finished false }
  else x.handShake lib

/-- The callbacks of the next hop's `Write`. -/
def onWritten (lib : OpenSsl σ) (success : Bool) (data : Bytes) (x : TlsHandShake σ) : Checked (TlsHandShake σ) :=
  let x := { x with sent := x.sent ++ if success then data else [] }
  if x.cancelled then .ok { x with stage := .abandoned }
  else if success = false then .ok x.fail
  else x.handShake lib

/-- The callback of the next hop's `Read`. -/
def onRead (lib : OpenSsl σ) (fuel : Nat) (buffer : Option Chunks) (x : TlsHandShake σ) : Checked (TlsHandShake σ) :=
  if x.cancelled then .ok { x with stage := .abandoned }
  else match buffer with
  | none => .ok x.fail
  | some buffer => do
    let (tunnel, session) ← on lib (x.tunnel.writeCipherTextData fuel buffer) x.session
    handShake lib { x with tunnel, session }

/-- Only what is owed arrives. -/
def Admits (e : Event) (x : TlsHandShake σ) : Prop :=
  match e with
  | .connect => x.stage = .created
  | .nextConnected _ => x.stage = .connecting
  | .written _ => ∃ data, x.stage = .writing data
  | .read _ => x.stage = .reading
  | .cancel => True

def step (lib : OpenSsl σ) (fuel : Nat) (e : Event) (x : TlsHandShake σ) : Checked (TlsHandShake σ) :=
  match e with
  | .connect => x.connect
  | .nextConnected success => x.onNextConnected lib success
  | .written success =>
    match x.stage with
    | .writing data => x.onWritten lib success data
    | _ => .error .assertion
  | .read buffer => x.onRead lib fuel buffer
  | .cancel => .ok { x with cancelled := true }

instance decidableAdmits : (e : Event) → (x : TlsHandShake σ) → Decidable (Admits e x)
  | .connect, x => inferInstanceAs (Decidable (x.stage = .created))
  | .nextConnected _, x => inferInstanceAs (Decidable (x.stage = .connecting))
  | .written _, x =>
    match staged : x.stage with
    | .writing data => .isTrue ⟨data, staged⟩
    | .created | .connecting | .reading | .finished _ | .abandoned => .isFalse (by rintro ⟨data, other⟩; grind)
  | .read _, x => inferInstanceAs (Decidable (x.stage = .reading))
  | .cancel, _ => .isTrue trivial

def machine (lib : OpenSsl σ) (fuel : Nat) : Machine (TlsHandShake σ) Event Fault := ⟨Admits, step lib fuel⟩

instance decidableMachineAdmits (lib : OpenSsl σ) (fuel : Nat) (e : Event) (x : TlsHandShake σ) :
    Decidable ((machine lib fuel).admits e x) :=
  inferInstanceAs (Decidable (Admits e x))

end TlsHandShake

end LibNekit.Source
