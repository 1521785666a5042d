import LibNekit.Library.Machine
import LibNekit.Source.DataFlow.FlowStateMachine
import LibNekit.Source.Utils.Endpoint
import LibNekit.Source.Buffer.WellFormed
import LibNekit.Source.Utils.StreamReader

/-!
# Socks5DataFlow

`Connect` and `DoNegotiation` of socks5_data_flow.cc as one machine: the stage says
what the flow waits for, and the inputs are the completions of the next hop and the
runloop's turn for a posted task.
-/
namespace LibNekit.Source

open LibNekit.Library

namespace Socks5DataFlow

inductive Socks5ErrorCode where
  | serverVersionNotSupported | authenticationNotSupported | invalidResponse | connectionFailed
  deriving DecidableEq, Repr

/-- What `Connect`'s handler is told. -/
inductive ConnectResult where
  | success
  | nextHopError
  | error (code : Socks5ErrorCode)
  deriving DecidableEq, Repr

/-- The calls of `ReadToLength`. -/
inductive Phase where
  | method
  /-- the first five bytes of the connect reply -/
  | reply
  /-- what its address type leaves -/
  | rest
  deriving DecidableEq, Repr

inductive Stage where
  | created
  /-- `data_flow_->Connect` -/
  | connecting
  /-- `data_flow_->Write` of the greeting -/
  | greeting (buffer : Buffer)
  | reading (phase : Phase)
  /-- The runloop has a task that goes on with these bytes. -/
  | posted (phase : Phase) (buffer : Buffer)
  /-- `data_flow_->Write` of the request -/
  | requesting (buffer : Buffer)
  /-- The handler was told. -/
  | finished (result : ConnectResult)
  deriving DecidableEq, Repr

/-- `next` is the first address that no chunk has used. -/
inductive Event where
  | callConnect
  | nextConnected (next : Nat) (success : Bool)
  | written (next : Nat) (success : Bool)
  /-- `none` is an error. -/
  | read (next : Nat) (data : Option Buffer)
  | runTask (next : Nat)
  deriving DecidableEq, Repr

end Socks5DataFlow

open Socks5DataFlow

structure Socks5DataFlow where
  targetEndpoint : Endpoint
  stateMachine : FlowStateMachine := { type := .remote }
  streamReader : StreamReader := {}
  stage : Socks5DataFlow.Stage := .created
  deriving DecidableEq, Repr

namespace Socks5DataFlow

/-- `Errored()`, then the handler. -/
def fail (f : Socks5DataFlow) (result : ConnectResult) : Socks5DataFlow :=
  { f with stateMachine := f.stateMachine.errored, stage := .finished result }

/-- The stage that the reader's next action leads to. -/
def follow (phase : Phase) (f : Socks5DataFlow) (ran : StreamReader × StreamReader.Action) :
    Socks5DataFlow :=
  { f with
    streamReader := ran.1
    stage := match ran.2 with
      | .read => .reading phase
      | .post buffer => .posted phase buffer }

/-- `Connect(endpoint, handler)` -/
def callConnect (f : Socks5DataFlow) : Checked Socks5DataFlow := do
  let stateMachine ← f.stateMachine.connectBegin
  return { f with stateMachine, stage := .connecting }

/-- The greeting of `DoNegotiation`. -/
def doNegotiation (next : Nat) (f : Socks5DataFlow) : Checked Socks5DataFlow := do
  let buffer := (Buffer.make next 3).2
  let buffer ← buffer.setIndex 0 5
  let buffer ← buffer.setIndex 1 1
  let buffer ← buffer.setIndex 2 0
  return { f with stage := .greeting buffer }

def onNextConnected (next : Nat) (success : Bool) (f : Socks5DataFlow) : Checked Socks5DataFlow :=
  if success then f.doNegotiation next else .ok (f.fail .nextHopError)

def onGreetingWritten (next : Nat) (success : Bool) (f : Socks5DataFlow) : Checked Socks5DataFlow := do
  if ¬success then return f.fail .nextHopError
  return f.follow .method (← f.streamReader.readToLength next 2)

/-- The address behind `05 01 00`, and where the port goes. -/
def addressPart (next : Nat) (endpoint : Endpoint) (buffer : Buffer) : Checked (Nat × Buffer) := do
  match endpoint.type with
  | .domain =>
    let (_, buffer) ← buffer.insertBackSize next (1 + 1 + 1 + endpoint.domain.length + 2)
    let buffer ← buffer.setIndex 3 3
    let buffer ← buffer.setIndex 4 (UInt8.ofNat endpoint.domain.length)
    let buffer ← buffer.setData 5 endpoint.domain
    return (4 + 1 + endpoint.domain.length, buffer)
  | .address =>
    match ← deref endpoint.address with
    | .v4 bytes =>
      let (_, buffer) ← buffer.insertBackSize next (1 + 1 + 4 + 2)
      let buffer ← buffer.setIndex 3 1
      return (4 + 4, ← buffer.setData 4 bytes)
    | .v6 bytes =>
      let (_, buffer) ← buffer.insertBackSize next (1 + 1 + 16 + 2)
      let buffer ← buffer.setIndex 3 4
      return (4 + 16, ← buffer.setData 4 bytes)

/-- The request, built in the Buffer of the method reply. -/
def request (next : Nat) (endpoint : Endpoint) (buffer : Buffer) : Checked Buffer := do
  let buffer ← buffer.setIndex 1 1
  let (portOffset, buffer) ← addressPart next endpoint buffer
  let buffer ← buffer.setIndex 2 0
  buffer.setData portOffset [UInt8.ofNat (endpoint.port / 256), UInt8.ofNat (endpoint.port % 256)]

/-- The handler of the first `ReadToLength`. -/
def onMethod (next : Nat) (buffer : Buffer) (f : Socks5DataFlow) : Checked Socks5DataFlow := do
  if (← buffer.index 0) ≠ 5 then return f.fail (.error .serverVersionNotSupported)
  if (← buffer.index 1) ≠ 0 then return f.fail (.error .authenticationNotSupported)
  return { f with stage := .requesting (← request next f.targetEndpoint buffer) }

def onRequestWritten (next : Nat) (success : Bool) (f : Socks5DataFlow) : Checked Socks5DataFlow := do
  if ¬success then return f.fail .nextHopError
  return f.follow .reply (← f.streamReader.readToLength next 5)

/-- How many bytes follow the first five, by the address type. -/
def remaining (type length : UInt8) : Option Nat :=
  if type = 1 then some 5
  else if type = 3 then some (length.toNat + 2)
  else if type = 4 then some 17
  else none

/-- The handler of the second `ReadToLength`. -/
def onReply (next : Nat) (buffer : Buffer) (f : Socks5DataFlow) : Checked Socks5DataFlow := do
  if (← buffer.index 0) ≠ 5 then return f.fail (.error .serverVersionNotSupported)
  if (← buffer.index 1) ≠ 0 then return f.fail (.error .connectionFailed)
  if (← buffer.index 2) ≠ 0 then return f.fail (.error .invalidResponse)
  match remaining (← buffer.index 3) (← buffer.index 4) with
  | none => return f.fail (.error .invalidResponse)
  | some len => return f.follow .rest (← f.streamReader.readToLength next len)

/-- The handler of the last `ReadToLength`. It does not call `Connected()`. -/
def onRest (f : Socks5DataFlow) : Socks5DataFlow :=
  let (left, streamReader) := f.streamReader.consumeRemainData
  let f := { f with streamReader }
  if left.size ≠ 0 then f.fail (.error .invalidResponse) else { f with stage := .finished .success }

/-- The completion of the read that the reader issued. -/
def onRead (phase : Phase) (next : Nat) (data : Option Buffer) (f : Socks5DataFlow) :
    Checked Socks5DataFlow :=
  match data with
  | none => .ok (f.fail .nextHopError)
  | some data => do return f.follow phase (← f.streamReader.onData next data)

def onTask (phase : Phase) (next : Nat) (buffer : Buffer) (f : Socks5DataFlow) :
    Checked Socks5DataFlow :=
  match phase with
  | .method => f.onMethod next buffer
  | .reply => f.onReply next buffer
  | .rest => .ok f.onRest

/-- A completion that is not owed is ignored; `Admits` excludes it. -/
def step (e : Event) (f : Socks5DataFlow) : Checked Socks5DataFlow :=
  match e, f.stage with
  | .callConnect, .created => f.callConnect
  | .nextConnected next success, .connecting => f.onNextConnected next success
  | .written next success, .greeting _ => f.onGreetingWritten next success
  | .written next success, .requesting _ => f.onRequestWritten next success
  | .read next data, .reading phase => f.onRead phase next data
  | .runTask next, .posted phase buffer => f.onTask phase next buffer
  | _, _ => .ok f

/-- The Buffers that the flow holds. -/
def held (f : Socks5DataFlow) : List Nat :=
  f.streamReader.buffer.addrs ++
    match f.stage with
    | .posted _ buffer => buffer.addrs
    | _ => []

/-- Only what is owed arrives. The chunks of the data are new ones. -/
def Admits (e : Event) (f : Socks5DataFlow) : Prop :=
  match e, f.stage with
  | .callConnect, .created => True
  | .nextConnected _ _, .connecting => True
  | .written next _, .greeting _ => ∀ a ∈ f.held, a < next
  | .written next _, .requesting _ => ∀ a ∈ f.held, a < next
  | .read next data, .reading _ => (∀ a ∈ f.held, a < next) ∧ ∀ buffer, data = some buffer →
      buffer.WellFormed ∧ buffer.Below next ∧ (∀ a ∈ f.held, a ∉ buffer.addrs) ∧
        f.streamReader.buffer.size + buffer.size < sizeRange
  | .runTask next, .posted _ _ => ∀ a ∈ f.held, a < next
  | _, _ => False

def machine : Machine Socks5DataFlow Event Fault := ⟨Admits, step⟩

/-- `StateMachine()`, over a next hop whose machine is `nextHop`. -/
def exposed (f : Socks5DataFlow) (nextHop : FlowStateMachine) : FlowStateMachine :=
  if f.stateMachine.state ≠ .established then f.stateMachine else nextHop

end Socks5DataFlow

end LibNekit.Source
