import Mathlib.Logic.Function.Basic
import LibNekit.Source.Transport.TcpSocket
import LibNekit.Source.Transport.Tunnel

/-!
# A tunnel over two TcpSockets

tunnel.cc from `BeginForward` on, where both data flows are the sockets of
tcp_socket.cc. A callback of the tunnel uses the tunnel; if that has been released,
the run has no result. A callback of a socket that was destroyed may still arrive:
it finds its `Cancelable` cancelled.
-/
namespace LibNekit.Source

open LibNekit.Library

structure TcpTunnel where
  flow : Side → TcpSocket
  /-- A wait of `timeout_timer_` is pending and not cancelled. -/
  timer : Bool := false
  /-- The manager has erased the tunnel. -/
  released : Bool := false

namespace TcpTunnel

def set (t : TcpTunnel) (side : Side) (socket : TcpSocket) : TcpTunnel :=
  { t with flow := Function.update t.flow side socket }

/-- `this` is used. -/
def alive (t : TcpTunnel) : Checked Unit :=
  if t.released then .error .danglingPointer else .ok ()

/-- `ReleaseTunnel()`: the destructors cancel whatever the flows and the timer owe. -/
def releaseTunnel (t : TcpTunnel) : Checked TcpTunnel := do
  t.alive
  return { flow := fun side => (t.flow side).destroy, timer := false, released := true }

/-- `CheckTunnelStatus()` -/
def checkTunnelStatus (t : TcpTunnel) : Checked TcpTunnel := do
  t.alive
  if (t.flow .local).stateMachine.state = .closed ∧ (t.flow .remote).stateMachine.state = .closed then
    t.releaseTunnel
  else return t

/-- `ResetTimer()` -/
def resetTimer (t : TcpTunnel) : Checked TcpTunnel := do
  t.alive
  return { t with timer := true }

/-- What `ForwardLocal` and `ForwardRemote` do, reading from `source`. -/
def forward (source : Side) (t : TcpTunnel) : Checked TcpTunnel := do
  let t ← t.checkTunnelStatus
  t.alive
  boostAssert (t.flow source).stateMachine.isReadable
  boostAssert (t.flow source.other).stateMachine.isWritable
  return t.set source (← (t.flow source).beginRead)

def forwardLocal : TcpTunnel → Checked TcpTunnel := forward .local

def forwardRemote : TcpTunnel → Checked TcpTunnel := forward .remote

def beginForward (t : TcpTunnel) : Checked TcpTunnel := do forwardRemote (← t.forwardLocal)

/-- The handler of the `Read` on `source`; `none` comes with data. -/
def onRead (source : Side) (ec : TcpSocket.ErrorCode) (t : TcpTunnel) : Checked TcpTunnel := do
  let t ← t.resetTimer
  let target := source.other
  match ec with
  | none => return t.set target (← (t.flow target).beginWrite)
  | some .endOfFile =>
    if (t.flow target).stateMachine.isWriteClosable then
      return t.set target (← (t.flow target).closeWrite)
    else t.checkTunnelStatus
  | some .other => t.releaseTunnel

/-- The handler of the `Write` to `target`. -/
def onWritten (target : Side) (ec : TcpSocket.ErrorCode) (t : TcpTunnel) : Checked TcpTunnel := do
  let t ← t.resetTimer
  match ec with
  | none => t.forward target.other
  | some _ => t.releaseTunnel

/-- The handler of either `CloseWrite`, which does not look at the result. -/
def onWriteClosed (t : TcpTunnel) : Checked TcpTunnel := do
  let t ← t.resetTimer
  t.checkTunnelStatus

inductive Event where
  | readDone (side : Side) (ec : TcpSocket.ErrorCode)
  | writeDone (side : Side) (ec : TcpSocket.ErrorCode)
  | writeClosed (side : Side) (ec : TcpSocket.ErrorCode)
  /-- A wait of the timer ends. -/
  | timeout
  deriving DecidableEq, Repr

/-- A callback of a socket, and the handler that the tunnel gave to it. -/
def complete (side : Side) (callback : TcpSocket → Checked (TcpSocket × TcpSocket.Report))
    (handler : TcpSocket.ErrorCode → TcpTunnel → Checked TcpTunnel) (t : TcpTunnel) :
    Checked TcpTunnel := do
  let (socket, report) ← callback (t.flow side)
  let t := t.set side socket
  match report with
  | none => return t
  | some ec => handler ec t

def step : Event → TcpTunnel → Checked TcpTunnel
  | .readDone side ec, t => t.complete side (·.onRead ec) (onRead side)
  | .writeDone side ec, t => t.complete side (·.onWritten ec) (onWritten side)
  | .writeClosed side ec, t => t.complete side (·.onWriteClosed ec) fun _ t => t.onWriteClosed
  | .timeout, t => if t.timer then releaseTunnel { t with timer := false } else .ok t

/-- Whatever is owed may arrive, in any order, and the waits of the timer end at any
time. -/
def Admits : Event → TcpTunnel → Prop
  | .readDone side _, t => (t.flow side).read.isSome
  | .writeDone side _, t => (t.flow side).write.map TcpSocket.OwedWrite.kind = some .write
  | .writeClosed side _, t => (t.flow side).write.map TcpSocket.OwedWrite.kind = some .closeWrite
  | .timeout, _ => True

instance (e : Event) (t : TcpTunnel) : Decidable (Admits e t) := by
  cases e <;> unfold Admits <;> infer_instance

def machine : Machine TcpTunnel Event Fault := ⟨Admits, step⟩

instance (e : Event) (t : TcpTunnel) : Decidable (machine.admits e t) :=
  inferInstanceAs (Decidable (Admits e t))

/-- An accepted socket that has been opened and continued, and a connected one. -/
def start : TcpTunnel where
  flow
    | .local => { stateMachine := { type := .local, state := .established } }
    | .remote => { stateMachine := { type := .remote, state := .established } }
  timer := true

end TcpTunnel

end LibNekit.Source
