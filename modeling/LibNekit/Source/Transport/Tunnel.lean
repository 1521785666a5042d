import Mathlib.Logic.Function.Basic
import LibNekit.Library.Machine
import LibNekit.Source.Buffer.Model
import LibNekit.Source.DataFlow.FlowStateMachine

/-!
# Tunnel

tunnel.cc as a machine driven by completions. The two data flows are not modelled:
they may complete an outstanding request at any time with any result, and may
expose any `FlowStateMachine` at any time. Each flow carries a record of what has
passed through it.

A released tunnel has been destroyed together with its flows; a callback that goes
on after that has no result.
-/
namespace LibNekit.Source

open LibNekit.Library

inductive Side where
  | «local» | remote
  deriving DecidableEq, Repr

def Side.other : Side → Side
  | .local => .remote
  | .remote => .local

namespace Tunnel

/-- One flow as the tunnel uses it. -/
structure Flow where
  /-- What `StateMachine()` returns. -/
  machine : FlowStateMachine
  /-- Outstanding `Read`s. -/
  reads : Nat := 0
  /-- Outstanding `Write`s. -/
  writes : List Buffer := []
  /-- Outstanding `CloseWrite`s. -/
  closes : Nat := 0
  /-- Buffers delivered by `Read`, oldest first. -/
  delivered : List Buffer := []
  /-- Buffers passed to `Write`. -/
  passed : List Buffer := []
  /-- Buffers whose `Write` succeeded. -/
  written : List Buffer := []
  /-- `Read` has reported EOF. -/
  eof : Bool := false
  /-- `CloseWrite` has been called. -/
  halfClosed : Bool := false

def Flow.read (f : Flow) : Flow := { f with reads := f.reads + 1 }

def Flow.write (f : Flow) (buffer : Buffer) : Flow :=
  { f with writes := f.writes ++ [buffer], passed := f.passed ++ [buffer] }

def Flow.closeWrite (f : Flow) : Flow := { f with closes := f.closes + 1, halfClosed := true }

inductive ReadResult where
  | data (buffer : Buffer)
  | eof
  | error

/-- The bookkeeping of a completed `Read`. -/
def Flow.readDone (f : Flow) (result : ReadResult) : Flow :=
  let f := { f with reads := f.reads - 1 }
  match result with
  | .data buffer => { f with delivered := f.delivered ++ [buffer] }
  | .eof => { f with eof := true }
  | .error => f

/-- The bookkeeping of a completed `Write`. -/
def Flow.writeDone (f : Flow) (success : Bool) : Flow :=
  { f with
    writes := f.writes.tail
    written := if success then f.written ++ f.writes.take 1 else f.written }

def Flow.closeDone (f : Flow) : Flow := { f with closes := f.closes - 1 }

/-- The callback the tunnel is waiting in. -/
inductive Stage where
  | opening | matching | connecting | continuing | forwarding | released
  deriving DecidableEq, Repr

end Tunnel

structure Tunnel where
  stage : Tunnel.Stage
  flow : Side → Tunnel.Flow

namespace Tunnel

def set (t : Tunnel) (side : Side) (f : Flow) : Tunnel :=
  { t with flow := Function.update t.flow side f }

/-- `ReleaseTunnel()`; `LocalReportError` does the same. -/
def releaseTunnel (t : Tunnel) : Tunnel := { t with stage := .released }

/-- `CheckTunnelStatus()`. It is only called while forwarding, when both flows
exist. -/
def checkTunnelStatus (t : Tunnel) : Tunnel :=
  if (t.flow .local).machine.state = .closed ∧ (t.flow .remote).machine.state = .closed then
    t.releaseTunnel
  else t

/-- What `ForwardLocal` and `ForwardRemote` do, reading from `source`. -/
def forward (source : Side) (t : Tunnel) : Checked Tunnel := do
  let t := t.checkTunnelStatus
  if t.stage = .released then throw .danglingPointer
  boostAssert (t.flow source).machine.isReadable
  boostAssert (t.flow source.other).machine.isWritable
  return t.set source (t.flow source).read

def forwardLocal : Tunnel → Checked Tunnel := forward .local

def forwardRemote : Tunnel → Checked Tunnel := forward .remote

def beginForward (t : Tunnel) : Checked Tunnel := do
  let t ← t.forwardLocal
  t.forwardRemote

/-- The handler of the `Read` on `source`. -/
def onRead (source : Side) (result : ReadResult) (t : Tunnel) : Tunnel :=
  let target := source.other
  match result with
  | .data buffer => t.set target ((t.flow target).write buffer)
  | .eof =>
    if (t.flow target).machine.isWriteClosable then t.set target (t.flow target).closeWrite
    else t.checkTunnelStatus
  | .error => t.releaseTunnel

/-- The handler of the `Write` to `target`. -/
def onWritten (target : Side) (success : Bool) (t : Tunnel) : Checked Tunnel :=
  if success then
    match target with
    | .remote => t.forwardLocal
    | .local => t.forwardRemote
  else .ok t.releaseTunnel

inductive Event where
  | opened (success : Bool)
  | matched (success : Bool)
  | connected (success : Bool)
  | continued (success : Bool)
  | readDone (side : Side) (result : ReadResult)
  | writeDone (side : Side) (success : Bool)
  | closeDone (side : Side)
  | timeout
  /-- The flow changes the state machine it exposes. -/
  | expose (side : Side) (machine : FlowStateMachine)

/-- A step of the set-up: go on, or release. -/
def proceed (t : Tunnel) (success : Bool) (next : Stage) : Tunnel :=
  if success then { t with stage := next } else t.releaseTunnel

def step : Event → Tunnel → Checked Tunnel
  | .opened success, t => .ok (t.proceed success .matching)
  | .matched success, t => .ok (t.proceed success .connecting)
  | .connected success, t => .ok (t.proceed success .continuing)
  | .continued success, t =>
    if success then beginForward { t with stage := .forwarding } else .ok t.releaseTunnel
  | .readDone side result, t => .ok ((t.set side ((t.flow side).readDone result)).onRead side result)
  | .writeDone side success, t =>
    (t.set side ((t.flow side).writeDone success)).onWritten side success
  | .closeDone side, t => .ok (t.set side (t.flow side).closeDone).checkTunnelStatus
  | .timeout, t => .ok t.releaseTunnel
  | .expose side machine, t => .ok (t.set side { t.flow side with machine })

/-- The contract of the flows: a completion answers an outstanding request, and a
flow that is closed neither completes a `Write` nor `Continue` with success. After
the release nothing happens. -/
def Contract : Event → Tunnel → Prop
  | .opened _, t => t.stage = .opening
  | .matched _, t => t.stage = .matching
  | .connected _, t => t.stage = .connecting
  | .continued success, t =>
    t.stage = .continuing ∧ (success = true → (t.flow .local).machine.state ≠ .closed)
  | .readDone side _, t => t.stage = .forwarding ∧ 0 < (t.flow side).reads
  | .writeDone side success, t => t.stage = .forwarding ∧ (t.flow side).writes ≠ [] ∧
      (success = true → (t.flow side).machine.state ≠ .closed)
  | .closeDone side, t => t.stage = .forwarding ∧ 0 < (t.flow side).closes
  | .timeout, t | .expose _ _, t => t.stage ≠ .released

instance (event : Event) (t : Tunnel) : Decidable (Contract event t) := by
  cases event <;> unfold Contract <;> infer_instance

/-- `Open()` has been called on a new tunnel. -/
def init : Tunnel where
  stage := .opening
  flow
    | .local => { machine := { type := .local } }
    | .remote => { machine := { type := .remote } }

def machine : Machine Tunnel Event Fault := ⟨Contract, step⟩

instance (event : Event) (t : Tunnel) : Decidable (machine.admits event t) :=
  inferInstanceAs (Decidable (Contract event t))

end Tunnel

end LibNekit.Source
