import LibNekit.Library.Machine
import LibNekit.Source.DataFlow.FlowStateMachine

/-!
# SpeedDataFlow

`Connect` of speed_data_flow.cc: every candidate is connected after its own delay,
and the first one that succeeds is used.
-/
namespace LibNekit.Source

open LibNekit.Library

namespace SpeedDataFlow

/-- One of `data_flows_`. -/
inductive Candidate where
  /-- Its timer runs. -/
  | waiting
  /-- Its `Connect` was called. -/
  | connecting
  | failed
  deriving DecidableEq, Repr

/-- `machine` is the candidate's state machine when it reports. -/
inductive Event where
  | callConnect
  | timer (i : Nat)
  | connected (i : Nat) (success : Bool) (machine : FlowStateMachine)
  deriving DecidableEq, Repr

end SpeedDataFlow

open SpeedDataFlow

structure SpeedDataFlow where
  stateMachine : FlowStateMachine := { type := .remote }
  dataFlows : List Candidate
  /-- The state machine of `data_flow_`, once there is one. -/
  dataFlow : Option FlowStateMachine := none
  currentActiveConnection : Nat := 0
  /-- What the handler was told. -/
  told : Option Bool := none
  deriving DecidableEq, Repr

namespace SpeedDataFlow

def init (candidates : Nat) : SpeedDataFlow := { dataFlows := List.replicate candidates .waiting }

/-- `Connect(endpoint, handler)` starts the timers. -/
def callConnect (f : SpeedDataFlow) : Checked SpeedDataFlow := do
  let stateMachine ← f.stateMachine.connectBegin
  return { f with stateMachine, currentActiveConnection := f.dataFlows.length }

/-- The callback of a candidate's `Connect`. When the last one fails the handler is
told without `Errored()`. -/
def onConnected (i : Nat) (success : Bool) (machine : FlowStateMachine) (f : SpeedDataFlow) :
    Checked SpeedDataFlow := do
  let currentActiveConnection := sizeSub f.currentActiveConnection 1
  if ¬success then
    return { f with
      currentActiveConnection
      dataFlows := f.dataFlows.set i .failed
      told := if currentActiveConnection = 0 then some false else f.told }
  let stateMachine ← f.stateMachine.connected
  return { stateMachine, currentActiveConnection, dataFlow := some machine, dataFlows := [], told := some true }

def step : Event → SpeedDataFlow → Checked SpeedDataFlow
  | .callConnect, f => f.callConnect
  | .timer i, f => .ok { f with dataFlows := f.dataFlows.set i .connecting }
  | .connected i success machine, f => f.onConnected i success machine

/-- `StateMachine()` follows `data_flow_` without a null check. -/
def exposed (f : SpeedDataFlow) : Checked FlowStateMachine :=
  if f.stateMachine.state = .establishing ∨ f.stateMachine.state = .init ∨
      f.stateMachine.state = .closed then .ok f.stateMachine
  else deref f.dataFlow

end SpeedDataFlow

end LibNekit.Source
