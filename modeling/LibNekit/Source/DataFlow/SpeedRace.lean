import LibNekit.Source.DataFlow.SpeedDataFlow

/-!
# SpeedDataFlow, with its timers

`Connect` of speed_data_flow.cc once more, with what decides which of its closures can
still run: the list of timers, which candidate became `data_flow_`, and every
invocation of the handler. A timer's closure and a candidate's callback index into
`data_flows_`. A timer that is destroyed is cancelled, but the closure that `Timer::Wait`
gave to the runloop is still called, and looks at its Cancelable.
-/
namespace LibNekit.Source

open LibNekit.Library LibNekit.Source.SpeedDataFlow

structure SpeedRace extends SpeedDataFlow where
  /-- `connect_timers_`, and whether the closure of each has still to be called. -/
  connectTimers : List Bool := []
  /-- The same for the timers that were destroyed, whose Cancelables are cancelled. -/
  destroyed : List Bool := []
  /-- The candidate that `data_flow_` was. -/
  winner : Option Nat := none
  /-- What the handler was told, one invocation after the other. -/
  answers : List Bool := []
  deriving DecidableEq, Repr

namespace SpeedRace

def init (candidates : Nat) : SpeedRace := { SpeedDataFlow.init candidates with }

/-- `Connect(endpoint, handler)` -/
def callConnect (f : SpeedRace) : Checked SpeedRace := do
  let flow ← f.toSpeedDataFlow.callConnect
  return { f with toSpeedDataFlow := flow, connectTimers := f.dataFlows.map fun _ => true }

/-- The handler of a timer. -/
def onExpired (i : Nat) (f : SpeedRace) : Checked SpeedRace := do
  let _ ← deref f.dataFlows[i]?
  let flow ← f.toSpeedDataFlow.step (.timer i)
  return { f with toSpeedDataFlow := flow, connectTimers := f.connectTimers.set i false }

/-- The closure of `Timer::Wait`, which calls the handler unless it was cancelled. -/
def onTimer (i : Nat) (f : SpeedRace) : Checked SpeedRace :=
  if f.connectTimers[i]? = none then .ok { f with destroyed := f.destroyed.set i false } else f.onExpired i

/-- The callback of a candidate's `Connect`. The winner takes the timers and the other
candidates away. -/
def onConnected (i : Nat) (success : Bool) (machine : FlowStateMachine) (f : SpeedRace) :
    Checked SpeedRace := do
  let _ ← deref f.dataFlows[i]?
  let flow ← f.toSpeedDataFlow.onConnected i success machine
  if success then
    return { f with
      toSpeedDataFlow := flow, winner := some i, connectTimers := [], destroyed := f.connectTimers,
      answers := f.answers ++ [true] }
  else if flow.currentActiveConnection = 0 then
    return { f with toSpeedDataFlow := flow, answers := f.answers ++ [false] }
  else return { f with toSpeedDataFlow := flow }

def step : Event → SpeedRace → Checked SpeedRace
  | .callConnect, f => f.callConnect
  | .timer i, f => f.onTimer i
  | .connected i success machine, f => f.onConnected i success machine

/-- The closure of a timer is called once, and a candidate that is alive and connecting
reports once. -/
def Admits (e : Event) (f : SpeedRace) : Prop :=
  match e with
  | .callConnect => f.stateMachine.state = .init
  | .timer i => f.connectTimers[i]? = some true ∨ f.destroyed[i]? = some true
  | .connected i _ _ => f.dataFlows[i]? = some .connecting

instance (e : Event) (f : SpeedRace) : Decidable (Admits e f) := by
  unfold Admits
  cases e <;> infer_instance

def machine : Machine SpeedRace Event Fault where
  admits := Admits
  step := step

instance (e : Event) (f : SpeedRace) : Decidable (machine.admits e f) :=
  inferInstanceAs (Decidable (Admits e f))

/-- Without its timers it is `SpeedDataFlow`, where a timer that was destroyed does nothing. -/
theorem step_forgets {e : Event} {f f' : SpeedRace} (stepped : step e f = .ok f') :
    SpeedDataFlow.step e f.toSpeedDataFlow = .ok f'.toSpeedDataFlow ∨
      ∃ i, e = .timer i ∧ f.connectTimers[i]? = none ∧ f'.toSpeedDataFlow = f.toSpeedDataFlow := by
  cases e with
  | callConnect =>
    obtain ⟨flow, called, same⟩ := bind_eq_ok.mp stepped
    cases same
    exact Or.inl called
  | timer i =>
    replace stepped : f.onTimer i = .ok f' := stepped
    unfold onTimer at stepped
    split at stepped
    · next none =>
      cases stepped
      exact Or.inr ⟨i, rfl, none, rfl⟩
    · obtain ⟨_, -, rest⟩ := bind_eq_ok.mp stepped
      cases rest
      exact Or.inl rfl
  | connected i success machine =>
    obtain ⟨_, -, rest⟩ := bind_eq_ok.mp stepped
    obtain ⟨flow, called, same⟩ := bind_eq_ok.mp rest
    split at same
    · cases same
      exact Or.inl called
    · split at same <;> cases same <;> exact Or.inl called

variable {f : SpeedRace} {i : Nat} {candidate : Candidate} {machine : FlowStateMachine}

theorem onTimer_eq (pending : f.connectTimers[i]? = some true) (here : f.dataFlows[i]? = some candidate) :
    onTimer i f = .ok { f with
      dataFlows := f.dataFlows.set i .connecting, connectTimers := f.connectTimers.set i false } := by
  rw [onTimer, if_neg (by simp [pending]), onExpired, here]
  rfl

/-- A failure counts down, and the last one is told. -/
theorem onConnected_failed (here : f.dataFlows[i]? = some candidate) {left : Nat}
    (count : sizeSub f.currentActiveConnection 1 = left) :
    onConnected i false machine f = .ok { f with
      currentActiveConnection := left
      dataFlows := f.dataFlows.set i .failed
      told := if left = 0 then some false else f.told
      answers := if left = 0 then f.answers ++ [false] else f.answers } := by
  by_cases last : left = 0 <;> simp [onConnected, here, SpeedDataFlow.onConnected, count, last]

/-- A success takes everything else away. -/
theorem onConnected_succeeded (here : f.dataFlows[i]? = some candidate)
    (establishing : f.stateMachine.state = .establishing) :
    onConnected i true machine f = .ok {
      stateMachine := { f.stateMachine with state := .established }
      currentActiveConnection := sizeSub f.currentActiveConnection 1
      dataFlow := some machine, dataFlows := [], told := some true
      winner := some i, connectTimers := [], destroyed := f.connectTimers, answers := f.answers ++ [true] } := by
  have connected : f.stateMachine.connected = .ok { f.stateMachine with state := .established } := by
    rw [FlowStateMachine.connected, boostAssert_of (Or.inl establishing)]
    rfl
  rw [onConnected, here, SpeedDataFlow.onConnected, connected]
  rfl

end SpeedRace

end LibNekit.Source
