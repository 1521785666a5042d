import LibNekit.Library.Machine
import LibNekit.Source.Runtime

/-!
# TcpListener, TunnelManager and ProxyManager

`Accept` of tcp_listener.cc, `Build` and `NotifyClosed` of tunnel.cc, and `Run` of
proxy_manager.cc, which passes one and the same handler to every listener. The
environment completes an outstanding accept, closes listeners and lets tunnels end.
`Socket` and `Flow` are whatever the listeners' `DataFlowHandler` makes of a socket.
-/
namespace LibNekit.Source

open LibNekit.Library

/-- What `async_accept` completes with. -/
inductive Accepted (Socket : Type) where
  | socket (socket : Socket)
  | operationAborted
  | error
  deriving DecidableEq, Repr

/-- `accepting` is an outstanding `async_accept`. -/
structure TcpListener where
  accepting : Bool := false
  closed : Bool := false
  deriving DecidableEq, Repr

namespace TcpListener

/-- `Accept(handler)` -/
def accept (l : TcpListener) : TcpListener := { l with accepting := true }

/-- `Close()` -/
def close (l : TcpListener) : TcpListener := { l with closed := true }

variable {Socket Flow σ : Type}

/-- The callback of `async_accept`. The event handler is told of a flow or of an error,
and the listener waits again after a flow only. -/
def onAccept (dataFlowHandler : Socket → Flow) (handler : Option Flow → σ → Checked σ)
    (accepted : Accepted Socket) (l : TcpListener) (s : σ) : Checked (TcpListener × σ) :=
  let l := { l with accepting := false }
  match accepted with
  | .operationAborted => .ok (l, s)
  | .error => do
    let s ← handler none s
    return (l, s)
  | .socket socket => do
    let s ← handler (some (dataFlowHandler socket)) s
    return (l.accept, s)

end TcpListener

/-- A Tunnel, as its manager sees it. -/
structure BuiltTunnel (Flow : Type) where
  localDataFlow : Flow
  opened : Bool := false
  deriving DecidableEq, Repr

/-- `tunnels` is `tunnels_`, and `built` everything that was ever in it. -/
structure TunnelManager (Flow : Type) where
  tunnels : List (Nat × BuiltTunnel Flow) := []
  built : List (BuiltTunnel Flow) := []
  deriving DecidableEq, Repr

namespace TunnelManager

variable {Flow : Type}

/-- `Build(...).Open()`. A tunnel is known by when it was built. -/
def buildAndOpen (flow : Flow) (m : TunnelManager Flow) : TunnelManager Flow :=
  let tunnel : BuiltTunnel Flow := { localDataFlow := flow, opened := true }
  { tunnels := m.tunnels ++ [(m.built.length, tunnel)], built := m.built ++ [tunnel] }

/-- `NotifyClosed(tunnel)` -/
def notifyClosed (tunnel : Nat) (m : TunnelManager Flow) : TunnelManager Flow :=
  { m with tunnels := m.tunnels.filter fun entry => entry.1 ≠ tunnel }

end TunnelManager

/-- `resolved` lists the flows whose session was given the resolver. -/
structure ProxyManager (Flow : Type) where
  listeners : List TcpListener
  tunnelManager : TunnelManager Flow := {}
  resolved : List Flow := []
  deriving DecidableEq, Repr

namespace ProxyManager

variable {Socket Flow : Type}

/-- The handler of `Run()`. An error is logged, and then the result is followed all the
same: `operator*` asserts that it holds a value. -/
def handler (result : Option Flow) (m : ProxyManager Flow) : Checked (ProxyManager Flow) :=
  match result with
  | none => .error .assertion
  | some flow => .ok { m with
      resolved := m.resolved ++ [flow]
      tunnelManager := m.tunnelManager.buildAndOpen flow }

/-- `Run()` on listeners that are bound. -/
def run (listeners : Nat) : ProxyManager Flow :=
  { listeners := List.replicate listeners (TcpListener.accept {}) }

inductive Event (Socket : Type) where
  | accepted (listener : Nat) (outcome : Accepted Socket)
  | close (listener : Nat)
  | tunnelClosed (tunnel : Nat)
  deriving DecidableEq, Repr

/-- An outstanding accept is aborted by `Close()` only. -/
def Admits (e : Event Socket) (m : ProxyManager Flow) : Prop :=
  match e with
  | .accepted i outcome => ∃ l, m.listeners[i]? = some l ∧ l.accepting = true ∧
      (outcome = .operationAborted → l.closed = true)
  | .close i => ∃ l, m.listeners[i]? = some l
  | .tunnelClosed _ => True

def step (dataFlowHandler : Socket → Flow) (e : Event Socket) (m : ProxyManager Flow) :
    Checked (ProxyManager Flow) :=
  match e with
  | .accepted i outcome => do
    let l ← deref m.listeners[i]?
    let (l, m) ← l.onAccept dataFlowHandler handler outcome m
    return { m with listeners := m.listeners.set i l }
  | .close i => do
    let l ← deref m.listeners[i]?
    return { m with listeners := m.listeners.set i l.close }
  | .tunnelClosed tunnel => .ok { m with tunnelManager := m.tunnelManager.notifyClosed tunnel }

def machine (dataFlowHandler : Socket → Flow) : Machine (ProxyManager Flow) (Event Socket) Fault where
  admits := Admits
  step := step dataFlowHandler

end ProxyManager

end LibNekit.Source
