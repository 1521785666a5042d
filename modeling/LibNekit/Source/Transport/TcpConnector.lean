import LibNekit.Library.Machine
import LibNekit.Source.Utils.Resolution

/-!
# TcpConnector

tcp_connector.cc. The connector has its endpoint to itself, so the flags of the resolver's
`Cancelable`s do not matter here.
-/
namespace LibNekit.Source

open LibNekit.Library

/-- The `boost::system::error_code`s of a connection attempt that fails. -/
inductive SocketError where
  | operationAborted
  | other (value : Nat)
  deriving DecidableEq, Repr

namespace TcpConnector

inductive Stage where
  | created
  /-- `endpoint_->Resolve` -/
  | resolving
  /-- the posted report that resolving had failed already -/
  | reporting
  /-- `socket_.async_connect` -/
  | connecting (address : IpAddress)
  /-- The last callback is gone. -/
  | done
  deriving DecidableEq, Repr

/-- What the handler is given. -/
inductive Answer (Failure : Type) where
  | socket (address : IpAddress)
  /-- `FromBoostError(last_error_)`; `none` is the code of an `error_code` that was never set. -/
  | boostError (error : Option SocketError)
  | resolveError (error : Failure)
  deriving DecidableEq, Repr

inductive Event (Failure : Type) where
  | connect
  | resolved (outcome : Resolution.Outcome Failure)
  | posted
  /-- `none` is success. -/
  | connected (error : Option SocketError)
  | cancel
  deriving DecidableEq, Repr

end TcpConnector

open TcpConnector

/-- `attempts` are the addresses given to `async_connect`, `answers` the calls of the
handler. -/
structure TcpConnector (Failure : Type) where
  addresses : Option (List IpAddress) := none
  address : IpAddress := .v4 [0, 0, 0, 0]
  endpoint : Option (ResolvingEndpoint Failure) := none
  lastError : Option SocketError := none
  currentInd : Nat := 0
  connecting : Bool := false
  canceled : Bool := false
  stage : TcpConnector.Stage := .created
  attempts : List IpAddress := []
  answers : List (TcpConnector.Answer Failure) := []
  deriving DecidableEq, Repr

namespace TcpConnector

variable {Failure : Type}

/-- `TcpConnector(runloop, addresses, port)` -/
def ofAddresses (addresses : List IpAddress) : Checked (TcpConnector Failure) := do
  boostAssert (addresses ≠ [])
  return { addresses := some addresses }

/-- `TcpConnector(runloop, address, port)` -/
def ofAddress (address : IpAddress) : TcpConnector Failure := { address }

/-- `TcpConnector(runloop, endpoint)` -/
def ofEndpoint (endpoint : ResolvingEndpoint Failure) : TcpConnector Failure := { endpoint := some endpoint }

/-- `handler(..)` -/
def tell (answer : Answer Failure) (c : TcpConnector Failure) : TcpConnector Failure :=
  { c with stage := .done, answers := c.answers ++ [answer] }

/-- A callback that finds the connector cancelled. -/
def drop (c : TcpConnector Failure) : TcpConnector Failure := { c with stage := .done }

/-- `(!addresses_ && current_ind_) || (addresses_ && current_ind_ >= addresses_->size())` -/
def exhausted (c : TcpConnector Failure) : Bool :=
  match c.addresses with
  | none => c.currentInd ≠ 0
  | some addresses => c.currentInd ≥ addresses.length

/-- `addresses_->at(current_ind_)` or `address_` -/
def nextAddress (c : TcpConnector Failure) : Checked IpAddress :=
  match c.addresses with
  | none => .ok c.address
  | some addresses =>
    match addresses[c.currentInd]? with
    | some address => .ok address
    | none => .error .outOfBounds

/-- `DoConnect(handler)` -/
def doConnect (c : TcpConnector Failure) : Checked (TcpConnector Failure) :=
  if c.canceled then .ok { c.drop with connecting := false }
  else if c.exhausted then .ok ({ c with connecting := true }.tell (.boostError c.lastError))
  else do
    let address ← c.nextAddress
    return { c with connecting := true, stage := .connecting address, attempts := c.attempts ++ [address] }

/-- `Connect(handler)` -/
def connect (c : TcpConnector Failure) : Checked (TcpConnector Failure) := do
  boostAssert (c.connecting = false)
  match c.endpoint with
  | some endpoint =>
    if endpoint.isAddressAvailable then
      match endpoint.type with
      | .address => do
        let address ← endpoint.theAddress
        doConnect { c with address }
      | .domain => doConnect { c with addresses := endpoint.resolvedAddresses }
    else if ¬endpoint.isResolvable then .ok { c with stage := .reporting }
    else do
      let endpoint ← endpoint.resolve (endpoint.resolveCancelable + 1)
      return { c with endpoint := some endpoint, stage := .resolving }
  | none => doConnect c

/-- The callback of `Resolve`. -/
def onResolved (outcome : Resolution.Outcome Failure) (c : TcpConnector Failure) : Checked (TcpConnector Failure) := do
  let endpoint := (← deref c.endpoint).settle outcome
  let c := { c with endpoint := some endpoint }
  if c.canceled then return c.drop
  match outcome with
  | .failed error => return c.tell (.resolveError error)
  | .addresses _ => doConnect { c with addresses := endpoint.resolvedAddresses }

/-- The report that `Connect` posted. -/
def onPosted (c : TcpConnector Failure) : Checked (TcpConnector Failure) := do
  if c.canceled then return c.drop
  let endpoint ← deref c.endpoint
  return c.tell (.resolveError (← deref endpoint.error))

/-- The callback of `async_connect`. -/
def onConnected (address : IpAddress) (error : Option SocketError) (c : TcpConnector Failure) :
    Checked (TcpConnector Failure) :=
  if c.canceled then .ok c.drop
  else match error with
  | some .operationAborted => .ok c.drop
  | some error => doConnect { c with lastError := some error, currentInd := c.currentInd + 1 }
  | none => .ok ({ c with connecting := false }.tell (.socket address))

def step (e : Event Failure) (c : TcpConnector Failure) : Checked (TcpConnector Failure) :=
  match e with
  | .connect => c.connect
  | .resolved outcome => c.onResolved outcome
  | .posted => c.onPosted
  | .connected error =>
    match c.stage with
    | .connecting address => c.onConnected address error
    | _ => .ok c
  | .cancel => .ok { c with canceled := true }

/-- `Connect` is called once, and only what is outstanding arrives. -/
def Admits (e : Event Failure) (c : TcpConnector Failure) : Prop :=
  match e with
  | .connect => c.stage = .created
  | .resolved _ => c.stage = .resolving
  | .posted => c.stage = .reporting
  | .connected _ => ∃ address, c.stage = .connecting address
  | .cancel => True

def machine : Machine (TcpConnector Failure) (Event Failure) Fault := ⟨Admits, step⟩

instance (e : Event Failure) (c : TcpConnector Failure) : Decidable (machine.admits e c) :=
  match e with
  | .connect => inferInstanceAs (Decidable (c.stage = .created))
  | .resolved _ => inferInstanceAs (Decidable (c.stage = .resolving))
  | .posted => inferInstanceAs (Decidable (c.stage = .reporting))
  | .connected _ =>
    match h : c.stage with
    | .connecting address => .isTrue ⟨address, h⟩
    | .created | .resolving | .reporting | .done => .isFalse fun ⟨address, is⟩ => by
      rw [h] at is
      cases is
  | .cancel => .isTrue trivial

end TcpConnector

end LibNekit.Source
