import LibNekit.Library.Machine
import LibNekit.Source.Utils.Endpoint

/-!
# Resolving an endpoint

`Resolve` and `ForceResolve` of endpoint.cc on one endpoint that many share. Flags of
`Cancelable`s are numbered; flag 0 is the one that the endpoint is created with. A
resolver keeps its requests until they complete, and reports none that is cancelled.

`Requester`s are `TcpConnector`s, whose `Connect` drops the `Cancelable` of `Resolve` and
hands out one of its own, and other users, who keep it.
-/
namespace LibNekit.Source

open LibNekit.Library

/-- What a resolver answers. -/
inductive Resolution.Outcome (Failure : Type) where
  | addresses (addresses : List IpAddress)
  | failed (error : Failure)
  deriving DecidableEq, Repr

open Resolution (Outcome)

/-- `Endpoint` with what `Resolve` is about. -/
structure ResolvingEndpoint (Failure : Type) extends Endpoint where
  resolvedAddresses : Option (List IpAddress) := none
  error : Option Failure := none
  resolved : Bool := false
  resolving : Bool := false
  resolveCancelable : Nat := 0
  deriving DecidableEq, Repr

namespace ResolvingEndpoint

variable {Failure : Type} (e : ResolvingEndpoint Failure)

/-- `IsAddressAvailable()` -/
def isAddressAvailable : Bool := e.type = .address || e.resolvedAddresses.isSome

/-- `IsResolvable()` -/
def isResolvable : Bool := e.type = .address || !(e.resolved && e.resolvedAddresses.isNone)

/-- `address()` -/
def theAddress : Checked IpAddress :=
  match e.type with
  | .address => deref e.address
  | .domain => do
    match ← deref e.resolvedAddresses with
    | [] => .error .outOfBounds
    | front :: _ => .ok front

/-- `ForceResolve`, which gets `cancelable` from the resolver. The endpoint has been given one. -/
def forceResolve (cancelable : Nat) : Checked (ResolvingEndpoint Failure) := do
  boostAssert (e.resolving = false)
  return { e with resolving := true, resolveCancelable := cancelable }

/-- `Resolve` -/
def resolve (cancelable : Nat) : Checked (ResolvingEndpoint Failure) := do
  boostAssert (e.resolved = false ∧ e.resolving = false)
  e.forceResolve cancelable

/-- What the closure of `ForceResolve` notes. -/
def settle (outcome : Outcome Failure) : ResolvingEndpoint Failure :=
  match outcome with
  | .failed error => { e with
      resolving := false, resolved := true, error := some error, resolvedAddresses := none }
  | .addresses addresses => { e with
      resolving := false, resolved := true, resolvedAddresses := some addresses }

end ResolvingEndpoint

namespace Resolution

/-- A request to the resolver, with the flag that the endpoint's closure captured. -/
structure Request where
  cancelable : Nat
  captured : Nat
  requester : Nat
  deriving DecidableEq, Repr

inductive Kind where
  | connector | user
  deriving DecidableEq, Repr

/-- `cancelable` is the flag that the requester's caller was handed. -/
structure Requester (Failure : Type) where
  kind : Kind
  cancelable : Option Nat
  answers : List (Outcome Failure) := []
  deriving DecidableEq, Repr

inductive Event (Failure : Type) where
  | request (kind : Kind)
  | complete (request : Nat) (outcome : Outcome Failure)
  /-- A connector's posted report that resolving had failed already. -/
  | posted
  | cancel (requester : Nat)
  deriving DecidableEq, Repr

end Resolution

open Resolution

/-- The endpoint, its users and the resolver. `outcomes` is what the endpoint was told. -/
structure Resolution (Failure : Type) where
  endpoint : ResolvingEndpoint Failure
  canceled : List Bool := [false]
  requests : List Request := []
  requesters : List (Requester Failure) := []
  posts : List (Nat × Failure) := []
  outcomes : List (Outcome Failure) := []
  deriving DecidableEq, Repr

namespace Resolution

variable {Failure : Type}

def isCanceled (s : Resolution Failure) (flag : Nat) : Bool := s.canceled.getD flag false

/-- The handler of a requester. -/
def answer (i : Nat) (outcome : Outcome Failure) (s : Resolution Failure) : Resolution Failure :=
  { s with requesters := s.requesters.modify i fun r => { r with answers := r.answers ++ [outcome] } }

/-- `ForceResolve(handler)`. The closure captures `resolve_cancelable_` before it becomes
the resolver's. -/
def forceResolve (requester : Nat) (s : Resolution Failure) : Checked (Nat × Resolution Failure) := do
  let cancelable := s.canceled.length
  let request : Request := { cancelable, captured := s.endpoint.resolveCancelable, requester }
  let endpoint ← s.endpoint.forceResolve cancelable
  return (cancelable, { s with endpoint, canceled := s.canceled ++ [false], requests := s.requests ++ [request] })

/-- `Resolve(handler)` -/
def resolve (requester : Nat) (s : Resolution Failure) : Checked (Nat × Resolution Failure) := do
  boostAssert (s.endpoint.resolved = false ∧ s.endpoint.resolving = false)
  forceResolve requester s

/-- The closure that `ForceResolve` hands to the resolver. -/
def onResolved (request : Request) (outcome : Outcome Failure) (s : Resolution Failure) :
    Resolution Failure × Bool :=
  if s.isCanceled request.captured then (s, false)
  else ({ s with endpoint := s.endpoint.settle outcome, outcomes := s.outcomes ++ [outcome] }, true)

/-- A connector's closure looks at the connector's flag first. -/
def deliver (i : Nat) (outcome : Outcome Failure) (s : Resolution Failure) : Resolution Failure :=
  match s.requesters[i]? with
  | some ⟨.connector, some flag, _⟩ => if s.isCanceled flag then s else s.answer i outcome
  | _ => s.answer i outcome

/-- The resolver completes a request. -/
def complete (k : Nat) (outcome : Outcome Failure) (s : Resolution Failure) : Checked (Resolution Failure) := do
  let request ← deref s.requests[k]?
  let s := { s with requests := s.requests.eraseIdx k }
  if s.isCanceled request.cancelable then return s
  else
    let (s, goesOn) := s.onResolved request outcome
    return if goesOn then s.deliver request.requester outcome else s

/-- `TcpConnector::Connect`, up to `DoConnect`. -/
def connect (s : Resolution Failure) : Checked (Resolution Failure) := do
  let i := s.requesters.length
  let requester : Requester Failure := { kind := .connector, cancelable := some s.canceled.length }
  let s := { s with canceled := s.canceled ++ [false], requesters := s.requesters ++ [requester] }
  if s.endpoint.isAddressAvailable then
    return s.answer i (.addresses (s.endpoint.resolvedAddresses.getD []))
  else if ¬s.endpoint.isResolvable then do
    let error ← deref s.endpoint.error
    return { s with posts := s.posts ++ [(i, error)] }
  else do
    let (_, s) ← s.resolve i
    return s

/-- Another user that makes the same tests. -/
def use (s : Resolution Failure) : Checked (Resolution Failure) := do
  let i := s.requesters.length
  let requester : Requester Failure := { kind := .user, cancelable := none }
  let s := { s with requesters := s.requesters ++ [requester] }
  if s.endpoint.isAddressAvailable then
    return s.answer i (.addresses (s.endpoint.resolvedAddresses.getD []))
  else if ¬s.endpoint.isResolvable then do
    let error ← deref s.endpoint.error
    return s.answer i (.failed error)
  else do
    let (cancelable, s) ← s.resolve i
    return { s with requesters := s.requesters.modify i fun r => { r with cancelable := some cancelable } }

/-- `Cancel()` on what the requester's caller holds. -/
def cancel (i : Nat) (s : Resolution Failure) : Resolution Failure :=
  match s.requesters[i]?.bind Requester.cancelable with
  | some flag => { s with canceled := s.canceled.set flag true }
  | none => s

/-- The report that `Connect` posted. -/
def runPost (s : Resolution Failure) : Checked (Resolution Failure) :=
  match s.posts with
  | [] => .ok s
  | (i, error) :: posts => .ok ({ s with posts }.deliver i (.failed error))

def step : Event Failure → Resolution Failure → Checked (Resolution Failure)
  | .request .connector, s => s.connect
  | .request .user, s => s.use
  | .complete k outcome, s => s.complete k outcome
  | .posted, s => s.runPost
  | .cancel i, s => .ok (s.cancel i)

def Admits (e : Event Failure) (s : Resolution Failure) : Prop :=
  match e with
  | .request _ => True
  | .complete k _ => k < s.requests.length
  | .posted => s.posts ≠ []
  | .cancel i => i < s.requesters.length

def machine : Machine (Resolution Failure) (Event Failure) Fault where
  admits := Admits
  step := step

/-- An endpoint for a domain that nobody has used. -/
def start (domain : Bytes) (port : Nat) : Resolution Failure :=
  { endpoint := { type := .domain, domain, address := none, port } }

end Resolution

end LibNekit.Source
