import LibNekit.Library.Machine
import LibNekit.Source.Runtime

/-!
# The operations of a data flow, by their Cancelables

The five data flows once more, reduced to what decides which callbacks still run: the
flags of the `Cancelable`s, which of them a callback is told to look at, and what it
starts next. What a callback finds in its data is an input here.

A next hop keeps to the contract itself, so it does not complete an operation whose own
`Cancelable` is cancelled. The runloop and the sockets complete everything.
-/
namespace LibNekit.Source

open LibNekit.Library

namespace Operations

inductive Class where
  | tcpSocket | socks5Server | httpServer | socks5 | http
  deriving DecidableEq, Repr

def Class.isServer : Class → Bool
  | .socks5Server | .httpServer => true
  | _ => false

/-- How `TcpConnector::Connect` begins. -/
inductive ConnectPath where
  | resolve | unresolvable | attempt | exhausted
  deriving DecidableEq, Repr

/-- `isConnect` is the `is_connect_` of an HTTP server, and `firstHeader` says whether its
`first_header_` holds something. -/
inductive Call where
  | «open»
  | «continue» (isConnect : Bool)
  | connect (path : ConnectPath)
  | read (firstHeader : Bool)
  | write
  | closeWrite
  deriving DecidableEq, Repr

/-- The callbacks, by what they wait for. -/
inductive Link where
  /-- a task that `TcpSocket` or `HttpServerDataFlow` posts -/
  | posted
  | socketRead | socketWritten
  /-- `TcpConnector`: the resolver, and `async_connect` -/
  | resolved | attempted
  /-- the next hop's `Read`, `Write` or `CloseWrite` for one's own -/
  | nextRead | nextWritten | nextWriteClosed
  /-- a server's negotiation -/
  | nextOpened | negotiateRead | methodReply
  /-- a server's response in `Continue` -/
  | response | nextContinued
  | nextConnected
  /-- `Socks5DataFlow::DoNegotiation` -/
  | greeting | method | request | reply | rest
  /-- `HttpDataFlow::Connect` and `ReadResponse` -/
  | connectRequest | connectResponse
  deriving DecidableEq, Repr

/-- What a callback finds. -/
inductive Outcome where
  | failed | endOfFile | finished
  /-- It has to read, or try, once more. -/
  | again
  /-- It goes on to the next link. -/
  | goesOn
  /-- `operation_aborted` -/
  | aborted
  deriving DecidableEq, Repr

/-- What it does then. -/
inductive Reaction where
  | answer
  | start (link : Link)
  | nothing
  deriving DecidableEq, Repr

/-- The callbacks' bodies. -/
def react (kind : Class) : Link → Outcome → Reaction
  | .resolved, .goesOn => .start .attempted
  | .attempted, .again => .start .attempted
  | .attempted, .aborted => .nothing
  | .nextOpened, .goesOn => .start .negotiateRead
  | .negotiateRead, .again => .start .negotiateRead
  | .negotiateRead, .goesOn => if kind = .socks5Server then .start .methodReply else .answer
  | .methodReply, .goesOn => .start .negotiateRead
  | .response, .goesOn => .start .nextContinued
  | .nextConnected, .goesOn => if kind = .socks5 then .start .greeting else .start .connectRequest
  | .greeting, .goesOn => .start .method
  | .method, .goesOn => .start .request
  | .request, .goesOn => .start .reply
  | .reply, .goesOn => .start .rest
  | .connectRequest, .goesOn => .start .connectResponse
  | .connectResponse, .again => .start .connectResponse
  | _, _ => .answer

/-- A callback that waits. `own` is the flag that the next hop handed out for it, and
`captured` the one it looks at first. -/
structure Callback where
  link : Link
  operation : Nat
  own : Option Nat := none
  captured : Option Nat := none
  deriving DecidableEq, Repr

/-- `cancelable` is what the caller has. `late` counts the invocations of the handler after
the caller's `Cancel()`. -/
structure Operation where
  call : Call
  cancelable : Nat
  withdrawn : Bool := false
  answers : Nat := 0
  late : Nat := 0
  deriving DecidableEq, Repr

/-- The data members that are `Cancelable`s. -/
structure Members where
  openCancelable : Nat := 0
  readCancelable : Nat := 1
  writeCancelable : Nat := 2
  connectCancelable : Nat := 3
  deriving DecidableEq, Repr

inductive Event where
  | call (call : Call)
  | complete (callback : Nat) (outcome : Outcome)
  | cancel (operation : Nat)
  deriving DecidableEq, Repr

end Operations

open Operations

/-- A flow with its callbacks. `handler` is the operation whose handler is in `handler_`. -/
structure Operations where
  kind : Operations.Class
  canceled : List Bool := [false, false, false, false]
  members : Members := {}
  handler : Option Nat := none
  pending : List Callback := []
  operations : List Operation := []
  deriving DecidableEq, Repr

namespace Operations

def isCanceled (s : Operations) (flag : Nat) : Bool := s.canceled.getD flag false

def cancelFlag (flag : Nat) (s : Operations) : Operations := { s with canceled := s.canceled.set flag true }

/-- A new `Cancelable`. -/
def newFlag (s : Operations) : Nat × Operations :=
  (s.canceled.length, { s with canceled := s.canceled ++ [false] })

/-- An operation of the next hop, which hands out a new `Cancelable`. -/
def await (link : Link) (operation : Nat) (captured : Option Nat) (s : Operations) : Nat × Operations :=
  let (own, s) := s.newFlag
  (own, { s with pending := s.pending ++ [{ link, operation, own := some own, captured }] })

/-- A task or a socket operation, whose callback looks at a flag of the flow. -/
def post (link : Link) (operation flag : Nat) (s : Operations) : Operations :=
  { s with pending := s.pending ++ [{ link, operation, captured := some flag }] }

/-- The handler of an operation. -/
def answer (operation : Nat) (s : Operations) : Operations :=
  { s with operations := s.operations.modify operation fun op =>
    { op with answers := op.answers + 1, late := if op.withdrawn then op.late + 1 else op.late } }

/-- The operation that a call is, whose caller is handed `cancelable`. -/
def hand (call : Call) (cancelable : Nat) (s : Operations) : Operations :=
  { s with operations := s.operations ++ [{ call, cancelable }] }

/-! ## Calls -/

/-- `Open` -/
def «open» (s : Operations) : Operations :=
  let i := s.operations.length
  if s.kind = .tcpSocket then
    let (flag, s) := s.newFlag
    (s.post .posted i flag).hand .open flag
  else
    let handler := if s.kind = .httpServer then some i else s.handler
    let (own, s) := s.await .nextOpened i none
    { s.hand .open own with members.openCancelable := own, handler }

/-- `Continue` -/
def «continue» (isConnect : Bool) (s : Operations) : Operations :=
  let i := s.operations.length
  if s.kind = .tcpSocket then
    let (flag, s) := s.newFlag
    (s.post .posted i flag).hand (.continue isConnect) flag
  else if s.kind = .socks5Server then
    let (own, s) := s.await .response i none
    { s.hand (.continue isConnect) own with members.openCancelable := own, handler := some i }
  else if isConnect then
    let (own, s) := s.await .response i none
    { s.hand (.continue isConnect) own with members.openCancelable := own }
  else
    let (own, s) := s.await .nextContinued i (some s.members.openCancelable)
    { s.hand (.continue isConnect) own with members.openCancelable := own }

/-- `Connect`. The connector of a socket works with a `Cancelable` of its own, and drops
the resolver's. -/
def connect (path : ConnectPath) (s : Operations) : Operations :=
  let i := s.operations.length
  match s.kind with
  | .socks5 =>
    let flag := s.members.connectCancelable
    ((s.await .nextConnected i (some flag)).2).hand (.connect path) flag
  | .http =>
    let (flag, s) := s.newFlag
    let s := ((s.await .nextConnected i (some flag)).2).hand (.connect path) flag
    { s with members.connectCancelable := flag }
  | _ =>
    let (flag, s) := s.newFlag
    let s := match path with
      | .resolve => ((s.await .resolved i (some flag)).2).hand (.connect path) flag
      | .unresolvable => (s.post .posted i flag).hand (.connect path) flag
      | .attempt => (s.post .attempted i flag).hand (.connect path) flag
      | .exhausted => (s.hand (.connect path) flag).answer i
    { s with members.connectCancelable := flag }

/-- `Read` -/
def read (firstHeader : Bool) (s : Operations) : Operations :=
  let i := s.operations.length
  if s.kind = .tcpSocket ∨ s.kind = .httpServer ∧ firstHeader then
    let (flag, s) := s.newFlag
    let link : Link := if s.kind = .tcpSocket then .socketRead else .posted
    { (s.post link i flag).hand (.read firstHeader) flag with members.readCancelable := flag }
  else
    let (own, s) := s.await .nextRead i none
    { s.hand (.read firstHeader) own with members.readCancelable := own }

/-- `Write` and `CloseWrite` -/
def write (call : Call) (socketLink nextLink : Link) (s : Operations) : Operations :=
  let i := s.operations.length
  if s.kind = .tcpSocket then
    let (flag, s) := s.newFlag
    { (s.post socketLink i flag).hand call flag with members.writeCancelable := flag }
  else
    let (own, s) := s.await nextLink i none
    { s.hand call own with members.writeCancelable := own }

def call : Call → Operations → Operations
  | .open, s => s.open
  | .continue isConnect, s => s.continue isConnect
  | .connect path, s => s.connect path
  | .read firstHeader, s => s.read firstHeader
  | .write, s => s.write .write .socketWritten .nextWritten
  | .closeWrite, s => s.write .closeWrite .posted .nextWriteClosed

/-! ## Completions -/

/-- A failed read takes the write with it, and the other way round, where the source says so. -/
def sideEffect (link : Link) (outcome : Outcome) (s : Operations) : Operations :=
  match link, outcome with
  | .socketRead, .failed => s.cancelFlag s.members.writeCancelable
  | .socketWritten, .failed => s.cancelFlag s.members.readCancelable
  | .nextRead, .failed => if s.kind.isServer then s.cancelFlag s.members.writeCancelable else s
  | .nextWritten, .failed => if s.kind = .socks5Server then s.cancelFlag s.members.readCancelable else s
  | _, _ => s

/-- The handler that a callback invokes: a captured one, or the one in `handler_`. -/
def invoke (callback : Callback) (s : Operations) : Checked Operations :=
  match callback.link with
  | .negotiateRead | .methodReply => do return s.answer (← deref s.handler)
  | .nextOpened => if s.kind = .httpServer then do return s.answer (← deref s.handler)
    else return s.answer callback.operation
  | .response | .nextContinued => if s.kind = .socks5Server then do return s.answer (← deref s.handler)
    else return s.answer callback.operation
  | _ => return s.answer callback.operation

/-- A callback starts the next link. It hands on the flag it captured, or captures a data
member anew. -/
def goOn (callback : Callback) (link : Link) (s : Operations) : Operations :=
  let i := callback.operation
  match link with
  | .negotiateRead =>
    let s := if callback.link = .nextOpened ∧ s.kind = .socks5Server then { s with handler := some i } else s
    let (own, s) := s.await link i none
    { s with members.readCancelable := own }
  | .methodReply =>
    let (own, s) := s.await link i none
    { s with members.writeCancelable := own }
  | .nextContinued =>
    let (own, s) := s.await link i (some s.members.openCancelable)
    { s with members.writeCancelable := own }
  | .greeting | .connectResponse => (s.await link i (some s.members.connectCancelable)).2
  | .attempted => { s with pending := s.pending ++ [{ link, operation := i, captured := callback.captured }] }
  | _ => (s.await link i callback.captured).2

def complete (k : Nat) (outcome : Outcome) (s : Operations) : Checked Operations := do
  let callback ← deref s.pending[k]?
  let s := { s with pending := s.pending.eraseIdx k }
  if callback.captured.any s.isCanceled then return s
  let s := s.sideEffect callback.link outcome
  match react s.kind callback.link outcome with
  | .answer => s.invoke callback
  | .start link => return s.goOn callback link
  | .nothing => return s

/-- `Cancel()` by the caller. -/
def cancel (i : Nat) (s : Operations) : Checked Operations := do
  let op ← deref s.operations[i]?
  let s := s.cancelFlag op.cancelable
  return { s with operations := s.operations.set i { op with withdrawn := true } }

def step : Event → Operations → Checked Operations
  | .call c, s => .ok (s.call c)
  | .complete k outcome, s => s.complete k outcome
  | .cancel i, s => s.cancel i

/-- A flow is opened and continued, or connected, once, and in that order. -/
def Admits (e : Event) (s : Operations) : Prop :=
  match e with
  | .call .open => (s.kind = .tcpSocket ∨ s.kind.isServer = true) ∧ ∀ op ∈ s.operations, op.call ≠ .open
  | .call (.continue _) => (s.kind = .tcpSocket ∨ s.kind.isServer = true) ∧
      (∀ op ∈ s.operations, ∀ b, op.call ≠ .continue b) ∧ ∃ op ∈ s.operations, op.call = .open ∧ op.answers ≠ 0
  | .call (.connect _) => s.kind.isServer = false ∧ ∀ op ∈ s.operations, ∀ path, op.call ≠ .connect path
  | .call _ => True
  | .complete k _ => ∃ callback, s.pending[k]? = some callback ∧ ∀ own, callback.own = some own → s.isCanceled own = false
  | .cancel i => i < s.operations.length

def machine : Machine Operations Event Fault where
  admits := Admits
  step := step

end Operations

end LibNekit.Source
