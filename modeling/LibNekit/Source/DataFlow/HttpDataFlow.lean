import LibNekit.Library.Machine
import LibNekit.Source.DataFlow.FlowStateMachine
import LibNekit.Source.Rewriter.Model
import LibNekit.Source.Utils.Endpoint

/-!
# HttpDataFlow

`Connect` and `ReadResponse` of http_data_flow.cc. The rewriter is used for what its
callbacks find out about the response. The state machine of the next hop is part of
the state, since `StateMachine()` hands it out.
-/
namespace LibNekit.Source

open LibNekit.Library Rewriter

namespace HttpDataFlow

inductive HttpErrorCode where
  | invalidResponse | connectError
  deriving DecidableEq, Repr

/-- What `Connect`'s handler is told. -/
inductive ConnectResult where
  | success
  | nextHopError
  | rewriterError (error : RewriterError)
  | error (code : HttpErrorCode)
  deriving DecidableEq, Repr

/-- What the rewriter's callbacks set. -/
structure Response where
  finished : Bool := false
  success : Bool := false
  headerOffset : Nat := 0
  deriving DecidableEq, Repr

inductive Stage where
  | created
  /-- `data_flow_->Connect` -/
  | connecting
  /-- `data_flow_->Write` of the request -/
  | requesting (request : Buffer)
  /-- `data_flow_->Read` -/
  | reading
  /-- The handler was told. -/
  | finished (result : ConnectResult)
  deriving DecidableEq, Repr

/-- The result of a read of the next hop. -/
inductive ReadResult where
  | data (buffer : Buffer)
  | endOfFile
  | error
  deriving DecidableEq, Repr

/-- `nextHop` is the next hop's state machine after the completion, and `next` the
first address that no chunk has used. -/
inductive Event where
  | callConnect
  | nextConnected (success : Bool) (nextHop : FlowStateMachine) (next : Nat)
  | written (success : Bool) (nextHop : FlowStateMachine)
  | read (result : ReadResult) (nextHop : FlowStateMachine) (next : Nat)
  deriving DecidableEq, Repr

/-- `boost::istarts_with(token, "200")` -/
def startsWith200 (token : Bytes) : Bool := token.take 3 = ascii "200"

def succeed : DelegateCall Response := fun r d => .ok (true, r, d)

/-- `HttpHeaderRewriterDelegate` -/
def delegate : Delegate Response where
  onMethod := fun r d => .ok (false, r, d)
  onUrl := fun r d => .ok (false, r, d)
  onVersion := succeed
  onStatus := fun r d => do
    let token ← r.currentToken
    return (true, r, { d with success := startsWith200 token })
  onHeaderPair := succeed
  onHeaderComplete := succeed
  onMessageComplete := fun bufferOffset _ r d =>
    .ok (true, r, { d with headerOffset := bufferOffset, finished := true })

/-- A number printed by an output stream. -/
def decimal (n : Nat) : Bytes := ascii (toString n)

/-- The CONNECT request. `authorization` is the encoded credential. -/
def connectRequest (endpoint : Endpoint) (authorization : Option Bytes) : Bytes :=
  let server := endpoint.domain ++ ascii ":" ++ decimal endpoint.port
  ascii "CONNECT " ++ server ++ ascii " HTTP/1.1\r\n" ++ ascii "Host: " ++ server ++ ascii "\r\n" ++
    (match authorization with
    | some encoded => ascii "Proxy-Authorization: Basic " ++ encoded ++ ascii "\r\n"
    | none => []) ++ ascii "\r\n"

end HttpDataFlow

open HttpDataFlow

structure HttpDataFlow where
  targetEndpoint : Endpoint
  authorization : Option Bytes := none
  stateMachine : FlowStateMachine := { type := .remote }
  nextHop : FlowStateMachine
  rewriter : HttpMessageStreamRewriter HttpDataFlow.Response
  pendingPayload : Buffer := .empty
  stage : HttpDataFlow.Stage := .created

namespace HttpDataFlow

/-- A new flow, over a next hop that was not used yet. -/
def init (targetEndpoint : Endpoint) (authorization : Option Bytes) : HttpDataFlow where
  targetEndpoint
  authorization
  nextHop := { type := .remote }
  rewriter :=
    let rewriter := HttpMessageStreamRewriter.make .response {}
    { rewriter with impl.skipBody := true }

/-- `Errored()`, then the handler. -/
def fail (f : HttpDataFlow) (result : ConnectResult) : HttpDataFlow :=
  { f with stateMachine := f.stateMachine.errored, stage := .finished result }

/-- `Connect(endpoint, handler)` -/
def callConnect (f : HttpDataFlow) : Checked HttpDataFlow := do
  let stateMachine ← f.stateMachine.connectBegin
  return { f with stateMachine, stage := .connecting }

def onNextConnected (success : Bool) (next : Nat) (f : HttpDataFlow) : Checked HttpDataFlow := do
  if ¬success then return f.fail .nextHopError
  let request := connectRequest f.targetEndpoint f.authorization
  let buffer ← (Buffer.make next request.length).2.setData 0 request
  return { f with stage := .requesting buffer }

def onWritten (success : Bool) (f : HttpDataFlow) : HttpDataFlow :=
  if success then { f with stage := .reading } else f.fail .nextHopError

/-- `finish_response_` is set: `buffer` is what the rewriter left. -/
def finishResponse (buffer : Buffer) (f : HttpDataFlow) : Checked HttpDataFlow := do
  if f.rewriter.delegate.success then
    let buffer ← buffer.shrinkFront f.rewriter.delegate.headerOffset
    let f := if buffer.size ≠ 0 then { f with pendingPayload := buffer } else f
    let stateMachine ← f.stateMachine.connected
    return { f with stateMachine, stage := .finished .success }
  else return f.fail (.error .connectError)

/-- The completion of the read in `ReadResponse`. -/
def onRead (next : Nat) (f : HttpDataFlow) : ReadResult → Checked HttpDataFlow
  | .endOfFile => .ok (f.fail (.error .invalidResponse))
  | .error => .ok (f.fail .nextHopError)
  | .data buffer => do
    let (result, rewriter) ← f.rewriter.rewriteBuffer delegate next buffer
    let f := { f with rewriter }
    match result with
    | .error error => return f.fail (.rewriterError error)
    | .ok () =>
      if rewriter.delegate.finished then f.finishResponse rewriter.impl.currentBuffer
      else return { f with stage := .reading }

/-- A completion that is not owed is ignored; `Admits` excludes it. -/
def step (e : Event) (f : HttpDataFlow) : Checked HttpDataFlow :=
  match e, f.stage with
  | .callConnect, .created => f.callConnect
  | .nextConnected success nextHop next, .connecting => { f with nextHop }.onNextConnected success next
  | .written success nextHop, .requesting _ => .ok ({ f with nextHop }.onWritten success)
  | .read result nextHop next, .reading => { f with nextHop }.onRead next result
  | _, _ => .ok f

/-- `StateMachine()` -/
def exposed (f : HttpDataFlow) : FlowStateMachine :=
  if f.stateMachine.state ≠ .established then f.stateMachine else f.nextHop

end HttpDataFlow

end LibNekit.Source
