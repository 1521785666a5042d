import LibNekit.Source.Buffer.Model
import LibNekit.Source.DataFlow.FlowStateMachine

/-!
# Socks5ServerDataFlow

The negotiation of socks5_server_data_flow.cc as a reaction to completions of the
next hop: each callback returns the new state and the one thing it asks for next.

`pendingAuth` holds the first `pending_auth_length_` bytes of the 128-byte array;
the source never reads behind them.
-/
namespace LibNekit.Source

/-- The argument an `Endpoint` is built from, and the port set on it. -/
inductive EndpointHost where
  | addressV4 (bytes : Bytes)
  | addressV6 (bytes : Bytes)
  | host (name : Bytes)
  deriving DecidableEq, Repr

structure SessionEndpoint where
  host : EndpointHost
  port : Nat
  deriving DecidableEq, Repr

namespace Socks5Server

inductive Socks5ServerErrorCode where
  | illegalRequest | unsupportedVersion | unsupportedAuthenticationMethod
  | unsupportedCommand | unsupportedAddressType
  deriving DecidableEq, Repr

inductive NegotiateState where
  | readingVersion | readingRequest
  deriving DecidableEq, Repr

/-- What `Open`'s handler is told. -/
inductive OpenResult where
  | success
  | nextHopError
  | error (code : Socks5ServerErrorCode)
  deriving DecidableEq, Repr

inductive Effect where
  /-- `NegotiateRead()`: ask the next hop for more. -/
  | negotiateRead
  | write (buffer : Buffer)
  | handler (result : OpenResult)
  deriving DecidableEq, Repr

end Socks5Server

open Socks5Server

structure Socks5ServerDataFlow where
  stateMachine : FlowStateMachine
  pendingAuth : Bytes := []
  negotiationState : NegotiateState := .readingVersion
  /-- `session_->endpoint()`, once negotiated. -/
  endpoint : Option SessionEndpoint := none
  deriving DecidableEq, Repr

namespace Socks5ServerDataFlow

/-- `NEKIT_SOCKS5_SERVER_BUFFER_SIZE` -/
def bufferSize : Nat := 128

def pendingAt (flow : Socks5ServerDataFlow) (i : Nat) : Checked UInt8 :=
  match flow.pendingAuth[i]? with
  | some v => .ok v
  | none => .error .outOfBounds

/-- The error exits: `Errored()`, then the handler. -/
def fail (flow : Socks5ServerDataFlow) (code : Socks5ServerErrorCode) :
    Socks5ServerDataFlow × Effect :=
  ({ flow with stateMachine := flow.stateMachine.errored }, .handler (.error code))

def failNextHop (flow : Socks5ServerDataFlow) : Socks5ServerDataFlow × Effect :=
  ({ flow with stateMachine := flow.stateMachine.errored }, .handler .nextHopError)

def appendToAuthBuffer (flow : Socks5ServerDataFlow) (buffer : Buffer) :
    Checked Socks5ServerDataFlow := do
  boostAssert (flow.pendingAuth.length + buffer.size ≤ bufferSize)
  let pendingAuth ← buffer.walkInternalChunk (fun slice pending => .ok (true, pending ++ slice.bytes))
    0 flow.pendingAuth
  return { flow with pendingAuth }

/-- The reply is built in the Buffer of the last read. -/
def methodReply (buffer : Buffer) : Checked Buffer := do
  let shrunk ← buffer.shrinkBack (sizeSub buffer.size 2)
  shrunk.setIndex 1 0

/-- `case NegotiateState::ReadingVersion`. -/
def readVersion (flow : Socks5ServerDataFlow) (buffer : Buffer) :
    Checked (Socks5ServerDataFlow × Effect) := do
  if flow.pendingAuth.length < 3 then return (flow, .negotiateRead)
  if (← flow.pendingAt 0) ≠ 5 then return flow.fail .unsupportedVersion
  let len := (← flow.pendingAt 1).toNat
  if flow.pendingAuth.length < len + 2 then return (flow, .negotiateRead)
  if len + 2 < flow.pendingAuth.length then return flow.fail .illegalRequest
  if ¬(0 ∈ (flow.pendingAuth.drop 2).take len) then
    return flow.fail .unsupportedAuthenticationMethod
  let reply ← methodReply buffer
  return ({ flow with pendingAuth := [] }, .write reply)

/-- The address is in the first `offset` bytes; the port follows. -/
def finishRequest (flow : Socks5ServerDataFlow) (host : EndpointHost) (offset : Nat) :
    Checked (Socks5ServerDataFlow × Effect) := do
  let high ← flow.pendingAt offset
  let low ← flow.pendingAt (offset + 1)
  let stateMachine ← flow.stateMachine.connected
  return ({ flow with stateMachine, endpoint := some ⟨host, high.toNat * 256 + low.toNat⟩ },
    .handler .success)

/-- `case NegotiateState::ReadingRequest`. -/
def readRequest (flow : Socks5ServerDataFlow) : Checked (Socks5ServerDataFlow × Effect) := do
  let length := flow.pendingAuth.length
  if length < 10 then return (flow, .negotiateRead)
  if (← flow.pendingAt 0) ≠ 5 then return flow.fail .unsupportedVersion
  if (← flow.pendingAt 1) ≠ 1 then return flow.fail .unsupportedCommand
  if (← flow.pendingAt 2) ≠ 0 then return flow.fail .illegalRequest
  let type ← flow.pendingAt 3
  if type = 1 then
    if length ≠ 10 then return flow.fail .illegalRequest
    flow.finishRequest (.addressV4 ((flow.pendingAuth.drop 4).take 4)) 8
  else if type = 3 then
    let len := (← flow.pendingAt 4).toNat
    if length < 4 + 1 + len + 2 then return (flow, .negotiateRead)
    if 4 + 1 + len + 2 < length then return flow.fail .illegalRequest
    flow.finishRequest (.host ((flow.pendingAuth.drop 5).take len)) (5 + len)
  else if type = 4 then
    if length < 22 then return (flow, .negotiateRead)
    if 22 < length then return flow.fail .illegalRequest
    flow.finishRequest (.addressV6 ((flow.pendingAuth.drop 4).take 16)) 20
  else return flow.fail .illegalRequest

/-- The completion of the read `NegotiateRead` issued; `none` is an error. -/
def onNegotiateRead (flow : Socks5ServerDataFlow) :
    Option Buffer → Checked (Socks5ServerDataFlow × Effect)
  | none => .ok flow.failNextHop
  | some buffer =>
    if bufferSize < flow.pendingAuth.length + buffer.size then .ok (flow.fail .illegalRequest)
    else do
      let flow ← flow.appendToAuthBuffer buffer
      match flow.negotiationState with
      | .readingVersion => flow.readVersion buffer
      | .readingRequest => flow.readRequest

/-- The completion of the write of the method reply. -/
def onReplyWritten (flow : Socks5ServerDataFlow) (success : Bool) : Socks5ServerDataFlow × Effect :=
  if success then ({ flow with negotiationState := .readingRequest }, .negotiateRead)
  else flow.failNextHop

end Socks5ServerDataFlow

end LibNekit.Source
