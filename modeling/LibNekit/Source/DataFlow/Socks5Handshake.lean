import LibNekit.Library.Machine
import LibNekit.Source.Utils.Endpoint

/-!
# The handshake of Socks5ServerDataFlow

`Open`, the reads of `NegotiateRead` and `Continue` as one machine: the stage says
which callback is owed, and the inputs are the caller's two calls and the completions
of the next hop.
-/
namespace LibNekit.Source

open LibNekit.Library Socks5Server

namespace Socks5Handshake

/-- The callback that is owed, or the handler that was told. -/
inductive Stage where
  | created
  /-- `data_flow_->Open` -/
  | opening
  | reading
  /-- the write of the method reply -/
  | replying
  /-- `Open`'s handler was told success. -/
  | opened
  /-- the write of `Continue` -/
  | responding
  /-- `data_flow_->Continue` -/
  | continuing
  /-- `Continue`'s handler was told success. -/
  | continued
  /-- A handler was told an error. -/
  | failed
  deriving DecidableEq, Repr

inductive Event where
  | callOpen
  | nextOpened (success : Bool)
  /-- `none` is an error. -/
  | read (buffer : Option Buffer)
  | replyWritten (success : Bool)
  | callContinue
  | responseWritten (success : Bool)
  | nextContinued (success : Bool)
  deriving DecidableEq, Repr

/-- The stage that an effect of the negotiation leads to. -/
def Stage.after : Effect → Stage
  | .negotiateRead => .reading
  | .write _ => .replying
  | .handler .success => .opened
  | .handler _ => .failed

end Socks5Handshake

open Socks5Handshake

structure Socks5Handshake where
  flow : Socks5ServerDataFlow
  stage : Socks5Handshake.Stage := .created
  deriving DecidableEq, Repr

namespace Socks5Handshake

def init : Socks5Handshake := { flow := { stateMachine := { type := .local } } }

/-- `Errored()`, then the handler. -/
def fail (h : Socks5Handshake) : Socks5Handshake :=
  { flow := { h.flow with stateMachine := h.flow.stateMachine.errored }, stage := .failed }

/-- `Open(handler)` -/
def callOpen (h : Socks5Handshake) : Checked Socks5Handshake := do
  let stateMachine ← h.flow.stateMachine.connectBegin
  return { flow := { h.flow with stateMachine }, stage := .opening }

def onNextOpened (success : Bool) (h : Socks5Handshake) : Socks5Handshake :=
  if success then { h with stage := .reading } else h.fail

/-- The length and the type byte of the response to the client. -/
def responseShape (endpoint : Endpoint) : Nat × UInt8 :=
  match endpoint.type, endpoint.address with
  | .address, some (.v6 _) => (22, 4)
  | _, _ => (10, 1)

/-- `buffer[i] = 0` for the `i` from `start` to `stop`. -/
def clear (start stop : Nat) (buffer : Buffer) : Checked Buffer :=
  (List.range' start (stop - start)).foldlM (fun buffer i => buffer.setIndex i 0) buffer

/-- The response of `Continue`. The loop stops four bytes early. -/
def response (next : Nat) (endpoint : Endpoint) : Checked (Nat × Buffer) := do
  let (len, type) := responseShape endpoint
  let (next, buffer) := Buffer.make next len
  let buffer ← buffer.setIndex 0 5
  let buffer ← buffer.setIndex 1 0
  let buffer ← buffer.setIndex 2 0
  let buffer ← buffer.setIndex 3 type
  let buffer ← clear 4 (len - 4) buffer
  return (next, buffer)

/-- `Continue(handler)`. The response goes to the next hop and is not looked at
again. -/
def callContinue (text : AddressText) (h : Socks5Handshake) : Checked Socks5Handshake := do
  let endpoint ← deref h.flow.endpoint
  let _ ← response 0 (endpoint.build text)
  return { h with stage := .responding }

def onResponseWritten (success : Bool) (h : Socks5Handshake) : Socks5Handshake :=
  if success then { h with stage := .continuing } else h.fail

def onNextContinued (success : Bool) (h : Socks5Handshake) : Checked Socks5Handshake := do
  if ¬success then return h.fail
  let stateMachine ← h.flow.stateMachine.connected
  return { flow := { h.flow with stateMachine }, stage := .continued }

def step (text : AddressText) : Event → Socks5Handshake → Checked Socks5Handshake
  | .callOpen, h => h.callOpen
  | .nextOpened success, h => .ok (h.onNextOpened success)
  | .read buffer, h => do
    let (flow, effect) ← h.flow.onNegotiateRead buffer
    return ⟨flow, .after effect⟩
  | .replyWritten success, h =>
    let (flow, effect) := h.flow.onReplyWritten success
    .ok ⟨flow, .after effect⟩
  | .callContinue, h => h.callContinue text
  | .responseWritten success, h => .ok (h.onResponseWritten success)
  | .nextContinued success, h => h.onNextContinued success

/-- Only what is owed arrives, and the caller calls `Open` once, and `Continue` after
it succeeded. -/
def Admits (e : Event) (h : Socks5Handshake) : Prop :=
  match e with
  | .callOpen => h.stage = .created
  | .nextOpened _ => h.stage = .opening
  | .read _ => h.stage = .reading
  | .replyWritten _ => h.stage = .replying
  | .callContinue => h.stage = .opened
  | .responseWritten _ => h.stage = .responding
  | .nextContinued _ => h.stage = .continuing

instance (e : Event) (h : Socks5Handshake) : Decidable (h.Admits e) := by
  unfold Admits
  split <;> infer_instance

def machine (text : AddressText) : Machine Socks5Handshake Event Fault :=
  ⟨fun e h => h.Admits e, step text⟩

instance (text : AddressText) (e : Event) (h : Socks5Handshake) :
    Decidable ((machine text).admits e h) := inferInstanceAs (Decidable (h.Admits e))

end Socks5Handshake

end LibNekit.Source
