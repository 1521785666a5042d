import LibNekit.Source.DataFlow.Socks5Server

/-!
# What `NegotiateRead` makes of a request

`ReadingRequest` starts from the accumulated bytes on every chunk. `verdict` is its
decision on them; the flow turns it into a reaction.
-/
namespace LibNekit

open LibNekit.Source

namespace Source.Socks5Server

inductive Verdict where
  | more
  | error (code : Socks5ServerErrorCode)
  | request (host : EndpointHost) (port : Nat)
  deriving DecidableEq, Repr

/-- The port behind the first `offset` bytes. -/
def portAt (pending : Bytes) (offset : Nat) : Nat :=
  (pending.getD offset 0).toNat * 256 + (pending.getD (offset + 1) 0).toNat

/-- A request of a fixed length whose address has `size` bytes. -/
def fixedVerdict (pending : Bytes) (size : Nat) (host : Bytes → EndpointHost) : Verdict :=
  if pending.length < 4 + size + 2 then .more
  else if 4 + size + 2 < pending.length then .error .illegalRequest
  else .request (host ((pending.drop 4).take size)) (portAt pending (4 + size))

/-- The verdict on the address, once the first three bytes are right. -/
def addressVerdict (pending : Bytes) (type : UInt8) : Verdict :=
  if type = 1 then fixedVerdict pending 4 .addressV4
  else if type = 3 then
    let len := (pending.getD 4 0).toNat
    if pending.length < 4 + 1 + len + 2 then .more
    else if 4 + 1 + len + 2 < pending.length then .error .illegalRequest
    else .request (.host ((pending.drop 5).take len)) (portAt pending (5 + len))
  else if type = 4 then fixedVerdict pending 16 .addressV6
  else .error .illegalRequest

def verdict (pending : Bytes) : Verdict :=
  if pending.length < 10 then .more
  else if pending.getD 0 0 ≠ 5 then .error .unsupportedVersion
  else if pending.getD 1 0 ≠ 1 then .error .unsupportedCommand
  else if pending.getD 2 0 ≠ 0 then .error .illegalRequest
  else addressVerdict pending (pending.getD 3 0)

end Source.Socks5Server

namespace Source.Socks5ServerDataFlow

open LibNekit.Source.Socks5Server

/-- The reaction to a verdict. -/
def react (flow : Socks5ServerDataFlow) : Verdict → Checked (Socks5ServerDataFlow × Effect)
  | .more => .ok (flow, .negotiateRead)
  | .error code => .ok (flow.fail code)
  | .request host port => do
    let stateMachine ← flow.stateMachine.connected
    return ({ flow with stateMachine, endpoint := some ⟨host, port⟩ }, .handler .success)

variable {flow : Socks5ServerDataFlow}

theorem pendingAt_eq {i : Nat} (inside : i < flow.pendingAuth.length) :
    flow.pendingAt i = .ok (flow.pendingAuth.getD i 0) := by
  simp [pendingAt, inside]

theorem finishRequest_eq {host : EndpointHost} {offset : Nat}
    (inside : offset + 1 < flow.pendingAuth.length) :
    flow.finishRequest host offset = flow.react (.request host (portAt flow.pendingAuth offset)) := by
  simp only [finishRequest, pendingAt_eq (Nat.lt_of_succ_lt inside), pendingAt_eq inside, ok_bind,
    react, portAt]

/-- The decision on the accumulated bytes is `verdict`, and no byte behind them is
read. -/
theorem readRequest_eq : flow.readRequest = flow.react (verdict flow.pendingAuth) := by
  unfold readRequest verdict
  dsimp only
  by_cases short : flow.pendingAuth.length < 10
  · rw [if_pos short, if_pos short]
    rfl
  rw [if_neg short, if_neg short, pendingAt_eq (by omega), ok_bind]
  split
  · rfl
  rw [pendingAt_eq (by omega), ok_bind]
  split
  · rfl
  rw [pendingAt_eq (by omega), ok_bind]
  split
  · rfl
  rw [pendingAt_eq (by omega), ok_bind]
  unfold addressVerdict
  split
  · unfold fixedVerdict
    by_cases whole : flow.pendingAuth.length = 10
    · rw [if_neg (by omega), if_neg (by omega), if_neg (by omega), finishRequest_eq (by omega)]
    · rw [if_pos whole, if_neg (by omega), if_pos (by omega)]
      rfl
  split
  · rw [pendingAt_eq (by omega), ok_bind]
    dsimp only
    split
    · rfl
    split
    · rfl
    rw [finishRequest_eq (by omega)]
  split
  · unfold fixedVerdict
    split
    · rfl
    split
    · rfl
    rw [finishRequest_eq (by omega)]
  · rfl

end Source.Socks5ServerDataFlow

end LibNekit
