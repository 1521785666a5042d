import LibNekit.Library.Machine
import LibNekit.Source.Rule.Rules

/-!
# RuleManager

One `Match` of rule_manager.cc: the block that it posts, the search, and the closure that
`Resolve` keeps while the search waits.
-/
namespace LibNekit.Source

open LibNekit.Library

inductive RuleManagerErrorCode where
  | noMatch
  deriving DecidableEq, Repr

/-- A rule manager with one `Match`. Rules are known by their place in `rules_`. -/
structure RuleManager (Regex Failure : Type) where
  rules : List (Rule Regex)
  session : Session Failure
  cancelable : Bool := false
  lifetime : Bool := false
  posted : Bool := true
  /-- Where the search goes on once the endpoint is resolved. -/
  waiting : Option Nat := none
  /-- What the handler was invoked with. -/
  calls : List (Except RuleManagerErrorCode Nat) := []
  /-- The endpoints that `Resolve` was called on, as they were. -/
  resolves : List (ResolvingEndpoint Failure) := []

namespace RuleManager

variable {Regex Failure : Type}

inductive Event (Failure : Type) where
  /-- The runloop gets to the posted block. -/
  | posted
  | resolved (outcome : Resolution.Outcome Failure)
  | cancel
  | destroy
  deriving DecidableEq, Repr

/-- The handler. -/
def handler (result : Except RuleManagerErrorCode Nat) (m : RuleManager Regex Failure) : RuleManager Regex Failure :=
  { m with calls := m.calls ++ [result] }

/-- The loop of `MatchIterator` from the rules at `iter` on. -/
def matchFrom (env : RuleEnvironment Regex) :
    List (Rule Regex) → Nat → RuleManager Regex Failure → Checked (RuleManager Regex Failure)
  | [], _, m => .ok (m.handler (.error .noMatch))
  | rule :: rest, iter, m => do
    let (result, session) ← rule.match env m.session
    let m := { m with session }
    match result with
    | .match => return m.handler (.ok iter)
    | .notMatch => matchFrom env rest (iter + 1) m
    | .resolveNeeded =>
      let endpoint ← m.session.endpoint.resolve 1
      return { m with
        session.endpoint := endpoint, waiting := some iter, resolves := m.resolves ++ [m.session.endpoint] }

/-- `MatchIterator(iter, session, cancelable, handler)` -/
def matchIterator (env : RuleEnvironment Regex) (iter : Nat) (m : RuleManager Regex Failure) :
    Checked (RuleManager Regex Failure) :=
  if m.cancelable then .ok m else matchFrom env (m.rules.drop iter) iter m

/-- The block that `Match` posts. -/
def runPosted (env : RuleEnvironment Regex) (m : RuleManager Regex Failure) : Checked (RuleManager Regex Failure) :=
  let m := { m with posted := false }
  if m.cancelable || m.lifetime then .ok m else matchIterator env 0 m

/-- The resolver answers the endpoint, whose closure goes on with the one of `MatchIterator`. -/
def onResolved (env : RuleEnvironment Regex) (outcome : Resolution.Outcome Failure)
    (m : RuleManager Regex Failure) : Checked (RuleManager Regex Failure) := do
  let iter ← deref m.waiting
  let m := { m with waiting := none, session.endpoint := m.session.endpoint.settle outcome }
  if m.cancelable || m.lifetime then .ok m else matchIterator env iter m

def step (env : RuleEnvironment Regex) : Event Failure → RuleManager Regex Failure → Checked (RuleManager Regex Failure)
  | .posted, m => m.runPosted env
  | .resolved outcome, m => m.onResolved env outcome
  | .cancel, m => .ok { m with cancelable := true }
  | .destroy, m => .ok { m with lifetime := true }

/-- A resolver that succeeds has at least one address. -/
def Admits (e : Event Failure) (m : RuleManager Regex Failure) : Prop :=
  match e with
  | .posted => m.posted = true
  | .resolved outcome => m.waiting ≠ none ∧ outcome ≠ .addresses []
  | .cancel => True
  | .destroy => m.lifetime = false

def machine (env : RuleEnvironment Regex) : Machine (RuleManager Regex Failure) (Event Failure) Fault where
  admits := Admits
  step := step env

/-- Right after `Match`. -/
def start (rules : List (Rule Regex)) (session : Session Failure) : RuleManager Regex Failure := { rules, session }

end RuleManager

end LibNekit.Source
