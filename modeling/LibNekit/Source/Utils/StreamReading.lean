import LibNekit.Library.Machine
import LibNekit.Source.Utils.StreamReader

/-!
# A StreamReader at work

The reader with the flow it reads from and the runloop it posts to. Requests are known by
their place in the order they came.
-/
namespace LibNekit.Source

open LibNekit.Library

namespace StreamReading

inductive Request where
  | toLength (length : Nat)
  | toPattern (pattern : Bytes)
  deriving DecidableEq, Repr

inductive Event (Failure : Type) where
  | request (request : Request)
  /-- The flow delivers a Buffer, whose chunks lie in addresses up to `upTo`. -/
  | data (buffer : Buffer) (upTo : Nat)
  | error (failure : Failure)
  /-- The runloop runs the posted task. -/
  | posted
  deriving DecidableEq, Repr

end StreamReading

open StreamReading

/-- `handler` is the request whose handler `handler_` is. `delivered` is what came from the
flow so far. -/
structure StreamReading (Failure : Type) where
  reader : StreamReader := {}
  next : Nat := 0
  requests : List Request := []
  handler : Option Nat := none
  /-- The read of the flow that has not completed, and the request it is for. -/
  outstanding : Option Request := none
  posts : List (Nat × Buffer) := []
  answers : List (Nat × Except Failure Buffer) := []
  delivered : Bytes := []
  deriving Repr

namespace StreamReading

variable {Failure : Type}

/-- What the reader does next. A posted task takes the handler along. -/
def follow (request : Request) (ran : StreamReader × StreamReader.Action) (s : StreamReading Failure) :
    Checked (StreamReading Failure) :=
  match ran with
  | (reader, .read) => .ok { s with reader, next := s.next + 1, outstanding := some request }
  | (reader, .post buffer) => do
    let handler ← deref s.handler
    return { s with reader, next := s.next + 1, handler := none, posts := s.posts ++ [(handler, buffer)] }

/-- `ReadToLength` and `ReadToPattern`. -/
def onRequest (searcher : PatternSearcher) (request : Request) (s : StreamReading Failure) :
    Checked (StreamReading Failure) := do
  let s := { s with handler := some s.requests.length, requests := s.requests ++ [request] }
  let ran ← match request with
    | .toLength length => s.reader.readToLength s.next length
    | .toPattern pattern => s.reader.readToPattern searcher s.next pattern
  s.follow request ran

/-- The flow's read completes with data. -/
def onData (searcher : PatternSearcher) (buffer : Buffer) (upTo : Nat) (s : StreamReading Failure) :
    Checked (StreamReading Failure) := do
  let request ← deref s.outstanding
  let s := { s with outstanding := none, next := max s.next upTo, delivered := s.delivered ++ buffer.content }
  let ran ← match request with
    | .toLength _ => s.reader.onData s.next buffer
    | .toPattern _ => s.reader.onPatternData searcher s.next buffer
  s.follow request ran

/-- The flow's read completes with an error. -/
def onError (failure : Failure) (s : StreamReading Failure) : Checked (StreamReading Failure) := do
  let handler ← deref s.handler
  return { s with outstanding := none, answers := s.answers ++ [(handler, .error failure)] }

def onPosted (s : StreamReading Failure) : Checked (StreamReading Failure) :=
  match s.posts with
  | [] => .ok s
  | (handler, buffer) :: posts => .ok { s with posts, answers := s.answers ++ [(handler, .ok buffer)] }

def step (searcher : PatternSearcher) : Event Failure → StreamReading Failure → Checked (StreamReading Failure)
  | .request request, s => s.onRequest searcher request
  | .data buffer upTo, s => s.onData searcher buffer upTo
  | .error failure, s => s.onError failure
  | .posted, s => s.onPosted

/-- A request asks for something, and comes when the one before is answered. What the flow
delivers is a Buffer of its own, and fits into memory with what is there. -/
def Admits (e : Event Failure) (s : StreamReading Failure) : Prop :=
  match e with
  | .request (.toLength length) => s.outstanding = none ∧ s.posts = [] ∧ 1 ≤ length
  | .request (.toPattern pattern) => s.outstanding = none ∧ s.posts = [] ∧ pattern ≠ []
  | .data buffer upTo => s.outstanding ≠ none ∧ buffer.WellFormed ∧
      (∀ a ∈ buffer.addrs, s.next ≤ a ∧ a < upTo) ∧ s.reader.buffer.size + buffer.size < sizeRange
  | .error _ => s.outstanding ≠ none
  | .posted => s.posts ≠ []

def machine (Failure : Type) (searcher : PatternSearcher) : Machine (StreamReading Failure) (Event Failure) Fault where
  admits := Admits
  step := step searcher

end StreamReading

end LibNekit.Source
