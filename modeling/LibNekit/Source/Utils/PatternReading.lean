import LibNekit.Source.Utils.StreamReading

/-!
# A StreamReader that looks for patterns

`ReadToPattern` with a pattern that stays where the matcher's iterators point, until the
handler has its bytes.
-/
namespace LibNekit.Source

open LibNekit.Library

namespace PatternReading

/-- What became of the last request. -/
inductive Stage where
  | idle
  /-- A read of the flow has not completed. -/
  | reading
  | posted (buffer : Buffer)
  | handled (buffer : Buffer)
  deriving DecidableEq, Repr

inductive Event where
  | request (pattern : Bytes)
  /-- The flow delivers a Buffer, whose chunks lie in addresses up to `upTo`. -/
  | data (buffer : Buffer) (upTo : Nat)
  /-- The runloop runs the posted task. -/
  | posted
  deriving DecidableEq, Repr

end PatternReading

open PatternReading

/-- `accumulated` is what `buffer_` held at the request, with what was delivered since. -/
structure PatternReading where
  reader : StreamReader
  next : Nat
  pattern : Bytes := []
  accumulated : Bytes := []
  stage : Stage := .idle
  deriving Repr

namespace PatternReading

/-- What the reader does next. -/
def follow (ran : StreamReader × StreamReader.Action) (s : PatternReading) : PatternReading :=
  match ran with
  | (reader, .read) => { s with reader, next := s.next + 1, stage := .reading }
  | (reader, .post buffer) => { s with reader, next := s.next + 1, stage := .posted buffer }

/-- `ReadToPattern` -/
def onRequest (searcher : PatternSearcher) (pattern : Bytes) (s : PatternReading) : Checked PatternReading := do
  let ran ← s.reader.readToPattern searcher s.next pattern
  return { s with pattern, accumulated := s.reader.buffer.content }.follow ran

/-- The flow's read completes with data. -/
def onData (searcher : PatternSearcher) (buffer : Buffer) (upTo : Nat) (s : PatternReading) :
    Checked PatternReading := do
  let s := { s with next := max s.next upTo, accumulated := s.accumulated ++ buffer.content }
  let (grown, _) ← s.reader.buffer.insertBackBuffer buffer
  let ran ← { s.reader with buffer := grown }.doReadPattern searcher s.next (some s.pattern)
  return s.follow ran

def onPosted (s : PatternReading) : PatternReading :=
  match s.stage with
  | .posted buffer => { s with stage := .handled buffer }
  | _ => s

def step (searcher : PatternSearcher) : Event → PatternReading → Checked PatternReading
  | .request pattern, s => s.onRequest searcher pattern
  | .data buffer upTo, s => s.onData searcher buffer upTo
  | .posted, s => .ok s.onPosted

def Stage.settled : Stage → Bool
  | .idle | .handled _ => true
  | .reading | .posted _ => false

/-- A request comes when the one before is answered. What the flow delivers is a Buffer of
its own, and fits into memory with what is there. -/
def Admits (e : Event) (s : PatternReading) : Prop :=
  match e with
  | .request pattern => s.stage.settled ∧ pattern ≠ []
  | .data buffer upTo => s.stage = .reading ∧ buffer.WellFormed ∧
      (∀ a ∈ buffer.addrs, s.next ≤ a ∧ a < upTo) ∧ s.reader.buffer.size + buffer.size < sizeRange
  | .posted => ∃ buffer, s.stage = .posted buffer

def machine (searcher : PatternSearcher) : Machine PatternReading Event Fault where
  admits := Admits
  step := step searcher

end PatternReading

end LibNekit.Source
