import LibNekit.Canonical.Sound

/-!
# One call of the parser

A `Context` is one call of `http_parser_execute` on a slice of the Buffer. `Stands`
says where the rewriter is while the parser is inside the slice: told of everything
that was complete at `p`, with the offsets of the phase. `Left` lists the ways the call
can end.
-/
namespace LibNekit

namespace Source.HttpParser

/-- The parser with another count of header bytes. -/
@[simps] def counting (parser : HttpParser) (nread : Nat) : HttpParser := { parser with nread }

@[simp] theorem counting_counting (parser : HttpParser) (first second : Nat) :
    (parser.counting first).counting second = parser.counting second := rfl

@[simp] theorem counting_scan (parser : HttpParser) (nread : Nat) :
    (parser.counting nread).scan = parser.scan := rfl

theorem counted_eq (parser : HttpParser) {nread count : Nat} (fits : nread + count < 2 ^ 32) :
    (parser.counting nread).counted count = parser.counting (nread + count) := by
  unfold counted counting
  dsimp only
  rw [Nat.mod_eq_of_lt fits]

end Source.HttpParser

namespace Canonical

open LibNekit.Source LibNekit.Source.Rewriter LibNekit.Source.HttpParser LibNekit.Library

variable {δ : Type}

/-- Nobody is told about these. -/
def Event.passive : Event → Bool
  | .raw _ | .settled => true
  | _ => false

/-- The parser is the reader's, but for its count and for being paused. -/
def Reader.Models (l : Reader) (parser : HttpParser) : Prop :=
  ∃ nread ≤ 2 * l.count,
    parser = l.parser.counting nread ∨ parser = (l.parser.counting nread).setErrno .paused

/-- The slice is the bytes of the Buffer from `current_buffer_offset_` on. -/
structure Context (δ : Type) where
  setup : Setup
  delegate : Delegate δ
  acts : Acts δ
  /-- What may end the run with an error. -/
  excuse : Prop
  slice : Slice
  before : Bytes
  after : Bytes
  /-- The token when the call begins, where no element is under way. -/
  token : Option Nat

namespace Context

variable (x : Context δ)

abbrev data : Bytes := x.slice.bytes

abbrev handler : Callback → RewriterImpl × δ → Checked (Reply × RewriterImpl × δ) :=
  parserSettings x.delegate x.slice.data

/-- What is assumed of a run. The parser counts a byte of a header block at most twice,
so it never finds a block of 40000 bytes too long. -/
structure Lawful : Prop where
  implements : Implements x.delegate x.acts
  refusal : x.acts.Refuses → x.excuse
  overflow : 40000 < x.setup.limit → x.excuse
  limit : x.setup.limit ≤ maxHeaderSize

structure Stands (r : RewriterImpl) (g : Draft δ) (phase : Phase) (p : Nat) : Prop where
  wf : r.currentBuffer.WellFormed
  below : r.currentBuffer.Below r.next
  content : r.currentBuffer.content = x.before ++ x.data ++ x.after
  located : ∀ k < x.data.length,
    r.currentBuffer.findLocation { x.slice.data with index := x.slice.data.index + k } =
      .ok (x.before.length + k)
  offset : r.currentBufferOffset = x.before.length
  inside : p ≤ x.data.length
  split : g.out ++ phase.held = x.before ++ x.data.take p
  fits : phase.held.length + (x.data.drop p ++ x.after).length < 2 ^ 62
  small : g.out.length < 2 ^ 63
  offsets : Offsets r g.out.length phase
  calm : Calm x.setup r

/-- How the call ends. `g` and `events` are what had been put out and what was still to
come when it was at this point, `last` where the reader is behind the slice, and
`already` whether something was settled before. -/
inductive Left (already : Bool) (g : Draft δ) (events : List Event) (last : Reader) :
    Nat → HttpParser → RewriterImpl × δ → Prop
  /-- The rewriter stands where the reader does. -/
  | rests {l : Reader} {front back : List Event} {g' : Draft δ} {n : Nat} {parser : HttpParser}
      {r : RewriterImpl} (split : events = front ++ back) (performed : x.acts.PerformsAll front g g')
      (sound : l.Sound x.setup) (models : l.Models parser)
      (ahead : Reader.run x.setup l (x.data.drop n) = some (last, back))
      (inside : n ≤ x.data.length)
      (moved : 0 < n ∨ (∃ lag, l.phase = .headersDone lag) ∧ x.token = none)
      (rests : Rests x.setup (finish n r) g' l.phase (x.data.drop n ++ x.after))
      (token : ∀ t ∈ x.token, l.phase.inToken = false → (finish n r).currentTokenOffset =
        if already ∨ Event.settled ∈ front then (finish n r).currentBufferOffset else t)
      (known : l.phase.inToken = false →
        (x.token ≠ none ∧ n = x.data.length ∧ ∀ event ∈ front, event.passive = true) ∨
          ∃ lag, l.phase = .headersDone lag)
      (running : l.phase ≠ .stopped) : Left already g events last n parser (r, g'.delegate)
  /-- The header block is at its end and has no header line. -/
  | lineOnly {l closed : Reader} {line : Line} {front back closing : List Event} {g' : Draft δ}
      {n : Nat} {parser : HttpParser} {r : RewriterImpl} (split : events = front ++ back)
      (performed : x.acts.PerformsAll front g g') (sound : l.Sound x.setup)
      (phase : l.phase = .lastCr line) (start : ∀ header, line ≠ .header header)
      (closes : l.close x.setup line = some (closed, closing)) (models : closed.Models parser)
      (ahead : Reader.run x.setup l (x.data.drop n) = some (last, back))
      (inside : n ≤ x.data.length) (next : (x.data.drop n).head? = some lf)
      (pending : r.processHeaderComplete = true)
      (rests : Rests x.setup (finish n { r with processHeaderComplete := false }) g' l.phase
        (x.data.drop n ++ x.after)) (fresh : x.token = none) :
      Left already g events last n parser (r, g'.delegate)
  /-- A message is at its end. -/
  | complete {l : Reader} {front back : List Event} {g' : Draft δ} {n : Nat} {parser : HttpParser}
      {r : RewriterImpl} (split : events = front ++ .messageComplete parser.upgrade :: back)
      (performed : x.acts.PerformsAll front g g') (sound : l.Sound x.setup)
      (phase : l.phase = if parser.upgrade then .stopped else .idle) (models : l.Models parser)
      (ahead : Reader.run x.setup l (x.data.drop n) = some (last, back))
      (inside : n ≤ x.data.length) (moved : 0 < n) (pending : r.processMessageComplete = true)
      (rests : Rests x.setup (finish n { r with processMessageComplete := false }) g' .idle
        (x.data.drop n ++ x.after))
      (token : (finish n r).currentTokenOffset = (finish n r).currentBufferOffset) :
      Left already g events last n parser (r, g'.delegate)
  /-- The parser stopped with an error of its own, or of the delegate. -/
  | failed {n : Nat} {parser : HttpParser} {r : RewriterImpl} {d : δ} (excuse : x.excuse)
      (error : parser.httpErrno ≠ .ok ∧ parser.httpErrno ≠ .paused)
      (incomplete : r.processMessageComplete = false) : Left already g events last n parser (r, d)

variable {x}

/-- What was put out first belongs to the call. -/
theorem Left.before {already : Bool} {g middle : Draft δ} {front events : List Event} {last : Reader}
    {n : Nat} {parser : HttpParser} {s : RewriterImpl × δ}
    (performed : x.acts.PerformsAll front g middle) (passive : ∀ event ∈ front, event.passive = true)
    (left : x.Left (already || decide (Event.settled ∈ front)) middle events last n parser s) :
    x.Left already g (front ++ events) last n parser s := by
  cases left with
  | rests split more sound models ahead inside moved rests token known running =>
    refine .rests (by rw [split, List.append_assoc]) (performed.append more) sound models ahead inside
      moved rests (fun t member phase => ?_) (fun outside => (known outside).imp_left fun ⟨some_token, whole, more⟩ =>
        ⟨some_token, whole, fun event member => (List.mem_append.mp member).elim (passive event) (more event)⟩) running
    rw [token t member phase]
    simp only [Bool.or_eq_true, decide_eq_true_eq, List.mem_append, or_assoc]
  | lineOnly split more sound phase start closes models ahead inside next pending rests fresh =>
    exact .lineOnly (by rw [split, List.append_assoc]) (performed.append more) sound phase start closes
      models ahead inside next pending rests fresh
  | complete split more sound phase models ahead inside moved pending rests token =>
    exact .complete (by rw [split, List.append_assoc]) (performed.append more) sound phase models ahead
      inside moved pending rests token
  | failed excuse error incomplete => exact .failed excuse error incomplete

/-! ## What `Stands` gives -/

variable {r : RewriterImpl} {g : Draft δ} {phase : Phase} {p : Nat}

theorem Stands.position (stands : x.Stands r g phase p) :
    g.out.length + phase.held.length = x.before.length + p := by
  have length := congrArg List.length stands.split
  rwa [List.length_append, List.length_append, List.length_take, Nat.min_eq_left stands.inside] at length

theorem Stands.bound (stands : x.Stands r g phase p) :
    g.out.length + phase.held.length + (x.data.drop p ++ x.after).length < sizeRange := by
  have small := stands.small
  have fits := stands.fits
  unfold sizeRange
  omega

theorem Stands.whole (stands : x.Stands r g phase p) :
    r.currentBuffer.content = g.out ++ phase.held ++ (x.data.drop p ++ x.after) := by
  rw [stands.split, stands.content]
  simp only [List.append_assoc]
  rw [← List.append_assoc (x.data.take p), List.take_append_drop]

theorem Stands.size (stands : x.Stands r g phase p) :
    r.currentBuffer.size = g.out.length + phase.held.length + (x.data.drop p ++ x.after).length := by
  rw [← stands.wf.length_content, stands.whole]
  simp only [List.length_append]

/-- The parser may return here. -/
theorem Stands.finished (stands : x.Stands r g phase p) :
    sizeAdd r.currentBufferOffset p = g.out.length + phase.held.length := by
  have bound := stands.bound
  have position := stands.position
  rw [stands.offset, sizeAdd_eq (by omega), position]

end Context

end Canonical

end LibNekit
