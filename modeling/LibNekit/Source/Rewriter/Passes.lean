import LibNekit.Library.Machine
import LibNekit.Source.Buffer.Insert
import LibNekit.Source.Buffer.Slices
import LibNekit.Source.Rewriter.Model

/-!
# The passes of `RewriteBuffer`

Each pass of the `while` loop gives the parser the slice at the current offset.
`entered` is the callbacks of a pass, each with the rewriter as it finds it, and `looks`
the bytes that the parser's loop comes to, each with the parser as it stands there.
-/
namespace LibNekit.Source

open LibNekit.Library Rewriter

/-- The slice that a walk from `start` begins with. -/
def Buffer.sliceAt (b : Buffer) (start : Nat) : Checked (Option Slice) :=
  b.walkInternalChunk (fun slice _ => .ok (false, some slice)) start none

theorem Buffer.WellFormed.sliceAt {b : Buffer} (wf : b.WellFormed) {start : Nat} (inside : start < b.size) :
    ∃ slice, b.sliceAt start = .ok (some slice) ∧ slice.bytes ≠ [] ∧ ∀ {σ : Type} (step : Slice → σ → Checked σ) (s : σ),
      b.walkInternalChunk (fun slice s => do return (false, ← step slice s)) start s = step slice s := by
  obtain ⟨slice, -, some_bytes, -, -, walks⟩ := wf.walk_once inside
  exact ⟨slice, walks (fun slice _ => .ok (some slice)) none, some_bytes, walks⟩

/-- A slice is inside the Buffer. -/
theorem Buffer.WellFormed.sliceAt_length {b : Buffer} (wf : b.WellFormed) {start : Nat} (inside : start < b.size) {slice : Slice}
    (here : b.sliceAt start = .ok (some slice)) : slice.bytes.length ≤ b.size - start := by
  obtain ⟨first, rest, -, behind, -, walks⟩ := wf.walk_once inside
  have same : b.sliceAt start = .ok (some first) := walks (fun slice _ => .ok (some slice)) none
  obtain rfl : first = slice := Option.some.inj (Except.ok.inj (same.symm.trans here))
  have lengths := congrArg List.length behind
  rw [List.length_drop, wf.length_content, List.length_append] at lengths
  omega

namespace HttpParser

variable {σ : Type}

/-- The bytes at which the loop of a call stands. -/
def loopLooks (handler : Callback → σ → Checked (Reply × σ)) (data : Bytes) :
    Nat → Frame → σ → List (HttpParser × UInt8)
  | 0, _, _ => []
  | fuel + 1, f, s =>
    match data[f.p]? with
    | none => []
    | some ch =>
      (f.parser, ch) :: match Program.run handler (iteration data f ch) s with
      | .ok (.next f, s) => loopLooks handler data fuel { f with p := f.p + 1 } s
      | _ => []

/-- The same for `http_parser_execute`. -/
def looks (handler : Callback → σ → Checked (Reply × σ)) (parser : HttpParser) (data : Bytes) (s : σ) :
    List (HttpParser × UInt8) :=
  if parser.httpErrno ≠ .ok then [] else loopLooks handler data data.length (entryFrame parser) s

end HttpParser

namespace HttpMessageStreamRewriter

variable {δ : Type} (delegate : Delegate δ)

/-- The lambda, less the flag that ends the walk. -/
def overSlice (slice : Slice) (s : HttpMessageStreamRewriter δ) : Checked (HttpMessageStreamRewriter δ) := do
  let ((parsed, parser), impl, d) ←
    (HttpParser.execute s.parser slice.bytes).run (parserSettings delegate slice.data) (s.impl, s.delegate)
  afterExecute delegate
    ⟨parser, { impl with currentBufferOffset := sizeAdd impl.currentBufferOffset (throughInt parsed) }, d⟩

theorem parseSlice_eq : parseSlice delegate = fun slice s => do return (false, ← overSlice delegate slice s) := by
  funext slice s
  simp only [parseSlice, overSlice, bind_assoc]

/-- A pass is the parser on one slice. -/
theorem parseStep_eq {s : HttpMessageStreamRewriter δ} (wf : s.impl.currentBuffer.WellFormed)
    (inside : s.impl.currentBufferOffset < s.impl.currentBuffer.size) :
    ∃ slice, s.impl.currentBuffer.sliceAt s.impl.currentBufferOffset = .ok (some slice) ∧ slice.bytes ≠ [] ∧
      parseStep delegate s = s.parser.pause false >>= fun parser => overSlice delegate slice { s with parser } := by
  obtain ⟨slice, here, some_bytes, walks⟩ := wf.sliceAt inside
  refine ⟨slice, here, some_bytes, ?_⟩
  rw [parseStep, parseSlice_eq]
  cases s.parser.pause false with
  | error e => rfl
  | ok parser => exact walks (overSlice delegate) _

/-- What the next pass gives the parser. -/
def nextCall (s : HttpMessageStreamRewriter δ) : Option (HttpParser × Slice) :=
  match s.parser.pause false, s.impl.currentBuffer.sliceAt s.impl.currentBufferOffset with
  | .ok parser, .ok (some slice) => some (parser, slice)
  | _, _ => none

/-- The parser is resumed. -/
theorem nextCall_cleared {s : HttpMessageStreamRewriter δ} {parser : HttpParser} {slice : Slice}
    (next : s.nextCall = some (parser, slice)) : parser.httpErrno = .ok ∧ parser.state = s.parser.state := by
  unfold nextCall at next
  cases resumed : s.parser.pause false with
  | error e =>
    rw [resumed] at next
    cases next
  | ok parser₁ =>
    rw [resumed] at next
    unfold HttpParser.pause at resumed
    split at resumed
    · cases resumed
      cases sliced : s.impl.currentBuffer.sliceAt s.impl.currentBufferOffset with
      | error e =>
        rw [sliced] at next
        cases next
      | ok found =>
        rw [sliced] at next
        cases found with
        | none => cases next
        | some _ =>
          cases next
          exact ⟨rfl, rfl⟩
    · cases resumed

/-- A pass that comes to its end. -/
theorem parseStep_ran {delegate : Delegate δ} {s s' : HttpMessageStreamRewriter δ} (wf : s.impl.currentBuffer.WellFormed)
    (unfinished : s.unfinished = true) (ran : parseStep delegate s = .ok s') :
    ∃ parser slice, s.nextCall = some (parser, slice) ∧ slice.bytes ≠ [] ∧
      s.impl.currentBufferOffset + slice.bytes.length ≤ s.impl.currentBuffer.size ∧
      overSlice delegate slice { s with parser } = .ok s' := by
  simp only [HttpMessageStreamRewriter.unfinished, ne_eq, decide_eq_true_eq] at unfinished
  rcases Nat.lt_or_gt_of_ne unfinished.1 with inside | beyond
  · obtain ⟨slice, here, some_bytes, step⟩ := parseStep_eq delegate wf inside
    rw [step] at ran
    obtain ⟨parser, resumed, ran⟩ := bind_eq_ok.mp ran
    have most := wf.sliceAt_length inside here
    refine ⟨parser, slice, ?_, some_bytes, by omega, ran⟩
    unfold nextCall
    rw [resumed, here]
  · obtain ⟨parser, -, ran⟩ := bind_eq_ok.mp ran
    obtain ⟨_, asserted, -⟩ := bind_eq_ok.mp
      (show boostAssert (s.impl.currentBufferOffset ≤ s.impl.currentBuffer.size) >>= _ = _ from ran)
    exact absurd (boostAssert_eq_ok.mp asserted) (Nat.not_le.mpr beyond)

/-- A pass that gets as far as the parser. -/
theorem parseStep_next {delegate : Delegate δ} {s : HttpMessageStreamRewriter δ} {parser : HttpParser} {slice : Slice}
    (wf : s.impl.currentBuffer.WellFormed) (unfinished : s.unfinished = true) (next : s.nextCall = some (parser, slice)) :
    slice.bytes ≠ [] ∧ parseStep delegate s = overSlice delegate slice { s with parser } := by
  simp only [HttpMessageStreamRewriter.unfinished, ne_eq, decide_eq_true_eq] at unfinished
  unfold nextCall at next
  rcases Nat.lt_or_gt_of_ne unfinished.1 with inside | beyond
  · obtain ⟨found, here, some_bytes, step⟩ := parseStep_eq delegate wf inside
    rw [here] at next
    cases resumed : s.parser.pause false with
    | error e =>
      rw [resumed] at next
      cases next
    | ok parser₁ =>
      rw [resumed] at next
      cases next
      rw [step, resumed]
      exact ⟨some_bytes, rfl⟩
  · have failed : s.impl.currentBuffer.sliceAt s.impl.currentBufferOffset = .error .assertion := by
      unfold Buffer.sliceAt Buffer.walkInternalChunk boostAssert
      rw [if_neg (Nat.not_le.mpr beyond)]
      rfl
    rw [failed] at next
    cases resumed : s.parser.pause false <;> rw [resumed] at next <;> cases next

/-- The callbacks of the next pass. -/
def entered (s : HttpMessageStreamRewriter δ) : List (HttpParser.Callback × RewriterImpl × δ) :=
  match s.nextCall with
  | some (parser, slice) =>
    (HttpParser.execute parser slice.bytes).asked (parserSettings delegate slice.data) (s.impl, s.delegate)
  | none => []

/-- The bytes that the parser comes to in the next pass. -/
def looks (s : HttpMessageStreamRewriter δ) : List (HttpParser × UInt8) :=
  match s.nextCall with
  | some (parser, slice) => HttpParser.looks (parserSettings delegate slice.data) parser slice.bytes (s.impl, s.delegate)
  | none => []

/-- `Condition` holds in front of every pass of the loop. -/
def LoopAlong (Condition : HttpMessageStreamRewriter δ → Prop) : Nat → HttpMessageStreamRewriter δ → Prop
  | 0, _ => True
  | fuel + 1, s => s.unfinished = true → Condition s ∧ ∀ s', parseStep delegate s = .ok s' → LoopAlong Condition fuel s'

instance decidableLoopAlong {Condition : HttpMessageStreamRewriter δ → Prop} [DecidablePred Condition] :
    (fuel : Nat) → (s : HttpMessageStreamRewriter δ) → Decidable (LoopAlong delegate Condition fuel s)
  | 0, _ => .isTrue trivial
  | fuel + 1, s =>
    match stepped : parseStep delegate s with
    | .error _ => decidable_of_iff (s.unfinished = true → Condition s)
        ⟨fun holds more => ⟨holds more, fun s' ok => by rw [stepped] at ok; cases ok⟩, fun holds more => (holds more).1⟩
    | .ok s₁ =>
      haveI : Decidable (LoopAlong delegate Condition fuel s₁) := decidableLoopAlong fuel s₁
      decidable_of_iff (s.unfinished = true → Condition s ∧ LoopAlong delegate Condition fuel s₁)
        ⟨fun holds more => ⟨(holds more).1, fun s' ok => by
            rw [stepped] at ok
            cases ok
            exact (holds more).2⟩,
          fun holds more => ⟨(holds more).1, (holds more).2 s₁ stepped⟩⟩

/-- The same for a call of `RewriteBuffer`. -/
def CallAlong (Condition : HttpMessageStreamRewriter δ → Prop) (input : Nat × Buffer) (s : HttpMessageStreamRewriter δ) :
    Prop :=
  ∀ s', carryIn input.1 input.2 s = .ok s' → LoopAlong delegate Condition s'.loopFuel s'

instance {Condition : HttpMessageStreamRewriter δ → Prop} [DecidablePred Condition] (input : Nat × Buffer)
    (s : HttpMessageStreamRewriter δ) : Decidable (CallAlong delegate Condition input s) :=
  match carried : carryIn input.1 input.2 s with
  | .error _ => .isTrue fun s' ok => by rw [carried] at ok; cases ok
  | .ok s₁ => decidable_of_iff (LoopAlong delegate Condition s₁.loopFuel s₁)
      ⟨fun holds s' ok => by
          rw [carried] at ok
          cases ok
          exact holds,
        fun holds => holds s₁ carried⟩

/-- The rewriter, one Buffer after another. The first component of an input is the first
address that no chunk has used. -/
def machine : Machine (HttpMessageStreamRewriter δ) (Nat × Buffer) Fault where
  admits := fun input _ => input.2.WellFormed ∧ input.2.Below input.1
  step := fun input s => do return (← s.rewriteBuffer delegate input.1 input.2).2

/-! ## Buffers -/

/-- A Buffer of one chunk. -/
def inOneChunk (bytes : Bytes) : Buffer := ⟨[⟨0, bytes, 0, bytes.length⟩], some 0, bytes.length⟩

theorem inOneChunk_wf {bytes : Bytes} (some_bytes : bytes ≠ []) : (inOneChunk bytes).WellFormed := by
  refine ⟨fun c member => ?_, by simp [inOneChunk, Buffer.addrs], ?_, rfl⟩
  · obtain rfl := List.mem_singleton.mp member
    exact ⟨List.length_pos_iff.mpr some_bytes, by simp [Buf.capacity]⟩
  · simp [inOneChunk]

theorem inOneChunk_below (bytes : Bytes) : (inOneChunk bytes).Below 1 := by
  simp [inOneChunk, Buffer.Below, Buffer.addrs]

theorem inOneChunk_slice {bytes : Bytes} (some_bytes : bytes ≠ []) : (inOneChunk bytes).sliceAt 0 = .ok (some ⟨⟨0, 0⟩, bytes⟩) := by
  have length := List.length_pos_iff.mpr some_bytes
  have walked : Buffer.walkTo Rope.atOrPast (inOneChunk bytes).head 0 = .ok ⟨[], ⟨0, bytes, 0, bytes.length⟩, [], 0⟩ := by
    simp [inOneChunk, Buffer.walkTo, Rope.seek, Rope.atOrPast, deref, some_bytes]
  unfold Buffer.sliceAt Buffer.walkInternalChunk
  rw [boostAssert_of (Nat.zero_le _), ok_bind, if_neg (by show ¬0 = bytes.length; omega), walked, ok_bind]
  simp [Buffer.walkLoop, Buffer.sliceOf]

theorem setData_wf {b b' : Buffer} (wf : b.WellFormed) {skip : Nat} {source : Bytes} (ran : b.setData skip source = .ok b') :
    b'.WellFormed := by
  have guards := ran
  rw [Buffer.setData] at guards
  obtain ⟨_, start, guards⟩ := bind_eq_ok.mp guards
  obtain ⟨_, -, guards⟩ := bind_eq_ok.mp guards
  obtain ⟨_, inside, -⟩ := bind_eq_ok.mp guards
  obtain ⟨b₁, ran₁, wf₁, -⟩ := wf.setData_eq (boostAssert_eq_ok.mp start) (boostAssert_eq_ok.mp inside)
  rw [ran] at ran₁
  cases ran₁
  exact wf₁

/-- What `RewriteBuffer` starts its loop with. -/
theorem carryIn_ok {next : Nat} {buffer : Buffer} (wf : buffer.WellFormed) (below : buffer.Below next)
    {s s' : HttpMessageStreamRewriter δ} (carried : carryIn next buffer s = .ok s') :
    s'.impl.currentBuffer.WellFormed ∧ s'.parser = s.parser ∧ s'.delegate = s.delegate ∧
      s'.impl = { s.impl with
        next := s'.impl.next, currentBuffer := s'.impl.currentBuffer
        currentBufferOffset := s'.impl.currentBufferOffset, pendingBufferLength := s'.impl.pendingBufferLength
        pendingPreviousBuffer := s'.impl.pendingPreviousBuffer } := by
  rw [carryIn] at carried
  split at carried
  · obtain ⟨pending, -, carried⟩ := bind_eq_ok.mp carried
    obtain ⟨⟨next₁, buffer₁⟩, inserted, carried⟩ := bind_eq_ok.mp carried
    obtain ⟨buffer₂, written, carried⟩ := bind_eq_ok.mp carried
    obtain ⟨next₂, buffer₃, bytes, ran, holds, -⟩ := Buffer.insertFrontSize_holds wf below s.impl.pendingBufferLength
    rw [inserted] at ran
    cases ran
    cases carried
    exact ⟨setData_wf holds.wf written, rfl, rfl, rfl⟩
  · cases carried
    exact ⟨wf, rfl, rfl, rfl⟩

end HttpMessageStreamRewriter

end LibNekit.Source
