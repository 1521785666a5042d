import LibNekit.Source.DataFlow.HttpServerDataFlow
import LibNekit.Source.Rewriter.Stopping

/-!
# What HttpServerDataFlow makes of a client's bytes

`Open` reads until the first request is complete (`NegotiateRead`), and each `Read` after
that hands over a Buffer. An input is a Buffer that the next hop reads from the client,
with the first address that no chunk has used. `first_header_` is held as its bytes.
-/
namespace LibNekit.Source

open LibNekit.Library Rewriter HttpServerDataFlow

namespace ServedClient

/-- What a handler is told that does not get a Buffer. -/
inductive HttpServerError where
  | rewriter (e : RewriterError)
  | dataBeforeConnectRequestFinish
  deriving DecidableEq, Repr

inductive Phase where
  | negotiating
  | opened
  | failed (e : HttpServerError)
  deriving DecidableEq, Repr

/-- Nothing is read behind an error. -/
def Phase.reads : Phase → Bool
  | .failed _ => false
  | _ => true

end ServedClient

open ServedClient

/-- `handed` is what `Read` has handed over or will: `first_header_`, then Buffer after Buffer. -/
structure ServedClient where
  rewriter : HttpMessageStreamRewriter HttpServerDataFlow
  phase : Phase := .negotiating
  handed : Bytes := []
  deriving DecidableEq, Repr

namespace ServedClient

variable (text : AddressText)

def init : ServedClient := { rewriter := .make .request {} }

/-- The callback in `NegotiateRead` -/
def negotiateRead (input : Nat × Buffer) (s : ServedClient) : Checked ServedClient := do
  let (result, rewriter) ← s.rewriter.rewriteBuffer (delegate text) input.1 input.2
  match result with
  | .error e => return { s with rewriter, phase := .failed (.rewriter e) }
  | .ok () =>
    let buffer := rewriter.impl.currentBuffer
    let (kept, next) := negotiated buffer.size rewriter.delegate
    let handed := if kept then s.handed ++ buffer.content else s.handed
    match next with
    | .again => return { s with rewriter, handed }
    | .dataBeforeConnectRequestFinish => return { s with rewriter, handed, phase := .failed .dataBeforeConnectRequestFinish }
    | .opened => return { s with rewriter, handed, phase := .opened }

/-- The callback in `Read` -/
def read (input : Nat × Buffer) (s : ServedClient) : Checked ServedClient := do
  if s.rewriter.delegate.isConnect then return { s with handed := s.handed ++ input.2.content }
  let (result, rewriter) ← s.rewriter.rewriteBuffer (delegate text) input.1 input.2
  match result with
  | .error e => return { s with rewriter, phase := .failed (.rewriter e) }
  | .ok () => return { s with rewriter, handed := s.handed ++ rewriter.impl.currentBuffer.content }

def step (input : Nat × Buffer) (s : ServedClient) : Checked ServedClient :=
  match s.phase with
  | .negotiating => s.negotiateRead text input
  | .opened => s.read text input
  | .failed _ => .ok s

/-- The Buffer of a read, which leaves room for what the rewriter may put in front of it. -/
structure Reads (input : Nat × Buffer) : Prop where
  wf : input.2.WellFormed
  below : input.2.Below input.1
  fits : input.2.size + maxBufferSize < sizeRange

def machine : Machine ServedClient (Nat × Buffer) Fault where
  admits := fun input _ => Reads input
  step := step text

/-! ## The delegate -/

variable {text}

theorem delegate_outside : Outside (delegate text) where
  onMethod r f success r' f' ran := by
    by_cases later : f.hasReadMethod = true
    · simp only [delegate, if_pos later, pure_eq_ok] at ran
      cases ran
      exact .nothing r
    · simp only [delegate, if_neg later] at ran
      obtain ⟨token, -, ran⟩ := bind_eq_ok.mp ran
      cases ran
      exact .nothing r
  onUrl r f success r' f' ran := by
    obtain ⟨token, -, ran⟩ := bind_eq_ok.mp (show r.currentToken >>= _ = _ from ran)
    dsimp only at ran
    split at ran
    · obtain ⟨_, -, ran⟩ := bind_eq_ok.mp ran
      cases ran
      exact .nothing r
    · split at ran
      · next url _ =>
        obtain ⟨r₁, rewritten, ran⟩ := bind_eq_ok.mp ran
        cases ran
        exact .call (.rewriteCurrentToken url) rewritten (.nothing _)
      · cases ran
        exact .nothing r
  onVersion r f success r' f' ran := by
    cases ran
    exact .nothing r
  onStatus r f success r' f' ran := by
    cases ran
    exact .nothing r
  onHeaderPair r f success r' f' ran := by
    unfold delegate onHeaderPair at ran
    dsimp only at ran
    split at ran
    · cases ran
      exact .nothing r
    have renames (r₁ : RewriterImpl) (ran : (do
        let header ← r₁.currentHeader
        if iequals header.1 (ascii "Proxy-Connection") then do
          let r ← r₁.rewriteCurrentHeader (ascii "Connection", header.2)
          pure (true, r, f)
        else do
          let r ← pure r₁
          pure (true, r, f)) = Except.ok (success, r', f')) : Uses r₁ r' := by
      obtain ⟨header, -, ran⟩ := bind_eq_ok.mp ran
      split at ran
      · obtain ⟨r₂, renamed, ran⟩ := bind_eq_ok.mp ran
        cases ran
        exact .call (.rewriteCurrentHeader (ascii "Connection", header.2)) renamed (.nothing _)
      · cases ran
        exact .nothing _
    obtain ⟨first, -, ran⟩ := bind_eq_ok.mp ran
    split at ran
    · obtain ⟨r₁, deleted, ran⟩ := bind_eq_ok.mp ran
      exact .call .deleteCurrentHeader deleted (renames r₁ ran)
    · exact renames r ran
  onHeaderComplete r f success r' f' ran := by
    cases ran
    exact .nothing r
  onMessageComplete bufferOffset upgrade r f success r' f' ran := by
    cases ran
    exact .nothing r

/-! ## Runs -/

variable {input : Nat × Buffer} {s s' : ServedClient}

/-- The rewriter between two reads. -/
structure Sound (s : ServedClient) : Prop where
  fine : s.phase.reads = true → s.rewriter.impl.errored = false
  poised : s.phase.reads = true → s.rewriter.impl.stopped = false → Poised s.rewriter.impl

theorem init_sound : Sound init := ⟨fun _ => rfl, fun _ _ => ⟨rfl, rfl, rfl⟩⟩

/-- A call of the rewriter that returns without an error. -/
theorem rewriteBuffer_sound {rewriter rewriter' : HttpMessageStreamRewriter HttpServerDataFlow} (reads : Reads input)
    (poised : rewriter.impl.stopped = false → Poised rewriter.impl)
    (ran : rewriter.rewriteBuffer (delegate text) input.1 input.2 = .ok (.ok (), rewriter')) :
    rewriter'.impl.errored = false ∧ (rewriter'.impl.stopped = false → Poised rewriter'.impl) := by
  obtain ⟨s₁, carried, ran⟩ := bind_eq_ok.mp ran
  obtain ⟨s₂, parsed, ran⟩ := bind_eq_ok.mp ran
  have start := carryIn_ran reads.wf reads.below carried
  cases errored : s₂.impl.errored with
  | true =>
    rw [if_pos errored] at ran
    cases ran
  | false =>
    rw [if_neg (by simp [errored])] at ran
    obtain ⟨-, -, -, same, stopped, -⟩ := withhold_keeps ran
    refine ⟨same.trans errored, fun running => (withhold_flagged ran).poised ?_⟩
    have running₂ := stopped.symm.trans running
    cases before : rewriter.impl.stopped with
    | true =>
      rw [parseLoop_stopped (start.stopped.trans before)] at parsed
      cases parsed
      exact absurd ((start.stopped.trans before).symm.trans running₂) (by decide)
    | false =>
      have turned := parseLoop_turned delegate_outside _ start.held
        ((carryIn_flagged carried).poised (poised before)) parsed
      cases turned with
      | failed failed => exact absurd (errored.symm.trans failed) (by decide)
      | goesOn poised₂ => exact poised₂
      | halts halted =>
        obtain ⟨_, _, _, -, impl⟩ := halted.told
        rw [impl] at running₂
        cases running₂

theorem step_sound (sound : Sound s) (reads : Reads input) (ran : step text input s = .ok s') : Sound s' := by
  unfold step at ran
  split at ran
  · next phase =>
    obtain ⟨⟨result, rewriter⟩, rewrote, ran⟩ := bind_eq_ok.mp ran
    cases result with
    | error e =>
      cases ran
      exact ⟨by rintro ⟨⟩, by rintro ⟨⟩⟩
    | ok _ =>
      obtain ⟨fine, poised⟩ := rewriteBuffer_sound reads (sound.poised (by rw [phase]; rfl)) rewrote
      dsimp only at ran
      split at ran <;> cases ran <;> exact ⟨fun _ => fine, fun _ => poised⟩
  · next phase =>
    unfold read at ran
    split at ran
    · cases ran
      exact ⟨sound.fine, sound.poised⟩
    · obtain ⟨⟨result, rewriter⟩, rewrote, ran⟩ := bind_eq_ok.mp ran
      cases result with
      | error e =>
        cases ran
        exact ⟨by rintro ⟨⟩, by rintro ⟨⟩⟩
      | ok _ =>
        obtain ⟨fine, poised⟩ := rewriteBuffer_sound reads (sound.poised (by rw [phase]; rfl)) rewrote
        cases ran
        exact ⟨fun _ => fine, fun _ => poised⟩
  · cases ran
    exact sound

theorem reachable_sound (reached : (machine text).Reachable init s) : Sound s :=
  reached.invariant init_sound fun _ _ _ sound admits ran => step_sound sound admits ran

end ServedClient

end LibNekit.Source
