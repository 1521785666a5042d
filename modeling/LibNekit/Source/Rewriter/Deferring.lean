import LibNekit.Library.Deferral
import LibNekit.Source.Rewriter.Model

/-!
# Delegates whose failures are deferred

A delegate may fail an assertion of the Buffer, or return false. The deferred one notes the
first time it does and leaves the rewriter alone from then on, so it always returns true.
Its runs are shadows of the delegate's own.
-/
namespace LibNekit.Source

open LibNekit.Library Rewriter

variable {δ : Type}

/-- What a delegate remembers, or why it has stopped. -/
abbrev Deferred (δ : Type) := Except (Halt Fault) δ

namespace Rewriter

def DelegateCall.deferred (call : DelegateCall δ) : DelegateCall (Deferred δ) := fun r d =>
  match d with
  | .error halt => .ok (true, r, .error halt)
  | .ok d =>
    match call r d with
    | .ok (true, r', d') => .ok (true, r', .ok d')
    | .ok (false, _, _) => .ok (true, r, .error .parted)
    | .error e => .ok (true, r, .error (.fault e))

theorem deferred_error {call : DelegateCall δ} (r : RewriterImpl) (halt : Halt Fault) :
    call.deferred r (.error halt) = .ok (true, r, .error halt) := rfl

theorem deferred_true {call : DelegateCall δ} {r r' : RewriterImpl} {d d' : δ} (ran : call r d = .ok (true, r', d')) :
    call.deferred r (.ok d) = .ok (true, r', .ok d') := by
  unfold DelegateCall.deferred
  dsimp only
  rw [ran]

theorem deferred_false {call : DelegateCall δ} {r r' : RewriterImpl} {d d' : δ} (ran : call r d = .ok (false, r', d')) :
    call.deferred r (.ok d) = .ok (true, r, .error .parted) := by
  unfold DelegateCall.deferred
  dsimp only
  rw [ran]

theorem deferred_fault {call : DelegateCall δ} {r : RewriterImpl} {d : δ} {e : Fault} (ran : call r d = .error e) :
    call.deferred r (.ok d) = .ok (true, r, .error (.fault e)) := by
  unfold DelegateCall.deferred
  dsimp only
  rw [ran]

def Delegate.deferred (delegate : Delegate δ) : Delegate (Deferred δ) where
  onMethod := delegate.onMethod.deferred
  onUrl := delegate.onUrl.deferred
  onVersion := delegate.onVersion.deferred
  onStatus := delegate.onStatus.deferred
  onHeaderPair := delegate.onHeaderPair.deferred
  onHeaderComplete := delegate.onHeaderComplete.deferred
  onMessageComplete offset upgrade := (delegate.onMessageComplete offset upgrade).deferred

/-- The state of the rewriter and its delegate, if nothing is noted. -/
def noticed (s : RewriterImpl × Deferred δ) : Deferred (RewriterImpl × δ) := s.2.map (Prod.mk s.1)

/-- The same for what a callback comes to. -/
def noticedAnswer (answer : Answer (Deferred δ)) : Deferred (Answer δ) := (noticed answer.2).map (Prod.mk answer.1)

/-! ## The parser's callbacks -/

variable {call : DelegateCall δ} {delegate : Delegate δ} {d : Deferred δ} {r : RewriterImpl}

/-- What comes first does not depend on the delegate. -/
theorem shadows_after {α β β' : Type} {look : β' → Deferred β} {f : α → δ → Checked β} {f' : α → Checked β'} (first : Checked α)
    (rest : ∀ a, Shadows look (d >>= fun d => noted (f a d)) (f' a)) :
    Shadows look (d >>= fun d => noted (first >>= fun a => f a d)) (first >>= f') := by
  cases first with
  | error e => exact .of_error e
  | ok a => exact rest a

/-- The delegate does not matter. -/
theorem shadows_still (reply : HttpParser.Reply) (r : RewriterImpl) (d : Deferred δ) :
    Shadows noticedAnswer (d >>= fun d => noted (.ok (reply, r, d) : Checked (Answer δ))) (.ok (reply, r, d)) :=
  .of_ok (Or.inl (by cases d <;> rfl))

theorem ensureCallback_shadows {next : RewriterImpl → δ → Checked (Answer δ)}
    {next' : RewriterImpl → Deferred δ → Checked (Answer (Deferred δ))}
    (later : ∀ r d, Shadows noticedAnswer (d >>= fun d => noted (next r d)) (next' r d)) (r : RewriterImpl) (d : Deferred δ) :
    Shadows noticedAnswer (d >>= fun d => noted (ensureCallback call r d next)) (ensureCallback call.deferred r d next') := by
  cases d with
  | error halt => exact later r (.error halt)
  | ok d =>
    unfold ensureCallback DelegateCall.deferred
    show Shadows noticedAnswer (noted (call r d >>= _)) _
    dsimp only
    cases called : call r d with
    | error e => exact later r (.error (.fault e))
    | ok done =>
      obtain ⟨success, r₁, d₁⟩ := done
      cases success with
      | true => exact later r₁ (.ok d₁)
      | false =>
        intro answer ran
        exact Or.inr ((later r (.error .parted) answer ran).elim id id)

theorem onMessageBegin_shadows : Shadows noticedAnswer (d >>= fun d => noted (onMessageBegin r d)) (onMessageBegin r d) :=
  shadows_after _ fun _ => shadows_still _ _ d

theorem onMessageComplete_shadows :
    Shadows noticedAnswer (d >>= fun d => noted (onMessageComplete r d)) (onMessageComplete r d) :=
  shadows_after _ fun _ => shadows_still _ _ d

theorem onChunk_shadows : Shadows noticedAnswer (d >>= fun d => noted (onChunk r d)) (onChunk r d) :=
  shadows_after _ fun _ => shadows_still _ _ d

theorem closeLastHeader_shadows (nextToken : Nat) :
    Shadows noticedAnswer (d >>= fun d => noted (closeLastHeader delegate nextToken r d))
      (closeLastHeader delegate.deferred nextToken r d) :=
  ensureCallback_shadows (fun _ d => ensureCallback_shadows (fun _ d => shadows_still _ _ d) _ d) _ d

theorem onHeadersComplete_shadows :
    Shadows noticedAnswer (d >>= fun d => noted (onHeadersComplete delegate r d)) (onHeadersComplete delegate.deferred r d) := by
  unfold onHeadersComplete
  cases r.state with
  | headerValue | headerField => exact closeLastHeader_shadows _
  | url | status => exact shadows_still _ _ d
  | _ => exact .of_error _

theorem onUrl_shadows (data : BytePtr) (len : Nat) :
    Shadows noticedAnswer (d >>= fun d => noted (onUrl delegate data len r d)) (onUrl delegate.deferred data len r d) := by
  unfold onUrl
  cases r.state with
  | url => exact shadows_still _ _ d
  | method => exact shadows_after _ fun _ => ensureCallback_shadows (fun _ d => shadows_still _ _ d) _ d
  | _ => exact .of_error _

theorem onStatus_shadows (data : BytePtr) (len : Nat) :
    Shadows noticedAnswer (d >>= fun d => noted (onStatus delegate data len r d)) (onStatus delegate.deferred data len r d) := by
  unfold onStatus
  cases r.state with
  | status => exact shadows_still _ _ d
  | version =>
    exact shadows_after _ fun _ => shadows_after _ fun _ => ensureCallback_shadows (fun _ d => shadows_still _ _ d) _ d
  | _ => exact .of_error _

theorem onHeaderField_shadows (data : BytePtr) (len : Nat) :
    Shadows noticedAnswer (d >>= fun d => noted (onHeaderField delegate data len r d))
      (onHeaderField delegate.deferred data len r d) := by
  unfold onHeaderField
  cases r.state with
  | url =>
    exact shadows_after _ fun _ => ensureCallback_shadows (fun _ d =>
      ensureCallback_shadows (fun _ d => shadows_still _ _ d) _ d) _ d
  | status | headerValue =>
    exact shadows_after _ fun _ => ensureCallback_shadows (fun _ d => shadows_still _ _ d) _ d
  | headerField => exact shadows_still _ _ d
  | _ => exact .of_error _

theorem onHeaderValue_shadows (data : BytePtr) (len : Nat) :
    Shadows noticedAnswer (d >>= fun d => noted (onHeaderValue data len r d)) (onHeaderValue data len r d) := by
  unfold onHeaderValue
  cases r.state with
  | headerValue => exact shadows_still _ _ d
  | headerField => exact shadows_after _ fun _ => shadows_still _ _ d
  | _ => exact .of_error _

theorem parserSettings_shadows (data : BytePtr) (callback : HttpParser.Callback) (s : RewriterImpl × Deferred δ) :
    Shadows noticedAnswer (noticed s >>= fun s => noted (parserSettings delegate data callback s))
      (parserSettings delegate.deferred data callback s) := by
  have split (f : RewriterImpl × δ → Checked (Answer δ)) :
      (noticed s >>= fun s => noted (f s)) = s.2 >>= fun d => noted (f (s.1, d)) := by
    obtain ⟨r, d⟩ := s
    cases d <;> rfl
  rw [split]
  cases callback with
  | notify callback =>
    cases callback with
    | messageBegin => exact onMessageBegin_shadows
    | headersComplete => exact onHeadersComplete_shadows
    | messageComplete => exact onMessageComplete_shadows
    | chunkHeader | chunkComplete => exact onChunk_shadows
  | data callback start len =>
    cases callback with
    | url => exact onUrl_shadows _ len
    | status => exact onStatus_shadows _ len
    | headerField => exact onHeaderField_shadows _ len
    | headerValue => exact onHeaderValue_shadows _ len
    | body => exact shadows_still _ _ s.2

end Rewriter

/-! ## The loop -/

namespace HttpMessageStreamRewriter

variable {delegate : Delegate δ} {s : HttpMessageStreamRewriter (Deferred δ)}

/-- The rewriter with a delegate that has not stopped. -/
def noticed (s : HttpMessageStreamRewriter (Deferred δ)) : Deferred (HttpMessageStreamRewriter δ) :=
  s.delegate.map fun d => ⟨s.parser, s.impl, d⟩

theorem noticed_bind {β : Type} (s : HttpMessageStreamRewriter (Deferred δ)) (f : HttpMessageStreamRewriter δ → Checked β) :
    (noticed s >>= fun s => noted (f s)) = s.delegate >>= fun d => noted (f ⟨s.parser, s.impl, d⟩) := by
  unfold noticed
  cases s.delegate <;> rfl

/-- One step is a shadow of the other. -/
abbrev Follows (step : HttpMessageStreamRewriter δ → Checked (HttpMessageStreamRewriter δ))
    (step' : HttpMessageStreamRewriter (Deferred δ) → Checked (HttpMessageStreamRewriter (Deferred δ))) : Prop :=
  ∀ s, Shadows noticed (noticed s >>= fun s => noted (step s)) (step' s)

theorem follows_still (f : HttpParser × RewriterImpl → HttpParser × RewriterImpl) :
    @Follows δ (fun s => .ok ⟨(f (s.parser, s.impl)).1, (f (s.parser, s.impl)).2, s.delegate⟩)
      fun s => .ok ⟨(f (s.parser, s.impl)).1, (f (s.parser, s.impl)).2, s.delegate⟩ := by
  intro s
  refine .of_ok (Or.inl ?_)
  rw [noticed_bind]
  unfold noticed
  cases s.delegate <;> rfl

theorem ensure_follows {call : DelegateCall δ} {next : HttpMessageStreamRewriter δ → Checked (HttpMessageStreamRewriter δ)}
    {next' : HttpMessageStreamRewriter (Deferred δ) → Checked (HttpMessageStreamRewriter (Deferred δ))}
    (later : Follows next next') : Follows (fun s => ensure call s next) fun s => ensure call.deferred s next' := by
  intro s
  rw [noticed_bind]
  obtain ⟨parser, impl, d⟩ := s
  cases d with
  | error halt => exact later ⟨parser, impl, .error halt⟩
  | ok d =>
    unfold ensure DelegateCall.deferred
    show Shadows noticed (noted (call impl d >>= _)) _
    dsimp only
    cases called : call impl d with
    | error e => exact later ⟨parser, impl, .error (.fault e)⟩
    | ok done =>
      obtain ⟨success, impl₁, d₁⟩ := done
      cases success with
      | true => exact later ⟨parser, impl₁, .ok d₁⟩
      | false =>
        intro s' ran
        exact Or.inr ((later ⟨parser, impl, .error .parted⟩ s' ran).elim id id)

theorem Follows.behind {step : HttpMessageStreamRewriter δ → Checked (HttpMessageStreamRewriter δ)}
    {step' : HttpMessageStreamRewriter (Deferred δ) → Checked (HttpMessageStreamRewriter (Deferred δ))} (follows : Follows step step')
    (f : HttpMessageStreamRewriter (Deferred δ) → RewriterImpl) (s : HttpMessageStreamRewriter (Deferred δ)) :
    Shadows noticed (s.delegate >>= fun d => noted (step ⟨s.parser, f s, d⟩)) (step' { s with impl := f s }) := by
  have later := follows { s with impl := f s }
  rwa [noticed_bind] at later

theorem finishHeaders_follows : Follows (finishHeaders delegate) (finishHeaders delegate.deferred) := by
  intro s
  rw [noticed_bind]
  exact (ensure_follows (follows_still fun s => (s.1, { s.2 with
    currentTokenOffset := s.2.currentBufferOffset, state := .body, processHeaderComplete := false }))).behind
      (fun s => { s.impl with currentTokenOffset := sizeSub s.impl.currentBufferOffset 1 }) s

theorem completeHeaders_follows : Follows (completeHeaders delegate) (completeHeaders delegate.deferred) := by
  intro s
  have status : Shadows noticed (noticed s >>= fun s => noted (ensure delegate.onStatus s fun s => finishHeaders delegate s))
      (ensure delegate.deferred.onStatus s fun s => finishHeaders delegate.deferred s) := ensure_follows finishHeaders_follows s
  have url : Shadows noticed (noticed s >>= fun s => noted (ensure delegate.onUrl s fun s =>
        ensure delegate.onVersion { s with
          impl.currentTokenOffset := sizeAdd s.impl.currentTokenEndOffset 1
          impl.currentTokenEndOffset := sizeSub s.impl.currentBufferOffset 3 } fun s => finishHeaders delegate s))
      (ensure delegate.deferred.onUrl s fun s => ensure delegate.deferred.onVersion { s with
          impl.currentTokenOffset := sizeAdd s.impl.currentTokenEndOffset 1
          impl.currentTokenEndOffset := sizeSub s.impl.currentBufferOffset 3 } fun s => finishHeaders delegate.deferred s) := by
    refine ensure_follows (fun s => ?_) s
    rw [noticed_bind]
    exact (ensure_follows finishHeaders_follows).behind (fun s => { s.impl with
      currentTokenOffset := sizeAdd s.impl.currentTokenEndOffset 1
      currentTokenEndOffset := sizeSub s.impl.currentBufferOffset 3 }) s
  rw [noticed_bind] at status url ⊢
  unfold completeHeaders
  dsimp only
  cases s.impl.state with
  | url => exact url
  | status => exact status
  | _ => exact .of_error _

theorem afterMessage_follows : Follows (afterMessage delegate) (afterMessage delegate.deferred) := by
  intro s
  rw [noticed_bind]
  unfold afterMessage
  have parsing (d : δ) : (⟨s.parser, s.impl, d⟩ : HttpMessageStreamRewriter δ).parsing = s.parsing := rfl
  simp only [parsing]
  split
  · have failed := follows_still (fun s => (s.1, { s.2 with errored := true })) s
    rw [noticed_bind] at failed
    exact failed
  · split
    · exact completeHeaders_follows.behind (fun s => s.impl.settleToken) s
    · have settled := follows_still (fun s => (s.1, s.2.settleToken)) s
      rw [noticed_bind] at settled
      exact settled

theorem afterExecute_follows : Follows (afterExecute delegate) (afterExecute delegate.deferred) := by
  intro s
  by_cases message : s.impl.processMessageComplete = true
  · have completes := @ensure_follows _ (delegate.onMessageComplete s.impl.currentBufferOffset s.parser.upgrade)
      (fun s' => if s.parser.upgrade then .ok { s' with impl := { s'.impl with stopped := true }.settleToken }
        else afterMessage delegate { s' with impl.processMessageComplete := false })
      (fun s' => if s.parser.upgrade then .ok { s' with impl := { s'.impl with stopped := true }.settleToken }
        else afterMessage delegate.deferred { s' with impl.processMessageComplete := false }) (by
          intro s'
          split
          · exact follows_still (fun s => (s.1, { s.2 with stopped := true }.settleToken)) s'
          · rw [noticed_bind]
            exact afterMessage_follows.behind (fun s => { s.impl with processMessageComplete := false }) s') s
    rw [noticed_bind] at completes ⊢
    unfold afterExecute
    simp only [message, if_true]
    exact completes
  · have goes := @afterMessage_follows _ delegate s
    rw [noticed_bind] at goes ⊢
    unfold afterExecute
    simp only [message]
    exact goes

/-- The parser on a slice, and what comes behind it. -/
theorem parseSlice_shadows (slice : Slice) (s : HttpMessageStreamRewriter (Deferred δ)) :
    Shadows (fun done => (noticed done.2).map (Prod.mk done.1))
      (noticed s >>= fun s => noted (parseSlice delegate slice s)) (parseSlice delegate.deferred slice s) := by
  have parses := Shadows.program (@parserSettings_shadows _ delegate slice.data) (HttpParser.execute s.parser slice.bytes)
    (s.impl, s.delegate)
  let behind (done : (Nat × HttpParser) × RewriterImpl × δ) : Checked (Bool × HttpMessageStreamRewriter δ) := do
    return (false, ← afterExecute delegate ⟨done.1.2, { done.2.1 with
      currentBufferOffset := sizeAdd done.2.1.currentBufferOffset (throughInt done.1.1) }, done.2.2⟩)
  have split : (noticed s >>= fun s => noted (parseSlice delegate slice s)) =
      (Rewriter.noticed (s.impl, s.delegate) >>= fun t => noted ((HttpParser.execute s.parser slice.bytes).run
        (parserSettings delegate slice.data) t)) >>= fun done => noted (behind done) := by
    rw [noticed_bind]
    unfold Rewriter.noticed
    cases s.delegate with
    | error halt => rfl
    | ok d => exact noted_bind _ _
  rw [split]
  refine Shadows.bind parses fun done => ?_
  obtain ⟨⟨parsed, parser⟩, impl, d⟩ := done
  let s' : HttpMessageStreamRewriter (Deferred δ) := ⟨parser, { impl with
    currentBufferOffset := sizeAdd impl.currentBufferOffset (throughInt parsed) }, d⟩
  have ends : ((Rewriter.noticed (impl, d)).map (Prod.mk (parsed, parser)) >>= fun done => noted (behind done)) =
      (noticed s' >>= fun s => noted (afterExecute delegate s)) >>= fun s => noted (.ok (false, s)) := by
    rw [noticed_bind]
    unfold Rewriter.noticed
    cases d with
    | error halt => rfl
    | ok d => exact noted_bind _ _
  dsimp only
  rw [ends]
  refine Shadows.bind (afterExecute_follows s') fun s₁ => .of_ok (Or.inl ?_)
  cases noticed s₁ <;> rfl

/-- A walk, by induction on the chunks. -/
theorem walkLoop_shadows {walker : Slice → HttpMessageStreamRewriter δ → Checked (Bool × HttpMessageStreamRewriter δ)}
    {walker' : Slice → HttpMessageStreamRewriter (Deferred δ) → Checked (Bool × HttpMessageStreamRewriter (Deferred δ))}
    (walks : ∀ slice s, Shadows (fun done => (noticed done.2).map (Prod.mk done.1))
      (noticed s >>= fun s => noted (walker slice s)) (walker' slice s)) (chunks : List Buf) (skip : Nat)
    (s : HttpMessageStreamRewriter (Deferred δ)) :
    Shadows noticed (noticed s >>= fun s => noted (Buffer.walkLoop walker chunks skip s)) (Buffer.walkLoop walker' chunks skip s) := by
  induction chunks generalizing skip s with
  | nil =>
    refine .of_ok (Or.inl ?_)
    rw [noticed_bind]
    unfold noticed
    cases s.delegate <;> rfl
  | cons c chunks ih =>
    have split : (noticed s >>= fun s => noted (Buffer.walkLoop walker (c :: chunks) skip s)) =
        (noticed s >>= fun s => noted (walker (Buffer.sliceOf c skip) s)) >>= fun done =>
          noted (if done.1 then Buffer.walkLoop walker chunks 0 done.2 else .ok done.2) := by
      cases noticed s with
      | error halt => rfl
      | ok s => exact noted_bind _ _
    rw [split]
    refine Shadows.bind (walks _ s) fun done => ?_
    obtain ⟨more, s₁⟩ := done
    have same : ((noticed s₁).map (Prod.mk more) >>= fun done =>
        noted (if done.1 then Buffer.walkLoop walker chunks 0 done.2 else .ok done.2)) =
          noticed s₁ >>= fun s => noted (if more then Buffer.walkLoop walker chunks 0 s else .ok s) := by
      cases noticed s₁ <;> rfl
    dsimp only
    rw [same]
    cases more with
    | true => exact ih 0 s₁
    | false =>
      refine .of_ok (Or.inl ?_)
      cases noticed s₁ <;> rfl

theorem walkInternalChunk_shadows {walker : Slice → HttpMessageStreamRewriter δ → Checked (Bool × HttpMessageStreamRewriter δ)}
    {walker' : Slice → HttpMessageStreamRewriter (Deferred δ) → Checked (Bool × HttpMessageStreamRewriter (Deferred δ))}
    (walks : ∀ slice s, Shadows (fun done => (noticed done.2).map (Prod.mk done.1))
      (noticed s >>= fun s => noted (walker slice s)) (walker' slice s)) (buffer : Buffer) (start : Nat)
    (s : HttpMessageStreamRewriter (Deferred δ)) :
    Shadows noticed (noticed s >>= fun s => noted (buffer.walkInternalChunk walker start s))
      (buffer.walkInternalChunk walker' start s) := by
  unfold Buffer.walkInternalChunk
  by_cases inside : start ≤ buffer.size
  · simp only [boostAssert_of inside, ok_bind]
    split
    · refine .of_ok (Or.inl ?_)
      cases noticed s <;> rfl
    cases Buffer.walkTo Rope.atOrPast buffer.head start with
    | error e => exact .of_error e
    | ok c => exact walkLoop_shadows walks _ c.pos s
  · have failed : boostAssert (start ≤ buffer.size) = .error .assertion := if_neg inside
    rw [failed]
    exact .of_error _

theorem parseStep_follows : Follows (parseStep delegate) (parseStep delegate.deferred) := by
  intro s
  rw [noticed_bind]
  unfold parseStep
  refine shadows_after _ fun parser => ?_
  have walks := walkInternalChunk_shadows (@parseSlice_shadows _ delegate) s.impl.currentBuffer s.impl.currentBufferOffset
    { s with parser }
  rw [noticed_bind] at walks
  exact walks

/-- By induction on the fuel. -/
theorem parseLoop_follows (fuel : Nat) : Follows (parseLoop delegate fuel) (parseLoop delegate.deferred fuel) := by
  induction fuel with
  | zero =>
    intro s
    rw [noticed_bind]
    unfold parseLoop
    have unfinished (d : δ) : (⟨s.parser, s.impl, d⟩ : HttpMessageStreamRewriter δ).unfinished = s.unfinished := rfl
    simp only [unfinished]
    split
    · exact .of_error _
    · have ends := follows_still id s
      rw [noticed_bind] at ends
      exact ends
  | succ fuel ih =>
    intro s
    have split : (noticed s >>= fun s => noted (parseStep delegate s >>= parseLoop delegate fuel)) =
        (noticed s >>= fun s => noted (parseStep delegate s)) >>= fun s => noted (parseLoop delegate fuel s) := by
      cases noticed s with
      | error halt => rfl
      | ok s => exact noted_bind _ _
    have goesOn : Shadows noticed (noticed s >>= fun s => noted (parseStep delegate s >>= parseLoop delegate fuel))
        (parseStep delegate.deferred s >>= parseLoop delegate.deferred fuel) := by
      rw [split]
      exact Shadows.bind (parseStep_follows s) ih
    rw [noticed_bind] at goesOn ⊢
    unfold parseLoop
    have unfinished (d : δ) : (⟨s.parser, s.impl, d⟩ : HttpMessageStreamRewriter δ).unfinished = s.unfinished := rfl
    simp only [unfinished]
    split
    · exact goesOn
    · have ends := follows_still id s
      rw [noticed_bind] at ends
      exact ends

/-! ## A call -/

theorem shadows_kept (parser : HttpParser) (impl : RewriterImpl) (d : Deferred δ) : Shadows noticed
    (d >>= fun d => noted (.ok (⟨parser, impl, d⟩ : HttpMessageStreamRewriter δ) : Checked _))
    (.ok ⟨parser, impl, d⟩ : Checked (HttpMessageStreamRewriter (Deferred δ))) := by
  refine .of_ok (Or.inl ?_)
  unfold noticed
  cases d <;> rfl

theorem carryIn_follows (next : Nat) (buffer : Buffer) : @Follows δ (carryIn next buffer) (carryIn next buffer) := by
  intro s
  rw [noticed_bind]
  unfold carryIn
  dsimp only
  by_cases pending : s.impl.pendingBufferLength ≠ 0
  · simp only [if_pos pending]
    exact shadows_after _ fun _ => shadows_after _ fun _ => shadows_after _ fun _ => shadows_kept _ _ _
  · simp only [if_neg pending]
    exact shadows_kept _ _ _

/-- What a call comes to. -/
def returned (done : Except RewriterError Unit × HttpMessageStreamRewriter (Deferred δ)) :
    Deferred (Except RewriterError Unit × HttpMessageStreamRewriter δ) := (noticed done.2).map (Prod.mk done.1)

/-- The end of a call. -/
def conclude {δ : Type} (s : HttpMessageStreamRewriter δ) : Checked (Except RewriterError Unit × HttpMessageStreamRewriter δ) :=
  if s.impl.errored then .ok (.error s.errorResult, s) else withhold s

theorem rewriteBuffer_eq {δ : Type} (delegate : Delegate δ) (next : Nat) (buffer : Buffer) (s : HttpMessageStreamRewriter δ) :
    rewriteBuffer delegate next buffer s =
      carryIn next buffer s >>= fun s => parseLoop delegate s.loopFuel s >>= conclude := rfl

theorem shadows_returned (result : Except RewriterError Unit) (parser : HttpParser) (impl : RewriterImpl) (d : Deferred δ) :
    Shadows returned (d >>= fun d => noted (.ok (result, (⟨parser, impl, d⟩ : HttpMessageStreamRewriter δ)) : Checked _))
      (.ok (result, ⟨parser, impl, d⟩) : Checked (_ × HttpMessageStreamRewriter (Deferred δ))) := by
  refine .of_ok (Or.inl ?_)
  unfold returned noticed
  cases d <;> rfl

theorem conclude_shadows (s : HttpMessageStreamRewriter (Deferred δ)) :
    Shadows returned (noticed s >>= fun s => noted (conclude s)) (conclude s) := by
  rw [noticed_bind]
  unfold conclude withhold
  dsimp only
  by_cases errored : s.impl.errored = true
  · simp only [if_pos errored]
    exact shadows_returned _ _ _ _
  simp only [if_neg errored]
  by_cases behind : s.impl.currentTokenOffset ≠ s.impl.currentBuffer.size
  · simp only [if_pos behind]
    by_cases long : maxBufferSize < sizeSub s.impl.currentBuffer.size s.impl.currentTokenOffset
    · simp only [if_pos long]
      exact shadows_returned _ _ _ _
    · simp only [if_neg long]
      exact shadows_after _ fun _ => shadows_after _ fun _ => shadows_returned _ _ _ _
  · simp only [if_neg behind]
    exact shadows_returned _ _ _ _

/-- A call with the deferred delegate shows how the delegate's own call ends. -/
theorem rewriteBuffer_shadows (next : Nat) (buffer : Buffer) (s : HttpMessageStreamRewriter (Deferred δ)) :
    Shadows returned (noticed s >>= fun s => noted (rewriteBuffer delegate next buffer s))
      (rewriteBuffer delegate.deferred next buffer s) := by
  have loops (s : HttpMessageStreamRewriter (Deferred δ)) :
      Shadows returned (noticed s >>= fun s => noted (parseLoop delegate s.loopFuel s >>= conclude))
        (parseLoop delegate.deferred s.loopFuel s >>= conclude) := by
    have split : (noticed s >>= fun t => noted (parseLoop delegate t.loopFuel t >>= conclude)) =
        (noticed s >>= fun t => noted (parseLoop delegate s.loopFuel t)) >>= fun t => noted (conclude t) := by
      rw [noticed_bind, noticed_bind]
      cases s.delegate with
      | error halt => rfl
      | ok d => exact noted_bind _ _
    rw [split]
    exact Shadows.bind (parseLoop_follows s.loopFuel s) conclude_shadows
  have split : (noticed s >>= fun s => noted (rewriteBuffer delegate next buffer s)) =
      (noticed s >>= fun s => noted (carryIn next buffer s)) >>= fun s =>
        noted (parseLoop delegate s.loopFuel s >>= conclude) := by
    cases noticed s with
    | error halt => rfl
    | ok s => exact noted_bind _ _
  rw [split, rewriteBuffer_eq]
  exact Shadows.bind (carryIn_follows next buffer s) loops

end HttpMessageStreamRewriter

end LibNekit.Source
