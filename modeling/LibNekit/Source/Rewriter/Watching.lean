import LibNekit.Source.Rewriter.Passes

/-!
# What the parser's callbacks do to `state_`

Each callback handles some of the states, and fails an assertion in the others. Under a
delegate that only watches, what it does to the state depends on nothing else.
-/
namespace LibNekit.Source.Rewriter

open LibNekit.Library HttpParser HttpMessageStreamRewriter

variable {δ : Type} {delegate : Delegate δ} {data : BytePtr} {callback : Callback} {r r' : RewriterImpl} {d d' : δ}

/-- The states that a callback asserts, or has a case for. -/
def Expected (callback : Callback) (state : State) : Prop :=
  match callback with
  | .notify .messageBegin => state = .init
  | .notify .headersComplete => state = .headerValue ∨ state = .headerField ∨ state = .url ∨ state = .status
  | .notify .messageComplete | .notify .chunkHeader | .notify .chunkComplete => state = .body
  | .data .url _ _ => state = .url ∨ state = .method
  | .data .status _ _ => state = .version ∨ state = .status
  | .data .headerField _ _ => state = .url ∨ state = .status ∨ state = .headerField ∨ state = .headerValue
  | .data .headerValue _ _ => state = .headerValue ∨ state = .headerField
  | .data .body _ _ => True

instance (callback : Callback) (state : State) : Decidable (Expected callback state) := by
  unfold Expected
  split <;> infer_instance

/-- In any other state the assertion fails. -/
theorem unexpected_asserts (unexpected : ¬Expected callback r.state) :
    parserSettings delegate data callback (r, d) = .error .assertion := by
  cases callback with
  | notify callback =>
    cases callback <;> simp only [Expected] at unexpected <;>
      simp [parserSettings, onMessageBegin, onMessageComplete, onChunk, onHeadersComplete, boostAssert, unexpected]
    cases state : r.state <;> simp_all
  | data callback start len =>
    cases callback <;> simp only [Expected, not_true_eq_false] at unexpected <;>
      cases state : r.state <;> simp_all [parserSettings, onUrl, onStatus, onHeaderField, onHeaderValue]

/-! ## Delegates that only watch -/

/-- The call returns true and makes no edit. -/
def Quiet (call : DelegateCall δ) : Prop :=
  ∀ r d success r' d', call r d = .ok (success, r', d') → success = true ∧ r' = r

structure Watches (delegate : Delegate δ) : Prop where
  onMethod : Quiet delegate.onMethod
  onUrl : Quiet delegate.onUrl
  onVersion : Quiet delegate.onVersion
  onStatus : Quiet delegate.onStatus
  onHeaderPair : Quiet delegate.onHeaderPair
  onHeaderComplete : Quiet delegate.onHeaderComplete
  onMessageComplete : ∀ bufferOffset upgrade, Quiet (delegate.onMessageComplete bufferOffset upgrade)

/-- A delegate that does nothing at all. -/
def idle (δ : Type) : Delegate δ where
  onMethod := fun r d => .ok (true, r, d)
  onUrl := fun r d => .ok (true, r, d)
  onVersion := fun r d => .ok (true, r, d)
  onStatus := fun r d => .ok (true, r, d)
  onHeaderPair := fun r d => .ok (true, r, d)
  onHeaderComplete := fun r d => .ok (true, r, d)
  onMessageComplete := fun _ _ r d => .ok (true, r, d)

theorem idle_watches (δ : Type) : Watches (idle δ) := by
  have quiet : Quiet fun (r : RewriterImpl) (d : δ) => .ok (true, r, d) := by
    intro r d success r' d' ran
    cases ran
    exact ⟨rfl, rfl⟩
  exact ⟨quiet, quiet, quiet, quiet, quiet, quiet, fun _ _ => quiet⟩

theorem ensureCallback_quiet {call : DelegateCall δ} {next : RewriterImpl → δ → Checked (Answer δ)} {answer : Answer δ}
    (quiet : Quiet call) (ran : ensureCallback call r d next = .ok answer) : ∃ d', next r d' = .ok answer := by
  obtain ⟨⟨success, r₁, d₁⟩, called, rest⟩ := bind_eq_ok.mp ran
  obtain ⟨rfl, rfl⟩ := quiet r d success r₁ d₁ called
  exact ⟨d₁, rest⟩

theorem ensure_quiet {call : DelegateCall δ} {next : HttpMessageStreamRewriter δ → Checked (HttpMessageStreamRewriter δ)}
    {s s' : HttpMessageStreamRewriter δ} (quiet : Quiet call) (ran : ensure call s next = .ok s') :
    ∃ s₁ : HttpMessageStreamRewriter δ, s₁.parser = s.parser ∧ s₁.impl = s.impl ∧ next s₁ = .ok s' := by
  obtain ⟨⟨success, r₁, d₁⟩, called, rest⟩ := bind_eq_ok.mp ran
  obtain ⟨rfl, rfl⟩ := quiet s.impl s.delegate success r₁ d₁ called
  exact ⟨{ s with delegate := d₁ }, rfl, rfl, rest⟩

/-- `state_` behind a callback. -/
def nextState (type : MessageType) : Callback → State → State
  | .notify .messageBegin, _ => match type with | .request => .method | .response => .version
  | .notify .headersComplete, .headerValue | .notify .headersComplete, .headerField => .body
  | .notify .messageComplete, _ => .init
  | .data .url _ _, .method => .url
  | .data .status _ _, .version => .status
  | .data .headerField _ _, _ => .headerField
  | .data .headerValue _ _, _ => .headerValue
  | _, state => state

/-- Whether the callback pauses the parser. -/
def pauses : Callback → State → Bool
  | .notify .messageBegin, _ | .notify .headersComplete, _ | .notify .messageComplete, _ => true
  | .data .url _ _, state => state = .method
  | .data .status _ _, state => state = .version
  | .data .headerField _ _, state => state ≠ .headerField
  | _, _ => false

/-- Whether the callback leaves the end of the headers to the loop. -/
def postpones : Callback → State → Bool
  | .notify .headersComplete, state => state = .url ∨ state = .status
  | _, _ => false

/-- What a callback does to the rewriter, when the delegate only watches. -/
structure Answered (callback : Callback) (r : RewriterImpl) (reply : Reply) (r' : RewriterImpl) : Prop where
  state : r'.state = nextState r.type callback r.state
  paused : reply.paused = pauses callback r.state
  code : reply.code = 0 ∨ callback = .notify .headersComplete ∧ reply.code = 1
  postponed : r'.processHeaderComplete = (r.processHeaderComplete || postpones callback r.state)
  type : r'.type = r.type
  errored : r'.errored = r.errored
  buffer : r'.currentBuffer = r.currentBuffer

theorem closeLastHeader_answered {nextToken : Nat} {reply : Reply} (watches : Watches delegate)
    (value : r.state = .headerValue ∨ r.state = .headerField)
    (ran : closeLastHeader delegate nextToken r d = .ok (reply, r', d')) : Answered (.notify .headersComplete) r reply r' := by
  obtain ⟨d₁, ran⟩ := ensureCallback_quiet watches.onHeaderPair ran
  obtain ⟨d₂, ran⟩ := ensureCallback_quiet watches.onHeaderComplete ran
  cases ran
  refine ⟨?_, rfl, ?_, ?_, rfl, rfl, rfl⟩
  · rcases value with state | state <;> rw [state] <;> rfl
  · cases r.skipBody
    · exact Or.inl rfl
    · exact Or.inr ⟨rfl, rfl⟩
  · rcases value with state | state <;> simp [state, postpones]

theorem headersCompleted {reply : Reply} (watches : Watches delegate)
    (ran : onHeadersComplete delegate r d = .ok (reply, r', d')) : Answered (.notify .headersComplete) r reply r' := by
  rw [onHeadersComplete.eq_def] at ran
  split at ran
  · next state => exact closeLastHeader_answered watches (Or.inl state) ran
  · next state =>
    have closed := @closeLastHeader_answered _ _ { r with
      currentHeaderValueOffset := r.currentTokenEndOffset
      currentHeaderValueEndOffset := r.currentTokenEndOffset } _ _ _ _ _ watches (Or.inr state) ran
    exact ⟨closed.state, closed.paused, closed.code, closed.postponed, closed.type, closed.errored, closed.buffer⟩
  case h_3 state | h_4 state =>
    cases ran
    refine ⟨by rw [state]; rfl, rfl, ?_, by rw [state]; exact (Bool.or_true _).symm, rfl, rfl, rfl⟩
    cases r.skipBody
    · exact Or.inl rfl
    · exact Or.inr ⟨rfl, rfl⟩
  · cases ran

theorem notified {notification : NotifyCallback} {reply : Reply} (watches : Watches delegate)
    (ran : parserSettings delegate data (.notify notification) (r, d) = .ok (reply, r', d')) :
    Answered (.notify notification) r reply r' := by
  cases notification with
  | messageBegin =>
    obtain ⟨_, -, ran⟩ := bind_eq_ok.mp (show onMessageBegin r d = _ from ran)
    cases ran
    exact ⟨rfl, rfl, Or.inl rfl, (Bool.or_false _).symm, rfl, rfl, rfl⟩
  | messageComplete =>
    obtain ⟨_, -, ran⟩ := bind_eq_ok.mp (show onMessageComplete r d = _ from ran)
    cases ran
    exact ⟨rfl, rfl, Or.inl rfl, (Bool.or_false _).symm, rfl, rfl, rfl⟩
  | chunkHeader | chunkComplete =>
    obtain ⟨_, -, ran⟩ := bind_eq_ok.mp (show onChunk r d = _ from ran)
    cases ran
    exact ⟨rfl, rfl, Or.inl rfl, (Bool.or_false _).symm, rfl, rfl, rfl⟩
  | headersComplete => exact headersCompleted watches ran

/-- The end of a callback that begins an element. -/
theorem beginHeader_answered {start len : Nat} {reply : Reply} {r₁ : RewriterImpl} (other : r.state ≠ .headerField)
    (same : (r₁.processHeaderComplete, r₁.type, r₁.errored, r₁.currentBuffer) =
      (r.processHeaderComplete, r.type, r.errored, r.currentBuffer))
    (ran : beginHeader len r₁ d = .ok (reply, r', d')) : Answered (.data .headerField start len) r reply r' := by
  obtain ⟨header, type, errored, buffer⟩ : _ ∧ _ ∧ _ ∧ _ := by simpa only [Prod.mk.injEq] using same
  cases ran
  exact ⟨rfl, by simp [pauses, other], Or.inl rfl, header.trans (Bool.or_false _).symm, type, errored, buffer⟩

theorem headerFieldRead {pointer : BytePtr} {start len : Nat} {reply : Reply} (watches : Watches delegate)
    (ran : Rewriter.onHeaderField delegate pointer len r d = .ok (reply, r', d')) :
    Answered (.data .headerField start len) r reply r' := by
  rw [Rewriter.onHeaderField.eq_def] at ran
  split at ran
  · next state =>
    obtain ⟨location, -, ran⟩ := bind_eq_ok.mp ran
    obtain ⟨d₁, ran⟩ := ensureCallback_quiet watches.onUrl ran
    obtain ⟨d₂, ran⟩ := ensureCallback_quiet watches.onVersion ran
    exact beginHeader_answered (by simp [state]) (by rfl) ran
  · next state =>
    obtain ⟨location, -, ran⟩ := bind_eq_ok.mp ran
    obtain ⟨d₁, ran⟩ := ensureCallback_quiet watches.onStatus ran
    exact beginHeader_answered (by simp [state]) (by rfl) ran
  · next state =>
    cases ran
    exact ⟨state, by simp [pauses, state], Or.inl rfl, (Bool.or_false _).symm, rfl, rfl, rfl⟩
  · next state =>
    obtain ⟨location, -, ran⟩ := bind_eq_ok.mp ran
    obtain ⟨d₁, ran⟩ := ensureCallback_quiet watches.onHeaderPair ran
    exact beginHeader_answered (by simp [state]) (by rfl) ran
  · cases ran

theorem urlRead {pointer : BytePtr} {start len : Nat} {reply : Reply} (watches : Watches delegate)
    (ran : Rewriter.onUrl delegate pointer len r d = .ok (reply, r', d')) : Answered (.data .url start len) r reply r' := by
  rw [Rewriter.onUrl.eq_def] at ran
  split at ran
  · next state =>
    cases ran
    exact ⟨by rw [state]; rfl, by simp [pauses, state], Or.inl rfl, (Bool.or_false _).symm, rfl, rfl, rfl⟩
  · next state =>
    obtain ⟨location, -, ran⟩ := bind_eq_ok.mp ran
    obtain ⟨d₁, ran⟩ := ensureCallback_quiet watches.onMethod ran
    cases ran
    exact ⟨by rw [state]; rfl, by simp [pauses, state], Or.inl rfl, (Bool.or_false _).symm, rfl, rfl, rfl⟩
  · cases ran

theorem statusRead {pointer : BytePtr} {start len : Nat} {reply : Reply} (watches : Watches delegate)
    (ran : Rewriter.onStatus delegate pointer len r d = .ok (reply, r', d')) :
    Answered (.data .status start len) r reply r' := by
  rw [Rewriter.onStatus.eq_def] at ran
  split at ran
  · next state =>
    obtain ⟨location, -, ran⟩ := bind_eq_ok.mp ran
    obtain ⟨_, -, ran⟩ := bind_eq_ok.mp ran
    obtain ⟨d₁, ran⟩ := ensureCallback_quiet watches.onVersion ran
    cases ran
    exact ⟨by rw [state]; rfl, by simp [pauses, state], Or.inl rfl, (Bool.or_false _).symm, rfl, rfl, rfl⟩
  · next state =>
    cases ran
    exact ⟨by rw [state]; rfl, by simp [pauses, state], Or.inl rfl, (Bool.or_false _).symm, rfl, rfl, rfl⟩
  · cases ran

theorem headerValueRead {pointer : BytePtr} {start len : Nat} {reply : Reply}
    (ran : Rewriter.onHeaderValue pointer len r d = .ok (reply, r', d')) :
    Answered (.data .headerValue start len) r reply r' := by
  rw [Rewriter.onHeaderValue.eq_def] at ran
  split at ran
  · next state =>
    cases ran
    exact ⟨state, rfl, Or.inl rfl, (Bool.or_false _).symm, rfl, rfl, rfl⟩
  · obtain ⟨location, -, ran⟩ := bind_eq_ok.mp ran
    cases ran
    exact ⟨rfl, rfl, Or.inl rfl, (Bool.or_false _).symm, rfl, rfl, rfl⟩
  · cases ran

theorem answered {reply : Reply} (watches : Watches delegate)
    (ran : parserSettings delegate data callback (r, d) = .ok (reply, r', d')) : Answered callback r reply r' := by
  cases callback with
  | notify notification => exact notified watches ran
  | data element start len =>
    cases element with
    | url => exact urlRead watches ran
    | status => exact statusRead watches ran
    | headerField => exact headerFieldRead watches ran
    | headerValue => exact headerValueRead ran
    | body =>
      cases ran
      exact ⟨rfl, rfl, Or.inl rfl, (Bool.or_false _).symm, rfl, rfl, rfl⟩

end LibNekit.Source.Rewriter
