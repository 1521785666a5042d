import LibNekit.Source.Rewriter.Replies

/-!
# A rewriter that stops

It stops behind a message after which the connection is upgraded. `Poised` is how every
pass of the loop finds the flags, and `Halted` how the last one leaves the rewriter.
-/
namespace LibNekit.Source.Rewriter

open LibNekit.Library HttpParser HttpMessageStreamRewriter RewriterImpl

variable {δ : Type} {delegate : Delegate δ} {data : BytePtr} {callback : Callback} {r r₁ r₂ r' : RewriterImpl}
  {d d₁ d' : δ} {reply : Reply}

/-- The flags that a delegate and most callbacks leave alone. -/
structure Flagged (r r' : RewriterImpl) : Prop where
  stepBack : r'.stepBack = r.stepBack
  complete : r'.processMessageComplete = r.processMessageComplete
  stopped : r'.stopped = r.stopped

theorem Flagged.refl (r : RewriterImpl) : Flagged r r := ⟨rfl, rfl, rfl⟩

theorem Flagged.trans (one : Flagged r r₁) (two : Flagged r₁ r₂) : Flagged r r₂ :=
  ⟨two.stepBack.trans one.stepBack, two.complete.trans one.complete, two.stopped.trans one.stopped⟩

theorem Framed.flagged (framed : Framed r r') : Flagged r r' :=
  ⟨framed.stepBack, framed.processMessageComplete, framed.stopped⟩

/-- An assignment to other members. -/
theorem Flagged.edit (flagged : Flagged r r₁)
    (same : (r₂.stepBack, r₂.processMessageComplete, r₂.stopped) =
      (r₁.stepBack, r₁.processMessageComplete, r₁.stopped)) : Flagged r r₂ := by
  obtain ⟨stepBack, complete, stopped⟩ : _ ∧ _ ∧ _ := by simpa only [Prod.mk.injEq] using same
  exact flagged.trans ⟨stepBack, complete, stopped⟩

/-! ## The callbacks -/

theorem ensureCallback_flagged {call : DelegateCall δ} {next : RewriterImpl → δ → Checked (Answer δ)}
    (only : OnlyUses call) (flagged : Flagged r r₁)
    (ran : ensureCallback call r₁ d₁ next = .ok (reply, r', d'))
    (going : ∀ r₂ d₂, Flagged r r₂ → next r₂ d₂ = .ok (reply, r', d') → Flagged r r') : Flagged r r' := by
  obtain ⟨⟨success, r₂, d₂⟩, called, rest⟩ := bind_eq_ok.mp ran
  have moves := (only r₁ d₁ success r₂ d₂ called).moves
  have used := flagged.trans moves.framed.flagged
  cases success with
  | false =>
    cases rest
    exact used.edit (by rfl)
  | true => exact going r₂ d₂ used rest

theorem closeLastHeader_flagged (outside : Outside delegate) {nextToken : Nat} (flagged : Flagged r r₁)
    (ran : closeLastHeader delegate nextToken r₁ d₁ = .ok (reply, r', d')) : Flagged r r' := by
  apply ensureCallback_flagged outside.onHeaderPair (flagged.edit (by rfl)) ran
  intro r₂ d₂ flagged ran
  apply ensureCallback_flagged outside.onHeaderComplete (flagged.edit (by rfl)) ran
  intro r₃ d₃ flagged ran
  cases ran
  exact flagged.edit (by rfl)

theorem headersComplete_flagged (outside : Outside delegate)
    (ran : onHeadersComplete delegate r d = .ok (reply, r', d')) : Flagged r r' := by
  rw [onHeadersComplete.eq_def] at ran
  split at ran
  · exact closeLastHeader_flagged outside (.refl r) ran
  · exact closeLastHeader_flagged outside ((Flagged.refl r).edit (by rfl)) ran
  case h_3 | h_4 =>
    cases ran
    exact (Flagged.refl r).edit (by rfl)
  · cases ran

theorem url_flagged (outside : Outside delegate) {pointer : BytePtr} {len : Nat}
    (ran : Rewriter.onUrl delegate pointer len r d = .ok (reply, r', d')) : Flagged r r' := by
  rw [Rewriter.onUrl.eq_def] at ran
  split at ran
  · cases ran
    exact (Flagged.refl r).edit (by rfl)
  · obtain ⟨location, -, ran⟩ := bind_eq_ok.mp ran
    apply ensureCallback_flagged outside.onMethod ((Flagged.refl r).edit (by rfl)) ran
    intro r₁ d₁ flagged ran
    cases ran
    exact flagged.edit (by rfl)
  · cases ran

theorem status_flagged (outside : Outside delegate) {pointer : BytePtr} {len : Nat}
    (ran : Rewriter.onStatus delegate pointer len r d = .ok (reply, r', d')) : Flagged r r' := by
  rw [Rewriter.onStatus.eq_def] at ran
  split at ran
  · obtain ⟨location, -, ran⟩ := bind_eq_ok.mp ran
    obtain ⟨_, -, ran⟩ := bind_eq_ok.mp ran
    apply ensureCallback_flagged outside.onVersion ((Flagged.refl r).edit (by rfl)) ran
    intro r₁ d₁ flagged ran
    cases ran
    exact flagged.edit (by rfl)
  · cases ran
    exact (Flagged.refl r).edit (by rfl)
  · cases ran

theorem beginHeader_flagged {len : Nat} (flagged : Flagged r r₁)
    (ran : beginHeader len r₁ d₁ = .ok (reply, r', d')) : Flagged r r' := by
  cases ran
  exact flagged.edit (by rfl)

theorem headerField_flagged (outside : Outside delegate) {pointer : BytePtr} {len : Nat}
    (ran : Rewriter.onHeaderField delegate pointer len r d = .ok (reply, r', d')) : Flagged r r' := by
  rw [Rewriter.onHeaderField.eq_def] at ran
  split at ran
  · obtain ⟨location, -, ran⟩ := bind_eq_ok.mp ran
    apply ensureCallback_flagged outside.onUrl ((Flagged.refl r).edit (by rfl)) ran
    intro r₁ d₁ flagged ran
    apply ensureCallback_flagged outside.onVersion (flagged.edit (by rfl)) ran
    intro r₂ d₂ flagged ran
    exact beginHeader_flagged flagged ran
  · obtain ⟨location, -, ran⟩ := bind_eq_ok.mp ran
    apply ensureCallback_flagged outside.onStatus ((Flagged.refl r).edit (by rfl)) ran
    intro r₁ d₁ flagged ran
    exact beginHeader_flagged flagged ran
  · cases ran
    exact (Flagged.refl r).edit (by rfl)
  · obtain ⟨location, -, ran⟩ := bind_eq_ok.mp ran
    apply ensureCallback_flagged outside.onHeaderPair ((Flagged.refl r).edit (by rfl)) ran
    intro r₁ d₁ flagged ran
    exact beginHeader_flagged flagged ran
  · cases ran

theorem headerValue_flagged {pointer : BytePtr} {len : Nat}
    (ran : Rewriter.onHeaderValue pointer len r d = .ok (reply, r', d')) : Flagged r r' := by
  rw [Rewriter.onHeaderValue.eq_def] at ran
  split at ran
  · cases ran
    exact (Flagged.refl r).edit (by rfl)
  · obtain ⟨location, -, ran⟩ := bind_eq_ok.mp ran
    cases ran
    exact (Flagged.refl r).edit (by rfl)
  · cases ran

/-- What a callback does to the flags. -/
inductive FlagsAfter (r : RewriterImpl) (reply : Reply) (r' : RewriterImpl) : Prop where
  | keeps (flagged : Flagged r r')
  | begins (stops : reply.Stops) (token : r'.setToken = true) (complete : r'.processMessageComplete = r.processMessageComplete)
      (stopped : r'.stopped = r.stopped)
  | completes (stops : reply.Stops) (token : r'.setToken = true) (stepBack : r'.stepBack = r.stepBack)
      (stopped : r'.stopped = r.stopped) (errored : r'.errored = r.errored)

theorem callback_flags (outside : Outside delegate)
    (ran : parserSettings delegate data callback (r, d) = .ok (reply, r', d')) : FlagsAfter r reply r' := by
  cases callback with
  | notify notification =>
    cases notification with
    | messageBegin =>
      obtain ⟨_, -, ran⟩ := bind_eq_ok.mp (show onMessageBegin r d = _ from ran)
      cases ran
      exact .begins (Or.inr rfl) rfl rfl rfl
    | messageComplete =>
      obtain ⟨_, -, ran⟩ := bind_eq_ok.mp (show Rewriter.onMessageComplete r d = _ from ran)
      cases ran
      exact .completes (Or.inr rfl) rfl rfl rfl rfl
    | chunkHeader | chunkComplete =>
      obtain ⟨_, -, ran⟩ := bind_eq_ok.mp (show onChunk r d = _ from ran)
      cases ran
      exact .keeps ((Flagged.refl r).edit (by rfl))
    | headersComplete => exact .keeps (headersComplete_flagged outside ran)
  | data element start len =>
    cases element with
    | url => exact .keeps (url_flagged outside ran)
    | status => exact .keeps (status_flagged outside ran)
    | headerField => exact .keeps (headerField_flagged outside ran)
    | headerValue => exact .keeps (headerValue_flagged ran)
    | body =>
      cases ran
      exact .keeps ((Flagged.refl r).edit (by rfl))

/-! ## A pass -/

/-- What every pass starts with. -/
structure Poised (r : RewriterImpl) : Prop where
  stepBack : r.stepBack = false
  complete : r.processMessageComplete = false
  stopped : r.stopped = false

theorem Flagged.poised (flagged : Flagged r r') (poised : Poised r) : Poised r' :=
  ⟨flagged.stepBack.trans poised.stepBack, flagged.complete.trans poised.complete, flagged.stopped.trans poised.stopped⟩

/-- Where the parser has returned. -/
structure Returning (r : RewriterImpl) : Prop where
  begun : r.stepBack = true → r.setToken = true
  completed : r.processMessageComplete = true → r.setToken = true ∧ r.stepBack = false ∧ r.errored = false
  stopped : r.stopped = false

theorem Poised.returning (poised : Poised r) : Returning r := by
  refine ⟨fun back => ?_, fun complete => ?_, poised.stopped⟩
  · exact absurd (poised.stepBack.symm.trans back) (by decide)
  · exact absurd (poised.complete.symm.trans complete) (by decide)

theorem answers_poised (outside : Outside delegate) :
    Answers (parserSettings delegate data) (fun s => Poised s.1 ∧ s.1.errored = false) where
  silent := fun _ ran => (callback_replied outside ran).silent
  code := fun _ ran => (callback_replied outside ran).code
  headers := fun _ ran => (callback_replied outside ran).headers rfl
  calm := fun calm ran going => by
    have errored := ((callback_replied outside ran).going
      (by rw [(not_stops_iff.mp going).1]; decide)).1
    cases callback_flags outside ran with
    | keeps flagged => exact ⟨flagged.poised calm.1, errored.trans calm.2⟩
    | begins stops | completes stops => exact absurd stops going

theorem execute_returning (outside : Outside delegate) {parser parser' : HttpParser} {bytes : Bytes} {n : Nat}
    (clear : parser.httpErrno = .ok) (some_bytes : bytes ≠ []) (poised : Poised r) (fine : r.errored = false)
    (ran : (execute parser bytes).run (parserSettings delegate data) (r, d) = .ok ((n, parser'), r', d')) :
    Returning r' := by
  obtain ⟨returned, -⟩ := execute_returns (answers_poised outside) ⟨poised, fine⟩ clear some_bytes ran
  cases returned with
  | ran calm => exact calm.1.returning
  | rejects calm => exact calm.1.returning
  | stopped callback s reply calm answered stops =>
    cases callback_flags outside answered with
    | keeps flagged => exact (flagged.poised calm.1).returning
    | begins _ token complete stopped =>
      refine ⟨fun _ => token, fun completed => ?_, stopped.trans calm.1.stopped⟩
      exact absurd ((complete.trans calm.1.complete).symm.trans completed) (by decide)
    | completes _ token stepBack stopped errored =>
      refine ⟨fun _ => token, fun _ => ⟨token, ?_, errored.trans calm.2⟩, stopped.trans calm.1.stopped⟩
      exact stepBack.trans calm.1.stepBack

/-- The delegate was told of the end of a message where the rewriter stands. -/
structure Halted (delegate : Delegate δ) (s : HttpMessageStreamRewriter δ) : Prop where
  told : ∃ r d r₁, delegate.onMessageComplete r.currentBufferOffset true r d = .ok (true, r₁, s.delegate) ∧
    s.impl = { r₁ with stopped := true, currentTokenOffset := r₁.currentBufferOffset, setToken := false, stepBack := false }
  fine : s.impl.errored = false

/-- How a pass ends. -/
inductive Turned (delegate : Delegate δ) (s : HttpMessageStreamRewriter δ) : Prop where
  | failed (errored : s.impl.errored = true) (running : s.impl.stopped = false)
  | goesOn (poised : Poised s.impl)
  | halts (halted : Halted delegate s)

variable {s s₁ s' : HttpMessageStreamRewriter δ}

/-- The flags of a rewriter that stands behind the parser. -/
structure AtRest (s : HttpMessageStreamRewriter δ) : Prop where
  poised : Poised s.impl

/-- The offsets of the token that the code moves before a call. -/
theorem AtRest.token (here : AtRest s) (start stop : Nat) :
    AtRest { s with impl.currentTokenOffset := start, impl.currentTokenEndOffset := stop } :=
  ⟨⟨here.poised.stepBack, here.poised.complete, here.poised.stopped⟩⟩

theorem AtRest.ensure {call : DelegateCall δ} {next : HttpMessageStreamRewriter δ → Checked (HttpMessageStreamRewriter δ)}
    (here : AtRest s) (only : OnlyUses call) (ran : HttpMessageStreamRewriter.ensure call s next = .ok s')
    (going : ∀ s₁, AtRest s₁ → next s₁ = .ok s' → Turned delegate s') : Turned delegate s' := by
  obtain ⟨⟨success, r₁, d₁⟩, called, rest⟩ := bind_eq_ok.mp ran
  have moves := (only s.impl s.delegate success r₁ d₁ called).moves
  cases success with
  | false =>
    cases rest
    exact .failed rfl (moves.framed.stopped.trans here.poised.stopped)
  | true => exact going _ ⟨moves.framed.flagged.poised here.poised⟩ rest

theorem finishHeaders_turned (outside : Outside delegate) (here : AtRest s)
    (ran : finishHeaders delegate s = .ok s') : Turned delegate s' := by
  unfold finishHeaders at ran
  refine (here.token _ s.impl.currentTokenEndOffset).ensure outside.onHeaderComplete ran fun s₁ here ran => ?_
  cases ran
  have poised := here.poised
  exact .goesOn ⟨poised.stepBack, poised.complete, poised.stopped⟩

theorem completeHeaders_turned (outside : Outside delegate) (here : AtRest s)
    (ran : completeHeaders delegate s = .ok s') : Turned delegate s' := by
  unfold completeHeaders at ran
  split at ran
  · refine here.ensure outside.onUrl ran fun s₁ here ran => ?_
    refine (here.token _ _).ensure outside.onVersion ran fun s₂ here ran => ?_
    exact finishHeaders_turned outside here ran
  · refine here.ensure outside.onStatus ran fun s₁ here ran => ?_
    exact finishHeaders_turned outside here ran
  · cases ran

theorem settle_poised (returning : Returning r) (complete : r.processMessageComplete = false) : Poised r.settleToken := by
  have stopped := returning.stopped
  unfold settleToken
  cases token : r.setToken with
  | true => exact ⟨rfl, complete, stopped⟩
  | false =>
    refine ⟨?_, complete, stopped⟩
    by_contra back
    exact absurd (token.symm.trans (returning.begun (by simpa using back))) (by decide)

theorem afterMessage_turned (outside : Outside delegate) (returning : Returning s.impl)
    (complete : s.impl.processMessageComplete = false) (ran : afterMessage delegate s = .ok s') : Turned delegate s' := by
  unfold afterMessage at ran
  split at ran
  · cases ran
    exact .failed rfl returning.stopped
  · have poised := settle_poised returning complete
    dsimp only at ran
    split at ran
    · exact completeHeaders_turned outside (s := { s with impl := s.impl.settleToken }) ⟨poised⟩ ran
    · cases ran
      exact .goesOn poised

theorem afterExecute_turned (outside : Outside delegate) (returning : Returning s.impl)
    (ran : afterExecute delegate s = .ok s') : Turned delegate s' := by
  unfold afterExecute at ran
  split at ran
  · next complete =>
    obtain ⟨token, stepBack, errored⟩ := returning.completed complete
    obtain ⟨⟨success, r₁, d₁⟩, called, rest⟩ := bind_eq_ok.mp ran
    have framed := (outside.onMessageComplete _ _ s.impl s.delegate success r₁ d₁ called).moves.framed
    have token₁ := framed.setToken.trans token
    have stepBack₁ := framed.stepBack.trans stepBack
    cases success with
    | false =>
      cases rest
      exact .failed rfl (framed.stopped.trans returning.stopped)
    | true =>
      dsimp only at rest
      rw [if_pos rfl] at rest
      split at rest
      · next upgrade =>
        cases rest
        rw [upgrade] at called
        refine .halts ⟨⟨s.impl, s.delegate, r₁, called, ?_⟩, ?_⟩
        · unfold settleToken
          simp [token₁, stepBack₁]
        · unfold settleToken
          simpa [token₁] using framed.errored.trans errored
      · refine afterMessage_turned outside ⟨fun _ => token₁, ?_, framed.stopped.trans returning.stopped⟩ rfl rest
        rintro ⟨⟩
  · next complete => exact afterMessage_turned outside returning (by simpa using complete) ran

theorem parseStep_turned (outside : Outside delegate) (held : Held s.impl) (unfinished : s.unfinished = true)
    (poised : Poised s.impl) (ran : parseStep delegate s = .ok s') : Turned delegate s' := by
  obtain ⟨parser, slice, next, some_bytes, -, ran⟩ := parseStep_ran held.wf unfinished ran
  obtain ⟨n, parser', r, d, executed, ran⟩ := overSlice_ran ran
  have fine : s.impl.errored = false := by
    simp only [HttpMessageStreamRewriter.unfinished, decide_eq_true_eq] at unfinished
    simpa using unfinished.2.1
  have returning := execute_returning outside (nextCall_cleared next).1 some_bytes poised fine executed
  exact afterExecute_turned outside ⟨returning.begun, returning.completed, returning.stopped⟩ ran

/-- The loop, by induction on the passes that are left. -/
theorem parseLoop_turned (outside : Outside delegate) (fuel : Nat) (held : Held s.impl) (poised : Poised s.impl)
    (ran : parseLoop delegate fuel s = .ok s') : Turned delegate s' := by
  induction fuel generalizing s with
  | zero =>
    unfold parseLoop at ran
    split at ran <;> cases ran
    exact .goesOn poised
  | succ fuel ih =>
    unfold parseLoop at ran
    split at ran
    · next unfinished =>
      obtain ⟨s₁, step, ran⟩ := bind_eq_ok.mp ran
      cases parseStep_turned outside held unfinished poised step with
      | goesOn poised₁ => exact ih (parseStep_carries outside held unfinished step).held poised₁ ran
      | failed errored running =>
        have finished : s₁.unfinished = false := by simp [HttpMessageStreamRewriter.unfinished, errored]
        obtain rfl : s₁ = s' := by
          cases fuel <;> simpa [parseLoop, finished] using ran
        exact .failed errored running
      | halts halted =>
        have stopped : s₁.impl.stopped = true := by
          obtain ⟨_, _, _, -, same⟩ := halted.told
          rw [same]
        have finished : s₁.unfinished = false := by simp [HttpMessageStreamRewriter.unfinished, stopped]
        obtain rfl : s₁ = s' := by
          cases fuel <;> simpa [parseLoop, finished] using ran
        exact .halts halted
    · cases ran
      exact .goesOn poised

/-! ## A call -/

theorem carryIn_flagged {next : Nat} {buffer : Buffer} (ran : carryIn next buffer s = .ok s') : Flagged s.impl s'.impl := by
  rw [carryIn] at ran
  split at ran
  · obtain ⟨pending, -, ran⟩ := bind_eq_ok.mp ran
    obtain ⟨⟨next₁, buffer₁⟩, -, ran⟩ := bind_eq_ok.mp ran
    obtain ⟨buffer₂, -, ran⟩ := bind_eq_ok.mp ran
    cases ran
    exact (Flagged.refl s.impl).edit (by rfl)
  · cases ran
    exact (Flagged.refl s.impl).edit (by rfl)

theorem withhold_flagged {result : Except RewriterError Unit} (ran : withhold s = .ok (result, s')) :
    Flagged s.impl s'.impl := by
  unfold withhold at ran
  dsimp only at ran
  split at ran
  · split at ran
    · cases ran
      exact (Flagged.refl s.impl).edit (by rfl)
    · obtain ⟨pending, -, ran⟩ := bind_eq_ok.mp ran
      obtain ⟨buffer, -, ran⟩ := bind_eq_ok.mp ran
      cases ran
      exact (Flagged.refl s.impl).edit (by rfl)
  · cases ran
    exact .refl s.impl

/-- The end of a call that hands out everything. -/
theorem withhold_nothing (all : s.impl.currentTokenOffset = s.impl.currentBuffer.size) : withhold s = .ok (.ok (), s) := by
  unfold withhold
  dsimp only
  rw [if_neg (not_not.mpr all)]

/-- The end of a call that hands out the bytes up to `current_token_offset_`. -/
structure Cut (s s' : HttpMessageStreamRewriter δ) : Prop where
  before : s.impl.currentTokenOffset < s.impl.currentBuffer.size
  short : s.impl.currentBuffer.size - s.impl.currentTokenOffset ≤ maxBufferSize
  content : s'.impl.currentBuffer.content = s.impl.currentBuffer.content.take s.impl.currentTokenOffset
  size : s'.impl.currentBuffer.size = s.impl.currentTokenOffset
  held : s'.impl.pendingBufferLength = s.impl.currentBuffer.size - s.impl.currentTokenOffset
  token : s'.impl.currentTokenOffset = 0
  delegate : s'.delegate = s.delegate
  errored : s'.impl.errored = s.impl.errored

theorem withhold_cuts {result : Except RewriterError Unit} (wf : s.impl.currentBuffer.WellFormed)
    (fits : s.impl.currentBuffer.size < sizeRange)
    (some_bytes : s.impl.currentTokenOffset ≠ s.impl.currentBuffer.size) (ran : withhold s = .ok (result, s')) :
    (result = .error .blockTooLong ∧
        maxBufferSize < sizeSub s.impl.currentBuffer.size s.impl.currentTokenOffset) ∨
      result = .ok () ∧ Cut s s' := by
  unfold withhold at ran
  dsimp only at ran
  rw [if_pos some_bytes] at ran
  split at ran
  · next long =>
    cases ran
    exact Or.inl ⟨rfl, long⟩
  · next short =>
    right
    obtain ⟨pending, copied, ran⟩ := bind_eq_ok.mp ran
    obtain ⟨buffer, shrunk, ran⟩ := bind_eq_ok.mp ran
    cases ran
    obtain ⟨inside, -⟩ := Buffer.getData_read wf copied
    have before : s.impl.currentTokenOffset < s.impl.currentBuffer.size := by omega
    have length := sizeSub_eq fits (Nat.le_of_lt before)
    rw [length] at shrunk short
    have positive : 0 < s.impl.currentBuffer.size - s.impl.currentTokenOffset := by omega
    obtain ⟨b', ran', holds⟩ := Buffer.shrinkBack_holds 0 wf fits positive (Nat.sub_le _ _)
    obtain rfl := Except.ok.inj (ran'.symm.trans shrunk)
    have content : b'.content = s.impl.currentBuffer.content.take s.impl.currentTokenOffset := by
      rw [holds.content, Nat.sub_sub_self (Nat.le_of_lt before)]
    refine ⟨rfl, before, by omega, content, ?_, length, rfl, rfl, rfl⟩
    show b'.size = _
    rw [← holds.wf.length_content, content, List.length_take, wf.length_content]
    omega

/-- Once it has stopped, the loop makes no pass. -/
theorem parseLoop_stopped (stopped : s.impl.stopped = true) (fuel : Nat) : parseLoop delegate fuel s = .ok s := by
  have finished : s.unfinished = false := by simp [HttpMessageStreamRewriter.unfinished, stopped]
  cases fuel <;> simp [parseLoop, finished]

/-- A call of a rewriter that has stopped and holds nothing. -/
theorem stopped_call {next : Nat} {buffer : Buffer} (stopped : s.impl.stopped = true) (fine : s.impl.errored = false)
    (nothing : s.impl.pendingBufferLength = 0) : s.rewriteBuffer delegate next buffer =
      withhold { s with impl.next := next, impl.currentBuffer := buffer, impl.currentBufferOffset := 0 } := by
  have carried : carryIn next buffer s =
      .ok { s with impl.next := next, impl.currentBuffer := buffer, impl.currentBufferOffset := 0 } := by
    rw [carryIn, if_neg (not_not.mpr nothing)]
  unfold rewriteBuffer
  rw [carried, ok_bind, parseLoop_stopped (by exact stopped), ok_bind, if_neg (by simp [fine])]

/-- It has stopped and holds bytes that it will not hand out. -/
structure Stalled (s : HttpMessageStreamRewriter δ) : Prop where
  stopped : s.impl.stopped = true
  fine : s.impl.errored = false
  token : s.impl.currentTokenOffset = 0
  some_bytes : 0 < s.impl.pendingBufferLength
  few : s.impl.pendingBufferLength ≤ maxBufferSize

/-- What a call of it does, if it returns: it holds more, or too much. -/
theorem Stalled.call {next : Nat} {buffer : Buffer} {result : Except RewriterError Unit} (stalled : Stalled s)
    (wf : buffer.WellFormed) (below : buffer.Below next) (fits : buffer.size + maxBufferSize < sizeRange)
    (ran : s.rewriteBuffer delegate next buffer = .ok (result, s')) :
    (∃ e, result = .error e) ∨
      result = .ok () ∧ Stalled s' ∧ s'.impl.currentBuffer.content = [] ∧ s'.delegate = s.delegate := by
  obtain ⟨s₁, carried, ran⟩ := bind_eq_ok.mp ran
  have start := carryIn_ran wf below carried
  have stopped₁ := start.stopped.trans stalled.stopped
  have fine₁ := start.errored.trans stalled.fine
  obtain ⟨size, token⟩ : s₁.impl.currentBuffer.size = buffer.size + s.impl.pendingBufferLength ∧
      s₁.impl.currentTokenOffset = 0 := by
    rw [carryIn, if_pos (Nat.ne_of_gt stalled.some_bytes)] at carried
    obtain ⟨pending, -, carried⟩ := bind_eq_ok.mp carried
    obtain ⟨⟨next₁, buffer₁⟩, inserted, carried⟩ := bind_eq_ok.mp carried
    obtain ⟨buffer₂, written, carried⟩ := bind_eq_ok.mp carried
    cases carried
    have one := Buffer.insertFrontSize_sized wf below inserted
    have two := Buffer.setData_sized one.wf one.below written
    exact ⟨two.size.trans one.size, stalled.token⟩
  have few := stalled.few
  have some_bytes := stalled.some_bytes
  obtain ⟨s₂, parsed, ran⟩ := bind_eq_ok.mp ran
  rw [parseLoop_stopped stopped₁] at parsed
  cases parsed
  rw [if_neg (by simp [fine₁])] at ran
  rcases withhold_cuts start.held.wf (by omega) (by omega) ran with ⟨failed, -⟩ | ⟨rfl, cut⟩
  · exact Or.inl ⟨_, failed⟩
  · right
    have short := cut.short
    have held := cut.held
    refine ⟨rfl, ⟨(withhold_flagged ran).stopped.trans stopped₁, cut.errored.trans fine₁, cut.token, by omega, by omega⟩,
      ?_, cut.delegate.trans start.delegate⟩
    rw [cut.content, token, List.take_zero]

end LibNekit.Source.Rewriter
