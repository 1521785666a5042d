import LibNekit.Source.Rewriter.Delegates
import LibNekit.Source.ThirdParty.HttpParser.Returns

/-!
# What the parser's callbacks answer

Whatever the delegate is: how a callback replies, and what it leaves alone. `Tells` is
what a delegate keeps of its own calls, so a refusal can be followed to where it is
answered.
-/
namespace LibNekit.Source.Rewriter

open LibNekit.Library HttpParser HttpMessageStreamRewriter

variable {δ : Type} {delegate : Delegate δ} {data : BytePtr} {callback : Callback} {r r₁ r₂ r' : RewriterImpl}
  {d d₁ d₂ d' : δ} {reply : Reply}

/-- The calls of a delegate. -/
inductive Delegate.Has (delegate : Delegate δ) : DelegateCall δ → Prop where
  | onMethod : delegate.Has delegate.onMethod
  | onUrl : delegate.Has delegate.onUrl
  | onVersion : delegate.Has delegate.onVersion
  | onStatus : delegate.Has delegate.onStatus
  | onHeaderPair : delegate.Has delegate.onHeaderPair
  | onHeaderComplete : delegate.Has delegate.onHeaderComplete
  | onMessageComplete (bufferOffset : Nat) (upgrade : Bool) : delegate.Has (delegate.onMessageComplete bufferOffset upgrade)

theorem Outside.only (outside : Outside delegate) {call : DelegateCall δ} (has : delegate.Has call) : OnlyUses call := by
  cases has with
  | onMethod => exact outside.onMethod
  | onUrl => exact outside.onUrl
  | onVersion => exact outside.onVersion
  | onStatus => exact outside.onStatus
  | onHeaderPair => exact outside.onHeaderPair
  | onHeaderComplete => exact outside.onHeaderComplete
  | onMessageComplete bufferOffset upgrade => exact outside.onMessageComplete bufferOffset upgrade

/-- The delegate's state says whether a call has returned false. -/
def Tells (delegate : Delegate δ) (Refused : δ → Prop) : Prop :=
  ∀ call, delegate.Has call → ∀ r d success r' d', call r d = .ok (success, r', d') → ¬Refused d →
    (success = false ↔ Refused d')

/-- What the callbacks, and the code behind the parser, do not touch. -/
structure Kept (r r' : RewriterImpl) : Prop where
  type : r'.type = r.type
  pendingPreviousBuffer : r'.pendingPreviousBuffer = r.pendingPreviousBuffer
  pendingBufferLength : r'.pendingBufferLength = r.pendingBufferLength
  held : Held r → Held r'
  unconsumed : Held r → unconsumed r' = unconsumed r

theorem Kept.refl (r : RewriterImpl) : Kept r r := ⟨rfl, rfl, rfl, id, fun _ => rfl⟩

theorem Kept.trans (one : Kept r r₁) (two : Kept r₁ r₂) : Kept r r₂ :=
  ⟨two.type.trans one.type, two.pendingPreviousBuffer.trans one.pendingPreviousBuffer,
    two.pendingBufferLength.trans one.pendingBufferLength, fun held => two.held (one.held held),
    fun held => (two.unconsumed (one.held held)).trans (one.unconsumed held)⟩

theorem Moves.kept (moves : Moves r r') : Kept r r' :=
  ⟨moves.framed.type, moves.framed.pendingPreviousBuffer, moves.framed.pendingBufferLength, moves.held, moves.unconsumed⟩

/-- The rewriter's own bookkeeping. -/
theorem Kept.edit (kept : Kept r r₁)
    (same : (r₂.type, r₂.currentBuffer, r₂.next, r₂.currentBufferOffset, r₂.pendingPreviousBuffer, r₂.pendingBufferLength) =
      (r₁.type, r₁.currentBuffer, r₁.next, r₁.currentBufferOffset, r₁.pendingPreviousBuffer, r₁.pendingBufferLength)) :
    Kept r r₂ := by
  obtain ⟨type, buffer, next, offset, pending, length⟩ : _ ∧ _ ∧ _ ∧ _ ∧ _ ∧ _ := by
    simpa only [Prod.mk.injEq] using same
  refine kept.trans ⟨type, pending, length, fun held => ⟨buffer ▸ held.wf, ?_⟩, fun _ => ?_⟩
  · rw [buffer, next]
    exact held.below
  · rw [Rewriter.unconsumed, buffer, offset]
    rfl

/-- Where a callback of the parser stands, once the delegate has agreed so far. -/
structure Still (delegate : Delegate δ) (r : RewriterImpl) (d : δ) (r₁ : RewriterImpl) (d₁ : δ) : Prop where
  kept : Kept r r₁
  errored : r₁.errored = r.errored
  complete : r₁.processMessageComplete = r.processMessageComplete
  agreed : ∀ {Refused : δ → Prop}, Tells delegate Refused → ¬Refused d → ¬Refused d₁

/-- How a callback of the parser replies. -/
structure Replied (delegate : Delegate δ) (callback : Callback) (r : RewriterImpl) (d : δ) (reply : Reply)
    (r' : RewriterImpl) (d' : δ) : Prop where
  kept : Kept r r'
  code : reply.code = -1 ∨ reply.code = 0 ∨ callback = .notify .headersComplete ∧ reply.code = 1
  silent : callback.silent = true → ¬reply.Stops
  headers : callback = .notify .headersComplete → reply.code = -1 ∨ reply.paused = true
  refused : reply.code = -1 → r'.processMessageComplete = r.processMessageComplete ∧ r'.errored = true
  going : reply.code ≠ -1 → r'.errored = r.errored ∧
    (reply.paused = false → r'.processMessageComplete = r.processMessageComplete)
  told : ∀ {Refused : δ → Prop}, Tells delegate Refused → ¬Refused d → (reply.code = -1 ↔ Refused d')

/-! ## Rules -/

theorem Still.refl : Still delegate r d r d := ⟨.refl r, rfl, rfl, fun _ => id⟩

theorem Still.edit (still : Still delegate r d r₁ d₁)
    (same : (r₂.type, r₂.currentBuffer, r₂.next, r₂.currentBufferOffset, r₂.pendingPreviousBuffer, r₂.pendingBufferLength,
        r₂.errored, r₂.processMessageComplete) =
      (r₁.type, r₁.currentBuffer, r₁.next, r₁.currentBufferOffset, r₁.pendingPreviousBuffer, r₁.pendingBufferLength,
        r₁.errored, r₁.processMessageComplete)) : Still delegate r d r₂ d₁ := by
  obtain ⟨type, buffer, next, offset, pending, length, errored, complete⟩ : _ ∧ _ ∧ _ ∧ _ ∧ _ ∧ _ ∧ _ ∧ _ := by
    simpa only [Prod.mk.injEq] using same
  refine ⟨still.kept.edit ?_, errored.trans still.errored, complete.trans still.complete, still.agreed⟩
  rw [type, buffer, next, offset, pending, length]

/-- `ENSURE_CALLBACK` -/
theorem Still.ensure {call : DelegateCall δ} {next : RewriterImpl → δ → Checked (Answer δ)} (outside : Outside delegate)
    (has : delegate.Has call) (still : Still delegate r d r₁ d₁) (speaks : callback.silent = false)
    (ran : ensureCallback call r₁ d₁ next = .ok (reply, r', d'))
    (going : ∀ r₂ d₂, Still delegate r d r₂ d₂ → next r₂ d₂ = .ok (reply, r', d') →
      Replied delegate callback r d reply r' d') : Replied delegate callback r d reply r' d' := by
  obtain ⟨⟨success, r₂, d₂⟩, called, rest⟩ := bind_eq_ok.mp ran
  have moves := (outside.only has r₁ d₁ success r₂ d₂ called).moves
  cases success with
  | false =>
    cases rest
    constructor
    · have kept := still.kept.trans moves.kept
      exact ⟨kept.type, kept.pendingPreviousBuffer, kept.pendingBufferLength,
        fun held => ⟨(kept.held held).wf, (kept.held held).below⟩, kept.unconsumed⟩
    · exact Or.inl rfl
    · intro silent
      exact absurd (speaks.symm.trans silent) (by decide)
    · exact fun _ => Or.inl rfl
    · exact fun _ => ⟨moves.framed.processMessageComplete.trans still.complete, rfl⟩
    · exact fun other => absurd rfl other
    · intro Refused tells agreed
      exact iff_of_true rfl ((tells call has r₁ d₁ false _ _ called (still.agreed tells agreed)).mp rfl)
  | true =>
    refine going r₂ d₂ ⟨still.kept.trans moves.kept, moves.framed.errored.trans still.errored, ?_, ?_⟩ rest
    · exact moves.framed.processMessageComplete.trans still.complete
    · intro Refused tells agreed refuses
      exact absurd ((tells call has r₁ d₁ true _ _ called (still.agreed tells agreed)).mpr refuses) (by decide)

/-- A callback that returns 0. -/
theorem Still.proceeds (still : Still delegate r d r' d') (other : callback ≠ .notify .headersComplete) :
    Replied delegate callback r d {} r' d' :=
  ⟨still.kept, Or.inr (Or.inl rfl), fun _ => not_stops_iff.mpr ⟨rfl, rfl⟩, fun headers => absurd headers other,
    fun refused => absurd refused (by decide), fun _ => ⟨still.errored, fun _ => still.complete⟩,
    fun tells agreed => iff_of_false (by decide) (still.agreed tells agreed)⟩

/-- A callback that pauses the parser. -/
theorem Still.pauses (still : Still delegate r d r₁ d') {code : Int} (speaks : callback.silent = false)
    (fine : code = 0 ∨ callback = .notify .headersComplete ∧ code = 1) (kept : Kept r₁ r') (errored : r'.errored = r₁.errored) :
    Replied delegate callback r d ⟨code, true⟩ r' d' := by
  have going : code ≠ -1 := by
    rcases fine with rfl | ⟨-, rfl⟩ <;> decide
  refine ⟨still.kept.trans kept, Or.inr fine, ?_, fun _ => Or.inr rfl, fun refused => absurd refused going, ?_, ?_⟩
  · intro silent
    exact absurd (speaks.symm.trans silent) (by decide)
  · intro _
    exact ⟨errored.trans still.errored, by rintro ⟨⟩⟩
  · exact fun tells agreed => iff_of_false going (still.agreed tells agreed)

/-! ## Each callback -/

theorem closeLastHeader_replied (outside : Outside delegate) {nextToken : Nat} (still : Still delegate r d r₁ d₁)
    (ran : closeLastHeader delegate nextToken r₁ d₁ = .ok (reply, r', d')) :
    Replied delegate (.notify .headersComplete) r d reply r' d' := by
  refine (still.edit (by rfl)).ensure outside .onHeaderPair rfl ran fun r₂ d₂ still ran => ?_
  refine (still.edit (by rfl)).ensure outside .onHeaderComplete rfl ran fun r₃ d₃ still ran => ?_
  cases ran
  refine Still.pauses (still.edit (by rfl)) rfl ?_ (.refl _) rfl
  cases r₃.skipBody
  · exact Or.inl rfl
  · exact Or.inr ⟨rfl, rfl⟩

theorem headersComplete_replied (outside : Outside delegate) (ran : onHeadersComplete delegate r d = .ok (reply, r', d')) :
    Replied delegate (.notify .headersComplete) r d reply r' d' := by
  rw [onHeadersComplete.eq_def] at ran
  split at ran
  · exact closeLastHeader_replied outside .refl ran
  · exact closeLastHeader_replied outside (Still.refl.edit (by rfl)) ran
  case h_3 | h_4 =>
    cases ran
    refine Still.pauses (Still.refl.edit (by rfl)) rfl ?_ (.refl _) rfl
    cases r.skipBody
    · exact Or.inl rfl
    · exact Or.inr ⟨rfl, rfl⟩
  · cases ran

theorem notify_replied (outside : Outside delegate) {notification : NotifyCallback}
    (ran : parserSettings delegate data (.notify notification) (r, d) = .ok (reply, r', d')) :
    Replied delegate (.notify notification) r d reply r' d' := by
  cases notification with
  | messageBegin =>
    obtain ⟨_, -, ran⟩ := bind_eq_ok.mp (show onMessageBegin r d = _ from ran)
    cases ran
    exact Still.pauses (Still.refl.edit (by rfl)) rfl (Or.inl rfl) (.refl _) rfl
  | messageComplete =>
    obtain ⟨_, -, ran⟩ := bind_eq_ok.mp (show onMessageComplete r d = _ from ran)
    cases ran
    exact Still.pauses .refl rfl (Or.inl rfl) ⟨rfl, rfl, rfl, fun held => ⟨held.wf, held.below⟩, fun _ => rfl⟩ rfl
  | chunkHeader | chunkComplete =>
    obtain ⟨_, -, ran⟩ := bind_eq_ok.mp (show onChunk r d = _ from ran)
    cases ran
    exact Still.proceeds (Still.refl.edit (by rfl)) (by rintro ⟨⟩)
  | headersComplete => exact headersComplete_replied outside ran

theorem url_replied (outside : Outside delegate) {pointer : BytePtr} {start len : Nat}
    (ran : Rewriter.onUrl delegate pointer len r d = .ok (reply, r', d')) :
    Replied delegate (.data .url start len) r d reply r' d' := by
  rw [Rewriter.onUrl.eq_def] at ran
  split at ran
  · cases ran
    exact Still.proceeds (Still.refl.edit (by rfl)) (by rintro ⟨⟩)
  · obtain ⟨location, -, ran⟩ := bind_eq_ok.mp ran
    refine (Still.refl.edit (by rfl)).ensure outside .onMethod rfl ran fun r₁ d₁ still ran => ?_
    cases ran
    exact Still.pauses (still.edit (by rfl)) rfl (Or.inl rfl) (.refl _) rfl
  · cases ran

theorem status_replied (outside : Outside delegate) {pointer : BytePtr} {start len : Nat}
    (ran : Rewriter.onStatus delegate pointer len r d = .ok (reply, r', d')) :
    Replied delegate (.data .status start len) r d reply r' d' := by
  rw [Rewriter.onStatus.eq_def] at ran
  split at ran
  · obtain ⟨location, -, ran⟩ := bind_eq_ok.mp ran
    obtain ⟨_, -, ran⟩ := bind_eq_ok.mp ran
    refine (Still.refl.edit (by rfl)).ensure outside .onVersion rfl ran fun r₁ d₁ still ran => ?_
    cases ran
    exact Still.pauses (still.edit (by rfl)) rfl (Or.inl rfl) (.refl _) rfl
  · cases ran
    exact Still.proceeds (Still.refl.edit (by rfl)) (by rintro ⟨⟩)
  · cases ran

theorem beginHeader_replied {start len : Nat} (still : Still delegate r d r₁ d₁)
    (ran : beginHeader len r₁ d₁ = .ok (reply, r', d')) : Replied delegate (.data .headerField start len) r d reply r' d' := by
  cases ran
  exact Still.pauses (still.edit (by rfl)) rfl (Or.inl rfl) (.refl _) rfl

theorem headerField_replied (outside : Outside delegate) {pointer : BytePtr} {start len : Nat}
    (ran : Rewriter.onHeaderField delegate pointer len r d = .ok (reply, r', d')) :
    Replied delegate (.data .headerField start len) r d reply r' d' := by
  rw [Rewriter.onHeaderField.eq_def] at ran
  split at ran
  · obtain ⟨location, -, ran⟩ := bind_eq_ok.mp ran
    refine (Still.refl.edit (by rfl)).ensure outside .onUrl rfl ran fun r₁ d₁ still ran => ?_
    refine (still.edit (by rfl)).ensure outside .onVersion rfl ran fun r₂ d₂ still ran => ?_
    exact beginHeader_replied still ran
  · obtain ⟨location, -, ran⟩ := bind_eq_ok.mp ran
    refine (Still.refl.edit (by rfl)).ensure outside .onStatus rfl ran fun r₁ d₁ still ran => ?_
    exact beginHeader_replied still ran
  · cases ran
    exact Still.proceeds (Still.refl.edit (by rfl)) (by rintro ⟨⟩)
  · obtain ⟨location, -, ran⟩ := bind_eq_ok.mp ran
    refine (Still.refl.edit (by rfl)).ensure outside .onHeaderPair rfl ran fun r₁ d₁ still ran => ?_
    exact beginHeader_replied still ran
  · cases ran

theorem headerValue_replied {pointer : BytePtr} {start len : Nat}
    (ran : Rewriter.onHeaderValue pointer len r d = .ok (reply, r', d')) :
    Replied delegate (.data .headerValue start len) r d reply r' d' := by
  rw [Rewriter.onHeaderValue.eq_def] at ran
  split at ran
  · cases ran
    exact Still.proceeds (Still.refl.edit (by rfl)) (by rintro ⟨⟩)
  · obtain ⟨location, -, ran⟩ := bind_eq_ok.mp ran
    cases ran
    exact Still.proceeds (Still.refl.edit (by rfl)) (by rintro ⟨⟩)
  · cases ran

/-- Every callback of the parser. -/
theorem callback_replied (outside : Outside delegate)
    (ran : parserSettings delegate data callback (r, d) = .ok (reply, r', d')) :
    Replied delegate callback r d reply r' d' := by
  cases callback with
  | notify notification => exact notify_replied outside ran
  | data element start len =>
    cases element with
    | url => exact url_replied outside ran
    | status => exact status_replied outside ran
    | headerField => exact headerField_replied outside ran
    | headerValue => exact headerValue_replied ran
    | body =>
      cases ran
      exact Still.proceeds (Still.refl.edit (by rfl)) (by rintro ⟨⟩)

/-- The rewriter's callbacks are as the parser's calls are described for. -/
theorem parserSettings_answers (outside : Outside delegate) {Calm : RewriterImpl × δ → Prop}
    (calm : ∀ {callback r d reply r' d'}, Calm (r, d) → Replied delegate callback r d reply r' d' → ¬reply.Stops →
      Calm (r', d')) : Answers (parserSettings delegate data) Calm where
  silent := fun _ ran => (callback_replied outside ran).silent
  code := fun _ ran => (callback_replied outside ran).code
  headers := fun _ ran => (callback_replied outside ran).headers rfl
  calm := fun holds ran => calm holds (callback_replied outside ran)

/-- What the callbacks of one call leave alone. -/
theorem execute_kept (outside : Outside delegate) {parser : HttpParser} {bytes : Bytes} {done : Nat × HttpParser}
    (ran : (execute parser bytes).run (parserSettings delegate data) (r, d) = .ok (done, r', d')) : Kept r r' := by
  refine @Program.run_keeps _ _ _ _ _ _ (fun a b => Kept a.1 b.1) (fun _ => .refl _) ?_ ?_ _ _ _ _ ran
  · exact fun one two => one.trans two
  · exact fun callback a reply b ran => (callback_replied outside ran).kept

/-! ## Behind the parser -/

variable {s s₁ s' : HttpMessageStreamRewriter δ}

/-- Where the code behind the parser stands, once the delegate has agreed so far. -/
structure Agreed (delegate : Delegate δ) (s s₁ : HttpMessageStreamRewriter δ) : Prop where
  parser : s₁.parser = s.parser
  still : Still delegate s.impl s.delegate s₁.impl s₁.delegate

/-- What the code behind the parser comes to. -/
structure Went (delegate : Delegate δ) (s s' : HttpMessageStreamRewriter δ) : Prop where
  parser : s'.parser = s.parser
  kept : Kept s.impl s'.impl
  told : ∀ {Refused : δ → Prop}, Tells delegate Refused → ¬Refused s.delegate → s.impl.errored = false →
    (s'.impl.errored = true ↔ Refused s'.delegate)
  complete : s'.impl.processMessageComplete = s.impl.processMessageComplete

theorem Agreed.went (agreed : Agreed delegate s s') : Went delegate s s' := by
  refine ⟨agreed.parser, agreed.still.kept, fun tells fine clear => ?_, agreed.still.complete⟩
  rw [agreed.still.errored, clear]
  exact iff_of_false (by decide) (agreed.still.agreed tells fine)

/-- A call that fails sets `errored_`, and one that succeeds is followed by `next`. -/
theorem Agreed.ensured {call : DelegateCall δ}
    {next : HttpMessageStreamRewriter δ → Checked (HttpMessageStreamRewriter δ)} (outside : Outside delegate)
    (has : delegate.Has call) (agreed : Agreed delegate s s₁) (ran : HttpMessageStreamRewriter.ensure call s₁ next = .ok s') :
    (Went delegate s s' ∧ s'.impl.errored = true) ∨ ∃ s₂, Agreed delegate s s₂ ∧ next s₂ = .ok s' := by
  obtain ⟨⟨success, r₂, d₂⟩, called, rest⟩ := bind_eq_ok.mp ran
  have moves := (outside.only has s₁.impl s₁.delegate success r₂ d₂ called).moves
  have kept := agreed.still.kept.trans moves.kept
  have complete := moves.framed.processMessageComplete.trans agreed.still.complete
  cases success with
  | false =>
    left
    cases rest
    refine ⟨⟨agreed.parser, ?_, fun tells fine _ => ?_, complete⟩, rfl⟩
    · exact ⟨kept.type, kept.pendingPreviousBuffer, kept.pendingBufferLength,
        fun held => ⟨(kept.held held).wf, (kept.held held).below⟩, kept.unconsumed⟩
    · exact iff_of_true rfl ((tells call has _ _ false _ _ called (agreed.still.agreed tells fine)).mp rfl)
  | true =>
    right
    refine ⟨⟨s₁.parser, r₂, d₂⟩, ⟨agreed.parser, kept, ?_, complete, fun tells fine refuses => ?_⟩, rest⟩
    · exact moves.framed.errored.trans agreed.still.errored
    · exact absurd ((tells call has _ _ true _ _ called (agreed.still.agreed tells fine)).mpr refuses) (by decide)

theorem Agreed.ensure {call : DelegateCall δ}
    {next : HttpMessageStreamRewriter δ → Checked (HttpMessageStreamRewriter δ)} (outside : Outside delegate)
    (has : delegate.Has call) (agreed : Agreed delegate s s₁) (ran : HttpMessageStreamRewriter.ensure call s₁ next = .ok s')
    (going : ∀ s₂, Agreed delegate s s₂ → next s₂ = .ok s' → Went delegate s s') : Went delegate s s' := by
  rcases agreed.ensured outside has ran with ⟨went, -⟩ | ⟨s₂, agreed₂, ran₂⟩
  · exact went
  · exact going s₂ agreed₂ ran₂

theorem Agreed.refl : Agreed delegate s s := ⟨rfl, .refl⟩

/-- The offsets of the token that the code moves before a call. -/
theorem Agreed.token (agreed : Agreed delegate s s₁) (start stop : Nat) :
    Agreed delegate s { s₁ with impl.currentTokenOffset := start, impl.currentTokenEndOffset := stop } :=
  ⟨agreed.parser, agreed.still.edit (by rfl)⟩

theorem finishHeaders_went (outside : Outside delegate) (agreed : Agreed delegate s s₁)
    (ran : finishHeaders delegate s₁ = .ok s') : Went delegate s s' := by
  unfold finishHeaders at ran
  refine (agreed.token _ s₁.impl.currentTokenEndOffset).ensure outside .onHeaderComplete ran fun s₂ agreed ran => ?_
  cases ran
  exact Agreed.went ⟨agreed.parser, agreed.still.edit (by rfl)⟩

theorem completeHeaders_went (outside : Outside delegate) (agreed : Agreed delegate s s₁)
    (ran : completeHeaders delegate s₁ = .ok s') : Went delegate s s' := by
  unfold completeHeaders at ran
  split at ran
  · refine agreed.ensure outside .onUrl ran fun s₂ agreed ran => ?_
    refine (agreed.token _ _).ensure outside .onVersion ran fun s₃ agreed ran => ?_
    exact finishHeaders_went outside agreed ran
  · refine agreed.ensure outside .onStatus ran fun s₂ agreed ran => ?_
    exact finishHeaders_went outside agreed ran
  · cases ran

theorem Agreed.settle (agreed : Agreed delegate s s₁) : Agreed delegate s { s₁ with impl := s₁.impl.settleToken } := by
  refine ⟨agreed.parser, agreed.still.edit ?_⟩
  unfold RewriterImpl.settleToken
  split <;> rfl

/-- The parser has found no error. -/
theorem afterMessage_went (outside : Outside delegate) (parsing : s₁.parsing = true) (agreed : Agreed delegate s s₁)
    (ran : afterMessage delegate s₁ = .ok s') : Went delegate s s' := by
  unfold afterMessage at ran
  rw [if_neg (by simp [parsing])] at ran
  dsimp only at ran
  split at ran
  · exact completeHeaders_went outside agreed.settle ran
  · cases ran
    exact agreed.settle.went

/-- It has found one. -/
theorem afterMessage_failed (failed : s.parsing = false) : afterMessage delegate s = .ok s.fail := by
  unfold afterMessage
  rw [if_pos (by simp [failed])]

/-- What a pass comes to, once the parser has returned. -/
structure Over (delegate : Delegate δ) (s s' : HttpMessageStreamRewriter δ) : Prop where
  parser : s'.parser = s.parser
  kept : Kept s.impl s'.impl
  told : s.parsing = true → ∀ {Refused : δ → Prop}, Tells delegate Refused → ¬Refused s.delegate →
    s.impl.errored = false → (s'.impl.errored = true ↔ Refused s'.delegate)
  complete : s.parsing = true → s'.impl.errored = true ∨ s'.impl.stopped = true ∨ s'.impl.processMessageComplete = false
  failed : s.parsing = false → s'.impl.errored = true ∨ s'.impl.stopped = true

theorem Went.ended (went : Went delegate s s')
    (complete : s.parsing = true → s'.impl.errored = true ∨ s'.impl.stopped = true ∨ s'.impl.processMessageComplete = false)
    (failed : s.parsing = false → s'.impl.errored = true ∨ s'.impl.stopped = true) : Over delegate s s' :=
  ⟨went.parser, went.kept, fun _ => went.told, complete, failed⟩

theorem afterMessage_over (outside : Outside delegate) (complete : s.impl.processMessageComplete = false)
    (ran : afterMessage delegate s = .ok s') : Over delegate s s' := by
  cases parsing : s.parsing with
  | true =>
    have went := afterMessage_went outside parsing .refl ran
    refine went.ended (fun _ => Or.inr (Or.inr (went.complete.trans complete))) fun failed => ?_
    exact absurd (parsing.symm.trans failed) (by decide)
  | false =>
    rw [afterMessage_failed parsing] at ran
    cases ran
    have never {P : Prop} (parses : s.parsing = true) : P := absurd (parsing.symm.trans parses) (by decide)
    exact ⟨rfl, (Kept.refl _).edit (by rfl), never, never, fun _ => Or.inl rfl⟩

/-- The code behind the parser, where the delegate has agreed so far. -/
theorem Over.behind (ended : Over delegate s₁ s') (parser : s₁.parser = s.parser) (kept : Kept s.impl s₁.impl)
    (errored : s₁.impl.errored = s.impl.errored)
    (agreed : ∀ {Refused : δ → Prop}, Tells delegate Refused → ¬Refused s.delegate → ¬Refused s₁.delegate) :
    Over delegate s s' := by
  have same : s₁.parsing = s.parsing := by
    unfold HttpMessageStreamRewriter.parsing
    rw [parser]
  refine ⟨ended.parser.trans parser, kept.trans ended.kept, ?_, ?_, ?_⟩
  · intro parsing Refused tells fine clear
    exact ended.told (same.trans parsing) tells (agreed tells fine) (errored.trans clear)
  · exact fun parsing => ended.complete (same.trans parsing)
  · exact fun failed => ended.failed (same.trans failed)

theorem afterExecute_over (outside : Outside delegate) (ran : afterExecute delegate s = .ok s') : Over delegate s s' := by
  unfold afterExecute at ran
  split at ran
  · rcases Agreed.refl.ensured outside (.onMessageComplete _ _) ran with ⟨went, errored⟩ | ⟨s₁, agreed, ran⟩
    · exact went.ended (fun _ => Or.inl errored) fun _ => Or.inl errored
    split at ran
    · cases ran
      have stopped : ({ s₁.impl with stopped := true } : RewriterImpl).settleToken.stopped = true := by
        unfold RewriterImpl.settleToken
        split <;> rfl
      refine ⟨agreed.parser, ?_, fun _ Refused tells fine clear => ?_, fun _ => Or.inr (Or.inl stopped), fun _ => Or.inr stopped⟩
      · refine agreed.still.kept.edit ?_
        unfold RewriterImpl.settleToken
        split <;> rfl
      · have calm : ({ s₁.impl with stopped := true } : RewriterImpl).settleToken.errored = false := by
          have same := agreed.still.errored.trans clear
          unfold RewriterImpl.settleToken
          split <;> exact same
        rw [calm]
        exact iff_of_false (by decide) (agreed.still.agreed tells fine)
    · have ended := afterMessage_over outside (by rfl) ran
      exact ended.behind agreed.parser (agreed.still.kept.edit (by rfl)) agreed.still.errored agreed.still.agreed
  · next complete => exact afterMessage_over outside (by simpa using complete) ran

/-! ## A pass -/

/-- The rewriter where `http_parser_execute` has returned `n`. -/
def parsedUpTo (n : Nat) (parser : HttpParser) (r : RewriterImpl) (d : δ) : HttpMessageStreamRewriter δ :=
  ⟨parser, { r with currentBufferOffset := sizeAdd r.currentBufferOffset (throughInt n) }, d⟩

/-- Nothing is left to do behind the parser. -/
theorem afterExecute_calm (message : s.impl.processMessageComplete = false) (parsing : s.parsing = true)
    (header : s.impl.processHeaderComplete = false) :
    afterExecute delegate s = .ok { s with impl := s.impl.settleToken } := by
  have same : s.impl.settleToken.processHeaderComplete = false := by
    unfold RewriterImpl.settleToken
    split <;> exact header
  unfold afterExecute afterMessage
  rw [if_neg (by simp [message]), if_neg (by simp [parsing])]
  exact if_neg (by simp [same])

/-- The parser on a slice, and what follows. -/
theorem overSlice_ran {slice : Slice} (ran : overSlice delegate slice s = .ok s') :
    ∃ n parser r d, (execute s.parser slice.bytes).run (parserSettings delegate slice.data) (s.impl, s.delegate) =
        .ok ((n, parser), r, d) ∧ afterExecute delegate (parsedUpTo n parser r d) = .ok s' := by
  obtain ⟨⟨⟨n, parser⟩, r, d⟩, executed, ran⟩ := bind_eq_ok.mp ran
  exact ⟨n, parser, r, d, executed, ran⟩

/-- What no pass touches. -/
structure Carries (r r' : RewriterImpl) : Prop where
  type : r'.type = r.type
  pendingPreviousBuffer : r'.pendingPreviousBuffer = r.pendingPreviousBuffer
  pendingBufferLength : r'.pendingBufferLength = r.pendingBufferLength
  held : Held r'

theorem parseStep_carries (outside : Outside delegate) (held : Held s.impl) (unfinished : s.unfinished = true)
    (ran : parseStep delegate s = .ok s') : Carries s.impl s'.impl := by
  obtain ⟨parser, slice, -, -, -, ran⟩ := parseStep_ran held.wf unfinished ran
  obtain ⟨n, parser', r, d, executed, ran⟩ := overSlice_ran ran
  have kept := execute_kept outside executed
  have ended := afterExecute_over outside ran
  have moved : Held (parsedUpTo n parser' r d).impl := ⟨(kept.held held).wf, (kept.held held).below⟩
  exact ⟨ended.kept.type.trans kept.type, ended.kept.pendingPreviousBuffer.trans kept.pendingPreviousBuffer,
    ended.kept.pendingBufferLength.trans kept.pendingBufferLength, ended.kept.held moved⟩

/-- The loop, by induction on the passes that are left. -/
theorem parseLoop_carries (outside : Outside delegate) (fuel : Nat) (held : Held s.impl)
    (ran : parseLoop delegate fuel s = .ok s') : Carries s.impl s'.impl := by
  induction fuel generalizing s with
  | zero =>
    unfold parseLoop at ran
    split at ran <;> cases ran
    exact ⟨rfl, rfl, rfl, held⟩
  | succ fuel ih =>
    unfold parseLoop at ran
    split at ran
    · next unfinished =>
      obtain ⟨s₁, step, ran⟩ := bind_eq_ok.mp ran
      have first := parseStep_carries outside held unfinished step
      have rest := ih first.held ran
      exact ⟨rest.type.trans first.type, rest.pendingPreviousBuffer.trans first.pendingPreviousBuffer,
        rest.pendingBufferLength.trans first.pendingBufferLength, rest.held⟩
    · cases ran
      exact ⟨rfl, rfl, rfl, held⟩

/-! ## A call -/

/-- What the loop of a call starts from. -/
structure CarriedIn (s s' : HttpMessageStreamRewriter δ) : Prop where
  parser : s'.parser = s.parser
  delegate : s'.delegate = s.delegate
  held : Held s'.impl
  errored : s'.impl.errored = s.impl.errored
  stopped : s'.impl.stopped = s.impl.stopped
  complete : s'.impl.processMessageComplete = s.impl.processMessageComplete
  nothing : s'.impl.pendingBufferLength = 0
  moved : s.impl.pendingBufferLength ≠ 0 → s'.impl.pendingPreviousBuffer = none
  left : s.impl.pendingBufferLength = 0 → s'.impl.pendingPreviousBuffer = s.impl.pendingPreviousBuffer

theorem carryIn_ran {next : Nat} {buffer : Buffer} (wf : buffer.WellFormed) (below : buffer.Below next)
    (ran : carryIn next buffer s = .ok s') : CarriedIn s s' := by
  rw [carryIn] at ran
  split at ran
  · next some_pending =>
    obtain ⟨pending, -, ran⟩ := bind_eq_ok.mp ran
    obtain ⟨⟨next₁, buffer₁⟩, inserted, ran⟩ := bind_eq_ok.mp ran
    obtain ⟨buffer₂, written, ran⟩ := bind_eq_ok.mp ran
    cases ran
    have one := Buffer.insertFrontSize_sized wf below inserted
    have two := Buffer.setData_sized one.wf one.below written
    exact ⟨rfl, rfl, ⟨two.wf, two.below⟩, rfl, rfl, rfl, rfl, fun _ => rfl, fun none => absurd none some_pending⟩
  · next none =>
    cases ran
    exact ⟨rfl, rfl, ⟨wf, below⟩, rfl, rfl, rfl, not_not.mp none, fun some_pending => absurd some_pending none, fun _ => rfl⟩

/-- The end of a call leaves the parser, the delegate and the flags alone. -/
theorem withhold_keeps {result : Except RewriterError Unit} (ran : withhold s = .ok (result, s')) :
    (result = .ok () ∨ result = .error .blockTooLong) ∧ s'.parser = s.parser ∧ s'.delegate = s.delegate ∧
      s'.impl.errored = s.impl.errored ∧ s'.impl.stopped = s.impl.stopped ∧
      s'.impl.processMessageComplete = s.impl.processMessageComplete := by
  unfold withhold at ran
  dsimp only at ran
  split at ran
  · split at ran
    · cases ran
      exact ⟨Or.inr rfl, rfl, rfl, rfl, rfl, rfl⟩
    · obtain ⟨pending, -, ran⟩ := bind_eq_ok.mp ran
      obtain ⟨buffer, -, ran⟩ := bind_eq_ok.mp ran
      cases ran
      exact ⟨Or.inl rfl, rfl, rfl, rfl, rfl, rfl⟩
  · cases ran
    exact ⟨Or.inl rfl, rfl, rfl, rfl, rfl, rfl⟩

end LibNekit.Source.Rewriter
