import LibNekit.Source.Rewriter.Replies

/-!
# A rewriter that has failed stays failed

It does when it failed through the parser or the delegate. The exit for a token of more
than `NEKIT_HTTP_STREAM_REWRITER_MAX_BUFFER_SIZE` bytes leaves the flag clear and the
length of the token without its bytes, which the next call copies from a null pointer.
-/
namespace LibNekit.Guarantees.FailedRewriter

open LibNekit.Source LibNekit.Library Rewriter HttpMessageStreamRewriter

variable {δ : Type} {delegate : Delegate δ} {s s' : HttpMessageStreamRewriter δ} {input : Nat × Buffer}

/-- The calls of `RewriteBuffer`, and whether one of them has returned an error. -/
def calls (delegate : Delegate δ) : Machine (HttpMessageStreamRewriter δ × Bool) (Nat × Buffer) Fault where
  admits := fun input _ => input.2.WellFormed ∧ input.2.Below input.1
  step := fun input s => do
    let (result, rewriter) ← s.1.rewriteBuffer delegate input.1 input.2
    return (rewriter, s.2 || !result.toBool)

/-- `pending_previous_buffer_` holds `pending_buffer_length_` bytes, and not too many. -/
def Consistent (r : RewriterImpl) : Prop :=
  (r.pendingPreviousBuffer.getD []).length = r.pendingBufferLength ∧ r.pendingBufferLength ≤ maxBufferSize

instance (r : RewriterImpl) : Decidable (Consistent r) := inferInstanceAs (Decidable (_ ∧ _))

/-- After an error the next call returns one too, with whatever delegate, and a call that
returns leaves the rewriter consistent. -/
def StaysFailed (delegate : Delegate δ) (input : Nat × Buffer) (s : HttpMessageStreamRewriter δ × Bool) : Prop :=
  (s.2 = true → ∃ e s', ∀ other, s.1.rewriteBuffer other input.1 input.2 = .ok (.error e, s')) ∧
    ∀ result s', s.1.rewriteBuffer delegate input.1 input.2 = .ok (result, s') → Consistent s'.impl

/-- Where the loop ends, the bytes behind `current_token_offset_` are not too many, unless
it ended with an error. -/
def Short (delegate : Delegate δ) (input : Nat × Buffer) (s : HttpMessageStreamRewriter δ × Bool) : Prop :=
  ∀ s₁, carryIn input.1 input.2 s.1 = .ok s₁ → ∀ s₂, parseLoop delegate s₁.loopFuel s₁ = .ok s₂ →
    s₂.impl.errored = true ∨ sizeSub s₂.impl.currentBuffer.size s₂.impl.currentTokenOffset ≤ maxBufferSize

instance (input : Nat × Buffer) (s : HttpMessageStreamRewriter δ × Bool) : Decidable (Short delegate input s) :=
  match carried : carryIn input.1 input.2 s.1 with
  | .error _ => .isTrue fun s₁ ok => by rw [carried] at ok; cases ok
  | .ok s₁ =>
    match parsed : parseLoop delegate s₁.loopFuel s₁ with
    | .error _ => .isTrue fun s₁ ok s₂ ok' => by
        rw [carried] at ok
        cases ok
        rw [parsed] at ok'
        cases ok'
    | .ok s₂ => decidable_of_iff
        (s₂.impl.errored = true ∨ sizeSub s₂.impl.currentBuffer.size s₂.impl.currentTokenOffset ≤ maxBufferSize)
        ⟨fun short s₁ ok s₂ ok' => by
            rw [carried] at ok
            cases ok
            rw [parsed] at ok'
            cases ok'
            exact short,
          fun short => short s₁ carried s₂ parsed⟩

/-! ## One call -/

/-- Between calls. -/
structure Between (s : HttpMessageStreamRewriter δ × Bool) : Prop where
  same : s.2 = s.1.impl.errored
  nothing : s.1.impl.errored = true → s.1.impl.pendingBufferLength = 0
  consistent : Consistent s.1.impl

/-- A call of a rewriter whose flag is set: the loop makes no pass. -/
theorem errored_call (errored : s.impl.errored = true) (nothing : s.impl.pendingBufferLength = 0)
    (other : Delegate δ) : s.rewriteBuffer other input.1 input.2 =
      .ok (.error s.errorResult, { s with impl.next := input.1, impl.currentBuffer := input.2, impl.currentBufferOffset := 0 }) := by
  have carried : carryIn input.1 input.2 s =
      .ok { s with impl.next := input.1, impl.currentBuffer := input.2, impl.currentBufferOffset := 0 } := by
    rw [carryIn, if_neg (not_not.mpr nothing)]
  unfold rewriteBuffer
  rw [carried, ok_bind]
  unfold loopFuel
  rw [parseLoop, if_neg (by simp [unfinished, errored]), ok_bind]
  exact if_pos errored

/-- Where the loop of a call that starts without an error ends. -/
theorem loop_ends (outside : Outside delegate) {s₁ s₂ : HttpMessageStreamRewriter δ} (wf : input.2.WellFormed)
    (below : input.2.Below input.1) (consistent : Consistent s.impl) (carried : carryIn input.1 input.2 s = .ok s₁)
    (parsed : parseLoop delegate s₁.loopFuel s₁ = .ok s₂) :
    Held s₂.impl ∧ s₂.impl.pendingBufferLength = 0 ∧ (s₂.impl.pendingPreviousBuffer.getD []).length = 0 := by
  have start := carryIn_ran wf below carried
  have carries := parseLoop_carries outside _ start.held parsed
  refine ⟨carries.held, carries.pendingBufferLength.trans start.nothing, ?_⟩
  rw [carries.pendingPreviousBuffer]
  by_cases some_pending : s.impl.pendingBufferLength = 0
  · rw [start.left some_pending, consistent.1, some_pending]
  · rw [start.moved some_pending]
    rfl

/-- What is withheld is held, if it is short. -/
theorem withhold_between {result : Except RewriterError Unit} (held : Held s.impl) (running : s.impl.errored = false)
    (none : s.impl.pendingBufferLength = 0) (empty : (s.impl.pendingPreviousBuffer.getD []).length = 0)
    (short : sizeSub s.impl.currentBuffer.size s.impl.currentTokenOffset ≤ maxBufferSize)
    (ran : withhold s = .ok (result, s')) : Between (s', !result.toBool) := by
  unfold withhold at ran
  dsimp only at ran
  split at ran
  · rw [if_neg (Nat.not_lt.mpr short)] at ran
    obtain ⟨pending, copied, ran⟩ := bind_eq_ok.mp ran
    obtain ⟨buffer, -, ran⟩ := bind_eq_ok.mp ran
    cases ran
    have length := Buffer.getData_length held.wf copied
    refine ⟨running.symm, fun errored => ?_, length, short⟩
    exact absurd (running.symm.trans errored) (by decide)
  · cases ran
    refine ⟨running.symm, fun errored => ?_, empty.trans none.symm, ?_⟩
    · exact absurd (running.symm.trans errored) (by decide)
    · rw [none]
      exact Nat.zero_le _

/-- The exit that breaks the rule. -/
theorem withhold_long (long : maxBufferSize < sizeSub s.impl.currentBuffer.size s.impl.currentTokenOffset) :
    ∃ s', withhold s = .ok (.error .blockTooLong, s') ∧ ¬Consistent s'.impl := by
  have more : s.impl.currentTokenOffset ≠ s.impl.currentBuffer.size := by
    intro same
    have zero : sizeSub s.impl.currentBuffer.size s.impl.currentTokenOffset = 0 := by
      unfold sizeSub sizeRange
      omega
    rw [zero] at long
    exact absurd long (by decide)
  unfold withhold
  dsimp only
  rw [if_pos more, if_pos long]
  exact ⟨_, rfl, fun consistent => Nat.not_lt.mpr consistent.2 long⟩

/-- A call that ends short. -/
theorem call_between (outside : Outside delegate) {failed : Bool} {result : Except RewriterError Unit}
    (wf : input.2.WellFormed) (below : input.2.Below input.1) (between : Between (s, failed))
    (short : Short delegate input (s, failed)) (ran : s.rewriteBuffer delegate input.1 input.2 = .ok (result, s')) :
    Between (s', failed || !result.toBool) := by
  have same : failed = s.impl.errored := between.same
  cases errored : s.impl.errored with
  | true =>
    rw [errored_call errored (between.nothing errored)] at ran
    cases ran
    rw [same, errored]
    exact ⟨errored.symm, fun _ => between.nothing errored, between.consistent⟩
  | false =>
    obtain ⟨s₁, carried, ran⟩ := bind_eq_ok.mp ran
    obtain ⟨s₂, parsed, ran⟩ := bind_eq_ok.mp ran
    obtain ⟨held, none, empty⟩ := loop_ends outside wf below between.consistent carried parsed
    rw [same, errored, Bool.false_or]
    cases stopped : s₂.impl.errored with
    | true =>
      rw [if_pos stopped] at ran
      cases ran
      refine ⟨stopped.symm, fun _ => none, empty.trans none.symm, ?_⟩
      rw [none]
      exact Nat.zero_le _
    | false =>
      rw [if_neg (by simp [stopped])] at ran
      have less := (short s₁ carried s₂ parsed).resolve_left (by simp [stopped])
      exact withhold_between held stopped none empty less ran

/-- One call: the rule holds of it exactly if it ends short. -/
theorem staysFailed_iff (outside : Outside delegate) {state : HttpMessageStreamRewriter δ × Bool} (wf : input.2.WellFormed)
    (below : input.2.Below input.1) (between : Between state) : StaysFailed delegate input state ↔ Short delegate input state := by
  obtain ⟨s, failed⟩ := state
  constructor
  · rintro ⟨-, consistent⟩ s₁ carried s₂ parsed
    by_contra long
    obtain ⟨running, long⟩ := not_or.mp long
    obtain ⟨s₃, withheld, broken⟩ := withhold_long (Nat.lt_of_not_le long)
    refine broken (consistent (.error .blockTooLong) s₃ ?_)
    show (carryIn input.1 input.2 s >>= _) = _
    rw [carried, ok_bind, parsed, ok_bind, if_neg running]
    exact withheld
  · intro short
    refine ⟨fun stuck => ?_, fun result s' ran => ?_⟩
    · have errored : s.impl.errored = true := between.same.symm.trans stuck
      exact ⟨_, _, fun other => errored_call errored (between.nothing errored) other⟩
    · exact (call_between outside wf below between short ran).consistent

/-! ## Every run -/

/-- In a run of calls on any Buffers, with any delegate, a rewriter that has failed stays
failed and consistent exactly as long as no call ends with a token that is too long. -/
theorem stays_failed_iff (outside : Outside delegate) (type : MessageType) (skipBody : Bool) (d : δ)
    (inputs : List (Nat × Buffer))
    (admitted : (calls delegate).Admitted inputs ({ make type d with impl.skipBody := skipBody }, false)) :
    (calls delegate).Along (StaysFailed delegate) inputs ({ make type d with impl.skipBody := skipBody }, false) ↔
      (calls delegate).Along (Short delegate) inputs ({ make type d with impl.skipBody := skipBody }, false) := by
  have fresh : Between ({ make type d with impl.skipBody := skipBody }, false) :=
    ⟨rfl, fun _ => rfl, rfl, Nat.zero_le _⟩
  refine Machine.along_iff_along ?_ ?_ inputs _ fresh admitted
  · exact fun input state between admits => staysFailed_iff outside admits.1 admits.2 between
  · intro input state state' between admits short stepped
    obtain ⟨⟨result, s'⟩, ran, done⟩ := bind_eq_ok.mp stepped
    cases done
    exact call_between outside admits.1 admits.2 between short ran

/-- A message that is cut inside a header, then bytes that are none, then more of them. -/
theorem stays_failed_iff_three_calls :
    (calls (idle Unit)).Along (StaysFailed (idle Unit))
      [(1, inOneChunk (ascii "GET / HTTP/1.1\r\nHo")), (1, inOneChunk (ascii "st\x00: a\r\n\r\n")), (1, inOneChunk (ascii "GET "))]
      ({ make .request () with impl.skipBody := false }, false) := by
  refine (stays_failed_iff (idle_watches Unit).outside .request false () _ ?_).mpr (by decide +kernel)
  exact ⟨⟨inOneChunk_wf (by decide), inOneChunk_below _⟩, fun _ _ => ⟨⟨inOneChunk_wf (by decide), inOneChunk_below _⟩,
    fun _ _ => ⟨⟨inOneChunk_wf (by decide), inOneChunk_below _⟩, fun _ _ => trivial⟩⟩⟩

/-- A header of 8203 bytes is too long. The call after the error copies them from nowhere. -/
theorem long_header_copies_from_null :
    ¬(calls (idle Unit)).Along (StaysFailed (idle Unit))
        [(1, inOneChunk (ascii "GET / HTTP/1.1\r\nA: " ++ List.replicate 8200 98)), (1, inOneChunk (ascii "b"))]
        (make .request (), false) ∧
      ((make .request ()).rewriteBuffer (idle Unit) 1
          (inOneChunk (ascii "GET / HTTP/1.1\r\nA: " ++ List.replicate 8200 98)) >>= fun first =>
        first.2.rewriteBuffer (idle Unit) 1 (inOneChunk (ascii "b"))) = .error .nullPointer := by
  have broken : ((make .request ()).rewriteBuffer (idle Unit) 1
      (inOneChunk (ascii "GET / HTTP/1.1\r\nA: " ++ List.replicate 8200 98))).map (fun first => decide (Consistent first.2.impl)) =
        .ok false := by decide +kernel
  constructor
  · rintro ⟨⟨-, consistent⟩, -⟩
    cases ran : (make .request ()).rewriteBuffer (idle Unit) 1
      (inOneChunk (ascii "GET / HTTP/1.1\r\nA: " ++ List.replicate 8200 98)) with
    | error e =>
      rw [ran] at broken
      cases broken
    | ok first =>
      rw [ran] at broken
      exact of_decide_eq_false (Except.ok.inj broken) (consistent first.1 first.2 ran)
  · decide +kernel

end LibNekit.Guarantees.FailedRewriter
