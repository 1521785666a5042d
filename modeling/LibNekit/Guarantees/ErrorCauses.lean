import LibNekit.Source.Rewriter.Replies

/-!
# The error that a refusal is reported as

`UserError` is what the code behind the parser reports. A refusal inside a callback of the
parser is reported through the parser, as an error of the parser.
-/
namespace LibNekit.Guarantees.ErrorCauses

open LibNekit.Source LibNekit.Library HttpParser Rewriter HttpMessageStreamRewriter

variable {δ : Type} {delegate : Delegate δ}

/-! ## A delegate that is watched -/

def note (call : DelegateCall δ) : DelegateCall (δ × Bool) := fun r d => do
  let (success, r, d') ← call r d.1
  return (success, r, d', d.2 || !success)

/-- The delegate, with a flag that is set once a call has returned false. -/
def noting (delegate : Delegate δ) : Delegate (δ × Bool) where
  onMethod := note delegate.onMethod
  onUrl := note delegate.onUrl
  onVersion := note delegate.onVersion
  onStatus := note delegate.onStatus
  onHeaderPair := note delegate.onHeaderPair
  onHeaderComplete := note delegate.onHeaderComplete
  onMessageComplete := fun bufferOffset upgrade => note (delegate.onMessageComplete bufferOffset upgrade)

theorem noting_has {call : DelegateCall (δ × Bool)} (has : (noting delegate).Has call) :
    ∃ inner, delegate.Has inner ∧ call = note inner := by
  cases has with
  | onMethod => exact ⟨_, .onMethod, rfl⟩
  | onUrl => exact ⟨_, .onUrl, rfl⟩
  | onVersion => exact ⟨_, .onVersion, rfl⟩
  | onStatus => exact ⟨_, .onStatus, rfl⟩
  | onHeaderPair => exact ⟨_, .onHeaderPair, rfl⟩
  | onHeaderComplete => exact ⟨_, .onHeaderComplete, rfl⟩
  | onMessageComplete bufferOffset upgrade => exact ⟨_, .onMessageComplete bufferOffset upgrade, rfl⟩

theorem note_ran {call : DelegateCall δ} {r r' : RewriterImpl} {d d' : δ × Bool} {success : Bool}
    (ran : note call r d = .ok (success, r', d')) :
    call r d.1 = .ok (success, r', d'.1) ∧ d'.2 = (d.2 || !success) := by
  obtain ⟨⟨success₁, r₁, d₁⟩, called, done⟩ := bind_eq_ok.mp ran
  cases done
  exact ⟨called, rfl⟩

theorem noting_outside (outside : Outside delegate) : Outside (noting delegate) := by
  have only : ∀ {call : DelegateCall δ}, OnlyUses call → OnlyUses (note call) := by
    intro call only r d success r' d' ran
    exact only r d.1 success r' d'.1 (note_ran ran).1
  exact ⟨only outside.onMethod, only outside.onUrl, only outside.onVersion, only outside.onStatus,
    only outside.onHeaderPair, only outside.onHeaderComplete,
    fun bufferOffset upgrade => only (outside.onMessageComplete bufferOffset upgrade)⟩

theorem noting_tells : Tells (noting delegate) fun d => d.2 = true := by
  intro call has r d success r' d' ran agreed
  obtain ⟨inner, -, rfl⟩ := noting_has has
  show success = false ↔ d'.2 = true
  rw [(note_ran ran).2, Bool.eq_false_iff.mpr agreed]
  cases success <;> decide

/-! ## Errors that name their cause, and delegates that refuse in no callback -/

/-- `UserError` says that the delegate refused, and `ParserError` that the parser rejected
the bytes. -/
def Named (delegate : Delegate δ) (input : Nat × Buffer) (s : HttpMessageStreamRewriter (δ × Bool)) : Prop :=
  ∀ result s', s.rewriteBuffer (noting delegate) input.1 input.2 = .ok (result, s') →
    (result = .error .userError ↔ s'.delegate.2 = true) ∧
      ((∃ errno, result = .error (.parserError errno)) ↔ s'.parser.httpErrno.own = true)

/-- In the next pass no callback of the parser fails. -/
def grants (delegate : Delegate δ) (s : HttpMessageStreamRewriter δ) : Bool :=
  match s.nextCall with
  | none => true
  | some (parser, slice) =>
    ((execute parser slice.bytes).asked (parserSettings delegate slice.data) (s.impl, s.delegate)).all fun e =>
      match parserSettings delegate slice.data e.1 e.2 with
      | .ok answer => answer.1.code ≠ -1
      | .error _ => true

theorem grants_iff {s : HttpMessageStreamRewriter δ} {parser : HttpParser} {slice : Slice}
    (next : s.nextCall = some (parser, slice)) :
    grants delegate s = true ↔
      ∀ e ∈ (execute parser slice.bytes).asked (parserSettings delegate slice.data) (s.impl, s.delegate),
        ∀ reply s', parserSettings delegate slice.data e.1 e.2 = .ok (reply, s') → reply.code ≠ -1 := by
  unfold grants
  rw [next]
  dsimp only
  rw [List.all_eq_true]
  refine forall₂_congr fun e _ => ?_
  cases parserSettings delegate slice.data e.1 e.2 with
  | error fault => simp
  | ok answer =>
    obtain ⟨reply, s'⟩ := answer
    simp

/-! ## A pass -/

/-- Nothing is wrong yet. -/
def Calm (s : RewriterImpl × δ × Bool) : Prop :=
  s.1.errored = false ∧ s.1.processMessageComplete = false ∧ s.2.2 = false

/-- Between passes, where every refusal so far came after the parser. -/
inductive Standing (s : HttpMessageStreamRewriter (δ × Bool)) : Prop where
  | running (clear : s.impl.errored = false) (agreed : s.delegate.2 = false) (parsing : s.parsing = true)
      (ready : s.impl.stopped = true ∨ s.impl.processMessageComplete = false)
  | refused (errored : s.impl.errored = true) (refused : s.delegate.2 = true) (parsing : s.parsing = true)
  | rejected (errored : s.impl.errored = true) (agreed : s.delegate.2 = false) (own : s.parser.httpErrno.own = true)

/-- A refusal was reported through the parser. -/
structure Misreported (s : HttpMessageStreamRewriter (δ × Bool)) : Prop where
  errored : s.impl.errored = true
  parsing : s.parsing = false
  other : s.parser.httpErrno.own = false

variable {s s' : HttpMessageStreamRewriter (δ × Bool)}

theorem answers (outside : Outside delegate) {data : BytePtr} : Answers (parserSettings (noting delegate) data) Calm := by
  refine parserSettings_answers (noting_outside outside) fun {callback r d reply r' d'} calm replied going => ?_
  obtain ⟨code, paused⟩ := not_stops_iff.mp going
  obtain ⟨clear, complete, agreed⟩ := calm
  have fine : reply.code ≠ -1 := by
    rw [code]
    decide
  obtain ⟨errored, same⟩ := replied.going fine
  refine ⟨errored.trans clear, (same paused).trans complete, ?_⟩
  have told := replied.told noting_tells (Bool.eq_false_iff.mp agreed)
  exact Bool.eq_false_iff.mpr fun refused => fine (told.mpr refused)

theorem parsing_iff : s.parsing = true ↔ s.parser.httpErrno = .ok ∨ s.parser.httpErrno = .paused := by
  unfold HttpMessageStreamRewriter.parsing
  simp

theorem own_not_parsing (own : s.parser.httpErrno.own = true) : s.parsing = false := by
  rw [Bool.eq_false_iff, Ne, parsing_iff]
  obtain ⟨ok, paused⟩ := HttpErrno.own_fatal own
  exact not_or.mpr ⟨ok, paused⟩

theorem parsing_not_own (parsing : s.parsing = true) : s.parser.httpErrno.own = false := by
  rcases parsing_iff.mp parsing with ok | paused
  · rw [ok]
    rfl
  · rw [paused]
    rfl

/-- No message is complete and the parser has failed. -/
theorem afterExecute_failed (complete : s.impl.processMessageComplete = false) (failed : s.parsing = false) :
    afterExecute (noting delegate) s = .ok s.fail := by
  unfold afterExecute
  rw [if_neg (by simp [complete])]
  exact afterMessage_failed failed

/-- What an unfinished loop starts its next pass with. -/
theorem Standing.ready (standing : Standing s) (unfinished : s.unfinished = true) :
    Calm (s.impl, s.delegate) ∧ s.parsing = true := by
  simp only [HttpMessageStreamRewriter.unfinished, ne_eq, decide_eq_true_eq] at unfinished
  obtain ⟨-, clear, running⟩ := unfinished
  cases standing with
  | running clear agreed parsing ready => exact ⟨⟨clear, ready.resolve_left running, agreed⟩, parsing⟩
  | refused errored => exact absurd errored clear
  | rejected errored => exact absurd errored clear

/-- No callback of the parser failed. -/
theorem asked_agreed (outside : Outside delegate) {parser : HttpParser} {slice : Slice} {done : Nat × HttpParser}
    {r : RewriterImpl} {d : δ × Bool} (next : s.nextCall = some (parser, slice)) (agreed : s.delegate.2 = false)
    (granted : grants (noting delegate) s = true)
    (ran : (execute parser slice.bytes).run (parserSettings (noting delegate) slice.data) (s.impl, s.delegate) =
      .ok (done, r, d)) : d.2 = false := by
  have granted := (grants_iff next).mp granted
  refine @Program.run_keeps_asked _ _ _ _ _ _ (fun s => s.2.2 = false) _ _ _ _ ?_ agreed ran
  intro e member reply s' before answered
  have replied := callback_replied (noting_outside outside) answered
  have told := replied.told noting_tells (Bool.eq_false_iff.mp before)
  exact Bool.eq_false_iff.mpr fun refused => granted e member reply s' answered (told.mpr refused)

/-- A pass in which the callbacks of the parser succeed. -/
theorem pass_standing (outside : Outside delegate) (held : Held s.impl) (unfinished : s.unfinished = true)
    (standing : Standing s) (granted : grants (noting delegate) s = true)
    (ran : parseStep (noting delegate) s = .ok s') : Standing s' := by
  obtain ⟨calm, -⟩ := standing.ready unfinished
  obtain ⟨parser, slice, next, some_bytes, -, ran⟩ := parseStep_ran held.wf unfinished ran
  obtain ⟨n, parser', r, d, executed, ran⟩ := overSlice_ran ran
  have agreed := asked_agreed outside next calm.2.2 granted executed
  obtain ⟨returned, -⟩ := execute_returns (answers outside) calm (nextCall_cleared next).1 some_bytes executed
  have ended := afterExecute_over (noting_outside outside) ran
  -- The parser has found no error.
  have went (errored : r.errored = false) (parsing : parser'.httpErrno = .ok ∨ parser'.httpErrno = .paused) :
      Standing s' := by
    have parses : (parsedUpTo n parser' r d).parsing = true := parsing_iff.mpr parsing
    have told := ended.told parses noting_tells (Bool.eq_false_iff.mp agreed) errored
    have parsing' : s'.parsing = true := parsing_iff.mpr (by rw [ended.parser]; exact parsing)
    cases outcome : s'.impl.errored with
    | true => exact .refused outcome (told.mp outcome) parsing'
    | false =>
      refine .running outcome ?_ parsing' ((ended.complete parses).resolve_left (by simp [outcome]))
      exact Bool.eq_false_iff.mpr fun refused => absurd (outcome.symm.trans (told.mpr refused)) (by decide)
  cases returned with
  | ran calm clear => exact went calm.1 (Or.inl clear)
  | rejects calm own =>
    have failed : (parsedUpTo n parser' r d).parsing = false := own_not_parsing own
    rw [afterExecute_failed calm.2.1 failed] at ran
    cases ran
    exact .rejected rfl calm.2.2 own
  | stopped callback s₀ reply calm answered stops same =>
    have replied := callback_replied (noting_outside outside) answered
    have told := replied.told noting_tells (Bool.eq_false_iff.mp calm.2.2)
    have fine : reply.code ≠ -1 := fun refused => absurd (agreed.symm.trans (told.mp refused)) (by decide)
    refine went ((replied.going fine).1.trans calm.1) (Or.inr (same.trans ?_))
    exact if_neg fine

/-- A pass in which one fails. -/
theorem pass_misreported (outside : Outside delegate) (held : Held s.impl) (unfinished : s.unfinished = true)
    (standing : Standing s) (denied : grants (noting delegate) s = false) :
    ∃ s', parseStep (noting delegate) s = .ok s' ∧ Misreported s' := by
  obtain ⟨calm, -⟩ := standing.ready unfinished
  cases next : s.nextCall with
  | none =>
    unfold grants at denied
    rw [next] at denied
    cases denied
  | some call =>
    obtain ⟨parser, slice⟩ := call
    obtain ⟨some_bytes, step⟩ := parseStep_next held.wf unfinished next
    have clear := (nextCall_cleared next).1
    -- The callback that fails is the last one of its call.
    have refused : ∃ e ∈ (execute parser slice.bytes).asked (parserSettings (noting delegate) slice.data) (s.impl, s.delegate),
        ∃ reply s', parserSettings (noting delegate) slice.data e.1 e.2 = .ok (reply, s') ∧ reply.code = -1 := by
      by_contra none
      push Not at none
      exact absurd (denied.symm.trans ((grants_iff next).mpr none)) (by decide)
    obtain ⟨e, asked, reply, ⟨r, d⟩, answered, failed⟩ := refused
    obtain ⟨n, parser', executed⟩ := execute_fails (answers outside) calm clear some_bytes asked answered failed
    have errored : r.errored = true := ((callback_replied (noting_outside outside) answered).refused failed).2
    obtain ⟨returned, -⟩ := execute_returns (answers outside) calm clear some_bytes executed
    cases returned with
    | ran calm | rejects calm => exact absurd (calm.1.symm.trans errored) (by decide)
    | stopped callback s₀ reply₀ calm₀ answered₀ stops same =>
      have replied := callback_replied (noting_outside outside) answered₀
      have minus : reply₀.code = -1 := by
        by_contra fine
        exact absurd ((calm₀.1.symm.trans (replied.going fine).1.symm).trans errored) (by decide)
      have errno : parser'.httpErrno = callback.failed := same.trans (if_pos minus)
      have broken : (parsedUpTo n parser' r d).parsing = false := by
        rw [Bool.eq_false_iff, Ne, parsing_iff]
        show ¬(parser'.httpErrno = _ ∨ parser'.httpErrno = _)
        rw [errno]
        cases callback <;> simp [Callback.failed]
      have complete : (parsedUpTo n parser' r d).impl.processMessageComplete = false :=
        (replied.refused minus).1.trans calm₀.2.1
      refine ⟨(parsedUpTo n parser' r d).fail, ?_, rfl, broken, ?_⟩
      · rw [step, overSlice, executed]
        exact afterExecute_failed complete broken
      · show parser'.httpErrno.own = false
        rw [errno]
        cases callback <;> rfl

/-! ## A call -/

/-- The loop, by induction on the passes that are left. -/
theorem loop_standing (outside : Outside delegate) (fuel : Nat) (held : Held s.impl) (standing : Standing s)
    (granted : LoopAlong (noting delegate) (fun s => grants (noting delegate) s = true) fuel s)
    (ran : parseLoop (noting delegate) fuel s = .ok s') : Standing s' := by
  induction fuel generalizing s with
  | zero =>
    unfold parseLoop at ran
    split at ran <;> cases ran
    exact standing
  | succ fuel ih =>
    unfold parseLoop at ran
    split at ran
    · next unfinished =>
      obtain ⟨here, later⟩ := granted unfinished
      obtain ⟨s₁, step, ran⟩ := bind_eq_ok.mp ran
      have carries := parseStep_carries (noting_outside outside) held unfinished step
      exact ih carries.held (pass_standing outside held unfinished standing here step) (later s₁ step) ran
    · cases ran
      exact standing

theorem loop_finished (fuel : Nat) (errored : s.impl.errored = true) : parseLoop (noting delegate) fuel s = .ok s := by
  have finished : s.unfinished = false := by simp [HttpMessageStreamRewriter.unfinished, errored]
  cases fuel <;> simp [parseLoop, finished]

/-- The first callback that fails ends the loop. -/
theorem loop_misreported (outside : Outside delegate) (fuel : Nat) (held : Held s.impl) (standing : Standing s)
    (denied : ¬LoopAlong (noting delegate) (fun s => grants (noting delegate) s = true) fuel s) :
    ∃ s', parseLoop (noting delegate) fuel s = .ok s' ∧ Misreported s' := by
  induction fuel generalizing s with
  | zero => exact absurd trivial denied
  | succ fuel ih =>
    obtain ⟨unfinished, denied⟩ := Classical.not_imp.mp denied
    unfold parseLoop
    rw [if_pos unfinished]
    cases granted : grants (noting delegate) s with
    | false =>
      obtain ⟨s₁, step, misreported⟩ := pass_misreported outside held unfinished standing granted
      rw [step, ok_bind]
      exact ⟨s₁, loop_finished fuel misreported.errored, misreported⟩
    | true =>
      obtain ⟨s₁, step, denied⟩ : ∃ s₁, parseStep (noting delegate) s = .ok s₁ ∧
          ¬LoopAlong (noting delegate) (fun s => grants (noting delegate) s = true) fuel s₁ := by
        by_contra none
        push Not at none
        exact denied ⟨granted, none⟩
      rw [step, ok_bind]
      have carries := parseStep_carries (noting_outside outside) held unfinished step
      exact ih carries.held (pass_standing outside held unfinished standing granted step) denied

variable {input : Nat × Buffer}

/-- Only the flags and the parser matter. -/
theorem Standing.congr (standing : Standing s) (parser : s'.parser = s.parser) (delegate : s'.delegate = s.delegate)
    (errored : s'.impl.errored = s.impl.errored) (stopped : s'.impl.stopped = s.impl.stopped)
    (complete : s'.impl.processMessageComplete = s.impl.processMessageComplete) : Standing s' := by
  have parsing : s'.parsing = s.parsing := by
    unfold HttpMessageStreamRewriter.parsing
    rw [parser]
  cases standing with
  | running clear agreed parses ready =>
    exact .running (errored.trans clear) (delegate ▸ agreed) (parsing.trans parses) (by rw [stopped, complete]; exact ready)
  | refused failed refused parses => exact .refused (errored.trans failed) (delegate ▸ refused) (parsing.trans parses)
  | rejected failed agreed own => exact .rejected (errored.trans failed) (delegate ▸ agreed) (by rw [parser]; exact own)

theorem carryIn_standing (wf : input.2.WellFormed) (below : input.2.Below input.1) (standing : Standing s)
    (ran : carryIn input.1 input.2 s = .ok s') : Held s'.impl ∧ Standing s' := by
  have start := carryIn_ran wf below ran
  exact ⟨start.held, standing.congr start.parser start.delegate start.errored start.stopped start.complete⟩

/-- What the error names, and where the rewriter stands behind it. -/
def Tidy (result : Except RewriterError Unit) (s : HttpMessageStreamRewriter (δ × Bool)) : Prop :=
  ((result = .error .userError ↔ s.delegate.2 = true) ∧
    ((∃ errno, result = .error (.parserError errno)) ↔ s.parser.httpErrno.own = true)) ∧ Standing s

/-- A call whose loop ends with an error. -/
theorem errorResult_tidy (standing : Standing s) (errored : s.impl.errored = true) : Tidy (.error s.errorResult) s := by
  refine ⟨?_, standing⟩
  unfold errorResult
  cases standing with
  | running clear => exact absurd (clear.symm.trans errored) (by decide)
  | refused failed refused parsing =>
    rw [if_pos parsing, refused, parsing_not_own parsing]
    simp
  | rejected failed agreed own =>
    rw [if_neg (by simp [own_not_parsing own]), agreed, own]
    simp

/-- A call whose loop ends without one. -/
theorem withhold_tidy {result : Except RewriterError Unit} (standing : Standing s) (running : s.impl.errored = false)
    (ran : withhold s = .ok (result, s')) : Tidy result s' := by
  obtain ⟨results, parser, delegate, errored, stopped, complete⟩ := withhold_keeps ran
  refine ⟨?_, standing.congr parser delegate errored stopped complete⟩
  cases standing with
  | running clear agreed parsing =>
    rw [delegate, agreed, parser, parsing_not_own parsing]
    rcases results with rfl | rfl <;> simp
  | refused failed | rejected failed => exact absurd (running.symm.trans failed) (by decide)

/-- One call in which the callbacks of the parser succeed. -/
theorem call_tidy (outside : Outside delegate) (wf : input.2.WellFormed) (below : input.2.Below input.1)
    (standing : Standing s) (granted : CallAlong (noting delegate) (fun s => grants (noting delegate) s = true) input s)
    {result : Except RewriterError Unit} (ran : s.rewriteBuffer (noting delegate) input.1 input.2 = .ok (result, s')) :
    Tidy result s' := by
  obtain ⟨s₁, carried, ran⟩ := bind_eq_ok.mp ran
  obtain ⟨s₂, parsed, ran⟩ := bind_eq_ok.mp ran
  obtain ⟨held, started⟩ := carryIn_standing wf below standing carried
  have ended := loop_standing outside _ held started (granted s₁ carried) parsed
  cases errored : s₂.impl.errored with
  | true =>
    rw [if_pos errored] at ran
    cases ran
    exact errorResult_tidy ended errored
  | false =>
    rw [if_neg (by simp [errored])] at ran
    exact withhold_tidy ended errored ran

/-- One call: its error names the cause exactly if no callback of the parser fails. -/
theorem named_iff (outside : Outside delegate) (wf : input.2.WellFormed) (below : input.2.Below input.1)
    (standing : Standing s) :
    Named delegate input s ↔ CallAlong (noting delegate) (fun s => grants (noting delegate) s = true) input s := by
  constructor
  · intro named s₁ carried
    by_contra denied
    obtain ⟨held, started⟩ := carryIn_standing wf below standing carried
    obtain ⟨s₂, parsed, misreported⟩ := loop_misreported outside _ held started denied
    have result : s₂.errorResult = .parserError s₂.parser.httpErrno := if_neg (by simp [misreported.parsing])
    have returned : s.rewriteBuffer (noting delegate) input.1 input.2 = .ok (.error s₂.errorResult, s₂) := by
      show (carryIn input.1 input.2 s >>= _) = _
      rw [carried, ok_bind, parsed, ok_bind]
      exact if_pos misreported.errored
    have own := (named _ s₂ returned).2.mp ⟨_, congrArg Except.error result⟩
    exact absurd (misreported.other.symm.trans own) (by decide)
  · intro granted result s' ran
    exact (call_tidy outside wf below standing granted ran).1

/-! ## Every run -/

/-- In a run of calls on any Buffers, with any delegate, the errors name their cause
exactly as long as the delegate never refuses inside a callback of the parser. -/
theorem errors_named_iff (outside : Outside delegate) (type : MessageType) (skipBody : Bool) (d : δ)
    (inputs : List (Nat × Buffer))
    (admitted : (machine (noting delegate)).Admitted inputs { make type (d, false) with impl.skipBody := skipBody }) :
    (machine (noting delegate)).Along (Named delegate) inputs { make type (d, false) with impl.skipBody := skipBody } ↔
      (machine (noting delegate)).Along (CallAlong (noting delegate) fun s => grants (noting delegate) s = true) inputs
        { make type (d, false) with impl.skipBody := skipBody } := by
  have fresh : Standing { make type (d, false) with impl.skipBody := skipBody } :=
    .running rfl rfl rfl (Or.inr rfl)
  refine Machine.along_iff_along ?_ ?_ inputs _ fresh admitted
  · exact fun input s standing admits => named_iff outside admits.1 admits.2 standing
  · intro input s s' standing admits granted stepped
    obtain ⟨⟨result, s₁⟩, ran, done⟩ := bind_eq_ok.mp stepped
    cases done
    exact (call_tidy outside admits.1 admits.2 standing granted ran).2

/-- A delegate that refuses every URL. -/
def noUrl : Delegate Unit := { idle Unit with onUrl := fun r d => .ok (false, r, d) }

theorem noUrl_outside : Outside noUrl := by
  have watched := (idle_watches Unit).outside
  refine ⟨watched.onMethod, ?_, watched.onVersion, watched.onStatus, watched.onHeaderPair, watched.onHeaderComplete,
    watched.onMessageComplete⟩
  intro r d success r' d' ran
  cases ran
  exact .nothing r

/-- A request without headers, in two pieces: the refusal comes after the parser. -/
theorem errors_named_iff_no_headers :
    (machine (noting noUrl)).Along (Named noUrl)
      [(1, inOneChunk (ascii "GET /ab")), (1, inOneChunk (ascii "c HTTP/1.1\r\n\r\n"))]
      { make .request ((), false) with impl.skipBody := false } := by
  refine (errors_named_iff noUrl_outside .request false () _ ?_).mpr (by decide +kernel)
  exact ⟨⟨inOneChunk_wf (by decide), inOneChunk_below _⟩, fun _ _ => ⟨⟨inOneChunk_wf (by decide), inOneChunk_below _⟩,
    fun _ _ => trivial⟩⟩

/-- With a header the URL is reported inside a callback, and the same refusal is an error of
the parser. -/
theorem refusal_before_a_header :
    ¬(machine (noting noUrl)).Along (Named noUrl) [(1, inOneChunk (ascii "GET / HTTP/1.1\r\nA: b\r\n\r\n"))]
        (make .request ((), false)) ∧
      ((make .request ((), false)).rewriteBuffer (noting noUrl) 1 (inOneChunk (ascii "GET / HTTP/1.1\r\n\r\n"))).map
        Prod.fst = .ok (.error .userError) := by
  have reported : ((make .request ((), false)).rewriteBuffer (noting noUrl) 1
      (inOneChunk (ascii "GET / HTTP/1.1\r\nA: b\r\n\r\n"))).map (fun done => (done.1, done.2.delegate.2)) =
        .ok (.error (.parserError (.cbData .headerField)), true) := by decide +kernel
  constructor
  · rintro ⟨named, -⟩
    cases ran : (make .request ((), false)).rewriteBuffer (noting noUrl) 1
      (inOneChunk (ascii "GET / HTTP/1.1\r\nA: b\r\n\r\n")) with
    | error e =>
      rw [ran] at reported
      cases reported
    | ok done =>
      rw [ran] at reported
      obtain ⟨result, flag⟩ := Prod.mk.inj (Except.ok.inj reported)
      have user := (named done.1 done.2 ran).1.mpr flag
      rw [result] at user
      cases user
  · decide +kernel

end LibNekit.Guarantees.ErrorCauses
