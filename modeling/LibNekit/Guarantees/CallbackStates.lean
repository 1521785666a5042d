import LibNekit.Guarantees.StateAgreement

/-!
# No callback finds a state that it does not handle

The rest of the parser's loop, and whole streams: as long as the parser looks neither at
a blank line in front of a response nor at a trailer field, the assertions hold.
-/
namespace LibNekit.Guarantees.CallbackStates

open LibNekit.Source LibNekit.Library HttpParser Rewriter

variable {δ : Type} {delegate : Delegate δ} {data : BytePtr} {r r' : RewriterImpl} {d d' : δ} {f f' : Frame}
  {parser : HttpParser} {c : UInt8}

/-! ## Bodies -/

/-- The states of the parser in which a body is open. -/
def InBody (parser : HttpParser) : Prop := allowed parser.flags.trailing parser.state = [.body]

theorem inBody_table {trailing : Bool} {s : ParserState} (body : allowed trailing s = [.body]) :
    (s ≠ .startReq ∧ s ≠ .startRes) ∧ inLine s = false ∧ entryMark s = none := by
  revert body
  cases trailing <;> cases s <;> decide

theorem Agree.inBody (agree : Agree parser r) (body : InBody parser) : r.state = .body :=
  List.mem_singleton.mp (body ▸ agree.state)

theorem Agree.toBody (agree : Agree parser r) (body : InBody parser) {next : HttpParser} (type : next.type = parser.type)
    (body' : InBody next) : Agree next r := by
  obtain ⟨fresh, outside, -⟩ := inBody_table body'
  refine agree.move type fresh rfl agree.direct ?_ fun line => ?_
  · rw [body', agree.inBody body]
    exact List.mem_cons_self
  · rw [outside] at line
    cases line

/-- The parser goes on inside a body, whose own mark is free. -/
theorem Inside.toBody (inside : Inside f r) (body : InBody f.parser) (type : f'.parser.type = f.parser.type)
    (body' : InBody f'.parser) (marks : ∀ callback, callback ≠ .body → f'.marks callback = f.marks callback) :
    Inside f' r := by
  refine ⟨inside.agree.toBody body type body', fun callback notBody => ?_⟩
  rw [marks callback notBody, inside.marked callback notBody, (inBody_table body).2.2, (inBody_table body').2.2]

theorem mark_body (f : Frame) (callback : DataCallback) (notBody : callback ≠ .body) :
    (f.mark .body).marks callback = f.marks callback := by
  unfold Frame.mark
  split
  · rfl
  · exact Function.update_of_ne notBody _ _

/-- The end of a message. -/
theorem complete_safe (watches : Watches delegate) (inside : Inside f r) (body : InBody f.parser) {er : Nat} :
    SafeAs delegate data (callbackNotify .messageComplete er (f.goTo f.parser.newMessage))
      (f.goTo f.parser.newMessage) r d := by
  have either : f.parser.newMessage = f.parser.startState ∨ f.parser.newMessage = .dead := by
    unfold newMessage
    split
    · exact Or.inl rfl
    · exact Or.inr rfl
  have table : ∀ trailing, allowed trailing f.parser.newMessage = [.init] ∧ inLine f.parser.newMessage = false ∧
      entryMark f.parser.newMessage = none := by
    intro trailing
    rcases either with new | new <;> rw [new]
    · unfold startState
      cases f.parser.type <;> exact ⟨rfl, rfl, rfl⟩
    · exact ⟨rfl, rfl, rfl⟩
  have state := inside.agree.inBody body
  refine safe_notify watches state ?_ fun reply r' same => ⟨?_, fun starts => ?_, ?_, fun line => ?_, ?_⟩
  · exact inside.unmarked (inBody_table body).2.2 (table true).2.2
  · rw [same.type]
    exact inside.agree.type
  · rcases either with new | new
    · exact new
    · rcases starts with start | start <;> exact absurd (new.symm.trans start) nofun
  · show r'.state ∈ allowed _ f.parser.newMessage
    rw [same.state, (table _).1]
    exact List.mem_cons_self
  · rw [show inLine f.parser.newMessage = true from line] at table
    exact absurd (table true).2.1 nofun
  · rw [same.postponed, inside.agree.direct]
    rfl

theorem messageDone_safe (watches : Watches delegate) (inside : Inside f r) (body : InBody f.parser) :
    Safe delegate data (messageDone f) r d := by
  unfold messageDone
  refine (complete_safe watches inside body).safe.bind fun f' r' d' ends => ?_
  split
  · exact ends.agree.left
  · exact ends

theorem headersDone_safe (watches : Watches delegate) (inside : Inside f r) (state : f.parser.state = .headersDone) :
    Safe delegate data (headersDone f c) r d := by
  have body : InBody f.parser := by
    unfold InBody
    rw [state]
    rfl
  unfold headersDone
  split
  · exact safe_error ⟨nofun, nofun⟩
  have counted : Inside { f with parser.nread := 0 } r := inside.toBody body rfl body fun _ _ => rfl
  dsimp only
  split
  · exact (complete_safe watches counted body).safe.bind fun _ _ _ ends => ends.agree.left
  split
  · exact (complete_safe watches counted body).safe
  split
  · exact counted.toBody body rfl rfl fun _ _ => rfl
  split
  · exact (complete_safe watches counted body).safe
  split
  · exact counted.toBody body rfl rfl fun _ _ => rfl
  split
  · exact (complete_safe watches counted body).safe
  · exact counted.toBody body rfl rfl fun _ _ => rfl

theorem safe_assert {condition : Prop} [Decidable condition] {after : Unit → Run Frame}
    (going : Safe delegate data (after ()) r d) : Safe delegate data (cAssert condition >>= after) r d := by
  unfold cAssert
  split
  · exact going
  · exact trivial

theorem safe_lift {α : Type} {x : Checked α} {after : α → Run Frame}
    (going : ∀ a, x = .ok a → Safe delegate data (after a) r d) :
    Safe delegate data ((liftM x : Run α) >>= after) r d := by
  cases ran : x with
  | ok a => exact going a ran
  | error e => exact trivial

/-- A piece that always returns. -/
def Exits : Flow Frame → RewriterImpl × δ → Prop
  | .next _, _ => False
  | .exit _ parser, s => Left parser s.1

/-- The callback at the end of the headers pauses the parser, which comes back to the LF. -/
theorem headersComplete_safe (watches : Watches delegate) (type : f.parser.type = r.type.parserType)
    (state : f.parser.state = .headersDone) (direct : r.processHeaderComplete = false)
    (opened : r.state = .url ∨ r.state = .status ∨ r.state = .headerValue) :
    Program.Safe (parserSettings delegate data) (fun callback s => Expected callback s.1.state) Exits
      (headersComplete f) (r, d) := by
  refine ⟨?_, fun reply s' ran => ?_⟩
  · rcases opened with url | status | value
    · exact Or.inr (Or.inr (Or.inl url))
    · exact Or.inr (Or.inr (Or.inr status))
    · exact Or.inl value
  have same := answered watches ran
  have paused : reply.paused = true := same.paused
  dsimp only
  rw [if_pos paused]
  split
  · exact left_error ⟨nofun, nofun⟩
  · intro _
    rcases opened with url | status | value
    · refine Or.inr ⟨type.trans (by rw [same.type]), state, Or.inl ?_, ?_⟩
      · rw [same.state, url]
        rfl
      · rw [same.postponed, url]
        exact Bool.or_true _
    · refine Or.inr ⟨type.trans (by rw [same.type]), state, Or.inr ?_, ?_⟩
      · rw [same.state, status]
        rfl
      · rw [same.postponed, status]
        exact Bool.or_true _
    · left
      have still : ∀ trailing, allowed trailing f.parser.state = [.body] ∧ inLine f.parser.state = false := by
        rw [state]
        exact fun _ => ⟨rfl, rfl⟩
      refine ⟨type.trans (by rw [same.type]), fun starts => ?_, ?_, fun line => ?_, ?_⟩
      · rw [show f.parser.state = _ from state] at starts
        rcases starts with start | start <;> cases start
      · show s'.1.state ∈ allowed _ f.parser.state
        rw [(still _).1, same.state, value]
        exact List.mem_cons_self
      · exact absurd ((still true).2.symm.trans line) nofun
      · rw [same.postponed, direct, value]
        rfl

/-- The end of the headers, or of the trailer. -/
theorem headersAlmostDone_safe (watches : Watches delegate) (inside : Inside f r)
    (state : f.parser.state = .headersAlmostDone) : Safe delegate data (headersAlmostDone f c) r d := by
  have states := inside.agree.states state
  unfold headersAlmostDone
  split
  · exact safe_error ⟨by decide, by decide⟩
  split
  · next trailing =>
    rw [trailing] at states
    have body : r.state = .body := List.mem_singleton.mp states
    have here : InBody f.parser := by
      unfold InBody
      rw [state, trailing]
      rfl
    have done : Inside (f.goTo .messageDone) r := inside.toBody here rfl rfl fun _ _ => rfl
    refine safe_then (safe_notify watches body done.marked fun reply r' same => ?_) fun f' r' d' ends still _ => ?_
    · refine done.agree.after same rfl rfl (by simp [Frame.goTo]) ?_ (by rintro ⟨⟩)
      rw [body]
      exact List.mem_cons_self
    · refine messageDone_safe watches ends ?_
      unfold InBody
      rw [still]
      rfl
  · next plain =>
    have line : f.parser.flags.trailing = false := by simpa using plain
    rw [line] at states
    have opened : r.state = .url ∨ r.state = .status ∨ r.state = .headerValue := by simpa [allowed] using states
    split
    · exact safe_error ⟨by decide, by decide⟩
    · refine Program.Safe.bind (headersComplete_safe watches ?_ rfl inside.agree.direct opened) fun flow s' _ exits => ?_
      · exact inside.agree.type
      · cases flow with
        | next f' => exact exits.elim
        | exit n parser => exact exits

/-! ## Header lines -/

theorem headerFieldStart_safe (watches : Watches delegate) (inside : Inside f r)
    (state : f.parser.state = .headerFieldStart) (plain : f.parser.flags.trailing = true → token c = 0) :
    Safe delegate data (headerFieldStart f c) r d := by
  have almostDone : Inside (f.goTo .headersAlmostDone) r := by
    refine ⟨inside.agree.goTo ⟨nofun, nofun⟩ ?_ nofun, inside.unmarked (by rw [state]; rfl) rfl⟩
    rw [state]
    exact fun _ allows => allows
  unfold headerFieldStart
  split
  · exact almostDone
  split
  · exact headersAlmostDone_safe watches almostDone rfl
  split
  · exact safe_error ⟨nofun, nofun⟩
  · next reads =>
    have line : f.parser.flags.trailing = false := by
      cases trailing : f.parser.flags.trailing with
      | false => rfl
      | true => exact absurd (plain trailing) reads
    have opened : r.state ∈ [State.url, .status, .headerValue] := by
      have states := inside.agree.states state
      rw [line] at states
      exact states
    have agree : Agree { f.parser.goTo .headerField with index := 0, headerState := firstHeaderState (token c) } r := by
      refine inside.agree.move rfl ⟨nofun, nofun⟩ rfl inside.agree.direct ?_ fun _ => line
      exact List.mem_append_left [State.headerField] opened
    have entered := @Inside.enter _ _ inside .headerField _ agree nofun (by rw [state]; rfl) rfl
    dsimp only
    unfold Frame.goTo
    simp only [mark_keeps]
    exact entered

theorem headerField_safe (watches : Watches delegate) {bytes : Bytes} (inside : Inside f r)
    (state : f.parser.state = .headerField) : Safe delegate data (headerField bytes f) r d := by
  unfold headerField
  refine safe_lift fun scanned ran => ?_
  obtain ⟨passed, parser⟩ := scanned
  have steady := headerFieldLoop_steady ran
  have agree := inside.agree.congr steady
  have here : parser.state = .headerField := steady.state.trans state
  have line := agree.trailing (by rw [here]; rfl)
  have states := agree.states here
  have marked : Marked parser.state f.marks := steady.state ▸ inside.marked
  dsimp only
  refine safe_count ?_
  split
  · exact ⟨agree.congr ⟨rfl, rfl, rfl⟩, marked⟩
  split
  · apply SafeAs.safe
    refine safe_data watches (by decide) (inside.only (by rw [state]; rfl)) rfl (fun _ _ => ?_) fun start len reply r' same => ?_
    · rw [allowed] at states
      simpa [Expected, or_comm, or_left_comm, or_assoc] using states
    · refine agree.after same rfl rfl (by simp [Frame.goTo]) ?_ fun _ => line
      exact List.mem_cons_self
  · exact safe_error ⟨by decide, by decide⟩

/-- The first character of a value, in whichever state it is found. -/
theorem headerValueStart_safe (type : f.parser.type = r.type.parserType)
    (states : r.state = .headerField ∨ r.state = .headerValue) (line : f.parser.flags.trailing = false)
    (direct : r.processHeaderComplete = false) (unmarked : Marked .headerValueStart f.marks) :
    Safe delegate data (headerValueStart f c) r d := by
  have before : Inside (f.goTo .headerValueStart) r := by
    refine ⟨⟨type, by rintro (⟨⟨⟩⟩ | ⟨⟨⟩⟩), ?_, fun _ => line, direct⟩, unmarked⟩
    simpa [allowed] using states
  unfold headerValueStart
  dsimp only
  split
  · next parser read =>
    have steady := startValue_steady read
    rw [Frame.goTo, mark_keeps] at steady
    have agree : Agree parser r := by
      refine before.agree.move steady.type ?_ rfl direct ?_ fun _ => steady.trailing.trans line
      · rw [steady.state]
        simp
      · rw [steady.state]
        simpa [allowed] using states
    have entered := @Inside.enter _ _ before .headerValue _ agree (by decide) rfl (by rw [steady.state]; rfl)
    have marks : ((f.goTo .headerValueStart).mark .headerValue).marks = (f.mark .headerValue).marks :=
      mark_marks (f.goTo .headerValueStart) f rfl rfl _
    exact ⟨agree, marks ▸ entered.marked⟩
  · next errno failed => exact safe_error (HttpErrno.own_fatal (startValue_error failed))

theorem headerValueDiscardWs_safe (inside : Inside f r) (state : f.parser.state = .headerValueDiscardWs) :
    Safe delegate data (headerValueDiscardWs f c) r d := by
  have line := inside.agree.trailing (by rw [state]; rfl)
  have states := inside.agree.states state
  have unmarked : ∀ {s : ParserState}, entryMark s = none → Marked s f.marks :=
    inside.unmarked (by rw [state]; rfl)
  have moves : ∀ x ∈ allowed f.parser.flags.trailing f.parser.state, x ∈ [State.headerField] := by
    rw [state]
    exact fun _ allows => allows
  have still : inLine f.parser.state = true := by rw [state]; rfl
  unfold headerValueDiscardWs
  split
  · exact inside
  split
  · exact ⟨inside.agree.goTo ⟨nofun, nofun⟩ moves fun _ => still, unmarked rfl⟩
  split
  · exact ⟨inside.agree.goTo ⟨nofun, nofun⟩ moves fun _ => still, unmarked rfl⟩
  · exact headerValueStart_safe inside.agree.type (Or.inl (List.mem_singleton.mp states)) line inside.agree.direct
      (unmarked rfl)

theorem headerValueLws_safe (watches : Watches delegate) (inside : Inside f r) (state : f.parser.state = .headerValueLws) :
    Safe delegate data (headerValueLws f c) r d := by
  have line := inside.agree.trailing (by rw [state]; rfl)
  have value : r.state = .headerValue := List.mem_singleton.mp (inside.agree.states state)
  have unmarked : ∀ {s : ParserState}, entryMark s = none → Marked s f.marks :=
    inside.unmarked (by rw [state]; rfl)
  unfold headerValueLws
  split
  · exact headerValueStart_safe inside.agree.type (Or.inr value) line inside.agree.direct (unmarked rfl)
  · have finished := finishHeader_steady f.parser
    have line' : (finishHeader f.parser).flags.trailing = false := finished.trailing.trans line
    refine headerFieldStart_safe watches ⟨?_, unmarked rfl⟩ rfl fun trailing => ?_
    · refine inside.agree.move finished.type ⟨nofun, nofun⟩ rfl inside.agree.direct ?_ nofun
      show r.state ∈ allowed (finishHeader f.parser).flags.trailing .headerFieldStart
      rw [line', value]
      exact List.mem_of_elem_eq_true rfl
    · exact absurd (line'.symm.trans trailing) nofun

theorem headerValueDiscardLws_safe (watches : Watches delegate) (inside : Inside f r)
    (state : f.parser.state = .headerValueDiscardLws) : Safe delegate data (headerValueDiscardLws f c) r d := by
  have line := inside.agree.trailing (by rw [state]; rfl)
  have field : r.state = .headerField := List.mem_singleton.mp (inside.agree.states state)
  unfold headerValueDiscardLws
  split
  · refine ⟨inside.agree.goTo (by decide) ?_ fun _ => by rw [state]; rfl, inside.unmarked (by rw [state]; rfl) rfl⟩
    rw [state]
    exact fun _ allows => allows
  · have finished := finishHeader_steady f.parser
    have line' : (finishHeader f.parser).flags.trailing = false := finished.trailing.trans line
    have marked := @Inside.mark _ _ inside .headerValue (by decide) (by rw [state]; rfl)
    refine safe_then (safe_data watches (by decide) (fun callback notBody => ?_) rfl (fun _ _ => Or.inr field)
      fun start len reply r' same => ?_) fun f' r' d' ends still flags => ?_
    · rw [← marked callback notBody]
      have marks : ({ f with parser := finishHeader f.parser }.mark .headerValue).marks = (f.mark .headerValue).marks :=
        mark_marks { f with parser := finishHeader f.parser } f rfl rfl _
      rw [← marks]
      rfl
    · have agree : Agree { finishHeader f.parser with state := f.parser.state } r := inside.agree.congr finished
      refine agree.after same rfl ?_ (by simp [Frame.goTo]) ?_ (by rintro ⟨⟩)
      · simp [mark_keeps]
      · simp [mark_keeps, line', nextState, allowed]
    · refine headerFieldStart_safe watches ends still fun trailing => ?_
      have line'' : f'.parser.flags.trailing = false := by simpa [flags, mark_keeps] using line'
      exact absurd (line''.symm.trans trailing) (by decide)

theorem safe_counted {count : Nat} (inside : Inside { f with parser := f.parser.counted count } r) :
    Safe delegate data (f.countHeaderSize count) r d := by
  unfold Frame.countHeaderSize
  dsimp only
  split
  · exact safe_error ⟨nofun, nofun⟩
  · exact inside

theorem headerValue_safe (watches : Watches delegate) {bytes : Bytes} (inside : Inside f r)
    (state : f.parser.state = .headerValue) : Safe delegate data (headerValue bytes f) r d := by
  unfold headerValue
  refine safe_lift fun scan ran => ?_
  have steady := headerValueLoop_steady state ran
  have agree := inside.agree.congr steady
  have here : scan.parser.state = .headerValue := steady.state.trans state
  have line := agree.trailing (by rw [here]; rfl)
  have states : r.state = .headerField ∨ r.state = .headerValue := by simpa [allowed] using agree.states here
  have marked : Marked scan.parser.state f.marks := steady.state ▸ inside.marked
  have only := @Inside.only _ _ inside .headerValue (by rw [state]; rfl)
  have reported : ∀ {reply : Reply} {r' : RewriterImpl} {next : HttpParser} {start len : Nat},
      Answered (.data .headerValue start len) r reply r' → next.type = scan.parser.type →
        next.state = .headerAlmostDone → next.flags = scan.parser.flags → Agree next r' := by
    intro reply r' next start len same type state flags
    have line' : next.flags.trailing = false := by rw [flags, line]
    refine agree.after same rfl type ?_ ?_ fun _ => line'
    · rw [state]
      decide
    · rw [state]
      exact List.mem_cons_self
  dsimp only
  split
  · refine safe_then (safe_data watches (by decide) only rfl (fun _ _ => states.symm)
      fun start len reply r' same => reported same rfl rfl rfl) fun f' r' d' ends _ _ => ?_
    exact safe_counted ⟨ends.agree.congr ⟨rfl, rfl, rfl⟩, ends.marked⟩
  · refine safe_count ?_
    refine safe_then (safe_data watches (by decide) only rfl (fun _ _ => states.symm)
      fun start len reply r' same => reported same rfl rfl rfl) fun f' r' d' ends still flags => ?_
    refine ⟨ends.agree.goTo (by decide) ?_ fun _ => by rw [still]; rfl, ends.unmarked (by rw [still]; rfl) rfl⟩
    rw [still]
    exact fun _ allows => allows
  · exact safe_count ⟨agree.congr ⟨rfl, rfl, rfl⟩, marked⟩
  · next errno stop => exact safe_error (HttpErrno.own_fatal (headerValueLoop_error ran stop))

/-! ## Reading a body -/

theorem InBody.of {s : ParserState} (state : parser.state = s) (always : ∀ trailing, allowed trailing s = [.body]) :
    InBody parser := by
  unfold InBody
  rw [state]
  exact always _

theorem readBody_inside {bytes : Bytes} (inside : Inside f r) (body : InBody f.parser) : Inside (readBody bytes f) r := by
  have type : (readBody bytes f).parser.type = f.parser.type := by simp [readBody, mark_keeps]
  have body' : InBody (readBody bytes f).parser := by simpa [readBody, mark_keeps, InBody] using body
  exact inside.toBody body type body' fun callback notBody => mark_body f callback notBody

theorem bodyIdentity_safe (watches : Watches delegate) {bytes : Bytes} (inside : Inside f r)
    (state : f.parser.state = .bodyIdentity) : Safe delegate data (bodyIdentity bytes f) r d := by
  have body : InBody f.parser := .of state fun _ => rfl
  have read := @readBody_inside _ _ bytes inside body
  have body' : InBody (readBody bytes f).parser := by simpa [readBody, mark_keeps, InBody] using body
  unfold bodyIdentity
  refine safe_assert ?_
  dsimp only
  split
  · have done : Inside ((readBody bytes f).goTo .messageDone) r := read.toBody body' rfl rfl fun _ _ => rfl
    refine safe_then (safe_body watches done) fun f' r' d' ends still _ => messageDone_safe watches ends ?_
    exact .of still fun _ => rfl
  · exact read

theorem chunkData_safe {bytes : Bytes} (inside : Inside f r) (state : f.parser.state = .chunkData) :
    Safe delegate data (chunkData bytes f) r d := by
  have body : InBody f.parser := .of state fun _ => rfl
  have read := @readBody_inside _ _ bytes inside body
  have body' : InBody (readBody bytes f).parser := by simpa [readBody, mark_keeps, InBody] using body
  unfold chunkData
  refine safe_assert (safe_assert ?_)
  dsimp only
  split
  · exact read.toBody body' rfl rfl fun _ _ => rfl
  · exact read

theorem chunkSizeStart_safe (inside : Inside f r) (state : f.parser.state = .chunkSizeStart) :
    Safe delegate data (chunkSizeStart f c) r d := by
  have body : InBody f.parser := .of state fun _ => rfl
  unfold chunkSizeStart
  refine safe_assert (safe_assert ?_)
  split
  · exact safe_error ⟨nofun, nofun⟩
  · exact inside.toBody body rfl rfl fun _ _ => rfl

theorem chunkSize_safe (inside : Inside f r) (state : f.parser.state = .chunkSize) :
    Safe delegate data (chunkSize f c) r d := by
  have body : InBody f.parser := .of state fun _ => rfl
  unfold chunkSize
  refine safe_assert ?_
  split
  · exact inside.toBody body rfl rfl fun _ _ => rfl
  split
  · split
    · exact inside.toBody body rfl rfl fun _ _ => rfl
    · exact safe_error ⟨nofun, nofun⟩
  · split
    · exact safe_error ⟨nofun, nofun⟩
    · exact inside.toBody body rfl body fun _ _ => rfl

theorem chunkParameters_safe (inside : Inside f r) (state : f.parser.state = .chunkParameters) :
    Safe delegate data (chunkParameters f c) r d := by
  have body : InBody f.parser := .of state fun _ => rfl
  unfold chunkParameters
  refine safe_assert ?_
  split
  · exact inside.toBody body rfl rfl fun _ _ => rfl
  · exact inside

/-- A callback between the parts of a chunked body. -/
theorem chunk_notified (watches : Watches delegate) (inside : Inside f r) (body : InBody f.parser)
    {notification : NotifyCallback} (chunk : notification = .chunkHeader ∨ notification = .chunkComplete) {er : Nat} :
    Safe delegate data (callbackNotify notification er f) r d := by
  have state := inside.agree.inBody body
  obtain ⟨fresh, outside, -⟩ := inBody_table body
  apply SafeAs.safe
  refine safe_notify watches ?_ inside.marked fun reply r' same => inside.agree.after same ?_ rfl fresh ?_ fun line => ?_
  · rcases chunk with rfl | rfl <;> exact state
  · rcases chunk with rfl | rfl <;> rfl
  · rw [state, body]
    rcases chunk with rfl | rfl <;> exact List.mem_cons_self
  · exact absurd (outside.symm.trans line) nofun

theorem chunkSizeAlmostDone_safe (watches : Watches delegate) (inside : Inside f r)
    (state : f.parser.state = .chunkSizeAlmostDone) : Safe delegate data (chunkSizeAlmostDone f c) r d := by
  have body : InBody f.parser := .of state fun _ => rfl
  unfold chunkSizeAlmostDone
  refine safe_assert ?_
  split
  · exact safe_error ⟨nofun, nofun⟩
  dsimp only
  split
  · refine chunk_notified watches (inside.toBody body ?_ ?_ fun _ _ => ?_) ?_ (Or.inl rfl) <;> rfl
  · refine chunk_notified watches (inside.toBody body ?_ ?_ fun _ _ => ?_) ?_ (Or.inl rfl) <;> rfl

theorem chunkDataAlmostDone_safe (watches : Watches delegate) (inside : Inside f r)
    (state : f.parser.state = .chunkDataAlmostDone) : Safe delegate data (chunkDataAlmostDone f c) r d := by
  have body : InBody f.parser := .of state fun _ => rfl
  unfold chunkDataAlmostDone
  refine safe_assert (safe_assert ?_)
  split
  · exact safe_error ⟨nofun, nofun⟩
  · have done : Inside (f.goTo .chunkDataDone) r := inside.toBody body rfl rfl fun _ _ => rfl
    exact (safe_body watches done).safe

theorem chunkDataDone_safe (watches : Watches delegate) (inside : Inside f r) (state : f.parser.state = .chunkDataDone) :
    Safe delegate data (chunkDataDone f c) r d := by
  have body : InBody f.parser := .of state fun _ => rfl
  unfold chunkDataDone
  refine safe_assert ?_
  split
  · exact safe_error ⟨nofun, nofun⟩
  · refine chunk_notified watches (inside.toBody body ?_ ?_ fun _ _ => ?_) ?_ (Or.inr rfl) <;> rfl

theorem bodyIdentityEof_inside {p : Nat} (inside : Inside f r) (state : f.parser.state = .bodyIdentityEof) :
    Inside { f.mark .body with p } r := by
  have body : InBody f.parser := .of state fun _ => rfl
  refine inside.toBody body (by simp [mark_keeps]) ?_ fun callback notBody => mark_body f callback notBody
  simpa [InBody, mark_keeps] using body

/-! ## The loop -/

theorem resStatusCode_safe (watches : Watches delegate) (inside : Inside f r) (state : f.parser.state = .resStatusCode) :
    Safe delegate data (resStatusStart (f.goTo .resStatusStart) c) r d := by
  have line := inside.agree.trailing (by rw [state]; rfl)
  refine resStatusStart_safe watches ⟨inside.agree.goTo ⟨nofun, nofun⟩ ?_ fun _ => by rw [state]; rfl, ?_⟩ rfl
  · rw [state]
    exact fun _ allows => allows
  · exact inside.unmarked (by rw [state]; rfl) rfl

theorem switch_safe (watches : Watches delegate) {bytes : Bytes} (inside : Inside f r) (plain : Plain f.parser c) :
    Safe delegate data (switch bytes f c) r d := by
  rw [switch.eq_def]
  split
  case h_1 state => exact startRes_safe watches inside state plain
  case h_2 state => exact startReq_safe watches inside state
  case h_3 state =>
    split
    · exact resStatusCode_safe watches inside state
    · exact safe_quiet inside
  case h_4 state => exact resStatusStart_safe watches inside state
  case h_5 state => exact resStatus_safe watches inside state
  case h_6 state => exact reqSpacesBeforeUrl_safe inside state
  case h_18 state =>
    refine headerFieldStart_safe watches inside state fun trailing => ?_
    exact not_not.mp fun reads => plain.2 ⟨state, trailing, reads⟩
  case h_19 state => exact headerField_safe watches inside state
  case h_20 state => exact headerValueDiscardWs_safe inside state
  case h_21 state =>
    have line := inside.agree.trailing (by rw [state]; rfl)
    refine headerValueStart_safe inside.agree.type ?_ line inside.agree.direct (state ▸ inside.marked)
    simpa [allowed] using inside.agree.states state
  case h_22 state => exact headerValue_safe watches inside state
  case h_23 state => exact headerValueLws_safe watches inside state
  case h_24 state => exact headerValueDiscardLws_safe watches inside state
  case h_25 state => exact headersAlmostDone_safe watches inside state
  case h_26 state => exact headersDone_safe watches inside state
  case h_27 state => exact chunkSizeStart_safe inside state
  case h_28 state => exact chunkSize_safe inside state
  case h_29 state => exact chunkParameters_safe inside state
  case h_30 state => exact chunkSizeAlmostDone_safe watches inside state
  case h_31 state => exact chunkData_safe inside state
  case h_32 state => exact chunkDataAlmostDone_safe watches inside state
  case h_33 state => exact chunkDataDone_safe watches inside state
  case h_34 state => exact bodyIdentity_safe watches inside state
  case h_35 state => exact bodyIdentityEof_inside inside state
  case h_36 state => exact messageDone_safe watches inside (.of state fun _ => rfl)
  case h_37 => exact safe_quiet inside
  case h_7 state | h_8 state | h_9 state | h_10 state => exact reqSchema_safe inside (by rw [state]; rfl)
  all_goals
    next state => exact reqUrl_safe watches inside (by rw [state]; rfl)

/-- One pass of the loop. -/
theorem iteration_safe (watches : Watches delegate) {bytes : Bytes} (inside : Inside f r) (plain : Plain f.parser c) :
    Safe delegate data (iteration bytes f c) r d := by
  have counted : Inside { f with parser := f.parser.counted 1 } r := ⟨inside.agree.congr ⟨rfl, rfl, rfl⟩, inside.marked⟩
  unfold iteration
  split
  · exact safe_count (switch_safe watches counted plain)
  · exact switch_safe watches inside plain

/-! ## The end of the data -/

theorem marked_table {s : ParserState} {element : DataCallback} (marks : entryMark s = some element) :
    element ≠ .body ∧ (s ≠ .startReq ∧ s ≠ .startRes) ∧ ∀ trailing, ∀ x ∈ allowed trailing s, ∀ type start len,
      Expected (.data element start len) x ∧ nextState type (.data element start len) x ∈ allowed trailing s := by
  cases s <;> cases marks
  all_goals
    refine ⟨(by decide), (by decide), fun trailing x allows type start len => ?_⟩
    simp only [allowed, List.mem_cons, List.not_mem_nil, or_false] at allows
    rcases allows with rfl | rfl | rfl | rfl <;> simp [Expected, nextState, allowed]

/-- The same product while the elements that are left open are reported. -/
structure Standing (f : Frame) (r : RewriterImpl) : Prop where
  agree : Agree f.parser r
  marked : ∀ callback, callback ≠ .body → (f.marks callback).isSome = true → entryMark f.parser.state = some callback

def Stands : Flow Frame → RewriterImpl × δ → Prop
  | .next f, s => Standing f s.1
  | .exit _ parser, s => Left parser s.1

theorem report_safe (watches : Watches delegate) {element : DataCallback} {stop er : Nat} (standing : Standing f r) :
    Program.Safe (parserSettings delegate data) (fun callback s => Expected callback s.1.state) Stands
      (callbackDataTo element stop er f) (r, d) := by
  unfold callbackDataTo
  split
  · exact trivial
  split
  · exact standing
  next start here =>
  have expected : Expected (.data element start (stop - start)) r.state ∧ ∀ r' reply,
      Answered (.data element start (stop - start)) r reply r' → Agree f.parser r' := by
    by_cases body : element = .body
    · subst body
      refine ⟨trivial, fun r' reply same => ?_⟩
      refine ⟨standing.agree.type.trans (by rw [same.type]), standing.agree.start, ?_, standing.agree.trailing, ?_⟩
      · rw [same.state]
        exact standing.agree.state
      · rw [same.postponed, standing.agree.direct]
        rfl
    · have marks := standing.marked element body (by rw [here]; rfl)
      obtain ⟨-, fresh, table⟩ := marked_table marks
      have entry := table _ _ standing.agree.state r.type start (stop - start)
      exact ⟨entry.1, fun r' reply same => standing.agree.after same rfl rfl fresh entry.2 standing.agree.trailing⟩
  refine ⟨expected.1, fun reply s' ran => ?_⟩
  have agree := (expected.2 _ _ (answered watches ran)).setErrno (reply.errno (.cbData element))
  dsimp only
  split
  · exact agree.left
  · refine ⟨agree, fun callback notBody marked => ?_⟩
    by_cases same : callback = element
    · subst same
      simp at marked
    · have marked : (Function.update f.marks element none callback).isSome = true := marked
      rw [Function.update_of_ne same] at marked
      exact standing.marked callback notBody marked

theorem stands_bind {first : Run Frame} {after : Frame → Run Frame}
    (safe : Program.Safe (parserSettings delegate data) (fun callback s => Expected callback s.1.state) Stands first (r, d))
    (going : ∀ f r' d', Standing f r' → Safe delegate data (after f) r' d') : Safe delegate data (first >>= after) r d := by
  refine Program.Safe.bind safe fun flow s' _ ends => ?_
  cases flow with
  | next f => exact going f s'.1 s'.2 ends
  | exit n parser => exact ends

theorem leftover_safe (watches : Watches delegate) {bytes : Bytes} (inside : Inside f r) :
    Safe delegate data (leftover bytes f) r d := by
  have standing : Standing f r := ⟨inside.agree, fun callback notBody => (inside.marked callback notBody).mp⟩
  unfold leftover
  refine safe_assert ?_
  refine stands_bind (report_safe watches standing) fun _ _ _ standing => ?_
  refine stands_bind (report_safe watches standing) fun _ _ _ standing => ?_
  refine stands_bind (report_safe watches standing) fun _ _ _ standing => ?_
  refine stands_bind (report_safe watches standing) fun _ _ _ standing => ?_
  refine stands_bind (report_safe watches standing) fun _ _ _ standing => ?_
  exact standing.agree.left

/-- The loop, by induction on what is left of the slice. -/
theorem loop_safe (watches : Watches delegate) {bytes : Bytes} (fuel : Nat) (inside : Inside f r)
    (plain : ∀ e ∈ loopLooks (parserSettings delegate data) bytes fuel f (r, d), Plain e.1 e.2) :
    Safe delegate data (loop bytes fuel f) r d := by
  induction fuel generalizing f r d with
  | zero => exact leftover_safe watches inside
  | succ fuel ih =>
    rw [loop]
    rw [loopLooks] at plain
    split
    · exact leftover_safe watches inside
    · next ch here =>
      rw [here] at plain
      refine Program.Safe.bind (iteration_safe watches inside (plain _ List.mem_cons_self)) fun flow s' ran ends => ?_
      cases flow with
      | exit n parser => exact ends
      | next f' =>
        refine ih ⟨ends.agree, ends.marked⟩ fun e member => plain e (List.mem_cons_of_mem _ ?_)
        rw [ran]
        exact member

theorem entryFrame_inside (agree : Agree parser r) : Inside (entryFrame parser) r := by
  have same : (entryFrame parser).parser = parser := by
    unfold entryFrame
    split <;> simp [mark_keeps]
  refine ⟨by rw [same]; exact agree, fun callback notBody => ?_⟩
  rw [same]
  unfold entryFrame
  cases entryMark parser.state with
  | none => simp
  | some element => by_cases this : callback = element <;> simp [Frame.mark, this, eq_comm]

/-- One call of the parser. -/
theorem execute_safe (watches : Watches delegate) {bytes : Bytes} (some_bytes : bytes ≠ []) (agree : Agree parser r)
    (plain : ∀ e ∈ HttpParser.looks (parserSettings delegate data) parser bytes (r, d), Plain e.1 e.2) :
    (execute parser bytes).Safe (parserSettings delegate data) (fun callback s => Expected callback s.1.state)
      (fun done s => Left done.2 s.1) (r, d) := by
  unfold execute Run.result
  rw [if_neg some_bytes]
  rw [HttpParser.looks] at plain
  split
  · exact agree.left
  · next clear =>
    rw [if_neg clear] at plain
    refine Program.Safe.bind (loop_safe watches _ (entryFrame_inside agree) plain) fun flow s' _ ends => ?_
    cases flow with
    | next f => exact ends.agree.left
    | exit n parser => exact ends

/-! ## Passes and calls -/

open HttpMessageStreamRewriter

variable {s s' : HttpMessageStreamRewriter δ}

/-- Between the passes of the loop. -/
def Between (s : HttpMessageStreamRewriter δ) : Prop :=
  s.impl.errored = true ∨ s.impl.stopped = true ∨ Agree s.parser s.impl

theorem Agree.settleToken (agree : Agree parser r) : Agree parser r.settleToken := by
  unfold RewriterImpl.settleToken
  split <;> exact ⟨agree.type, agree.start, agree.state, agree.trailing, agree.direct⟩

theorem finishHeaders_between (watches : Watches delegate) (type : s.parser.type = s.impl.type.parserType)
    (state : s.parser.state = .headersDone) (ran : finishHeaders delegate s = .ok s') :
    Between s' ∧ s'.impl.currentBuffer = s.impl.currentBuffer := by
  unfold finishHeaders at ran
  dsimp only at ran
  obtain ⟨start, hides⟩ : ∃ start, start = sizeSub s.impl.currentBufferOffset 1 := ⟨_, rfl⟩
  rw [← hides] at ran
  obtain ⟨s₁, parser, impl, ran⟩ := ensure_quiet watches.onHeaderComplete ran
  obtain rfl := Except.ok.inj ran
  have type₁ : s₁.parser.type = s₁.impl.type.parserType := by
    rw [parser, impl]
    exact type
  have state₁ : s₁.parser.state = .headersDone := parser ▸ state
  have buffer : s₁.impl.currentBuffer = s.impl.currentBuffer := by rw [impl]
  refine ⟨Or.inr (Or.inr ⟨type₁, fun starts => ?_, ?_, fun line => ?_, rfl⟩), buffer⟩
  · rcases starts with start | start <;> exact absurd (state₁.symm.trans start) nofun
  · show State.body ∈ allowed _ s₁.parser.state
    rw [state₁]
    exact List.mem_cons_self
  · rw [show s₁.parser.state = .headersDone from state₁] at line
    cases line

theorem completeHeaders_between (watches : Watches delegate) (type : s.parser.type = s.impl.type.parserType)
    (state : s.parser.state = .headersDone) (ran : completeHeaders delegate s = .ok s') :
    Between s' ∧ s'.impl.currentBuffer = s.impl.currentBuffer := by
  unfold completeHeaders at ran
  split at ran
  · obtain ⟨s₁, parser₁, impl₁, ran⟩ := ensure_quiet watches.onUrl ran
    dsimp only at ran
    obtain ⟨start, hidesStart⟩ : ∃ start, start = sizeAdd s₁.impl.currentTokenEndOffset 1 := ⟨_, rfl⟩
    obtain ⟨stop, hidesStop⟩ : ∃ stop, stop = sizeSub s₁.impl.currentBufferOffset 3 := ⟨_, rfl⟩
    rw [← hidesStart, ← hidesStop] at ran
    obtain ⟨s₂, parser₂, impl₂, ran⟩ := ensure_quiet watches.onVersion ran
    have done := finishHeaders_between watches (by rw [parser₂, impl₂, parser₁, impl₁]; exact type)
      (by rw [parser₂, parser₁]; exact state) ran
    exact ⟨done.1, done.2.trans (by rw [impl₂, impl₁])⟩
  · obtain ⟨s₁, parser₁, impl₁, ran⟩ := ensure_quiet watches.onStatus ran
    have done := finishHeaders_between watches (by rw [parser₁, impl₁]; exact type) (by rw [parser₁]; exact state) ran
    exact ⟨done.1, done.2.trans (by rw [impl₁])⟩
  · cases ran

theorem afterMessage_between (watches : Watches delegate) (left : Left s.parser s.impl)
    (ran : afterMessage delegate s = .ok s') : Between s' ∧ s'.impl.currentBuffer = s.impl.currentBuffer := by
  have settled : s.impl.settleToken.currentBuffer = s.impl.currentBuffer ∧
      s.impl.settleToken.type = s.impl.type ∧ s.impl.settleToken.processHeaderComplete = s.impl.processHeaderComplete := by
    unfold RewriterImpl.settleToken
    split <;> exact ⟨rfl, rfl, rfl⟩
  unfold afterMessage at ran
  split at ran
  · cases ran
    exact ⟨Or.inl rfl, rfl⟩
  · next parsing =>
    have left := left (by simpa [HttpMessageStreamRewriter.parsing, or_iff_not_imp_left] using parsing)
    dsimp only at ran
    split at ran
    · next postponed =>
      rcases left with agree | ⟨type, state, -, -⟩
      · exact absurd (agree.settleToken.direct.symm.trans postponed) nofun
      · have done := @completeHeaders_between _ _ ⟨s.parser, s.impl.settleToken, s.delegate⟩ _ watches
          (type.trans (by rw [← settled.2.1])) state ran
        exact ⟨done.1, done.2.trans settled.1⟩
    · next direct =>
      cases ran
      rcases left with agree | ⟨-, -, -, postponed⟩
      · exact ⟨Or.inr (Or.inr agree.settleToken), settled.1⟩
      · exact absurd (settled.2.2.trans postponed) direct

/-- Only `state_` and the flag of the end of the headers matter. -/
theorem Left.congr (left : Left parser r) (type : r'.type = r.type) (state : r'.state = r.state)
    (postponed : r'.processHeaderComplete = r.processHeaderComplete) : Left parser r' := by
  intro clear
  rcases left clear with agree | ⟨same, done, opened, waits⟩
  · exact Or.inl ⟨agree.type.trans (by rw [type]), agree.start, state ▸ agree.state, agree.trailing,
      postponed.trans agree.direct⟩
  · exact Or.inr ⟨same.trans (by rw [type]), done, state ▸ opened, postponed.trans waits⟩

theorem afterExecute_between (watches : Watches delegate) (left : Left s.parser s.impl)
    (ran : afterExecute delegate s = .ok s') : Between s' ∧ s'.impl.currentBuffer = s.impl.currentBuffer := by
  unfold afterExecute at ran
  split at ran
  · obtain ⟨s₁, parser₁, impl₁, ran⟩ := ensure_quiet (watches.onMessageComplete _ _) ran
    split at ran
    · cases ran
      rw [← impl₁]
      unfold RewriterImpl.settleToken
      split <;> exact ⟨Or.inr (Or.inl rfl), rfl⟩
    · rw [← parser₁, ← impl₁] at left
      have done := afterMessage_between watches ?_ ran
      · exact ⟨done.1, done.2.trans (by rw [impl₁])⟩
      · exact left.congr rfl rfl rfl
  · exact afterMessage_between watches left ran

/-- One slice. -/
theorem overSlice_between (watches : Watches delegate) {slice : Slice} (some_bytes : slice.bytes ≠ [])
    (agree : Agree s.parser s.impl)
    (plain : ∀ e ∈ HttpParser.looks (parserSettings delegate slice.data) s.parser slice.bytes (s.impl, s.delegate),
      Plain e.1 e.2)
    (ran : overSlice delegate slice s = .ok s') : Between s' ∧ s'.impl.currentBuffer = s.impl.currentBuffer := by
  obtain ⟨⟨⟨parsed, parser⟩, impl, d⟩, executed, ran⟩ := bind_eq_ok.mp ran
  have left := (execute_safe watches some_bytes agree plain).result executed
  have buffer : impl.currentBuffer = s.impl.currentBuffer := by
    refine @Program.run_keeps _ _ _ _ _ _ (fun a b => b.1.currentBuffer = a.1.currentBuffer) (fun _ => rfl) ?_
      (fun callback a reply b ran => (answered watches ran).buffer) _ _ _ _ executed
    intro _ _ _ one two
    exact two.trans one
  dsimp only at ran
  obtain ⟨offset, hides⟩ : ∃ offset, offset = sizeAdd impl.currentBufferOffset (throughInt parsed) := ⟨_, rfl⟩
  rw [← hides] at ran
  have left' : Left parser { impl with currentBufferOffset := offset } := by
    intro clear
    rcases left clear with agree | postponed
    · exact Or.inl ⟨agree.type, agree.start, agree.state, agree.trailing, agree.direct⟩
    · exact Or.inr postponed
  have done := @afterExecute_between _ _ ⟨parser, _, d⟩ _ watches left' ran
  exact ⟨done.1, done.2.trans buffer⟩

theorem pause_ok {parser parser' : HttpParser} {paused : Bool} (ran : parser.pause paused = .ok parser') :
    parser' = parser.setErrno (if paused then .paused else .ok) := by
  unfold pause at ran
  split at ran <;> cases ran
  rfl

/-- One pass: what it calls is expected, and what it leaves belongs together. -/
theorem pass_safe (watches : Watches delegate) (wf : s.impl.currentBuffer.WellFormed) (between : Between s)
    (unfinished : s.unfinished = true) (plain : ∀ e ∈ s.looks delegate, Plain e.1 e.2) :
    (∀ e ∈ s.entered delegate, Expected e.1 e.2.1.state) ∧
      ∀ s', parseStep delegate s = .ok s' → Between s' ∧ s'.impl.currentBuffer.WellFormed := by
  simp only [HttpMessageStreamRewriter.unfinished, ne_eq, decide_eq_true_eq] at unfinished
  obtain ⟨more, clear, running⟩ := unfinished
  have agree : Agree s.parser s.impl := (between.resolve_left clear).resolve_left running
  rcases Nat.lt_or_gt_of_ne more with inside | beyond
  · obtain ⟨slice, here, some_bytes, step⟩ := parseStep_eq delegate wf inside
    rw [step]
    unfold entered
    unfold HttpMessageStreamRewriter.looks at plain
    unfold nextCall at plain ⊢
    rw [here] at plain ⊢
    cases resumed : s.parser.pause false with
    | error e =>
      refine ⟨fun _ member => absurd member List.not_mem_nil, fun s' ran => ?_⟩
      rw [error_bind] at ran
      cases ran
    | ok parser =>
      rw [resumed] at plain
      have agree : Agree parser s.impl := by
        rw [pause_ok resumed]
        exact agree.setErrno _
      refine ⟨(execute_safe watches some_bytes agree plain).fit, fun s' ran => ?_⟩
      have done := @overSlice_between _ _ { s with parser } s' watches slice some_bytes agree plain ran
      refine ⟨done.1, ?_⟩
      rw [done.2]
      exact wf
  · have outside : ∀ {σ : Type} (walker : Slice → σ → Checked (Bool × σ)) (x : σ),
        s.impl.currentBuffer.walkInternalChunk walker s.impl.currentBufferOffset x = .error .assertion := by
      intro σ walker x
      unfold Buffer.walkInternalChunk boostAssert
      rw [if_neg (Nat.not_le.mpr beyond)]
      rfl
    constructor
    · unfold entered nextCall Buffer.sliceAt
      rw [outside]
      cases s.parser.pause false <;> exact fun _ member => absurd member List.not_mem_nil
    · intro s' ran
      obtain ⟨parser, -, ran⟩ := bind_eq_ok.mp ran
      rw [outside] at ran
      cases ran

/-- The passes of one call, by induction on how many are left. -/
theorem loop_along (watches : Watches delegate) (fuel : Nat) (wf : s.impl.currentBuffer.WellFormed) (between : Between s)
    (plain : LoopAlong delegate (fun s => ∀ e ∈ s.looks delegate, Plain e.1 e.2) fuel s) :
    LoopAlong delegate (fun s => ∀ e ∈ s.entered delegate, Expected e.1 e.2.1.state) fuel s ∧
      ∀ s', parseLoop delegate fuel s = .ok s' → Between s' := by
  induction fuel generalizing s with
  | zero =>
    refine ⟨trivial, fun s' ran => ?_⟩
    unfold parseLoop at ran
    split at ran <;> cases ran
    exact between
  | succ fuel ih =>
    unfold parseLoop
    cases unfinished : s.unfinished with
    | false =>
      refine ⟨fun more => absurd (unfinished.symm.trans more) nofun, fun s' ran => ?_⟩
      cases ran
      exact between
    | true =>
      obtain ⟨here, later⟩ := plain unfinished
      obtain ⟨expected, last⟩ := pass_safe watches wf between unfinished here
      constructor
      · exact fun _ => ⟨expected, fun s' ran => (ih (last s' ran).2 (last s' ran).1 (later s' ran)).1⟩
      · intro s' ran
        obtain ⟨s₁, step, ran⟩ := bind_eq_ok.mp ran
        exact (ih (last s₁ step).2 (last s₁ step).1 (later s₁ step)).2 s' ran

/-- What is withheld changes no state. -/
theorem Between.congr (between : Between s) (parser : s'.parser = s.parser)
    (impl : ∃ next buffer pending length offset token stop field fieldStop value valueStop, s'.impl = { s.impl with
      next := next, currentBuffer := buffer, pendingPreviousBuffer := pending, pendingBufferLength := length
      currentBufferOffset := offset, currentTokenOffset := token, currentTokenEndOffset := stop
      currentHeaderFieldOffset := field, currentHeaderFieldEndOffset := fieldStop
      currentHeaderValueOffset := value, currentHeaderValueEndOffset := valueStop }) : Between s' := by
  obtain ⟨next, buffer, pending, length, offset, token, stop, field, fieldStop, value, valueStop, same⟩ := impl
  unfold Between
  rw [parser, same]
  exact between.imp id (Or.imp id fun agree => ⟨agree.type, agree.start, agree.state, agree.trailing, agree.direct⟩)

theorem withhold_between {result : Except RewriterError Unit} (between : Between s)
    (ran : withhold s = .ok (result, s')) : Between s' := by
  unfold withhold at ran
  dsimp only at ran
  split at ran
  · split at ran
    · obtain ⟨-, rfl⟩ := Prod.mk.inj (Except.ok.inj ran)
      exact between.congr rfl ⟨_, _, _, _, _, _, _, _, _, _, _, rfl⟩
    · obtain ⟨pending, -, ran⟩ := bind_eq_ok.mp ran
      obtain ⟨buffer, -, ran⟩ := bind_eq_ok.mp ran
      obtain ⟨-, rfl⟩ := Prod.mk.inj (Except.ok.inj ran)
      exact between.congr rfl ⟨_, _, _, _, _, _, _, _, _, _, _, rfl⟩
  · obtain ⟨-, rfl⟩ := Prod.mk.inj (Except.ok.inj ran)
    exact between

/-- One call of `RewriteBuffer`. -/
theorem call_safe (watches : Watches delegate) {input : Nat × Buffer} (wf : input.2.WellFormed)
    (below : input.2.Below input.1) (between : Between s)
    (plain : CallAlong delegate (fun s => ∀ e ∈ s.looks delegate, Plain e.1 e.2) input s) :
    CallAlong delegate (fun s => ∀ e ∈ s.entered delegate, Expected e.1 e.2.1.state) input s ∧
      ∀ s', (machine delegate).step input s = .ok s' → Between s' := by
  have started : ∀ s₁, carryIn input.1 input.2 s = .ok s₁ → s₁.impl.currentBuffer.WellFormed ∧ Between s₁ := by
    intro s₁ carried
    obtain ⟨wf₁, parser, -, impl⟩ := carryIn_ok wf below carried
    exact ⟨wf₁, between.congr parser ⟨_, _, _, _, _, _, _, _, _, _, _, impl⟩⟩
  constructor
  · intro s₁ carried
    obtain ⟨wf₁, between₁⟩ := started s₁ carried
    exact (loop_along watches _ wf₁ between₁ (plain s₁ carried)).1
  · intro s' ran
    obtain ⟨⟨result, s₃⟩, rewrote, ran⟩ := bind_eq_ok.mp ran
    cases ran
    obtain ⟨s₁, carried, rewrote⟩ := bind_eq_ok.mp rewrote
    obtain ⟨s₂, parsed, rewrote⟩ := bind_eq_ok.mp rewrote
    obtain ⟨wf₁, between₁⟩ := started s₁ carried
    have between₂ := (loop_along watches _ wf₁ between₁ (plain s₁ carried)).2 s₂ parsed
    split at rewrote
    · cases rewrote
      exact between₂
    · exact withhold_between between₂ rewrote

/-- A fresh rewriter. -/
theorem made_between (type : MessageType) (skipBody : Bool) (d : δ) :
    Between { make type d with impl.skipBody := skipBody } := by
  refine Or.inr (Or.inr ⟨rfl, fun _ => ?_, ?_, fun line => ?_, rfl⟩)
  · cases type <;> rfl
  · cases type <;> exact List.mem_cons_self
  · cases type <;> cases line

/-- Under a delegate that only watches, every callback of every run finds a state that it
handles, as long as the parser looks neither at a blank line in front of a response nor
at a trailer field. -/
theorem callbacks_find_their_state (watches : Watches delegate) (type : MessageType) (skipBody : Bool) (d : δ)
    (calls : List (Nat × Buffer))
    (admitted : (machine delegate).Admitted calls { make type d with impl.skipBody := skipBody })
    (plain : (machine delegate).Along (CallAlong delegate fun s => ∀ e ∈ s.looks delegate, Plain e.1 e.2) calls
      { make type d with impl.skipBody := skipBody }) :
    (machine delegate).Along (CallAlong delegate fun s => ∀ e ∈ s.entered delegate, Expected e.1 e.2.1.state) calls
      { make type d with impl.skipBody := skipBody } := by
  refine Machine.along_of_along ?_ calls _ (made_between type skipBody d) admitted plain
  intro input s between admits plain
  exact call_safe watches admits.1 admits.2 between plain

theorem callbacks_find_their_state_request :
    (machine (idle Unit)).Along (CallAlong (idle Unit) fun s => ∀ e ∈ s.entered (idle Unit), Expected e.1 e.2.1.state)
      [(1, inOneChunk (ascii "GET / HTTP/1.1\r\nA: b\r\n\r\n"))]
      { make .request () with impl.skipBody := false } := by
  refine callbacks_find_their_state (idle_watches Unit) .request false () _ ?_ (by decide +kernel)
  exact ⟨⟨inOneChunk_wf (by decide), inOneChunk_below _⟩, fun _ _ => trivial⟩

/-- A blank line in front of a response, and a trailer field. -/
theorem blank_line_and_trailer_assert :
    ¬(machine (idle Unit)).Along (CallAlong (idle Unit) fun s => ∀ e ∈ s.entered (idle Unit), Expected e.1 e.2.1.state)
        [(1, inOneChunk (ascii "\r\nHTTP/1.1 200 OK\r\n\r\n"))] (make .response ()) ∧
      ¬(machine (idle Unit)).Along (CallAlong (idle Unit) fun s => ∀ e ∈ s.entered (idle Unit), Expected e.1 e.2.1.state)
        [(1, inOneChunk (ascii "POST / HTTP/1.1\r\nTransfer-Encoding: chunked\r\n\r\n0\r\nA: b\r\n\r\n"))]
        (make .request ()) := by
  decide +kernel
end LibNekit.Guarantees.CallbackStates
