import LibNekit.Source.Rewriter.Watching
import LibNekit.Source.ThirdParty.HttpParser.Steps

/-!
# The rewriter's state machine against the parser's

Which states go together, and the pieces of the parser's loop up to the end of a start
line. The two machines agree on every stream, whatever its bytes and its slices are, but
for two places where the parser calls back and the rewriter has no case: a blank line in
front of a response begins a message, and so does the response behind it; and a trailer
field is reported inside a body.
-/
namespace LibNekit.Guarantees.CallbackStates

open LibNekit.Source LibNekit.Library HttpParser Rewriter

variable {δ : Type} {delegate : Delegate δ} {data : BytePtr} {r r' : RewriterImpl} {d d' : δ} {f f' : Frame}
  {parser : HttpParser} {c : UInt8}

/-- The parser does not look at a blank line in front of a response, nor at the first
character of a trailer field. -/
def Plain (parser : HttpParser) (c : UInt8) : Prop :=
  ¬(parser.state = .startRes ∧ (c = cr ∨ c = lf)) ∧
    ¬(parser.state = .headerFieldStart ∧ parser.flags.trailing = true ∧ token c ≠ 0)

instance (parser : HttpParser) (c : UInt8) : Decidable (Plain parser c) := inferInstanceAs (Decidable (_ ∧ _))

/-! ## The product -/

/-- The states of the rewriter that go with a state of the parser. -/
def allowed (trailing : Bool) : ParserState → List State
  | .startReq | .startRes | .dead => [.init]
  | .reqMethod | .reqSpacesBeforeUrl => [.method]
  | .reqSchema | .reqSchemaSlash | .reqSchemaSlashSlash | .reqServerStart | .reqServer | .reqServerWithAt | .reqPath
  | .reqQueryStringStart | .reqQueryString | .reqFragmentStart | .reqFragment => [.method, .url]
  | .reqHttpStart | .reqHttpH | .reqHttpHT | .reqHttpHTT | .reqHttpHTTP | .reqHttpMajor | .reqHttpDot | .reqHttpMinor
  | .reqHttpEnd | .reqLineAlmostDone => [.url]
  | .resH | .resHT | .resHTT | .resHTTP | .resHttpMajor | .resHttpDot | .resHttpMinor | .resHttpEnd
  | .resFirstStatusCode | .resStatusCode | .resStatusStart => [.version]
  | .resStatus => [.version, .status]
  | .resLineAlmostDone => [.status]
  | .headerFieldStart | .headersAlmostDone => if trailing then [.body] else [.url, .status, .headerValue]
  | .headerField => [.url, .status, .headerValue, .headerField]
  | .headerValueDiscardWs | .headerValueDiscardWsAlmostDone | .headerValueDiscardLws => [.headerField]
  | .headerValueStart | .headerValue => [.headerField, .headerValue]
  | .headerAlmostDone | .headerValueLws => [.headerValue]
  | .headersDone | .chunkSizeStart | .chunkSize | .chunkParameters | .chunkSizeAlmostDone | .chunkData
  | .chunkDataAlmostDone | .chunkDataDone | .bodyIdentity | .bodyIdentityEof | .messageDone => [.body]

/-- The states between the first byte of a message and the end of its headers, where no
trailer can be. -/
def inLine : ParserState → Bool
  | .startReq | .startRes | .dead | .headerFieldStart | .headersAlmostDone | .headersDone | .chunkSizeStart | .chunkSize
  | .chunkParameters | .chunkSizeAlmostDone | .chunkData | .chunkDataAlmostDone | .chunkDataDone | .bodyIdentity
  | .bodyIdentityEof | .messageDone => false
  | _ => true

/-- The two machines belong together. -/
structure Agree (parser : HttpParser) (r : RewriterImpl) : Prop where
  type : parser.type = r.type.parserType
  start : parser.state = .startReq ∨ parser.state = .startRes → parser.state = parser.startState
  state : r.state ∈ allowed parser.flags.trailing parser.state
  trailing : inLine parser.state = true → parser.flags.trailing = false
  direct : r.processHeaderComplete = false

/-- An element is marked exactly in the states that read it. -/
def Marked (state : ParserState) (marks : Marks) : Prop :=
  ∀ callback, callback ≠ .body → ((marks callback).isSome = true ↔ entryMark state = some callback)

/-- Inside the loop. -/
structure Inside (f : Frame) (r : RewriterImpl) : Prop where
  agree : Agree f.parser r
  marked : Marked f.parser.state f.marks

/-- Where the parser returns. An error leaves nothing to agree on. -/
def Left (parser : HttpParser) (r : RewriterImpl) : Prop :=
  parser.httpErrno = .ok ∨ parser.httpErrno = .paused →
    Agree parser r ∨ (parser.type = r.type.parserType ∧ parser.state = .headersDone ∧
      (r.state = .url ∨ r.state = .status) ∧ r.processHeaderComplete = true)

/-- Where a piece of the loop ends. -/
def Ends : Flow Frame → RewriterImpl × δ → Prop
  | .next f, s => Inside f s.1
  | .exit _ parser, s => Left parser s.1

/-- The same for a piece that leaves the parser's state as it is. -/
def EndsAs (f : Frame) : Flow Frame → RewriterImpl × δ → Prop
  | .next f', s => Inside f' s.1 ∧ f'.parser.state = f.parser.state ∧ f'.parser.flags = f.parser.flags
  | .exit _ parser, s => Left parser s.1

/-- A piece of the loop calls back as expected, and ends well. -/
def Safe (delegate : Delegate δ) (data : BytePtr) (run : Run Frame) (r : RewriterImpl) (d : δ) : Prop :=
  Program.Safe (parserSettings delegate data) (fun callback s => Expected callback s.1.state) Ends run (r, d)

/-- The same for a piece that ends with `EndsAs f`. -/
def SafeAs (delegate : Delegate δ) (data : BytePtr) (run : Run Frame) (f : Frame) (r : RewriterImpl) (d : δ) : Prop :=
  Program.Safe (parserSettings delegate data) (fun callback s => Expected callback s.1.state) (EndsAs f) run (r, d)

/-! ## Rules -/

theorem Inside.next (inside : Inside f r) : Safe delegate data (Run.next f) r d := inside

theorem left_error {errno : HttpErrno} (other : Fatal errno) : Left (parser.setErrno errno) r := by
  rintro (clear | paused)
  · exact absurd clear other.1
  · exact absurd paused other.2

theorem safe_error {errno : HttpErrno} (other : Fatal errno) : Safe delegate data (f.error errno) r d :=
  left_error other

theorem Agree.left (agree : Agree parser r) : Left parser r := fun _ => Or.inl agree

theorem Agree.congr {next : HttpParser} (agree : Agree parser r) (steady : Steady parser next) : Agree next r := by
  refine ⟨steady.type.trans agree.type, ?_, ?_, ?_, agree.direct⟩
  · intro start
    rw [steady.state] at start ⊢
    rw [agree.start start]
    unfold startState
    rw [steady.type]
  · rw [steady.state, steady.trailing]
    exact agree.state
  · rw [steady.state, steady.trailing]
    exact agree.trailing

theorem EndsAs.ends {flow : Flow Frame} {s : RewriterImpl × δ} (ends : EndsAs f flow s) : Ends flow s := by
  cases flow with
  | next f' => exact ends.1
  | exit n parser => exact ends

theorem SafeAs.safe {run : Run Frame} (safe : SafeAs delegate data run f r d) : Safe delegate data run r d :=
  Program.Safe.mono safe fun _ _ => EndsAs.ends

theorem Safe.bind {first : Run Frame} {after : Frame → Run Frame} (safe : Safe delegate data first r d)
    (going : ∀ f r' d', Inside f r' → Safe delegate data (after f) r' d') : Safe delegate data (first >>= after) r d := by
  refine Program.Safe.bind safe fun flow s' _ ends => ?_
  cases flow with
  | next f => exact going f s'.1 s'.2 ends
  | exit n parser => exact ends

theorem safe_count {count : Nat} {after : Frame → Run Frame}
    (going : Safe delegate data (after { f with parser := f.parser.counted count }) r d) :
    Safe delegate data (f.countHeaderSize count >>= after) r d := by
  unfold Frame.countHeaderSize
  dsimp only
  split
  · exact safe_error ⟨nofun, nofun⟩
  · exact going

theorem Agree.setErrno (agree : Agree parser r) (errno : HttpErrno) : Agree (parser.setErrno errno) r :=
  agree.congr ⟨rfl, rfl, rfl⟩

/-- The two machines move on, to a state that is not the start of a message. -/
theorem Agree.move {next : HttpParser} (agree : Agree parser r) (type : next.type = parser.type)
    (fresh : next.state ≠ .startReq ∧ next.state ≠ .startRes) (same : r'.type = r.type)
    (direct : r'.processHeaderComplete = false) (state : r'.state ∈ allowed next.flags.trailing next.state)
    (trailing : inLine next.state = true → next.flags.trailing = false) : Agree next r' := by
  refine ⟨by rw [type, same, agree.type], ?_, state, trailing, direct⟩
  rintro (starts | starts)
  · exact absurd starts fresh.1
  · exact absurd starts fresh.2

/-- The parser moves on alone. -/
theorem Agree.goTo (agree : Agree parser r) {state : ParserState} (fresh : state ≠ .startReq ∧ state ≠ .startRes)
    (allows : ∀ x ∈ allowed parser.flags.trailing parser.state, x ∈ allowed parser.flags.trailing state)
    (trailing : inLine state = true → inLine parser.state = true) : Agree (parser.goTo state) r :=
  agree.move rfl fresh rfl agree.direct (allows _ agree.state) fun line => agree.trailing (trailing line)

theorem safe_notify (watches : Watches delegate) {notification : NotifyCallback} {er : Nat} (expected : Expected (.notify notification) r.state)
    (marked : Marked f.parser.state f.marks)
    (after : ∀ reply r', Answered (.notify notification) r reply r' → Agree f.parser r') :
    SafeAs delegate data (callbackNotify notification er f) f r d := by
  unfold callbackNotify
  split
  · exact trivial
  · refine ⟨expected, fun reply s' ran => ?_⟩
    have agree := (after reply s'.1 (answered watches ran)).setErrno (reply.errno (.cbNotify notification))
    dsimp only
    split
    · exact agree.left
    · exact ⟨⟨agree, marked⟩, rfl, rfl⟩

/-- An element that was marked is reported, and nothing is marked any more. -/
theorem safe_data (watches : Watches delegate) {element : DataCallback} {stop er : Nat} (other : element ≠ .body)
    (only : ∀ callback, callback ≠ .body → ((f.marks callback).isSome = true ↔ callback = element))
    (quiet : entryMark f.parser.state = none) (expected : ∀ start len, Expected (.data element start len) r.state)
    (after : ∀ start len reply r', Answered (.data element start len) r reply r' → Agree f.parser r') :
    SafeAs delegate data (callbackDataTo element stop er f) f r d := by
  unfold callbackDataTo
  split
  · exact trivial
  obtain ⟨start, here⟩ := Option.isSome_iff_exists.mp ((only element other).mpr rfl)
  rw [here]
  refine ⟨expected _ _, fun reply s' ran => ?_⟩
  have agree := (after _ _ reply s'.1 (answered watches ran)).setErrno (reply.errno (.cbData element))
  dsimp only
  split
  · exact agree.left
  · refine ⟨⟨agree, fun callback notBody => ?_⟩, rfl, rfl⟩
    show (Function.update f.marks element none callback).isSome = true ↔ entryMark f.parser.state = some callback
    rw [quiet]
    by_cases same : callback = element
    · subst same
      simp
    · rw [Function.update_of_ne same, only callback notBody]
      simp [same]

/-- A piece of a body may be reported in any state. -/
theorem safe_body (watches : Watches delegate) {stop er : Nat} (inside : Inside f r) :
    SafeAs delegate data (callbackDataTo .body stop er f) f r d := by
  unfold callbackDataTo
  split
  · exact trivial
  cases here : f.marks .body with
  | none => exact ⟨inside, rfl, rfl⟩
  | some start =>
    refine ⟨trivial, fun reply s' ran => ?_⟩
    have same := answered watches ran
    have agree : Agree f.parser s'.1 := by
      refine ⟨inside.agree.type.trans (by rw [same.type]), inside.agree.start, ?_, inside.agree.trailing, ?_⟩
      · rw [same.state]
        exact inside.agree.state
      · rw [same.postponed, inside.agree.direct]
        rfl
    have agree := agree.setErrno (reply.errno (.cbData .body))
    dsimp only
    split
    · exact agree.left
    · refine ⟨⟨agree, fun callback notBody => ?_⟩, rfl, rfl⟩
      show (Function.update f.marks .body none callback).isSome = true ↔ _
      rw [Function.update_of_ne notBody]
      exact inside.marked callback notBody

/-! ## Start lines -/

theorem quiet_table (s : ParserState) : s = .dead ∨ ∀ s' ∈ quietNext s, inLine s = true ∧ entryMark s = none ∧
    entryMark s' = none ∧ (s' ≠ .startReq ∧ s' ≠ .startRes) ∧ ∀ x ∈ allowed false s, x ∈ allowed false s' := by
  cases s <;> first | exact Or.inl rfl | exact Or.inr (by decide)

theorem safe_quiet (inside : Inside f r) : Safe delegate data (switch.quiet f c) r d := by
  unfold switch.quiet
  cases read : startLineStep f.parser c with
  | error errno =>
    exact safe_error (HttpErrno.own_fatal (startLineStep_error read))
  | ok next =>
    have keeps := startLineStep_keeps read
    have leads := startLineStep_next read
    rcases quiet_table f.parser.state with dead | table
    · have still : next.state = .dead := by
        rw [dead] at leads
        exact List.mem_singleton.mp leads
      refine ⟨inside.agree.congr ⟨keeps.type, by rw [still, dead], by rw [keeps.flags]⟩, ?_⟩
      show Marked next.state f.marks
      rw [still, ← dead]
      exact inside.marked
    · obtain ⟨line, unmarked, unmarked', fresh, allows⟩ := table next.state leads
      have noTrailer := inside.agree.trailing line
      have state := inside.agree.state
      rw [noTrailer] at state
      have noTrailer' : next.flags.trailing = false := by rw [keeps.flags, noTrailer]
      refine ⟨inside.agree.move keeps.type fresh rfl inside.agree.direct ?_ fun _ => noTrailer', ?_⟩
      · rw [noTrailer']
        exact allows _ state
      · show Marked next.state f.marks
        intro callback notBody
        rw [inside.marked callback notBody, unmarked, unmarked']

/-- The states of `state_` in a known state of the parser. -/
theorem Agree.states {s : ParserState} (agree : Agree parser r) (state : parser.state = s) :
    r.state ∈ allowed parser.flags.trailing s := state ▸ agree.state

theorem Inside.unmarked (inside : Inside f r) (none : entryMark f.parser.state = none) {s : ParserState}
    (none' : entryMark s = Option.none) : Marked s f.marks := by
  intro callback notBody
  rw [inside.marked callback notBody, none, none']

theorem startReq_safe (watches : Watches delegate) (inside : Inside f r) (state : f.parser.state = .startReq) :
    Safe delegate data (startReq f c) r d := by
  have init : r.state = .init := List.mem_singleton.mp (inside.agree.states state)
  have request : f.parser.type = .request := by
    have starts := inside.agree.start (Or.inl state)
    rw [state, startState] at starts
    split at starts <;> first | assumption | cases starts
  have type : r.type = .request := by
    have same := inside.agree.type
    rw [request] at same
    cases sort : r.type <;> rw [sort] at same
    all_goals first | rfl | cases same
  unfold startReq
  split
  · exact inside
  dsimp only
  split
  · exact safe_error ⟨nofun, nofun⟩
  split
  · exact safe_error ⟨nofun, nofun⟩
  · apply SafeAs.safe
    refine safe_notify watches init (inside.unmarked (by rw [state]; rfl) rfl) fun reply r' same => ?_
    refine inside.agree.move rfl ⟨nofun, nofun⟩ same.type ?_ ?_ fun _ => rfl
    · rw [same.postponed, inside.agree.direct]
      rfl
    · rw [same.state, type]
      exact List.mem_cons_self

theorem startRes_safe (watches : Watches delegate) (inside : Inside f r) (state : f.parser.state = .startRes) (plain : Plain f.parser c) :
    Safe delegate data (startRes f c) r d := by
  have init : r.state = .init := List.mem_singleton.mp (inside.agree.states state)
  have response : f.parser.type = .response := by
    have starts := inside.agree.start (Or.inr state)
    rw [state, startState] at starts
    split at starts <;> first | assumption | cases starts
  have type : r.type = .response := by
    have same := inside.agree.type
    rw [response] at same
    cases sort : r.type <;> rw [sort] at same
    all_goals first | rfl | cases same
  unfold startRes
  dsimp only
  split
  · apply SafeAs.safe
    refine safe_notify watches init (inside.unmarked (by rw [state]; rfl) rfl) fun reply r' same => ?_
    refine inside.agree.move rfl ⟨nofun, nofun⟩ same.type ?_ ?_ fun _ => rfl
    · rw [same.postponed, inside.agree.direct]
      rfl
    · rw [same.state, type]
      exact List.mem_cons_self
  split
  · next blank => exact absurd ⟨state, blank⟩ plain.1
  · exact safe_error ⟨nofun, nofun⟩

/-- What a callback that does not end the headers leaves behind, where the parser went on. -/
theorem Agree.after {callback : Callback} {reply : Reply} {next : HttpParser} (agree : Agree parser r)
    (same : Answered callback r reply r') (now : postpones callback r.state = false) (type : next.type = parser.type)
    (fresh : next.state ≠ .startReq ∧ next.state ≠ .startRes)
    (state : nextState r.type callback r.state ∈ allowed next.flags.trailing next.state)
    (trailing : inLine next.state = true → next.flags.trailing = false) : Agree next r' := by
  refine agree.move type fresh same.type ?_ (same.state ▸ state) trailing
  rw [same.postponed, agree.direct, now]
  rfl

/-- The mark of an element is set where its state is. -/
theorem Inside.only (inside : Inside f r) {element : DataCallback} (marks : entryMark f.parser.state = some element) :
    ∀ callback, callback ≠ .body → ((f.marks callback).isSome = true ↔ callback = element) := by
  intro callback notBody
  rw [inside.marked callback notBody, marks, Option.some_inj]
  exact eq_comm

theorem mark_keeps (f : Frame) (element : DataCallback) : (f.mark element).parser = f.parser := by
  unfold Frame.mark
  split <;> rfl

theorem mark_marks (f g : Frame) (at_p : f.p = g.p) (marks : f.marks = g.marks) (element : DataCallback) :
    (f.mark element).marks = (g.mark element).marks := by
  unfold Frame.mark
  rw [marks, at_p]
  split <;> first | exact marks | rfl

theorem Inside.mark (inside : Inside f r) {element : DataCallback} (notBody : element ≠ .body)
    (none : entryMark f.parser.state = none) :
    ∀ callback, callback ≠ .body → (((f.mark element).marks callback).isSome = true ↔ callback = element) := by
  intro callback other
  have clear : ∀ callback, callback ≠ .body → (f.marks callback).isSome = false := by
    intro callback other
    rw [Bool.eq_false_iff, Ne, inside.marked callback other, none]
    nofun
  unfold Frame.mark
  rw [if_neg (by simp [clear element notBody])]
  by_cases same : callback = element
  · subst same
    simp
  · simp [same, clear callback other]

theorem resStatus_safe (watches : Watches delegate) (inside : Inside f r) (state : f.parser.state = .resStatus) :
    Safe delegate data (resStatus f c) r d := by
  have states := inside.agree.states state
  have line := inside.agree.trailing (by rw [state]; rfl)
  have either : r.state = .version ∨ r.state = .status := by simpa [allowed] using states
  have only := @Inside.only _ _ inside .status (by rw [state]; rfl)
  unfold resStatus
  split
  · apply SafeAs.safe
    refine safe_data watches nofun only rfl (fun _ _ => either) fun start len reply r' same => ?_
    refine inside.agree.after same rfl rfl ⟨nofun, nofun⟩ ?_ fun _ => line
    rcases either with version | status
    · simp [version, nextState, allowed]
    · simp [status, nextState, allowed]
  split
  · apply SafeAs.safe
    refine safe_data watches nofun only rfl (fun _ _ => either) fun start len reply r' same => ?_
    refine inside.agree.after same rfl rfl ⟨nofun, nofun⟩ ?_ nofun
    rcases either with version | status
    · simp [version, nextState, allowed, line]
    · simp [status, nextState, allowed, line]
  · exact inside

/-- A callback, and what comes behind it. -/
theorem safe_then {first : Run Frame} {after : Frame → Run Frame}
    (safe : SafeAs delegate data first f r d)
    (going : ∀ f' r' d', Inside f' r' → f'.parser.state = f.parser.state → f'.parser.flags = f.parser.flags →
      Safe delegate data (after f') r' d') : Safe delegate data (first >>= after) r d := by
  refine Program.Safe.bind safe fun flow s' _ ends => ?_
  cases flow with
  | next f' => exact going f' s'.1 s'.2 ends.1 ends.2.1 ends.2.2
  | exit n parser => exact ends

/-- The parser begins an element, and goes on reading it. -/
theorem Inside.enter (inside : Inside f r) {element : DataCallback} {next : HttpParser} (agree : Agree next r)
    (notBody : element ≠ .body) (none : entryMark f.parser.state = none) (reads : entryMark next.state = some element) :
    Inside { f.mark element with parser := next } r := by
  refine ⟨agree, fun callback other => ?_⟩
  rw [inside.mark notBody none callback other, reads, Option.some_inj]
  exact eq_comm

theorem resStatusStart_safe (watches : Watches delegate) (inside : Inside f r) (state : f.parser.state = .resStatusStart) :
    Safe delegate data (resStatusStart f c) r d := by
  have line := inside.agree.trailing (by rw [state]; rfl)
  have version : r.state = .version := List.mem_singleton.mp (inside.agree.states state)
  have entered : Inside { f.mark .status with parser := { f.parser.goTo .resStatus with index := 0 } } r :=
    inside.enter (inside.agree.move rfl ⟨nofun, nofun⟩ rfl inside.agree.direct (version ▸ List.mem_cons_self)
      fun _ => line) nofun (by rw [state]; rfl) rfl
  unfold resStatusStart Frame.goTo
  simp only [mark_keeps]
  split
  · exact resStatus_safe watches entered rfl
  · exact entered

/-! ## URLs -/

theorem url_states {s : ParserState} (marks : entryMark s = some .url) :
    (s ≠ .startReq ∧ s ≠ .startRes) ∧ inLine s = true ∧ ∀ trailing, allowed trailing s = [.method, .url] := by
  cases s <;> first | exact ⟨⟨nofun, nofun⟩, rfl, fun _ => rfl⟩ | cases marks

theorem urlChar_safe (type : f.parser.type = r.type.parserType) (states : r.state = .method ∨ r.state = .url)
    (line : f.parser.flags.trailing = false) (direct : r.processHeaderComplete = false)
    (only : ∀ callback, callback ≠ .body → ((f.marks callback).isSome = true ↔ callback = .url)) :
    Safe delegate data (urlChar f c) r d := by
  unfold urlChar
  dsimp only
  split
  · exact safe_error ⟨nofun, nofun⟩
  · next alive =>
    have marks := parseUrlChar_marked alive
    obtain ⟨fresh, -, allows⟩ := url_states marks
    refine ⟨⟨type, fun starts => ?_, ?_, fun _ => line, direct⟩, fun callback notBody => ?_⟩
    · rcases starts with starts | starts
      · exact absurd starts fresh.1
      · exact absurd starts fresh.2
    · show r.state ∈ allowed _ (parseUrlChar f.parser.state c)
      rw [allows]
      simpa using states
    · show (f.marks callback).isSome = true ↔ entryMark (parseUrlChar f.parser.state c) = _
      rw [only callback notBody, marks, Option.some_inj]
      exact eq_comm

theorem reqSpacesBeforeUrl_safe (inside : Inside f r) (state : f.parser.state = .reqSpacesBeforeUrl) :
    Safe delegate data (reqSpacesBeforeUrl f c) r d := by
  have line := inside.agree.trailing (by rw [state]; rfl)
  have method : r.state = .method := List.mem_singleton.mp (inside.agree.states state)
  have only := @Inside.mark _ _ inside .url nofun (by rw [state]; rfl)
  unfold reqSpacesBeforeUrl
  split
  · exact inside
  · refine urlChar_safe ?_ (Or.inl method) ?_ inside.agree.direct ?_
    · split <;> simpa [mark_keeps] using inside.agree.type
    · split <;> simpa [mark_keeps] using line
    · split <;> exact only

theorem reqSchema_safe (inside : Inside f r) (marks : entryMark f.parser.state = some .url) :
    Safe delegate data (reqSchema f c) r d := by
  obtain ⟨-, line, allows⟩ := url_states marks
  have states : r.state = .method ∨ r.state = .url := by simpa [allows] using inside.agree.state
  unfold reqSchema
  split
  · exact safe_error ⟨nofun, nofun⟩
  · exact urlChar_safe inside.agree.type states (inside.agree.trailing line) inside.agree.direct (inside.only marks)

theorem reqUrl_safe (watches : Watches delegate) (inside : Inside f r) (marks : entryMark f.parser.state = some .url) :
    Safe delegate data (reqUrl f c) r d := by
  obtain ⟨-, line, allows⟩ := url_states marks
  have states : r.state = .method ∨ r.state = .url := by simpa [allows] using inside.agree.state
  have line := inside.agree.trailing line
  have only := inside.only marks
  have next : ∀ start len, nextState r.type (.data .url start len) r.state = .url := by
    intro start len
    rcases states with state | state <;> rw [state] <;> rfl
  unfold reqUrl
  split
  · apply SafeAs.safe
    refine safe_data watches nofun only rfl (fun _ _ => states.symm) fun start len reply r' same => ?_
    refine inside.agree.after same rfl rfl ⟨nofun, nofun⟩ ?_ fun _ => line
    rw [next]
    exact List.mem_cons_self
  split
  · split
    · apply SafeAs.safe
      refine safe_data watches nofun only rfl (fun _ _ => states.symm) fun start len reply r' same => ?_
      refine inside.agree.after same rfl rfl ⟨nofun, nofun⟩ ?_ fun _ => line
      rw [next]
      exact List.mem_cons_self
    · apply SafeAs.safe
      refine safe_data watches nofun only rfl (fun _ _ => states.symm) fun start len reply r' same => ?_
      refine inside.agree.after same rfl rfl ⟨nofun, nofun⟩ ?_ nofun
      rw [next]
      simp [allowed, line]
  · exact urlChar_safe inside.agree.type states line inside.agree.direct only

end LibNekit.Guarantees.CallbackStates
