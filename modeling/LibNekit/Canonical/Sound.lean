import LibNekit.Canonical.Standing
import LibNekit.Source.ThirdParty.HttpParser.Steps

/-!
# What holds of every reader

`Sound` is kept by every byte: the phase and the parser's state belong together.
-/
namespace LibNekit.Canonical

open LibNekit.Source LibNekit.Source.HttpParser LibNekit.Library

variable {setup : Setup} {parser next : HttpParser} {c : UInt8}

/-! ## The parser's silent steps -/

theorem quiet_ok (read : Reader.quiet parser c = some next) : startLineStep parser c = .ok next := by
  unfold Reader.quiet at read
  cases step : startLineStep parser c with
  | ok after =>
    rw [step] at read
    exact congrArg _ (Option.some.inj read)
  | error e =>
    rw [step] at read
    cases read

theorem quiet_method (state : parser.state = .reqMethod) (read : Reader.quiet parser c = some next) :
    next.state = .reqMethod ∨ (next.state = .reqSpacesBeforeUrl ∧ c = space) := by
  have step := quiet_ok read
  unfold startLineStep at step
  rw [state] at step
  exact state ▸ (reqMethod_ok step).2

/-- The version of a request line, byte by byte. -/
theorem quiet_version {u v : Bytes} (has : (Phase.version u v).Has parser.state)
    (visible : c ≠ space ∧ c ≠ lf) (read : Reader.quiet parser c = some next) :
    (c = cr ∧ next.state = .reqLineAlmostDone) ∨
      (c ≠ cr ∧ ∀ v', (Phase.version u v').Has next.state) := by
  have step := quiet_ok read
  unfold startLineStep at step
  rcases has with state | state | state | state | state | state | state | state | state <;>
    rw [state] at step <;> dsimp only at step
  case inl =>
    rw [if_neg visible.1] at step
    obtain ⟨rfl, rfl⟩ := advance_ok step
    exact Or.inr ⟨by decide, fun v' => by simp [Phase.Has]⟩
  case inr.inr.inr.inr.inr.inr.inr.inr =>
    split at step
    · cases step
      exact Or.inl ⟨by assumption, rfl⟩
    · exact absurd (advance_ok step).1 visible.2
  all_goals
    obtain ⟨here, rfl⟩ := advance_ok step
    refine Or.inr ⟨?_, fun v' => by simp [Phase.Has]⟩
    rintro rfl
    revert here
    decide

/-- The version of a status line, byte by byte. -/
theorem quiet_resVersion {v : Bytes} (has : (Phase.resVersion v).Has parser.state)
    (read : Reader.quiet parser c = some next) :
    (c = space ∧ next.state = .resFirstStatusCode) ∨
      (c ≠ space ∧ ∀ v', (Phase.resVersion v').Has next.state) := by
  have step := quiet_ok read
  unfold startLineStep at step
  rcases has with state | state | state | state | state | state | state | state <;>
    rw [state] at step <;> dsimp only at step
  case inr.inr.inr.inr.inr.inr.inr =>
    obtain ⟨here, rfl⟩ := advance_ok step
    exact Or.inl ⟨here, rfl⟩
  all_goals
    obtain ⟨here, rfl⟩ := advance_ok step
    refine Or.inr ⟨?_, fun v' => by simp [Phase.Has]⟩
    rintro rfl
    revert here
    decide

/-- A status code, byte by byte. -/
theorem quiet_code {v k : Bytes} (has : (Phase.code v k).Has parser.state)
    (read : Reader.quiet parser c = some next) :
    (c = space ∧ (next.state = .resStatusStart ∨ k = [])) ∨
      (c ≠ space ∧ c ≠ cr ∧ c ≠ lf ∧ next.state = .resStatusCode) := by
  have notNum : ∀ d, isNum d = true → d ≠ space ∧ d ≠ cr ∧ d ≠ lf := by
    intro d isDigit
    refine ⟨?_, ?_, ?_⟩ <;> rintro rfl <;> revert isDigit <;> decide
  have step := quiet_ok read
  unfold startLineStep at step
  rcases has with ⟨state, rfl⟩ | state <;> rw [state] at step <;> dsimp only at step
  · split at step
    · exact Or.inl ⟨by assumption, Or.inr rfl⟩
    · obtain ⟨isDigit, rfl⟩ := advance_ok step
      obtain ⟨notSpace, notCr, notLf⟩ := notNum c isDigit
      exact Or.inr ⟨notSpace, notCr, notLf, rfl⟩
  · split at step
    · rename_i isDigit
      obtain ⟨notSpace, notCr, notLf⟩ := notNum c isDigit
      unfold statusDigit at step
      dsimp only at step
      split at step <;> cases step
      exact Or.inr ⟨notSpace, notCr, notLf, state⟩
    · obtain ⟨here, rfl⟩ := advance_ok step
      exact Or.inl ⟨here, Or.inl rfl⟩

/-- The LF behind a CR. -/
theorem quiet_lf (ends : parser.state = .reqLineAlmostDone ∨ parser.state = .resLineAlmostDone ∨
      parser.state = .headerAlmostDone ∨ parser.state = .headerValueDiscardWsAlmostDone)
    (read : Reader.quiet parser c = some next) :
    c = lf ∧ next = parser.goTo (match parser.state with
      | .headerAlmostDone => .headerValueLws
      | .headerValueDiscardWsAlmostDone => .headerValueDiscardLws
      | _ => .headerFieldStart) := by
  have step := quiet_ok read
  unfold startLineStep at step
  rcases ends with state | state | state | state <;> rw [state] at step <;> dsimp only at step <;>
    obtain ⟨here, rfl⟩ := advance_ok step <;> exact ⟨here, by rw [state]⟩

/-! ## Targets and values -/

theorem urlStep_some {state next : ParserState} (step : Reader.urlStep state c = some next) :
    parseUrlChar state c = next ∧ next ≠ .dead ∧ c ≠ space ∧ c ≠ cr ∧ c ≠ lf := by
  unfold Reader.urlStep at step
  split at step
  · cases step
  · rename_i alive
    cases step
    refine ⟨rfl, alive, ?_, ?_, ?_⟩ <;> rintro rfl <;> exact alive (by simp [parseUrlChar])

/-- A target that goes on is marked when the next slice begins. -/
theorem urlStep_marked {state next : ParserState} (step : Reader.urlStep state c = some next) :
    entryMark next = some .url := by
  obtain ⟨rfl, alive, -⟩ := urlStep_some step
  revert alive
  unfold parseUrlChar
  cases state <;> dsimp only <;> (repeat' split) <;> simp [entryMark]

theorem nameStep_flags {scan after : Scan} (step : nameStep scan c = some after) :
    after.flags = scan.flags := by
  unfold nameStep at step
  split at step
  · cases step
  · split at step
    · rename_i read readable
      cases step
      revert readable
      unfold headerFieldChar
      cases scan.headerState <;> dsimp only [withScan_headerState] <;> intro readable <;>
        (try split at readable) <;> cases readable <;> first | rfl | (split <;> rfl)
    · cases step

theorem valueStart_trailing {scan after : Scan} (step : valueStart scan c = some after) :
    after.flags.trailing = scan.flags.trailing := by
  unfold valueStart at step
  split at step
  · rename_i read readable
    cases step
    revert readable
    unfold startValue
    cases scan.headerState <;> dsimp only [withScan_headerState] <;> intro readable
    case contentLength => (repeat' split at readable) <;> cases readable <;> rfl
    all_goals cases readable; rfl
  · cases step

theorem valueStep_trailing {scan after : Scan} (step : valueStep scan c = some after) :
    after.flags.trailing = scan.flags.trailing := by
  unfold valueStep at step
  split at step
  · cases step
  split at step
  · cases step
    rfl
  split at step
  · rename_i headerState read readable
    cases step
    revert readable
    unfold headerValueChar
    cases scan.headerState <;> dsimp only <;> intro readable <;>
      (repeat' split at readable) <;> cases readable <;> rfl
  · cases step

theorem finishFlags_trailing (headerState : HeaderState) (flags : Flags) :
    (finishFlags headerState flags).trailing = flags.trailing := by
  cases headerState <;> rfl

/-! ## One byte -/

namespace Reader

variable {type : ParserType} {phase phase' : Phase} {events : List Event}

theorem readIdle_meets (meets : Meets type .idle parser)
    (readBy : readIdle parser c = some (next, phase', events)) :
    Meets type phase' next ∧ phase' ≠ .body := by
  have clear := meets.clear
  have sort := meets.type
  unfold readIdle at readBy
  split at readBy
  · split at readBy
    · cases readBy
      exact ⟨meets, nofun⟩
    split at readBy
    · cases readBy
    · obtain ⟨method, -, same⟩ := Option.map_eq_some_iff.mp readBy
      cases same
      exact ⟨⟨rfl, clear, fun _ => rfl, sort, nofun⟩, nofun⟩
  · split at readBy <;> cases readBy
    exact ⟨⟨Or.inl rfl, clear, fun _ => rfl, sort, nofun⟩, nofun⟩
  · split at readBy <;> cases readBy
    exact ⟨meets, nofun⟩
  · cases readBy

/-- From one phase of a header block to the next. -/
theorem Meets.later (meets : Meets type phase parser) (token : phase.inToken = true)
    (has : phase'.Has next.state) (busy : phase'.inToken = true)
    (clear : next.httpErrno = parser.httpErrno)
    (trailing : next.flags.trailing = parser.flags.trailing) (sort : next.type = parser.type) :
    Meets type phase' next := by
  refine ⟨has, clear.trans meets.clear, fun _ => trailing.trans (meets.trailing token),
    sort.trans meets.type, ?_⟩
  rintro rfl
  cases busy

/-- A silent step keeps what a start line does not touch. -/
theorem Meets.silent (meets : Meets type phase parser) (token : phase.inToken = true)
    (read : quiet parser c = some next) (busy : phase'.inToken = true)
    (has : phase'.Has next.state) : Meets type phase' next := by
  have keeps := startLineStep_keeps (quiet_ok read)
  exact meets.later token has busy keeps.httpErrno (congrArg _ keeps.flags) keeps.type

theorem readStart_meets (meets : Meets type phase parser) (inToken : phase.inToken = true)
    (starts : phase.header = none) (notEnd : ∀ line, phase ≠ .lineCr line ∧ phase ≠ .lineEnd line)
    (readBy : read phase parser c = some (next, phase', events)) : Meets type phase' next ∧ phase' ≠ .body := by
  have has := meets.has
  cases phase with
  | idle | headersDone lag | body | stopped => cases inToken
  | name n | blanks n b | value n b v | emptyCr n b | emptyEnd n b => cases starts
  | lineCr line => exact absurd rfl (notEnd line).1
  | lineEnd line => exact absurd rfl (notEnd line).2
  | lastCr line => cases readBy
  | method m =>
    obtain ⟨middle, step, same⟩ := Option.bind_eq_some_iff.mp readBy
    cases same
    refine ⟨meets.silent rfl step (by split <;> rfl) ?_, by split <;> nofun⟩
    rcases quiet_method has step with state | ⟨state, -⟩
    · simp [state, Phase.Has]
    · simp [state, Phase.Has]
  | target m =>
    obtain ⟨state, step, same⟩ := Option.map_eq_some_iff.mp readBy
    cases same
    exact ⟨meets.later rfl (urlStep_marked step) rfl rfl rfl rfl, nofun⟩
  | url u =>
    simp only [read, readUrl] at readBy
    split at readBy
    · split at readBy <;> cases readBy
      exact ⟨meets.later rfl (Or.inl rfl) rfl rfl rfl rfl, nofun⟩
    · obtain ⟨state, step, same⟩ := Option.map_eq_some_iff.mp readBy
      cases same
      exact ⟨meets.later rfl (urlStep_marked step) rfl rfl rfl rfl, nofun⟩
  | version u v =>
    simp only [read, readVersion] at readBy
    split at readBy
    · cases readBy
    rename_i visible
    obtain ⟨middle, step, same⟩ := Option.bind_eq_some_iff.mp readBy
    cases same
    refine ⟨meets.silent rfl step (by split <;> rfl) ?_, by split <;> nofun⟩
    rcases quiet_version has (not_or.mp visible) step with ⟨rfl, state⟩ | ⟨other, state⟩
    · rw [if_pos rfl]
      exact state
    · rw [if_neg other]
      exact state _
  | resVersion v =>
    obtain ⟨middle, step, same⟩ := Option.bind_eq_some_iff.mp readBy
    cases same
    refine ⟨meets.silent rfl step (by split <;> rfl) ?_, by split <;> nofun⟩
    rcases quiet_resVersion has step with ⟨rfl, state⟩ | ⟨other, state⟩
    · rw [if_pos rfl]
      exact Or.inl ⟨state, rfl⟩
    · rw [if_neg other]
      exact state _
  | code v k =>
    simp only [read, readCode] at readBy
    split at readBy
    · split at readBy
      · rename_i three
        obtain ⟨middle, step, same⟩ := Option.map_eq_some_iff.mp readBy
        cases same
        refine ⟨meets.silent rfl step rfl ?_, nofun⟩
        rcases quiet_code has step with ⟨-, state | rfl⟩ | ⟨other, -⟩
        · exact ⟨state, three⟩
        · cases three
        · contradiction
      · cases readBy
    · obtain ⟨middle, step, same⟩ := Option.map_eq_some_iff.mp readBy
      cases same
      refine ⟨meets.silent rfl step rfl ?_, nofun⟩
      rcases quiet_code has step with ⟨here, -⟩ | ⟨-, -, -, state⟩
      · contradiction
      · exact Or.inr state
  | reason v k =>
    simp only [read, readReason] at readBy
    split at readBy
    · cases readBy
    split at readBy <;> cases readBy <;> exact ⟨meets.later rfl rfl rfl rfl rfl rfl, nofun⟩
  | status text =>
    simp only [read, readStatus] at readBy
    split at readBy
    · cases readBy
    split at readBy <;> cases readBy
    · exact ⟨meets.later rfl rfl rfl rfl rfl rfl, nofun⟩
    · exact ⟨meets.later rfl has rfl rfl rfl rfl, nofun⟩

theorem endLine_keeps (parser : HttpParser) :
    (endLine parser).httpErrno = parser.httpErrno ∧
      (endLine parser).flags.trailing = parser.flags.trailing ∧
      (endLine parser).type = parser.type := by
  unfold endLine
  split
  · exact ⟨rfl, rfl, rfl⟩
  · exact ⟨rfl, finishFlags_trailing .., rfl⟩

theorem readLineEnd_meets {line : Line} (meets : Meets type phase parser)
    (token : phase.inToken = true)
    (readBy : readLineEnd line parser c = some (next, phase', events)) :
    Meets type phase' next ∧ phase' ≠ .body := by
  obtain ⟨clear, trailing, sort⟩ := endLine_keeps parser
  unfold readLineEnd at readBy
  split at readBy
  · cases readBy
    exact ⟨meets.later token rfl rfl clear trailing sort, nofun⟩
  · obtain ⟨scan, step, same⟩ := Option.map_eq_some_iff.mp readBy
    cases same
    refine ⟨meets.later token rfl rfl clear ?_ sort, nofun⟩
    unfold nameStart at step
    split at step <;> cases step
    exact trailing

theorem readHeader_meets (meets : Meets type phase parser) (later : phase.header ≠ none ∨ ∃ line,
      phase = .lineCr line ∨ phase = .lineEnd line)
    (readBy : read phase parser c = some (next, phase', events)) : Meets type phase' next ∧ phase' ≠ .body := by
  have has := meets.has
  have token : phase.inToken = true := by
    rcases later with known | ⟨line, rfl | rfl⟩
    · cases phase <;> first | rfl | exact absurd rfl known
    · rfl
    · rfl
  cases phase with
  | idle | method m | target m | url u | version u v | resVersion v | code v k | reason v k
  | status text | headersDone lag | body | stopped => simp [Phase.header] at later
  | lastCr line => cases readBy
  | lineCr line =>
    obtain ⟨middle, step, same⟩ := Option.map_eq_some_iff.mp readBy
    cases same
    have keeps := startLineStep_keeps (quiet_ok step)
    refine ⟨meets.silent rfl step rfl ?_, nofun⟩
    cases line <;> simp only [Phase.Has] at has
    · rw [(quiet_lf (Or.inl has) step).2, goTo_state, has]
      rfl
    · rw [(quiet_lf (Or.inr (Or.inl has)) step).2, goTo_state, has]
      rfl
    · rw [(quiet_lf (Or.inr (Or.inr (Or.inl has))) step).2, goTo_state, has]
      rfl
  | lineEnd line => exact readLineEnd_meets meets rfl readBy
  | emptyEnd n b => exact readLineEnd_meets meets rfl readBy
  | emptyCr n b =>
    obtain ⟨middle, step, same⟩ := Option.map_eq_some_iff.mp readBy
    cases same
    refine ⟨meets.silent rfl step rfl ?_, nofun⟩
    rw [(quiet_lf (Or.inr (Or.inr (Or.inr has))) step).2, goTo_state, show parser.state = _ from has]
    rfl
  | name n =>
    simp only [read, readName] at readBy
    split at readBy
    · cases readBy
      exact ⟨meets.later rfl rfl rfl rfl rfl rfl, nofun⟩
    · obtain ⟨scan, step, same⟩ := Option.map_eq_some_iff.mp readBy
      cases same
      exact ⟨meets.later rfl has rfl rfl (congrArg _ (nameStep_flags step)) rfl, nofun⟩
  | blanks n b =>
    simp only [read, readBlanks] at readBy
    split at readBy
    · cases readBy
      exact ⟨meets.later rfl has rfl rfl rfl rfl, nofun⟩
    split at readBy
    · cases readBy
    split at readBy
    · cases readBy
      exact ⟨meets.later rfl rfl rfl rfl rfl rfl, nofun⟩
    · obtain ⟨scan, step, same⟩ := Option.map_eq_some_iff.mp readBy
      cases same
      exact ⟨meets.later rfl rfl rfl rfl (valueStart_trailing step) rfl, nofun⟩
  | value n b v =>
    simp only [read, readValue] at readBy
    split at readBy
    · cases readBy
      exact ⟨meets.later rfl rfl rfl rfl rfl rfl, nofun⟩
    · obtain ⟨scan, step, same⟩ := Option.map_eq_some_iff.mp readBy
      cases same
      exact ⟨meets.later rfl has rfl rfl (valueStep_trailing step) rfl, nofun⟩

/-- What a byte of a body leaves. -/
structure Rejoins (type : ParserType) (phase : Phase) (before parser : HttpParser) : Prop where
  meets : Meets type phase parser
  chunk : phase = .body → parser.state = .chunkSizeStart → resets before.state = true

theorem newMessage_eq (parser : HttpParser) :
    parser.newMessage = parser.startState ∨ parser.newMessage = .dead := by
  unfold newMessage
  split <;> simp

theorem newMessage_has (parser : HttpParser) : Phase.idle.Has parser.newMessage := by
  rcases newMessage_eq parser with same | same <;> rw [same]
  · unfold startState
    simp only [Phase.Has]
    cases parser.type <;> simp
  · exact Or.inr (Or.inr rfl)

theorem complete_rejoins (before : HttpParser) (clear : parser.httpErrno = .ok)
    (sort : parser.type = type) :
    Rejoins type (complete parser).2.1 before (complete parser).1 := by
  unfold complete
  dsimp only
  split
  · exact ⟨⟨trivial, clear, nofun, sort, nofun⟩, nofun⟩
  · exact ⟨⟨newMessage_has parser, clear, nofun, sort, fun _ => newMessage_eq parser⟩, nofun⟩

theorem readHeadersDone_rejoins {lag : Nat} (meets : Meets type (.headersDone lag) parser)
    (readBy : readHeadersDone parser c = some (next, phase', events)) :
    Rejoins type phase' parser next := by
  unfold readHeadersDone at readBy
  split at readBy
  · have completes := @complete_rejoins parser type parser meets.clear meets.type
    have bodies : ∀ goal : ParserState, Phase.body.Has goal →
        Rejoins type .body parser (parser.goTo goal) := fun goal has =>
      ⟨⟨has, meets.clear, nofun, meets.type, nofun⟩, fun _ _ => by
        rw [show parser.state = _ from meets.has]
        rfl⟩
    have rejoins : Rejoins type (afterHeaders parser).2.1 parser (afterHeaders parser).1 := by
      unfold afterHeaders
      dsimp only
      split_ifs
      all_goals first | exact completes | exact bodies _ (by simp [Phase.Has])
    cases readBy
    exact rejoins
  · cases readBy

theorem readChunked_rejoins (clear : parser.httpErrno = .ok) (sort : parser.type = type)
    (readBy : readChunked parser c = some (next, phase', events)) :
    Rejoins type phase' parser next := by
  have stays : ∀ {next : HttpParser}, next.httpErrno = parser.httpErrno → next.type = parser.type →
      Phase.body.Has next.state → next.state ≠ .chunkSizeStart → Rejoins type .body parser next := by
    intro next same sameSort has other
    exact ⟨⟨has, same.trans clear, nofun, sameSort.trans sort, nofun⟩, fun _ same => absurd same other⟩
  unfold readChunked at readBy
  dsimp only at readBy
  split at readBy
  · rename_i state
    obtain ⟨value, -, same⟩ := Option.bind_eq_some_iff.mp readBy
    cases same
    exact stays rfl rfl (by simp [Phase.Has]) (by simp)
  · rename_i state
    unfold readChunkSize at readBy
    repeat' split at readBy
    all_goals
      cases readBy
      try exact stays rfl rfl (by simp [Phase.Has, state]) (by simp [state])
  · rename_i state
    cases readBy
    split
    · exact stays rfl rfl (by simp [Phase.Has]) (by simp)
    · exact stays rfl rfl (by simp [Phase.Has, state]) (by simp [state])
  · repeat' split at readBy
    all_goals
      cases readBy
      try exact stays rfl rfl (by simp [Phase.Has]) (by simp)
  · rename_i state
    split at readBy
    · cases readBy
    · cases readBy
      split
      · exact stays rfl rfl (by simp [Phase.Has]) (by simp)
      · exact stays rfl rfl (by simp [Phase.Has, state]) (by simp [state])
  · split at readBy <;> cases readBy
    exact stays rfl rfl (by simp [Phase.Has]) (by simp)
  · rename_i state
    split at readBy <;> cases readBy
    exact ⟨⟨by simp [Phase.Has], clear, nofun, sort, nofun⟩, fun _ _ => by rw [state]; rfl⟩
  · repeat' split at readBy
    all_goals cases readBy
    · exact stays rfl rfl (by simp [Phase.Has]) (by simp)
    · exact complete_rejoins parser clear sort
  · split at readBy <;> cases readBy
    exact complete_rejoins parser clear sort
  · cases readBy

theorem readBody_rejoins (clear : parser.httpErrno = .ok) (sort : parser.type = type)
    (readBy : readBody parser c = some (next, phase', events)) : Rejoins type phase' parser next := by
  unfold readBody at readBy
  dsimp only at readBy
  split at readBy
  · rename_i state
    repeat' split at readBy
    all_goals cases readBy
    · exact complete_rejoins parser clear sort
    · exact ⟨⟨by simp [Phase.Has, state], clear, nofun, sort, nofun⟩, fun _ same => by simp [state] at same⟩
  · rename_i state
    cases readBy
    exact ⟨⟨by simp [Phase.Has, state], clear, nofun, sort, nofun⟩, fun _ same => by simp [state] at same⟩
  · split at readBy
    · exact readChunked_rejoins clear sort readBy
    · cases readBy

theorem read_rejoins (meets : Meets type phase parser)
    (readBy : read phase parser c = some (next, phase', events)) :
    Rejoins type phase' parser next := by
  have apart : Meets type phase' next ∧ phase' ≠ .body → Rejoins type phase' parser next :=
    fun ⟨meets, notBody⟩ => ⟨meets, fun same => absurd same notBody⟩
  cases phase with
  | idle => exact apart (readIdle_meets meets readBy)
  | headersDone lag => exact readHeadersDone_rejoins meets readBy
  | body => exact readBody_rejoins meets.clear meets.type readBy
  | stopped =>
    cases readBy
    exact ⟨meets, nofun⟩
  | method m | target m | url u | version u v | resVersion v | code v k | reason v k | status text =>
    exact apart (readStart_meets meets rfl rfl (fun _ => ⟨nofun, nofun⟩) readBy)
  | name n | blanks n b | value n b v | emptyCr n b | emptyEnd n b =>
    exact apart (readHeader_meets meets (Or.inl nofun) readBy)
  | lineCr line => exact apart (readHeader_meets meets (Or.inr ⟨line, Or.inl rfl⟩) readBy)
  | lineEnd line => exact apart (readHeader_meets meets (Or.inr ⟨line, Or.inr rfl⟩) readBy)
  | lastCr line => cases readBy

/-! ## The count -/

/-- Inside an element every byte is counted. -/
theorem header_state {state : ParserState} (token : phase.inToken = true) (has : phase.Has state) :
    state.parsingHeader = true ∧ resets state = false := by
  cases phase with
  | idle | headersDone lag | body | stopped => cases token
  | url u =>
    simp only [Phase.Has] at has
    cases state <;> first | exact ⟨rfl, rfl⟩ | (simp only [entryMark] at has; cases has)
  | version u v => rcases has with rfl | rfl | rfl | rfl | rfl | rfl | rfl | rfl | rfl <;> exact ⟨rfl, rfl⟩
  | resVersion v => rcases has with rfl | rfl | rfl | rfl | rfl | rfl | rfl | rfl <;> exact ⟨rfl, rfl⟩
  | code v k => rcases has with ⟨rfl, -⟩ | rfl <;> exact ⟨rfl, rfl⟩
  | reason v k =>
    obtain ⟨rfl, -⟩ := has
    exact ⟨rfl, rfl⟩
  | lineCr line | lineEnd line => cases line <;> cases has <;> exact ⟨rfl, rfl⟩
  | method m | target m | status text | lastCr line | name n | blanks n b | value n b v | emptyCr n b
  | emptyEnd n b =>
    cases has
    exact ⟨rfl, rfl⟩

theorem idle_state {state : ParserState} (has : Phase.idle.Has state) :
    state.parsingHeader = true ∧ resets state = false := by
  rcases has with rfl | rfl | rfl <;> exact ⟨rfl, rfl⟩

theorem complete_token (parser : HttpParser) : (complete parser).2.1.inToken = false := by
  unfold complete
  dsimp only
  split <;> rfl

theorem afterHeaders_token (parser : HttpParser) : (afterHeaders parser).2.1.inToken = false := by
  unfold afterHeaders
  dsimp only
  split_ifs <;> first | rfl | exact complete_token parser

theorem readBody_token (readBy : readBody parser c = some (next, phase', events)) :
    phase'.inToken = false := by
  unfold readBody at readBy
  dsimp only at readBy
  split at readBy
  · repeat' split at readBy
    all_goals cases readBy
    · exact complete_token _
    · rfl
  · cases readBy
    rfl
  · split at readBy
    · unfold readChunked readChunkSize at readBy
      dsimp only at readBy
      repeat' split at readBy
      all_goals first
        | (obtain ⟨value, -, same⟩ := Option.bind_eq_some_iff.mp readBy; cases same; rfl)
        | (cases readBy <;> first | rfl | exact complete_token _)
    · cases readBy

/-- An element begins behind another, or between two messages. -/
theorem read_token (readBy : read phase parser c = some (next, phase', events))
    (token : phase'.inToken = true) : phase = .idle ∨ phase.inToken = true := by
  cases phase with
  | idle => exact Or.inl rfl
  | headersDone lag =>
    simp only [read, readHeadersDone] at readBy
    split at readBy <;> cases readBy
    exact absurd token (by simp [afterHeaders_token])
  | body => exact absurd token (by simp [readBody_token readBy])
  | stopped =>
    cases readBy
    cases token
  | _ => exact Or.inr rfl

/-! ## The whole stream -/

variable {l l' : Reader}

theorem countAfter_header (token : l.phase = .idle ∨ l.phase.inToken = true)
    (meets : Meets type l.phase l.parser) : l.countAfter = l.count + 1 := by
  have state : l.parser.state.parsingHeader = true ∧ resets l.parser.state = false := by
    rcases token with idle | token
    · exact idle_state (idle ▸ meets.has)
    · exact header_state token meets.has
  unfold countAfter
  rw [if_neg, if_neg (by simp [state.2]), if_pos state.1]
  rintro stopped
  rw [stopped] at token
  rcases token with same | same <;> cases same

theorem countAfter_le (sound : Sound setup l) (room : l.full setup = false) :
    l.countAfter ≤ setup.limit := by
  have count := sound.count
  unfold countAfter
  split_ifs with stopped resets header
  · exact count
  · exact Nat.zero_le _
  · simp only [full, header, stopped, Bool.and_true, Bool.and_eq_false_iff, decide_eq_false_iff_not,
      ne_eq, decide_not, Bool.not_eq_false', decide_eq_true_eq, or_false] at room
    rcases room with room | state
    · omega
    · rw [state] at resets
      exact absurd rfl resets
  · exact count

theorem readByte_sound (sound : Sound setup l) (room : l.countAfter ≤ setup.limit)
    (readBy : l.readByte c = some (l', events)) : Sound setup l' := by
  obtain ⟨⟨parser, phase, seen⟩, read, same⟩ := Option.map_eq_some_iff.mp readBy
  cases same
  have rejoins := read_rejoins sound.meets read
  refine ⟨rejoins.meets, room, fun body state => ?_, fun token => ?_⟩
  · have resets := rejoins.chunk body state
    show l.countAfter = 0
    unfold countAfter
    by_cases stopped : l.phase = .stopped
    · rw [stopped] at read
      cases read
      exact absurd body nofun
    · rw [if_neg stopped, if_pos resets]
  · show 0 < l.countAfter
    rw [countAfter_header (read_token read token) sound.meets]
    exact Nat.succ_pos _

theorem close_sound {line : Line} (sound : Sound setup l) (room : l.count < setup.limit)
    (closed : l.close setup line = some (l', events)) : Sound setup l' := by
  unfold close at closed
  split at closed
  · cases closed
  · cases closed
    exact ⟨⟨rfl, sound.meets.clear, nofun, sound.meets.type, nofun⟩, room, nofun, nofun⟩

/-- What a byte that is read says about the reader in front of it. -/
theorem full_of_reads (reads : ¬l.refuses setup c = true) : l.full setup = false := by
  simp only [refuses, Bool.or_eq_true, not_or] at reads
  exact Bool.eq_false_of_not_eq_true reads.1

theorem plain_of_reads (reads : ¬l.refuses setup c = true) (plain : setup.plain = true) : l.plain c = true := by
  simp only [refuses, Bool.or_eq_true, not_or, plain, Bool.true_and, Bool.not_eq_true', Bool.not_eq_false] at reads
  exact reads.2

theorem step_sound (sound : Sound setup l) (stepped : l.step setup c = some (l', events)) :
    Sound setup l' := by
  unfold step at stepped
  split at stepped
  · cases stepped
  rename_i room
  have room := full_of_reads room
  split at stepped
  · rename_i line phase
    split at stepped
    · cases stepped
    have state : l.parser.state = .headersAlmostDone := by
      have has := sound.meets.has
      rwa [phase] at has
    have less : l.count < setup.limit := by
      have after := countAfter_le sound room
      simp [countAfter, phase, state, resets, ParserState.parsingHeader] at after
      omega
    obtain ⟨⟨closed, first⟩, closes, rest⟩ := Option.bind_eq_some_iff.mp stepped
    obtain ⟨⟨after, second⟩, read, same⟩ := Option.bind_eq_some_iff.mp rest
    cases same
    have soundClosed := close_sound sound less closes
    refine readByte_sound soundClosed ?_ read
    unfold close at closes
    split at closes
    · cases closes
    · cases closes
      exact Nat.zero_le _
  · exact readByte_sound sound (countAfter_le sound room) stepped

theorem run_sound {bytes : Bytes} (sound : Sound setup l) (ran : run setup l bytes = some (l', events)) :
    Sound setup l' := by
  induction bytes generalizing l events with
  | nil =>
    cases ran
    exact sound
  | cons c bytes ih =>
    obtain ⟨⟨next, first⟩, stepped, rest⟩ := Option.bind_eq_some_iff.mp ran
    obtain ⟨⟨last, more⟩, ranRest, same⟩ := Option.bind_eq_some_iff.mp rest
    cases same
    exact ih (step_sound sound stepped) ranRest

theorem start_sound (setup : Setup) : Sound setup (start setup) := by
  obtain ⟨type, limit, skipBody⟩ := setup
  cases type <;> exact ⟨⟨by simp [start, init, Phase.Has], rfl, nofun, rfl,
    fun _ => Or.inl rfl⟩, Nat.zero_le _, nofun, nofun⟩

/-! ## Reading on -/

theorem run_cons {bytes : Bytes} :
    run setup l (c :: bytes) = (l.step setup c).bind fun next =>
      (run setup next.1 bytes).map fun rest => (rest.1, next.2 ++ rest.2) := by
  show (l.step setup c).bind _ = _
  refine congrArg _ (funext fun next => ?_)
  show (run setup next.1 bytes).bind _ = _
  cases run setup next.1 bytes <;> rfl

theorem run_append {front back : Bytes} :
    run setup l (front ++ back) = (run setup l front).bind fun middle =>
      (run setup middle.1 back).map fun rest => (rest.1, middle.2 ++ rest.2) := by
  induction front generalizing l with
  | nil =>
    show run setup l back = (run setup l back).map _
    cases run setup l back <;> rfl
  | cons c front ih =>
    rw [List.cons_append, run_cons, run_cons]
    cases l.step setup c with
    | none => rfl
    | some next =>
      simp only [Option.bind_some, ih]
      cases run setup next.1 front with
      | none => rfl
      | some middle =>
        simp only [Option.bind_some, Option.map_some]
        cases run setup middle.1 back with
        | none => rfl
        | some rest => simp

/-- A run reads its first part, and then the second. -/
theorem run_append_some {front back : Bytes} (ran : run setup l (front ++ back) = some (l', events)) :
    ∃ middle first second, run setup l front = some (middle, first) ∧
      run setup middle back = some (l', second) ∧ events = first ++ second := by
  rw [run_append] at ran
  obtain ⟨⟨middle, first⟩, ranFront, rest⟩ := Option.bind_eq_some_iff.mp ran
  obtain ⟨⟨last, second⟩, ranBack, same⟩ := Option.map_eq_some_iff.mp rest
  cases same
  exact ⟨middle, first, second, ranFront, ranBack, rfl⟩

theorem run_cons_some {bytes : Bytes} (ran : run setup l (c :: bytes) = some (l', events)) :
    ∃ next first rest, l.step setup c = some (next, first) ∧
      run setup next bytes = some (l', rest) ∧ events = first ++ rest := by
  rw [run_cons] at ran
  obtain ⟨⟨next, first⟩, stepped, rest⟩ := Option.bind_eq_some_iff.mp ran
  obtain ⟨⟨last, second⟩, ranBack, same⟩ := Option.map_eq_some_iff.mp rest
  cases same
  exact ⟨next, first, second, stepped, ranBack, rfl⟩

end Reader

end LibNekit.Canonical
