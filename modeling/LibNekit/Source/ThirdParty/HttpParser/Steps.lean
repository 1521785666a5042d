import LibNekit.Source.ThirdParty.HttpParser.Execute

/-!
# What single steps of `http_parser` keep
-/
namespace LibNekit.Source.HttpParser

variable {parser next : HttpParser} {c : UInt8}

/-! ## Start lines -/

/-- The fields that a start line does not touch. -/
structure Keeps (parser next : HttpParser) : Prop where
  type : next.type = parser.type
  flags : next.flags = parser.flags
  contentLength : next.contentLength = parser.contentLength
  nread : next.nread = parser.nread
  httpErrno : next.httpErrno = parser.httpErrno

theorem Keeps.refl (parser : HttpParser) : Keeps parser parser := ⟨rfl, rfl, rfl, rfl, rfl⟩

theorem Keeps.trans {first second third : HttpParser} (one : Keeps first second)
    (two : Keeps second third) : Keeps first third :=
  ⟨two.type.trans one.type, two.flags.trans one.flags, two.contentLength.trans one.contentLength,
    two.nread.trans one.nread, two.httpErrno.trans one.httpErrno⟩

theorem advance_ok {before : HttpParser} {check : Prop} [Decidable check] {errno : HttpErrno}
    {state : ParserState} (read : advance before check errno state = .ok next) :
    check ∧ next = before.goTo state := by
  unfold advance at read
  split at read
  · rename_i holds
    cases read
    exact ⟨holds, rfl⟩
  · cases read

theorem advance_keeps {before : HttpParser} {check : Prop} [Decidable check]
    {errno : HttpErrno} {state : ParserState} (same : Keeps parser before)
    (read : advance before check errno state = .ok next) : Keeps parser next := by
  obtain ⟨-, rfl⟩ := advance_ok read
  exact same.trans ⟨rfl, rfl, rfl, rfl, rfl⟩

theorem reqMethod_ok (read : reqMethod parser c = .ok next) :
    Keeps parser next ∧
      (next.state = parser.state ∨ (next.state = .reqSpacesBeforeUrl ∧ c = space)) := by
  unfold reqMethod at read
  dsimp only at read
  repeat' split at read
  all_goals
    cases read
    try exact ⟨⟨rfl, rfl, rfl, rfl, rfl⟩, by simp [*]⟩

theorem startLineStep_keeps (read : startLineStep parser c = .ok next) : Keeps parser next := by
  unfold startLineStep at read
  cases state : parser.state <;> rw [state] at read <;> dsimp only at read
  case reqMethod => exact (reqMethod_ok read).1
  case resStatusCode =>
    split at read
    · unfold statusDigit at read
      dsimp only at read
      split at read <;> cases read
      exact ⟨rfl, rfl, rfl, rfl, rfl⟩
    · exact advance_keeps (.refl _) read
  case resFirstStatusCode =>
    split at read
    · cases read
      exact .refl _
    · refine advance_keeps ?_ read
      exact ⟨rfl, rfl, rfl, rfl, rfl⟩
  case reqHttpStart =>
    split at read
    · cases read
      exact .refl _
    · exact advance_keeps (.refl _) read
  case reqHttpEnd =>
    split at read
    · cases read
      exact ⟨rfl, rfl, rfl, rfl, rfl⟩
    · exact advance_keeps (.refl _) read
  all_goals first | (refine advance_keeps ?_ read; exact ⟨rfl, rfl, rfl, rfl, rfl⟩) | cases read

/-- Where a silent step of the start line may lead. -/
def quietNext : ParserState → List ParserState
  | .dead => [.dead]
  | .resH => [.resHT]
  | .resHT => [.resHTT]
  | .resHTT => [.resHTTP]
  | .resHTTP => [.resHttpMajor]
  | .resHttpMajor => [.resHttpDot]
  | .resHttpDot => [.resHttpMinor]
  | .resHttpMinor => [.resHttpEnd]
  | .resHttpEnd => [.resFirstStatusCode]
  | .resFirstStatusCode => [.resFirstStatusCode, .resStatusCode]
  | .resStatusCode => [.resStatusCode, .resStatusStart]
  | .resLineAlmostDone => [.headerFieldStart]
  | .reqMethod => [.reqMethod, .reqSpacesBeforeUrl]
  | .reqHttpStart => [.reqHttpStart, .reqHttpH]
  | .reqHttpH => [.reqHttpHT]
  | .reqHttpHT => [.reqHttpHTT]
  | .reqHttpHTT => [.reqHttpHTTP]
  | .reqHttpHTTP => [.reqHttpMajor]
  | .reqHttpMajor => [.reqHttpDot]
  | .reqHttpDot => [.reqHttpMinor]
  | .reqHttpMinor => [.reqHttpEnd]
  | .reqHttpEnd => [.reqLineAlmostDone, .headerFieldStart]
  | .reqLineAlmostDone => [.headerFieldStart]
  | .headerAlmostDone => [.headerValueLws]
  | .headerValueDiscardWsAlmostDone => [.headerValueDiscardLws]
  | _ => []

theorem startLineStep_next (read : startLineStep parser c = .ok next) : next.state ∈ quietNext parser.state := by
  unfold startLineStep at read
  cases state : parser.state <;> rw [state] at read <;> dsimp only at read
  case reqMethod =>
    rcases (reqMethod_ok read).2 with same | ⟨ended, -⟩
    · rw [same, state]
      exact List.mem_cons_self
    · rw [ended]
      exact List.mem_cons_of_mem _ List.mem_cons_self
  case resStatusCode =>
    split at read
    · unfold statusDigit at read
      dsimp only at read
      split at read <;> cases read
      show parser.state ∈ _
      rw [state]
      exact List.mem_cons_self
    · obtain ⟨-, rfl⟩ := advance_ok read
      exact List.mem_cons_of_mem _ List.mem_cons_self
  case resFirstStatusCode | reqHttpStart =>
    split at read
    · cases read
      rw [state]
      exact List.mem_cons_self
    · obtain ⟨-, rfl⟩ := advance_ok read
      exact List.mem_cons_of_mem _ List.mem_cons_self
  case reqHttpEnd =>
    split at read
    · cases read
      exact List.mem_cons_self
    · obtain ⟨-, rfl⟩ := advance_ok read
      exact List.mem_cons_of_mem _ List.mem_cons_self
  all_goals
    first
    | cases read
    | (obtain ⟨-, rfl⟩ := advance_ok read
       exact List.mem_cons_self)

/-- An error that the parser does not recover from. -/
def Fatal (errno : HttpErrno) : Prop := errno ≠ .ok ∧ errno ≠ .paused

/-- An error of the parser itself: what it says of the bytes, and not of a callback. -/
def HttpErrno.own : HttpErrno → Bool
  | .ok | .paused | .cbNotify _ | .cbData _ => false
  | _ => true

theorem HttpErrno.own_fatal {errno : HttpErrno} (own : errno.own = true) : Fatal errno := by
  constructor
  · rintro rfl
    cases own
  · rintro rfl
    cases own

theorem advance_error {before : HttpParser} {check : Prop} [Decidable check] {errno errno' : HttpErrno}
    {state : ParserState} (failed : advance before check errno state = .error errno') (own : errno.own = true) :
    errno'.own = true := by
  unfold advance at failed
  split at failed
  · cases failed
  · cases failed
    exact own

theorem reqMethod_error {errno : HttpErrno} (failed : reqMethod parser c = .error errno) : errno.own = true := by
  unfold reqMethod at failed
  dsimp only at failed
  repeat' split at failed
  all_goals
    cases failed
    try rfl

theorem startLineStep_error {errno : HttpErrno} (failed : startLineStep parser c = .error errno) : errno.own = true := by
  unfold startLineStep at failed
  cases state : parser.state <;> rw [state] at failed <;> dsimp only at failed
  case reqMethod => exact reqMethod_error failed
  case resStatusCode =>
    split at failed
    · unfold statusDigit at failed
      dsimp only at failed
      split at failed <;> cases failed
      rfl
    · exact advance_error failed rfl
  case resFirstStatusCode | reqHttpStart | reqHttpEnd =>
    split at failed
    · cases failed
    · exact advance_error failed rfl
  all_goals
    first
    | exact advance_error failed rfl
    | (cases failed
       rfl)

/-- A character of a URL leaves the parser in a URL. -/
theorem parseUrlChar_marked {s : ParserState} (alive : parseUrlChar s c ≠ .dead) :
    entryMark (parseUrlChar s c) = some .url := by
  revert alive
  unfold parseUrlChar
  cases s <;> dsimp only <;> (repeat' split) <;> simp [entryMark]

/-! ## Header lines -/

/-- The fields that decide where a header line belongs. -/
structure Steady (parser next : HttpParser) : Prop where
  type : next.type = parser.type
  state : next.state = parser.state
  trailing : next.flags.trailing = parser.flags.trailing

theorem Steady.refl (parser : HttpParser) : Steady parser parser := ⟨rfl, rfl, rfl⟩

theorem Steady.trans {first second third : HttpParser} (one : Steady first second) (two : Steady second third) :
    Steady first third :=
  ⟨two.type.trans one.type, two.state.trans one.state, two.trailing.trans one.trailing⟩

theorem headerFieldChar_steady {ch : UInt8} (read : headerFieldChar parser ch c = .ok next) : Steady parser next := by
  unfold headerFieldChar at read
  split at read <;> cases read <;> first | exact .refl _ | exact ⟨rfl, rfl, rfl⟩ | skip
  all_goals
    split <;> exact ⟨rfl, rfl, rfl⟩

theorem headerFieldLoop_steady {data : Bytes} {passed : Nat} (ran : headerFieldLoop data parser = .ok (passed, next)) :
    Steady parser next := by
  induction data generalizing parser passed with
  | nil =>
    cases ran
    exact .refl _
  | cons ch rest ih =>
    rw [headerFieldLoop] at ran
    split at ran
    · cases ran
      exact .refl _
    · obtain ⟨parser₁, read, ran⟩ := bind_eq_ok.mp ran
      obtain ⟨⟨passed₁, parser₂⟩, more, ran⟩ := bind_eq_ok.mp ran
      cases ran
      exact (headerFieldChar_steady read).trans (ih more)

theorem startValue_steady (read : startValue parser c = .ok next) : Steady parser next := by
  unfold startValue at read
  dsimp only at read
  repeat' split at read
  all_goals
    cases read
    try exact ⟨rfl, rfl, rfl⟩

theorem headerValueChar_steady {hState hState' : HeaderState} (state : parser.state = .headerValue)
    (read : headerValueChar hState parser c = .ok (.ok (hState', next))) : Steady parser next := by
  unfold headerValueChar at read
  dsimp only at read
  repeat' split at read
  all_goals
    simp only [Except.ok.injEq, Prod.mk.injEq, reduceCtorEq] at read
  all_goals
    obtain ⟨-, rfl⟩ := read
    first
    | exact ⟨rfl, rfl, rfl⟩
    | exact ⟨rfl, state.symm, rfl⟩

theorem startValue_error {errno : HttpErrno} (failed : startValue parser c = .error errno) : errno.own = true := by
  unfold startValue at failed
  dsimp only at failed
  repeat' split at failed
  all_goals
    cases failed
    try rfl

theorem headerValueChar_error {hState hState' : HeaderState} {errno : HttpErrno}
    (failed : headerValueChar hState parser c = .ok (.error (hState', errno))) : errno.own = true := by
  unfold headerValueChar at failed
  dsimp only at failed
  repeat' split at failed
  all_goals
    simp only [Except.ok.injEq, Except.error.injEq, Prod.mk.injEq, reduceCtorEq] at failed
  all_goals
    obtain ⟨-, rfl⟩ := failed
    rfl

theorem headerValueLoop_error {data : Bytes} {hState : HeaderState} {scan : ValueScan} {errno : HttpErrno}
    (ran : headerValueLoop data hState parser = .ok scan) (stop : scan.stop = .invalid errno) : errno.own = true := by
  induction data generalizing parser hState scan with
  | nil =>
    cases ran
    cases stop
  | cons ch rest ih =>
    rw [headerValueLoop] at ran
    split at ran
    · cases ran
      cases stop
    split at ran
    · cases ran
      cases stop
    split at ran
    · cases ran
      cases stop
      rfl
    split at ran
    · cases ran
      dsimp only at stop
      unfold ValueStop.of at stop
      repeat' split at stop
      all_goals cases stop
    obtain ⟨read, char, ran⟩ := bind_eq_ok.mp ran
    cases read with
    | error failed =>
      cases ran
      cases stop
      exact headerValueChar_error char
    | ok passed =>
      obtain ⟨scan₁, more, ran⟩ := bind_eq_ok.mp ran
      cases ran
      exact ih more stop

theorem headerValueLoop_steady {data : Bytes} {hState : HeaderState} {scan : ValueScan}
    (state : parser.state = .headerValue) (ran : headerValueLoop data hState parser = .ok scan) :
    Steady parser scan.parser := by
  induction data generalizing parser hState scan with
  | nil =>
    cases ran
    exact .refl _
  | cons ch rest ih =>
    rw [headerValueLoop] at ran
    iterate 4
      split at ran
      · cases ran
        exact .refl _
    obtain ⟨read, char, ran⟩ := bind_eq_ok.mp ran
    cases read with
    | error failed =>
      cases ran
      exact .refl _
    | ok passed =>
      obtain ⟨hState₁, parser₁⟩ := passed
      obtain ⟨scan₁, more, ran⟩ := bind_eq_ok.mp ran
      cases ran
      have first := headerValueChar_steady state char
      have later : Steady parser₁ scan₁.parser := ih (first.state.trans state) more
      exact first.trans later

theorem finishHeader_steady (parser : HttpParser) : Steady parser (finishHeader parser) := by
  refine ⟨rfl, rfl, ?_⟩
  show (finishFlags parser.headerState parser.flags).trailing = _
  cases parser.headerState <;> rfl

end LibNekit.Source.HttpParser
