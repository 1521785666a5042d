import LibNekit.Canonical.Plain

/-!
# Streams of responses

A reader of responses is in none of the phases of a request line, so that nobody is ever
told about a method or a target.
-/
namespace LibNekit.Canonical

open LibNekit.Source LibNekit.Source.HttpParser LibNekit.Library

variable {setup : Setup} {parser next : HttpParser} {phase phase' : Phase} {c : UInt8} {events : List Event}

def Line.responds : Line → Bool
  | .request _ _ => false
  | _ => true

/-- The phases of a response. -/
def Phase.responds : Phase → Bool
  | .method _ | .target _ | .url _ | .version _ _ => false
  | .lineCr line | .lineEnd line | .lastCr line => line.responds
  | _ => true

/-- The elements of a request line. -/
def Event.requests : Event → Bool
  | .method _ | .url _ => true
  | _ => false

theorem Line.events_respond {line : Line} (responds : line.responds = true) : ∀ event ∈ line.events, event.requests = false := by
  cases line with
  | request target version => cases responds
  | status text | header line => simp [Line.events, Event.requests]

namespace Reader

variable {l l' : Reader}

theorem complete_responds (parser : HttpParser) :
    (complete parser).2.1.responds = true ∧ ∀ event ∈ (complete parser).2.2, event.requests = false := by
  unfold complete
  cases parser.upgrade <;> simp [Phase.responds, Event.requests]

theorem completeWith_responds (c : UInt8) (parser : HttpParser) :
    (completeWith c parser).2.1.responds = true ∧ ∀ event ∈ (completeWith c parser).2.2, event.requests = false := by
  obtain ⟨phase, events⟩ := complete_responds parser
  refine ⟨phase, fun event member => ?_⟩
  rcases List.mem_cons.mp member with rfl | told
  · rfl
  · exact events event told

theorem afterHeaders_responds (parser : HttpParser) :
    (afterHeaders parser).2.1.responds = true ∧ ∀ event ∈ (afterHeaders parser).2.2, event.requests = false := by
  have completes := complete_responds parser
  unfold afterHeaders
  dsimp only
  split_ifs <;> first
    | exact completes
    | exact ⟨rfl, nofun⟩

theorem readIdle_responds (response : parser.type = .response)
    (idle : parser.state = parser.startState ∨ parser.state = .dead) (readBy : readIdle parser c = some (next, phase', events)) :
    phase'.responds = true ∧ ∀ event ∈ events, event.requests = false := by
  have started : parser.startState = .startRes := by
    unfold startState
    rw [response]
  unfold readIdle at readBy
  rcases idle with state | state
  · rw [state, started] at readBy
    dsimp only at readBy
    split at readBy <;> cases readBy
    exact ⟨rfl, nofun⟩
  · rw [state] at readBy
    dsimp only at readBy
    split at readBy <;> cases readBy
    simp [Phase.responds, Event.requests]

theorem readIdentity_responds (state : parser.state = .bodyIdentity) (readBy : readBody parser c = some (next, phase', events)) :
    phase'.responds = true ∧ ∀ event ∈ events, event.requests = false := by
  unfold readBody at readBy
  rw [state] at readBy
  dsimp only at readBy
  split at readBy
  · cases readBy
  split at readBy
  · cases readBy
    exact completeWith_responds c _
  · cases readBy
    simp [Phase.responds, Event.requests]

theorem readHeadersDone_responds (readBy : readHeadersDone parser c = some (next, phase', events)) :
    phase'.responds = true ∧ ∀ event ∈ events, event.requests = false := by
  have after := afterHeaders_responds parser
  simp only [readHeadersDone] at readBy
  split at readBy <;> cases readBy
  refine ⟨after.1, fun event member => ?_⟩
  rcases List.mem_cons.mp member with rfl | told
  · rfl
  · exact after.2 event told

theorem readLineEnd_responds {line : Line} (responds : line.responds = true)
    (readBy : readLineEnd line parser c = some (next, phase', events)) :
    phase'.responds = true ∧ ∀ event ∈ events, event.requests = false := by
  unfold readLineEnd at readBy
  split at readBy
  · cases readBy
    exact ⟨responds, nofun⟩
  · obtain ⟨scan, -, same⟩ := Option.map_eq_some_iff.mp readBy
    cases same
    exact ⟨rfl, Line.events_respond responds⟩

/-- The phases inside of a response's head. -/
theorem readHead_responds (responds : phase.responds = true) (inside : phase.inToken = true)
    (readBy : read phase parser c = some (next, phase', events)) :
    phase'.responds = true ∧ ∀ event ∈ events, event.requests = false := by
  cases phase with
  | idle | headersDone lag | body | stopped => cases inside
  | method m | target m | url u | version u v => cases responds
  | resVersion v =>
    obtain ⟨after, -, same⟩ := Option.bind_eq_some_iff.mp readBy
    cases same
    split <;> exact ⟨rfl, nofun⟩
  | code v k =>
    simp only [read, readCode] at readBy
    split at readBy
    · split at readBy
      · obtain ⟨after, -, same⟩ := Option.map_eq_some_iff.mp readBy
        cases same
        exact ⟨rfl, nofun⟩
      · cases readBy
    · obtain ⟨after, -, same⟩ := Option.map_eq_some_iff.mp readBy
      cases same
      exact ⟨rfl, nofun⟩
  | reason v k =>
    simp only [read, readReason] at readBy
    split at readBy
    · cases readBy
    split at readBy <;> cases readBy <;> simp [Phase.responds, Line.responds, Event.requests]
  | status text =>
    simp only [read, readStatus] at readBy
    split at readBy
    · cases readBy
    split at readBy <;> cases readBy <;> exact ⟨rfl, nofun⟩
  | lineCr line =>
    obtain ⟨after, -, same⟩ := Option.map_eq_some_iff.mp readBy
    cases same
    exact ⟨responds, nofun⟩
  | lineEnd line => exact readLineEnd_responds responds readBy
  | lastCr line => cases readBy
  | name n =>
    simp only [read, readName] at readBy
    split at readBy
    · cases readBy
      exact ⟨rfl, nofun⟩
    · obtain ⟨after, -, same⟩ := Option.map_eq_some_iff.mp readBy
      cases same
      exact ⟨rfl, nofun⟩
  | blanks n b =>
    simp only [read, readBlanks] at readBy
    split at readBy
    · cases readBy
      exact ⟨rfl, nofun⟩
    split at readBy
    · cases readBy
    split at readBy
    · cases readBy
      exact ⟨rfl, nofun⟩
    · obtain ⟨after, -, same⟩ := Option.map_eq_some_iff.mp readBy
      cases same
      exact ⟨rfl, nofun⟩
  | value n b v =>
    simp only [read, readValue] at readBy
    split at readBy
    · cases readBy
      exact ⟨rfl, nofun⟩
    · obtain ⟨after, -, same⟩ := Option.map_eq_some_iff.mp readBy
      cases same
      exact ⟨rfl, nofun⟩
  | emptyCr n b =>
    obtain ⟨after, -, same⟩ := Option.map_eq_some_iff.mp readBy
    cases same
    exact ⟨rfl, nofun⟩
  | emptyEnd n b => exact readLineEnd_responds rfl readBy

/-- One byte of a plain stream of responses. -/
theorem step_responds (plain : setup.plain = true) (response : setup.type = .response) (sound : l.Sound setup)
    (responds : l.phase.responds = true) (stepped : l.step setup c = some (l', events)) :
    l'.phase.responds = true ∧ ∀ event ∈ events, event.requests = false := by
  cases phase : l.phase with
  | lastCr line =>
    rw [phase] at responds
    obtain ⟨closed, first, second, -, closes, -, later, rfl⟩ := step_closes sound phase stepped
    unfold close at closes
    split at closes
    · cases closes
    cases closes
    obtain ⟨readBy, -⟩ := step_read (by rintro _ ⟨⟩) later
    have after := @readHeadersDone_responds _ _ _ _ _ readBy
    refine ⟨after.1, fun event member => ?_⟩
    rcases List.mem_append.mp member with first | second
    · rcases List.mem_append.mp first with told | closing
      · exact Line.events_respond responds event told
      · simp only [List.mem_cons, List.not_mem_nil, or_false] at closing
        rcases closing with rfl | rfl <;> rfl
    · exact after.2 event second
  | idle =>
    obtain ⟨readBy, -⟩ := step_read (by rw [phase]; rintro _ ⟨⟩) stepped
    rw [phase] at readBy
    exact readIdle_responds (sound.meets.type.trans response) (sound.meets.idle phase) readBy
  | headersDone lag =>
    obtain ⟨readBy, -⟩ := step_read (by rw [phase]; rintro _ ⟨⟩) stepped
    rw [phase] at readBy
    exact readHeadersDone_responds readBy
  | body =>
    obtain ⟨readBy, -⟩ := step_read (by rw [phase]; rintro _ ⟨⟩) stepped
    rw [phase] at readBy
    have state := step_plain plain stepped
    simp only [Reader.plain, phase, decide_eq_true_eq] at state
    exact readIdentity_responds state readBy
  | stopped =>
    have allowed := step_plain plain stepped
    simp only [Reader.plain, phase] at allowed
    cases allowed
  | _ =>
    rw [phase] at responds
    obtain ⟨readBy, -⟩ := step_read (by rw [phase]; rintro _ ⟨⟩) stepped
    rw [phase] at readBy
    exact readHead_responds responds rfl readBy

/-- A plain stream of responses: by induction on its bytes. -/
theorem run_responds {bytes : Bytes} (plain : setup.plain = true) (response : setup.type = .response) (sound : l.Sound setup)
    (responds : l.phase.responds = true) (ran : run setup l bytes = some (l', events)) :
    l'.phase.responds = true ∧ ∀ event ∈ events, event.requests = false := by
  induction bytes generalizing l events with
  | nil =>
    cases ran
    exact ⟨responds, nofun⟩
  | cons c bytes ih =>
    obtain ⟨next, first, rest, stepped, later, rfl⟩ := run_cons_some ran
    obtain ⟨here, told⟩ := step_responds plain response sound responds stepped
    obtain ⟨ends, more⟩ := ih (step_sound sound stepped) here later
    refine ⟨ends, fun event member => ?_⟩
    rcases List.mem_append.mp member with first | rest
    · exact told event first
    · exact more event rest

end Reader

end LibNekit.Canonical
