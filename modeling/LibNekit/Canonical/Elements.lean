import LibNekit.Canonical.Sound

/-!
# The elements of a stream are its bytes

What a reader says has been read is what it was given, byte for byte and in order: each
byte is in one event, or held by the phase.
-/
namespace LibNekit.Canonical

open LibNekit.Source LibNekit.Source.HttpParser LibNekit.Library

variable {setup : Setup} {parser next : HttpParser} {c : UInt8} {phase phase' : Phase} {type : ParserType}
  {events : List Event} {l l' : Reader}

/-- The bytes of several events. -/
def bytesOf (events : List Event) : Bytes := events.flatMap Event.bytes

@[simp] theorem bytesOf_nil : bytesOf [] = [] := rfl

@[simp] theorem bytesOf_cons (event : Event) : bytesOf (event :: events) = event.bytes ++ bytesOf events := rfl

@[simp] theorem bytesOf_append (front back : List Event) : bytesOf (front ++ back) = bytesOf front ++ bytesOf back :=
  List.flatMap_append

theorem Line.bytesOf_events (line : Line) : bytesOf line.events = line.text ++ crlf := by
  cases line <;> simp [Line.events, Line.text, Event.bytes, HeaderLine.bytes, crlf]

namespace Reader

/-- A byte goes where it belongs, an element that is under way has one, and the last of a
block is followed by its end. -/
structure Takes (phase : Phase) (c : UInt8) (events : List Event) (phase' : Phase) : Prop where
  bytes : phase.held ++ [c] = bytesOf events ++ phase'.held
  begun : phase'.inToken = true → phase'.held ≠ []
  leaves : phase.inToken = true → phase'.inToken = false → .headersComplete ∈ events

theorem inToken_of_held (held : phase.held ≠ []) : phase.inToken = true := by
  by_contra outside
  exact held (Phase.held_of_outside (Bool.eq_false_of_not_eq_true outside))

/-- There are bytes of an element that is under way. -/
theorem Takes.under_way (bytes : phase.held ++ [c] = bytesOf events ++ phase'.held) (held : phase'.held ≠ []) :
    Takes phase c events phase' :=
  ⟨bytes, fun _ => held, fun _ outside => absurd (inToken_of_held held) (by simp [outside])⟩

/-- The byte is held with the others. -/
theorem Takes.held (held : phase'.held = phase.held ++ [c]) : Takes phase c [] phase' :=
  .under_way (by rw [held, bytesOf_nil, List.nil_append])
    (by rw [held]; exact List.append_ne_nil_of_right_ne_nil _ (List.cons_ne_nil _ _))

/-- It goes out. -/
theorem Takes.out (outside : phase.inToken = false) (outside' : phase'.inToken = false)
    (bytes : phase.held ++ [c] = bytesOf events ++ phase'.held) : Takes phase c events phase' :=
  ⟨bytes, fun inside => absurd inside (by simp [outside']), fun inside => absurd inside (by simp [outside])⟩

/-- It begins the next element. -/
theorem Takes.begins (before : phase.held = bytesOf events) (held : phase'.held = [c]) : Takes phase c events phase' :=
  .under_way (by rw [before, held]) (by rw [held]; exact List.cons_ne_nil _ _)

theorem readIdle_takes (readBy : readIdle parser c = some (next, phase', events)) : Takes .idle c events phase' := by
  unfold readIdle at readBy
  split at readBy
  · split at readBy
    · cases readBy
      exact .out rfl rfl rfl
    · split at readBy
      · cases readBy
      · obtain ⟨method, -, same⟩ := Option.map_eq_some_iff.mp readBy
        cases same
        exact .begins rfl rfl
  · split at readBy
    · cases readBy
      exact .begins rfl rfl
    · cases readBy
  · split at readBy
    · cases readBy
      exact .out rfl rfl rfl
    · cases readBy
  · cases readBy

/-- The start line. -/
theorem readStart_takes (meets : Meets type phase parser) (start : phase.header = none) (inside : phase.inToken = true)
    (open_line : ∀ line, phase ≠ .lineCr line ∧ phase ≠ .lineEnd line ∧ phase ≠ .lastCr line)
    (readBy : read phase parser c = some (next, phase', events)) : Takes phase c events phase' := by
  cases phase with
  | idle | headersDone lag | body | stopped => cases inside
  | name n | blanks n b | value n b v | emptyCr n b | emptyEnd n b => cases start
  | lineCr line => exact absurd rfl (open_line line).1
  | lineEnd line => exact absurd rfl (open_line line).2.1
  | lastCr line => exact absurd rfl (open_line line).2.2
  | method m =>
    obtain ⟨after, quieted, same⟩ := Option.bind_eq_some_iff.mp readBy
    cases same
    split
    · exact .held rfl
    · next other =>
      obtain ⟨-, rfl⟩ := (quiet_method meets.has quieted).resolve_left other
      exact .held rfl
  | target m =>
    obtain ⟨state, -, same⟩ := Option.map_eq_some_iff.mp readBy
    cases same
    exact .begins (by simp [Phase.held, Event.bytes]) rfl
  | url u =>
    unfold read readUrl at readBy
    dsimp only at readBy
    split at readBy
    · next blank =>
      split at readBy
      · cases readBy
        subst blank
        exact .held rfl
      · cases readBy
    · obtain ⟨state, -, same⟩ := Option.map_eq_some_iff.mp readBy
      cases same
      exact .held rfl
  | version u v =>
    unfold read readVersion at readBy
    dsimp only at readBy
    split at readBy
    · cases readBy
    · obtain ⟨after, quieted, same⟩ := Option.bind_eq_some_iff.mp readBy
      cases same
      split
      · next isCr =>
        subst isCr
        exact .held (by simp [Phase.held, Line.text])
      · exact .held (by simp [Phase.held])
  | resVersion v =>
    obtain ⟨after, quieted, same⟩ := Option.bind_eq_some_iff.mp readBy
    cases same
    split
    · next blank =>
      subst blank
      exact .held (by simp [Phase.held])
    · exact .held (by simp [Phase.held])
  | code v k =>
    unfold read readCode at readBy
    dsimp only at readBy
    split at readBy
    · next blank =>
      split at readBy
      · obtain ⟨after, quieted, same⟩ := Option.map_eq_some_iff.mp readBy
        cases same
        subst blank
        exact .held (by simp [Phase.held])
      · cases readBy
    · obtain ⟨after, quieted, same⟩ := Option.map_eq_some_iff.mp readBy
      cases same
      exact .held (by simp [Phase.held])
  | reason v k =>
    unfold read readReason at readBy
    dsimp only at readBy
    split at readBy
    · cases readBy
    · split at readBy
      · next isCr =>
        cases readBy
        subst isCr
        exact .under_way (by simp [Phase.held, Line.text, Event.bytes]) (by simp [Phase.held, Line.text])
      · cases readBy
        exact .under_way (by simp [Phase.held, Event.bytes]) (by simp [Phase.held])
  | status text =>
    unfold read readStatus at readBy
    dsimp only at readBy
    split at readBy
    · cases readBy
    · split at readBy
      · next isCr =>
        cases readBy
        subst isCr
        exact .held rfl
      · cases readBy
        exact .held rfl

theorem readLineEnd_takes {line : Line} (held : phase.held = line.text ++ crlf)
    (lastHeld : (Phase.lastCr line).held = phase.held ++ [cr])
    (readBy : readLineEnd line parser c = some (next, phase', events)) : Takes phase c events phase' := by
  unfold readLineEnd at readBy
  split at readBy
  · next isCr =>
    cases readBy
    subst isCr
    exact .held lastHeld
  · obtain ⟨scan, -, same⟩ := Option.map_eq_some_iff.mp readBy
    cases same
    exact .begins (held.trans line.bytesOf_events.symm) rfl

/-- A line's end, and the header lines. -/
theorem readHeader_takes (meets : Meets type phase parser)
    (later : phase.header ≠ none ∨ ∃ line, phase = .lineCr line ∨ phase = .lineEnd line)
    (last : ∀ line, phase ≠ .lastCr line) (readBy : read phase parser c = some (next, phase', events)) :
    Takes phase c events phase' := by
  cases phase with
  | lastCr line => exact absurd rfl (last line)
  | lineCr line =>
    obtain ⟨after, quieted, same⟩ := Option.map_eq_some_iff.mp readBy
    cases same
    have ends : parser.state = .reqLineAlmostDone ∨ parser.state = .resLineAlmostDone ∨
        parser.state = .headerAlmostDone ∨ parser.state = .headerValueDiscardWsAlmostDone := by
      have has := meets.has
      cases line with
      | request u v => exact Or.inl has
      | status text => exact Or.inr (Or.inl has)
      | header line => exact Or.inr (Or.inr (Or.inl has))
    obtain ⟨rfl, -⟩ := quiet_lf ends quieted
    exact .held (by simp [Phase.held, crlf])
  | lineEnd line => exact readLineEnd_takes rfl rfl readBy
  | emptyEnd n b =>
    refine readLineEnd_takes ?_ ?_ readBy <;> simp [Phase.held, Line.text]
  | emptyCr n b =>
    obtain ⟨after, quieted, same⟩ := Option.map_eq_some_iff.mp readBy
    cases same
    obtain ⟨rfl, -⟩ := quiet_lf (Or.inr (Or.inr (Or.inr meets.has))) quieted
    exact .held (by simp [Phase.held, crlf])
  | name n =>
    unfold read readName at readBy
    dsimp only at readBy
    split at readBy
    · next colon =>
      cases readBy
      subst colon
      exact .held rfl
    · obtain ⟨scan, -, same⟩ := Option.map_eq_some_iff.mp readBy
      cases same
      exact .held rfl
  | blanks n b =>
    unfold read readBlanks at readBy
    dsimp only at readBy
    split at readBy
    · cases readBy
      exact .held (by simp [Phase.held, HeaderLine.text])
    · split at readBy
      · cases readBy
      · split at readBy
        · next isCr =>
          cases readBy
          subst isCr
          exact .held rfl
        · obtain ⟨scan, -, same⟩ := Option.map_eq_some_iff.mp readBy
          cases same
          exact .held (by simp [Phase.held, HeaderLine.text])
  | value n b v =>
    unfold read readValue at readBy
    dsimp only at readBy
    split at readBy
    · next isCr =>
      cases readBy
      subst isCr
      exact .held rfl
    · obtain ⟨scan, -, same⟩ := Option.map_eq_some_iff.mp readBy
      cases same
      exact .held (by simp [Phase.held, HeaderLine.text])
  | _ =>
    rcases later with none | ⟨line, same | same⟩
    · exact absurd rfl none
    · cases same
    · cases same

/-- Outside of any element every byte goes out by itself. -/
theorem takes_raw (outside : phase.inToken = false) (outside' : phase'.inToken = false)
    (bytes : bytesOf events = [c]) : Takes phase c events phase' := by
  refine .out outside outside' ?_
  rw [bytes, Phase.held_of_outside outside, Phase.held_of_outside outside']
  rfl

theorem bytesOf_afterHeaders (parser : HttpParser) : bytesOf (afterHeaders parser).2.2 = [] := by
  unfold afterHeaders
  dsimp only
  split_ifs <;> rfl

theorem readHeadersDone_takes {lag : Nat} (readBy : readHeadersDone parser c = some (next, phase', events)) :
    Takes (.headersDone lag) c events phase' := by
  simp only [readHeadersDone] at readBy
  split at readBy <;> cases readBy
  exact takes_raw rfl (afterHeaders_token parser) (by simp [Event.bytes, bytesOf_afterHeaders])

theorem readBody_takes (readBy : readBody parser c = some (next, phase', events)) : Takes .body c events phase' := by
  refine takes_raw rfl (readBody_token readBy) ?_
  unfold readBody at readBy
  dsimp only at readBy
  split at readBy
  · repeat' split at readBy
    all_goals cases readBy <;> rfl
  · cases readBy
    rfl
  · split at readBy
    · unfold readChunked readChunkSize at readBy
      dsimp only at readBy
      repeat' split at readBy
      all_goals first
        | (obtain ⟨value, -, same⟩ := Option.bind_eq_some_iff.mp readBy; cases same; rfl)
        | (cases readBy <;> rfl)
    · cases readBy

theorem read_takes (meets : Meets type phase parser) (readBy : read phase parser c = some (next, phase', events)) :
    Takes phase c events phase' := by
  cases phase with
  | idle => exact readIdle_takes readBy
  | headersDone lag => exact readHeadersDone_takes readBy
  | body => exact readBody_takes readBy
  | stopped =>
    cases readBy
    exact takes_raw rfl rfl rfl
  | lastCr line => cases readBy
  | name n | blanks n b | value n b v | emptyCr n b | emptyEnd n b =>
    exact readHeader_takes meets (Or.inl nofun) (fun _ => nofun) readBy
  | lineCr line => exact readHeader_takes meets (Or.inr ⟨line, Or.inl rfl⟩) (fun _ => nofun) readBy
  | lineEnd line => exact readHeader_takes meets (Or.inr ⟨line, Or.inr rfl⟩) (fun _ => nofun) readBy
  | _ => exact readStart_takes meets rfl rfl (fun _ => ⟨nofun, nofun, nofun⟩) readBy

theorem step_takes (sound : Sound setup l) (stepped : l.step setup c = some (l', events)) :
    Takes l.phase c events l'.phase := by
  unfold step at stepped
  split at stepped
  · cases stepped
  split at stepped
  · next line phase =>
    split at stepped
    · cases stepped
    next isLf =>
    obtain ⟨⟨closed, first⟩, closes, rest⟩ := Option.bind_eq_some_iff.mp stepped
    obtain ⟨⟨after, second⟩, readBy, same⟩ := Option.bind_eq_some_iff.mp rest
    cases same
    unfold close at closes
    split at closes
    · cases closes
    cases closes
    obtain ⟨⟨parser, phase', seen⟩, readBy, same⟩ := Option.map_eq_some_iff.mp readBy
    cases same
    have takes := @readHeadersDone_takes _ _ _ _ _ 0 readBy
    obtain rfl := not_not.mp isLf
    refine ⟨?_, takes.begun, fun _ _ => List.mem_append_left _ (by simp)⟩
    have bytes : [lf] = bytesOf second ++ phase'.held := takes.bytes
    rw [phase]
    show line.text ++ crlf ++ [cr] ++ [lf] = _ ++ phase'.held
    rw [bytes]
    simp only [bytesOf_append, bytesOf_cons, bytesOf_nil, Event.bytes, Line.bytesOf_events, List.append_assoc,
      List.append_nil, List.nil_append]
  · obtain ⟨⟨parser, phase', seen⟩, readBy, same⟩ := Option.map_eq_some_iff.mp stepped
    cases same
    exact read_takes sound.meets readBy

/-- Whatever has been read is there, in order: told, or held. -/
theorem run_takes {bytes : Bytes} (sound : Sound setup l) (ran : run setup l bytes = some (l', events)) :
    l.phase.held ++ bytes = bytesOf events ++ l'.phase.held := by
  induction bytes generalizing l events with
  | nil =>
    cases ran
    simp
  | cons c bytes ih =>
    obtain ⟨next, first, rest, stepped, ranRest, rfl⟩ := run_cons_some ran
    have takes := step_takes sound stepped
    rw [List.append_cons, takes.bytes, List.append_assoc, ih (step_sound sound stepped) ranRest, bytesOf_append,
      List.append_assoc]

/-- An element that is under way has at least one byte. -/
theorem run_begun {bytes : Bytes} (sound : Sound setup l) (begun : l.phase.inToken = true → l.phase.held ≠ [])
    (ran : run setup l bytes = some (l', events)) : l'.phase.inToken = true → l'.phase.held ≠ [] := by
  induction bytes generalizing l events with
  | nil =>
    cases ran
    exact begun
  | cons c bytes ih =>
    obtain ⟨next, first, rest, stepped, ran, -⟩ := run_cons_some ran
    exact ih (step_sound sound stepped) (step_takes sound stepped).begun ran

/-- A header block that is under way does not end without its end being told. -/
theorem run_leaves {bytes : Bytes} (sound : Sound setup l) (inside : l.phase.inToken = true)
    (outside : l'.phase.inToken = false) (ran : run setup l bytes = some (l', events)) : .headersComplete ∈ events := by
  induction bytes generalizing l events with
  | nil =>
    cases ran
    exact absurd inside (by simp [outside])
  | cons c bytes ih =>
    obtain ⟨next, first, rest, stepped, later, rfl⟩ := run_cons_some ran
    cases token : next.phase.inToken with
    | false => exact List.mem_append_left _ ((step_takes sound stepped).leaves inside token)
    | true => exact List.mem_append_right _ (ih (step_sound sound stepped) token later)

end Reader

end LibNekit.Canonical
