import LibNekit.Canonical.Feeding

/-!
# The parser on a start line
-/
namespace LibNekit.Canonical

open LibNekit.Source LibNekit.Source.Rewriter LibNekit.Source.HttpParser LibNekit.Library

variable {parser next : HttpParser} {c : UInt8}

/-! ## Silent steps -/

theorem reqMethod_counting (parser : HttpParser) (nread : Nat) (c : UInt8) :
    reqMethod (parser.counting nread) c =
      (reqMethod parser c).map fun next => next.counting nread := by
  unfold reqMethod
  simp only [counting_method, counting_index]
  split_ifs
  · rfl
  · rfl
  · rfl
  · cases branchMethod parser.method parser.index c <;> rfl
  · rfl

/-- A start line is read the same whatever the count is. -/
theorem startLineStep_counting (parser : HttpParser) (nread : Nat) (c : UInt8) :
    startLineStep (parser.counting nread) c =
      (startLineStep parser c).map fun next => next.counting nread := by
  unfold startLineStep
  rw [counting_state]
  cases parser.state
  case reqMethod => exact reqMethod_counting ..
  case resStatusCode =>
    simp only [statusDigit, advance, counting_statusCode]
    split_ifs <;> rfl
  all_goals
    dsimp only [advance]
    first | rfl | (split_ifs <;> rfl)

/-- The states in which a byte is a silent step. -/
def quietState : ParserState → Bool
  | .resH | .resHT | .resHTT | .resHTTP | .resHttpMajor | .resHttpDot | .resHttpMinor
  | .resHttpEnd | .resFirstStatusCode | .resStatusCode | .resLineAlmostDone | .reqMethod
  | .reqHttpStart | .reqHttpH | .reqHttpHT | .reqHttpHTT | .reqHttpHTTP | .reqHttpMajor
  | .reqHttpDot | .reqHttpMinor | .reqHttpEnd | .reqLineAlmostDone | .headerAlmostDone
  | .headerValueDiscardWsAlmostDone => true
  | _ => false

def Phase.quiet : Phase → Bool
  | .method _ | .version _ _ | .resVersion _ | .code _ _ | .lineCr _ | .emptyCr _ _ => true
  | _ => false

theorem Phase.quiet_state {phase : Phase} {state : ParserState} (quiet : phase.quiet = true)
    (has : phase.Has state) : quietState state = true := by
  cases phase with
  | method m => rw [show state = .reqMethod from has]; rfl
  | version u v => rcases has with rfl | rfl | rfl | rfl | rfl | rfl | rfl | rfl | rfl <;> rfl
  | resVersion v => rcases has with rfl | rfl | rfl | rfl | rfl | rfl | rfl | rfl <;> rfl
  | code v k => rcases has with ⟨rfl, -⟩ | rfl <;> rfl
  | lineCr line => cases line <;> cases has <;> rfl
  | emptyCr n b => cases has; rfl
  | _ => cases quiet

theorem switch_quiet {data : Bytes} {p nread : Nat} {marks : Marks}
    (quiet : quietState parser.state = true) (read : Reader.quiet parser c = some next) :
    switch data ⟨p, parser.counting nread, marks⟩ c = Run.next ⟨p, next.counting nread, marks⟩ := by
  have step := quiet_ok read
  have goes : switch.quiet ⟨p, parser.counting nread, marks⟩ c =
      Run.next ⟨p, next.counting nread, marks⟩ := by
    unfold switch.quiet
    rw [startLineStep_counting, step]
    rfl
  unfold switch
  simp only [counting_state]
  cases state : parser.state <;> rw [state] at quiet <;> try cases quiet
  case resStatusCode =>
    have notEnd : ¬(c = cr ∨ c = lf) := by
      rintro (rfl | rfl) <;>
        simp [startLineStep, state, advance, isNum, byte, cr, lf, space] at step
    simp only [if_neg notEnd, goes]
  all_goals exact goes

/-- Such a phase reads its byte by a silent step, and no offset moves. -/
theorem read_quiet {phase phase' : Phase} {events : List Event} (has : phase.Has parser.state)
    (quiet : phase.quiet = true)
    (readBy : Reader.read phase parser c = some (next, phase', events)) :
    events = [] ∧ Reader.quiet parser c = some next ∧ phase.Glides phase' c := by
  cases phase with
  | method m =>
    obtain ⟨after, step, same⟩ := Option.bind_eq_some_iff.mp readBy
    cases same
    refine ⟨rfl, step, ?_⟩
    split
    · exact ⟨rfl, rfl, fun r base o => ⟨o.state, o.token, o.tokenEnd, o.field, o.value⟩, rfl⟩
    · rename_i other
      obtain state | ⟨-, rfl⟩ := quiet_method has step
      · exact absurd state other
      · exact ⟨rfl, rfl, fun r base o => ⟨o.state, o.token, o.tokenEnd, o.field, o.value⟩, rfl⟩
  | version u v =>
    simp only [Reader.read, Reader.readVersion] at readBy
    split at readBy
    · cases readBy
    obtain ⟨after, step, same⟩ := Option.bind_eq_some_iff.mp readBy
    cases same
    refine ⟨rfl, step, ?_⟩
    split
    · rename_i isCr
      subst isCr
      exact ⟨rfl, rfl, fun r base o => ⟨o.state, o.token, o.tokenEnd, by rintro _ ⟨⟩, by rintro _ ⟨⟩⟩, rfl⟩
    · refine ⟨rfl, ?_, fun r base o => ⟨o.state, o.token, o.tokenEnd, o.field, o.value⟩, rfl⟩
      simp [Phase.held]
  | resVersion v =>
    obtain ⟨after, step, same⟩ := Option.bind_eq_some_iff.mp readBy
    cases same
    refine ⟨rfl, step, ?_⟩
    split
    · rename_i isSpace
      subst isSpace
      exact ⟨rfl, rfl, fun r base o => ⟨o.state, o.token, o.tokenEnd, o.field, o.value⟩, rfl⟩
    · exact ⟨rfl, rfl, fun r base o => ⟨o.state, o.token, o.tokenEnd, o.field, o.value⟩, rfl⟩
  | code v k =>
    simp only [Reader.read, Reader.readCode] at readBy
    split at readBy
    · rename_i isSpace
      subst isSpace
      split at readBy
      · obtain ⟨after, step, same⟩ := Option.map_eq_some_iff.mp readBy
        cases same
        refine ⟨rfl, step, rfl, ?_, fun r base o => ⟨o.state, o.token, o.tokenEnd, o.field, o.value⟩, rfl⟩
        simp [Phase.held]
      · cases readBy
    · obtain ⟨after, step, same⟩ := Option.map_eq_some_iff.mp readBy
      cases same
      refine ⟨rfl, step, rfl, ?_, fun r base o => ⟨o.state, o.token, o.tokenEnd, o.field, o.value⟩, rfl⟩
      simp [Phase.held]
  | lineCr line =>
    obtain ⟨after, step, same⟩ := Option.map_eq_some_iff.mp readBy
    cases same
    have ends : c = lf := by
      cases line with
      | request u v => exact (quiet_lf (Or.inl has) step).1
      | status text => exact (quiet_lf (Or.inr (Or.inl has)) step).1
      | header line => exact (quiet_lf (Or.inr (Or.inr (Or.inl has))) step).1
    subst ends
    refine ⟨rfl, step, rfl, ?_, ?_, rfl⟩
    · simp [Phase.held, crlf]
    · intro r base o
      cases line <;> exact ⟨o.state, o.token, o.tokenEnd, o.field, o.value⟩
  | emptyCr n b =>
    obtain ⟨after, step, same⟩ := Option.map_eq_some_iff.mp readBy
    cases same
    obtain ⟨rfl, -⟩ := quiet_lf (Or.inr (Or.inr (Or.inr has))) step
    refine ⟨rfl, step, rfl, ?_, fun r base o => ⟨o.state, o.token, o.tokenEnd, o.field, o.value⟩, rfl⟩
    simp [Phase.held, crlf]
  | _ => cases quiet

variable {δ : Type} {x : Context δ} {already : Bool} {g : Draft δ} {events : List Event}
  {last l l' : Reader} {r : RewriterImpl} {p nread : Nat} {rest : Bytes}

namespace Context

theorem feeds_quiet (lawful : x.Lawful) (ready : x.Ready already g events last l r p nread)
    (left : x.data.drop p = c :: rest) (ih : x.Continues last (p + 1)) (quiet : l.phase.quiet = true) :
    x.Resumes already g events last l r p nread fun _ => none := by
  obtain ⟨l', first, more, stepped, -, -⟩ := Reader.run_cons_some (left ▸ ready.ahead)
  have inside : ∀ line, l.phase ≠ .lastCr line := by
    intro line phase
    rw [phase] at quiet
    cases quiet
  have token : l.phase.inToken = true := by
    cases phase : l.phase <;> rw [phase] at quiet <;> first | rfl | cases quiet
  obtain ⟨read, count⟩ := Reader.step_read inside stepped
  obtain ⟨rfl, step, glides⟩ := read_quiet ready.sound.meets.has quiet read
  have state := Phase.quiet_state quiet ready.sound.meets.has
  have header := (Reader.header_state token ready.sound.meets.has).1
  exact ready.silent lawful left ih stepped header glides
    (count.trans (Reader.countAfter_header (Or.inr token) ready.sound.meets)) (ready.fresh token)
    fun n => switch_quiet state step

/-! ## Targets -/

theorem urlChar_counting {state : ParserState} {p nread : Nat} {marks : Marks}
    (step : Reader.urlStep parser.state c = some state) :
    urlChar ⟨p, parser.counting nread, marks⟩ c =
      Run.next ⟨p, (parser.goTo state).counting nread, marks⟩ := by
  obtain ⟨rfl, alive, -⟩ := urlStep_some step
  unfold urlChar Frame.goTo
  dsimp only
  rw [goTo_state, if_neg (by simpa using alive)]
  rfl

theorem switch_url {data : Bytes} {p nread : Nat} {marks : Marks} {state : ParserState}
    (marked : entryMark parser.state = some .url) (step : Reader.urlStep parser.state c = some state) :
    switch data ⟨p, parser.counting nread, marks⟩ c =
      Run.next ⟨p, (parser.goTo state).counting nread, marks⟩ := by
  obtain ⟨-, -, notSpace, notCr, notLf⟩ := urlStep_some step
  have notEnd : ¬(c = cr ∨ c = lf) := not_or.mpr ⟨notCr, notLf⟩
  have schema : reqSchema ⟨p, parser.counting nread, marks⟩ c = urlChar ⟨p, parser.counting nread, marks⟩ c :=
    if_neg (not_or.mpr ⟨notSpace, notEnd⟩)
  have url : reqUrl ⟨p, parser.counting nread, marks⟩ c = urlChar ⟨p, parser.counting nread, marks⟩ c := by
    unfold reqUrl
    rw [if_neg notSpace, if_neg notEnd]
  rw [← urlChar_counting step]
  unfold switch
  simp only [counting_state]
  generalize parser.state = state at marked
  cases state <;> first | exact schema | exact url | (simp only [entryMark] at marked; cases marked)

/-- The blank behind a target ends it. -/
theorem switch_urlEnd {data : Bytes} {p nread : Nat} {marks : Marks}
    (ends : Reader.urlMayEnd parser.state = true) :
    switch data ⟨p, parser.counting nread, marks⟩ space =
      callbackDataTo .url p (p + 1) ⟨p, (parser.goTo .reqHttpStart).counting nread, marks⟩ := by
  have ended : reqUrl ⟨p, parser.counting nread, marks⟩ space =
      callbackDataTo .url p (p + 1) ⟨p, (parser.goTo .reqHttpStart).counting nread, marks⟩ := if_pos rfl
  unfold switch
  simp only [counting_state]
  generalize parser.state = state at ends
  cases state <;> first | exact ended | cases ends

theorem Phase.glides_target (u : Bytes) : (Phase.url u).Glides (.version u []) space :=
  ⟨rfl, rfl, fun _ _ o => ⟨o.state, o.token, o.tokenEnd, o.field, o.value⟩, rfl⟩

/-- The loop on a target that is marked. -/
theorem feeds_url (lawful : x.Lawful) {start : Nat} (least : Nat) (lead : Bytes) {front : List Event}
    (reports : ∀ len, least ≤ len → start + len ≤ x.data.length →
      Outcome (x.handler (.data .url start len) (r, g.delegate))
        (x.Answered g front (.url (lead ++ x.piece start len)) (start + len)) False)
    (calm : r.processMessageComplete = false) (fresh : x.token = none)
    (ih : x.Continues last (start + 1)) (positive : 0 < x.data.length) (len nread : Nat) (l : Reader)
    (back : List Event) (enough : least ≤ len) (inside : start + len ≤ x.data.length)
    (phase : l.phase = .url (lead ++ x.piece start len)) (sound : l.Sound x.setup)
    (few : nread ≤ 2 * l.count) (rest : Bytes) (left : x.data.drop (start + len) = rest)
    (ahead : Reader.run x.setup l rest = some (last, back)) (tame : x.acts.Tame (front ++ back) g) :
    Feeds x.handler x.data ⟨start + len, l.parser.counting nread,
      Function.update (fun _ => none) .url (some start)⟩ (r, g.delegate)
      (x.Left already g (front ++ back) last) False := by
  have token : l.phase.inToken = true := by rw [phase]; rfl
  have marked : entryMark l.parser.state = some .url := by
    have has := sound.meets.has
    rwa [phase] at has
  induction rest generalizing len nread l back with
  | nil =>
    have used : start + len = x.data.length := by
      have short := List.drop_eq_nil_iff.mp left
      omega
    exact reported_stop lawful (phase ▸ reports len enough inside) used (by omega) few sound token ahead
  | cons c rest more =>
    have count := Reader.countAfter_header (Or.inr token) sound.meets
    obtain ⟨l', first, later, stepped, ran, rfl⟩ := Reader.run_cons_some ahead
    obtain ⟨read, counted⟩ := Reader.step_read (by rw [phase]; nofun) stepped
    have sound' := Reader.step_sound sound stepped
    refine Feeds.header (here_of_drop left) (Reader.header_state token sound.meets.has).1 few
      (Nat.le_trans sound.count lawful.limit) (fun long => left_overflow lawful sound long calm) ?_
    rw [phase] at read
    simp only [Reader.read, Reader.readUrl] at read
    split at read
    · rename_i isSpace
      subst isSpace
      split at read
      · rename_i ends
        simp only [Option.some.injEq, Prod.mk.injEq] at read
        obtain ⟨parser, after, rfl⟩ := read
        rw [switch_urlEnd ends, parser]
        rw [List.nil_append] at tame ⊢
        exact reported_end lawful (reports len enough inside) left (after ▸ Phase.glides_target _)
          (by omega) sound' ran tame fresh fun _ _ _ _ _ _ _ later => ih _ _ _ _ _ _ _ (by omega)
      · cases read
    · obtain ⟨state, step, same⟩ := Option.map_eq_some_iff.mp read
      simp only [Prod.mk.injEq] at same
      obtain ⟨parser, after, rfl⟩ := same
      have again : l'.phase = .url (lead ++ x.piece start (len + 1)) := by
        rw [← after, piece_succ left, List.append_assoc]
      rw [switch_url marked step, parser]
      refine ⟨Nat.le_refl _, ?_⟩
      have marked' : entryMark l'.parser.state = some .url := by
        have has := sound'.meets.has
        rwa [again] at has
      exact more (len + 1) (nread + 1) l' later (by omega) (lt_of_drop left) again sound' (by omega)
        (drop_succ left) ran tame (by rw [again]; rfl) marked'

/-- The first character of a target is marked. -/
theorem switch_target {data : Bytes} {p nread : Nat} {state : ParserState}
    (spaces : parser.state = .reqSpacesBeforeUrl)
    (step : Reader.urlStep (Reader.targetState parser) c = some state) :
    switch data ⟨p, parser.counting nread, fun _ => none⟩ c =
      Run.next ⟨p, (parser.goTo state).counting nread, Function.update (fun _ => none) .url (some p)⟩ := by
  obtain ⟨-, -, notSpace, -⟩ := urlStep_some step
  unfold switch
  simp only [counting_state, spaces, reqSpacesBeforeUrl, if_neg notSpace, Frame.mark, Option.isSome_none,
    Bool.false_eq_true, if_false, counting_method]
  refine Eq.trans ?_ (@urlChar_counting (parser.goTo (Reader.targetState parser)) c state p nread _ step)
  unfold Reader.targetState
  split
  · rfl
  · rw [← spaces]
    rfl

theorem feeds_target {m : Bytes} (lawful : x.Lawful) (ready : x.Ready already g events last l r p nread)
    (phase : l.phase = .target m) (left : x.data.drop p = c :: rest) (ih : x.Continues last (p + 1)) :
    x.Resumes already g events last l r p nread fun _ => none := by
  have few := ready.few
  have inside := lt_of_drop left
  have spaces : l.parser.state = .reqSpacesBeforeUrl := by
    have has := ready.sound.meets.has
    rwa [phase] at has
  obtain ⟨l', first, back, stepped, ran, rfl⟩ := Reader.run_cons_some (left ▸ ready.ahead)
  obtain ⟨read, count⟩ := Reader.step_read (by rw [phase]; nofun) stepped
  rw [phase] at read
  obtain ⟨state, step, same⟩ := Option.map_eq_some_iff.mp read
  simp only [Prod.mk.injEq] at same
  obtain ⟨parser, after, rfl⟩ := same
  rw [Reader.countAfter_header (Or.inr (by rw [phase]; rfl)) ready.sound.meets] at count
  have stands := ready.stands
  rw [phase] at stands
  refine Feeds.header (here_of_drop left) (by rw [spaces]; rfl) ready.few (ready.few_bytes lawful)
    (fun long => left_overflow lawful ready.sound long ready.stands.calm.processMessageComplete) ?_
  rw [switch_target spaces step, parser]
  refine ⟨Nat.le_refl _, ?_⟩
  refine feeds_url lawful 1 []
    (fun len positive inside => onUrl_begins lawful stands positive inside ready.tame.take)
    stands.calm.processMessageComplete (ready.fresh (by rw [phase]; rfl)) ih (by omega) 1 _ l' back
    (Nat.le_refl _) inside ?_ (Reader.step_sound ready.sound stepped) (by omega) rest (drop_succ left) ran
    ready.tame
  rw [← after, @piece_succ _ _ _ _ _ 0 left]
  rfl

/-- The loop goes on with a target that was cut. -/
theorem feeds_urlRest {u : Bytes} (lawful : x.Lawful) (ready : x.Ready already g events last l r 0 nread)
    (phase : l.phase = .url u) (positive : 0 < x.data.length) (ih : x.Continues last 1) :
    x.Resumes already g events last l r 0 nread (Function.update (fun _ => none) .url (some 0)) := by
  have stands := ready.stands
  rw [phase] at stands
  exact feeds_url lawful 0 u (fun len _ inside => onUrl_goesOn stands inside)
    stands.calm.processMessageComplete (ready.fresh (by rw [phase]; rfl)) ih positive 0 nread l events
    (Nat.le_refl _) (Nat.zero_le _) (phase.trans (congrArg _ (List.append_nil u).symm)) ready.sound ready.few
    x.data rfl ready.ahead ready.tame

/-! ## Status lines -/

theorem Phase.glides_status (text : Bytes) : (Phase.status text).Glides (.lineCr (.status text)) cr :=
  ⟨rfl, rfl, fun _ _ o => ⟨o.state, o.token, o.tokenEnd, nofun, nofun⟩, rfl⟩

theorem switch_statusEnd {data : Bytes} {p nread : Nat} {marks : Marks} (state : parser.state = .resStatus) :
    switch data ⟨p, parser.counting nread, marks⟩ cr =
      callbackDataTo .status p (p + 1) ⟨p, (parser.goTo .resLineAlmostDone).counting nread, marks⟩ := by
  unfold switch
  simp only [counting_state, state, resStatus]
  rfl

theorem switch_status {data : Bytes} {p nread : Nat} {marks : Marks} (state : parser.state = .resStatus)
    (visible : c ≠ cr ∧ c ≠ lf) :
    switch data ⟨p, parser.counting nread, marks⟩ c = Run.next ⟨p, parser.counting nread, marks⟩ := by
  unfold switch
  simp only [counting_state, state, resStatus, if_neg visible.1, if_neg visible.2]

/-- The loop on a status that is marked. -/
theorem feeds_status (lawful : x.Lawful) {start : Nat} {lead : Bytes} {front : List Event}
    (reports : ∀ len, start + len ≤ x.data.length →
      Outcome (x.handler (.data .status start len) (r, g.delegate))
        (x.Answered g front (.status (lead ++ x.piece start len)) (start + len)) False)
    (calm : r.processMessageComplete = false) (fresh : x.token = none)
    (ih : x.Continues last (start + 1)) (positive : 0 < x.data.length) (len nread : Nat) (l : Reader)
    (back : List Event) (inside : start + len ≤ x.data.length)
    (phase : l.phase = .status (lead ++ x.piece start len)) (sound : l.Sound x.setup)
    (few : nread ≤ 2 * l.count) (rest : Bytes) (left : x.data.drop (start + len) = rest)
    (ahead : Reader.run x.setup l rest = some (last, back)) (tame : x.acts.Tame (front ++ back) g) :
    Feeds x.handler x.data ⟨start + len, l.parser.counting nread,
      Function.update (fun _ => none) .status (some start)⟩ (r, g.delegate)
      (x.Left already g (front ++ back) last) False := by
  induction rest generalizing len nread l back with
  | nil =>
    have used : start + len = x.data.length := by
      have short := List.drop_eq_nil_iff.mp left
      omega
    exact reported_stop lawful (phase ▸ reports len inside) used (by omega) few sound (by rw [phase]; rfl)
      ahead
  | cons c rest more =>
    have state : l.parser.state = .resStatus := by
      have has := sound.meets.has
      rwa [phase] at has
    obtain ⟨l', first, later, stepped, ran, rfl⟩ := Reader.run_cons_some ahead
    obtain ⟨read, count⟩ := Reader.step_read (by rw [phase]; nofun) stepped
    rw [Reader.countAfter_header (Or.inr (by rw [phase]; rfl)) sound.meets] at count
    have sound' := Reader.step_sound sound stepped
    refine Feeds.header (here_of_drop left) (by rw [state]; rfl) few
      (Nat.le_trans sound.count lawful.limit) (fun long => left_overflow lawful sound long calm) ?_
    rw [phase] at read
    simp only [Reader.read, Reader.readStatus] at read
    split at read
    · cases read
    rename_i notLf
    split at read
    · rename_i isCr
      subst isCr
      simp only [Option.some.injEq, Prod.mk.injEq] at read
      obtain ⟨parser, after, rfl⟩ := read
      rw [switch_statusEnd state, parser]
      rw [List.nil_append] at tame ⊢
      exact reported_end lawful (reports len inside) left (after ▸ Phase.glides_status _) (by omega) sound'
        ran tame fresh fun _ _ _ _ _ _ _ later => ih _ _ _ _ _ _ _ (by omega)
    · rename_i notCr
      simp only [Option.some.injEq, Prod.mk.injEq] at read
      obtain ⟨parser, after, rfl⟩ := read
      rw [switch_status state ⟨notCr, notLf⟩, parser]
      refine ⟨Nat.le_refl _, more (len + 1) (nread + 1) l' later (lt_of_drop left) ?_ sound' (by omega)
        (drop_succ left) ran tame⟩
      rw [← after, piece_succ left, List.append_assoc]

/-- The first character of a reason phrase is marked, also where there is none. -/
theorem switch_reason {data : Bytes} {p nread : Nat} (state : parser.state = .resStatusStart)
    (visible : c ≠ cr ∧ c ≠ lf) :
    switch data ⟨p, parser.counting nread, fun _ => none⟩ c =
      Run.next ⟨p, HttpParser.counting { parser with state := .resStatus, index := 0 } nread,
        Function.update (fun _ => none) .status (some p)⟩ := by
  unfold switch
  simp only [counting_state, state, resStatusStart, Frame.mark, Option.isSome_none, Bool.false_eq_true,
    if_false, visible.1, visible.2, or_self]
  rfl

theorem switch_noReason {data : Bytes} {p nread : Nat} (state : parser.state = .resStatusStart) :
    switch data ⟨p, parser.counting nread, fun _ => none⟩ cr =
      callbackDataTo .status p (p + 1)
        ⟨p, HttpParser.counting { parser with state := .resLineAlmostDone, index := 0 } nread,
          Function.update (fun _ => none) .status (some p)⟩ := by
  unfold switch
  simp only [counting_state, state, resStatusStart, Frame.mark, Option.isSome_none, Bool.false_eq_true,
    if_false, true_or, if_true, resStatus]
  rfl

theorem feeds_reason {v k : Bytes} (lawful : x.Lawful) (ready : x.Ready already g events last l r p nread)
    (phase : l.phase = .reason v k) (left : x.data.drop p = c :: rest) (ih : x.Continues last (p + 1)) :
    x.Resumes already g events last l r p nread fun _ => none := by
  have few := ready.few
  have inside := lt_of_drop left
  have sound := ready.sound
  obtain ⟨state, three⟩ : l.parser.state = .resStatusStart ∧ k.length = 3 := by
    have has := sound.meets.has
    rwa [phase] at has
  obtain ⟨l', first, back, stepped, ran, rfl⟩ := Reader.run_cons_some (left ▸ ready.ahead)
  obtain ⟨read, count⟩ := Reader.step_read (by rw [phase]; nofun) stepped
  have fresh := ready.fresh (by rw [phase]; rfl)
  have sound' := Reader.step_sound sound stepped
  have stands := ready.stands
  rw [phase] at stands read
  rw [Reader.countAfter_header (Or.inr (by rw [phase]; rfl)) sound.meets] at count
  refine Feeds.header (here_of_drop left) (by rw [state]; rfl) ready.few (ready.few_bytes lawful)
    (fun long => left_overflow lawful ready.sound long ready.stands.calm.processMessageComplete) ?_
  simp only [Reader.read, Reader.readReason] at read
  split at read
  · cases read
  rename_i notLf
  split at read
  · rename_i isCr
    subst isCr
    simp only [Option.some.injEq, Prod.mk.injEq] at read
    obtain ⟨parser, after, rfl⟩ := read
    have reports : Outcome (x.handler (.data .status p 0) (r, g.delegate))
        (x.Answered g [.version v, .raw [space]] (.status (k ++ [space] ++ x.piece p 0)) (p + 0)) False :=
      onStatus_begins lawful three stands (Nat.le_of_lt inside) inside ready.tame.take
    rw [piece_zero, List.append_nil] at reports
    rw [switch_noReason state, parser]
    exact reported_end lawful reports left (after ▸ Phase.glides_status _) (by omega) sound' ran ready.tame
      fresh ih
  · rename_i notCr
    simp only [Option.some.injEq, Prod.mk.injEq] at read
    obtain ⟨parser, after, rfl⟩ := read
    rw [switch_reason state ⟨notCr, notLf⟩, parser]
    refine ⟨Nat.le_refl _, feeds_status lawful
      (fun len fits => onStatus_begins lawful three stands fits inside ready.tame.take)
      stands.calm.processMessageComplete fresh ih (by omega) 1 _ l' back inside ?_ sound' (by omega) rest
      (drop_succ left) ran ready.tame⟩
    rw [← after, @piece_succ _ _ _ _ _ 0 left]
    rfl

/-- The loop goes on with a reason phrase that was cut. -/
theorem feeds_statusRest {text : Bytes} (lawful : x.Lawful)
    (ready : x.Ready already g events last l r 0 nread) (phase : l.phase = .status text)
    (positive : 0 < x.data.length) (ih : x.Continues last 1) :
    x.Resumes already g events last l r 0 nread (Function.update (fun _ => none) .status (some 0)) := by
  have stands := ready.stands
  rw [phase] at stands
  exact feeds_status lawful (fun len inside => onStatus_goesOn stands inside)
    stands.calm.processMessageComplete (ready.fresh (by rw [phase]; rfl)) ih positive 0 nread l events
    (Nat.zero_le _) (phase.trans (congrArg _ (List.append_nil text).symm)) ready.sound ready.few
    x.data rfl ready.ahead ready.tame

end Context

end LibNekit.Canonical
