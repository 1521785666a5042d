import LibNekit.Source.ThirdParty.HttpParser.Loop
import LibNekit.Source.ThirdParty.HttpParser.Steps

/-!
# How a call of `http_parser_execute` returns

Against callbacks of which the rewriter's are an instance: some never stop the parser, and
`on_headers_complete` always does. A call that is given bytes consumes some of them,
unless it fails or comes to the end of the headers with the first one.
-/
namespace LibNekit.Source.HttpParser

open LibNekit.Library

variable {σ α β : Type} {handler : Callback → σ → Checked (Reply × σ)} {Calm : σ → Prop} {data : Bytes}

/-- The callbacks that may neither fail nor pause the parser. -/
def NotifyCallback.silent : NotifyCallback → Bool
  | .chunkHeader | .chunkComplete => true
  | _ => false

def DataCallback.silent : DataCallback → Bool
  | .headerValue | .body => true
  | _ => false

def Callback.silent : Callback → Bool
  | .notify callback => callback.silent
  | .data callback _ _ => callback.silent

/-- `http_errno` behind a callback that failed. -/
def Callback.failed : Callback → HttpErrno
  | .notify callback => .cbNotify callback
  | .data callback _ _ => .cbData callback

/-- `http_errno` behind a callback that stopped the parser. -/
def Callback.stopErrno (callback : Callback) (reply : Reply) : HttpErrno :=
  if reply.code = -1 then callback.failed else .paused

/-- What is assumed of the callbacks. `Calm` is what they keep as long as the parser goes on. -/
structure Answers (handler : Callback → σ → Checked (Reply × σ)) (Calm : σ → Prop) : Prop where
  silent : ∀ {callback s reply s'}, Calm s → handler callback s = .ok (reply, s') → callback.silent = true →
    ¬reply.Stops
  code : ∀ {callback s reply s'}, Calm s → handler callback s = .ok (reply, s') →
    reply.code = -1 ∨ reply.code = 0 ∨ callback = .notify .headersComplete ∧ reply.code = 1
  headers : ∀ {s reply s'}, Calm s → handler (.notify .headersComplete) s = .ok (reply, s') →
    reply.code = -1 ∨ reply.paused = true
  calm : ∀ {callback s reply s'}, Calm s → handler callback s = .ok (reply, s') → ¬reply.Stops → Calm s'

/-- Why a call returned. -/
inductive Returned (handler : Callback → σ → Checked (Reply × σ)) (Calm : σ → Prop) (errno : HttpErrno) (s' : σ) :
    Prop where
  | ran (calm : Calm s') (clear : errno = .ok)
  | rejects (calm : Calm s') (own : errno.own = true)
  | stopped (callback : Callback) (s : σ) (reply : Reply) (calm : Calm s)
      (answered : handler callback s = .ok (reply, s')) (stops : reply.Stops) (same : errno = callback.stopErrno reply)

/-- The bytes that a call consumed, or the rest of one from `p` on. -/
structure Consumes (len p : Nat) (state : ParserState) (n : Nat) (parser : HttpParser) : Prop where
  inside : n ≤ len
  forward : p ≤ n
  progress : n = p → Fatal parser.httpErrno ∨ state ≠ .headersDone ∧ parser.state = .headersDone

/-- The piece returns from the call. -/
def Flow.Leaves (flow : Flow α) : Prop := ∃ n parser, flow = .exit n parser

/-- A piece of the call that ends with `Post`, and returns when a callback fails. -/
def Leads (handler : Callback → σ → Checked (Reply × σ)) (Post : Flow α → σ → Prop) (run : Run α) (s : σ) : Prop :=
  Program.Heeds handler (fun reply => reply.code = -1) Flow.Leaves Post run s

/-- Where a pass of the loop may end that began at `p` in `state`. -/
def Way (handler : Callback → σ → Checked (Reply × σ)) (Calm : σ → Prop) (len p : Nat) (state : ParserState) :
    Flow Frame → σ → Prop
  | .next f, s => (p ≤ f.p ∧ f.p < len) ∧ Calm s
  | .exit n parser, s => Returned handler Calm parser.httpErrno s ∧ Consumes len p state n parser

/-- The same for a piece that always returns. -/
def Exits (handler : Callback → σ → Checked (Reply × σ)) (Calm : σ → Prop) (len p : Nat) (state : ParserState) :
    Flow Frame → σ → Prop
  | .next _, _ => False
  | .exit n parser, s => Returned handler Calm parser.httpErrno s ∧ Consumes len p state n parser

/-- A piece of that pass. -/
def Ways (handler : Callback → σ → Checked (Reply × σ)) (Calm : σ → Prop) (len p : Nat) (state : ParserState)
    (run : Run Frame) (s : σ) : Prop :=
  Leads handler (Way handler Calm len p state) run s

/-- Behind a callback: the parser goes on where it was, or returns `er`. -/
def Behind (handler : Callback → σ → Checked (Reply × σ)) (Calm : σ → Prop) (f : Frame) (er : Nat) (silent : Bool) :
    Flow Frame → σ → Prop
  | .next f', s => f'.p = f.p ∧ f'.parser.httpErrno = .ok ∧ Calm s
  | .exit n parser, s => silent = false ∧ n = er ∧ Returned handler Calm parser.httpErrno s

/-- A piece that is a callback. -/
def Asks (handler : Callback → σ → Checked (Reply × σ)) (Calm : σ → Prop) (f : Frame) (er : Nat) (silent : Bool)
    (run : Run Frame) (s : σ) : Prop :=
  Leads handler (Behind handler Calm f er silent) run s

variable {len p : Nat} {state : ParserState} {f : Frame} {s : σ} {ch : UInt8}

/-! ## Rules -/

theorem Leads.bind {Middle : Flow α → σ → Prop} {Post : Flow β → σ → Prop} {run : Run α} {after : α → Run β}
    (first : Leads handler Middle run s) (going : ∀ a s', Middle (.next a) s' → Leads handler Post (after a) s')
    (leaving : ∀ n parser s', Middle (.exit n parser) s' → Post (.exit n parser) s') :
    Leads handler Post (run >>= after) s := by
  refine Program.Heeds.bind first (fun flow leaves => ?_) fun flow s' ends => ?_
  · obtain ⟨n, parser, rfl⟩ := leaves
    exact ⟨.exit n parser, rfl, n, parser, rfl⟩
  · cases flow with
    | next a => exact going a s' ends
    | exit n parser => exact leaving n parser s' ends

theorem ways_next (forward : p ≤ f.p) (inside : f.p < len) (calm : Calm s) :
    Ways handler Calm len p state (Run.next f) s := ⟨⟨forward, inside⟩, calm⟩

theorem ways_error {errno : HttpErrno} (own : errno.own = true) (forward : p ≤ f.p) (inside : f.p ≤ len) (calm : Calm s) :
    Ways handler Calm len p state (f.error errno) s :=
  ⟨.rejects calm own, inside, forward, fun _ => Or.inl (HttpErrno.own_fatal own)⟩

theorem ways_assert {condition : Prop} [Decidable condition] {after : Unit → Run Frame}
    (going : Ways handler Calm len p state (after ()) s) : Ways handler Calm len p state (cAssert condition >>= after) s := by
  unfold cAssert
  split
  · exact going
  · exact trivial

theorem ways_lift {x : Checked α} {after : α → Run Frame}
    (going : ∀ a, x = .ok a → Ways handler Calm len p state (after a) s) :
    Ways handler Calm len p state ((liftM x : Run α) >>= after) s := by
  cases ran : x with
  | ok a => exact going a ran
  | error e => exact trivial

theorem ways_count {count : Nat} {after : Frame → Run Frame} (forward : p ≤ f.p) (inside : f.p ≤ len) (calm : Calm s)
    (going : Ways handler Calm len p state (after { f with parser := f.parser.counted count }) s) :
    Ways handler Calm len p state (f.countHeaderSize count >>= after) s := by
  unfold Frame.countHeaderSize
  dsimp only
  split
  · exact ways_error rfl forward inside calm
  · exact going

theorem ways_counted {count : Nat} (forward : p ≤ f.p) (inside : f.p < len) (calm : Calm s) :
    Ways handler Calm len p state (f.countHeaderSize count) s := by
  unfold Frame.countHeaderSize
  dsimp only
  split
  · exact ways_error rfl forward (Nat.le_of_lt inside) calm
  · exact ways_next forward inside calm

/-- A callback at the end of a piece. -/
theorem Asks.ways {run : Run Frame} {er : Nat} {silent : Bool} (asks : Asks handler Calm f er silent run s)
    (moves : silent = true ∨ p < er ∧ er ≤ len) (forward : p ≤ f.p) (inside : f.p < len) :
    Ways handler Calm len p state run s := by
  refine Program.Heeds.mono asks fun flow s' ends => ?_
  cases flow with
  | next f' =>
    obtain ⟨same, -, calm⟩ := ends
    exact ⟨⟨same ▸ forward, same ▸ inside⟩, calm⟩
  | exit n parser =>
    obtain ⟨speaks, rfl, returned⟩ := ends
    obtain ⟨further, within⟩ := moves.resolve_left (by simp [speaks])
    exact ⟨returned, within, Nat.le_of_lt further, fun same => absurd same (Nat.ne_of_gt further)⟩

/-- A callback, and what follows it. -/
theorem Asks.bind {Post : Flow Frame → σ → Prop} {run : Run Frame} {after : Frame → Run Frame} {er : Nat} {silent : Bool}
    (asks : Asks handler Calm f er silent run s) (moves : silent = true ∨ p < er ∧ er ≤ len)
    (leaving : ∀ n parser s', Returned handler Calm parser.httpErrno s' → Consumes len p state n parser → Post (.exit n parser) s')
    (going : ∀ f' s', f'.p = f.p → f'.parser.httpErrno = .ok → Calm s' →
      Leads handler Post (after f') s') : Leads handler Post (run >>= after) s := by
  refine Leads.bind asks (fun f' s' ends => ?_) fun n parser s' ends => ?_
  · exact going f' s' ends.1 ends.2.1 ends.2.2
  · obtain ⟨speaks, rfl, returned⟩ := ends
    obtain ⟨further, within⟩ := moves.resolve_left (by simp [speaks])
    exact leaving n parser s' returned ⟨within, Nat.le_of_lt further, fun same => absurd same (Nat.ne_of_gt further)⟩

theorem Asks.then_ways {run : Run Frame} {after : Frame → Run Frame} {er : Nat} {silent : Bool}
    (asks : Asks handler Calm f er silent run s) (moves : silent = true ∨ p < er ∧ er ≤ len)
    (going : ∀ f' s', f'.p = f.p → f'.parser.httpErrno = .ok → Calm s' → Ways handler Calm len p state (after f') s') :
    Ways handler Calm len p state (run >>= after) s :=
  asks.bind moves (fun _ _ _ returned consumes => ⟨returned, consumes⟩) going

/-! ## Callbacks -/

theorem not_stops_iff {reply : Reply} : ¬reply.Stops ↔ reply.code = 0 ∧ reply.paused = false := by
  unfold Reply.Stops
  simp

theorem errno_of_going {reply : Reply} {failed : HttpErrno} (going : ¬reply.Stops) : reply.errno failed = .ok := by
  obtain ⟨code, paused⟩ := not_stops_iff.mp going
  simp [Reply.errno, code, paused]

theorem errno_of_stops {reply : Reply} {failed : HttpErrno} (code : reply.code = -1 ∨ reply.code = 0)
    (stops : reply.Stops) : reply.errno failed = if reply.code = -1 then failed else .paused := by
  unfold Reply.errno
  rcases code with refused | fine
  · simp [refused]
  · have paused : reply.paused = true := stops.resolve_left fun other => other fine
    simp [fine, paused]

theorem Callback.stopErrno_ne (callback : Callback) (reply : Reply) : callback.stopErrno reply ≠ .ok := by
  unfold stopErrno
  split
  · cases callback <;> rintro ⟨⟩
  · rintro ⟨⟩

/-- Behind the reply of a callback that is no instruction. -/
theorem reply_behind (answers : Answers handler Calm) {callback : Callback} {er : Nat} {reply : Reply} {s' : σ}
    {parser : HttpParser} {f' : Frame} (calm : Calm s) (answered : handler callback s = .ok (reply, s'))
    (other : callback ≠ .notify .headersComplete) (reported : parser.httpErrno = reply.errno callback.failed)
    (here : f'.p = f.p) (kept : f'.parser = parser) :
    Asks handler Calm f er callback.silent
      (if parser.httpErrno ≠ .ok then Run.exit er parser else Run.next f' : Run Frame) s' := by
  have code : reply.code = -1 ∨ reply.code = 0 := by
    rcases answers.code calm answered with refused | fine | ⟨headers, -⟩
    · exact Or.inl refused
    · exact Or.inr fine
    · exact absurd headers other
  by_cases stops : reply.Stops
  · have errno : parser.httpErrno = callback.stopErrno reply := reported.trans (errno_of_stops code stops)
    rw [if_pos (errno ▸ callback.stopErrno_ne reply)]
    refine ⟨?_, rfl, .stopped callback s reply calm answered stops errno⟩
    cases silent : callback.silent with
    | false => rfl
    | true => exact absurd stops (answers.silent calm answered silent)
  · have clear : parser.httpErrno = .ok := by rw [reported, errno_of_going stops]
    rw [if_neg (not_not.mpr clear)]
    exact ⟨here, by rw [kept]; exact clear, answers.calm calm answered stops⟩

/-- A callback that fails is the last one. -/
theorem leaves_on_failure (callback : Callback) {er : Nat} {reply : Reply} {parser : HttpParser} {f' : Frame}
    (failed : reply.code = -1) (reported : parser.httpErrno = reply.errno callback.failed) :
    ∃ flow, (if parser.httpErrno ≠ .ok then Run.exit er parser else Run.next f' : Run Frame) = Program.done flow ∧
      flow.Leaves := by
  have stops : parser.httpErrno ≠ .ok := by
    rw [reported]
    simp only [Reply.errno, failed]
    cases callback <;> rintro ⟨⟩
  rw [if_pos stops]
  exact ⟨.exit er parser, rfl, er, parser, rfl⟩

theorem notify_asks (answers : Answers handler Calm) {notification : NotifyCallback} {er : Nat}
    (other : notification ≠ .headersComplete) (calm : Calm s) :
    Asks handler Calm f er notification.silent (callbackNotify notification er f) s := by
  unfold callbackNotify
  split
  · exact trivial
  · intro reply s' answered
    constructor
    · exact fun failed => leaves_on_failure (.notify notification) failed rfl
    · exact reply_behind answers calm answered (by simpa using other) rfl rfl rfl

theorem data_asks (answers : Answers handler Calm) {element : DataCallback} {stop er : Nat} (calm : Calm s) :
    Asks handler Calm f er element.silent (callbackDataTo element stop er f) s := by
  unfold callbackDataTo
  split
  · exact trivial
  next clear =>
    split
    · exact ⟨rfl, not_not.mp clear, calm⟩
    · intro reply s' answered
      constructor
      · exact fun failed => leaves_on_failure (.data element 0 0) failed rfl
      · exact reply_behind answers calm answered (by simp) rfl rfl rfl

/-! ## How far the inner loops come -/

theorem mark_p (f : Frame) (callback : DataCallback) : (f.mark callback).p = f.p := by
  unfold Frame.mark
  split <;> rfl

theorem headerFieldLoop_le {bytes : Bytes} {parser next : HttpParser} {passed : Nat}
    (ran : headerFieldLoop bytes parser = .ok (passed, next)) : passed ≤ bytes.length := by
  induction bytes generalizing parser passed with
  | nil =>
    cases ran
    exact Nat.le_refl _
  | cons c rest ih =>
    rw [headerFieldLoop] at ran
    split at ran
    · cases ran
      exact Nat.zero_le _
    · obtain ⟨parser₁, -, ran⟩ := bind_eq_ok.mp ran
      obtain ⟨⟨passed₁, parser₂⟩, more, ran⟩ := bind_eq_ok.mp ran
      cases ran
      exact Nat.succ_le_succ (ih more)

/-- Where a stop may be, in `length` bytes. -/
def ValueStop.Reached (passed length : Nat) : ValueStop → Prop
  | .atCr | .atLf => passed < length
  | .endOfData => passed = length
  | .invalid _ => passed ≤ length

theorem ValueStop.Reached.succ {stop : ValueStop} {passed length : Nat} (reached : stop.Reached passed length) :
    stop.Reached (passed + 1) (length + 1) := by
  cases stop with
  | atCr | atLf => exact Nat.succ_lt_succ reached
  | endOfData => exact congrArg Nat.succ reached
  | invalid errno => exact Nat.succ_le_succ reached

theorem skipGeneral_le (bytes : Bytes) : skipGeneral bytes ≤ bytes.length := by
  unfold skipGeneral
  cases found : (bytes.take maxHeaderSize).findIdx? fun c => c = cr ∨ c = lf with
  | none => exact Nat.le_refl _
  | some i =>
    have inside := (List.findIdx?_eq_some_iff_getElem.mp found).1
    rw [List.length_take] at inside
    show i ≤ _
    omega

theorem ValueStop.of_reached {bytes : Bytes} {passed : Nat} (most : passed ≤ bytes.length) :
    (ValueStop.of bytes[passed]?).Reached passed bytes.length := by
  cases here : bytes[passed]? with
  | none => exact Nat.le_antisymm most (List.getElem?_eq_none_iff.mp here)
  | some c =>
    have inside := (List.getElem?_eq_some_iff.mp here).1
    unfold ValueStop.of
    dsimp only
    split <;> exact inside

theorem headerValueLoop_reached {bytes : Bytes} {hState : HeaderState} {parser : HttpParser} {scan : ValueScan}
    (ran : headerValueLoop bytes hState parser = .ok scan) : scan.stop.Reached scan.passed bytes.length := by
  induction bytes generalizing hState parser scan with
  | nil =>
    cases ran
    exact rfl
  | cons c rest ih =>
    rw [headerValueLoop] at ran
    split at ran
    · cases ran
      exact Nat.succ_pos _
    split at ran
    · cases ran
      exact Nat.succ_pos _
    split at ran
    · cases ran
      exact Nat.zero_le _
    split at ran
    · cases ran
      exact ValueStop.of_reached (skipGeneral_le _)
    obtain ⟨read, -, ran⟩ := bind_eq_ok.mp ran
    cases read with
    | error failed =>
      cases ran
      exact Nat.zero_le _
    | ok passed =>
      obtain ⟨scan₁, more, ran⟩ := bind_eq_ok.mp ran
      cases ran
      exact (ih more).succ

/-! ## The end of headers and messages -/

section States

variable (answers : Answers handler Calm) (calm : Calm s)

include answers calm

theorem complete_ways (forward : p ≤ f.p) (inside : f.p < len) :
    Ways handler Calm len p state (callbackNotify .messageComplete (f.p + 1) (f.goTo f.parser.newMessage)) s :=
  (notify_asks answers (by decide) calm).ways (Or.inr ⟨Nat.lt_succ_of_le forward, inside⟩) forward inside

theorem messageDone_ways (forward : p ≤ f.p) (inside : f.p < len) :
    Ways handler Calm len p state (messageDone f) s := by
  unfold messageDone
  refine (notify_asks answers (by decide) calm).then_ways (Or.inr ⟨Nat.lt_succ_of_le forward, inside⟩) fun f' s' here clear calm' => ?_
  have here : f'.p = f.p := here
  split
  · refine ⟨.ran calm' clear, ?_, ?_, fun same => ?_⟩ <;> omega
  · exact ways_next (by omega) (by omega) calm'

theorem headersDone_ways (forward : p ≤ f.p) (inside : f.p < len) :
    Ways handler Calm len p state (headersDone f ch) s := by
  unfold headersDone
  split
  · exact ways_error rfl forward (Nat.le_of_lt inside) calm
  dsimp only
  split
  · refine (notify_asks answers (by decide) calm).then_ways (Or.inr ⟨Nat.lt_succ_of_le forward, inside⟩) fun f' s' here clear calm' => ?_
    have here : f'.p = f.p := here
    refine ⟨.ran calm' clear, ?_, ?_, fun same => ?_⟩ <;> omega
  split
  · exact @complete_ways _ _ _ _ _ _ { f with parser.nread := 0 } _ answers calm forward inside
  split
  · exact ways_next forward inside calm
  split
  · exact @complete_ways _ _ _ _ _ _ { f with parser.nread := 0 } _ answers calm forward inside
  split
  · exact ways_next forward inside calm
  split
  · exact @complete_ways _ _ _ _ _ _ { f with parser.nread := 0 } _ answers calm forward inside
  · exact ways_next forward inside calm

/-- `on_headers_complete` is always the last callback of its call. -/
theorem headersComplete_exits (here : f.parser.state = .headersDone) (other : state ≠ .headersDone) (forward : p ≤ f.p)
    (inside : f.p < len) :
    Leads handler (Exits handler Calm len p state) (headersComplete f) s := by
  intro reply s' answered
  have code := answers.code calm answered
  have paused := answers.headers calm answered
  dsimp only
  constructor
  · intro failed
    rw [if_pos (by simp [failed])]
    exact ⟨_, rfl, _, _, rfl⟩
  · split
    · next strange =>
      have refused : reply.code = -1 := by
        rcases code with minus | zero | ⟨-, one⟩
        · exact minus
        · exact absurd zero strange.1
        · exact absurd one strange.2.1
      refine ⟨.stopped _ s reply calm answered (Or.inl strange.1) ?_, Nat.le_of_lt inside, forward, fun _ => ?_⟩
      · simp [Callback.stopErrno, Callback.failed, refused]
      · exact Or.inl ⟨by rintro ⟨⟩, by rintro ⟨⟩⟩
    · next plain =>
      have fine : reply.code ≠ -1 := by
        intro refused
        exact plain (by simp [refused])
      have paused := paused.resolve_left fine
      rw [if_pos paused]
      refine ⟨.stopped _ s reply calm answered (Or.inr paused) ?_, Nat.le_of_lt inside, forward, fun _ => ?_⟩
      · simp [Callback.stopErrno, fine]
      · exact Or.inr ⟨other, here⟩

theorem headersAlmostDone_ways (other : state ≠ .headersDone) (forward : p ≤ f.p) (inside : f.p < len) :
    Ways handler Calm len p state (headersAlmostDone f ch) s := by
  unfold headersAlmostDone
  split
  · exact ways_error rfl forward (Nat.le_of_lt inside) calm
  split
  · refine (notify_asks answers (by decide) calm).then_ways (Or.inl rfl) fun f' s' here _ calm' => ?_
    have here : f'.p = f.p := here
    exact messageDone_ways answers calm' (by omega) (by omega)
  split
  · exact ways_error rfl forward (Nat.le_of_lt inside) calm
  · refine Leads.bind (headersComplete_exits answers calm rfl other forward inside) (fun _ _ never => ?_) fun _ _ _ exits => exits
    exact never.elim

theorem headerFieldStart_ways (other : state ≠ .headersDone) (forward : p ≤ f.p) (inside : f.p < len) :
    Ways handler Calm len p state (headerFieldStart f ch) s := by
  unfold headerFieldStart
  split
  · exact ways_next forward inside calm
  split
  · exact headersAlmostDone_ways answers calm other forward inside
  split
  · exact ways_error rfl forward (Nat.le_of_lt inside) calm
  · refine ways_next ?_ ?_ calm
    · exact (mark_p f .headerField).symm ▸ forward
    · exact (mark_p f .headerField).symm ▸ inside

/-! ## Header lines -/

omit answers in
theorem headerValueStart_ways (forward : p ≤ f.p) (inside : f.p < len) :
    Ways handler Calm len p state (headerValueStart f ch) s := by
  have here : (f.mark .headerValue).p = f.p := mark_p f .headerValue
  unfold headerValueStart
  dsimp only
  split
  · exact ways_next (here.symm ▸ forward) (here.symm ▸ inside) calm
  · next failed => exact ways_error (startValue_error failed) (here.symm ▸ forward) (here.symm ▸ Nat.le_of_lt inside) calm

theorem headerValueLws_ways (other : state ≠ .headersDone) (forward : p ≤ f.p) (inside : f.p < len) :
    Ways handler Calm len p state (headerValueLws f ch) s := by
  unfold headerValueLws
  split
  · exact headerValueStart_ways calm forward inside
  · exact headerFieldStart_ways answers calm other forward inside

omit answers in
theorem headerValueDiscardWs_ways (forward : p ≤ f.p) (inside : f.p < len) :
    Ways handler Calm len p state (headerValueDiscardWs f ch) s := by
  unfold headerValueDiscardWs
  split
  · exact ways_next forward inside calm
  split
  · exact ways_next forward inside calm
  split
  · exact ways_next forward inside calm
  · exact headerValueStart_ways calm forward inside

theorem headerValueDiscardLws_ways (other : state ≠ .headersDone) (forward : p ≤ f.p) (inside : f.p < len) :
    Ways handler Calm len p state (headerValueDiscardLws f ch) s := by
  unfold headerValueDiscardLws
  split
  · exact ways_next forward inside calm
  · refine (data_asks answers calm).then_ways (Or.inl rfl) fun f' s' here _ calm' => ?_
    have here : f'.p = f.p := here.trans (mark_p _ .headerValue)
    exact headerFieldStart_ways answers calm' other (by omega) (by omega)

theorem headerField_ways (forward : p ≤ f.p) (inside : f.p < data.length) :
    Ways handler Calm data.length p state (headerField data f) s := by
  unfold headerField
  refine ways_lift fun scanned ran => ?_
  obtain ⟨passed, parser⟩ := scanned
  have most := headerFieldLoop_le ran
  rw [List.length_drop] at most
  dsimp only
  refine ways_count ?_ ?_ calm ?_
  · exact Nat.le_add_right_of_le forward
  · show f.p + passed ≤ _
    omega
  dsimp only
  split
  · next ended =>
    have ended := List.getElem?_eq_none_iff.mp ended
    refine ways_next ?_ ?_ calm
    · show p ≤ f.p + passed - 1
      omega
    · show f.p + passed - 1 < _
      omega
  · next ch here =>
    have within : f.p + passed < data.length := (List.getElem?_eq_some_iff.mp here).1
    have further : p ≤ f.p + passed := Nat.le_add_right_of_le forward
    split
    · exact (data_asks answers calm).ways (Or.inr ⟨Nat.lt_succ_of_le further, within⟩) further within
    · exact ways_error rfl further (Nat.le_of_lt within) calm

theorem headerValue_ways (forward : p ≤ f.p) (inside : f.p < data.length) :
    Ways handler Calm data.length p state (headerValue data f) s := by
  unfold headerValue
  refine ways_lift fun scan ran => ?_
  have reached := headerValueLoop_reached ran
  rw [List.length_drop] at reached
  have further : p ≤ f.p + scan.passed := Nat.le_add_right_of_le forward
  dsimp only
  split
  · next stop =>
    rw [stop] at reached
    have within : f.p + scan.passed < data.length := by
      have less : scan.passed < data.length - f.p := reached
      omega
    refine (data_asks answers calm).then_ways (Or.inl rfl) fun f' s' here _ calm' => ?_
    have here : f'.p = f.p + scan.passed := here
    exact ways_counted (by omega) (by omega) calm'
  · next stop =>
    rw [stop] at reached
    have within : f.p + scan.passed < data.length := by
      have less : scan.passed < data.length - f.p := reached
      omega
    refine ways_count further (Nat.le_of_lt within) calm ?_
    refine (data_asks answers calm).then_ways (Or.inl rfl) fun f' s' here _ calm' => ?_
    have here : f'.p = f.p + scan.passed := here
    exact ways_next (by show p ≤ f'.p; omega) (by show f'.p < _; omega) calm'
  · next stop =>
    rw [stop] at reached
    have all : scan.passed = data.length - f.p := reached
    refine ways_count further (by show f.p + scan.passed ≤ _; omega) calm ?_
    refine ways_next ?_ ?_ calm
    · show p ≤ f.p + scan.passed - 1
      omega
    · show f.p + scan.passed - 1 < _
      omega
  · next errno stop =>
    have own := headerValueLoop_error ran stop
    rw [stop] at reached
    have most : scan.passed ≤ data.length - f.p := reached
    exact ways_error own further (by show f.p + scan.passed ≤ _; omega) calm

/-! ## Start lines -/

theorem startRes_ways (forward : p ≤ f.p) (inside : f.p < len) : Ways handler Calm len p state (startRes f ch) s := by
  unfold startRes
  dsimp only
  split
  · exact (notify_asks answers (by decide) calm).ways (Or.inr ⟨Nat.lt_succ_of_le forward, inside⟩) forward inside
  split
  · exact (notify_asks answers (by decide) calm).ways (Or.inr ⟨Nat.lt_succ_of_le forward, inside⟩) forward inside
  · exact ways_error rfl forward (Nat.le_of_lt inside) calm

theorem startReq_ways (forward : p ≤ f.p) (inside : f.p < len) : Ways handler Calm len p state (startReq f ch) s := by
  unfold startReq
  split
  · exact ways_next forward inside calm
  dsimp only
  split
  · exact ways_error rfl forward (Nat.le_of_lt inside) calm
  split
  · exact ways_error rfl forward (Nat.le_of_lt inside) calm
  · exact (notify_asks answers (by decide) calm).ways (Or.inr ⟨Nat.lt_succ_of_le forward, inside⟩) forward inside

theorem resStatus_ways (forward : p ≤ f.p) (inside : f.p < len) : Ways handler Calm len p state (resStatus f ch) s := by
  unfold resStatus
  split
  · exact (data_asks answers calm).ways (Or.inr ⟨Nat.lt_succ_of_le forward, inside⟩) forward inside
  split
  · exact (data_asks answers calm).ways (Or.inr ⟨Nat.lt_succ_of_le forward, inside⟩) forward inside
  · exact ways_next forward inside calm

theorem resStatusStart_ways (forward : p ≤ f.p) (inside : f.p < len) :
    Ways handler Calm len p state (resStatusStart f ch) s := by
  have here : (f.mark .status).p = f.p := mark_p f .status
  unfold resStatusStart
  dsimp only
  split
  · exact resStatus_ways answers calm (here.symm ▸ forward) (here.symm ▸ inside)
  · exact ways_next (here.symm ▸ forward) (here.symm ▸ inside) calm

omit answers in
theorem urlChar_ways (forward : p ≤ f.p) (inside : f.p < len) : Ways handler Calm len p state (urlChar f ch) s := by
  unfold urlChar
  dsimp only
  split
  · exact ways_error rfl forward (Nat.le_of_lt inside) calm
  · exact ways_next forward inside calm

omit answers in
theorem reqSpacesBeforeUrl_ways (forward : p ≤ f.p) (inside : f.p < len) :
    Ways handler Calm len p state (reqSpacesBeforeUrl f ch) s := by
  have here : (f.mark .url).p = f.p := mark_p f .url
  unfold reqSpacesBeforeUrl
  split
  · exact ways_next forward inside calm
  · apply urlChar_ways calm
    · split <;> exact here.symm ▸ forward
    · split <;> exact here.symm ▸ inside

omit answers in
theorem reqSchema_ways (forward : p ≤ f.p) (inside : f.p < len) : Ways handler Calm len p state (reqSchema f ch) s := by
  unfold reqSchema
  split
  · exact ways_error rfl forward (Nat.le_of_lt inside) calm
  · exact urlChar_ways calm forward inside

theorem reqUrl_ways (forward : p ≤ f.p) (inside : f.p < len) : Ways handler Calm len p state (reqUrl f ch) s := by
  unfold reqUrl
  split
  · exact (data_asks answers calm).ways (Or.inr ⟨Nat.lt_succ_of_le forward, inside⟩) forward inside
  split
  · exact (data_asks answers calm).ways (Or.inr ⟨Nat.lt_succ_of_le forward, inside⟩) forward inside
  · exact urlChar_ways calm forward inside

omit answers in
theorem quiet_ways (forward : p ≤ f.p) (inside : f.p < len) : Ways handler Calm len p state (switch.quiet f ch) s := by
  unfold switch.quiet
  split
  · exact ways_next forward inside calm
  · next failed => exact ways_error (startLineStep_error failed) forward (Nat.le_of_lt inside) calm

/-! ## Bodies -/

omit answers calm in
theorem readBody_inside (some_left : f.parser.contentLength ≠ 0) (inside : f.p < data.length) :
    f.p ≤ (readBody data f).p ∧ (readBody data f).p < data.length := by
  unfold readBody
  dsimp only
  rw [mark_p]
  omega

theorem bodyIdentity_ways (forward : p ≤ f.p) (inside : f.p < data.length) :
    Ways handler Calm data.length p state (bodyIdentity data f) s := by
  unfold bodyIdentity cAssert
  split
  · next some_left =>
    obtain ⟨further, within⟩ := readBody_inside some_left.1 inside
    show Ways handler Calm _ p state (if (readBody data f).parser.contentLength = 0 then _ else Run.next _) s
    split
    · refine (data_asks answers calm).then_ways (Or.inl rfl) fun f' s' here _ calm' => ?_
      have here : f'.p = (readBody data f).p := here
      exact messageDone_ways answers calm' (by omega) (by omega)
    · exact ways_next (by omega) within calm
  · exact trivial

omit answers in
theorem chunkData_ways (forward : p ≤ f.p) (inside : f.p < data.length) :
    Ways handler Calm data.length p state (chunkData data f) s := by
  unfold chunkData
  refine ways_assert ?_
  unfold cAssert
  split
  · next some_left =>
    obtain ⟨further, within⟩ := readBody_inside some_left.1 inside
    refine ways_next ?_ ?_ calm
    · split <;> exact Nat.le_trans forward further
    · split <;> exact within
  · exact trivial

omit answers in
theorem chunkSizeStart_ways (forward : p ≤ f.p) (inside : f.p < len) :
    Ways handler Calm len p state (chunkSizeStart f ch) s := by
  unfold chunkSizeStart
  refine ways_assert (ways_assert ?_)
  split
  · exact ways_error rfl forward (Nat.le_of_lt inside) calm
  · exact ways_next forward inside calm

omit answers in
theorem chunkSize_ways (forward : p ≤ f.p) (inside : f.p < len) : Ways handler Calm len p state (chunkSize f ch) s := by
  unfold chunkSize
  refine ways_assert ?_
  split
  · exact ways_next forward inside calm
  split
  · split
    · exact ways_next forward inside calm
    · exact ways_error rfl forward (Nat.le_of_lt inside) calm
  · split
    · exact ways_error rfl forward (Nat.le_of_lt inside) calm
    · exact ways_next forward inside calm

omit answers in
theorem chunkParameters_ways (forward : p ≤ f.p) (inside : f.p < len) :
    Ways handler Calm len p state (chunkParameters f ch) s := by
  unfold chunkParameters
  refine ways_assert (ways_next ?_ ?_ calm)
  · split <;> exact forward
  · split <;> exact inside

theorem chunkSizeAlmostDone_ways (forward : p ≤ f.p) (inside : f.p < len) :
    Ways handler Calm len p state (chunkSizeAlmostDone f ch) s := by
  unfold chunkSizeAlmostDone
  refine ways_assert ?_
  split
  · exact ways_error rfl forward (Nat.le_of_lt inside) calm
  · refine (notify_asks answers (by decide) calm).ways (Or.inl rfl) ?_ ?_
    · dsimp only
      split <;> exact forward
    · dsimp only
      split <;> exact inside

theorem chunkDataAlmostDone_ways (forward : p ≤ f.p) (inside : f.p < len) :
    Ways handler Calm len p state (chunkDataAlmostDone f ch) s := by
  unfold chunkDataAlmostDone
  refine ways_assert (ways_assert ?_)
  split
  · exact ways_error rfl forward (Nat.le_of_lt inside) calm
  · exact (data_asks answers calm).ways (Or.inl rfl) forward inside

theorem chunkDataDone_ways (forward : p ≤ f.p) (inside : f.p < len) :
    Ways handler Calm len p state (chunkDataDone f ch) s := by
  unfold chunkDataDone
  refine ways_assert ?_
  split
  · exact ways_error rfl forward (Nat.le_of_lt inside) calm
  · exact (notify_asks answers (by decide) calm).ways (Or.inl rfl) forward inside

/-! ## The loop -/

/-- A pass, in the state that it begins in. -/
theorem switch_ways (forward : p ≤ f.p) (inside : f.p < data.length) :
    Ways handler Calm data.length p f.parser.state (switch data f ch) s := by
  unfold switch
  split
  case h_1 => exact startRes_ways answers calm forward inside
  case h_2 => exact startReq_ways answers calm forward inside
  case h_3 =>
    split
    · exact resStatusStart_ways answers calm forward inside
    · exact quiet_ways calm forward inside
  case h_4 => exact resStatusStart_ways answers calm forward inside
  case h_5 => exact resStatus_ways answers calm forward inside
  case h_6 => exact reqSpacesBeforeUrl_ways calm forward inside
  case h_7 | h_8 | h_9 | h_10 => exact reqSchema_ways calm forward inside
  case h_11 | h_12 | h_13 | h_14 | h_15 | h_16 | h_17 => exact reqUrl_ways answers calm forward inside
  case h_18 here => exact headerFieldStart_ways answers calm (by rw [here]; decide) forward inside
  case h_19 => exact headerField_ways answers calm forward inside
  case h_20 => exact headerValueDiscardWs_ways calm forward inside
  case h_21 => exact headerValueStart_ways calm forward inside
  case h_22 => exact headerValue_ways answers calm forward inside
  case h_23 here => exact headerValueLws_ways answers calm (by rw [here]; decide) forward inside
  case h_24 here => exact headerValueDiscardLws_ways answers calm (by rw [here]; decide) forward inside
  case h_25 here => exact headersAlmostDone_ways answers calm (by rw [here]; decide) forward inside
  case h_26 => exact headersDone_ways answers calm forward inside
  case h_27 => exact chunkSizeStart_ways calm forward inside
  case h_28 => exact chunkSize_ways calm forward inside
  case h_29 => exact chunkParameters_ways calm forward inside
  case h_30 => exact chunkSizeAlmostDone_ways answers calm forward inside
  case h_31 => exact chunkData_ways calm forward inside
  case h_32 => exact chunkDataAlmostDone_ways answers calm forward inside
  case h_33 => exact chunkDataDone_ways answers calm forward inside
  case h_34 => exact bodyIdentity_ways answers calm forward inside
  case h_35 =>
    refine ways_next ?_ ?_ calm
    · show p ≤ data.length - 1
      omega
    · show data.length - 1 < _
      omega
  case h_36 => exact messageDone_ways answers calm forward inside
  case h_37 => exact quiet_ways calm forward inside

theorem iteration_ways (forward : p ≤ f.p) (inside : f.p < data.length) :
    Ways handler Calm data.length p f.parser.state (iteration data f ch) s := by
  unfold iteration
  split
  · refine ways_count forward (Nat.le_of_lt inside) calm ?_
    exact @switch_ways _ _ _ _ _ { f with parser := f.parser.counted 1 } _ _ answers calm forward inside
  · exact switch_ways answers calm forward inside

/-- An element that the data ends in is reported at its end. -/
theorem report_exits {element : DataCallback} {after : Frame → Run Frame} (further : p < f.p) (inside : f.p ≤ len)
    (going : ∀ f' s', f'.p = f.p → f'.parser.httpErrno = .ok → Calm s' →
      Leads handler (Exits handler Calm len p state) (after f') s') :
    Leads handler (Exits handler Calm len p state)
      (callbackDataNoAdvance element f >>= after) s :=
  (data_asks answers calm).bind (Or.inr ⟨further, inside⟩) (fun _ _ _ returned consumes => ⟨returned, consumes⟩) going

theorem leftover_exits (further : p < f.p) (inside : f.p ≤ data.length) :
    Leads handler (Exits handler Calm data.length p state) (leftover data f) s := by
  unfold leftover cAssert
  split
  · refine report_exits answers calm further inside fun f₁ s₁ here₁ _ calm₁ => ?_
    refine report_exits answers calm₁ (by omega) (by omega) fun f₂ s₂ here₂ _ calm₂ => ?_
    refine report_exits answers calm₂ (by omega) (by omega) fun f₃ s₃ here₃ _ calm₃ => ?_
    refine report_exits answers calm₃ (by omega) (by omega) fun f₄ s₄ here₄ _ calm₄ => ?_
    refine report_exits answers calm₄ (by omega) (by omega) fun f₅ s₅ here₅ clear calm₅ => ?_
    refine ⟨.ran calm₅ clear, Nat.le_refl _, ?_, fun same => ?_⟩ <;> omega
  · exact trivial

end States

/-- The rest of a call, by induction on the fuel. The first byte is the only one that a
call may leave where it is. -/
theorem loop_exits (answers : Answers handler Calm) (fuel : Nat) (calm : Calm s) (inside : f.p ≤ data.length)
    (first : 0 < f.p ∨ 0 < fuel ∧ 0 < data.length ∧ f.parser.state = state) :
    Leads handler (Exits handler Calm data.length 0 state) (loop data fuel f) s := by
  induction fuel generalizing f s with
  | zero =>
    have further : 0 < f.p := first.resolve_right fun more => absurd more.1 (Nat.lt_irrefl 0)
    exact leftover_exits answers calm further inside
  | succ fuel ih =>
    rw [loop]
    split
    · next ended =>
      have ended := List.getElem?_eq_none_iff.mp ended
      have further : 0 < f.p := by
        rcases first with further | ⟨-, some_data, -⟩ <;> omega
      exact leftover_exits answers calm further inside
    · next ch here =>
      have within : f.p < data.length := (List.getElem?_eq_some_iff.mp here).1
      refine Leads.bind (iteration_ways answers calm (Nat.le_refl f.p) within) (fun f' s' ends => ?_)
        fun n parser s' ends => ?_
      · obtain ⟨⟨-, below⟩, calm'⟩ := ends
        exact ih calm' below (Or.inl (Nat.succ_pos _))
      · obtain ⟨returned, consumes⟩ := ends
        refine ⟨returned, consumes.inside, Nat.zero_le n, fun none => ?_⟩
        have forward := consumes.forward
        have start : f.p = 0 := by omega
        have same := (first.resolve_left (by omega)).2.2
        rw [← same]
        exact consumes.progress (none.trans start.symm)

theorem entryFrame_keeps (parser : HttpParser) : (entryFrame parser).p = 0 ∧ (entryFrame parser).parser = parser := by
  unfold entryFrame
  split
  · next callback _ =>
    unfold Frame.mark
    dsimp only
    split <;> exact ⟨rfl, rfl⟩
  · exact ⟨rfl, rfl⟩

/-- A call that is given bytes. -/
theorem execute_heeds (answers : Answers handler Calm) {parser : HttpParser} (calm : Calm s) (clear : parser.httpErrno = .ok)
    (some_data : data ≠ []) :
    Program.Heeds handler (fun reply => reply.code = -1) (fun _ => True)
      (fun done s => Returned handler Calm done.2.httpErrno s ∧ Consumes data.length 0 parser.state done.1 done.2)
      (execute parser data) s := by
  have length := List.length_pos_iff.mpr some_data
  have exits : Leads handler (Exits handler Calm data.length 0 parser.state) (loop data data.length (entryFrame parser)) s := by
    apply loop_exits answers _ calm
    · rw [(entryFrame_keeps parser).1]
      exact Nat.zero_le _
    · exact Or.inr ⟨length, length, by rw [(entryFrame_keeps parser).2]⟩
  unfold execute
  rw [if_neg (by simp [clear]), if_neg some_data]
  refine Program.Heeds.bind exits (fun flow leaves => ?_) fun flow s₁ ends => ?_
  · obtain ⟨n, next, rfl⟩ := leaves
    exact ⟨(n, next), rfl, trivial⟩
  · cases flow with
    | next f' => exact ends.elim
    | exit n next => exact ends

/-- How it returns. -/
theorem execute_returns (answers : Answers handler Calm) {parser parser' : HttpParser} {s' : σ} {n : Nat} (calm : Calm s)
    (clear : parser.httpErrno = .ok) (some_data : data ≠ [])
    (ran : (execute parser data).run handler s = .ok ((n, parser'), s')) :
    Returned handler Calm parser'.httpErrno s' ∧ Consumes data.length 0 parser.state n parser' :=
  (execute_heeds answers calm clear some_data).result ran

/-- A callback that fails is its last one. -/
theorem execute_fails (answers : Answers handler Calm) {parser : HttpParser} (calm : Calm s) (clear : parser.httpErrno = .ok)
    (some_data : data ≠ []) {e : Callback × σ} (asked : e ∈ (execute parser data).asked handler s) {reply : Reply} {s' : σ}
    (answered : handler e.1 e.2 = .ok (reply, s')) (failed : reply.code = -1) :
    ∃ n parser', (execute parser data).run handler s = .ok ((n, parser'), s') := by
  obtain ⟨done, ran⟩ := (execute_heeds answers calm clear some_data).last asked answered failed
  exact ⟨done.1, done.2, ran⟩

end LibNekit.Source.HttpParser
