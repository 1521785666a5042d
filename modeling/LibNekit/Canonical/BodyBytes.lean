import LibNekit.Canonical.Bodies

/-!
# The bytes of a body

The parser passes as much of a body at once as the slice holds, the reader one byte after
the other. Both come to the same.
-/
namespace LibNekit.Canonical

open LibNekit.Source LibNekit.Source.Rewriter LibNekit.Source.HttpParser LibNekit.Library

variable {δ : Type}

/-! ## The reader on a piece of a body -/

namespace Reader

variable {setup : Setup} {l l' last : Reader} {c : UInt8} {first events : List Event} {piece rest : Bytes}

/-- The states that pass a body whose length is known. -/
def counts : ParserState → Prop
  | .bodyIdentity | .chunkData => True
  | _ => False

/-- The reader, with `n` bytes of the body behind it. -/
def less (l : Reader) (n : Nat) : Reader :=
  { l with parser := { l.parser with contentLength := l.parser.contentLength - n } }

theorem step_body (phase : l.phase = .body) (stepped : l.step setup c = some (l', first)) :
    readBody l.parser c = some (l'.parser, l'.phase, first) ∧ l'.count = l.countAfter := by
  obtain ⟨read, count⟩ := step_read (by rw [phase]; nofun) stepped
  rw [phase] at read
  exact ⟨read, count⟩

theorem countAfter_counts (phase : l.phase = .body) (state : counts l.parser.state) :
    l.countAfter = l.count := by
  unfold countAfter
  rw [if_neg (by rw [phase]; nofun)]
  revert state
  cases l.parser.state <;> simp [counts, resets, ParserState.parsingHeader]

/-- The parser with one byte less to come. -/
def lessOne (parser : HttpParser) : HttpParser :=
  { parser with contentLength := parser.contentLength - 1 }

theorem readBody_identity {parser : HttpParser} (state : parser.state = .bodyIdentity) :
    readBody parser c =
      if parser.contentLength = 0 ∨ parser.contentLength = ullongMax then none
      else if (lessOne parser).contentLength = 0 then some (completeWith c (lessOne parser))
      else some (lessOne parser, .body, [.raw [c], .settled]) := by
  unfold readBody
  dsimp only
  split
  · rfl
  · exact absurd (state.symm.trans ‹_›) (by decide)
  · exact absurd state ‹_›

theorem readBody_chunked {parser : HttpParser} (identity : parser.state ≠ .bodyIdentity)
    (eof : parser.state ≠ .bodyIdentityEof) :
    readBody parser c = if parser.flags.chunked then readChunked parser c else none := by
  unfold readBody
  dsimp only
  split
  · exact absurd ‹_› identity
  · exact absurd ‹_› eof
  · rfl

theorem readChunked_data {parser : HttpParser} (state : parser.state = .chunkData) :
    readChunked parser c =
      if parser.contentLength = 0 ∨ parser.contentLength = ullongMax then none
      else some (if (lessOne parser).contentLength = 0 then (lessOne parser).goTo .chunkDataAlmostDone
        else lessOne parser, .body, [.raw [c], .settled]) := by
  unfold readChunked
  dsimp only
  split
  all_goals first
    | exact absurd (state.symm.trans ‹_›) (by decide)
    | exact absurd state (by assumption)
    | rfl

/-- A byte of a body whose length is known. -/
theorem step_counts (phase : l.phase = .body) (state : counts l.parser.state)
    (stepped : l.step setup c = some (l', first)) :
    l'.count = l.count ∧ 0 < l.parser.contentLength ∧ l.parser.contentLength ≠ ullongMax ∧
      (l.parser.state = .chunkData → l.parser.flags.chunked = true) ∧
      (l'.parser, l'.phase, first) =
        if 1 < l.parser.contentLength then (lessOne l.parser, .body, [.raw [c], .settled])
        else if l.parser.state = .bodyIdentity then completeWith c (lessOne l.parser)
        else ((lessOne l.parser).goTo .chunkDataAlmostDone, .body, [.raw [c], .settled]) := by
  obtain ⟨read, count⟩ := step_body phase stepped
  refine ⟨count.trans (countAfter_counts phase state), ?_⟩
  have last : (lessOne l.parser).contentLength = l.parser.contentLength - 1 := rfl
  cases is : l.parser.state <;> rw [is] at state <;> try exact state.elim
  · rw [readBody_chunked (by rw [is]; decide) (by rw [is]; decide)] at read
    split at read
    · rename_i chunked
      rw [readChunked_data is] at read
      split at read
      · cases read
      · rename_i some_left
        rw [not_or] at some_left
        refine ⟨Nat.pos_of_ne_zero some_left.1, some_left.2, fun _ => chunked, ?_⟩
        rw [← Option.some.inj read]
        by_cases more : 1 < l.parser.contentLength
        · rw [if_pos more, if_neg (by omega)]
        · rw [if_neg more, if_pos (by omega), if_neg (by decide)]
    · cases read
  · rw [readBody_identity is] at read
    split at read
    · cases read
    · rename_i some_left
      rw [not_or] at some_left
      refine ⟨Nat.pos_of_ne_zero some_left.1, some_left.2, nofun, ?_⟩
      split at read <;> rw [← Option.some.inj read]
      · rw [if_neg (by omega), if_pos rfl]
      · rw [if_pos (by omega)]

/-- A byte in the middle of a body. -/
theorem step_less (phase : l.phase = .body) (state : counts l.parser.state)
    (many : 1 < l.parser.contentLength) (stepped : l.step setup c = some (l', first)) :
    l' = l.less 1 ∧ first = [.raw [c], .settled] := by
  obtain ⟨count, -, -, -, read⟩ := step_counts phase state stepped
  rw [if_pos many] at read
  obtain ⟨parser, phase', n⟩ := l'
  cases read
  cases count
  exact ⟨by simp [less, phase], rfl⟩

theorem run_less (phase : l.phase = .body) (state : counts l.parser.state)
    (short : piece.length < l.parser.contentLength) (ran : run setup l piece = some (l', events)) :
    l' = l.less piece.length ∧ events = passing piece := by
  induction piece generalizing l events with
  | nil =>
    cases ran
    exact ⟨rfl, rfl⟩
  | cons c piece ih =>
    rw [List.length_cons] at short
    obtain ⟨next, first, more, stepped, ranMore, rfl⟩ := run_cons_some ran
    obtain ⟨rfl, rfl⟩ := step_less phase state (by omega) stepped
    obtain ⟨rfl, rfl⟩ := @ih (l.less 1) more phase state
      (by show _ < l.parser.contentLength - 1; omega) ranMore
    refine ⟨?_, rfl⟩
    unfold less
    dsimp only
    rw [List.length_cons, Nat.sub_sub, Nat.add_comm 1]

/-- Nothing is refused in a body whose length is known. -/
theorem step_identity (phase : l.phase = .body) (state : l.parser.state = .bodyIdentity) {next : HttpParser} {phase' : Phase}
    (read : readBody l.parser c = some (next, phase', events)) :
    l.step setup c = some (⟨next, phase', l.count⟩, events) := by
  have reads : ¬l.refuses setup c = true := by
    simp [refuses, full, plain, phase, state, ParserState.parsingHeader]
  unfold step
  rw [if_neg reads, phase]
  dsimp only
  unfold readByte
  rw [phase]
  show (readBody l.parser c).map _ = _
  rw [read, countAfter_counts phase (by rw [state]; trivial)]
  rfl

theorem run_identity (phase : l.phase = .body) (state : l.parser.state = .bodyIdentity)
    (short : piece.length < l.parser.contentLength) (known : l.parser.contentLength < ullongMax) :
    run setup l piece = some (l.less piece.length, passing piece) := by
  induction piece generalizing l with
  | nil => rfl
  | cons c piece ih =>
    rw [List.length_cons] at short
    have read : readBody l.parser c = some (lessOne l.parser, .body, [.raw [c], .settled]) := by
      rw [readBody_identity state, if_neg (by omega), if_neg (by show ¬l.parser.contentLength - 1 = 0; omega)]
    have stepped : l.step setup c = some (l.less 1, [.raw [c], .settled]) := by
      rw [step_identity phase state read, ← phase]
      rfl
    rw [run_cons, stepped, Option.bind_some, @ih (l.less 1) phase state (by show _ < l.parser.contentLength - 1; omega)
      (by show l.parser.contentLength - 1 < _; omega)]
    simp only [Option.map_some, less, List.length_cons, passing_cons, List.cons_append, List.nil_append, Nat.sub_sub,
      Nat.add_comm 1]

/-- The last byte of a message. -/
theorem run_identity_last (phase : l.phase = .body) (state : l.parser.state = .bodyIdentity)
    (one : l.parser.contentLength = 1) (stays : l.parser.upgrade = false) :
    ∃ l', run setup l [c] = some (l', [.raw [c], .settled, .messageComplete false]) ∧ l'.phase = .idle := by
  have read : readBody l.parser c = some ((lessOne l.parser).goTo (lessOne l.parser).newMessage, .idle,
      [.raw [c], .settled, .messageComplete false]) := by
    have stays : (lessOne l.parser).upgrade = false := stays
    rw [readBody_identity state, one, if_neg (by decide), if_pos (by show l.parser.contentLength - 1 = 0; omega)]
    simp [completeWith, complete, stays]
  refine ⟨⟨(lessOne l.parser).goTo (lessOne l.parser).newMessage, .idle, l.count⟩, ?_, rfl⟩
  rw [run_cons, step_identity phase state read]
  rfl

/-- What is behind the last byte of a body of known length. -/
def afterCounted (parser : HttpParser) : HttpParser × Phase × List Event :=
  if parser.state = .bodyIdentity then
    ((complete parser).1, (complete parser).2.1, [.messageComplete parser.upgrade])
  else (parser.goTo .chunkDataAlmostDone, .body, [])

theorem run_counts (phase : l.phase = .body) (state : counts l.parser.state)
    (all : piece.length = l.parser.contentLength) (some_bytes : piece ≠ [])
    (ran : run setup l (piece ++ rest) = some (last, events)) :
    ∃ l' first more, run setup l piece = some (l', first) ∧ run setup l' rest = some (last, more) ∧
      l'.count = l.count ∧ events = passing piece ++ (afterCounted (l.less piece.length).parser).2.2 ++ more ∧
      l'.parser = (afterCounted (l.less piece.length).parser).1 ∧
      l'.phase = (afterCounted (l.less piece.length).parser).2.1 := by
  obtain ⟨l', first, more, ranPiece, ranRest, rfl⟩ := run_append_some ran
  refine ⟨l', first, more, ranPiece, ranRest, ?_⟩
  rw [← List.dropLast_append_getLast some_bytes] at all ranPiece ⊢
  generalize piece.dropLast = front at *
  generalize piece.getLast some_bytes = c at *
  rw [List.length_append, List.length_singleton] at all
  obtain ⟨middle, passed, ended, ranFront, ranLast, rfl⟩ := run_append_some ranPiece
  obtain ⟨rfl, rfl⟩ := run_less phase state (by omega) ranFront
  obtain ⟨next, single, none, stepped, ranNone, rfl⟩ := run_cons_some ranLast
  cases ranNone
  obtain ⟨count, -, -, -, read⟩ := @step_counts _ (l.less front.length) l' c single phase state stepped
  have one : l.parser.contentLength - front.length = 1 := by omega
  have same : lessOne (l.less front.length).parser = (l.less (front ++ [c]).length).parser := by
    unfold lessOne less
    dsimp only
    rw [List.length_append, List.length_singleton, Nat.sub_sub]
  rw [if_neg (by show ¬1 < l.parser.contentLength - front.length; omega), same] at read
  refine ⟨count, ?_⟩
  unfold afterCounted
  split at read
  · rename_i identity
    rw [if_pos (by exact identity)]
    simp only [completeWith, complete, Prod.mk.injEq] at read
    obtain ⟨parser, phase', rfl⟩ := read
    refine ⟨?_, parser, phase'⟩
    rw [passing_append]
    simp [passing]
  · rename_i data
    rw [if_neg (by exact data)]
    simp only [Prod.mk.injEq] at read
    obtain ⟨parser, phase', rfl⟩ := read
    refine ⟨?_, parser, phase'⟩
    rw [passing_append]
    simp [passing]

end Reader

/-! ## The parser on a piece of a body -/

section Passing

variable {data : Bytes} {parser : HttpParser} {p n nread : Nat} {c : UInt8}

theorem cAssert_bind {α : Type} {condition : Prop} [Decidable condition] (holds : condition)
    (f : Unit → Run α) : (cAssert condition >>= f) = f () := by
  unfold cAssert
  rw [if_pos holds]
  rfl

/-- Without a byte of a header block nothing is counted. -/
theorem Feeds.plain {σ : Type} {handler : Callback → σ → Checked (Reply × σ)} {marks : Marks} {s : σ}
    {Post : Nat → HttpParser → σ → Prop} {Bad : Prop} (here : data[p]? = some c)
    (body : parser.state.parsingHeader = false)
    (rest : Outcome ((switch data ⟨p, parser.counting nread, marks⟩ c).under handler s)
      (Goes handler data p Post Bad) Bad) :
    Feeds handler data ⟨p, parser.counting nread, marks⟩ s Post Bad := by
  refine Feeds.pass here ?_
  unfold iteration
  rw [if_neg (by simpa using body)]
  exact rest

/-- The frame behind `n` bytes of a body that begin at `p`. -/
def bodyFrame (p n nread : Nat) (parser : HttpParser) : Frame :=
  ⟨p + n - 1, HttpParser.counting { parser with contentLength := parser.contentLength - n } nread,
    Function.update (fun _ => none) .body (some p)⟩

theorem readBody_eq (toRead : n = min parser.contentLength (data.length - p)) :
    readBody data ⟨p, parser.counting nread, fun _ => none⟩ = bodyFrame p n nread parser := by
  subst toRead
  rfl

theorem switch_identity (state : parser.state = .bodyIdentity)
    (some_left : parser.contentLength ≠ 0 ∧ parser.contentLength ≠ ullongMax)
    (toRead : n = min parser.contentLength (data.length - p)) :
    switch data ⟨p, parser.counting nread, fun _ => none⟩ c =
      if parser.contentLength - n = 0 then
        callbackDataTo .body (p + n - 1 + 1) (p + n - 1) ((bodyFrame p n nread parser).goTo .messageDone) >>=
          messageDone
      else Run.next (bodyFrame p n nread parser) := by
  unfold switch
  simp only [counting_state, state]
  unfold bodyIdentity
  rw [readBody_eq toRead]
  exact cAssert_bind some_left _

theorem switch_chunkData (state : parser.state = .chunkData) (chunked : parser.flags.chunked = true)
    (some_left : parser.contentLength ≠ 0 ∧ parser.contentLength ≠ ullongMax)
    (toRead : n = min parser.contentLength (data.length - p)) :
    switch data ⟨p, parser.counting nread, fun _ => none⟩ c =
      Run.next (if parser.contentLength - n = 0 then (bodyFrame p n nread parser).goTo .chunkDataAlmostDone
        else bodyFrame p n nread parser) := by
  unfold switch
  simp only [counting_state, state]
  unfold chunkData
  rw [readBody_eq toRead]
  exact (cAssert_bind chunked _).trans (cAssert_bind some_left _)

theorem switch_eof (state : parser.state = .bodyIdentityEof) :
    switch data ⟨p, parser.counting nread, fun _ => none⟩ c =
      Run.next ⟨data.length - 1, parser.counting nread, Function.update (fun _ => none) .body (some p)⟩ := by
  unfold switch
  simp only [counting_state, state]
  rfl

/-- The CR behind the data of a chunk. -/
theorem switch_chunkDataAlmostDone {marks : Marks} (state : parser.state = .chunkDataAlmostDone)
    (chunked : parser.flags.chunked = true) (none_left : parser.contentLength = 0) :
    switch data ⟨p, parser.counting nread, marks⟩ cr =
      callbackDataTo .body p (p + 1) ⟨p, (parser.goTo .chunkDataDone).counting nread, marks⟩ := by
  unfold switch
  simp only [counting_state, state]
  unfold chunkDataAlmostDone
  exact (cAssert_bind chunked _).trans (cAssert_bind none_left _)

end Passing

namespace Context

variable {x : Context δ} {already : Bool} {g : Draft δ} {events : List Event} {last l l' : Reader}
  {r : RewriterImpl} {p start nread : Nat} {piece rest : Bytes} {c : UInt8}

/-- The slice ends in a piece of a body that is marked. -/
theorem body_stops (ready : x.Ready true g events last l { r with setToken := true } p nread)
    (phase : l.phase = .body) (used : p = x.data.length) (moved : 0 < p) (start : Nat) :
    Feeds x.handler x.data ⟨p, l.parser.counting nread, Function.update (fun _ => none) .body (some start)⟩
      (r, g.delegate) (x.Left true g events last) False := by
  have clear : l.parser.httpErrno = .ok := ready.sound.meets.clear
  refine Feeds.report used clear rfl ?_
  rw [onBody_marks, Outcome.ok]
  rw [show ((l.parser.counting nread).setErrno (({} : Reply).errno (.cbData .body))) =
    l.parser.counting nread from setErrno_clear clear, ← used]
  exact ready.stops (Or.inr phase) ⟨nread, ready.few, Or.inl rfl⟩ used moved

/-- Behind a byte that belongs to nothing. -/
theorem Ready.resumesRaw {more : List Event} {nread' : Nat}
    (ready : x.Ready already g (.raw [c] :: more) last l r p nread) (left : x.data.drop p = c :: rest)
    (phase : l.phase = .body) (phase' : l'.phase = .body) (sound : l'.Sound x.setup)
    (ran : Reader.run x.setup l' rest = some (last, more)) (few : nread' ≤ 2 * l'.count)
    (ih : x.Continues last (p + 1)) :
    x.Resumes already g (.raw [c] :: more) last l' r (p + 1) nread' fun _ => none := by
  have next := ready.raw left (by rw [phase]; rfl) (Or.inr phase') (by rw [phase', phase]) sound ran few
  have resumes := ih _ _ _ _ _ _ _ (Nat.le_refl _) next (by rw [phase']; rfl)
  rw [show already = (already || decide (Event.settled ∈ [Event.raw [c]])) by simp] at resumes
  exact resumes.before ⟨⟨g.out ++ [c], g.delegate⟩, rfl, rfl⟩ (by simp [Event.passive])

/-- Behind a piece of a body that has been reported. -/
theorem Ready.resumesPassed {more : List Event} {nread' : Nat}
    (ready : x.Ready already g (passing piece ++ more) last l r p nread)
    (left : x.data.drop p = piece ++ rest) (some_bytes : piece ≠ []) (phase : l.phase = .body)
    (phase' : l'.phase = .body) (sound : l'.Sound x.setup)
    (ran : Reader.run x.setup l' rest = some (last, more)) (few : nread' ≤ 2 * l'.count)
    (ih : x.Continues last (p + 1)) :
    x.Resumes already g (passing piece ++ more) last l' { r with setToken := true } (p + piece.length) nread'
      fun _ => none := by
  have positive := List.length_pos_of_ne_nil some_bytes
  have next := ready.passed left (by rw [phase]; rfl) (Or.inr phase') (by rw [phase', phase]) sound ran few
  have resumes := ih _ _ _ _ _ _ _ (by omega) next (by rw [phase']; rfl)
  have settles : (already || decide (Event.settled ∈ passing piece)) = true := by
    simp [settled_mem_passing some_bytes]
  exact Resumes.before (settles ▸ resumes) (performs_passing x.acts piece g) passing_passive

/-! ## Chunks -/

/-- What a byte between the data of two chunks does. -/
inductive ChunkByte (parser : HttpParser) (c : UInt8) : HttpParser → Phase → List Event → Prop
  | quiet {next : HttpParser} (resets : Reader.resets parser.state = false)
      (passes : ∀ data p n, (parser.state = .chunkSizeStart → n = 1) →
        switch data ⟨p, parser.counting n, fun _ => none⟩ c = Run.next ⟨p, next.counting n, fun _ => none⟩) :
      ChunkByte parser c next .body [.raw [c]]
  | tells {next : HttpParser} (callback : NotifyCallback) (resets : Reader.resets parser.state = true)
      (chunk : callback = .chunkHeader ∨ callback = .chunkComplete)
      (passes : ∀ data p n, switch data ⟨p, parser.counting n, fun _ => none⟩ c =
        callbackNotify callback (p + 1) ⟨p, next.counting 0, fun _ => none⟩) :
      ChunkByte parser c next .body [.raw [c], .settled]
  | ends (passes : ∀ data p n, switch data ⟨p, parser.counting n, fun _ => none⟩ c =
        callbackNotify .chunkComplete p ⟨p, (parser.goTo .messageDone).counting n, fun _ => none⟩ >>=
          messageDone) (header : parser.state.parsingHeader = true) (resets : Reader.resets parser.state = false) :
      ChunkByte parser c (Reader.complete parser).1 (Reader.complete parser).2.1
        [.raw [c], .settled, .messageComplete parser.upgrade]
  | dataEnds (state : parser.state = .chunkDataAlmostDone)
      (passes : ∀ data p n marks, switch data ⟨p, parser.counting n, marks⟩ c =
        callbackDataTo .body p (p + 1) ⟨p, (parser.goTo .chunkDataDone).counting n, marks⟩) :
      ChunkByte parser c (parser.goTo .chunkDataDone) .body [.raw [c]]

theorem trailer_ends {data : Bytes} {parser : HttpParser} {n : Nat}
    (state : parser.state = .headersAlmostDone ∨ parser.state = .headerFieldStart)
    (trailing : parser.flags.trailing = true) :
    switch data ⟨p, parser.counting n, fun _ => none⟩ lf =
      callbackNotify .chunkComplete p ⟨p, (parser.goTo .messageDone).counting n, fun _ => none⟩ >>=
        messageDone := by
  have ends : ∀ parser : HttpParser, parser.flags.trailing = true →
      headersAlmostDone ⟨p, parser.counting n, fun _ => none⟩ lf =
        callbackNotify .chunkComplete p ⟨p, (parser.goTo .messageDone).counting n, fun _ => none⟩ >>=
          messageDone := by
    intro parser trailing
    unfold headersAlmostDone
    rw [if_neg (not_not_intro rfl)]
    exact if_pos trailing
  unfold switch
  simp only [counting_state]
  rcases state with state | state <;> rw [state]
  · exact ends parser trailing
  · exact ends (parser.goTo .headersAlmostDone) trailing

theorem readChunked_byte {parser next : HttpParser} {phase : Phase} {first : List Event}
    (notData : parser.state ≠ .chunkData) (chunked : parser.flags.chunked = true)
    (read : Reader.readChunked parser c = some (next, phase, first)) :
    ChunkByte parser c next phase first := by
  unfold Reader.readChunked at read
  dsimp only at read
  split at read
  · rename_i state
    obtain ⟨value, hex, same⟩ := Option.bind_eq_some_iff.mp read
    cases same
    refine .quiet (by rw [state]; rfl) fun data p n one => ?_
    unfold switch
    simp only [counting_state, state]
    unfold chunkSizeStart
    refine (cAssert_bind (one state) _).trans ((cAssert_bind chunked _).trans ?_)
    rw [hex]
    rfl
  · rename_i state
    unfold Reader.readChunkSize at read
    dsimp only at read
    have goes : ∀ data p n, switch data ⟨p, parser.counting n, fun _ => none⟩ c =
        chunkSize ⟨p, parser.counting n, fun _ => none⟩ c := by
      intro data p n
      unfold switch
      simp only [counting_state, state]
    split at read
    · rename_i isCr
      cases read
      refine .quiet (by rw [state]; rfl) fun data p n _ => (goes data p n).trans ?_
      unfold chunkSize
      refine (cAssert_bind chunked _).trans ?_
      rw [if_pos isCr]
      rfl
    · rename_i notCr
      split at read
      · rename_i value hex
        split at read
        · cases read
        · rename_i fits
          cases read
          refine .quiet (by rw [state]; rfl) fun data p n _ => (goes data p n).trans ?_
          unfold chunkSize
          refine (cAssert_bind chunked _).trans ?_
          rw [if_neg notCr, hex]
          exact if_neg fits
      · rename_i hex
        split at read
        · rename_i ends
          cases read
          refine .quiet (by rw [state]; rfl) fun data p n _ => (goes data p n).trans ?_
          unfold chunkSize
          refine (cAssert_bind chunked _).trans ?_
          rw [if_neg notCr, hex]
          exact if_pos ends
        · cases read
  · rename_i state
    cases read
    refine .quiet (by rw [state]; rfl) fun data p n _ => ?_
    unfold switch
    simp only [counting_state, state]
    unfold chunkParameters
    refine (cAssert_bind chunked _).trans ?_
    by_cases isCr : c = cr <;> simp only [isCr, if_true, if_false] <;> rfl
  · rename_i state
    have goes : ∀ data p n, switch data ⟨p, parser.counting n, fun _ => none⟩ c =
        chunkSizeAlmostDone ⟨p, parser.counting n, fun _ => none⟩ c := by
      intro data p n
      unfold switch
      simp only [counting_state, state]
    have resets : Reader.resets parser.state = true := by rw [state]; rfl
    split at read
    · cases read
    · rename_i isLf
      split at read
      · rename_i none_left
        cases read
        refine .tells .chunkHeader resets (Or.inl rfl) fun data p n => (goes data p n).trans ?_
        unfold chunkSizeAlmostDone
        refine (cAssert_bind chunked _).trans ?_
        rw [if_neg isLf]
        dsimp only
        rw [if_pos (show (parser.counting n).contentLength = 0 from none_left)]
        rfl
      · rename_i some_left
        cases read
        refine .tells .chunkHeader resets (Or.inl rfl) fun data p n => (goes data p n).trans ?_
        unfold chunkSizeAlmostDone
        refine (cAssert_bind chunked _).trans ?_
        rw [if_neg isLf]
        dsimp only
        rw [if_neg (show ¬(parser.counting n).contentLength = 0 from some_left)]
        rfl
  · exact absurd ‹_› notData
  · rename_i state
    split at read
    · rename_i ends
      cases read
      obtain ⟨rfl, none_left⟩ := ends
      exact .dataEnds state fun data p n marks => switch_chunkDataAlmostDone state chunked none_left
    · cases read
  · rename_i state
    split at read
    · rename_i isLf
      cases read
      refine .tells .chunkComplete (by rw [state]; rfl) (Or.inr rfl) fun data p n => ?_
      unfold switch
      simp only [counting_state, state]
      unfold chunkDataDone
      refine (cAssert_bind chunked _).trans ?_
      rw [if_neg (not_not_intro isLf)]
      rfl
    · cases read
  · rename_i state
    split at read
    · cases read
    · rename_i trailing
      have trailing := Decidable.of_not_not trailing
      split at read
      · rename_i isCr
        cases read
        refine .quiet (by rw [state]; rfl) fun data p n _ => ?_
        unfold switch
        simp only [counting_state, state]
        unfold headerFieldStart
        rw [if_pos isCr]
        rfl
      · split at read
        · rename_i isLf
          subst isLf
          cases read
          exact .ends (fun data p n => trailer_ends (Or.inr state) trailing) (by rw [state]; rfl)
            (by rw [state]; rfl)
        · cases read
  · rename_i state
    split at read
    · rename_i ends
      cases read
      obtain ⟨rfl, trailing⟩ := ends
      exact .ends (fun data p n => trailer_ends (Or.inl state) trailing) (by rw [state]; rfl)
        (by rw [state]; rfl)
    · cases read
  · cases read

/-- A byte of a body is passed, and counted where the parser counts. -/
theorem Ready.pass (lawful : x.Lawful) (ready : x.Ready already g events last l r p nread)
    (left : x.data.drop p = c :: rest)
    (goes : ∀ n, n = nread + (if l.parser.state.parsingHeader then 1 else 0) →
      Outcome ((switch x.data ⟨p, l.parser.counting n, fun _ => none⟩ c).under x.handler (r, g.delegate))
        (Goes x.handler x.data p (x.Left already g events last) False) False) :
    x.Resumes already g events last l r p nread fun _ => none := by
  by_cases header : l.parser.state.parsingHeader = true
  · refine Feeds.header (here_of_drop left) header ready.few (ready.few_bytes lawful)
      (fun long => left_overflow lawful ready.sound long ready.stands.calm.processMessageComplete) ?_
    exact goes _ (by rw [if_pos header])
  · exact Feeds.plain (here_of_drop left) (by simpa using header) (goes _ (by rw [if_neg header]; rfl))

theorem under_chunk {callback : NotifyCallback} {er : Nat} {parser : HttpParser} {marks : Marks}
    (chunk : callback = .chunkHeader ∨ callback = .chunkComplete) (clear : parser.httpErrno = .ok)
    (state : r.state = .body) (next : Frame → Run Frame) (d : δ) :
    (callbackNotify callback er ⟨p, parser, marks⟩ >>= next).under x.handler (r, d) =
      (next ⟨p, parser, marks⟩).under x.handler ({ r with setToken := true }, d) := by
  have answered : x.handler (.notify callback) (r, d) = .ok ({}, { r with setToken := true }, d) := by
    rcases chunk with rfl | rfl
    · exact (onChunk_marks state d).1
    · exact (onChunk_marks state d).2
  have same : parser.setErrno (({} : Reply).errno (.cbNotify callback)) = parser := setErrno_clear clear
  unfold callbackNotify
  rw [if_neg (not_not_intro clear), Run.ask_bind, under_ask answered]
  dsimp only
  rw [same, if_neg (not_not_intro clear)]
  rfl

theorem count_kept (resets : Reader.resets l.parser.state = false) (phase : l.phase = .body)
    (few : nread ≤ 2 * l.count) :
    nread + (if l.parser.state.parsingHeader then 1 else 0) ≤ 2 * l.countAfter := by
  have same : l.countAfter = if l.parser.state.parsingHeader then l.count + 1 else l.count := by
    unfold Reader.countAfter
    rw [if_neg (by rw [phase]; nofun), if_neg (by simp [resets])]
  rw [same]
  split_ifs <;> omega

theorem feeds_chunk (lawful : x.Lawful) (ready : x.Ready already g events last l r p nread)
    (phase : l.phase = .body) (notData : l.parser.state ≠ .chunkData)
    (notIdentity : l.parser.state ≠ .bodyIdentity) (notEof : l.parser.state ≠ .bodyIdentityEof)
    (left : x.data.drop p = c :: rest) (ih : x.Continues last (p + 1)) :
    x.Resumes already g events last l r p nread fun _ => none := by
  obtain ⟨l', first, more, stepped, ran, rfl⟩ := Reader.run_cons_some (left ▸ ready.ahead)
  obtain ⟨read, count⟩ := Reader.step_body phase stepped
  have sound := Reader.step_sound ready.sound stepped
  have clear := sound.meets.clear
  have state : r.state = .body := by
    have same := ready.stands.offsets.state
    rwa [phase] at same
  have few := ready.few
  have left' : x.data.drop p = [c] ++ rest := left
  rw [Reader.readBody_chunked notIdentity notEof] at read
  split at read
  · rename_i chunked
    obtain ⟨parser, phase', n'⟩ := l'
    dsimp only at read count
    refine ready.pass lawful left fun n counted => ?_
    have byte := readChunked_byte notData chunked read
    generalize single : first = singles at byte
    cases byte with
    | quiet resets passes =>
      subst single
      have starts : l.parser.state = .chunkSizeStart → n = 1 := fun starts => by
        have zero := ready.sound.chunk phase starts
        rw [counted, starts]
        show nread + 1 = 1
        omega
      rw [passes _ _ _ starts]
      refine ⟨Nat.le_refl _, ready.resumesRaw left phase rfl sound ran ?_ ih⟩
      rw [counted, count]
      exact count_kept resets phase few
    | tells callback resets chunk passes =>
      subst single
      rw [passes, ← bind_next (callbackNotify ..), under_chunk chunk (by exact clear) state]
      exact ⟨Nat.le_refl _, @Ready.resumesPassed _ _ _ _ _ _ _ _ _ _ [c] _ more 0 ready left' nofun phase rfl
        sound ran (Nat.zero_le _) ih⟩
    | ends passes header resets =>
      subst single
      have performed := performs_passing x.acts [c] g
      have tame : x.acts.Tame (passing [c] ++ .messageComplete l.parser.upgrade :: more) g := ready.tame
      have small := (tame.drop performed).small
      have few' : n ≤ 2 * n' := by
        rw [counted, count]
        exact count_kept resets phase few
      rw [passes, under_chunk (Or.inr rfl) (by exact ready.sound.meets.clear) state]
      have stands := (ready.stands.passes (by rw [phase]; rfl) rfl (by rw [phase]) left' small).marked rfl
      exact completes _ stands performed sound rfl rfl few' (behind left ran) (Nat.succ_pos p)
    | dataEnds almost passes =>
      subst single
      have unmarked := @callbackDataTo_unmarked ⟨p, (l.parser.goTo .chunkDataDone).counting n, fun _ => none⟩
        .body (by exact ready.sound.meets.clear) rfl p (p + 1)
      rw [passes, unmarked]
      refine ⟨Nat.le_refl _, ready.resumesRaw left phase rfl sound ran ?_ ih⟩
      rw [counted, count]
      exact count_kept (by rw [almost]; rfl) phase few
  · cases read

/-- The data of a chunk is complete, and still to be reported. -/
theorem feeds_chunkEnd
    (ready : x.Ready true g events last l { r with setToken := true } p nread) (phase : l.phase = .body)
    (state : l.parser.state = .chunkDataAlmostDone) (moved : 0 < p) (start : Nat)
    (ih : x.Continues last (p + 1)) :
    Feeds x.handler x.data ⟨p, l.parser.counting nread, Function.update (fun _ => none) .body (some start)⟩
      (r, g.delegate) (x.Left true g events last) False := by
  have clear : l.parser.httpErrno = .ok := ready.sound.meets.clear
  have few := ready.few
  cases left : x.data.drop p with
  | nil =>
    have used := List.drop_eq_nil_iff.mp left
    exact body_stops ready phase (Nat.le_antisymm ready.stands.inside used) moved start
  | cons c rest =>
    obtain ⟨l', first, more, stepped, ran, rfl⟩ := Reader.run_cons_some (left ▸ ready.ahead)
    obtain ⟨read, count⟩ := Reader.step_body phase stepped
    have sound := Reader.step_sound ready.sound stepped
    rw [Reader.readBody_chunked (by rw [state]; decide) (by rw [state]; decide)] at read
    split at read
    · rename_i chunked
      unfold Reader.readChunked at read
      simp only [state] at read
      split at read
      · rename_i ends
        obtain ⟨rfl, none_left⟩ := ends
        obtain ⟨parser, phase', n'⟩ := l'
        cases read
        refine Feeds.plain (here_of_drop left) (by rw [state]; rfl) ?_
        rw [switch_chunkDataAlmostDone state chunked none_left, callbackDataTo_marked (by exact clear)
          (Function.update_self DataCallback.body (some start) fun _ => none), under_ask (onBody_marks start _ _)]
        refine ⟨Nat.le_refl _, ?_⟩
        dsimp only
        rw [setErrno_clear (by exact clear), unmark]
        refine ready.resumesRaw left phase rfl sound ran ?_ ih
        rw [show n' = _ from count]
        have kept := @count_kept l nread (by rw [state]; rfl) phase few
        rw [state] at kept
        exact kept
      · cases read
    · cases read

/-- A body up to the end of the connection. -/
theorem run_eof {bytes : Bytes} {setup : Setup} (phase : l.phase = .body)
    (state : l.parser.state = .bodyIdentityEof) (ran : Reader.run setup l bytes = some (last, events)) :
    last = l ∧ events = passing bytes := by
  induction bytes generalizing events with
  | nil =>
    cases ran
    exact ⟨rfl, rfl⟩
  | cons c bytes ih =>
    obtain ⟨next, first, more, stepped, ranMore, rfl⟩ := Reader.run_cons_some ran
    obtain ⟨read, count⟩ := Reader.step_body phase stepped
    have same : l.countAfter = l.count := by
      simp [Reader.countAfter, phase, state, Reader.resets, ParserState.parsingHeader]
    rw [same] at count
    unfold Reader.readBody at read
    simp only [state] at read
    obtain ⟨parser, phase', n⟩ := next
    cases read
    cases count
    have here : (⟨l.parser, .body, l.count⟩ : Reader) = l := by rw [← phase]
    rw [here] at ranMore
    obtain ⟨rfl, rfl⟩ := ih ranMore
    exact ⟨rfl, rfl⟩

/-- What is left open at the end of a piece that the parser has passed. -/
theorem Ready.opens {more : List Event} {marks : Marks}
    (ready : x.Ready already g (passing piece ++ more) last l r p nread)
    (left : x.data.drop p = piece ++ rest) (some_bytes : piece ≠ []) (phase : l.phase = .body)
    (phase' : l'.phase = .body) (sound : l'.Sound x.setup)
    (ran : Reader.run x.setup l' rest = some (last, more)) (few : nread ≤ 2 * l'.count)
    (feeds : x.Ready true ⟨g.out ++ piece, g.delegate⟩ more last l' { r with setToken := true }
        (p + piece.length) nread →
      x.Resumes true ⟨g.out ++ piece, g.delegate⟩ more last l' r (p + piece.length) nread marks) :
    x.Resumes already g (passing piece ++ more) last l' r (p + piece.length) nread marks := by
  have next := ready.passed left (by rw [phase]; rfl) (Or.inr phase') (by rw [phase', phase]) sound ran few
  have settles : (already || decide (Event.settled ∈ passing piece)) = true := by
    simp [settled_mem_passing some_bytes]
  exact Resumes.before (settles ▸ feeds next) (performs_passing x.acts piece g) passing_passive

theorem feeds_eof (ready : x.Ready already g events last l r p nread) (phase : l.phase = .body)
    (state : l.parser.state = .bodyIdentityEof) (left : x.data.drop p = c :: rest) :
    x.Resumes already g events last l r p nread fun _ => none := by
  have inside := lt_of_drop left
  have all : x.data.drop p = x.data.drop p ++ [] := (List.append_nil _).symm
  have length : p + (x.data.drop p).length = x.data.length := by rw [List.length_drop]; omega
  obtain ⟨rfl, rfl⟩ := run_eof phase state ready.ahead
  refine Feeds.plain (here_of_drop left) (by rw [state]; rfl) ?_
  rw [switch_eof state]
  refine ⟨by show p ≤ x.data.length - 1; omega, ?_⟩
  have opens := @Ready.opens _ x already g last last last r p nread (x.data.drop p) [] []
    (Function.update (fun _ => none) .body (some p)) (by rw [List.append_nil]; exact ready) all
    (by rw [left]; nofun) phase phase ready.sound rfl ready.few
    fun next => body_stops next phase length (by omega) p
  rw [List.append_nil, length] at opens
  have forward : x.data.length - 1 + 1 = x.data.length := by omega
  dsimp only
  rw [forward]
  exact opens

/-- The slice ends inside a body of known length. -/
theorem feeds_cut (ready : x.Ready already g events last l r p nread) (phase : l.phase = .body)
    (state : Reader.counts l.parser.state) (chunked : l.parser.state = .chunkData → l.parser.flags.chunked = true)
    (some_left : l.parser.contentLength ≠ 0 ∧ l.parser.contentLength ≠ ullongMax)
    (left : x.data.drop p = c :: rest) (more : x.data.length - p < l.parser.contentLength) :
    Outcome ((switch x.data ⟨p, l.parser.counting nread, fun _ => none⟩ c).under x.handler (r, g.delegate))
      (Goes x.handler x.data p (x.Left already g events last) False) False := by
  have inside := lt_of_drop left
  have length : (x.data.drop p).length = x.data.length - p := List.length_drop
  have toRead : x.data.length - p = min l.parser.contentLength (x.data.length - p) := by omega
  have all : x.data.drop p = x.data.drop p ++ [] := (List.append_nil _).symm
  obtain ⟨rfl, rfl⟩ := Reader.run_less phase state (by omega) ready.ahead
  have opens := @Ready.opens _ x already g (l.less (x.data.drop p).length) l
    (l.less (x.data.drop p).length) r p nread (x.data.drop p) [] []
    (Function.update (fun _ => none) .body (some p)) (by rw [List.append_nil]; exact ready) all
    (by rw [left]; nofun) phase phase (Reader.run_sound ready.sound ready.ahead) rfl ready.few
    fun next => body_stops next phase (by omega) (by omega) p
  have passes : switch x.data ⟨p, l.parser.counting nread, fun _ => none⟩ c =
      Run.next (bodyFrame p (x.data.length - p) nread l.parser) := by
    cases is : l.parser.state <;> rw [is] at state <;> try exact state.elim
    · rw [switch_chunkData is (chunked is) some_left toRead, if_neg (by omega)]
    · rw [switch_identity is some_left toRead, if_neg (by omega)]
  rw [passes]
  refine ⟨by show p ≤ p + (x.data.length - p) - 1; omega, ?_⟩
  have forward : p + (x.data.length - p) - 1 + 1 = p + (x.data.drop p).length := by omega
  unfold bodyFrame
  dsimp only
  rw [forward, ← length]
  rw [List.append_nil] at opens
  exact opens

/-- The slice holds the end of a body of known length. -/
theorem feeds_whole (ready : x.Ready already g events last l r p nread) (phase : l.phase = .body)
    (state : Reader.counts l.parser.state) (chunked : l.parser.state = .chunkData → l.parser.flags.chunked = true)
    (some_left : l.parser.contentLength ≠ 0 ∧ l.parser.contentLength ≠ ullongMax)
    (left : x.data.drop p = c :: rest) (enough : l.parser.contentLength ≤ x.data.length - p)
    (ih : x.Continues last (p + 1)) :
    Outcome ((switch x.data ⟨p, l.parser.counting nread, fun _ => none⟩ c).under x.handler (r, g.delegate))
      (Goes x.handler x.data p (x.Left already g events last) False) False := by
  have inside := lt_of_drop left
  have few := ready.few
  have clear : l.parser.httpErrno = .ok := ready.sound.meets.clear
  generalize whole : l.parser.contentLength = n at *
  have toRead : n = min l.parser.contentLength (x.data.length - p) := by omega
  have pieces : x.data.drop p = x.piece p n ++ x.data.drop (p + n) := by
    unfold piece
    rw [← List.drop_drop, List.take_append_drop]
  have length : (x.piece p n).length = n := piece_length (by omega)
  have some_bytes : x.piece p n ≠ [] := by
    intro none
    rw [none] at length
    exact some_left.1 length.symm
  have ahead := ready.ahead
  rw [pieces] at ahead
  obtain ⟨l', first, more, ranPiece, ran, count, rfl, parser, phase'⟩ :=
    Reader.run_counts phase state (length.trans whole.symm) some_bytes ahead
  have sound := Reader.run_sound ready.sound ranPiece
  cases is : l.parser.state <;> rw [is] at state <;> try exact state.elim
  · rw [switch_chunkData is (chunked is) (whole ▸ some_left) toRead, if_pos (by omega)]
    have after : Reader.afterCounted (l.less (x.piece p n).length).parser =
        ((l.less (x.piece p n).length).parser.goTo .chunkDataAlmostDone, .body, []) :=
      if_neg (by show ¬l.parser.state = _; rw [is]; decide)
    rw [after] at parser phase' ready ⊢
    rw [List.append_nil] at ready ⊢
    have state' : l'.parser.state = .chunkDataAlmostDone := by rw [parser]; rfl
    refine ⟨by show p ≤ p + n - 1; omega, ?_⟩
    have opens := ready.opens pieces some_bytes phase phase' sound ran (by rw [count]; exact few)
      fun next => feeds_chunkEnd next phase' state' (by omega) p fun _ _ _ _ _ _ _ later => ih _ _ _ _ _ _ _ (by omega)
    have forward : p + n - 1 + 1 = p + n := by omega
    unfold Resumes at opens
    rw [parser, length] at opens
    unfold bodyFrame Frame.goTo
    dsimp only
    rw [forward]
    exact opens
  · rw [switch_identity is (whole ▸ some_left) toRead, if_pos (by omega)]
    have after : Reader.afterCounted (l.less (x.piece p n).length).parser =
        ((Reader.complete (l.less (x.piece p n).length).parser).1,
          (Reader.complete (l.less (x.piece p n).length).parser).2.1,
          [.messageComplete (l.less (x.piece p n).length).parser.upgrade]) := if_pos is
    rw [after] at parser phase' ready ⊢
    rw [List.append_assoc] at ready ⊢
    have performed := performs_passing x.acts (x.piece p n) g
    have small := (Acts.Tame.drop ready.tame performed).small
    have stands := (ready.stands.passes (by rw [phase]; rfl) rfl (by rw [phase]) pieces small).marked rfl
    rw [callbackDataTo_marked (by exact clear)
      (by exact Function.update_self DataCallback.body (some p) fun _ => none), Run.ask_bind,
      under_ask (onBody_marks p _ _)]
    have forward : p + n = p + n - 1 + 1 := by omega
    rw [length, forward] at stands
    rw [length] at parser phase'
    rw [forward] at ran
    have few' : nread ≤ 2 * l'.count := by rw [count]; exact few
    have fine : ({} : Reply).errno (.cbData .body) = .ok := rfl
    rw [if_pos fine, setErrno_clear (by exact clear), length]
    exact @completes _ x already g last l' _ p nread (l.less n).parser _ _ _ _ more _ _ stands performed sound
      parser.symm phase'.symm few' ran (Nat.succ_pos _)

/-- As much of a body of known length as the slice holds. -/
theorem feeds_counts (ready : x.Ready already g events last l r p nread)
    (phase : l.phase = .body) (state : Reader.counts l.parser.state) (left : x.data.drop p = c :: rest)
    (ih : x.Continues last (p + 1)) :
    x.Resumes already g events last l r p nread fun _ => none := by
  have body : l.parser.state.parsingHeader = false := by
    revert state
    cases l.parser.state <;> simp [Reader.counts, ParserState.parsingHeader]
  obtain ⟨_, _, _, stepped, -, -⟩ := Reader.run_cons_some (left ▸ ready.ahead)
  obtain ⟨-, positive, known, chunked, -⟩ := Reader.step_counts phase state stepped
  refine Feeds.plain (here_of_drop left) body ?_
  rcases Nat.lt_or_ge (x.data.length - p) l.parser.contentLength with more | enough
  · exact feeds_cut ready phase state chunked ⟨by omega, known⟩ left more
  · exact feeds_whole ready phase state chunked ⟨by omega, known⟩ left enough ih

theorem feeds_body (lawful : x.Lawful) (ready : x.Ready already g events last l r p nread)
    (phase : l.phase = .body) (left : x.data.drop p = c :: rest) (ih : x.Continues last (p + 1)) :
    x.Resumes already g events last l r p nread fun _ => none := by
  by_cases eof : l.parser.state = .bodyIdentityEof
  · exact feeds_eof ready phase eof left
  by_cases identity : l.parser.state = .bodyIdentity
  · exact feeds_counts ready phase (by rw [identity]; trivial) left ih
  by_cases data : l.parser.state = .chunkData
  · exact feeds_counts ready phase (by rw [data]; trivial) left ih
  exact feeds_chunk lawful ready phase data identity eof left ih

end Context

end LibNekit.Canonical
