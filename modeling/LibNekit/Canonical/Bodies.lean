import LibNekit.Canonical.HeaderLines

/-!
# The parser between two header blocks

Nothing is told the delegate here but the end of a message. A byte of the body settles
what lies in front of it, and so does the end of a chunk's line.
-/
namespace LibNekit.Canonical

open LibNekit.Source LibNekit.Source.Rewriter LibNekit.Source.HttpParser LibNekit.Library

variable {δ : Type}

theorem Offsets.outside {r : RewriterImpl} {base : Nat} {phase : Phase} (outside : phase.inToken = false)
    (state : r.state = phase.state) : Offsets r base phase := by
  cases phase with
  | idle | headersDone lag | body | stopped => exact ⟨state, nofun, nofun, nofun, nofun⟩
  | _ => cases outside

/-- The token, when the parser has returned. -/
theorem finish_token {r : RewriterImpl} (forward : r.stepBack = false) (n : Nat) :
    (finish n r).currentTokenOffset =
      if r.setToken then (finish n r).currentBufferOffset else r.currentTokenOffset := by
  unfold finish RewriterImpl.settleToken
  dsimp only
  split <;> simp [*]

/-- What the return of the parser leaves alone. -/
theorem finish_frame (r : RewriterImpl) (n : Nat) :
    finish n r = { r with
      currentBufferOffset := sizeAdd r.currentBufferOffset n
      currentTokenOffset := (finish n r).currentTokenOffset
      setToken := false
      stepBack := (finish n r).stepBack } := by
  unfold finish RewriterImpl.settleToken
  dsimp only
  cases r.setToken <;> simp

/-- What a piece of a body is made of. -/
def passing (piece : Bytes) : List Event := piece.flatMap fun c => [.raw [c], .settled]

theorem passing_cons (c : UInt8) (piece : Bytes) :
    passing (c :: piece) = .raw [c] :: .settled :: passing piece := rfl

theorem passing_append (front back : Bytes) : passing (front ++ back) = passing front ++ passing back :=
  List.flatMap_append

theorem passing_passive {piece : Bytes} : ∀ event ∈ passing piece, event.passive = true := by
  intro event member
  obtain ⟨c, -, member⟩ := List.mem_flatMap.mp member
  rcases List.mem_pair.mp member with rfl | rfl <;> rfl

theorem settled_mem_passing {piece : Bytes} (some_bytes : piece ≠ []) : Event.settled ∈ passing piece := by
  cases piece with
  | nil => exact absurd rfl some_bytes
  | cons c piece => simp [passing_cons]

theorem performs_passing (acts : Acts δ) (piece : Bytes) (g : Draft δ) :
    acts.PerformsAll (passing piece) g ⟨g.out ++ piece, g.delegate⟩ := by
  induction piece generalizing g with
  | nil => simp [passing, Acts.PerformsAll]
  | cons c piece ih =>
    have rest := ih ⟨g.out ++ [c], g.delegate⟩
    rw [List.append_assoc] at rest
    exact ⟨_, rfl, _, rfl, rest⟩

namespace Context

variable {x : Context δ} {already : Bool} {g : Draft δ} {events : List Event} {last l l' : Reader}
  {r : RewriterImpl} {p nread : Nat} {piece rest : Bytes} {c : UInt8} {phase phase' : Phase}

/-- The parser returns outside of any element. -/
theorem Stands.settles (stands : x.Stands r g phase p) (outside : phase.inToken = false)
    (running : ∀ lag, phase ≠ .headersDone lag) : Rests x.setup (finish p r) g phase (x.unread p) := by
  have stepBack : (finish p r).stepBack = false := by
    unfold finish RewriterImpl.settleToken
    dsimp only
    split
    · rfl
    · exact stands.calm.stepBack
  rw [finish_frame, stepBack]
  refine ⟨stands.wf, stands.below, stands.whole, stands.finished, stands.fits, stands.small,
    .outside outside stands.offsets.state, stands.calm.congr ?_, fun lag same => absurd same (running lag)⟩
  simp only [stands.calm.stepBack]

/-- Bytes that no element holds are passed on. -/
theorem Stands.passes (stands : x.Stands r g phase p) (outside : phase.inToken = false)
    (outside' : phase'.inToken = false) (state : phase'.state = phase.state)
    (left : x.data.drop p = piece ++ rest) (small : (g.out ++ piece).length < 2 ^ 63) :
    x.Stands r ⟨g.out ++ piece, g.delegate⟩ phase' (p + piece.length) := by
  have fits := stands.fits
  have split := stands.split
  have within := congrArg List.length left
  have inside := stands.inside
  rw [List.length_drop, List.length_append] at within
  rw [left, Phase.held_of_outside outside] at fits
  rw [Phase.held_of_outside outside, List.append_nil] at split
  simp only [List.length_append, List.length_nil] at fits
  refine ⟨stands.wf, stands.below, stands.content, stands.located, stands.offset, ?_, ?_, ?_, small,
    .outside outside' (stands.offsets.state.trans state.symm), stands.calm⟩
  · omega
  · rw [Phase.held_of_outside outside', List.append_nil, split, List.append_assoc, List.take_add, left,
      List.take_left]
  · rw [Phase.held_of_outside outside', ← List.drop_drop, left, List.drop_left, List.length_append,
      List.length_nil]
    omega

/-- `set_token_ = true` -/
theorem Stands.marked (stands : x.Stands r g phase p) (outside : phase.inToken = false) :
    x.Stands { r with setToken := true } g phase p :=
  ⟨stands.wf, stands.below, stands.content, stands.located, stands.offset, stands.inside, stands.split,
    stands.fits, stands.small, .outside outside stands.offsets.state, stands.calm.congr rfl⟩

/-! ## Single bytes -/

theorem onBody_marks (start len : Nat) (d : δ) :
    x.handler (.data .body start len) (r, d) = .ok ({}, { r with setToken := true }, d) := rfl

theorem onChunk_marks (state : r.state = .body) (d : δ) :
    x.handler (.notify .chunkHeader) (r, d) = .ok ({}, { r with setToken := true }, d) ∧
      x.handler (.notify .chunkComplete) (r, d) = .ok ({}, { r with setToken := true }, d) := by
  have marks : onChunk r d = .ok ({}, { r with setToken := true }, d) := by
    unfold onChunk
    rw [boostAssert_of state]
    rfl
  exact ⟨marks, marks⟩

/-- A byte that belongs to nothing. -/
theorem Ready.raw {more : List Event} (ready : x.Ready already g (.raw [c] :: more) last l r p nread)
    (left : x.data.drop p = c :: rest) (outside : l.phase.inToken = false)
    (outside' : l'.phase = .idle ∨ l'.phase = .body) (state : l'.phase.state = l.phase.state)
    (sound : l'.Sound x.setup) (ran : Reader.run x.setup l' rest = some (last, more)) {nread' : Nat}
    (few : nread' ≤ 2 * l'.count) :
    x.Ready already ⟨g.out ++ [c], g.delegate⟩ more last l' r (p + 1) nread' := by
  have performed : x.acts.PerformsAll [.raw [c]] g ⟨g.out ++ [c], g.delegate⟩ := ⟨_, rfl, rfl⟩
  have tame := Acts.Tame.drop (ready.tame : x.acts.Tame ([.raw [c]] ++ more) g) performed
  have token : l'.phase.inToken = false := by rcases outside' with same | same <;> rw [same] <;> rfl
  refine ⟨few, sound, ready.stands.passes outside token state (left : x.data.drop p = [c] ++ rest) tame.small,
    by rw [drop_succ left]; exact ran, tame, ?_, ⟨?_, ?_⟩, ready.token, fun _ => ready.known outside⟩
  · simp [token]
  · rcases outside' with same | same <;> rw [same] <;> nofun
  · rcases outside' with same | same <;> rw [same] <;> nofun

/-- Bytes that settle what lies in front of them. -/
theorem Ready.passed {more : List Event}
    (ready : x.Ready already g (passing piece ++ more) last l r p nread)
    (left : x.data.drop p = piece ++ rest) (outside : l.phase.inToken = false)
    (outside' : l'.phase = .idle ∨ l'.phase = .body) (state : l'.phase.state = l.phase.state)
    (sound : l'.Sound x.setup) (ran : Reader.run x.setup l' rest = some (last, more)) {nread' : Nat}
    (few : nread' ≤ 2 * l'.count) :
    x.Ready true ⟨g.out ++ piece, g.delegate⟩ more last l' { r with setToken := true } (p + piece.length)
      nread' := by
  have tame := Acts.Tame.drop ready.tame (performs_passing x.acts piece g)
  have token : l'.phase.inToken = false := by rcases outside' with same | same <;> rw [same] <;> rfl
  have stands := ready.stands.passes outside token state left tame.small
  have ahead : x.data.drop (p + piece.length) = rest := by rw [← List.drop_drop, left, List.drop_left]
  refine ⟨few, sound, stands.marked token, by rw [ahead]; exact ran, tame, ?_, ⟨?_, ?_⟩, ?_,
    fun _ => ready.known outside⟩
  · simp [token]
  · rcases outside' with same | same <;> rw [same] <;> nofun
  · rcases outside' with same | same <;> rw [same] <;> nofun
  · exact fun _ _ => rfl

/-- The call ends outside of any element. -/
theorem Ready.stops (ready : x.Ready already g events last l r p nread) {parser : HttpParser}
    (outside : l.phase = .idle ∨ l.phase = .body) (models : l.Models parser) (used : p = x.data.length) (moved : 0 < p) :
    x.Left already g events last p parser (r, g.delegate) := by
  have token : l.phase.inToken = false := by rcases outside with same | same <;> rw [same] <;> rfl
  refine .rests (List.nil_append _).symm rfl ready.sound models ready.ahead ready.stands.inside
    (Or.inl moved) (ready.stands.settles token ?_) (fun t member _ => ?_) (fun _ => Or.inl ⟨ready.known token, used, nofun⟩)
    ready.running.1
  · rcases outside with same | same <;> rw [same] <;> nofun
  · have settles := ready.token t member
    rw [finish_token ready.stands.calm.stepBack]
    cases already with
    | true =>
      have settles : r.setToken = true := by simpa using settles
      rw [settles]
      simp
    | false =>
      have waits : r.setToken = false ∧ r.currentTokenOffset = t := by simpa using settles
      rw [waits.1, waits.2]
      simp

/-! ## Messages -/

/-- `on_message_complete`, which pauses the parser. -/
theorem completes {parser : HttpParser} {marks : Marks} {q k : Nat} {front more : List Event} {out : Bytes}
    (next : Frame → Run Frame) (stands : x.Stands r ⟨out, g.delegate⟩ .body k)
    (performed : x.acts.PerformsAll front g ⟨out, g.delegate⟩) (sound : l'.Sound x.setup)
    (same : (Reader.complete parser).1 = l'.parser) (phase : (Reader.complete parser).2.1 = l'.phase)
    (few : nread ≤ 2 * l'.count) (ran : Reader.run x.setup l' (x.data.drop k) = some (last, more))
    (moved : 0 < k) :
    Outcome ((callbackNotify .messageComplete k ⟨q, (parser.goTo parser.newMessage).counting nread, marks⟩ >>=
        next).under x.handler (r, g.delegate))
      (Goes x.handler x.data p (x.Left already g (front ++ .messageComplete parser.upgrade :: more) last)
        False) False := by
  have same : l'.parser = parser.goTo parser.newMessage := same.symm
  have phase : l'.phase = if parser.upgrade then .stopped else .idle := phase.symm
  have clear : (parser.goTo parser.newMessage).httpErrno = .ok := same ▸ sound.meets.clear
  have clear : parser.httpErrno = .ok := clear
  have state : r.state = .body := stands.offsets.state
  let ended : RewriterImpl :=
    { r with state := .init, setToken := true, processMessageComplete := true }
  have answered : x.handler (.notify .messageComplete) (r, g.delegate) =
      .ok ({ paused := true }, ended, g.delegate) := by
    unfold handler parserSettings onMessageComplete
    dsimp only
    rw [boostAssert_of state]
    rfl
  have resting : { ended with processMessageComplete := false } =
      { r with state := .init, setToken := true } := by
    rw [← stands.calm.processMessageComplete]
  have idle : x.Stands { r with state := .init, setToken := true } ⟨out, g.delegate⟩ .idle k :=
    ⟨stands.wf, stands.below, stands.content, stands.located, stands.offset, stands.inside, stands.split,
      stands.fits, stands.small, .outside rfl rfl, stands.calm.congr rfl⟩
  have stops : callbackNotify .messageComplete k
      ⟨q, (parser.goTo parser.newMessage).counting nread, marks⟩ >>= next =
      Run.ask (.notify .messageComplete) fun reply =>
        (if (reply.errno (.cbNotify .messageComplete)) ≠ .ok then
          Run.exit k (((parser.goTo parser.newMessage).counting nread).setErrno
            (reply.errno (.cbNotify .messageComplete)))
        else Run.next ⟨q, ((parser.goTo parser.newMessage).counting nread).setErrno
            (reply.errno (.cbNotify .messageComplete)), marks⟩) >>= next := by
    unfold callbackNotify
    rw [if_neg (by simp [clear])]
    rfl
  have left : x.Left already g (front ++ .messageComplete parser.upgrade :: more) last k
      (((parser.goTo parser.newMessage).counting nread).setErrno .paused)
      (ended, (⟨out, g.delegate⟩ : Draft δ).delegate) := by
    refine .complete rfl performed sound phase ⟨nread, few, Or.inr (by rw [same])⟩ ran
      stands.inside moved rfl ?_ ?_
    · rw [resting]
      exact idle.settles rfl nofun
    · exact finish_token (r := ended) stands.calm.stepBack k
  rw [stops, under_ask answered]
  exact left

/-- The reader is behind the byte. -/
theorem behind {more : List Event} (left : x.data.drop p = c :: rest)
    (ran : Reader.run x.setup l' rest = some (last, more)) :
    Reader.run x.setup l' (x.data.drop (p + 1)) = some (last, more) := by
  rw [drop_succ left]
  exact ran

/-- What nobody is told about is put out first. -/
theorem Resumes.before {front : List Event} {out : Bytes} {marks : Marks}
    (resumes : x.Resumes (already || decide (Event.settled ∈ front)) ⟨out, g.delegate⟩ events last l r p
      nread marks)
    (performed : x.acts.PerformsAll front g ⟨out, g.delegate⟩) (passive : ∀ event ∈ front, event.passive = true) :
    x.Resumes already g (front ++ events) last l r p nread marks :=
  fun fuel enough => (resumes fuel enough).mono (fun _ left => left.before performed passive) id

/-- The first element of a message. -/
def firstElement : Rewriter.MessageType → Rewriter.State
  | .request => .method
  | .response => .version

/-- `on_message_begin`, which pauses the parser. -/
theorem begins {marks : Marks} {more : List Event} (stands : x.Stands r g .idle p)
    (left : x.data.drop p = c :: rest) (sound : l'.Sound x.setup) (few : nread ≤ 2 * l'.count)
    (phase : (r.type = .request ∧ l'.phase = .method [c]) ∨
      (r.type = .response ∧ l'.phase = .resVersion [c]))
    (ran : Reader.run x.setup l' rest = some (last, more)) :
    Outcome ((callbackNotify .messageBegin (p + 1) ⟨p, l'.parser.counting nread, marks⟩).under x.handler
        (r, g.delegate))
      (Goes x.handler x.data p (x.Left already g more last) False) False := by
  have clear : l'.parser.httpErrno = .ok := sound.meets.clear
  have state : r.state = .init := stands.offsets.state
  have held : l'.phase.held = [c] ∧ l'.phase.inToken = true := by
    rcases phase with ⟨-, same⟩ | ⟨-, same⟩ <;> rw [same] <;> exact ⟨rfl, rfl⟩
  let begun : RewriterImpl := { r with
    state := firstElement r.type
    setToken := true, stepBack := true }
  have answered : x.handler (.notify .messageBegin) (r, g.delegate) =
      .ok ({ paused := true }, begun, g.delegate) := by
    unfold handler parserSettings onMessageBegin
    dsimp only
    rw [boostAssert_of state]
    rfl
  have stops : callbackNotify .messageBegin (p + 1) ⟨p, l'.parser.counting nread, marks⟩ =
      Run.ask (.notify .messageBegin) fun reply =>
        if (reply.errno (.cbNotify .messageBegin)) ≠ .ok then
          Run.exit (p + 1) ((l'.parser.counting nread).setErrno (reply.errno (.cbNotify .messageBegin)))
        else Run.next ⟨p, (l'.parser.counting nread).setErrno (reply.errno (.cbNotify .messageBegin)),
          marks⟩ := by
    unfold callbackNotify
    rw [if_neg (by simp [clear])]
    rfl
  have inside := lt_of_drop left
  have position := stands.position
  have small := stands.small
  have bound := stands.bound
  have whole : r.currentBuffer.content = g.out ++ x.unread p := by
    have whole := stands.whole
    rwa [Phase.held, List.append_nil] at whole
  have fits : (x.unread p).length < 2 ^ 62 := by
    have fits := stands.fits
    rwa [Phase.held, List.length_nil, Nat.zero_add] at fits
  rw [unread_cons left] at whole fits
  have forward : sizeAdd r.currentBufferOffset (p + 1) = g.out.length + 1 := by
    rw [Phase.held, List.length_nil, Nat.add_zero] at position
    rw [stands.offset, sizeAdd_eq (by unfold sizeRange; omega)]
    omega
  have finished : finish (p + 1) begun = { begun with
      currentBufferOffset := g.out.length + 1, currentTokenOffset := g.out.length
      setToken := false, stepBack := false } := by
    unfold finish RewriterImpl.settleToken
    dsimp only [begun]
    rw [if_pos rfl, forward, if_pos rfl, sizeSub_eq (by unfold sizeRange; omega) (by omega),
      Nat.add_sub_cancel]
  rw [stops, under_ask answered]
  refine .rests (List.nil_append _).symm rfl sound ⟨nread, few, Or.inr rfl⟩ (by rw [drop_succ left]; exact ran)
    inside (Or.inl (Nat.succ_pos p)) ?_ (fun t _ silent => absurd held.2 (by simp [silent]))
    (fun silent => absurd held.2 (by simp [silent])) (fun stopped => absurd held.2 (by rw [stopped]; exact Bool.false_ne_true))
  rw [finished]
  refine ⟨stands.wf, stands.below, ?_, ?_, ?_, small, ?_, ?_, ?_⟩
  · rw [held.1, List.append_assoc]
    exact whole
  · rw [held.1]
    rfl
  · rw [held.1]
    rw [List.length_cons] at fits
    show 1 + (x.unread (p + 1)).length < 2 ^ 62
    omega
  · rcases phase with ⟨sort, same⟩ | ⟨sort, same⟩ <;> rw [same] <;>
      exact ⟨by simp [begun, sort, Phase.state, firstElement], fun _ => ⟨rfl, rfl⟩, by rintro _ ⟨⟩, by rintro _ ⟨⟩, by rintro _ ⟨⟩⟩
  · exact stands.calm.congr (by simp only [begun, stands.calm.stepBack])
  · rintro lag same
    exact absurd held.2 (by rw [same]; exact Bool.false_ne_true)

theorem feeds_idle (lawful : x.Lawful) (ready : x.Ready already g events last l r p nread)
    (phase : l.phase = .idle) (left : x.data.drop p = c :: rest) (ih : x.Continues last (p + 1)) :
    x.Resumes already g events last l r p nread fun _ => none := by
  have sound := ready.sound
  have few := ready.few
  obtain ⟨l', first, back, stepped, ran, rfl⟩ := Reader.run_cons_some (left ▸ ready.ahead)
  obtain ⟨read, count⟩ := Reader.step_read (by rw [phase]; nofun) stepped
  have sound' := Reader.step_sound sound stepped
  have has := sound.meets.has
  have sort := sound.meets.type.trans ready.stands.calm.type.symm
  have state := sound.meets.idle phase
  rw [Reader.countAfter_header (Or.inl phase) sound.meets] at count
  rw [phase] at read has
  refine Feeds.header (here_of_drop left) (Reader.idle_state has).1 ready.few (ready.few_bytes lawful)
    (fun long => left_overflow lawful ready.sound long ready.stands.calm.processMessageComplete) ?_
  have blank (parser : l'.parser = l.parser) (stays : l'.phase = .idle) (single : first = [.raw [c]])
      (passes : switch x.data ⟨p, l.parser.counting (nread + 1), fun _ => none⟩ c =
        Run.next ⟨p, l.parser.counting (nread + 1), fun _ => none⟩) :
      Outcome ((switch x.data ⟨p, l.parser.counting (nread + 1), fun _ => none⟩ c).under x.handler
        (r, g.delegate)) (Goes x.handler x.data p (x.Left already g (first ++ back) last) False) False := by
    subst single
    rw [passes, ← parser]
    refine ⟨Nat.le_refl _, Resumes.before ?_ ⟨⟨g.out ++ [c], g.delegate⟩, rfl, rfl⟩ (by simp [Event.passive])⟩
    rw [show (already || decide (Event.settled ∈ [Event.raw [c]])) = already by simp]
    exact ih already _ _ _ r _ _ (Nat.le_refl _) (ready.raw left (by rw [phase]; rfl) (Or.inl stays)
      (by rw [stays, phase]) sound' ran (by omega)) (by rw [stays]; rfl)
  have begun (parser : switch x.data ⟨p, l.parser.counting (nread + 1), fun _ => none⟩ c =
        callbackNotify .messageBegin (p + 1) ⟨p, l'.parser.counting (nread + 1), fun _ => none⟩)
      (starts : (r.type = .request ∧ l'.phase = .method [c]) ∨
        (r.type = .response ∧ l'.phase = .resVersion [c])) (silent : first = []) :
      Outcome ((switch x.data ⟨p, l.parser.counting (nread + 1), fun _ => none⟩ c).under x.handler
        (r, g.delegate)) (Goes x.handler x.data p (x.Left already g (first ++ back) last) False) False := by
    subst silent
    rw [parser]
    exact begins (phase ▸ ready.stands) left sound' (by omega) starts ran
  have kinds : (l.parser.state = .startReq → r.type = .request) ∧
      (l.parser.state = .startRes → r.type = .response) := by
    unfold startState at state
    rw [sort] at state
    cases type : r.type <;> rw [type] at state <;> constructor <;> intro start <;>
      first | rfl | (rw [start] at state; exact absurd state (by decide))
  unfold Reader.read Reader.readIdle at read
  dsimp only at read
  split at read
  · rename_i start
    have goes : switch x.data ⟨p, l.parser.counting (nread + 1), fun _ => none⟩ c =
        startReq ⟨p, l.parser.counting (nread + 1), fun _ => none⟩ c := by
      simp only [switch, counting_state, start]
    unfold startReq at goes
    split at read
    · rename_i ends
      simp only [Option.some.injEq, Prod.mk.injEq] at read
      exact blank read.1.symm read.2.1.symm read.2.2.symm (by rw [goes, if_pos ends])
    · rename_i visible
      rw [if_neg visible] at goes
      split at read
      · cases read
      · rename_i letter
        obtain ⟨method, known, same⟩ := Option.map_eq_some_iff.mp read
        simp only [Prod.mk.injEq] at same
        refine begun ?_ (Or.inl ⟨kinds.1 start, same.2.1.symm⟩) same.2.2.symm
        rw [goes, ← same.1]
        dsimp only
        rw [if_neg letter, known]
        rfl
  · rename_i start
    have goes : switch x.data ⟨p, l.parser.counting (nread + 1), fun _ => none⟩ c =
        startRes ⟨p, l.parser.counting (nread + 1), fun _ => none⟩ c := by
      simp only [switch, counting_state, start]
    split at read
    · rename_i isH
      simp only [Option.some.injEq, Prod.mk.injEq] at read
      refine begun ?_ (Or.inr ⟨kinds.2 start, read.2.1.symm⟩) read.2.2.symm
      rw [goes, ← read.1]
      unfold startRes
      rw [if_pos isH]
      rfl
    · cases read
  · rename_i start
    have goes : switch x.data ⟨p, l.parser.counting (nread + 1), fun _ => none⟩ c =
        switch.quiet ⟨p, l.parser.counting (nread + 1), fun _ => none⟩ c := by
      simp only [switch, counting_state, start]
    split at read
    · rename_i ends
      simp only [Option.some.injEq, Prod.mk.injEq] at read
      refine blank read.1.symm read.2.1.symm read.2.2.symm ?_
      rw [goes]
      unfold switch.quiet startLineStep advance
      simp only [counting_state, start, if_pos ends]
      rw [← start]
      rfl
    · cases read
  · cases read

/-! ## The end of a header block, seen again -/

/-- The second look at the LF decides what follows. -/
theorem headersDone_lf (parser : HttpParser) (p nread : Nat) (marks : Marks) :
    headersDone ⟨p, parser.counting nread, marks⟩ lf =
      let done : Run Frame := callbackNotify .messageComplete (p + 1)
        ⟨p, (parser.goTo parser.newMessage).counting 0, marks⟩
      let goTo (state : ParserState) : Run Frame := Run.next ⟨p, (parser.goTo state).counting 0, marks⟩
      let hasBody := parser.flags.chunked ∨
        (0 < parser.contentLength ∧ parser.contentLength ≠ ullongMax)
      if parser.upgrade ∧ (parser.method = .connect ∨ parser.flags.skipBody ∨ ¬hasBody) then
        done >>= fun f => Run.exit (f.p + 1) f.parser
      else if parser.flags.skipBody then done
      else if parser.flags.chunked then goTo .chunkSizeStart
      else if parser.contentLength = 0 then done
      else if parser.contentLength ≠ ullongMax then goTo .bodyIdentity
      else if ¬parser.messageNeedsEof then done
      else goTo .bodyIdentityEof := by
  unfold headersDone
  rw [if_neg (not_not_intro rfl)]
  rfl

theorem headersDone_cases (parser : HttpParser) (p nread : Nat) (marks : Marks) :
    (Reader.afterHeaders parser = Reader.complete parser ∧
      ∃ next, headersDone ⟨p, parser.counting nread, marks⟩ lf =
        callbackNotify .messageComplete (p + 1) ⟨p, (parser.goTo parser.newMessage).counting 0, marks⟩ >>=
          next) ∨
    ∃ state, Reader.afterHeaders parser = (parser.goTo state, .body, []) ∧
      headersDone ⟨p, parser.counting nread, marks⟩ lf =
        Run.next ⟨p, (parser.goTo state).counting 0, marks⟩ := by
  have plain : callbackNotify .messageComplete (p + 1)
      ⟨p, (parser.goTo parser.newMessage).counting 0, marks⟩ = callbackNotify .messageComplete (p + 1)
        ⟨p, (parser.goTo parser.newMessage).counting 0, marks⟩ >>= Run.next := (bind_next _).symm
  rw [headersDone_lf]
  unfold Reader.afterHeaders
  dsimp only
  split_ifs
  all_goals first
    | exact Or.inr ⟨_, rfl, rfl⟩
    | exact Or.inl ⟨rfl, _, plain⟩
    | exact Or.inl ⟨rfl, _, rfl⟩

theorem feeds_headersDone {lag : Nat} (lawful : x.Lawful)
    (ready : x.Ready already g events last l r p nread) (phase : l.phase = .headersDone lag)
    (left : x.data.drop p = c :: rest) (ih : x.Continues last (p + 1)) :
    x.Resumes already g events last l r p nread fun _ => none := by
  have sound := ready.sound
  obtain ⟨l', first, back, stepped, ran, rfl⟩ := Reader.run_cons_some (left ▸ ready.ahead)
  obtain ⟨read, -⟩ := Reader.step_read (by rw [phase]; nofun) stepped
  have sound' := Reader.step_sound sound stepped
  have state : l.parser.state = .headersDone := by
    have has := sound.meets.has
    rwa [phase] at has
  refine Feeds.header (here_of_drop left) (by rw [state]; rfl) ready.few (ready.few_bytes lawful)
    (fun long => left_overflow lawful ready.sound long ready.stands.calm.processMessageComplete) ?_
  rw [phase] at read
  unfold Reader.read Reader.readHeadersDone at read
  dsimp only at read
  split at read
  · rename_i isLf
    subst isLf
    rw [show switch x.data ⟨p, l.parser.counting (nread + 1), fun _ => none⟩ lf =
      headersDone ⟨p, l.parser.counting (nread + 1), fun _ => none⟩ lf by
        simp only [switch, counting_state, state]]
    have outside : l.phase.inToken = false := by rw [phase]; rfl
    have plain : (already || decide (Event.settled ∈ [Event.raw [lf]])) = already := by simp
    rcases headersDone_cases l.parser p (nread + 1) fun _ => none with
      ⟨after, next, completed⟩ | ⟨state, after, goes⟩ <;> rw [after] at read <;>
      simp only [Option.some.injEq, Prod.mk.injEq] at read <;> obtain ⟨parser, phase', rfl⟩ := read
    · have performed : x.acts.PerformsAll [.raw [lf], .settled] g ⟨g.out ++ [lf], g.delegate⟩ :=
        ⟨_, rfl, _, rfl, rfl⟩
      have tame : x.acts.Tame ([.raw [lf], .settled] ++ .messageComplete l.parser.upgrade :: back) g :=
        ready.tame
      have small := (tame.drop performed).small
      rw [completed]
      exact completes next (ready.stands.passes outside rfl (by rw [phase]; rfl)
        (left : x.data.drop p = [lf] ++ rest) small) performed sound' parser phase' (Nat.zero_le _)
        (behind left ran) (Nat.succ_pos p)
    · rw [goes, parser]
      refine ⟨Nat.le_refl _, Resumes.before ?_ ⟨⟨g.out ++ [lf], g.delegate⟩, rfl, rfl⟩ (by simp [Event.passive])⟩
      rw [plain]
      exact ih already _ _ _ r _ _ (Nat.le_refl _) (ready.raw left outside (Or.inr phase'.symm)
        (by rw [← phase', phase]; rfl) sound' ran (Nat.zero_le _)) (by rw [← phase']; rfl)
  · cases read

end Context

end LibNekit.Canonical
