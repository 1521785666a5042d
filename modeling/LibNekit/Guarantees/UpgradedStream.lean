import LibNekit.Source.DataFlow.ServedClient

/-!
# What follows a request that upgrades the connection

The rewriter stops behind such a request, and the code behind its loop goes on with
`current_token_offset_` where the request ended: what lies behind that offset in its own
Buffer, and in every later one, is withheld.
-/
namespace LibNekit.Guarantees.UpgradedStream

open LibNekit.Source LibNekit.Library Rewriter HttpMessageStreamRewriter HttpServerDataFlow ServedClient

variable {text : AddressText} {s s' : ServedClient} {input : Nat × Buffer} {later : List (Nat × Buffer)}
  {s₂ : HttpMessageStreamRewriter HttpServerDataFlow}

/-- The read with which the parser reports an upgrade, in any run. The rewriter's loop ends
in `s₂`: its Buffer holds what has been read and not handed over, and the request ends at
its `current_buffer_offset_`. -/
structure Upgrades (text : AddressText) (s : ServedClient) (input : Nat × Buffer)
    (s₂ : HttpMessageStreamRewriter HttpServerDataFlow) : Prop where
  reached : (machine text).Reachable init s
  rewrites : s.phase = .negotiating ∨ s.phase = .opened ∧ s.rewriter.delegate.isConnect = false
  running : s.rewriter.impl.stopped = false
  reads : Reads input
  loop : ∃ s₁, carryIn input.1 input.2 s.rewriter = .ok s₁ ∧ parseLoop (delegate text) s₁.loopFuel s₁ = .ok s₂
  stopped : s₂.impl.stopped = true
  fits : s₂.impl.currentBuffer.size < sizeRange

/-! ## Where the loop ends -/

/-- The rewriter when its loop has stopped. -/
structure Stops (s₂ : HttpMessageStreamRewriter HttpServerDataFlow) : Prop where
  wf : s₂.impl.currentBuffer.WellFormed
  fine : s₂.impl.errored = false
  nothing : s₂.impl.pendingBufferLength = 0
  token : s₂.impl.currentTokenOffset = s₂.impl.currentBufferOffset
  ends : s₂.delegate.firstHeaderOffset = s₂.impl.currentBufferOffset
  negotiated : s₂.delegate.readingFirstHeader = false

theorem Upgrades.stops (upgrades : Upgrades text s input s₂) : Stops s₂ := by
  have sound := reachable_sound upgrades.reached
  have phase : s.phase.reads = true := by
    rcases upgrades.rewrites with phase | ⟨phase, -⟩ <;> rw [phase] <;> rfl
  have poised := sound.poised phase upgrades.running
  obtain ⟨s₁, carried, parsed⟩ := upgrades.loop
  have start := carryIn_ran upgrades.reads.wf upgrades.reads.below carried
  have carries := parseLoop_carries delegate_outside _ start.held parsed
  have never {P : Prop} (running : s₂.impl.stopped = false) : P :=
    absurd (running.symm.trans upgrades.stopped) (by decide)
  cases parseLoop_turned delegate_outside _ start.held ((carryIn_flagged carried).poised poised) parsed with
  | failed _ running => exact never running
  | goesOn poised₂ => exact never poised₂.stopped
  | halts halted =>
    obtain ⟨r, f, r₁, told, impl⟩ := halted.told
    obtain ⟨rfl, flow⟩ : r = r₁ ∧ f.onMessageComplete r.currentBufferOffset = s₂.delegate := by
      simpa [HttpServerDataFlow.delegate] using told
    refine ⟨carries.held.wf, halted.fine, carries.pendingBufferLength.trans start.nothing, ?_, ?_, ?_⟩
    · rw [impl]
    · rw [← flow, impl]
      rfl
    · rw [← flow]
      rfl

theorem Upgrades.rewrote (upgrades : Upgrades text s input s₂) :
    s.rewriter.rewriteBuffer (HttpServerDataFlow.delegate text) input.1 input.2 = withhold s₂ := by
  obtain ⟨s₁, carried, parsed⟩ := upgrades.loop
  unfold rewriteBuffer
  rw [carried, ok_bind, parsed, ok_bind, if_neg (by simp [upgrades.stops.fine])]

/-! ## Reads after that -/

/-- Nothing more comes: an error was reported, or all that is read is withheld. -/
inductive Stuck (s : ServedClient) : Prop where
  | failed (phase : s.phase.reads = false)
  | clogged (phase : s.phase = .opened) (plain : s.rewriter.delegate.isConnect = false) (stalled : Stalled s.rewriter)

theorem Stuck.step (stuck : Stuck s) (reads : Reads input) (ran : ServedClient.step text input s = .ok s') :
    Stuck s' ∧ s'.handed = s.handed ∧ (s'.phase = .opened → s.phase = .opened) := by
  cases stuck with
  | failed phase =>
    unfold ServedClient.step at ran
    cases known : s.phase with
    | failed e =>
      rw [known] at ran
      cases ran
      exact ⟨.failed phase, rfl, known.symm.trans⟩
    | negotiating | opened =>
      rw [known] at phase
      cases phase
  | clogged phase plain stalled =>
    unfold ServedClient.step ServedClient.read at ran
    rw [phase] at ran
    dsimp only at ran
    rw [if_neg (by simp [plain])] at ran
    obtain ⟨⟨result, rewriter⟩, rewrote, ran⟩ := bind_eq_ok.mp ran
    rcases stalled.call reads.wf reads.below reads.fits rewrote with ⟨e, rfl⟩ | ⟨rfl, stalled', nothing, same⟩
    · cases ran
      exact ⟨.failed rfl, rfl, fun _ => phase⟩
    · cases ran
      have plain' : rewriter.delegate.isConnect = false := (congrArg _ same).trans plain
      exact ⟨.clogged rfl plain' stalled', by rw [nothing, List.append_nil], fun _ => phase⟩

theorem Stuck.run (stuck : Stuck s) (all : ∀ i ∈ later, Reads i) (ran : (machine text).run later s = .ok s') :
    s'.handed = s.handed ∧ (s'.phase = .opened → s.phase = .opened) := by
  induction later generalizing s with
  | nil =>
    cases ran
    exact ⟨rfl, id⟩
  | cons i rest ih =>
    obtain ⟨s₁, stepped, ran⟩ := bind_eq_ok.mp ran
    obtain ⟨stuck₁, same, open₁⟩ := stuck.step (all i List.mem_cons_self) stepped
    obtain ⟨same', open'⟩ := ih stuck₁ (fun j member => all j (List.mem_cons_of_mem i member)) ran
    exact ⟨same'.trans same, fun phase => open₁ (open' phase)⟩

theorem run_cons (input : Nat × Buffer) (later : List (Nat × Buffer)) (s : ServedClient) :
    (machine text).run (input :: later) s = ServedClient.step text input s >>= (machine text).run later := rfl

theorem failed_run {e : HttpServerError} (phase : s.phase = .failed e) (later : List (Nat × Buffer)) :
    (machine text).run later s = .ok s := by
  have stepped (i : Nat × Buffer) : ServedClient.step text i s = .ok s := by
    unfold ServedClient.step
    rw [phase]
  induction later with
  | nil => rfl
  | cons i rest ih =>
    rw [run_cons, stepped, ok_bind, ih]

/-- Everything has been handed over, and `n` is left in `current_token_offset_`. -/
structure Flowing (n : Nat) (s : ServedClient) : Prop where
  phase : s.phase = .opened
  plain : s.rewriter.delegate.isConnect = false
  stopped : s.rewriter.impl.stopped = true
  fine : s.rewriter.impl.errored = false
  nothing : s.rewriter.impl.pendingBufferLength = 0
  token : s.rewriter.impl.currentTokenOffset = n

variable {n : Nat}

/-- A call that cuts its Buffer leaves the rewriter stalled. -/
theorem stalled_of_cut {r r' : HttpMessageStreamRewriter HttpServerDataFlow} (stopped : r'.impl.stopped = true)
    (fine : r.impl.errored = false) (cut : Cut r r') : Stalled r' := by
  have before := cut.before
  have short := cut.short
  have held := cut.held
  exact ⟨stopped, cut.errored.trans fine, cut.token, by omega, by omega⟩

/-- The rewriter with a new Buffer and nothing in front of it. -/
def given (input : Nat × Buffer) (r : HttpMessageStreamRewriter HttpServerDataFlow) :
    HttpMessageStreamRewriter HttpServerDataFlow :=
  { r with impl.next := input.1, impl.currentBuffer := input.2, impl.currentBufferOffset := 0 }

theorem Flowing.read_eq (flowing : Flowing n s) (input : Nat × Buffer) : ServedClient.step text input s =
    withhold (given input s.rewriter) >>= fun (result, rewriter) =>
      match result with
      | .error e => .ok { s with rewriter, phase := .failed (.rewriter e) }
      | .ok () => .ok { s with rewriter, handed := s.handed ++ rewriter.impl.currentBuffer.content } := by
  unfold ServedClient.step ServedClient.read
  rw [flowing.phase]
  dsimp only
  rw [if_neg (by simp [flowing.plain]), stopped_call flowing.stopped flowing.fine flowing.nothing]
  refine congrArg _ (funext fun answer => ?_)
  obtain ⟨result, rewriter⟩ := answer
  cases result <;> rfl

/-- A Buffer of `n` bytes goes through. -/
theorem Flowing.step (flowing : Flowing n s) (size : input.2.size = n) :
    ∃ s', ServedClient.step text input s = .ok s' ∧ Flowing n s' ∧ s'.handed = s.handed ++ input.2.content := by
  have all : (given input s.rewriter).impl.currentTokenOffset = (given input s.rewriter).impl.currentBuffer.size :=
    flowing.token.trans size.symm
  refine ⟨{ s with rewriter := given input s.rewriter, handed := s.handed ++ input.2.content }, ?_, ?_, rfl⟩
  · rw [flowing.read_eq, withhold_nothing all]
    rfl
  · exact ⟨flowing.phase, flowing.plain, flowing.stopped, flowing.fine, flowing.nothing, flowing.token⟩

/-- Any other one does not. -/
theorem Flowing.step_other (flowing : Flowing n s) (reads : Reads input) (size : input.2.size ≠ n)
    (ran : ServedClient.step text input s = .ok s') :
    Stuck s' ∧ (s'.phase = .opened → s'.handed.length < s.handed.length + input.2.content.length) := by
  rw [flowing.read_eq] at ran
  obtain ⟨⟨result, rewriter⟩, withheld, ran⟩ := bind_eq_ok.mp ran
  have fits : input.2.size < sizeRange := Nat.lt_of_le_of_lt (Nat.le_add_right _ _) reads.fits
  have token : (given input s.rewriter).impl.currentTokenOffset ≠ (given input s.rewriter).impl.currentBuffer.size :=
    fun same => size (same.symm.trans flowing.token)
  rcases withhold_cuts (by exact reads.wf) (by exact fits) token withheld with ⟨rfl, -⟩ | ⟨rfl, cut⟩
  · cases ran
    exact ⟨.failed rfl, by rintro ⟨⟩⟩
  · cases ran
    have stopped : rewriter.impl.stopped = true := (withhold_flagged withheld).stopped.trans flowing.stopped
    have stalled : Stalled rewriter := stalled_of_cut stopped (by exact flowing.fine) cut
    have plain : rewriter.delegate.isConnect = false := (congrArg _ cut.delegate).trans flowing.plain
    refine ⟨.clogged flowing.phase plain stalled, fun _ => ?_⟩
    have before : (given input s.rewriter).impl.currentTokenOffset < input.2.size := cut.before
    have content : rewriter.impl.currentBuffer.content = input.2.content.take _ := cut.content
    show (s.handed ++ rewriter.impl.currentBuffer.content).length < _
    rw [List.length_append, content, List.length_take, reads.wf.length_content]
    omega

/-- The later reads hand over all their bytes exactly if each Buffer has `n` of them. -/
theorem Flowing.run_iff (flowing : Flowing n s) (all : ∀ i ∈ later, Reads i) :
    (∃ s', (machine text).run later s = .ok s' ∧ s'.phase = .opened ∧
        s'.handed = s.handed ++ later.flatMap fun i => i.2.content) ↔
      ∀ i ∈ later, i.2.size = n := by
  induction later generalizing s with
  | nil =>
    constructor
    · exact fun _ i member => absurd member List.not_mem_nil
    · exact fun _ => ⟨s, rfl, flowing.phase, (List.append_nil _).symm⟩
  | cons i rest ih =>
    have reads := all i List.mem_cons_self
    have others : ∀ j ∈ rest, Reads j := fun j member => all j (List.mem_cons_of_mem i member)
    constructor
    · rintro ⟨s', ran, phase, handed⟩
      obtain ⟨s₁, stepped, ran⟩ := bind_eq_ok.mp ran
      have size : i.2.size = n := by
        by_contra other
        obtain ⟨stuck, less⟩ := flowing.step_other reads other stepped
        obtain ⟨same, opened⟩ := stuck.run others ran
        have length := congrArg List.length (same.symm.trans handed)
        rw [List.flatMap_cons, List.length_append, List.length_append] at length
        have short := less (opened phase)
        omega
      obtain ⟨s₂, stepped₂, flowing₂, handed₂⟩ := @Flowing.step text _ _ _ flowing size
      obtain rfl : s₁ = s₂ := Except.ok.inj (stepped.symm.trans stepped₂)
      refine List.forall_mem_cons.mpr ⟨size, (ih flowing₂ others).mp ⟨s', ran, phase, ?_⟩⟩
      rw [handed, handed₂, List.flatMap_cons, List.append_assoc]
    · intro sizes
      obtain ⟨size, more⟩ := List.forall_mem_cons.mp sizes
      obtain ⟨s₂, stepped₂, flowing₂, handed₂⟩ := @Flowing.step text _ _ _ flowing size
      obtain ⟨s', ran, phase, handed⟩ := (ih flowing₂ others).mpr more
      refine ⟨s', ?_, phase, ?_⟩
      · rw [run_cons, stepped₂]
        exact ran
      · rw [handed, handed₂, List.flatMap_cons, List.append_assoc]

/-! ## The Buffer that the request ends in -/

/-- The Buffer of a request that is no CONNECT is handed over, as far as the call lets it. -/
theorem Upgrades.step_plain (upgrades : Upgrades text s input s₂) (plain : s₂.delegate.isConnect = false) :
    ServedClient.step text input s =
      withhold s₂ >>= fun (result, rewriter) =>
        match result with
        | .error e => .ok { s with rewriter, phase := .failed (.rewriter e) }
        | .ok () => .ok { s with
            rewriter, phase := .opened, handed := s.handed ++ rewriter.impl.currentBuffer.content } := by
  have stops := upgrades.stops
  unfold ServedClient.step
  rcases upgrades.rewrites with phase | ⟨phase, bypass⟩
  · rw [phase]
    unfold ServedClient.negotiateRead
    rw [upgrades.rewrote]
    cases withheld : withhold s₂ with
    | error e => rfl
    | ok answer =>
      obtain ⟨result, rewriter⟩ := answer
      have flow : rewriter.delegate = s₂.delegate := (withhold_keeps withheld).2.2.1
      cases result with
      | error e => rfl
      | ok _ =>
        have kept : negotiated rewriter.impl.currentBuffer.size rewriter.delegate = (true, .opened) := by
          simp [negotiated, flow, plain, stops.negotiated]
        simp only [ok_bind, kept, if_true, pure_eq_ok]
  · rw [phase]
    unfold ServedClient.read
    dsimp only
    rw [if_neg (by simp [bypass]), upgrades.rewrote]
    refine congrArg _ (funext fun answer => ?_)
    obtain ⟨result, rewriter⟩ := answer
    cases result with
    | error e => rfl
    | ok _ => simp only [pure_eq_ok, ← phase]

/-! ## On fixed inputs -/

/-- A resolver that knows no address. -/
def noAddresses : AddressText := ⟨fun _ => none, fun _ => []⟩

/-- The first read of a client, where all of it is in one chunk. -/
def firstRead (bytes : Bytes) : Nat × Buffer := (1, inOneChunk bytes)

theorem firstRead_reads {bytes : Bytes} (some_bytes : bytes ≠ []) (few : bytes.length + maxBufferSize < sizeRange) :
    Reads (firstRead bytes) := ⟨inOneChunk_wf some_bytes, inOneChunk_below bytes, few⟩

/-- The loop of the first call. -/
def firstLoop (bytes : Bytes) : Checked (HttpMessageStreamRewriter HttpServerDataFlow) := do
  let s₁ ← carryIn 1 (inOneChunk bytes) init.rewriter
  parseLoop (delegate noAddresses) s₁.loopFuel s₁

theorem upgrades_first {bytes : Bytes} (some_bytes : bytes ≠ []) (few : bytes.length + maxBufferSize < sizeRange)
    (ran : firstLoop bytes = .ok s₂) (stopped : s₂.impl.stopped = true) (fits : s₂.impl.currentBuffer.size < sizeRange) :
    Upgrades noAddresses init (firstRead bytes) s₂ where
  reached := ⟨[], trivial, rfl⟩
  rewrites := Or.inl rfl
  running := rfl
  reads := firstRead_reads some_bytes few
  loop := by
    obtain ⟨s₁, carried, parsed⟩ := bind_eq_ok.mp ran
    exact ⟨s₁, carried, parsed⟩
  stopped := stopped
  fits := fits

/-- For every request that is no CONNECT and makes the parser report an upgrade, wherever it
stands in a connection: what has been read behind it, and what is read later, is handed over
in order and without an error, exactly if the request ends with its Buffer and every later
Buffer has as many bytes as that one. -/
theorem upgraded_passes_iff (upgrades : Upgrades text s input s₂) (plain : s₂.delegate.isConnect = false)
    (later : List (Nat × Buffer)) (all : ∀ i ∈ later, Reads i) :
    (∃ s', (machine text).run (input :: later) s = .ok s' ∧ s'.phase = .opened ∧
        s'.handed = s.handed ++ s₂.impl.currentBuffer.content ++ later.flatMap fun i => i.2.content) ↔
      s₂.impl.currentBufferOffset = s₂.impl.currentBuffer.size ∧
        ∀ i ∈ later, i.2.size = s₂.impl.currentBuffer.size := by
  have stops := upgrades.stops
  by_cases whole : s₂.impl.currentBufferOffset = s₂.impl.currentBuffer.size
  · have stepped := upgrades.step_plain plain
    rw [withhold_nothing (stops.token.trans whole), ok_bind] at stepped
    have flowing : Flowing s₂.impl.currentBuffer.size
        { s with rewriter := s₂, phase := .opened, handed := s.handed ++ s₂.impl.currentBuffer.content } :=
      ⟨rfl, plain, upgrades.stopped, stops.fine, stops.nothing, stops.token.trans whole⟩
    rw [run_cons, stepped, ok_bind]
    exact (flowing.run_iff all).trans (and_iff_right whole).symm
  · refine iff_of_false ?_ fun both => whole both.1
    rintro ⟨s', ran, phase, handed⟩
    have token : s₂.impl.currentTokenOffset ≠ s₂.impl.currentBuffer.size := fun same => whole (stops.token.symm.trans same)
    obtain ⟨s₁, stepped, ran⟩ := bind_eq_ok.mp ran
    have stepped : ServedClient.step text input s = .ok s₁ := stepped
    rw [upgrades.step_plain plain] at stepped
    obtain ⟨⟨result, rewriter⟩, withheld, stepped⟩ := bind_eq_ok.mp stepped
    rcases withhold_cuts stops.wf upgrades.fits token withheld with ⟨rfl, -⟩ | ⟨rfl, cut⟩
    · cases stepped
      have stuck : Stuck { s with rewriter, phase := .failed (.rewriter .blockTooLong) } := .failed rfl
      have opened := (stuck.run all ran).2 phase
      cases opened
    · cases stepped
      have stopped : rewriter.impl.stopped = true := (withhold_flagged withheld).stopped.trans upgrades.stopped
      have stalled : Stalled rewriter := stalled_of_cut stopped stops.fine cut
      have stuck : Stuck { s with
          rewriter, phase := .opened, handed := s.handed ++ rewriter.impl.currentBuffer.content } :=
        .clogged rfl ((congrArg _ cut.delegate).trans plain) stalled
      have length := congrArg List.length ((stuck.run all ran).1.symm.trans handed)
      have before := cut.before
      rw [cut.content] at length
      simp only [List.length_append, List.length_take, stops.wf.length_content] at length
      omega

def upgradeRequest : Bytes := ascii "GET http://a/ HTTP/1.1\r\nConnection: upgrade\r\nUpgrade: b\r\n\r\n"

theorem upgradeRequest_loop : (firstLoop upgradeRequest).map (fun s₂ => decide (s₂.impl.stopped = true ∧
    s₂.delegate.isConnect = false ∧ s₂.impl.currentBufferOffset = 51 ∧ s₂.impl.currentBuffer.size = 51)) = .ok true := by
  decide +kernel

/-- A request that ends with its Buffer, and a later Buffer of the size it has left. -/
theorem upgraded_passes_iff_same_size : ∃ s₂ s', firstLoop upgradeRequest = .ok s₂ ∧
    (machine noAddresses).run [firstRead upgradeRequest, firstRead (List.replicate 51 7)] init = .ok s' ∧
      s'.handed = s₂.impl.currentBuffer.content ++ List.replicate 51 7 := by
  have known := upgradeRequest_loop
  cases ran : firstLoop upgradeRequest with
  | error e =>
    rw [ran] at known
    cases known
  | ok s₂ =>
    rw [ran] at known
    obtain ⟨stopped, plain, offset, size⟩ := of_decide_eq_true (Except.ok.inj known)
    have upgrades : Upgrades noAddresses init (firstRead upgradeRequest) s₂ :=
      upgrades_first (by decide) (by decide) ran stopped (by rw [size]; decide)
    have all : ∀ i ∈ [firstRead (List.replicate 51 7)], Reads i := by
      intro i member
      obtain rfl := List.mem_singleton.mp member
      exact firstRead_reads (by decide) (by decide)
    obtain ⟨s', passes, -, handed⟩ := (upgraded_passes_iff upgrades plain _ all).mpr ⟨offset.trans size.symm, by
      intro i member
      obtain rfl := List.mem_singleton.mp member
      rw [size]
      rfl⟩
    exact ⟨s₂, s', rfl, passes, handed⟩

/-- The same request, and a Buffer of five bytes: the next hop gets an error. -/
theorem upgraded_five_bytes_refused :
    ((machine noAddresses).run [firstRead upgradeRequest, firstRead (ascii "hello")] init).map (·.phase) =
      .ok (.failed (.rewriter .blockTooLong)) := by
  decide +kernel

/-! ## CONNECT -/

/-- A CONNECT request has been read: Buffers go past the rewriter. -/
structure Tunnelled (s : ServedClient) : Prop where
  phase : s.phase = .opened
  connect : s.rewriter.delegate.isConnect = true

theorem Tunnelled.run (tunnelled : Tunnelled s) : (machine text).run later s =
    .ok { s with handed := s.handed ++ later.flatMap fun i => i.2.content } := by
  induction later generalizing s with
  | nil =>
    rw [List.flatMap_nil, List.append_nil]
    rfl
  | cons i rest ih =>
    have stepped : ServedClient.step text i s = .ok { s with handed := s.handed ++ i.2.content } := by
      unfold ServedClient.step ServedClient.read
      rw [tunnelled.phase]
      dsimp only
      rw [if_pos tunnelled.connect]
      simp only [pure_eq_ok, ← tunnelled.phase]
    rw [run_cons, stepped, ok_bind]
    have next : Tunnelled { s with handed := s.handed ++ i.2.content } := ⟨tunnelled.phase, tunnelled.connect⟩
    rw [ih next, List.flatMap_cons, List.append_assoc]

/-- The read that completes a CONNECT request, from the result of its call. -/
theorem Upgrades.step_connect (upgrades : Upgrades text s input s₂) (negotiating : s.phase = .negotiating)
    (connect : s₂.delegate.hasReadMethod = true ∧ s₂.delegate.isConnect = true) :
    ServedClient.step text input s =
      withhold s₂ >>= fun (result, rewriter) =>
        match result with
        | .error e => .ok { s with rewriter, phase := .failed (.rewriter e) }
        | .ok () => .ok { s with
            rewriter
            phase := if rewriter.impl.currentBuffer.size ≠ s₂.impl.currentBufferOffset then
                .failed .dataBeforeConnectRequestFinish else .opened } := by
  have stops := upgrades.stops
  unfold ServedClient.step
  rw [negotiating]
  unfold ServedClient.negotiateRead
  rw [upgrades.rewrote]
  cases withheld : withhold s₂ with
  | error e => rfl
  | ok answer =>
    obtain ⟨result, rewriter⟩ := answer
    have flow : rewriter.delegate = s₂.delegate := (withhold_keeps withheld).2.2.1
    cases result with
    | error e => rfl
    | ok _ =>
      by_cases same : rewriter.impl.currentBuffer.size = s₂.impl.currentBufferOffset
      · have opens : negotiated rewriter.impl.currentBuffer.size rewriter.delegate = (false, .opened) := by
          simp [negotiated, flow, connect, stops.negotiated, stops.ends, same]
        simp only [ok_bind, opens, Bool.false_eq_true, if_false, pure_eq_ok]
        rw [if_neg (not_not.mpr same)]
      · have fails : negotiated rewriter.impl.currentBuffer.size rewriter.delegate =
            (false, .dataBeforeConnectRequestFinish) := by
          simp [negotiated, flow, connect, stops.negotiated, stops.ends, same]
        simp only [ok_bind, fails, Bool.false_eq_true, if_false, pure_eq_ok]
        rw [if_pos same]

/-- For every CONNECT request that a client may begin with: what it sends behind the request
is handed over in order, or an error is reported, exactly if none of it comes in the Buffer
that the request ends in, or so much that the rewriter refuses to withhold it. -/
theorem connect_data_iff (upgrades : Upgrades text s input s₂) (negotiating : s.phase = .negotiating)
    (connect : s₂.delegate.hasReadMethod = true ∧ s₂.delegate.isConnect = true) (later : List (Nat × Buffer)) :
    (∃ s', (machine text).run (input :: later) s = .ok s' ∧ (s'.phase.reads = false ∨ s'.phase = .opened ∧
        s'.handed = s.handed ++ s₂.impl.currentBuffer.content.drop s₂.impl.currentBufferOffset ++
          later.flatMap fun i => i.2.content)) ↔
      s₂.impl.currentBufferOffset = s₂.impl.currentBuffer.size ∨ maxBufferSize < unconsumed s₂.impl := by
  have stops := upgrades.stops
  have stepped := upgrades.step_connect negotiating connect
  rw [run_cons, stepped]
  by_cases whole : s₂.impl.currentBufferOffset = s₂.impl.currentBuffer.size
  · refine iff_of_true ?_ (Or.inl whole)
    rw [withhold_nothing (stops.token.trans whole)]
    simp only [ok_bind, whole, ne_eq, not_true_eq_false, if_false]
    have tunnelled : Tunnelled { s with rewriter := s₂, phase := .opened } := ⟨rfl, connect.2⟩
    refine ⟨_, tunnelled.run, Or.inr ⟨rfl, ?_⟩⟩
    rw [← stops.wf.length_content, List.drop_length, List.append_nil]
  have token : s₂.impl.currentTokenOffset ≠ s₂.impl.currentBuffer.size := fun same => whole (stops.token.symm.trans same)
  rw [or_iff_right whole, unconsumed, ← stops.token]
  constructor
  · rintro ⟨s', ran, ends⟩
    by_contra short
    obtain ⟨s₁, stepped, ran⟩ := bind_eq_ok.mp ran
    obtain ⟨⟨result, rewriter⟩, withheld, stepped⟩ := bind_eq_ok.mp stepped
    rcases withhold_cuts stops.wf upgrades.fits token withheld with ⟨-, long⟩ | ⟨rfl, cut⟩
    · exact short long
    · dsimp only at stepped
      rw [if_neg (not_not.mpr cut.size)] at stepped
      obtain rfl := Except.ok.inj stepped
      have tunnelled : Tunnelled { s with rewriter, phase := .opened } :=
        ⟨rfl, (congrArg _ cut.delegate).trans connect.2⟩
      rw [tunnelled.run] at ran
      cases ran
      have before := cut.before
      rcases ends with failed | ⟨-, handed⟩
      · cases failed
      · have length := congrArg List.length handed
        simp only [List.length_append, List.length_drop, stops.wf.length_content] at length
        omega
  · intro long
    have refused : withhold s₂ =
        .ok (.error .blockTooLong, { s₂ with impl.pendingBufferLength := unconsumed s₂.impl }) := by
      unfold withhold
      dsimp only
      rw [if_pos token, if_pos long, unconsumed, ← stops.token]
    rw [refused]
    simp only [ok_bind]
    exact ⟨_, failed_run (by rfl) later, Or.inl rfl⟩

def connectRequest : Bytes := ascii "CONNECT a:80 HTTP/1.1\r\n\r\n"

theorem connectRequest_loop : (firstLoop connectRequest).map (fun s₂ => decide (s₂.impl.stopped = true ∧
    (s₂.delegate.hasReadMethod = true ∧ s₂.delegate.isConnect = true) ∧ s₂.impl.currentBufferOffset = 25 ∧
      s₂.impl.currentBuffer.size = 25)) = .ok true := by
  decide +kernel

/-- The data comes in a Buffer of its own. -/
theorem connect_data_iff_own_buffer : ∃ s₂ s', firstLoop connectRequest = .ok s₂ ∧
    (machine noAddresses).run [firstRead connectRequest, firstRead (ascii "hello")] init = .ok s' ∧
      (s'.phase.reads = false ∨ s'.phase = .opened ∧
        s'.handed = s₂.impl.currentBuffer.content.drop s₂.impl.currentBufferOffset ++ ascii "hello") := by
  have known := connectRequest_loop
  cases ran : firstLoop connectRequest with
  | error e =>
    rw [ran] at known
    cases known
  | ok s₂ =>
    rw [ran] at known
    obtain ⟨stopped, connect, offset, size⟩ := of_decide_eq_true (Except.ok.inj known)
    have upgrades : Upgrades noAddresses init (firstRead connectRequest) s₂ :=
      upgrades_first (by decide) (by decide) ran stopped (by rw [size]; decide)
    obtain ⟨s', passes, handed⟩ :=
      (connect_data_iff upgrades rfl connect [firstRead (ascii "hello")]).mpr (Or.inl (offset.trans size.symm))
    exact ⟨s₂, s', rfl, passes, handed⟩

/-- It comes with the request: the handler of `Open` gets no error, and nothing is handed over. -/
theorem connect_swallows_five_bytes :
    ((machine noAddresses).run [firstRead (connectRequest ++ ascii "hello")] init).map (fun s => (s.phase, s.handed)) =
      .ok (.opened, []) := by
  decide +kernel

end LibNekit.Guarantees.UpgradedStream
