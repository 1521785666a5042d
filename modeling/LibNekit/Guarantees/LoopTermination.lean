import LibNekit.Source.Rewriter.Replies

/-!
# The loop of `RewriteBuffer` ends

Each pass lowers twice the number of unconsumed bytes, plus one while the parser is not at
the end of a header block. The bytes are counted in an `int` on the way, so the rule needs
that what the parser returns goes through one.
-/
namespace LibNekit.Guarantees.LoopTermination

open LibNekit.Source LibNekit.Library HttpParser Rewriter HttpMessageStreamRewriter

variable {δ : Type} {delegate : Delegate δ} {s s₁ s₂ s' : HttpMessageStreamRewriter δ} {n : Nat} {parser parser' : HttpParser}

/-- `n` passes of the loop. -/
inductive Passes (delegate : Delegate δ) : Nat → HttpMessageStreamRewriter δ → HttpMessageStreamRewriter δ → Prop where
  | stay (s : HttpMessageStreamRewriter δ) : Passes delegate 0 s s
  | pass {n : Nat} {s s₁ s' : HttpMessageStreamRewriter δ} (unfinished : s.unfinished = true)
      (ran : parseStep delegate s = .ok s₁) (more : Passes delegate n s₁ s') : Passes delegate (n + 1) s s'

/-- The next pass: the parser's call returns `n`, and the pass ends in `s'`. -/
def Pass (delegate : Delegate δ) (s : HttpMessageStreamRewriter δ) (n : Nat) (parser parser' : HttpParser)
    (s' : HttpMessageStreamRewriter δ) : Prop :=
  ∃ slice r d, s.nextCall = some (parser, slice) ∧
    (execute parser slice.bytes).run (parserSettings delegate slice.data) (s.impl, s.delegate) = .ok ((n, parser'), r, d) ∧
    afterExecute delegate (parsedUpTo n parser' r d) = .ok s'

/-- The parser's call consumes a byte, or fails, or comes to where the next one does; and
behind the pass the bytes that it consumed are the ones that are gone. -/
def Accounted (delegate : Delegate δ) (s : HttpMessageStreamRewriter δ) : Prop :=
  ∀ n parser parser' s', Pass delegate s n parser parser' s' →
    (0 < n ∨ Fatal parser'.httpErrno ∨ parser.state ≠ .headersDone ∧ parser'.state = .headersDone) ∧
      unconsumed s'.impl + n = unconsumed s.impl

/-- What the parser's call returns goes through an `int`. -/
def ThroughInt (delegate : Delegate δ) (s : HttpMessageStreamRewriter δ) : Prop :=
  ∀ n parser parser' s', Pass delegate s n parser parser' s' → throughInt n = n

/-- The size of the Buffer is a `size_t` in front of every pass. -/
def SizeT (delegate : Delegate δ) (s : HttpMessageStreamRewriter δ) : Prop :=
  ∀ k s₁, Passes delegate k s s₁ → s₁.impl.currentBuffer.size < sizeRange

/-! ## A pass -/

theorem pass_of_step (held : Held s.impl) (unfinished : s.unfinished = true) (ran : parseStep delegate s = .ok s') :
    ∃ n parser parser', Pass delegate s n parser parser' s' := by
  obtain ⟨parser, slice, next, -, -, ran⟩ := parseStep_ran held.wf unfinished ran
  obtain ⟨n, parser', r, d, executed, ran⟩ := overSlice_ran ran
  exact ⟨n, parser, parser', slice, r, d, next, executed, ran⟩

theorem answers (outside : Outside delegate) {data : BytePtr} :
    Answers (parserSettings delegate data) (fun _ => True) :=
  parserSettings_answers outside fun _ _ _ => trivial

/-- The parser's call stays inside the Buffer. -/
theorem pass_inside (outside : Outside delegate) (held : Held s.impl) (unfinished : s.unfinished = true)
    (pass : Pass delegate s n parser parser' s') : s.impl.currentBufferOffset + n ≤ s.impl.currentBuffer.size := by
  obtain ⟨slice, r, d, next, executed, ran⟩ := pass
  obtain ⟨some_bytes, step⟩ := @parseStep_next _ delegate _ _ _ held.wf unfinished next
  have completed : parseStep delegate s = .ok s' := by
    rw [step, overSlice, executed]
    exact ran
  obtain ⟨parser₁, slice₁, next₁, -, inside, -⟩ := parseStep_ran held.wf unfinished completed
  obtain ⟨rfl, rfl⟩ := Prod.mk.inj (Option.some.inj (next.symm.trans next₁))
  obtain ⟨-, consumes⟩ := execute_returns (answers outside) trivial (nextCall_cleared next).1 some_bytes executed
  have most := consumes.inside
  omega

/-- What a pass does to the count. -/
theorem pass_counts (outside : Outside delegate) (held : Held s.impl) (unfinished : s.unfinished = true)
    (small : s.impl.currentBuffer.size < sizeRange) (pass : Pass delegate s n parser parser' s') :
    n ≤ unconsumed s.impl ∧ unconsumed s'.impl = sizeSub (unconsumed s.impl) (throughInt n) := by
  have inside := pass_inside outside held unfinished pass
  obtain ⟨slice, r, d, next, executed, ran⟩ := pass
  have kept := execute_kept outside executed
  have ended := afterExecute_over outside ran
  have moved : Held (parsedUpTo n parser' r d).impl := ⟨(kept.held held).wf, (kept.held held).below⟩
  constructor
  · unfold unconsumed
    rw [sizeSub_eq small (by omega)]
    omega
  · rw [ended.kept.unconsumed moved, ← kept.unconsumed held]
    unfold unconsumed parsedUpTo sizeSub sizeAdd sizeRange
    dsimp only
    omega

/-- The parser's call. -/
theorem pass_progress (outside : Outside delegate) (held : Held s.impl) (unfinished : s.unfinished = true)
    (pass : Pass delegate s n parser parser' s') :
    0 < n ∨ Fatal parser'.httpErrno ∨ parser.state ≠ .headersDone ∧ parser'.state = .headersDone := by
  obtain ⟨slice, r, d, next, executed, -⟩ := pass
  obtain ⟨some_bytes, -⟩ := @parseStep_next _ delegate _ _ _ held.wf unfinished next
  obtain ⟨-, consumes⟩ := execute_returns (answers outside) trivial (nextCall_cleared next).1 some_bytes executed
  rcases Nat.eq_zero_or_pos n with none | some_consumed
  · exact Or.inr (consumes.progress none)
  · exact Or.inl some_consumed

/-- A pass accounts for its bytes exactly if their number goes through an `int`. -/
theorem accounted_iff (outside : Outside delegate) (held : Held s.impl) (unfinished : s.unfinished = true)
    (small : s.impl.currentBuffer.size < sizeRange) : Accounted delegate s ↔ ThroughInt delegate s := by
  refine forall₄_congr fun n parser parser' s' => forall_congr' fun pass => ?_
  obtain ⟨most, after⟩ := pass_counts outside held unfinished small pass
  have below : unconsumed s.impl < sizeRange := sizeSub_lt _ _
  have below' : throughInt n < sizeRange := by
    unfold throughInt sizeRange
    split <;> omega
  rw [after]
  constructor
  · rintro ⟨-, count⟩
    unfold sizeSub sizeRange at *
    omega
  · intro exact_int
    refine ⟨pass_progress outside held unfinished pass, ?_⟩
    rw [exact_int, sizeSub_eq below most]
    omega

/-! ## The measure -/

/-- Twice the unconsumed bytes, and one where the next call may leave them as they are. -/
def rank (s : HttpMessageStreamRewriter δ) : Nat :=
  2 * unconsumed s.impl + if s.parser.state = .headersDone then 0 else 1

/-- A pass lowers the rank, or it is the last one. -/
theorem pass_ranks (outside : Outside delegate) (accounted : Accounted delegate s) (pass : Pass delegate s n parser parser' s') :
    rank s' < rank s ∨ s'.unfinished = false := by
  obtain ⟨progress, count⟩ := accounted n parser parser' s' pass
  obtain ⟨slice, r, d, next, -, ran⟩ := pass
  have state := (nextCall_cleared next).2
  have ended := afterExecute_over outside ran
  have same : s'.parser = parser' := ended.parser
  rcases progress with some_consumed | fatal | ⟨before, after⟩
  · left
    unfold rank
    split <;> split <;> omega
  · right
    have failed : (parsedUpTo n parser' r d).parsing = false := by
      unfold HttpMessageStreamRewriter.parsing
      exact decide_eq_false (not_or.mpr fatal)
    rcases ended.failed failed with errored | stopped <;> simp [HttpMessageStreamRewriter.unfinished, *]
  · left
    unfold rank
    rw [same, if_pos after, if_neg (state ▸ before)]
    omega

/-- The number of passes, by induction on them. -/
theorem passes_bounded (outside : Outside delegate) (held : Held s.impl)
    (accounted : ∀ k s₁, Passes delegate k s s₁ → s₁.unfinished = true → Accounted delegate s₁)
    (passes : Passes delegate n s s') : n ≤ rank s + 1 := by
  induction passes with
  | stay s => exact Nat.zero_le _
  | @pass n s s₁ s' unfinished ran more ih =>
    have carries := parseStep_carries outside held unfinished ran
    obtain ⟨count, parser, parser', pass⟩ := pass_of_step held unfinished ran
    have bound := ih carries.held fun k s₂ later => accounted (k + 1) s₂ (.pass unfinished ran later)
    rcases pass_ranks outside (accounted 0 s (.stay s) unfinished) pass with lower | finished
    · omega
    · cases more with
      | stay => omega
      | pass unfinished₁ => exact absurd (finished.symm.trans unfinished₁) (by decide)

/-! ## Every call -/

/-- The loop ends, and accounts for its bytes until then. -/
structure Terminates (delegate : Delegate δ) (s : HttpMessageStreamRewriter δ) : Prop where
  accounted : ∀ k s₁, Passes delegate k s s₁ → s₁.unfinished = true → Accounted delegate s₁
  bounded : ∀ k s₁, Passes delegate k s s₁ → k ≤ 2 * unconsumed s.impl + 2

theorem passes_held (outside : Outside delegate) (held : Held s.impl) (passes : Passes delegate n s s') : Held s'.impl := by
  induction passes with
  | stay s => exact held
  | pass unfinished ran more ih => exact ih (parseStep_carries outside held unfinished ran).held

/-- For any Buffer, any carried-over state and any delegate, whatever the stream is: the
loop ends and accounts for its bytes exactly if what each call of the parser returns goes
through an `int`. -/
theorem terminates_iff (outside : Outside delegate) (next : Nat) (buffer : Buffer) (wf : buffer.WellFormed)
    (below : buffer.Below next) (s s₁ : HttpMessageStreamRewriter δ) (carried : carryIn next buffer s = .ok s₁)
    (sizeT : SizeT delegate s₁) :
    (Terminates delegate s₁ ∧ ∀ r r', Held r → Uses r r' → unconsumed r' = unconsumed r) ↔
      ∀ k s₂, Passes delegate k s₁ s₂ → s₂.unfinished = true → ThroughInt delegate s₂ := by
  have held := (carryIn_ran wf below carried).held
  have each : ∀ k s₂, Passes delegate k s₁ s₂ → s₂.unfinished = true → (Accounted delegate s₂ ↔ ThroughInt delegate s₂) :=
    fun k s₂ passes unfinished => accounted_iff outside (passes_held outside held passes) unfinished (sizeT k s₂ passes)
  constructor
  · rintro ⟨terminates, -⟩ k s₂ passes unfinished
    exact (each k s₂ passes unfinished).mp (terminates.accounted k s₂ passes unfinished)
  · intro exact_int
    have accounted : ∀ k s₂, Passes delegate k s₁ s₂ → s₂.unfinished = true → Accounted delegate s₂ :=
      fun k s₂ passes unfinished => (each k s₂ passes unfinished).mpr (exact_int k s₂ passes unfinished)
    refine ⟨⟨accounted, fun k s₂ passes => ?_⟩, fun r r' holds uses => (uses.moves).unconsumed holds⟩
    have bound := passes_bounded outside held accounted passes
    unfold rank at bound
    split at bound <;> omega

/-! ## Fuel -/

/-- Where the passes are bounded, more fuel changes nothing. -/
theorem parseLoop_fuel {fuel : Nat} (bounded : ∀ k s₁, Passes delegate k s s₁ → s₁.unfinished = true → k < fuel) (more : Nat) :
    parseLoop delegate (fuel + more) s = parseLoop delegate fuel s := by
  induction fuel generalizing s with
  | zero =>
    have finished : s.unfinished = false :=
      Bool.eq_false_iff.mpr fun unfinished => absurd (bounded 0 s (.stay s) unfinished) (Nat.lt_irrefl 0)
    cases more <;> simp [parseLoop, finished]
  | succ fuel ih =>
    rw [Nat.succ_add, parseLoop, parseLoop]
    cases unfinished : s.unfinished with
    | false => rfl
    | true =>
      cases ran : parseStep delegate s with
      | error e => rfl
      | ok s₁ =>
        refine ih fun k s₂ passes more => Nat.lt_of_succ_lt_succ ?_
        exact bounded (k + 1) s₂ (.pass unfinished ran passes) more

/-- The passes of a loop that ends. -/
theorem passes_along {Condition : HttpMessageStreamRewriter δ → Prop} {fuel k : Nat}
    (along : LoopAlong delegate Condition fuel s) (ended : parseLoop delegate fuel s = .ok s')
    (passes : Passes delegate k s s₁) : (s₁.unfinished = true ∧ Condition s₁) ∨ s₁ = s' := by
  induction passes generalizing fuel with
  | stay s =>
    cases unfinished : s.unfinished with
    | false =>
      right
      cases fuel <;> simpa [parseLoop, unfinished] using ended
    | true =>
      cases fuel with
      | zero => simp [parseLoop, unfinished] at ended
      | succ fuel => exact Or.inl ⟨rfl, (along unfinished).1⟩
  | pass unfinished ran more ih =>
    cases fuel with
    | zero => simp [parseLoop, unfinished] at ended
    | succ fuel =>
      rw [parseLoop, if_pos unfinished, ran] at ended
      exact ih ((along unfinished).2 _ ran) ended

/-- In a short Buffer every number of bytes goes through an `int`. -/
theorem throughInt_of_short (outside : Outside delegate) (held : Held s.impl) (unfinished : s.unfinished = true)
    (short : s.impl.currentBuffer.size < 2 ^ 31) : ThroughInt delegate s := by
  intro n parser parser' s' pass
  have inside := pass_inside outside held unfinished pass
  exact throughInt_eq (by omega)

/-- A whole request and the beginning of the next one. -/
def requests : HttpMessageStreamRewriter Unit :=
  { make .request () with
    impl.next := 1
    impl.currentBuffer := inOneChunk (ascii "GET / HTTP/1.1\r\nA: b\r\n\r\nGET /")
    impl.currentBufferOffset := 0 }

theorem terminates_iff_requests :
    Terminates (idle Unit) requests ∧ ∀ r r', Held r → Uses r r' → unconsumed r' = unconsumed r := by
  have outside := (idle_watches Unit).outside
  have wf : requests.impl.currentBuffer.WellFormed := inOneChunk_wf (by decide)
  have below : requests.impl.currentBuffer.Below 1 := inOneChunk_below _
  have along : LoopAlong (idle Unit) (fun s => s.impl.currentBuffer.size < 2 ^ 31) 20 requests := by decide +kernel
  have ends : (parseLoop (idle Unit) 20 requests).map (fun s => decide (s.impl.currentBuffer.size < 2 ^ 31)) = .ok true := by
    decide +kernel
  have short : ∀ k s₁, Passes (idle Unit) k requests s₁ → s₁.impl.currentBuffer.size < 2 ^ 31 := by
    intro k s₁ passes
    cases ended : parseLoop (idle Unit) 20 requests with
    | error e =>
      rw [ended] at ends
      cases ends
    | ok s' =>
      rw [ended] at ends
      rcases passes_along along ended passes with ⟨-, small⟩ | rfl
      · exact small
      · exact of_decide_eq_true (Except.ok.inj ends)
  refine (terminates_iff outside 1 _ wf below (make .request ()) requests rfl ?_).mpr ?_
  · exact fun k s₁ passes => Nat.lt_trans (short k s₁ passes) (by decide)
  · exact fun k s₁ passes unfinished => throughInt_of_short outside (passes_held outside ⟨wf, below⟩ passes) unfinished
      (short k s₁ passes)

/-! ## A piece of a body that is too long -/

/-- A response whose body goes to the end of the stream, and a chunk of it. -/
structure Stuck (bytes : Bytes) (s : HttpMessageStreamRewriter Unit) : Prop where
  state : s.parser.state = .bodyIdentityEof
  parsing : s.parsing = true
  buffer : s.impl.currentBuffer = inOneChunk bytes
  offset : s.impl.currentBufferOffset = 0
  errored : s.impl.errored = false
  stopped : s.impl.stopped = false
  message : s.impl.processMessageComplete = false
  header : s.impl.processHeaderComplete = false

variable {bytes : Bytes}

/-- The parser takes all of it. -/
theorem execute_eof {σ : Type} {handler : Callback → σ → Checked (Reply × σ)} {x x' : σ}
    (state : parser.state = .bodyIdentityEof) (clear : parser.httpErrno = .ok) (some_bytes : bytes ≠ [])
    (answered : handler (.data .body 0 bytes.length) x = .ok ({}, x')) :
    (execute parser bytes).run handler x = .ok ((bytes.length, parser), x') := by
  have length := List.length_pos_iff.mpr some_bytes
  have entry : entryFrame parser = ⟨0, parser, fun _ => none⟩ := by
    unfold entryFrame
    rw [state]
    rfl
  have here : bytes[(entryFrame parser).p]? = some bytes[0] := by
    rw [entry]
    exact List.getElem?_eq_getElem length
  have pass : iteration bytes (entryFrame parser) bytes[0] =
      Run.next { (entryFrame parser).mark .body with p := bytes.length - 1 } := by
    rw [entry]
    cases parser
    cases state
    rfl
  have same : parser.setErrno (({} : Reply).errno (.cbData .body)) = parser := by
    rw [show ({} : Reply).errno (.cbData .body) = parser.httpErrno from clear.symm]
    rfl
  have feeds : Feeds handler bytes (entryFrame parser) x
      (fun n parser' s => (n, parser') = (bytes.length, parser) ∧ s = x') False := by
    refine Feeds.silent here pass (by rw [entry]; exact Nat.zero_le _) ?_
    rw [entry]
    refine @Feeds.report _ _ _ _ _ _ _ .body 0 (by show bytes.length - 1 + 1 = _; omega) clear rfl ?_
    rw [Nat.sub_zero, answered]
    exact ⟨by rw [← same]; rfl, rfl⟩
  obtain ⟨⟨done, s⟩, ran, result, final⟩ := (execute_outcome clear some_bytes feeds).exists_ok
  rw [ran]
  exact congrArg Except.ok (Prod.ext result final)

/-- A number of bytes that comes to nothing in an `int` leaves the loop where it is. -/
theorem stuck_step {s : HttpMessageStreamRewriter Unit} (some_bytes : bytes ≠ []) (nothing : throughInt bytes.length = 0)
    (stuck : Stuck bytes s) : s.unfinished = true ∧ ∃ s', parseStep (idle Unit) s = .ok s' ∧ Stuck bytes s' := by
  have wf : s.impl.currentBuffer.WellFormed := stuck.buffer ▸ inOneChunk_wf some_bytes
  have length := List.length_pos_iff.mpr some_bytes
  have size : s.impl.currentBuffer.size = bytes.length := by
    rw [stuck.buffer]
    rfl
  have unfinished : s.unfinished = true := by
    refine decide_eq_true ⟨?_, by simp [stuck.errored], by simp [stuck.stopped]⟩
    rw [stuck.offset, size]
    exact Nat.ne_of_lt length
  have resumed : s.parser.pause false = .ok (s.parser.setErrno .ok) := by
    unfold HttpParser.pause
    exact if_pos (of_decide_eq_true stuck.parsing)
  have next : s.nextCall = some (s.parser.setErrno .ok, ⟨⟨0, 0⟩, bytes⟩) := by
    unfold nextCall
    rw [resumed, stuck.buffer, stuck.offset, inOneChunk_slice some_bytes]
  obtain ⟨-, step⟩ := @parseStep_next _ (idle Unit) _ _ _ wf unfinished next
  have answered : parserSettings (idle Unit) ⟨0, 0⟩ (.data .body 0 bytes.length) (s.impl, s.delegate) =
      .ok ({}, { s.impl with setToken := true }, s.delegate) := rfl
  have executed := @execute_eof (s.parser.setErrno .ok) bytes _ _ _ _ stuck.state rfl some_bytes answered
  refine ⟨unfinished, { parsedUpTo bytes.length (s.parser.setErrno .ok) { s.impl with setToken := true } s.delegate with
    impl := (parsedUpTo bytes.length (s.parser.setErrno .ok) { s.impl with setToken := true } s.delegate).impl.settleToken }, ?_, ?_⟩
  · rw [step, overSlice, executed, ok_bind]
    exact afterExecute_calm stuck.message rfl stuck.header
  · refine ⟨stuck.state, rfl, stuck.buffer, ?_, stuck.errored, stuck.stopped, stuck.message, stuck.header⟩
    show sizeAdd s.impl.currentBufferOffset (throughInt bytes.length) = 0
    rw [nothing, stuck.offset]
    rfl

/-- So the loop makes as many passes as one likes. -/
theorem stuck_passes {s : HttpMessageStreamRewriter Unit} (some_bytes : bytes ≠ []) (nothing : throughInt bytes.length = 0)
    (stuck : Stuck bytes s) (n : Nat) : ∃ s', Passes (idle Unit) n s s' ∧ s'.unfinished = true := by
  induction n generalizing s with
  | zero => exact ⟨s, .stay s, (stuck_step some_bytes nothing stuck).1⟩
  | succ n ih =>
    obtain ⟨unfinished, s₁, ran, stuck₁⟩ := stuck_step some_bytes nothing stuck
    obtain ⟨s', passes, more⟩ := ih stuck₁
    exact ⟨s', .pass unfinished ran passes, more⟩

/-- The beginning of a response whose body is not delimited, and then 4 GiB more in one chunk. -/
theorem endless_after_four_gigabytes :
    ∃ s s₁, (make .response ()).rewriteBuffer (idle Unit) 1 (inOneChunk (ascii "HTTP/1.1 200 OK\r\n\r\na")) = .ok (.ok (), s) ∧
      carryIn 1 (inOneChunk (List.replicate (2 ^ 32) 0)) s = .ok s₁ ∧
        ∀ n, ∃ s', Passes (idle Unit) n s₁ s' ∧ s'.unfinished = true := by
  have first : ((make .response ()).rewriteBuffer (idle Unit) 1 (inOneChunk (ascii "HTTP/1.1 200 OK\r\n\r\na"))).map
      (fun done => decide (done.1 = .ok () ∧ done.2.parser.state = .bodyIdentityEof ∧ done.2.parsing = true ∧
        done.2.impl.pendingBufferLength = 0 ∧ done.2.impl.errored = false ∧ done.2.impl.stopped = false ∧
        done.2.impl.processMessageComplete = false ∧ done.2.impl.processHeaderComplete = false)) = .ok true := by decide +kernel
  cases ran : (make .response ()).rewriteBuffer (idle Unit) 1 (inOneChunk (ascii "HTTP/1.1 200 OK\r\n\r\na")) with
  | error e =>
    rw [ran] at first
    cases first
  | ok done =>
    rw [ran] at first
    obtain ⟨result, s⟩ := done
    obtain ⟨fine, state, parsing, nothing, errored, stopped, message, header⟩ := of_decide_eq_true (Except.ok.inj first)
    have fine : result = .ok () := fine
    refine ⟨s, _, congrArg (fun result => Except.ok (result, s)) fine, if_neg (not_not.mpr nothing), fun n => ?_⟩
    have length : (List.replicate (2 ^ 32) (0 : UInt8)).length = 2 ^ 32 := List.length_replicate
    refine @stuck_passes (List.replicate (2 ^ 32) 0) _ ?_ ?_ ?_ n
    · exact List.length_pos_iff.mp (by rw [length]; exact Nat.two_pow_pos 32)
    · rw [length]
      decide
    · exact ⟨state, parsing, rfl, rfl, errored, stopped, message, header⟩

end LibNekit.Guarantees.LoopTermination
