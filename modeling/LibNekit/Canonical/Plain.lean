import LibNekit.Canonical.BodyBytes
import LibNekit.Canonical.Calls

/-!
# Plain streams

In a stream of plain messages every byte that lies outside of any element settles what is
in front of it, but for the LF that ends a header block. So a call withholds the element
that is under way, or nothing, or the end of a header block.
-/
namespace LibNekit.Canonical

open LibNekit.Source LibNekit.Source.Rewriter LibNekit.Source.HttpParser LibNekit.Source.HttpMessageStreamRewriter
  LibNekit.Library

variable {δ : Type} {setup : Setup} {l l' last : Reader} {c : UInt8} {bytes : Bytes} {events : List Event} {parser next : HttpParser}
  {phase' : Phase}

namespace Reader

theorem step_plain (plain : setup.plain = true) (stepped : l.step setup c = some (l', events)) : l.plain c = true := by
  unfold step at stepped
  split at stepped
  · cases stepped
  · next reads => exact plain_of_reads reads plain

theorem readIdentity_settles (state : parser.state = .bodyIdentity) (readBy : readBody parser c = some (next, phase', events)) :
    .settled ∈ events := by
  rw [readBody_identity state] at readBy
  split at readBy
  · cases readBy
  · split at readBy <;> cases readBy <;> simp

/-- Every byte of a plain body settles. -/
theorem body_settles (plain : setup.plain = true) (phase : l.phase = .body) (stepped : l.step setup c = some (l', events)) :
    .settled ∈ events := by
  have allowed := step_plain plain stepped
  unfold Reader.plain at allowed
  rw [phase] at allowed
  exact readIdentity_settles (of_decide_eq_true allowed) (step_body phase stepped).1

theorem readIdle_begins (other : ¬(c = cr ∨ c = lf)) (readBy : readIdle parser c = some (next, phase', events)) :
    phase'.inToken = true := by
  unfold readIdle at readBy
  split at readBy
  · rw [if_neg other] at readBy
    split at readBy
    · cases readBy
    · obtain ⟨method, -, same⟩ := Option.map_eq_some_iff.mp readBy
      cases same
      rfl
  · split at readBy <;> cases readBy
    rfl
  · rw [if_neg other] at readBy
    cases readBy
  · cases readBy

/-- A message begins at once. -/
theorem idle_begins (plain : setup.plain = true) (phase : l.phase = .idle) (stepped : l.step setup c = some (l', events)) :
    l'.phase.inToken = true := by
  have allowed := step_plain plain stepped
  unfold Reader.plain at allowed
  rw [phase] at allowed
  have allowed : c ≠ cr ∧ c ≠ lf := of_decide_eq_true allowed
  obtain ⟨readBy, -⟩ := step_read (by rw [phase]; nofun) stepped
  rw [phase] at readBy
  exact readIdle_begins (not_or.mpr allowed) readBy

/-- Behind a header block there is a body, or the message is at its end. -/
theorem afterHeaders_cases (parser : HttpParser) :
    ((afterHeaders parser).2.1 = .body ∧ (afterHeaders parser).2.2 = []) ∨
      ∃ upgrade, .messageComplete upgrade ∈ (afterHeaders parser).2.2 := by
  unfold afterHeaders
  dsimp only
  split_ifs <;> first
    | exact Or.inl ⟨rfl, rfl⟩
    | exact Or.inr ⟨parser.upgrade, by simp [complete]⟩

theorem readHeadersDone_cases (readBy : readHeadersDone parser c = some (next, phase', events)) :
    c = lf ∧ (phase' = .body ∨ ∃ upgrade, .messageComplete upgrade ∈ events) := by
  simp only [readHeadersDone] at readBy
  split at readBy <;> cases readBy
  next isLf =>
  refine ⟨isLf, ?_⟩
  rcases afterHeaders_cases parser with ⟨body, -⟩ | ⟨upgrade, complete⟩
  · exact Or.inl body
  · exact Or.inr ⟨upgrade, List.mem_cons_of_mem _ complete⟩

/-- A piece of a plain stream that begins and ends outside of any element, and in which
nothing is told and nothing settled, is the end of a header block. -/
theorem unsettled_plain (plain : setup.plain = true) (sound : l.Sound setup) (outside : l.phase.inToken = false)
    (outside' : last.phase.inToken = false) (ran : run setup l bytes = some (last, events)) (unsettled : .settled ∉ events)
    (passive : ∀ event ∈ events, event.passive = true) :
    bytes = [] ∨ (∃ lag, l.phase = .headersDone lag) ∧ bytes = [lf] ∧ last.phase = .body := by
  cases bytes with
  | nil => exact Or.inl rfl
  | cons c bytes =>
    obtain ⟨next, first, rest, stepped, later, rfl⟩ := run_cons_some ran
    cases phase : l.phase with
    | idle =>
      have told := run_leaves (step_sound sound stepped) (idle_begins plain phase stepped) outside' later
      cases passive _ (List.mem_append_right _ told)
    | body => exact absurd (List.mem_append_left _ (body_settles plain phase stepped)) unsettled
    | stopped =>
      have allowed := step_plain plain stepped
      unfold Reader.plain at allowed
      rw [phase] at allowed
      cases allowed
    | headersDone lag =>
      right
      obtain ⟨readBy, -⟩ := step_read (by rw [phase]; nofun) stepped
      rw [phase] at readBy
      obtain ⟨rfl, body | ⟨upgrade, complete⟩⟩ := readHeadersDone_cases readBy
      · cases bytes with
        | nil =>
          cases later
          exact ⟨⟨lag, rfl⟩, rfl, body⟩
        | cons c bytes =>
          obtain ⟨_, second, more, stepped, -, rfl⟩ := run_cons_some later
          have settled := body_settles plain body stepped
          exact absurd (List.mem_append_right _ (List.mem_append_left _ settled)) unsettled
      · cases passive _ (List.mem_append_left _ complete)
    | _ =>
      rw [phase] at outside
      cases outside

/-- The phases of a plain stream do not hold much. -/
theorem run_held (plain : setup.plain = true) (sound : l.Sound setup) (some_bytes : bytes ≠ [])
    (ran : run setup l bytes = some (last, events)) : last.phase.held.length ≤ 8004 := by
  induction bytes generalizing l events with
  | nil => exact absurd rfl some_bytes
  | cons c bytes ih =>
    obtain ⟨next, first, rest, stepped, later, rfl⟩ := run_cons_some ran
    cases bytes with
    | cons c' bytes => exact ih (step_sound sound stepped) (List.cons_ne_nil _ _) later
    | nil =>
      cases later
      have lengths := congrArg List.length (step_takes sound stepped).bytes
      simp only [List.length_append, List.length_singleton] at lengths
      have before : l.phase.held.length ≤ 8003 := by
        have allowed := step_plain plain stepped
        unfold Reader.plain at allowed
        split at allowed
        · next phase => simp [phase, Phase.held]
        · next phase => simp [phase, Phase.held]
        · cases allowed
        · exact of_decide_eq_true allowed
      omega

/-- Nothing is read behind a message that upgrades the connection. -/
theorem run_stopped (plain : setup.plain = true) (stopped : l.phase = .stopped)
    (ran : run setup l bytes = some (last, events)) : last.phase = .stopped := by
  cases bytes with
  | nil =>
    cases ran
    exact stopped
  | cons c bytes =>
    obtain ⟨next, first, rest, stepped, -, rfl⟩ := run_cons_some ran
    have allowed := step_plain plain stepped
    unfold Reader.plain at allowed
    rw [stopped] at allowed
    cases allowed

end Reader

namespace Scene

variable {y : Scene δ} {s s' : HttpMessageStreamRewriter δ} {g : Draft δ} {pending : Bytes} {input : Nat × Buffer} {token : Nat}

/-- Between two calls in a plain stream. -/
structure Paused (y : Scene δ) (s : HttpMessageStreamRewriter δ) (l : Reader) (pending : Bytes) : Prop where
  withholds : y.Withholds s l pending
  idle : l.phase = .idle → pending = []

/-- Where the token is when a plain stream is left outside of any element: in front of at most
the end of a header block. -/
theorem Lag.near {before : Nat} {opened : Draft δ} {unread : Bytes} (plain : y.setup.plain = true) (some_bytes : unread ≠ [])
    (ahead : ∀ lag, l.phase ≠ .headersDone lag) (behind : ∀ lag, last.phase ≠ .headersDone lag)
    (outside : last.phase.inToken = false) (lag : y.Lag before opened l unread token g last) :
    token ≤ g.out.length ∧ g.out.length ≤ token + 2 ∧ (last.phase = .idle → token = g.out.length) := by
  obtain ⟨m, out, rest, tail, sound, silent, ran, unsettled, passive, put, since⟩ := lag.since
  have bytes := Reader.run_takes sound ran
  rw [Phase.held_of_outside silent, Phase.held_of_outside outside, List.nil_append, List.append_nil] at bytes
  have length := congrArg List.length put
  rw [List.length_append, show tail.flatMap Event.bytes = rest from bytes.symm] at length
  rcases Reader.unsettled_plain plain sound silent outside ran unsettled passive with rfl | ⟨⟨k, phase⟩, rfl, body⟩
  · cases ran
    rcases since with set | ⟨k, -, phase, -⟩ | ⟨-, -, none, -⟩
    · rw [List.length_nil] at length
      omega
    · exact absurd phase (behind k)
    · exact absurd none.symm some_bytes
  · rw [List.length_singleton] at length
    rcases since with set | ⟨k', small, -, set⟩ | ⟨rfl, -, -, -⟩
    · exact ⟨by omega, by omega, by rw [body]; nofun⟩
    · exact ⟨by omega, by omega, by rw [body]; nofun⟩
    · exact absurd phase (ahead k)

/-- How a call in a plain stream ends. -/
structure Hands (y : Scene δ) (s : HttpMessageStreamRewriter δ) (l : Reader) (pending : Bytes) (events : List Event)
    (last : Reader) (done : Except RewriterError Unit × HttpMessageStreamRewriter δ) : Prop where
  ok : done.1 = .ok ()
  wf : done.2.impl.currentBuffer.WellFormed
  hands : ∃ (pending' : Bytes) (g : Draft δ), y.Paused done.2 last pending' ∧
    y.acts.PerformsAll events (opening l pending s.delegate) g ∧ done.2.delegate = g.delegate ∧
      done.2.impl.currentBuffer.content ++ pending' = g.out ++ last.phase.held

/-- A call in a plain stream is never refused. -/
theorem rewriteBuffer_hands (lawful : y.Lawful) (inexcusable : ¬y.excuse) (plain : y.setup.plain = true)
    (paused : y.Paused s l pending) (wf : input.2.WellFormed) (below : input.2.Below input.1) (fits : input.2.size < 2 ^ 61)
    (some_bytes : input.2.content ≠ []) (short : CallAlong y.delegate ShortSlice input s)
    (ahead : Reader.run y.setup l input.2.content = some (last, events)) (running : last.phase ≠ .stopped)
    (tame : y.acts.Tame events (opening l pending s.delegate)) :
    Outcome (s.rewriteBuffer y.delegate input.1 input.2) (y.Hands s l pending events last) False := by
  have sound := paused.withholds.sound
  refine (rewriteBuffer_calls lawful paused.withholds wf below fits short ahead tame).mono ?_ id
  intro done called
  cases called with
  | failed excuse errored => exact absurd excuse inexcusable
  | stops split performed upgraded phase ahead ran => exact absurd (Reader.run_stopped plain phase ahead) running
  | @ended g token done performed inside lag behind ended =>
    have held := Reader.run_held plain sound some_bytes ahead
    have near : token ≤ (g.out ++ last.phase.held).length ∧ (g.out ++ last.phase.held).length ≤ token + 8004 ∧
        (last.phase = .idle → token = (g.out ++ last.phase.held).length) := by
      rw [List.length_append]
      cases token' : last.phase.inToken with
      | true =>
        rw [inside token']
        exact ⟨by omega, by omega, fun idle => by rw [idle] at token'; cases token'⟩
      | false =>
        obtain ⟨before, after, idle⟩ :=
          Lag.near plain some_bytes paused.withholds.behind behind token' (lag token')
        rw [Phase.held_of_outside token', List.length_nil]
        exact ⟨by omega, by omega, idle⟩
    cases ended with
    | tooLong long =>
      have range : maxBufferSize = 8192 := rfl
      omega
    | @ok s' pending' withholds delegate wf put count =>
      refine ⟨rfl, wf, pending', g, ⟨withholds, fun idle => ?_⟩, performed, delegate, put⟩
      have none := near.2.2 idle
      exact List.length_eq_zero_iff.mp (by omega)

end Scene

end LibNekit.Canonical
