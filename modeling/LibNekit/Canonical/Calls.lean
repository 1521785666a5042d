import LibNekit.Canonical.Elements
import LibNekit.Canonical.Loops
import LibNekit.Source.Rewriter.Stopping

/-!
# A call of `RewriteBuffer` in a stream

`Withholds` is the rewriter between two calls: it stands where the reader does, and
`pending` is what it has not handed out. A call puts `pending` in front of its Buffer, runs
the loop, and withholds what lies behind the token again.
-/
namespace LibNekit.Canonical

open LibNekit.Source LibNekit.Source.Rewriter LibNekit.Source.HttpParser LibNekit.Source.HttpMessageStreamRewriter
  LibNekit.Library

variable {δ : Type} {s s' : HttpMessageStreamRewriter δ} {next : Nat} {buffer : Buffer} {pending : Bytes}

/-! ## In front of the loop and behind it -/

/-- What has been withheld comes first. -/
theorem carryIn_holds (wf : buffer.WellFormed) (below : buffer.Below next) (some_bytes : pending ≠ [])
    (length : s.impl.pendingBufferLength = pending.length) (previous : s.impl.pendingPreviousBuffer = some pending) :
    ∃ next' b, b.WellFormed ∧ b.Below next' ∧ b.content = pending ++ buffer.content ∧
      carryIn next buffer s = .ok { s with
        impl.next := next', impl.currentBuffer := b, impl.currentBufferOffset := pending.length
        impl.pendingBufferLength := 0, impl.pendingPreviousBuffer := none } := by
  have positive := List.length_pos_iff.mpr some_bytes
  obtain ⟨next', b, bytes, inserted, holds, gap, gapLength, rfl⟩ := Buffer.insertFrontSize_holds wf below pending.length
  have sized := holds.sized below
  simp only [List.take_zero, List.nil_append, List.drop_zero] at sized holds
  have size := sized.size
  rw [List.length_append, gapLength] at size
  obtain ⟨b', written, wf', addrs, -, content⟩ := holds.wf.setData_eq
    (show 0 < b.size by omega) (show 0 + pending.length ≤ b.size by omega)
  refine ⟨next', b', wf', fun a member => sized.below a (addrs ▸ member), ?_, ?_⟩
  · rw [content, holds.content, Nat.zero_add, ← gapLength, List.drop_left, List.take_zero, List.nil_append]
  · unfold carryIn
    rw [length, if_pos (by omega), previous]
    simp only [deref, ok_bind, inserted, List.take_length, written, pure_eq_ok]

/-- What is withheld, if it is not too much. -/
theorem withhold_holds (wf : s.impl.currentBuffer.WellFormed) (fits : s.impl.currentBuffer.size < sizeRange)
    (before : s.impl.currentTokenOffset < s.impl.currentBuffer.size)
    (short : s.impl.currentBuffer.size - s.impl.currentTokenOffset ≤ maxBufferSize) :
    ∃ b, b.WellFormed ∧ b.content = s.impl.currentBuffer.content.take s.impl.currentTokenOffset ∧
      withhold s = .ok (.ok (), { s with
        impl.pendingBufferLength := s.impl.currentBuffer.size - s.impl.currentTokenOffset
        impl.pendingPreviousBuffer := some (s.impl.currentBuffer.content.drop s.impl.currentTokenOffset)
        impl.currentBuffer := b
        impl.currentTokenEndOffset := sizeSub s.impl.currentTokenEndOffset s.impl.currentTokenOffset
        impl.currentHeaderFieldOffset := sizeSub s.impl.currentHeaderFieldOffset s.impl.currentTokenOffset
        impl.currentHeaderFieldEndOffset := sizeSub s.impl.currentHeaderFieldEndOffset s.impl.currentTokenOffset
        impl.currentHeaderValueOffset := sizeSub s.impl.currentHeaderValueOffset s.impl.currentTokenOffset
        impl.currentHeaderValueEndOffset := sizeSub s.impl.currentHeaderValueEndOffset s.impl.currentTokenOffset
        impl.currentTokenOffset := 0 }) := by
  have length := sizeSub_eq fits (Nat.le_of_lt before)
  have copied := wf.getData_eq before
    (show s.impl.currentTokenOffset + (s.impl.currentBuffer.size - s.impl.currentTokenOffset) ≤ _ by omega)
  obtain ⟨b, shrunk, holds⟩ := Buffer.shrinkBack_holds 0 wf fits
    (show 0 < s.impl.currentBuffer.size - s.impl.currentTokenOffset by omega) (Nat.sub_le _ _)
  have content := holds.content
  rw [Nat.sub_sub_self (Nat.le_of_lt before)] at content
  rw [List.take_of_length_le (by rw [List.length_drop, wf.length_content])] at copied
  refine ⟨b, holds.wf, content, ?_⟩
  unfold withhold
  dsimp only
  rw [if_pos (Nat.ne_of_lt before), length, if_neg (Nat.not_lt.mpr short), copied, ok_bind, shrunk, ok_bind]
  rfl

/-- Too much would have to be withheld. -/
theorem withhold_refuses (other : s.impl.currentTokenOffset ≠ s.impl.currentBuffer.size)
    (long : maxBufferSize < sizeSub s.impl.currentBuffer.size s.impl.currentTokenOffset) :
    ∃ s', withhold s = .ok (.error .blockTooLong, s') := by
  unfold withhold
  dsimp only
  rw [if_pos other, if_pos long]
  exact ⟨_, rfl⟩

namespace Scene

/-! ## Between two calls -/

structure Withholds (y : Scene δ) (s : HttpMessageStreamRewriter δ) (l : Reader) (pending : Bytes) : Prop where
  sound : l.Sound y.setup
  models : l.Models s.parser
  running : l.phase ≠ .stopped
  behind : ∀ lag, l.phase ≠ .headersDone lag
  setToken : s.impl.setToken = false
  length : s.impl.pendingBufferLength = pending.length
  previous : s.impl.pendingPreviousBuffer = if pending = [] then none else some pending
  few : pending.length ≤ maxBufferSize
  calm : Calm y.setup { s.impl with pendingBufferLength := 0, pendingPreviousBuffer := none }
  state : s.impl.state = l.phase.state
  held : l.phase.inToken = true → pending = l.phase.held ∧ pending ≠ [] ∧ Offsets s.impl 0 l.phase
  token : pending ≠ [] → s.impl.currentTokenOffset = 0
  near : s.impl.currentTokenOffset < 2 ^ 63

/-- Nothing has been read. -/
theorem fresh (y : Scene δ) (type : MessageType) (d : δ) (same : type.parserType = y.setup.type) :
    y.Withholds { HttpMessageStreamRewriter.make type d with impl.skipBody := y.setup.skipBody } (.start y.setup) [] where
  sound := Reader.start_sound y.setup
  models := by
    refine ⟨0, Nat.zero_le _, Or.inl ?_⟩
    show HttpParser.init type.parserType = (HttpParser.init y.setup.type).counting 0
    rw [same]
    rfl
  running := nofun
  behind := nofun
  setToken := rfl
  length := rfl
  previous := rfl
  few := Nat.zero_le _
  calm := ⟨rfl, rfl, rfl, rfl, rfl, rfl, rfl, rfl, same⟩
  state := rfl
  held := nofun
  token := nofun
  near := Nat.two_pow_pos 63

variable {y : Scene δ} {l last : Reader} {g : Draft δ}

/-- What a call begins with in front of its own bytes: an element that is under way has
still to be put out, and the rest has been. -/
def opening (l : Reader) (pending : Bytes) (d : δ) : Draft δ := ⟨if l.phase.inToken then [] else pending, d⟩

theorem Withholds.opening_held (withholds : y.Withholds s l pending) (d : δ) :
    (opening l pending d).out ++ l.phase.held = pending := by
  unfold opening
  cases token : l.phase.inToken with
  | true => rw [if_pos rfl, List.nil_append, (withholds.held token).1]
  | false => rw [if_neg Bool.false_ne_true, Phase.held_of_outside token, List.append_nil]

/-- The loop of a call begins. -/
theorem Withholds.carries (withholds : y.Withholds s l pending) (wf : buffer.WellFormed) (below : buffer.Below next)
    (fits : buffer.size < 2 ^ 61) :
    ∃ s', carryIn next buffer s = .ok s' ∧ y.Between s' (opening l pending s.delegate) l buffer.content ∧
      s'.impl.currentTokenOffset = s.impl.currentTokenOffset := by
  have length := wf.length_content
  have few := withholds.few
  have range : maxBufferSize = 8192 := rfl
  have start := withholds.opening_held s.delegate
  have lengths := congrArg List.length start
  rw [List.length_append] at lengths
  have offsets (r : RewriterImpl) (same : (r.state, r.currentTokenOffset, r.setToken, r.currentTokenEndOffset,
      r.currentHeaderFieldOffset, r.currentHeaderFieldEndOffset, r.currentHeaderValueOffset, r.currentHeaderValueEndOffset) =
      (s.impl.state, s.impl.currentTokenOffset, s.impl.setToken, s.impl.currentTokenEndOffset,
        s.impl.currentHeaderFieldOffset, s.impl.currentHeaderFieldEndOffset, s.impl.currentHeaderValueOffset,
        s.impl.currentHeaderValueEndOffset)) : Offsets r (opening l pending s.delegate).out.length l.phase := by
    simp only [Prod.mk.injEq] at same
    obtain ⟨state, token, set, stop, field, fieldEnd, value, valueEnd⟩ := same
    cases inside : l.phase.inToken with
    | false => exact .outside inside (state.trans withholds.state)
    | true =>
      have offsets := (withholds.held inside).2.2
      unfold opening
      rw [if_pos inside]
      refine ⟨state.trans offsets.state, ?_, ?_, ?_, ?_⟩
      · rw [token, set]
        exact offsets.token
      · rw [stop]
        exact offsets.tokenEnd
      · rw [field, fieldEnd]
        exact offsets.field
      · rw [value, valueEnd]
        exact offsets.value
  by_cases nothing : pending = []
  · subst nothing
    have carried : carryIn next buffer s =
        .ok { s with impl.next := next, impl.currentBuffer := buffer, impl.currentBufferOffset := 0 } := by
      have zero : s.impl.pendingBufferLength = 0 := withholds.length
      unfold carryIn
      rw [if_neg (not_not.mpr zero)]
    have calm := withholds.calm
    rw [← (show _ = 0 from withholds.length), ← (show _ = none from withholds.previous)] at calm
    refine ⟨_, carried, ⟨withholds.sound, withholds.models, ?_, withholds.setToken, rfl, withholds.running⟩, rfl⟩
    refine ⟨wf, below, ?_, ?_, by omega, by omega, offsets _ rfl, calm.congr rfl, fun lag same => absurd same (withholds.behind lag)⟩
    · rw [start, List.nil_append]
    · exact lengths.symm
  · obtain ⟨next', b, wf', below', content, carried⟩ := carryIn_holds wf below nothing withholds.length
      (withholds.previous.trans (if_neg nothing))
    refine ⟨_, carried, ⟨withholds.sound, withholds.models, ?_, withholds.setToken, rfl, withholds.running⟩, rfl⟩
    refine ⟨wf', below', ?_, ?_, by omega, by omega, offsets _ rfl, withholds.calm.congr rfl,
      fun lag same => absurd same (withholds.behind lag)⟩
    · rw [start]
      exact content
    · exact lengths.symm

/-! ## The end of a call -/

/-- The offsets of a phase lie in what it holds. -/
theorem Phase.inside {phase : Phase} : (∀ e ∈ phase.tokenEnd, e ≤ phase.held.length) ∧
    (∀ line ∈ phase.header, line.name.length ≤ phase.held.length) ∧
      ∀ line ∈ phase.valued, line.text.length ≤ phase.held.length := by
  have named (line : HeaderLine) : line.name.length ≤ line.text.length := by
    unfold HeaderLine.text
    rw [List.length_append]
    omega
  cases phase with
  | lineCr line | lineEnd line | lastCr line =>
    cases line with
    | request | status => simp [Phase.tokenEnd, Phase.header, Phase.valued, Phase.held, Line.tokenEnd, Line.text]
    | header line =>
      have within := named line
      simp [Phase.tokenEnd, Phase.header, Phase.valued, Phase.held, Line.tokenEnd, Line.text]
      omega
  | _ => simp [Phase.tokenEnd, Phase.header, Phase.valued, Phase.held, HeaderLine.text]

/-- How a call ends whose loop has used up its Buffer: `pending` is withheld, or would be if
it were shorter. -/
inductive Ended (y : Scene δ) (g : Draft δ) (last : Reader) (token : Nat) :
    Except RewriterError Unit × HttpMessageStreamRewriter δ → Prop
  | ok {s : HttpMessageStreamRewriter δ} {pending : Bytes} (withholds : y.Withholds s last pending)
      (delegate : s.delegate = g.delegate) (wf : s.impl.currentBuffer.WellFormed)
      (put : s.impl.currentBuffer.content ++ pending = g.out ++ last.phase.held)
      (count : token + pending.length = (g.out ++ last.phase.held).length) : Ended y g last token (.ok (), s)
  | tooLong {s : HttpMessageStreamRewriter δ}
      (long : token + maxBufferSize < (g.out ++ last.phase.held).length ∨ (g.out ++ last.phase.held).length < token) :
      Ended y g last token (.error .blockTooLong, s)

/-- The parser looks at the LF that ends a header block twice in one call. -/
theorem Between.behind (between : y.Between s g last []) (lag : Nat) : last.phase ≠ .headersDone lag := by
  intro same
  have head := (between.rests.lag lag same).1
  cases head

/-- The call has used up its Buffer. -/
theorem Between.ends (between : y.Between s g last []) (begun : last.phase.inToken = true → last.phase.held ≠ [])
    (near : s.impl.currentTokenOffset < 2 ^ 63) :
    Outcome (withhold s) (y.Ended g last s.impl.currentTokenOffset) False := by
  have rests := between.rests
  have calm := rests.calm
  have small := rests.small
  have fits := rests.fits
  have content : s.impl.currentBuffer.content = g.out ++ last.phase.held := by
    rw [rests.content, List.append_nil]
  have size : s.impl.currentBuffer.size = (g.out ++ last.phase.held).length := by
    rw [← rests.wf.length_content, content]
  have length : (g.out ++ last.phase.held).length = g.out.length + last.phase.held.length := List.length_append
  have behind := between.behind
  have range : sizeRange = 2 ^ 64 := rfl
  have most : maxBufferSize = 8192 := rfl
  rw [List.length_nil, Nat.add_zero] at fits
  rcases Nat.lt_trichotomy s.impl.currentTokenOffset s.impl.currentBuffer.size with before | all | beyond
  · by_cases long : maxBufferSize < s.impl.currentBuffer.size - s.impl.currentTokenOffset
    · obtain ⟨s', ran⟩ := withhold_refuses (s := s) (Nat.ne_of_lt before)
        (by rw [sizeSub_eq (by omega) (Nat.le_of_lt before)]; exact long)
      rw [ran]
      exact .tooLong (Or.inl (by omega))
    · obtain ⟨b, wf, taken, ran⟩ := withhold_holds rests.wf (by omega) before (Nat.not_lt.mp long)
      rw [ran]
      have kept : (s.impl.currentBuffer.content.drop s.impl.currentTokenOffset).length =
          s.impl.currentBuffer.size - s.impl.currentTokenOffset := by
        rw [List.length_drop, rests.wf.length_content]
      have some_bytes : s.impl.currentBuffer.content.drop s.impl.currentTokenOffset ≠ [] :=
        List.length_pos_iff.mp (by omega)
      refine @Ended.ok _ _ _ _ _ _ (s.impl.currentBuffer.content.drop s.impl.currentTokenOffset)
        ⟨between.sound, between.models, between.running, behind, between.setToken, kept.symm, (if_neg some_bytes).symm, by omega,
          calm.congr (by rw [← calm.pendingBufferLength, ← calm.pendingPreviousBuffer]), rests.offsets.state, ?_, fun _ => rfl, Nat.two_pow_pos 63⟩
        between.delegate wf ?_ (by omega)
      · intro inside
        have base := (rests.offsets.token inside).1
        obtain ⟨stop, name, value⟩ := @Phase.inside last.phase
        have back (k : Nat) (le : k ≤ last.phase.held.length) : sizeSub (g.out.length + k) s.impl.currentTokenOffset = k := by
          rw [base, sizeSub_eq (by omega) (by omega), Nat.add_sub_cancel_left]
        refine ⟨?_, some_bytes, rests.offsets.state, fun _ => ⟨rfl, between.setToken⟩, ?_, ?_, ?_⟩
        · rw [content, base, List.drop_left]
        · intro e member
          show sizeSub s.impl.currentTokenEndOffset _ = _
          rw [rests.offsets.tokenEnd e member, back e (stop e member), Nat.zero_add]
        · intro line member
          obtain ⟨field, fieldEnd⟩ := rests.offsets.field line member
          constructor
          · show sizeSub s.impl.currentHeaderFieldOffset _ = _
            rw [field]
            exact back 0 (Nat.zero_le _)
          · show sizeSub s.impl.currentHeaderFieldEndOffset _ = _
            rw [fieldEnd, back _ (name line member), Nat.zero_add]
        · intro line member
          obtain ⟨start, stops⟩ := rests.offsets.value line member
          have within := value line member
          constructor
          · show sizeSub s.impl.currentHeaderValueOffset _ = _
            rw [start, back _ (by unfold HeaderLine.valueStart; omega), Nat.zero_add]
          · show sizeSub s.impl.currentHeaderValueEndOffset _ = _
            rw [stops, back _ within, Nat.zero_add]
      · show b.content ++ _ = _
        rw [taken, List.take_append_drop, content]
  · rw [withhold_nothing all]
    refine @Ended.ok _ _ _ _ _ _ [] ⟨between.sound, between.models, between.running, behind, between.setToken,
      calm.pendingBufferLength, calm.pendingPreviousBuffer, Nat.zero_le _,
      calm.congr (by rw [calm.pendingBufferLength, calm.pendingPreviousBuffer]), rests.offsets.state, ?_,
      fun some_bytes => absurd rfl some_bytes, near⟩ between.delegate rests.wf ?_ ?_
    · intro inside
      have base := (rests.offsets.token inside).1
      have some_bytes := List.length_pos_iff.mpr (begun inside)
      omega
    · rw [List.append_nil, content]
    · rw [List.length_nil, Nat.add_zero, ← size, all]
  · obtain ⟨s', ran⟩ := withhold_refuses (s := s) (Nat.ne_of_gt beyond) (by simp only [sizeSub, range]; omega)
    rw [ran]
    exact .tooLong (Or.inr (by omega))

/-! ## A call -/

variable {events : List Event} {input : Nat × Buffer}

/-- What a call comes to. -/
inductive Called (y : Scene δ) (s : HttpMessageStreamRewriter δ) (l : Reader) (pending unread : Bytes) (events : List Event)
    (last : Reader) : Except RewriterError Unit × HttpMessageStreamRewriter δ → Prop
  | ended {g : Draft δ} {token : Nat} {done : Except RewriterError Unit × HttpMessageStreamRewriter δ}
      (performed : y.acts.PerformsAll events (opening l pending s.delegate) g)
      (inside : last.phase.inToken = true → token = g.out.length)
      (lag : last.phase.inToken = false →
        y.Lag s.impl.currentTokenOffset (opening l pending s.delegate) l unread token g last)
      (behind : ∀ lag, last.phase ≠ .headersDone lag) (ended : y.Ended g last token done) : Called y s l pending unread events last done
  | stops {front back : List Event} {g : Draft δ} {l' : Reader} {unread' : Bytes} {s' : HttpMessageStreamRewriter δ}
      {done : Except RewriterError Unit × HttpMessageStreamRewriter δ} (split : events = front ++ .messageComplete true :: back)
      (performed : y.acts.PerformsAll (front ++ [.messageComplete true]) (opening l pending s.delegate) g)
      (upgraded : y.Upgraded s' g unread') (phase : l'.phase = .stopped)
      (ahead : Reader.run y.setup l' unread' = some (last, back)) (ran : withhold s' = .ok done) :
      Called y s l pending unread events last done
  | failed {e : RewriterError} {s' : HttpMessageStreamRewriter δ} (excuse : y.excuse) (errored : s'.impl.errored = true) :
      Called y s l pending unread events last (.error e, s')

theorem Upgraded.withholds {unread : Bytes} (upgraded : y.Upgraded s g unread) : ∃ done, withhold s = .ok done := by
  have rests := upgraded.rests
  have small := rests.small
  have fits := rests.fits
  have content : s.impl.currentBuffer.content = _ := rests.content
  have wf : s.impl.currentBuffer.WellFormed := rests.wf
  have offset : s.impl.currentBufferOffset = _ := rests.offset
  have size := wf.length_content
  have token := upgraded.token
  have range : sizeRange = 2 ^ 64 := rfl
  rw [content, List.length_append, List.length_append] at size
  rcases Nat.eq_zero_or_pos unread.length with none | some_bytes
  · exact ⟨_, withhold_nothing (by omega)⟩
  by_cases long : maxBufferSize < sizeSub s.impl.currentBuffer.size s.impl.currentTokenOffset
  · obtain ⟨s', ran⟩ := withhold_refuses (s := s) (by omega) long
    exact ⟨_, ran⟩
  · rw [sizeSub_eq (by omega) (by omega)] at long
    obtain ⟨_, -, -, ran⟩ := withhold_holds (s := s) wf (by omega) (by omega) (Nat.not_lt.mp long)
    exact ⟨_, ran⟩

/-- A call, from wherever the rewriter is between two of them. -/
theorem rewriteBuffer_calls (lawful : y.Lawful) (withholds : y.Withholds s l pending) (wf : input.2.WellFormed)
    (below : input.2.Below input.1) (fits : input.2.size < 2 ^ 61) (short : CallAlong y.delegate ShortSlice input s)
    (ahead : Reader.run y.setup l input.2.content = some (last, events))
    (tame : y.acts.Tame events (opening l pending s.delegate)) :
    Outcome (s.rewriteBuffer y.delegate input.1 input.2) (y.Called s l pending input.2.content events last) False := by
  obtain ⟨s₁, carried, between, token⟩ := withholds.carries wf below fits
  have begun := Reader.run_begun withholds.sound (fun inside => (withholds.held inside).1 ▸ (withholds.held inside).2.1) ahead
  have enough : effort l input.2.content ≤ s₁.loopFuel := by
    have size := between.size
    have most := effort_le l input.2.content
    unfold loopFuel
    omega
  unfold rewriteBuffer
  rw [carried, ok_bind]
  refine Outcome.bind (parseLoop_loops lawful _ between enough (short s₁ carried) ahead tame) ?_
  intro s₂ looped
  cases looped with
  | failed excuse errored =>
    rw [if_pos errored]
    exact .failed excuse errored
  | stops split performed upgraded phase ahead =>
    rw [if_neg (by simp [show s₂.impl.errored = false from upgraded.rests.calm.errored])]
    obtain ⟨done, ran⟩ := upgraded.withholds
    rw [ran]
    exact .stops split performed upgraded phase ahead ran
  | @done g' s₂ performed between lag =>
    rw [if_neg (by simp [between.rests.calm.errored])]
    have inside (inToken : last.phase.inToken = true) : s₂.impl.currentTokenOffset = g'.out.length :=
      (between.rests.offsets.token inToken).1
    have near : s₂.impl.currentTokenOffset < 2 ^ 63 := by
      have small := between.rests.small
      cases outside : last.phase.inToken with
      | true =>
        rw [inside outside]
        exact small
      | false =>
        obtain ⟨m, out, rest, tail, -, -, -, -, -, put, since⟩ := (lag outside).since
        rw [put, List.length_append] at small
        rcases since with set | ⟨k, -, -, set⟩ | ⟨-, -, -, same⟩
        · omega
        · omega
        · rw [same, token]
          exact withholds.near
    refine (between.ends begun near).mono (fun done ended => ?_) id
    exact .ended performed inside (fun outside => token ▸ lag outside) between.behind ended

end Scene

end LibNekit.Canonical
