import LibNekit.Guarantees.Fragmentation
import LibNekit.Source.Rewriter.Deferring

/-!
# Runs over plain streams, at every moment

A run may stop anywhere in a stream of plain messages. What has been handed back by then,
with what is still withheld, is what the delegate has made of the stream so far. The
delegate may be any that edits what it stands on.
-/
namespace LibNekit.Guarantees.StreamRuns

open LibNekit.Source LibNekit.Source.Rewriter LibNekit.Source.HttpParser LibNekit.Source.HttpMessageStreamRewriter
  LibNekit.Library LibNekit.Canonical LibNekit.Guarantees.Fragmentation

variable {δ : Type}

/-- A message ends here. -/
def completes : Event → Bool
  | .messageComplete _ => true
  | _ => false

/-! ## What a delegate tells -/

/-- What an event becomes, wherever in the Buffer it stands. -/
def Tells (acts : Acts δ) (d : δ) (event : Event) (new : Bytes) (d' : δ) : Prop :=
  match event with
  | .raw bytes => new = bytes ∧ d' = d
  | .settled => new = [] ∧ d' = d
  | .messageComplete upgrade => new = [] ∧ ∃ offset, acts.completes d offset upgrade true d'
  | event => acts.edits d event true new d'

/-- The same for a stream, event by event. -/
inductive TellsAll (acts : Acts δ) : δ → List Event → Bytes → δ → Prop where
  | nothing (d : δ) : TellsAll acts d [] [] d
  | tells {d d₁ d' : δ} {event : Event} {events : List Event} {new rest : Bytes} (told : Tells acts d event new d₁)
      (more : TellsAll acts d₁ events rest d') : TellsAll acts d (event :: events) (new ++ rest) d'

variable {acts : Acts δ} {d d' d₁ : δ} {events front back : List Event} {text new : Bytes}

theorem TellsAll.append {one two : Bytes} (first : TellsAll acts d front one d₁) (second : TellsAll acts d₁ back two d') :
    TellsAll acts d (front ++ back) (one ++ two) d' := by
  induction first with
  | nothing d => exact second
  | tells told more ih =>
    rw [List.cons_append, List.append_assoc]
    exact .tells told (ih second)

theorem performs_tells {event : Event} {g g' : Draft δ} (performed : acts.Performs event g g') :
    ∃ new, Tells acts g.delegate event new g'.delegate ∧ g'.out = g.out ++ new := by
  cases event with
  | raw bytes =>
    cases performed
    exact ⟨bytes, ⟨rfl, rfl⟩, rfl⟩
  | settled =>
    cases performed
    exact ⟨[], ⟨rfl, rfl⟩, (List.append_nil _).symm⟩
  | messageComplete upgrade =>
    obtain ⟨d, completed, rfl⟩ := performed
    exact ⟨[], ⟨rfl, _, completed⟩, (List.append_nil _).symm⟩
  | _ =>
    obtain ⟨new, d, edited, rfl⟩ := performed
    exact ⟨new, edited, rfl⟩

theorem performsAll_tells {g g' : Draft δ} (performed : acts.PerformsAll events g g') :
    ∃ new, TellsAll acts g.delegate events new g'.delegate ∧ g'.out = g.out ++ new := by
  induction events generalizing g with
  | nil =>
    cases performed
    exact ⟨[], .nothing _, (List.append_nil _).symm⟩
  | cons event events ih =>
    obtain ⟨middle, first, more⟩ := performed
    obtain ⟨new, told, put⟩ := performs_tells first
    obtain ⟨rest, tells, putRest⟩ := ih more
    refine ⟨new ++ rest, .tells told tells, ?_⟩
    rw [putRest, put, List.append_assoc]

/-- What the delegate makes of the events of one Buffer is not too large for `size_t`. -/
def Fits (acts : Acts δ) (d : δ) (events : List Event) : Prop :=
  ∀ before front back text₀ text d₁ d', events = before ++ front ++ back → TellsAll acts d before text₀ d₁ →
    (bytesOf front).length < 2 ^ 62 → TellsAll acts d₁ front text d' → text.length < 2 ^ 62

theorem Fits.later (fits : Fits acts d (front ++ back)) (told : TellsAll acts d front text d₁) : Fits acts d₁ back := by
  intro before middle rest text₀ more d₂ d'' split first few second
  refine fits (front ++ before) middle rest _ _ _ _ ?_ (told.append first) few second
  rw [split]
  simp only [List.append_assoc]

/-- A delegate whose edits add at most `k` bytes. -/
theorem tellsAll_length {k : Nat} (grows : ∀ d event new d', Tells acts d event new d' → new.length ≤ event.bytes.length + k)
    (told : TellsAll acts d events text d') : text.length ≤ (bytesOf events).length + k * events.length := by
  induction told with
  | nothing d => exact Nat.zero_le _
  | @tells d d₁ d' event events new rest told more ih =>
    have here := grows d event new d₁ told
    rw [List.length_append, bytesOf_cons, List.length_append, List.length_cons, Nat.mul_succ]
    omega

theorem fits_of_grows {k : Nat} (grows : ∀ d event new d', Tells acts d event new d' → new.length ≤ event.bytes.length + k)
    (few : (bytesOf events).length + k * events.length < 2 ^ 62) : Fits acts d events := by
  rintro before front back text₀ text d₁ d' rfl first small second
  have length := tellsAll_length grows second
  simp only [bytesOf_append, List.length_append, Nat.mul_add] at few
  omega

/-! ## Slices -/

variable {y : Scene δ} {s s' : HttpMessageStreamRewriter δ} {g : Draft δ} {l last : Reader} {unread pending : Bytes}
  {input : Nat × Buffer} {inputs : List (Nat × Buffer)}

/-- A slice is a part of what has not been read, and an edit does not touch that. -/
theorem between_short (between : y.Between s g l unread) (some_bytes : unread ≠ []) (few : unread.length < 2 ^ 31) :
    ShortSlice s := by
  intro slice member
  have length := List.length_pos_iff.mpr some_bytes
  have inside : s.impl.currentBufferOffset < s.impl.currentBuffer.size := by
    rw [between.size]
    omega
  obtain ⟨first, after, -, behind, -, walks⟩ := between.rests.wf.walk_once inside
  rw [show s.impl.currentBuffer.sliceAt _ = _ from walks (fun slice _ => .ok (some slice)) none] at member
  obtain rfl : first = slice := Option.some.inj member
  have split : unread = first.bytes ++ after := by
    rw [← behind, between.rests.content, between.rests.offset, ← List.length_append, List.drop_left]
  have lengths := congrArg List.length split
  rw [List.length_append] at lengths
  omega

/-- By induction on the passes that are left. -/
theorem loop_short (lawful : y.Lawful) (fuel : Nat) (between : y.Between s g l unread) (few : unread.length < 2 ^ 31)
    (ahead : Reader.run y.setup l unread = some (last, events)) (tame : y.acts.Tame events g) :
    LoopAlong y.delegate ShortSlice fuel s := by
  induction fuel generalizing s g l unread events with
  | zero => exact trivial
  | succ fuel ih =>
    intro unfinished
    have some_bytes := between.unfinished_iff.mp unfinished
    have short := between_short between some_bytes few
    refine ⟨short, fun s' ran => ?_⟩
    obtain ⟨s₁, ran₁, passed⟩ := (Scene.parseStep_passes lawful between some_bytes short ahead tame).exists_ok
    cases ran₁.symm.trans ran
    cases passed with
    | failed excuse errored =>
      cases fuel with
      | zero => exact trivial
      | succ fuel => exact fun more => by simp [HttpMessageStreamRewriter.unfinished, errored] at more
    | stops split performed upgraded phase ahead =>
      cases fuel with
      | zero => exact trivial
      | succ fuel => exact fun more => by simp [HttpMessageStreamRewriter.unfinished, upgraded.stopped] at more
    | @goesOn front back g' l' unread' s' split performed between₁ ahead₁ less token =>
      subst split
      have fewer : unread'.length ≤ unread.length := by
        have most := Scene.effort_le l unread
        unfold Scene.effort at less most
        omega
      exact ih between₁ (Nat.lt_of_le_of_lt fewer few) ahead₁ (Acts.Tame.drop tame performed)

theorem call_short (lawful : y.Lawful) (withholds : y.Withholds s l pending) (wf : input.2.WellFormed)
    (below : input.2.Below input.1) (few : input.2.size < 2 ^ 31)
    (ahead : Reader.run y.setup l input.2.content = some (last, events))
    (tame : y.acts.Tame events (Scene.opening l pending s.delegate)) : CallAlong y.delegate ShortSlice input s := by
  intro s₁ carried
  obtain ⟨s₂, carried₂, between, -⟩ := withholds.carries wf below (show input.2.size < 2 ^ 61 by omega)
  cases carried₂.symm.trans carried
  exact loop_short lawful _ between (by rw [wf.length_content]; exact few) ahead tame

/-! ## What is withheld -/

/-- Outside of any element nothing is withheld, or no more than the end of a header block
whose body has not begun. -/
def BlockEnd (last : Reader) (pending : Bytes) : Prop :=
  pending = [] ∨ last.phase = .body ∧ pending.length ≤ 2 ∧ ∃ front, pending = front ++ [lf]

/-- What is withheld between two calls: the element that is under way, or next to nothing. -/
def Holds (last : Reader) (pending : Bytes) : Prop :=
  if last.phase.inToken then pending = last.phase.held else BlockEnd last pending

/-- The bytes that a rewriter keeps for its next call. -/
def withheld (s : HttpMessageStreamRewriter δ) : Bytes := s.impl.pendingPreviousBuffer.getD []

theorem withholds_withheld (withholds : y.Withholds s l pending) : withheld s = pending := by
  unfold withheld
  rw [withholds.previous]
  split
  · next none => exact none.symm
  · rfl

theorem lag_tail {before token : Nat} {opened : Draft δ} (plain : y.setup.plain = true) (some_bytes : unread ≠ [])
    (ahead : ∀ lag, l.phase ≠ .headersDone lag) (behind : ∀ lag, last.phase ≠ .headersDone lag)
    (outside : last.phase.inToken = false) (lag : y.Lag before opened l unread token g last) :
    token = g.out.length ∨ last.phase = .body ∧ ∃ k ≤ 1, ∃ out, g.out = out ++ [lf] ∧ token + k = out.length := by
  obtain ⟨m, out, rest, tail, sound, silent, ran, unsettled, passive, put, since⟩ := lag.since
  have bytes := Reader.run_takes sound ran
  rw [Phase.held_of_outside silent, Phase.held_of_outside outside, List.nil_append, List.append_nil] at bytes
  rw [show tail.flatMap Event.bytes = rest from bytes.symm] at put
  rcases Reader.unsettled_plain plain sound silent outside ran unsettled passive with rfl | ⟨⟨k, phase⟩, rfl, body⟩
  · cases ran
    rw [List.append_nil] at put
    rcases since with set | ⟨k, -, phase, -⟩ | ⟨-, -, none, -⟩
    · exact Or.inl (by rw [put, set])
    · exact absurd phase (behind k)
    · exact absurd none.symm some_bytes
  · right
    rcases since with set | ⟨k', small, -, set⟩ | ⟨rfl, -, -, -⟩
    · exact ⟨body, 0, Nat.zero_le _, out, put, set⟩
    · exact ⟨body, k', small, out, put, set⟩
    · exact absurd phase (ahead k)

theorem ended_holds {token : Nat} {pending' : Bytes} (put : s.impl.currentBuffer.content ++ pending' = g.out ++ last.phase.held)
    (count : token + pending'.length = (g.out ++ last.phase.held).length) (outside : last.phase.inToken = false)
    (tail : token = g.out.length ∨ last.phase = .body ∧ ∃ k ≤ 1, ∃ out, g.out = out ++ [lf] ∧ token + k = out.length) :
    BlockEnd last pending' := by
  rw [Phase.held_of_outside outside, List.append_nil] at put count
  rcases tail with set | ⟨body, k, small, out, ends, set⟩
  · left
    rw [set] at count
    exact List.length_eq_zero_iff.mp (by omega)
  · right
    have length := congrArg List.length ends
    rw [List.length_append, List.length_singleton] at length
    refine ⟨body, by omega, pending'.dropLast, ?_⟩
    have some_bytes : pending' ≠ [] := List.length_pos_iff.mp (by omega)
    have last_byte := congrArg List.getLast? (put.trans ends)
    rw [List.getLast?_append_of_ne_nil _ some_bytes, List.getLast?_concat] at last_byte
    exact (List.dropLast_append_getLast? lf (by rw [last_byte]; rfl)).symm

/-- A call leaves no more than that. -/
theorem rewriteBuffer_holds (lawful : y.Lawful) (inexcusable : ¬y.excuse) (plain : y.setup.plain = true)
    (paused : y.Paused s l pending) (wf : input.2.WellFormed) (below : input.2.Below input.1) (fits : input.2.size < 2 ^ 61)
    (some_bytes : input.2.content ≠ []) (short : CallAlong y.delegate ShortSlice input s)
    (ahead : Reader.run y.setup l input.2.content = some (last, events)) (running : last.phase ≠ .stopped)
    (tame : y.acts.Tame events (Scene.opening l pending s.delegate)) :
    Outcome (s.rewriteBuffer y.delegate input.1 input.2)
      (fun done => done.1 = .ok () → Holds last (withheld done.2)) False := by
  refine (Scene.rewriteBuffer_calls lawful paused.withholds wf below fits short ahead tame).mono ?_ id
  intro done called succeeded
  cases called with
  | failed excuse errored => exact absurd excuse inexcusable
  | stops split performed upgraded phase ahead ran => exact absurd (Reader.run_stopped plain phase ahead) running
  | @ended g token' done performed inside lag behind ended =>
    cases ended with
    | tooLong long => cases succeeded
    | @ok s' pending' withholds delegate wf put count =>
      rw [withholds_withheld withholds]
      unfold Holds
      cases token : last.phase.inToken with
      | true => exact (withholds.held token).1
      | false => exact ended_holds put count token (lag_tail plain some_bytes paused.withholds.behind behind token (lag token))

/-! ## Runs -/

/-- A Buffer that may be handed to `RewriteBuffer`: its bytes can be counted in an `int`. -/
structure ShortPiece (input : Nat × Buffer) : Prop where
  wf : input.2.WellFormed
  below : input.2.Below input.1
  short : input.2.size < 2 ^ 31
  some_bytes : input.2.content ≠ []

theorem inOneChunk_short {bytes : Bytes} (some_bytes : bytes ≠ []) (few : bytes.length < 2 ^ 31) :
    ShortPiece (1, inOneChunk bytes) where
  wf := inOneChunk_wf some_bytes
  below := inOneChunk_below bytes
  short := few
  some_bytes := by rwa [inOneChunk_content]

theorem Fits.tame (fits : Fits y.acts s.delegate (front ++ back)) (paused : y.Paused s l pending) (piece : ShortPiece input)
    (here : Reader.run y.setup l input.2.content = some (last, front)) :
    y.acts.Tame front (Scene.opening l pending s.delegate) := by
  have range : maxBufferSize = 8192 := rfl
  have kept := paused.withholds.few
  have opens := congrArg List.length (paused.withholds.opening_held s.delegate)
  have takes := congrArg List.length (Reader.run_takes paused.withholds.sound here)
  have bytes := piece.wf.length_content
  have short := piece.short
  rw [List.length_append] at opens
  rw [List.length_append, List.length_append] at takes
  intro first second g' split performed
  subst split
  obtain ⟨new, told, put⟩ := performsAll_tells performed
  rw [bytesOf_append, List.length_append] at takes
  have small := fits [] first (second ++ back) [] new _ _ (by simp) (.nothing _) (by omega) told
  rw [put, List.length_append]
  omega

/-- A call, from wherever the rewriter is between two of them. -/
theorem rewriteBuffer_performs (lawful : y.Lawful) (inexcusable : ¬y.excuse) (plain : y.setup.plain = true)
    (paused : y.Paused s l pending) (piece : ShortPiece input) (here : Reader.run y.setup l input.2.content = some (last, front))
    (running : last.phase ≠ .stopped) (fits : Fits y.acts s.delegate (front ++ back)) :
    ∃ (s' : HttpMessageStreamRewriter δ) (g : Draft δ) (pending' : Bytes),
      s.rewriteBuffer y.delegate input.1 input.2 = .ok (.ok (), s') ∧ y.Paused s' last pending' ∧
        y.acts.PerformsAll front (Scene.opening l pending s.delegate) g ∧ s'.delegate = g.delegate ∧
          s'.impl.currentBuffer.content ++ (Scene.opening last pending' s'.delegate).out = g.out ∧
            s'.impl.currentBuffer.WellFormed ∧ Holds last pending' := by
  have tame := fits.tame paused piece here
  have small : input.2.size < 2 ^ 61 := Nat.lt_trans piece.short (by decide)
  have short := call_short lawful paused.withholds piece.wf piece.below piece.short here tame
  obtain ⟨⟨result, s₁⟩, ran, hands⟩ := (Scene.rewriteBuffer_hands lawful inexcusable plain paused piece.wf piece.below
    small piece.some_bytes short here running tame).exists_ok
  obtain ⟨rfl, wf, pending₁, g, paused₁, performed, delegate, put⟩ := hands
  have holds := rewriteBuffer_holds lawful inexcusable plain paused piece.wf piece.below small piece.some_bytes short here running tame
  rw [show s.rewriteBuffer y.delegate input.1 input.2 = _ from ran] at holds
  have paused₁ : y.Paused s₁ last pending₁ := paused₁
  have opens := paused₁.withholds.opening_held s₁.delegate
  have kept : Holds last pending₁ := withholds_withheld paused₁.withholds ▸ holds rfl
  refine ⟨s₁, g, pending₁, ran, paused₁, performed, delegate, @List.append_cancel_right _ _ last.phase.held _ ?_, wf, kept⟩
  rw [List.append_assoc, opens]
  exact put

/-- The rewriter with the deferred delegate in it. -/
def watched (s : HttpMessageStreamRewriter δ) : HttpMessageStreamRewriter (Deferred δ) := ⟨s.parser, s.impl, .ok s.delegate⟩

/-- A call with a delegate that may fail, by its acts with the failures deferred: it succeeds where
these note nothing, and fails where they note a fault. -/
theorem rewriteBuffer_watched {setup : Setup} {delegate : Delegate δ} {acts : Acts (Deferred δ)}
    (lawful : Scene.Lawful ⟨setup, delegate.deferred, acts, False⟩) (plain : setup.plain = true)
    (paused : Scene.Paused ⟨setup, delegate.deferred, acts, False⟩ (watched s) l pending) (piece : ShortPiece input)
    (here : Reader.run setup l input.2.content = some (last, front)) (running : last.phase ≠ .stopped)
    (fits : Fits acts (.ok s.delegate) (front ++ back)) :
    ∃ g : Draft (Deferred δ), acts.PerformsAll front (Scene.opening l pending (.ok s.delegate)) g ∧
      match g.delegate with
      | .ok d => ∃ (s' : HttpMessageStreamRewriter δ) (pending' : Bytes), s'.delegate = d ∧
        s.rewriteBuffer delegate input.1 input.2 = .ok (.ok (), s') ∧
          Scene.Paused ⟨setup, delegate.deferred, acts, False⟩ (watched s') last pending' ∧
            s'.impl.currentBuffer.content ++ (Scene.opening last pending' d).out = g.out ∧
              s'.impl.currentBuffer.WellFormed ∧ Holds last pending'
      | .error (.fault e) => s.rewriteBuffer delegate input.1 input.2 = .error e
      | .error .parted => True := by
  obtain ⟨t, g, pending', ran, paused', performed, same, put, wf, holds⟩ :=
    rewriteBuffer_performs lawful id plain paused piece here running fits
  have shadows : Shadows returned (noted (s.rewriteBuffer delegate input.1 input.2)) _ :=
    rewriteBuffer_shadows input.1 input.2 (watched s)
  obtain ⟨parser, impl, d⟩ := t
  obtain ⟨out, d'⟩ := g
  obtain rfl : d = d' := same
  refine ⟨_, performed, ?_⟩
  cases d with
  | ok d => exact ⟨⟨parser, impl, d⟩, pending', rfl, shadows.seen_ok ran rfl, paused', put, wf, holds⟩
  | error halt =>
    cases halt with
    | fault e => exact shadows.seen_fault ran rfl
    | parted => exact trivial

end LibNekit.Guarantees.StreamRuns
