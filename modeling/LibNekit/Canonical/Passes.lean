import LibNekit.Canonical.Closing
import LibNekit.Source.Rewriter.Passes

/-!
# A pass of the loop in a stream

`Between` is the rewriter in front of a pass: it stands where the reader does, and
`unread` is what is left of its Buffer. A pass leaves it so again further on, or it has
stopped, or failed for a reason that the scene excuses.
-/
namespace LibNekit.Canonical

open LibNekit.Source LibNekit.Source.Rewriter LibNekit.Source.HttpParser LibNekit.Source.HttpMessageStreamRewriter
  LibNekit.Library

variable {δ : Type}

/-- What the next pass hands to the parser has fewer bytes than an `int` can count. -/
def ShortSlice (s : HttpMessageStreamRewriter δ) : Prop :=
  ∀ slice ∈ (s.impl.currentBuffer.sliceAt s.impl.currentBufferOffset).toOption.join, slice.bytes.length < 2 ^ 31

instance (s : HttpMessageStreamRewriter δ) : Decidable (ShortSlice s) := by
  unfold ShortSlice
  infer_instance

/-- The events that let the rewriter hand out what lies in front of them. -/
def Event.settles : Event → Bool
  | .settled | .messageComplete _ => true
  | _ => false

def Settles (events : List Event) : Prop := ∃ event ∈ events, event.settles = true

namespace Reader

/-- One part is read, and then the next. -/
theorem run_join {setup : Setup} {l middle last : Reader} {first second : Bytes} {front back : List Event}
    (one : run setup l first = some (middle, front)) (two : run setup middle second = some (last, back)) :
    run setup l (first ++ second) = some (last, front ++ back) := by
  rw [run_append, one, Option.bind_some, two, Option.map_some]

end Reader

namespace Scene

structure Between (y : Scene δ) (s : HttpMessageStreamRewriter δ) (g : Draft δ) (l : Reader) (unread : Bytes) : Prop where
  sound : l.Sound y.setup
  models : l.Models s.parser
  rests : Rests y.setup s.impl g l.phase unread
  setToken : s.impl.setToken = false
  delegate : s.delegate = g.delegate
  running : l.phase ≠ .stopped

/-- The rewriter behind a message that upgrades the connection. -/
structure Upgraded (y : Scene δ) (s : HttpMessageStreamRewriter δ) (g : Draft δ) (unread : Bytes) : Prop where
  rests : Rests y.setup { s.impl with stopped := false, processMessageComplete := false } g .idle unread
  stopped : s.impl.stopped = true
  token : s.impl.currentTokenOffset = s.impl.currentBufferOffset
  delegate : s.delegate = g.delegate

/-- Passes that are left, at most. -/
def effort (l : Reader) (unread : Bytes) : Nat :=
  2 * unread.length + match l.phase with | .headersDone _ => 0 | _ => 1

/-- A whole slice has been read outside of any element, and the token is where it was. -/
structure Waits (y : Scene δ) (s : HttpMessageStreamRewriter δ) (l : Reader) (unread : Bytes) (front : List Event)
    (s' : HttpMessageStreamRewriter δ) (l' : Reader) (unread' : Bytes) : Prop where
  outside : l.phase.inToken = false
  token : s'.impl.currentTokenOffset = s.impl.currentTokenOffset
  unsettled : .settled ∉ front
  passive : ∀ event ∈ front, event.passive = true
  ran : ∃ slice, unread = slice ++ unread' ∧ Reader.run y.setup l slice = some (l', front)

theorem effort_le (l : Reader) (unread : Bytes) : effort l unread ≤ 2 * unread.length + 1 := by
  unfold effort
  split <;> omega

/-- What a pass comes to. -/
inductive Passed (y : Scene δ) (s : HttpMessageStreamRewriter δ) (g : Draft δ) (l : Reader) (unread : Bytes)
    (events : List Event) (last : Reader) : HttpMessageStreamRewriter δ → Prop
  | goesOn {front back : List Event} {g' : Draft δ} {l' : Reader} {unread' : Bytes} {s' : HttpMessageStreamRewriter δ}
      (split : events = front ++ back) (performed : y.acts.PerformsAll front g g') (between : y.Between s' g' l' unread')
      (ahead : Reader.run y.setup l' unread' = some (last, back)) (less : effort l' unread' < effort l unread)
      (token : l'.phase.inToken = false → (∃ lag, l'.phase = .headersDone lag) ∨
        (Settles front ∧ s'.impl.currentTokenOffset = s'.impl.currentBufferOffset) ∨
          y.Waits s l unread front s' l' unread') :
      Passed y s g l unread events last s'
  | stops {front back : List Event} {g' : Draft δ} {l' : Reader} {unread' : Bytes} {s' : HttpMessageStreamRewriter δ}
      (split : events = front ++ .messageComplete true :: back)
      (performed : y.acts.PerformsAll (front ++ [.messageComplete true]) g g') (upgraded : y.Upgraded s' g' unread')
      (phase : l'.phase = .stopped) (ahead : Reader.run y.setup l' unread' = some (last, back)) :
      Passed y s g l unread events last s'
  | failed {s' : HttpMessageStreamRewriter δ} (excuse : y.excuse) (errored : s'.impl.errored = true) :
      Passed y s g l unread events last s'

variable {y : Scene δ} {s s' : HttpMessageStreamRewriter δ} {g g' : Draft δ} {l l' last : Reader} {unread : Bytes}
  {events front back : List Event} {r : RewriterImpl} {parser : HttpParser} {n : Nat}

/-! ## The parser's call -/

/-- A pass over `slice`. The token is worth knowing where no element is under way. -/
def passContext (y : Scene δ) (s : HttpMessageStreamRewriter δ) (g : Draft δ) (l : Reader) (slice : Slice) (after : Bytes) :
    Context δ :=
  ⟨y.setup, y.delegate, y.acts, y.excuse, slice, g.out ++ l.phase.held, after,
    if l.phase.inToken then none else some s.impl.currentTokenOffset⟩

theorem passContext_lawful {slice : Slice} {after : Bytes} (lawful : y.Lawful) : (y.passContext s g l slice after).Lawful :=
  ⟨lawful.implements, lawful.refusal, lawful.overflow, lawful.limit⟩

theorem Between.size (between : y.Between s g l unread) :
    s.impl.currentBuffer.size = s.impl.currentBufferOffset + unread.length := by
  rw [← between.rests.wf.length_content, between.rests.content, between.rests.offset]
  simp only [List.length_append]

/-- The loop goes on as long as there are bytes left. -/
theorem Between.unfinished_iff (between : y.Between s g l unread) : s.unfinished = true ↔ unread ≠ [] := by
  have size := between.size
  have errored := between.rests.calm.errored
  have stopped := between.rests.calm.stopped
  unfold HttpMessageStreamRewriter.unfinished
  simp only [errored, stopped, Bool.false_eq_true, not_false_iff, and_true, ne_eq, decide_eq_true_eq]
  rw [size, ← List.length_eq_zero_iff]
  omega

theorem pause_resumes (fine : parser.httpErrno = .ok ∨ parser.httpErrno = .paused) :
    parser.pause false = .ok (parser.setErrno .ok) := by
  unfold HttpParser.pause
  exact if_pos fine

/-- The parser is resumed, and stands in the slice. -/
theorem Between.ready {slice : Slice} {after : Bytes} (between : y.Between s g l unread) (split : unread = slice.bytes ++ after)
    (some_bytes : slice.bytes ≠ [])
    (located : ∀ k < slice.bytes.length, s.impl.currentBuffer.findLocation { slice.data with index := slice.data.index + k } =
      .ok (s.impl.currentBufferOffset + k)) {middle : Reader}
    (ahead : Reader.run y.setup l slice.bytes = some (middle, front)) (tame : y.acts.Tame front g) :
    ∃ nread, s.parser.pause false = .ok (l.parser.counting nread) ∧
      (y.passContext s g l slice after).Ready false g front middle l s.impl 0 nread := by
  obtain ⟨nread, few, models⟩ := between.models
  have clear := between.sound.meets.clear
  have rests := between.rests
  refine ⟨nread, ?_, few, between.sound, ?_, ahead, tame, fun token => if_pos token, ⟨between.running, ?_⟩, ?_, ?_⟩
  · rcases models with same | same <;> rw [same]
    · rw [pause_resumes (Or.inl (by exact clear))]
      exact congrArg _ (Context.setErrno_clear (by exact clear))
    · rw [pause_resumes (Or.inr rfl)]
      exact congrArg _ (@Context.setErrno_clear (l.parser.counting nread) (by exact clear))
  · refine ⟨rests.wf, rests.below, ?_, ?_, ?_, Nat.zero_le _, ?_, ?_, rests.small, rests.offsets, rests.calm⟩
    · rw [rests.content, split]
      simp only [passContext, List.append_assoc]
    · intro k inside
      refine (located k inside).trans ?_
      rw [rests.offset]
      simp only [passContext, List.length_append]
    · rw [rests.offset]
      simp only [passContext, List.length_append]
    · simp only [passContext, List.take_zero, List.append_nil]
    · have fits := rests.fits
      rwa [split] at fits
  · intro lag phase
    exact List.length_pos_iff.mpr some_bytes
  · intro t member
    unfold passContext at member
    dsimp only at member
    split at member
    · cases member
    · cases member
      exact ⟨between.setToken, rfl⟩
  · intro outside
    unfold passContext
    dsimp only
    rw [if_neg (by simp [outside])]
    exact Option.some_ne_none _

/-! ## Behind the parser's call -/

/-- Where the parser has returned `n`. -/
def arrived (n : Nat) (parser : HttpParser) (r : RewriterImpl) (d : δ) : HttpMessageStreamRewriter δ :=
  ⟨parser, { r with currentBufferOffset := sizeAdd r.currentBufferOffset n }, d⟩

theorem finish_header (r : RewriterImpl) (n : Nat) (header : Bool) :
    finish n { r with processHeaderComplete := header } = { finish n r with processHeaderComplete := header } := by
  unfold finish RewriterImpl.settleToken
  cases r.setToken <;> rfl

theorem finish_message (r : RewriterImpl) (n : Nat) (message : Bool) :
    finish n { r with processMessageComplete := message } = { finish n r with processMessageComplete := message } := by
  unfold finish RewriterImpl.settleToken
  cases r.setToken <;> rfl

theorem fine_of_models (models : l.Models parser) (clear : l.parser.httpErrno = .ok) :
    parser.httpErrno = .ok ∨ parser.httpErrno = .paused := by
  obtain ⟨nread, -, same | same⟩ := models <;> rw [same]
  · exact Or.inl clear
  · exact Or.inr rfl

theorem afterMessage_arrived {d : δ} (fine : parser.httpErrno = .ok ∨ parser.httpErrno = .paused) :
    afterMessage y.delegate (arrived n parser r d) =
      if (finish n r).processHeaderComplete then completeHeaders y.delegate ⟨parser, finish n r, d⟩
      else .ok ⟨parser, finish n r, d⟩ := by
  have parsing : (arrived n parser r d).parsing = true := decide_eq_true fine
  unfold afterMessage
  rw [if_neg (not_not.mpr parsing)]
  rfl

/-- No message is at its end. -/
theorem afterExecute_arrived {d : δ} (fine : parser.httpErrno = .ok ∨ parser.httpErrno = .paused)
    (message : (finish n r).processMessageComplete = false) : afterExecute y.delegate (arrived n parser r d) =
      if (finish n r).processHeaderComplete then completeHeaders y.delegate ⟨parser, finish n r, d⟩
      else .ok ⟨parser, finish n r, d⟩ := by
  have message : (arrived n parser r d).impl.processMessageComplete = false := by
    rw [finish_frame r n] at message
    exact message
  unfold afterExecute
  rw [if_neg (by simp [message])]
  exact afterMessage_arrived fine

theorem finish_setToken (r : RewriterImpl) (n : Nat) : (finish n r).setToken = false := by
  rw [finish_frame]

/-- A pass moves on, or comes to the end of a header block. -/
theorem effort_less {data after : Bytes} (inside : n ≤ data.length)
    (moved : 0 < n ∨ (∃ lag, l'.phase = .headersDone lag) ∧ l.phase.inToken = true) :
    effort l' (data.drop n ++ after) < effort l (data ++ after) := by
  unfold effort
  rw [List.length_append, List.length_append, List.length_drop]
  have most : (match l'.phase with | .headersDone _ => 0 | _ => 1) ≤ 1 := by split <;> decide
  rcases moved with some_bytes | ⟨⟨lag, phase'⟩, token⟩
  · omega
  · have start : (match l.phase with | .headersDone _ => 0 | _ => 1) = 1 := by
      split
      · next phase =>
        rw [phase] at token
        cases token
      · rfl
    rw [start, phase']
    dsimp only
    omega

variable {slice : Slice} {after : Bytes} {middle : Reader} {d : δ}

theorem inToken_of_fresh (fresh : (y.passContext s g l slice after).token = none) : l.phase.inToken = true := by
  unfold passContext at fresh
  dsimp only at fresh
  split at fresh
  · assumption
  · cases fresh

/-- `OnMessageComplete` -/
theorem afterExecute_complete (lawful : y.Lawful) (fine : parser.httpErrno = .ok ∨ parser.httpErrno = .paused)
    (pending : r.processMessageComplete = true)
    {Good : HttpMessageStreamRewriter δ → Prop}
    (header : (finish n r).processHeaderComplete = false)
    (refused : ∀ s', y.excuse → s'.impl.errored = true → Good s')
    (answered : ∀ d', y.acts.completes d (sizeAdd r.currentBufferOffset n) parser.upgrade true d' →
      Good ⟨parser, if parser.upgrade then { finish n r with stopped := true } else
        { finish n r with processMessageComplete := false }, d'⟩) :
    Outcome (afterExecute y.delegate (arrived n parser r d)) Good False := by
  obtain ⟨answer, d', told, acted⟩ :=
    lawful.implements.messageComplete (sizeAdd r.currentBufferOffset n) parser.upgrade (arrived n parser r d).impl d
  unfold afterExecute
  rw [if_pos (show (arrived n parser r d).impl.processMessageComplete = true from pending)]
  refine ensure_outcome told ?_ ?_
  · rintro rfl
    exact refused _ (lawful.refusal (Or.inr ⟨_, _, _, _, acted⟩)) rfl
  rintro rfl
  have good := answered d' acted
  cases upgrade : parser.upgrade with
  | true =>
    rw [upgrade, if_pos rfl] at good
    rw [show (arrived n parser r d).parser.upgrade = true from upgrade, if_pos rfl]
    have same : { (arrived n parser r d).impl with stopped := true }.settleToken = { finish n r with stopped := true } := by
      unfold finish arrived RewriterImpl.settleToken
      cases r.setToken <;> rfl
    show Good ⟨parser, { (arrived n parser r d).impl with stopped := true }.settleToken, d'⟩
    rw [same]
    exact good
  | false =>
    rw [upgrade, if_neg Bool.false_ne_true] at good
    rw [show (arrived n parser r d).parser.upgrade = false from upgrade, if_neg Bool.false_ne_true]
    show Outcome (afterMessage y.delegate (arrived n parser { r with processMessageComplete := false } d')) Good False
    rw [afterMessage_arrived fine, finish_message, if_neg (by simp [header])]
    exact good

/-- The parser has returned from a slice, and `after` lies behind it. -/
theorem left_passes (lawful : y.Lawful) (few : slice.bytes.length < 2 ^ 31)
    (left : (y.passContext s g l slice after).Left false g front middle n parser (r, d))
    (taken : Reader.run y.setup l slice.bytes = some (middle, front))
    (ahead : Reader.run y.setup middle after = some (last, back)) (tame : y.acts.Tame (front ++ back) g) :
    Outcome (afterExecute y.delegate (arrived (throughInt n) parser r d))
      (y.Passed s g l (slice.bytes ++ after) (front ++ back) last) False := by
  have exact_int (inside : n ≤ slice.bytes.length) : throughInt n = n := throughInt_eq (by omega)
  cases left with
  | @rests l' told toCome g' n parser r split performed sound models here inside moved rests token known running' =>
    subst split
    have calm := rests.calm
    rw [exact_int inside, afterExecute_arrived (fine_of_models models sound.meets.clear) calm.processMessageComplete,
      if_neg (by simp [calm.processHeaderComplete])]
    refine .goesOn (List.append_assoc ..) performed ⟨sound, models, rests, finish_setToken r n, rfl, running'⟩
      (Reader.run_join here ahead) (effort_less inside (moved.imp_right fun ends => ⟨ends.1, inToken_of_fresh ends.2⟩)) ?_
    intro outside
    rcases known outside with ⟨some_token, whole, passive⟩ | ends
    · right
      have before : l.phase.inToken = false := by
        by_contra inside
        exact some_token (if_pos (Bool.eq_true_of_not_eq_false inside))
      have member : s.impl.currentTokenOffset ∈ (y.passContext s g l slice after).token := if_neg (by simp [before])
      have now := token _ member (by assumption)
      have used : slice.bytes.drop n = [] := by rw [show n = slice.bytes.length from whole, List.drop_length]
      have nothing : Reader.run y.setup l' [] = some (middle, toCome) := used ▸ here
      cases nothing
      by_cases settled : Event.settled ∈ told
      · left
        exact ⟨⟨_, settled, rfl⟩, now.trans (if_pos (Or.inr settled))⟩
      · right
        refine ⟨before, now.trans (if_neg (by simp [settled])), settled, passive, slice.bytes, ?_, ?_⟩
        · show _ = slice.bytes ++ (slice.bytes.drop n ++ after)
          rw [used, List.nil_append]
        · rw [taken, List.append_nil]
    · exact Or.inl ends
  | @lineOnly l' closed line told toCome closing g' n parser r split performed sound phase start closes models here inside
      next pending rests fresh =>
    subst split
    cases behind : slice.bytes.drop n with
    | nil => exact absurd next (by simp [passContext, Context.data, behind])
    | cons c rest =>
    have here : Reader.run y.setup l' (c :: rest) = some (middle, toCome) := behind ▸ here
    obtain ⟨l₂, both, more, stepped, ran, rfl⟩ := Reader.run_cons_some here
    obtain ⟨closed₁, first, second, rfl, closes₁, soundClosed, steppedClosed, rfl⟩ :=
      Reader.step_closes sound phase stepped
    obtain ⟨rfl, rfl⟩ := Prod.mk.inj (Option.some.inj (closes₁.symm.trans closes))
    obtain ⟨phaseClosed, rfl⟩ := Context.close_phase closes
    have steppedClosed : Reader.step y.setup closed₁ lf = some (l₂, second) := steppedClosed
    have waits : (finish n r).processHeaderComplete = true := by
      rw [finish_frame]
      exact pending
    rw [finish_header, phase] at rests
    have resting : Rests y.setup { finish n r with processHeaderComplete := false } g' (.lastCr line)
        (slice.bytes.drop n ++ after) := rests
    have calm := resting.calm
    rw [exact_int inside, afterExecute_arrived (fine_of_models models soundClosed.meets.clear) calm.processMessageComplete,
      if_pos waits]
    have tame : y.acts.Tame ((line.events ++ [.headersComplete, .raw [cr]]) ++ (second ++ more ++ back)) g' := by
      have whole : y.acts.Tame (told ++ (line.events ++ [.headersComplete, .raw [cr]] ++ (second ++ more ++ back))) g := by
        simpa only [List.append_assoc] using tame
      exact whole.drop performed
    have head : (slice.bytes.drop n ++ after).head? = some lf := by rw [behind]; rfl
    refine (completeHeaders_closes lawful start rfl resting tame.take head).mono ?_ id
    rintro s' (⟨excuse, errored⟩ | ⟨closing, rests, set, delegate, same⟩)
    · exact .failed excuse errored
    have closedPhase : closed₁.phase = .headersDone 0 := by
      rw [phaseClosed]
      cases line with
      | header line => exact absurd rfl (start line)
      | _ => rfl
    have reads : Reader.run y.setup closed₁ (slice.bytes.drop n ++ after) = some (last, second ++ more ++ back) := by
      rw [behind]
      refine Reader.run_join ?_ ahead
      rw [Reader.run_cons, steppedClosed, Option.bind_some, ran]
      rfl
    refine .goesOn ?_ (performed.append closing) ⟨soundClosed, same ▸ models, closedPhase ▸ rests, set, delegate, ?_⟩ reads
      (effort_less inside (Or.inr ⟨⟨0, closedPhase⟩, inToken_of_fresh fresh⟩)) fun _ => Or.inl ⟨0, closedPhase⟩
    · simp only [List.append_assoc]
    · rw [closedPhase]
      nofun
  | @complete l' told toCome g' n parser r split performed sound phase models here inside moved pending rests token =>
    subst split
    rw [finish_message] at rests
    have calm := rests.calm
    have offset : sizeAdd r.currentBufferOffset n = g'.out.length := by
      have offset : (finish n r).currentBufferOffset = _ := rests.offset
      rw [finish_frame] at offset
      exact offset
    rw [exact_int inside]
    refine afterExecute_complete lawful (fine_of_models models sound.meets.clear) pending calm.processHeaderComplete ?_ ?_
    · exact fun s' excuse errored => .failed excuse errored
    intro d' completed
    rw [offset] at completed
    have told' : y.acts.PerformsAll [.messageComplete parser.upgrade] g' { g' with delegate := d' } := ⟨_, ⟨d', completed, rfl⟩, rfl⟩
    have resting : Rests y.setup { finish n r with processMessageComplete := false } { g' with delegate := d' } .idle
        (slice.bytes.drop n ++ after) :=
      ⟨rests.wf, rests.below, rests.content, rests.offset, rests.fits, rests.small, rests.offsets, rests.calm, rests.lag⟩
    have ahead := Reader.run_join here ahead
    cases upgrade : parser.upgrade with
    | true =>
      rw [upgrade] at phase told'
      have running : (finish n r).stopped = false := calm.stopped
      refine .stops (by rw [List.append_assoc]; rfl) (performed.append told') ⟨?_, rfl, token, rfl⟩ phase ahead
      have same : { finish n r with stopped := false, processMessageComplete := false } =
          { finish n r with processMessageComplete := false } := by rw [← running]
      show Rests y.setup { finish n r with stopped := false, processMessageComplete := false } _ _ _
      rw [same]
      exact resting
    | false =>
      rw [upgrade] at phase told'
      refine .goesOn (by rw [List.append_cons, List.append_assoc]) (performed.append told')
        ⟨sound, models, ?_, finish_setToken _ n, rfl, ?_⟩ ahead (effort_less inside (Or.inl moved)) ?_
      · rw [phase]
        exact resting
      · rw [phase]
        nofun
      · exact fun _ => Or.inr (Or.inl ⟨⟨.messageComplete false, by simp, rfl⟩, token⟩)
  | failed excuse error incomplete =>
    have failed : (arrived (throughInt n) parser r d).parsing = false := decide_eq_false (not_or.mpr error)
    unfold afterExecute afterMessage
    rw [if_neg (by simp [show (arrived (throughInt n) parser r d).impl.processMessageComplete = false from incomplete]),
      if_pos (by simp [failed])]
    exact .failed excuse rfl

/-- A pass, from wherever the rewriter is between two of them. -/
theorem parseStep_passes (lawful : y.Lawful) (between : y.Between s g l unread) (some_bytes : unread ≠ [])
    (short : ShortSlice s) (ahead : Reader.run y.setup l unread = some (last, events)) (tame : y.acts.Tame events g) :
    Outcome (parseStep y.delegate s) (y.Passed s g l unread events last) False := by
  have length := List.length_pos_iff.mpr some_bytes
  have inside : s.impl.currentBufferOffset < s.impl.currentBuffer.size := by
    rw [between.size]
    omega
  obtain ⟨slice, after, some_data, behind, located, walks⟩ := between.rests.wf.walk_once inside
  have split : unread = slice.bytes ++ after := by
    rw [← behind, between.rests.content, between.rests.offset, ← List.length_append, List.drop_left]
  subst split
  obtain ⟨middle, front, back, ranSlice, ranRest, rfl⟩ := Reader.run_append_some ahead
  obtain ⟨nread, resumed, ready⟩ := between.ready rfl some_data located ranSlice tame.take
  have few : slice.bytes.length < 2 ^ 31 :=
    short slice (by rw [show s.impl.currentBuffer.sliceAt _ = _ from walks (fun slice _ => .ok (some slice)) none]; rfl)
  rw [parseStep, parseSlice_eq, resumed, ok_bind, walks, overSlice]
  rw [between.delegate]
  refine Outcome.bind (Context.executes (passContext_lawful lawful) (List.length_pos_iff.mpr some_data) ready) ?_
  rintro ⟨⟨n, parser⟩, r, d⟩ left
  exact left_passes lawful few left ranSlice ranRest tame

end Scene

end LibNekit.Canonical
