import LibNekit.Canonical.Editors
import LibNekit.Canonical.Plain

/-!
# Messages come out whole, however they are cut

A stream of plain messages is handed to `RewriteBuffer` in pieces. The delegate is called
once for each element and in order, and the Buffers that come back are the stream with its
edits, whatever the pieces and their chunks are. That needs slices whose lengths fit into
an `int`: the bytes that the parser has taken are counted in one.
-/
namespace LibNekit.Guarantees.Fragmentation

open LibNekit.Source LibNekit.Source.Rewriter LibNekit.Source.HttpParser LibNekit.Source.HttpMessageStreamRewriter
  LibNekit.Library LibNekit.Canonical

variable {δ : Type} {editor : Editor δ} {s s' : HttpMessageStreamRewriter δ} {l last : Reader} {pending : Bytes}
  {events : List Event} {input : Nat × Buffer} {inputs : List (Nat × Buffer)}

/-! ## Streams and their pieces -/

/-- Plain messages, whose header blocks are shorter than half of what the parser allows. -/
def plain (type : MessageType) : Setup := { type := type.parserType, limit := 40000, plain := true }

/-- A stream of whole plain messages, and its elements. -/
def Canonical (type : MessageType) (stream : Bytes) (events : List Event) : Prop :=
  (Reader.run (plain type) (.start (plain type)) stream).map (fun done => (done.1.phase, done.2)) = some (.idle, events)

instance (type : MessageType) (stream : Bytes) (events : List Event) : Decidable (Canonical type stream events) :=
  inferInstanceAs (Decidable (_ = _))

/-- A Buffer that may be handed to `RewriteBuffer`, in front of addresses that no chunk has used. -/
structure Piece (input : Nat × Buffer) : Prop where
  wf : input.2.WellFormed
  below : input.2.Below input.1
  fits : input.2.size < 2 ^ 61
  some_bytes : input.2.content ≠ []

/-- The calls of `RewriteBuffer`, and what each one hands back. -/
def rewriteBuffers (delegate : Delegate δ) :
    List (Nat × Buffer) → HttpMessageStreamRewriter δ → Checked (List (Except RewriterError Buffer) × HttpMessageStreamRewriter δ)
  | [], s => .ok ([], s)
  | input :: inputs, s => do
    let (result, s) ← s.rewriteBuffer delegate input.1 input.2
    let (results, last) ← rewriteBuffers delegate inputs s
    return (result.map (fun _ => s.impl.currentBuffer) :: results, last)

/-- What the delegate makes of the elements of one Buffer is not too large for `size_t`. -/
def Fits (editor : Editor δ) (d : δ) (events : List Event) : Prop :=
  ∀ before front back text₀ text d₁ d', events = before ++ front ++ back → editor.TellsAll d before text₀ d₁ →
    (bytesOf front).length < 2 ^ 62 → editor.TellsAll d₁ front text d' → text.length < 2 ^ 62

theorem Fits.later {d d' : δ} {front back : List Event} {text : Bytes} (fits : Fits editor d (front ++ back))
    (told : editor.TellsAll d front text d') : Fits editor d' back := by
  intro before middle rest text₀ more d₁ d'' split first few second
  refine fits (front ++ before) middle rest _ _ _ _ ?_ (told.append first) few second
  rw [split]
  simp only [List.append_assoc]

/-- The editor's runs. -/
def scene (type : MessageType) (editor : Editor δ) : Scene δ := ⟨plain type, editor.delegate, editor.acts, False⟩

variable {type : MessageType}

theorem scene_lawful (fits : editor.Fits) : (scene type editor).Lawful where
  implements := Editor.implements fits
  refusal := Editor.acts_answers
  overflow := Nat.lt_irrefl 40000
  limit := (by decide : 40000 ≤ maxHeaderSize)

/-- So no Buffer of a call is. -/
theorem Fits.tame {front back : List Event} {bytes : Bytes} (fits : Fits editor s.delegate (front ++ back))
    (paused : (scene type editor).Paused s l pending) (few : bytes.length < 2 ^ 61)
    (ran : Reader.run (plain type) l bytes = some (last, front)) :
    (scene type editor).acts.Tame front (Scene.opening l pending s.delegate) := by
  have range : maxBufferSize = 8192 := rfl
  have kept := paused.withholds.few
  have opens := congrArg List.length (paused.withholds.opening_held s.delegate)
  have takes := congrArg List.length (Reader.run_takes paused.withholds.sound ran)
  rw [List.length_append] at opens
  rw [List.length_append, List.length_append] at takes
  intro first second g' split performed
  subst split
  obtain ⟨new, told, put⟩ := Editor.performsAll_tells performed
  rw [bytesOf_append, List.length_append] at takes
  have small := fits [] first (second ++ back) [] new _ _ (by simp) (.nothing _) (by omega) told
  rw [put, List.length_append]
  omega

/-- The run, from wherever the rewriter is between two calls: by induction on the pieces. -/
theorem rewriteBuffers_puts (fits : editor.Fits) (paused : (scene type editor).Paused s l pending)
    (pieces : ∀ input ∈ inputs, Piece input) (ahead : Reader.run (plain type) l (inputs.flatMap (·.2.content)) = some (last, events))
    (whole : last.phase = .idle) (small : Fits editor s.delegate events)
    (short : (machine editor.delegate).Along (CallAlong editor.delegate ShortSlice) inputs s) :
    ∃ (outputs : List Buffer) (s' : HttpMessageStreamRewriter δ) (text : Bytes),
      rewriteBuffers editor.delegate inputs s = .ok (outputs.map .ok, s') ∧ editor.TellsAll s.delegate events text s'.delegate ∧
        outputs.flatMap Buffer.content = (Scene.opening l pending s.delegate).out ++ text := by
  induction inputs generalizing s l pending events with
  | nil =>
    cases ahead
    refine ⟨[], s, [], rfl, .nothing _, ?_⟩
    obtain rfl := paused.idle whole
    simp [Scene.opening]
  | cons input inputs ih =>
    obtain ⟨piece, pieces⟩ := List.forall_mem_cons.mp pieces
    obtain ⟨next, front, back, here, later, rfl⟩ := Reader.run_append_some ahead
    obtain ⟨shortHere, shortLater⟩ := short
    have bytes : input.2.content.length < 2 ^ 61 := by
      rw [piece.wf.length_content]
      exact piece.fits
    have running : next.phase ≠ .stopped := by
      intro stopped
      have ends := Reader.run_stopped rfl stopped later
      rw [whole] at ends
      cases ends
    obtain ⟨⟨result, s₁⟩, ran, hands⟩ := (Scene.rewriteBuffer_hands (scene_lawful fits) id rfl paused piece.wf piece.below
      piece.fits piece.some_bytes shortHere here running (small.tame paused bytes here)).exists_ok
    obtain ⟨rfl, wf, pending₁, g, paused₁, performed, delegate, put⟩ := hands
    obtain ⟨new, told, puts⟩ := Editor.performsAll_tells performed
    have ran : s.rewriteBuffer editor.delegate input.1 input.2 = .ok (.ok (), s₁) := ran
    have stepped : (machine editor.delegate).step input s = .ok s₁ := by
      show (s.rewriteBuffer editor.delegate input.1 input.2 >>= fun done => pure done.2) = _
      rw [ran]
      rfl
    have paused₁ : (scene type editor).Paused s₁ next pending₁ := paused₁
    have delegate : s₁.delegate = g.delegate := delegate
    have told : editor.TellsAll s.delegate front new s₁.delegate := delegate ▸ told
    have opens := paused₁.withholds.opening_held s₁.delegate
    have put : s₁.impl.currentBuffer.content ++ (Scene.opening next pending₁ s₁.delegate).out =
        (Scene.opening l pending s.delegate).out ++ new := by
      refine @List.append_cancel_right _ _ next.phase.held _ ?_
      rw [List.append_assoc, opens, ← puts]
      exact put
    obtain ⟨outputs, s', text, rans, tells, all⟩ := ih paused₁ pieces later (small.later told) (shortLater s₁ stepped)
    refine ⟨s₁.impl.currentBuffer :: outputs, s', new ++ text, ?_, told.append tells, ?_⟩
    · rw [rewriteBuffers, ran, ok_bind]
      dsimp only
      rw [rans]
      rfl
    · rw [List.flatMap_cons, all, ← List.append_assoc, put, List.append_assoc]

theorem Fits.recorded {d : δ} (small : Fits editor d events) : Fits editor.recorded (d, []) events := by
  intro before front back text₀ text s₁ s₂ split first few second
  exact small before front back text₀ text s₁.1 s₂.1 split (Editor.recorded_tellsAll first).1 few
    (Editor.recorded_tellsAll second).1

/-- Every run over a stream of plain messages, whatever its pieces: the record that the delegate
keeps is the elements in their order, and what comes back is what it makes of them. -/
theorem fragments_rewritten (type : MessageType) (editor : Editor δ) (d : δ) (fits : editor.Fits) {stream : Bytes}
    (canonical : Canonical type stream events) (pieces : ∀ input ∈ inputs, Piece input)
    (split : inputs.flatMap (·.2.content) = stream) (small : Fits editor d events)
    (short : (machine editor.recorded.delegate).Along (CallAlong editor.recorded.delegate ShortSlice) inputs
      (make type (d, []))) :
    ∃ (outputs : List Buffer) (s' : HttpMessageStreamRewriter (δ × List Editor.Reading)) (text : Bytes),
      rewriteBuffers editor.recorded.delegate inputs (make type (d, [])) = .ok (outputs.map .ok, s') ∧
        bytesOf events = stream ∧ s'.delegate.2 = events.flatMap Editor.readings ∧
          editor.TellsAll d events text s'.delegate.1 ∧ outputs.flatMap Buffer.content = text := by
  obtain ⟨⟨last, told⟩, ran, same⟩ := Option.map_eq_some_iff.mp canonical
  obtain ⟨whole, rfl⟩ := Prod.mk.inj same
  have whole : last.phase = .idle := whole
  have paused : (scene type editor.recorded).Paused (make type (d, [])) (.start (plain type)) [] :=
    ⟨Scene.fresh (scene type editor.recorded) type (d, []) rfl, fun _ => rfl⟩
  obtain ⟨outputs, s', text, rans, tells, all⟩ :=
    rewriteBuffers_puts (Editor.recorded_fits fits) paused pieces (split ▸ ran) whole small.recorded short
  obtain ⟨told, record⟩ := Editor.recorded_tellsAll tells
  refine ⟨outputs, s', text, rans, ?_, record, told, all⟩
  have takes := Reader.run_takes (Reader.start_sound _) ran
  rw [whole] at takes
  exact (List.append_nil _).symm.trans takes.symm

/-! ## A run -/

/-- An editor that adds at most `k` bytes in a callback. -/
theorem tellsAll_length {k : Nat} {d d' : δ} {text : Bytes}
    (grows : ∀ d event new d', editor.Tells d event new d' → new.length ≤ event.bytes.length + k)
    (told : editor.TellsAll d events text d') : text.length ≤ (bytesOf events).length + k * events.length := by
  induction told with
  | nothing d => exact Nat.zero_le _
  | @tells d d₁ d' event events new rest told more ih =>
    have here := grows d event new d₁ told
    rw [List.length_append, bytesOf_cons, List.length_append, List.length_cons, Nat.mul_succ]
    omega

theorem fits_of_grows {k : Nat} {d : δ} (grows : ∀ d event new d', editor.Tells d event new d' → new.length ≤ event.bytes.length + k)
    (few : (bytesOf events).length + k * events.length < 2 ^ 62) : Fits editor d events := by
  rintro before front back text₀ text d₁ d' rfl first - second
  have length := tellsAll_length grows second
  simp only [bytesOf_append, List.length_append, Nat.mul_add] at few
  omega

/-- Another target, no header `A`, and a count of the callbacks. -/
def elsewhere : Editor Nat where
  method _ n := (.keep, n + 1)
  url _ n := (.rewrite (ascii "/elsewhere"), n + 1)
  version _ n := (.keep, n + 1)
  status _ n := (.keep, n + 1)
  headerPair r n := (if r.currentHeader.toOption.map Prod.fst = some (ascii "A") then .delete else .keep, n + 1)
  headerComplete _ n := n + 1
  messageComplete _ _ _ n := n + 1

theorem elsewhere_fits : elsewhere.Fits where
  method _ _ := trivial
  url _ _ := show (ascii "/elsewhere").length < 2 ^ 63 by decide
  version _ _ := trivial
  status _ _ := trivial
  headerPair r n := by
    unfold elsewhere
    dsimp only
    split <;> trivial

theorem elsewhere_grows (d : Nat) (event : Event) (new : Bytes) (d' : Nat) (told : elsewhere.Tells d event new d') :
    new.length ≤ event.bytes.length + 10 := by
  cases event with
  | method text | version text | status text =>
    obtain ⟨r, -, rfl, -⟩ := told
    exact Nat.le_add_right _ _
  | url url =>
    obtain ⟨r, -, rfl, -⟩ := told
    exact Nat.le_add_left _ _
  | header line =>
    obtain ⟨r, -, -, rfl, -⟩ := told
    unfold elsewhere
    dsimp only
    split
    · exact Nat.zero_le _
    · exact Nat.le_add_right _ _
  | headersComplete =>
    obtain ⟨r, rfl, -⟩ := told
    exact Nat.zero_le _
  | messageComplete upgrade =>
    obtain ⟨offset, r, rfl, -⟩ := told
    exact Nat.zero_le _
  | raw bytes =>
    obtain ⟨rfl, -⟩ := told
    exact Nat.le_add_right _ _
  | settled =>
    obtain ⟨rfl, -⟩ := told
    exact Nat.zero_le _

/-- A request in three pieces, cut in its target and in the name of a header. -/
def request : List (Nat × Buffer) :=
  [(1, inOneChunk (ascii "POST /he")), (1, inOneChunk (ascii "re HTTP/1.1\r\nA: b\r\nConte")),
    (1, inOneChunk (ascii "nt-Length: 2\r\n\r\nhi"))]

def elements : List Event :=
  [.method (ascii "POST"), .raw [space], .url (ascii "/here"), .raw [space], .version (ascii "HTTP/1.1"), .raw crlf,
    .header ⟨ascii "A", [space], ascii "b"⟩, .header ⟨ascii "Content-Length", [space], ascii "2"⟩, .headersComplete,
    .raw [cr], .raw [lf], .raw (ascii "h"), .settled, .raw (ascii "i"), .settled, .messageComplete false]

theorem inOneChunk_piece {bytes : Bytes} (some_bytes : bytes ≠ []) (few : bytes.length < 2 ^ 61) : Piece (1, inOneChunk bytes) where
  wf := inOneChunk_wf some_bytes
  below := inOneChunk_below bytes
  fits := few
  some_bytes := by
    rw [← List.length_pos_iff, (inOneChunk_wf some_bytes).length_content]
    exact List.length_pos_iff.mpr some_bytes

theorem fragments_rewritten_request :
    ∃ (outputs : List Buffer) (s' : HttpMessageStreamRewriter (Nat × List Editor.Reading)) (text : Bytes),
      rewriteBuffers elsewhere.recorded.delegate request (make .request (0, [])) = .ok (outputs.map .ok, s') ∧
        bytesOf elements = ascii "POST /here HTTP/1.1\r\nA: b\r\nContent-Length: 2\r\n\r\nhi" ∧
          s'.delegate.2 = elements.flatMap Editor.readings ∧ elsewhere.TellsAll 0 elements text s'.delegate.1 ∧
            outputs.flatMap Buffer.content = text := by
  refine @fragments_rewritten _ _ request .request elsewhere 0 elsewhere_fits _ ?_ ?_ ?_ ?_ ?_
  · decide +kernel
  · intro input member
    simp only [request, List.mem_cons, List.not_mem_nil, or_false] at member
    rcases member with rfl | rfl | rfl <;> exact inOneChunk_piece (by decide) (by decide)
  · decide
  · exact fits_of_grows elsewhere_grows (by decide)
  · decide +kernel

/-! ## A slice that is too long -/

/-- The parser takes a whole piece of a body. -/
theorem execute_identity {σ : Type} {handler : Callback → σ → Checked (Reply × σ)} {parser : HttpParser} {bytes : Bytes} {x x' : σ}
    (state : parser.state = .bodyIdentity) (clear : parser.httpErrno = .ok) (some_bytes : bytes ≠ [])
    (short : bytes.length < parser.contentLength) (known : parser.contentLength < ullongMax)
    (answered : handler (.data .body 0 bytes.length) x = .ok ({}, x')) :
    (execute parser bytes).run handler x =
      .ok ((bytes.length, { parser with contentLength := parser.contentLength - bytes.length }), x') := by
  have length := List.length_pos_iff.mpr some_bytes
  have entry : entryFrame parser = ⟨0, parser, fun _ => none⟩ := by
    unfold entryFrame
    rw [state]
    rfl
  have here : bytes[0]? = some bytes[0] := List.getElem?_eq_getElem length
  have turn : switch bytes ⟨0, parser, fun _ => none⟩ bytes[0] = Run.next (bodyFrame 0 bytes.length parser.nread parser) := by
    have turned := @switch_identity bytes parser 0 bytes.length parser.nread bytes[0] state
      ⟨by omega, Nat.ne_of_lt known⟩ (by omega)
    rw [if_neg (by omega)] at turned
    exact turned
  have same : ({ parser with contentLength := parser.contentLength - bytes.length } : HttpParser).setErrno
      (({} : Reply).errno (.cbData .body)) = { parser with contentLength := parser.contentLength - bytes.length } := by
    rw [show ({} : Reply).errno (.cbData .body) = parser.httpErrno from clear.symm]
    rfl
  have feeds : Feeds handler bytes (entryFrame parser) x (fun n parser' s => (n, parser') =
      (bytes.length, { parser with contentLength := parser.contentLength - bytes.length }) ∧ s = x') False := by
    rw [entry]
    have pass : iteration bytes ⟨0, parser, fun _ => none⟩ bytes[0] =
        Run.next (bodyFrame 0 bytes.length parser.nread parser) := by
      unfold iteration
      rw [if_neg (by rw [state]; decide)]
      exact turn
    refine Feeds.silent here pass (Nat.zero_le _) ?_
    refine @Feeds.report _ _ _ _ _ _ _ .body 0 (by show 0 + bytes.length - 1 + 1 = _; omega) clear rfl ?_
    rw [Nat.sub_zero, answered]
    exact ⟨by rw [← same]; rfl, rfl⟩
  obtain ⟨⟨done, s⟩, ran, result, final⟩ := (execute_outcome clear some_bytes feeds).exists_ok
  rw [ran]
  exact congrArg Except.ok (Prod.ext result final)

theorem inOneChunk_content {bytes : Bytes} : (inOneChunk bytes).content = bytes := by
  simp [inOneChunk, Buffer.content, Buf.bytes]

theorem passing_counts (piece : Bytes) : (passing piece).length = 2 * piece.length ∧ bytesOf (passing piece) = piece := by
  induction piece with
  | nil => exact ⟨rfl, rfl⟩
  | cons c piece ih =>
    rw [passing_cons, List.length_cons, List.length_cons, List.length_cons, bytesOf_cons, bytesOf_cons, ih.2]
    exact ⟨by omega, rfl⟩

/-- A response with a body of 2 GiB and 2 bytes. -/
def head : Bytes := ascii "HTTP/1.1 200 OK\r\nContent-Length: 2147483650\r\n\r\na"

variable {body : Bytes}

/-- It is a plain message. -/
theorem response_canonical (length : body.length = 2 ^ 31) : ∃ events, Canonical .response (head ++ (body ++ [0])) events ∧
    (bytesOf events).length + 10 * events.length < 2 ^ 62 := by
  have begins : (Reader.run (plain .response) (.start (plain .response)) head).map (fun done => decide
      (done.1.phase = .body ∧ done.1.parser.state = .bodyIdentity ∧ done.1.parser.contentLength = 2 ^ 31 + 1 ∧
        done.1.parser.upgrade = false ∧ (bytesOf done.2).length + 10 * done.2.length < 2 ^ 32)) = some true := by
    decide +kernel
  obtain ⟨⟨l, first⟩, ran, known⟩ := Option.map_eq_some_iff.mp begins
  obtain ⟨phase, state, left, upgrade, few⟩ := of_decide_eq_true known
  have phase : l.phase = .body := phase
  have state : l.parser.state = .bodyIdentity := state
  have left : l.parser.contentLength = 2 ^ 31 + 1 := left
  have upgrade : l.parser.upgrade = false := upgrade
  have passes := @Reader.run_identity (plain .response) l body phase state (by omega)
    (by rw [left]; decide)
  have one : (l.less body.length).parser.contentLength = 1 := by
    show l.parser.contentLength - body.length = 1
    omega
  obtain ⟨last, ends, idle⟩ := @Reader.run_identity_last (plain .response) (l.less body.length) 0 phase state one upgrade
  have whole := Reader.run_join ran (Reader.run_join passes ends)
  refine ⟨_, by rw [Canonical, whole, Option.map_some, idle], ?_⟩
  obtain ⟨count, bytes⟩ := passing_counts body
  simp only [bytesOf_append, List.length_append, count, bytes, length]
  have few : (bytesOf first).length + 10 * first.length < 2 ^ 32 := few
  show _ + (_ + 1) + 10 * (_ + (_ + 3)) < _
  omega

/-- The rewriter behind `head`. -/
structure Midway (s : HttpMessageStreamRewriter Nat) : Prop where
  state : s.parser.state = .bodyIdentity
  left : s.parser.contentLength = 2 ^ 31 + 1
  parsing : s.parsing = true
  pending : s.impl.pendingBufferLength = 0
  errored : s.impl.errored = false
  stopped : s.impl.stopped = false
  message : s.impl.processMessageComplete = false
  header : s.impl.processHeaderComplete = false

theorem head_midway : ∃ s, (make .response 0).rewriteBuffer elsewhere.delegate 1 (inOneChunk head) = .ok (.ok (), s) ∧ Midway s := by
  have first : ((make .response 0).rewriteBuffer elsewhere.delegate 1 (inOneChunk head)).map
      (fun done => decide (done.1 = .ok () ∧ done.2.parser.state = .bodyIdentity ∧ done.2.parser.contentLength = 2 ^ 31 + 1 ∧
        done.2.parsing = true ∧ done.2.impl.pendingBufferLength = 0 ∧ done.2.impl.errored = false ∧
        done.2.impl.stopped = false ∧ done.2.impl.processMessageComplete = false ∧
        done.2.impl.processHeaderComplete = false)) = .ok true := by decide +kernel
  cases ran : (make .response 0).rewriteBuffer elsewhere.delegate 1 (inOneChunk head) with
  | error e =>
    rw [ran] at first
    cases first
  | ok done =>
    rw [ran] at first
    obtain ⟨result, s⟩ := done
    obtain ⟨fine, state, left, parsing, pending, errored, stopped, message, header⟩ := of_decide_eq_true (Except.ok.inj first)
    have fine : result = .ok () := fine
    exact ⟨s, congrArg (fun result => Except.ok (result, s)) fine, state, left, parsing, pending, errored, stopped, message, header⟩

/-- 2 GiB become a negative `int`, and the next pass starts far behind the Buffer. -/
theorem body_asserts {s : HttpMessageStreamRewriter Nat} (midway : Midway s) (length : body.length = 2 ^ 31) :
    s.rewriteBuffer elsewhere.delegate 1 (inOneChunk body) = .error .assertion := by
  have some_bytes : body ≠ [] := List.length_pos_iff.mp (by rw [length]; exact Nat.two_pow_pos 31)
  let s₁ : HttpMessageStreamRewriter Nat :=
    { s with impl.next := 1, impl.currentBuffer := inOneChunk body, impl.currentBufferOffset := 0 }
  have carried : carryIn 1 (inOneChunk body) s = .ok s₁ := if_neg (not_not.mpr midway.pending)
  have size : (inOneChunk body).size = 2 ^ 31 := length
  have unfinished : s₁.unfinished = true := by
    refine decide_eq_true ⟨?_, by simp [s₁, midway.errored], by simp [s₁, midway.stopped]⟩
    show ¬0 = (inOneChunk body).size
    rw [size]
    decide
  have resumed : s₁.parser.pause false = .ok (s₁.parser.setErrno .ok) := by
    unfold HttpParser.pause
    exact if_pos (of_decide_eq_true midway.parsing)
  have next : s₁.nextCall = some (s₁.parser.setErrno .ok, ⟨⟨0, 0⟩, body⟩) := by
    unfold nextCall
    rw [resumed, show s₁.impl.currentBuffer.sliceAt s₁.impl.currentBufferOffset = _ from inOneChunk_slice some_bytes]
  obtain ⟨-, step⟩ := @parseStep_next _ elsewhere.delegate s₁ _ _ (inOneChunk_wf some_bytes) unfinished next
  have answered : parserSettings elsewhere.delegate ⟨0, 0⟩ (.data .body 0 body.length) (s₁.impl, s₁.delegate) =
      .ok ({}, { s₁.impl with setToken := true }, s₁.delegate) := rfl
  have left : (s₁.parser.setErrno .ok).contentLength = 2 ^ 31 + 1 := midway.left
  have executed := @execute_identity _ _ (s₁.parser.setErrno .ok) body _ _ midway.state rfl some_bytes
    (by rw [left, length]; omega) (by rw [left]; decide) answered
  let parser : HttpParser := { s₁.parser.setErrno .ok with contentLength := (s₁.parser.setErrno .ok).contentLength - body.length }
  let s₂ := parsedUpTo body.length parser { s₁.impl with setToken := true } s₁.delegate
  have passed : parseStep elsewhere.delegate s₁ = .ok { s₂ with impl := s₂.impl.settleToken } := by
    rw [step, overSlice, executed, ok_bind]
    exact afterExecute_calm midway.message rfl midway.header
  have offset : s₂.impl.settleToken.currentBufferOffset = 2 ^ 64 - 2 ^ 31 := by
    show sizeAdd 0 (throughInt body.length) = _
    rw [length]
    decide
  have more : ({ s₂ with impl := s₂.impl.settleToken } : HttpMessageStreamRewriter Nat).unfinished = true := by
    refine decide_eq_true ⟨?_, by simp [s₂, s₁, parsedUpTo, RewriterImpl.settleToken, midway.errored],
      by simp [s₂, s₁, parsedUpTo, RewriterImpl.settleToken, midway.stopped]⟩
    show s₂.impl.settleToken.currentBufferOffset ≠ (inOneChunk body).size
    rw [offset, size]
    decide
  have asserts : parseStep elsewhere.delegate { s₂ with impl := s₂.impl.settleToken } = .error .assertion := by
    have beyond : ¬s₂.impl.settleToken.currentBufferOffset ≤ (inOneChunk body).size := by
      rw [offset, size]
      decide
    show boostAssert (s₂.impl.settleToken.currentBufferOffset ≤ (inOneChunk body).size) >>= _ = _
    unfold boostAssert
    rw [if_neg beyond]
    rfl
  unfold rewriteBuffer
  rw [carried, ok_bind, show s₁.loopFuel = 2 * body.length + 1 + 1 from rfl, parseLoop, if_pos unfinished, passed, ok_bind,
    parseLoop, if_pos more, asserts]
  rfl

theorem two_gigabytes_assert : ∃ (inputs : List (Nat × Buffer)) (stream : Bytes) (events : List Event),
    elsewhere.Fits ∧ Canonical .response stream events ∧ (∀ input ∈ inputs, Piece input) ∧
      inputs.flatMap (·.2.content) = stream ∧ Fits elsewhere 0 events ∧
        rewriteBuffers elsewhere.delegate inputs (make .response 0) = .error .assertion := by
  have length : (List.replicate (2 ^ 31) (0 : UInt8)).length = 2 ^ 31 := List.length_replicate
  generalize List.replicate (2 ^ 31) (0 : UInt8) = body at length
  obtain ⟨events, canonical, few⟩ := response_canonical length
  have some_bytes : body ≠ [] := List.length_pos_iff.mp (by rw [length]; exact Nat.two_pow_pos 31)
  refine ⟨[(1, inOneChunk head), (1, inOneChunk body), (1, inOneChunk [0])], _, events, elsewhere_fits, canonical, ?_, ?_,
    fits_of_grows elsewhere_grows few, ?_⟩
  · intro input member
    simp only [List.mem_cons, List.not_mem_nil, or_false] at member
    rcases member with rfl | rfl | rfl
    · exact inOneChunk_piece (by decide) (by decide)
    · exact inOneChunk_piece some_bytes (by omega)
    · exact inOneChunk_piece (by decide) (by decide)
  · simp only [List.flatMap_cons, List.flatMap_nil, inOneChunk_content, List.append_nil]
  · obtain ⟨s, ran, midway⟩ := head_midway
    rw [rewriteBuffers, ran, ok_bind]
    dsimp only
    rw [rewriteBuffers, body_asserts midway length]
    rfl

end LibNekit.Guarantees.Fragmentation
