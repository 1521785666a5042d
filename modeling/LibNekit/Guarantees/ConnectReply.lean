import LibNekit.Canonical.Responses
import LibNekit.Guarantees.ConnectOutcome
import LibNekit.Guarantees.StreamRuns

/-!
# What a proxy's reply decides

`HttpDataFlow` reads a reply to its CONNECT request in whatever pieces the next hop hands
over. It goes on reading until the reply is complete. Then Connect's handler hears of a
success if the status begins with 200, and of `ConnectError` if it does not. Nothing of the
reply is left for the tunnel to read.
-/
namespace LibNekit.Guarantees.ConnectReply

open LibNekit.Source LibNekit.Source.Rewriter LibNekit.Source.HttpParser LibNekit.Source.HttpMessageStreamRewriter
  LibNekit.Library LibNekit.Canonical LibNekit.Guarantees.ConnectOutcome LibNekit.Guarantees.StreamRuns

open HttpDataFlow hiding Event

/-- Replies are read without their bodies. -/
def replies : Setup := { type := .response, limit := 40000, skipBody := true, plain := true }

/-! ## The delegate -/

/-- What an event tells the delegate, where `out` bytes are in front of it. -/
def heard (out : Nat) (d : Response) : Event → Response
  | .status token => { d with success := startsWith200 token }
  | .messageComplete _ => { d with headerOffset := out, finished := true }
  | _ => d

/-- A response has no method and no target, which it would refuse. -/
def hears (event : Event) (d : Deferred Response) : Deferred Response :=
  if event.requests then d >>= fun _ => .error .parted else d.map fun d => heard 0 d event

def acts : Acts (Deferred Response) where
  edits d event answer new d' := answer = true ∧ new = event.bytes ∧ d' = hears event d
  completes d offset upgrade answer d' := answer = true ∧ d' = d.map fun d => heard offset d (.messageComplete upgrade)

theorem acts_answers : ¬acts.Refuses := by
  rintro (⟨d, event, new, d', answer, -⟩ | ⟨d, offset, upgrade, d', answer, -⟩) <;> cases answer

variable {r r' : RewriterImpl} {out token tail : Bytes} {g g' : Draft (Deferred Response)} {d : Response} {event : Event}
  {events front back : List Event}

/-- A callback on an element of a start line leaves the Buffer as it is. -/
theorem still_edits {call : DelegateCall (Deferred Response)} {element : Bytes → Event} (same : ∀ token, (element token).bytes = token)
    (ran : ∀ r d token, r.currentToken = .ok token → call r d = .ok (true, r, hears (element token) d)) :
    EditsToken acts call element := by
  intro r d out token tail spot ends
  exact ⟨true, r, _, token, ran r d token (spot.currentToken ends), ⟨rfl, (same token).symm, rfl⟩,
    .refl spot.wf spot.below spot.content, spot.begins, ends⟩

theorem implements : Implements delegate.deferred acts where
  method := still_edits (fun _ => rfl) fun r d token _ => by cases d <;> rfl
  url := still_edits (fun _ => rfl) fun r d token _ => by cases d <;> rfl
  version := still_edits (fun _ => rfl) fun r d token _ => by cases d <;> rfl
  status := by
    refine still_edits (fun _ => rfl) fun r d token read => ?_
    cases d with
    | error halt => rfl
    | ok d =>
      have ran : delegate.onStatus r d = .ok (true, r, { d with success := startsWith200 token }) := by
        show r.currentToken >>= _ = _
        rw [read]
        rfl
      exact deferred_true ran
  header := by
    intro r d out line tail onLine
    refine ⟨true, r, d, line.bytes, ?_, ⟨rfl, rfl, ?_⟩, .refl onLine.spot.wf onLine.spot.below onLine.spot.content⟩
    · cases d <;> rfl
    · cases d <;> rfl
  headerComplete := by
    intro r d out tail spot
    refine ⟨true, r, d, [], ?_, ⟨rfl, rfl, ?_⟩, .refl spot.wf spot.below spot.content, ?_⟩
    · cases d <;> rfl
    · cases d <;> rfl
    · rw [spot.begins, List.length_nil, Nat.add_zero]
  messageComplete := by
    intro offset upgrade r d
    refine ⟨true, d.map fun d => heard offset d (.messageComplete upgrade), ?_, rfl, rfl⟩
    cases d <;> rfl

def scene : Scene (Deferred Response) := ⟨replies, delegate.deferred, acts, False⟩

theorem scene_lawful : scene.Lawful where
  implements := implements
  refusal := acts_answers
  overflow := fun large => absurd (show (40000 : Nat) < 40000 from large) (Nat.lt_irrefl _)
  limit := show (40000 : Nat) ≤ maxHeaderSize by decide

theorem acts_grow (d : Deferred Response) (event : Event) (new : Bytes) (d' : Deferred Response)
    (told : Tells acts d event new d') : new.length ≤ event.bytes.length + 0 := by
  have same : new = event.bytes := by
    cases event with
    | raw bytes | settled | messageComplete upgrade => exact told.1
    | _ => exact told.2.1
  exact Nat.le_of_eq (congrArg List.length same)

/-! ## What it hears -/

/-- What a stream tells it. -/
def hearAll : Nat → Response → List Event → Response
  | _, d, [] => d
  | out, d, event :: events => hearAll (out + event.bytes.length) (heard out d event) events

theorem performs_heard (going : g.delegate = .ok d) (other : event.requests = false) (performed : acts.Performs event g g') :
    g'.delegate = .ok (heard g.out.length d event) ∧ g'.out = g.out ++ event.bytes := by
  cases event with
  | raw bytes =>
    cases performed
    exact ⟨going, rfl⟩
  | settled =>
    cases performed
    exact ⟨going, (List.append_nil _).symm⟩
  | messageComplete upgrade =>
    obtain ⟨d', ⟨-, rfl⟩, rfl⟩ := performed
    exact ⟨by rw [going]; rfl, (List.append_nil _).symm⟩
  | method token | url token => cases other
  | version token | status token | header line | headersComplete =>
    obtain ⟨new, d', ⟨-, rfl, rfl⟩, rfl⟩ := performed
    exact ⟨by rw [going]; rfl, rfl⟩

theorem performsAll_heard (going : g.delegate = .ok d) (others : ∀ event ∈ events, event.requests = false)
    (performed : acts.PerformsAll events g g') :
    g'.delegate = .ok (hearAll g.out.length d events) ∧ g'.out = g.out ++ bytesOf events := by
  induction events generalizing g d with
  | nil =>
    cases performed
    exact ⟨going, (List.append_nil _).symm⟩
  | cons event events ih =>
    obtain ⟨other, others⟩ := List.forall_mem_cons.mp others
    obtain ⟨middle, first, more⟩ := performed
    obtain ⟨going, put⟩ := performs_heard going other first
    obtain ⟨ends, puts⟩ := ih going others more
    rw [put, List.length_append] at ends
    exact ⟨ends, by rw [puts, put, bytesOf_cons, List.append_assoc]⟩

/-- Whether the last status is one of a success. -/
def accepted : Bool → List Event → Bool
  | before, [] => before
  | _, .status token :: events => accepted (startsWith200 token) events
  | before, _ :: events => accepted before events

theorem hearAll_success (out : Nat) : (hearAll out d events).success = accepted d.success events := by
  induction events generalizing out d with
  | nil => rfl
  | cons event events ih => cases event <;> exact ih _

theorem hearAll_finished (out : Nat) : (hearAll out d events).finished = (d.finished || events.any completes) := by
  induction events generalizing out d with
  | nil => exact (Bool.or_false _).symm
  | cons event events ih =>
    rw [hearAll, ih]
    cases event <;> simp [heard, completes]

theorem hearAll_append (out : Nat) : hearAll out d (front ++ back) =
    hearAll (out + (bytesOf front).length) (hearAll out d front) back := by
  induction front generalizing out d with
  | nil => rfl
  | cons event front ih =>
    rw [List.cons_append, hearAll, ih, hearAll, bytesOf_cons, List.length_append, Nat.add_assoc]

/-- The end of the reply is where the tunnel begins. -/
theorem hearAll_offset (out : Nat) (upgrade : Bool) :
    (hearAll out d (front ++ [.messageComplete upgrade])).headerOffset = out + (bytesOf front).length := by
  rw [hearAll_append]
  rfl

theorem accepted_append (before : Bool) : accepted before (front ++ back) = accepted (accepted before front) back := by
  induction front generalizing before with
  | nil => rfl
  | cons event front ih => cases event <;> exact ih _

/-! ## A read -/

variable {f : HttpDataFlow} {l last : Reader} {pending : Bytes} {success : Bool} {input : Nat × Buffer} {inputs : List (Nat × Buffer)}

/-- `ReadResponse` has been called, and the reply is not complete. -/
structure Awaits (f : HttpDataFlow) (l : Reader) (pending : Bytes) (success : Bool) : Prop where
  stage : f.stage = .reading
  stateMachine : f.stateMachine = establishing
  payload : f.pendingPayload = .empty
  paused : scene.Paused (watched f.rewriter) l pending
  responds : l.phase.responds = true
  unfinished : f.rewriter.delegate.finished = false
  success : f.rewriter.delegate.success = success

theorem Awaits.rewrites (awaits : Awaits f l pending success) (piece : ShortPiece input)
    (here : Reader.run replies l input.2.content = some (last, front)) (running : last.phase ≠ .stopped)
    (fits : Fits acts (.ok f.rewriter.delegate) (front ++ back)) :
    ∃ (rewriter : HttpMessageStreamRewriter Response) (out pending' : Bytes),
      f.rewriter.rewriteBuffer delegate input.1 input.2 = .ok (.ok (), rewriter) ∧ scene.Paused (watched rewriter) last pending' ∧
        rewriter.delegate = hearAll out.length f.rewriter.delegate front ∧
          rewriter.impl.currentBuffer.content ++ (if last.phase.inToken then [] else pending') = out ++ bytesOf front ∧
            rewriter.impl.currentBuffer.WellFormed ∧
              ∃ new, TellsAll acts (.ok f.rewriter.delegate) front new (.ok rewriter.delegate) := by
  obtain ⟨⟨put, d⟩, performed, ends⟩ := rewriteBuffer_watched scene_lawful rfl awaits.paused piece here running fits
  obtain ⟨-, others⟩ := Reader.run_responds rfl rfl awaits.paused.withholds.sound awaits.responds here
  obtain ⟨going, puts⟩ := performsAll_heard rfl others performed
  have going : d = .ok (hearAll _ f.rewriter.delegate front) := going
  obtain ⟨new, told, -⟩ := performsAll_tells performed
  have told : TellsAll acts (.ok f.rewriter.delegate) front new d := told
  subst going
  obtain ⟨rewriter, pending', heard, ran, paused, content, wf, -⟩ := ends
  exact ⟨rewriter, _, pending', ran, paused, heard, content.trans puts, wf, new, heard ▸ told⟩

theorem Awaits.step_eq (awaits : Awaits f l pending success) (nextHop : FlowStateMachine) {rewriter : HttpMessageStreamRewriter Response}
    (ran : f.rewriter.rewriteBuffer delegate input.1 input.2 = .ok (.ok (), rewriter)) :
    f.step (.read (.data input.2) nextHop input.1) =
      if rewriter.delegate.finished then { f with nextHop, rewriter }.finishResponse rewriter.impl.currentBuffer
      else .ok { f with nextHop, rewriter, stage := .reading } := by
  unfold HttpDataFlow.step
  rw [awaits.stage]
  dsimp only [HttpDataFlow.onRead]
  rw [ran]
  rfl

/-- The reply goes on. -/
theorem Awaits.goesOn (awaits : Awaits f l pending success) (nextHop : FlowStateMachine) (piece : ShortPiece input)
    (here : Reader.run replies l input.2.content = some (last, front)) (running : last.phase ≠ .stopped)
    (fits : Fits acts (.ok f.rewriter.delegate) (front ++ back)) (incomplete : front.any completes = false) :
    ∃ f' pending', f.step (.read (.data input.2) nextHop input.1) = .ok f' ∧ Awaits f' last pending' (accepted success front) ∧
      ∃ new, TellsAll acts (.ok f.rewriter.delegate) front new (.ok f'.rewriter.delegate) := by
  obtain ⟨rewriter, out, pending', ran, paused, heard, -, -, told⟩ := awaits.rewrites piece here running fits
  obtain ⟨responds, -⟩ := Reader.run_responds rfl rfl awaits.paused.withholds.sound awaits.responds here
  have unfinished : rewriter.delegate.finished = false := by
    rw [heard, hearAll_finished, awaits.unfinished, incomplete]
    rfl
  have stepped := awaits.step_eq nextHop ran
  rw [if_neg (by simp [unfinished])] at stepped
  refine ⟨_, pending', stepped, ⟨rfl, awaits.stateMachine, awaits.payload, paused, responds, unfinished, ?_⟩, told⟩
  show rewriter.delegate.success = _
  rw [heard, hearAll_success, awaits.success]

/-- What Connect's handler is told. -/
def verdict (success : Bool) : ConnectResult := if success then .success else .error .connectError

/-- Connect has been decided by a whole reply, and nothing of it is left. -/
structure Decided (f : HttpDataFlow) (success : Bool) : Prop where
  stage : f.stage = .finished (verdict success)
  state : f.stateMachine.state = if success then .established else .closed
  payload : f.pendingPayload = .empty

theorem finishResponse_refused {buffer : Buffer} (refused : f.rewriter.delegate.success = false) :
    f.finishResponse buffer = .ok (f.fail (.error .connectError)) := by
  unfold finishResponse
  rw [if_neg (by simp [refused])]
  rfl

theorem finishResponse_accepted {buffer rest : Buffer} (accepted : f.rewriter.delegate.success = true)
    (shrunk : buffer.shrinkFront f.rewriter.delegate.headerOffset = .ok rest) (none : rest.size = 0)
    (machine : f.stateMachine = establishing) :
    f.finishResponse buffer = .ok { f with stateMachine := { establishing with state := .established }, stage := .finished .success } := by
  unfold finishResponse
  rw [if_pos accepted, shrunk, ok_bind]
  simp only [none, ne_eq, not_true_eq_false, if_false]
  rw [machine]
  rfl

/-- The reply ends here. -/
theorem Awaits.finishes (awaits : Awaits f l pending success) (nextHop : FlowStateMachine) (piece : ShortPiece input) {upgrade : Bool}
    (here : Reader.run replies l input.2.content = some (last, front ++ [.messageComplete upgrade])) (whole : last.phase = .idle)
    (fits : Fits acts (.ok f.rewriter.delegate) (front ++ [.messageComplete upgrade] ++ back)) :
    ∃ f', f.step (.read (.data input.2) nextHop input.1) = .ok f' ∧ Decided f' (accepted success front) := by
  obtain ⟨rewriter, out, pending', ran, paused, heard, content, wf, -⟩ :=
    awaits.rewrites piece here (by rw [whole]; nofun) fits
  obtain rfl := paused.idle whole
  have finished : rewriter.delegate.finished = true := by
    rw [heard, hearAll_finished, List.any_append]
    simp [completes]
  have told : rewriter.delegate.success = accepted success front := by
    rw [heard, hearAll_success, awaits.success, accepted_append]
    rfl
  have takes := Reader.run_takes awaits.paused.withholds.sound here
  have bytes : bytesOf (front ++ [.messageComplete upgrade]) = bytesOf front := by
    rw [bytesOf_append]
    exact List.append_nil _
  have length := congrArg List.length content
  rw [whole, bytes, show (if Phase.idle.inToken = true then ([] : Bytes) else []) = [] from rfl, List.append_nil, List.length_append,
    wf.length_content] at length
  have some_bytes : 0 < (bytesOf front).length := by
    have more := List.length_pos_iff.mpr piece.some_bytes
    have lengths := congrArg List.length takes
    rw [whole, bytes] at lengths
    simp only [Phase.held, List.length_append, List.length_nil] at lengths
    omega
  have offset : rewriter.delegate.headerOffset = rewriter.impl.currentBuffer.size := by
    rw [heard, hearAll_offset, length]
  have stepped := awaits.step_eq nextHop ran
  rw [if_pos finished] at stepped
  cases decided : accepted success front with
  | true =>
    obtain ⟨rest, shrunk, holds⟩ := Buffer.shrinkFront_holds 0 wf (show 0 < rewriter.impl.currentBuffer.size by omega) (Nat.le_refl _)
    have none : rest.size = 0 := by
      rw [← holds.wf.length_content, holds.content, List.length_drop, wf.length_content, Nat.sub_self]
    rw [← offset] at shrunk
    exact ⟨_, stepped.trans (finishResponse_accepted (told.trans decided) shrunk none awaits.stateMachine), rfl, rfl, awaits.payload⟩
  | false => exact ⟨_, stepped.trans (finishResponse_refused (told.trans decided)), rfl, rfl, awaits.payload⟩

/-! ## A run -/

/-- The reads of a next hop. -/
def reads (nextHop : FlowStateMachine) (inputs : List (Nat × Buffer)) : List HttpDataFlow.Event :=
  inputs.map fun input => .read (.data input.2) nextHop input.1

/-- The reply is complete with its last event, if at all. -/
theorem split_complete (one : events.dropLast.any completes = false) (complete : events.any completes = true) :
    ∃ front upgrade, events = front ++ [.messageComplete upgrade] := by
  have some_event : events ≠ [] := by
    rintro rfl
    cases complete
  have split := List.dropLast_append_getLast some_event
  rw [← split, List.any_append, one] at complete
  have ends : completes (events.getLast some_event) = true := by simpa using complete
  cases last : events.getLast some_event with
  | messageComplete upgrade => exact ⟨events.dropLast, upgrade, by rw [← last, split]⟩
  | _ =>
    rw [last] at ends
    cases ends

theorem Awaits.reads_decide (awaits : Awaits f l pending success) (nextHop : FlowStateMachine) (pieces : ∀ input ∈ inputs, ShortPiece input)
    (ahead : Reader.run replies l (inputs.flatMap (·.2.content)) = some (last, events)) (running : last.phase ≠ .stopped)
    (one : events.dropLast.any completes = false) (whole : events.any completes = true → last.phase = .idle)
    (fits : Fits acts (.ok f.rewriter.delegate) events) :
    ∃ f', httpMachine.run (reads nextHop inputs) f = .ok f' ∧
      if events.any completes then Decided f' (accepted success events) else f'.stage = .reading ∧ f'.stateMachine = establishing := by
  induction inputs generalizing f l pending success events with
  | nil =>
    cases ahead
    exact ⟨f, rfl, awaits.stage, awaits.stateMachine⟩
  | cons input inputs ih =>
    obtain ⟨piece, pieces⟩ := List.forall_mem_cons.mp pieces
    obtain ⟨next, front, back, here, later, rfl⟩ := Reader.run_append_some ahead
    have next_runs : next.phase ≠ .stopped := fun stopped => running (Reader.run_stopped rfl stopped later)
    have sound := Reader.run_sound awaits.paused.withholds.sound here
    cases complete : front.any completes with
    | false =>
      obtain ⟨f₁, pending₁, stepped, awaits₁, new, told⟩ := awaits.goesOn nextHop piece here next_runs fits complete
      have all : (front ++ back).any completes = back.any completes := by rw [List.any_append, complete, Bool.false_or]
      have one' : back.dropLast.any completes = false := by
        cases back with
        | nil => rfl
        | cons event back =>
          rw [List.dropLast_append_cons, List.any_append, complete, Bool.false_or] at one
          exact one
      obtain ⟨f', ran, decided⟩ := ih awaits₁ pieces later one' (fun ends => whole (all.trans ends)) (fits.later told)
      refine ⟨f', ?_, ?_⟩
      · show f.step _ >>= _ = _
        rw [stepped]
        exact ran
      · rw [all, accepted_append]
        exact decided
    | true =>
      obtain rfl : back = [] := by
        cases back with
        | nil => rfl
        | cons event back =>
          rw [List.dropLast_append_cons, List.any_append, complete] at one
          cases one
      rw [List.append_nil] at one whole
      have idle := whole complete
      have takes := Reader.run_takes sound later
      rw [idle] at takes
      obtain ⟨-, none⟩ := List.append_eq_nil_iff.mp takes
      obtain rfl : inputs = [] := by
        cases inputs with
        | nil => rfl
        | cons input inputs =>
          obtain ⟨some_bytes, -⟩ := List.append_eq_nil_iff.mp none
          exact absurd some_bytes (pieces _ List.mem_cons_self).some_bytes
      cases later
      obtain ⟨front', upgrade, rfl⟩ := split_complete one complete
      obtain ⟨f', stepped, decided⟩ := awaits.finishes nextHop piece here idle fits
      refine ⟨f', ?_, ?_⟩
      · show f.step _ >>= _ = _
        rw [stepped]
        rfl
      · rw [List.append_nil, if_pos complete, accepted_append]
        exact decided

/-- A Buffer of its own for some bytes. -/
theorem make_setData {bytes : Bytes} (some_bytes : bytes ≠ []) (free : Nat) :
    ∃ b, (Buffer.make free bytes.length).2.setData 0 bytes = .ok b ∧ b.content = bytes := by
  obtain ⟨free', made, same, holds⟩ := Buffer.make_holds free bytes.length
  have size : made.size = bytes.length := by rw [← holds.wf.length_content, holds.content, List.length_replicate]
  have positive := List.length_pos_iff.mpr some_bytes
  obtain ⟨b, written, -, -, -, content⟩ := holds.wf.setData_eq (show 0 < made.size by omega) (show 0 + bytes.length ≤ made.size by omega)
  rw [same]
  refine ⟨b, written, ?_⟩
  rw [content, holds.content, List.take_zero, List.nil_append, Nat.zero_add, List.drop_of_length_le (by rw [List.length_replicate]),
    List.append_nil]

/-- The flow writes its request. -/
theorem requesting (target : Endpoint) (authorization : Option Bytes) (nextHop : FlowStateMachine) (free : Nat) :
    ∃ request, httpMachine.run [.callConnect, .nextConnected true nextHop free] (HttpDataFlow.init target authorization) =
        .ok { HttpDataFlow.init target authorization with stateMachine := establishing, nextHop, stage := .requesting request } ∧
      request.content = connectRequest target authorization := by
  have some_bytes : connectRequest target authorization ≠ [] := by
    have begins : ascii "CONNECT " ≠ [] := by decide
    simp [connectRequest, begins]
  obtain ⟨request, written, content⟩ := make_setData some_bytes free
  have begun : httpMachine.step .callConnect (HttpDataFlow.init target authorization) =
      .ok { HttpDataFlow.init target authorization with stateMachine := establishing, stage := .connecting } := rfl
  have connected : httpMachine.step (.nextConnected true nextHop free)
      { HttpDataFlow.init target authorization with stateMachine := establishing, stage := .connecting } =
        .ok { HttpDataFlow.init target authorization with stateMachine := establishing, nextHop, stage := .requesting request } := by
    show (do
      let buffer ← (Buffer.make free (connectRequest target authorization).length).2.setData 0 (connectRequest target authorization)
      return { HttpDataFlow.init target authorization with stateMachine := establishing, nextHop, stage := .requesting buffer }) = _
    rw [written]
    rfl
  refine ⟨request, ?_, content⟩
  rw [Machine.run_cons, begun, ok_bind, Machine.run_cons, connected]
  rfl

/-- The flow has sent its request. -/
theorem requested (target : Endpoint) (authorization : Option Bytes) (nextHop : FlowStateMachine) (free : Nat) :
    ∃ f, httpMachine.run [.callConnect, .nextConnected true nextHop free, .written true nextHop] (HttpDataFlow.init target authorization) =
      .ok f ∧ Awaits f (.start replies) [] false := by
  obtain ⟨request, sent, -⟩ := requesting target authorization nextHop free
  have paused : scene.Paused (watched (HttpDataFlow.init target authorization).rewriter) (.start replies) [] :=
    ⟨Scene.fresh scene .response (.ok {}) rfl, fun _ => rfl⟩
  refine ⟨{ HttpDataFlow.init target authorization with stateMachine := establishing, nextHop, stage := .reading }, ?_,
    rfl, rfl, rfl, paused, rfl, rfl, rfl⟩
  change httpMachine.run ([.callConnect, .nextConnected true nextHop free] ++ [.written true nextHop]) _ = _
  rw [Machine.run_append, sent]
  rfl

/-- Every Connect whose request is answered by at most one reply, read in any pieces: as long as the
reply is not complete the flow goes on reading, and then the status decides. -/
theorem reply_decides (target : Endpoint) (authorization : Option Bytes) (nextHop : FlowStateMachine) (free : Nat)
    (pieces : ∀ input ∈ inputs, ShortPiece input)
    (ahead : Reader.run replies (.start replies) (inputs.flatMap (·.2.content)) = some (last, events)) (running : last.phase ≠ .stopped)
    (one : events.dropLast.any completes = false) (whole : events.any completes = true → last.phase = .idle)
    (few : (bytesOf events).length < 2 ^ 62) :
    ∃ f', httpMachine.run ([.callConnect, .nextConnected true nextHop free, .written true nextHop] ++ reads nextHop inputs)
        (HttpDataFlow.init target authorization) = .ok f' ∧
      if events.any completes then Decided f' (accepted false events) else f'.stage = .reading ∧ f'.stateMachine = establishing := by
  obtain ⟨f, sent, awaits⟩ := requested target authorization nextHop free
  have fits : Fits acts (.ok f.rewriter.delegate) events := fits_of_grows acts_grow (by rwa [Nat.zero_mul, Nat.add_zero])
  obtain ⟨f', ran, decided⟩ := awaits.reads_decide nextHop pieces ahead running one whole fits
  refine ⟨f', ?_, decided⟩
  rw [Machine.run_append, sent]
  exact ran

/-- A reply that is cut in its status and in a header. -/
def twoReads : List (Nat × Buffer) :=
  [(1, inOneChunk (ascii "HTTP/1.1 20")), (1, inOneChunk (ascii "0 OK\r\nVi")), (1, inOneChunk (ascii "a: proxy\r\n\r\n"))]

/-- What the reader makes of it. -/
def replyRead : Reader × List Event :=
  (Reader.run replies (.start replies) (twoReads.flatMap (·.2.content))).getD (.start replies, [])

theorem reply_decides_ok : ∃ f',
    httpMachine.run ([.callConnect, .nextConnected true { establishing with state := .established } 1,
        .written true { establishing with state := .established }] ++ reads { establishing with state := .established } twoReads)
      (HttpDataFlow.init ⟨.domain, ascii "a.b", none, 80⟩ none) = .ok f' ∧ Decided f' true := by
  have pieces : ∀ input ∈ twoReads, ShortPiece input := by
    intro input member
    simp only [twoReads, List.mem_cons, List.not_mem_nil, or_false] at member
    rcases member with rfl | rfl | rfl <;> exact inOneChunk_short (by decide) (by decide)
  have ahead : Reader.run replies (.start replies) (twoReads.flatMap (·.2.content)) = some (replyRead.1, replyRead.2) := by
    decide +kernel
  obtain ⟨f', ran, decided⟩ := reply_decides ⟨.domain, ascii "a.b", none, 80⟩ none { establishing with state := .established } 1
    pieces ahead (by decide +kernel) (by decide +kernel) (by decide +kernel) (by decide +kernel)
  have complete : replyRead.2.any completes = true := by decide +kernel
  have success : accepted false replyRead.2 = true := by decide +kernel
  rw [if_pos complete, success] at decided
  exact ⟨f', ran, decided⟩

end LibNekit.Guarantees.ConnectReply
