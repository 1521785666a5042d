import LibNekit.Canonical.Upgrades
import LibNekit.Guarantees.HeaderFilter
import LibNekit.Guarantees.UpgradedStream

/-!
# CONNECT requests

`Open` of HttpServerDataFlow reads a CONNECT request in whatever pieces it arrives: as long as
the request is not complete it goes on reading, and once it is, Open succeeds, the
endpoint is the request's target, and nothing of the request is kept for `Read`.
-/
namespace LibNekit.Guarantees.ConnectRequests

open LibNekit.Source LibNekit.Source.Rewriter LibNekit.Source.HttpParser LibNekit.Source.HttpMessageStreamRewriter
  LibNekit.Library LibNekit.Canonical LibNekit.Guarantees.Fragmentation LibNekit.Guarantees.StreamRuns
  LibNekit.Guarantees.HeaderFilter HttpServerDataFlow

variable {δ : Type} {text : AddressText}

/-! ## The call that stops -/

section Calls

variable {s s' : HttpMessageStreamRewriter δ} {l last : Reader} {pending : Bytes} {front back : List Event} {input : Nat × Buffer}

/-- The call that reads the end of a message behind which the connection is upgraded, with a
delegate that may fail. -/
theorem rewriteBuffer_concludes {setup : Setup} {delegate : Delegate δ} {acts : Acts (Deferred δ)}
    (lawful : Scene.Lawful ⟨setup, delegate.deferred, acts, False⟩) (plain : setup.plain = true)
    (paused : Scene.Paused ⟨setup, delegate.deferred, acts, False⟩ (watched s) l pending) (piece : ShortPiece input)
    (here : Reader.run setup l input.2.content = some (last, front)) (stopped : last.phase = .stopped)
    (fits : Fits acts (.ok s.delegate) (front ++ back)) :
    ∃ g : Draft (Deferred δ), (∃ before, front = before ++ [.messageComplete true]) ∧
      acts.PerformsAll front (Scene.opening l pending (.ok s.delegate)) g ∧
      ∀ d, g.delegate = .ok d → ∃ s' : HttpMessageStreamRewriter δ, s'.delegate = d ∧
        s.rewriteBuffer delegate input.1 input.2 = .ok (.ok (), s') ∧ s'.impl.currentBuffer.content = g.out ∧
          s'.impl.currentBuffer.WellFormed := by
  have tame := fits.tame paused piece here
  have short := call_short lawful paused.withholds piece.wf piece.below piece.short here tame
  obtain ⟨t, g, ran, concludes⟩ := Scene.rewriteBuffer_upgrades lawful id plain paused piece.wf piece.below
    (Nat.lt_trans piece.short (by decide)) piece.some_bytes short here stopped tame
  have shadows : Shadows returned (noted (s.rewriteBuffer delegate input.1 input.2)) _ :=
    rewriteBuffer_shadows input.1 input.2 (watched s)
  refine ⟨g, concludes.ends, concludes.performed, ?_⟩
  intro d going
  obtain ⟨parser, impl, d'⟩ := t
  obtain rfl : d' = .ok d := concludes.delegate.trans going
  exact ⟨⟨parser, impl, d⟩, rfl, shadows.seen_ok ran rfl, concludes.content, concludes.wf⟩

end Calls

/-! ## What the request tells -/

/-- What an event of a CONNECT request makes of the flow: the method comes first, and the
target has a host and a port. -/
def connects (text : AddressText) (f : HttpServerDataFlow) : Event → Option HttpServerDataFlow
  | .method method => if method = ascii "CONNECT" then some (f.onMethod method) else none
  | .url url =>
    if f.isConnect then
      match f.onConnectUrl text url with
      | .ok (true, f') => some f'
      | _ => none
    else none
  | _ => if f.isConnect then some f else none

def connectsAll (text : AddressText) : HttpServerDataFlow → List Event → Option HttpServerDataFlow
  | f, [] => some f
  | f, event :: events => connects text f event >>= fun f => connectsAll text f events

variable {f f' : HttpServerDataFlow} {event : Event} {events front back : List Event} {g g' : Draft (Deferred HttpServerDataFlow)}
  {new : Bytes} {d' : Deferred HttpServerDataFlow}

theorem connectsAll_append (asked : connectsAll text f (front ++ back) = some f') :
    ∃ f₁, connectsAll text f front = some f₁ ∧ connectsAll text f₁ back = some f' := by
  induction front generalizing f with
  | nil => exact ⟨f, rfl, asked⟩
  | cons event front ih =>
    obtain ⟨f₁, here, more⟩ := Option.bind_eq_some_iff.mp asked
    obtain ⟨f₂, later, rest⟩ := ih more
    exact ⟨f₂, Option.bind_eq_some_iff.mpr ⟨f₁, here, later⟩, rest⟩

theorem onConnectUrl_keeps {url : Bytes} (took : f.onConnectUrl text url = .ok (true, f')) :
    ∃ endpoint, f' = { f with endpoint } := by
  obtain ⟨_, -, took⟩ := bind_eq_ok.mp took
  cases parsed : parseUrl url true with
  | none =>
    rw [parsed] at took
    cases took
  | some u =>
    rw [parsed] at took
    dsimp only at took
    split at took
    · cases took
    · cases took
      exact ⟨_, rfl⟩

/-- Behind the target an event changes nothing. -/
theorem unchanged_of_some (same : (if f.isConnect then some f else none) = some f') : f' = f ∧ f.isConnect = true := by
  split at same
  · next connect =>
    cases same
    exact ⟨rfl, connect⟩
  · cases same

/-- The flow knows what it reads as soon as it has read a method. -/
theorem connects_begun (method : f.hasReadMethod = f.isConnect) (asked : connects text f event = some f') :
    f'.hasReadMethod = true ∧ f'.isConnect = true ∧ f'.readingFirstHeader = f.readingFirstHeader := by
  have knows : f.isConnect = true → f.hasReadMethod = true := fun connect => method.trans connect
  cases event with
  | method token =>
    unfold connects at asked
    dsimp only at asked
    split at asked
    · next named =>
      cases asked
      unfold HttpServerDataFlow.onMethod
      split
      · next read => exact ⟨read, method.symm.trans read, rfl⟩
      · exact ⟨rfl, by rw [named]; simp, rfl⟩
    · cases asked
  | url url =>
    unfold connects at asked
    dsimp only at asked
    split at asked
    · next connect =>
      split at asked
      · next f₁ took =>
        cases asked
        obtain ⟨endpoint, rfl⟩ := onConnectUrl_keeps took
        exact ⟨knows connect, connect, rfl⟩
      · cases asked
    · cases asked
  | _ =>
    obtain ⟨rfl, connect⟩ := unchanged_of_some asked
    exact ⟨knows connect, connect, rfl⟩

theorem connectsAll_begun (method : f.hasReadMethod = f.isConnect) (asked : connectsAll text f events = some f') :
    f'.hasReadMethod = f'.isConnect ∧ f'.readingFirstHeader = f.readingFirstHeader ∧
      (events = [] ∧ f' = f ∨ f'.isConnect = true) := by
  induction events generalizing f with
  | nil =>
    cases asked
    exact ⟨method, rfl, Or.inl ⟨rfl, rfl⟩⟩
  | cons event events ih =>
    obtain ⟨f₁, here, more⟩ := Option.bind_eq_some_iff.mp asked
    obtain ⟨read, connect, reading⟩ := connects_begun method here
    obtain ⟨method', reading', begun⟩ := ih (read.trans connect.symm) more
    refine ⟨method', reading'.trans reading, Or.inr ?_⟩
    rcases begun with ⟨-, rfl⟩ | connect'
    · exact connect
    · exact connect'

/-- An element of a CONNECT request stays as it is. -/
theorem tells_connects (asked : connects text f event = some f') (incomplete : completes event = false)
    (told : Tells (acts text) (.ok f) event new d') : d' = .ok f' ∧ new = event.bytes := by
  cases event with
  | messageComplete upgrade => cases incomplete
  | raw bytes | settled =>
    obtain ⟨rfl, -⟩ := unchanged_of_some asked
    exact ⟨told.2, told.1⟩
  | version token | status token | headersComplete =>
    obtain ⟨rfl, -⟩ := unchanged_of_some asked
    obtain ⟨-, rfl, rfl⟩ := told
    exact ⟨rfl, rfl⟩
  | header line =>
    obtain ⟨rfl, connect⟩ := unchanged_of_some asked
    have told : Filters line f' new d' := told.2
    unfold Filters at told
    rw [if_pos connect] at told
    exact ⟨told.2, told.1⟩
  | method token =>
    obtain ⟨-, rfl, rfl⟩ := told
    unfold connects at asked
    dsimp only at asked
    split at asked
    · cases asked
      exact ⟨rfl, rfl⟩
    · cases asked
  | url url =>
    have told : (new, d') = takeUrl text url f := told.2
    unfold connects at asked
    dsimp only at asked
    split at asked
    · next connect =>
      split at asked
      · next f₁ took =>
        cases asked
        unfold takeUrl at told
        rw [if_pos connect, took] at told
        cases told
        exact ⟨rfl, rfl⟩
      · cases asked
    · cases asked

theorem performsAll_connects (going : g.delegate = .ok f) (asked : connectsAll text f events = some f')
    (incomplete : events.any completes = false) (performed : (acts text).PerformsAll events g g') :
    g'.delegate = .ok f' ∧ g'.out = g.out ++ bytesOf events := by
  induction events generalizing g f with
  | nil =>
    cases performed
    cases asked
    exact ⟨going, (List.append_nil _).symm⟩
  | cons event events ih =>
    rw [List.any_cons, Bool.or_eq_false_iff] at incomplete
    obtain ⟨f₁, here, more⟩ := Option.bind_eq_some_iff.mp asked
    obtain ⟨middle, first, rest⟩ := performed
    obtain ⟨new, told, put⟩ := performs_tells first
    rw [going] at told
    obtain ⟨going₁, rfl⟩ := tells_connects here incomplete.1 told
    obtain ⟨ends, puts⟩ := ih going₁ more incomplete.2 rest
    exact ⟨ends, by rw [puts, put, bytesOf_cons, List.append_assoc]⟩

/-- The end of the request, where the tunnel is to begin. -/
theorem performsAll_completes (going : g.delegate = .ok f)
    (asked : connectsAll text f (events ++ [.messageComplete true]) = some f') (incomplete : events.any completes = false)
    (performed : (acts text).PerformsAll (events ++ [.messageComplete true]) g g') :
    g'.delegate = .ok (f'.onMessageComplete g'.out.length) := by
  induction events generalizing g f with
  | nil =>
    obtain ⟨middle, ⟨d, ⟨-, told⟩, rfl⟩, rfl⟩ := performed
    obtain ⟨f₁, here, more⟩ := Option.bind_eq_some_iff.mp asked
    cases more
    obtain ⟨rfl, -⟩ := unchanged_of_some here
    rw [going] at told
    exact told
  | cons event events ih =>
    rw [List.any_cons, Bool.or_eq_false_iff] at incomplete
    obtain ⟨f₁, here, more⟩ := Option.bind_eq_some_iff.mp asked
    obtain ⟨middle, first, rest⟩ := performed
    obtain ⟨new, told, -⟩ := performs_tells first
    rw [going] at told
    obtain ⟨going₁, -⟩ := tells_connects here incomplete.1 told
    exact ih going₁ more incomplete.2 rest

/-! ## A read -/

variable {c c' : ServedClient} {l last : Reader} {pending : Bytes} {input : Nat × Buffer} {inputs : List (Nat × Buffer)}

/-- `Open` is reading the request. -/
structure Opening (text : AddressText) (c : ServedClient) (l : Reader) (pending : Bytes) (f : HttpServerDataFlow) : Prop where
  paused : (scene text).Paused (watched c.rewriter) l pending
  flow : c.rewriter.delegate = f
  phase : c.phase = .negotiating
  handed : c.handed = []
  method : f.hasReadMethod = f.isConnect
  reading : f.readingFirstHeader = true
  unnamed : f.isConnect = false → lead l pending = []

section Negotiates

variable {rewriter : HttpMessageStreamRewriter HttpServerDataFlow} {kept : Bool}

theorem step_again (phase : c.phase = .negotiating)
    (ran : c.rewriter.rewriteBuffer (delegate text) input.1 input.2 = .ok (.ok (), rewriter))
    (again : negotiated rewriter.impl.currentBuffer.size rewriter.delegate = (kept, .again)) :
    ServedClient.step text input c = .ok { c with
      rewriter, handed := if kept then c.handed ++ rewriter.impl.currentBuffer.content else c.handed } := by
  unfold ServedClient.step
  rw [phase]
  dsimp only
  unfold ServedClient.negotiateRead
  rw [ran, ok_bind]
  dsimp only
  rw [again, phase]
  rfl

theorem step_opened (phase : c.phase = .negotiating)
    (ran : c.rewriter.rewriteBuffer (delegate text) input.1 input.2 = .ok (.ok (), rewriter))
    (opened : negotiated rewriter.impl.currentBuffer.size rewriter.delegate = (kept, .opened)) :
    ServedClient.step text input c = .ok { c with
      rewriter, handed := if kept then c.handed ++ rewriter.impl.currentBuffer.content else c.handed, phase := .opened } := by
  unfold ServedClient.step
  rw [phase]
  dsimp only
  unfold ServedClient.negotiateRead
  rw [ran, ok_bind]
  dsimp only
  rw [opened]
  rfl

end Negotiates

/-- The request goes on. -/
theorem Opening.goesOn (opening : Opening text c l pending f) (piece : ShortPiece input)
    (here : Reader.run (plain .request) l input.2.content = some (last, front)) (running : last.phase ≠ .stopped)
    (incomplete : front.any completes = false) (asked : connectsAll text f front = some f')
    (fits : Fits (acts text) (.ok f) (front ++ back)) :
    ∃ c' pending', ServedClient.step text input c = .ok c' ∧ Opening text c' last pending' f' ∧
      ∃ new, TellsAll (acts text) (.ok f) front new (.ok f') := by
  obtain ⟨method, reading, begun⟩ := connectsAll_begun opening.method asked
  rw [← opening.flow] at fits
  obtain ⟨g, performed, ends⟩ := rewriteBuffer_watched scene_lawful rfl opening.paused piece here running fits
  have going : (Scene.opening l pending (.ok c.rewriter.delegate : Deferred HttpServerDataFlow)).delegate = .ok f :=
    congrArg Except.ok opening.flow
  obtain ⟨told, put⟩ := performsAll_connects going asked incomplete performed
  rw [told] at ends
  obtain ⟨rewriter, pending', flow, ran, paused, content, wf, -⟩ := ends
  obtain ⟨new, tells, -⟩ := performsAll_tells performed
  rw [told, going] at tells
  have content : rewriter.impl.currentBuffer.content ++ lead last pending' = lead l pending ++ bytesOf front :=
    content.trans put
  cases connect : f'.isConnect with
  | true =>
    have again : negotiated rewriter.impl.currentBuffer.size rewriter.delegate = (false, .again) := by
      unfold negotiated
      rw [flow, if_pos ⟨method.trans connect, connect⟩, if_pos (reading.trans opening.reading)]
    refine ⟨_, pending', step_again opening.phase ran again, ?_, new, tells⟩
    constructor
    case paused => exact paused
    case flow => exact flow
    case phase => exact opening.phase
    case handed => exact opening.handed
    case method => exact method
    case reading => exact reading.trans opening.reading
    case unnamed =>
      intro other
      cases connect.symm.trans other
  | false =>
    -- nothing is known yet, so nothing was put out
    rcases begun with ⟨rfl, rfl⟩ | known
    · rw [opening.unnamed connect] at content
      obtain ⟨nothing, none⟩ := List.append_eq_nil_iff.mp (content.trans (List.append_nil _))
      have again : negotiated rewriter.impl.currentBuffer.size rewriter.delegate = (true, .again) := by
        unfold negotiated
        rw [flow, if_neg (by rw [connect]; rintro ⟨_, ⟨⟩⟩), if_pos opening.reading]
      refine ⟨_, pending', step_again opening.phase ran again, ?_, new, tells⟩
      constructor
      case paused => exact paused
      case flow => exact flow
      case phase => exact opening.phase
      case handed =>
        change c.handed ++ rewriter.impl.currentBuffer.content = []
        rw [opening.handed, nothing]
        rfl
      case method => exact opening.method
      case reading => exact opening.reading
      case unnamed => exact fun _ => none
    · rw [known] at connect
      cases connect

/-- `Open` has succeeded on a CONNECT request for this endpoint. -/
structure Opened (c : ServedClient) (endpoint : Option Endpoint) : Prop where
  tunnelled : UpgradedStream.Tunnelled c
  endpoint : c.rewriter.delegate.endpoint = endpoint
  handed : c.handed = []

/-- The request ends here. -/
theorem Opening.finishes (opening : Opening text c l pending f) (piece : ShortPiece input)
    (here : Reader.run (plain .request) l input.2.content = some (last, front)) (stopped : last.phase = .stopped)
    (one : front.dropLast.any completes = false) (asked : connectsAll text f front = some f')
    (fits : Fits (acts text) (.ok f) (front ++ back)) :
    ∃ c', ServedClient.step text input c = .ok c' ∧ Opened c' f'.endpoint := by
  rw [← opening.flow] at fits
  obtain ⟨g, ⟨before, rfl⟩, performed, ends⟩ := rewriteBuffer_concludes scene_lawful rfl opening.paused piece here stopped fits
  rw [List.dropLast_concat] at one
  have going : (Scene.opening l pending (.ok c.rewriter.delegate : Deferred HttpServerDataFlow)).delegate = .ok f :=
    congrArg Except.ok opening.flow
  have told := performsAll_completes going asked one performed
  obtain ⟨rewriter, flow, ran, content, wf⟩ := ends _ told
  obtain ⟨method, -, begun⟩ := connectsAll_begun opening.method asked
  have connect : f'.isConnect = true := by
    rcases begun with ⟨none, -⟩ | connect
    · exact absurd none (List.append_ne_nil_of_right_ne_nil _ (List.cons_ne_nil _ _))
    · exact connect
  have size : rewriter.impl.currentBuffer.size = g.out.length := by rw [← wf.length_content, content]
  have ended : negotiated rewriter.impl.currentBuffer.size rewriter.delegate = (false, .opened) := by
    unfold negotiated
    have complete : (f'.onMessageComplete g.out.length).readingFirstHeader ≠ true := Bool.false_ne_true
    have whole : ¬rewriter.impl.currentBuffer.size ≠ (f'.onMessageComplete g.out.length).firstHeaderOffset :=
      not_not_intro size
    rw [flow, if_pos ⟨method.trans connect, connect⟩, if_neg complete, if_neg whole]
  refine ⟨_, step_opened opening.phase ran ended, ?_⟩
  constructor
  case tunnelled => exact ⟨rfl, by change rewriter.delegate.isConnect = true; rw [flow]; exact connect⟩
  case endpoint =>
    change rewriter.delegate.endpoint = _
    rw [flow]
    rfl
  case handed => exact opening.handed

/-! ## A run -/

/-- If the last event is the only one that may complete a message, nothing follows the events
that complete one. -/
theorem nothing_behind (one : (front ++ back).dropLast.any completes = false) (complete : front.any completes = true) :
    back = [] := by
  cases back with
  | nil => rfl
  | cons event back =>
    rw [List.dropLast_append_cons, List.any_append, complete] at one
    cases one

theorem later_one (one : (front ++ back).dropLast.any completes = false) (incomplete : front.any completes = false) :
    back.dropLast.any completes = false := by
  cases back with
  | nil => rfl
  | cons event back =>
    rw [List.dropLast_append_cons, List.any_append, incomplete, Bool.false_or] at one
    exact one

theorem any_dropLast (ends : ∃ before, front = before ++ [.messageComplete true]) : front.any completes = true := by
  obtain ⟨before, rfl⟩ := ends
  rw [List.any_append]
  exact Bool.or_true _

/-- Nothing is read where nothing comes of it. -/
theorem inputs_nil (pieces : ∀ input ∈ inputs, ShortPiece input) (none : inputs.flatMap (·.2.content) = []) : inputs = [] := by
  cases inputs with
  | nil => rfl
  | cons input inputs =>
    rw [List.flatMap_cons] at none
    obtain ⟨empty, -⟩ := List.append_eq_nil_iff.mp none
    exact absurd empty (pieces input List.mem_cons_self).some_bytes

/-- How `Open` stands when some of the request has been read. -/
def Stands (c : ServedClient) (complete : Bool) (f : HttpServerDataFlow) : Prop :=
  if complete then Opened c f.endpoint
  else c.phase = .negotiating ∧ c.handed = [] ∧ c.rewriter.delegate = f

theorem Opening.reads (opening : Opening text c l pending f) (pieces : ∀ input ∈ inputs, ShortPiece input)
    (ahead : Reader.run (plain .request) l (inputs.flatMap (·.2.content)) = some (last, events))
    (one : events.dropLast.any completes = false) (whole : events.any completes = true → last.phase = .stopped)
    (asked : connectsAll text f events = some f') (fits : Fits (acts text) (.ok f) events) :
    ∃ c', (ServedClient.machine text).run inputs c = .ok c' ∧ Stands c' (events.any completes) f' := by
  induction inputs generalizing c l pending f events with
  | nil =>
    cases ahead
    cases asked
    exact ⟨c, rfl, opening.phase, opening.handed, opening.flow⟩
  | cons input inputs ih =>
    obtain ⟨piece, pieces⟩ := List.forall_mem_cons.mp pieces
    obtain ⟨next, front, back, here, later, rfl⟩ := Reader.run_append_some ahead
    obtain ⟨f₁, asked₁, asked₂⟩ := connectsAll_append asked
    by_cases stopped : next.phase = .stopped
    · -- the request ends in this piece, so there is no other
      obtain ⟨none, rfl⟩ := Reader.run_behind rfl stopped later
      obtain rfl := inputs_nil pieces none
      cases asked₂
      have complete : front.any completes = true := by
        have fits₀ := fits
        rw [← opening.flow] at fits₀
        obtain ⟨-, ends, -⟩ := rewriteBuffer_concludes scene_lawful rfl opening.paused piece here stopped fits₀
        exact any_dropLast ends
      rw [List.append_nil] at one
      obtain ⟨c', stepped, opened⟩ := opening.finishes piece here stopped one asked₁ fits
      refine ⟨c', ?_, ?_⟩
      · rw [Machine.run_cons]
        change ServedClient.step text input c >>= _ = _
        rw [stepped]
        rfl
      · rw [List.append_nil, complete]
        exact opened
    · have incomplete : front.any completes = false := by
        apply Bool.eq_false_iff.mpr
        intro complete
        obtain rfl := nothing_behind one complete
        rw [List.append_nil] at whole
        have takes := Reader.run_takes (Reader.run_sound opening.paused.withholds.sound here) later
        have end_held : last.phase.held = [] := by rw [whole complete]; rfl
        rw [end_held] at takes
        obtain ⟨-, none⟩ := List.append_eq_nil_iff.mp takes
        rw [none] at later
        cases later
        exact stopped (whole complete)
      obtain ⟨c₁, pending₁, stepped, opening₁, new, told⟩ := opening.goesOn piece here stopped incomplete asked₁ fits
      have all : (front ++ back).any completes = back.any completes := by
        rw [List.any_append, incomplete, Bool.false_or]
      obtain ⟨c', ran, stands⟩ := ih opening₁ pieces later (later_one one incomplete)
        (fun complete => whole (all.trans complete)) asked₂ (fits.later told)
      refine ⟨c', ?_, ?_⟩
      · rw [Machine.run_cons]
        change ServedClient.step text input c >>= _ = _
        rw [stepped]
        exact ran
      · rw [all]
        exact stands

theorem init_opening : Opening text ServedClient.init (.start (plain .request)) [] {} where
  paused := init_ready.paused
  flow := rfl
  phase := rfl
  handed := rfl
  method := rfl
  reading := rfl
  unnamed := fun _ => rfl

end LibNekit.Guarantees.ConnectRequests
