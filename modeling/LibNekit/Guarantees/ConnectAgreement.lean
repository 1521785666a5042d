import LibNekit.Canonical.Follow
import LibNekit.Guarantees.ConnectReply
import LibNekit.Guarantees.ConnectRequests
import LibNekit.Guarantees.ConnectTargets

/-!
# HttpDataFlow connected to HttpServerDataFlow

The request that `Connect` of HttpDataFlow writes is one that `Open` of HttpServerDataFlow
reads, and the response that `Continue` writes is one that Connect accepts: in whatever
pieces they arrive, both flows get done, with the endpoint that was asked for.
-/
namespace LibNekit.Guarantees.ConnectAgreement

open LibNekit.Source LibNekit.Source.Rewriter LibNekit.Source.HttpParser LibNekit.Source.HttpMessageStreamRewriter
  LibNekit.Library LibNekit.Canonical LibNekit.Guarantees.StreamRuns LibNekit.Guarantees.HeaderFilter
  LibNekit.Guarantees.ConnectOutcome LibNekit.Guarantees.ConnectRequests LibNekit.Guarantees.ConnectTargets

/-! ## The reader on a request -/

section Reads

variable {parser : HttpParser} {text url : Bytes}

/-- How the parser stands in a CONNECT request. -/
def requestParser (state : ParserState) (index minor : Nat) : HttpParser :=
  { type := .request, state, index, contentLength := ullongMax, httpMajor := minor, httpMinor := minor, method := .connect }

theorem follow_url (state : parser.state = .reqServer) (all : ∀ c ∈ text, serverChar c = true) :
    Reader.follow parser (.url url) text = some (parser, .url (url ++ text), []) := by
  induction text generalizing url with
  | nil => rw [List.append_nil]; rfl
  | cons c text ih =>
    obtain ⟨first, all⟩ := List.forall_mem_cons.mp all
    have goes := (serverChar_url c first).2
    have readBy : Reader.read (.url url) parser c = some (parser, .url (url ++ [c]), []) := by
      have visible : c ≠ space := by
        rintro rfl
        cases first
      change Reader.readUrl url parser c = _
      unfold Reader.readUrl Reader.urlStep
      rw [if_neg visible, state, goes, if_neg (by decide), ← state]
      rfl
    rw [Reader.follow_cons rfl readBy (ih all)]
    simp only [List.append_assoc, List.singleton_append, List.nil_append]

theorem follow_target (method : Bytes) (some_text : text ≠ []) (all : ∀ c ∈ text, serverChar c = true) :
    Reader.follow (requestParser .reqSpacesBeforeUrl 8 0) (.target method) text =
      some (requestParser .reqServer 8 0, .url text, [.method method, .raw [space]]) := by
  cases text with
  | nil => exact absurd rfl some_text
  | cons c text =>
    obtain ⟨first, all⟩ := List.forall_mem_cons.mp all
    have readBy : Reader.read (.target method) (requestParser .reqSpacesBeforeUrl 8 0) c =
        some (requestParser .reqServer 8 0, .url [c], [.method method, .raw [space]]) := by
      change (Reader.urlStep .reqServerStart c).map _ = _
      unfold Reader.urlStep
      rw [(serverChar_url c first).1]
      rfl
    exact Reader.follow_cons rfl readBy (follow_url rfl all)

/-- The end of the start line. -/
theorem follow_version (url : Bytes) : Reader.follow (requestParser .reqServer 8 0) (.url url) (ascii " HTTP/1.1\r\n") =
    some (requestParser .headerFieldStart 8 1, .lineEnd (.request url (ascii "HTTP/1.1")), []) := by
  rfl

theorem follow_host (line : Line) : Reader.follow (requestParser .headerFieldStart 8 1) (.lineEnd line) (ascii "Host: ") =
    some (requestParser .headerValueDiscardWs 0 1, .blanks (ascii "Host") (ascii " "), line.events) := by
  rw [← List.append_nil line.events]
  rfl

theorem follow_authorization (line : Line) :
    Reader.follow (requestParser .headerValueLws 0 1) (.lineEnd line) (ascii "Proxy-Authorization: Basic ") =
      some (requestParser .headerValue 0 1, .value (ascii "Proxy-Authorization") (ascii " ") (ascii "Basic "), line.events) := by
  rw [← List.append_nil line.events]
  rfl

/-- A character that a value may have. -/
def valueChar (c : UInt8) : Bool := isHeaderChar c && c != cr && c != lf

theorem serverChar_value (c : UInt8) : serverChar c = true → valueChar c = true ∧ ¬isBlank c := by
  revert c
  exact of_bytes (by decide +kernel)

theorem follow_value (name blanks value : Bytes) (all : ∀ c ∈ text, valueChar c = true) :
    Reader.follow (requestParser .headerValue 0 1) (.value name blanks value) text =
      some (requestParser .headerValue 0 1, .value name blanks (value ++ text), []) := by
  induction text generalizing value with
  | nil => rw [List.append_nil]; rfl
  | cons c text ih =>
    obtain ⟨first, all⟩ := List.forall_mem_cons.mp all
    unfold valueChar at first
    simp only [Bool.and_eq_true, bne_iff_ne] at first
    obtain ⟨⟨visible, notCr⟩, notLf⟩ := first
    have readBy : Reader.read (.value name blanks value) (requestParser .headerValue 0 1) c =
        some (requestParser .headerValue 0 1, .value name blanks (value ++ [c]), []) := by
      change Reader.readValue name blanks value (requestParser .headerValue 0 1) c = _
      unfold Reader.readValue valueStep
      have general : (requestParser .headerValue 0 1).scan.headerState = .general := rfl
      rw [if_neg notCr, if_neg (by rintro (bad | bad | bad); exacts [notCr bad, notLf bad, bad visible]), if_pos general]
      rfl
    rw [Reader.follow_cons rfl readBy (ih _ all)]
    simp only [List.append_assoc, List.singleton_append, List.nil_append]

theorem follow_server (name blanks : Bytes) (some_text : text ≠ []) (all : ∀ c ∈ text, serverChar c = true) :
    Reader.follow (requestParser .headerValueDiscardWs 0 1) (.blanks name blanks) text =
      some (requestParser .headerValue 0 1, .value name blanks text, []) := by
  have values : ∀ c ∈ text, valueChar c = true := fun c member => (serverChar_value c (all c member)).1
  cases text with
  | nil => exact absurd rfl some_text
  | cons c text =>
    obtain ⟨first, -⟩ := List.forall_mem_cons.mp all
    obtain ⟨firstValue, values⟩ := List.forall_mem_cons.mp values
    obtain ⟨-, notBlank⟩ := serverChar_value c first
    unfold valueChar at firstValue
    simp only [Bool.and_eq_true, bne_iff_ne] at firstValue
    have readBy : Reader.read (.blanks name blanks) (requestParser .headerValueDiscardWs 0 1) c =
        some (requestParser .headerValue 0 1, .value name blanks [c], []) := by
      change Reader.readBlanks name blanks (requestParser .headerValueDiscardWs 0 1) c = _
      unfold Reader.readBlanks
      rw [if_neg notBlank, if_neg firstValue.2, if_neg firstValue.1.2]
      rfl
    exact Reader.follow_cons rfl readBy (follow_value name blanks [c] values)

theorem follow_lineEnd (name blanks value : Bytes) : Reader.follow (requestParser .headerValue 0 1) (.value name blanks value) (ascii "\r\n") =
    some (requestParser .headerValueLws 0 1, .lineEnd (.header ⟨name, blanks, value⟩), []) := by
  rfl

theorem follow_lastCr (line : Line) : Reader.follow (requestParser .headerValueLws 0 1) (.lineEnd line) [cr] =
    some (requestParser .headersAlmostDone 0 1, .lastCr line, []) := by
  rfl

/-- The LF that ends the request. -/
theorem step_lastLf (line : Line) {count : Nat} (room : count < 40000) (short : (line.text ++ crlf ++ [cr]).length ≤ 8003) :
    ∃ last, Reader.step (Fragmentation.plain .request) ⟨requestParser .headersAlmostDone 0 1, .lastCr line, count⟩ lf =
      some (last, line.events ++ [.headersComplete, .raw [cr], .raw [lf], .settled, .messageComplete true]) ∧
        last.phase = .stopped := by
  have allowed : Reader.refuses (Fragmentation.plain .request) ⟨requestParser .headersAlmostDone 0 1, .lastCr line, count⟩ lf = false :=
    Reader.refuses_false room short ⟨nofun, nofun, nofun⟩
  unfold Reader.step
  rw [allowed, if_neg Bool.false_ne_true]
  refine ⟨⟨{ requestParser .startReq 0 1 with upgrade := true }, .stopped, 0⟩, ?_, rfl⟩
  have parts : line.events ++ [.headersComplete, .raw [cr], .raw [lf], .settled, .messageComplete true] =
      (line.events ++ [.headersComplete, .raw [cr]]) ++ [.raw [lf], .settled, .messageComplete true] := by
    rw [List.append_assoc]
    rfl
  rw [parts]
  rfl

end Reads

/-! ## The whole request -/

/-- The header lines of a request. -/
def headersOf (server : Bytes) (authorization : Option Bytes) : List HeaderLine :=
  ⟨ascii "Host", ascii " ", server⟩ ::
    match authorization with
    | some encoded => [⟨ascii "Proxy-Authorization", ascii " ", ascii "Basic " ++ encoded⟩]
    | none => []

/-- What there is in a request. -/
def requestEvents (server : Bytes) (authorization : Option Bytes) : List Event :=
  [.method (ascii "CONNECT"), .raw [space], .url server, .raw [space], .version (ascii "HTTP/1.1"), .raw crlf] ++
    (headersOf server authorization).map .header ++
      [.headersComplete, .raw [cr], .raw [lf], .settled, .messageComplete true]

section Request

variable {authorization : Option Bytes}

/-- The start line and the first header. -/
theorem follow_start {server : Bytes} (some_server : server ≠ []) (all : ∀ c ∈ server, serverChar c = true) :
    Reader.follow (requestParser .reqSpacesBeforeUrl 8 0) (.target (ascii "CONNECT"))
        (server ++ (ascii " HTTP/1.1\r\n" ++ (ascii "Host: " ++ (server ++ ascii "\r\n")))) =
      some (requestParser .headerValueLws 0 1, .lineEnd (.header ⟨ascii "Host", ascii " ", server⟩),
        [.method (ascii "CONNECT"), .raw [space], .url server, .raw [space], .version (ascii "HTTP/1.1"), .raw crlf]) := by
  have line := Reader.follow_append (follow_server (ascii "Host") (ascii " ") some_server all) (follow_lineEnd _ _ _)
  have host := Reader.follow_append (follow_host (.request server (ascii "HTTP/1.1"))) line
  have version := Reader.follow_append (follow_version server) host
  exact Reader.follow_append (follow_target (ascii "CONNECT") some_server all) version

/-- What `Connect` adds to the request when it has a credential. -/
def authorizationLine (authorization : Option Bytes) : Bytes :=
  match authorization with
  | some encoded => ascii "Proxy-Authorization: Basic " ++ encoded ++ ascii "\r\n"
  | none => []

theorem follow_headers (server : Bytes) (encoded : ∀ text ∈ authorization, ∀ c ∈ text, valueChar c = true) :
    ∃ line front, Reader.follow (requestParser .headerValueLws 0 1) (.lineEnd (.header ⟨ascii "Host", ascii " ", server⟩))
        (authorizationLine authorization ++ [cr]) = some (requestParser .headersAlmostDone 0 1, .lastCr line, front) ∧
      front ++ line.events = (headersOf server authorization).map .header := by
  cases authorization with
  | none => exact ⟨_, [], follow_lastCr _, rfl⟩
  | some text =>
    have values := follow_value (ascii "Proxy-Authorization") (ascii " ") (ascii "Basic ") (encoded text rfl)
    have begun := follow_authorization (.header ⟨ascii "Host", ascii " ", server⟩)
    have line := Reader.follow_append (Reader.follow_append begun values) (follow_lineEnd _ _ _)
    exact ⟨_, _, Reader.follow_append line (follow_lastCr _), rfl⟩

end Request

section Agreement

variable {text : AddressText} {endpoint : Endpoint} {authorization : Option Bytes}

theorem connectRequest_eq : HttpDataFlow.connectRequest endpoint authorization =
    ascii "CONNECT " ++ (serverOf endpoint.domain endpoint.port ++
      (ascii " HTTP/1.1\r\n" ++ (ascii "Host: " ++ (serverOf endpoint.domain endpoint.port ++ ascii "\r\n"))) ++
        (authorizationLine authorization ++ [cr]) ++ [lf]) := by
  have ends : ascii "\r\n" = [cr] ++ [lf] := by decide
  have last : HttpDataFlow.connectRequest endpoint authorization =
      ascii "CONNECT " ++ serverOf endpoint.domain endpoint.port ++ ascii " HTTP/1.1\r\n" ++ ascii "Host: " ++
        serverOf endpoint.domain endpoint.port ++ ascii "\r\n" ++ authorizationLine authorization ++ ([cr] ++ [lf]) := by
    rw [← ends]
    rfl
  rw [last]
  simp only [List.append_assoc]

theorem serverOf_ne_nil {host : Bytes} (port : Nat) (some_host : host ≠ []) : serverOf host port ≠ [] := by
  intro none
  exact some_host (List.append_eq_nil_iff.mp (List.append_eq_nil_iff.mp none).1).1

/-- The reader reads the whole request. -/
theorem run_request (some_host : endpoint.domain ≠ []) (named : ∀ c ∈ endpoint.domain, isHostChar c = true)
    (encoded : ∀ text ∈ authorization, ∀ c ∈ text, valueChar c = true)
    (short : (HttpDataFlow.connectRequest endpoint authorization).length ≤ 8000) :
    ∃ last, Reader.run (Fragmentation.plain .request) (.start (Fragmentation.plain .request))
        (HttpDataFlow.connectRequest endpoint authorization) =
          some (last, requestEvents (serverOf endpoint.domain endpoint.port) authorization) ∧ last.phase = .stopped := by
  have begun : Reader.run (Fragmentation.plain .request) (.start (Fragmentation.plain .request)) (ascii "CONNECT ") =
      some (⟨requestParser .reqSpacesBeforeUrl 8 0, .target (ascii "CONNECT"), 8⟩, []) := by
    decide +kernel
  have sound := Reader.run_sound (Reader.start_sound _) begun
  obtain ⟨line, front, follows, headers⟩ := follow_headers (serverOf endpoint.domain endpoint.port) encoded
  have whole := Reader.follow_append
    (follow_start (serverOf_ne_nil endpoint.port some_host) (serverOf_chars endpoint.port named)) follows
  rw [connectRequest_eq] at short ⊢
  generalize serverOf endpoint.domain endpoint.port ++
    (ascii " HTTP/1.1\r\n" ++ (ascii "Host: " ++ (serverOf endpoint.domain endpoint.port ++ ascii "\r\n"))) ++
      (authorizationLine authorization ++ [cr]) = head at whole short ⊢
  have eight : (ascii "CONNECT ").length = 8 := by decide
  rw [List.length_append, List.length_append, eight, List.length_singleton] at short
  obtain ⟨count, ran, counts⟩ := Reader.run_follow sound (by change 8 + head.length ≤ 40000; omega)
    (by change 8 + head.length ≤ 8003; omega) whole
  have counts : count ≤ 8 + head.length := counts
  have held : (line.text ++ crlf ++ [cr]).length ≤ 8 + head.length := by
    have target : (Phase.target (ascii "CONNECT")).held.length = 8 := by decide
    have taken := congrArg List.length (Reader.run_takes sound ran)
    rw [List.length_append, List.length_append] at taken
    change (Phase.target (ascii "CONNECT")).held.length + head.length = _ + (line.text ++ crlf ++ [cr]).length at taken
    omega
  obtain ⟨last, stepped, stopped⟩ := step_lastLf line (show count < 40000 by omega) (by omega)
  refine ⟨last, ?_, stopped⟩
  rw [Reader.run_append, begun, Option.bind_some, Reader.run_append, ran, Option.bind_some, Reader.run_cons, stepped]
  unfold requestEvents
  rw [← headers]
  simp [Reader.run]

/-! ## What the request tells the server -/

variable {f f' : HttpServerDataFlow} {events front back : List Event}

theorem connectsAll_and (first : connectsAll text f front = some f') :
    connectsAll text f (front ++ back) = connectsAll text f' back := by
  induction front generalizing f with
  | nil =>
    cases first
    rfl
  | cons event front ih =>
    obtain ⟨f₁, here, more⟩ := Option.bind_eq_some_iff.mp first
    change (connects text f event).bind _ = _
    rw [here]
    exact ih more

theorem connectsAll_same (same : ∀ event ∈ events, connects text f event = some f) : connectsAll text f events = some f := by
  induction events with
  | nil => rfl
  | cons event events ih =>
    obtain ⟨first, same⟩ := List.forall_mem_cons.mp same
    change (connects text f event).bind _ = _
    rw [first]
    exact ih same

/-- The flow of the server when it has read the request's target. -/
def asked (text : AddressText) (endpoint : Endpoint) : HttpServerDataFlow where
  isConnect := true
  hasReadMethod := true
  endpoint := some (.ofHost text endpoint.domain endpoint.port)

theorem onConnectUrl_server (some_host : endpoint.domain ≠ []) (named : ∀ c ∈ endpoint.domain, isHostChar c = true)
    (small : endpoint.port < 2 ^ 16) (short : (serverOf endpoint.domain endpoint.port).length < 2 ^ 16) :
    HttpServerDataFlow.onConnectUrl text (serverOf endpoint.domain endpoint.port) { isConnect := true, hasReadMethod := true } =
      .ok (true, asked text endpoint) := by
  have host : (serverUrl endpoint.domain endpoint.port).text .host (serverOf endpoint.domain endpoint.port) = endpoint.domain := by
    change ((serverOf endpoint.domain endpoint.port).drop 0).take endpoint.domain.length = _
    unfold serverOf
    rw [List.drop_zero, List.append_assoc]
    exact List.take_left
  have both : (serverUrl endpoint.domain endpoint.port).hasFrom .host = true ∧
      (serverUrl endpoint.domain endpoint.port).hasFrom .port = true := by
    simp [HttpParserUrl.hasFrom, serverUrl, UrlField.index]
  unfold HttpServerDataFlow.onConnectUrl
  rw [parseUrl_serverOf some_host named small short]
  dsimp only
  rw [if_neg (not_not_intro both), host]
  rfl

theorem requestEvents_asked (some_host : endpoint.domain ≠ []) (named : ∀ c ∈ endpoint.domain, isHostChar c = true)
    (small : endpoint.port < 2 ^ 16) (short : (serverOf endpoint.domain endpoint.port).length < 2 ^ 16) :
    connectsAll text {} (requestEvents (serverOf endpoint.domain endpoint.port) authorization) = some (asked text endpoint) := by
  have target : connectsAll text {} [.method (ascii "CONNECT"), .raw [space], .url (serverOf endpoint.domain endpoint.port),
      .raw [space], .version (ascii "HTTP/1.1"), .raw crlf] = some (asked text endpoint) := by
    have url : connects text { isConnect := true, hasReadMethod := true } (.url (serverOf endpoint.domain endpoint.port)) =
        some (asked text endpoint) := by
      unfold connects
      dsimp only
      rw [if_pos rfl, onConnectUrl_server some_host named small short]
    have method : connects text {} (.method (ascii "CONNECT")) = some { isConnect := true, hasReadMethod := true } := by
      have known : HttpServerDataFlow.onMethod (ascii "CONNECT") {} = { isConnect := true, hasReadMethod := true } := by
        decide +kernel
      unfold connects
      dsimp only
      rw [if_pos rfl, known]
    have raw : connects text { isConnect := true, hasReadMethod := true } (.raw [space]) =
        some { isConnect := true, hasReadMethod := true } := rfl
    unfold connectsAll
    rw [method, Option.bind_eq_bind, Option.bind_some]
    unfold connectsAll
    rw [raw, Option.bind_eq_bind, Option.bind_some]
    unfold connectsAll
    rw [url]
    rfl
  unfold requestEvents
  rw [List.append_assoc, connectsAll_and target]
  apply connectsAll_same
  intro event member
  rcases List.mem_append.mp member with header | ending
  · obtain ⟨line, -, rfl⟩ := List.mem_map.mp header
    rfl
  · simp only [List.mem_cons, List.not_mem_nil, or_false] at ending
    rcases ending with rfl | rfl | rfl | rfl | rfl <;> rfl

theorem requestEvents_one (server : Bytes) (authorization : Option Bytes) : (requestEvents server authorization).dropLast.any completes = false ∧
    (requestEvents server authorization).any completes = true ∧ (requestEvents server authorization).length ≤ 13 := by
  cases authorization <;> exact ⟨rfl, rfl, by simp [requestEvents, headersOf]⟩

/-! ## The two flows -/

/-- `Open` on a request for a host and a port. -/
theorem request_opens (some_host : endpoint.domain ≠ []) (named : ∀ c ∈ endpoint.domain, isHostChar c = true)
    (small : endpoint.port < 2 ^ 16) (encoded : ∀ text ∈ authorization, ∀ c ∈ text, valueChar c = true)
    (short : (HttpDataFlow.connectRequest endpoint authorization).length ≤ 8000) {inputs : List (Nat × Buffer)}
    (pieces : ∀ input ∈ inputs, ShortPiece input)
    (cut : inputs.flatMap (·.2.content) = HttpDataFlow.connectRequest endpoint authorization) :
    ∃ c, (ServedClient.machine text).run inputs ServedClient.init = .ok c ∧
      Opened c (some (.ofHost text endpoint.domain endpoint.port)) := by
  obtain ⟨last, ahead, stopped⟩ := run_request some_host named encoded short
  obtain ⟨one, complete, count⟩ := requestEvents_one (serverOf endpoint.domain endpoint.port) authorization
  have server : (serverOf endpoint.domain endpoint.port).length < 2 ^ 16 := by
    rw [connectRequest_eq] at short
    simp only [List.length_append] at short
    omega
  have few : (bytesOf (requestEvents (serverOf endpoint.domain endpoint.port) authorization)).length ≤ 8000 := by
    have taken := congrArg List.length (Reader.run_takes (Reader.start_sound _) ahead)
    rw [List.length_append, List.length_append] at taken
    change 0 + _ = _ at taken
    omega
  have fits : Fits (acts text) (.ok {}) (requestEvents (serverOf endpoint.domain endpoint.port) authorization) :=
    fits_of_grows acts_grow (by omega)
  rw [← cut] at ahead
  obtain ⟨c, ran, stands⟩ := init_opening.reads pieces ahead one (fun _ => stopped)
    (requestEvents_asked some_host named small server) fits
  rw [complete] at stands
  exact ⟨c, ran, stands⟩

/-- What the reader makes of the response. -/
def responseRead : Reader × List Canonical.Event :=
  (Reader.run ConnectReply.replies (.start ConnectReply.replies) HttpServerDataFlow.connectResponseHeader).getD
    (.start ConnectReply.replies, [])

/-- A flow that has written its request and reads the response of a server: it succeeds with the
last byte, and not before. -/
theorem response_decides {client : HttpDataFlow} {target : Endpoint} {nextHop : FlowStateMachine} {free : Nat} {rest : Bytes}
    {inputs : List (Nat × Buffer)}
    (sent : httpMachine.run [.callConnect, .nextConnected true nextHop free] (HttpDataFlow.init target authorization) = .ok client)
    (pieces : ∀ input ∈ inputs, ShortPiece input)
    (cut : inputs.flatMap (·.2.content) ++ rest = HttpServerDataFlow.connectResponseHeader) :
    ∃ client', httpMachine.run (.written true nextHop :: ConnectReply.reads nextHop inputs) client = .ok client' ∧
      if rest = [] then ConnectReply.Decided client' true else client'.stage = .reading := by
  obtain ⟨reading, requested, awaits⟩ := ConnectReply.requested target authorization nextHop free
  have written : httpMachine.run [.written true nextHop] client = .ok reading := by
    change httpMachine.run ([.callConnect, .nextConnected true nextHop free] ++ [.written true nextHop]) _ = _ at requested
    rw [Machine.run_append, sent] at requested
    exact requested
  have replies : ∀ {client'}, httpMachine.run (ConnectReply.reads nextHop inputs) reading = .ok client' →
      httpMachine.run (.written true nextHop :: ConnectReply.reads nextHop inputs) client = .ok client' := by
    intro client' ran
    change httpMachine.run ([.written true nextHop] ++ ConnectReply.reads nextHop inputs) client = _
    rw [Machine.run_append, written]
    exact ran
  have whole : Reader.run ConnectReply.replies (.start ConnectReply.replies) HttpServerDataFlow.connectResponseHeader =
      some (responseRead.1, responseRead.2) := by
    decide +kernel
  have idle : responseRead.1.phase = .idle := by decide +kernel
  have one : responseRead.2.dropLast.any completes = false := by decide +kernel
  have complete : responseRead.2.any completes = true := by decide +kernel
  have success : ConnectReply.accepted false responseRead.2 = true := by decide +kernel
  have length : HttpServerDataFlow.connectResponseHeader.length = 39 := by decide +kernel
  rw [← cut] at whole length
  rw [List.length_append] at length
  obtain ⟨middle, front, back, here, later, split⟩ := Reader.run_append_some whole
  have takes := congrArg List.length (Reader.run_takes (Reader.start_sound _) here)
  rw [List.length_append, List.length_append] at takes
  change 0 + _ = _ at takes
  have fits : Fits ConnectReply.acts (.ok reading.rewriter.delegate) front :=
    fits_of_grows ConnectReply.acts_grow (by omega)
  by_cases none : rest = []
  · subst none
    have last : responseRead.1 = middle := by
      cases later
      rfl
    obtain rfl : back = [] := by
      cases later
      rfl
    rw [List.append_nil] at split
    rw [split] at one complete success
    rw [last] at idle
    obtain ⟨client', ran, decided⟩ := awaits.reads_decide nextHop pieces here (by rw [idle]; nofun) one (fun _ => idle) fits
    rw [if_pos complete, success] at decided
    refine ⟨client', replies ran, ?_⟩
    rw [if_pos rfl]
    exact decided
  · have running : middle.phase ≠ .stopped := fun stopped => none (Reader.run_behind rfl stopped later).1
    have incomplete : front.any completes = false := by
      apply Bool.eq_false_iff.mpr
      intro complete
      rw [split] at one
      obtain rfl := nothing_behind one complete
      have taken := Reader.run_takes (Reader.run_sound (Reader.start_sound _) here) later
      have held : responseRead.1.phase.held = [] := by rw [idle]; rfl
      rw [held] at taken
      exact none (List.append_eq_nil_iff.mp taken).2
    have first : front.dropLast.any completes = false := by
      rw [List.any_eq_false] at incomplete ⊢
      exact fun event member => incomplete event (List.dropLast_subset _ member)
    obtain ⟨client', ran, reads⟩ := awaits.reads_decide nextHop pieces here running first
      (fun complete => absurd complete (Bool.eq_false_iff.mp incomplete)) fits
    rw [if_neg (Bool.eq_false_iff.mp incomplete)] at reads
    refine ⟨client', replies ran, ?_⟩
    rw [if_neg none]
    exact reads.1

/-- HttpDataFlow and HttpServerDataFlow over a stream that hands over its bytes in whatever pieces. The
request for a host and a port makes Open succeed with that host and that port, of what is
read later everything is handed over, and the response that Continue writes makes Connect
succeed, with its last byte and not before. -/
theorem connect_agrees (text : AddressText) (target : Endpoint) (authorization : Option Bytes) (nextHop : FlowStateMachine)
    (free : Nat) (some_host : target.domain ≠ []) (named : ∀ c ∈ target.domain, isHostChar c = true)
    (small : target.port < 2 ^ 16) (encoded : ∀ text ∈ authorization, ∀ c ∈ text, valueChar c = true)
    (short : (HttpDataFlow.connectRequest target authorization).length ≤ 8000) :
    ∃ client request, httpMachine.run [.callConnect, .nextConnected true nextHop free] (HttpDataFlow.init target authorization) =
        .ok client ∧ client.stage = .requesting request ∧ request.content = HttpDataFlow.connectRequest target authorization ∧
      ∀ inputs later : List (Nat × Buffer), (∀ input ∈ inputs, ShortPiece input) → inputs.flatMap (·.2.content) = request.content →
        ∃ server server', (ServedClient.machine text).run inputs ServedClient.init = .ok server ∧
          Opened server (some (.ofHost text target.domain target.port)) ∧
          (ServedClient.machine text).run later server = .ok server' ∧ server'.handed = later.flatMap (·.2.content) ∧
          server.rewriter.delegate.continueResponse = some HttpServerDataFlow.connectResponseHeader ∧
          ∀ (answers : List (Nat × Buffer)) (rest : Bytes), (∀ input ∈ answers, ShortPiece input) →
            answers.flatMap (·.2.content) ++ rest = HttpServerDataFlow.connectResponseHeader →
            ∃ client', httpMachine.run (.written true nextHop :: ConnectReply.reads nextHop answers) client = .ok client' ∧
              if rest = [] then ConnectReply.Decided client' true else client'.stage = .reading := by
  obtain ⟨request, sent, content⟩ := ConnectReply.requesting target authorization nextHop free
  refine ⟨_, request, sent, rfl, content, ?_⟩
  intro inputs later pieces cut
  obtain ⟨server, ran, opened⟩ := request_opens some_host named small encoded short pieces (cut.trans content)
  have response : server.rewriter.delegate.continueResponse = some HttpServerDataFlow.connectResponseHeader := by
    unfold HttpServerDataFlow.continueResponse
    rw [opened.tunnelled.2, if_pos rfl]
  refine ⟨server, _, ran, opened, opened.tunnelled.run, ?_, response, ?_⟩
  · change server.handed ++ _ = _
    rw [opened.handed]
    rfl
  · intro answers rest replies parts
    exact response_decides sent replies parts

/-- A request with a credential, cut in two. -/
def twoPieces : List (Nat × Buffer) :=
  [(1, inOneChunk (ascii "CONNECT a.b:80 HT")),
    (1, inOneChunk (ascii "TP/1.1\r\nHost: a.b:80\r\nProxy-Authorization: Basic dTpw\r\n\r\n"))]

/-- The response, cut in its status. -/
def twoAnswers : List (Nat × Buffer) :=
  [(1, inOneChunk (ascii "HTTP/1.1 20")), (1, inOneChunk (ascii "0 Connection Established\r\n\r\n"))]

theorem connect_agrees_two : ∃ client server server' client',
    httpMachine.run [.callConnect, .nextConnected true { type := .remote } 1]
        (HttpDataFlow.init ⟨.domain, ascii "a.b", none, 80⟩ (some (ascii "dTpw"))) = .ok client ∧
      (ServedClient.machine ⟨fun _ => none, fun _ => []⟩).run twoPieces ServedClient.init = .ok server ∧
      Opened server (some ⟨.domain, ascii "a.b", none, 80⟩) ∧
      (ServedClient.machine ⟨fun _ => none, fun _ => []⟩).run [(1, inOneChunk (ascii "hello"))] server = .ok server' ∧
      server'.handed = ascii "hello" ∧
      httpMachine.run (.written true { type := .remote } :: ConnectReply.reads { type := .remote } twoAnswers) client = .ok client' ∧
      ConnectReply.Decided client' true := by
  have named : (ascii "a.b").all isHostChar = true := by decide +kernel
  have encoded : (ascii "dTpw").all valueChar = true := by decide +kernel
  obtain ⟨client, request, sent, -, content, agrees⟩ := connect_agrees ⟨fun _ => none, fun _ => []⟩
    ⟨.domain, ascii "a.b", none, 80⟩ (some (ascii "dTpw")) { type := .remote } 1 (by decide) (List.all_eq_true.mp named)
    (by decide) (by rintro _ ⟨⟩; exact List.all_eq_true.mp encoded) (by decide +kernel)
  have pieces : ∀ input ∈ twoPieces, ShortPiece input := by
    intro input member
    simp only [twoPieces, List.mem_cons, List.not_mem_nil, or_false] at member
    rcases member with rfl | rfl <;> exact inOneChunk_short (by decide) (by decide)
  have answers : ∀ input ∈ twoAnswers, ShortPiece input := by
    intro input member
    simp only [twoAnswers, List.mem_cons, List.not_mem_nil, or_false] at member
    rcases member with rfl | rfl <;> exact inOneChunk_short (by decide) (by decide)
  have cut : twoPieces.flatMap (·.2.content) =
      HttpDataFlow.connectRequest ⟨.domain, ascii "a.b", none, 80⟩ (some (ascii "dTpw")) := by
    decide +kernel
  have answered : twoAnswers.flatMap (·.2.content) ++ [] = HttpServerDataFlow.connectResponseHeader := by decide +kernel
  obtain ⟨server, server', ran, opened, later, handed, -, decides⟩ :=
    agrees twoPieces [(1, inOneChunk (ascii "hello"))] pieces (cut.trans content.symm)
  obtain ⟨client', replied, decided⟩ := decides twoAnswers [] answers answered
  rw [if_pos rfl] at decided
  exact ⟨client, server, server', client', sent, ran, opened, later, handed.trans (by decide +kernel), replied, decided⟩

end Agreement

end LibNekit.Guarantees.ConnectAgreement
