import LibNekit.Source.ThirdParty.HttpParser.Run

/-!
# `http_parser_execute`

A state whose case neither marks nor calls back is a pure step of the parser.
`goto reexecute` is a call of the state it goes to, which is never a loop. The
two inner loops, over a header's name and its value, are recursions over what is
left of `data`.
-/
namespace LibNekit.Source.HttpParser

open LibNekit.Library

/-! ## Matching words -/

/-- The `index` of the word that `c` has to be for the match to go on. The string's
final NUL is a character no token equals. -/
def matchWord (word : String) (index : Nat) (c : UInt8) (matched going failed : HeaderState) :
    HeaderState :=
  if word.length < index ∨ c ≠ (ascii word).getD index 0 then failed
  else if index = word.length - 1 then matched
  else going

/-- The `switch` on `method << 16 | index << 8 | ch`. -/
def branchMethod (method : HttpMethod) (index : Nat) (ch : UInt8) : Option HttpMethod :=
  match method, index with
  | .post, 1 =>
    if ch = byte 'U' then some .put
    else if ch = byte 'A' then some .patch
    else if ch = byte 'R' then some .propfind
    else none
  | .put, 2 => if ch = byte 'R' then some .purge else none
  | .connect, 1 => if ch = byte 'H' then some .checkout else none
  | .connect, 2 => if ch = byte 'P' then some .copy else none
  | .mkcol, 1 =>
    if ch = byte 'O' then some .move
    else if ch = byte 'E' then some .merge
    else if ch = byte '-' then some .msearch
    else none
  | .mkcol, 2 => if ch = byte 'A' then some .mkactivity else none
  | .mkcol, 3 => if ch = byte 'A' then some .mkcalendar else none
  | .subscribe, 1 =>
    if ch = byte 'E' then some .search else if ch = byte 'O' then some .source else none
  | .report, 2 => if ch = byte 'B' then some .rebind else none
  | .propfind, 4 => if ch = byte 'P' then some .proppatch else none
  | .lock, 1 => if ch = byte 'I' then some .link else none
  | .unlock, 2 =>
    if ch = byte 'S' then some .unsubscribe else if ch = byte 'B' then some .unbind else none
  | .unlock, 3 => if ch = byte 'I' then some .unlink else none
  | _, _ => none

/-- The `switch (ch)` of `s_start_req`. -/
def firstMethod (ch : UInt8) : Option HttpMethod :=
  if ch = byte 'A' then some .acl
  else if ch = byte 'B' then some .bind
  else if ch = byte 'C' then some .connect
  else if ch = byte 'D' then some .delete
  else if ch = byte 'G' then some .get
  else if ch = byte 'H' then some .head
  else if ch = byte 'L' then some .lock
  else if ch = byte 'M' then some .mkcol
  else if ch = byte 'N' then some .notify
  else if ch = byte 'O' then some .options
  else if ch = byte 'P' then some .post
  else if ch = byte 'R' then some .report
  else if ch = byte 'S' then some .subscribe
  else if ch = byte 'T' then some .trace
  else if ch = byte 'U' then some .unlock
  else none

/-! ## The start line -/

/-- Go to `state` if the check holds. -/
def advance (parser : HttpParser) (check : Prop) [Decidable check] (errno : HttpErrno)
    (state : ParserState) : Except HttpErrno HttpParser :=
  if check then .ok (parser.goTo state) else .error errno

/-- `s_req_method` -/
def reqMethod (parser : HttpParser) (ch : UInt8) : Except HttpErrno HttpParser :=
  let expected := (ascii parser.method.string).getD parser.index 0
  if ch = 0 then .error .invalidMethod
  else if ch = space ∧ expected = 0 then .ok (parser.goTo .reqSpacesBeforeUrl).bumpIndex
  else if ch = expected then .ok parser.bumpIndex
  else if (byte 'A' ≤ ch ∧ ch ≤ byte 'Z') ∨ ch = byte '-' then
    match branchMethod parser.method parser.index ch with
    | some method => .ok { parser with method }.bumpIndex
    | none => .error .invalidMethod
  else .error .invalidMethod

/-- `s_res_status_code` on a digit. -/
def statusDigit (parser : HttpParser) (ch : UInt8) : Except HttpErrno HttpParser :=
  let parser := { parser with statusCode := (parser.statusCode * 10 + digit ch) % 2 ^ 16 }
  if 999 < parser.statusCode then .error .invalidStatus else .ok parser

/-- The states of the start line whose case neither marks nor calls back. -/
def startLineStep (parser : HttpParser) (ch : UInt8) : Except HttpErrno HttpParser :=
  match parser.state with
  | .dead => advance parser (ch = cr ∨ ch = lf) .closedConnection .dead
  | .resH => advance parser (ch = byte 'T') .strict .resHT
  | .resHT => advance parser (ch = byte 'T') .strict .resHTT
  | .resHTT => advance parser (ch = byte 'P') .strict .resHTTP
  | .resHTTP => advance parser (ch = byte '/') .strict .resHttpMajor
  | .resHttpMajor =>
    advance { parser with httpMajor := digit ch } (isNum ch) .invalidVersion .resHttpDot
  | .resHttpDot => advance parser (ch = byte '.') .invalidVersion .resHttpMinor
  | .resHttpMinor =>
    advance { parser with httpMinor := digit ch } (isNum ch) .invalidVersion .resHttpEnd
  | .resHttpEnd => advance parser (ch = space) .invalidVersion .resFirstStatusCode
  | .resFirstStatusCode =>
    if ch = space then .ok parser
    else advance { parser with statusCode := digit ch } (isNum ch) .invalidStatus .resStatusCode
  | .resStatusCode =>
    if isNum ch then statusDigit parser ch
    else advance parser (ch = space) .invalidStatus .resStatusStart
  | .resLineAlmostDone => advance parser (ch = lf) .strict .headerFieldStart
  | .reqMethod => reqMethod parser ch
  | .reqHttpStart =>
    if ch = space then .ok parser else advance parser (ch = byte 'H') .invalidConstant .reqHttpH
  | .reqHttpH => advance parser (ch = byte 'T') .strict .reqHttpHT
  | .reqHttpHT => advance parser (ch = byte 'T') .strict .reqHttpHTT
  | .reqHttpHTT => advance parser (ch = byte 'P') .strict .reqHttpHTTP
  | .reqHttpHTTP => advance parser (ch = byte '/') .strict .reqHttpMajor
  | .reqHttpMajor =>
    advance { parser with httpMajor := digit ch } (isNum ch) .invalidVersion .reqHttpDot
  | .reqHttpDot => advance parser (ch = byte '.') .invalidVersion .reqHttpMinor
  | .reqHttpMinor =>
    advance { parser with httpMinor := digit ch } (isNum ch) .invalidVersion .reqHttpEnd
  | .reqHttpEnd =>
    if ch = cr then .ok (parser.goTo .reqLineAlmostDone)
    else advance parser (ch = lf) .invalidVersion .headerFieldStart
  | .reqLineAlmostDone => advance parser (ch = lf) .lfExpected .headerFieldStart
  | .headerAlmostDone => advance parser (ch = lf) .lfExpected .headerValueLws
  | .headerValueDiscardWsAlmostDone => advance parser (ch = lf) .strict .headerValueDiscardLws
  | _ => .error .strict

/-! ## Header names -/

/-- `parser->index++` and the comparison of a word of the header's name. -/
def matchName (word : String) (matched going : HeaderState) (parser : HttpParser) (c : UInt8) :
    HttpParser :=
  let parser := parser.bumpIndex
  { parser with headerState := matchWord word parser.index c matched going .general }

/-- The `switch` over `header_state` for the token character `c` of `ch`. -/
def headerFieldChar (parser : HttpParser) (ch c : UInt8) : Checked HttpParser :=
  match parser.headerState with
  | .general => .ok parser
  | .c => .ok { parser.bumpIndex with headerState := if c = byte 'o' then .co else .general }
  | .co => .ok { parser.bumpIndex with headerState := if c = byte 'n' then .con else .general }
  | .con => .ok { parser.bumpIndex with
      headerState :=
        if c = byte 'n' then .matchingConnection
        else if c = byte 't' then .matchingContentLength
        else .general }
  | .matchingConnection =>
    .ok (matchName "connection" .connection .matchingConnection parser c)
  | .matchingProxyConnection =>
    .ok (matchName "proxy-connection" .connection .matchingProxyConnection parser c)
  | .matchingContentLength =>
    .ok (matchName "content-length" .contentLength .matchingContentLength parser c)
  | .matchingTransferEncoding =>
    .ok (matchName "transfer-encoding" .transferEncoding .matchingTransferEncoding parser c)
  | .matchingUpgrade => .ok (matchName "upgrade" .upgrade .matchingUpgrade parser c)
  | .connection | .contentLength | .transferEncoding | .upgrade =>
    .ok (if ch ≠ space then { parser with headerState := .general } else parser)
  | _ => .error .assertion

/-- The loop of `s_header_field`: how many token characters it passes. -/
def headerFieldLoop : Bytes → HttpParser → Checked (Nat × HttpParser)
  | [], parser => .ok (0, parser)
  | ch :: rest, parser =>
    if token ch = 0 then .ok (0, parser)
    else do
      let (passed, parser) ← headerFieldLoop rest (← headerFieldChar parser ch (token ch))
      return (passed + 1, parser)

/-! ## Header values -/

/-- The `switch` over `h_state` in the loop of `s_header_value`, less `h_general`. An
error comes with the `h_state` that is stored before it. -/
def headerValueChar (hState : HeaderState) (parser : HttpParser) (ch : UInt8) :
    Checked (Except (HeaderState × HttpErrno) (HeaderState × HttpParser)) :=
  let c := lower ch
  let contentLengthNum (parser : HttpParser) :
      Except (HeaderState × HttpErrno) (HeaderState × HttpParser) :=
    if ch = space then .ok (.contentLengthWs, parser)
    else if ¬isNum ch then .error (.contentLengthNum, .invalidContentLength)
    else if (ullongMax - 10) / 10 < parser.contentLength then
      .error (.contentLengthNum, .invalidContentLength)
    else .ok (.contentLengthNum,
      { parser with contentLength := parser.contentLength * 10 + digit ch })
  let matchValue (word : String) (matched failed : HeaderState) :=
    let parser := parser.bumpIndex
    .ok (.ok (matchWord word parser.index c matched hState failed, parser))
  let listSeparator (flags : Flags) :=
    if ch = byte ',' then
      .ok (.ok (.matchingConnectionTokenStart, { parser with flags, index := 0 }))
    else if ch ≠ space then .ok (.ok (.matchingConnectionToken, parser))
    else .ok (.ok (hState, parser))
  match hState with
  | .connection | .transferEncoding => .error .assertion
  | .contentLength => .ok (if ch = space then .ok (hState, parser) else contentLengthNum parser)
  | .contentLengthNum => .ok (contentLengthNum parser)
  | .contentLengthWs =>
    .ok (if ch = space then .ok (hState, parser) else .error (hState, .invalidContentLength))
  | .matchingTransferEncodingChunked => matchValue "chunked" .transferEncodingChunked .general
  | .matchingConnectionTokenStart =>
    .ok (.ok (
      if c = byte 'k' then .matchingConnectionKeepAlive
      else if c = byte 'c' then .matchingConnectionClose
      else if c = byte 'u' then .matchingConnectionUpgrade
      else if token c ≠ 0 then .matchingConnectionToken
      else if c = space ∨ c = tab then hState
      else .general, parser))
  | .matchingConnectionKeepAlive =>
    matchValue "keep-alive" .connectionKeepAlive .matchingConnectionToken
  | .matchingConnectionClose => matchValue "close" .connectionClose .matchingConnectionToken
  | .matchingConnectionUpgrade => matchValue "upgrade" .connectionUpgrade .matchingConnectionToken
  | .matchingConnectionToken =>
    .ok (.ok (
      if ch = byte ',' then (.matchingConnectionTokenStart, { parser with index := 0 })
      else (hState, parser)))
  | .transferEncodingChunked =>
    .ok (.ok (if ch ≠ space then .general else hState, parser))
  | .connectionKeepAlive => listSeparator { parser.flags with connectionKeepAlive := true }
  | .connectionClose => listSeparator { parser.flags with connectionClose := true }
  | .connectionUpgrade => listSeparator { parser.flags with connectionUpgrade := true }
  | _ => .ok (.ok (.general, parser.goTo .headerValue))

/-- Where `h_general` continues: at the first CR or LF that the two `memchr` calls
see, else at the end of the data. -/
def skipGeneral (data : Bytes) : Nat :=
  ((data.take maxHeaderSize).findIdx? fun c => c = cr ∨ c = lf).getD data.length

inductive ValueStop where
  | atCr | atLf | endOfData
  | invalid (errno : HttpErrno)
  deriving DecidableEq, Repr

/-- Where the loop of `s_header_value` stopped, and `h_state` there. -/
structure ValueScan where
  passed : Nat
  hState : HeaderState
  parser : HttpParser
  stop : ValueStop
  deriving DecidableEq, Repr

def ValueStop.of : Option UInt8 → ValueStop
  | some ch => if ch = cr then .atCr else .atLf
  | none => .endOfData

/-- The loop of `s_header_value`. -/
def headerValueLoop : Bytes → HeaderState → HttpParser → Checked ValueScan
  | [], hState, parser => .ok ⟨0, hState, parser, .endOfData⟩
  | ch :: rest, hState, parser =>
    if ch = cr then .ok ⟨0, hState, parser, .atCr⟩
    else if ch = lf then .ok ⟨0, hState, parser, .atLf⟩
    else if ¬isHeaderChar ch then
      .ok ⟨0, parser.headerState, parser, .invalid .invalidHeaderToken⟩
    else if hState = .general then
      let passed := skipGeneral (ch :: rest)
      .ok ⟨passed, hState, parser, .of (ch :: rest)[passed]?⟩
    else do
      match ← headerValueChar hState parser ch with
      | .error (hState, errno) => return ⟨0, hState, parser, .invalid errno⟩
      | .ok (hState, parser) =>
        let scan ← headerValueLoop rest hState parser
        return { scan with passed := scan.passed + 1 }

/-! ## The states that mark or call back -/

/-- `s_message_done` -/
def messageDone (f : Frame) : Run Frame := do
  let f ← callbackNotify .messageComplete (f.p + 1) (f.goTo f.parser.newMessage)
  if f.parser.upgrade then Run.exit (f.p + 1) f.parser else return f

/-- `s_headers_done` -/
def headersDone (f : Frame) (ch : UInt8) : Run Frame :=
  if ch ≠ lf then f.error .strict
  else
    let f := { f with parser.nread := 0 }
    let hasBody := f.parser.flags.chunked ∨
      (0 < f.parser.contentLength ∧ f.parser.contentLength ≠ ullongMax)
    if f.parser.upgrade ∧ (f.parser.method = .connect ∨ f.parser.flags.skipBody ∨ ¬hasBody) then do
      let f ← callbackNotify .messageComplete (f.p + 1) (f.goTo f.parser.newMessage)
      Run.exit (f.p + 1) f.parser
    else if f.parser.flags.skipBody then
      callbackNotify .messageComplete (f.p + 1) (f.goTo f.parser.newMessage)
    else if f.parser.flags.chunked then return f.goTo .chunkSizeStart
    else if f.parser.contentLength = 0 then
      callbackNotify .messageComplete (f.p + 1) (f.goTo f.parser.newMessage)
    else if f.parser.contentLength ≠ ullongMax then return f.goTo .bodyIdentity
    else if ¬f.parser.messageNeedsEof then
      callbackNotify .messageComplete (f.p + 1) (f.goTo f.parser.newMessage)
    else return f.goTo .bodyIdentityEof

/-- What `parser->upgrade` is set to before `on_headers_complete`. -/
def reportsUpgrade (parser : HttpParser) : Bool :=
  if parser.flags.upgrade ∧ parser.flags.connectionUpgrade then
    parser.type = .request ∨ parser.statusCode = 101
  else parser.method = .connect

/-- The call of `on_headers_complete`, whose return value is an instruction. -/
def headersComplete (f : Frame) : Run Frame :=
  Run.ask (.notify .headersComplete) fun reply =>
    if reply.code ≠ 0 ∧ reply.code ≠ 1 ∧ reply.code ≠ 2 then
      f.error (.cbNotify .headersComplete)
    else
      let parser := { f.parser with
        upgrade := f.parser.upgrade || reply.code = 2
        flags.skipBody := f.parser.flags.skipBody || reply.code ≠ 0
        httpErrno := if reply.paused then .paused else f.parser.httpErrno }
      if parser.httpErrno ≠ .ok then Run.exit f.p parser else Run.next { f with parser }

/-- `s_headers_almost_done` -/
def headersAlmostDone (f : Frame) (ch : UInt8) : Run Frame :=
  if ch ≠ lf then f.error .strict
  else if f.parser.flags.trailing then do
    let f ← callbackNotify .chunkComplete f.p (f.goTo .messageDone)
    messageDone f
  else if f.parser.flags.chunked ∧ f.parser.flags.contentLength then
    f.error .unexpectedContentLength
  else do
    let f := f.goTo .headersDone
    let f ← headersComplete { f with parser.upgrade := reportsUpgrade f.parser }
    headersDone f ch

/-- The `switch` over the first token character of a name. -/
def firstHeaderState (c : UInt8) : HeaderState :=
  if c = byte 'c' then .c
  else if c = byte 'p' then .matchingProxyConnection
  else if c = byte 't' then .matchingTransferEncoding
  else if c = byte 'u' then .matchingUpgrade
  else .general

/-- `s_header_field_start` -/
def headerFieldStart (f : Frame) (ch : UInt8) : Run Frame :=
  if ch = cr then Run.next (f.goTo .headersAlmostDone)
  else if ch = lf then headersAlmostDone (f.goTo .headersAlmostDone) ch
  else if token ch = 0 then f.error .invalidHeaderToken
  else
    let f := (f.mark .headerField).goTo .headerField
    Run.next { f with parser.index := 0, parser.headerState := firstHeaderState (token ch) }

/-- `s_header_field` -/
def headerField (data : Bytes) (f : Frame) : Run Frame := do
  let (passed, parser) ← headerFieldLoop (data.drop f.p) f.parser
  let f ← { f with p := f.p + passed, parser }.countHeaderSize passed
  match data[f.p]? with
  | none => return { f with p := f.p - 1 }
  | some ch =>
    if ch = byte ':' then callbackData .headerField (f.goTo .headerValueDiscardWs)
    else f.error .invalidHeaderToken

/-- The `switch` over `header_state` at the first character of a value. -/
def startValue (parser : HttpParser) (ch : UInt8) : Except HttpErrno HttpParser :=
  let c := lower ch
  match parser.headerState with
  | .upgrade => .ok { parser with flags.upgrade := true, headerState := .general }
  | .transferEncoding =>
    .ok { parser with
      headerState := if c = byte 'c' then .matchingTransferEncodingChunked else .general }
  | .contentLength =>
    if ¬isNum ch then .error .invalidContentLength
    else if parser.flags.contentLength then .error .unexpectedContentLength
    else .ok { parser with
      flags.contentLength := true
      contentLength := digit ch
      headerState := .contentLengthNum }
  | .connection =>
    .ok { parser with
      headerState :=
        if c = byte 'k' then .matchingConnectionKeepAlive
        else if c = byte 'c' then .matchingConnectionClose
        else if c = byte 'u' then .matchingConnectionUpgrade
        else .matchingConnectionToken }
  | .matchingConnectionTokenStart => .ok parser
  | _ => .ok { parser with headerState := .general }

/-- `s_header_value_start` -/
def headerValueStart (f : Frame) (ch : UInt8) : Run Frame :=
  let f := (f.mark .headerValue).goTo .headerValue
  let f := { f with parser.index := 0 }
  match startValue f.parser ch with
  | .ok parser => Run.next { f with parser }
  | .error errno => f.error errno

/-- The flags that a header ending in `header_state` sets. -/
def finishFlags (headerState : HeaderState) (flags : Flags) : Flags :=
  match headerState with
  | .connectionKeepAlive => { flags with connectionKeepAlive := true }
  | .connectionClose => { flags with connectionClose := true }
  | .transferEncodingChunked => { flags with chunked := true }
  | .connectionUpgrade => { flags with connectionUpgrade := true }
  | _ => flags

def finishHeader (parser : HttpParser) : HttpParser :=
  { parser with flags := finishFlags parser.headerState parser.flags }

/-- `s_header_value_lws` -/
def headerValueLws (f : Frame) (ch : UInt8) : Run Frame :=
  if ch = space ∨ ch = tab then headerValueStart (f.goTo .headerValueStart) ch
  else
    let f := { f with parser := finishHeader f.parser }
    headerFieldStart (f.goTo .headerFieldStart) ch

/-- `s_header_value` -/
def headerValue (data : Bytes) (f : Frame) : Run Frame := do
  let scan ← headerValueLoop (data.drop f.p) f.parser.headerState f.parser
  let f := { f with p := f.p + scan.passed, parser := scan.parser }
  match scan.stop with
  | .atCr =>
    let f := { f.goTo .headerAlmostDone with parser.headerState := scan.hState }
    (← callbackData .headerValue f).countHeaderSize scan.passed
  | .atLf =>
    let f ← (f.goTo .headerAlmostDone).countHeaderSize scan.passed
    let f ← callbackDataNoAdvance .headerValue { f with parser.headerState := scan.hState }
    -- `s_header_almost_done` on the LF
    return f.goTo .headerValueLws
  | .endOfData =>
    let f ← { f with parser.headerState := scan.hState }.countHeaderSize scan.passed
    return { f with p := f.p - 1 }
  | .invalid errno =>
    let f := { f with parser.headerState := scan.hState }
    f.error errno

/-- `s_header_value_discard_ws` -/
def headerValueDiscardWs (f : Frame) (ch : UInt8) : Run Frame :=
  if ch = space ∨ ch = tab then Run.next f
  else if ch = cr then Run.next (f.goTo .headerValueDiscardWsAlmostDone)
  else if ch = lf then Run.next (f.goTo .headerValueDiscardLws)
  else headerValueStart f ch

/-- `s_header_value_discard_lws` -/
def headerValueDiscardLws (f : Frame) (ch : UInt8) : Run Frame :=
  if ch = space ∨ ch = tab then Run.next (f.goTo .headerValueDiscardWs)
  else do
    let f := { f with parser := finishHeader f.parser }
    let f ← callbackDataNoAdvance .headerValue ((f.mark .headerValue).goTo .headerFieldStart)
    headerFieldStart f ch

/-- `s_start_res` -/
def startRes (f : Frame) (ch : UInt8) : Run Frame :=
  let f := { f with parser.flags := {}, parser.contentLength := ullongMax }
  if ch = byte 'H' then callbackNotify .messageBegin (f.p + 1) (f.goTo .resH)
  else if ch = cr ∨ ch = lf then callbackNotify .messageBegin (f.p + 1) f
  else f.error .invalidConstant

/-- `s_start_req` -/
def startReq (f : Frame) (ch : UInt8) : Run Frame :=
  if ch = cr ∨ ch = lf then Run.next f
  else
    let f := { f with parser.flags := {}, parser.contentLength := ullongMax }
    if ¬isAlpha ch then f.error .invalidMethod
    else
      let f := { f with parser.method := .delete, parser.index := 1 }
      match firstMethod ch with
      | none => f.error .invalidMethod
      | some method =>
        callbackNotify .messageBegin (f.p + 1)
          { f with parser.method := method, parser.state := .reqMethod }

/-- `s_res_status` -/
def resStatus (f : Frame) (ch : UInt8) : Run Frame :=
  if ch = cr then callbackData .status (f.goTo .resLineAlmostDone)
  else if ch = lf then callbackData .status (f.goTo .headerFieldStart)
  else Run.next f

/-- `s_res_status_start` -/
def resStatusStart (f : Frame) (ch : UInt8) : Run Frame :=
  let f := (f.mark .status).goTo .resStatus
  let f := { f with parser.index := 0 }
  if ch = cr ∨ ch = lf then resStatus f ch else Run.next f

/-- `UPDATE_STATE(parse_url_char(CURRENT_STATE(), ch))` and its check. -/
def urlChar (f : Frame) (ch : UInt8) : Run Frame :=
  let f := f.goTo (parseUrlChar f.parser.state ch)
  if f.parser.state = .dead then f.error .invalidUrl else Run.next f

/-- `s_req_spaces_before_url` -/
def reqSpacesBeforeUrl (f : Frame) (ch : UInt8) : Run Frame :=
  if ch = space then Run.next f
  else
    let f := f.mark .url
    urlChar (if f.parser.method = .connect then f.goTo .reqServerStart else f) ch

/-- `s_req_schema` to `s_req_server_start`: no blank may follow yet. -/
def reqSchema (f : Frame) (ch : UInt8) : Run Frame :=
  if ch = space ∨ ch = cr ∨ ch = lf then f.error .invalidUrl else urlChar f ch

/-- `s_req_server` to `s_req_fragment` -/
def reqUrl (f : Frame) (ch : UInt8) : Run Frame :=
  if ch = space then callbackData .url (f.goTo .reqHttpStart)
  else if ch = cr ∨ ch = lf then
    let f := f.goTo (if ch = cr then .reqLineAlmostDone else .headerFieldStart)
    callbackData .url { f with parser.httpMajor := 0, parser.httpMinor := 9 }
  else urlChar f ch

/-! ## Bodies -/

/-- `assert(condition)` -/
def cAssert (condition : Prop) [Decidable condition] : Run Unit :=
  if condition then Run.next () else Run.fault .assertion

/-- The part `s_body_identity` and `s_chunk_data` share: mark, and pass what is
there of the body. -/
def readBody (data : Bytes) (f : Frame) : Frame :=
  let toRead := min f.parser.contentLength (data.length - f.p)
  let f := f.mark .body
  { f with p := f.p + toRead - 1, parser.contentLength := f.parser.contentLength - toRead }

/-- `s_body_identity` -/
def bodyIdentity (data : Bytes) (f : Frame) : Run Frame := do
  cAssert (f.parser.contentLength ≠ 0 ∧ f.parser.contentLength ≠ ullongMax)
  let f := readBody data f
  if f.parser.contentLength = 0 then
    messageDone (← callbackDataTo .body (f.p + 1) f.p (f.goTo .messageDone))
  else return f

/-- `s_chunk_data` -/
def chunkData (data : Bytes) (f : Frame) : Run Frame := do
  cAssert f.parser.flags.chunked
  cAssert (f.parser.contentLength ≠ 0 ∧ f.parser.contentLength ≠ ullongMax)
  let f := readBody data f
  return if f.parser.contentLength = 0 then f.goTo .chunkDataAlmostDone else f

/-- `s_chunk_size_start` -/
def chunkSizeStart (f : Frame) (ch : UInt8) : Run Frame := do
  cAssert (f.parser.nread = 1)
  cAssert f.parser.flags.chunked
  match unhex ch with
  | none => f.error .invalidChunkSize
  | some value => return { f.goTo .chunkSize with parser.contentLength := value }

/-- `s_chunk_size` -/
def chunkSize (f : Frame) (ch : UInt8) : Run Frame := do
  cAssert f.parser.flags.chunked
  if ch = cr then return f.goTo .chunkSizeAlmostDone
  match unhex ch with
  | none =>
    if ch = byte ';' ∨ ch = space then return f.goTo .chunkParameters
    else f.error .invalidChunkSize
  | some value =>
    if (ullongMax - 16) / 16 < f.parser.contentLength then f.error .invalidContentLength
    else return { f with parser.contentLength := f.parser.contentLength * 16 + value }

/-- `s_chunk_parameters` -/
def chunkParameters (f : Frame) (ch : UInt8) : Run Frame := do
  cAssert f.parser.flags.chunked
  return if ch = cr then f.goTo .chunkSizeAlmostDone else f

/-- `s_chunk_size_almost_done` -/
def chunkSizeAlmostDone (f : Frame) (ch : UInt8) : Run Frame := do
  cAssert f.parser.flags.chunked
  if ch ≠ lf then f.error .strict
  else
    let f := { f with parser.nread := 0 }
    let f :=
      if f.parser.contentLength = 0 then
        { f.goTo .headerFieldStart with parser.flags.trailing := true }
      else f.goTo .chunkData
    callbackNotify .chunkHeader (f.p + 1) f

/-- `s_chunk_data_almost_done` -/
def chunkDataAlmostDone (f : Frame) (ch : UInt8) : Run Frame := do
  cAssert f.parser.flags.chunked
  cAssert (f.parser.contentLength = 0)
  if ch ≠ cr then f.error .strict
  else callbackData .body (f.goTo .chunkDataDone)

/-- `s_chunk_data_done` -/
def chunkDataDone (f : Frame) (ch : UInt8) : Run Frame := do
  cAssert f.parser.flags.chunked
  if ch ≠ lf then f.error .strict
  else
    let f := { f with parser.nread := 0 }
    callbackNotify .chunkComplete (f.p + 1) (f.goTo .chunkSizeStart)

/-! ## The loop -/

/-- The `switch` over the state for the byte `ch` at `f.p`. -/
def switch (data : Bytes) (f : Frame) (ch : UInt8) : Run Frame :=
  match f.parser.state with
  | .startRes => startRes f ch
  | .startReq => startReq f ch
  | .resStatusCode =>
    if ch = cr ∨ ch = lf then resStatusStart (f.goTo .resStatusStart) ch
    else quiet f ch
  | .resStatusStart => resStatusStart f ch
  | .resStatus => resStatus f ch
  | .reqSpacesBeforeUrl => reqSpacesBeforeUrl f ch
  | .reqSchema | .reqSchemaSlash | .reqSchemaSlashSlash | .reqServerStart => reqSchema f ch
  | .reqServer | .reqServerWithAt | .reqPath | .reqQueryStringStart | .reqQueryString
  | .reqFragmentStart | .reqFragment => reqUrl f ch
  | .headerFieldStart => headerFieldStart f ch
  | .headerField => headerField data f
  | .headerValueDiscardWs => headerValueDiscardWs f ch
  | .headerValueStart => headerValueStart f ch
  | .headerValue => headerValue data f
  | .headerValueLws => headerValueLws f ch
  | .headerValueDiscardLws => headerValueDiscardLws f ch
  | .headersAlmostDone => headersAlmostDone f ch
  | .headersDone => headersDone f ch
  | .chunkSizeStart => chunkSizeStart f ch
  | .chunkSize => chunkSize f ch
  | .chunkParameters => chunkParameters f ch
  | .chunkSizeAlmostDone => chunkSizeAlmostDone f ch
  | .chunkData => chunkData data f
  | .chunkDataAlmostDone => chunkDataAlmostDone f ch
  | .chunkDataDone => chunkDataDone f ch
  | .bodyIdentity => bodyIdentity data f
  | .bodyIdentityEof => Run.next { f.mark .body with p := data.length - 1 }
  | .messageDone => messageDone f
  | _ => quiet f ch
where
  quiet (f : Frame) (ch : UInt8) : Run Frame :=
    match startLineStep f.parser ch with
    | .ok parser => Run.next { f with parser }
    | .error errno => f.error errno

/-- One pass through the loop's body. -/
def iteration (data : Bytes) (f : Frame) (ch : UInt8) : Run Frame := do
  let f ← if f.parser.state.parsingHeader then f.countHeaderSize 1 else pure f
  switch data f ch

/-- How many marks are set. -/
def openMarks (marks : Marks) : Nat :=
  ([.headerField, .headerValue, .url, .body, .status] : List DataCallback).countP
    fun callback => (marks callback).isSome

/-- The marks that are left when the data is used up; `RETURN(len)`. -/
def leftover (data : Bytes) (f : Frame) : Run Frame := do
  cAssert (openMarks f.marks ≤ 1)
  let f ← callbackDataNoAdvance .headerField f
  let f ← callbackDataNoAdvance .headerValue f
  let f ← callbackDataNoAdvance .url f
  let f ← callbackDataNoAdvance .body f
  let f ← callbackDataNoAdvance .status f
  Run.exit data.length f.parser

/-- `for (p = data; p != data + len; p++)`, on at most `fuel` more bytes. -/
def loop (data : Bytes) : Nat → Frame → Run Frame
  | 0, f => leftover data f
  | fuel + 1, f =>
    match data[f.p]? with
    | none => leftover data f
    | some ch => do
      let f ← iteration data f ch
      loop data fuel { f with p := f.p + 1 }

/-- The marks set on entry: the slice goes on with an element that was cut. -/
def entryMark : ParserState → Option DataCallback
  | .headerField => some .headerField
  | .headerValue => some .headerValue
  | .reqPath | .reqSchema | .reqSchemaSlash | .reqSchemaSlashSlash | .reqServerStart
  | .reqServer | .reqServerWithAt | .reqQueryStringStart | .reqQueryString
  | .reqFragmentStart | .reqFragment => some .url
  | .resStatus => some .status
  | _ => none

def entryFrame (parser : HttpParser) : Frame :=
  let f : Frame := ⟨0, parser, fun _ => none⟩
  match entryMark parser.state with
  | some callback => f.mark callback
  | none => f

/-- `http_parser_execute` on no bytes, which says that the stream ended. -/
def executeEof (parser : HttpParser) : Run Frame :=
  let f : Frame := ⟨0, parser, fun _ => none⟩
  match parser.state with
  | .bodyIdentityEof => do
    let f ← callbackNotify .messageComplete 0 f
    Run.exit 0 f.parser
  | .dead | .startRes | .startReq => Run.exit 0 parser
  | _ => Run.exit 1 (parser.setErrno .invalidEofState)

/-- `http_parser_execute` -/
def execute (parser : HttpParser) (data : Bytes) : Program Callback Reply Fault (Nat × HttpParser) :=
  Run.result <|
    if parser.httpErrno ≠ .ok then Run.exit 0 parser
    else if data = [] then executeEof parser
    else loop data data.length (entryFrame parser)

end LibNekit.Source.HttpParser
