import LibNekit.Canonical.Scan

/-!
# Streams of messages, read one byte at a time

`Reader` is what a stream is for the rewriter: where the next byte belongs, and what
is complete with it. It takes the parser's own reading of each byte, so it reads no
stream that the parser rejects. Of those the parser accepts it reads the ones whose
start lines and header lines are spelled canonically: one blank between the elements
of a start line, a version in every request line, three digits and a blank in every
status code, CRLF line ends, no folded values. Bodies may be framed in any way the
parser knows, but have no trailer.

It knows nothing of Buffers, slices or offsets.
-/
namespace LibNekit.Canonical

open LibNekit.Source LibNekit.Source.HttpParser LibNekit.Library

/-- A line that is complete. -/
inductive Line where
  | request (url version : Bytes)
  /-- The code, its blank and the reason phrase. -/
  | status (status : Bytes)
  | header (line : HeaderLine)
  deriving DecidableEq, Repr

/-- What a stream consists of. `raw` is what nobody is told about. -/
inductive Event where
  | method (method : Bytes)
  | url (url : Bytes)
  | version (version : Bytes)
  | status (status : Bytes)
  | header (line : HeaderLine)
  | headersComplete
  | messageComplete (upgrade : Bool)
  | raw (bytes : Bytes)
  /-- What comes up to here is not needed again. -/
  | settled
  deriving DecidableEq, Repr

/-- The bytes of the stream that an event stands for; a header line goes with its end. -/
def Event.bytes : Event → Bytes
  | .method text | .url text | .version text | .status text | .raw text => text
  | .header line => line.bytes
  | .headersComplete | .messageComplete _ | .settled => []

def crlf : Bytes := [cr, lf]

/-- The line without its end. -/
def Line.text : Line → Bytes
  | .request target version => target ++ space :: version
  | .status text => text
  | .header line => line.text

def Line.events : Line → List Event
  | .request target version => [.url target, .raw [space], .version version, .raw crlf]
  | .status text => [.status text, .raw crlf]
  | .header line => [.header line]

/-- How far behind the rewriter is at the end of the block that the line ends. -/
def Line.lag : Line → Nat
  | .header _ => 1
  | _ => 0

/-- Where in a message the next byte belongs. Each phase holds what has been read and
is not complete yet. -/
inductive Phase where
  | idle
  | method (method : Bytes)
  | target (method : Bytes)
  | url (url : Bytes)
  | version (url version : Bytes)
  | resVersion (version : Bytes)
  | code (version code : Bytes)
  | reason (version code : Bytes)
  | status (status : Bytes)
  | lineCr (line : Line)
  | lineEnd (line : Line)
  | lastCr (line : Line)
  | name (name : Bytes)
  | blanks (name blanks : Bytes)
  | value (name blanks value : Bytes)
  | emptyCr (name blanks : Bytes)
  | emptyEnd (name blanks : Bytes)
  /-- The parser has seen the LF that ends the header block and looks at it again.
  `lag` bytes in front of it are not settled. -/
  | headersDone (lag : Nat)
  | body
  | stopped
  deriving DecidableEq, Repr

/-- The bytes that a phase holds. -/
def Phase.held : Phase → Bytes
  | .idle | .headersDone _ | .body | .stopped => []
  | .method m => m
  | .target m => m ++ [space]
  | .url u => u
  | .version u v => u ++ space :: v
  | .resVersion v => v
  | .code v k => v ++ space :: k
  | .reason v k => v ++ space :: (k ++ [space])
  | .status text => text
  | .lineCr line => line.text ++ [cr]
  | .lineEnd line => line.text ++ crlf
  | .lastCr line => line.text ++ crlf ++ [cr]
  | .name n => n
  | .blanks n b => HeaderLine.text ⟨n, b, []⟩
  | .value n b v => HeaderLine.text ⟨n, b, v⟩
  | .emptyCr n b => HeaderLine.text ⟨n, b, []⟩ ++ [cr]
  | .emptyEnd n b => HeaderLine.text ⟨n, b, []⟩ ++ crlf

/-- What a stream is read under: the kind of its messages, how long a header block may
get, whether responses are read without their bodies, and whether nothing is read but plain
messages. -/
structure Setup where
  type : ParserType
  limit : Nat := maxHeaderSize
  skipBody : Bool := false
  plain : Bool := false
  deriving DecidableEq, Repr

/-- `parser` is what `http_parser` holds, less its count, and `count` is how much of
the header block there is. -/
structure Reader where
  parser : HttpParser
  phase : Phase := .idle
  count : Nat := 0
  deriving DecidableEq, Repr

namespace Reader

def start (setup : Setup) : Reader := { parser := .init setup.type }

abbrev Reading := Option (HttpParser × Phase × List Event)

/-! ## Start lines -/

/-- One silent step of the parser. -/
def quiet (parser : HttpParser) (c : UInt8) : Option HttpParser := (startLineStep parser c).toOption

def readIdle (parser : HttpParser) (c : UInt8) : Reading :=
  match parser.state with
  | .startReq =>
    if c = cr ∨ c = lf then some (parser, .idle, [.raw [c]])
    else if ¬isAlpha c then none
    else (firstMethod c).map fun method =>
      ({ parser with
          flags := {}, contentLength := ullongMax, method, index := 1, state := .reqMethod },
        .method [c], [])
  | .startRes =>
    if c = byte 'H' then
      some ({ parser with flags := {}, contentLength := ullongMax, state := .resH },
        .resVersion [c], [])
    else none
  | .dead => if c = cr ∨ c = lf then some (parser, .idle, [.raw [c]]) else none
  | _ => none

def readMethod (method : Bytes) (parser : HttpParser) (c : UInt8) : Reading := do
  let next ← quiet parser c
  return (next, if next.state = .reqMethod then .method (method ++ [c]) else .target method, [])

/-- The state in which the first character of a target is read. -/
def targetState (parser : HttpParser) : ParserState :=
  if parser.method = .connect then .reqServerStart else .reqSpacesBeforeUrl

def urlStep (state : ParserState) (c : UInt8) : Option ParserState :=
  if parseUrlChar state c = .dead then none else some (parseUrlChar state c)

/-- The states in which a target may end. -/
def urlMayEnd : ParserState → Bool
  | .reqServer | .reqServerWithAt | .reqPath | .reqQueryStringStart | .reqQueryString
  | .reqFragmentStart | .reqFragment => true
  | _ => false

def readTarget (method : Bytes) (parser : HttpParser) (c : UInt8) : Reading :=
  (urlStep (targetState parser) c).map fun state =>
    (parser.goTo state, .url [c], [.method method, .raw [space]])

def readUrl (url : Bytes) (parser : HttpParser) (c : UInt8) : Reading :=
  if c = space then
    if urlMayEnd parser.state then some (parser.goTo .reqHttpStart, .version url [], []) else none
  else (urlStep parser.state c).map fun state => (parser.goTo state, .url (url ++ [c]), [])

def readVersion (url version : Bytes) (parser : HttpParser) (c : UInt8) : Reading :=
  if c = space ∨ c = lf then none
  else do
    let next ← quiet parser c
    return (next, if c = cr then .lineCr (.request url version) else .version url (version ++ [c]), [])

def readResVersion (version : Bytes) (parser : HttpParser) (c : UInt8) : Reading := do
  let next ← quiet parser c
  return (next, if c = space then .code version [] else .resVersion (version ++ [c]), [])

def readCode (version code : Bytes) (parser : HttpParser) (c : UInt8) : Reading :=
  if c = space then
    if code.length = 3 then (quiet parser c).map fun next => (next, .reason version code, [])
    else none
  else (quiet parser c).map fun next => (next, .code version (code ++ [c]), [])

def readReason (version code : Bytes) (parser : HttpParser) (c : UInt8) : Reading :=
  let events : List Event := [.version version, .raw [space]]
  let status := code ++ [space]
  if c = lf then none
  else if c = cr then
    some ({ parser with state := .resLineAlmostDone, index := 0 }, .lineCr (.status status), events)
  else some ({ parser with state := .resStatus, index := 0 }, .status (status ++ [c]), events)

def readStatus (status : Bytes) (parser : HttpParser) (c : UInt8) : Reading :=
  if c = lf then none
  else if c = cr then some (parser.goTo .resLineAlmostDone, .lineCr (.status status), [])
  else some (parser, .status (status ++ [c]), [])

/-! ## Header lines -/

def readLineCr (line : Line) (parser : HttpParser) (c : UInt8) : Reading :=
  (quiet parser c).map fun next => (next, .lineEnd line, [])

/-- The flags that a line leaves when the next one begins. -/
def endLine (parser : HttpParser) : HttpParser :=
  if parser.state = .headerFieldStart then parser else finishHeader parser

def readLineEnd (line : Line) (parser : HttpParser) (c : UInt8) : Reading :=
  if c = cr then some ((endLine parser).goTo .headersAlmostDone, .lastCr line, [])
  else (nameStart (endLine parser).scan c).map fun scan =>
    (((endLine parser).withScan scan).goTo .headerField, .name [c], line.events)

def readName (name : Bytes) (parser : HttpParser) (c : UInt8) : Reading :=
  if c = byte ':' then some (parser.goTo .headerValueDiscardWs, .blanks name [], [])
  else (nameStep parser.scan c).map fun scan => (parser.withScan scan, .name (name ++ [c]), [])

def readBlanks (name blanks : Bytes) (parser : HttpParser) (c : UInt8) : Reading :=
  if isBlank c then some (parser, .blanks name (blanks ++ [c]), [])
  else if c = lf then none
  else if c = cr then some (parser.goTo .headerValueDiscardWsAlmostDone, .emptyCr name blanks, [])
  else (valueStart parser.scan c).map fun scan =>
    ((parser.withScan scan).goTo .headerValue, .value name blanks [c], [])

def readValue (name blanks value : Bytes) (parser : HttpParser) (c : UInt8) : Reading :=
  if c = cr then some (parser.goTo .headerAlmostDone, .lineCr (.header ⟨name, blanks, value⟩), [])
  else (valueStep parser.scan c).map fun scan =>
    (parser.withScan scan, .value name blanks (value ++ [c]), [])

def readEmptyCr (name blanks : Bytes) (parser : HttpParser) (c : UInt8) : Reading :=
  (quiet parser c).map fun next => (next, .emptyEnd name blanks, [])

/-! ## Bodies -/

def complete (parser : HttpParser) : HttpParser × Phase × List Event :=
  (parser.goTo parser.newMessage, if parser.upgrade then .stopped else .idle,
    [.settled, .messageComplete parser.upgrade])

/-- The LF that ends a header block, the second time. -/
def afterHeaders (parser : HttpParser) : HttpParser × Phase × List Event :=
  let hasBody := parser.flags.chunked ∨
    (0 < parser.contentLength ∧ parser.contentLength ≠ ullongMax)
  if parser.upgrade ∧ (parser.method = .connect ∨ parser.flags.skipBody ∨ ¬hasBody) then
    complete parser
  else if parser.flags.skipBody then complete parser
  else if parser.flags.chunked then (parser.goTo .chunkSizeStart, .body, [])
  else if parser.contentLength = 0 then complete parser
  else if parser.contentLength ≠ ullongMax then (parser.goTo .bodyIdentity, .body, [])
  else if ¬parser.messageNeedsEof then complete parser
  else (parser.goTo .bodyIdentityEof, .body, [])

def readHeadersDone (parser : HttpParser) (c : UInt8) : Reading :=
  if c = lf then
    let (next, phase, events) := afterHeaders parser
    some (next, phase, .raw [c] :: events)
  else none

/-- The last byte of a body. -/
def completeWith (c : UInt8) (parser : HttpParser) : HttpParser × Phase × List Event :=
  let (next, phase, events) := complete parser
  (next, phase, .raw [c] :: events)

def readChunkSize (parser : HttpParser) (c : UInt8) : Reading :=
  let pass (parser : HttpParser) : Reading := some (parser, .body, [.raw [c]])
  if c = cr then pass (parser.goTo .chunkSizeAlmostDone)
  else
    match unhex c with
    | some value =>
      if (ullongMax - 16) / 16 < parser.contentLength then none
      else pass { parser with contentLength := parser.contentLength * 16 + value }
    | none => if c = byte ';' ∨ c = space then pass (parser.goTo .chunkParameters) else none

/-- A body in chunks, up to the CRLF behind the last one. -/
def readChunked (parser : HttpParser) (c : UInt8) : Reading :=
  let pass (parser : HttpParser) : Reading := some (parser, .body, [.raw [c]])
  let settle (parser : HttpParser) : Reading := some (parser, .body, [.raw [c], .settled])
  let less : HttpParser := { parser with contentLength := parser.contentLength - 1 }
  match parser.state with
  | .chunkSizeStart =>
    (unhex c).bind fun value => pass { parser.goTo .chunkSize with contentLength := value }
  | .chunkSize => readChunkSize parser c
  | .chunkParameters => pass (if c = cr then parser.goTo .chunkSizeAlmostDone else parser)
  | .chunkSizeAlmostDone =>
    if c ≠ lf then none
    else if parser.contentLength = 0 then
      settle { parser.goTo .headerFieldStart with flags.trailing := true }
    else settle (parser.goTo .chunkData)
  | .chunkData =>
    if parser.contentLength = 0 ∨ parser.contentLength = ullongMax then none
    else settle (if less.contentLength = 0 then less.goTo .chunkDataAlmostDone else less)
  | .chunkDataAlmostDone =>
    if c = cr ∧ parser.contentLength = 0 then pass (parser.goTo .chunkDataDone) else none
  | .chunkDataDone => if c = lf then settle (parser.goTo .chunkSizeStart) else none
  | .headerFieldStart =>
    if ¬parser.flags.trailing then none
    else if c = cr then pass (parser.goTo .headersAlmostDone)
    else if c = lf then some (completeWith c parser)
    else none
  | .headersAlmostDone =>
    if c = lf ∧ parser.flags.trailing then some (completeWith c parser) else none
  | _ => none

def readBody (parser : HttpParser) (c : UInt8) : Reading :=
  let less : HttpParser := { parser with contentLength := parser.contentLength - 1 }
  match parser.state with
  | .bodyIdentity =>
    if parser.contentLength = 0 ∨ parser.contentLength = ullongMax then none
    else if less.contentLength = 0 then some (completeWith c less)
    else some (less, .body, [.raw [c], .settled])
  | .bodyIdentityEof => some (parser, .body, [.raw [c], .settled])
  | _ => if parser.flags.chunked then readChunked parser c else none

/-! ## The whole stream -/

/-- `on_headers_complete`, at the LF that ends a header block. -/
def close (setup : Setup) (line : Line) (r : Reader) : Option (Reader × List Event) :=
  if r.parser.flags.chunked ∧ r.parser.flags.contentLength then none
  else
    let parser := r.parser.goTo .headersDone
    some (⟨{ parser with
        upgrade := reportsUpgrade parser
        flags.skipBody := parser.flags.skipBody || setup.skipBody },
      .headersDone line.lag, r.count + 1⟩,
      line.events ++ [.headersComplete, .raw [cr]])

def read (phase : Phase) (parser : HttpParser) (c : UInt8) : Reading :=
  match phase with
  | .idle => readIdle parser c
  | .method method => readMethod method parser c
  | .target method => readTarget method parser c
  | .url url => readUrl url parser c
  | .version url version => readVersion url version parser c
  | .resVersion version => readResVersion version parser c
  | .code version code => readCode version code parser c
  | .reason version code => readReason version code parser c
  | .status status => readStatus status parser c
  | .lineCr line => readLineCr line parser c
  | .lineEnd line => readLineEnd line parser c
  | .lastCr _ => none
  | .name name => readName name parser c
  | .blanks name blanks => readBlanks name blanks parser c
  | .value name blanks value => readValue name blanks value parser c
  | .emptyCr name blanks => readEmptyCr name blanks parser c
  | .emptyEnd name blanks => readLineEnd (.header ⟨name, blanks, []⟩) parser c
  | .headersDone _ => readHeadersDone parser c
  | .body => readBody parser c
  | .stopped => some (parser, .stopped, [.raw [c]])

/-- The states behind whose byte the count begins again. -/
def resets : ParserState → Bool
  | .headersDone | .chunkSizeAlmostDone | .chunkDataDone => true
  | _ => false

def countAfter (r : Reader) : Nat :=
  if r.phase = .stopped then r.count
  else if resets r.parser.state then 0
  else if r.parser.state.parsingHeader then r.count + 1
  else r.count

def readByte (r : Reader) (c : UInt8) : Option (Reader × List Event) :=
  (read r.phase r.parser c).map fun (parser, phase, events) =>
    (⟨parser, phase, r.countAfter⟩, events)

/-- Whether the next byte of a header block would be one too many. -/
def full (setup : Setup) (r : Reader) : Bool :=
  setup.limit ≤ r.count && r.parser.state.parsingHeader && r.parser.state ≠ .headersDone &&
    r.phase ≠ .stopped

/-- Plain messages follow each other at once, have bodies of a known length, do not upgrade
the connection, and have no line with more than 8000 bytes in front of its CRLF. -/
def plain (r : Reader) (c : UInt8) : Bool :=
  match r.phase with
  | .idle => c ≠ cr ∧ c ≠ lf
  | .body => r.parser.state = .bodyIdentity
  | .stopped => false
  -- behind the last line there is one CR more
  | phase => phase.held.length ≤ 8003

def refuses (setup : Setup) (r : Reader) (c : UInt8) : Bool :=
  r.full setup || (setup.plain && !r.plain c)

def step (setup : Setup) (r : Reader) (c : UInt8) : Option (Reader × List Event) :=
  if r.refuses setup c then none
  else
    match r.phase with
    | .lastCr line =>
      if c ≠ lf then none
      else do
        let (closed, first) ← r.close setup line
        let (after, second) ← closed.readByte c
        return (after, first ++ second)
    | _ => r.readByte c

def run (setup : Setup) : Reader → Bytes → Option (Reader × List Event)
  | r, [] => some (r, [])
  | r, c :: rest => do
    let (next, first) ← r.step setup c
    let (last, more) ← run setup next rest
    return (last, first ++ more)

end Reader

end LibNekit.Canonical
