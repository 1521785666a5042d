import LibNekit.Source.Runtime
import Mathlib.Logic.Function.Basic
import Mathlib.Tactic.Simps.Basic

/-!
# `http_parser`: states, tables and the parser record

Source: src/third_party/http_parser/http_parser.c and its header, with
`HTTP_PARSER_STRICT` set, as the repository builds it.

`http_parser_init` is only ever called for a request or a response parser, so the
states that guess the type of the first message are left out. The local `p_state`
is merged with `parser->state`: each exit stores one in the other.
-/
namespace LibNekit.Source

/-- A C character constant. -/
def byte (c : Char) : UInt8 := UInt8.ofNat c.toNat

/-- A C string literal. -/
def ascii (s : String) : Bytes := s.toList.map byte

/-- `CR` and `LF`. -/
def cr : UInt8 := 13
def lf : UInt8 := 10
def space : UInt8 := 32
def tab : UInt8 := 9

namespace HttpParser

inductive ParserType where
  | request | response
  deriving DecidableEq, Repr

inductive ParserState where
  | dead
  | startRes | resH | resHT | resHTT | resHTTP | resHttpMajor | resHttpDot | resHttpMinor
  | resHttpEnd | resFirstStatusCode | resStatusCode | resStatusStart | resStatus
  | resLineAlmostDone
  | startReq
  | reqMethod | reqSpacesBeforeUrl | reqSchema | reqSchemaSlash | reqSchemaSlashSlash
  | reqServerStart | reqServer | reqServerWithAt | reqPath | reqQueryStringStart
  | reqQueryString | reqFragmentStart | reqFragment | reqHttpStart | reqHttpH | reqHttpHT
  | reqHttpHTT | reqHttpHTTP | reqHttpMajor | reqHttpDot | reqHttpMinor | reqHttpEnd
  | reqLineAlmostDone
  | headerFieldStart | headerField | headerValueDiscardWs | headerValueDiscardWsAlmostDone
  | headerValueDiscardLws | headerValueStart | headerValue | headerValueLws
  | headerAlmostDone
  | chunkSizeStart | chunkSize | chunkParameters | chunkSizeAlmostDone
  | headersAlmostDone | headersDone
  | chunkData | chunkDataAlmostDone | chunkDataDone
  | bodyIdentity | bodyIdentityEof
  | messageDone
  deriving DecidableEq, Repr

/-- `PARSING_HEADER(state)`: all states up to `s_headers_done`. -/
def ParserState.parsingHeader : ParserState → Bool
  | .chunkData | .chunkDataAlmostDone | .chunkDataDone | .bodyIdentity | .bodyIdentityEof
  | .messageDone => false
  | _ => true

inductive HeaderState where
  | general | c | co | con
  | matchingConnection | matchingProxyConnection | matchingContentLength
  | matchingTransferEncoding | matchingUpgrade
  | connection | contentLength | contentLengthNum | contentLengthWs | transferEncoding | upgrade
  | matchingTransferEncodingChunked | matchingConnectionTokenStart
  | matchingConnectionKeepAlive | matchingConnectionClose | matchingConnectionUpgrade
  | matchingConnectionToken
  | transferEncodingChunked | connectionKeepAlive | connectionClose | connectionUpgrade
  deriving DecidableEq, Repr

inductive HttpMethod where
  | delete | get | head | post | put | connect | options | trace | copy | lock | mkcol | move
  | propfind | proppatch | search | unlock | bind | rebind | unbind | acl | report | mkactivity
  | checkout | merge | msearch | notify | subscribe | unsubscribe | patch | purge | mkcalendar
  | link | unlink | source
  deriving DecidableEq, Repr

/-- `method_strings`. The third argument of the `MSEARCH` entry is the token
sequence `M - SEARCH`, so stringizing it keeps the blanks. -/
def HttpMethod.string : HttpMethod → String
  | .delete => "DELETE" | .get => "GET" | .head => "HEAD" | .post => "POST" | .put => "PUT"
  | .connect => "CONNECT" | .options => "OPTIONS" | .trace => "TRACE" | .copy => "COPY"
  | .lock => "LOCK" | .mkcol => "MKCOL" | .move => "MOVE" | .propfind => "PROPFIND"
  | .proppatch => "PROPPATCH" | .search => "SEARCH" | .unlock => "UNLOCK" | .bind => "BIND"
  | .rebind => "REBIND" | .unbind => "UNBIND" | .acl => "ACL" | .report => "REPORT"
  | .mkactivity => "MKACTIVITY" | .checkout => "CHECKOUT" | .merge => "MERGE"
  | .msearch => "M - SEARCH" | .notify => "NOTIFY" | .subscribe => "SUBSCRIBE"
  | .unsubscribe => "UNSUBSCRIBE" | .patch => "PATCH" | .purge => "PURGE"
  | .mkcalendar => "MKCALENDAR" | .link => "LINK" | .unlink => "UNLINK" | .source => "SOURCE"

/-- The callbacks that take no data, and those that take a slice. -/
inductive NotifyCallback where
  | messageBegin | headersComplete | messageComplete | chunkHeader | chunkComplete
  deriving DecidableEq, Repr

inductive DataCallback where
  | url | status | headerField | headerValue | body
  deriving DecidableEq, Repr

inductive HttpErrno where
  | ok
  | cbNotify (callback : NotifyCallback)
  | cbData (callback : DataCallback)
  | invalidEofState | headerOverflow | closedConnection | invalidVersion | invalidStatus
  | invalidMethod | invalidUrl | lfExpected | invalidHeaderToken | invalidContentLength
  | unexpectedContentLength | invalidChunkSize | invalidConstant | strict | paused
  deriving DecidableEq, Repr

/-- The bits of `flags`. -/
structure Flags where
  chunked : Bool := false
  connectionKeepAlive : Bool := false
  connectionClose : Bool := false
  connectionUpgrade : Bool := false
  trailing : Bool := false
  upgrade : Bool := false
  skipBody : Bool := false
  contentLength : Bool := false
  deriving DecidableEq, Repr

/-- `ULLONG_MAX` -/
def ullongMax : Nat := 2 ^ 64 - 1

/-- `HTTP_MAX_HEADER_SIZE` -/
def maxHeaderSize : Nat := 80 * 1024

/-! ## Character classes -/

def lower (c : UInt8) : UInt8 := c ||| 0x20

def isAlpha (c : UInt8) : Bool := byte 'a' ≤ lower c && lower c ≤ byte 'z'

def isNum (c : UInt8) : Bool := byte '0' ≤ c && c ≤ byte '9'

def isAlphanum (c : UInt8) : Bool := isAlpha c || isNum c

def isHex (c : UInt8) : Bool := isNum c || (byte 'a' ≤ lower c && lower c ≤ byte 'f')

/-- `ch - '0'` -/
def digit (c : UInt8) : Nat := c.toNat - 48

def isMark (c : UInt8) : Bool := (ascii "-_.!~*'()").contains c

def isUserinfoChar (c : UInt8) : Bool :=
  isAlphanum c || isMark c || (ascii "%;:&=+$,").contains c

/-- The table `tokens`: the lower-case form of a token character, else `0`. -/
def token (c : UInt8) : UInt8 :=
  if isAlpha c then lower c
  else if isNum c || (ascii "!#$%&'*+-.^_\x60|~").contains c then c
  else 0

/-- The table `normal_url_char`. -/
def isUrlChar (c : UInt8) : Bool := 33 ≤ c && c ≤ 126 && c ≠ byte '#' && c ≠ byte '?'

def isHostChar (c : UInt8) : Bool := isAlphanum c || c == byte '.' || c == byte '-'

def isHeaderChar (c : UInt8) : Bool := c == cr || c == lf || c == 9 || (31 < c && c ≠ 127)

/-- The table `unhex`, where `none` is `-1`. It has initialisers for 128 of its 256 elements, and
the others are `0`. -/
def unhex (c : UInt8) : Option Nat :=
  if isNum c then some (digit c)
  else if byte 'A' ≤ c && c ≤ byte 'F' then some (c.toNat - 55)
  else if byte 'a' ≤ c && c ≤ byte 'f' then some (c.toNat - 87)
  else if 128 ≤ c then some 0
  else none

/-- `enum state parse_url_char(enum state s, const char ch)` -/
def parseUrlChar (s : ParserState) (ch : UInt8) : ParserState :=
  if ch = space ∨ ch = cr ∨ ch = lf then .dead
  else if ch = tab ∨ ch = 12 then .dead
  else
    match s with
    | .reqSpacesBeforeUrl =>
      if ch = byte '/' ∨ ch = byte '*' then .reqPath
      else if isAlpha ch then .reqSchema
      else .dead
    | .reqSchema =>
      if isAlpha ch then .reqSchema
      else if ch = byte ':' then .reqSchemaSlash
      else .dead
    | .reqSchemaSlash => if ch = byte '/' then .reqSchemaSlashSlash else .dead
    | .reqSchemaSlashSlash => if ch = byte '/' then .reqServerStart else .dead
    | .reqServerWithAt | .reqServerStart | .reqServer =>
      if s = .reqServerWithAt ∧ ch = byte '@' then .dead
      else if ch = byte '/' then .reqPath
      else if ch = byte '?' then .reqQueryStringStart
      else if ch = byte '@' then .reqServerWithAt
      else if isUserinfoChar ch ∨ ch = byte '[' ∨ ch = byte ']' then .reqServer
      else .dead
    | .reqPath =>
      if isUrlChar ch then .reqPath
      else if ch = byte '?' then .reqQueryStringStart
      else if ch = byte '#' then .reqFragmentStart
      else .dead
    | .reqQueryStringStart | .reqQueryString =>
      if isUrlChar ch then .reqQueryString
      else if ch = byte '?' then .reqQueryString
      else if ch = byte '#' then .reqFragmentStart
      else .dead
    | .reqFragmentStart =>
      if isUrlChar ch then .reqFragment
      else if ch = byte '?' then .reqFragment
      else if ch = byte '#' then .reqFragmentStart
      else .dead
    | .reqFragment =>
      if isUrlChar ch then .reqFragment
      else if ch = byte '?' ∨ ch = byte '#' then .reqFragment
      else .dead
    | _ => .dead

end HttpParser

open HttpParser

/-- `struct http_parser`, less the user pointer and `lenient_http_headers`, which
nothing in the repository sets. -/
structure HttpParser where
  type : ParserType
  flags : Flags := {}
  state : ParserState
  headerState : HeaderState := .general
  index : Nat := 0
  nread : Nat := 0
  contentLength : Nat := 0
  httpMajor : Nat := 0
  httpMinor : Nat := 0
  statusCode : Nat := 0
  method : HttpMethod := .delete
  httpErrno : HttpErrno := .ok
  upgrade : Bool := false
  deriving DecidableEq, Repr

namespace HttpParser

/-- `start_state` -/
def startState (parser : HttpParser) : ParserState :=
  match parser.type with
  | .request => .startReq
  | .response => .startRes

/-- `http_parser_init` -/
def init (type : ParserType) : HttpParser :=
  { type, state := match type with | .request => .startReq | .response => .startRes }

/-- `http_message_needs_eof` -/
def messageNeedsEof (parser : HttpParser) : Bool :=
  if parser.type = .request then false
  else if parser.statusCode / 100 = 1 ∨ parser.statusCode = 204 ∨ parser.statusCode = 304 ∨
      parser.flags.skipBody then false
  else if parser.flags.chunked ∨ parser.contentLength ≠ ullongMax then false
  else true

/-- `http_should_keep_alive` -/
def shouldKeepAlive (parser : HttpParser) : Bool :=
  if 0 < parser.httpMajor ∧ 0 < parser.httpMinor then
    if parser.flags.connectionClose then false else !parser.messageNeedsEof
  else if parser.flags.connectionKeepAlive then !parser.messageNeedsEof
  else false

/-- `NEW_MESSAGE()` -/
def newMessage (parser : HttpParser) : ParserState :=
  if parser.shouldKeepAlive then parser.startState else .dead

/-- `UPDATE_STATE(state)` -/
@[simps] def goTo (parser : HttpParser) (state : ParserState) : HttpParser := { parser with state }

/-- `SET_ERRNO(errno)` -/
@[simps] def setErrno (parser : HttpParser) (httpErrno : HttpErrno) : HttpParser :=
  { parser with httpErrno }

/-- `parser->nread += count`, a `uint32_t`. -/
@[simps] def counted (parser : HttpParser) (count : Nat) : HttpParser :=
  { parser with nread := (parser.nread + count) % 2 ^ 32 }

/-- `http_parser_pause` -/
def pause (parser : HttpParser) (paused : Bool) : Checked HttpParser :=
  if parser.httpErrno = .ok ∨ parser.httpErrno = .paused then
    .ok (parser.setErrno (if paused then .paused else .ok))
  else .error .assertion

/-- `++parser->index`, a field of seven bits. -/
@[simps] def bumpIndex (parser : HttpParser) : HttpParser :=
  { parser with index := (parser.index + 1) % 128 }

end HttpParser

end LibNekit.Source
