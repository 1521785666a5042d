import LibNekit.Source.Buffer.Model
import LibNekit.Source.ThirdParty.HttpParser.Execute

/-!
# `HttpMessageStreamRewriter`

Source: src/utils/http_message_stream_rewriter.cc.

The rewriter feeds a Buffer to the parser chunk by chunk. The parser's callbacks
move a set of offsets into the Buffer, which the delegate's callbacks use to read
and edit the current token under the parser's feet. Offsets are `size_t`, and the
source lets them wrap: `current_buffer_offset_ -= len` may go below zero until the
parsed length is added.

`current_token_valid_` and `current_header_valid_` are never set, so `CurrentToken`
and `CurrentHeader` read the Buffer on every call.
-/
namespace LibNekit.Source

open LibNekit.Library

namespace Rewriter

/-- `HttpMessageStreamRewriter::Type` -/
inductive MessageType where
  | request | response
  deriving DecidableEq, Repr

def MessageType.parserType : MessageType → HttpParser.ParserType
  | .request => .request
  | .response => .response

inductive State where
  | init | method | url | version | status | headerField | headerValue | body
  deriving DecidableEq, Repr

/-- `NEKIT_HTTP_STREAM_REWRITER_MAX_BUFFER_SIZE` -/
def maxBufferSize : Nat := 8192

/-- `int parsed = n` and back: `(size_t)parsed`. -/
def throughInt (n : Nat) : Nat :=
  if n % 2 ^ 32 < 2 ^ 31 then n % 2 ^ 32 else n % 2 ^ 32 + (sizeRange - 2 ^ 32)

theorem throughInt_eq {n : Nat} (fits : n < 2 ^ 31) : throughInt n = n := by
  unfold throughInt
  rw [Nat.mod_eq_of_lt (by omega), if_pos fits]

abbrev Header := Bytes × Bytes

inductive RewriterError where
  | parserError (errno : HttpParser.HttpErrno)
  | blockTooLong
  | userError
  deriving DecidableEq, Repr

end Rewriter

open Rewriter

/-- `HttpMessageStreamRewriterImpl`, less the parser and the delegate.
`currentBuffer` is what `current_buffer_` points to, and `next` the first address
that no chunk has used. -/
structure RewriterImpl where
  type : MessageType
  state : State := .init
  currentBuffer : Buffer := .empty
  next : Nat := 0
  pendingPreviousBuffer : Option Bytes := none
  pendingBufferLength : Nat := 0
  currentBufferOffset : Nat := 0
  currentTokenOffset : Nat := 0
  currentTokenEndOffset : Nat := 0
  currentHeaderFieldOffset : Nat := 0
  currentHeaderFieldEndOffset : Nat := 0
  currentHeaderValueOffset : Nat := 0
  currentHeaderValueEndOffset : Nat := 0
  nextTokenOffset : Nat := 0
  errored : Bool := false
  stopped : Bool := false
  processHeaderComplete : Bool := false
  processMessageComplete : Bool := false
  setToken : Bool := false
  stepBack : Bool := false
  skipBody : Bool := false
  deriving DecidableEq, Repr

namespace RewriterImpl

/-! ## What a delegate may call -/

/-- `GetStringFromBuffer(offset, len)` -/
def getStringFromBuffer (r : RewriterImpl) (offset len : Nat) : Checked Bytes :=
  r.currentBuffer.getData offset len

/-- `CurrentToken()` -/
def currentToken (r : RewriterImpl) : Checked Bytes :=
  r.getStringFromBuffer r.currentTokenOffset (sizeSub r.currentTokenEndOffset r.currentTokenOffset)

/-- `CurrentHeader()` -/
def currentHeader (r : RewriterImpl) : Checked Header := do
  let name ← r.getStringFromBuffer r.currentHeaderFieldOffset
    (sizeSub r.currentHeaderFieldEndOffset r.currentHeaderFieldOffset)
  let value ← r.getStringFromBuffer r.currentHeaderValueOffset
    (sizeSub r.currentHeaderValueEndOffset r.currentHeaderValueOffset)
  return (name, value)

/-- `RewriteCurrentToken(new_token)`. The difference of the lengths is a
`ptrdiff_t`, so it counts as positive below `2 ^ 63`. -/
def rewriteCurrentToken (r : RewriterImpl) (newToken : Bytes) : Checked RewriterImpl := do
  let currentLen := sizeSub r.currentTokenEndOffset r.currentTokenOffset
  let diff := sizeSub newToken.length currentLen
  let (next, buffer) ←
    if 0 < diff ∧ diff < 2 ^ 63 then
      r.currentBuffer.insertSize r.next r.currentTokenOffset diff
    else do
      let buffer ← r.currentBuffer.shrink r.currentTokenOffset (sizeSub 0 diff)
      pure (r.next, buffer)
  let buffer ← buffer.setData r.currentTokenOffset newToken
  return { r with
    next
    currentBuffer := buffer
    currentTokenEndOffset := sizeAdd r.currentTokenEndOffset diff
    nextTokenOffset := sizeAdd r.nextTokenOffset diff
    currentBufferOffset := sizeAdd r.currentBufferOffset diff }

/-- `header.first + ": " + header.second` -/
def headerLine (header : Header) : Bytes := header.1 ++ ascii ": " ++ header.2

/-- `RewriteCurrentHeader(header)` -/
def rewriteCurrentHeader (r : RewriterImpl) (header : Header) : Checked RewriterImpl :=
  r.rewriteCurrentToken (headerLine header)

/-- `DeleteCurrentHeader()` -/
def deleteCurrentHeader (r : RewriterImpl) : Checked RewriterImpl := do
  let len := sizeAdd (sizeSub r.currentTokenEndOffset r.currentTokenOffset) 2
  let buffer ← r.currentBuffer.shrink r.currentTokenOffset len
  return { r with
    currentBuffer := buffer
    currentBufferOffset := sizeSub r.currentBufferOffset len
    nextTokenOffset := sizeSub r.nextTokenOffset len }

/-- `AddHeader(const std::string&)` -/
def addHeaderLine (r : RewriterImpl) (header : Bytes) : Checked RewriterImpl := do
  let len := header.length
  let (next, buffer) ← r.currentBuffer.insertSize r.next r.currentTokenOffset (sizeAdd len 2)
  let buffer ← buffer.setData r.currentTokenOffset header
  let buffer ← buffer.setIndex (sizeAdd r.currentTokenOffset len) cr
  let buffer ← buffer.setIndex (sizeAdd (sizeAdd r.currentTokenOffset len) 1) lf
  return { r with
    next
    currentBuffer := buffer
    currentBufferOffset := sizeAdd r.currentBufferOffset (sizeAdd len 2)
    currentTokenOffset := sizeAdd r.currentTokenOffset (sizeAdd len 2)
    nextTokenOffset := sizeAdd r.nextTokenOffset (sizeAdd len 2) }

/-- `AddHeader(const Header&)` -/
def addHeader (r : RewriterImpl) (header : Header) : Checked RewriterImpl :=
  r.addHeaderLine (headerLine header)

/-- `if (set_token_)` after the parser returned. -/
def settleToken (r : RewriterImpl) : RewriterImpl :=
  if r.setToken then
    { r with
      currentTokenOffset :=
        if r.stepBack then sizeSub r.currentBufferOffset 1 else r.currentBufferOffset
      setToken := false
      stepBack := false }
  else r

end RewriterImpl

namespace Rewriter

/-- A call of one of the delegate's virtual functions: it may use the rewriter and
change the delegate's own state. -/
abbrev DelegateCall (δ : Type) := RewriterImpl → δ → Checked (Bool × RewriterImpl × δ)

/-- `HttpMessageStreamRewriterDelegateInterface` -/
structure Delegate (δ : Type) where
  onMethod : DelegateCall δ
  onUrl : DelegateCall δ
  onVersion : DelegateCall δ
  onStatus : DelegateCall δ
  onHeaderPair : DelegateCall δ
  onHeaderComplete : DelegateCall δ
  onMessageComplete (bufferOffset : Nat) (upgrade : Bool) : DelegateCall δ

variable {δ : Type}

/-- What a parser callback of the rewriter comes to. -/
abbrev Answer (δ : Type) := HttpParser.Reply × RewriterImpl × δ

/-- `return 0` -/
def proceed (r : RewriterImpl) (d : δ) : Checked (Answer δ) := .ok ({}, r, d)

/-- `http_parser_pause(&parser_, 1)` and `return 0` -/
def pauseParser (r : RewriterImpl) (d : δ) : Checked (Answer δ) := .ok ({ paused := true }, r, d)

/-- `ENSURE_CALLBACK(call, -1)` -/
def ensureCallback (call : DelegateCall δ) (r : RewriterImpl) (d : δ)
    (next : RewriterImpl → δ → Checked (Answer δ)) : Checked (Answer δ) := do
  let (success, r, d) ← call r d
  if success then next r d else return ({ code := -1 }, { r with errored := true }, d)

/-! ## The parser's callbacks -/

/-- `OnMessageBegin` -/
def onMessageBegin (r : RewriterImpl) (d : δ) : Checked (Answer δ) := do
  boostAssert (r.state = .init)
  pauseParser { r with
    state := match r.type with | .request => .method | .response => .version
    setToken := true
    stepBack := true } d

/-- The two branches of `OnHeadersComplete` for a header that is still open. -/
def closeLastHeader (delegate : Delegate δ) (nextToken : Nat) (r : RewriterImpl) (d : δ) :
    Checked (Answer δ) :=
  ensureCallback delegate.onHeaderPair { r with nextTokenOffset := nextToken } d fun r d =>
    ensureCallback delegate.onHeaderComplete
      { r with currentTokenOffset := r.nextTokenOffset } d fun r d =>
        .ok ({ code := if r.skipBody then 1 else 0, paused := true }, { r with state := .body }, d)

/-- `OnHeadersComplete` -/
def onHeadersComplete (delegate : Delegate δ) (r : RewriterImpl) (d : δ) : Checked (Answer δ) :=
  match r.state with
  | .headerValue => closeLastHeader delegate (sizeAdd r.currentTokenEndOffset 2) r d
  | .headerField =>
    closeLastHeader delegate r.currentTokenEndOffset
      { r with
        currentHeaderValueOffset := r.currentTokenEndOffset
        currentHeaderValueEndOffset := r.currentTokenEndOffset } d
  | .url | .status =>
    .ok ({ code := if r.skipBody then 1 else 0, paused := true },
      { r with processHeaderComplete := true }, d)
  | _ => .error .assertion

/-- `OnMessageComplete` -/
def onMessageComplete (r : RewriterImpl) (d : δ) : Checked (Answer δ) := do
  boostAssert (r.state = .body)
  pauseParser { r with state := .init, setToken := true, processMessageComplete := true } d

/-- `OnChunkHeader` and `OnChunkComplete` -/
def onChunk (r : RewriterImpl) (d : δ) : Checked (Answer δ) := do
  boostAssert (r.state = .body)
  proceed { r with setToken := true } d

/-- `FindLocation(data)` and its assertion. -/
def findLocation (r : RewriterImpl) (data : BytePtr) : Checked Nat := do
  let location ← r.currentBuffer.findLocation data
  boostAssert (location < r.currentBuffer.size)
  return location

/-- `OnUrl` -/
def onUrl (delegate : Delegate δ) (data : BytePtr) (len : Nat) (r : RewriterImpl) (d : δ) :
    Checked (Answer δ) :=
  match r.state with
  | .url => proceed { r with currentTokenEndOffset := sizeAdd r.currentTokenEndOffset len } d
  | .method => do
    let location ← findLocation r data
    let r := { r with
      nextTokenOffset := location
      currentTokenEndOffset := sizeSub location 1 }
    ensureCallback delegate.onMethod r d fun r d =>
      pauseParser { r with
        currentTokenOffset := r.nextTokenOffset
        currentTokenEndOffset := sizeAdd r.nextTokenOffset len
        state := .url } d
  | _ => .error .assertion

/-- `OnStatus` -/
def onStatus (delegate : Delegate δ) (data : BytePtr) (len : Nat) (r : RewriterImpl) (d : δ) :
    Checked (Answer δ) :=
  match r.state with
  | .version => do
    let location ← findLocation r data
    boostAssert (4 < location)
    let r := { r with
      nextTokenOffset := sizeSub location 4
      currentTokenEndOffset := sizeSub location 5 }
    ensureCallback delegate.onVersion r d fun r d =>
      pauseParser { r with
        currentTokenOffset := r.nextTokenOffset
        currentTokenEndOffset := sizeAdd (sizeAdd r.nextTokenOffset len) 4
        state := .status } d
  | .status => proceed { r with currentTokenEndOffset := sizeAdd r.currentTokenEndOffset len } d
  | _ => .error .assertion

/-- The end of the three branches of `OnHeaderField` that begin a header. -/
def beginHeader (len : Nat) (r : RewriterImpl) (d : δ) : Checked (Answer δ) :=
  pauseParser { r with
    currentTokenOffset := r.nextTokenOffset
    currentTokenEndOffset := sizeAdd r.nextTokenOffset len
    currentHeaderFieldOffset := r.nextTokenOffset
    currentHeaderFieldEndOffset := sizeAdd r.nextTokenOffset len
    state := .headerField } d

/-- `OnHeaderField` -/
def onHeaderField (delegate : Delegate δ) (data : BytePtr) (len : Nat) (r : RewriterImpl)
    (d : δ) : Checked (Answer δ) :=
  match r.state with
  | .url => do
    let location ← findLocation r data
    ensureCallback delegate.onUrl { r with nextTokenOffset := location } d fun r d =>
      let r := { r with
        currentTokenOffset := sizeAdd r.currentTokenEndOffset 1
        currentTokenEndOffset := sizeSub r.nextTokenOffset 2 }
      ensureCallback delegate.onVersion r d fun r d => beginHeader len r d
  | .status => do
    let location ← findLocation r data
    ensureCallback delegate.onStatus { r with nextTokenOffset := location } d fun r d =>
      beginHeader len r d
  | .headerField =>
    proceed { r with
      currentTokenEndOffset := sizeAdd r.currentTokenEndOffset len
      currentHeaderFieldEndOffset := sizeAdd r.currentHeaderFieldEndOffset len } d
  | .headerValue => do
    let location ← findLocation r data
    let r := { r with
      nextTokenOffset := location
      currentHeaderValueEndOffset := r.currentTokenEndOffset }
    ensureCallback delegate.onHeaderPair r d fun r d => beginHeader len r d
  | _ => .error .assertion

/-- `OnHeaderValue` -/
def onHeaderValue (data : BytePtr) (len : Nat) (r : RewriterImpl) (d : δ) : Checked (Answer δ) :=
  match r.state with
  | .headerValue =>
    proceed { r with
      currentTokenEndOffset := sizeAdd r.currentTokenEndOffset len
      currentHeaderValueEndOffset := sizeAdd r.currentHeaderValueEndOffset len } d
  | .headerField => do
    let location ← findLocation r data
    let (start, stop) :=
      if len ≠ 0 then (location, sizeAdd location len)
      else (sizeSub location 2, sizeSub location 2)
    proceed { r with
      currentHeaderValueOffset := start
      currentHeaderValueEndOffset := stop
      currentTokenEndOffset := stop
      state := .headerValue } d
  | _ => .error .assertion

/-- `OnBody` -/
def onBody (r : RewriterImpl) (d : δ) : Checked (Answer δ) := proceed { r with setToken := true } d

/-- `parser_settings_`, for the slice that starts at `data`. -/
def parserSettings (delegate : Delegate δ) (data : BytePtr) (callback : HttpParser.Callback)
    (s : RewriterImpl × δ) : Checked (Answer δ) :=
  match callback with
  | .notify .messageBegin => onMessageBegin s.1 s.2
  | .notify .headersComplete => onHeadersComplete delegate s.1 s.2
  | .notify .messageComplete => onMessageComplete s.1 s.2
  | .notify .chunkHeader | .notify .chunkComplete => onChunk s.1 s.2
  | .data callback start len =>
    let pointer := { data with index := data.index + start }
    match callback with
    | .url => onUrl delegate pointer len s.1 s.2
    | .status => onStatus delegate pointer len s.1 s.2
    | .headerField => onHeaderField delegate pointer len s.1 s.2
    | .headerValue => onHeaderValue pointer len s.1 s.2
    | .body => onBody s.1 s.2

end Rewriter

/-- `HttpMessageStreamRewriter` with its parser and its delegate's state. -/
structure HttpMessageStreamRewriter (δ : Type) where
  parser : HttpParser
  impl : RewriterImpl
  delegate : δ
  deriving DecidableEq, Repr

namespace HttpMessageStreamRewriter

variable {δ : Type}

def make (type : MessageType) (delegate : δ) : HttpMessageStreamRewriter δ :=
  ⟨.init type.parserType, { type }, delegate⟩

/-- `HTTP_PARSER_ERRNO(&parser_)` is `HPE_OK` or `HPE_PAUSED`. -/
def parsing (s : HttpMessageStreamRewriter δ) : Bool :=
  s.parser.httpErrno = .ok ∨ s.parser.httpErrno = .paused

def fail (s : HttpMessageStreamRewriter δ) : HttpMessageStreamRewriter δ :=
  { s with impl.errored := true }

/-- A delegate call whose failure sets `errored_` and leaves the lambda. -/
def ensure (call : DelegateCall δ) (s : HttpMessageStreamRewriter δ)
    (next : HttpMessageStreamRewriter δ → Checked (HttpMessageStreamRewriter δ)) :
    Checked (HttpMessageStreamRewriter δ) := do
  let (success, impl, delegate) ← call s.impl s.delegate
  let s := { s with impl, delegate }
  if success then next s else return s.fail

/-- The end of both branches of `if (process_header_complete_)`. -/
def finishHeaders (delegate : Delegate δ) (s : HttpMessageStreamRewriter δ) :
    Checked (HttpMessageStreamRewriter δ) :=
  let s := { s with impl.currentTokenOffset := sizeSub s.impl.currentBufferOffset 1 }
  ensure delegate.onHeaderComplete s fun s =>
    .ok { s with
      impl.currentTokenOffset := s.impl.currentBufferOffset
      impl.state := .body
      impl.processHeaderComplete := false }

/-- `if (process_header_complete_)`: the message has no header at all. -/
def completeHeaders (delegate : Delegate δ) (s : HttpMessageStreamRewriter δ) :
    Checked (HttpMessageStreamRewriter δ) :=
  match s.impl.state with
  | .url =>
    ensure delegate.onUrl s fun s =>
      let s := { s with
        impl.currentTokenOffset := sizeAdd s.impl.currentTokenEndOffset 1
        impl.currentTokenEndOffset := sizeSub s.impl.currentBufferOffset 3 }
      ensure delegate.onVersion s fun s => finishHeaders delegate s
  | .status => ensure delegate.onStatus s fun s => finishHeaders delegate s
  | _ => .error .assertion

/-- The lambda after `process_message_complete_`. -/
def afterMessage (delegate : Delegate δ) (s : HttpMessageStreamRewriter δ) :
    Checked (HttpMessageStreamRewriter δ) :=
  if ¬s.parsing then .ok s.fail
  else
    let s := { s with impl := s.impl.settleToken }
    if s.impl.processHeaderComplete then completeHeaders delegate s else .ok s

/-- The lambda after `http_parser_execute` returned. -/
def afterExecute (delegate : Delegate δ) (s : HttpMessageStreamRewriter δ) :
    Checked (HttpMessageStreamRewriter δ) :=
  if s.impl.processMessageComplete then
    let upgrade := s.parser.upgrade
    ensure (delegate.onMessageComplete s.impl.currentBufferOffset upgrade) s fun s =>
      if upgrade then .ok { s with impl := { s.impl with stopped := true }.settleToken }
      else afterMessage delegate { s with impl.processMessageComplete := false }
  else afterMessage delegate s

/-- The lambda: one slice is parsed, and the walk ends. -/
def parseSlice (delegate : Delegate δ) (slice : Slice) (s : HttpMessageStreamRewriter δ) :
    Checked (Bool × HttpMessageStreamRewriter δ) := do
  let ((parsed, parser), impl, d) ←
    (HttpParser.execute s.parser slice.bytes).run (parserSettings delegate slice.data)
      (s.impl, s.delegate)
  let impl := { impl with
    currentBufferOffset := sizeAdd impl.currentBufferOffset (throughInt parsed) }
  let s ← afterExecute delegate ⟨parser, impl, d⟩
  return (false, s)

/-- The body of the `while` loop. -/
def parseStep (delegate : Delegate δ) (s : HttpMessageStreamRewriter δ) :
    Checked (HttpMessageStreamRewriter δ) := do
  let parser ← s.parser.pause false
  let s := { s with parser }
  s.impl.currentBuffer.walkInternalChunk (parseSlice delegate) s.impl.currentBufferOffset s

/-- The condition of the `while` loop. -/
def unfinished (s : HttpMessageStreamRewriter δ) : Bool :=
  s.impl.currentBufferOffset ≠ s.impl.currentBuffer.size ∧ ¬s.impl.errored ∧ ¬s.impl.stopped

/-- The `while` loop. -/
def parseLoop (delegate : Delegate δ) :
    Nat → HttpMessageStreamRewriter δ → Checked (HttpMessageStreamRewriter δ)
  | 0, s => if s.unfinished then .error .endlessLoop else .ok s
  | fuel + 1, s =>
    if s.unfinished then do parseLoop delegate fuel (← parseStep delegate s) else .ok s

/-- Each byte takes the parser at most two calls: the LF that ends a header block
is looked at again after `on_headers_complete`. -/
def loopFuel (s : HttpMessageStreamRewriter δ) : Nat := 2 * s.impl.currentBuffer.size + 2

/-- Put the bytes that the last call withheld in front of `buffer`. -/
def carryIn (next : Nat) (buffer : Buffer) (s : HttpMessageStreamRewriter δ) :
    Checked (HttpMessageStreamRewriter δ) :=
  if s.impl.pendingBufferLength ≠ 0 then do
    let length := s.impl.pendingBufferLength
    let pending ← deref s.impl.pendingPreviousBuffer
    let (next, buffer) ← buffer.insertFrontSize next length
    let buffer ← buffer.setData 0 (pending.take length)
    return { s with
      impl.next := next
      impl.currentBuffer := buffer
      impl.currentBufferOffset := length
      impl.pendingBufferLength := 0
      impl.pendingPreviousBuffer := none }
  else
    .ok { s with
      impl.next := next
      impl.currentBuffer := buffer
      impl.currentBufferOffset := 0 }

/-- The error result, when `errored_` is set. -/
def errorResult (s : HttpMessageStreamRewriter δ) : RewriterError :=
  if s.parsing then .userError else .parserError s.parser.httpErrno

/-- Withhold what follows `current_token_offset_`. -/
def withhold (s : HttpMessageStreamRewriter δ) :
    Checked (Except RewriterError Unit × HttpMessageStreamRewriter δ) :=
  let buffer := s.impl.currentBuffer
  let offset := s.impl.currentTokenOffset
  if offset ≠ buffer.size then
    let length := sizeSub buffer.size offset
    let s := { s with impl.pendingBufferLength := length }
    if maxBufferSize < length then .ok (.error .blockTooLong, s)
    else do
      let pending ← buffer.getData offset length
      let buffer ← buffer.shrinkBack length
      let impl := { s.impl with
        pendingPreviousBuffer := some pending
        currentBuffer := buffer
        currentTokenEndOffset := sizeSub s.impl.currentTokenEndOffset offset
        currentHeaderFieldOffset := sizeSub s.impl.currentHeaderFieldOffset offset
        currentHeaderFieldEndOffset := sizeSub s.impl.currentHeaderFieldEndOffset offset
        currentHeaderValueOffset := sizeSub s.impl.currentHeaderValueOffset offset
        currentHeaderValueEndOffset := sizeSub s.impl.currentHeaderValueEndOffset offset
        currentTokenOffset := 0 }
      return (.ok (), { s with impl })
  else .ok (.ok (), s)

/-- `RewriteBuffer(buffer)`. The Buffer handed back is `impl.currentBuffer`. -/
def rewriteBuffer (delegate : Delegate δ) (next : Nat) (buffer : Buffer)
    (s : HttpMessageStreamRewriter δ) :
    Checked (Except RewriterError Unit × HttpMessageStreamRewriter δ) := do
  let s ← carryIn next buffer s
  let s ← parseLoop delegate s.loopFuel s
  if s.impl.errored then return (.error s.errorResult, s)
  else withhold s

end HttpMessageStreamRewriter

end LibNekit.Source
