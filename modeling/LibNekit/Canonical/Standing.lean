import LibNekit.Canonical.Editing
import LibNekit.Source.ThirdParty.HttpParser.Loop

/-!
# Where the rewriter stands in a stream

`Stands` is the rewriter while the parser is inside a slice: the delegate has been
told everything that was complete at `p`, and the offsets describe the phase. `Leaves`
is the same when the parser returns, where an edit may have moved the Buffer under the
slice. Between two calls of the parser the two agree.
-/
namespace LibNekit.Canonical

open LibNekit.Source LibNekit.Source.Rewriter LibNekit.Source.HttpParser LibNekit.Library

variable {δ : Type}

/-! ## The offsets of a phase -/

def Line.state : Line → State
  | .request _ _ => .url
  | .status _ => .status
  | .header _ => .headerValue

/-- Where the last reported element of a line ends in its text. -/
def Line.tokenEnd : Line → Nat
  | .request target _ => target.length
  | .status text => text.length
  | .header line => line.text.length

def HeaderLine.valueStart (line : HeaderLine) : Nat := line.text.length - line.value.length

namespace Phase

def state : Phase → State
  | .idle => .init
  | .method _ | .target _ => .method
  | .url _ | .version _ _ => .url
  | .resVersion _ | .code _ _ | .reason _ _ => .version
  | .status _ => .status
  | .lineCr line | .lineEnd line | .lastCr line => line.state
  | .name _ | .blanks _ _ | .emptyCr _ _ | .emptyEnd _ _ => .headerField
  | .value _ _ _ => .headerValue
  | .headersDone _ | .body => .body
  | .stopped => .init

/-- The phases in which an element is under way: its first byte is the current token. -/
def inToken : Phase → Bool
  | .idle | .headersDone _ | .body | .stopped => false
  | _ => true

theorem held_of_outside {phase : Phase} (outside : phase.inToken = false) : phase.held = [] := by
  cases phase with
  | idle | headersDone lag | body | stopped => rfl
  | _ => cases outside

/-- The element that the phase reads into, which `http_parser` marks. -/
def mark : Phase → Option DataCallback
  | .url _ => some .url
  | .status _ => some .status
  | .name _ => some .headerField
  | .value _ _ _ => some .headerValue
  | _ => none

/-- `current_token_end_offset_`, from the token's first byte on. -/
def tokenEnd : Phase → Option Nat
  | .url u | .version u _ => some u.length
  | .status text => some text.length
  | .lineCr line | .lineEnd line | .lastCr line => some line.tokenEnd
  | .name n | .blanks n _ | .emptyCr n _ | .emptyEnd n _ => some n.length
  | .value n b v => some (HeaderLine.text ⟨n, b, v⟩).length
  | _ => none

/-- The header line that is under way or complete. -/
def header : Phase → Option HeaderLine
  | .name n => some ⟨n, [], []⟩
  | .blanks n b | .emptyCr n b | .emptyEnd n b => some ⟨n, b, []⟩
  | .value n b v => some ⟨n, b, v⟩
  | .lineCr (.header line) | .lineEnd (.header line) | .lastCr (.header line) => some line
  | _ => none

/-- The header line whose value has been reported. -/
def valued : Phase → Option HeaderLine
  | .value n b v => some ⟨n, b, v⟩
  | .lineCr (.header line) | .lineEnd (.header line) | .lastCr (.header line) => some line
  | _ => none

end Phase

/-- The rewriter's offsets, for a phase whose token starts at `base`. -/
structure Offsets (r : RewriterImpl) (base : Nat) (phase : Phase) : Prop where
  state : r.state = phase.state
  token : phase.inToken → r.currentTokenOffset = base ∧ r.setToken = false
  tokenEnd : ∀ e ∈ phase.tokenEnd, r.currentTokenEndOffset = base + e
  field : ∀ line ∈ phase.header, r.currentHeaderFieldOffset = base ∧
    r.currentHeaderFieldEndOffset = base + line.name.length
  value : ∀ line ∈ phase.valued, r.currentHeaderValueOffset = base + line.valueStart ∧
    r.currentHeaderValueEndOffset = base + line.text.length

/-- Nothing is left over for the code behind the parser's call. -/
structure Calm (setup : Setup) (r : RewriterImpl) : Prop where
  errored : r.errored = false
  stopped : r.stopped = false
  processHeaderComplete : r.processHeaderComplete = false
  processMessageComplete : r.processMessageComplete = false
  stepBack : r.stepBack = false
  skipBody : r.skipBody = setup.skipBody
  pendingBufferLength : r.pendingBufferLength = 0
  pendingPreviousBuffer : r.pendingPreviousBuffer = none
  type : r.type.parserType = setup.type

/-- An update of the Buffer or of offsets leaves the rest alone. -/
theorem Calm.congr {setup : Setup} {r r' : RewriterImpl} (calm : Calm setup r)
    (same : (r'.errored, r'.stopped, r'.processHeaderComplete, r'.processMessageComplete, r'.stepBack,
        r'.skipBody, r'.pendingBufferLength, r'.pendingPreviousBuffer, r'.type) =
      (r.errored, r.stopped, r.processHeaderComplete, r.processMessageComplete, r.stepBack,
        r.skipBody, r.pendingBufferLength, r.pendingPreviousBuffer, r.type)) : Calm setup r' := by
  simp only [Prod.mk.injEq] at same
  obtain ⟨errored, stopped, header, message, stepBack, skipBody, length, pending, type⟩ := same
  exact ⟨errored.trans calm.errored, stopped.trans calm.stopped,
    header.trans calm.processHeaderComplete, message.trans calm.processMessageComplete,
    stepBack.trans calm.stepBack, skipBody.trans calm.skipBody, length.trans calm.pendingBufferLength,
    pending.trans calm.pendingPreviousBuffer, (congrArg _ type).trans calm.type⟩

/-! ## Between two calls of the parser -/

/-- The Buffer is what has been put out, what the phase holds, and `unread`. -/
structure Rests (setup : Setup) (r : RewriterImpl) (g : Draft δ) (phase : Phase) (unread : Bytes) :
    Prop where
  wf : r.currentBuffer.WellFormed
  below : r.currentBuffer.Below r.next
  content : r.currentBuffer.content = g.out ++ phase.held ++ unread
  offset : r.currentBufferOffset = g.out.length + phase.held.length
  fits : phase.held.length + unread.length < 2 ^ 62
  small : g.out.length < 2 ^ 63
  offsets : Offsets r g.out.length phase
  calm : Calm setup r
  lag : ∀ lag, phase = .headersDone lag →
    unread.head? = some lf ∧ lag ≤ 1 ∧ r.currentTokenOffset + lag = g.out.length

/-- `current_buffer_offset_ += parsed`, and the token if it is to be set. -/
def finish (n : Nat) (r : RewriterImpl) : RewriterImpl :=
  { r with currentBufferOffset := sizeAdd r.currentBufferOffset n }.settleToken

/-! ## The parser -/

/-- The states that a phase may be read in. -/
def Phase.Has (state : ParserState) : Phase → Prop
  | .idle => state = .startReq ∨ state = .startRes ∨ state = .dead
  | .method _ => state = .reqMethod
  | .target _ => state = .reqSpacesBeforeUrl
  | .url _ => entryMark state = some .url
  | .version _ _ => state = .reqHttpStart ∨ state = .reqHttpH ∨ state = .reqHttpHT ∨
      state = .reqHttpHTT ∨ state = .reqHttpHTTP ∨ state = .reqHttpMajor ∨ state = .reqHttpDot ∨
      state = .reqHttpMinor ∨ state = .reqHttpEnd
  | .resVersion _ => state = .resH ∨ state = .resHT ∨ state = .resHTT ∨ state = .resHTTP ∨
      state = .resHttpMajor ∨ state = .resHttpDot ∨ state = .resHttpMinor ∨ state = .resHttpEnd
  | .code _ k => (state = .resFirstStatusCode ∧ k = []) ∨ state = .resStatusCode
  | .reason _ k => state = .resStatusStart ∧ k.length = 3
  | .status _ => state = .resStatus
  | .lineCr (.request _ _) => state = .reqLineAlmostDone
  | .lineCr (.status _) => state = .resLineAlmostDone
  | .lineCr (.header _) => state = .headerAlmostDone
  | .lineEnd (.header _) => state = .headerValueLws
  | .lineEnd _ => state = .headerFieldStart
  | .lastCr _ => state = .headersAlmostDone
  | .name _ => state = .headerField
  | .blanks _ _ => state = .headerValueDiscardWs
  | .value _ _ _ => state = .headerValue
  | .emptyCr _ _ => state = .headerValueDiscardWsAlmostDone
  | .emptyEnd _ _ => state = .headerValueDiscardLws
  | .headersDone _ => state = .headersDone
  | .body => state = .bodyIdentity ∨ state = .bodyIdentityEof ∨ state = .chunkSizeStart ∨
      state = .chunkSize ∨ state = .chunkParameters ∨ state = .chunkSizeAlmostDone ∨
      state = .chunkData ∨ state = .chunkDataAlmostDone ∨ state = .chunkDataDone ∨
      state = .headerFieldStart ∨ state = .headersAlmostDone
  | .stopped => True

namespace Reader

/-- A phase and the parser belong together. -/
structure Meets (type : ParserType) (phase : Phase) (parser : HttpParser) : Prop where
  has : phase.Has parser.state
  clear : parser.httpErrno = .ok
  trailing : phase.inToken → parser.flags.trailing = false
  type : parser.type = type
  idle : phase = .idle → parser.state = parser.startState ∨ parser.state = .dead

/-- What every reader that can be reached satisfies. -/
structure Sound (setup : Setup) (l : Reader) : Prop where
  meets : Meets setup.type l.phase l.parser
  count : l.count ≤ setup.limit
  chunk : l.phase = .body → l.parser.state = .chunkSizeStart → l.count = 0
  begun : l.phase.inToken = true → 0 < l.count

end Reader

end LibNekit.Canonical
