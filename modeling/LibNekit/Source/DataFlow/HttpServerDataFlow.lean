import LibNekit.Library.Machine
import LibNekit.Source.Rewriter.Model
import LibNekit.Source.ThirdParty.HttpParser.Url
import LibNekit.Source.Utils.Endpoint

/-!
# HttpServerDataFlow

The delegate that http_server_data_flow.cc gives its rewriter, and what becomes of the
Buffers it has rewritten. `url_parser_` holds nothing between two callbacks and is not
a field here; a session is its endpoint.
-/
namespace LibNekit.Source

open LibNekit.Library Rewriter HttpParser

/-- The data members that the callbacks use. -/
structure HttpServerDataFlow where
  isConnect : Bool := false
  hasReadMethod : Bool := false
  readingFirstHeader : Bool := true
  firstHeaderOffset : Nat := 0
  endpoint : Option Endpoint := none
  deriving DecidableEq, Repr

namespace HttpServerDataFlow

variable (text : AddressText)

/-- `std::toupper` in the classic locale -/
def upper (c : UInt8) : UInt8 := if byte 'a' ≤ c ∧ c ≤ byte 'z' then c - 32 else c

/-- `boost::iequals` -/
def iequals (a b : Bytes) : Bool := a.map upper = b.map upper

/-! ## The delegate's callbacks -/

/-- `OnMethod`, with the token that it reads for the first request -/
def onMethod (token : Bytes) (f : HttpServerDataFlow) : HttpServerDataFlow :=
  if f.hasReadMethod then f
  else { f with hasReadMethod := true, isConnect := f.isConnect || token = ascii "CONNECT" }

/-- `OnUrl` of a CONNECT request -/
def onConnectUrl (token : Bytes) (f : HttpServerDataFlow) : Checked (Bool × HttpServerDataFlow) := do
  boostAssert f.readingFirstHeader
  match parseUrl token true with
  | none => return (false, f)
  | some u =>
    if ¬(u.hasFrom .host ∧ u.hasFrom .port) then return (false, f)
    else return (true, { f with endpoint := some (.ofHost text (u.text .host token) u.port) })

/-- `new_url`. It is made from a pointer, so it would end at a NUL. -/
def newUrl (u : HttpParserUrl) (token : Bytes) : Bytes :=
  if u.hasFrom .path then (token.drop u.path.off).takeWhile fun c => c ≠ 0 else ascii "/"

/-- The port of an absolute URL. -/
def portOf (u : HttpParserUrl) (token : Bytes) : Nat :=
  if u.hasFrom .port then if u.port ≠ 0 then u.port else 80
  else if u.hasFrom .schema then if iequals (ascii "https") (u.text .schema token) then 443 else 80
  else 80

/-- `OnUrl` of any other request: what it returns, the token it writes, and the flow. -/
def onPlainUrl (token : Bytes) (f : HttpServerDataFlow) : Bool × Option Bytes × HttpServerDataFlow :=
  match parseUrl token false with
  | none => (false, none, f)
  | some u =>
    if f.readingFirstHeader then
      if ¬u.hasFrom .host then (false, none, f)
      else (true, some (newUrl u token),
        { f with endpoint := some (.ofHost text (u.text .host token) (portOf u token)) })
    else (true, some (newUrl u token), f)

/-- `OnMessageComplete` -/
def onMessageComplete (bufferOffset : Nat) (f : HttpServerDataFlow) : HttpServerDataFlow :=
  { f with firstHeaderOffset := bufferOffset, readingFirstHeader := false }

/-- `OnHeaderPair` -/
def onHeaderPair : DelegateCall HttpServerDataFlow := fun r f => do
  if f.isConnect then return (true, r, f)
  let header ← r.currentHeader
  let r ← if iequals header.1 (ascii "Proxy-Authorization") then r.deleteCurrentHeader else pure r
  let header ← r.currentHeader
  let r ← if iequals header.1 (ascii "Proxy-Connection") then r.rewriteCurrentHeader (ascii "Connection", header.2)
    else pure r
  return (true, r, f)

/-- `HttpServerHeaderRewriterDelegate` -/
def delegate : Delegate HttpServerDataFlow where
  onMethod := fun r f => do
    if f.hasReadMethod then return (true, r, f)
    let token ← r.currentToken
    return (true, r, f.onMethod token)
  onUrl := fun r f => do
    let token ← r.currentToken
    if f.isConnect then
      let (success, f) ← f.onConnectUrl text token
      return (success, r, f)
    else
      let (success, new, f) := f.onPlainUrl text token
      match new with
      | some url => return (success, ← r.rewriteCurrentToken url, f)
      | none => return (success, r, f)
  onVersion := fun r f => .ok (true, r, f)
  onStatus := fun r f => .ok (true, r, f)
  onHeaderPair := onHeaderPair
  onHeaderComplete := fun r f => .ok (true, r, f)
  onMessageComplete := fun bufferOffset _ r f => .ok (true, r, f.onMessageComplete bufferOffset)

/-! ## The reads -/

/-- What the callback of `NegotiateRead` does with a Buffer that was rewritten. -/
inductive Negotiated where
  /-- `NegotiateRead()` -/
  | again
  | dataBeforeConnectRequestFinish
  /-- `handler_({})` -/
  | opened
  deriving DecidableEq, Repr

/-- The rest of that callback; the flag says whether the Buffer goes to `first_header_`. -/
def negotiated (size : Nat) (f : HttpServerDataFlow) : Bool × Negotiated :=
  if f.hasReadMethod ∧ f.isConnect then
    if f.readingFirstHeader then (false, .again)
    else if size ≠ f.firstHeaderOffset then (false, .dataBeforeConnectRequestFinish)
    else (false, .opened)
  else (true, if f.readingFirstHeader then .again else .opened)

/-! ## The response -/

def connectResponseHeader : Bytes := ascii "HTTP/1.1 200 Connection Established\r\n\r\n"

/-- What `Continue` writes before it continues the next hop. -/
def continueResponse (f : HttpServerDataFlow) : Option Bytes := if f.isConnect then some connectResponseHeader else none

end HttpServerDataFlow

/-! ## A client's connection -/

namespace ClientConnection

/-- What the rewriter tells the flow about the requests in a Buffer, and how it ends. -/
inductive Event where
  | method (token : Bytes)
  | url (token : Bytes)
  | headerPair
  | messageComplete (bufferOffset : Nat)
  /-- `RewriteBuffer` returned without an error. -/
  | rewritten
  /-- `RewriteBuffer` returned an error. -/
  | failed
  deriving DecidableEq, Repr

end ClientConnection

/-- The flow with the URLs that it has accepted. Those in `seen` belong to the Buffer that
is being rewritten, and those in `handed` to Buffers that `Read` gave, or will give, to
the tunnel. `named` says whether the request under way has had its URL. -/
structure ClientConnection where
  flow : HttpServerDataFlow := {}
  named : Bool := false
  seen : List Bytes := []
  handed : List Bytes := []
  errored : Bool := false
  deriving DecidableEq, Repr

namespace ClientConnection

variable (text : AddressText)

/-- `OnUrl`, with what it adds to the Buffer. -/
def onUrl (token : Bytes) (s : ClientConnection) : Checked ClientConnection := do
  let (success, flow) ←
    if s.flow.isConnect then s.flow.onConnectUrl text token
    else
      let (success, _, flow) := s.flow.onPlainUrl text token
      pure (success, flow)
  if success then return { s with flow, named := true, seen := s.seen ++ [token] }
  else return { s with flow, errored := true }

def step : Event → ClientConnection → Checked ClientConnection
  | .method token, s => .ok { s with flow := s.flow.onMethod token }
  | .url token, s => s.onUrl text token
  | .headerPair, s => .ok s
  | .messageComplete bufferOffset, s =>
    .ok { s with flow := s.flow.onMessageComplete bufferOffset, named := false }
  -- the bytes of a CONNECT request go nowhere
  | .rewritten, s => .ok { s with handed := if s.flow.isConnect then s.handed else s.handed ++ s.seen, seen := [] }
  | .failed, s => .ok { s with errored := true }

/-- The requests are no CONNECT requests, each has one URL, and nothing is read behind
an error. -/
def Admits (e : Event) (s : ClientConnection) : Prop :=
  s.errored = false ∧
    match e with
    | .method token => s.flow.hasReadMethod = true ∨ token ≠ ascii "CONNECT"
    | .url _ => s.named = false
    | .messageComplete _ => s.named = true
    | _ => True

instance decidableAdmits (s : ClientConnection) : (e : Event) → Decidable (Admits e s)
  | .method token =>
    inferInstanceAs (Decidable (s.errored = false ∧ (s.flow.hasReadMethod = true ∨ token ≠ ascii "CONNECT")))
  | .url _ => inferInstanceAs (Decidable (s.errored = false ∧ s.named = false))
  | .messageComplete _ => inferInstanceAs (Decidable (s.errored = false ∧ s.named = true))
  | .headerPair | .rewritten | .failed => inferInstanceAs (Decidable (s.errored = false ∧ True))

def machine : Machine ClientConnection Event Fault where
  admits := Admits
  step := step text

end ClientConnection

end LibNekit.Source
