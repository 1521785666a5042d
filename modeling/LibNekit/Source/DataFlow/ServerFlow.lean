import LibNekit.Source.Transport.TcpSocket

/-!
# Socks5ServerDataFlow and HttpServerDataFlow in use

`Read`, `Write` and `CloseWrite` of the two servers once they are connected. An operation
is handed to the next hop, whose callback ends it here; a callback that is cancelled does
not come. HttpServerDataFlow hands out its first header by itself and rewrites what it
reads after that; whether the rewriter accepts a Buffer is an input.
-/
namespace LibNekit.Source

open LibNekit.Library TcpSocket

namespace ServerFlow

inductive Server where
  | socks5 | http
  deriving DecidableEq, Repr

/-- Who calls a Read back: the next hop, or the runloop with `first_header_`. -/
inductive ReadKind where
  | next | firstHeader
  deriving DecidableEq, Repr

structure OwedRead where
  kind : ReadKind
  canceled : Bool := false
  deriving DecidableEq, Repr

inductive Event where
  | read | write | closeWrite
  | cancelRead | cancelWrite
  /-- The next hop's `Read`, and whether `RewriteBuffer` takes what it gave. -/
  | readDone (ec : ErrorCode) (rewritten : Bool)
  | firstHeader
  | writeDone (ec : ErrorCode)
  | writeClosed (ec : ErrorCode)
  deriving DecidableEq, Repr

end ServerFlow

open ServerFlow

structure ServerFlow where
  stateMachine : FlowStateMachine
  read : Option OwedRead := none
  write : Option OwedWrite := none
  /-- Whether `first_header_` holds something. -/
  firstHeader : Bool := false
  isConnect : Bool := false
  deriving DecidableEq, Repr

namespace ServerFlow

/-- `read_cancelable_.Cancel()` -/
def cancelRead (s : ServerFlow) : ServerFlow := { s with read := s.read.map fun owed => { owed with canceled := true } }

/-- `write_cancelable_.Cancel()` -/
def cancelWrite (s : ServerFlow) : ServerFlow := { s with write := s.write.map fun owed => { owed with canceled := true } }

/-! ## Calls -/

/-- `Read`. Socks5ServerDataFlow never has a first header. -/
def beginRead (s : ServerFlow) : Checked ServerFlow := do
  let stateMachine ← s.stateMachine.readBegin
  return { s with stateMachine, read := some { kind := if s.firstHeader then .firstHeader else .next } }

/-- `Write` -/
def beginWrite (s : ServerFlow) : Checked ServerFlow := do
  let stateMachine ← s.stateMachine.writeBegin
  return { s with stateMachine, write := some { kind := .write } }

/-- `CloseWrite` -/
def closeWrite (s : ServerFlow) : Checked ServerFlow := do
  let stateMachine ← s.stateMachine.writeCloseBegin
  return { s with stateMachine, write := some { kind := .closeWrite } }

/-! ## Callbacks

Each returns what the handler is told; `none` when it is not called. -/

/-- The callback of the next hop's `Read`, where `rewritten` says what becomes of a Buffer. -/
def readDone (ec : ErrorCode) (rewritten : Bool) (s : ServerFlow) : Checked (ServerFlow × Report) := do
  let owed ← deref s.read
  let s := { s with read := none }
  if owed.canceled then return (s, none)
  let stateMachine ← s.stateMachine.readEnd
  match ec with
  | none =>
    if rewritten then return ({ s with stateMachine }, some none)
    else return ({ s with stateMachine := stateMachine.errored }, some (some .other))
  | some .endOfFile => do
    let stateMachine ← stateMachine.readClose
    return ({ s with stateMachine }, some (some .endOfFile))
  | some .other => return ({ s with stateMachine := stateMachine.errored }.cancelWrite, some (some .other))

/-- The callback in `Socks5ServerDataFlow::Read` -/
def socks5ReadDone (ec : ErrorCode) (s : ServerFlow) : Checked (ServerFlow × Report) := s.readDone ec true

/-- The callback in `HttpServerDataFlow::Read`. What follows a CONNECT is not rewritten. -/
def httpReadDone (ec : ErrorCode) (rewritten : Bool) (s : ServerFlow) : Checked (ServerFlow × Report) :=
  s.readDone ec (s.isConnect || rewritten)

/-- The task in `HttpServerDataFlow::Read` -/
def onFirstHeader (s : ServerFlow) : Checked (ServerFlow × Report) := do
  let owed ← deref s.read
  let s := { s with read := none }
  if owed.canceled then return (s, none)
  let stateMachine ← s.stateMachine.readEnd
  return ({ s with stateMachine, firstHeader := false }, some none)

/-- The callback of the next hop's `Write`. Only Socks5ServerDataFlow cancels its Read
when that failed. -/
def writeDone (server : Server) (ec : ErrorCode) (s : ServerFlow) : Checked (ServerFlow × Report) := do
  let owed ← deref s.write
  let s := { s with write := none }
  if owed.canceled then return (s, none)
  let stateMachine ← s.stateMachine.writeEnd
  match ec, server with
  | none, _ => return ({ s with stateMachine }, some none)
  | some error, .socks5 => return ({ s with stateMachine := stateMachine.errored }.cancelRead, some (some error))
  | some error, .http => return ({ s with stateMachine := stateMachine.errored }, some (some error))

/-- The callback of the next hop's `CloseWrite` -/
def writeClosed (ec : ErrorCode) (s : ServerFlow) : Checked (ServerFlow × Report) := do
  let owed ← deref s.write
  let s := { s with write := none }
  if owed.canceled then return (s, none)
  let stateMachine ← s.stateMachine.writeCloseEnd
  match ec with
  | none => return ({ s with stateMachine }, some none)
  | some error => return ({ s with stateMachine := stateMachine.errored }, some (some error))

/-! ## The machines -/

/-- What the handler of a Read is told by an event. -/
def readReport (server : Server) (e : Event) (s : ServerFlow) : Checked (ServerFlow × Report) :=
  match e, server with
  | .readDone ec _, .socks5 => s.socks5ReadDone ec
  | .readDone ec rewritten, .http => s.httpReadDone ec rewritten
  | .firstHeader, _ => s.onFirstHeader
  | _, _ => .error .assertion

def step (server : Server) (e : Event) (s : ServerFlow) : Checked ServerFlow :=
  match e with
  | .read => s.beginRead
  | .write => s.beginWrite
  | .closeWrite => s.closeWrite
  | .cancelRead => .ok s.cancelRead
  | .cancelWrite => .ok s.cancelWrite
  | .readDone .. | .firstHeader => return (← s.readReport server e).1
  | .writeDone ec => return (← s.writeDone server ec).1
  | .writeClosed ec => return (← s.writeClosed ec).1

/-- The guards are asked before a call, and whatever is owed may arrive. -/
def Admits (e : Event) (s : ServerFlow) : Prop :=
  match e with
  | .read => s.stateMachine.isReadable = true
  | .write => s.stateMachine.isWritable = true
  | .closeWrite => s.stateMachine.isWriteClosable = true
  | .cancelRead | .cancelWrite => True
  | .readDone .. => s.read.map OwedRead.kind = some .next
  | .firstHeader => s.read.map OwedRead.kind = some .firstHeader
  | .writeDone _ => s.write.map OwedWrite.kind = some .write
  | .writeClosed _ => s.write.map OwedWrite.kind = some .closeWrite

def machine (server : Server) : Machine ServerFlow Event Fault := ⟨Admits, step server⟩

end ServerFlow

end LibNekit.Source
