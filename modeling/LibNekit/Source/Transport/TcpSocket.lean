import LibNekit.Library.Machine
import LibNekit.Source.DataFlow.FlowStateMachine

/-!
# TcpSocket

tcp_socket.cc as calls and completions. An operation that has been issued is owed
one callback by the run loop. The callback looks at its `Cancelable` first, so an
owed callback is represented by whether that has been cancelled.

The bytes are the operating system's business and not part of this model; the
errors are what `ConvertBoostError` makes of them.
-/
namespace LibNekit.Source

open LibNekit.Library

namespace TcpSocket

/-- The error of a completion. -/
inductive IoError where
  | endOfFile | other
  deriving DecidableEq, Repr

/-- `error_code`, where `none` is no error. -/
abbrev ErrorCode := Option IoError

/-- An owed callback. -/
structure Owed where
  canceled : Bool := false
  deriving DecidableEq, Repr

inductive WriteKind where
  | write | closeWrite
  deriving DecidableEq, Repr

/-- `write_cancelable_` serves both kinds; `IsWritable` and `IsWriteClosable` leave
room for one of them. -/
structure OwedWrite where
  kind : WriteKind
  canceled : Bool := false
  deriving DecidableEq, Repr

end TcpSocket

open TcpSocket

structure TcpSocket where
  stateMachine : FlowStateMachine
  read : Option Owed := none
  write : Option OwedWrite := none
  /-- The callbacks that `Open`, `Continue` and `Connect` have posted. -/
  opening : Option Owed := none
  continuing : Option Owed := none
  connecting : Option Owed := none
  deriving DecidableEq, Repr

namespace TcpSocket

/-- An accepted socket, and one that is going to connect. -/
def accepted : TcpSocket := { stateMachine := { type := .local } }

def unconnected : TcpSocket := { stateMachine := { type := .remote } }

/-- `read_cancelable_.Cancel()` -/
def cancelRead (s : TcpSocket) : TcpSocket :=
  { s with read := s.read.map fun _ => { canceled := true } }

/-- `write_cancelable_.Cancel()` -/
def cancelWrite (s : TcpSocket) : TcpSocket :=
  { s with write := s.write.map fun owed => { owed with canceled := true } }

/-- `~TcpSocket()` -/
def destroy (s : TcpSocket) : TcpSocket :=
  { (s.cancelRead.cancelWrite) with
    opening := s.opening.map fun _ => { canceled := true }
    continuing := s.continuing.map fun _ => { canceled := true }
    connecting := s.connecting.map fun _ => { canceled := true } }

/-! ## Calls -/

/-- `Open(handler)` -/
def «open» (s : TcpSocket) : Checked TcpSocket := do
  let stateMachine ← s.stateMachine.connectBegin
  return { s with stateMachine, opening := some {} }

/-- `Continue(handler)` -/
def «continue» (s : TcpSocket) : Checked TcpSocket := .ok { s with continuing := some {} }

/-- `Connect(endpoint, handler)`. The `TcpConnector` reports later. -/
def connect (s : TcpSocket) : Checked TcpSocket := do
  let stateMachine ← s.stateMachine.connectBegin
  return { s with stateMachine, connecting := some {} }

/-- `Read(handler)` -/
def beginRead (s : TcpSocket) : Checked TcpSocket := do
  let stateMachine ← s.stateMachine.readBegin
  return { s with stateMachine, read := some {} }

/-- `Write(buffer, handler)` -/
def beginWrite (s : TcpSocket) : Checked TcpSocket := do
  let stateMachine ← s.stateMachine.writeBegin
  return { s with stateMachine, write := some { kind := .write } }

/-- `CloseWrite(handler)`. What `shutdown` returned is reported with the callback. -/
def closeWrite (s : TcpSocket) : Checked TcpSocket := do
  let stateMachine ← s.stateMachine.writeCloseBegin
  return { s with stateMachine, write := some { kind := .closeWrite } }

/-! ## Completions

Each returns what the handler is told; `none` when it is not called. -/

abbrev Report := Option ErrorCode

/-- The callback of `Open`. -/
def onOpened (s : TcpSocket) : Checked (TcpSocket × Report) := do
  let owed ← deref s.opening
  let s := { s with opening := none }
  return (s, if owed.canceled then none else some none)

/-- The callback of `Continue`. -/
def onContinued (s : TcpSocket) : Checked (TcpSocket × Report) := do
  let owed ← deref s.continuing
  let s := { s with continuing := none }
  if owed.canceled then return (s, none)
  let stateMachine ← s.stateMachine.connected
  return ({ s with stateMachine }, some none)

/-- The callback that `Connect` gives to the connector. -/
def onConnected (ec : ErrorCode) (s : TcpSocket) : Checked (TcpSocket × Report) := do
  let owed ← deref s.connecting
  let s := { s with connecting := none }
  if owed.canceled then return (s, none)
  match ec with
  | none => do
    let stateMachine ← s.stateMachine.connected
    return ({ s with stateMachine }, some none)
  | some error => return ({ s with stateMachine := s.stateMachine.errored }, some (some error))

/-- The callback of `async_read_some`. -/
def onRead (ec : ErrorCode) (s : TcpSocket) : Checked (TcpSocket × Report) := do
  let owed ← deref s.read
  let s := { s with read := none }
  if owed.canceled then return (s, none)
  let stateMachine ← s.stateMachine.readEnd
  match ec with
  | none => return ({ s with stateMachine }, some none)
  | some .endOfFile => do
    let stateMachine ← stateMachine.readClose
    return ({ s with stateMachine }, some (some .endOfFile))
  | some .other =>
    return ({ s with stateMachine := stateMachine.errored }.cancelWrite, some (some .other))

/-- The callback of `async_write`. -/
def onWritten (ec : ErrorCode) (s : TcpSocket) : Checked (TcpSocket × Report) := do
  let owed ← deref s.write
  let s := { s with write := none }
  if owed.canceled then return (s, none)
  let stateMachine ← s.stateMachine.writeEnd
  match ec with
  | none => return ({ s with stateMachine }, some none)
  | some error =>
    return ({ s with stateMachine := stateMachine.errored }.cancelRead, some (some error))

/-- The callback that `CloseWrite` posts. -/
def onWriteClosed (ec : ErrorCode) (s : TcpSocket) : Checked (TcpSocket × Report) := do
  let owed ← deref s.write
  let s := { s with write := none }
  if owed.canceled then return (s, none)
  let stateMachine ← s.stateMachine.writeCloseEnd
  return ({ s with stateMachine }, some ec)

/-! ## Runs of an accepted socket -/

inductive Call where
  | «open» | «continue» | read | write | closeWrite
  deriving DecidableEq, Repr

inductive Event where
  | call (call : Call)
  | opened
  | continued
  | readDone (ec : ErrorCode)
  | writeDone (ec : ErrorCode)
  | writeClosed (ec : ErrorCode)
  deriving DecidableEq, Repr

/-- How far the owner of the socket has come. -/
inductive Progress where
  | created | opened | continued
  deriving DecidableEq, Repr

/-- A socket and its owner. -/
structure Owned where
  socket : TcpSocket
  progress : Progress := .created
  deriving DecidableEq, Repr

def Owned.call (o : Owned) : Call → Checked Owned
  | .open => return { socket := ← o.socket.open, progress := .opened }
  | .continue => return { socket := ← o.socket.continue, progress := .continued }
  | .read => return { o with socket := ← o.socket.beginRead }
  | .write => return { o with socket := ← o.socket.beginWrite }
  | .closeWrite => return { o with socket := ← o.socket.closeWrite }

def Owned.step (e : Event) (o : Owned) : Checked Owned :=
  match e with
  | .call c => o.call c
  | .opened => return { o with socket := (← o.socket.onOpened).1 }
  | .continued => return { o with socket := (← o.socket.onContinued).1 }
  | .readDone ec => return { o with socket := (← o.socket.onRead ec).1 }
  | .writeDone ec => return { o with socket := (← o.socket.onWritten ec).1 }
  | .writeClosed ec => return { o with socket := (← o.socket.onWriteClosed ec).1 }

/-- `Open` and `Continue` are called in order, and the guards are asked before every
other call. Whatever is owed may arrive. -/
def Owned.Admits (e : Event) (o : Owned) : Prop :=
  match e with
  | .call .open => o.progress = .created
  | .call .continue => o.progress = .opened
  | .call .read => o.socket.stateMachine.isReadable = true
  | .call .write => o.socket.stateMachine.isWritable = true
  | .call .closeWrite => o.socket.stateMachine.isWriteClosable = true
  | .opened => o.socket.opening.isSome
  | .continued => o.socket.continuing.isSome
  | .readDone _ => o.socket.read.isSome
  | .writeDone _ => o.socket.write.map OwedWrite.kind = some .write
  | .writeClosed _ => o.socket.write.map OwedWrite.kind = some .closeWrite

instance (e : Event) (o : Owned) : Decidable (o.Admits e) := by
  unfold Owned.Admits
  split <;> infer_instance

def machine : Machine Owned Event Fault := ⟨fun e o => o.Admits e, Owned.step⟩

instance (e : Event) (o : Owned) : Decidable (machine.admits e o) :=
  inferInstanceAs (Decidable (o.Admits e))

end TcpSocket

end LibNekit.Source
