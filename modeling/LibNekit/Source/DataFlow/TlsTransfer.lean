import LibNekit.Library.Machine
import LibNekit.Source.Crypto.TlsTunnel
import LibNekit.Source.DataFlow.FlowStateMachine

/-!
# A connected TlsDataFlow

`Read`, `Write`, `CloseWrite` and what follows from them in tls_data_flow.cc, over the
tunnel and the next hop. Each request has a number, and so has its Cancelable. The tasks
of the runloop are run in the order in which they were posted.

The next hop is a flow as TcpSocket is: it owes a callback for each operation, an EOF
closes its read side, and an error closes it and is the last that it reports.

A handler that is called in the middle of other code makes no request by itself: requests
come between the callbacks, which takes in those made at the end of a posted task.
-/
namespace LibNekit.Source

open LibNekit.Library Ssl

namespace TlsTransfer

/-- A `utils::Error`. -/
inductive Failure where
  | eof
  | error (code : Nat)
  deriving DecidableEq, Repr

inductive Kind where
  | read | write
  deriving DecidableEq, Repr

/-- A call of a handler, with what `StateMachine()` says then. -/
structure Answer where
  kind : Kind
  request : Nat
  failure : Option Failure
  stateMachine : FlowStateMachine
  deriving DecidableEq, Repr

/-- A task with the Cancelable that it has captured. -/
inductive Posted where
  | read (request cancelable : Nat) (result : Except Nat Bytes)
  | write (request cancelable : Nat)
  deriving DecidableEq

inductive Event where
  | read
  | write (buffer : Chunks)
  | closeWrite
  | cancel (cancelable : Nat)
  /-- The callback of the next hop's `Read`. -/
  | nextRead (result : Except Failure Chunks)
  /-- The callback of the next hop's `Write`. -/
  | nextWritten (failure : Option Nat)
  /-- The runloop runs a task. -/
  | posted

/-- What a call or a callback ends with. -/
inductive Ending where
  | nothing
  | process
  | reportError (failure : Failure) (tryReadFirst : Bool)

end TlsTransfer

/-- The fields from `requests` on are what has been seen from outside: the requests with
their Cancelables, the handlers that were called, what the next hop has written, the
session as the last `WritePlainTextData` left it, and whether the next hop has failed. -/
structure TlsTransfer (σ : Type) where
  stateMachine : FlowStateMachine := { type := .remote, state := .established }
  readHandler : Option Nat := none
  writeHandler : Option Nat := none
  readCancelable : Nat := 0
  writeCancelable : Nat := 0
  errorReported : Bool := false
  pendingError : Option TlsTransfer.Failure := none
  tunnel : TlsTunnel := {}
  session : σ
  posted : List TlsTransfer.Posted := []
  next : FlowStateMachine := { type := .remote, state := .established }
  /-- The Cancelable that the callback of the next hop's `Read` has captured. -/
  nextRead : Option Nat := none
  nextWrite : Option (Nat × Bytes) := none
  requests : List (Nat × Nat) := []
  cancelled : List Nat := []
  answers : List TlsTransfer.Answer := []
  accepted : Bytes := []
  written : σ
  failed : Bool := false

namespace TlsTransfer

variable {σ : Type}

/-! ## Answers -/

def answer (kind : Kind) (request : Nat) (failure : Option Failure) (x : TlsTransfer σ) : TlsTransfer σ :=
  { x with answers := x.answers ++ [⟨kind, request, failure, x.stateMachine⟩] }

/-- `ReadReportError` -/
def readReportError (failure : Failure) (x : TlsTransfer σ) : Bool × TlsTransfer σ :=
  match x.readHandler with
  | some request => (true, { x.answer .read request (some failure) with readHandler := none })
  | none => (false, x)

/-- `WriteReportError` -/
def writeReportError (failure : Failure) (x : TlsTransfer σ) : Bool × TlsTransfer σ :=
  match x.writeHandler with
  | some request => (true, { x.answer .write request (some failure) with writeHandler := none })
  | none => (false, x)

/-- `ReportError` -/
def reportError (failure : Failure) (tryReadFirst : Bool) (x : TlsTransfer σ) : Bool × TlsTransfer σ :=
  let first := if tryReadFirst then x.readReportError failure else x.writeReportError failure
  if first.1 then (true, first.2)
  else if tryReadFirst then first.2.writeReportError failure else first.2.readReportError failure

/-- The failing branch of the callbacks of the next hop. -/
def onFailure (failure : Failure) (tryReadFirst : Bool) (x : TlsTransfer σ) : TlsTransfer σ :=
  let told := x.reportError failure tryReadFirst
  if told.1 then { told.2 with errorReported := true } else { told.2 with pendingError := some failure }

/-! ## Process -/

/-- `TryReadNextHop` -/
def tryReadNextHop (x : TlsTransfer σ) : Checked (TlsTransfer σ) :=
  if x.next.reading then .ok x
  else do
    let next ← x.next.readBegin
    return { x with next, nextRead := some x.readCancelable }

/-- `TryWriteNextHop` -/
def tryWriteNextHop (x : TlsTransfer σ) : Checked (TlsTransfer σ) :=
  if x.next.writing then .ok x
  else if x.tunnel.finishWritingCipherData then .ok x
  else do
    let next ← x.next.writeBegin
    return { x with
      next, tunnel := x.tunnel.readCipherTextData.2, nextWrite := some (x.writeCancelable, x.tunnel.readCipherTextData.1) }

/-- `GetRunloop()->Post(..)` of `TryRead` -/
def postRead (request : Nat) (x : TlsTransfer σ) : TlsTransfer σ :=
  { x with
    tunnel := x.tunnel.readPlainTextData.2, readHandler := none
    posted := x.posted ++ [Posted.read request x.readCancelable x.tunnel.readPlainTextData.1] }

/-- `GetRunloop()->Post(..)` of `TryWrite` -/
def postWrite (request : Nat) (x : TlsTransfer σ) : TlsTransfer σ :=
  { x with posted := x.posted ++ [Posted.write request x.writeCancelable], writeHandler := none }

/-- `TryRead` -/
def tryRead (x : TlsTransfer σ) : Checked (TlsTransfer σ) :=
  match x.readHandler with
  | some request =>
    if x.tunnel.hasPlainTextDataToRead then
      if (x.postRead request).tunnel.needCipherInput then (x.postRead request).tryReadNextHop else .ok (x.postRead request)
    else x.tryReadNextHop
  | none => if x.tunnel.needCipherInput then x.tryReadNextHop else .ok x

/-- `TryWrite` -/
def tryWrite (x : TlsTransfer σ) : Checked (TlsTransfer σ) :=
  match x.tunnel.finishWritingCipherData, x.writeHandler with
  | true, some request => .ok (x.postWrite request)
  | true, none => .ok x
  | false, _ => x.tryWriteNextHop

/-- `Process` -/
def process (x : TlsTransfer σ) : Checked (TlsTransfer σ) :=
  if x.errorReported then .ok x
  else match x.pendingError with
  | some failure =>
    let told := x.reportError failure true
    .ok { told.2 with errorReported := told.1 }
  | none => do
    let x ← x.tryRead
    x.tryWrite

variable {x x' : TlsTransfer σ}

theorem tryReadNextHop_cases (ran : x.tryReadNextHop = .ok x') :
    x' = x ∨ ∃ next, x.next.readBegin = .ok next ∧ x' = { x with next, nextRead := some x.readCancelable } := by
  unfold tryReadNextHop at ran
  split at ran
  · cases ran
    exact Or.inl rfl
  · obtain ⟨next, began, ran⟩ := bind_eq_ok.mp ran
    cases ran
    exact Or.inr ⟨next, began, rfl⟩

theorem tryWriteNextHop_cases (ran : x.tryWriteNextHop = .ok x') :
    x' = x ∨ ∃ next, x.next.writeBegin = .ok next ∧ x' = { x with
      next, tunnel := x.tunnel.readCipherTextData.2,
      nextWrite := some (x.writeCancelable, x.tunnel.readCipherTextData.1) } := by
  unfold tryWriteNextHop at ran
  split at ran
  · cases ran
    exact Or.inl rfl
  · split at ran
    · cases ran
      exact Or.inl rfl
    · obtain ⟨next, began, ran⟩ := bind_eq_ok.mp ran
      cases ran
      exact Or.inr ⟨next, began, rfl⟩

theorem tryRead_cases (ran : x.tryRead = .ok x') :
    ∃ y, (y = x ∨ ∃ request, x.readHandler = some request ∧ y = x.postRead request) ∧ (x' = y ∨ y.tryReadNextHop = .ok x') := by
  unfold tryRead at ran
  split at ran
  · next request waits =>
    split at ran
    · refine ⟨x.postRead request, Or.inr ⟨request, waits, rfl⟩, ?_⟩
      split at ran
      · exact Or.inr ran
      · cases ran
        exact Or.inl rfl
    · exact ⟨x, Or.inl rfl, Or.inr ran⟩
  · split at ran
    · exact ⟨x, Or.inl rfl, Or.inr ran⟩
    · cases ran
      exact ⟨_, Or.inl rfl, Or.inl rfl⟩

theorem tryWrite_cases (ran : x.tryWrite = .ok x') :
    x' = x ∨ (x.tunnel.finishWritingCipherData = true ∧ ∃ request, x.writeHandler = some request ∧ x' = x.postWrite request) ∨
      x.tryWriteNextHop = .ok x' := by
  unfold tryWrite at ran
  split at ran
  · next finished waits =>
    cases ran
    exact Or.inr (Or.inl ⟨finished, _, waits, rfl⟩)
  · cases ran
    exact Or.inl rfl
  · exact Or.inr (Or.inr ran)

/-! ## Requests -/

/-- A number for a request, which is that of its Cancelable if it makes one. -/
def fresh (x : TlsTransfer σ) : Nat := x.requests.length + 1

/-- `Read` up to its call of `Process` -/
def beginRead (x : TlsTransfer σ) : Checked (TlsTransfer σ) := do
  boostAssert (x.errorReported = false)
  let stateMachine ← x.stateMachine.readBegin
  return { x with
    stateMachine, readCancelable := x.fresh, readHandler := some x.fresh, requests := x.requests ++ [(x.fresh, x.fresh)] }

/-- `Write` up to its call of `Process`. The result of `WritePlainTextData` is dropped. -/
def beginWrite (lib : OpenSsl σ) (fuel : Nat) (buffer : Chunks) (x : TlsTransfer σ) : Checked (TlsTransfer σ) := do
  boostAssert (x.errorReported = false)
  let stateMachine ← x.stateMachine.writeBegin
  let (tunnel, session) ← on lib (x.tunnel.writePlainTextData fuel buffer) x.session
  return { x with
    stateMachine, tunnel, session, written := session, writeCancelable := x.fresh, writeHandler := some x.fresh,
    requests := x.requests ++ [(x.fresh, x.fresh)] }

/-- `CloseWrite`, which returns the Cancelable of the last write. -/
def closeWrite (x : TlsTransfer σ) : TlsTransfer σ := { x with requests := x.requests ++ [(x.fresh, x.writeCancelable)] }

/-! ## Callbacks -/

/-- The callback of the next hop's `Read`. -/
def onNextRead (lib : OpenSsl σ) (fuel : Nat) (result : Except Failure Chunks) (cancelable : Nat) (x : TlsTransfer σ) :
    Checked (TlsTransfer σ × Ending) := do
  let next ← x.next.readEnd
  let x := { x with next, nextRead := none }
  match result with
  | .ok buffer =>
    if cancelable ∈ x.cancelled then return (x, .nothing)
    else
      let (tunnel, session) ← on lib (x.tunnel.writeCipherTextData fuel buffer) x.session
      return ({ x with tunnel, session }, .process)
  | .error .eof =>
    let next ← x.next.readClose
    return ({ x with next, failed := true }, if cancelable ∈ x.cancelled then .nothing else .reportError .eof true)
  | .error (.error code) =>
    return ({ x with next := x.next.errored, nextWrite := none, failed := true },
      if cancelable ∈ x.cancelled then .nothing else .reportError (.error code) true)

/-- The callback of the next hop's `Write`. -/
def onNextWritten (failure : Option Nat) (cancelable : Nat) (data : Bytes) (x : TlsTransfer σ) :
    Checked (TlsTransfer σ × Ending) := do
  let next ← x.next.writeEnd
  let x := { x with next, nextWrite := none }
  match failure with
  | none =>
    return ({ x with accepted := x.accepted ++ data }, if cancelable ∈ x.cancelled then .nothing else .process)
  | some code =>
    return ({ x with next := x.next.errored, nextRead := none, failed := true },
      if cancelable ∈ x.cancelled then .nothing else .reportError (.error code) false)

/-- A task that `TryRead` or `TryWrite` has posted. -/
def runPosted (task : Posted) (x : TlsTransfer σ) : Checked (TlsTransfer σ) :=
  match task with
  | .read request cancelable result =>
    if cancelable ∈ x.cancelled then .ok x
    else do
      let stateMachine ← x.stateMachine.readEnd
      match result with
      | .ok _ => return answer .read request none { x with stateMachine }
      | .error code => return answer .read request (some (.error code)) { x with stateMachine := stateMachine.errored }
  | .write request cancelable =>
    if cancelable ∈ x.cancelled then .ok x
    else do
      let stateMachine ← x.stateMachine.writeEnd
      return answer .write request none { x with stateMachine }

/-! ## The machine -/

/-- An event up to what it ends with. -/
def arrive (lib : OpenSsl σ) (fuel : Nat) (e : Event) (x : TlsTransfer σ) : Checked (TlsTransfer σ × Ending) :=
  match e with
  | .read => do
    let x ← x.beginRead
    return (x, .process)
  | .write buffer => do
    let x ← x.beginWrite lib fuel buffer
    return (x, .process)
  | .closeWrite => .ok (x.closeWrite, .nothing)
  | .cancel cancelable => .ok ({ x with cancelled := cancelable :: x.cancelled }, .nothing)
  | .nextRead result =>
    match x.nextRead with
    | some cancelable => x.onNextRead lib fuel result cancelable
    | none => .error .assertion
  | .nextWritten failure =>
    match x.nextWrite with
    | some (cancelable, data) => x.onNextWritten failure cancelable data
    | none => .error .assertion
  | .posted =>
    match x.posted with
    | task :: rest => do
      let x ← runPosted task { x with posted := rest }
      return (x, .nothing)
    | [] => .error .assertion

def finish (ending : Ending) (x : TlsTransfer σ) : Checked (TlsTransfer σ) :=
  match ending with
  | .nothing => .ok x
  | .process => x.process
  | .reportError failure tryReadFirst => .ok (x.onFailure failure tryReadFirst)

def step (lib : OpenSsl σ) (fuel : Nat) (e : Event) (x : TlsTransfer σ) : Checked (TlsTransfer σ) := do
  let (x, ending) ← x.arrive lib fuel e
  x.finish ending

/-- Only what is owed arrives, and only what was handed out is cancelled. Whether a request
is allowed is asserted by the code. -/
def Admits (e : Event) (x : TlsTransfer σ) : Prop :=
  match e with
  | .read | .write _ | .closeWrite => True
  | .cancel cancelable => cancelable ∈ x.requests.map Prod.snd
  | .nextRead _ => x.nextRead.isSome = true
  | .nextWritten _ => x.nextWrite.isSome = true
  | .posted => x.posted ≠ []

instance decidableAdmits (e : Event) (x : TlsTransfer σ) : Decidable (Admits e x) := by
  unfold Admits
  split <;> infer_instance

def machine (lib : OpenSsl σ) (fuel : Nat) : Machine (TlsTransfer σ) Event Fault := ⟨Admits, step lib fuel⟩

instance decidableMachineAdmits (lib : OpenSsl σ) (fuel : Nat) (e : Event) (x : TlsTransfer σ) :
    Decidable ((machine lib fuel).admits e x) :=
  inferInstanceAs (Decidable (Admits e x))

end TlsTransfer

end LibNekit.Source
