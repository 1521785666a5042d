import LibNekit.Source.Runtime

/-!
# FlowStateMachine

The state every data flow exposes. Each operation keeps the source's assertions:
an operation that is not allowed has no result.
-/
namespace LibNekit.Source

inductive FlowState where
  | init | closed | establishing | established | closing
  deriving DecidableEq, Repr

inductive FlowType where
  | «local» | remote
  deriving DecidableEq, Repr

structure FlowStateMachine where
  type : FlowType
  state : FlowState := .init
  reading : Bool := false
  writing : Bool := false
  readClosed : Bool := false
  writeClosing : Bool := false
  writeClosed : Bool := false
  deriving DecidableEq, Repr

namespace FlowStateMachine

/-- The condition `IsReadable` and `IsWritable` share, with the test they make in
`Closing`. -/
def openFor (m : FlowStateMachine) (closingTest : Bool) : Bool :=
  (m.type == .local && m.state == .establishing) || m.state == .established ||
    (m.state == .closing && closingTest)

def isReadable (m : FlowStateMachine) : Bool := !m.reading && m.openFor !m.readClosed

def isWritable (m : FlowStateMachine) : Bool :=
  !m.writing && m.openFor (!m.writeClosed && !m.writeClosing)

def isWriteClosable (m : FlowStateMachine) : Bool := m.isWritable

def connectBegin (m : FlowStateMachine) : Checked FlowStateMachine := do
  boostAssert (m.state = .init)
  return { m with state := .establishing }

def connected (m : FlowStateMachine) : Checked FlowStateMachine := do
  boostAssert (m.state = .establishing ∨ m.state = .init)
  return { m with state := .established }

def readBegin (m : FlowStateMachine) : Checked FlowStateMachine := do
  boostAssert m.isReadable
  return { m with reading := true }

def readEnd (m : FlowStateMachine) : Checked FlowStateMachine := do
  boostAssert m.reading
  return { m with reading := false }

/-- `ReadClosed()`: EOF arrived. -/
def readClose (m : FlowStateMachine) : Checked FlowStateMachine := do
  boostAssert (m.state = .established ∨ m.state = .closing)
  boostAssert (m.readClosed = false)
  if m.state = .established then
    return { m with readClosed := true, reading := false, state := .closing }
  else
    return { m with readClosed := true, reading := false, state :=
      if m.writeClosed then .closed else m.state }

def writeBegin (m : FlowStateMachine) : Checked FlowStateMachine := do
  boostAssert m.isWritable
  return { m with writing := true }

def writeEnd (m : FlowStateMachine) : Checked FlowStateMachine := do
  boostAssert m.writing
  return { m with writing := false }

def writeCloseBegin (m : FlowStateMachine) : Checked FlowStateMachine := do
  boostAssert (m.state = .established ∨ m.state = .closing)
  boostAssert (m.writeClosed = false ∧ m.writeClosing = false)
  return { m with state := .closing, writing := false, writeClosing := true }

def writeCloseEnd (m : FlowStateMachine) : Checked FlowStateMachine := do
  boostAssert m.writeClosing
  return { m with writeClosing := false, writeClosed := true, state :=
    if m.readClosed then .closed else m.state }

/-- `Closed()`. -/
def close (m : FlowStateMachine) : FlowStateMachine :=
  { m with reading := false, writing := false, writeClosing := false, writeClosed := true,
           readClosed := true, state := .closed }

def errored (m : FlowStateMachine) : FlowStateMachine := m.close

/-! ## When an operation is allowed, and what it does -/

variable {m m' : FlowStateMachine}

theorem asserted {condition : Prop} [Decidable condition] {next : Checked FlowStateMachine} :
    (boostAssert condition >>= fun _ => next) = .ok m' ↔ condition ∧ next = .ok m' := by
  simp [bind_eq_ok]

theorem connectBegin_ok :
    m.connectBegin = .ok m' ↔ m.state = .init ∧ { m with state := .establishing } = m' := by
  rw [connectBegin, asserted, pure_eq_ok, Except.ok.injEq]

theorem connected_ok : m.connected = .ok m' ↔
    (m.state = .establishing ∨ m.state = .init) ∧ { m with state := .established } = m' := by
  rw [connected, asserted, pure_eq_ok, Except.ok.injEq]

theorem readBegin_ok : m.readBegin = .ok m' ↔ m.isReadable = true ∧ { m with reading := true } = m' := by
  rw [readBegin, asserted, pure_eq_ok, Except.ok.injEq]

theorem readEnd_ok : m.readEnd = .ok m' ↔ m.reading = true ∧ { m with reading := false } = m' := by
  rw [readEnd, asserted, pure_eq_ok, Except.ok.injEq]

theorem readClose_ok : m.readClose = .ok m' ↔
    (m.state = .established ∨ m.state = .closing) ∧ m.readClosed = false ∧
      { m with readClosed := true, reading := false, state :=
        if m.state = .established then .closing else if m.writeClosed then .closed else m.state } = m' := by
  rw [readClose, asserted, asserted]
  refine and_congr_right fun _ => and_congr_right fun _ => ?_
  split <;> rw [pure_eq_ok, Except.ok.injEq]

theorem writeBegin_ok : m.writeBegin = .ok m' ↔ m.isWritable = true ∧ { m with writing := true } = m' := by
  rw [writeBegin, asserted, pure_eq_ok, Except.ok.injEq]

theorem writeEnd_ok : m.writeEnd = .ok m' ↔ m.writing = true ∧ { m with writing := false } = m' := by
  rw [writeEnd, asserted, pure_eq_ok, Except.ok.injEq]

theorem writeCloseBegin_ok : m.writeCloseBegin = .ok m' ↔
    (m.state = .established ∨ m.state = .closing) ∧ (m.writeClosed = false ∧ m.writeClosing = false) ∧
      { m with state := .closing, writing := false, writeClosing := true } = m' := by
  rw [writeCloseBegin, asserted, asserted, pure_eq_ok, Except.ok.injEq]

theorem writeCloseEnd_ok : m.writeCloseEnd = .ok m' ↔ m.writeClosing = true ∧
    { m with writeClosing := false, writeClosed := true, state :=
      if m.readClosed then .closed else m.state } = m' := by
  rw [writeCloseEnd, asserted, pure_eq_ok, Except.ok.injEq]

end FlowStateMachine

end LibNekit.Source
