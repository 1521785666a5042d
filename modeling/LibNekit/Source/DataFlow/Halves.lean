import LibNekit.Source.DataFlow.FlowStateMachine

/-!
# The two halves of a flow

From `Connected()` on, a `FlowStateMachine` that is used by its own rules is fixed by
what its read half and its write half are doing. An operation moves one half and
leaves the other alone.
-/
namespace LibNekit.Source

inductive ReadHalf where
  | idle | busy | closed
  deriving DecidableEq, Repr

inductive WriteHalf where
  | idle | busy | closing | closed
  deriving DecidableEq, Repr

namespace FlowStateMachine

/-- The state that the two halves add up to. -/
def stateOf : ReadHalf → WriteHalf → FlowState
  | .closed, .closed => .closed
  | .closed, _ => .closing
  | _, .closing | _, .closed => .closing
  | _, _ => .established

/-- The machine of a flow that has been established. -/
def ofHalves (type : FlowType) (read : ReadHalf) (write : WriteHalf) : FlowStateMachine where
  type
  state := stateOf read write
  reading := read = .busy
  writing := write = .busy
  readClosed := read = .closed
  writeClosing := write = .closing
  writeClosed := write = .closed

/-- The machine of a flow between `ConnectBegin()` and `Connected()`. -/
def establishing (type : FlowType) (reading writing : Bool) : FlowStateMachine where
  type
  state := .establishing
  reading
  writing

variable (type : FlowType) (read : ReadHalf) (write : WriteHalf) (reading writing : Bool)

@[simp] theorem ofHalves_state : (ofHalves type read write).state = stateOf read write := rfl

@[simp] theorem establishing_state : (establishing type reading writing).state = .establishing := rfl

@[simp] theorem stateOf_eq_closed : stateOf read write = .closed ↔ read = .closed ∧ write = .closed := by
  cases read <;> cases write <;> decide

@[simp] theorem stateOf_closed : stateOf .closed .closed = .closed := rfl

theorem stateOf_ne_establishing : stateOf read write ≠ .establishing := by
  cases read <;> cases write <;> decide

@[simp] theorem ofHalves_isReadable : (ofHalves type read write).isReadable = decide (read = .idle) := by
  cases read <;> cases write <;> simp [isReadable, openFor, ofHalves, stateOf]

@[simp] theorem ofHalves_isWritable : (ofHalves type read write).isWritable = decide (write = .idle) := by
  cases read <;> cases write <;> simp [isWritable, openFor, ofHalves, stateOf]

@[simp] theorem ofHalves_isWriteClosable :
    (ofHalves type read write).isWriteClosable = decide (write = .idle) := ofHalves_isWritable type read write

/-! ## What each operation does to the halves -/

theorem readBegin_idle : (ofHalves type .idle write).readBegin = .ok (ofHalves type .busy write) := by
  cases write <;> simp [readBegin, boostAssert] <;> rfl

theorem readEnd_busy : (ofHalves type .busy write).readEnd = .ok (ofHalves type .idle write) := by
  cases write <;> rfl

theorem readClose_idle : (ofHalves type .idle write).readClose = .ok (ofHalves type .closed write) := by
  cases write <;> rfl

theorem writeBegin_idle : (ofHalves type read .idle).writeBegin = .ok (ofHalves type read .busy) := by
  cases read <;> simp [writeBegin, boostAssert] <;> rfl

theorem writeEnd_busy : (ofHalves type read .busy).writeEnd = .ok (ofHalves type read .idle) := by
  cases read <;> rfl

theorem writeCloseBegin_idle :
    (ofHalves type read .idle).writeCloseBegin = .ok (ofHalves type read .closing) := by
  cases read <;> rfl

theorem writeCloseEnd_closing :
    (ofHalves type read .closing).writeCloseEnd = .ok (ofHalves type read .closed) := by
  cases read <;> rfl

@[simp] theorem errored_ofHalves : (ofHalves type read write).errored = ofHalves type .closed .closed := rfl

@[simp] theorem errored_establishing :
    (establishing type reading writing).errored = ofHalves type .closed .closed := rfl

/-! ## A local flow that is being established -/

@[simp] theorem establishing_isReadable : (establishing .local reading writing).isReadable = !reading := by
  simp [isReadable, openFor, establishing]

@[simp] theorem establishing_isWritable : (establishing .local reading writing).isWritable = !writing := by
  simp [isWritable, openFor, establishing]

theorem readBegin_establishing :
    (establishing .local false writing).readBegin = .ok (establishing .local true writing) := by
  rw [readBegin, boostAssert_of (by simp)]
  rfl

theorem writeBegin_establishing :
    (establishing .local reading false).writeBegin = .ok (establishing .local reading true) := by
  rw [writeBegin, boostAssert_of (by simp)]
  rfl

theorem readEnd_establishing :
    (establishing type true writing).readEnd = .ok (establishing type false writing) := rfl

theorem writeEnd_establishing :
    (establishing type reading true).writeEnd = .ok (establishing type reading false) := rfl

theorem connected_establishing :
    (establishing type reading writing).connected = .ok
      (ofHalves type (if reading then .busy else .idle) (if writing then .busy else .idle)) := by
  cases reading <;> cases writing <;> rfl

end FlowStateMachine

end LibNekit.Source
