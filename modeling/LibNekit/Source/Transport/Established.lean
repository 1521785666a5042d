import LibNekit.Source.DataFlow.Halves
import LibNekit.Source.Transport.TcpSocket

/-!
# An established TcpSocket

While it works, an established socket is fixed by its two halves: they determine the
state machine, and the busy ones are owed a callback. Each operation succeeds on the
half it is meant for. An error leaves a dead socket, which owes cancelled callbacks
at most.
-/
namespace LibNekit.Source.TcpSocket

open LibNekit.Source.FlowStateMachine

/-- What is owed for a half that is busy. -/
def owedRead (read : ReadHalf) : Option Owed := if read = .busy then some {} else none

def owedWrite : WriteHalf → Option OwedWrite
  | .busy => some { kind := .write }
  | .closing => some { kind := .closeWrite }
  | .idle | .closed => none

structure Established (s : TcpSocket) (type : FlowType) (read : ReadHalf) (write : WriteHalf) :
    Prop where
  stateMachine : s.stateMachine = ofHalves type read write
  read : s.read = owedRead read
  write : s.write = owedWrite write
  continuing : s.continuing = none

structure Dead (s : TcpSocket) (type : FlowType) : Prop where
  stateMachine : s.stateMachine = ofHalves type .closed .closed
  read : ∀ owed ∈ s.read, owed.canceled = true
  write : ∀ owed ∈ s.write, owed.canceled = true

variable {s : TcpSocket} {type : FlowType} {read : ReadHalf} {write : WriteHalf}

namespace Established

theorem state (h : s.Established type read write) : s.stateMachine.state = stateOf read write := by
  rw [h.stateMachine, ofHalves_state]

theorem isReadable (h : s.Established type read write) :
    s.stateMachine.isReadable = true ↔ read = .idle := by
  rw [h.stateMachine, ofHalves_isReadable, decide_eq_true_iff]

theorem isWritable (h : s.Established type read write) :
    s.stateMachine.isWritable = true ↔ write = .idle := by
  rw [h.stateMachine, ofHalves_isWritable, decide_eq_true_iff]

theorem readClosed (h : s.Established type read write) :
    s.stateMachine.readClosed = true ↔ read = .closed := by
  rw [h.stateMachine]
  exact decide_eq_true_iff

theorem read_isSome (h : s.Established type read write) : s.read.isSome = true ↔ read = .busy := by
  rw [h.read, owedRead]
  split <;> simp [*]

theorem write_kind (h : s.Established type read write) (kind : WriteKind) :
    s.write.map OwedWrite.kind = some kind ↔
      write = match kind with | .write => .busy | .closeWrite => .closing := by
  rw [h.write]
  cases write <;> cases kind <;> simp [owedWrite]

/-! ## Calls -/

theorem beginRead (h : s.Established type .idle write) :
    ∃ s', s.beginRead = .ok s' ∧ s'.Established type .busy write := by
  refine ⟨{ s with stateMachine := ofHalves type .busy write, read := some {} }, ?_,
    rfl, rfl, h.write, h.continuing⟩
  simp [TcpSocket.beginRead, h.stateMachine, readBegin_idle]

theorem beginWrite (h : s.Established type read .idle) :
    ∃ s', s.beginWrite = .ok s' ∧ s'.Established type read .busy := by
  refine ⟨{ s with stateMachine := ofHalves type read .busy, write := some { kind := .write } }, ?_,
    rfl, h.read, rfl, h.continuing⟩
  simp [TcpSocket.beginWrite, h.stateMachine, writeBegin_idle]

theorem closeWrite (h : s.Established type read .idle) :
    ∃ s', s.closeWrite = .ok s' ∧ s'.Established type read .closing := by
  refine ⟨{ s with
    stateMachine := ofHalves type read .closing, write := some { kind := .closeWrite } }, ?_,
    rfl, h.read, rfl, h.continuing⟩
  simp [TcpSocket.closeWrite, h.stateMachine, writeCloseBegin_idle]

/-! ## Completions -/

theorem onRead_data (h : s.Established type .busy write) :
    ∃ s', s.onRead none = .ok (s', some none) ∧ s'.Established type .idle write := by
  refine ⟨{ s with stateMachine := ofHalves type .idle write, read := none }, ?_,
    rfl, rfl, h.write, h.continuing⟩
  simp [onRead, h.read, owedRead, h.stateMachine, readEnd_busy]

theorem onRead_eof (h : s.Established type .busy write) :
    ∃ s', s.onRead (some .endOfFile) = .ok (s', some (some .endOfFile)) ∧
      s'.Established type .closed write := by
  refine ⟨{ s with stateMachine := ofHalves type .closed write, read := none }, ?_,
    rfl, rfl, h.write, h.continuing⟩
  simp [onRead, h.read, owedRead, h.stateMachine, readEnd_busy, readClose_idle]

theorem onRead_error (h : s.Established type .busy write) :
    ∃ s', s.onRead (some .other) = .ok (s', some (some .other)) ∧ s'.Dead type ∧
      s'.continuing = none := by
  refine ⟨{ s with stateMachine := ofHalves type .closed .closed, read := none }.cancelWrite, ?_,
    ⟨rfl, by simp [cancelWrite], by simp [cancelWrite]⟩, h.continuing⟩
  simp [onRead, h.read, owedRead, h.stateMachine, readEnd_busy, cancelWrite]

theorem onWritten_ok (h : s.Established type read .busy) :
    ∃ s', s.onWritten none = .ok (s', some none) ∧ s'.Established type read .idle := by
  refine ⟨{ s with stateMachine := ofHalves type read .idle, write := none }, ?_,
    rfl, h.read, rfl, h.continuing⟩
  simp [onWritten, h.write, owedWrite, h.stateMachine, writeEnd_busy]

theorem onWritten_error (error : IoError) (h : s.Established type read .busy) :
    ∃ s', s.onWritten (some error) = .ok (s', some (some error)) ∧ s'.Dead type ∧
      s'.continuing = none := by
  refine ⟨{ s with stateMachine := ofHalves type .closed .closed, write := none }.cancelRead, ?_,
    ⟨rfl, by simp [cancelRead], by simp [cancelRead]⟩, h.continuing⟩
  simp [onWritten, h.write, owedWrite, h.stateMachine, writeEnd_busy, cancelRead]

theorem onWriteClosed (ec : ErrorCode) (h : s.Established type read .closing) :
    ∃ s', s.onWriteClosed ec = .ok (s', some ec) ∧ s'.Established type read .closed := by
  refine ⟨{ s with stateMachine := ofHalves type read .closed, write := none }, ?_,
    rfl, h.read, rfl, h.continuing⟩
  simp [TcpSocket.onWriteClosed, h.write, owedWrite, h.stateMachine, writeCloseEnd_closing]

end Established

/-! ## Cancelled callbacks -/

theorem isSome_of_kind {owed : Option OwedWrite} {kind : WriteKind}
    (found : owed.map OwedWrite.kind = some kind) : owed.isSome = true := by
  cases owed
  · cases found
  · rfl

theorem onRead_canceled (ec : ErrorCode) (owed : s.read.isSome = true)
    (canceled : ∀ owed ∈ s.read, owed.canceled = true) :
    s.onRead ec = .ok ({ s with read := none }, none) := by
  obtain ⟨pending, found⟩ := Option.isSome_iff_exists.mp owed
  simp [onRead, found, canceled pending found]

theorem onWritten_canceled (ec : ErrorCode) (owed : s.write.isSome = true)
    (canceled : ∀ owed ∈ s.write, owed.canceled = true) :
    s.onWritten ec = .ok ({ s with write := none }, none) := by
  obtain ⟨pending, found⟩ := Option.isSome_iff_exists.mp owed
  simp [onWritten, found, canceled pending found]

theorem onWriteClosed_canceled (ec : ErrorCode) (owed : s.write.isSome = true)
    (canceled : ∀ owed ∈ s.write, owed.canceled = true) :
    s.onWriteClosed ec = .ok ({ s with write := none }, none) := by
  obtain ⟨pending, found⟩ := Option.isSome_iff_exists.mp owed
  simp [onWriteClosed, found, canceled pending found]

end LibNekit.Source.TcpSocket
