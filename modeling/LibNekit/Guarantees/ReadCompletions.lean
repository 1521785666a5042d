import LibNekit.Source.Crypto.PlainRecords
import LibNekit.Source.DataFlow.ServerFlow
import LibNekit.Source.DataFlow.TlsDesk

/-!
# What a flow says of itself when a Read completes

TcpSocket and the two servers bring their state machine up to date before they call the
handler of a Read. TlsDataFlow does so in the tasks that it posts, but not where it
reports an error.
-/
namespace LibNekit.Guarantees.ReadCompletions

open LibNekit.Source LibNekit.Library Ssl

/-- What a state machine has to say when the handler of a Read is told `ec`. -/
structure Agrees (ec : TcpSocket.ErrorCode) (m : FlowStateMachine) : Prop where
  reading : m.reading = false
  eof : ec = some .endOfFile → m.readClosed = true
  error : ec = some .other → m.state = .closed

/-! ## TcpSocket and the servers -/

/-- The Reads that an event completes. -/
def TcpAgrees (e : TcpSocket.Event) (o : TcpSocket.Owned) : Prop :=
  match e with
  | .readDone ec => ∀ s told, o.socket.onRead ec = .ok (s, some told) → Agrees told s.stateMachine
  | _ => True

def ServerAgrees (server : ServerFlow.Server) (e : ServerFlow.Event) (s : ServerFlow) : Prop :=
  ∀ s' told, s.readReport server e = .ok (s', some told) → Agrees told s'.stateMachine

theorem onRead_agrees {ec told : TcpSocket.ErrorCode} {s s' : TcpSocket} (ran : s.onRead ec = .ok (s', some told)) :
    Agrees told s'.stateMachine := by
  obtain ⟨owed, -, ran⟩ := bind_eq_ok.mp ran
  split at ran
  · cases ran
  · obtain ⟨m, ended, ran⟩ := bind_eq_ok.mp ran
    obtain ⟨-, rfl⟩ := FlowStateMachine.readEnd_ok.mp ended
    split at ran
    · cases ran
      exact ⟨rfl, nofun, nofun⟩
    · obtain ⟨m, closes, ran⟩ := bind_eq_ok.mp ran
      obtain ⟨-, -, rfl⟩ := FlowStateMachine.readClose_ok.mp closes
      cases ran
      exact ⟨rfl, fun _ => rfl, nofun⟩
    · cases ran
      exact ⟨rfl, nofun, fun _ => rfl⟩

theorem readDone_agrees {ec told : TcpSocket.ErrorCode} {rewritten : Bool} {s s' : ServerFlow}
    (ran : s.readDone ec rewritten = .ok (s', some told)) : Agrees told s'.stateMachine := by
  obtain ⟨owed, -, ran⟩ := bind_eq_ok.mp ran
  split at ran
  · cases ran
  · obtain ⟨m, ended, ran⟩ := bind_eq_ok.mp ran
    obtain ⟨-, rfl⟩ := FlowStateMachine.readEnd_ok.mp ended
    split at ran
    · split at ran
      · cases ran
        exact ⟨rfl, nofun, nofun⟩
      · cases ran
        exact ⟨rfl, nofun, fun _ => rfl⟩
    · obtain ⟨m, closes, ran⟩ := bind_eq_ok.mp ran
      obtain ⟨-, -, rfl⟩ := FlowStateMachine.readClose_ok.mp closes
      cases ran
      exact ⟨rfl, fun _ => rfl, nofun⟩
    · cases ran
      exact ⟨rfl, nofun, fun _ => rfl⟩

theorem onFirstHeader_agrees {told : TcpSocket.ErrorCode} {s s' : ServerFlow} (ran : s.onFirstHeader = .ok (s', some told)) :
    Agrees told s'.stateMachine := by
  obtain ⟨owed, -, ran⟩ := bind_eq_ok.mp ran
  split at ran
  · cases ran
  · obtain ⟨m, ended, ran⟩ := bind_eq_ok.mp ran
    obtain ⟨-, rfl⟩ := FlowStateMachine.readEnd_ok.mp ended
    cases ran
    exact ⟨rfl, nofun, nofun⟩

theorem serverAgrees (server : ServerFlow.Server) (e : ServerFlow.Event) (s : ServerFlow) : ServerAgrees server e s := by
  intro s' told ran
  unfold ServerFlow.readReport at ran
  split at ran
  · exact readDone_agrees ran
  · exact readDone_agrees ran
  · exact onFirstHeader_agrees ran
  · cases ran

/-! ## TlsDataFlow -/

open TlsTransfer TlsDesk

variable {σ : Type} {lib : OpenSsl σ} {x x' y : TlsTransfer σ} {fuel : Nat}

def errorCode : Failure → TcpSocket.IoError
  | .eof => .endOfFile
  | .error _ => .other

def TlsAgrees (x x' : TlsTransfer σ) : Prop :=
  ∀ a ∈ x'.answers.drop x.answers.length, a.kind = .read → Agrees (a.failure.map errorCode) a.stateMachine

/-- The step does not report an error to a Read. -/
def Unreported (lib : OpenSsl σ) (fuel : Nat) (e : Event) (x : TlsTransfer σ) : Prop :=
  match x.arrive lib fuel e with
  | .ok (y, ending) => ¬Reports .read ending y
  | .error _ => True

instance decidableReports (kind : Kind) : (ending : Ending) → (x : TlsTransfer σ) → Decidable (Reports kind ending x)
  | .nothing, _ => .isFalse And.right
  | .process, x => inferInstanceAs (Decidable ((desk x).handler kind ≠ none ∧
      x.errorReported = false ∧ x.pendingError ≠ none ∧ (kind = .read ∨ x.readHandler = none)))
  | .reportError _ tryReadFirst, x => inferInstanceAs (Decidable ((desk x).handler kind ≠ none ∧
      (kind = (if tryReadFirst then .read else .write) ∨ (desk x).handler (if tryReadFirst then .read else .write) = none)))

instance decidableUnreported (lib : OpenSsl σ) (fuel : Nat) (e : Event) (x : TlsTransfer σ) : Decidable (Unreported lib fuel e x) :=
  match arrived : x.arrive lib fuel e with
  | .ok (y, ending) => decidable_of_iff (¬Reports .read ending y) (by rw [Unreported, arrived])
  | .error _ => .isTrue (by
      rw [Unreported, arrived]
      trivial)

theorem step_tlsAgrees (e : Event) (unreported : Unreported lib fuel e x) (stepped : step lib fuel e x = .ok x') : TlsAgrees x x' := by
  obtain ⟨⟨y, ending⟩, arrived, ran⟩ := bind_eq_ok.mp stepped
  replace ran : y.finish ending = .ok x' := ran
  unfold Unreported at unreported
  rw [arrived] at unreported
  intro a new read
  by_cases task : e = .posted
  · subst task
    unfold arrive at arrived
    dsimp only at arrived
    split at arrived
    · obtain ⟨z, done, arrived⟩ := bind_eq_ok.mp arrived
      cases arrived
      cases ran
      rcases runPosted_answers done with same | ⟨failure, same, -, completed⟩
      · rw [same, List.drop_length] at new
        exact absurd new List.not_mem_nil
      · rw [same, List.drop_left] at new
        obtain rfl := List.mem_singleton.mp new
        obtain ⟨ended, rfl | ⟨code, rfl, closed⟩⟩ := completed read
        · exact ⟨ended, nofun, nofun⟩
        · exact ⟨ended, nofun, fun _ => closed⟩
    · cases arrived
  · have before := arrive_answers task arrived
    rcases finish_answers ran with same | ⟨kind, id, failure, reports, same⟩
    · rw [same, before, List.drop_length] at new
      exact absurd new List.not_mem_nil
    · rw [same, before, List.drop_left] at new
      obtain rfl := List.mem_singleton.mp new
      have read : kind = .read := read
      exact absurd (read ▸ reports) unreported

/-- Every step of the four flows agrees with the state machine about the Read that it
completes; that of TlsDataFlow, as long as no Read is reported an error. -/
theorem reads_agree {σ : Type} (lib : OpenSsl σ) (fuel : Nat) (tunnel : TlsTunnel) (session : σ) :
    (∀ input o, TcpSocket.machine.EachStep (fun e o _ => TcpAgrees e o) input o) ∧
    (∀ server input s, (ServerFlow.machine server).EachStep (fun e s _ => ServerAgrees server e s) input s) ∧
    ∀ input, (machine lib fuel).Admitted input { tunnel, session, written := session } →
      (machine lib fuel).Along (Unreported lib fuel) input { tunnel, session, written := session } →
      (machine lib fuel).EachStep (fun _ x x' => TlsAgrees x x') input { tunnel, session, written := session } := by
  refine ⟨fun input o => ?_, fun server input s => ?_, fun input admitted unreported => ?_⟩
  · refine Machine.eachStep_all (fun e o _ _ => ?_) input o
    cases e with
    | readDone ec => exact fun s told ran => onRead_agrees ran
    | _ => trivial
  · exact Machine.eachStep_all (fun e s _ _ => serverAgrees server e s) input s
  · exact @Machine.eachStep_of_along _ _ _ (machine lib fuel) (fun _ => True) _ (Unreported lib fuel)
      (fun e _ _ _ _ fit stepped => ⟨step_tlsAgrees e fit stepped, trivial⟩) input _ trivial admitted unreported

/-- A Read that gets its data. -/
theorem reads_agree_data :
    (machine PlainRecords.openSsl 4).EachStep (fun _ x x' => TlsAgrees x x')
      [.read, .nextRead (.ok ⟨[record applicationData [1, 2]], by decide⟩), .posted]
      { tunnel := {}, session := {}, written := {} } :=
  (reads_agree PlainRecords.openSsl 4 {} {}).2.2 _ (by decide) (by decide)

/-- The EOF of the next hop is reported to a Read of a flow that is still reading, and has
not seen the end. -/
theorem eof_while_reading :
    (machine PlainRecords.openSsl 4).Runs [.read, .nextRead (.error .eof)] { tunnel := {}, session := {}, written := {} }
      (fun x => x.answers = [⟨.read, 1, some .eof, { type := .remote, state := .established, reading := true }⟩]) :=
  ⟨by decide, _, rfl, by decide⟩

end LibNekit.Guarantees.ReadCompletions
