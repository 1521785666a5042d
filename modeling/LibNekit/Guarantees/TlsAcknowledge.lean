import LibNekit.Guarantees.HandshakeFlush
import LibNekit.Source.DataFlow.TlsDesk

/-!
# When a TlsDataFlow acknowledges a Write

A Write counts as done when the tunnel has neither plain nor cipher text left. The cipher
text leaves the tunnel when the next hop's write starts, so this is too early while that
write is under way.
-/
namespace LibNekit.Guarantees.TlsAcknowledge

open LibNekit.Source LibNekit.Library Ssl TlsTransfer TlsDesk

variable {σ : Type}

/-- When a Write is told of a success, the next hop has written all that the session had
put out when the text of the Write had been given to it. -/
def Acknowledged (b : CipherStream σ) (x x' : TlsTransfer σ) : Prop :=
  ∀ a ∈ x'.answers.drop x.answers.length, a.kind = .write → a.failure = none → b.emitted x'.written <+: x'.accepted

/-- `Process` does not find a Write that waits and a tunnel that is finished while the next
hop is writing, or has been closed by an error. -/
def Settled (x : TlsTransfer σ) : Prop :=
  x.errorReported = true ∨ x.pendingError ≠ none ∨
    ¬(x.tunnel.finishWritingCipherData = true ∧ x.writeHandler ≠ none ∧ (x.next.writing = true ∨ x.next.state = .closed))

instance decidableSettled (x : TlsTransfer σ) : Decidable (Settled x) := by
  unfold Settled
  infer_instance

def Awaited (lib : OpenSsl σ) (fuel : Nat) (e : Event) (x : TlsTransfer σ) : Prop :=
  match x.arrive lib fuel e with
  | .ok (y, .process) => Settled y
  | _ => True

instance decidableAwaited (lib : OpenSsl σ) (fuel : Nat) (e : Event) (x : TlsTransfer σ) : Decidable (Awaited lib fuel e x) := by
  unfold Awaited
  split <;> infer_instance

/-- What the next hop is writing. -/
def inFlight (x : TlsTransfer σ) : Bytes :=
  match x.nextWrite with
  | some (_, data) => data
  | none => []

/-- Until an error closes the next hop, what the session has put out is written, under way
or waits, in this order, and so is what a Write that waits has put out. -/
structure Flows (b : CipherStream σ) (x : TlsTransfer σ) : Prop where
  balanced : b.Balanced (x.accepted ++ inFlight x) x.tunnel x.session
  waiting : x.writeHandler ≠ none → b.emitted x.written <+: x.accepted ++ inFlight x ++ x.tunnel.pendingReadCipher

structure Sound (b : CipherStream σ) (x : TlsTransfer σ) : Prop where
  orderly : (desk x).Orderly
  owed : x.next.writing = false → x.nextWrite = none
  flows : x.next.state ≠ .closed → Flows b x
  posted : ∀ task ∈ x.posted, taskKind task = .write → b.emitted x.written <+: x.accepted

variable {lib : OpenSsl σ} {b : CipherStream σ} {x x' y : TlsTransfer σ} {fuel : Nat}

/-! ## Process -/

/-- What calling a handler with a failure changes of a flow. -/
theorem reportError_sound (failure : Failure) (first : Bool) (sound : Sound b x) :
    Sound b (x.reportError failure first).2 := by
  rcases reportError_cases failure first x with ⟨same, -⟩ | ⟨kind, id, waits, same, -⟩
  · rw [same]
    exact sound
  · rw [same]
    have orderly : (desk (toldOf kind id failure x)).Orderly := desk_toldOf kind id failure x ▸ sound.orderly.tell waits
    refine ⟨orderly, ?_, ?_, ?_⟩
    · cases kind <;> exact sound.owed
    · intro opened
      cases kind with
      | read => exact ⟨(sound.flows opened).balanced, (sound.flows opened).waiting⟩
      | write => exact ⟨(sound.flows opened).balanced, fun some => absurd rfl some⟩
    · cases kind <;> exact sound.posted

theorem tryReadNextHop_sound (sound : Sound b x) (ran : x.tryReadNextHop = .ok x') :
    Sound b x' ∧ x'.tunnel = x.tunnel ∧ x'.next.writing = x.next.writing ∧ x'.next.state = x.next.state := by
  have orderly := tryReadNextHop_orderly sound.orderly ran
  rcases tryReadNextHop_cases ran with rfl | ⟨next, began, rfl⟩
  · exact ⟨sound, rfl, rfl, rfl⟩
  · obtain ⟨-, rfl⟩ := FlowStateMachine.readBegin_ok.mp began
    exact ⟨⟨orderly, sound.owed, fun opened => ⟨(sound.flows opened).balanced, (sound.flows opened).waiting⟩, sound.posted⟩,
      rfl, rfl, rfl⟩

/-- `readPlainTextData` leaves the cipher text alone. -/
theorem readPlainTextData_cipher (t : TlsTunnel) : t.readPlainTextData.2.pendingReadCipher = t.pendingReadCipher ∧
    t.readPlainTextData.2.finishWritingCipherData = t.finishWritingCipherData := by
  unfold TlsTunnel.readPlainTextData
  split <;> exact ⟨rfl, rfl⟩

theorem postRead_sound {request : Nat} (waits : x.readHandler = some request) (sound : Sound b x) :
    Sound b (x.postRead request) := by
  have cipher := (readPlainTextData_cipher x.tunnel).1
  refine ⟨?_, sound.owed, fun opened => ⟨?_, ?_⟩, ?_⟩
  · exact @Desk.Orderly.post _ sound.orderly (.read request x.readCancelable x.tunnel.readPlainTextData.1) waits rfl
  · show _ = _ ++ x.tunnel.readPlainTextData.2.pendingReadCipher ++ _
    rw [cipher]
    exact (sound.flows opened).balanced
  · show _ → _ <+: _ ++ x.tunnel.readPlainTextData.2.pendingReadCipher
    rw [cipher]
    exact (sound.flows opened).waiting
  · intro task member write
    rcases List.mem_append.mp member with old | new
    · exact sound.posted task old write
    · obtain rfl := List.mem_singleton.mp new
      cases write

theorem tryRead_sound (sound : Sound b x) (ran : x.tryRead = .ok x') :
    Sound b x' ∧ x'.tunnel.finishWritingCipherData = x.tunnel.finishWritingCipherData ∧ x'.writeHandler = x.writeHandler ∧
      x'.next.writing = x.next.writing ∧ x'.next.state = x.next.state := by
  obtain ⟨y, posts, rest⟩ := tryRead_cases ran
  have first : Sound b y ∧ y.tunnel.finishWritingCipherData = x.tunnel.finishWritingCipherData ∧ y.writeHandler = x.writeHandler ∧
      y.next.writing = x.next.writing ∧ y.next.state = x.next.state := by
    rcases posts with rfl | ⟨request, waits, rfl⟩
    · exact ⟨sound, rfl, rfl, rfl, rfl⟩
    · exact ⟨postRead_sound waits sound, (readPlainTextData_cipher x.tunnel).2, rfl, rfl, rfl⟩
  rcases rest with rfl | more
  · exact first
  · obtain ⟨sound', tunnel, writing, state⟩ := tryReadNextHop_sound first.1 more
    have handler : x'.writeHandler = y.writeHandler := by
      rcases tryReadNextHop_cases more with rfl | ⟨next, -, rfl⟩ <;> rfl
    exact ⟨sound', tunnel ▸ first.2.1, handler.trans first.2.2.1, writing.trans first.2.2.2.1, state.trans first.2.2.2.2⟩

/-- A Write is posted when everything has left the flow. -/
theorem postWrite_sound {request : Nat} (waits : x.writeHandler = some request)
    (finished : x.tunnel.finishWritingCipherData = true) (idle : x.next.writing = false) (opened : x.next.state ≠ .closed)
    (sound : Sound b x) : Sound b (x.postWrite request) := by
  have flows := sound.flows opened
  refine ⟨?_, sound.owed, fun _ => ⟨flows.balanced, fun some => absurd rfl some⟩, ?_⟩
  · exact @Desk.Orderly.post _ sound.orderly (.write request x.writeCancelable) waits rfl
  · have nothing : x.tunnel.pendingWritePlain.size = 0 ∧ x.tunnel.pendingReadCipher = [] := of_decide_eq_true finished
    have gone : inFlight x = [] := by rw [inFlight, sound.owed idle]
    have all := flows.waiting (by simp [waits])
    rw [gone, nothing.2, List.append_nil, List.append_nil] at all
    exact fun _ _ _ => all

theorem tryWriteNextHop_sound (sound : Sound b x) (ran : x.tryWriteNextHop = .ok x') : Sound b x' := by
  rcases tryWriteNextHop_cases ran with rfl | ⟨next, began, rfl⟩
  · exact sound
  · obtain ⟨writable, rfl⟩ := FlowStateMachine.writeBegin_ok.mp began
    have idle : x.next.writing = false := by
      simp only [FlowStateMachine.isWritable, Bool.and_eq_true, Bool.not_eq_true'] at writable
      exact writable.1
    have gone : inFlight x = [] := by rw [inFlight, sound.owed idle]
    refine ⟨sound.orderly, fun idle => absurd idle Bool.noConfusion, fun opened => ⟨?_, ?_⟩, sound.posted⟩
    · have balanced := (sound.flows opened).balanced
      unfold CipherStream.Balanced at balanced
      rw [gone, List.append_nil] at balanced
      show _ = x.accepted ++ x.tunnel.pendingReadCipher ++ [] ++ _
      rw [List.append_nil]
      exact balanced
    · have waiting := (sound.flows opened).waiting
      rw [gone, List.append_nil] at waiting
      show _ → _ <+: x.accepted ++ x.tunnel.pendingReadCipher ++ []
      rw [List.append_nil]
      exact waiting

theorem process_sound (sound : Sound b x) (settled : Settled x) (ran : x.process = .ok x') : Sound b x' := by
  unfold process at ran
  split at ran
  · cases ran
    exact sound
  · next was =>
    split at ran
    · next failure pending =>
      cases ran
      have told := reportError_sound failure true sound
      exact ⟨told.orderly, told.owed, fun opened => ⟨(told.flows opened).balanced, (told.flows opened).waiting⟩, told.posted⟩
    · next none =>
      obtain ⟨y, read, wrote⟩ := bind_eq_ok.mp ran
      obtain ⟨first, finish, handler, writing, state⟩ := tryRead_sound sound read
      rcases tryWrite_cases wrote with rfl | ⟨finished, request, waits, rfl⟩ | more
      · exact first
      · rcases settled with now | pending | settled
        · exact absurd now was
        · exact absurd none pending
        · have quiet : ¬(y.next.writing = true ∨ y.next.state = .closed) := fun busy =>
            settled ⟨finish ▸ finished, by simp [← handler, waits], writing ▸ state ▸ busy⟩
          obtain ⟨idle, opened⟩ := not_or.mp quiet
          exact postWrite_sound waits finished (Bool.not_eq_true _ ▸ idle) opened first
      · exact tryWriteNextHop_sound first more

/-! ## Requests and callbacks -/

theorem beginRead_sound (sound : Sound b x) (ran : x.beginRead = .ok y) : Sound b y := by
  have orderly := beginRead_orderly sound.orderly ran
  obtain ⟨-, m, -, rfl⟩ := beginRead_desk ran
  exact ⟨orderly, sound.owed, fun opened => ⟨(sound.flows opened).balanced, (sound.flows opened).waiting⟩, sound.posted⟩

/-- A Write finds no other one, so that what the session has put out is its own. -/
theorem beginWrite_sound (emits : Emits lib b) {buffer : Chunks} (sound : Sound b x)
    (ran : x.beginWrite lib fuel buffer = .ok y) : Sound b y := by
  have orderly := beginWrite_orderly sound.orderly ran
  obtain ⟨u, -, ran⟩ := bind_eq_ok.mp ran
  obtain ⟨m, began, ran⟩ := bind_eq_ok.mp ran
  obtain ⟨⟨tunnel, session⟩, wrote, ran⟩ := bind_eq_ok.mp ran
  cases ran
  obtain ⟨writable, rfl⟩ := FlowStateMachine.writeBegin_ok.mp began
  refine ⟨orderly, sound.owed, fun opened => ?_, fun task member write => ?_⟩
  · obtain ⟨balanced, none⟩ := emits.writePlainTextData (sound.flows opened).balanced wrote
    refine ⟨balanced, fun _ => ?_⟩
    unfold CipherStream.Balanced at balanced
    rw [none, List.append_nil] at balanced
    exact balanced ▸ List.prefix_refl _
  · have busy := sound.orderly.busy .write (fun nothing => by
      have none := (List.append_eq_nil_iff.mp nothing).2
      have here : taskRequest task ∈ ((desk x).posted.filter fun task => taskKind task = .write).map taskRequest :=
        List.mem_map_of_mem (List.mem_filter.mpr ⟨member, decide_eq_true write⟩)
      rw [none] at here
      exact absurd here List.not_mem_nil)
    exact absurd (writable.symm.trans busy) Bool.noConfusion

theorem onNextRead_sound (emits : Emits lib b) {result : Except Failure Chunks} {cancelable : Nat} {ending : Ending}
    (sound : Sound b x) (ran : x.onNextRead lib fuel result cancelable = .ok (y, ending)) : Sound b y := by
  have orderly : (desk y).Orderly := onNextRead_desk ran ▸ sound.orderly
  obtain ⟨next, ended, ran⟩ := bind_eq_ok.mp ran
  obtain ⟨-, rfl⟩ := FlowStateMachine.readEnd_ok.mp ended
  cases result with
  | ok buffer =>
    dsimp only at ran
    split at ran
    · cases ran
      exact ⟨orderly, sound.owed, fun opened => ⟨(sound.flows opened).balanced, (sound.flows opened).waiting⟩, sound.posted⟩
    · obtain ⟨⟨tunnel, session⟩, wrote, ran⟩ := bind_eq_ok.mp ran
      cases ran
      refine ⟨orderly, sound.owed, fun opened => ⟨emits.writeCipherTextData (sound.flows opened).balanced wrote, fun some => ?_⟩,
        sound.posted⟩
      exact ((sound.flows opened).waiting some).trans ((List.prefix_append_right_inj _).mpr (writeCipherTextData_grows wrote))
  | error failure =>
    cases failure with
    | eof =>
      obtain ⟨next', closes, ran⟩ := bind_eq_ok.mp ran
      cases ran
      obtain ⟨before, -, rfl⟩ := FlowStateMachine.readClose_ok.mp closes
      refine ⟨orderly, sound.owed, fun _ => ?_, sound.posted⟩
      have opened : x.next.state ≠ .closed := by
        rcases before with state | state <;> (replace state : x.next.state = _ := state; rw [state]; nofun)
      exact ⟨(sound.flows opened).balanced, (sound.flows opened).waiting⟩
    | error code =>
      cases ran
      exact ⟨orderly, fun _ => rfl, fun opened => absurd rfl opened, sound.posted⟩

theorem onNextWritten_sound {failure : Option Nat} {cancelable : Nat} {data : Bytes} {ending : Ending}
    (owed : x.nextWrite = some (cancelable, data)) (sound : Sound b x)
    (ran : x.onNextWritten failure cancelable data = .ok (y, ending)) : Sound b y := by
  have orderly : (desk y).Orderly := onNextWritten_desk ran ▸ sound.orderly
  obtain ⟨next, ended, ran⟩ := bind_eq_ok.mp ran
  obtain ⟨-, rfl⟩ := FlowStateMachine.writeEnd_ok.mp ended
  have sent : inFlight x = data := by rw [inFlight, owed]
  cases failure with
  | none =>
    cases ran
    refine ⟨orderly, fun _ => rfl, fun opened => ⟨?_, ?_⟩, fun task member write => ?_⟩
    · have balanced := (sound.flows opened).balanced
      rw [sent] at balanced
      show b.emitted x.session = x.accepted ++ data ++ [] ++ _ ++ _
      rw [List.append_nil]
      exact balanced
    · have waiting := (sound.flows opened).waiting
      rw [sent] at waiting
      show _ → _ <+: x.accepted ++ data ++ [] ++ _
      rw [List.append_nil]
      exact waiting
    · exact (sound.posted task member write).trans (List.prefix_append _ _)
  | some code =>
    cases ran
    exact ⟨orderly, fun _ => rfl, fun opened => absurd rfl opened, sound.posted⟩

/-- A task changes neither the streams nor what waits. -/
theorem runPosted_sound {task : Posted} {rest : List Posted} (first : x.posted = task :: rest) (sound : Sound b x)
    (ran : runPosted task { x with posted := rest } = .ok y) : Sound b y := by
  have orderly := runPosted_orderly sound.orderly first ran
  have later : ∀ other ∈ rest, taskKind other = .write → b.emitted x.written <+: x.accepted := fun other member write =>
    sound.posted other (first ▸ List.mem_cons_of_mem task member) write
  unfold runPosted at ran
  split at ran
  · split at ran
    · cases ran
      exact ⟨orderly, sound.owed, fun opened => ⟨(sound.flows opened).balanced, (sound.flows opened).waiting⟩, later⟩
    · obtain ⟨m, -, ran⟩ := bind_eq_ok.mp ran
      split at ran <;> cases ran <;>
        exact ⟨orderly, sound.owed, fun opened => ⟨(sound.flows opened).balanced, (sound.flows opened).waiting⟩, later⟩
  · split at ran
    · cases ran
      exact ⟨orderly, sound.owed, fun opened => ⟨(sound.flows opened).balanced, (sound.flows opened).waiting⟩, later⟩
    · obtain ⟨m, -, ran⟩ := bind_eq_ok.mp ran
      cases ran
      exact ⟨orderly, sound.owed, fun opened => ⟨(sound.flows opened).balanced, (sound.flows opened).waiting⟩, later⟩

theorem arrive_sound (emits : Emits lib b) {e : Event} {ending : Ending} (sound : Sound b x)
    (arrived : x.arrive lib fuel e = .ok (y, ending)) : Sound b y := by
  cases e with
  | read =>
    obtain ⟨z, began, done⟩ := bind_eq_ok.mp arrived
    cases done
    exact beginRead_sound sound began
  | write buffer =>
    obtain ⟨z, began, done⟩ := bind_eq_ok.mp arrived
    cases done
    exact beginWrite_sound emits sound began
  | closeWrite =>
    have orderly := arrive_orderly sound.orderly arrived
    cases arrived
    exact ⟨orderly, sound.owed, fun opened => ⟨(sound.flows opened).balanced, (sound.flows opened).waiting⟩, sound.posted⟩
  | cancel cancelable =>
    have orderly := arrive_orderly sound.orderly arrived
    cases arrived
    exact ⟨orderly, sound.owed, fun opened => ⟨(sound.flows opened).balanced, (sound.flows opened).waiting⟩, sound.posted⟩
  | nextRead result =>
    unfold arrive at arrived
    dsimp only at arrived
    split at arrived
    · exact onNextRead_sound emits sound arrived
    · cases arrived
  | nextWritten failure =>
    unfold arrive at arrived
    dsimp only at arrived
    split at arrived
    · next cancelable data owed => exact onNextWritten_sound owed sound arrived
    · cases arrived
  | posted =>
    unfold arrive at arrived
    dsimp only at arrived
    split at arrived
    · next task rest first =>
      obtain ⟨z, done, arrived⟩ := bind_eq_ok.mp arrived
      cases arrived
      exact runPosted_sound first sound done
    · cases arrived

/-! ## Runs -/

theorem finish_sound {ending : Ending} (sound : Sound b y) (settled : ending = .process → Settled y)
    (ran : y.finish ending = .ok x') : Sound b x' := by
  cases ending with
  | nothing =>
    cases ran
    exact sound
  | process => exact process_sound sound (settled rfl) ran
  | reportError failure tryReadFirst =>
    cases ran
    have told := reportError_sound failure tryReadFirst sound
    unfold onFailure
    dsimp only
    split <;>
      exact ⟨told.orderly, told.owed, fun opened => ⟨(told.flows opened).balanced, (told.flows opened).waiting⟩, told.posted⟩

theorem step_sound (emits : Emits lib b) (e : Event) (sound : Sound b x) (awaited : Awaited lib fuel e x)
    (stepped : step lib fuel e x = .ok x') : Sound b x' := by
  obtain ⟨⟨y, ending⟩, arrived, ran⟩ := bind_eq_ok.mp stepped
  refine finish_sound (arrive_sound emits sound arrived) (fun processes => ?_) ran
  subst processes
  unfold Awaited at awaited
  rw [arrived] at awaited
  exact awaited

/-- Only a task tells a Write of a success, and only when it is done. -/
theorem step_acknowledged (e : Event) (sound : Sound b x) (stepped : step lib fuel e x = .ok x') : Acknowledged b x x' := by
  obtain ⟨⟨y, ending⟩, arrived, ran⟩ := bind_eq_ok.mp stepped
  replace ran : y.finish ending = .ok x' := ran
  intro a new write success
  by_cases task : e = .posted
  · subst task
    unfold arrive at arrived
    dsimp only at arrived
    split at arrived
    · next task rest first =>
      obtain ⟨z, done, arrived⟩ := bind_eq_ok.mp arrived
      cases arrived
      cases ran
      have streams : x'.written = x.written ∧ x'.accepted = x.accepted := by
        unfold runPosted at done
        split at done
        · split at done
          · cases done
            exact ⟨rfl, rfl⟩
          · obtain ⟨m, -, done⟩ := bind_eq_ok.mp done
            split at done <;> cases done <;> exact ⟨rfl, rfl⟩
        · split at done
          · cases done
            exact ⟨rfl, rfl⟩
          · obtain ⟨m, -, done⟩ := bind_eq_ok.mp done
            cases done
            exact ⟨rfl, rfl⟩
      rcases runPosted_answers done with same | ⟨failure, same, -, -⟩
      · rw [same, List.drop_length] at new
        exact absurd new List.not_mem_nil
      · rw [same, List.drop_left] at new
        obtain rfl := List.mem_singleton.mp new
        rw [streams.1, streams.2]
        exact sound.posted task (first ▸ List.mem_cons_self) write
    · cases arrived
  · have before := arrive_answers task arrived
    rcases finish_answers ran with same | ⟨kind, id, failure, -, same⟩
    · rw [same, before, List.drop_length] at new
      exact absurd new List.not_mem_nil
    · rw [same, before, List.drop_left] at new
      obtain rfl := List.mem_singleton.mp new
      cases success

/-- Every step of a run acknowledges a Write only when it is done, as long as `Process`
finds no Write that waits for a next hop that is still writing, or closed. -/
theorem writes_acknowledged (lib : OpenSsl σ) (b : CipherStream σ) (emits : Emits lib b) (fuel : Nat) (input : List Event)
    (tunnel : TlsTunnel) (session : σ) (accepted : Bytes) (fresh : b.Balanced accepted tunnel session)
    (admitted : (machine lib fuel).Admitted input { tunnel, session, written := session, accepted })
    (awaited : (machine lib fuel).Along (Awaited lib fuel) input { tunnel, session, written := session, accepted }) :
    (machine lib fuel).EachStep (fun _ x x' => Acknowledged b x x') input { tunnel, session, written := session, accepted } := by
  refine @Machine.eachStep_of_along _ _ _ (machine lib fuel) (Sound b) _ (Awaited lib fuel) ?_ input _ ?_ admitted awaited
  · intro e x x' sound _ fit stepped
    exact ⟨step_acknowledged e sound stepped, step_sound emits e sound fit stepped⟩
  · refine ⟨start_orderly tunnel session, fun _ => rfl, fun _ => ⟨?_, fun some => absurd rfl some⟩, nofun⟩
    show b.Balanced (accepted ++ []) tunnel session
    rw [List.append_nil]
    exact fresh

/-! ## After a handshake -/

open HandshakeFlush PlainRecords

def connected : Flights := { phase := .done, last := [], readNegotiates := true }

/-- The Read comes when the Write is done. -/
theorem writes_acknowledged_inTurn :
    (machine Flights.openSsl 4).EachStep (fun _ x x' => Acknowledged Flights.stream x x')
      [.write oneByte, .nextWritten none, .posted, .read] { tunnel := {}, session := connected, written := connected } :=
  writes_acknowledged Flights.openSsl Flights.stream Flights.emits 4 _ {} connected [] rfl (by decide) (by decide)

/-- A Read that comes while the next hop writes has the Write acknowledged at once. -/
theorem read_acknowledges_write :
    (machine Flights.openSsl 4).Runs [.write oneByte, .read, .posted]
      { tunnel := {}, session := connected, written := connected }
      (fun x => (x.answers.map fun a => (a.kind, a.request, a.failure)) = [(.write, 1, none)] ∧ x.accepted = [] ∧
        x.nextWrite = some (1, record applicationData [7]) ∧ Flights.stream.emitted x.written = record applicationData [7]) :=
  ⟨by decide, _, rfl, by decide⟩

end LibNekit.Guarantees.TlsAcknowledge
