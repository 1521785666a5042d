import LibNekit.Source.Crypto.PlainRecords
import LibNekit.Source.DataFlow.TlsDesk

/-!
# Which requests of a TlsDataFlow are answered

A failure of the next hop answers one request. The other one stays where it is for good,
and so does a request to close.
-/
namespace LibNekit.Guarantees.TlsRequests

open LibNekit.Source LibNekit.Library Ssl TlsTransfer TlsDesk

variable {σ : Type}

/-- Every request is answered once at most, and one that is not cancelled is answered when
the next hop has failed and no task is left. -/
structure Answered (x : TlsTransfer σ) : Prop where
  atMostOnce : ∀ id, (desk x).answered.count id ≤ 1
  all : x.failed = true → x.posted = [] → ∀ r ∈ x.requests, r.2 ∉ x.cancelled → (desk x).answered.count r.1 = 1

/-- A failure of the next hop is not lost, and finds no second request. -/
def Reaches (cancelable : Option Nat) (first second : Option Nat) (x : TlsTransfer σ) : Prop :=
  x.errorReported = true ∨ x.pendingError ≠ none ∨
    ((∀ c ∈ cancelable, c ∉ x.cancelled) ∧ (first = none ∨ ∀ id ∈ second, id ∈ x.cancelled))

instance decidableReaches (cancelable first second : Option Nat) (x : TlsTransfer σ) :
    Decidable (Reaches cancelable first second x) := by
  unfold Reaches
  infer_instance

/-- A call of the tunnel comes back. -/
def Returns (lib : OpenSsl σ) (call : Ssl TlsTunnel) (session : σ) : Prop := ∃ x, on lib call session = .ok x

instance decidableReturns (lib : OpenSsl σ) (call : Ssl TlsTunnel) (session : σ) : Decidable (Returns lib call session) :=
  match ran : on lib call session with
  | .ok x => .isTrue ⟨x, ran⟩
  | .error _ => .isFalse fun ⟨x, ok⟩ => by
      rw [ran] at ok
      cases ok

/-- A request is made while the flow allows it and before an error was told, and nobody
closes the write side; the tunnel comes back from what it is given; the failures reach who
waits for them; and no failed Read has ended the Write whose task is run. -/
def Unhindered (lib : OpenSsl σ) (fuel : Nat) (e : Event) (x : TlsTransfer σ) : Prop :=
  match e with
  | .read => x.errorReported = false ∧ x.stateMachine.isReadable = true
  | .write buffer => x.errorReported = false ∧ x.stateMachine.isWritable = true ∧
      Returns lib (x.tunnel.writePlainTextData fuel buffer) x.session
  | .closeWrite => False
  | .cancel _ => True
  | .nextRead (.ok buffer) => (∃ c ∈ x.nextRead, c ∈ x.cancelled) ∨
      Returns lib (x.tunnel.writeCipherTextData fuel buffer) x.session
  | .nextRead (.error _) => Reaches x.nextRead x.readHandler x.writeHandler x
  | .nextWritten none => True
  | .nextWritten (some _) => Reaches (x.nextWrite.map Prod.fst) x.writeHandler x.readHandler x
  | .posted => ∀ task ∈ x.posted.head?, taskKind task = .write →
      taskCancelable task ∈ x.cancelled ∨ x.stateMachine.writing = true

instance decidableUnhindered (lib : OpenSsl σ) (fuel : Nat) : (e : Event) → (x : TlsTransfer σ) → Decidable (Unhindered lib fuel e x)
  | .read, x => inferInstanceAs (Decidable (x.errorReported = false ∧ _))
  | .write _, x => inferInstanceAs (Decidable (x.errorReported = false ∧ _ ∧ Returns lib _ x.session))
  | .closeWrite, _ => .isFalse id
  | .cancel _, _ | .nextWritten none, _ => .isTrue trivial
  | .nextRead (.ok _), x => inferInstanceAs (Decidable ((∃ c ∈ x.nextRead, c ∈ x.cancelled) ∨ Returns lib _ x.session))
  | .nextRead (.error _), x => decidableReaches x.nextRead x.readHandler x.writeHandler x
  | .nextWritten (some _), x => decidableReaches (x.nextWrite.map Prod.fst) x.writeHandler x.readHandler x
  | .posted, x => inferInstanceAs (Decidable (∀ task ∈ x.posted.head?, taskKind task = .write → _))

/-- What a failure that is not lost leaves: the requests that wait are cancelled, and one
that comes later is answered at once. -/
structure Told (x : TlsTransfer σ) : Prop where
  reported : x.errorReported = true → ∀ id ∈ (desk x).waiting, id ∈ x.cancelled
  parked : x.errorReported = false → x.pendingError ≠ none → (desk x).waiting = []
  failed : x.failed = true → x.errorReported = true ∨ x.pendingError ≠ none

variable {lib : OpenSsl σ} {x x' y : TlsTransfer σ} {fuel : Nat}

/-! ## Errors -/

/-- A request finds the other handler empty if an error is parked. -/
theorem Told.alone (told : Told x) (was : x.errorReported = false) (pending : x.pendingError ≠ none) :
    x.readHandler = none ∧ x.writeHandler = none := by
  have none := told.parked was pending
  simpa [desk, Desk.waiting] using none

/-- A failure that does not hit two requests at once is told to the one there is. -/
theorem onFailure_told {failure : Failure} {tryReadFirst : Bool}
    (reported : x.errorReported = true → ∀ id ∈ (desk x).waiting, id ∈ x.cancelled)
    (second : x.errorReported = false → (desk x).handler (if tryReadFirst then .read else .write) = none ∨
      ∀ id ∈ (desk x).handler (if tryReadFirst then .write else .read), id ∈ x.cancelled) :
    Told (x.onFailure failure tryReadFirst) := by
  unfold onFailure
  rcases reportError_cases failure tryReadFirst x with ⟨same, none⟩ | ⟨kind, id, waits, same, first⟩
  · rw [same]
    refine ⟨fun _ id member => ?_, fun _ _ => none, fun _ => Or.inr nofun⟩
    exact absurd (none ▸ member : id ∈ ([] : List Nat)) List.not_mem_nil
  · rw [same]
    refine ⟨fun _ other member => ?_, nofun, fun _ => Or.inl rfl⟩
    show other ∈ (toldOf kind id failure x).cancelled
    rw [(toldOf_errors kind id failure x).2]
    obtain ⟨before, other_kind, differs, waits'⟩ := toldOf_waiting (show other ∈ (desk (toldOf kind id failure x)).waiting from member)
    cases was : x.errorReported with
    | true => exact reported was other before
    | false =>
      rcases second was with none | cancelled
      · cases tryReadFirst <;> cases kind <;> cases other_kind <;> simp_all
      · cases tryReadFirst <;> cases kind <;> cases other_kind <;> simp_all

/-- No request has come, and no error has come up or been told. -/
structure Quiet (x x' : TlsTransfer σ) : Prop where
  requests : x'.requests = x.requests
  errorReported : x'.errorReported = x.errorReported
  pendingError : x'.pendingError = x.pendingError
  failed : x'.failed = x.failed

theorem Quiet.trans {z : TlsTransfer σ} (first : Quiet x y) (second : Quiet y z) : Quiet x z :=
  ⟨second.requests.trans first.requests, second.errorReported.trans first.errorReported, second.pendingError.trans first.pendingError,
    second.failed.trans first.failed⟩

theorem tryReadNextHop_quiet (ran : x.tryReadNextHop = .ok x') : Quiet x x' := by
  rcases tryReadNextHop_cases ran with rfl | ⟨next, -, rfl⟩ <;> exact ⟨rfl, rfl, rfl, rfl⟩

theorem tryRead_quiet (ran : x.tryRead = .ok x') : Quiet x x' := by
  obtain ⟨y, posts, rest⟩ := tryRead_cases ran
  have first : Quiet x y := by
    rcases posts with rfl | ⟨request, -, rfl⟩ <;> exact ⟨rfl, rfl, rfl, rfl⟩
  rcases rest with rfl | more
  · exact first
  · exact first.trans (tryReadNextHop_quiet more)

theorem tryWrite_quiet (ran : x.tryWrite = .ok x') : Quiet x x' := by
  rcases tryWrite_cases ran with rfl | ⟨-, request, -, rfl⟩ | more
  · exact ⟨rfl, rfl, rfl, rfl⟩
  · exact ⟨rfl, rfl, rfl, rfl⟩
  · rcases tryWriteNextHop_cases more with rfl | ⟨next, -, rfl⟩ <;> exact ⟨rfl, rfl, rfl, rfl⟩

/-- `Process` tells an error that is parked to the request that has come since. -/
theorem process_told (ran : x.process = .ok x') (reported : x.errorReported = true → ∀ id ∈ (desk x).waiting, id ∈ x.cancelled)
    (parked : x.errorReported = false → x.pendingError ≠ none → x.readHandler = none ∨ x.writeHandler = none)
    (failed : x.failed = true → x.errorReported = true ∨ x.pendingError ≠ none) : Told x' := by
  unfold process at ran
  split at ran
  · next was =>
    cases ran
    exact ⟨reported, fun none => absurd (was.symm.trans none) Bool.noConfusion, failed⟩
  next was =>
  rw [Bool.not_eq_true] at was
  split at ran
  · next failure pending =>
    cases ran
    rcases reportError_cases failure true x with ⟨same, none⟩ | ⟨kind, id, waits, same, -⟩
    · rw [same]
      exact ⟨by rintro ⟨⟩, fun _ _ => none, fun _ => Or.inr (by simp [pending])⟩
    · rw [same]
      refine ⟨fun _ other member => ?_, fun untold => absurd untold Bool.noConfusion, fun _ => Or.inl rfl⟩
      obtain ⟨-, second, differs, waits'⟩ := toldOf_waiting (show other ∈ (desk (toldOf kind id failure x)).waiting from member)
      have one := parked was (by simp [pending])
      cases kind <;> cases second <;> simp_all [desk, Desk.handler]
  · next none =>
    obtain ⟨y, read, wrote⟩ := bind_eq_ok.mp ran
    have quiet := (tryRead_quiet read).trans (tryWrite_quiet wrote)
    refine ⟨?_, ?_, ?_⟩
    · rw [quiet.errorReported, was]
      exact fun told => absurd told Bool.false_ne_true
    · rw [quiet.pendingError, none]
      exact fun _ some => absurd rfl some
    · rw [quiet.failed]
      intro was_failed
      rcases failed was_failed with told | some
      · exact absurd (was.symm.trans told) Bool.noConfusion
      · exact absurd none some

/-- A failure of the next hop, from its callback on. -/
theorem failure_told {failure : Failure} {tryReadFirst : Bool} {cancelable : Nat} {owed : Option Nat} {ending : Ending}
    (ran : y.finish ending = .ok x') (told : Told x)
    (reaches : Reaches owed ((desk x).handler (if tryReadFirst then .read else .write))
      ((desk x).handler (if tryReadFirst then .write else .read)) x)
    (captured : owed = some cancelable)
    (same : desk y = desk x ∧ y.errorReported = x.errorReported ∧ y.pendingError = x.pendingError)
    (ends : ending = if cancelable ∈ x.cancelled then .nothing else .reportError failure tryReadFirst) : Told x' := by
  obtain ⟨same, errorReported, pendingError⟩ := same
  have cancelled : y.cancelled = x.cancelled := congrArg Desk.cancelled same
  by_cases lost : cancelable ∈ x.cancelled
  · rw [ends, if_pos lost] at ran
    cases ran
    refine ⟨?_, ?_, fun _ => ?_⟩
    · rw [errorReported, same, cancelled]
      exact told.reported
    · rw [errorReported, pendingError, same]
      exact told.parked
    · rw [errorReported, pendingError]
      rcases reaches with was | pending | ⟨live, -⟩
      · exact Or.inl was
      · exact Or.inr pending
      · exact absurd lost (live cancelable captured)
  · rw [ends, if_neg lost] at ran
    cases ran
    refine onFailure_told ?_ ?_
    · rw [errorReported, same, cancelled]
      exact told.reported
    · rw [errorReported, same, cancelled]
      intro was
      rcases reaches with reported | pending | ⟨-, rest⟩
      · exact absurd (reported.symm.trans was) Bool.noConfusion
      · obtain ⟨noRead, noWrite⟩ := told.alone was pending
        refine Or.inl ?_
        cases tryReadFirst
        · exact noWrite
        · exact noRead
      · exact rest

theorem runPosted_quiet {task : Posted} {rest : List Posted} (ran : runPosted task { x with posted := rest } = .ok y) :
    (desk y).waiting = (desk x).waiting ∧ y.cancelled = x.cancelled ∧ Quiet x y := by
  unfold runPosted at ran
  split at ran
  · split at ran
    · cases ran
      exact ⟨rfl, rfl, rfl, rfl, rfl, rfl⟩
    · obtain ⟨m, -, ran⟩ := bind_eq_ok.mp ran
      split at ran <;> cases ran <;> exact ⟨rfl, rfl, rfl, rfl, rfl, rfl⟩
  · split at ran
    · cases ran
      exact ⟨rfl, rfl, rfl, rfl, rfl, rfl⟩
    · obtain ⟨m, -, ran⟩ := bind_eq_ok.mp ran
      cases ran
      exact ⟨rfl, rfl, rfl, rfl, rfl, rfl⟩

/-! ## Runs -/

theorem step_told (e : Event) (told : Told x) (unhindered : Unhindered lib fuel e x) (stepped : step lib fuel e x = .ok x') : Told x' := by
  obtain ⟨⟨y, ending⟩, arrived, ran⟩ := bind_eq_ok.mp stepped
  replace ran : y.finish ending = .ok x' := ran
  cases e with
  | read =>
    obtain ⟨y, began, done⟩ := bind_eq_ok.mp arrived
    cases done
    obtain ⟨was, m, -, rfl⟩ := beginRead_desk began
    exact process_told ran (fun now => absurd (was.symm.trans now) Bool.noConfusion)
      (fun _ pending => Or.inr (told.alone was pending).2) told.failed
  | write buffer =>
    obtain ⟨y, began, done⟩ := bind_eq_ok.mp arrived
    cases done
    obtain ⟨was, m, tunnel, session, -, rfl⟩ := beginWrite_desk began
    exact process_told ran (fun now => absurd (was.symm.trans now) Bool.noConfusion)
      (fun _ pending => Or.inl (told.alone was pending).1) told.failed
  | closeWrite => exact unhindered.elim
  | cancel cancelable =>
    cases arrived
    cases ran
    exact ⟨fun was id member => List.mem_cons_of_mem _ (told.reported was id member), told.parked, told.failed⟩
  | nextRead result =>
    unfold arrive at arrived
    dsimp only at arrived
    split at arrived
    · next cancelable owed =>
      obtain ⟨next, -, arrived⟩ := bind_eq_ok.mp arrived
      cases result with
      | ok buffer =>
        dsimp only at arrived
        split at arrived
        · cases arrived
          cases ran
          exact ⟨told.reported, told.parked, told.failed⟩
        · obtain ⟨⟨tunnel, session⟩, -, arrived⟩ := bind_eq_ok.mp arrived
          cases arrived
          exact process_told ran told.reported (fun was pending => Or.inl (told.alone was pending).1) told.failed
      | error failure =>
        cases failure with
        | eof =>
          obtain ⟨next', -, arrived⟩ := bind_eq_ok.mp arrived
          cases arrived
          exact @failure_told _ x x' _ .eof true _ _ _ ran told unhindered owed ⟨rfl, rfl, rfl⟩ rfl
        | error code =>
          cases arrived
          exact @failure_told _ x x' _ (.error code) true _ _ _ ran told unhindered owed ⟨rfl, rfl, rfl⟩ rfl
    · cases arrived
  | nextWritten failure =>
    unfold arrive at arrived
    dsimp only at arrived
    split at arrived
    · next cancelable data owed =>
      obtain ⟨next, -, arrived⟩ := bind_eq_ok.mp arrived
      cases failure with
      | none =>
        cases arrived
        by_cases lost : cancelable ∈ x.cancelled
        · rw [if_pos lost] at ran
          cases ran
          exact ⟨told.reported, told.parked, told.failed⟩
        · rw [if_neg lost] at ran
          exact process_told ran told.reported (fun was pending => Or.inl (told.alone was pending).1) told.failed
      | some code =>
        cases arrived
        exact @failure_told _ x x' _ (.error code) false cancelable _ _ ran told unhindered (congrArg _ owed)
          ⟨rfl, rfl, rfl⟩ rfl
    · cases arrived
  | posted =>
    unfold arrive at arrived
    dsimp only at arrived
    split at arrived
    · next task rest first =>
      obtain ⟨z, done, arrived⟩ := bind_eq_ok.mp arrived
      cases arrived
      cases ran
      obtain ⟨same, cancelled, quiet⟩ := runPosted_quiet done
      refine ⟨?_, ?_, ?_⟩
      · rw [quiet.errorReported, same, cancelled]
        exact told.reported
      · rw [quiet.errorReported, quiet.pendingError, same]
        exact told.parked
      · rw [quiet.failed, quiet.errorReported, quiet.pendingError]
        exact told.failed
    · cases arrived

/-- Every request has a Cancelable of its own. -/
def Numbered (x : TlsTransfer σ) : Prop := ∀ r ∈ x.requests, r.2 = r.1

theorem finish_requests {ending : Ending} (ran : y.finish ending = .ok x') : x'.requests = y.requests := by
  have told : ∀ (kind : Kind) (id : Nat) (failure : Failure), (toldOf kind id failure y).requests = y.requests := by
    intro kind id failure
    cases kind <;> rfl
  have reported : ∀ failure first, (y.reportError failure first).2.requests = y.requests := by
    intro failure first
    rcases reportError_cases failure first y with ⟨same, -⟩ | ⟨kind, id, -, same, -⟩
    · rw [same]
    · rw [same]
      exact told kind id failure
  cases ending with
  | nothing =>
    cases ran
    rfl
  | reportError failure first =>
    cases ran
    unfold onFailure
    dsimp only
    split <;> exact reported failure first
  | process =>
    replace ran : y.process = .ok x' := ran
    unfold process at ran
    split at ran
    · cases ran
      rfl
    · split at ran
      · cases ran
        exact reported _ true
      · obtain ⟨z, read, wrote⟩ := bind_eq_ok.mp ran
        exact ((tryRead_quiet read).trans (tryWrite_quiet wrote)).requests

theorem arrive_numbered {e : Event} {ending : Ending} (numbered : Numbered x) (unhindered : Unhindered lib fuel e x)
    (arrived : x.arrive lib fuel e = .ok (y, ending)) : Numbered y := by
  have more : ∀ r ∈ x.requests ++ [(x.fresh, x.fresh)], r.2 = r.1 := by
    intro r member
    rcases List.mem_append.mp member with old | new
    · exact numbered r old
    · obtain rfl := List.mem_singleton.mp new
      rfl
  cases e with
  | read =>
    obtain ⟨z, began, done⟩ := bind_eq_ok.mp arrived
    cases done
    obtain ⟨-, m, -, rfl⟩ := beginRead_desk began
    exact more
  | write buffer =>
    obtain ⟨z, began, done⟩ := bind_eq_ok.mp arrived
    cases done
    obtain ⟨-, m, tunnel, session, -, rfl⟩ := beginWrite_desk began
    exact more
  | closeWrite => exact unhindered.elim
  | cancel cancelable =>
    cases arrived
    exact numbered
  | nextRead result =>
    unfold arrive at arrived
    dsimp only at arrived
    split at arrived
    · have same : y.requests = x.requests := congrArg Desk.requests (onNextRead_desk arrived)
      exact fun r member => numbered r (same ▸ member)
    · cases arrived
  | nextWritten failure =>
    unfold arrive at arrived
    dsimp only at arrived
    split at arrived
    · have same : y.requests = x.requests := congrArg Desk.requests (onNextWritten_desk arrived)
      exact fun r member => numbered r (same ▸ member)
    · cases arrived
  | posted =>
    unfold arrive at arrived
    dsimp only at arrived
    split at arrived
    · obtain ⟨z, done, arrived⟩ := bind_eq_ok.mp arrived
      cases arrived
      obtain ⟨-, -, quiet⟩ := runPosted_quiet done
      exact fun r member => numbered r (quiet.requests ▸ member)
    · cases arrived

/-! ## Steps that succeed -/

/-- What the next hop owes, which is nothing more of its read side once it has failed. -/
structure Hop (x : TlsTransfer σ) : Prop where
  alive : x.failed = false → x.next.state = .established ∧ x.next.readClosed = false
  reads : x.nextRead ≠ none → x.failed = false ∧ x.next.reading = true
  writes : x.nextWrite ≠ none → x.next.writing = true

/-- A Read that is not answered, and not lost. -/
def ReadOwed (x : TlsTransfer σ) : Prop := x.readHandler ≠ none ∨ ∃ task ∈ x.posted, taskKind task = .read

/-- No Read has come, and `StateMachine()` is as it was. -/
structure Reads (x x' : TlsTransfer σ) : Prop where
  stateMachine : x'.stateMachine = x.stateMachine
  owed : ReadOwed x' → ReadOwed x

theorem Reads.trans {z : TlsTransfer σ} (first : Reads x y) (second : Reads y z) : Reads x z :=
  ⟨second.stateMachine.trans first.stateMachine, fun owed => first.owed (second.owed owed)⟩

theorem tryReadNextHop_ok (hop : Hop x) (alive : x.failed = false) :
    ∃ x', x.tryReadNextHop = .ok x' ∧ Hop x' ∧ Quiet x x' ∧ Reads x x' := by
  unfold tryReadNextHop
  split
  · exact ⟨x, rfl, hop, ⟨rfl, rfl, rfl, rfl⟩, rfl, id⟩
  · next idle =>
    have open_ := hop.alive alive
    have began : x.next.readBegin = .ok { x.next with reading := true } :=
      FlowStateMachine.readBegin_ok.mpr ⟨by simp [FlowStateMachine.isReadable, FlowStateMachine.openFor, idle, open_.1], rfl⟩
    rw [began, ok_bind]
    exact ⟨_, rfl, ⟨fun _ => open_, fun _ => ⟨alive, rfl⟩, hop.writes⟩, ⟨rfl, rfl, rfl, rfl⟩, rfl, id⟩

theorem tryWriteNextHop_ok (hop : Hop x) (alive : x.failed = false) :
    ∃ x', x.tryWriteNextHop = .ok x' ∧ Hop x' ∧ Reads x x' := by
  unfold tryWriteNextHop
  split
  · exact ⟨x, rfl, hop, rfl, id⟩
  split
  · exact ⟨x, rfl, hop, rfl, id⟩
  · next idle _ =>
    have open_ := hop.alive alive
    have began : x.next.writeBegin = .ok { x.next with writing := true } :=
      FlowStateMachine.writeBegin_ok.mpr ⟨by simp [FlowStateMachine.isWritable, FlowStateMachine.openFor, idle, open_.1], rfl⟩
    rw [began, ok_bind]
    exact ⟨_, rfl, ⟨fun _ => open_, hop.reads, fun _ => rfl⟩, rfl, id⟩

/-- A Read is put into a task. -/
theorem postRead_reads {request : Nat} (waits : x.readHandler = some request) : Reads x (x.postRead request) := by
  refine ⟨rfl, ?_⟩
  rintro (handler | ⟨task, member, kind⟩)
  · exact absurd rfl handler
  · rcases List.mem_append.mp member with before | new
    · exact Or.inr ⟨task, before, kind⟩
    · exact Or.inl (by simp [waits])

theorem postWrite_reads (request : Nat) : Reads x (x.postWrite request) := by
  refine ⟨rfl, ?_⟩
  rintro (handler | ⟨task, member, kind⟩)
  · exact Or.inl handler
  · rcases List.mem_append.mp member with before | new
    · exact Or.inr ⟨task, before, kind⟩
    · obtain rfl := List.mem_singleton.mp new
      cases kind

theorem tryRead_ok (hop : Hop x) (alive : x.failed = false) :
    ∃ x', x.tryRead = .ok x' ∧ Hop x' ∧ Quiet x x' ∧ Reads x x' := by
  unfold tryRead
  split
  · next request waits =>
    have posts := @postRead_reads _ x request waits
    split
    · split
      · obtain ⟨x', ran, hop', quiet, reads⟩ :=
          @tryReadNextHop_ok _ (x.postRead request) ⟨hop.alive, hop.reads, hop.writes⟩ alive
        exact ⟨x', ran, hop', ⟨quiet.requests, quiet.errorReported, quiet.pendingError, quiet.failed⟩, posts.trans reads⟩
      · exact ⟨_, rfl, ⟨hop.alive, hop.reads, hop.writes⟩, ⟨rfl, rfl, rfl, rfl⟩, posts⟩
    · exact tryReadNextHop_ok hop alive
  · split
    · exact tryReadNextHop_ok hop alive
    · exact ⟨x, rfl, hop, ⟨rfl, rfl, rfl, rfl⟩, rfl, id⟩

theorem tryWrite_ok (hop : Hop x) (alive : x.failed = false) : ∃ x', x.tryWrite = .ok x' ∧ Hop x' ∧ Reads x x' := by
  unfold tryWrite
  split
  · exact ⟨_, rfl, ⟨hop.alive, hop.reads, hop.writes⟩, postWrite_reads _⟩
  · exact ⟨x, rfl, hop, rfl, id⟩
  · exact tryWriteNextHop_ok hop alive

/-- A handler that is called with a failure waits no more. -/
theorem reportError_kept (failure : Failure) (tryReadFirst : Bool) (x : TlsTransfer σ) :
    (Hop x → Hop (x.reportError failure tryReadFirst).2) ∧ Reads x (x.reportError failure tryReadFirst).2 := by
  rcases reportError_cases failure tryReadFirst x with ⟨same, -⟩ | ⟨kind, id, -, same, -⟩
  · rw [same]
    exact ⟨fun hop => hop, rfl, fun owed => owed⟩
  · rw [same]
    cases kind with
    | read =>
      refine ⟨fun hop => ⟨hop.alive, hop.reads, hop.writes⟩, rfl, ?_⟩
      rintro (handler | task)
      · exact absurd rfl handler
      · exact Or.inr task
    | write => exact ⟨fun hop => ⟨hop.alive, hop.reads, hop.writes⟩, rfl, fun owed => owed⟩

/-- Once the next hop has failed, `Process` asks it for nothing. -/
theorem process_ok (hop : Hop x) (told : x.failed = true → x.errorReported = true ∨ x.pendingError ≠ none) :
    ∃ x', x.process = .ok x' ∧ Hop x' ∧ Reads x x' := by
  unfold process
  split
  · exact ⟨x, rfl, hop, rfl, id⟩
  next unreported =>
  split
  · next failure pending =>
    have kept := reportError_kept failure true x
    have hop' := kept.1 hop
    exact ⟨_, rfl, ⟨hop'.alive, hop'.reads, hop'.writes⟩, kept.2.stateMachine, kept.2.owed⟩
  · next none =>
    have alive : x.failed = false := Bool.eq_false_iff.mpr fun failed =>
      (told failed).elim unreported fun pending => pending none
    obtain ⟨y, read, hopRead, quiet, reads⟩ := tryRead_ok hop alive
    obtain ⟨x', wrote, hopWritten, writes⟩ := tryWrite_ok hopRead (quiet.failed.trans alive)
    rw [read, ok_bind]
    exact ⟨x', wrote, hopWritten, reads.trans writes⟩

/-- An event comes to its end, and leaves an error behind for a `Process` that follows a
failure. -/
structure Arrives (ending : Ending) (y : TlsTransfer σ) : Prop where
  hop : Hop y
  told : ending = .process → y.failed = true → y.errorReported = true ∨ y.pendingError ≠ none
  reading : ReadOwed y → y.stateMachine.reading = true

theorem finish_ok {ending : Ending} (arrives : Arrives ending y) :
    ∃ x', y.finish ending = .ok x' ∧ Hop x' ∧ (ReadOwed x' → x'.stateMachine.reading = true) := by
  have kept : ∀ x', Reads y x' → ReadOwed x' → x'.stateMachine.reading = true := fun x' reads owed =>
    reads.stateMachine ▸ arrives.reading (reads.owed owed)
  cases ending with
  | nothing => exact ⟨y, rfl, arrives.hop, arrives.reading⟩
  | process =>
    obtain ⟨x', ran, hop, reads⟩ := process_ok arrives.hop (arrives.told rfl)
    exact ⟨x', ran, hop, kept x' reads⟩
  | reportError failure tryReadFirst =>
    have told := reportError_kept failure tryReadFirst y
    have hop := told.1 arrives.hop
    refine ⟨_, rfl, ?_, kept _ ?_⟩ <;> unfold onFailure <;> dsimp only <;> split
    · exact ⟨hop.alive, hop.reads, hop.writes⟩
    · exact ⟨hop.alive, hop.reads, hop.writes⟩
    · exact ⟨told.2.stateMachine, told.2.owed⟩
    · exact ⟨told.2.stateMachine, told.2.owed⟩

/-- What every step keeps. -/
structure Sound (x : TlsTransfer σ) : Prop where
  orderly : (desk x).Orderly
  numbered : Numbered x
  told : Told x
  hop : Hop x
  reading : ReadOwed x → x.stateMachine.reading = true

/-- Once the task of a Read has run, no Read is owed. -/
theorem Sound.task_read (sound : Sound x) {task : Posted} {rest : List Posted} (first : x.posted = task :: rest)
    (kind : taskKind task = .read) : x.readHandler = none ∧ ∀ other ∈ rest, taskKind other ≠ .read := by
  obtain ⟨-, none, last⟩ := @Desk.outstanding_of_task (desk x) task rest first (sound.orderly.single _)
  rw [kind] at none last
  refine ⟨none, fun other member same => ?_⟩
  exact absurd (List.mem_filter.mpr ⟨member, by simpa using same⟩) (last ▸ List.not_mem_nil)

theorem runPosted_ok {task : Posted} {rest : List Posted} (sound : Sound x) (first : x.posted = task :: rest)
    (writing : taskKind task = .write → taskCancelable task ∈ x.cancelled ∨ x.stateMachine.writing = true) :
    ∃ y, runPosted task { x with posted := rest } = .ok y ∧ Arrives .nothing y := by
  have owes : (x.readHandler ≠ none ∨ ∃ other ∈ rest, taskKind other = .read) → ReadOwed x := by
    rintro (some | ⟨other, member, kind⟩)
    · exact Or.inl some
    · exact Or.inr ⟨other, first ▸ List.mem_cons_of_mem task member, kind⟩
  have hop : Hop { x with posted := rest } := ⟨sound.hop.alive, sound.hop.reads, sound.hop.writes⟩
  cases task with
  | read request cancelable result =>
    have owed : ReadOwed x := Or.inr ⟨_, first ▸ List.mem_cons_self, rfl⟩
    have ended : x.stateMachine.readEnd = .ok { x.stateMachine with reading := false } :=
      FlowStateMachine.readEnd_ok.mpr ⟨sound.reading owed, rfl⟩
    obtain ⟨idle, last⟩ := sound.task_read first rfl
    have nothing : ¬(x.readHandler ≠ none ∨ ∃ other ∈ rest, taskKind other = .read) := by
      rintro (some | ⟨other, member, kind⟩)
      · exact some idle
      · exact last other member kind
    unfold runPosted
    dsimp only
    split
    · exact ⟨_, rfl, hop, nofun, fun owed => sound.reading (owes owed)⟩
    · rw [ended, ok_bind]
      cases result with
      | ok data => exact ⟨_, rfl, ⟨hop.alive, hop.reads, hop.writes⟩, nofun, fun owed => absurd owed nothing⟩
      | error code => exact ⟨_, rfl, ⟨hop.alive, hop.reads, hop.writes⟩, nofun, fun owed => absurd owed nothing⟩
  | write request cancelable =>
    unfold runPosted
    dsimp only
    split
    · exact ⟨_, rfl, hop, nofun, fun owed => sound.reading (owes owed)⟩
    · next live =>
      have ended : x.stateMachine.writeEnd = .ok { x.stateMachine with writing := false } :=
        FlowStateMachine.writeEnd_ok.mpr ⟨(writing rfl).resolve_left live, rfl⟩
      rw [ended, ok_bind]
      exact ⟨_, rfl, ⟨hop.alive, hop.reads, hop.writes⟩, nofun, fun owed => sound.reading (owes owed)⟩

theorem onNextRead_ok {result : Except Failure Chunks} {cancelable : Nat} (sound : Sound x) (owed : x.nextRead = some cancelable)
    (unhindered : Unhindered lib fuel (.nextRead result) x) :
    ∃ y ending, x.onNextRead lib fuel result cancelable = .ok (y, ending) ∧ Arrives ending y := by
  obtain ⟨alive, reading⟩ := sound.hop.reads (by simp [owed])
  obtain ⟨established, readOpen⟩ := sound.hop.alive alive
  have ended : x.next.readEnd = .ok { x.next with reading := false } := FlowStateMachine.readEnd_ok.mpr ⟨reading, rfl⟩
  have none_read : ∀ p : Prop, (none : Option Nat) ≠ none → p := fun _ some => absurd rfl some
  unfold onNextRead
  rw [ended, ok_bind]
  cases result with
  | ok buffer =>
    have hop : Hop { x with next := { x.next with reading := false }, nextRead := none } :=
      ⟨fun _ => ⟨established, readOpen⟩, none_read _, sound.hop.writes⟩
    dsimp only
    split
    · exact ⟨_, _, rfl, hop, nofun, sound.reading⟩
    · next live =>
      have returns : Returns lib (x.tunnel.writeCipherTextData fuel buffer) x.session := by
        rcases unhindered with ⟨c, member, lost⟩ | returns
        · rw [owed] at member
          cases member
          exact absurd lost live
        · exact returns
      obtain ⟨⟨tunnel, session⟩, ran⟩ := returns
      rw [ran, ok_bind]
      exact ⟨_, _, rfl, ⟨hop.alive, hop.reads, hop.writes⟩, fun _ => sound.told.failed, sound.reading⟩
  | error failure =>
    have lost : ∀ (lost : Prop) [Decidable lost] (failure : Failure),
        (if lost then Ending.nothing else .reportError failure true) ≠ .process := by
      intro lost _ failure
      split <;> nofun
    cases failure with
    | eof =>
      have closed : FlowStateMachine.readClose { x.next with reading := false } =
          .ok { x.next with reading := false, readClosed := true, state := .closing } :=
        FlowStateMachine.readClose_ok.mpr ⟨Or.inl established, readOpen, by simp [established]⟩
      dsimp only
      rw [closed, ok_bind]
      exact ⟨_, _, rfl, ⟨nofun, none_read _, sound.hop.writes⟩, fun ending => absurd ending (lost _ _), sound.reading⟩
    | error code =>
      exact ⟨_, _, rfl, ⟨nofun, none_read _, fun some => absurd rfl some⟩, fun ending => absurd ending (lost _ _), sound.reading⟩

theorem onNextWritten_ok {failure : Option Nat} {cancelable : Nat} {data : Bytes} (sound : Sound x)
    (owed : x.nextWrite = some (cancelable, data)) :
    ∃ y ending, x.onNextWritten failure cancelable data = .ok (y, ending) ∧ Arrives ending y := by
  have ended : x.next.writeEnd = .ok { x.next with writing := false } :=
    FlowStateMachine.writeEnd_ok.mpr ⟨sound.hop.writes (by simp [owed]), rfl⟩
  unfold onNextWritten
  rw [ended, ok_bind]
  cases failure with
  | none =>
    exact ⟨_, _, rfl, ⟨sound.hop.alive, sound.hop.reads, fun some => absurd rfl some⟩, fun _ => sound.told.failed, sound.reading⟩
  | some code =>
    refine ⟨_, _, rfl, ⟨nofun, fun some => absurd rfl some, fun some => absurd rfl some⟩, fun ending => ?_, sound.reading⟩
    split at ending <;> cases ending

theorem arrive_ok {e : Event} (sound : Sound x) (admits : Admits e x) (unhindered : Unhindered lib fuel e x) :
    ∃ y ending, x.arrive lib fuel e = .ok (y, ending) ∧ Arrives ending y := by
  have hop := sound.hop
  cases e with
  | read =>
    obtain ⟨unreported, readable⟩ := unhindered
    have began := FlowStateMachine.readBegin_ok.mpr ⟨readable, rfl⟩
    rw [arrive, beginRead, boostAssert_of unreported, ok_bind, began, ok_bind]
    exact ⟨_, _, rfl, ⟨hop.alive, hop.reads, hop.writes⟩, fun _ => sound.told.failed, fun _ => rfl⟩
  | write buffer =>
    obtain ⟨unreported, writable, ⟨tunnel, session⟩, ran⟩ := unhindered
    have began := FlowStateMachine.writeBegin_ok.mpr ⟨writable, rfl⟩
    rw [arrive, beginWrite, boostAssert_of unreported, ok_bind, began, ok_bind, ran, ok_bind]
    exact ⟨_, _, rfl, ⟨hop.alive, hop.reads, hop.writes⟩, fun _ => sound.told.failed, sound.reading⟩
  | closeWrite => exact unhindered.elim
  | cancel cancelable =>
    refine ⟨_, _, rfl, ⟨hop.alive, hop.reads, hop.writes⟩, fun ending => ?_, sound.reading⟩
    cases ending
  | nextRead result =>
    obtain ⟨cancelable, owed⟩ := Option.isSome_iff_exists.mp admits
    simp only [arrive, owed]
    exact onNextRead_ok sound owed unhindered
  | nextWritten failure =>
    obtain ⟨⟨cancelable, data⟩, owed⟩ := Option.isSome_iff_exists.mp admits
    simp only [arrive, owed]
    exact onNextWritten_ok sound owed
  | posted =>
    obtain ⟨task, rest, first⟩ := List.exists_cons_of_ne_nil admits
    obtain ⟨y, ran, arrives⟩ := runPosted_ok sound first (unhindered task (by simp [first]))
    simp only [arrive, first, ran, ok_bind, pure_eq_ok]
    exact ⟨y, .nothing, rfl, arrives⟩

/-- A step of a run that is not hindered succeeds. -/
theorem step_sound (e : Event) (sound : Sound x) (admits : Admits e x) (unhindered : Unhindered lib fuel e x) :
    ∃ x', step lib fuel e x = .ok x' ∧ Sound x' := by
  obtain ⟨y, ending, arrived, arrives⟩ := arrive_ok sound admits unhindered
  obtain ⟨x', ran, hop, reading⟩ := finish_ok arrives
  have stepped : step lib fuel e x = .ok x' := by
    rw [step, arrived]
    exact ran
  have same := finish_requests ran
  refine ⟨x', stepped, step_orderly sound.orderly stepped, ?_, step_told e sound.told unhindered stepped, hop, reading⟩
  exact fun r member => arrive_numbered sound.numbered unhindered arrived r (same ▸ member)

theorem answered_of_sound (sound : Sound x) : Answered x where
  atMostOnce id := by
    have once := sound.orderly.once id
    rw [Desk.count_places] at once
    omega
  all failed done r member live := by
    have same := sound.numbered r member
    have kept := sound.orderly.kept r member same live
    have once := sound.orderly.once r.1
    rw [← List.count_pos_iff] at kept
    rw [Desk.count_places] at kept once
    have idle : (desk x).posted = [] := done
    have told := sound.told
    have waits : ∀ kind, ((desk x).outstanding kind).count r.1 = 0 := by
      intro kind
      rw [List.count_eq_zero]
      intro member
      have waiting : r.1 ∈ (desk x).waiting := by
        rw [Desk.outstanding, idle] at member
        cases kind <;> simp_all [Desk.waiting, Desk.handler]
      rcases Bool.eq_false_or_eq_true x.errorReported with was | was
      · exact live (same ▸ told.reported was r.1 waiting)
      · have pending := (told.failed failed).resolve_left (by simp [was])
        rw [told.parked was pending] at waiting
        exact absurd waiting List.not_mem_nil
    rw [waits .read, waits .write] at kept once
    omega

/-- Every step of a run succeeds and leaves no request unanswered once the next hop has
failed, as long as nothing hinders it. -/
theorem requests_answered (lib : OpenSsl σ) (fuel : Nat) (input : List Event) (tunnel : TlsTunnel) (session : σ)
    (admitted : (machine lib fuel).Admitted input { tunnel, session, written := session })
    (unhindered : (machine lib fuel).Along (Unhindered lib fuel) input { tunnel, session, written := session }) :
    (machine lib fuel).AllSteps (fun _ _ x' => Answered x') input { tunnel, session, written := session } := by
  refine @Machine.allSteps_of_along _ _ _ (machine lib fuel) Sound _ (Unhindered lib fuel) ?_ input _ ?_ admitted unhindered
  · intro e x sound admits fit
    obtain ⟨x', stepped, after⟩ := step_sound e sound admits fit
    exact ⟨x', stepped, answered_of_sound after, after⟩
  · refine ⟨start_orderly tunnel session, nofun, ⟨nofun, fun _ some => absurd rfl some, nofun⟩,
      ⟨fun _ => ⟨rfl, rfl⟩, fun some => absurd rfl some, fun some => absurd rfl some⟩, ?_⟩
    rintro (handler | ⟨task, member, -⟩)
    · exact absurd rfl handler
    · cases member

/-! ## Runs over records without encryption -/

open PlainRecords

/-- What the peer sends. -/
def incoming : Chunks := ⟨[record applicationData [1, 2]], by decide⟩

/-- A Read and a Write that are answered, and a Read that gets the EOF. -/
theorem requests_answered_inTurn :
    (machine PlainRecords.openSsl 4).AllSteps (fun _ _ x' => Answered x')
      [.write oneByte, .nextWritten none, .posted, .read, .nextRead (.ok incoming), .posted, .read, .nextRead (.error .eof)]
      { tunnel := {}, session := {}, written := {} } :=
  requests_answered PlainRecords.openSsl 4 _ {} {} (by decide) (by decide)

/-- The EOF comes while a Read and a Write wait, and the Write is never answered. -/
theorem write_unanswered :
    (machine PlainRecords.openSsl 4).Runs [.read, .write oneByte, .nextRead (.error .eof), .nextWritten none]
      { tunnel := {}, session := {}, written := {} }
      (fun x => x.failed = true ∧ x.posted = [] ∧ x.cancelled = [] ∧ x.requests = [(1, 1), (2, 2)] ∧
        x.answers.map Answer.request = [1]) :=
  ⟨by decide, _, rfl, by decide⟩

end LibNekit.Guarantees.TlsRequests
