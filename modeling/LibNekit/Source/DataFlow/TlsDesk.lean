import LibNekit.Source.DataFlow.TlsTransfer

/-!
# Where the requests of a TlsDataFlow are

A request waits in its handler, then in a task or not at all, and then it is answered.
`Orderly` says that each is in one place at a time, and every step keeps it.
-/
namespace LibNekit.Source

open LibNekit.Library Ssl TlsTransfer

namespace TlsDesk

variable {σ : Type}

def taskKind : Posted → Kind
  | .read .. => .read
  | .write .. => .write

def taskRequest : Posted → Nat
  | .read request _ _ | .write request _ => request

def taskCancelable : Posted → Nat
  | .read _ cancelable _ | .write _ cancelable => cancelable

/-- The part of a flow that says where its requests are. -/
structure Desk where
  stateMachine : FlowStateMachine
  readHandler : Option Nat
  writeHandler : Option Nat
  readCancelable : Nat
  writeCancelable : Nat
  posted : List Posted
  requests : List (Nat × Nat)
  cancelled : List Nat
  answers : List Answer

def desk (x : TlsTransfer σ) : Desk :=
  ⟨x.stateMachine, x.readHandler, x.writeHandler, x.readCancelable, x.writeCancelable, x.posted, x.requests, x.cancelled,
    x.answers⟩

namespace Desk

def handler (d : Desk) : Kind → Option Nat
  | .read => d.readHandler
  | .write => d.writeHandler

def cancelable (d : Desk) : Kind → Nat
  | .read => d.readCancelable
  | .write => d.writeCancelable

/-- Whether `ReadBegin()`, or `WriteBegin()`, is allowed. -/
def ready (d : Desk) : Kind → Bool
  | .read => d.stateMachine.isReadable
  | .write => d.stateMachine.isWritable

def waiting (d : Desk) : List Nat := d.readHandler.toList ++ d.writeHandler.toList

/-- The requests of a kind that are not answered. -/
def outstanding (d : Desk) (kind : Kind) : List Nat :=
  (d.handler kind).toList ++ (d.posted.filter fun task => taskKind task = kind).map taskRequest

def answered (d : Desk) : List Nat := d.answers.map Answer.request

def places (d : Desk) : List Nat := d.outstanding .read ++ d.outstanding .write ++ d.answered

/-- Each request is in one place, and one with a Cancelable of its own is not lost unless it
is cancelled. -/
structure Orderly (d : Desk) : Prop where
  once : ∀ id, d.places.count id ≤ 1
  bounded : ∀ id ∈ d.places, id ≤ d.requests.length
  kept : ∀ r ∈ d.requests, r.2 = r.1 → r.2 ∉ d.cancelled → r.1 ∈ d.places
  current : ∀ kind, d.cancelable kind ≤ d.requests.length
  handlers : ∀ kind, ∀ id ∈ d.handler kind, d.cancelable kind = id
  tasks : ∀ task ∈ d.posted, taskCancelable task = taskRequest task
  single : ∀ kind, (d.outstanding kind).length ≤ 1
  busy : ∀ kind, d.outstanding kind ≠ [] → d.ready kind = false

end Desk

/-! ## What the desk does -/

namespace Desk

variable {d d' : Desk}

theorem count_places (d : Desk) (id : Nat) :
    d.places.count id = (d.outstanding .read).count id + (d.outstanding .write).count id + d.answered.count id := by
  rw [places, List.count_append, List.count_append]

theorem outstanding_of_waiting {kind : Kind} {id : Nat} (waits : d.handler kind = some id) (single : (d.outstanding kind).length ≤ 1) :
    d.outstanding kind = [id] ∧ (d.posted.filter fun task => taskKind task = kind) = [] := by
  unfold outstanding at single ⊢
  rw [waits] at single ⊢
  have none : (d.posted.filter fun task => taskKind task = kind) = [] :=
    List.length_eq_zero_iff.mp (by simpa using single)
  rw [none]
  exact ⟨rfl, rfl⟩

/-- Nothing gets into a second place, and only what is cancelled is lost. -/
def Tallies (d d' : Desk) : Prop :=
  ∀ id, d'.places.count id ≤ d.places.count id ∧ (id ∉ d.cancelled → d'.places.count id = d.places.count id)

theorem Orderly.of_tallies (orderly : Orderly d) (tallies : Tallies d d') (requests : d'.requests = d.requests)
    (cancelled : d'.cancelled = d.cancelled) (cancelables : ∀ kind, d'.cancelable kind = d.cancelable kind) (handlers : ∀ kind, ∀ id ∈ d'.handler kind, d'.cancelable kind = id)
    (tasks : ∀ task ∈ d'.posted, taskCancelable task = taskRequest task)
    (single : ∀ kind, d'.outstanding kind = [] ∨
      (d'.outstanding kind = d.outstanding kind ∧ (d.ready kind = false → d'.ready kind = false))) : Orderly d' where
  once id := Nat.le_trans (tallies id).1 (orderly.once id)
  bounded id member := by
    rw [requests]
    exact orderly.bounded id (List.count_pos_iff.mp (Nat.lt_of_lt_of_le (List.count_pos_iff.mpr member) (tallies id).1))
  kept r member own live := by
    rw [requests] at member
    rw [cancelled] at live
    rw [← List.count_pos_iff, (tallies r.1).2 (own ▸ live), List.count_pos_iff]
    exact orderly.kept r member own live
  current kind := by
    rw [cancelables, requests]
    exact orderly.current kind
  handlers := handlers
  tasks := tasks
  single kind := by
    rcases single kind with none | ⟨same, -⟩
    · simp [none]
    · exact same ▸ orderly.single kind
  busy kind some := by
    rcases single kind with none | ⟨same, ready⟩
    · exact absurd none some
    · exact ready (orderly.busy kind (same ▸ some))

/-- A request that was outstanding has been answered, or was cancelled. -/
theorem tallies_of_settled {kind : Kind} {id : Nat} (here : d.outstanding kind = [id]) (gone : d'.outstanding kind = [])
    (others : ∀ other, other ≠ kind → d'.outstanding other = d.outstanding other)
    (told : d'.answered = d.answered ++ [id] ∨ (d'.answered = d.answered ∧ id ∈ d.cancelled)) : Tallies d d' := by
  intro other
  rw [count_places, count_places]
  have answered : d'.answered.count other ≤ d.answered.count other + [id].count other ∧
      (other ∉ d.cancelled → d'.answered.count other = d.answered.count other + [id].count other) := by
    rcases told with told | ⟨told, lost⟩
    · rw [told, List.count_append]
      exact ⟨Nat.le_refl _, fun _ => rfl⟩
    · rw [told]
      refine ⟨Nat.le_add_right _ _, fun live => ?_⟩
      have differs : id ≠ other := fun same => live (same ▸ lost)
      simp [differs]
  cases kind with
  | read =>
    rw [gone, here, others .write nofun, List.count_nil]
    grind
  | write =>
    rw [gone, here, others .read nofun, List.count_nil]
    grind

/-- A handler has been called. -/
def tell (kind : Kind) (a : Answer) (d : Desk) : Desk :=
  match kind with
  | .read => { d with readHandler := none, answers := d.answers ++ [a] }
  | .write => { d with writeHandler := none, answers := d.answers ++ [a] }

/-- A handler has been put into a task. -/
def post (kind : Kind) (task : Posted) (d : Desk) : Desk :=
  match kind with
  | .read => { d with readHandler := none, posted := d.posted ++ [task] }
  | .write => { d with writeHandler := none, posted := d.posted ++ [task] }

theorem Orderly.tell (orderly : Orderly d) {kind : Kind} {a : Answer} (waits : d.handler kind = some a.request) :
    Orderly (d.tell kind a) := by
  obtain ⟨here, none⟩ := outstanding_of_waiting waits (orderly.single kind)
  have gone : (d.tell kind a).outstanding kind = [] := by
    cases kind <;> simpa [outstanding, Desk.tell, handler] using none
  have others : ∀ other, other ≠ kind → (d.tell kind a).outstanding other = d.outstanding other := by
    intro other differs
    cases kind <;> cases other <;> first | exact absurd rfl differs | rfl
  have answered : (d.tell kind a).answered = d.answered ++ [a.request] := by
    cases kind <;> exact List.map_append
  refine orderly.of_tallies (tallies_of_settled here gone others (Or.inl answered)) ?_ ?_ ?_ ?_ ?_ fun other => ?_
  · cases kind <;> rfl
  · cases kind <;> rfl
  · intro other
    cases kind <;> cases other <;> rfl
  · intro other id member
    have kept := orderly.handlers other id
    cases kind <;> cases other <;> first | exact kept member | cases member
  · cases kind <;> exact orderly.tasks
  · by_cases same : other = kind
    · exact Or.inl (same ▸ gone)
    · refine Or.inr ⟨others other same, fun ready => ?_⟩
      cases kind <;> cases other <;> exact ready

theorem Orderly.post (orderly : Orderly d) {task : Posted} (waits : d.handler (taskKind task) = some (taskRequest task))
    (captured : taskCancelable task = d.cancelable (taskKind task)) : Orderly (d.post (taskKind task) task) := by
  obtain ⟨here, none⟩ := outstanding_of_waiting waits (orderly.single (taskKind task))
  have same : ∀ other, (d.post (taskKind task) task).outstanding other = d.outstanding other := by
    intro other
    by_cases own : other = taskKind task
    · subst own
      rw [here, outstanding]
      cases task <;> simpa [Desk.post, handler, taskKind] using none
    · cases task <;> cases other <;> first | exact absurd rfl own | simp [outstanding, Desk.post, handler, taskKind]
  have answered : (d.post (taskKind task) task).answered = d.answered := by cases task <;> rfl
  refine orderly.of_tallies (fun id => ?_) ?_ ?_ ?_ ?_ ?_ fun other => Or.inr ⟨same other, fun ready => ?_⟩
  · rw [count_places, count_places, same, same, answered]
    exact ⟨Nat.le_refl _, fun _ => rfl⟩
  · cases task <;> rfl
  · cases task <;> rfl
  · intro other
    cases task <;> cases other <;> rfl
  · intro other id member
    have kept := orderly.handlers other id
    cases task <;> cases other <;> first | exact kept member | cases member
  · intro other member
    have own := orderly.handlers _ _ waits
    have last : other ∈ d.posted ∨ other = task := by
      cases task <;> simpa [Desk.post, taskKind] using member
    rcases last with before | rfl
    · exact orderly.tasks other before
    · exact captured.trans own
  · cases task <;> cases other <;> exact ready

/-- The first task has the only request of its kind. -/
theorem outstanding_of_task {task : Posted} {rest : List Posted} (first : d.posted = task :: rest)
    (single : (d.outstanding (taskKind task)).length ≤ 1) :
    d.outstanding (taskKind task) = [taskRequest task] ∧ d.handler (taskKind task) = none ∧
      (rest.filter fun t => taskKind t = taskKind task) = [] := by
  have split : d.outstanding (taskKind task) =
      (d.handler (taskKind task)).toList ++ taskRequest task :: (rest.filter fun t => taskKind t = taskKind task).map taskRequest := by
    rw [outstanding, first, List.filter_cons_of_pos (by simp), List.map_cons]
  rw [split, List.length_append, List.length_cons, List.length_map] at single
  have none : (d.handler (taskKind task)).toList = [] := List.length_eq_zero_iff.mp (by omega)
  have last : (rest.filter fun t => taskKind t = taskKind task) = [] := List.length_eq_zero_iff.mp (by omega)
  rw [none, last] at split
  exact ⟨split, Option.toList_eq_nil_iff.mp none, last⟩

/-- The first task is gone. -/
theorem Orderly.run (orderly : Orderly d) {task : Posted} {rest : List Posted} {m : FlowStateMachine} {answers : List Answer}
    (first : d.posted = task :: rest)
    (told : answers.map Answer.request = d.answered ++ [taskRequest task] ∨ (answers = d.answers ∧ taskCancelable task ∈ d.cancelled))
    (ready : ∀ kind, kind ≠ taskKind task → d.ready kind = false →
      Desk.ready { d with posted := rest, stateMachine := m, answers } kind = false) :
    Orderly { d with posted := rest, stateMachine := m, answers } := by
  have own := orderly.tasks task (first ▸ List.mem_cons_self)
  obtain ⟨split, none, last⟩ := outstanding_of_task first (orderly.single (taskKind task))
  have gone : Desk.outstanding { d with posted := rest, stateMachine := m, answers } (taskKind task) = [] := by
    show (d.handler (taskKind task)).toList ++ _ = _
    rw [none, last]
    rfl
  have others : ∀ other, other ≠ taskKind task →
      Desk.outstanding { d with posted := rest, stateMachine := m, answers } other = d.outstanding other := by
    intro other differs
    rw [outstanding, outstanding, first, List.filter_cons_of_neg (by simpa using Ne.symm differs)]
    rfl
  refine orderly.of_tallies (tallies_of_settled split gone others ?_) rfl rfl (fun _ => rfl) orderly.handlers ?_ fun other => ?_
  · rcases told with told | ⟨rfl, lost⟩
    · exact Or.inl told
    · exact Or.inr ⟨rfl, own ▸ lost⟩
  · exact fun other member => orderly.tasks other (first ▸ List.mem_cons_of_mem task member)
  · by_cases same : other = taskKind task
    · exact Or.inl (same ▸ gone)
    · exact Or.inr ⟨others other same, ready other same⟩

def fresh (d : Desk) : Nat := d.requests.length + 1

/-- A new request, with a Cancelable of its own. -/
def take (kind : Kind) (m : FlowStateMachine) (d : Desk) : Desk :=
  match kind with
  | .read =>
    { d with
      stateMachine := m, readHandler := some d.fresh, readCancelable := d.fresh, requests := d.requests ++ [(d.fresh, d.fresh)] }
  | .write =>
    { d with
      stateMachine := m, writeHandler := some d.fresh, writeCancelable := d.fresh, requests := d.requests ++ [(d.fresh, d.fresh)] }

theorem Orderly.take (orderly : Orderly d) {kind : Kind} {m : FlowStateMachine} (idle : d.ready kind = true)
    (busy : (d.take kind m).ready kind = false)
    (ready : ∀ other, other ≠ kind → d.ready other = false → (d.take kind m).ready other = false) :
    Orderly (d.take kind m) := by
  have nothing : d.outstanding kind = [] := by
    by_contra some
    rw [orderly.busy kind some] at idle
    cases idle
  have mine : (d.take kind m).outstanding kind = [d.fresh] := by
    unfold outstanding at nothing
    have empty := (List.append_eq_nil_iff.mp nothing).2
    cases kind <;> exact congrArg (d.fresh :: ·) empty
  have others : ∀ other, other ≠ kind → (d.take kind m).outstanding other = d.outstanding other := by
    intro other differs
    cases kind <;> cases other <;> first | exact absurd rfl differs | rfl
  have answered : (d.take kind m).answered = d.answered := by cases kind <;> rfl
  have requests : (d.take kind m).requests = d.requests ++ [(d.fresh, d.fresh)] := by cases kind <;> rfl
  have cancelled : (d.take kind m).cancelled = d.cancelled := by cases kind <;> rfl
  have tally : ∀ id, (d.take kind m).places.count id = d.places.count id + [d.fresh].count id := by
    intro id
    rw [count_places, count_places]
    cases kind with
    | read =>
      rw [mine, nothing, others .write nofun, answered, List.count_nil]
      omega
    | write =>
      rw [mine, nothing, others .read nofun, answered, List.count_nil]
      omega
  have new : d.places.count d.fresh = 0 := by
    rw [List.count_eq_zero]
    intro member
    have bound := orderly.bounded d.fresh member
    exact absurd bound (Nat.not_succ_le_self _)
  have only : ∀ id, id ≠ d.fresh → [d.fresh].count id = 0 := fun id differs => List.count_eq_zero.mpr (by simpa using differs)
  refine ⟨fun id => ?_, fun id member => ?_, fun r member own live => ?_, fun other => ?_, ?_, ?_, fun other => ?_, fun other some => ?_⟩
  · rw [tally]
    by_cases same : id = d.fresh
    · subst same
      rw [new]
      simp
    · rw [only id same]
      exact orderly.once id
  · rw [requests, List.length_append, List.length_singleton]
    rw [← List.count_pos_iff, tally] at member
    by_cases same : id = d.fresh
    · exact Nat.le_of_eq same
    · rw [only id same] at member
      exact Nat.le_succ_of_le (orderly.bounded id (List.count_pos_iff.mp member))
  · rw [← List.count_pos_iff, tally]
    rw [requests] at member
    rw [cancelled] at live
    rcases List.mem_append.mp member with old | new
    · exact Nat.lt_of_lt_of_le (List.count_pos_iff.mpr (orderly.kept r old own live)) (Nat.le_add_right _ _)
    · obtain rfl := List.mem_singleton.mp new
      simp
  · rw [requests, List.length_append, List.length_singleton]
    have before := orderly.current other
    cases kind <;> cases other <;> first | exact Nat.le_refl _ | exact Nat.le_succ_of_le before
  · intro other id member
    have kept := orderly.handlers other id
    cases kind <;> cases other <;> first | exact kept member | exact Option.some.inj member
  · cases kind <;> exact orderly.tasks
  · by_cases same : other = kind
    · subst same
      simp [mine]
    · exact others other same ▸ orderly.single other
  · by_cases same : other = kind
    · exact same ▸ busy
    · exact ready other same (orderly.busy other (others other same ▸ some))

theorem Orderly.cancel (orderly : Orderly d) (c : Nat) : Orderly { d with cancelled := c :: d.cancelled } :=
  { orderly with kept := fun r member own live => orderly.kept r member own fun already => live (List.mem_cons_of_mem c already) }

/-- A request without a handler and without a Cancelable of its own. -/
theorem Orderly.closeWrite (orderly : Orderly d) :
    Orderly { d with requests := d.requests ++ [(d.fresh, d.writeCancelable)] } := by
  have longer : d.requests.length ≤ (d.requests ++ [(d.fresh, d.writeCancelable)]).length := by simp
  refine { orderly with bounded := ?_, kept := ?_, current := ?_ }
  · exact fun id member => Nat.le_trans (orderly.bounded id member) longer
  · intro r member own live
    rcases List.mem_append.mp member with old | new
    · exact orderly.kept r old own live
    · obtain rfl := List.mem_singleton.mp new
      have own : d.writeCancelable = d.requests.length + 1 := own
      have bound : d.writeCancelable ≤ d.requests.length := orderly.current .write
      omega
  · exact fun kind => Nat.le_trans (orderly.current kind) longer

end Desk

/-! ## What the flow does to its desk -/

variable {lib : OpenSsl σ} {x x' y : TlsTransfer σ} {fuel : Nat}

/-- One of the handlers has been called with a failure. -/
def toldOf (kind : Kind) (id : Nat) (failure : Failure) (x : TlsTransfer σ) : TlsTransfer σ :=
  match kind with
  | .read => { x.answer .read id (some failure) with readHandler := none }
  | .write => { x.answer .write id (some failure) with writeHandler := none }

/-- `ReportError` calls one handler, if there is one, and the one that it tries first if
that is set. -/
theorem reportError_cases (failure : Failure) (tryReadFirst : Bool) (x : TlsTransfer σ) :
    (x.reportError failure tryReadFirst = (false, x) ∧ (desk x).waiting = []) ∨
      ∃ kind id, (desk x).handler kind = some id ∧ x.reportError failure tryReadFirst = (true, toldOf kind id failure x) ∧
        (kind = (if tryReadFirst then .read else .write) ∨ (desk x).handler (if tryReadFirst then .read else .write) = none) := by
  cases readWaits : x.readHandler with
  | none =>
    cases writeWaits : x.writeHandler with
    | none =>
      refine Or.inl ⟨?_, by simp [desk, Desk.waiting, readWaits, writeWaits]⟩
      cases tryReadFirst <;> simp [reportError, readReportError, writeReportError, readWaits, writeWaits]
    | some id =>
      refine Or.inr ⟨.write, id, writeWaits, ?_, ?_⟩
      · cases tryReadFirst <;> simp [reportError, readReportError, writeReportError, readWaits, writeWaits, toldOf]
      · cases tryReadFirst
        · exact Or.inl rfl
        · exact Or.inr readWaits
  | some id =>
    by_cases second : tryReadFirst = false ∧ x.writeHandler ≠ none
    · obtain ⟨rfl, some⟩ := second
      obtain ⟨other, writeWaits⟩ := Option.ne_none_iff_exists'.mp some
      exact Or.inr ⟨.write, other, writeWaits, by simp [reportError, writeReportError, writeWaits, toldOf], Or.inl rfl⟩
    · refine Or.inr ⟨.read, id, readWaits, ?_, ?_⟩
      · cases tryReadFirst
        · have none : x.writeHandler = none := by simpa using second
          simp [reportError, readReportError, writeReportError, readWaits, none, toldOf]
        · simp [reportError, readReportError, readWaits, toldOf]
      · cases tryReadFirst
        · exact Or.inr (show x.writeHandler = none by simpa using second)
        · exact Or.inl rfl

theorem desk_toldOf (kind : Kind) (id : Nat) (failure : Failure) (x : TlsTransfer σ) :
    desk (toldOf kind id failure x) = (desk x).tell kind ⟨kind, id, some failure, x.stateMachine⟩ := by
  cases kind <;> rfl

theorem toldOf_errors (kind : Kind) (id : Nat) (failure : Failure) (x : TlsTransfer σ) :
    (toldOf kind id failure x).failed = x.failed ∧ (toldOf kind id failure x).cancelled = x.cancelled := by
  cases kind <;> exact ⟨rfl, rfl⟩

/-- Who waits afterwards has waited before, in the other handler. -/
theorem toldOf_waiting {kind : Kind} {id other : Nat} {failure : Failure}
    (member : other ∈ (desk (toldOf kind id failure x)).waiting) :
    other ∈ (desk x).waiting ∧ ∃ second, second ≠ kind ∧ (desk x).handler second = some other := by
  cases kind with
  | read =>
    have waits : x.writeHandler = some other := by simpa [toldOf, desk, Desk.waiting, answer] using member
    exact ⟨by simp [desk, Desk.waiting, waits], .write, nofun, waits⟩
  | write =>
    have waits : x.readHandler = some other := by simpa [toldOf, desk, Desk.waiting, answer] using member
    exact ⟨by simp [desk, Desk.waiting, waits], .read, nofun, waits⟩

theorem onFailure_orderly {failure : Failure} {tryReadFirst : Bool} (orderly : (desk x).Orderly) :
    (desk (x.onFailure failure tryReadFirst)).Orderly := by
  unfold onFailure
  rcases reportError_cases failure tryReadFirst x with ⟨same, -⟩ | ⟨kind, id, waits, same, -⟩
  · rw [same]
    exact orderly
  · rw [same]
    show (desk (toldOf kind id failure x)).Orderly
    rw [desk_toldOf]
    exact orderly.tell waits

theorem tryReadNextHop_orderly (orderly : (desk x).Orderly) (ran : x.tryReadNextHop = .ok x') : (desk x').Orderly := by
  rcases tryReadNextHop_cases ran with rfl | ⟨next, -, rfl⟩ <;> exact orderly

theorem tryRead_orderly (orderly : (desk x).Orderly) (ran : x.tryRead = .ok x') : (desk x').Orderly := by
  obtain ⟨y, posts, rest⟩ := tryRead_cases ran
  have first : (desk y).Orderly := by
    rcases posts with rfl | ⟨request, waits, rfl⟩
    · exact orderly
    · exact @Desk.Orderly.post _ orderly (.read request x.readCancelable x.tunnel.readPlainTextData.1) waits rfl
  rcases rest with rfl | more
  · exact first
  · exact tryReadNextHop_orderly first more

theorem tryWrite_orderly (orderly : (desk x).Orderly) (ran : x.tryWrite = .ok x') : (desk x').Orderly := by
  rcases tryWrite_cases ran with rfl | ⟨-, request, waits, rfl⟩ | more
  · exact orderly
  · exact @Desk.Orderly.post _ orderly (.write request x.writeCancelable) waits rfl
  · rcases tryWriteNextHop_cases more with rfl | ⟨next, -, rfl⟩ <;> exact orderly

theorem process_orderly (orderly : (desk x).Orderly) (ran : x.process = .ok x') : (desk x').Orderly := by
  unfold process at ran
  split at ran
  · cases ran
    exact orderly
  · split at ran
    · next failure pending =>
      cases ran
      rcases reportError_cases failure true x with ⟨same, -⟩ | ⟨kind, id, waits, same, -⟩
      · rw [same]
        exact orderly
      · rw [same]
        show (desk (toldOf kind id failure x)).Orderly
        rw [desk_toldOf]
        exact orderly.tell waits
    · obtain ⟨y, read, wrote⟩ := bind_eq_ok.mp ran
      exact tryWrite_orderly (tryRead_orderly orderly read) wrote

theorem beginRead_desk (ran : x.beginRead = .ok y) :
    x.errorReported = false ∧ ∃ m, x.stateMachine.readBegin = .ok m ∧ y = { x with
      stateMachine := m, readCancelable := x.fresh, readHandler := some x.fresh, requests := x.requests ++ [(x.fresh, x.fresh)] } := by
  obtain ⟨u, asserted, ran⟩ := bind_eq_ok.mp ran
  obtain ⟨m, began, ran⟩ := bind_eq_ok.mp ran
  cases ran
  exact ⟨boostAssert_eq_ok.mp asserted, m, began, rfl⟩

theorem beginWrite_desk {buffer : Chunks} (ran : x.beginWrite lib fuel buffer = .ok y) :
    x.errorReported = false ∧ ∃ m tunnel session, x.stateMachine.writeBegin = .ok m ∧ y = { x with
      stateMachine := m, tunnel, session, written := session, writeCancelable := x.fresh, writeHandler := some x.fresh,
      requests := x.requests ++ [(x.fresh, x.fresh)] } := by
  obtain ⟨u, asserted, ran⟩ := bind_eq_ok.mp ran
  obtain ⟨m, began, ran⟩ := bind_eq_ok.mp ran
  obtain ⟨⟨tunnel, session⟩, -, ran⟩ := bind_eq_ok.mp ran
  cases ran
  exact ⟨boostAssert_eq_ok.mp asserted, m, tunnel, session, began, rfl⟩

theorem errored_not_ready (m : FlowStateMachine) : m.errored.isReadable = false ∧ m.errored.isWritable = false := by
  simp [FlowStateMachine.errored, FlowStateMachine.close, FlowStateMachine.isReadable, FlowStateMachine.isWritable,
    FlowStateMachine.openFor]

theorem runPosted_orderly {task : Posted} {rest : List Posted} (orderly : (desk x).Orderly)
    (first : x.posted = task :: rest) (ran : runPosted task { x with posted := rest } = .ok y) : (desk y).Orderly := by
  unfold runPosted at ran
  split at ran
  · next request cancelable result =>
    split at ran
    · next lost =>
      cases ran
      exact @Desk.Orderly.run _ orderly _ _ x.stateMachine x.answers first (Or.inr ⟨rfl, lost⟩) (fun _ _ ready => ready)
    · obtain ⟨m, ended, ran⟩ := bind_eq_ok.mp ran
      obtain ⟨-, rfl⟩ := FlowStateMachine.readEnd_ok.mp ended
      split at ran <;> cases ran
      · exact @Desk.Orderly.run _ orderly _ _ { x.stateMachine with reading := false } _ first (Or.inl List.map_append)
          (fun kind differs ready => by cases kind; exact absurd rfl differs; exact ready)
      · exact @Desk.Orderly.run _ orderly _ _ (FlowStateMachine.errored { x.stateMachine with reading := false }) _ first
          (Or.inl List.map_append) (fun kind _ _ => by cases kind; exact (errored_not_ready _).1; exact (errored_not_ready _).2)
  · next request cancelable =>
    split at ran
    · next lost =>
      cases ran
      exact @Desk.Orderly.run _ orderly _ _ x.stateMachine x.answers first (Or.inr ⟨rfl, lost⟩) (fun _ _ ready => ready)
    · obtain ⟨m, ended, ran⟩ := bind_eq_ok.mp ran
      obtain ⟨-, rfl⟩ := FlowStateMachine.writeEnd_ok.mp ended
      cases ran
      exact @Desk.Orderly.run _ orderly _ _ { x.stateMachine with writing := false } _ first (Or.inl List.map_append)
        (fun kind differs ready => by cases kind; exact ready; exact absurd rfl differs)

/-! ## Steps -/

theorem beginRead_orderly (orderly : (desk x).Orderly) (ran : x.beginRead = .ok y) : (desk y).Orderly := by
  obtain ⟨-, m, allowed, rfl⟩ := beginRead_desk ran
  obtain ⟨readable, rfl⟩ := FlowStateMachine.readBegin_ok.mp allowed
  refine @Desk.Orderly.take (desk x) orderly .read { x.stateMachine with reading := true } readable ?_ ?_
  · simp [Desk.take, Desk.ready, FlowStateMachine.isReadable]
  · intro other differs ready
    cases other
    · exact absurd rfl differs
    · exact ready

theorem beginWrite_orderly {buffer : Chunks} (orderly : (desk x).Orderly) (ran : x.beginWrite lib fuel buffer = .ok y) :
    (desk y).Orderly := by
  obtain ⟨-, m, tunnel, session, allowed, rfl⟩ := beginWrite_desk ran
  obtain ⟨writable, rfl⟩ := FlowStateMachine.writeBegin_ok.mp allowed
  refine @Desk.Orderly.take (desk x) orderly .write { x.stateMachine with writing := true } writable ?_ ?_
  · simp [Desk.take, Desk.ready, FlowStateMachine.isWritable]
  · intro other differs ready
    cases other
    · exact ready
    · exact absurd rfl differs

/-- The callbacks of the next hop leave the desk alone. -/
theorem onNextRead_desk {result : Except Failure Chunks} {cancelable : Nat} {ending : Ending}
    (ran : x.onNextRead lib fuel result cancelable = .ok (y, ending)) : desk y = desk x := by
  obtain ⟨next, -, ran⟩ := bind_eq_ok.mp ran
  cases result with
  | ok buffer =>
    dsimp only at ran
    split at ran
    · cases ran
      rfl
    · obtain ⟨⟨tunnel, session⟩, -, ran⟩ := bind_eq_ok.mp ran
      cases ran
      rfl
  | error failure =>
    cases failure with
    | eof =>
      obtain ⟨next', -, ran⟩ := bind_eq_ok.mp ran
      cases ran
      rfl
    | error code =>
      cases ran
      rfl

theorem onNextWritten_desk {failure : Option Nat} {cancelable : Nat} {data : Bytes} {ending : Ending}
    (ran : x.onNextWritten failure cancelable data = .ok (y, ending)) : desk y = desk x := by
  obtain ⟨next, -, ran⟩ := bind_eq_ok.mp ran
  cases failure <;> cases ran <;> rfl

theorem arrive_orderly {e : Event} {ending : Ending} (orderly : (desk x).Orderly) (arrived : x.arrive lib fuel e = .ok (y, ending)) :
    (desk y).Orderly := by
  cases e with
  | read =>
    obtain ⟨z, began, done⟩ := bind_eq_ok.mp arrived
    cases done
    exact beginRead_orderly orderly began
  | write buffer =>
    obtain ⟨z, began, done⟩ := bind_eq_ok.mp arrived
    cases done
    exact beginWrite_orderly orderly began
  | closeWrite =>
    cases arrived
    exact orderly.closeWrite
  | cancel cancelable =>
    cases arrived
    exact orderly.cancel cancelable
  | nextRead result =>
    unfold arrive at arrived
    dsimp only at arrived
    split at arrived
    · exact onNextRead_desk arrived ▸ orderly
    · cases arrived
  | nextWritten failure =>
    unfold arrive at arrived
    dsimp only at arrived
    split at arrived
    · exact onNextWritten_desk arrived ▸ orderly
    · cases arrived
  | posted =>
    unfold arrive at arrived
    dsimp only at arrived
    split at arrived
    · next task rest first =>
      obtain ⟨z, done, arrived⟩ := bind_eq_ok.mp arrived
      cases arrived
      exact runPosted_orderly orderly first done
    · cases arrived

theorem step_orderly {e : Event} (orderly : (desk x).Orderly) (stepped : step lib fuel e x = .ok x') : (desk x').Orderly := by
  obtain ⟨⟨y, ending⟩, arrived, ran⟩ := bind_eq_ok.mp stepped
  replace ran : y.finish ending = .ok x' := ran
  have first := arrive_orderly orderly arrived
  cases ending with
  | nothing =>
    cases ran
    exact first
  | process => exact process_orderly first ran
  | reportError failure tryReadFirst =>
    cases ran
    exact onFailure_orderly first

theorem start_orderly (tunnel : TlsTunnel) (session : σ) : (desk { tunnel, session, written := session }).Orderly := by
  refine ⟨fun _ => Nat.zero_le _, nofun, nofun, fun kind => ?_, fun kind => ?_, nofun, fun kind => ?_, fun kind some => ?_⟩
  · cases kind <;> exact Nat.le_refl _
  · cases kind <;> nofun
  · cases kind <;> exact Nat.zero_le _
  · cases kind <;> exact absurd rfl some

/-! ## Answers -/

/-- A step that does not run a task calls no handler up to its end. -/
theorem arrive_answers {e : Event} {ending : Ending} (other : e ≠ .posted) (arrived : x.arrive lib fuel e = .ok (y, ending)) :
    y.answers = x.answers := by
  cases e with
  | read =>
    obtain ⟨z, began, done⟩ := bind_eq_ok.mp arrived
    cases done
    obtain ⟨-, m, -, rfl⟩ := beginRead_desk began
    rfl
  | write buffer =>
    obtain ⟨z, began, done⟩ := bind_eq_ok.mp arrived
    cases done
    obtain ⟨-, m, tunnel, session, -, rfl⟩ := beginWrite_desk began
    rfl
  | closeWrite | cancel cancelable =>
    cases arrived
    rfl
  | nextRead result =>
    unfold arrive at arrived
    dsimp only at arrived
    split at arrived
    · exact congrArg Desk.answers (onNextRead_desk arrived)
    · cases arrived
  | nextWritten failure =>
    unfold arrive at arrived
    dsimp only at arrived
    split at arrived
    · exact congrArg Desk.answers (onNextWritten_desk arrived)
    · cases arrived
  | posted => exact absurd rfl other

theorem tryReadNextHop_answers (ran : x.tryReadNextHop = .ok x') : x'.answers = x.answers := by
  rcases tryReadNextHop_cases ran with rfl | ⟨next, -, rfl⟩ <;> rfl

theorem tryRead_answers (ran : x.tryRead = .ok x') : x'.answers = x.answers := by
  obtain ⟨y, posts, rest⟩ := tryRead_cases ran
  have first : y.answers = x.answers := by
    rcases posts with rfl | ⟨request, -, rfl⟩ <;> rfl
  rcases rest with rfl | more
  · exact first
  · exact (tryReadNextHop_answers more).trans first

theorem tryWrite_answers (ran : x.tryWrite = .ok x') : x'.answers = x.answers := by
  rcases tryWrite_cases ran with rfl | ⟨-, request, -, rfl⟩ | more
  · rfl
  · rfl
  · rcases tryWriteNextHop_cases more with rfl | ⟨next, -, rfl⟩ <;> rfl

/-- The handler that `ReportError` is about to call. -/
def Reports (kind : Kind) (ending : Ending) (x : TlsTransfer σ) : Prop :=
  (desk x).handler kind ≠ none ∧
    match ending with
    | .nothing => False
    | .process => x.errorReported = false ∧ x.pendingError ≠ none ∧ (kind = .read ∨ x.readHandler = none)
    | .reportError _ tryReadFirst =>
      kind = (if tryReadFirst then .read else .write) ∨ (desk x).handler (if tryReadFirst then .read else .write) = none

/-- The end of a step calls a handler with a failure, or none. -/
theorem finish_answers {ending : Ending} (ran : y.finish ending = .ok x') :
    x'.answers = y.answers ∨ ∃ kind id failure, Reports kind ending y ∧
      x'.answers = y.answers ++ [⟨kind, id, some failure, y.stateMachine⟩] := by
  cases ending with
  | nothing =>
    cases ran
    exact Or.inl rfl
  | process =>
    replace ran : y.process = .ok x' := ran
    unfold process at ran
    split at ran
    · cases ran
      exact Or.inl rfl
    · next was =>
      split at ran
      · next failure pending =>
        cases ran
        rcases reportError_cases failure true y with ⟨same, -⟩ | ⟨kind, id, waits, same, first⟩
        · rw [same]
          exact Or.inl rfl
        · rw [same]
          refine Or.inr ⟨kind, id, failure, ⟨by simp [waits], by simpa using was, by simp [pending], first⟩, ?_⟩
          cases kind <;> rfl
      · obtain ⟨z, read, wrote⟩ := bind_eq_ok.mp ran
        exact Or.inl ((tryWrite_answers wrote).trans (tryRead_answers read))
  | reportError failure tryReadFirst =>
    cases ran
    unfold onFailure
    rcases reportError_cases failure tryReadFirst y with ⟨same, -⟩ | ⟨kind, id, waits, same, first⟩
    · rw [same]
      exact Or.inl rfl
    · rw [same]
      refine Or.inr ⟨kind, id, failure, ⟨by simp [waits], first⟩, ?_⟩
      cases kind <;> rfl

/-- A task calls its handler, unless it was cancelled. -/
theorem runPosted_answers {task : Posted} {rest : List Posted} (ran : runPosted task { x with posted := rest } = .ok y) :
    y.answers = x.answers ∨ ∃ failure, y.answers = x.answers ++ [⟨taskKind task, taskRequest task, failure, y.stateMachine⟩] ∧
      (taskKind task = .write → failure = none) ∧
      (taskKind task = .read → y.stateMachine.reading = false ∧ (failure = none ∨ ∃ code, failure = some (.error code) ∧ y.stateMachine.state = .closed)) := by
  unfold runPosted at ran
  split at ran
  · split at ran
    · cases ran
      exact Or.inl rfl
    · obtain ⟨m, ended, ran⟩ := bind_eq_ok.mp ran
      obtain ⟨-, rfl⟩ := FlowStateMachine.readEnd_ok.mp ended
      split at ran <;> cases ran
      · exact Or.inr ⟨none, rfl, nofun, fun _ => ⟨rfl, Or.inl rfl⟩⟩
      · exact Or.inr ⟨_, rfl, nofun, fun _ => ⟨rfl, Or.inr ⟨_, rfl, rfl⟩⟩⟩
  · split at ran
    · cases ran
      exact Or.inl rfl
    · obtain ⟨m, ended, ran⟩ := bind_eq_ok.mp ran
      cases ran
      exact Or.inr ⟨none, rfl, fun _ => rfl, nofun⟩

end TlsDesk

end LibNekit.Source
