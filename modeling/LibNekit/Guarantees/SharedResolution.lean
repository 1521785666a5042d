import LibNekit.Source.Utils.Resolution

/-!
# One endpoint resolved for many

An endpoint has room for one resolution. Whoever asks while it runs trips the assertion
of `Resolve`, since none of the tests before it looks at `resolving_`; and whoever
cancels it leaves `resolving_` behind. Runs without these two are in order.
-/
namespace LibNekit.Guarantees.SharedResolution

open LibNekit.Source LibNekit.Library LibNekit.Source.Resolution

variable {Failure : Type} {s s' : Resolution Failure}

/-- The requester's caller has cancelled. -/
def Withdrawn (s : Resolution Failure) (requester : Requester Failure) : Prop :=
  ∃ flag, requester.cancelable = some flag ∧ s.isCanceled flag = true

/-- Answers that a requester still has coming. -/
def owed (s : Resolution Failure) (i : Nat) : Nat :=
  (s.requests.filter fun request => request.requester = i && !s.isCanceled request.cancelable).length +
    (s.posts.filter fun post => post.1 = i).length

structure Sound (s : Resolution Failure) : Prop where
  resolving : s.endpoint.resolving = true ↔ ∃ request ∈ s.requests, s.isCanceled request.cancelable = false
  once : ∀ (i : Nat) (requester : Requester Failure), s.requesters[i]? = some requester →
    ¬Withdrawn s requester → requester.answers.length + owed s i = 1
  outcome : ∀ requester ∈ s.requesters, ∀ answer ∈ requester.answers, answer ∈ s.outcomes

/-- Nobody asks while the endpoint is resolving, and nobody cancels what the resolver is
at work on. -/
def Undisturbed (e : Event Failure) (s : Resolution Failure) : Prop :=
  match e with
  | .request _ => s.endpoint.isAddressAvailable = true ∨ s.endpoint.isResolvable = false ∨
      s.endpoint.resolving = false
  | .cancel i => ∀ (requester : Requester Failure) (flag : Nat), s.requesters[i]? = some requester →
      requester.cancelable = some flag → ∀ request ∈ s.requests, request.cancelable ≠ flag
  | .complete _ _ | .posted => True

/-! ## The three situations -/

structure Unused (s : Resolution Failure) : Prop where
  domain : s.endpoint.type = .domain
  fresh : s.endpoint.resolved = false ∧ s.endpoint.resolving = false ∧ s.endpoint.resolvedAddresses = none
  flags : s.endpoint.resolveCancelable = 0 ∧ s.canceled = [false]
  nobody : s.requesters = [] ∧ s.requests = [] ∧ s.posts = []
  nothing_yet : s.outcomes = []

/-- One request is with the resolver, for the only requester. -/
structure Busy (requester : Requester Failure) (request : Request) (s : Resolution Failure) : Prop where
  domain : s.endpoint.type = .domain
  flags : s.endpoint.resolved = false ∧ s.endpoint.resolving = true ∧ s.endpoint.resolvedAddresses = none
  alone : s.requesters = [requester] ∧ s.requests = [request] ∧ s.posts = []
  silent : requester.answers = []
  forIt : request.requester = 0
  valid : s.isCanceled request.captured = false ∧ s.isCanceled request.cancelable = false
  apart : requester.cancelable ≠ some request.captured
  known : request.cancelable < s.canceled.length
  nothing_yet : s.outcomes = []

/-- What the endpoint keeps of an outcome. -/
def Kept (endpoint : ResolvingEndpoint Failure) : Outcome Failure → Prop
  | .addresses addresses => endpoint.resolvedAddresses = some addresses
  | .failed error => endpoint.resolvedAddresses = none ∧ endpoint.error = some error

/-- The resolver has answered; `due` is the requester that the answer is on its way to. -/
structure Done (outcome : Outcome Failure) (s : Resolution Failure) (due : Option Nat := none) : Prop where
  domain : s.endpoint.type = .domain
  flags : s.endpoint.resolved = true ∧ s.endpoint.resolving = false
  kept : Kept s.endpoint outcome
  settled : s.requests = [] ∧ s.outcomes = [outcome]
  posts : ∀ post ∈ s.posts, Outcome.failed post.2 = outcome ∧ post.1 < s.requesters.length
  once : ∀ (i : Nat) (requester : Requester Failure), s.requesters[i]? = some requester →
    ¬Withdrawn s requester → requester.answers.length + owed s i + (if due = some i then 1 else 0) = 1
  answers : ∀ requester ∈ s.requesters, ∀ answer ∈ requester.answers, answer = outcome

def Situation (s : Resolution Failure) : Prop :=
  Unused s ∨ (∃ requester request, Busy requester request s) ∨ ∃ outcome, Done outcome s

theorem start_unused (domain : Bytes) (port : Nat) : Unused (start domain port : Resolution Failure) :=
  ⟨rfl, ⟨rfl, rfl, rfl⟩, ⟨rfl, rfl⟩, ⟨rfl, rfl, rfl⟩, rfl⟩

theorem Unused.sound (unused : Unused s) : Sound s := by
  obtain ⟨requesters, requests, posts⟩ := unused.nobody
  refine ⟨?_, ?_, ?_⟩
  · simp [unused.fresh, requests]
  · simp [requesters]
  · simp [requesters]

theorem Busy.sound {requester : Requester Failure} {request : Request} (busy : Busy requester request s) :
    Sound s := by
  obtain ⟨requesters, requests, posts⟩ := busy.alone
  refine ⟨?_, ?_, ?_⟩
  · simp [busy.flags, requests, busy.valid]
  · intro i other here _
    have first : i = 0 ∧ requester = other := by
      rw [requesters] at here
      cases i with
      | zero => exact ⟨rfl, Option.some.inj here⟩
      | succ i => simp at here
    obtain ⟨rfl, rfl⟩ := first
    simp [owed, requests, posts, busy.silent, busy.forIt, busy.valid]
  · simp [requesters, busy.silent]

theorem Done.sound {outcome : Outcome Failure} (done : Done outcome s) : Sound s := by
  refine ⟨?_, ?_, ?_⟩
  · simp [done.flags, done.settled]
  · intro i requester here stays
    simpa using done.once i requester here stays
  · intro requester member answer given
    simp [done.answers requester member answer given, done.settled]

theorem Situation.sound (situation : Situation s) : Sound s := by
  rcases situation with unused | ⟨_, _, busy⟩ | ⟨_, done⟩
  · exact unused.sound
  · exact busy.sound
  · exact done.sound

/-! ## Flags -/

theorem isCanceled_append (canceled : List Bool) (flag : Nat) :
    (canceled ++ [false]).getD flag false = canceled.getD flag false := by
  rcases Nat.lt_trichotomy flag canceled.length with lt | rfl | gt
  · simp [List.getD_eq_getElem?_getD, List.getElem?_append_left lt]
  · simp [List.getD_eq_getElem?_getD]
  · have longer : (canceled ++ [false]).length ≤ flag := by
      rw [List.length_append]
      exact gt
    rw [List.getD_eq_getElem?_getD, List.getD_eq_getElem?_getD, List.getElem?_eq_none gt.le,
      List.getElem?_eq_none longer]

/-- Cancelling sets one flag. -/
theorem isCanceled_cancel (i flag : Nat) : (s.cancel i).isCanceled flag = true ↔
    s.isCanceled flag = true ∨
      s.requesters[i]?.bind Requester.cancelable = some flag ∧ flag < s.canceled.length := by
  rw [cancel]
  cases given : s.requesters[i]?.bind Requester.cancelable with
  | none => simp
  | some held =>
    simp only [isCanceled, List.getD_eq_getElem?_getD, List.getElem?_set]
    by_cases same : held = flag
    · subst same
      by_cases lt : held < s.canceled.length <;> simp [lt]
    · simp [same]

/-- Who is not withdrawn after a cancellation was not before. -/
theorem not_withdrawn_cancel {i : Nat} {requester : Requester Failure}
    (stays : ¬Withdrawn (s.cancel i) requester) : ¬Withdrawn s requester := by
  rintro ⟨flag, held, canceled⟩
  exact stays ⟨flag, held, (isCanceled_cancel i flag).mpr (Or.inl canceled)⟩

theorem cancel_fields (i : Nat) : (s.cancel i).endpoint = s.endpoint ∧ (s.cancel i).requests = s.requests ∧
    (s.cancel i).requesters = s.requesters ∧ (s.cancel i).posts = s.posts ∧
    (s.cancel i).outcomes = s.outcomes ∧ (s.cancel i).canceled.length = s.canceled.length := by
  rw [cancel]
  cases s.requesters[i]?.bind Requester.cancelable <;> simp

/-! ## The tests before `Resolve` -/

theorem Unused.tests (unused : Unused s) :
    s.endpoint.isAddressAvailable = false ∧ s.endpoint.isResolvable = true := by
  simp [ResolvingEndpoint.isAddressAvailable, ResolvingEndpoint.isResolvable, unused.domain, unused.fresh]

theorem Busy.tests {requester : Requester Failure} {request : Request} (busy : Busy requester request s) :
    s.endpoint.isAddressAvailable = false ∧ s.endpoint.isResolvable = true := by
  simp [ResolvingEndpoint.isAddressAvailable, ResolvingEndpoint.isResolvable, busy.domain, busy.flags]

theorem Done.tests_addresses {addresses : List IpAddress} (done : Done (.addresses addresses) s) :
    s.endpoint.isAddressAvailable = true := by
  have kept : s.endpoint.resolvedAddresses = some addresses := done.kept
  simp [ResolvingEndpoint.isAddressAvailable, kept]

theorem Done.tests_failed {error : Failure} (done : Done (.failed error) s) :
    s.endpoint.isAddressAvailable = false ∧ s.endpoint.isResolvable = false ∧ s.endpoint.error = some error := by
  obtain ⟨none, kept⟩ : s.endpoint.resolvedAddresses = none ∧ s.endpoint.error = some error := done.kept
  simp [ResolvingEndpoint.isAddressAvailable, ResolvingEndpoint.isResolvable, done.domain, done.flags, none, kept]

/-! ## Asking -/

/-- The state once the resolver is at work for requester `i`. -/
def requested (i : Nat) (s : Resolution Failure) : Resolution Failure :=
  { s with
    endpoint.resolving := true
    endpoint.resolveCancelable := s.canceled.length
    canceled := s.canceled ++ [false]
    requests := s.requests ++ [⟨s.canceled.length, s.endpoint.resolveCancelable, i⟩] }

theorem resolve_ok (fresh : s.endpoint.resolved = false ∧ s.endpoint.resolving = false) (i : Nat) :
    s.resolve i = .ok (s.canceled.length, requested i s) := by
  rw [resolve, boostAssert_of fresh, ok_bind, forceResolve, ResolvingEndpoint.forceResolve,
    boostAssert_of fresh.2]
  rfl

theorem resolve_asserts (resolving : s.endpoint.resolving = true) (i : Nat) :
    s.resolve i = .error .assertion := by
  simp [resolve, boostAssert, resolving]

/-- One that makes `Resolve` run trips its assertion while it runs already. -/
theorem request_asserts (kind : Kind)
    (tests : s.endpoint.isAddressAvailable = false ∧ s.endpoint.isResolvable = true)
    (resolving : s.endpoint.resolving = true) : step (.request kind) s = .error .assertion := by
  cases kind <;> simp [step, connect, use, tests, resolve_asserts, resolving]

/-- The first to ask gets the resolver to work. -/
theorem unused_request (unused : Unused s) (kind : Kind) : ∃ s' requester request,
    step (.request kind) s = .ok s' ∧ Busy requester request s' := by
  obtain ⟨requesters, requests, posts⟩ := unused.nobody
  obtain ⟨resolved, resolving, addresses⟩ := unused.fresh
  obtain ⟨captured, canceled⟩ := unused.flags
  cases kind with
  | connector =>
    let requester : Requester Failure := { kind := .connector, cancelable := some 1 }
    let asking : Resolution Failure := { s with canceled := [false, false], requesters := [requester] }
    have asked : step (.request .connector) s = .ok (requested 0 asking) := by
      simp [step, connect, unused.tests, resolve_ok, resolved, resolving, requesters, canceled, asking, requester]
    refine ⟨_, requester, ⟨2, 0, 0⟩, asked, ?_⟩
    constructor <;> simp [requested, isCanceled, *, unused.domain, unused.nothing_yet, asking, requester]
  | user =>
    let requester : Requester Failure := { kind := .user, cancelable := some 1 }
    let asking : Resolution Failure := { s with requesters := [requester] }
    have asked : step (.request .user) s = .ok (requested 0 asking) := by
      simp [step, use, unused.tests, resolve_ok, resolved, resolving, requesters, canceled, asking, requester, requested]
    refine ⟨_, requester, ⟨1, 0, 0⟩, asked, ?_⟩
    constructor <;> simp [requested, isCanceled, *, unused.domain, unused.nothing_yet, asking, requester]

/-! ## Once the resolver has answered -/

/-- A requester that comes later has its answer, or a report on the way. -/
theorem Done.join {outcome : Outcome Failure} (done : Done outcome s) {requester : Requester Failure}
    {reports : List (Nat × Failure)}
    (reported : ∀ report ∈ reports, Outcome.failed report.2 = outcome ∧ report.1 = s.requesters.length)
    (answers : ∀ answer ∈ requester.answers, answer = outcome)
    (once : requester.answers.length + reports.length = 1)
    (endpoint : s'.endpoint = s.endpoint) (outcomes : s'.outcomes = s.outcomes)
    (requests : s'.requests = s.requests) (posts : s'.posts = s.posts ++ reports)
    (requesters : s'.requesters = s.requesters ++ [requester])
    (flags : ∀ flag, s'.isCanceled flag = s.isCanceled flag) : Done outcome s' := by
  have none : s.requests = [] := done.settled.1
  refine ⟨by rw [endpoint, done.domain], by rw [endpoint]; exact done.flags, by rw [endpoint]; exact done.kept,
    by rw [requests, outcomes]; exact done.settled, ?_, ?_, ?_⟩
  · intro post member
    rw [posts] at member
    rw [requesters, List.length_append]
    rcases List.mem_append.mp member with old | new
    · exact ⟨(done.posts post old).1, Nat.lt_of_lt_of_le (done.posts post old).2 (Nat.le_add_right _ _)⟩
    · exact ⟨(reported post new).1, by rw [(reported post new).2]; exact Nat.lt_succ_self _⟩
  · intro i other here stays
    have kept : ¬Withdrawn s other := by
      rintro ⟨flag, held, canceled⟩
      exact stays ⟨flag, held, by rw [flags]; exact canceled⟩
    rw [requesters] at here
    rcases Nat.lt_or_ge i s.requesters.length with lt | ge
    · rw [List.getElem?_append_left lt] at here
      have elsewhere : reports.filter (fun post => post.1 = i) = [] := by
        rw [List.filter_eq_nil_iff]
        intro report member
        simp [(reported report member).2]
        omega
      have before := done.once i other here kept
      rw [owed, requests, posts, List.filter_append, elsewhere, List.append_nil, none]
      rwa [owed, none] at before
    · have last : i = s.requesters.length := by
        have bound := (List.getElem?_eq_some_iff.mp here).1
        rw [List.length_append, List.length_singleton] at bound
        omega
      subst last
      rw [List.getElem?_append_right (Nat.le_refl _), Nat.sub_self] at here
      obtain rfl : requester = other := Option.some.inj here
      have before : s.posts.filter (fun post => post.1 = s.requesters.length) = [] := by
        rw [List.filter_eq_nil_iff]
        intro post member
        have earlier := (done.posts post member).2
        simp
        omega
      have all : reports.filter (fun post => post.1 = s.requesters.length) = reports := by
        rw [List.filter_eq_self]
        intro report member
        simp [(reported report member).2]
      rw [owed, requests, none, posts, List.filter_append, before, all]
      simpa using once
  · intro other member answer given
    rw [requesters] at member
    rcases List.mem_append.mp member with old | new
    · exact done.answers other old answer given
    · obtain rfl := List.mem_singleton.mp new
      exact answers answer given

/-- The answer to the one who came last. -/
theorem answer_last {requester : Requester Failure} (outcome : Outcome Failure)
    (last : s.requesters = s'.requesters ++ [requester]) :
    (s.answer s'.requesters.length outcome).requesters =
      s'.requesters ++ [{ requester with answers := requester.answers ++ [outcome] }] := by
  have short : s'.requesters.length < (s'.requesters ++ [requester]).length := by simp
  rw [answer, last]
  simp [List.modify_eq_take_cons_drop short]

theorem done_request {outcome : Outcome Failure} (done : Done outcome s) (kind : Kind) :
    ∃ s', step (.request kind) s = .ok s' ∧ Done outcome s' := by
  cases outcome with
  | addresses addresses =>
    have kept : s.endpoint.resolvedAddresses = some addresses := done.kept
    have onlyThis : ∀ answer ∈ ([] ++ [.addresses addresses] : List (Outcome Failure)), answer = .addresses addresses := by
      simp
    cases kind with
    | connector =>
      refine ⟨_, by simp only [step, connect, done.tests_addresses, if_true, kept]; rfl, ?_⟩
      exact @Done.join _ _ _ _ done _ [] nofun onlyThis rfl rfl rfl rfl (List.append_nil _).symm (answer_last _ rfl)
        (isCanceled_append s.canceled)
    | user =>
      refine ⟨_, by simp only [step, use, done.tests_addresses, if_true, kept]; rfl, ?_⟩
      exact @Done.join _ _ _ _ done _ [] nofun onlyThis rfl rfl rfl rfl (List.append_nil _).symm (answer_last _ rfl)
        (fun _ => rfl)
  | failed error =>
    obtain ⟨unavailable, unresolvable, kept⟩ := done.tests_failed
    have onlyThis : ∀ answer ∈ ([] ++ [.failed error] : List (Outcome Failure)), answer = .failed error := by simp
    cases kind with
    | connector =>
      refine ⟨_, by simp only [step, connect, unavailable, unresolvable, kept]; rfl, ?_⟩
      exact @Done.join _ _ _ _ done _ [(s.requesters.length, error)] (by simp) (by simp) rfl rfl rfl rfl rfl rfl
        (isCanceled_append s.canceled)
    | user =>
      refine ⟨_, by simp only [step, use, unavailable, unresolvable, kept]; rfl, ?_⟩
      exact @Done.join _ _ _ _ done _ [] nofun onlyThis rfl rfl rfl rfl (List.append_nil _).symm (answer_last _ rfl)
        (fun _ => rfl)

/-! ## Being answered -/

theorem answer_at (i j : Nat) (outcome : Outcome Failure) : (s.answer i outcome).requesters[j]? =
    s.requesters[j]?.map fun r => if i = j then { r with answers := r.answers ++ [outcome] } else r := by
  rw [answer, List.getElem?_modify]
  rfl

/-- What is delivered arrives, unless the connector it is for was cancelled. -/
theorem deliver_cases (i : Nat) (outcome : Outcome Failure) : s.deliver i outcome = s.answer i outcome ∨
    s.deliver i outcome = s ∧ ∃ requester, s.requesters[i]? = some requester ∧ Withdrawn s requester := by
  rw [deliver]
  split
  next flag answers here =>
    by_cases canceled : s.isCanceled flag = true
    · exact Or.inr ⟨if_pos canceled, _, here, flag, rfl, canceled⟩
    · exact Or.inl (if_neg canceled)
  next => exact Or.inl rfl

theorem Done.deliver {outcome : Outcome Failure} {i : Nat} (done : Done outcome s (some i)) :
    Done outcome (s.deliver i outcome) := by
  rcases @deliver_cases _ s i outcome with arrived | ⟨same, requester, here, withdrawn⟩
  · rw [arrived]
    refine ⟨done.domain, done.flags, done.kept, done.settled, ?_, ?_, ?_⟩
    · intro post member
      have known := done.posts post member
      exact ⟨known.1, by rw [answer, List.length_modify]; exact known.2⟩
    · intro j other there stays
      rw [answer_at] at there
      obtain ⟨old, wasThere, rfl⟩ := Option.map_eq_some_iff.mp there
      have before := done.once j old wasThere (by
        rintro ⟨flag, held, canceled⟩
        refine stays ⟨flag, ?_, canceled⟩
        split <;> exact held)
      have same : owed (s.answer i outcome) j = owed s j := rfl
      rw [same]
      by_cases its : i = j
      · rw [if_pos (congrArg some its)] at before
        simp only [if_pos its, List.length_append, List.length_singleton, reduceCtorEq, if_false]
        omega
      · rw [if_neg (by simpa using its)] at before
        simpa [its] using before
    · intro other member given isGiven
      obtain ⟨j, there⟩ := List.getElem?_of_mem member
      rw [answer_at] at there
      obtain ⟨old, wasThere, rfl⟩ := Option.map_eq_some_iff.mp there
      have before := done.answers old (List.mem_of_getElem? wasThere)
      split at isGiven
      · rcases List.mem_append.mp isGiven with earlier | now
        · exact before given earlier
        · exact List.mem_singleton.mp now
      · exact before given isGiven
  · rw [same]
    refine ⟨done.domain, done.flags, done.kept, done.settled, done.posts, ?_, done.answers⟩
    intro j other there stays
    have other_than : i ≠ j := by
      rintro rfl
      obtain rfl : requester = other := Option.some.inj (here.symm.trans there)
      exact stays withdrawn
    simpa [other_than] using done.once j other there stays

/-- What the endpoint's closure leaves behind when it is not cancelled. -/
def settled (outcome : Outcome Failure) (s : Resolution Failure) : Resolution Failure :=
  { s with endpoint := s.endpoint.settle outcome, outcomes := s.outcomes ++ [outcome] }

theorem onResolved_ok {request : Request} (valid : s.isCanceled request.captured = false)
    (outcome : Outcome Failure) : s.onResolved request outcome = (settled outcome s, true) := by
  simp [onResolved, settled, valid]

theorem settle_fields (endpoint : ResolvingEndpoint Failure) (outcome : Outcome Failure) :
    (endpoint.settle outcome).type = endpoint.type ∧ (endpoint.settle outcome).resolved = true ∧
      (endpoint.settle outcome).resolving = false ∧ Kept (endpoint.settle outcome) outcome := by
  cases outcome with
  | addresses addresses => exact ⟨rfl, rfl, rfl, rfl⟩
  | failed error => exact ⟨rfl, rfl, rfl, rfl, rfl⟩

theorem settled_done {outcome : Outcome Failure} {requester : Requester Failure}
    (domain : s.endpoint.type = .domain) (requesters : s.requesters = [requester])
    (nothing : s.requests = [] ∧ s.posts = [] ∧ s.outcomes = [] ∧ requester.answers = []) :
    Done outcome (settled outcome s) (some 0) := by
  obtain ⟨requests, posts, outcomes, silent⟩ := nothing
  obtain ⟨type, resolved, resolving, kept⟩ := settle_fields s.endpoint outcome
  refine ⟨type.trans domain, ⟨resolved, resolving⟩, kept, ⟨requests, by rw [settled, outcomes]; rfl⟩,
    by simp [settled, posts], ?_, by simp [settled, requesters, silent]⟩
  intro i other here _
  rw [settled, requesters] at here
  have first : i = 0 ∧ requester = other := by
    cases i with
    | zero => exact ⟨rfl, Option.some.inj here⟩
    | succ i => simp at here
  obtain ⟨rfl, rfl⟩ := first
  simp [settled, owed, requests, posts, silent]

/-- The resolver answers the one request there is. -/
theorem busy_complete {requester : Requester Failure} {request : Request} (busy : Busy requester request s)
    {k : Nat} (outstanding : k < s.requests.length) (outcome : Outcome Failure) :
    ∃ s', step (.complete k outcome) s = .ok s' ∧ Done outcome s' := by
  obtain ⟨requesters, requests, posts⟩ := busy.alone
  obtain ⟨captured, notCanceled⟩ := busy.valid
  obtain rfl : k = 0 := by
    rw [requests, List.length_singleton] at outstanding
    omega
  let idle : Resolution Failure := { s with requests := [] }
  have idle_captured : idle.isCanceled request.captured = false := captured
  have idle_valid : idle.isCanceled request.cancelable = false := notCanceled
  have completed : step (.complete 0 outcome) s = .ok ((settled outcome idle).deliver 0 outcome) := by
    rw [step, complete, requests]
    change (if idle.isCanceled request.cancelable then Except.ok idle else
      Except.ok (if (idle.onResolved request outcome).2 then
        (idle.onResolved request outcome).1.deliver request.requester outcome
        else (idle.onResolved request outcome).1)) = _
    rw [onResolved_ok idle_captured, if_neg (by simp [idle_valid]), busy.forIt]
    rfl
  have done : Done outcome (settled outcome idle) (some 0) :=
    settled_done busy.domain requesters ⟨rfl, posts, busy.nothing_yet, busy.silent⟩
  exact ⟨_, completed, done.deliver⟩

/-- A report that was posted. -/
theorem done_posted {outcome : Outcome Failure} (done : Done outcome s) (some_post : s.posts ≠ []) :
    ∃ s', step .posted s = .ok s' ∧ Done outcome s' := by
  obtain ⟨⟨i, error⟩, posts, queued⟩ := List.exists_cons_of_ne_nil some_post
  obtain rfl : Outcome.failed error = outcome := (done.posts (i, error) (by rw [queued]; exact List.mem_cons_self)).1
  have due : Done (.failed error) { s with posts } (some i) := by
    refine ⟨done.domain, done.flags, done.kept, done.settled, ?_, ?_, done.answers⟩
    · intro post member
      exact done.posts post (by rw [queued]; exact List.mem_cons_of_mem _ member)
    · intro j other there stays
      have before := done.once j other there stays
      rw [owed, done.settled.1, queued, List.filter_nil, List.filter_cons] at before
      rw [owed, show ({ s with posts } : Resolution Failure).requests = [] from done.settled.1, List.filter_nil]
      by_cases its : i = j
      · simp only [its, decide_true, if_true, List.length_cons, reduceCtorEq, if_false] at before ⊢
        omega
      · simp only [its, decide_false, Bool.false_eq_true, if_false, reduceCtorEq, Option.some.injEq] at before ⊢
        exact before
  refine ⟨_, ?_, due.deliver⟩
  rw [step, runPost, queued]

/-! ## Cancelling -/

theorem busy_cancel {requester : Requester Failure} {request : Request} (busy : Busy requester request s)
    {i : Nat} (undisturbed : Undisturbed (.cancel i) s) : Busy requester request (s.cancel i) := by
  obtain ⟨endpoint, requests, requesters, posts, outcomes, length⟩ := @cancel_fields _ s i
  have untouched (flag : Nat) (other : requester.cancelable ≠ some flag) (valid : s.isCanceled flag = false) :
      (s.cancel i).isCanceled flag = false := by
    rw [Bool.eq_false_iff]
    intro canceled
    rcases (isCanceled_cancel i flag).mp canceled with before | ⟨held, -⟩
    · rw [valid] at before
      exact Bool.false_ne_true before
    · rw [busy.alone.1] at held
      cases i with
      | zero => exact other held
      | succ i => simp at held
  have apart : requester.cancelable ≠ some request.cancelable ∨ i ≠ 0 := by
    by_cases first : i = 0
    · subst first
      refine Or.inl fun held => ?_
      exact undisturbed requester _ (by rw [busy.alone.1]; rfl) held request (by rw [busy.alone.2.1]; simp) rfl
    · exact Or.inr first
  refine ⟨by rw [endpoint]; exact busy.domain, by rw [endpoint]; exact busy.flags,
    by rw [requests, requesters, posts]; exact busy.alone, busy.silent, busy.forIt,
    ⟨untouched _ busy.apart busy.valid.1, ?_⟩, busy.apart, by rw [length]; exact busy.known,
    by rw [outcomes]; exact busy.nothing_yet⟩
  rcases apart with other | elsewhere
  · exact untouched _ other busy.valid.2
  · have nobody : s.cancel i = s := by
      obtain ⟨j, rfl⟩ := Nat.exists_eq_succ_of_ne_zero elsewhere
      rw [cancel, busy.alone.1]
      rfl
    rw [nobody]
    exact busy.valid.2

theorem done_cancel {outcome : Outcome Failure} (done : Done outcome s) (i : Nat) : Done outcome (s.cancel i) := by
  obtain ⟨endpoint, requests, requesters, posts, outcomes, -⟩ := @cancel_fields _ s i
  refine ⟨by rw [endpoint]; exact done.domain, by rw [endpoint]; exact done.flags, by rw [endpoint]; exact done.kept,
    by rw [requests, outcomes]; exact done.settled, by rw [posts, requesters]; exact done.posts, ?_,
    by rw [requesters]; exact done.answers⟩
  intro j other there stays
  have before := done.once j other (by rw [← requesters]; exact there) (not_withdrawn_cancel stays)
  rw [owed, done.settled.1] at before
  rw [owed, requests, done.settled.1, posts]
  exact before

/-- Cancelling what the resolver is at work on leaves `resolving_` behind. -/
theorem cancel_resolving {i : Nat} {requester : Requester Failure} {request : Request}
    (busy : Busy requester request s) (here : s.requesters[i]? = some requester)
    (held : requester.cancelable = some request.cancelable) : ¬Sound (s.cancel i) := by
  obtain ⟨endpoint, requests, -⟩ := @cancel_fields _ s i
  intro sound
  obtain ⟨other, member, valid⟩ := sound.resolving.mp (by rw [endpoint]; exact busy.flags.2.1)
  rw [requests, busy.alone.2.1] at member
  obtain rfl := List.mem_singleton.mp member
  have canceled : (s.cancel i).isCanceled other.cancelable = true :=
    (isCanceled_cancel i _).mpr (Or.inr ⟨by rw [here]; exact held, busy.known⟩)
  rw [valid] at canceled
  exact Bool.false_ne_true canceled

/-! ## Steps and runs -/

theorem step_situation {e : Event Failure} (situation : Situation s) (admits : Admits e s)
    (undisturbed : Undisturbed e s) : ∃ s', step e s = .ok s' ∧ Situation s' := by
  rcases situation with unused | ⟨requester, request, busy⟩ | ⟨outcome, done⟩
  · cases e with
    | request kind =>
      obtain ⟨s', requester, request, stepped, busy⟩ := unused_request unused kind
      exact ⟨s', stepped, Or.inr (Or.inl ⟨requester, request, busy⟩)⟩
    | complete k outcome => exact absurd admits (by simp [Admits, unused.nobody])
    | posted => exact absurd unused.nobody.2.2 admits
    | cancel i => exact absurd admits (by simp [Admits, unused.nobody])
  · cases e with
    | request kind =>
      obtain ⟨unavailable, resolvable⟩ := busy.tests
      rcases undisturbed with available | unresolvable | idle
      · exact absurd available (by simp [unavailable])
      · exact absurd unresolvable (by simp [resolvable])
      · exact absurd idle (by simp [busy.flags])
    | complete k outcome =>
      obtain ⟨s', stepped, done⟩ := busy_complete busy admits outcome
      exact ⟨s', stepped, Or.inr (Or.inr ⟨outcome, done⟩)⟩
    | posted => exact absurd busy.alone.2.2 admits
    | cancel i => exact ⟨_, rfl, Or.inr (Or.inl ⟨requester, request, busy_cancel busy undisturbed⟩)⟩
  · cases e with
    | request kind =>
      obtain ⟨s', stepped, still⟩ := done_request done kind
      exact ⟨s', stepped, Or.inr (Or.inr ⟨outcome, still⟩)⟩
    | complete k other => exact absurd admits (by simp [Admits, done.settled])
    | posted =>
      obtain ⟨s', stepped, still⟩ := done_posted done admits
      exact ⟨s', stepped, Or.inr (Or.inr ⟨outcome, still⟩)⟩
    | cancel i => exact ⟨_, rfl, Or.inr (Or.inr ⟨outcome, done_cancel done i⟩)⟩

/-- Either disturbance shows in the step. -/
theorem sound_undisturbed {e : Event Failure} (situation : Situation s) (stepped : step e s = .ok s')
    (sound : Sound s') : Undisturbed e s := by
  rcases situation with unused | ⟨requester, request, busy⟩ | ⟨outcome, done⟩
  · cases e with
    | request kind => exact Or.inr (Or.inr unused.fresh.2.1)
    | complete k outcome => trivial
    | posted => trivial
    | cancel i =>
      intro requester flag here
      rw [unused.nobody.1] at here
      exact absurd here (by simp)
  · cases e with
    | request kind =>
      rw [request_asserts kind busy.tests busy.flags.2.1] at stepped
      cases stepped
    | complete k outcome => trivial
    | posted => trivial
    | cancel i =>
      intro other flag here held asked member same
      cases stepped
      obtain rfl : requester = other := by
        have member := List.mem_of_getElem? here
        rw [busy.alone.1] at member
        exact (List.mem_singleton.mp member).symm
      obtain rfl : asked = request := by
        rw [busy.alone.2.1] at member
        exact List.mem_singleton.mp member
      exact cancel_resolving busy here (by rw [held, same]) sound
  · cases e with
    | request kind => exact Or.inr (Or.inr done.flags.2)
    | complete k other => trivial
    | posted => trivial
    | cancel i =>
      intro requester flag _ _ request member
      rw [done.settled.1] at member
      exact absurd member List.not_mem_nil

/-- Every step is in order exactly when nobody disturbs the resolution. -/
theorem shared_resolution_sound_iff (domain : Bytes) (port : Nat) (events : List (Event Failure))
    (admitted : machine.Admitted events (start domain port)) :
    machine.AllSteps (fun _ _ s' => Sound s') events (start domain port) ↔
      machine.Along Undisturbed events (start domain port) := by
  refine @Machine.allSteps_iff_along _ _ _ machine Situation _ _ ?_ ?_ events _
    (Or.inl (start_unused domain port)) admitted
  · intro e s situation admits
    constructor
    · rintro ⟨s', stepped, sound⟩
      exact sound_undisturbed situation stepped sound
    · intro undisturbed
      obtain ⟨s', stepped, after⟩ := step_situation situation admits undisturbed
      exact ⟨s', stepped, after.sound⟩
  · intro e s s' situation admits undisturbed stepped
    obtain ⟨s₁, stepped₁, after⟩ := step_situation situation admits undisturbed
    obtain rfl : s₁ = s' := Except.ok.inj (stepped₁.symm.trans stepped)
    exact after

/-- A connector asks, and after it has failed another one, which gives up. -/
theorem shared_resolution_sound_iff_in_turn :
    machine.AllSteps (fun _ _ s' => Sound s')
      [.request .connector, .complete 0 (.failed 7), .request .connector, .cancel 1, .posted]
      (start [0x61] 80 : Resolution Nat) := by
  have admitted : machine.Admitted
      [.request .connector, .complete 0 (.failed 7), .request .connector, .cancel 1, .posted]
      (start [0x61] 80 : Resolution Nat) := by
    refine ⟨trivial, fun s stepped => ?_⟩
    cases stepped
    refine ⟨Nat.zero_lt_one, fun s stepped => ?_⟩
    cases stepped
    refine ⟨trivial, fun s stepped => ?_⟩
    cases stepped
    refine ⟨Nat.one_lt_two, fun s stepped => ?_⟩
    cases stepped
    exact ⟨nofun, fun _ _ => trivial⟩
  refine (shared_resolution_sound_iff [0x61] 80 _ admitted).mpr ?_
  refine ⟨Or.inr (Or.inr rfl), fun s stepped => ?_⟩
  cases stepped
  refine ⟨trivial, fun s stepped => ?_⟩
  cases stepped
  refine ⟨Or.inr (Or.inl rfl), fun s stepped => ?_⟩
  cases stepped
  refine ⟨fun _ _ _ _ _ member => absurd member List.not_mem_nil, fun s stepped => ?_⟩
  cases stepped
  exact ⟨trivial, fun _ _ => trivial⟩

/-- Two connectors at once trip the assertion of `Resolve`. A user that cancels leaves the
endpoint resolving, with nothing outstanding. -/
theorem resolution_disturbed :
    (machine.Admitted [.request .connector, .request .connector] (start [0x61] 80 : Resolution Nat) ∧
      machine.run [.request .connector, .request .connector] (start [0x61] 80 : Resolution Nat) =
        .error .assertion) ∧
    machine.Admitted [.request .user, .cancel 0] (start [0x61] 80 : Resolution Nat) ∧
      ∃ s, machine.run [.request .user, .cancel 0] (start [0x61] 80 : Resolution Nat) = .ok s ∧
        s.endpoint.resolving = true ∧ ∀ request ∈ s.requests, s.isCanceled request.cancelable = true := by
  refine ⟨⟨⟨trivial, fun _ _ => ⟨trivial, fun _ _ => trivial⟩⟩, rfl⟩, ⟨trivial, fun s stepped => ?_⟩,
    _, rfl, rfl, by decide⟩
  cases stepped
  exact ⟨Nat.zero_lt_one, fun _ _ => trivial⟩

end LibNekit.Guarantees.SharedResolution
