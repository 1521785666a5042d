import LibNekit.Library.Ranked
import LibNekit.Source.Utils.SystemResolver

/-!
# Where a request is

A request to the system resolver is in its queue, with one of its threads, on its way
back, or its handler has been called: in one of these places at most, whatever order the
threads and the caller's runloop take their steps in. A closure is dropped only if its
request is cancelled or the resolver is gone.
-/
namespace LibNekit.Guarantees.ResolverThreads

open LibNekit.Source LibNekit.Library LibNekit.Source.SystemResolver
open Resolution (Outcome)

variable {Failure : Type} {answers : Bytes → Outcome Failure → Prop} {s s' : SystemResolver Failure}
  {e : SystemResolver.Event Failure}

/-! ## Places -/

/-- The closure that a thread is running. -/
def running : Thread → List Job
  | .entered job | .resolving job => [job]
  | .waiting | .returned => []

/-- The closures that have not been dropped and have not posted an answer. -/
def jobs (s : SystemResolver Failure) : List Job := s.queue ++ s.threads.flatMap running

/-- In how many places a request is. -/
def places (s : SystemResolver Failure) (request : Nat) : Nat :=
  ((jobs s).map Job.request).count request + (s.posted.map Prod.fst).count request +
    (s.called.map Prod.fst).count request

theorem count_cons (xs : List Nat) (x request : Nat) :
    (x :: xs).count request = xs.count request + [x].count request := by
  rw [List.count_cons, List.count_singleton]

theorem places_eq (s : SystemResolver Failure) (request : Nat) : places s request =
    (s.queue.map Job.request).count request + ((s.threads.flatMap running).map Job.request).count request +
      (s.posted.map Prod.fst).count request + (s.called.map Prod.fst).count request := by
  rw [places, jobs, List.map_append, List.count_append]

/-- What a thread turns to is what the threads run, but for what it leaves. -/
theorem perm_running_set {threads : List Thread} {t : Nat} {before : Thread} (found : threads[t]? = some before)
    (after : Thread) :
    (running before ++ (threads.set t after).flatMap running).Perm (running after ++ threads.flatMap running) := by
  induction threads generalizing t with
  | nil => exact absurd found (by rw [List.getElem?_nil]; rintro ⟨⟩)
  | cons first rest ih =>
    cases t with
    | zero =>
      obtain rfl : first = before := Option.some.inj found
      rw [List.set_cons_zero, List.flatMap_cons, List.flatMap_cons]
      exact List.perm_append_comm_assoc _ _ _
    | succ t =>
      have rest_perm := ih (t := t) (by rwa [List.getElem?_cons_succ] at found)
      rw [List.set_cons_succ, List.flatMap_cons, List.flatMap_cons]
      apply (List.perm_append_comm_assoc _ _ _).trans
      apply ((List.Perm.refl _).append rest_perm).trans
      exact List.perm_append_comm_assoc _ _ _

theorem count_running_set {threads : List Thread} {t : Nat} {before : Thread} (found : threads[t]? = some before)
    (after : Thread) (request : Nat) :
    ((running before).map Job.request).count request +
        (((threads.set t after).flatMap running).map Job.request).count request =
      ((running after).map Job.request).count request + ((threads.flatMap running).map Job.request).count request := by
  have same := ((perm_running_set found after).map Job.request).count_eq request
  rwa [List.map_append, List.map_append, List.count_append, List.count_append] at same

/-- Only a closure whose request is cancelled, or whose resolver is gone, is dropped. -/
def Drops (e : SystemResolver.Event Failure) (s : SystemResolver Failure) (request : Nat) : Prop :=
  s.dropped request = true ∨ e = .joined ∧ s.caller = .destroying

theorem places_resolve (domain : Bytes) (s : SystemResolver Failure) (request : Nat) :
    places (s.resolve domain) request = places s request + [s.requests.length].count request := by
  rw [places_eq, places_eq, resolve]
  dsimp only
  rw [List.map_append, List.count_append, List.map_singleton]
  dsimp only
  omega

theorem places_take {t : Nat} (waits : s.threads[t]? = some .waiting) (request : Nat) :
    places (s.take t) request = places s request := by
  unfold take
  split
  · rfl
  · next job queue queued =>
    have set := count_running_set waits (.entered job) request
    rw [places_eq, places_eq, queued]
    change (queue.map Job.request).count request + _ + _ + _ = ((job.request :: queue.map Job.request).count request) + _ + _ + _
    rw [count_cons]
    change 0 + _ = [job.request].count request + _ at set
    dsimp only
    omega

theorem places_look {t : Nat} {job : Job} (entered : s.threads[t]? = some (.entered job)) (request : Nat) :
    places (s.look t) request + (if s.dropped job.request then [job.request].count request else 0) =
      places s request := by
  rw [look, entered]
  dsimp only
  rw [places_eq, places_eq]
  dsimp only
  cases s.dropped job.request with
  | true =>
    have set := count_running_set entered .waiting request
    change [job.request].count request + _ = 0 + _ at set
    rw [if_pos rfl, if_pos rfl]
    omega
  | false =>
    have set := count_running_set entered (.resolving job) request
    change [job.request].count request + _ = [job.request].count request + _ at set
    rw [if_neg Bool.false_ne_true, if_neg Bool.false_ne_true]
    omega

theorem places_answer {t : Nat} {job : Job} (resolving : s.threads[t]? = some (.resolving job))
    (outcome : Outcome Failure) (request : Nat) : places (s.answer t outcome) request = places s request := by
  have set := count_running_set resolving .waiting request
  change [job.request].count request + _ = 0 + _ at set
  rw [answer, resolving, places_eq, places_eq]
  dsimp only
  rw [List.map_append, List.count_append, List.map_singleton]
  dsimp only
  omega

theorem places_leave {t : Nat} (waits : s.threads[t]? = some .waiting) (request : Nat) :
    places { s with threads := s.threads.set t .returned } request = places s request := by
  have set := count_running_set waits .returned request
  change 0 + _ = 0 + _ at set
  rw [places_eq, places_eq]
  dsimp only
  omega

theorem places_runPosted {first : Nat × Outcome Failure} {posted : List (Nat × Outcome Failure)}
    (some_posted : s.posted = first :: posted) (request : Nat) :
    places s.runPosted request + (if s.dropped first.1 then [first.1].count request else 0) = places s request := by
  rw [runPosted, some_posted]
  dsimp only
  cases dropped : s.dropped first.1 with
  | true =>
    rw [if_pos rfl, if_pos rfl, places_eq, places_eq, some_posted, List.map_cons,
      count_cons (posted.map Prod.fst)]
    dsimp only
    omega
  | false =>
    rw [if_neg Bool.false_ne_true, if_neg Bool.false_ne_true, places_eq, places_eq, some_posted, List.map_cons,
      count_cons (posted.map Prod.fst)]
    dsimp only
    rw [List.map_append, List.count_append, List.map_singleton]
    dsimp only
    omega

theorem places_joined (s : SystemResolver Failure) (request : Nat) :
    places s.joined request ≤ places s request ∧
      (s.caller ≠ .destroying → places s.joined request = places s request) := by
  unfold joined
  split
  · next destroying =>
    rw [places_eq, places_eq]
    dsimp only
    rw [List.map_nil, List.count_nil]
    constructor
    · omega
    · intro other
      exact absurd destroying other
  · exact ⟨Nat.le_refl _, fun _ => rfl⟩

/-- The place that `Resolve` makes for its request. -/
def newly : SystemResolver.Event Failure → SystemResolver Failure → Nat → Nat
  | .resolve _, s, request => [s.requests.length].count request
  | _, _, _ => 0

/-- Where a step leaves a request. -/
theorem places_step (admits : Admits answers e s) (request : Nat) :
    places (step e s) request ≤ places s request + newly e s request ∧
      (¬Drops e s request → places (step e s) request = places s request + newly e s request) := by
  have stays : ∀ {n m : Nat}, n = m → n ≤ m ∧ (¬Drops e s request → n = m) :=
    fun same => ⟨Nat.le_of_eq same, fun _ => same⟩
  -- a closure that is dropped is one of a request that may be
  have drops : ∀ {n other : Nat}, n + (if s.dropped other then [other].count request else 0) = places s request →
      n ≤ places s request ∧ (¬Drops e s request → n = places s request) := by
    intro n other counted
    constructor
    · omega
    · intro kept
      by_cases same : other = request
      · subst same
        have valid : s.dropped other ≠ true := fun dropped => kept (Or.inl dropped)
        rwa [if_neg valid] at counted
      · rw [List.count_singleton, beq_eq_false_iff_ne.mpr same] at counted
        cases dropped : s.dropped other with
        | true => rwa [dropped, if_pos rfl, if_neg Bool.false_ne_true] at counted
        | false => rwa [dropped, if_neg Bool.false_ne_true] at counted
  cases e with
  | resolve domain => exact stays (places_resolve domain s request)
  | cancel other => exact stays rfl
  | stop => exact stays rfl
  | destroy => exact stays rfl
  | joined =>
    have counted := places_joined s request
    constructor
    · exact counted.1
    · intro kept
      apply counted.2
      intro destroying
      exact kept (Or.inr ⟨rfl, destroying⟩)
  | runPosted =>
    obtain ⟨first, posted, some_posted⟩ := List.exists_cons_of_ne_nil admits.1
    exact drops (places_runPosted some_posted request)
  | take t => exact stays (places_take admits.1 request)
  | look t =>
    obtain ⟨job, entered⟩ := admits
    exact drops (places_look entered request)
  | answer t outcome =>
    obtain ⟨job, resolving, -⟩ := admits
    exact stays (places_answer resolving outcome request)
  | leave t => exact stays (places_leave admits.1 request)

/-! ## What no step undoes -/

/-- Steps that only move closures. -/
def Moves : SystemResolver.Event Failure → Prop
  | .runPosted | .take _ | .look _ | .answer _ _ | .leave _ => True
  | .resolve _ | .cancel _ | .stop | .destroy | .joined => False

theorem moves_frame (moves : Moves e) (s : SystemResolver Failure) :
    ∃ queue threads posted called, step e s = { s with queue, threads, posted, called } := by
  cases e with
  | runPosted =>
    change ∃ queue threads posted called, s.runPosted = _
    unfold runPosted
    split
    · exact ⟨_, _, _, _, rfl⟩
    · split <;> exact ⟨_, _, _, _, rfl⟩
  | take t =>
    change ∃ queue threads posted called, s.take t = _
    unfold take
    split <;> exact ⟨_, _, _, _, rfl⟩
  | look t =>
    change ∃ queue threads posted called, s.look t = _
    unfold look
    split <;> exact ⟨_, _, _, _, rfl⟩
  | answer t outcome =>
    change ∃ queue threads posted called, s.answer t outcome = _
    unfold answer
    split <;> exact ⟨_, _, _, _, rfl⟩
  | leave t => exact ⟨_, _, _, _, rfl⟩
  | _ => exact moves.elim

/-- The two outcomes of `join_all`. -/
theorem joined_cases (admits : Admits answers .joined s) :
    s.caller = .destroying ∧ s.joined = { s with lifetime := true, queue := [], caller := .gone } ∨
      s.caller = .stopping ∧ s.joined = { s with caller := .free } := by
  rcases admits.1 with stopping | destroying
  · exact Or.inr ⟨stopping, by rw [joined, stopping]⟩
  · exact Or.inl ⟨destroying, by rw [joined, destroying]⟩

/-- What a step makes of the requests. -/
def asked : SystemResolver.Event Failure → List Request → List Request
  | .resolve domain, requests => requests ++ [{ domain }]
  | .cancel request, requests => requests.modify request fun asked => { asked with canceled := true }
  | _, requests => requests

theorem requests_step (admits : Admits answers e s) : (step e s).requests = asked e s.requests := by
  have moved : Moves e → (step e s).requests = s.requests := by
    intro moves
    obtain ⟨queue, threads, posted, called, framed⟩ := moves_frame moves s
    rw [framed]
  cases e with
  | resolve domain => rfl
  | cancel request => rfl
  | stop => rfl
  | destroy => rfl
  | joined =>
    change s.joined.requests = s.requests
    rcases joined_cases admits with ⟨_, done⟩ | ⟨_, done⟩ <;> rw [done]
  | _ => exact moved trivial

theorem length_step (admits : Admits answers e s) (request : Nat) :
    newly e s request = 0 ∧ (step e s).requests.length = s.requests.length ∨
      newly e s request = [s.requests.length].count request ∧
        (step e s).requests.length = s.requests.length + 1 := by
  rw [requests_step admits]
  cases e with
  | resolve domain => exact Or.inr ⟨rfl, List.length_append⟩
  | cancel other => exact Or.inl ⟨rfl, List.length_modify _ _ _⟩
  | _ => exact Or.inl ⟨rfl, rfl⟩

/-- A request that has been made stays, and so does its being cancelled. -/
theorem request_step (admits : Admits answers e s) {request : Nat} {found : Request}
    (at_request : s.requests[request]? = some found) :
    ∃ later, (step e s).requests[request]? = some later ∧ later.domain = found.domain ∧
      (found.canceled = true → later.canceled = true) := by
  rw [requests_step admits]
  cases e with
  | resolve domain =>
    refine ⟨found, ?_, rfl, id⟩
    rw [asked, List.getElem?_append_left (List.getElem?_eq_some_iff.mp at_request).1]
    exact at_request
  | cancel other =>
    rw [asked, List.getElem?_modify, at_request, Option.map_eq_map, Option.map_some]
    by_cases same : other = request
    · exact ⟨{ found with canceled := true }, by rw [if_pos same], rfl, fun _ => rfl⟩
    · exact ⟨found, by rw [if_neg same], rfl, id⟩
  | _ => exact ⟨found, at_request, rfl, id⟩

theorem isCanceled_iff {request : Nat} :
    s.isCanceled request = true ↔ ∃ found, s.requests[request]? = some found ∧ found.canceled = true := by
  unfold isCanceled
  cases s.requests[request]? with
  | none =>
    constructor
    · rintro ⟨⟩
    · rintro ⟨_, ⟨⟩, _⟩
  | some found =>
    constructor
    · intro canceled
      exact ⟨found, rfl, canceled⟩
    · rintro ⟨_, ⟨⟩, canceled⟩
      exact canceled

theorem isCanceled_step (admits : Admits answers e s) {request : Nat} (canceled : s.isCanceled request = true) :
    (step e s).isCanceled request = true := by
  obtain ⟨found, at_request, flag⟩ := isCanceled_iff.mp canceled
  obtain ⟨later, there, -, stays⟩ := request_step admits at_request
  exact isCanceled_iff.mpr ⟨later, there, stays flag⟩

/-- `lifetime_` is cancelled where the destructor has joined the threads, and nowhere else. -/
theorem lifetime_step (admits : Admits answers e s) (gone : s.lifetime = true ↔ s.caller = .gone) :
    ((step e s).lifetime = true ↔ (step e s).caller = .gone) ∧
      (s.lifetime = true → (step e s).lifetime = true) ∧
      (e = .joined ∧ s.caller = .destroying → (step e s).lifetime = true) := by
  have alive : s.caller ≠ .gone → s.lifetime ≠ true := fun here lifetime => here (gone.mp lifetime)
  have moved : Moves e → ((step e s).lifetime = true ↔ (step e s).caller = .gone) ∧
      (s.lifetime = true → (step e s).lifetime = true) ∧
      (e = .joined ∧ s.caller = .destroying → (step e s).lifetime = true) := by
    intro moves
    obtain ⟨queue, threads, posted, called, framed⟩ := moves_frame moves s
    rw [framed]
    exact ⟨gone, id, by rintro ⟨rfl, _⟩; exact moves.elim⟩
  cases e with
  | resolve domain => exact ⟨gone, id, by rintro ⟨⟨⟩, _⟩⟩
  | cancel request => exact ⟨gone, id, by rintro ⟨⟨⟩, _⟩⟩
  | stop =>
    have free : s.caller ≠ .gone := by
      rw [show s.caller = .free from admits]
      rintro ⟨⟩
    exact ⟨⟨fun lifetime => absurd lifetime (alive free), by rintro ⟨⟩⟩, id, by rintro ⟨⟨⟩, _⟩⟩
  | destroy =>
    have free : s.caller ≠ .gone := by
      rw [show s.caller = .free from admits]
      rintro ⟨⟩
    exact ⟨⟨fun lifetime => absurd lifetime (alive free), by rintro ⟨⟩⟩, id, by rintro ⟨⟨⟩, _⟩⟩
  | joined =>
    change (s.joined.lifetime = true ↔ s.joined.caller = .gone) ∧ (_ → s.joined.lifetime = true) ∧
      (_ → s.joined.lifetime = true)
    rcases joined_cases admits with ⟨destroying, done⟩ | ⟨stopping, done⟩
    · rw [done]
      exact ⟨⟨fun _ => rfl, fun _ => rfl⟩, fun _ => rfl, fun _ => rfl⟩
    · rw [done, stopping]
      have here : s.caller ≠ .gone := by
        rw [stopping]
        rintro ⟨⟩
      exact ⟨⟨fun lifetime => absurd lifetime (alive here), by rintro ⟨⟩⟩, id, by rintro ⟨_, ⟨⟩⟩⟩
  | _ => exact moved trivial

end LibNekit.Guarantees.ResolverThreads
