import LibNekit.Guarantees.ResolverRuns

/-!
# The system resolver gets done

Steps that nobody asks for use up what there is to do, and where none is left to take,
the requests are answered and `Stop` has returned.
-/
namespace LibNekit.Guarantees.ResolverProgress

open LibNekit.Source LibNekit.Library LibNekit.Source.SystemResolver LibNekit.Guarantees.ResolverThreads
  LibNekit.Guarantees.ResolverRuns
open Resolution (Outcome)

variable {Failure : Type} {answers : Bytes → Outcome Failure → Prop} {s s' : SystemResolver Failure}
  {e : SystemResolver.Event Failure}

/-! ## What is left to do -/

/-- The steps that a thread has before it. -/
def weight : Thread → Nat
  | .waiting => 1
  | .entered _ => 4
  | .resolving _ => 3
  | .returned => 0

/-- `join_all` has not returned. -/
def joining (s : SystemResolver Failure) : Prop := s.caller = .stopping ∨ s.caller = .destroying

instance (s : SystemResolver Failure) : Decidable (joining s) := inferInstanceAs (Decidable (_ ∨ _))

def rank (s : SystemResolver Failure) : Nat :=
  4 * s.queue.length + (s.threads.map weight).sum + s.posted.length + (if joining s then 1 else 0)

theorem sum_weight_set {threads : List Thread} {t : Nat} {before : Thread} (found : threads[t]? = some before)
    (after : Thread) :
    ((threads.set t after).map weight).sum + weight before = (threads.map weight).sum + weight after := by
  induction threads generalizing t with
  | nil => exact absurd found (by rw [List.getElem?_nil]; rintro ⟨⟩)
  | cons first rest ih =>
    cases t with
    | zero =>
      obtain rfl : first = before := Option.some.inj found
      rw [List.set_cons_zero, List.map_cons, List.map_cons, List.sum_cons, List.sum_cons]
      omega
    | succ t =>
      have rest_sum := ih (t := t) (by rwa [List.getElem?_cons_succ] at found)
      rw [List.set_cons_succ, List.map_cons, List.map_cons, List.sum_cons, List.sum_cons]
      omega

theorem rank_falls (admits : Admits answers e s) (internal : e.internal = true) : rank (step e s) < rank s := by
  cases e with
  | resolve domain => exact absurd internal Bool.false_ne_true
  | cancel request => exact absurd internal Bool.false_ne_true
  | stop => exact absurd internal Bool.false_ne_true
  | destroy => exact absurd internal Bool.false_ne_true
  | joined =>
    change rank s.joined < rank s
    have busy : joining s := admits.1
    have before : rank s = 4 * s.queue.length + (s.threads.map weight).sum + s.posted.length + 1 := by
      rw [rank, if_pos busy]
    rcases joined_cases admits with ⟨_, done⟩ | ⟨_, done⟩
    · have after : rank s.joined = (s.threads.map weight).sum + s.posted.length := by
        rw [done, rank, if_neg (by rintro (⟨⟨⟩⟩ | ⟨⟨⟩⟩))]
        exact congrArg (· + s.posted.length) (Nat.zero_add _)
      omega
    · have after : rank s.joined = 4 * s.queue.length + (s.threads.map weight).sum + s.posted.length := by
        rw [done, rank, if_neg (by rintro (⟨⟨⟩⟩ | ⟨⟨⟩⟩))]
        rfl
      omega
  | runPosted =>
    change rank s.runPosted < rank s
    obtain ⟨first, posted, some_posted⟩ := List.exists_cons_of_ne_nil admits.1
    have after : rank s.runPosted =
        4 * s.queue.length + (s.threads.map weight).sum + posted.length + (if joining s then 1 else 0) := by
      rw [runPosted, some_posted]
      dsimp only
      split <;> rfl
    rw [after, rank, some_posted, List.length_cons]
    omega
  | take t =>
    change rank (s.take t) < rank s
    obtain ⟨first, queue, queued⟩ := List.exists_cons_of_ne_nil admits.2
    have sum := sum_weight_set admits.1 (.entered first)
    have after : rank (s.take t) = 4 * queue.length + ((s.threads.set t (.entered first)).map weight).sum +
        s.posted.length + (if joining s then 1 else 0) := by
      rw [take, queued]
      rfl
    rw [after, rank, queued, List.length_cons]
    change _ + 1 = _ + 4 at sum
    omega
  | look t =>
    change rank (s.look t) < rank s
    obtain ⟨first, entered⟩ := admits
    have sum := sum_weight_set entered (if s.dropped first.request then .waiting else .resolving first)
    have after : rank (s.look t) = 4 * s.queue.length +
        ((s.threads.set t (if s.dropped first.request then .waiting else .resolving first)).map weight).sum +
        s.posted.length + (if joining s then 1 else 0) := by
      rw [look, entered]
      rfl
    have lighter : weight (if s.dropped first.request then .waiting else .resolving first) < weight (.entered first) := by
      split
      · exact (by decide : 1 < 4)
      · exact (by decide : 3 < 4)
    rw [after, rank]
    omega
  | answer t outcome =>
    change rank (s.answer t outcome) < rank s
    obtain ⟨first, resolving, _⟩ := admits
    have sum := sum_weight_set resolving .waiting
    have after : rank (s.answer t outcome) = 4 * s.queue.length + ((s.threads.set t .waiting).map weight).sum +
        (s.posted.length + 1) + (if joining s then 1 else 0) := by
      rw [answer, resolving]
      change _ + (s.posted ++ [_]).length + _ = _
      rw [List.length_append]
      rfl
    rw [after, rank]
    change _ + 3 = _ + 1 at sum
    omega
  | leave t =>
    have sum := sum_weight_set admits.1 .returned
    change _ + 1 = _ + 0 at sum
    change 4 * s.queue.length + ((s.threads.set t .returned).map weight).sum + s.posted.length +
      (if joining s then 1 else 0) < _
    rw [rank]
    omega

/-! ## Threads and their guard -/

theorem mem_set {threads : List Thread} {t : Nat} {after : Thread} (returned : .returned ∈ threads.set t after)
    (other : after ≠ .returned) : .returned ∈ threads := by
  rcases List.mem_or_eq_of_mem_set returned with old | new
  · exact old
  · exact absurd new.symm other

/-- The threads that a step of a thread, or of nobody, leaves behind. -/
theorem threads_step (admits : Admits answers e s) :
    (step e s).threads = s.threads ∨ ∃ t before after, s.threads[t]? = some before ∧ before ≠ .returned ∧
      (step e s).threads = s.threads.set t after ∧ (after = .returned → s.workGuard = false ∧ s.queue = []) ∧
      (step e s).caller = s.caller := by
  cases e with
  | resolve domain => exact Or.inl rfl
  | cancel request => exact Or.inl rfl
  | stop => exact Or.inl rfl
  | destroy => exact Or.inl rfl
  | joined =>
    change s.joined.threads = _ ∨ _
    apply Or.inl
    rcases joined_cases admits with ⟨_, done⟩ | ⟨_, done⟩ <;> rw [done]
  | runPosted =>
    change s.runPosted.threads = _ ∨ _
    apply Or.inl
    unfold runPosted
    split
    · rfl
    · split <;> rfl
  | take t =>
    obtain ⟨first, queue, queued⟩ := List.exists_cons_of_ne_nil admits.2
    have done : step (.take t) s = { s with queue, threads := s.threads.set t (.entered first) } := by
      change s.take t = _
      rw [take, queued]
    apply Or.inr
    rw [done]
    exact ⟨t, .waiting, .entered first, admits.1, by rintro ⟨⟩, rfl, by rintro ⟨⟩, rfl⟩
  | look t =>
    obtain ⟨first, entered⟩ := admits
    have done : step (.look t) s = { s with
        threads := s.threads.set t (if s.dropped first.request then .waiting else .resolving first) } := by
      change s.look t = _
      rw [look, entered]
    apply Or.inr
    rw [done]
    refine ⟨t, .entered first, _, entered, by rintro ⟨⟩, rfl, ?_, rfl⟩
    split <;> rintro ⟨⟩
  | answer t outcome =>
    obtain ⟨first, resolving, _⟩ := admits
    have done : step (.answer t outcome) s = { s with
        threads := s.threads.set t .waiting, posted := s.posted ++ [(first.request, outcome)] } := by
      change s.answer t outcome = _
      rw [answer, resolving]
    apply Or.inr
    rw [done]
    exact ⟨t, .resolving first, .waiting, resolving, by rintro ⟨⟩, rfl, by rintro ⟨⟩, rfl⟩
  | leave t =>
    exact Or.inr ⟨t, .waiting, .returned, admits.1, by rintro ⟨⟩, rfl, fun _ => ⟨admits.2.1, admits.2.2.1⟩, rfl⟩

/-- Threads return only where the guard is gone, and whoever joins them waits for all. -/
structure Guarded (threadCount : Nat) (s : SystemResolver Failure) : Prop where
  count : s.threads.length = threadCount
  guarded : s.workGuard = true → s.caller = .free ∧ .returned ∉ s.threads
  joined : s.workGuard = false → ¬joining s → ∀ thread ∈ s.threads, thread = .returned

theorem guarded_init (threadCount : Nat) : Guarded threadCount (init threadCount : SystemResolver Failure) := by
  constructor
  case count => exact List.length_replicate
  case guarded =>
    intro _
    constructor
    · rfl
    · intro returned
      cases List.eq_of_mem_replicate returned
  case joined => rintro ⟨⟩

theorem guard_step (admits : Admits answers e s) :
    (step e s).workGuard = s.workGuard ∧ (joining (step e s) ↔ joining s) ∧ (s.caller = .free → (step e s).caller = .free) ∨
      (step e s).workGuard = false ∧ joining (step e s) ∧ (step e s).threads = s.threads ∨
      (step e s).workGuard = s.workGuard ∧ joining s ∧ (step e s).threads = s.threads ∧
        ∀ thread ∈ s.threads, thread = .returned := by
  have moved : Moves e → (step e s).workGuard = s.workGuard ∧ (joining (step e s) ↔ joining s) ∧
      (s.caller = .free → (step e s).caller = .free) := by
    intro moves
    obtain ⟨queue, threads, posted, called, framed⟩ := moves_frame moves s
    rw [framed]
    exact ⟨rfl, Iff.rfl, id⟩
  cases e with
  | resolve domain => exact Or.inl ⟨rfl, Iff.rfl, id⟩
  | cancel request => exact Or.inl ⟨rfl, Iff.rfl, id⟩
  | stop => exact Or.inr (Or.inl ⟨rfl, Or.inl rfl, rfl⟩)
  | destroy => exact Or.inr (Or.inl ⟨rfl, Or.inr rfl, rfl⟩)
  | joined =>
    apply Or.inr
    apply Or.inr
    change s.joined.workGuard = _ ∧ _ ∧ s.joined.threads = _ ∧ _
    rcases joined_cases admits with ⟨_, done⟩ | ⟨_, done⟩
    · rw [done]
      exact ⟨rfl, admits.1, rfl, admits.2⟩
    · rw [done]
      exact ⟨rfl, admits.1, rfl, admits.2⟩
  | _ => exact Or.inl (moved trivial)

theorem Guarded.step {threadCount : Nat} (guarded : Guarded threadCount s) (admits : Admits answers e s) :
    Guarded threadCount (step e s) := by
  have threads := threads_step admits
  constructor
  case count =>
    rcases threads with same | ⟨t, before, after, _, _, turned, _⟩
    · rw [same, guarded.count]
    · rw [turned, List.length_set, guarded.count]
  case guarded =>
    intro guard
    rcases guard_step admits with ⟨same, _, free⟩ | ⟨released, _⟩ | ⟨same, joins, _⟩
    · rw [same] at guard
      obtain ⟨was_free, none_returned⟩ := guarded.guarded guard
      refine ⟨free was_free, ?_⟩
      rcases threads with unturned | ⟨t, before, after, _, _, turned, leaves, _⟩
      · rwa [unturned]
      · rw [turned]
        intro returned
        by_cases left : after = .returned
        · rw [(leaves left).1] at guard
          exact Bool.false_ne_true guard
        · exact none_returned (mem_set returned left)
    · rw [released] at guard
      exact absurd guard Bool.false_ne_true
    · rw [same] at guard
      rw [joining, (guarded.guarded guard).1] at joins
      rcases joins with ⟨⟨⟩⟩ | ⟨⟨⟩⟩
  case joined =>
    intro released not_joining
    rcases guard_step admits with ⟨same, joins, _⟩ | ⟨_, joins, _⟩ | ⟨_, _, unturned, returned⟩
    · rw [same] at released
      rw [joins] at not_joining
      have all := guarded.joined released not_joining
      rcases threads with unturned | ⟨t, before, after, found, still, _⟩
      · rwa [unturned]
      · exact absurd (all before (List.mem_of_getElem? found)) still
    · exact absurd joins not_joining
    · rwa [unturned]

/-! ## Where no step is left -/

/-- Nothing happens until the caller's runloop asks for it. -/
def Quiet (answers : Bytes → Outcome Failure → Prop) (s : SystemResolver Failure) : Prop :=
  ∀ e : SystemResolver.Event Failure, e.internal = true → ¬Admits answers e s

section Quiet

variable (total : ∀ domain, ∃ outcome, answers domain outcome) (quiet : Quiet answers s)
include total quiet

theorem quiet_thread {t : Nat} {thread : Thread} (found : s.threads[t]? = some thread) :
    thread = .returned ∨ thread = .waiting ∧ s.queue = [] := by
  cases thread with
  | returned => exact Or.inl rfl
  | waiting =>
    apply Or.inr
    constructor
    · rfl
    · by_contra queued
      exact quiet (.take t) rfl ⟨found, queued⟩
  | entered job => exact absurd ⟨job, found⟩ (quiet (.look t) rfl)
  | resolving job =>
    obtain ⟨outcome, allowed⟩ := total job.domain
    exact absurd ⟨job, found, allowed⟩ (quiet (.answer t outcome) rfl)

theorem quiet_idle (thread : Thread) (member : thread ∈ s.threads) : thread.idle = true ∧ running thread = [] := by
  obtain ⟨t, found⟩ := List.mem_iff_getElem?.mp member
  rcases quiet_thread total quiet found with rfl | ⟨rfl, _⟩ <;> exact ⟨rfl, rfl⟩

theorem quiet_not_joining {threadCount : Nat} (guarded : Guarded threadCount s) : ¬joining s := by
  intro joins
  have released : s.workGuard = false := by
    cases guard : s.workGuard with
    | false => rfl
    | true =>
      rw [joining, (guarded.guarded guard).1] at joins
      rcases joins with ⟨⟨⟩⟩ | ⟨⟨⟩⟩
  apply quiet .joined rfl
  refine ⟨joins, fun thread member => ?_⟩
  obtain ⟨t, found⟩ := List.mem_iff_getElem?.mp member
  rcases quiet_thread total quiet found with returned | ⟨rfl, empty⟩
  · exact returned
  · exact absurd ⟨found, released, empty, fun other there => (quiet_idle total quiet other there).1⟩ (quiet (.leave t) rfl)

/-- Whatever is not waiting in the queue has been answered. -/
theorem quiet_answered (sound : Sound answers s) (free : s.caller = .free) (empty : s.queue = []) (request : Nat)
    (known : request < s.requests.length) (valid : s.isCanceled request = false) :
    request ∈ s.called.map Prod.fst := by
  have no_jobs : jobs s = [] := by
    rw [jobs, empty, List.nil_append]
    exact List.flatMap_eq_nil_iff.mpr fun thread member => (quiet_idle total quiet thread member).2
  have no_posts : s.posted = [] := by
    by_contra posted
    exact quiet .runPosted rfl ⟨posted, Or.inl free⟩
  have alive : s.lifetime = false := by
    apply Bool.eq_false_iff.mpr
    intro lifetime
    rw [sound.gone.mp lifetime] at free
    cases free
  have kept := sound.kept alive request known valid
  rw [places, no_jobs, no_posts, List.map_nil, List.map_nil, List.count_nil] at kept
  apply List.count_pos_iff.mp
  omega

end Quiet

/-! ## Stopping -/

/-- `Stop` has been called once, and nothing since. -/
structure Draining (s : SystemResolver Failure) : Prop where
  caller : s.caller = .stopping ∨ s.caller = .free
  released : s.workGuard = false
  drained : .returned ∈ s.threads → s.queue = []

theorem queue_step (admits : Admits answers e s) (internal : e.internal = true) (empty : s.queue = []) :
    (step e s).queue = [] := by
  cases e with
  | resolve domain => exact absurd internal Bool.false_ne_true
  | cancel request => exact empty
  | stop => exact empty
  | destroy => exact empty
  | joined =>
    change s.joined.queue = []
    rcases joined_cases admits with ⟨_, done⟩ | ⟨_, done⟩
    · rw [done]
    · rw [done]
      exact empty
  | runPosted =>
    change s.runPosted.queue = []
    unfold runPosted
    split
    · exact empty
    · split <;> exact empty
  | take t => exact absurd empty admits.2
  | look t =>
    change (s.look t).queue = []
    unfold look
    split <;> exact empty
  | answer t outcome =>
    change (s.answer t outcome).queue = []
    unfold answer
    split <;> exact empty
  | leave t => exact empty

theorem Draining.step (draining : Draining s) (admits : Admits answers e s) (internal : e.internal = true) :
    Draining (step e s) := by
  constructor
  case caller =>
    have moved : Moves e → (SystemResolver.step e s).caller = s.caller := by
      intro moves
      obtain ⟨queue, threads, posted, called, framed⟩ := moves_frame moves s
      rw [framed]
    cases e with
    | resolve domain => exact draining.caller
    | cancel request => exact draining.caller
    | stop => exact absurd internal Bool.false_ne_true
    | destroy => exact absurd internal Bool.false_ne_true
    | joined =>
      change s.joined.caller = _ ∨ s.joined.caller = _
      rcases joined_cases admits with ⟨destroying, _⟩ | ⟨_, done⟩
      · rcases draining.caller with other | other
        · cases other.symm.trans destroying
        · cases other.symm.trans destroying
      · exact Or.inr (by rw [done])
    | _ =>
      rw [moved trivial]
      exact draining.caller
  case released =>
    rcases guard_step admits with ⟨same, _⟩ | ⟨released, _⟩ | ⟨same, _⟩
    · exact same.trans draining.released
    · exact released
    · exact same.trans draining.released
  case drained =>
    intro returned
    apply queue_step admits internal
    rcases threads_step admits with unturned | ⟨t, before, after, _, _, turned, leaves, _⟩
    · rw [unturned] at returned
      exact draining.drained returned
    · by_cases left : after = .returned
      · exact (leaves left).2
      · rw [turned] at returned
        exact draining.drained (mem_set returned left)

/-- Where `Stop` is called and nothing is asked for afterwards, it returns, and everything
asked before is answered. -/
theorem stop_answers {threadCount : Nat} (total : ∀ domain, ∃ outcome, answers domain outcome) (sound : Sound answers s)
    (guarded : Guarded threadCount s) (some_threads : 0 < threadCount) (guard : s.workGuard = true)
    (more : List (SystemResolver.Event Failure)) (internal : ∀ e ∈ more, e.internal = true)
    (admitted : (machine answers).Admitted (.stop :: more) s) :
    ∃ s', (machine answers).run (.stop :: more) s = .ok s' ∧ (Quiet answers s' → s'.caller = .free ∧
      ∀ request < s'.requests.length, s'.isCanceled request = false → request ∈ s'.called.map Prod.fst) := by
  have stopping : Draining (step .stop s) := {
    caller := Or.inl rfl
    released := rfl
    drained := fun returned => absurd returned (guarded.guarded guard).2 }
  have admits : Admits answers .stop s := admitted.1
  have preserved : ∀ e s, Sound answers s ∧ Guarded threadCount s ∧ Draining s → (machine answers).admits e s →
      e.internal = true → ∃ s', (machine answers).step e s = .ok s' ∧
        Sound answers s' ∧ Guarded threadCount s' ∧ Draining s' := by
    intro e s holds admits internal
    exact ⟨step e s, rfl, holds.1.step admits, holds.2.1.step admits, holds.2.2.step admits internal⟩
  obtain ⟨s', ran, sound', guarded', draining⟩ := Machine.run_invariant_of_inputs preserved
    more (step .stop s) ⟨sound.step admits, guarded.step admits, stopping⟩ (admitted.2 _ rfl) internal
  refine ⟨s', ran, fun quiet => ?_⟩
  have not_joining := quiet_not_joining total quiet guarded'
  have free : s'.caller = .free := draining.caller.resolve_left fun stopping => not_joining (Or.inl stopping)
  refine ⟨free, quiet_answered total quiet sound' free ?_⟩
  apply draining.drained
  obtain ⟨thread, member⟩ := List.exists_mem_of_length_pos (by rw [guarded'.count]; exact some_threads)
  rw [← guarded'.joined draining.released not_joining thread member]
  exact member

/-! ## After `Stop` -/

/-- No thread is left to answer the request. -/
structure Late (request : Nat) (s : SystemResolver Failure) : Prop where
  returned : ∀ thread ∈ s.threads, thread = .returned
  unanswered : request ∉ (given s).map Prod.fst

theorem Late.step {request : Nat} (late : Late request s) (admits : Admits answers e s) : Late request (step e s) := by
  have still : ∀ {t : Nat} {thread : Thread}, s.threads[t]? = some thread → thread = .returned :=
    fun found => late.returned _ (List.mem_of_getElem? found)
  constructor
  case returned =>
    rcases threads_step admits with unturned | ⟨t, before, after, found, not_returned, _⟩
    · rw [unturned]
      exact late.returned
    · exact absurd (still found) not_returned
  case unanswered =>
    intro answered
    obtain ⟨reply, member, rfl⟩ := List.mem_map.mp answered
    rcases given_step admits reply member with old | ⟨t, job, resolving, _⟩
    · exact late.unanswered (List.mem_map.mpr ⟨reply, old, rfl⟩)
    · cases still resolving

theorem late_of_queued (sound : Sound answers s) (returned : ∀ thread ∈ s.threads, thread = .returned) (job : Job)
    (queued : job ∈ s.queue) : Late job.request s := by
  constructor
  case returned => exact returned
  case unanswered =>
    intro answered
    have once := sound.once job.request
    have here := List.count_pos_iff.mpr (List.mem_map.mpr ⟨job, queued, rfl⟩ : job.request ∈ s.queue.map Job.request)
    have there := List.count_pos_iff.mpr answered
    rw [given, List.map_append, List.count_append] at there
    rw [places_eq] at once
    omega

theorem late_run {request : Nat} (more : List (SystemResolver.Event Failure)) (late : Late request s)
    (admitted : (machine answers).Admitted more s) :
    ∃ s', (machine answers).run more s = .ok s' ∧ request ∉ s'.called.map Prod.fst := by
  have preserved : ∀ e s, Late request s → (machine answers).admits e s →
      ∃ s', (machine answers).step e s = .ok s' ∧ Late request s' := by
    intro e s late admits
    exact ⟨step e s, rfl, late.step admits⟩
  obtain ⟨s', ran, late'⟩ := Machine.run_invariant preserved more s late admitted
  refine ⟨s', ran, fun called => late'.unanswered ?_⟩
  rw [given, List.map_append]
  exact List.mem_append_right _ called

/-! ## Progress -/

/-- What becomes of the requests from a state on. -/
structure GetsDone (answers : Bytes → Outcome Failure → Prop) (s : SystemResolver Failure) : Prop where
  bounded : ∀ more s', (∀ e ∈ more, e.internal = true) → (machine answers).Admitted more s →
    (machine answers).run more s = .ok s' → more.length + rank s' ≤ rank s
  returns : Quiet answers s → ¬joining s
  answered : Quiet answers s → s.workGuard = true → ∀ request < s.requests.length, s.isCanceled request = false →
    request ∈ s.called.map Prod.fst
  stops : s.workGuard = true → ∀ more, (∀ e ∈ more, e.internal = true) → (machine answers).Admitted (.stop :: more) s →
    ∃ s', (machine answers).run (.stop :: more) s = .ok s' ∧ (Quiet answers s' → s'.caller = .free ∧
      ∀ request < s'.requests.length, s'.isCanceled request = false → request ∈ s'.called.map Prod.fst)
  late : s.workGuard = false → s.caller = .free → ∀ job ∈ s.queue, ∀ more, (machine answers).Admitted more s →
    ∃ s', (machine answers).run more s = .ok s' ∧ job.request ∉ s'.called.map Prod.fst

/-- What nobody has to ask for takes as many steps as there are to do. Where they are done,
joins have returned, and a resolver that was not stopped has answered everything. `Stop`
answers everything too; what is asked after it is never answered. -/
theorem resolver_gets_done (total : ∀ domain, ∃ outcome, answers domain outcome) (threadCount : Nat)
    (some_threads : 0 < threadCount) (inputs : List (SystemResolver.Event Failure))
    (admitted : (machine answers).Admitted inputs (init threadCount)) :
    ∃ s, (machine answers).run inputs (init threadCount) = .ok s ∧ GetsDone answers s := by
  have preserved : ∀ e s, Sound answers s ∧ Guarded threadCount s → (machine answers).admits e s →
      ∃ s', (machine answers).step e s = .ok s' ∧ Sound answers s' ∧ Guarded threadCount s' := by
    intro e s holds admits
    exact ⟨step e s, rfl, holds.1.step admits, holds.2.step admits⟩
  obtain ⟨s, ran, sound, guarded⟩ := Machine.run_invariant preserved inputs (init threadCount)
    ⟨sound_init threadCount, guarded_init threadCount⟩ admitted
  refine ⟨s, ran, ?_⟩
  constructor
  case bounded =>
    intro more s' internal admitted_more ran_more
    apply Machine.run_uses_of_inputs (fun _ => True) (fun e => e.internal = true) rank ?_ more s s' trivial admitted_more
      internal ran_more
    rintro e s _ _ admits internal ⟨⟩
    exact ⟨trivial, rank_falls admits internal⟩
  case returns =>
    intro quiet
    exact quiet_not_joining total quiet guarded
  case answered =>
    intro quiet guard
    obtain ⟨free, none_returned⟩ := guarded.guarded guard
    apply quiet_answered total quiet sound free
    obtain ⟨thread, member⟩ := List.exists_mem_of_length_pos (by rw [guarded.count]; exact some_threads)
    obtain ⟨t, found⟩ := List.mem_iff_getElem?.mp member
    rcases quiet_thread total quiet found with rfl | ⟨_, empty⟩
    · exact absurd member none_returned
    · exact empty
  case stops =>
    intro guard more internal admitted_more
    exact stop_answers total sound guarded some_threads guard more internal admitted_more
  case late =>
    intro released free job queued more admitted_more
    have not_joining : ¬joining s := by
      rw [joining, free]
      rintro (⟨⟨⟩⟩ | ⟨⟨⟩⟩)
    exact late_run more (late_of_queued sound (guarded.joined released not_joining) job queued) admitted_more

/-- One thread, which is looking up a name when the resolver is stopped. -/
theorem resolver_gets_done_one : ∃ s, (machine localOnly).run [.resolve [108], .take 0, .look 0, .stop] (init 1) = .ok s ∧
    GetsDone localOnly s := by
  apply resolver_gets_done
  case total => exact fun domain => ⟨_, rfl⟩
  case some_threads => decide
  case admitted =>
    apply admitted_cons
    · exact rfl
    apply admitted_cons
    · exact ⟨rfl, List.cons_ne_nil _ _⟩
    apply admitted_cons
    · exact ⟨_, rfl⟩
    apply admitted_cons
    · exact rfl
    trivial

end LibNekit.Guarantees.ResolverProgress
