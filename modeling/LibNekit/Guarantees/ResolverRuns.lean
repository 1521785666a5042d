import LibNekit.Guarantees.ResolverThreads
import Mathlib.Data.List.Nodup

/-!
# Every request is answered once

The handler of a request is called once at most, with an answer for the request's own
domain, and not after its `Cancelable` was cancelled or the resolver's destructor has
returned. While a resolver with threads is not stopped, the requests that nobody cancels
are all answered after a bounded number of steps; `Stop` returns, and what was asked
before it is still answered, but nothing that is asked later.
-/
namespace LibNekit.Guarantees.ResolverRuns

open LibNekit.Source LibNekit.Library LibNekit.Source.SystemResolver LibNekit.Guarantees.ResolverThreads
open Resolution (Outcome)

variable {Failure : Type} {answers : Bytes → Outcome Failure → Prop} {s s' : SystemResolver Failure}
  {e : SystemResolver.Event Failure}

/-! ## Closures and their answers -/

/-- The closure's request was made for the closure's domain. -/
def Asked (s : SystemResolver Failure) (request : Nat) (domain : Bytes) : Prop :=
  ∃ found, s.requests[request]? = some found ∧ found.domain = domain

theorem Asked.step {request : Nat} {domain : Bytes} (asked : Asked s request domain) (admits : Admits answers e s) :
    Asked (step e s) request domain := by
  obtain ⟨found, at_request, named⟩ := asked
  obtain ⟨later, there, same, -⟩ := request_step admits at_request
  exact ⟨later, there, same.trans named⟩

theorem mem_running_set {threads : List Thread} {t : Nat} {after : Thread} {job : Job}
    (member : job ∈ (threads.set t after).flatMap running) : job ∈ running after ∨ job ∈ threads.flatMap running := by
  obtain ⟨thread, there, runs⟩ := List.mem_flatMap.mp member
  rcases List.mem_or_eq_of_mem_set there with old | rfl
  · exact Or.inr (List.mem_flatMap.mpr ⟨thread, old, runs⟩)
  · exact Or.inl runs

theorem mem_running {t : Nat} {thread : Thread} {job : Job} (found : s.threads[t]? = some thread)
    (runs : job ∈ running thread) : job ∈ jobs s :=
  List.mem_append_right _ (List.mem_flatMap.mpr ⟨thread, List.mem_of_getElem? found, runs⟩)

/-- Closures come from `Resolve`. -/
theorem jobs_step (admits : Admits answers e s) (job : Job) (member : job ∈ jobs (step e s)) :
    job ∈ jobs s ∨ Asked (step e s) job.request job.domain := by
  have turned : ∀ {t : Nat} {after : Thread}, job ∈ s.queue ++ (s.threads.set t after).flatMap running →
      (job ∈ running after → job ∈ jobs s) → job ∈ jobs s := by
    intro t after there here
    rcases List.mem_append.mp there with queued | runs
    · exact List.mem_append_left _ queued
    · exact (mem_running_set runs).elim here (List.mem_append_right _)
  cases e with
  | resolve domain =>
    rcases List.mem_append.mp member with queued | runs
    · rcases List.mem_append.mp queued with old | new
      · exact Or.inl (List.mem_append_left _ old)
      · rw [List.mem_singleton.mp new]
        exact Or.inr ⟨{ domain }, List.getElem?_concat_length, rfl⟩
    · exact Or.inl (List.mem_append_right _ runs)
  | cancel request => exact Or.inl member
  | stop => exact Or.inl member
  | destroy => exact Or.inl member
  | joined =>
    change job ∈ jobs s.joined at member
    rcases joined_cases admits with ⟨_, done⟩ | ⟨_, done⟩
    · rw [done] at member
      exact Or.inl (List.mem_append_right _ member)
    · rw [done] at member
      exact Or.inl member
  | runPosted =>
    change job ∈ jobs s.runPosted at member
    obtain ⟨first, posted, some_posted⟩ := List.exists_cons_of_ne_nil admits.1
    rw [runPosted, some_posted] at member
    dsimp only at member
    split at member <;> exact Or.inl member
  | take t =>
    obtain ⟨first, queue, queued⟩ := List.exists_cons_of_ne_nil admits.2
    have firstly : first ∈ s.queue := by
      rw [queued]
      exact List.mem_cons_self
    change job ∈ jobs (s.take t) at member
    rw [take, queued] at member
    apply Or.inl
    have there : job ∈ s.queue ++ (s.threads.set t (.entered first)).flatMap running := by
      rcases List.mem_append.mp member with later | runs
      · apply List.mem_append_left
        rw [queued]
        exact List.mem_cons_of_mem _ later
      · exact List.mem_append_right _ runs
    apply turned there
    · intro here
      rw [List.mem_singleton.mp here]
      exact List.mem_append_left _ firstly
  | look t =>
    obtain ⟨first, entered⟩ := admits
    change job ∈ jobs (s.look t) at member
    rw [look, entered] at member
    apply Or.inl
    apply turned member
    intro here
    apply mem_running entered
    split at here
    · exact absurd here List.not_mem_nil
    · exact here
  | answer t outcome =>
    obtain ⟨first, resolving, _⟩ := admits
    change job ∈ jobs (s.answer t outcome) at member
    rw [answer, resolving] at member
    exact Or.inl (turned member fun here => absurd here List.not_mem_nil)
  | leave t => exact Or.inl (turned member fun here => absurd here List.not_mem_nil)

/-- Answers, posted or given. -/
def given (s : SystemResolver Failure) : List (Nat × Outcome Failure) := s.posted ++ s.called

/-- Answers come from lookups. -/
theorem given_step (admits : Admits answers e s) (reply : Nat × Outcome Failure) (member : reply ∈ given (step e s)) :
    reply ∈ given s ∨ ∃ (t : Nat) (job : Job), s.threads[t]? = some (.resolving job) ∧ job.request = reply.1 ∧
      answers job.domain reply.2 := by
  cases e with
  | resolve domain => exact Or.inl member
  | cancel request => exact Or.inl member
  | stop => exact Or.inl member
  | destroy => exact Or.inl member
  | leave t => exact Or.inl member
  | joined =>
    change reply ∈ given s.joined at member
    rcases joined_cases admits with ⟨_, done⟩ | ⟨_, done⟩ <;> rw [done] at member <;> exact Or.inl member
  | runPosted =>
    change reply ∈ given s.runPosted at member
    obtain ⟨first, posted, some_posted⟩ := List.exists_cons_of_ne_nil admits.1
    rw [runPosted, some_posted] at member
    dsimp only at member
    rw [given, some_posted]
    apply Or.inl
    split at member
    · exact List.mem_cons_of_mem _ member
    · rcases List.mem_append.mp member with later | calls
      · exact List.mem_cons_of_mem _ (List.mem_append_left _ later)
      · rcases List.mem_append.mp calls with old | new
        · exact List.mem_cons_of_mem _ (List.mem_append_right _ old)
        · rw [List.mem_singleton.mp new]
          exact List.mem_cons_self
  | take t =>
    change reply ∈ given (s.take t) at member
    obtain ⟨first, queue, queued⟩ := List.exists_cons_of_ne_nil admits.2
    rw [take, queued] at member
    exact Or.inl member
  | look t =>
    change reply ∈ given (s.look t) at member
    obtain ⟨first, entered⟩ := admits
    rw [look, entered] at member
    exact Or.inl member
  | answer t outcome =>
    change reply ∈ given (s.answer t outcome) at member
    obtain ⟨first, resolving, allowed⟩ := admits
    rw [answer, resolving] at member
    rcases List.mem_append.mp member with posts | calls
    · rcases List.mem_append.mp posts with old | new
      · exact Or.inl (List.mem_append_left _ old)
      · rw [List.mem_singleton.mp new]
        exact Or.inr ⟨t, first, resolving, rfl, allowed⟩
    · exact Or.inl (List.mem_append_right _ calls)

/-- A handler is called where the caller's runloop finds its request valid. -/
theorem called_step (admits : Admits answers e s) : ∃ calls, (step e s).called = s.called ++ calls ∧
    ∀ call ∈ calls, s.dropped call.1 = false := by
  have none_new : (step e s).called = s.called → ∃ calls, (step e s).called = s.called ++ calls ∧
      ∀ call ∈ calls, s.dropped call.1 = false := by
    intro same
    exact ⟨[], by rw [same, List.append_nil], fun _ member => absurd member List.not_mem_nil⟩
  cases e with
  | resolve domain => exact none_new rfl
  | cancel request => exact none_new rfl
  | stop => exact none_new rfl
  | destroy => exact none_new rfl
  | leave t => exact none_new rfl
  | joined =>
    apply none_new
    change s.joined.called = _
    rcases joined_cases admits with ⟨_, done⟩ | ⟨_, done⟩ <;> rw [done]
  | take t =>
    apply none_new
    change (s.take t).called = _
    unfold take
    split <;> rfl
  | look t =>
    apply none_new
    change (s.look t).called = _
    unfold look
    split <;> rfl
  | answer t outcome =>
    apply none_new
    change (s.answer t outcome).called = _
    unfold answer
    split <;> rfl
  | runPosted =>
    obtain ⟨first, posted, some_posted⟩ := List.exists_cons_of_ne_nil admits.1
    change ∃ calls, s.runPosted.called = _ ∧ _
    rw [runPosted, some_posted]
    dsimp only
    cases valid : s.dropped first.1 with
    | true => exact ⟨[], (List.append_nil _).symm, fun _ member => absurd member List.not_mem_nil⟩
    | false =>
      refine ⟨[first], rfl, ?_⟩
      intro call member
      rw [List.mem_singleton.mp member]
      exact valid

/-! ## What holds in every state -/

structure Sound (answers : Bytes → Outcome Failure → Prop) (s : SystemResolver Failure) : Prop where
  once : ∀ request, places s request ≤ 1
  unknown : ∀ request, s.requests.length ≤ request → places s request = 0
  kept : s.lifetime = false → ∀ request < s.requests.length, s.isCanceled request = false → places s request = 1
  asked : ∀ job ∈ jobs s, Asked s job.request job.domain
  truthful : ∀ reply ∈ given s, ∃ domain, Asked s reply.1 domain ∧ answers domain reply.2
  gone : s.lifetime = true ↔ s.caller = .gone

theorem sound_init (threadCount : Nat) : Sound answers (init threadCount : SystemResolver Failure) := by
  have idle : (List.replicate threadCount Thread.waiting).flatMap running = [] := by
    induction threadCount with
    | zero => rfl
    | succ n ih => rwa [List.replicate_succ, List.flatMap_cons]
  have nothing : jobs (init threadCount : SystemResolver Failure) = [] := idle
  have nowhere : ∀ request, places (init threadCount : SystemResolver Failure) request = 0 := by
    intro request
    rw [places, nothing]
    rfl
  constructor
  case once =>
    intro request
    rw [nowhere]
    exact Nat.zero_le _
  case unknown => exact fun request _ => nowhere request
  case kept => exact fun _ request known => absurd known (Nat.not_lt_zero request)
  case asked =>
    rw [nothing]
    exact fun job member => absurd member List.not_mem_nil
  case truthful => exact fun reply member => absurd member List.not_mem_nil
  case gone =>
    constructor
    · rintro ⟨⟩
    · rintro ⟨⟩

theorem Sound.step (sound : Sound answers s) (admits : Admits answers e s) : Sound answers (step e s) := by
  have lifetime := lifetime_step admits sound.gone
  constructor
  case gone => exact lifetime.1
  case asked =>
    intro job member
    rcases jobs_step admits job member with old | new
    · exact (sound.asked job old).step admits
    · exact new
  case truthful =>
    intro reply member
    rcases given_step admits reply member with old | ⟨t, job, resolving, same, allowed⟩
    · obtain ⟨domain, asked, allowed⟩ := sound.truthful reply old
      exact ⟨domain, asked.step admits, allowed⟩
    · have asked := sound.asked job (mem_running resolving List.mem_cons_self)
      rw [same] at asked
      exact ⟨job.domain, asked.step admits, allowed⟩
  case once =>
    intro request
    have at_most := (places_step admits request).1
    have before := sound.once request
    rcases length_step admits request with ⟨newly, _⟩ | ⟨newly, _⟩
    · omega
    · by_cases new : s.requests.length = request
      · have nowhere := sound.unknown request (Nat.le_of_eq new)
        rw [newly, new, List.count_singleton_self] at at_most
        omega
      · rw [newly, List.count_singleton, beq_eq_false_iff_ne.mpr new] at at_most
        exact at_most.trans before
  case unknown =>
    intro request unknown
    have at_most := (places_step admits request).1
    rcases length_step admits request with ⟨newly, length⟩ | ⟨newly, length⟩
    · have nowhere := sound.unknown request (by omega)
      omega
    · have nowhere := sound.unknown request (by omega)
      have other : s.requests.length ≠ request := by omega
      rw [newly, List.count_singleton, beq_eq_false_iff_ne.mpr other, nowhere] at at_most
      exact Nat.le_zero.mp at_most
  case kept =>
    intro alive request known valid
    have was_alive : s.lifetime = false := by
      cases before : s.lifetime with
      | false => rfl
      | true => exact absurd (lifetime.2.1 before) (by rw [alive]; exact Bool.false_ne_true)
    have was_valid : s.isCanceled request = false := by
      cases before : s.isCanceled request with
      | false => rfl
      | true => exact absurd (isCanceled_step admits before) (by rw [valid]; exact Bool.false_ne_true)
    have kept : ¬Drops e s request := by
      rintro (dropped | destroyed)
      · rw [SystemResolver.dropped, was_valid, was_alive] at dropped
        exact Bool.false_ne_true dropped
      · exact absurd (lifetime.2.2 destroyed) (by rw [alive]; exact Bool.false_ne_true)
    rw [(places_step admits request).2 kept]
    rcases length_step admits request with ⟨newly, length⟩ | ⟨newly, length⟩
    · rw [newly, sound.kept was_alive request (by omega) was_valid]
    · by_cases new : s.requests.length = request
      · rw [newly, new, List.count_singleton_self, sound.unknown request (Nat.le_of_eq new)]
      · rw [newly, List.count_singleton, beq_eq_false_iff_ne.mpr new,
          sound.kept was_alive request (by omega) was_valid]
        rfl

/-! ## Safety -/

theorem sound_runs {start : SystemResolver Failure} (sound : Sound answers start)
    (inputs : List (SystemResolver.Event Failure)) (admitted : (machine answers).Admitted inputs start) :
    ∃ s, (machine answers).run inputs start = .ok s ∧ Sound answers s :=
  Machine.run_invariant (fun _ _ sound admits => ⟨_, rfl, sound.step admits⟩) inputs start sound admitted

/-- What a run adds to the calls. -/
theorem run_calls (inputs : List (SystemResolver.Event Failure)) (s : SystemResolver Failure) (sound : Sound answers s)
    (admitted : (machine answers).Admitted inputs s) : ∃ s' calls, (machine answers).run inputs s = .ok s' ∧
      s'.called = s.called ++ calls ∧ ∀ call ∈ calls, s.dropped call.1 = false := by
  induction inputs generalizing s with
  | nil => exact ⟨s, [], rfl, (List.append_nil _).symm, fun _ member => absurd member List.not_mem_nil⟩
  | cons e rest ih =>
    have admits : Admits answers e s := admitted.1
    obtain ⟨s', later, ran, grown, valid⟩ := ih (SystemResolver.step e s) (sound.step admits) (admitted.2 _ rfl)
    obtain ⟨first, extended, firstly⟩ := called_step admits
    refine ⟨s', first ++ later, ran, ?_, ?_⟩
    · rw [grown, extended, List.append_assoc]
    · intro call member
      rcases List.mem_append.mp member with now | afterwards
      · exact firstly call now
      -- a flag that is set later than here is not set here
      · have not_later := valid call afterwards
        have lifetime := (lifetime_step admits sound.gone).2.1
        have canceled : s.isCanceled call.1 = true → (SystemResolver.step e s).isCanceled call.1 = true :=
          isCanceled_step admits
        unfold dropped at not_later ⊢
        rw [Bool.or_eq_false_iff] at not_later ⊢
        constructor
        · exact Bool.eq_false_iff.mpr fun before => Bool.eq_false_iff.mp not_later.1 (canceled before)
        · exact Bool.eq_false_iff.mpr fun before => Bool.eq_false_iff.mp not_later.2 (lifetime before)

theorem called_nodup (sound : Sound answers s) : (s.called.map Prod.fst).Nodup := by
  apply List.nodup_iff_count_le_one.mpr
  intro request
  have once := sound.once request
  unfold places at once
  omega

/-- Handlers are called once at most, with an answer for what was asked, while nobody has
cancelled the request and the resolver is there. -/
theorem handlers_called (threadCount : Nat) (inputs more : List (SystemResolver.Event Failure))
    (admitted : (machine answers).Admitted (inputs ++ more) (init threadCount)) :
    ∃ s s' calls, (machine answers).run inputs (init threadCount) = .ok s ∧ (machine answers).run more s = .ok s' ∧
      (s'.called.map Prod.fst).Nodup ∧
      (∀ call ∈ s'.called, ∃ asked, s'.requests[call.1]? = some asked ∧ answers asked.domain call.2) ∧
      s'.called = s.called ++ calls ∧ ∀ call ∈ calls, s.isCanceled call.1 = false ∧ s.caller ≠ .gone := by
  obtain ⟨s, ran, sound⟩ := sound_runs (sound_init threadCount) inputs
    (Machine.admitted_of_append admitted)
  have admitted_more := (Machine.admitted_append (Machine.admitted_of_append admitted) ran).mp admitted
  obtain ⟨s', calls, ran_more, grown, valid⟩ := run_calls more s sound admitted_more
  obtain ⟨last, ran_again, sound'⟩ := sound_runs sound more admitted_more
  obtain rfl : s' = last := Except.ok.inj (ran_more.symm.trans ran_again)
  refine ⟨s, s', calls, ran, ran_more, called_nodup sound', ?_, grown, ?_⟩
  · intro call member
    obtain ⟨domain, ⟨asked, at_request, named⟩, allowed⟩ := sound'.truthful call (List.mem_append_right _ member)
    rw [← named] at allowed
    exact ⟨asked, at_request, allowed⟩
  · intro call member
    have not_dropped := valid call member
    unfold dropped at not_dropped
    rw [Bool.or_eq_false_iff] at not_dropped
    constructor
    · exact not_dropped.1
    · intro gone
      exact Bool.eq_false_iff.mp not_dropped.2 (sound.gone.mpr gone)

/-- The steps of the resolver do not fail. -/
theorem admitted_cons (admits : Admits answers e s) {rest : List (SystemResolver.Event Failure)}
    (admitted : (machine answers).Admitted rest (step e s)) : (machine answers).Admitted (e :: rest) s := by
  constructor
  · exact admits
  · rintro _ ⟨⟩
    exact admitted

/-- Names that begin with `l` resolve to one address, others do not. -/
def localOnly (domain : Bytes) (outcome : Outcome Unit) : Prop :=
  outcome = if domain.head? = some 108 then .addresses [.v4 [127, 0, 0, 1]] else .failed ()

/-- Two threads; the second request is looked up first, and the first is cancelled while its
answer is on its way. -/
theorem handlers_called_two : ∃ s s' calls,
    (machine localOnly).run [.resolve [97], .resolve [108], .take 0, .take 1, .look 1, .look 0,
      .answer 1 (.addresses [.v4 [127, 0, 0, 1]])] (init 2) = .ok s ∧
      (machine localOnly).run [.answer 0 (.failed ()), .runPosted, .cancel 0, .runPosted] s = .ok s' ∧
      (s'.called.map Prod.fst).Nodup ∧
      (∀ call ∈ s'.called, ∃ asked, s'.requests[call.1]? = some asked ∧ localOnly asked.domain call.2) ∧
      s'.called = s.called ++ calls ∧ ∀ call ∈ calls, s.isCanceled call.1 = false ∧ s.caller ≠ .gone := by
  apply handlers_called
  simp only [List.cons_append, List.nil_append]
  apply admitted_cons
  · exact rfl
  apply admitted_cons
  · exact rfl
  apply admitted_cons
  · exact ⟨rfl, List.cons_ne_nil _ _⟩
  apply admitted_cons
  · exact ⟨rfl, List.cons_ne_nil _ _⟩
  apply admitted_cons
  · exact ⟨_, rfl⟩
  apply admitted_cons
  · exact ⟨_, rfl⟩
  apply admitted_cons
  · exact ⟨_, rfl, rfl⟩
  apply admitted_cons
  · exact ⟨_, rfl, rfl⟩
  apply admitted_cons
  · exact ⟨List.cons_ne_nil _ _, Or.inl rfl⟩
  apply admitted_cons
  · exact ⟨by decide, Or.inl rfl⟩
  apply admitted_cons
  · exact ⟨List.cons_ne_nil _ _, Or.inl rfl⟩
  trivial

end LibNekit.Guarantees.ResolverRuns
