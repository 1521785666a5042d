import LibNekit.Source.Utils.Resolution

/-!
# The system resolver

`SystemResolver` of system_resolver.cc: `Resolve` posts a closure on a runloop of the
resolver's own, which a group of threads runs; the closure looks the domain up and posts
the handler back on the caller's runloop. `Stop` waits for the threads, and so does the
destructor.

The threads take their steps in any order, each look at a flag is one step, and what
the operating system answers is whatever `answers` allows. Everything else happens on the
caller's runloop, which is blocked while it joins the threads.
-/
namespace LibNekit.Source

open LibNekit.Library
open Resolution (Outcome)

namespace SystemResolver

/-- What the caller asked for, and the flag of its `Cancelable`. -/
structure Request where
  domain : Bytes
  canceled : Bool := false
  deriving DecidableEq, Repr

/-- The closure of `Resolve` on the resolver's runloop. -/
structure Job where
  request : Nat
  domain : Bytes
  deriving DecidableEq, Repr

/-- Where a thread of the group is in `io_context::run`. -/
inductive Thread where
  | waiting
  | entered (job : Job)
  | resolving (job : Job)
  | returned
  deriving DecidableEq, Repr

/-- What the caller's runloop is doing with the resolver. -/
inductive Caller where
  | free | stopping | destroying | gone
  deriving DecidableEq, Repr

inductive Event (Failure : Type) where
  | resolve (domain : Bytes)
  | cancel (request : Nat)
  | stop
  | destroy
  /-- `join_all` returns. -/
  | joined
  /-- The caller's runloop runs the first closure that was posted. -/
  | runPosted
  | take (thread : Nat)
  | look (thread : Nat)
  | answer (thread : Nat) (outcome : Outcome Failure)
  | leave (thread : Nat)
  deriving DecidableEq, Repr

/-- The steps that nobody has to ask for. -/
def Event.internal {Failure : Type} : Event Failure → Bool
  | .resolve _ | .cancel _ | .stop | .destroy => false
  | .joined | .runPosted | .take _ | .look _ | .answer _ _ | .leave _ => true

end SystemResolver

open SystemResolver

/-- Handlers are numbered as their requests; `called` lists the calls, oldest first. -/
structure SystemResolver (Failure : Type) where
  threads : List Thread
  requests : List Request := []
  lifetime : Bool := false
  workGuard : Bool := true
  queue : List Job := []
  posted : List (Nat × Outcome Failure) := []
  called : List (Nat × Outcome Failure) := []
  caller : Caller := .free
  deriving DecidableEq, Repr

namespace SystemResolver

variable {Failure : Type}

/-- The constructor. -/
def init (threadCount : Nat) : SystemResolver Failure := { threads := List.replicate threadCount .waiting }

def isCanceled (s : SystemResolver Failure) (request : Nat) : Bool :=
  (s.requests[request]?.map Request.canceled).getD false

/-- `cancelable.canceled() || lifetime.canceled()` -/
def dropped (s : SystemResolver Failure) (request : Nat) : Bool := s.isCanceled request || s.lifetime

/-- `Resolve` -/
def resolve (domain : Bytes) (s : SystemResolver Failure) : SystemResolver Failure :=
  { s with
    requests := s.requests ++ [{ domain }]
    queue := s.queue ++ [{ request := s.requests.length, domain }] }

def cancel (request : Nat) (s : SystemResolver Failure) : SystemResolver Failure :=
  { s with requests := s.requests.modify request fun asked => { asked with canceled := true } }

/-- `Stop`, up to `join_all`. -/
def stop (caller : Caller) (s : SystemResolver Failure) : SystemResolver Failure :=
  { s with workGuard := false, caller }

/-- What follows `join_all`. The runloop of the resolver goes with it, and so does what
nobody has taken off it. -/
def joined (s : SystemResolver Failure) : SystemResolver Failure :=
  match s.caller with
  | .destroying => { s with lifetime := true, queue := [], caller := .gone }
  | _ => { s with caller := .free }

/-- The closure that a lookup posts. -/
def runPosted (s : SystemResolver Failure) : SystemResolver Failure :=
  match s.posted with
  | [] => s
  | (request, outcome) :: posted =>
    if s.dropped request then { s with posted }
    else { s with posted, called := s.called ++ [(request, outcome)] }

def take (thread : Nat) (s : SystemResolver Failure) : SystemResolver Failure :=
  match s.queue with
  | [] => s
  | job :: queue => { s with queue, threads := s.threads.set thread (.entered job) }

/-- The first lines of the closure. -/
def look (thread : Nat) (s : SystemResolver Failure) : SystemResolver Failure :=
  match s.threads[thread]? with
  | some (.entered job) =>
    { s with threads := s.threads.set thread (if s.dropped job.request then .waiting else .resolving job) }
  | _ => s

/-- The rest of the closure, once `resolver.resolve` has returned. -/
def answer (thread : Nat) (outcome : Outcome Failure) (s : SystemResolver Failure) : SystemResolver Failure :=
  match s.threads[thread]? with
  | some (.resolving job) =>
    { s with threads := s.threads.set thread .waiting, posted := s.posted ++ [(job.request, outcome)] }
  | _ => s

def step : Event Failure → SystemResolver Failure → SystemResolver Failure
  | .resolve domain, s => s.resolve domain
  | .cancel request, s => s.cancel request
  | .stop, s => s.stop .stopping
  | .destroy, s => s.stop .destroying
  | .joined, s => s.joined
  | .runPosted, s => s.runPosted
  | .take thread, s => s.take thread
  | .look thread, s => s.look thread
  | .answer thread outcome, s => s.answer thread outcome
  | .leave thread, s => { s with threads := s.threads.set thread .returned }

def Thread.idle : Thread → Bool
  | .waiting | .returned => true
  | .entered _ | .resolving _ => false

/-- `io_context::run` returns once there is no guard, nothing to run and nothing running. -/
def Admits (answers : Bytes → Outcome Failure → Prop) (e : Event Failure) (s : SystemResolver Failure) : Prop :=
  match e with
  | .resolve _ | .stop | .destroy => s.caller = .free
  | .cancel request => request < s.requests.length ∧ (s.caller = .free ∨ s.caller = .gone)
  | .joined => (s.caller = .stopping ∨ s.caller = .destroying) ∧ ∀ thread ∈ s.threads, thread = .returned
  | .runPosted => s.posted ≠ [] ∧ (s.caller = .free ∨ s.caller = .gone)
  | .take thread => s.threads[thread]? = some .waiting ∧ s.queue ≠ []
  | .look thread => ∃ job, s.threads[thread]? = some (.entered job)
  | .answer thread outcome => ∃ job, s.threads[thread]? = some (.resolving job) ∧ answers job.domain outcome
  | .leave thread => s.threads[thread]? = some .waiting ∧ s.workGuard = false ∧ s.queue = [] ∧
      ∀ other ∈ s.threads, other.idle = true

def machine (answers : Bytes → Outcome Failure → Prop) : Machine (SystemResolver Failure) (Event Failure) Fault where
  admits := Admits answers
  step := fun e s => .ok (step e s)

end SystemResolver

end LibNekit.Source
