import LibNekit.Source.Transport.TcpConnector

/-!
# A connector tries its addresses in order, once each

The attempts and the answer are those of trying a list from the front until one succeeds.
An endpoint that somebody else is resolving is the one that a connector cannot handle.
-/
namespace LibNekit.Guarantees.AddressOrder

open LibNekit.Source LibNekit.Library TcpConnector

variable {Failure : Type}

/-! ## What is promised -/

/-- Try the addresses in order with the results known so far: the addresses tried, and the
answer, once there is one. `last` is the last failure. -/
def tryEach (last : Option SocketError) : List IpAddress → List (Option SocketError) →
    List IpAddress × Option (Answer Failure)
  | [], _ => ([], some (.boostError last))
  | address :: _, [] => ([address], none)
  | address :: _, none :: _ => ([address], some (.socket address))
  | address :: rest, some error :: results =>
    (address :: (tryEach (some error) rest results : List IpAddress × Option (Answer Failure)).1,
      (tryEach (some error) rest results).2)

/-- The results of the attempts. -/
def results (events : List (Event Failure)) : List (Option SocketError) :=
  events.filterMap fun e =>
    match e with
    | .connected error => some error
    | _ => none

/-- What the resolver answers. -/
def resolution (events : List (Event Failure)) : Option (Resolution.Outcome Failure) :=
  events.findSome? fun e =>
    match e with
    | .resolved outcome => some outcome
    | _ => none

/-- The addresses to try, or the failure to find any, once they are known. -/
def sought (c : TcpConnector Failure) (events : List (Event Failure)) : Option (Resolution.Outcome Failure) :=
  match c.endpoint with
  | none => some (.addresses (c.addresses.getD [c.address]))
  | some endpoint =>
    match endpoint.type, endpoint.resolvedAddresses with
    | .address, _ => endpoint.address.map fun address => .addresses [address]
    | .domain, some addresses => some (.addresses addresses)
    | .domain, none => if endpoint.resolved then endpoint.error.map .failed else resolution events

/-- What is to be seen of a connector whose `Connect` was called. -/
structure InOrder (c : TcpConnector Failure) (events : List (Event Failure)) (s : TcpConnector Failure) : Prop where
  unknown : sought c events = none → s.attempts = [] ∧ s.answers = [] ∧ s.stage = .resolving
  failed : ∀ error, sought c events = some (.failed error) → s.attempts = [] ∧
    (s.answers = [] ∧ s.stage = .reporting ∨ s.answers = [.resolveError error] ∧ s.stage = .done)
  known : ∀ addresses, sought c events = some (.addresses addresses) →
    s.attempts = (tryEach none addresses (results events) : List IpAddress × Option (Answer Failure)).1 ∧
    s.answers = (tryEach none addresses (results events)).2.toList ∧
    (s.answers = [] → ∃ address, s.stage = .connecting address)
  few : events.length ≤ s.attempts.length + 2

/-- A run that is not cancelled, and whose attempts are not aborted. -/
def Undisturbed : Event Failure → Prop
  | .cancel | .connected (some .operationAborted) => False
  | _ => True

instance (e : Event Failure) : Decidable (Undisturbed e) := by
  unfold Undisturbed
  split <;> infer_instance

/-- An endpoint as it is between calls. -/
structure Settled (endpoint : ResolvingEndpoint Failure) : Prop where
  address : endpoint.type = .address → endpoint.address.isSome
  resolved : endpoint.resolvedAddresses.isSome → endpoint.resolved = true
  failed : endpoint.resolved = true → endpoint.resolvedAddresses = none → endpoint.error.isSome

/-- The connectors that the constructors make. -/
inductive Fresh : TcpConnector Failure → Prop where
  | addresses {addresses : List IpAddress} {c : TcpConnector Failure} : ofAddresses addresses = .ok c → Fresh c
  | address (address : IpAddress) : Fresh (ofAddress address)
  | endpoint {endpoint : ResolvingEndpoint Failure} : Settled endpoint → Fresh (ofEndpoint endpoint)

/-- The connector needs a resolution that is under way already. -/
def Busy (c : TcpConnector Failure) : Prop :=
  ∃ endpoint, c.endpoint = some endpoint ∧ endpoint.type = .domain ∧ endpoint.resolved = false ∧
    endpoint.resolving = true

/-! ## Trying a list -/

/-- Some addresses have failed, and the others are next. -/
theorem tryEach_append (last : Option SocketError) (tried rest : List IpAddress) (errors : List SocketError)
    (same : tried.length = errors.length) (more : List (Option SocketError)) :
    (tryEach last (tried ++ rest) (errors.map some ++ more) : List IpAddress × Option (Answer Failure)) =
      (tried ++ (tryEach ((errors.getLast?).or last) rest more : List IpAddress × Option (Answer Failure)).1,
        (tryEach ((errors.getLast?).or last) rest more).2) := by
  induction tried generalizing last errors with
  | nil =>
    obtain rfl := List.length_eq_zero_iff.mp same.symm
    rfl
  | cons address tried ih =>
    obtain ⟨error, errors, rfl⟩ := List.exists_cons_of_length_eq_add_one same.symm
    have last' : (errors.getLast?).or (some error) = ((error :: errors).getLast?).or last := by
      cases errors with
      | nil => rfl
      | cons => simp [List.getLast?_cons]
    rw [List.cons_append, List.map_cons, List.cons_append, tryEach, ih (some error) errors (by simpa using same), last']
    rfl

/-! ## The steps -/

/-- Where the connector is when `n` addresses have failed. -/
structure Tries (addresses : List IpAddress) (errors : List SocketError) (s : TcpConnector Failure) : Prop where
  valid : s.canceled = false
  list : s.addresses.getD [s.address] = addresses
  index : s.currentInd = errors.length
  bound : errors.length ≤ addresses.length
  last : s.lastError = errors.getLast?
  attempts : s.attempts = addresses.take errors.length
  answers : s.answers = []

/-- What `DoConnect` leads to. -/
inductive Tried (addresses : List IpAddress) (errors : List SocketError) (s : TcpConnector Failure) : Prop where
  | more {address : IpAddress} : addresses[errors.length]? = some address → s.stage = .connecting address →
      Tries addresses errors { s with attempts := addresses.take errors.length } →
      s.attempts = addresses.take errors.length ++ [address] → Tried addresses errors s
  | exhausted : errors.length = addresses.length → s.stage = .done → s.attempts = addresses →
      s.answers = [.boostError errors.getLast?] → Tried addresses errors s

theorem exhausted_iff {addresses : List IpAddress} {errors : List SocketError} {s : TcpConnector Failure}
    (tries : Tries addresses errors s) : s.exhausted = true ↔ errors.length = addresses.length := by
  have list := tries.list
  have bound := tries.bound
  unfold exhausted
  cases known : s.addresses with
  | none =>
    rw [known, Option.getD_none] at list
    subst list
    simp only [List.length_singleton] at bound ⊢
    rw [decide_eq_true_eq, tries.index]
    omega
  | some l =>
    rw [known, Option.getD_some] at list
    subst list
    rw [decide_eq_true_eq, tries.index]
    omega

theorem nextAddress_ok {addresses : List IpAddress} {errors : List SocketError} {s : TcpConnector Failure}
    (tries : Tries addresses errors s) {address : IpAddress} (next : addresses[errors.length]? = some address) :
    s.nextAddress = .ok address := by
  have list := tries.list
  unfold nextAddress
  cases known : s.addresses with
  | none =>
    rw [known, Option.getD_none] at list
    subst list
    have first : errors.length = 0 := by
      have inside := (List.getElem?_eq_some_iff.mp next).1
      simpa using inside
    rw [first] at next
    exact congrArg Except.ok (Option.some.inj next)
  | some l =>
    rw [known, Option.getD_some] at list
    subst list
    dsimp only
    rw [tries.index, next]

theorem doConnect_tries {addresses : List IpAddress} {errors : List SocketError} {s : TcpConnector Failure}
    (tries : Tries addresses errors s) : ∃ s', s.doConnect = .ok s' ∧ Tried addresses errors s' := by
  unfold doConnect
  rw [if_neg (by rw [tries.valid]; decide)]
  by_cases all : s.exhausted = true
  · have length := (exhausted_iff tries).mp all
    refine ⟨_, if_pos all, .exhausted length rfl ?_ ?_⟩
    · show s.attempts = _
      rw [tries.attempts, length, List.take_length]
    · show s.answers ++ [.boostError s.lastError] = _
      rw [tries.answers, tries.last, List.nil_append]
  · have inside : errors.length < addresses.length :=
      Nat.lt_of_le_of_ne tries.bound fun same => all ((exhausted_iff tries).mpr same)
    have next : addresses[errors.length]? = some addresses[errors.length] := List.getElem?_eq_getElem inside
    rw [if_neg all, nextAddress_ok tries next, ok_bind]
    refine ⟨_, rfl, .more next rfl ⟨tries.valid, tries.list, tries.index, tries.bound, tries.last, rfl, tries.answers⟩ ?_⟩
    show s.attempts ++ [_] = _
    rw [tries.attempts]

/-! ## Runs -/

variable {c s s' : TcpConnector Failure} {past : List (Event Failure)}

theorem results_append (past more : List (Event Failure)) : results (past ++ more) = results past ++ results more :=
  List.filterMap_append

/-- What is known stays known. -/
theorem sought_append {outcome : Resolution.Outcome Failure} (known : sought c past = some outcome)
    (more : List (Event Failure)) : sought c (past ++ more) = some outcome := by
  unfold sought at known ⊢
  cases endpoint : c.endpoint with
  | none =>
    rw [endpoint] at known
    exact known
  | some e =>
    rw [endpoint] at known
    dsimp only at known ⊢
    cases type : e.type with
    | address =>
      rw [type] at known
      exact known
    | domain =>
      rw [type] at known
      cases addresses : e.resolvedAddresses with
      | some l =>
        rw [addresses] at known
        exact known
      | none =>
        rw [addresses] at known
        dsimp only at known ⊢
        by_cases resolved : e.resolved = true
        · rw [if_pos resolved] at known ⊢
          exact known
        · rw [if_neg resolved] at known ⊢
          unfold resolution at known ⊢
          rw [List.findSome?_append, known]
          rfl

/-- Nothing has been tried. -/
structure Blank (s : TcpConnector Failure) : Prop where
  valid : s.canceled = false
  idle : s.connecting = false
  index : s.currentInd = 0
  last : s.lastError = none
  attempts : s.attempts = []
  answers : s.answers = []

/-- The connector between the events. -/
inductive Held (c : TcpConnector Failure) (past : List (Event Failure)) (s : TcpConnector Failure) : Prop where
  | created : past = [] → s = c → Held c past s
  | resolving : past = [.connect] → sought c past = none → (∀ outcome, sought c (past ++ [.resolved outcome]) = some outcome) →
      s.stage = .resolving → s.endpoint.isSome → Blank s → Held c past s
  | reporting {endpoint : ResolvingEndpoint Failure} {error : Failure} : past = [.connect] →
      sought c past = some (.failed error) → s.stage = .reporting → s.endpoint = some endpoint →
      endpoint.error = some error → Blank s → Held c past s
  | trying {addresses : List IpAddress} {errors : List SocketError} {address : IpAddress} :
      sought c past = some (.addresses addresses) → results past = errors.map some →
      addresses[errors.length]? = some address → s.stage = .connecting address →
      Tries addresses errors { s with attempts := addresses.take errors.length } →
      s.attempts = addresses.take errors.length ++ [address] → past.length ≤ errors.length + 2 → Held c past s
  | done : past ≠ [] → s.stage = .done → InOrder c past s → Held c past s

theorem inOrder_of_known {addresses : List IpAddress} (known : sought c past = some (.addresses addresses))
    (attempts : s.attempts = (tryEach none addresses (results past) : List IpAddress × Option (Answer Failure)).1)
    (answers : s.answers = (tryEach none addresses (results past)).2.toList)
    (waits : s.answers = [] → ∃ address, s.stage = .connecting address)
    (few : past.length ≤ s.attempts.length + 2) : InOrder c past s := by
  refine ⟨fun unknown => ?_, fun error failed => ?_, fun addresses' known' => ?_, few⟩
  · rw [known] at unknown
    cases unknown
  · rw [known] at failed
    cases failed
  · rw [known] at known'
    cases known'
    exact ⟨attempts, answers, waits⟩

theorem split_at {addresses : List IpAddress} {n : Nat} {address : IpAddress} (next : addresses[n]? = some address) :
    addresses = addresses.take n ++ address :: addresses.drop (n + 1) := by
  obtain ⟨inside, is⟩ := List.getElem?_eq_some_iff.mp next
  rw [← is, ← List.drop_eq_getElem_cons inside, List.take_append_drop]

theorem length_tried {addresses : List IpAddress} {n : Nat} {address : IpAddress} (next : addresses[n]? = some address) :
    (addresses.take n ++ [address]).length = n + 1 := by
  have inside := (List.getElem?_eq_some_iff.mp next).1
  rw [List.length_append, List.length_take, List.length_singleton]
  omega

theorem tryEach_at {addresses : List IpAddress} {errors : List SocketError} {address : IpAddress}
    (next : addresses[errors.length]? = some address) (more : List (Option SocketError)) :
    (tryEach none addresses (errors.map some ++ more) : List IpAddress × Option (Answer Failure)) =
      (addresses.take errors.length ++ (tryEach (errors.getLast?.or none) (address :: addresses.drop (errors.length + 1)) more :
        List IpAddress × Option (Answer Failure)).1,
        (tryEach (errors.getLast?.or none) (address :: addresses.drop (errors.length + 1)) more).2) := by
  have inside := (List.getElem?_eq_some_iff.mp next).1
  have length : (addresses.take errors.length).length = errors.length := by
    rw [List.length_take]
    omega
  conv_lhs => rw [split_at next]
  exact tryEach_append none _ _ errors length more

/-- What is held is what is promised. -/
theorem Held.inOrder (held : Held c past s) (called : past ≠ []) : InOrder c past s := by
  cases held with
  | created none _ => exact absurd none called
  | resolving only unknown _ stage _ blank =>
    refine ⟨fun _ => ⟨blank.attempts, blank.answers, stage⟩, fun error failed => ?_, fun addresses known => ?_, by simp [only]⟩
    · rw [unknown] at failed
      cases failed
    · rw [unknown] at known
      cases known
  | reporting only failed stage _ _ blank =>
    refine ⟨fun unknown => ?_, fun error failed' => ?_, fun addresses known => ?_, by simp [only]⟩
    · rw [failed] at unknown
      cases unknown
    · rw [failed] at failed'
      cases failed'
      exact ⟨blank.attempts, Or.inl ⟨blank.answers, stage⟩⟩
    · rw [failed] at known
      cases known
  | @trying addresses errors address known so_far next stage tries attempts few =>
    have here := @tryEach_at Failure _ _ _ next []
    rw [List.append_nil] at here
    have length := length_tried next
    refine inOrder_of_known known ?_ ?_ (fun _ => ⟨_, stage⟩) (by rw [attempts]; omega)
    · rw [attempts, so_far, here]
      rfl
    · rw [so_far, here]
      exact tries.answers
  | done _ _ inOrder => exact inOrder

/-- What follows when `DoConnect` has been called. -/
theorem held_of_tried {addresses : List IpAddress} {errors : List SocketError} (called : past ≠ [])
    (known : sought c past = some (.addresses addresses)) (so_far : results past = errors.map some)
    (few : past.length ≤ errors.length + 2) (tried : Tried addresses errors s) : Held c past s := by
  cases tried with
  | more next stage tries attempts => exact .trying known so_far next stage tries attempts few
  | exhausted length stage attempts answers =>
    have all := @tryEach_append Failure none addresses [] errors length.symm []
    rw [List.append_nil, List.append_nil] at all
    refine .done called stage (inOrder_of_known known ?_ ?_ (fun none => ?_) (by rw [attempts]; omega))
    · rw [attempts, so_far, all]
      exact (List.append_nil _).symm
    · rw [answers, so_far, all, Option.or_none]
      rfl
    · rw [answers] at none
      cases none

theorem Blank.tries (blank : Blank s) {addresses : List IpAddress} (list : s.addresses.getD [s.address] = addresses) :
    Tries addresses [] s :=
  ⟨blank.valid, list, blank.index, Nat.zero_le _, blank.last, blank.attempts, blank.answers⟩

theorem connect_held (fresh : Fresh c) (free : ¬Busy c) : ∃ s', machine.step .connect c = .ok s' ∧ Held c [.connect] s' := by
  have called : ([.connect] : List (Event Failure)) ≠ [] := List.cons_ne_nil _ _
  cases fresh with
  | @addresses addresses c made =>
    obtain ⟨-, -, made⟩ := bind_eq_ok.mp made
    cases made
    obtain ⟨s', ran, tried⟩ := doConnect_tries
      (Blank.tries (s := ({ addresses := some addresses } : TcpConnector Failure)) ⟨rfl, rfl, rfl, rfl, rfl, rfl⟩ rfl)
    exact ⟨s', ran, held_of_tried called rfl rfl (by simp) tried⟩
  | address address =>
    obtain ⟨s', ran, tried⟩ := doConnect_tries
      (Blank.tries (s := (ofAddress address : TcpConnector Failure)) ⟨rfl, rfl, rfl, rfl, rfl, rfl⟩ rfl)
    exact ⟨s', ran, held_of_tried called rfl rfl (by simp) tried⟩
  | @endpoint e settled =>
    have start : machine.step .connect (ofEndpoint e) = (ofEndpoint e).connect := rfl
    rw [start]
    have idle : (ofEndpoint e).connecting = false := rfl
    unfold connect
    rw [boostAssert_of idle, ok_bind]
    dsimp only [ofEndpoint]
    cases type : e.type with
    | address =>
      obtain ⟨address, known⟩ := Option.isSome_iff_exists.mp (settled.address type)
      have finds : e.theAddress = .ok address := by
        unfold ResolvingEndpoint.theAddress
        rw [type]
        exact congrArg deref known
      rw [if_pos (by simp [ResolvingEndpoint.isAddressAvailable, type])]
      dsimp only
      rw [finds, ok_bind]
      obtain ⟨s', ran, tried⟩ := doConnect_tries
        (Blank.tries (s := { ofEndpoint e with address }) ⟨rfl, rfl, rfl, rfl, rfl, rfl⟩ rfl)
      refine ⟨s', ran, held_of_tried called ?_ rfl (by simp) tried⟩
      simp [sought, ofEndpoint, type, known]
    | domain =>
      cases addresses : e.resolvedAddresses with
      | some l =>
        rw [if_pos (by simp [ResolvingEndpoint.isAddressAvailable, addresses])]
        dsimp only
        obtain ⟨s', ran, tried⟩ := doConnect_tries
          (Blank.tries (s := { ofEndpoint e with addresses := some l }) ⟨rfl, rfl, rfl, rfl, rfl, rfl⟩ rfl)
        refine ⟨s', ran, held_of_tried called ?_ rfl (by simp) tried⟩
        simp [sought, ofEndpoint, type, addresses]
      | none =>
        rw [if_neg (by simp [ResolvingEndpoint.isAddressAvailable, type, addresses])]
        by_cases resolved : e.resolved = true
        · obtain ⟨error, is⟩ := Option.isSome_iff_exists.mp (settled.failed resolved addresses)
          rw [if_pos (by simp [ResolvingEndpoint.isResolvable, type, addresses, resolved])]
          refine ⟨_, rfl, .reporting rfl ?_ rfl rfl is ⟨rfl, rfl, rfl, rfl, rfl, rfl⟩⟩
          simp [sought, type, addresses, resolved, is]
        · rw [Bool.not_eq_true] at resolved
          have idle : e.resolving = false := by
            rw [← Bool.not_eq_true]
            exact fun resolving => free ⟨e, rfl, type, resolved, resolving⟩
          rw [if_neg (by simp [ResolvingEndpoint.isResolvable, type, resolved]), ResolvingEndpoint.resolve,
            boostAssert_of ⟨resolved, idle⟩, ok_bind, ResolvingEndpoint.forceResolve, boostAssert_of idle]
          refine ⟨_, rfl, .resolving rfl ?_ (fun outcome => ?_) rfl rfl ⟨rfl, rfl, rfl, rfl, rfl, rfl⟩⟩
          · simp [sought, type, addresses, resolved, resolution]
          · simp [sought, type, addresses, resolved, resolution]

/-- A connector that is not busy goes on after every event. -/
theorem held_step (fresh : Fresh c) (free : ¬Busy c) (held : Held c past s) {e : Event Failure}
    (admits : machine.admits e s) (undisturbed : Undisturbed e) :
    ∃ s', machine.step e s = .ok s' ∧ Held c (past ++ [e]) s' := by
  have called : past ++ [e] ≠ [] := by simp
  cases held with
  | created none same =>
    subst none same
    have stage : s.stage = .created := by
      cases fresh with
      | addresses made =>
        obtain ⟨-, -, made⟩ := bind_eq_ok.mp made
        cases made
        rfl
      | address | endpoint => rfl
    cases e with
    | connect => exact connect_held fresh free
    | resolved => exact absurd (stage.symm.trans admits) nofun
    | posted => exact absurd (stage.symm.trans admits) nofun
    | connected =>
      obtain ⟨address, is⟩ := admits
      exact absurd (stage.symm.trans is) nofun
    | cancel => exact undisturbed.elim
  | resolving only unknown learns stage waits blank =>
    cases e with
    | connect => exact absurd (stage.symm.trans admits) nofun
    | posted => exact absurd (stage.symm.trans admits) nofun
    | connected =>
      obtain ⟨address, is⟩ := admits
      exact absurd (stage.symm.trans is) nofun
    | cancel => exact undisturbed.elim
    | resolved outcome =>
      obtain ⟨endpoint, is⟩ := Option.isSome_iff_exists.mp waits
      have known := learns outcome
      show ∃ s', s.onResolved outcome = .ok s' ∧ _
      unfold onResolved
      rw [is, deref_some, ok_bind]
      dsimp only
      rw [if_neg (by simp [blank.valid])]
      cases outcome with
      | failed error =>
        refine ⟨_, rfl, .done called rfl ⟨fun unknown => ?_, fun error' failed => ?_, fun addresses known' => ?_, by simp [only]⟩⟩
        · rw [known] at unknown
          cases unknown
        · rw [known] at failed
          cases failed
          refine ⟨blank.attempts, Or.inr ⟨?_, rfl⟩⟩
          show s.answers ++ _ = _
          rw [blank.answers, List.nil_append]
        · rw [known] at known'
          cases known'
      | addresses l =>
        obtain ⟨s', ran, tried⟩ := doConnect_tries
          (Blank.tries (s := { s with endpoint := some (endpoint.settle (.addresses l)), addresses := some l })
            ⟨blank.valid, blank.idle, blank.index, blank.last, blank.attempts, blank.answers⟩ rfl)
        refine ⟨s', ran, held_of_tried called known ?_ (by simp [only]) tried⟩
        rw [only]
        rfl
  | reporting only failed stage is error blank =>
    cases e with
    | connect => exact absurd (stage.symm.trans admits) nofun
    | resolved => exact absurd (stage.symm.trans admits) nofun
    | connected =>
      obtain ⟨address, is⟩ := admits
      exact absurd (stage.symm.trans is) nofun
    | cancel => exact undisturbed.elim
    | posted =>
      have known := sought_append failed [.posted]
      show ∃ s', s.onPosted = .ok s' ∧ _
      unfold onPosted
      rw [if_neg (by simp [blank.valid]), is, deref_some, ok_bind, error, deref_some, ok_bind]
      refine ⟨_, rfl, .done called rfl ⟨fun unknown => ?_, fun error' failed' => ?_, fun addresses known' => ?_, by simp [only]⟩⟩
      · rw [known] at unknown
        cases unknown
      · rw [known] at failed'
        cases failed'
        refine ⟨blank.attempts, Or.inr ⟨?_, rfl⟩⟩
        show s.answers ++ _ = _
        rw [blank.answers, List.nil_append]
      · rw [known] at known'
        cases known'
  | @trying addresses errors address known so_far next stage tries attempts few =>
    have length := length_tried next
    have longer : (past ++ [e]).length = past.length + 1 := List.length_append
    cases e with
    | connect => exact absurd (stage.symm.trans admits) nofun
    | resolved => exact absurd (stage.symm.trans admits) nofun
    | posted => exact absurd (stage.symm.trans admits) nofun
    | cancel => exact undisturbed.elim
    | connected error =>
      have known' := sought_append known [.connected error]
      have step : machine.step (.connected error) s = s.onConnected address error := by
        simp only [machine, TcpConnector.step, stage]
      rw [step]
      unfold onConnected
      rw [if_neg (by rw [show s.canceled = false from tries.valid]; decide)]
      cases error with
      | none =>
        have here := @tryEach_at Failure _ _ _ next [none]
        refine ⟨_, rfl, .done called rfl (inOrder_of_known known' ?_ ?_ ?_ ?_)⟩
        · rw [results_append, so_far]
          show s.attempts = (tryEach none addresses (errors.map some ++ [none])).1
          rw [here, attempts]
          rfl
        · rw [results_append, so_far]
          show s.answers ++ [.socket address] = (tryEach none addresses (errors.map some ++ [none])).2.toList
          rw [here, show s.answers = [] from tries.answers]
          rfl
        · intro none
          exact absurd none (by simp [TcpConnector.tell])
        · show (past ++ [_]).length ≤ s.attempts.length + 2
          rw [attempts]
          omega
      | some error =>
        cases error with
        | operationAborted => exact undisturbed.elim
        | other value =>
          have inside := (List.getElem?_eq_some_iff.mp next).1
          have grown : addresses.take (errors ++ [SocketError.other value]).length = s.attempts := by
            rw [attempts, List.length_append, List.length_singleton, List.take_add_one, next]
            rfl
          obtain ⟨s', ran, tried⟩ := @doConnect_tries _ addresses (errors ++ [SocketError.other value])
            { s with lastError := some (.other value), currentInd := s.currentInd + 1 }
            ⟨tries.valid, tries.list, by simp [show s.currentInd = _ from tries.index], by rw [List.length_append]; exact inside,
              by simp, grown.symm, tries.answers⟩
          refine ⟨s', ran, held_of_tried called known' ?_ (by rw [longer, List.length_append]; exact Nat.add_le_add_right few 1) tried⟩
          rw [results_append, so_far, List.map_append]
          rfl
  | done _ stage _ =>
    cases e with
    | connect => exact absurd (stage.symm.trans admits) nofun
    | resolved => exact absurd (stage.symm.trans admits) nofun
    | posted => exact absurd (stage.symm.trans admits) nofun
    | connected =>
      obtain ⟨address, is⟩ := admits
      exact absurd (stage.symm.trans is) nofun
    | cancel => exact undisturbed.elim

/-- `Connect` and what follows it, nothing of which is cancelled or aborted. -/
def undisturbed : Machine (TcpConnector Failure) (Event Failure) Fault :=
  ⟨fun e c => machine.admits e c ∧ Undisturbed e, machine.step⟩

instance (e : Event Failure) (c : TcpConnector Failure) : Decidable (undisturbed.admits e c) :=
  inferInstanceAs (Decidable (machine.admits e c ∧ Undisturbed e))

theorem busy_connect {endpoint : ResolvingEndpoint Failure} (settled : Settled endpoint) (busy : Busy (ofEndpoint endpoint)) :
    machine.step .connect (ofEndpoint endpoint) = .error .assertion := by
  obtain ⟨e, is, type, resolved, resolving⟩ := busy
  cases is
  have addresses : endpoint.resolvedAddresses = none := by
    rw [← Option.not_isSome_iff_eq_none]
    exact fun some => absurd (settled.resolved some) (by simp [resolved])
  simp [machine, TcpConnector.step, connect, ofEndpoint, boostAssert, ResolvingEndpoint.isAddressAvailable, type, addresses,
    ResolvingEndpoint.isResolvable, resolved, ResolvingEndpoint.resolve, resolving]

/-- A connector tries the addresses that it has or is given in order, once each, and
answers once, with every endpoint and list; one that needs a resolution which somebody else
has begun does not get there. -/
theorem tries_in_order_iff (fresh : Fresh c) :
    (∀ rest, undisturbed.Admitted (.connect :: rest) c →
      ∃ s, undisturbed.run (.connect :: rest) c = .ok s ∧ InOrder c (.connect :: rest) s) ↔ ¬Busy c := by
  constructor
  · intro all busy
    have stage : c.stage = .created ∧ ∀ s, undisturbed.run [.connect] c ≠ .ok s := by
      obtain ⟨e, is, -⟩ := id busy
      cases fresh with
      | addresses made =>
        obtain ⟨-, -, made⟩ := bind_eq_ok.mp made
        cases made
        cases is
      | address => cases is
      | endpoint settled =>
        refine ⟨rfl, fun s ran => ?_⟩
        have fails := busy_connect settled busy
        exact nomatch (congrArg (· >>= _) fails).symm.trans ran
    obtain ⟨s, ran, -⟩ := all [] ⟨⟨stage.1, trivial⟩, fun _ _ => trivial⟩
    exact stage.2 s ran
  · intro free rest admitted
    obtain ⟨s, ran, held⟩ := @Machine.run_history _ _ _ undisturbed (Held c)
      (fun past e s held admits => held_step fresh free held admits.1 admits.2) (.connect :: rest) [] c (.created rfl rfl)
      admitted
    exact ⟨s, ran, held.inOrder (List.cons_ne_nil _ _)⟩

def pair : List IpAddress := [.v4 [10, 0, 0, 1], .v4 [10, 0, 0, 2]]

/-- The first address refuses, the second one accepts. -/
theorem tries_in_order_iff_second :
    ∃ s, undisturbed.run [.connect, .connected (some (.other 111)), .connected none]
        ({ addresses := some pair } : TcpConnector Nat) = .ok s ∧
      InOrder { addresses := some pair } [.connect, .connected (some (.other 111)), .connected none] s := by
  have made : ofAddresses pair = .ok ({ addresses := some pair } : TcpConnector Nat) := by decide
  refine (tries_in_order_iff (.addresses made)).mpr ?_ [.connected (some (.other 111)), .connected none] (by decide)
  rintro ⟨endpoint, is, -⟩
  cases is

/-- A domain that somebody else is resolving. -/
def inUse : ResolvingEndpoint Nat := { type := .domain, domain := [97], address := none, port := 80, resolving := true }

theorem connects_while_resolving :
    Settled inUse ∧ undisturbed.Admitted [.connect] (ofEndpoint inUse) ∧
      undisturbed.run [.connect] (ofEndpoint inUse) = .error .assertion :=
  ⟨⟨nofun, nofun, nofun⟩, by decide, by decide⟩

end LibNekit.Guarantees.AddressOrder
