import LibNekit.Source.Rule.RuleManager

/-!
# RuleManager finds the first match

A search stops at most once to have the endpoint resolved, and goes on where it stopped.
It need not look at the rules before that place again: neither the addresses nor the
cached country make a rule match that did not.
-/
namespace LibNekit.Guarantees.FirstMatch

open LibNekit.Source LibNekit.Library LibNekit.Source.RuleManager

variable {Regex Failure : Type} {env : RuleEnvironment Regex} {s s' : Session Failure}
  {m m' : RuleManager Regex Failure}

/-- What a rule says about a session. -/
def verdict (env : RuleEnvironment Regex) (rule : Rule Regex) (session : Session Failure) : Checked MatchResult :=
  match rule.match env session with
  | .ok (result, _) => .ok result
  | .error fault => .error fault

def matched (env : RuleEnvironment Regex) (session : Session Failure) (rule : Rule Regex) : Bool :=
  match verdict env rule session with
  | .ok .match => true
  | _ => false

/-- The first rule in list order that matches, or that there is none. -/
def firstMatch (env : RuleEnvironment Regex) (rules : List (Rule Regex)) (session : Session Failure) :
    Except RuleManagerErrorCode Nat :=
  match rules.findIdx? (matched env session) with
  | some place => .ok place
  | none => .error .noMatch

/-! ## Endpoints -/

/-- An endpoint that nobody has resolved or is resolving. -/
structure Unresolved (e : ResolvingEndpoint Failure) : Prop where
  held : e.type = .address → ∃ address, e.address = some address
  resolvedAddresses : e.resolvedAddresses = none
  resolved : e.resolved = false
  resolving : e.resolving = false

/-- An address is there whenever one is available. -/
structure Usable (e : ResolvingEndpoint Failure) : Prop where
  held : e.type = .address → ∃ address, e.address = some address
  some_address : e.resolvedAddresses ≠ some []

theorem Unresolved.usable {e : ResolvingEndpoint Failure} (unresolved : Unresolved e) : Usable e :=
  ⟨unresolved.held, by simp [unresolved.resolvedAddresses]⟩

/-- Only the endpoint of a domain can need resolving. -/
theorem domain_of_unavailable {e : ResolvingEndpoint Failure} (unavailable : e.isAddressAvailable = false) :
    e.type = .domain ∧ e.resolvedAddresses = none := by
  rw [ResolvingEndpoint.isAddressAvailable, Bool.or_eq_false_iff] at unavailable
  refine ⟨?_, by simpa using unavailable.2⟩
  cases type : e.type with
  | domain => rfl
  | address => simp [type] at unavailable

theorem unresolved_of_resolvable {e : ResolvingEndpoint Failure} (unavailable : e.isAddressAvailable = false)
    (resolvable : e.isResolvable = true) : e.resolved = false := by
  obtain ⟨domain, addresses⟩ := domain_of_unavailable unavailable
  simpa [ResolvingEndpoint.isResolvable, domain, addresses] using resolvable

theorem Usable.theAddress {e : ResolvingEndpoint Failure} (usable : Usable e)
    (available : e.isAddressAvailable = true) : ∃ address, e.theAddress = .ok address := by
  cases type : e.type with
  | address =>
    obtain ⟨address, held⟩ := usable.held type
    exact ⟨address, by rw [ResolvingEndpoint.theAddress, type, held]; rfl⟩
  | domain =>
    have known : e.resolvedAddresses.isSome = true := by
      simpa [ResolvingEndpoint.isAddressAvailable, type] using available
    obtain ⟨addresses, kept⟩ := Option.isSome_iff_exists.mp known
    cases addresses with
    | nil => exact absurd kept usable.some_address
    | cons front rest => exact ⟨front, by rw [ResolvingEndpoint.theAddress, type, kept]; rfl⟩

/-! ## One rule -/

theorem verdict_domainAffix {reverse : Bool} (trie : DomainTrie reverse) :
    verdict env (.domainAffix reverse trie) s = DomainAffixRule.match trie s := by
  rw [verdict, Rule.match]
  cases DomainAffixRule.match trie s <;> rfl

theorem verdict_subnet (subnets : List Subnet) : verdict env (.subnet subnets) s = SubnetRule.match env subnets s := by
  rw [verdict, Rule.match]
  cases SubnetRule.match env subnets s <;> rfl

theorem lookup_cache (key : String) (value : Int) : (s.cache key value).intCache.lookup key = some value := by
  rw [Session.cache, List.lookup_cons, beq_self_eq_true]

/-- Caching the country changes what no rule says. -/
theorem verdict_cached {address : IpAddress} (rule : Rule Regex)
    (absent : s.intCache.lookup GeoRule.countryIsoCodeCacheKey = none)
    (available : s.endpoint.isAddressAvailable = true) (known : s.endpoint.theAddress = .ok address) :
    verdict env rule (s.cache GeoRule.countryIsoCodeCacheKey (env.lookup address)) = verdict env rule s := by
  cases rule with
  | geo code isMatch =>
    simp [verdict, Rule.match, GeoRule.match, lookup_cache, absent, available, known, GeoRule.lookupAndCache]
  | all => rfl
  | domain domains => rfl
  | domainAffix reverse trie =>
    rw [verdict_domainAffix, verdict_domainAffix]
    rfl
  | domainRegex regexList => rfl
  | subnet subnets =>
    rw [verdict_subnet, verdict_subnet]
    rfl
  | dnsFail => rfl

/-- Every rule has an answer. It leaves the endpoint and all the answers as they are, and
asks for a resolution where one can be had. -/
theorem match_ok (usable : Usable s.endpoint) (rule : Rule Regex) : ∃ result s',
    rule.match env s = .ok (result, s') ∧ s'.endpoint = s.endpoint ∧
      (∀ other, verdict env other s' = verdict env other s) ∧
      (result = .resolveNeeded → s.endpoint.isAddressAvailable = false ∧ s.endpoint.isResolvable = true) := by
  have unchanged {result : MatchResult} (answered : rule.match env s = .ok (result, s))
      (asks : result = .resolveNeeded → s.endpoint.isAddressAvailable = false ∧ s.endpoint.isResolvable = true) :
      ∃ result s', rule.match env s = .ok (result, s') ∧ s'.endpoint = s.endpoint ∧
        (∀ other, verdict env other s' = verdict env other s) ∧
        (result = .resolveNeeded → s.endpoint.isAddressAvailable = false ∧ s.endpoint.isResolvable = true) :=
    ⟨result, s, answered, rfl, fun _ => rfl, asks⟩
  have decided (yes : Bool) : MatchResult.ofBool yes ≠ .resolveNeeded := by cases yes <;> decide
  cases rule with
  | all => exact unchanged rfl nofun
  | domain domains => exact unchanged rfl fun asks => absurd asks (decided _)
  | domainAffix reverse trie =>
    obtain ⟨found, looked⟩ := trie.matchPrefixWith_ok s.endpoint.domain
    by_cases address : s.endpoint.type = .address
    · refine @unchanged .notMatch ?_ nofun
      simp [Rule.match, DomainAffixRule.match, address]
    · refine @unchanged (.ofBool found) ?_ fun asks => absurd asks (decided _)
      simp [Rule.match, DomainAffixRule.match, address, looked]
  | domainRegex regexList =>
    refine unchanged rfl fun asks => ?_
    rw [DomainRegexRule.match] at asks
    split at asks
    · cases asks
    · exact absurd asks (decided _)
  | subnet subnets =>
    by_cases available : s.endpoint.isAddressAvailable = true
    · obtain ⟨address, known⟩ := usable.theAddress available
      refine @unchanged (.ofBool (SubnetRule.lookUp env subnets address)) ?_ fun asks => absurd asks (decided _)
      simp [Rule.match, SubnetRule.match, available, known]
    · by_cases resolvable : s.endpoint.isResolvable = true
      · refine @unchanged .resolveNeeded ?_ fun _ => ⟨Bool.eq_false_iff.mpr available, resolvable⟩
        simp [Rule.match, SubnetRule.match, available, resolvable]
      · refine @unchanged .notMatch ?_ nofun
        simp [Rule.match, SubnetRule.match, available, resolvable]
  | geo code isMatch =>
    cases absent : s.intCache.lookup GeoRule.countryIsoCodeCacheKey with
    | some cached =>
      refine @unchanged (.ofBool ((cached == code) == isMatch)) ?_ fun asks => absurd asks (decided _)
      simp [Rule.match, GeoRule.match, absent]
    | none =>
      by_cases available : s.endpoint.isAddressAvailable = true
      · obtain ⟨address, known⟩ := usable.theAddress available
        refine ⟨.ofBool ((env.lookup address == code) == isMatch), s.cache GeoRule.countryIsoCodeCacheKey
          (env.lookup address), ?_, rfl, fun other => verdict_cached other absent available known,
          fun asks => absurd asks (decided _)⟩
        simp [Rule.match, GeoRule.match, absent, available, known, GeoRule.lookupAndCache]
      · by_cases resolvable : s.endpoint.isResolvable = true
        · refine @unchanged .resolveNeeded ?_ fun _ => ⟨Bool.eq_false_iff.mpr available, resolvable⟩
          simp [Rule.match, GeoRule.match, absent, available, resolvable]
        · refine @unchanged .notMatch ?_ nofun
          simp [Rule.match, GeoRule.match, absent, available, resolvable]
  | dnsFail =>
    refine unchanged rfl fun asks => ?_
    rw [DnsFailRule.match] at asks
    split at asks
    · cases asks
    next unavailable =>
      split at asks
      next resolvable => exact ⟨Bool.eq_false_iff.mpr unavailable, resolvable⟩
      · cases asks

/-- A rule that does not match an endpoint before it is resolved does not match it
afterwards. -/
theorem notMatch_stays (rule : Rule Regex) (unavailable : s.endpoint.isAddressAvailable = false)
    (resolvable : s.endpoint.isResolvable = true) (same : s'.endpoint.toEndpoint = s.endpoint.toEndpoint)
    (cache : s'.intCache = s.intCache) (before : verdict env rule s = .ok .notMatch) :
    verdict env rule s' = .ok .notMatch := by
  obtain ⟨type, -⟩ := domain_of_unavailable unavailable
  cases rule with
  | all => cases before
  | domain domains =>
    rw [verdict, Rule.match, DomainRule.match, same]
    exact before
  | domainAffix reverse trie =>
    rw [verdict_domainAffix] at before ⊢
    rw [DomainAffixRule.match, same]
    exact before
  | domainRegex regexList =>
    rw [verdict, Rule.match, DomainRegexRule.match, same]
    exact before
  | subnet subnets => simp [verdict_subnet, SubnetRule.match, unavailable, resolvable] at before
  | geo code isMatch =>
    cases absent : s.intCache.lookup GeoRule.countryIsoCodeCacheKey with
    | some cached =>
      simp only [verdict, Rule.match, GeoRule.match, absent] at before
      simp only [verdict, Rule.match, GeoRule.match, cache, absent]
      exact before
    | none => simp [verdict, Rule.match, GeoRule.match, absent, unavailable, resolvable] at before
  | dnsFail => simp [verdict, Rule.match, DnsFailRule.match, unavailable, resolvable] at before

/-! ## The search -/

/-- Neither cancelled nor destroyed, the posted block has run, and the handler has not. -/
structure Quiet (m : RuleManager Regex Failure) : Prop where
  cancelable : m.cancelable = false
  lifetime : m.lifetime = false
  posted : m.posted = false
  calls : m.calls = []

/-- The rules in front of `iter` do not match. -/
def Passed (env : RuleEnvironment Regex) (iter : Nat) (m : RuleManager Regex Failure) : Prop :=
  ∀ rule ∈ m.rules.take iter, verdict env rule m.session = .ok .notMatch

/-- `Resolve` was called before the endpoint was resolved, at most once. -/
def AskedOnce (m : RuleManager Regex Failure) : Prop :=
  m.resolves = [] ∨ ∃ e, m.resolves = [e] ∧ e.resolved = false ∧ e.resolving = false

/-- The search is at `iter`. -/
structure Searching (env : RuleEnvironment Regex) (iter : Nat) (m : RuleManager Regex Failure) : Prop where
  quiet : Quiet m
  waiting : m.waiting = none
  usable : Usable m.session.endpoint
  passed : Passed env iter m
  once : AskedOnce m
  fresh : m.session.endpoint.resolved = false → m.resolves = [] ∧ m.session.endpoint.resolving = false

/-- The search is stopped at `iter`, for the resolver. -/
structure Stopped (env : RuleEnvironment Regex) (iter : Nat) (m : RuleManager Regex Failure) : Prop where
  quiet : Quiet m
  waiting : m.waiting = some iter
  unavailable : m.session.endpoint.isAddressAvailable = false
  resolvable : m.session.endpoint.isResolvable = true
  passed : Passed env iter m
  once : AskedOnce m

structure Finished (env : RuleEnvironment Regex) (m : RuleManager Regex Failure) : Prop where
  settled : m.posted = false ∧ m.waiting = none ∧ m.cancelable = false ∧ m.lifetime = false
  calls : m.calls = [firstMatch env m.rules m.session]
  once : AskedOnce m

/-- The first rule that matches is where the search stops. -/
theorem firstMatch_here {iter : Nat} {rule : Rule Regex} {rest : List (Rule Regex)}
    (passed : ∀ rule ∈ m.rules.take iter, verdict env rule s = .ok .notMatch)
    (behind : m.rules.drop iter = rule :: rest) (matches_here : verdict env rule s = .ok .match) :
    firstMatch env m.rules s = .ok iter := by
  have within : iter < m.rules.length := by
    have length := congrArg List.length behind
    rw [List.length_drop, List.length_cons] at length
    omega
  have here : m.rules[iter] = rule := by
    have first := congrArg List.head? behind
    rw [List.head?_drop, List.getElem?_eq_getElem within] at first
    exact Option.some.inj first
  have found : m.rules.findIdx? (matched env s) = some iter := by
    rw [List.findIdx?_eq_some_iff_getElem]
    refine ⟨within, by rw [here, matched, matches_here], fun j lt => ?_⟩
    have member : m.rules[j] ∈ m.rules.take iter :=
      List.mem_take_iff_getElem.mpr ⟨j, by omega, rfl⟩
    rw [matched, passed _ member]
    exact Bool.false_ne_true
  rw [firstMatch, found]

theorem firstMatch_none {iter : Nat} (passed : ∀ rule ∈ m.rules.take iter, verdict env rule s = .ok .notMatch)
    (behind : m.rules.drop iter = []) : firstMatch env m.rules s = .error .noMatch := by
  have all : m.rules.take iter = m.rules := List.take_of_length_le (List.drop_eq_nil_iff.mp behind)
  have found : m.rules.findIdx? (matched env s) = none := by
    rw [List.findIdx?_eq_none_iff]
    intro rule member
    rw [matched, passed rule (all.symm ▸ member)]
  rw [firstMatch, found]

/-- From wherever the search is it comes to its end, or to a stop. -/
theorem matchFrom_outcome {iter : Nat} (rest : List (Rule Regex)) (searching : Searching env iter m)
    (behind : m.rules.drop iter = rest) : ∃ m', RuleManager.matchFrom env rest iter m = .ok m' ∧
      m'.rules = m.rules ∧ (Finished env m' ∨ ∃ place, Stopped env place m') := by
  induction rest generalizing iter m with
  | nil =>
    refine ⟨_, rfl, rfl, Or.inl ⟨⟨searching.quiet.posted, searching.waiting, searching.quiet.cancelable,
      searching.quiet.lifetime⟩, ?_, searching.once⟩⟩
    rw [handler, searching.quiet.calls, firstMatch_none searching.passed behind]
    rfl
  | cons rule rest ih =>
    obtain ⟨result, session, matched_ok, endpoint, others, asks⟩ := @match_ok _ _ env _ searching.usable rule
    have answered : verdict env rule session = .ok result := by
      rw [others, verdict, matched_ok]
    have passed : ∀ rule ∈ m.rules.take iter, verdict env rule session = .ok .notMatch := fun rule member => by
      rw [others]
      exact searching.passed rule member
    cases result with
    | «match» =>
      have ended : RuleManager.matchFrom env (rule :: rest) iter m =
          .ok (({ m with session } : RuleManager Regex Failure).handler (.ok iter)) := by
        simp [RuleManager.matchFrom, matched_ok]
      refine ⟨_, ended, rfl, Or.inl ⟨⟨searching.quiet.posted, searching.waiting, searching.quiet.cancelable,
        searching.quiet.lifetime⟩, ?_, searching.once⟩⟩
      rw [handler, searching.quiet.calls]
      simp only [List.nil_append]
      rw [firstMatch_here passed behind answered]
    | notMatch =>
      have behind' : m.rules.drop (iter + 1) = rest := by
        rw [← List.tail_drop, behind]
        rfl
      have onward : Searching env (iter + 1) { m with session } := by
        refine ⟨⟨searching.quiet.cancelable, searching.quiet.lifetime, searching.quiet.posted,
          searching.quiet.calls⟩, searching.waiting, by rw [endpoint]; exact searching.usable, ?_, searching.once,
          by rw [endpoint]; exact searching.fresh⟩
        intro other member
        rw [List.take_add_one] at member
        rcases List.mem_append.mp member with earlier | now
        · exact passed other earlier
        · have first := congrArg List.head? behind
          rw [List.head?_drop] at first
          rw [first] at now
          obtain rfl : other = rule := by simpa using now
          exact answered
      have goesOn : RuleManager.matchFrom env (rule :: rest) iter m =
          RuleManager.matchFrom env rest (iter + 1) { m with session } := by
        simp [RuleManager.matchFrom, matched_ok]
      rw [goesOn]
      exact ih onward behind'
    | resolveNeeded =>
      obtain ⟨unavailable, resolvable⟩ := asks rfl
      have notResolved := unresolved_of_resolvable unavailable resolvable
      obtain ⟨noneYet, notResolving⟩ := searching.fresh notResolved
      have resolve : session.endpoint.resolve 1 =
          .ok { session.endpoint with resolving := true, resolveCancelable := 1 } := by
        rw [endpoint, ResolvingEndpoint.resolve, boostAssert_of ⟨notResolved, notResolving⟩, ok_bind,
          ResolvingEndpoint.forceResolve, boostAssert_of notResolving]
        rfl
      have stopped : RuleManager.matchFrom env (rule :: rest) iter m = .ok { m with
          session.endpoint := { session.endpoint with resolving := true, resolveCancelable := 1 }
          session.intCache := session.intCache
          waiting := some iter, resolves := m.resolves ++ [session.endpoint] } := by
        simp [RuleManager.matchFrom, matched_ok, resolve]
      refine ⟨_, stopped, rfl, Or.inr ⟨iter, ⟨searching.quiet.cancelable, searching.quiet.lifetime,
        searching.quiet.posted, searching.quiet.calls⟩, rfl, ?_, ?_, ?_, ?_⟩⟩
      · rw [endpoint]
        exact unavailable
      · rw [endpoint]
        exact resolvable
      · intro other member
        refine @notMatch_stays _ _ env session _ other ?_ ?_ rfl rfl (passed other member)
        · rw [endpoint]
          exact unavailable
        · rw [endpoint]
          exact resolvable
      · exact Or.inr ⟨session.endpoint, by rw [noneYet]; rfl, by rw [endpoint]; exact ⟨notResolved, notResolving⟩⟩

/-! ## Runs -/

/-- `Match` has returned, and its block has not run. -/
structure Pending (m : RuleManager Regex Failure) : Prop where
  flags : m.cancelable = false ∧ m.lifetime = false ∧ m.posted = true
  silent : m.waiting = none ∧ m.calls = [] ∧ m.resolves = []
  unresolved : Unresolved m.session.endpoint

def Progress (env : RuleEnvironment Regex) (rules : List (Rule Regex)) (m : RuleManager Regex Failure) : Prop :=
  m.rules = rules ∧ (Pending m ∨ (∃ iter, Stopped env iter m) ∨ Finished env m)

theorem step_progress {rules : List (Rule Regex)} {e : Event Failure} (progress : Progress env rules m)
    (admits : Admits e m) (goesOn : e ≠ .cancel ∧ e ≠ .destroy) :
    ∃ m', step env e m = .ok m' ∧ Progress env rules m' := by
  obtain ⟨rfl, progress⟩ := progress
  -- Wherever the search goes on from, it ends or stops.
  have search (iter : Nat) (m₁ : RuleManager Regex Failure) (same : m₁.rules = m.rules)
      (searching : Searching env iter m₁) :
      ∃ m', matchIterator env iter m₁ = .ok m' ∧ Progress env m.rules m' := by
    obtain ⟨m', searched, rules, outcome⟩ := matchFrom_outcome _ searching rfl
    refine ⟨m', ?_, rules.trans same, Or.inr (outcome.symm)⟩
    rw [matchIterator, searching.quiet.cancelable]
    exact searched
  cases e with
  | posted =>
    rcases progress with pending | ⟨iter, stopped⟩ | finished
    · obtain ⟨cancelable, lifetime, -⟩ := pending.flags
      obtain ⟨waiting, calls, resolves⟩ := pending.silent
      let running : RuleManager Regex Failure := { m with posted := false }
      have searching : Searching env 0 running :=
        ⟨⟨cancelable, lifetime, rfl, calls⟩, waiting, pending.unresolved.usable,
          fun _ member => absurd member List.not_mem_nil, Or.inl resolves,
          fun _ => ⟨resolves, pending.unresolved.resolving⟩⟩
      obtain ⟨m', searched, more⟩ := search 0 running rfl searching
      refine ⟨m', ?_, more⟩
      rw [step, runPosted]
      exact (if_neg (by simp [cancelable, lifetime])).trans searched
    · exact absurd (stopped.quiet.posted.symm.trans admits) Bool.false_ne_true
    · exact absurd (finished.settled.1.symm.trans admits) Bool.false_ne_true
  | resolved outcome =>
    rcases progress with pending | ⟨iter, stopped⟩ | finished
    · exact absurd pending.silent.1 admits.1
    · obtain ⟨type, -⟩ := domain_of_unavailable stopped.unavailable
      have same : (m.session.endpoint.settle outcome).toEndpoint = m.session.endpoint.toEndpoint ∧
          (m.session.endpoint.settle outcome).resolved = true ∧
          (m.session.endpoint.settle outcome).resolvedAddresses ≠ some [] := by
        cases outcome with
        | failed error => exact ⟨rfl, rfl, nofun⟩
        | addresses addresses =>
          exact ⟨rfl, rfl, fun empty => admits.2 (congrArg Resolution.Outcome.addresses (Option.some.inj empty))⟩
      have usable : Usable (m.session.endpoint.settle outcome) := by
        refine ⟨fun address => ?_, same.2.2⟩
        rw [same.1, type] at address
        cases address
      let resumed : RuleManager Regex Failure := { m with
        waiting := none, session.endpoint := m.session.endpoint.settle outcome }
      have searching : Searching env iter resumed :=
        ⟨⟨stopped.quiet.cancelable, stopped.quiet.lifetime, stopped.quiet.posted, stopped.quiet.calls⟩, rfl,
          usable, fun rule member => notMatch_stays rule stopped.unavailable stopped.resolvable same.1 rfl
            (stopped.passed rule member),
          stopped.once, fun notResolved => absurd (notResolved.symm.trans same.2.1) Bool.false_ne_true⟩
      obtain ⟨m', searched, more⟩ := search iter resumed rfl searching
      refine ⟨m', ?_, more⟩
      rw [step, onResolved, stopped.waiting]
      exact (if_neg (by simp [stopped.quiet.cancelable, stopped.quiet.lifetime])).trans searched
    · exact absurd finished.settled.2.1 admits.1
  | cancel => exact absurd rfl goesOn.1
  | destroy => exact absurd rfl goesOn.2

/-- A search that is let run gives one answer, the first match on the session as it is
then. It has `Resolve` called at most once, on an endpoint nobody has resolved. Until the
answer, a block is posted or the resolver is at work. -/
theorem match_finds_first (env : RuleEnvironment Regex) (rules : List (Rule Regex)) (session : Session Failure)
    (unresolved : Unresolved session.endpoint) (events : List (Event Failure))
    (admitted : (machine env).Admitted events (start rules session))
    (uncancelled : ∀ e ∈ events, e ≠ .cancel ∧ e ≠ .destroy) :
    ∃ m, (machine env).run events (start rules session) = .ok m ∧
      (m.calls = [firstMatch env rules m.session] ∧ m.posted = false ∧ m.waiting = none ∨
        m.calls = [] ∧ (m.posted = true ∨ m.waiting ≠ none)) ∧
      m.resolves.length ≤ 1 ∧ ∀ e ∈ m.resolves, e.resolved = false ∧ e.resolving = false := by
  have initially : Progress env rules (start rules session) :=
    ⟨rfl, Or.inl ⟨⟨rfl, rfl, rfl⟩, ⟨rfl, rfl, rfl⟩, unresolved⟩⟩
  obtain ⟨m, ran, same, progress⟩ := @Machine.run_invariant_of_inputs _ _ _ (machine env) (Progress env rules) _
    (fun e m progress admits goesOn => step_progress progress admits goesOn) events _ initially admitted uncancelled
  have once : AskedOnce m := by
    rcases progress with pending | ⟨_, stopped⟩ | finished
    · exact Or.inl pending.silent.2.2
    · exact stopped.once
    · exact finished.once
  refine ⟨m, ran, ?_, ?_⟩
  · rcases progress with pending | ⟨_, stopped⟩ | finished
    · exact Or.inr ⟨pending.silent.2.1, Or.inl pending.flags.2.2⟩
    · exact Or.inr ⟨stopped.quiet.calls, Or.inr (by simp [stopped.waiting])⟩
    · exact Or.inl ⟨by rw [finished.calls, same], finished.settled.1, finished.settled.2.1⟩
  · rcases once with none | ⟨e, only, fresh⟩
    · simp [none]
    · simpa [only] using fresh

/-- A resolution that fails, for a rule that wants the country and one that wants the failure. -/
theorem match_finds_first_dnsFail :
    ∃ m : RuleManager Bytes Nat,
      (machine ⟨.littleEndian, fun _ => 7, fun text part => text == part⟩).run [.posted, .resolved (.failed 3)]
        (start [.domain [[0x62]], .geo 7 true, .dnsFail, .all]
          { endpoint := { type := .domain, domain := [0x61], address := none, port := 80 } }) = .ok m ∧
      m.calls = [.ok 2] := by
  have ran := match_finds_first (⟨.littleEndian, fun _ => 7, fun text part => text == part⟩ : RuleEnvironment Bytes)
    [.domain [[0x62]], .geo 7 true, .dnsFail, .all]
    ({ endpoint := { type := .domain, domain := [0x61], address := none, port := 80 } } : Session Nat)
    ⟨nofun, rfl, rfl, rfl⟩ [.posted, .resolved (.failed 3)]
    ⟨rfl, fun m stepped => by
      cases stepped
      exact ⟨⟨nofun, nofun⟩, fun _ _ => trivial⟩⟩ (by simp)
  obtain ⟨m, ran, -⟩ := ran
  refine ⟨m, ran, ?_⟩
  cases ran
  rfl

end LibNekit.Guarantees.FirstMatch
