import Mathlib.Data.Nat.Bitwise
import LibNekit.Source.DataFlow.HttpServerDataFlow

/-!
# Requests reach the host they name

The first request of a client decides where the tunnel leads. What the later ones name
is parsed, cut off their URLs and never looked at, so the requests reach the hosts that
they name as long as the client names one host.
-/
namespace LibNekit.Guarantees.RequestTargets

open LibNekit.Source LibNekit.Library HttpParser HttpServerDataFlow ClientConnection

/-- The port that a URL names, or the one of its scheme. -/
def namedPort (u : HttpParserUrl) (token : Bytes) : Nat :=
  if u.has .port then u.port else if iequals (ascii "https") (u.text .schema token) then 443 else 80

/-- The host and the port that an absolute URL names. -/
def target (token : Bytes) : Option (Bytes × Nat) :=
  (parseUrl token false).bind fun u =>
    if u.has .host then some (u.text .host token, namedPort u token) else none

/-- A connection to the endpoint leads to that host and port. -/
def Reaches (endpoint : Option Endpoint) (t : Bytes × Nat) : Prop :=
  ∃ e ∈ endpoint, iequals e.domain t.1 = true ∧ e.port = t.2

instance (endpoint : Option Endpoint) (t : Bytes × Nat) : Decidable (Reaches endpoint t) :=
  inferInstanceAs (Decidable (∃ e ∈ endpoint, _))

/-- Every request whose bytes the tunnel gets names the endpoint that it leads to. -/
def Faithful (s : ClientConnection) : Prop := ∀ token ∈ s.handed, ∀ t ∈ target token, Reaches s.flow.endpoint t

instance (s : ClientConnection) : Decidable (Faithful s) := inferInstanceAs (Decidable (∀ token ∈ s.handed, _))

/-- A URL that gives a port gives none that is zero, and an https URL without one has
nothing behind the host. -/
def PlainPort (token : Bytes) : Prop :=
  ∀ u ∈ parseUrl token false, u.has .host = true →
    if u.has .port then u.port ≠ 0
    else iequals (ascii "https") (u.text .schema token) = true → u.hasFrom .port = false

instance (token : Bytes) : Decidable (PlainPort token) := inferInstanceAs (Decidable (∀ u ∈ parseUrl token false, _))

/-- The first URL of the client has a plain port, and the others name what it named. -/
def Constant (e : Event) (s : ClientConnection) : Prop :=
  match e with
  | .url token =>
    if s.flow.readingFirstHeader then PlainPort token else ∀ t ∈ target token, Reaches s.flow.endpoint t
  | _ => True

instance decidableConstant (s : ClientConnection) : (e : Event) → Decidable (Constant e s)
  | .url token =>
    inferInstanceAs (Decidable (if s.flow.readingFirstHeader then PlainPort token else ∀ t ∈ target token, _))
  | .method _ | .headerPair | .messageComplete _ | .rewritten | .failed => .isTrue trivial

/-! ## URLs -/

theorem hasFrom_of_has {u : HttpParserUrl} {uf : UrlField} (has : u.has uf = true) : u.hasFrom uf = true := by
  simp only [HttpParserUrl.has, HttpParserUrl.hasFrom, decide_eq_true_eq, Nat.one_shiftLeft] at has ⊢
  intro none
  apply has
  rw [Nat.shiftRight_eq_div_pow, Nat.div_eq_zero_iff] at none
  have small : u.fieldSet < 2 ^ uf.index := none.resolve_left (Nat.two_pow_pos _).ne'
  rw [Nat.and_two_pow, Nat.testBit_lt_two_pow small, Bool.toNat_false, Nat.zero_mul]

theorem setData_port (u : HttpParserUrl) (uf : UrlField) (data : FieldData) : (u.setData uf data).port = u.port := by
  cases uf <;> rfl

theorem hostChar_port (s new : HostState) (p : Nat) (u : HttpParserUrl) : (hostChar s new p u).port = u.port := by
  cases new <;> simp only [hostChar] <;> (try split) <;>
    simp [HttpParserUrl.grow, HttpParserUrl.begin, setData_port]

theorem hostLoop_port {text : Bytes} {p : Nat} {s s' : HostState} {u u' : HttpParserUrl}
    (ran : hostLoop text p s u = some (s', u')) : u'.port = u.port := by
  induction text generalizing p s u with
  | nil =>
    cases ran
    rfl
  | cons ch rest ih =>
    simp only [hostLoop] at ran
    split at ran
    · cases ran
    · exact (ih ran).trans (hostChar_port _ _ _ _)

theorem urlLoop_port {text : Bytes} {p : Nat} {s : ParserState} {old : Option UrlField} {foundAt foundAt' : Bool}
    {u u' : HttpParserUrl} (ran : urlLoop text p s old foundAt u = some (foundAt', u')) : u'.port = u.port := by
  induction text generalizing p s old foundAt u with
  | nil =>
    cases ran
    rfl
  | cons ch rest ih =>
    simp only [urlLoop] at ran
    split at ran
    · cases ran
    · exact ih ran
    · split at ran
      · exact (ih ran).trans (setData_port _ _ _)
      · exact (ih ran).trans (setData_port _ _ _)

theorem parseHost_port {buf : Bytes} {u u' : HttpParserUrl} {foundAt : Bool}
    (parsed : parseHost buf u foundAt = some u') : u'.port = u.port := by
  simp only [parseHost] at parsed
  split at parsed
  · next ran =>
    split at parsed
    · cases parsed
      exact (hostLoop_port ran : _)
    · cases parsed
  · cases parsed

/-- Where a URL gives no port, `port` stays zero. -/
theorem parseUrl_port {token : Bytes} {isConnect : Bool} {u : HttpParserUrl} (parsed : parseUrl token isConnect = some u)
    (noPort : u.has .port = false) : u.port = 0 := by
  simp only [parseUrl] at parsed
  split at parsed
  · cases parsed
  next foundAt u₁ looped =>
  split at parsed
  · cases parsed
  split at parsed
  · cases parsed
  next u₂ hosted =>
  split at parsed
  · cases parsed
  have still : u₂.port = 0 := by
    split at hosted
    · exact (parseHost_port hosted).trans (urlLoop_port looped)
    · cases hosted
      exact urlLoop_port looped
  unfold readPort at parsed
  split at parsed
  · next port =>
    obtain ⟨v, -, rfl⟩ := Option.map_eq_some_iff.mp parsed
    exact absurd (port.symm.trans noPort) Bool.noConfusion
  · cases parsed
    exact still

/-- What `OnUrl` makes of a plain port is the port that the URL names. -/
theorem portOf_eq {token : Bytes} {u : HttpParserUrl} (parsed : parseUrl token false = some u)
    (host : u.has .host = true) (plain : PlainPort token) : portOf u token = namedPort u token := by
  have plain := plain u parsed host
  unfold portOf namedPort
  by_cases port : u.has .port = true
  · rw [if_pos port] at plain ⊢
    rw [if_pos (hasFrom_of_has port), if_pos plain]
  · rw [if_neg port] at plain ⊢
    have zero := parseUrl_port parsed (Bool.eq_false_iff.mpr port)
    have set : u.hasFrom .schema = true := by
      have later := hasFrom_of_has host
      simp only [HttpParserUrl.hasFrom, decide_eq_true_eq] at later ⊢
      rintro none
      rw [UrlField.index, Nat.shiftRight_zero] at none
      exact later (by rw [none, Nat.zero_shiftRight])
    by_cases https : iequals (ascii "https") (u.text .schema token) = true
    · rw [if_pos https, plain https]
      simp [set]
    · rw [if_neg https]
      simp [zero]

/-! ## Connections -/

variable {text : AddressText} {s s' : ClientConnection} {e : Event}

/-- What every URL that was accepted names is where the tunnel leads. -/
structure Inv (s : ClientConnection) : Prop where
  plain : s.flow.isConnect = false
  reaches : ∀ token ∈ s.handed ++ s.seen, ∀ t ∈ target token, Reaches s.flow.endpoint t
  first : s.flow.readingFirstHeader = true → s.named = false → s.handed ++ s.seen = []

theorem Inv.faithful (inv : Inv s) : Faithful s :=
  fun token member => inv.reaches token (List.mem_append_left _ member)

theorem start_inv : Inv {} := ⟨rfl, nofun, fun _ _ => rfl⟩

/-- The first URL of the client leads where it says. -/
theorem reaches_first {token : Bytes} {u : HttpParserUrl} (parsed : parseUrl token false = some u)
    (plain : PlainPort token) :
    ∀ t ∈ target token, Reaches (some (.ofHost text (u.text .host token) (portOf u token))) t := by
  intro t named
  rw [target, parsed, Option.bind_some] at named
  split at named
  · next host =>
    obtain rfl := Option.mem_some.mp named
    refine ⟨_, rfl, ?_⟩
    rw [portOf_eq parsed host plain]
    unfold Endpoint.ofHost
    split <;> exact ⟨by simp [iequals], rfl⟩
  · cases named

theorem url_inv {token : Bytes} (inv : Inv s) (admits : Admits (.url token) s) (constant : Constant (.url token) s) :
    ∃ s', step text (.url token) s = .ok s' ∧ Inv s' := by
  have fresh : s.named = false := admits.2
  have stepped : step text (.url token) s = if (s.flow.onPlainUrl text token).1
      then .ok { s with flow := (s.flow.onPlainUrl text token).2.2, named := true, seen := s.seen ++ [token] }
      else .ok { s with flow := (s.flow.onPlainUrl text token).2.2, errored := true } := by
    show s.onUrl text token = _
    rw [ClientConnection.onUrl, inv.plain]
    rfl
  rw [stepped]
  unfold onPlainUrl
  cases parsed : parseUrl token false with
  | none => exact ⟨_, rfl, inv.plain, inv.reaches, inv.first⟩
  | some u =>
    by_cases first : s.flow.readingFirstHeader = true
    · have constant : PlainPort token := by simpa [Constant, first] using constant
      by_cases host : u.hasFrom .host = true
      · obtain ⟨handed, seen⟩ := List.append_eq_nil_iff.mp (inv.first first fresh)
        simp only [first, host, not_true_eq_false, if_true, if_false]
        refine ⟨_, rfl, inv.plain, ?_, nofun⟩
        simp only [handed, seen, List.nil_append, List.mem_singleton]
        rintro _ rfl
        exact reaches_first parsed constant
      · simp only [first, host, if_true]
        exact ⟨_, rfl, inv.plain, inv.reaches, fun _ => inv.first first⟩
    · have constant : ∀ t ∈ target token, Reaches s.flow.endpoint t := by simpa [Constant, first] using constant
      simp only [first]
      refine ⟨_, rfl, inv.plain, ?_, fun yes => absurd yes first⟩
      intro token' member
      rw [← List.append_assoc] at member
      rcases List.mem_append.mp member with old | new
      · exact inv.reaches token' old
      · obtain rfl := List.mem_singleton.mp new
        exact constant

theorem method_inv {token : Bytes} (inv : Inv s) (admits : Admits (.method token) s) :
    Inv { s with flow := s.flow.onMethod token } := by
  have kept : (s.flow.onMethod token).endpoint = s.flow.endpoint ∧
      (s.flow.onMethod token).readingFirstHeader = s.flow.readingFirstHeader := by
    unfold onMethod
    split <;> exact ⟨rfl, rfl⟩
  refine ⟨?_, fun token' member t named => ?_, ?_⟩
  · show (s.flow.onMethod token).isConnect = false
    unfold onMethod
    split
    · exact inv.plain
    · next unread =>
      have other := admits.2.resolve_left unread
      simp [inv.plain, other]
  · rw [kept.1]
    exact inv.reaches token' member t named
  · rw [kept.2]
    exact inv.first

theorem step_inv (inv : Inv s) (admits : Admits e s) (constant : Constant e s) :
    ∃ s', step text e s = .ok s' ∧ Inv s' := by
  cases e with
  | method token => exact ⟨_, rfl, method_inv inv admits⟩
  | url token => exact url_inv inv admits constant
  | headerPair => exact ⟨s, rfl, inv⟩
  | messageComplete bufferOffset => exact ⟨_, rfl, inv.plain, inv.reaches, nofun⟩
  | rewritten =>
    refine ⟨_, rfl, inv.plain, ?_, ?_⟩
    · simp only [inv.plain, Bool.false_eq_true, if_false, List.append_nil]
      exact inv.reaches
    · simp only [inv.plain, Bool.false_eq_true, if_false, List.append_nil]
      exact inv.first
  | failed => exact ⟨_, rfl, inv.plain, inv.reaches, inv.first⟩

/-- While the client names one host and port, every request reaches what it names. -/
theorem requests_reach_targets (text : AddressText) (events : List Event)
    (admitted : (machine text).Admitted events {}) (constant : (machine text).Along Constant events {}) :
    (machine text).AllSteps (fun _ _ s' => Faithful s') events {} := by
  refine @Machine.allSteps_of_along _ _ _ (machine text) Inv _ _ ?_ events _ start_inv admitted constant
  intro e s inv admits constant
  obtain ⟨s', stepped, after⟩ := @step_inv text s e inv admits constant
  exact ⟨s', stepped, after.faithful, after⟩

/-- A text that is no address. -/
def domains : AddressText := ⟨fun _ => none, fun _ => []⟩

/-- A request, read in one Buffer. -/
def request (url : Bytes) : List Event := [.method (ascii "GET"), .url url, .headerPair, .messageComplete 0, .rewritten]

instance (text : AddressText) (e : Event) (s : ClientConnection) : Decidable ((machine text).admits e s) :=
  decidableAdmits s e

theorem requests_reach_targets_one_host :
    (machine domains).AllSteps (fun _ _ s' => Faithful s')
      (request (ascii "http://a:8080/x") ++ request (ascii "http://A:8080/y")) {} :=
  requests_reach_targets domains _ (by decide +kernel) (by decide +kernel)

/-- The second request names another host, and goes to the first one. -/
theorem second_host_ignored :
    (machine domains).Admitted (request (ascii "http://a/") ++ request (ascii "http://b/")) {} ∧
    ∃ s, (machine domains).run (request (ascii "http://a/") ++ request (ascii "http://b/")) {} = .ok s ∧ ¬Faithful s :=
  ⟨by decide +kernel, _, rfl, by decide +kernel⟩

/-- `field_set >> UF_PORT` takes the path for a port. -/
example : (HttpServerDataFlow.onPlainUrl domains (ascii "https://a/") {}).2.2.endpoint.map Endpoint.port = some 80 := by
  decide

end LibNekit.Guarantees.RequestTargets
