import LibNekit.Source.Utils.Resolution
import LibNekit.Source.Utils.Subnet
import LibNekit.Source.Utils.Trie

/-!
# The rules

`Match` of every rule. The geographic database and the regular expressions are parameters,
like the byte order of the machine.
-/
namespace LibNekit.Source

structure RuleEnvironment (Regex : Type) where
  order : ByteOrder
  /-- `Maxmind::Lookup(address)->country_iso_code()` -/
  lookup : IpAddress → Int
  /-- `std::regex_search(domain, regex)` -/
  regexSearch : Bytes → Regex → Bool

/-- `Session` -/
structure Session (Failure : Type) where
  endpoint : ResolvingEndpoint Failure
  intCache : List (String × Int) := []
  deriving DecidableEq, Repr

/-- `int_cache()[key] = value` -/
def Session.cache {Failure : Type} (session : Session Failure) (key : String) (value : Int) : Session Failure :=
  { session with intCache := (key, value) :: session.intCache.filter fun entry => entry.1 ≠ key }

inductive MatchResult where
  | «match» | notMatch | resolveNeeded
  deriving DecidableEq, Repr

inductive Rule (Regex : Type) where
  | all
  | domain (domains : List Bytes)
  | domainAffix (reverse : Bool) (trie : DomainTrie reverse)
  | domainRegex (regexList : List Regex)
  | subnet (subnets : List Subnet)
  | geo (code : Int) (isMatch : Bool)
  | dnsFail

variable {Regex Failure : Type}

/-- What the rules say that only know yes and no. -/
def MatchResult.ofBool (matched : Bool) : MatchResult := if matched then .match else .notMatch

/-- `AllRule::Match` -/
def AllRule.match (_session : Session Failure) : MatchResult := .match

/-- `DomainRule::Match` -/
def DomainRule.match (domains : List Bytes) (session : Session Failure) : MatchResult :=
  .ofBool (session.endpoint.type = .domain && domains.contains session.endpoint.domain)

/-- `DomainAffixRule<reverse>::Match` -/
def DomainAffixRule.match {reverse : Bool} (trie : DomainTrie reverse) (session : Session Failure) :
    Checked MatchResult :=
  if session.endpoint.type = .address then .ok .notMatch
  else do return .ofBool (← trie.matchPrefixWith session.endpoint.domain)

/-- `DomainRegexRule::Match` -/
def DomainRegexRule.match (env : RuleEnvironment Regex) (regexList : List Regex) (session : Session Failure) :
    MatchResult :=
  if session.endpoint.type = .address then .notMatch
  else .ofBool (regexList.any (env.regexSearch session.endpoint.domain))

/-- `SubnetRule::LookUp` -/
def SubnetRule.lookUp (env : RuleEnvironment Regex) (subnets : List Subnet) (address : IpAddress) : Bool :=
  subnets.any fun subnet => subnet.contains env.order address

/-- `SubnetRule::Match` -/
def SubnetRule.match (env : RuleEnvironment Regex) (subnets : List Subnet) (session : Session Failure) :
    Checked MatchResult :=
  if session.endpoint.isAddressAvailable then do
    return .ofBool (lookUp env subnets (← session.endpoint.theAddress))
  else if session.endpoint.isResolvable then .ok .resolveNeeded
  else .ok .notMatch

namespace GeoRule

def countryIsoCodeCacheKey : String := "NECC"

/-- `GeoRule::LookupAndCache` -/
def lookupAndCache (env : RuleEnvironment Regex) (session : Session Failure) (address : IpAddress) :
    Int × Session Failure :=
  let code := env.lookup address
  (code, session.cache countryIsoCodeCacheKey code)

/-- `GeoRule::Match` -/
def «match» (env : RuleEnvironment Regex) (code : Int) (isMatch : Bool) (session : Session Failure) :
    Checked (MatchResult × Session Failure) :=
  match session.intCache.lookup countryIsoCodeCacheKey with
  | some cached => .ok (.ofBool ((cached == code) == isMatch), session)
  | none =>
    if session.endpoint.isAddressAvailable then do
      let (found, session) := lookupAndCache env session (← session.endpoint.theAddress)
      return (.ofBool ((found == code) == isMatch), session)
    else if session.endpoint.isResolvable then .ok (.resolveNeeded, session)
    else .ok (.notMatch, session)

end GeoRule

/-- `DnsFailRule::Match` -/
def DnsFailRule.match (session : Session Failure) : MatchResult :=
  if session.endpoint.isAddressAvailable then .notMatch
  else if session.endpoint.isResolvable then .resolveNeeded
  else .match

/-- `RuleInterface::Match`. Only the geographic rule changes the session. -/
def Rule.match (env : RuleEnvironment Regex) (rule : Rule Regex) (session : Session Failure) :
    Checked (MatchResult × Session Failure) :=
  match rule with
  | .all => .ok (AllRule.match session, session)
  | .domain domains => .ok (DomainRule.match domains session, session)
  | .domainAffix _ trie => do return (← DomainAffixRule.match trie session, session)
  | .domainRegex regexList => .ok (DomainRegexRule.match env regexList session, session)
  | .subnet subnets => do return (← SubnetRule.match env subnets session, session)
  | .geo code isMatch => GeoRule.match env code isMatch session
  | .dnsFail => .ok (DnsFailRule.match session, session)

end LibNekit.Source
