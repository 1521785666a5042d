import Mathlib.Data.List.TakeWhile
import LibNekit.Guarantees.RequestTargets

/-!
# The first URL of a client

`OnUrl` should take the endpoint from an absolute URL and leave the origin server the
part from the path on. It asks for a component with `field_set >> UF_x`, which any later
component answers as well.
-/
namespace LibNekit.Guarantees.OriginForm

open LibNekit.Source HttpParser HttpServerDataFlow RequestTargets

variable {token : Bytes} {isConnect : Bool} {u u' : HttpParserUrl} {uf : UrlField}

/-- The port that a URL gives, if it is not zero, or the one of its scheme. -/
def givenPort (u : HttpParserUrl) (token : Bytes) : Nat :=
  if u.has .port ∧ u.port ≠ 0 then u.port
  else if iequals (ascii "https") (u.text .schema token) then 443 else 80

/-- The part of a URL from the path on; a `/` stands for a path that is missing. -/
def fromPath (u : HttpParserUrl) (token : Bytes) : Bytes :=
  if u.has .path then token.drop u.path.off
  else if u.has .query then byte '/' :: token.drop (u.query.off - 1)
  else if u.has .fragment then byte '/' :: token.drop (u.fragment.off - 1)
  else [byte '/']

/-- A URL with a host gives the endpoint and is cut; any other one is refused. -/
def Taken (text : AddressText) (f : HttpServerDataFlow) (token : Bytes) (u : HttpParserUrl) : Prop :=
  if u.has .host then
    f.onPlainUrl text token = (true, some (fromPath u token),
      { f with endpoint := some (.ofHost text (u.text .host token) (givenPort u token)) })
  else (f.onPlainUrl text token).1 = false

/-- Behind the host there is a path, or there is nothing in the URL that the code takes for
one; and the port is not left to an https scheme when anything follows the host. -/
def Plain (token : Bytes) (u : HttpParserUrl) : Prop :=
  if u.has .host then
    (u.has .path ∨ ¬(u.has .query ∨ u.has .fragment ∨ u.has .userinfo)) ∧
    (u.port ≠ 0 ∨ ¬iequals (ascii "https") (u.text .schema token) ∨
      ¬(u.has .port ∨ u.has .path ∨ u.has .query ∨ u.has .fragment ∨ u.has .userinfo))
  else token = []

instance (token : Bytes) (u : HttpParserUrl) : Decidable (Plain token u) := by
  unfold Plain
  infer_instance

/-! ## The bits of `field_set` -/

theorem has_eq_testBit (u : HttpParserUrl) (uf : UrlField) : u.has uf = u.fieldSet.testBit uf.index := by
  rw [HttpParserUrl.has, Nat.one_shiftLeft, Nat.and_two_pow]
  cases u.fieldSet.testBit uf.index <;> simp

theorem begin_has (u : HttpParserUrl) (uf uf' : UrlField) (p len : Nat) :
    (u.begin uf p len).has uf' = (u.has uf' || uf = uf') := by
  rw [has_eq_testBit, has_eq_testBit]
  have set : (u.begin uf p len).fieldSet = u.fieldSet ||| 1 <<< uf.index := by cases uf <;> rfl
  rw [set, Nat.testBit_or, Nat.one_shiftLeft, Nat.testBit_two_pow]
  congr 1
  cases uf <;> cases uf' <;> rfl

theorem grow_fieldSet (u : HttpParserUrl) (uf : UrlField) : (u.grow uf).fieldSet = u.fieldSet := by
  cases uf <;> rfl

theorem grow_has (u : HttpParserUrl) (uf uf' : UrlField) : (u.grow uf).has uf' = u.has uf' := by
  rw [has_eq_testBit, has_eq_testBit, grow_fieldSet]

theorem index_onto : {i : Nat} → i < 7 → ∃ uf : UrlField, uf.index = i
  | 0, _ => ⟨.schema, rfl⟩
  | 1, _ => ⟨.host, rfl⟩
  | 2, _ => ⟨.port, rfl⟩
  | 3, _ => ⟨.path, rfl⟩
  | 4, _ => ⟨.query, rfl⟩
  | 5, _ => ⟨.fragment, rfl⟩
  | 6, _ => ⟨.userinfo, rfl⟩

/-- `field_set >> uf` is not zero if that component is there, or a later one. -/
theorem hasFrom_iff (small : u.fieldSet < 2 ^ 7) :
    u.hasFrom uf = true ↔ ∃ later : UrlField, uf.index ≤ later.index ∧ u.has later = true := by
  simp only [HttpParserUrl.hasFrom, decide_eq_true_eq, has_eq_testBit]
  refine ⟨fun set => ?_, ?_⟩
  · obtain ⟨i, bit⟩ := Nat.exists_testBit_of_ne_zero set
    rw [Nat.testBit_shiftRight] at bit
    have bound : uf.index + i < 7 := by
      by_contra beyond
      rw [Nat.testBit_lt_two_pow (lt_of_lt_of_le small (Nat.pow_le_pow_right (by decide) (by omega)))] at bit
      cases bit
    obtain ⟨later, index⟩ := index_onto bound
    exact ⟨later, by omega, by rw [index]; exact bit⟩
  · rintro ⟨later, le, bit⟩ none
    have shifted := congrArg (·.testBit (later.index - uf.index)) none
    simp only [Nat.testBit_shiftRight, Nat.add_sub_cancel' le, bit, Nat.zero_testBit] at shifted
    cases shifted

/-! ## What every step of the parse keeps -/

/-- A fact that neither beginning a component nor growing one changes, nor setting where
the host is. -/
structure Kept (P : HttpParserUrl → Prop) : Prop where
  begins : ∀ u uf p len, P u → P (u.begin uf p len)
  grows : ∀ u uf, P u → P (u.grow uf)
  host : ∀ u data, P u → P { u with host := data }
  port : ∀ u v, P u → P { u with port := v }

variable {P : HttpParserUrl → Prop}

theorem Kept.urlLoop (kept : Kept P) {text : Bytes} {p : Nat} {s : ParserState} {old : Option UrlField}
    {foundAt foundAt' : Bool} (ran : urlLoop text p s old foundAt u = some (foundAt', u')) (holds : P u) : P u' := by
  induction text generalizing p s old foundAt u with
  | nil =>
    cases ran
    exact holds
  | cons ch rest ih =>
    simp only [HttpParser.urlLoop] at ran
    split at ran
    · cases ran
    · exact ih ran holds
    · split at ran
      · exact ih ran (kept.grows _ _ holds)
      · exact ih ran (kept.begins _ _ _ _ holds)

theorem Kept.hostChar (kept : Kept P) (s new : HostState) (p : Nat) (holds : P u) : P (hostChar s new p u) := by
  cases new <;> simp only [HttpParser.hostChar]
  case host | hostV6 | hostPort | userinfo =>
    refine kept.grows _ _ ?_
    split
    · first
        | exact kept.host _ _ holds
        | exact kept.begins _ _ _ _ holds
    · exact holds
  case hostV6ZoneStart | hostV6Zone => exact kept.grows _ _ holds
  all_goals exact holds

theorem Kept.hostLoop (kept : Kept P) {text : Bytes} {p : Nat} {s s' : HostState}
    (ran : hostLoop text p s u = some (s', u')) (holds : P u) : P u' := by
  induction text generalizing p s u with
  | nil =>
    cases ran
    exact holds
  | cons ch rest ih =>
    simp only [HttpParser.hostLoop] at ran
    split at ran
    · cases ran
    · exact ih ran (kept.hostChar _ _ _ holds)

theorem Kept.parseHost (kept : Kept P) {buf : Bytes} {foundAt : Bool} (parsed : parseHost buf u foundAt = some u')
    (holds : P u) : P u' := by
  simp only [HttpParser.parseHost] at parsed
  split at parsed
  · next ran =>
    split at parsed
    · cases parsed
      exact kept.hostLoop ran (kept.host _ _ holds)
    · cases parsed
  · cases parsed

theorem Kept.readPort (kept : Kept P) {buf : Bytes} (parsed : readPort buf u = some u') (holds : P u) : P u' := by
  unfold HttpParser.readPort at parsed
  split at parsed
  · obtain ⟨v, -, rfl⟩ := Option.map_eq_some_iff.mp parsed
    exact kept.port _ _ holds
  · cases parsed
    exact holds

/-- The stages of a parse that succeeds. -/
theorem parseUrl_stages (parsed : parseUrl token false = some u) :
    ∃ foundAt u₁ u₂, urlLoop token 0 .reqSpacesBeforeUrl none false {} = some (foundAt, u₁) ∧
      (u₁.has .schema = true → u₁.has .host = true) ∧
      (if u₁.has .host then parseHost token u₁ foundAt else some u₁) = some u₂ ∧ readPort token u₂ = some u := by
  simp only [parseUrl] at parsed
  split at parsed
  · cases parsed
  next foundAt u₁ looped =>
  split at parsed
  · cases parsed
  next both =>
  split at parsed
  · cases parsed
  next u₂ hosted =>
  split at parsed
  · next connect => exact absurd connect.1 Bool.false_ne_true
  · exact ⟨foundAt, u₁, u₂, looped, fun schema => by_contra fun host => both ⟨schema, by simpa using host⟩, hosted, parsed⟩

/-- What every stage keeps after the first one. -/
theorem Kept.stages (kept : Kept P) {foundAt : Bool} {u₁ u₂ : HttpParserUrl} (holds : P u₁)
    (hosted : (if u₁.has .host then HttpParser.parseHost token u₁ foundAt else some u₁) = some u₂)
    (parsed : HttpParser.readPort token u₂ = some u) : P u := by
  refine kept.readPort parsed ?_
  split at hosted
  · exact kept.parseHost hosted holds
  · cases hosted
    exact holds

theorem kept_small : Kept fun u => u.fieldSet < 2 ^ 7 where
  begins u uf p len small := by
    have set : (u.begin uf p len).fieldSet = u.fieldSet ||| 1 <<< uf.index := by cases uf <;> rfl
    rw [set]
    refine Nat.or_lt_two_pow small ?_
    cases uf <;> decide
  grows u uf small := by rwa [grow_fieldSet]
  host _ _ small := small
  port _ _ small := small

theorem kept_has (uf : UrlField) : Kept fun u => u.has uf = true where
  begins u uf' p len has := by rw [begin_has, has, Bool.true_or]
  grows u uf' has := by rwa [grow_has]
  host _ _ has := has
  port _ _ has := has

/-- A path that is not there has no offset. -/
theorem kept_path : Kept fun u => u.has .path = true ∨ u.path.off = 0 where
  begins u uf p len path := by
    rw [begin_has]
    cases uf
    case path => exact Or.inl (by simp)
    all_goals exact path.imp (fun has => by rw [has, Bool.true_or]) fun off => off
  grows u uf path := by
    rw [grow_has]
    cases uf <;> exact path
  host _ _ path := path
  port _ _ path := path

theorem parsed_small (parsed : parseUrl token false = some u) : u.fieldSet < 2 ^ 7 := by
  obtain ⟨foundAt, u₁, u₂, looped, -, hosted, ported⟩ := parseUrl_stages parsed
  exact kept_small.stages (kept_small.urlLoop looped (by decide)) hosted ported

theorem parsed_path (parsed : parseUrl token false = some u) (none : u.has .path = false) : u.path.off = 0 := by
  obtain ⟨foundAt, u₁, u₂, looped, -, hosted, ported⟩ := parseUrl_stages parsed
  have path := kept_path.stages (kept_path.urlLoop looped (Or.inr rfl)) hosted ported
  exact path.resolve_left (by rw [none]; exact Bool.false_ne_true)

/-! ## The text of an accepted URL -/

/-- The states behind the host. -/
def BehindHost (s : ParserState) : Prop :=
  s = .reqPath ∨ s = .reqQueryStringStart ∨ s = .reqQueryString ∨ s = .reqFragmentStart ∨ s = .reqFragment

theorem parseUrlChar_behind {s : ParserState} (behind : BehindHost s) (ch : UInt8) :
    parseUrlChar s ch = .dead ∨ BehindHost (parseUrlChar s ch) := by
  rcases behind with rfl | rfl | rfl | rfl | rfl <;> simp only [parseUrlChar] <;> (repeat' split) <;> simp [BehindHost]

theorem parseUrlChar_nul (s : ParserState) : parseUrlChar s 0 = .dead := by
  cases s <;> rfl

/-- No NUL is accepted. -/
theorem urlLoop_nul {text : Bytes} {p : Nat} {s : ParserState} {old : Option UrlField} {foundAt foundAt' : Bool}
    (ran : urlLoop text p s old foundAt u = some (foundAt', u')) : ∀ c ∈ text, c ≠ 0 := by
  induction text generalizing p s old foundAt u with
  | nil => exact fun c member => absurd member List.not_mem_nil
  | cons ch rest ih =>
    rintro c member rfl
    simp only [urlLoop] at ran
    rcases List.mem_cons.mp member with rfl | later
    · rw [parseUrlChar_nul] at ran
      cases ran
    · split at ran
      · cases ran
      · exact ih ran 0 later rfl
      · split at ran <;> exact ih ran 0 later rfl

/-- What a state behind the host finds is a path, a query or a fragment. -/
theorem urlCharOf_behind {s : ParserState} (behind : BehindHost s) :
    urlCharOf s = .delimiter ∨ ∃ uf, urlCharOf s = .part uf ∧ (uf = .path ∨ uf = .query ∨ uf = .fragment) := by
  rcases behind with rfl | rfl | rfl | rfl | rfl <;> simp [urlCharOf]

/-- Behind the host, the scheme and the host stay as they are. -/
theorem urlLoop_behind {text : Bytes} {p : Nat} {s : ParserState} {old : Option UrlField} {foundAt foundAt' : Bool}
    (behind : BehindHost s) (ran : urlLoop text p s old foundAt u = some (foundAt', u')) :
    u'.has .host = u.has .host ∧ u'.schema = u.schema ∧ u'.host = u.host := by
  induction text generalizing p s old foundAt u with
  | nil =>
    cases ran
    exact ⟨rfl, rfl, rfl⟩
  | cons ch rest ih =>
    simp only [urlLoop] at ran
    rcases parseUrlChar_behind behind ch with dead | behind
    · rw [dead] at ran
      cases ran
    · rcases urlCharOf_behind behind with delimiter | ⟨uf, part, which⟩
      · rw [delimiter] at ran
        exact ih behind ran
      · rw [part] at ran
        dsimp only at ran
        split at ran
        · obtain ⟨host, schema, data⟩ := ih behind ran
          rw [host, schema, data, grow_has]
          rcases which with rfl | rfl | rfl <;> exact ⟨rfl, rfl, rfl⟩
        · obtain ⟨host, schema, data⟩ := ih behind ran
          rw [host, schema, data, begin_has]
          rcases which with rfl | rfl | rfl <;> exact ⟨by simp, rfl, rfl⟩

/-- A URL that begins with a scheme has a host, and any other one has a path and none. -/
theorem urlLoop_first {foundAt : Bool} (some_bytes : token ≠ [])
    (looped : urlLoop token 0 .reqSpacesBeforeUrl none false {} = some (foundAt, u)) :
    (isAlpha (token.head some_bytes) = true ∧ u.has .schema = true) ∨ (u.has .path = true ∧ u.has .host = false) := by
  cases token with
  | nil => exact absurd rfl some_bytes
  | cons ch rest =>
    simp only [urlLoop] at looped
    have first : parseUrlChar .reqSpacesBeforeUrl ch = .dead ∨ parseUrlChar .reqSpacesBeforeUrl ch = .reqPath ∨
        (isAlpha ch = true ∧ parseUrlChar .reqSpacesBeforeUrl ch = .reqSchema) := by
      simp only [parseUrlChar]
      (repeat' split) <;> simp_all
    rcases first with dead | path | ⟨alpha, schema⟩
    · rw [dead] at looped
      cases looped
    · rw [path] at looped
      right
      refine ⟨(kept_has .path).urlLoop looped (by rw [begin_has]; simp), ?_⟩
      exact (urlLoop_behind (Or.inl rfl) looped).1
    · rw [schema] at looped
      exact Or.inl ⟨alpha, (kept_has .schema).urlLoop looped (by rw [begin_has]; simp)⟩

/-- The host is found in the first stage, or not at all. -/
theorem stages_host {foundAt : Bool} {u₁ u₂ : HttpParserUrl}
    (hosted : (if u₁.has .host then parseHost token u₁ foundAt else some u₁) = some u₂)
    (ported : readPort token u₂ = some u) : u.has .host = u₁.has .host := by
  cases host : u₁.has .host with
  | true => exact (kept_has .host).stages host hosted ported
  | false =>
    rw [host] at hosted
    cases hosted
    unfold readPort at ported
    split at ported
    · obtain ⟨v, -, rfl⟩ := Option.map_eq_some_iff.mp ported
      exact host
    · cases ported
      exact host

/-- A URL with a host begins with a letter. -/
theorem host_alpha (parsed : parseUrl token false = some u) (host : u.has .host = true) :
    ∃ c rest, token = c :: rest ∧ isAlpha c = true := by
  obtain ⟨foundAt, u₁, u₂, looped, -, hosted, ported⟩ := parseUrl_stages parsed
  rw [stages_host hosted ported] at host
  cases token with
  | nil =>
    cases looped
    cases host
  | cons c rest =>
    rcases urlLoop_first (List.cons_ne_nil c rest) looped with ⟨alpha, -⟩ | ⟨-, none⟩
    · exact ⟨c, rest, rfl, alpha⟩
    · rw [none] at host
      cases host

/-- A URL without a host is a path, if it is anything. -/
theorem path_of_no_host (parsed : parseUrl token false = some u) (none : u.has .host = false) (some_bytes : token ≠ []) :
    u.has .path = true := by
  obtain ⟨foundAt, u₁, u₂, looped, both, hosted, ported⟩ := parseUrl_stages parsed
  rw [stages_host hosted ported] at none
  rcases urlLoop_first some_bytes looped with ⟨-, schema⟩ | ⟨path, -⟩
  · rw [both schema] at none
    cases none
  · exact (kept_has .path).stages path hosted ported

theorem drop_no_nul (parsed : parseUrl token false = some u) (n : Nat) :
    (token.drop n).takeWhile (fun c => c ≠ 0) = token.drop n := by
  obtain ⟨foundAt, u₁, u₂, looped, -⟩ := parseUrl_stages parsed
  refine List.takeWhile_eq_self_iff.mpr fun c member => ?_
  exact decide_eq_true (urlLoop_nul looped c (List.mem_of_mem_drop member))

/-! ## Where the components are -/

/-- The scheme, the user information and the host end in front of a position. -/
structure Ends (q : Nat) (u : HttpParserUrl) : Prop where
  schema : u.schema.off + u.schema.len ≤ q
  userinfo : u.userinfo.off + u.userinfo.len ≤ q
  host : u.host.off + u.host.len ≤ q

/-- The path begins at a position or behind it, and so does the mark in front of the query
or the fragment. -/
structure Begins (q : Nat) (u : HttpParserUrl) : Prop where
  path : u.has .path = true → q ≤ u.path.off
  query : u.has .query = true → q < u.query.off
  fragment : u.has .fragment = true → q < u.fragment.off

theorem Ends.mono {p q : Nat} (ends : Ends p u) (le : p ≤ q) : Ends q u :=
  ⟨ends.schema.trans le, ends.userinfo.trans le, ends.host.trans le⟩

/-- One more byte of the scheme, the user information or the host. -/
theorem Ends.grow {p : Nat} (ends : Ends p u) (uf : UrlField) : Ends (p + 1) (u.grow uf) := by
  obtain ⟨schema, userinfo, host⟩ := ends
  have small : ∀ n, (n + 1) % 2 ^ 16 ≤ n + 1 := fun n => Nat.mod_le _ _
  have len₁ := small u.schema.len
  have len₂ := small u.userinfo.len
  have len₃ := small u.host.len
  cases uf <;> constructor <;> simp only [HttpParserUrl.grow, HttpParserUrl.setData, HttpParserUrl.fieldData] <;> omega

theorem Ends.begin {p n : Nat} (ends : Ends p u) (uf : UrlField) (fits : n ≤ 1) : Ends (p + n) (u.begin uf p n) := by
  obtain ⟨schema, userinfo, host⟩ := ends
  have small := Nat.mod_le p (2 ^ 16)
  cases uf <;> constructor <;> simp only [HttpParserUrl.begin, HttpParserUrl.setData] <;> omega

theorem urlLoop_begins {text : Bytes} {p q : Nat} {s : ParserState} {old : Option UrlField} {foundAt foundAt' : Bool}
    (behind : BehindHost s) (ran : urlLoop text p s old foundAt u = some (foundAt', u')) (passed : q < p)
    (short : p + text.length < 2 ^ 16) (ends : Ends q u) (begins : Begins q u) : Ends q u' ∧ Begins q u' := by
  induction text generalizing p s old foundAt u with
  | nil =>
    cases ran
    exact ⟨ends, begins⟩
  | cons ch rest ih =>
    simp only [List.length_cons] at short
    simp only [urlLoop] at ran
    rcases parseUrlChar_behind behind ch with dead | behind
    · rw [dead] at ran
      cases ran
    · rcases urlCharOf_behind behind with delimiter | ⟨uf, part, which⟩
      · rw [delimiter] at ran
        exact ih behind ran (by omega) (by omega) ends begins
      · rw [part] at ran
        dsimp only at ran
        have here : p % 2 ^ 16 = p := Nat.mod_eq_of_lt (by omega)
        split at ran
        · refine ih behind ran (by omega) (by omega) ?_ ?_
          · rcases which with rfl | rfl | rfl <;> exact ⟨ends.schema, ends.userinfo, ends.host⟩
          · refine ⟨?_, ?_, ?_⟩ <;> rw [grow_has] <;> rcases which with rfl | rfl | rfl <;>
              first | exact begins.path | exact begins.query | exact begins.fragment
        · refine ih behind ran (by omega) (by omega) ?_ ?_
          · rcases which with rfl | rfl | rfl <;> exact ⟨ends.schema, ends.userinfo, ends.host⟩
          · refine ⟨?_, ?_, ?_⟩ <;> rw [begin_has] <;> rcases which with rfl | rfl | rfl <;>
              simp only [HttpParserUrl.begin, HttpParserUrl.setData, here, reduceCtorEq, decide_false, Bool.or_false] <;>
              first | exact begins.path | exact begins.query | exact begins.fragment | (intro _; omega)

theorem urlCharOf_front {s : ParserState} (front : ¬BehindHost s) :
    urlCharOf s = .dead ∨ urlCharOf s = .delimiter ∨ ∃ uf, urlCharOf s = .part uf ∧ (uf = .schema ∨ uf = .host) := by
  revert front
  cases s <;> simp [urlCharOf, BehindHost]

theorem parseUrlChar_enters {s : ParserState} {ch : UInt8} (front : ¬BehindHost s) (behind : BehindHost (parseUrlChar s ch)) :
    parseUrlChar s ch = .reqPath ∨ parseUrlChar s ch = .reqQueryStringStart := by
  revert front behind
  cases s <;> simp only [parseUrlChar] <;> (repeat' split) <;> simp [BehindHost]

/-- There is a position that the path, the query and the fragment lie behind, and the
scheme and the host in front of. -/
theorem urlLoop_position {text : Bytes} {p : Nat} {s : ParserState} {old : Option UrlField} {foundAt foundAt' : Bool}
    (front : ¬BehindHost s) (ran : urlLoop text p s old foundAt u = some (foundAt', u'))
    (short : p + text.length < 2 ^ 16) (ends : Ends p u)
    (none : u.has .path = false ∧ u.has .query = false ∧ u.has .fragment = false)
    (before : ∀ uf ∈ old, uf = .schema ∨ uf = .host) :
    ∃ q, q ≤ p + text.length ∧ Ends q u' ∧ Begins q u' := by
  induction text generalizing p s old foundAt u with
  | nil =>
    cases ran
    exact ⟨p, Nat.le_refl _, ends, by simp [none], by simp [none], by simp [none]⟩
  | cons ch rest ih =>
    simp only [List.length_cons] at short ⊢
    by_cases behind : BehindHost (parseUrlChar s ch)
    · -- from here on everything lies behind
      refine ⟨p, by omega, ?_⟩
      simp only [urlLoop] at ran
      rcases parseUrlChar_enters front behind with path | query
      · rw [path] at ran
        have other : old ≠ some .path := fun same => by simpa using before _ same
        simp only [urlCharOf, if_neg other] at ran
        refine urlLoop_begins (Or.inl rfl) ran (by omega) (by omega) ⟨ends.schema, ends.userinfo, ends.host⟩ ⟨?_, ?_, ?_⟩
        · exact fun _ => Nat.le_of_eq (Nat.mod_eq_of_lt (by omega)).symm
        · simp [begin_has, none]
        · simp [begin_has, none]
      · rw [query] at ran
        exact urlLoop_begins (query ▸ behind) ran (by omega) (by omega) ends ⟨by simp [none], by simp [none], by simp [none]⟩
    · simp only [urlLoop] at ran
      rcases urlCharOf_front behind with dead | delimiter | ⟨uf, part, which⟩
      · rw [dead] at ran
        cases ran
      · rw [delimiter] at ran
        obtain ⟨q, le, placed⟩ := ih behind ran (by omega) (ends.mono (by omega)) none before
        exact ⟨q, by omega, placed⟩
      · rw [part] at ran
        dsimp only at ran
        split at ran
        · obtain ⟨q, le, placed⟩ := ih behind ran (by omega) (ends.grow uf) (by simpa only [grow_has] using none) before
          exact ⟨q, by omega, placed⟩
        · obtain ⟨q, le, placed⟩ := ih behind ran (by omega) (ends.begin uf (Nat.le_refl 1))
            (by rcases which with rfl | rfl <;> simpa [begin_has] using none) (fun _ same => Option.mem_some.mp same ▸ which)
          exact ⟨q, by omega, placed⟩

/-- The states in front of the host itself. -/
def Early (s : HostState) : Prop := s = .userinfoStart ∨ s = .userinfo ∨ s = .hostStart ∨ s = .hostV6Start

theorem parseHostChar_early {s : HostState} {ch : UInt8} :
    (Early (parseHostChar s ch) → Early s) ∧ (parseHostChar s ch = .host → s = .host ∨ Early s) ∧
      (parseHostChar s ch = .hostV6 → s = .hostV6 ∨ Early s) := by
  cases s <;> simp only [parseHostChar] <;> (repeat' split) <;> simp [Early]

/-- How far the user information and the host reach while the host is read. -/
structure Reads (p : Nat) (s : HostState) (u : HttpParserUrl) : Prop where
  userinfo : u.userinfo.off + u.userinfo.len ≤ p
  host : u.host.off + u.host.len ≤ p
  early : Early s → u.host.len = 0

theorem hostChar_reads {s : HostState} {ch : UInt8} {p : Nat} (reads : Reads p s u) :
    Reads (p + 1) (parseHostChar s ch) (hostChar s (parseHostChar s ch) p u) := by
  obtain ⟨userinfo, host, early⟩ := reads
  obtain ⟨before, to_host, to_v6⟩ := @parseHostChar_early s ch
  have small := Nat.mod_le p (2 ^ 16)
  have one_more : ∀ n, (n + 1) % 2 ^ 16 ≤ n + 1 := fun n => Nat.mod_le _ _
  have len := one_more u.host.len
  have len' := one_more u.userinfo.len
  cases new : parseHostChar s ch <;> rw [new] at before to_host to_v6 <;> simp only [hostChar]
  case host | hostV6 =>
    refine ⟨?_, ?_, fun e => absurd e (by simp [Early])⟩ <;> split <;>
      simp only [HttpParserUrl.grow, HttpParserUrl.setData, HttpParserUrl.fieldData] <;> first | omega | skip
    next other =>
    have := early ((by first | exact to_host rfl | exact to_v6 rfl : _ ∨ Early s).resolve_left other)
    omega
  case userinfo =>
    refine ⟨?_, ?_, fun _ => ?_⟩ <;> split <;>
      simp only [HttpParserUrl.grow, HttpParserUrl.begin, HttpParserUrl.setData, HttpParserUrl.fieldData] <;>
      first | omega | exact early (before (by simp [Early]))
  case hostPort =>
    refine ⟨?_, ?_, fun e => absurd e (by simp [Early])⟩ <;> split <;>
      simp only [HttpParserUrl.grow, HttpParserUrl.begin, HttpParserUrl.setData, HttpParserUrl.fieldData] <;> omega
  case hostV6Zone | hostV6ZoneStart =>
    refine ⟨?_, ?_, fun e => absurd e (by simp [Early])⟩ <;>
      simp only [HttpParserUrl.grow, HttpParserUrl.setData, HttpParserUrl.fieldData] <;> omega
  all_goals exact ⟨by omega, by omega, fun e => early (before e)⟩

/-- It leaves the other components alone. -/
theorem hostChar_frame (s new : HostState) (p : Nat) {uf : UrlField}
    (other : uf = .schema ∨ uf = .path ∨ uf = .query ∨ uf = .fragment) :
    (hostChar s new p u).has uf = u.has uf ∧ (hostChar s new p u).fieldData uf = u.fieldData uf := by
  rcases other with rfl | rfl | rfl | rfl <;> cases new <;> simp only [hostChar] <;> (try split) <;>
    refine ⟨?_, ?_⟩ <;> first | trivial | simp [grow_has, begin_has]

theorem hostLoop_reads {text : Bytes} {p q : Nat} {s s' : HostState} (ran : hostLoop text p s u = some (s', u'))
    (fits : p + text.length ≤ q) (reads : Reads p s u) : Reads q s' u' := by
  induction text generalizing p s u with
  | nil =>
    cases ran
    exact ⟨reads.userinfo.trans fits, reads.host.trans fits, reads.early⟩
  | cons ch rest ih =>
    simp only [List.length_cons] at fits
    simp only [hostLoop] at ran
    split at ran
    · cases ran
    · exact ih ran (by omega) (hostChar_reads reads)

theorem hostLoop_frame {text : Bytes} {p : Nat} {s s' : HostState} (ran : hostLoop text p s u = some (s', u')) (uf : UrlField)
    (other : uf = .schema ∨ uf = .path ∨ uf = .query ∨ uf = .fragment) :
    u'.has uf = u.has uf ∧ u'.fieldData uf = u.fieldData uf := by
  induction text generalizing p s u with
  | nil =>
    cases ran
    exact ⟨rfl, rfl⟩
  | cons ch rest ih =>
    simp only [hostLoop] at ran
    split at ran
    · cases ran
    · obtain ⟨has, data⟩ := ih ran
      obtain ⟨has', data'⟩ := @hostChar_frame u s (parseHostChar s ch) p uf other
      exact ⟨has.trans has', data.trans data'⟩

/-- The host is read again, for its parts, and they lie where it was found. -/
theorem parseHost_placed {foundAt : Bool} {q : Nat} (parsed : parseHost token u foundAt = some u') (ends : Ends q u)
    (begins : Begins q u) (fresh : u.userinfo = {}) : Ends q u' ∧ Begins q u' := by
  simp only [parseHost] at parsed
  split at parsed
  · next s u₁ ran =>
    split at parsed
    · cases parsed
      have fits : u.host.off + (u.text .host token).length ≤ q :=
        (Nat.add_le_add_left (List.length_take_le _ _) _).trans ends.host
      have reads := hostLoop_reads ran fits ⟨by simp [fresh], by simp, fun _ => rfl⟩
      have frame := hostLoop_frame ran
      have schema : u'.schema = u.schema := (frame .schema (by simp)).2
      have path : u'.has .path = u.has .path ∧ u'.path = u.path := frame .path (by simp)
      have query : u'.has .query = u.has .query ∧ u'.query = u.query := frame .query (by simp)
      have fragment : u'.has .fragment = u.has .fragment ∧ u'.fragment = u.fragment := frame .fragment (by simp)
      refine ⟨⟨by rw [schema]; exact ends.schema, reads.userinfo, reads.host⟩, ?_, ?_, ?_⟩
      · rw [path.1, path.2]
        exact begins.path
      · rw [query.1, query.2]
        exact begins.query
      · rw [fragment.1, fragment.2]
        exact begins.fragment
    · cases parsed
  · cases parsed

/-- No user information is found before the host is read. -/
theorem urlLoop_userinfo {text : Bytes} {p : Nat} {s : ParserState} {old : Option UrlField} {foundAt foundAt' : Bool}
    (ran : urlLoop text p s old foundAt u = some (foundAt', u')) : u'.userinfo = u.userinfo := by
  induction text generalizing p s old foundAt u with
  | nil =>
    cases ran
    rfl
  | cons ch rest ih =>
    simp only [urlLoop] at ran
    have which : ∀ {uf}, urlCharOf (parseUrlChar s ch) = .part uf → uf ≠ .userinfo := by
      rintro _ part rfl
      revert part
      cases parseUrlChar s ch <;> simp [urlCharOf]
    split at ran
    · cases ran
    · exact ih ran
    · next uf part =>
      have other := which part
      split at ran <;> rw [ih ran] <;> cases uf <;> first | rfl | exact absurd rfl other

/-- What `OnUrl` should leave of a URL lies behind the scheme, the user information and the
host, as long as the offsets fit their 16 bits. -/
theorem fromPath_behind (parsed : parseUrl token false = some u) (short : token.length < 2 ^ 16) :
    ∃ n, Ends n u ∧ (fromPath u token = token.drop n ∨ fromPath u token = byte '/' :: token.drop n) := by
  obtain ⟨foundAt, u₁, u₂, looped, -, hosted, ported⟩ := parseUrl_stages parsed
  obtain ⟨q, le, ends, begins⟩ := urlLoop_position (by simp [BehindHost]) looped (by omega)
    ⟨Nat.le_refl 0, Nat.le_refl 0, Nat.le_refl 0⟩ ⟨rfl, rfl, rfl⟩ nofun
  have placed : Ends q u₂ ∧ Begins q u₂ := by
    split at hosted
    · exact parseHost_placed hosted ends begins (urlLoop_userinfo looped)
    · cases hosted
      exact ⟨ends, begins⟩
  have placed : Ends q u ∧ Begins q u := by
    unfold readPort at ported
    split at ported
    · obtain ⟨v, -, rfl⟩ := Option.map_eq_some_iff.mp ported
      exact ⟨⟨placed.1.schema, placed.1.userinfo, placed.1.host⟩, placed.2.path, placed.2.query, placed.2.fragment⟩
    · cases ported
      exact placed
  obtain ⟨ends, begins⟩ := placed
  unfold fromPath
  split
  · next path => exact ⟨u.path.off, ends.mono (begins.path path), Or.inl rfl⟩
  · split
    · next query => exact ⟨u.query.off - 1, ends.mono (by have := begins.query query; omega), Or.inr rfl⟩
    · split
      · next fragment => exact ⟨u.fragment.off - 1, ends.mono (by have := begins.fragment fragment; omega), Or.inr rfl⟩
      · exact ⟨token.length, ends.mono (by omega), Or.inr (by rw [List.drop_length])⟩

/-! ## The callback -/

/-- A component behind the host, of which there is a bit from `UF_PATH` on. -/
def Follows (u : HttpParserUrl) : Prop := u.has .query ∨ u.has .fragment ∨ u.has .userinfo

theorem hasFrom_path (small : u.fieldSet < 2 ^ 7) : u.hasFrom .path = true ↔ u.has .path ∨ Follows u := by
  rw [hasFrom_iff small]
  refine ⟨fun ⟨later, le, has⟩ => ?_, ?_⟩
  · cases later <;> first | exact absurd le (by decide) | simp [Follows, has]
  · rintro (has | has | has | has) <;> exact ⟨_, by decide, has⟩

theorem hasFrom_port (small : u.fieldSet < 2 ^ 7) : u.hasFrom .port = true ↔ u.has .port ∨ u.has .path ∨ Follows u := by
  rw [hasFrom_iff small]
  refine ⟨fun ⟨later, le, has⟩ => ?_, ?_⟩
  · cases later <;> first | exact absurd le (by decide) | simp [Follows, has]
  · rintro (has | has | has | has | has) <;> exact ⟨_, by decide, has⟩

theorem alpha_not_slash {c : UInt8} (alpha : isAlpha c = true) : c ≠ byte '/' := by
  rintro rfl
  cases alpha

/-- Where the path is missing, all of the URL is taken for it when anything else follows. -/
theorem newUrl_eq_iff (parsed : parseUrl token false = some u) (host : u.has .host = true) :
    newUrl u token = fromPath u token ↔ u.has .path ∨ ¬Follows u := by
  have from_path := hasFrom_path (parsed_small parsed)
  unfold newUrl
  rw [drop_no_nul parsed]
  by_cases path : u.has .path = true
  · rw [if_pos (from_path.mpr (Or.inl path)), fromPath, if_pos path]
    simp [path]
  have none : u.has .path = false := Bool.eq_false_iff.mpr path
  by_cases follows : Follows u
  · rw [if_pos (from_path.mpr (Or.inr follows)), parsed_path parsed none, List.drop_zero]
    refine iff_of_false (fun same => ?_) (by simp [path, follows])
    obtain ⟨c, rest, rfl, alpha⟩ := host_alpha parsed host
    have slash : ∃ tail, fromPath u (c :: rest) = byte '/' :: tail := by
      unfold fromPath
      rw [if_neg path]
      split
      · exact ⟨_, rfl⟩
      · split <;> exact ⟨_, rfl⟩
    obtain ⟨tail, slash⟩ := slash
    rw [slash] at same
    exact alpha_not_slash alpha (List.cons.inj same).1
  · rw [if_neg fun set => (from_path.mp set).elim path follows]
    refine iff_of_true ?_ (Or.inr follows)
    unfold Follows at follows
    simp only [not_or] at follows
    rw [fromPath, if_neg path, if_neg follows.1, if_neg follows.2.1]
    rfl

/-- An https URL goes to port 80 when its port is zero or missing and anything follows. -/
theorem portOf_eq_iff (parsed : parseUrl token false = some u) (host : u.has .host = true) :
    portOf u token = givenPort u token ↔
      u.port ≠ 0 ∨ ¬iequals (ascii "https") (u.text .schema token) ∨ ¬(u.has .port ∨ u.has .path ∨ Follows u) := by
  have small := parsed_small parsed
  have from_port := hasFrom_port small
  have schema : u.hasFrom .schema = true := (hasFrom_iff small).mpr ⟨.host, by decide, host⟩
  unfold portOf givenPort
  by_cases given : u.port ≠ 0
  · have port : u.has .port = true := by_contra fun none => given (parseUrl_port parsed (by simpa using none))
    simp [given, port, from_port]
  · have zero : u.port = 0 := not_not.mp given
    by_cases https : iequals (ascii "https") (u.text .schema token) = true
    · by_cases behind : u.has .port ∨ u.has .path ∨ Follows u
      · simp [zero, https, from_port.mpr behind, behind]
      · have no : ¬u.hasFrom .port = true := fun set => behind (from_port.mp set)
        simp [zero, https, no, behind, schema]
    · simp [zero, https, schema]

/-- `OnUrl` takes the endpoint out of the first URL, and leaves the rest of it, exactly
when the URL is plain. -/
theorem first_url_taken_iff (text : AddressText) (f : HttpServerDataFlow) (first : f.readingFirstHeader = true)
    (parsed : parseUrl token false = some u) : Taken text f token u ↔ Plain token u := by
  have small := parsed_small parsed
  unfold Taken Plain
  by_cases host : u.has .host = true
  · have called : f.onPlainUrl text token = (true, some (newUrl u token),
        { f with endpoint := some (.ofHost text (u.text .host token) (portOf u token)) }) := by
      have set := hasFrom_of_has host
      simp [onPlainUrl, parsed, first, set]
    have port_of : ∀ a b, Endpoint.ofHost text (u.text .host token) a = Endpoint.ofHost text (u.text .host token) b ↔ a = b := by
      intro a b
      unfold Endpoint.ofHost
      split <;> simp
    rw [if_pos host, if_pos host, called]
    simp only [Prod.mk.injEq, Option.some.injEq, true_and, HttpServerDataFlow.mk.injEq, port_of,
      newUrl_eq_iff parsed host, portOf_eq_iff parsed host]
    rfl
  · have none : u.has .host = false := Bool.eq_false_iff.mpr host
    rw [if_neg host, if_neg host]
    by_cases empty : token = []
    · refine iff_of_true ?_ empty
      subst empty
      unfold onPlainUrl
      rw [parsed]
      cases parsed
      simp [first, show HttpParserUrl.hasFrom {} .host = false from rfl]
    · refine iff_of_false (fun refused => ?_) empty
      have set : u.hasFrom .host = true :=
        (hasFrom_iff small).mpr ⟨.path, by decide, path_of_no_host parsed none empty⟩
      simp [onPlainUrl, parsed, first, set] at refused

theorem first_url_taken_port : ∃ u, parseUrl (ascii "http://u@a:8080/x?y#z") false = some u ∧
    Taken domains {} (ascii "http://u@a:8080/x?y#z") u :=
  ⟨_, rfl, (first_url_taken_iff domains {} rfl rfl).mpr (by decide +kernel)⟩

/-- An https URL with a path goes to port 80; credentials stay in a URL without a path; and
a URL without a host is no error. -/
theorem later_components_mistaken :
    (∃ u, parseUrl (ascii "https://a/x") false = some u ∧ ¬Taken domains {} (ascii "https://a/x") u) ∧
    (∃ u, parseUrl (ascii "http://u:p@a") false = some u ∧ ¬Taken domains {} (ascii "http://u:p@a") u) ∧
    ∃ u, parseUrl (ascii "/x") false = some u ∧ ¬Taken domains {} (ascii "/x") u := by
  refine ⟨⟨_, rfl, ?_⟩, ⟨_, rfl, ?_⟩, ⟨_, rfl, ?_⟩⟩
  · intro here
    have port := congrArg (fun r => r.2.2.endpoint.map Endpoint.port) here
    revert port
    decide +kernel
  · intro here
    have url := congrArg (fun r => r.2.1) here
    revert url
    decide +kernel
  · intro here
    revert here
    show ¬(_ = false)
    decide +kernel

end LibNekit.Guarantees.OriginForm
