import LibNekit.Source.ThirdParty.HttpParser.Types

/-!
# `http_parser_parse_url`

Offsets and lengths are `uint16_t` and wrap, as in `struct http_parser_url`.
`none` is a nonzero return. Its assertions are on what `parse_url_char` returns and
on a port inside the text, and are left out.
-/
namespace LibNekit.Source.HttpParser

/-- `enum http_parser_url_fields` -/
inductive UrlField where
  | schema | host | port | path | query | fragment | userinfo
  deriving DecidableEq, Repr

def UrlField.index : UrlField → Nat
  | .schema => 0 | .host => 1 | .port => 2 | .path => 3 | .query => 4 | .fragment => 5 | .userinfo => 6

/-- An element of `field_data`. -/
structure FieldData where
  off : Nat := 0
  len : Nat := 0
  deriving DecidableEq, Repr

/-- `struct http_parser_url` -/
structure HttpParserUrl where
  fieldSet : Nat := 0
  port : Nat := 0
  schema : FieldData := {}
  host : FieldData := {}
  portData : FieldData := {}
  path : FieldData := {}
  query : FieldData := {}
  fragment : FieldData := {}
  userinfo : FieldData := {}
  deriving DecidableEq, Repr

namespace HttpParserUrl

def fieldData (u : HttpParserUrl) : UrlField → FieldData
  | .schema => u.schema | .host => u.host | .port => u.portData | .path => u.path | .query => u.query
  | .fragment => u.fragment | .userinfo => u.userinfo

def setData (u : HttpParserUrl) (uf : UrlField) (data : FieldData) : HttpParserUrl :=
  match uf with
  | .schema => { u with schema := data }
  | .host => { u with host := data }
  | .port => { u with portData := data }
  | .path => { u with path := data }
  | .query => { u with query := data }
  | .fragment => { u with fragment := data }
  | .userinfo => { u with userinfo := data }

/-- `field_set & (1 << uf)` -/
def has (u : HttpParserUrl) (uf : UrlField) : Bool := u.fieldSet &&& 1 <<< uf.index ≠ 0

/-- `field_set >> uf`, which is not zero for any later field either. -/
def hasFrom (u : HttpParserUrl) (uf : UrlField) : Bool := u.fieldSet >>> uf.index ≠ 0

/-- `off` and `len` as they are set where a field begins, and the bit of `field_set`. -/
def begin (u : HttpParserUrl) (uf : UrlField) (p len : Nat) : HttpParserUrl :=
  let u := u.setData uf ⟨p % 2 ^ 16, len⟩
  { u with fieldSet := u.fieldSet ||| 1 <<< uf.index }

/-- `field_data[uf].len++` -/
def grow (u : HttpParserUrl) (uf : UrlField) : HttpParserUrl :=
  u.setData uf { u.fieldData uf with len := ((u.fieldData uf).len + 1) % 2 ^ 16 }

/-- `std::string{text + off, len}` -/
def text (u : HttpParserUrl) (uf : UrlField) (buf : Bytes) : Bytes :=
  (buf.drop (u.fieldData uf).off).take (u.fieldData uf).len

end HttpParserUrl

/-! ## The host -/

/-- `enum http_host_state` -/
inductive HostState where
  | dead | userinfoStart | userinfo | hostStart | hostV6Start | host | hostV6 | hostV6End
  | hostV6ZoneStart | hostV6Zone | hostPortStart | hostPort
  deriving DecidableEq, Repr

/-- `http_parse_host_char` -/
def parseHostChar (s : HostState) (ch : UInt8) : HostState :=
  let v6 : HostState :=
    if isHex ch ∨ ch = byte ':' ∨ ch = byte '.' then .hostV6
    else if s = .hostV6 ∧ ch = byte '%' then .hostV6ZoneStart
    else .dead
  let zone : HostState :=
    if isAlphanum ch ∨ ch = byte '%' ∨ ch = byte '.' ∨ ch = byte '-' ∨ ch = byte '_' ∨ ch = byte '~' then
      .hostV6Zone
    else .dead
  let colon : HostState := if ch = byte ':' then .hostPortStart else .dead
  match s with
  | .userinfo | .userinfoStart =>
    if ch = byte '@' then .hostStart else if isUserinfoChar ch then .userinfo else .dead
  | .hostStart => if ch = byte '[' then .hostV6Start else if isHostChar ch then .host else .dead
  | .host => if isHostChar ch then .host else colon
  | .hostV6End => colon
  | .hostV6 => if ch = byte ']' then .hostV6End else v6
  | .hostV6Start => v6
  | .hostV6Zone => if ch = byte ']' then .hostV6End else zone
  | .hostV6ZoneStart => zone
  | .hostPort | .hostPortStart => if isNum ch then .hostPort else .dead
  | .dead => .dead

/-- The second `switch` in the loop of `http_parse_host`, at `buf[p]`. -/
def hostChar (s new : HostState) (p : Nat) (u : HttpParserUrl) : HttpParserUrl :=
  match new with
  | .host => (if s ≠ .host then { u with host.off := p % 2 ^ 16 } else u).grow .host
  | .hostV6 => (if s ≠ .hostV6 then { u with host.off := p % 2 ^ 16 } else u).grow .host
  | .hostV6ZoneStart | .hostV6Zone => u.grow .host
  | .hostPort => (if s ≠ .hostPort then u.begin .port p 0 else u).grow .port
  | .userinfo => (if s ≠ .userinfo then u.begin .userinfo p 0 else u).grow .userinfo
  | _ => u

/-- The loop of `http_parse_host`. -/
def hostLoop : Bytes → Nat → HostState → HttpParserUrl → Option (HostState × HttpParserUrl)
  | [], _, s, u => some (s, u)
  | ch :: rest, p, s, u =>
    let new := parseHostChar s ch
    if new = .dead then none else hostLoop rest (p + 1) new (hostChar s new p u)

/-- The states that a host may end in. -/
def HostState.mayEnd : HostState → Bool
  | .host | .hostV6End | .hostPort | .dead => true
  | _ => false

/-- `http_parse_host` -/
def parseHost (buf : Bytes) (u : HttpParserUrl) (foundAt : Bool) : Option HttpParserUrl :=
  let off := u.host.off
  let text := u.text .host buf
  match hostLoop text off (if foundAt then .userinfoStart else .hostStart) { u with host.len := 0 } with
  | some (s, u) => if s.mayEnd then some u else none
  | none => none

/-! ## The URL -/

/-- The first `switch` in the loop of `http_parser_parse_url`. -/
inductive UrlChar where
  | dead | delimiter
  | part (uf : UrlField)
  deriving DecidableEq, Repr

def urlCharOf : ParserState → UrlChar
  | .reqSchemaSlash | .reqSchemaSlashSlash | .reqServerStart | .reqQueryStringStart | .reqFragmentStart => .delimiter
  | .reqSchema => .part .schema
  | .reqServerWithAt | .reqServer => .part .host
  | .reqPath => .part .path
  | .reqQueryString => .part .query
  | .reqFragment => .part .fragment
  | _ => .dead

/-- The loop of `http_parser_parse_url`, which also says whether it found an `@`. -/
def urlLoop : Bytes → Nat → ParserState → Option UrlField → Bool → HttpParserUrl → Option (Bool × HttpParserUrl)
  | [], _, _, _, foundAt, u => some (foundAt, u)
  | ch :: rest, p, s, old, foundAt, u =>
    let s := parseUrlChar s ch
    match urlCharOf s with
    | .dead => none
    | .delimiter => urlLoop rest (p + 1) s old foundAt u
    | .part uf =>
      let foundAt := foundAt || s = .reqServerWithAt
      if old = some uf then urlLoop rest (p + 1) s old foundAt (u.grow uf)
      else urlLoop rest (p + 1) s (some uf) foundAt (u.begin uf p 1)

/-- `v *= 10; v += *p - '0'` up to `end`. What is below zero is far too large as an
`unsigned long`. -/
def portLoop : Bytes → Int → Option Int
  | [], v => some v
  | ch :: rest, v =>
    let v := v * 10 + (ch.toNat - 48)
    if v < 0 ∨ 0xffff < v then none else portLoop rest v

/-- The end of `http_parser_parse_url`. -/
def readPort (buf : Bytes) (u : HttpParserUrl) : Option HttpParserUrl :=
  if u.has .port then (portLoop (u.text .port buf) 0).map fun v => { u with port := v.toNat } else some u

/-- `http_parser_parse_url` on a URL that `http_parser_url_init` has cleared. -/
def parseUrl (buf : Bytes) (isConnect : Bool) : Option HttpParserUrl :=
  match urlLoop buf 0 (if isConnect then .reqServerStart else .reqSpacesBeforeUrl) none false {} with
  | none => none
  | some (foundAt, u) =>
    if u.has .schema ∧ ¬u.has .host then none
    else
      match if u.has .host then parseHost buf u foundAt else some u with
      | none => none
      | some u =>
        if isConnect ∧ u.fieldSet ≠ 1 <<< UrlField.host.index ||| 1 <<< UrlField.port.index then none
        else readPort buf u

example : (parseUrl (ascii "http://a.b:8080/c?d") false).map (fun u =>
    (u.text .host (ascii "http://a.b:8080/c?d"), u.port)) = some (ascii "a.b", 8080) := by decide

end LibNekit.Source.HttpParser
