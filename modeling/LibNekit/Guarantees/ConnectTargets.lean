import LibNekit.Source.DataFlow.HttpDataFlow
import LibNekit.Source.DataFlow.HttpServerDataFlow

/-!
# The target of a CONNECT request

`HttpDataFlow` writes a target as the host, a colon and the port in decimals, and
`http_parser_parse_url` finds the same host and the same port in it.
-/
namespace LibNekit.Guarantees.ConnectTargets

open LibNekit.Source LibNekit.Source.HttpParser LibNekit.Library

/-! ## The characters of a request -/

/-- What holds of every byte is checked on all of them. -/
theorem of_bytes {p : UInt8 → Prop} [DecidablePred p]
    (all : (List.range 256).all (fun n => decide (p (UInt8.ofNat n))) = true) (c : UInt8) : p c := by
  have here := List.all_eq_true.mp all c.toNat (List.mem_range.mpr c.toNat_lt)
  rw [UInt8.ofNat_toNat] at here
  exact of_decide_eq_true here

/-- The characters of `host:port`. -/
def serverChar (c : UInt8) : Bool := isHostChar c || c == byte ':'

theorem serverChar_url (c : UInt8) : serverChar c = true →
    parseUrlChar .reqServerStart c = .reqServer ∧ parseUrlChar .reqServer c = .reqServer := by
  revert c
  exact of_bytes (by decide +kernel)

theorem hostChar_host (c : UInt8) : isHostChar c = true →
    parseHostChar .hostStart c = .host ∧ parseHostChar .host c = .host := by
  revert c
  exact of_bytes (by decide +kernel)

theorem isNum_host (c : UInt8) : isNum c = true →
    parseHostChar .hostPortStart c = .hostPort ∧ parseHostChar .hostPort c = .hostPort := by
  revert c
  exact of_bytes (by decide +kernel)

/-! ## Decimals -/

theorem decimal_eq (n : Nat) : HttpDataFlow.decimal n = (Nat.toDigits 10 n).map byte := by
  unfold HttpDataFlow.decimal ascii
  rw [Nat.toString_eq_repr, Nat.toList_repr]

theorem byte_digit {c : Char} (digit : c.isDigit = true) : isNum (byte c) = true ∧ (byte c).toNat = c.toNat := by
  have low : 48 ≤ c.toNat ∧ c.toNat ≤ 57 := by
    simp only [Char.isDigit, Bool.and_eq_true, decide_eq_true_eq] at digit
    exact ⟨digit.1, digit.2⟩
  have same : (byte c).toNat = c.toNat := by
    unfold byte
    simp only [UInt8.toNat_ofNat']
    omega
  refine ⟨?_, same⟩
  unfold isNum
  simp only [Bool.and_eq_true, decide_eq_true_eq, UInt8.le_iff_toNat_le, same]
  exact low

theorem decimal_digits (n : Nat) : ∀ c ∈ HttpDataFlow.decimal n, isNum c = true := by
  rw [decimal_eq]
  intro c member
  obtain ⟨d, there, rfl⟩ := List.mem_map.mp member
  exact (byte_digit (Nat.isDigit_of_mem_toDigits (by decide) (by decide) there)).1

/-- The port that is read is as large as the digits say, if that is no larger than a port. -/
theorem portLoop_digits {digits : List Char} {v : Nat} (all : ∀ c ∈ digits, c.isDigit = true)
    (small : Nat.ofDigitChars 10 digits v < 2 ^ 16) :
    portLoop (digits.map byte) v = some (Nat.ofDigitChars 10 digits v : Nat) := by
  induction digits generalizing v with
  | nil => rfl
  | cons d digits ih =>
    obtain ⟨first, all⟩ := List.forall_mem_cons.mp all
    rw [Nat.ofDigitChars_cons] at small ⊢
    have grows : 10 * v + (d.toNat - '0'.toNat) ≤ Nat.ofDigitChars 10 digits (10 * v + (d.toNat - '0'.toNat)) := by
      rw [Nat.ofDigitChars_eq_ofDigitChars_zero]
      have power : 0 < 10 ^ digits.length := Nat.pow_pos (by decide)
      exact (Nat.le_mul_of_pos_left _ power).trans (Nat.le_add_right _ _)
    have low : 48 ≤ d.toNat := by
      simp only [Char.isDigit, Bool.and_eq_true, decide_eq_true_eq] at first
      exact first.1
    have zero : '0'.toNat = 48 := rfl
    have value : (v : Int) * 10 + ((byte d).toNat - 48) = (10 * v + (d.toNat - '0'.toNat) : Nat) := by
      rw [(byte_digit first).2]
      omega
    rw [List.map_cons, portLoop, value, if_neg (by omega)]
    exact ih all small

theorem portLoop_decimal {n : Nat} (small : n < 2 ^ 16) : portLoop (HttpDataFlow.decimal n) 0 = some (n : Nat) := by
  have read := portLoop_digits (v := 0) (fun c => Nat.isDigit_of_mem_toDigits (b := 10) (n := n) (by decide) (by decide))
    (by rwa [Nat.ofDigitChars_ten_toDigits])
  rwa [Nat.ofDigitChars_ten_toDigits, ← decimal_eq] at read

/-! ## The target -/

section Target

variable {text host digits : Bytes} {p : Nat} {u : HttpParserUrl}

/-- A length that fits grows by one. -/
theorem grow_eq (uf : UrlField) (short : (u.fieldData uf).len + 1 < 2 ^ 16) :
    u.grow uf = u.setData uf { u.fieldData uf with len := (u.fieldData uf).len + 1 } := by
  unfold HttpParserUrl.grow
  rw [Nat.mod_eq_of_lt short]

theorem grow_host (short : u.host.len + 1 < 2 ^ 16) : u.grow .host = { u with host.len := u.host.len + 1 } :=
  grow_eq .host short

theorem grow_port (short : u.portData.len + 1 < 2 ^ 16) : u.grow .port = { u with portData.len := u.portData.len + 1 } :=
  grow_eq .port short

theorem urlLoop_server (all : ∀ c ∈ text, serverChar c = true) (short : u.host.len + text.length < 2 ^ 16) :
    urlLoop text p .reqServer (some .host) false u =
      some (false, { u with host.len := u.host.len + text.length }) := by
  induction text generalizing p u with
  | nil => rfl
  | cons c text ih =>
    obtain ⟨first, all⟩ := List.forall_mem_cons.mp all
    rw [List.length_cons] at short ⊢
    rw [urlLoop, (serverChar_url c first).2]
    simp only [urlCharOf]
    rw [if_pos trivial, grow_host (by omega)]
    have more := ih (p := p + 1) (u := { u with host.len := u.host.len + 1 }) all (by dsimp only; omega)
    rw [show (false || decide (ParserState.reqServer = .reqServerWithAt)) = false from rfl, more]
    dsimp only
    rw [Nat.add_right_comm, Nat.add_assoc]

theorem hostLoop_host (rest : Bytes) (all : ∀ c ∈ host, isHostChar c = true) (short : u.host.len + host.length < 2 ^ 16) :
    hostLoop (host ++ rest) p .host u =
      hostLoop rest (p + host.length) .host { u with host.len := u.host.len + host.length } := by
  induction host generalizing p u with
  | nil => rfl
  | cons c host ih =>
    obtain ⟨first, all⟩ := List.forall_mem_cons.mp all
    rw [List.length_cons] at short
    rw [List.cons_append, hostLoop, (hostChar_host c first).2]
    rw [if_neg (by decide)]
    simp only [hostChar]
    rw [if_neg (by decide), grow_host (by omega), ih all (by dsimp only; omega), List.length_cons]
    dsimp only
    rw [Nat.add_assoc, Nat.add_assoc, Nat.add_comm 1]

theorem hostLoop_digits (all : ∀ c ∈ digits, isNum c = true) (short : u.portData.len + digits.length < 2 ^ 16) :
    hostLoop digits p .hostPort u =
      some (.hostPort, { u with portData.len := u.portData.len + digits.length }) := by
  induction digits generalizing p u with
  | nil => rfl
  | cons c digits ih =>
    obtain ⟨first, all⟩ := List.forall_mem_cons.mp all
    rw [List.length_cons] at short ⊢
    rw [hostLoop, (isNum_host c first).2]
    rw [if_neg (by decide)]
    simp only [hostChar]
    rw [if_neg (by decide), grow_port (by omega), ih all (by dsimp only; omega)]
    dsimp only
    rw [Nat.add_right_comm, Nat.add_assoc]

end Target

/-- The target of a request: a host, a colon and a port. -/
def serverOf (host : Bytes) (port : Nat) : Bytes := host ++ ascii ":" ++ HttpDataFlow.decimal port

/-- What is found in it. -/
def serverUrl (host : Bytes) (port : Nat) : HttpParserUrl where
  fieldSet := 6
  port := port
  host := ⟨0, host.length⟩
  portData := ⟨host.length + 1, (HttpDataFlow.decimal port).length⟩

section Server

variable {host : Bytes} {port : Nat}

theorem decimal_ne_nil (n : Nat) : HttpDataFlow.decimal n ≠ [] := by
  rw [decimal_eq]
  exact fun none => Nat.toDigits_ne_nil (List.map_eq_nil_iff.mp none)

theorem serverOf_length (host : Bytes) (port : Nat) : (serverOf host port).length = host.length + 1 + (HttpDataFlow.decimal port).length := by
  unfold serverOf
  rw [List.length_append, List.length_append]
  rfl

theorem serverOf_chars (port : Nat) (all : ∀ c ∈ host, isHostChar c = true) : ∀ c ∈ serverOf host port, serverChar c = true := by
  intro c member
  unfold serverOf at member
  rw [List.mem_append, List.mem_append] at member
  unfold serverChar
  rcases member with (named | colon) | digit
  · rw [all c named]
    rfl
  · rw [List.mem_singleton.mp colon]
    rfl
  · have number := decimal_digits port c digit
    unfold isHostChar isAlphanum
    rw [number, Bool.or_true]
    rfl

theorem urlLoop_serverOf (some_host : host ≠ []) (all : ∀ c ∈ host, isHostChar c = true)
    (short : (serverOf host port).length < 2 ^ 16) :
    urlLoop (serverOf host port) 0 .reqServerStart none false {} =
      some (false, { fieldSet := 2, host := ⟨0, (serverOf host port).length⟩ }) := by
  have chars := serverOf_chars port all
  cases text : serverOf host port with
  | nil => exact absurd (List.append_eq_nil_iff.mp (List.append_eq_nil_iff.mp text).1).1 some_host
  | cons c rest =>
    rw [text] at chars short
    obtain ⟨first, chars⟩ := List.forall_mem_cons.mp chars
    rw [List.length_cons] at short
    rw [urlLoop, (serverChar_url c first).1]
    simp only [urlCharOf]
    rw [if_neg (by rintro ⟨⟩)]
    have begun : ({} : HttpParserUrl).begin .host 0 1 = { fieldSet := 2, host := ⟨0, 1⟩ } := rfl
    rw [begun, show (false || decide (ParserState.reqServer = .reqServerWithAt)) = false from rfl,
      urlLoop_server chars (by change 1 + rest.length < _; omega)]
    dsimp only
    rw [List.length_cons, Nat.add_comm 1]

theorem parseHost_serverOf (some_host : host ≠ []) (all : ∀ c ∈ host, isHostChar c = true)
    (short : (serverOf host port).length < 2 ^ 16) :
    parseHost (serverOf host port) { fieldSet := 2, host := ⟨0, (serverOf host port).length⟩ } false =
      some { serverUrl host port with port := 0 } := by
  have whole : HttpParserUrl.text { fieldSet := 2, host := ⟨0, (serverOf host port).length⟩ } .host (serverOf host port) =
      serverOf host port := List.take_length
  have length := serverOf_length host port
  have digits := decimal_digits port
  have ran : hostLoop (serverOf host port) 0 .hostStart { fieldSet := 2 } =
      some (.hostPort, { serverUrl host port with port := 0 }) := by
    cases host with
    | nil => exact absurd rfl some_host
    | cons c host =>
      obtain ⟨first, all⟩ := List.forall_mem_cons.mp all
      cases number : HttpDataFlow.decimal port with
      | nil => exact absurd number (decimal_ne_nil port)
      | cons d rest =>
        rw [number] at length digits
        obtain ⟨digit, digits⟩ := List.forall_mem_cons.mp digits
        rw [List.length_cons, List.length_cons] at length
        have split : serverOf (c :: host) port = c :: (host ++ byte ':' :: d :: rest) := by
          unfold serverOf
          rw [number, List.append_assoc]
          rfl
        have begun : ∀ u : HttpParserUrl, u.fieldSet = 2 → host.length + 2 < 2 ^ 16 →
            (u.begin .port (host.length + 2) 0).grow .port =
              { u with fieldSet := 6, portData := ⟨host.length + 2, 1⟩ } := by
          intro u only small
          unfold HttpParserUrl.begin HttpParserUrl.setData
          dsimp only
          rw [only, Nat.mod_eq_of_lt small]
          rfl
        rw [split, hostLoop, (hostChar_host c first).1, if_neg (by decide)]
        have one : hostChar .hostStart .host 0 { fieldSet := 2 } = { fieldSet := 2, host := ⟨0, 1⟩ } := rfl
        rw [one, hostLoop_host _ all (by change 1 + host.length < _; omega), hostLoop]
        have colon : parseHostChar .host (byte ':') = .hostPortStart := by decide
        rw [colon, if_neg (by decide), hostLoop, (isNum_host d digit).1, if_neg (by decide)]
        simp only [hostChar]
        rw [if_pos (by decide), show 0 + 1 + host.length + 1 = host.length + 2 by omega, begun _ rfl (by omega),
          hostLoop_digits digits (by change 1 + rest.length < _; omega)]
        unfold serverUrl
        rw [number]
        simp only [List.length_cons, Nat.add_comm 1]
  unfold parseHost
  dsimp only
  rw [whole]
  exact ran ▸ rfl

theorem parseUrl_serverOf (some_host : host ≠ []) (all : ∀ c ∈ host, isHostChar c = true) (small : port < 2 ^ 16)
    (short : (serverOf host port).length < 2 ^ 16) : parseUrl (serverOf host port) true = some (serverUrl host port) := by
  have text : HttpParserUrl.text { serverUrl host port with port := 0 } .port (serverOf host port) = HttpDataFlow.decimal port := by
    have before : host.length + 1 = (host ++ ascii ":").length := by
      rw [List.length_append]
      rfl
    change ((serverOf host port).drop (host.length + 1)).take _ = _
    unfold serverOf
    rw [before, List.drop_left]
    exact List.take_length
  unfold parseUrl
  rw [if_pos rfl, urlLoop_serverOf some_host all short]
  dsimp only
  have named : HttpParserUrl.has { fieldSet := 2, host := ⟨0, (serverOf host port).length⟩ } .host = true := by
    simp [HttpParserUrl.has, UrlField.index]
  rw [if_neg (not_and_not_right.mpr fun _ => named), if_pos named, parseHost_serverOf some_host all short]
  dsimp only
  rw [if_neg (by simp [serverUrl, UrlField.index])]
  unfold readPort
  rw [if_pos (by simp [HttpParserUrl.has, serverUrl, UrlField.index]), text, portLoop_decimal small]
  rfl

end Server

end LibNekit.Guarantees.ConnectTargets
