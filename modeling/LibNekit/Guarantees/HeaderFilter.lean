import LibNekit.Guarantees.StreamRuns
import LibNekit.Source.DataFlow.ServedClient
import LibNekit.Source.Rewriter.Deferring

/-!
# What HttpServerDataFlow makes of a client's requests

Whatever the pieces are in which a client's requests arrive, the tunnel gets them with the
targets cut to their paths, the lines of Proxy-Authorization taken out, and those of
Proxy-Connection renamed. There is one thing that may come between: `OnHeaderPair` reads
the current header again after it has deleted the line, and asserts if there are too few
bytes behind it.
-/
namespace LibNekit.Guarantees.HeaderFilter

open LibNekit.Source LibNekit.Source.Rewriter LibNekit.Source.HttpParser LibNekit.Source.HttpMessageStreamRewriter
  LibNekit.Library LibNekit.Canonical LibNekit.Guarantees.Fragmentation LibNekit.Guarantees.StreamRuns HttpServerDataFlow RewriterImpl

variable {text : AddressText}

/-! ## Requests as the tunnel gets them -/

/-- What the proxy was told, and nobody else is to know. -/
def isAuthorization (line : HeaderLine) : Bool := iequals line.name (ascii "Proxy-Authorization")

def isConnection (line : HeaderLine) : Bool := iequals line.name (ascii "Proxy-Connection")

def filteredLine (line : HeaderLine) : Bytes :=
  if isAuthorization line then []
  else if isConnection line then headerLine (ascii "Connection", line.value) ++ crlf
  else line.bytes

def filteredUrl (url : Bytes) : Bytes :=
  match parseUrl url false with
  | some u => newUrl u url
  | none => url

def filtered : Event → Bytes
  | .url url => filteredUrl url
  | .header line => filteredLine line
  | event => event.bytes

/-- No method is CONNECT, and a target is a URL, with a host in the first request. -/
def Proper (first : Bool) : Event → Prop
  | .method method => method ≠ ascii "CONNECT"
  | .url url => (parseUrl url false).any (fun u => !first || u.hasFrom .host) = true
  | _ => True

instance (first : Bool) (event : Event) : Decidable (Proper first event) := by
  unfold Proper
  split <;> infer_instance

/-- Every element of a stream is proper; `first` is about the request under way. -/
def AllProper : Bool → List Event → Prop
  | _, [] => True
  | first, event :: events => Proper first event ∧ AllProper (first && !completes event) events

instance decidableAllProper : (first : Bool) → (events : List Event) → Decidable (AllProper first events)
  | _, [] => .isTrue trivial
  | first, event :: events =>
    haveI := decidableAllProper (first && !completes event) events
    inferInstanceAs (Decidable (_ ∧ _))

theorem AllProper.append {first : Bool} {front back : List Event} (all : AllProper first (front ++ back)) :
    AllProper first front ∧ AllProper (first && !front.any completes) back := by
  induction front generalizing first with
  | nil => exact ⟨trivial, by simpa using all⟩
  | cons event front ih =>
    obtain ⟨here, later⟩ := ih all.2
    refine ⟨⟨all.1, here⟩, ?_⟩
    rwa [List.any_cons, Bool.not_or, ← Bool.and_assoc]

/-! ## What the delegate does, with its failures deferred -/

/-- `OnUrl` -/
def takeUrl (text : AddressText) (url : Bytes) (f : HttpServerDataFlow) : Bytes × Deferred HttpServerDataFlow :=
  if f.isConnect then
    match f.onConnectUrl text url with
    | .ok (true, f') => (url, .ok f')
    | .ok (false, _) => (url, .error .parted)
    | .error e => (url, .error (.fault e))
  else
    match f.onPlainUrl text url with
    | (true, some new, f') => (new, .ok f')
    | (_, _, _) => (url, .error .parted)

/-- `OnHeaderPair`: a deleted line is read once more. -/
def Filters (line : HeaderLine) (f : HttpServerDataFlow) (new : Bytes) (d : Deferred HttpServerDataFlow) : Prop :=
  if f.isConnect then new = line.bytes ∧ d = .ok f
  else
    new = filteredLine line ∧ d = .ok f ∨ isAuthorization line = true ∧ new = line.bytes ∧ ∃ e, d = .error (.fault e)

def acts (text : AddressText) : Acts (Deferred HttpServerDataFlow) where
  edits d event answer new d' := answer = true ∧
    match event, d with
    | .method method, .ok f => new = method ∧ d' = .ok (f.onMethod method)
    | .url url, .ok f => (new, d') = takeUrl text url f
    | .header line, .ok f => Filters line f new d'
    | event, d => new = event.bytes ∧ d' = d
  completes d offset _ answer d' := answer = true ∧ d' = d.map (HttpServerDataFlow.onMessageComplete offset)

theorem acts_answers : ¬(acts text).Refuses := by
  rintro (⟨d, event, new, d', answer, -⟩ | ⟨d, offset, upgrade, d', answer, -⟩) <;> cases answer

theorem newUrl_length (u : HttpParserUrl) (url : Bytes) : (newUrl u url).length ≤ url.length + 1 := by
  unfold newUrl
  split
  · have taken := (List.takeWhile_sublist (fun c => decide (c ≠ 0)) : ((url.drop u.path.off).takeWhile _).Sublist _).length_le
    rw [List.length_drop] at taken
    omega
  · exact Nat.le_add_left _ _

theorem onPlainUrl_new {url new : Bytes} {f f' : HttpServerDataFlow} {success : Bool}
    (taken : f.onPlainUrl text url = (success, some new, f')) :
    success = true ∧ ∃ u, parseUrl url false = some u ∧ new = newUrl u url := by
  unfold HttpServerDataFlow.onPlainUrl at taken
  cases parsed : parseUrl url false with
  | none =>
    rw [parsed] at taken
    cases taken
  | some u =>
    rw [parsed] at taken
    dsimp only at taken
    split_ifs at taken <;> cases taken <;> exact ⟨rfl, u, rfl, rfl⟩

/-- A target that it does not rewrite is refused. -/
theorem onPlainUrl_success (url : Bytes) (f : HttpServerDataFlow) :
    (f.onPlainUrl text url).1 = (f.onPlainUrl text url).2.1.isSome := by
  unfold HttpServerDataFlow.onPlainUrl
  cases parseUrl url false with
  | none => rfl
  | some u =>
    dsimp only
    split_ifs <;> rfl

theorem takeUrl_length (url : Bytes) (f : HttpServerDataFlow) : (takeUrl text url f).1.length ≤ url.length + 1 := by
  unfold takeUrl
  split
  · split <;> exact Nat.le_succ _
  · split
    · next new f' plain =>
      obtain ⟨-, u, parsed, rfl⟩ := onPlainUrl_new plain
      exact newUrl_length u url
    · exact Nat.le_succ _

theorem filteredLine_length (line : HeaderLine) : (filteredLine line).length ≤ line.bytes.length := by
  unfold filteredLine
  split
  · exact Nat.zero_le _
  split
  · next connection =>
    have same := congrArg List.length (of_decide_eq_true connection)
    have name : (ascii "Proxy-Connection").length = 16 := by decide
    have new : (ascii "Connection").length = 10 := by decide
    have colon : (ascii ": ").length = 2 := by decide
    rw [List.length_map, List.length_map, name] at same
    simp only [headerLine, HeaderLine.bytes, HeaderLine.text, crlf, List.length_append, List.length_cons, List.length_nil, new,
      colon, same]
    omega
  · exact Nat.le_refl _

theorem acts_grow (d : Deferred HttpServerDataFlow) (event : Event) (new : Bytes) (d' : Deferred HttpServerDataFlow)
    (told : Tells (acts text) d event new d') : new.length ≤ event.bytes.length + 1 := by
  cases event with
  | raw bytes | settled | messageComplete upgrade =>
    obtain ⟨rfl, -⟩ := told
    exact Nat.le_succ _
  | method token =>
    obtain ⟨-, told⟩ := told
    cases d <;> (obtain ⟨rfl, -⟩ := told; exact Nat.le_succ _)
  | url url =>
    obtain ⟨-, told⟩ := told
    cases d with
    | error halt =>
      obtain ⟨rfl, -⟩ := told
      exact Nat.le_succ _
    | ok f =>
      have same : new = (takeUrl text url f).1 := congrArg Prod.fst told
      rw [same]
      exact takeUrl_length url f
  | header line =>
    obtain ⟨-, told⟩ := told
    cases d with
    | error halt =>
      obtain ⟨rfl, -⟩ := told
      exact Nat.le_succ _
    | ok f =>
      have told : Filters line f new d' := told
      unfold Filters at told
      split at told
      · exact Nat.le_succ_of_le (Nat.le_of_eq (congrArg List.length told.1))
      rcases told with ⟨rfl, -⟩ | ⟨-, rfl, -⟩
      · exact Nat.le_succ_of_le (filteredLine_length line)
      · exact Nat.le_succ _
  | version token | status token | headersComplete =>
    obtain ⟨-, rfl, -⟩ := told
    exact Nat.le_succ _

/-! ## The delegate on an element -/

variable {r : RewriterImpl} {out token tail : Bytes} {line : HeaderLine}

/-- The name of the line that is read behind a deleted one is as long as that one's. -/
theorem reread_other (onLine : OnLine r out line tail) (authorization : isAuthorization line = true) {r' : RewriterImpl} {header : Header}
    (deleted : r.deleteCurrentHeader = .ok r') (read : r'.currentHeader = .ok header) :
    iequals header.1 (ascii "Proxy-Connection") = false := by
  obtain ⟨r₁, deleted₁, edited⟩ := onLine.deletes
  cases deleted₁.symm.trans deleted
  have spot := onLine.text_spot
  have size := spot.size
  have fits := spot.fits
  have range : sizeRange = 2 ^ 64 := rfl
  have text := congrArg List.length (show line.text = line.name ++ byte ':' :: (line.blanks ++ line.value) from rfl)
  simp only [List.length_append, List.length_cons] at fits text
  have field : r'.currentHeaderFieldOffset = r.currentHeaderFieldOffset := by rw [edited.frame]
  have fieldEnd : r'.currentHeaderFieldEndOffset = r.currentHeaderFieldEndOffset := by rw [edited.frame]
  obtain ⟨name, named, read⟩ := bind_eq_ok.mp read
  obtain ⟨value, -, read⟩ := bind_eq_ok.mp read
  cases read
  have length := Buffer.getData_length edited.wf named
  rw [field, fieldEnd, onLine.field, onLine.fieldEnd, sizeSub_eq (by omega) (by omega), Nat.add_sub_cancel_left] at length
  have same := congrArg List.length (of_decide_eq_true authorization)
  have long : (ascii "Proxy-Authorization").length = 19 := by decide
  have short : (ascii "Proxy-Connection").length = 16 := by decide
  rw [List.length_map, List.length_map, long] at same
  refine decide_eq_false fun equal => ?_
  have lengths : name.length = 16 := by simpa [short] using congrArg List.length equal
  omega

theorem filters_line {f : HttpServerDataFlow} (plain : f.isConnect = false) : Filters line f (filteredLine line) (.ok f) := by
  unfold Filters
  rw [if_neg (by simp [plain])]
  exact Or.inl ⟨rfl, rfl⟩

theorem filters_fault {f : HttpServerDataFlow} (plain : f.isConnect = false) (authorization : isAuthorization line = true) (e : Fault) :
    Filters line f line.bytes (.error (.fault e)) := by
  unfold Filters
  rw [if_neg (by simp [plain])]
  exact Or.inr ⟨authorization, rfl, e, rfl⟩

theorem filters_connect {f : HttpServerDataFlow} (connect : f.isConnect = true) : Filters line f line.bytes (.ok f) := by
  unfold Filters
  rw [if_pos connect]
  exact ⟨rfl, rfl⟩

/-- What `OnHeaderPair` does behind its first test. -/
def lookAgain (f : HttpServerDataFlow) (r : RewriterImpl) : Checked (Bool × RewriterImpl × HttpServerDataFlow) := do
  let header ← r.currentHeader
  let r ← if iequals header.1 (ascii "Proxy-Connection") then r.rewriteCurrentHeader (ascii "Connection", header.2)
    else pure r
  return (true, r, f)

theorem onHeaderPair_plain {f : HttpServerDataFlow} (plain : f.isConnect = false) (onLine : OnLine r out line tail) :
    onHeaderPair r f = (if isAuthorization line then r.deleteCurrentHeader else .ok r) >>= lookAgain f := by
  unfold onHeaderPair
  rw [if_neg (by simp [plain]), onLine.currentHeader, ok_bind]
  unfold isAuthorization
  dsimp only
  split <;> rfl

theorem lookAgain_read {f : HttpServerDataFlow} {header : Header} (read : r.currentHeader = .ok header) :
    lookAgain f r = (if iequals header.1 (ascii "Proxy-Connection") then r.rewriteCurrentHeader (ascii "Connection", header.2)
      else .ok r) >>= fun r => .ok (true, r, f) := by
  unfold lookAgain
  rw [read, ok_bind]
  dsimp only
  split <;> rfl

/-- The line stays, or gets another name. -/
theorem renames (onLine : OnLine r out line tail) (other : isAuthorization line = false) :
    ∃ r', (if isConnection line then r.rewriteCurrentHeader (ascii "Connection", line.value) else .ok r) = .ok r' ∧
      Edited r r' out line.bytes (filteredLine line) tail := by
  have same : filteredLine line = if isConnection line then headerLine (ascii "Connection", line.value) ++ crlf else line.bytes :=
    if_neg (by simp [other])
  rw [same]
  have short := onLine.text_spot.short
  have text := congrArg List.length (show line.text = line.name ++ byte ':' :: (line.blanks ++ line.value) from rfl)
  simp only [List.length_append, List.length_cons] at text
  cases isConnection line with
  | true =>
    have fits : (headerLine (ascii "Connection", line.value)).length < 2 ^ 63 := by
      have new : (ascii "Connection").length = 10 := by decide
      have colon : (ascii ": ").length = 2 := by decide
      simp only [headerLine, List.length_append, new, colon]
      omega
    exact HeaderEdit.exec_edits (.rewrite (ascii "Connection", line.value)) fits onLine
  | false => exact HeaderEdit.exec_edits .keep trivial onLine

/-- What the deferred delegate does on a header line. -/
theorem onHeaderPair_filters (onLine : OnLine r out line tail) (f : HttpServerDataFlow) :
    ∃ r' d' new, DelegateCall.deferred onHeaderPair r (.ok f) = .ok (true, r', d') ∧ Filters line f new d' ∧
      Edited r r' out line.bytes new tail := by
  have still := Edited.refl onLine.spot.wf onLine.spot.below onLine.spot.content
  cases connect : f.isConnect with
  | true =>
    have ran : onHeaderPair r f = .ok (true, r, f) := by
      unfold onHeaderPair
      rw [if_pos connect]
      rfl
    exact ⟨r, .ok f, line.bytes, deferred_true ran, filters_connect connect, still⟩
  | false =>
    have runs := onHeaderPair_plain connect onLine
    cases authorization : isAuthorization line with
    | true =>
      obtain ⟨r', deleted, edited⟩ := onLine.deletes
      rw [if_pos authorization, deleted, ok_bind] at runs
      cases read : r'.currentHeader with
      | error e =>
        have failed : lookAgain f r' = .error e := by
          unfold lookAgain
          rw [read]
          rfl
        exact ⟨r, _, _, deferred_fault (runs.trans failed), filters_fault connect authorization e, still⟩
      | ok header =>
        have other := reread_other onLine authorization deleted read
        rw [lookAgain_read read, if_neg (by simp [other]), ok_bind] at runs
        have gone : filteredLine line = [] := if_pos authorization
        exact ⟨r', _, _, deferred_true runs, filters_line connect, gone ▸ edited⟩
    | false =>
      obtain ⟨r', renamed, edited⟩ := renames onLine authorization
      unfold isConnection at renamed
      rw [if_neg (by simp [authorization]), ok_bind, lookAgain_read onLine.currentHeader, renamed, ok_bind] at runs
      exact ⟨r', _, _, deferred_true runs, filters_line connect, edited⟩

theorem onMethod_tells (spot : Spot r out token tail) (ends : r.currentTokenEndOffset = out.length + token.length)
    (d : Deferred HttpServerDataFlow) : ∃ d', (delegate text).onMethod.deferred r d = .ok (true, r, d') ∧
      (acts text).edits d (.method token) true token d' := by
  cases d with
  | error halt => exact ⟨_, deferred_error r halt, rfl, rfl, rfl⟩
  | ok f =>
    have ran : (delegate text).onMethod r f = .ok (true, r, f.onMethod token) := by
      dsimp only [HttpServerDataFlow.delegate]
      by_cases later : f.hasReadMethod = true
      · rw [if_pos later, HttpServerDataFlow.onMethod, if_pos later]
        rfl
      · rw [if_neg later, spot.currentToken ends]
        rfl
    exact ⟨_, deferred_true ran, rfl, rfl, rfl⟩

/-- `OnUrl` of a CONNECT request leaves the token. -/
theorem onUrl_connect {f : HttpServerDataFlow} (connect : f.isConnect = true) (read : r.currentToken = .ok token) :
    ∃ d', (delegate text).onUrl.deferred r (.ok f) = .ok (true, r, d') ∧ (token, d') = takeUrl text token f := by
  have ran : (delegate text).onUrl r f = f.onConnectUrl text token >>= fun done => .ok (done.1, r, done.2) := by
    show r.currentToken >>= _ = _
    rw [read, ok_bind, if_pos connect]
    rfl
  unfold takeUrl
  rw [if_pos connect]
  cases taken : f.onConnectUrl text token with
  | error e =>
    rw [taken] at ran
    exact ⟨_, deferred_fault ran, rfl⟩
  | ok done =>
    obtain ⟨success, f'⟩ := done
    rw [taken, ok_bind] at ran
    cases success with
    | true => exact ⟨_, deferred_true ran, rfl⟩
    | false => exact ⟨_, deferred_false ran, rfl⟩

/-- `OnUrl` of any other writes the path. -/
theorem onUrl_plain {f : HttpServerDataFlow} (plain : f.isConnect = false) (spot : Spot r out token tail)
    (ends : r.currentTokenEndOffset = out.length + token.length) :
    ∃ r' d' new, (delegate text).onUrl.deferred r (.ok f) = .ok (true, r', d') ∧ (new, d') = takeUrl text token f ∧
      Edited r r' out token new tail ∧ r'.currentTokenOffset = out.length ∧ r'.currentTokenEndOffset = out.length + new.length := by
  have read := spot.currentToken ends
  have still := Edited.refl spot.wf spot.below spot.content
  unfold takeUrl
  rw [if_neg (by simp [plain])]
  rcases taken : f.onPlainUrl text token with ⟨success, new, f'⟩
  cases new with
  | some url =>
    obtain ⟨rfl, u, -, rfl⟩ := onPlainUrl_new taken
    have short := spot.short
    have length := newUrl_length u token
    obtain ⟨r', rewritten, edited, begins, stops⟩ := spot.rewrites ends (show (newUrl u token).length < 2 ^ 63 by omega)
    have ran : (delegate text).onUrl r f = .ok (true, r', f') := by
      show r.currentToken >>= _ = _
      rw [read, ok_bind, if_neg (by simp [plain]), taken]
      dsimp only
      rw [rewritten]
      rfl
    exact ⟨r', _, _, deferred_true ran, rfl, edited, begins, stops⟩
  | none =>
    have refused := @onPlainUrl_success text token f
    rw [taken] at refused
    obtain rfl : success = false := refused
    have ran : (delegate text).onUrl r f = .ok (false, r, f') := by
      show r.currentToken >>= _ = _
      rw [read, ok_bind, if_neg (by simp [plain]), taken]
      rfl
    exact ⟨r, _, token, deferred_false ran, rfl, still, spot.begins, ends⟩

theorem implements : Implements (delegate text).deferred (acts text) where
  method := by
    intro r d out token tail spot ends
    obtain ⟨d', ran, told⟩ := @onMethod_tells text _ _ _ _ spot ends d
    exact ⟨true, r, d', token, ran, told, .refl spot.wf spot.below spot.content, spot.begins, ends⟩
  url := by
    intro r d out token tail spot ends
    have still := Edited.refl spot.wf spot.below spot.content
    cases d with
    | error halt => exact ⟨true, r, .error halt, token, rfl, ⟨rfl, rfl, rfl⟩, still, spot.begins, ends⟩
    | ok f =>
      cases connect : f.isConnect with
      | true =>
        obtain ⟨d', ran, told⟩ := @onUrl_connect text _ _ _ connect (spot.currentToken ends)
        exact ⟨true, r, d', token, ran, ⟨rfl, told⟩, still, spot.begins, ends⟩
      | false =>
        obtain ⟨r', d', new, ran, told, edited⟩ := @onUrl_plain text _ _ _ _ _ connect spot ends
        exact ⟨true, r', d', new, ran, ⟨rfl, told⟩, edited⟩
  version := by
    intro r d out token tail spot ends
    refine ⟨true, r, d, token, ?_, ⟨rfl, rfl, rfl⟩, .refl spot.wf spot.below spot.content, spot.begins, ends⟩
    cases d <;> rfl
  status := by
    intro r d out token tail spot ends
    refine ⟨true, r, d, token, ?_, ⟨rfl, rfl, rfl⟩, .refl spot.wf spot.below spot.content, spot.begins, ends⟩
    cases d <;> rfl
  header := by
    intro r d out line tail onLine
    cases d with
    | error halt =>
      exact ⟨true, r, .error halt, line.bytes, rfl, ⟨rfl, rfl, rfl⟩,
        .refl onLine.spot.wf onLine.spot.below onLine.spot.content⟩
    | ok f =>
      obtain ⟨r', d', new, ran, told, edited⟩ := onHeaderPair_filters onLine f
      exact ⟨true, r', d', new, ran, ⟨rfl, told⟩, edited⟩
  headerComplete := by
    intro r d out tail spot
    refine ⟨true, r, d, [], ?_, ⟨rfl, rfl, rfl⟩, .refl spot.wf spot.below spot.content, ?_⟩
    · cases d <;> rfl
    · rw [spot.begins, List.length_nil, Nat.add_zero]
  messageComplete := by
    intro offset upgrade r d
    refine ⟨true, d.map (HttpServerDataFlow.onMessageComplete offset), ?_, rfl, rfl⟩
    cases d <;> rfl

/-! ## What it makes of a stream -/

variable {d d' : Deferred HttpServerDataFlow} {f : HttpServerDataFlow} {event : Event} {events : List Event} {new out' : Bytes}

/-- The flow has read no CONNECT; `first` says whether it reads the first request. -/
structure Serves (f : HttpServerDataFlow) (first : Bool) : Prop where
  plain : f.isConnect = false
  first : f.readingFirstHeader = first

def scene (text : AddressText) : Scene (Deferred HttpServerDataFlow) :=
  ⟨plain .request, (delegate text).deferred, acts text, False⟩

theorem scene_lawful : (scene text).Lawful where
  implements := implements
  refusal := acts_answers
  overflow := fun large => absurd (show (40000 : Nat) < 40000 from large) (Nat.lt_irrefl _)
  limit := show (40000 : Nat) ≤ maxHeaderSize by decide

variable {s s' : HttpMessageStreamRewriter HttpServerDataFlow} {c : ServedClient} {l last : Reader} {pending : Bytes}
  {first : Bool} {front back : List Event} {input : Nat × Buffer} {inputs : List (Nat × Buffer)}

/-- What is in front of the element that is withheld. -/
def lead (l : Reader) (pending : Bytes) : Bytes := if l.phase.inToken then [] else pending

/-- A client's connection between two reads. -/
structure Ready (text : AddressText) (c : ServedClient) (l : Reader) (pending : Bytes) (first : Bool) : Prop where
  paused : (scene text).Paused (watched c.rewriter) l pending
  serves : Serves c.rewriter.delegate first
  phase : c.phase = if first then .negotiating else .opened

structure Handed (text : AddressText) (c : ServedClient) (l : Reader) (pending : Bytes) (first : Bool) (front : List Event)
    (last : Reader) (c' : ServedClient) (pending' : Bytes) : Prop where
  ready : Ready text c' last pending' (first && !front.any completes)
  told : ∃ new, TellsAll (acts text) (.ok c.rewriter.delegate) front new (.ok c'.rewriter.delegate)
  put : c'.handed ++ lead last pending' = c.handed ++ lead l pending ++ front.flatMap filtered
  holds : Holds last pending'

theorem Handed.trans {middle : Reader} {c₁ c₂ : ServedClient} {pending₁ pending₂ : Bytes}
    (one : Handed text c l pending first front middle c₁ pending₁)
    (two : Handed text c₁ middle pending₁ (first && !front.any completes) back last c₂ pending₂) :
    Handed text c l pending first (front ++ back) last c₂ pending₂ where
  ready := by
    rw [List.any_append, Bool.not_or, ← Bool.and_assoc]
    exact two.ready
  told := by
    obtain ⟨new₁, told₁⟩ := one.told
    obtain ⟨new₂, told₂⟩ := two.told
    exact ⟨_, told₁.append told₂⟩
  put := by
    rw [two.put, one.put, List.flatMap_append, List.append_assoc]
  holds := two.holds

theorem init_ready : Ready text ServedClient.init (.start (plain .request)) [] true where
  paused := ⟨Scene.fresh (scene text) .request (.ok {}) rfl, fun _ => rfl⟩
  serves := ⟨rfl, rfl⟩
  phase := rfl

end LibNekit.Guarantees.HeaderFilter
