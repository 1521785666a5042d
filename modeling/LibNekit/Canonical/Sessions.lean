import LibNekit.Canonical.Editors
import LibNekit.Library.Program

/-!
# Delegates that read and edit as often as they like

In each callback such a delegate runs a script: it asks for the current token, rewrites it,
asks again, and so on, and what it does next may depend on what it has read. Behind its
script on a header line it may delete the line. What a script means is a run over the bytes
of the token alone, so it is the same in every Buffer.
-/
namespace LibNekit.Canonical

open LibNekit.Source LibNekit.Source.Rewriter LibNekit.Library RewriterImpl

variable {δ α : Type} {r r' : RewriterImpl} {out token old new tail : Bytes} {line : HeaderLine}

/-! ## Scripts -/

inductive Question where
  | currentToken
  | rewriteCurrentToken (newToken : Bytes)
  deriving DecidableEq, Repr

/-- A rewrite is answered with no bytes. -/
abbrev Script (α : Type) := Program Question Bytes Fault α

namespace Question

/-- What the rewriter does. -/
def exec : Question → RewriterImpl → Checked (Bytes × RewriterImpl)
  | currentToken, r => do return (← r.currentToken, r)
  | rewriteCurrentToken newToken, r => do return ([], ← r.rewriteCurrentToken newToken)

/-- What that means for the token. A `std::string` has fewer than 2^63 bytes. -/
def answer : Question → Bytes → Checked (Bytes × Bytes)
  | currentToken, token => .ok (token, token)
  | rewriteCurrentToken newToken, _ => if newToken.length < 2 ^ 63 then .ok ([], newToken) else .error .outOfBounds

end Question

/-- The rewriter with what the script has made of the token `old` so far. -/
structure Rewritten (r : RewriterImpl) (out old tail : Bytes) (r' : RewriterImpl) (token : Bytes) : Prop where
  edited : Edited r r' out old token tail
  seat : Seat r' out token tail

theorem Seat.rewritten (seat : Seat r out token tail) : Rewritten r out token tail r token :=
  ⟨.refl seat.wf seat.below seat.content, seat⟩

theorem exec_follows (q : Question) (s : RewriterImpl) (t reply t' : Bytes) (so_far : Rewritten r out old tail s t)
    (told : q.answer t = .ok (reply, t')) : ∃ s', q.exec s = .ok (reply, s') ∧ Rewritten r out old tail s' t' := by
  cases q with
  | currentToken =>
    cases told
    refine ⟨s, ?_, so_far⟩
    show s.currentToken >>= _ = _
    rw [so_far.seat.currentToken]
    rfl
  | rewriteCurrentToken newToken =>
    dsimp only [Question.answer] at told
    by_cases string : newToken.length < 2 ^ 63
    · rw [if_pos string] at told
      cases told
      obtain ⟨s', ran, edited, seat⟩ := so_far.seat.rewrites string
      refine ⟨s', ?_, so_far.edited.trans edited, seat⟩
      show s.rewriteCurrentToken _ >>= _ = _
      rw [ran]
      rfl
    · rw [if_neg string] at told
      cases told

/-- A script does to the Buffer what it means. -/
theorem script_rewrites {script : Script α} {a : α} (seat : Seat r out token tail)
    (meant : script.run Question.answer token = .ok (a, new)) :
    ∃ r', script.run Question.exec r = .ok (a, r') ∧ Rewritten r out token tail r' new :=
  Program.run_follows exec_follows seat.rewritten meant

/-! ## Delegates -/

/-- The scripts of a delegate, and what it remembers. `CurrentHeader` is read before the script
of a header line begins; the flag behind it says whether the line is deleted. -/
structure Session (δ : Type) where
  method : δ → Script δ
  url : δ → Script δ
  version : δ → Script δ
  status : δ → Script δ
  headerPair : Header → δ → Script (δ × Bool)
  headerComplete : δ → δ
  messageComplete : Bool → δ → δ

namespace Session

/-- A callback on an element of a start line. -/
def onToken (script : δ → Script δ) : DelegateCall δ := fun r d => do
  let (d, r) ← (script d).run Question.exec r
  return (true, r, d)

def delegate (session : Session δ) : Delegate δ where
  onMethod := onToken session.method
  onUrl := onToken session.url
  onVersion := onToken session.version
  onStatus := onToken session.status
  onHeaderPair r d := do
    let header ← r.currentHeader
    let ((d, deletes), r) ← (session.headerPair header d).run Question.exec r
    return (true, ← if deletes then r.deleteCurrentHeader else pure r, d)
  onHeaderComplete r d := .ok (true, r, session.headerComplete d)
  onMessageComplete _ upgrade r d := .ok (true, r, session.messageComplete upgrade d)

/-! ## What they mean -/

/-- What a delegate makes of one element: its next state, and the bytes in the element's place. -/
def tell (session : Session δ) : Event → δ → Checked (δ × Bytes)
  | .method token, d => (session.method d).run Question.answer token
  | .url token, d => (session.url d).run Question.answer token
  | .version token, d => (session.version d).run Question.answer token
  | .status token, d => (session.status d).run Question.answer token
  | .header line, d => do
    let ((d, deletes), token) ← (session.headerPair (line.name, line.value) d).run Question.answer line.text
    return (d, if deletes then [] else token ++ crlf)
  | .headersComplete, d => .ok (session.headerComplete d, [])
  | .messageComplete upgrade, d => .ok (session.messageComplete upgrade d, [])
  | .raw bytes, d => .ok (d, bytes)
  | .settled, d => .ok (d, [])

/-- On no token that a Buffer can hold does it write what is not a string. -/
structure Fits (session : Session δ) : Prop where
  method : ∀ d token, token.length < 2 ^ 62 → ∃ done, (session.method d).run Question.answer token = .ok done
  url : ∀ d token, token.length < 2 ^ 62 → ∃ done, (session.url d).run Question.answer token = .ok done
  version : ∀ d token, token.length < 2 ^ 62 → ∃ done, (session.version d).run Question.answer token = .ok done
  status : ∀ d token, token.length < 2 ^ 62 → ∃ done, (session.status d).run Question.answer token = .ok done
  headerPair : ∀ d (line : HeaderLine), line.text.length < 2 ^ 62 →
    ∃ done, (session.headerPair (line.name, line.value) d).run Question.answer line.text = .ok done

/-- The acts of its delegate. -/
def acts (session : Session δ) : Acts δ where
  edits d event answer new d' := answer = true ∧ session.tell event d = .ok (d', new)
  completes d _ upgrade answer d' := answer = true ∧ d' = session.messageComplete upgrade d

variable {session : Session δ}

theorem acts_answers : ¬session.acts.Refuses := by
  rintro (⟨d, event, new, d', answer, -⟩ | ⟨d, offset, upgrade, d', answer, -⟩) <;> cases answer

theorem onToken_edits {script : δ → Script δ} {element : Bytes → Event}
    (fits : ∀ d token, token.length < 2 ^ 62 → ∃ done, (script d).run Question.answer token = .ok done)
    (tells : ∀ d token, session.tell (element token) d = (script d).run Question.answer token) :
    EditsToken session.acts (onToken script) element := by
  intro r d out token tail spot ends
  obtain ⟨⟨d', new⟩, meant⟩ := fits d token spot.short
  obtain ⟨r', ran, rewritten⟩ := script_rewrites (spot.seat ends) meant
  refine ⟨true, r', d', new, ?_, ⟨rfl, (tells d token).trans meant⟩, rewritten.edited, rewritten.seat.begins, rewritten.seat.ends⟩
  unfold onToken
  rw [ran]
  rfl

theorem onHeaderPair_edits (fits : session.Fits) (onLine : OnLine r out line tail) (d : δ) :
    ∃ r' d' new, session.delegate.onHeaderPair r d = .ok (true, r', d') ∧ session.tell (.header line) d = .ok (d', new) ∧
      Edited r r' out line.bytes new tail := by
  obtain ⟨⟨⟨d', deletes⟩, token⟩, meant⟩ := fits.headerPair d line onLine.text_spot.short
  obtain ⟨r₁, ran, rewritten⟩ := script_rewrites onLine.seat meant
  have tells : session.tell (.header line) d = .ok (d', if deletes then [] else token ++ crlf) := by
    show (session.headerPair (line.name, line.value) d).run Question.answer line.text >>= _ = _
    rw [meant]
    rfl
  have runs (r' : RewriterImpl) (last : (if deletes then r₁.deleteCurrentHeader else .ok r₁) = .ok r') :
      session.delegate.onHeaderPair r d = .ok (true, r', d') := by
    show r.currentHeader >>= _ = _
    rw [onLine.currentHeader, ok_bind, ran, ok_bind]
    cases deletes with
    | true =>
      have last : r₁.deleteCurrentHeader = .ok r' := last
      dsimp only
      rw [if_pos rfl, last]
      rfl
    | false =>
      cases last
      rfl
  have whole : Edited r r₁ out line.bytes (token ++ crlf) tail := rewritten.edited.extend
  cases deletes with
  | true =>
    obtain ⟨r', deleted, edited⟩ := rewritten.seat.deletes onLine.spot.behind
    exact ⟨r', d', [], runs r' deleted, tells, whole.trans edited⟩
  | false => exact ⟨r₁, d', token ++ crlf, runs r₁ rfl, tells, whole⟩

/-- What the rewriter relies on in such a delegate. -/
theorem implements (fits : session.Fits) : Implements session.delegate session.acts where
  method := onToken_edits fits.method fun _ _ => rfl
  url := onToken_edits fits.url fun _ _ => rfl
  version := onToken_edits fits.version fun _ _ => rfl
  status := onToken_edits fits.status fun _ _ => rfl
  header := by
    intro r d out line tail onLine
    obtain ⟨r', d', new, ran, tells, edited⟩ := onHeaderPair_edits fits onLine d
    exact ⟨true, r', d', new, ran, ⟨rfl, tells⟩, edited⟩
  headerComplete := by
    intro r d out tail spot
    refine ⟨true, r, _, [], rfl, ⟨rfl, rfl⟩, .refl spot.wf spot.below spot.content, ?_⟩
    rw [spot.begins, List.length_nil, Nat.add_zero]
  messageComplete := fun offset upgrade r d => ⟨true, _, rfl, rfl, rfl⟩

end Session

end LibNekit.Canonical
