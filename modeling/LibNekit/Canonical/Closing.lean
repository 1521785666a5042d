import LibNekit.Canonical.Slices

/-!
# A header block without header lines

Its delegate calls are made when the parser has returned, one behind the other on the
elements of the start line.
-/
namespace LibNekit.Canonical

open LibNekit.Source LibNekit.Source.Rewriter LibNekit.Source.HttpParser LibNekit.Source.HttpMessageStreamRewriter
  LibNekit.Library

variable {δ : Type}

/-- What the calls of a run have in common. -/
structure Scene (δ : Type) where
  setup : Setup
  delegate : Delegate δ
  acts : Acts δ
  /-- What may end the run with an error. -/
  excuse : Prop

namespace Scene

variable {y : Scene δ}

/-- What is assumed of a run. -/
structure Lawful (y : Scene δ) : Prop where
  implements : Implements y.delegate y.acts
  refusal : y.acts.Refuses → y.excuse
  overflow : 40000 < y.setup.limit → y.excuse
  limit : y.setup.limit ≤ maxHeaderSize

/-- The rewriter while the block is closed: `unread` is what the parser has not taken. -/
structure Closing (y : Scene δ) (r : RewriterImpl) (bytes unread : Bytes) : Prop where
  wf : r.currentBuffer.WellFormed
  below : r.currentBuffer.Below r.next
  content : r.currentBuffer.content = bytes
  fits : bytes.length < sizeRange
  ends : r.currentBufferOffset + unread.length = bytes.length
  setToken : r.setToken = false
  calm : Calm y.setup { r with processHeaderComplete := false }

variable {r r' : RewriterImpl} {s s' : HttpMessageStreamRewriter δ} {g : Draft δ} {out old new token tail unread bytes : Bytes}

theorem Closing.spot (closing : y.Closing r (out ++ token ++ tail) unread) (behind : tail ≠ [])
    (begins : r.currentTokenOffset = out.length) (short : token.length < 2 ^ 62) (small : out.length < 2 ^ 63) :
    Spot r out token tail :=
  ⟨closing.wf, closing.below, closing.content, closing.fits, behind, begins, short, small⟩

/-- Moving the token changes nothing else. -/
theorem Closing.retoken (closing : y.Closing r bytes unread) (start stop : Nat) :
    y.Closing { r with currentTokenOffset := start, currentTokenEndOffset := stop } bytes unread :=
  ⟨closing.wf, closing.below, closing.content, closing.fits, closing.ends, closing.setToken, closing.calm.congr rfl⟩

/-- An edit leaves what lies behind it as far from the end as before. -/
theorem Closing.edited (closing : y.Closing r (out ++ old ++ tail) unread) (edited : Edited r r' out old new tail)
    (behind : unread.length ≤ tail.length) (small : (out ++ new).length < 2 ^ 63) (short : tail.length < 2 ^ 62) :
    y.Closing r' (out ++ new ++ tail) unread := by
  have fits := closing.fits
  have ends := closing.ends
  have range : sizeRange = 2 ^ 64 := rfl
  simp only [List.length_append] at fits ends small
  have offset := edited.offset (by omega)
  refine ⟨edited.wf, edited.below, edited.content, ?_, ?_, ?_, ?_⟩
  · simp only [List.length_append]
    omega
  · rw [offset, shifted_eq (by omega) (by omega)]
    simp only [List.length_append]
    omega
  · rw [edited.frame]
    exact closing.setToken
  · rw [edited.frame]
    exact closing.calm.congr rfl

/-- What a call that may be refused comes to. -/
theorem ensure_outcome {call : DelegateCall δ} {next : HttpMessageStreamRewriter δ → Checked (HttpMessageStreamRewriter δ)}
    {Good : HttpMessageStreamRewriter δ → Prop} {answer : Bool} {d : δ} (called : call s.impl s.delegate = .ok (answer, r, d))
    (refused : answer = false → Good { s with impl := { r with errored := true }, delegate := d })
    (answered : answer = true → Outcome (next { s with impl := r, delegate := d }) Good False) :
    Outcome (ensure call s next) Good False := by
  unfold ensure
  rw [called, ok_bind]
  dsimp only
  cases answer with
  | false => exact refused rfl
  | true => exact answered rfl

/-- The block is closed, and the parser looks at its LF again. -/
inductive Closed (y : Scene δ) (g : Draft δ) (events : List Event) (unread : Bytes) (parser : HttpParser) :
    HttpMessageStreamRewriter δ → Prop
  | refused {s : HttpMessageStreamRewriter δ} (excuse : y.excuse) (errored : s.impl.errored = true) :
      Closed y g events unread parser s
  | closed {g' : Draft δ} {s : HttpMessageStreamRewriter δ} (performed : y.acts.PerformsAll events g g')
      (rests : Rests y.setup s.impl g' (.headersDone 0) unread) (setToken : s.impl.setToken = false)
      (delegate : s.delegate = g'.delegate) (same : s.parser = parser) : Closed y g events unread parser s

/-- `OnHeaderComplete`, in front of the last CR. -/
theorem Closing.finishes (lawful : y.Lawful) (closing : y.Closing s.impl (out ++ cr :: unread) unread) {events : List Event}
    (performed : y.acts.PerformsAll events g ⟨out, s.delegate⟩)
    (tame : y.acts.Tame [.headersComplete, .raw [cr]] ⟨out, s.delegate⟩) (short : unread.length + 1 < 2 ^ 62)
    (next : unread.head? = some lf) : Outcome (finishHeaders y.delegate s)
      (y.Closed g (events ++ [.headersComplete, .raw [cr]]) unread s.parser) False := by
  have ends := closing.ends
  have fits := closing.fits
  simp only [List.length_append, List.length_cons] at ends fits
  have offset : s.impl.currentBufferOffset = out.length + 1 := by omega
  have back : sizeSub s.impl.currentBufferOffset 1 = out.length := by
    rw [offset, sizeSub_eq (by omega) (by omega), Nat.add_sub_cancel]
  have empty : out ++ cr :: unread = out ++ [] ++ cr :: unread := by rw [List.append_nil]
  have here : y.Closing { s.impl with currentTokenOffset := sizeSub s.impl.currentBufferOffset 1 }
      (out ++ [] ++ cr :: unread) unread := empty ▸ closing.retoken _ _
  have spot : Spot { s.impl with currentTokenOffset := sizeSub s.impl.currentBufferOffset 1 } out [] (cr :: unread) :=
    here.spot (List.cons_ne_nil _ _) back (Nat.two_pow_pos 62) tame.small
  obtain ⟨answer, r, d, new, called, acted, edited, -⟩ := lawful.implements.headerComplete _ s.delegate out _ spot
  unfold finishHeaders
  refine ensure_outcome called ?_ ?_
  · rintro rfl
    exact .refused (lawful.refusal (Or.inl ⟨_, _, _, _, acted⟩)) rfl
  rintro rfl
  have closes : y.acts.PerformsAll [.headersComplete, .raw [cr]] ⟨out, s.delegate⟩ ⟨out ++ new ++ [cr], d⟩ :=
    ⟨_, ⟨new, d, acted, rfl⟩, _, rfl, rfl⟩
  have small := tame [.headersComplete] [.raw [cr]] ⟨out ++ new, d⟩ rfl ⟨_, ⟨new, d, acted, rfl⟩, rfl⟩
  have last := (Acts.Tame.drop (List.append_nil [Event.headersComplete, .raw [cr]] ▸ tame) closes).small
  have after := here.edited edited (by rw [List.length_cons]; omega) small short
  have length := after.ends
  simp only [List.length_append, List.length_cons] at length
  have stays : r.currentBufferOffset = (out ++ new ++ [cr]).length := by
    simp only [List.length_append, List.length_singleton]
    omega
  have rests : Rests y.setup { r with
      currentTokenOffset := r.currentBufferOffset, state := .body, processHeaderComplete := false }
      ⟨out ++ new ++ [cr], d⟩ (.headersDone 0) unread := by
    refine ⟨after.wf, after.below, ?_, ?_, ?_, last, .outside rfl rfl, after.calm.congr rfl, ?_⟩
    · rw [after.content]
      simp [Phase.held]
    · exact stays
    · show 0 + unread.length < 2 ^ 62
      omega
    · rintro lag same
      cases same
      exact ⟨next, Nat.zero_le 1, stays⟩
  exact .closed (performed.append closes) rests after.setToken rfl rfl

/-- The calls on a request line, and the one behind it. -/
theorem completeHeaders_request (lawful : y.Lawful) {target version : Bytes} (delegate : s.delegate = g.delegate)
    (rests : Rests y.setup { s.impl with processHeaderComplete := false } g (.lastCr (.request target version)) unread)
    (tame : y.acts.Tame ((Line.request target version).events ++ [.headersComplete, .raw [cr]]) g)
    (next : unread.head? = some lf) : Outcome (completeHeaders y.delegate s)
      (y.Closed g ((Line.request target version).events ++ [.headersComplete, .raw [cr]]) unread s.parser) False := by
  have fits := rests.fits
  have small := rests.small
  have position : s.impl.currentBufferOffset = _ := rests.offset
  have begins : s.impl.currentTokenOffset = g.out.length := (rests.offsets.token rfl).1
  have stops : s.impl.currentTokenEndOffset = g.out.length + target.length := rests.offsets.tokenEnd _ rfl
  have range : sizeRange = 2 ^ 64 := rfl
  simp only [Phase.held, Line.text, crlf, List.length_append, List.length_cons, List.length_nil] at fits position
  have closing : y.Closing s.impl (g.out ++ target ++ (space :: version ++ [cr, lf] ++ cr :: unread)) unread := by
    refine ⟨rests.wf, rests.below, ?_, ?_, ?_, (rests.offsets.token rfl).2, rests.calm⟩
    · have content : s.impl.currentBuffer.content = _ := rests.content
      rw [content]
      simp [Phase.held, Line.text, crlf]
    · simp only [List.length_append, List.length_cons, List.length_nil]
      omega
    · simp only [List.length_append, List.length_cons, List.length_nil]
      omega
  obtain ⟨answer, r₁, d₁, url, called, acted, edited, first, last⟩ := lawful.implements.url s.impl s.delegate g.out target _
    (closing.spot (by simp) begins (by omega) small) stops
  unfold completeHeaders
  rw [show s.impl.state = .url from rests.offsets.state]
  refine ensure_outcome called ?_ ?_
  · rintro rfl
    exact .refused (lawful.refusal (Or.inl ⟨_, _, _, _, acted⟩)) rfl
  rintro rfl
  rw [delegate] at acted
  have performedUrl : y.acts.PerformsAll [.url target, .raw [space]] g ⟨g.out ++ url ++ [space], d₁⟩ :=
    ⟨_, ⟨url, d₁, acted, rfl⟩, _, rfl, rfl⟩
  have smallUrl := tame [.url target, .raw [space]] _ _ rfl performedUrl
  have closing₁ := closing.edited edited (by simp only [List.length_append, List.length_cons, List.length_nil]; omega)
    (by simp only [List.length_append, List.length_singleton] at smallUrl ⊢; omega)
    (by simp only [List.length_append, List.length_cons, List.length_nil]; omega)
  have ends₁ := closing₁.ends
  have fits₁ := closing₁.fits
  simp only [List.length_append, List.length_cons, List.length_nil] at ends₁ fits₁
  have begins₁ : sizeAdd r₁.currentTokenEndOffset 1 = (g.out ++ url ++ [space]).length := by
    rw [last, sizeAdd_eq (by omega)]
    simp only [List.length_append, List.length_singleton]
  have stops₁ : sizeSub r₁.currentBufferOffset 3 = (g.out ++ url ++ [space]).length + version.length := by
    rw [sizeSub_eq (by omega) (by omega)]
    simp only [List.length_append, List.length_singleton]
    omega
  have split : g.out ++ url ++ (space :: version ++ [cr, lf] ++ cr :: unread) =
      g.out ++ url ++ [space] ++ version ++ ([cr, lf] ++ cr :: unread) := by simp
  have closing₂ : y.Closing { r₁ with
      currentTokenOffset := sizeAdd r₁.currentTokenEndOffset 1, currentTokenEndOffset := sizeSub r₁.currentBufferOffset 3 }
      (g.out ++ url ++ [space] ++ version ++ ([cr, lf] ++ cr :: unread)) unread := split ▸ closing₁.retoken _ _
  obtain ⟨answer, r₂, d₂, version', called₂, acted₂, edited₂, -, -⟩ :=
    lawful.implements.version _ d₁ _ version _ (closing₂.spot (by simp) begins₁ (by omega) smallUrl) stops₁
  refine ensure_outcome called₂ ?_ ?_
  · rintro rfl
    exact .refused (lawful.refusal (Or.inl ⟨_, _, _, _, acted₂⟩)) rfl
  rintro rfl
  have performed : y.acts.PerformsAll (Line.request target version).events g
      ⟨g.out ++ url ++ [space] ++ version' ++ [cr, lf], d₂⟩ :=
    performedUrl.append ⟨_, ⟨version', d₂, acted₂, rfl⟩, _, rfl, rfl⟩
  have more := Acts.Tame.drop tame performed
  have smallAll := more.small
  have closing₃ := closing₂.edited edited₂ (by simp only [List.length_append, List.length_cons, List.length_nil]; omega)
    (by simp only [List.length_append, List.length_cons, List.length_nil] at smallAll ⊢; omega)
    (by simp only [List.length_append, List.length_cons, List.length_nil]; omega)
  rw [← List.append_assoc (g.out ++ url ++ [space] ++ version')] at closing₃
  exact Closing.finishes (s := { s with impl := r₂, delegate := d₂ }) lawful closing₃ performed more (by omega) next

/-- The calls on a status line, and the one behind it. -/
theorem completeHeaders_status (lawful : y.Lawful) {text : Bytes} (delegate : s.delegate = g.delegate)
    (rests : Rests y.setup { s.impl with processHeaderComplete := false } g (.lastCr (.status text)) unread)
    (tame : y.acts.Tame ((Line.status text).events ++ [.headersComplete, .raw [cr]]) g)
    (next : unread.head? = some lf) : Outcome (completeHeaders y.delegate s)
      (y.Closed g ((Line.status text).events ++ [.headersComplete, .raw [cr]]) unread s.parser) False := by
  have fits := rests.fits
  have small := rests.small
  have position : s.impl.currentBufferOffset = _ := rests.offset
  have begins : s.impl.currentTokenOffset = g.out.length := (rests.offsets.token rfl).1
  have stops : s.impl.currentTokenEndOffset = g.out.length + text.length := rests.offsets.tokenEnd _ rfl
  have range : sizeRange = 2 ^ 64 := rfl
  simp only [Phase.held, Line.text, crlf, List.length_append, List.length_cons, List.length_nil] at fits position
  have closing : y.Closing s.impl (g.out ++ text ++ ([cr, lf] ++ cr :: unread)) unread := by
    refine ⟨rests.wf, rests.below, ?_, ?_, ?_, (rests.offsets.token rfl).2, rests.calm⟩
    · have content : s.impl.currentBuffer.content = _ := rests.content
      rw [content]
      simp [Phase.held, Line.text, crlf]
    · simp only [List.length_append, List.length_cons, List.length_nil]
      omega
    · simp only [List.length_append, List.length_cons, List.length_nil]
      omega
  obtain ⟨answer, r₁, d₁, status, called, acted, edited, -, -⟩ := lawful.implements.status s.impl s.delegate g.out text _
    (closing.spot (by simp) begins (by omega) small) stops
  unfold completeHeaders
  rw [show s.impl.state = .status from rests.offsets.state]
  refine ensure_outcome called ?_ ?_
  · rintro rfl
    exact .refused (lawful.refusal (Or.inl ⟨_, _, _, _, acted⟩)) rfl
  rintro rfl
  rw [delegate] at acted
  have performed : y.acts.PerformsAll (Line.status text).events g ⟨g.out ++ status ++ [cr, lf], d₁⟩ :=
    ⟨_, ⟨status, d₁, acted, rfl⟩, _, rfl, rfl⟩
  have more := Acts.Tame.drop tame performed
  have smallAll := more.small
  have closing₁ := closing.edited edited (by simp only [List.length_append, List.length_cons, List.length_nil]; omega)
    (by simp only [List.length_append, List.length_cons, List.length_nil] at smallAll ⊢; omega)
    (by simp only [List.length_append, List.length_cons, List.length_nil]; omega)
  rw [← List.append_assoc (g.out ++ status)] at closing₁
  exact Closing.finishes (s := { s with impl := r₁, delegate := d₁ }) lawful closing₁ performed more (by omega) next

theorem completeHeaders_closes (lawful : y.Lawful) {line : Line} (start : ∀ header, line ≠ .header header)
    (delegate : s.delegate = g.delegate)
    (rests : Rests y.setup { s.impl with processHeaderComplete := false } g (.lastCr line) unread)
    (tame : y.acts.Tame (line.events ++ [.headersComplete, .raw [cr]]) g) (next : unread.head? = some lf) :
    Outcome (completeHeaders y.delegate s) (y.Closed g (line.events ++ [.headersComplete, .raw [cr]]) unread s.parser)
      False := by
  cases line with
  | request target version => exact completeHeaders_request lawful delegate rests tame next
  | status text => exact completeHeaders_status lawful delegate rests tame next
  | header line => exact absurd rfl (start line)

end Scene

end LibNekit.Canonical
