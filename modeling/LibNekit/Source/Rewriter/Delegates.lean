import LibNekit.Source.Buffer.Outcomes
import LibNekit.Source.Rewriter.Watching

/-!
# What a delegate can do to the rewriter

It has the public functions of `HttpMessageStreamRewriter` and nothing else. They edit the
Buffer and move the offsets along, so what is behind the parse position stays as long as
it is.
-/
namespace LibNekit.Source.Rewriter

open LibNekit.Library HttpMessageStreamRewriter RewriterImpl

variable {δ : Type} {r r' : RewriterImpl}

/-- The public functions that change something; `CurrentToken` and `CurrentHeader` only read. -/
inductive PublicCall where
  | rewriteCurrentToken (newToken : Bytes)
  | rewriteCurrentHeader (header : Header)
  | deleteCurrentHeader
  | addHeader (header : Header)
  | addHeaderLine (header : Bytes)
  | setSkipBodyInResponse (skip : Bool)
  deriving DecidableEq, Repr

def PublicCall.exec (r : RewriterImpl) : PublicCall → Checked RewriterImpl
  | rewriteCurrentToken newToken => r.rewriteCurrentToken newToken
  | rewriteCurrentHeader header => r.rewriteCurrentHeader header
  | deleteCurrentHeader => r.deleteCurrentHeader
  | addHeader header => r.addHeader header
  | addHeaderLine header => r.addHeaderLine header
  | setSkipBodyInResponse skip => .ok { r with skipBody := skip }

/-- Any public calls, one after the other. -/
inductive Uses : RewriterImpl → RewriterImpl → Prop where
  | nothing (r : RewriterImpl) : Uses r r
  | call {r r₁ r₂ : RewriterImpl} (c : PublicCall) (ran : c.exec r = .ok r₁) (more : Uses r₁ r₂) : Uses r r₂

def OnlyUses (call : DelegateCall δ) : Prop :=
  ∀ r d success r' d', call r d = .ok (success, r', d') → Uses r r'

/-- Every delegate there is: it changes the rewriter through its public functions. -/
structure Outside (delegate : Delegate δ) : Prop where
  onMethod : OnlyUses delegate.onMethod
  onUrl : OnlyUses delegate.onUrl
  onVersion : OnlyUses delegate.onVersion
  onStatus : OnlyUses delegate.onStatus
  onHeaderPair : OnlyUses delegate.onHeaderPair
  onHeaderComplete : OnlyUses delegate.onHeaderComplete
  onMessageComplete : ∀ bufferOffset upgrade, OnlyUses (delegate.onMessageComplete bufferOffset upgrade)

theorem Quiet.onlyUses {call : DelegateCall δ} (quiet : Quiet call) : OnlyUses call := by
  intro r d success r' d' ran
  obtain ⟨-, rfl⟩ := quiet r d success r' d' ran
  exact .nothing r'

theorem Watches.outside {delegate : Delegate δ} (watches : Watches delegate) : Outside delegate :=
  ⟨watches.onMethod.onlyUses, watches.onUrl.onlyUses, watches.onVersion.onlyUses, watches.onStatus.onlyUses,
    watches.onHeaderPair.onlyUses, watches.onHeaderComplete.onlyUses,
    fun bufferOffset upgrade => (watches.onMessageComplete bufferOffset upgrade).onlyUses⟩

/-- The rule for what every public function keeps. -/
theorem Uses.keeps {Rel : RewriterImpl → RewriterImpl → Prop} (refl : ∀ r, Rel r r)
    (trans : ∀ {r₁ r₂ r₃}, Rel r₁ r₂ → Rel r₂ r₃ → Rel r₁ r₃)
    (step : ∀ (c : PublicCall) r r', c.exec r = .ok r' → Rel r r') (uses : Uses r r') : Rel r r' := by
  induction uses with
  | nothing r => exact refl r
  | call c ran more ih => exact trans (step c _ _ ran) ih

/-! ## What the public functions leave alone -/

/-- Everything but the Buffer, the offsets that an edit moves, and the flag that may be set. -/
structure Framed (r r' : RewriterImpl) : Prop where
  type : r'.type = r.type
  state : r'.state = r.state
  pendingPreviousBuffer : r'.pendingPreviousBuffer = r.pendingPreviousBuffer
  pendingBufferLength : r'.pendingBufferLength = r.pendingBufferLength
  errored : r'.errored = r.errored
  stopped : r'.stopped = r.stopped
  processHeaderComplete : r'.processHeaderComplete = r.processHeaderComplete
  processMessageComplete : r'.processMessageComplete = r.processMessageComplete
  setToken : r'.setToken = r.setToken
  stepBack : r'.stepBack = r.stepBack

theorem Framed.refl (r : RewriterImpl) : Framed r r := ⟨rfl, rfl, rfl, rfl, rfl, rfl, rfl, rfl, rfl, rfl⟩

theorem Framed.trans {r₁ r₂ r₃ : RewriterImpl} (one : Framed r₁ r₂) (two : Framed r₂ r₃) : Framed r₁ r₃ where
  type := two.type.trans one.type
  state := two.state.trans one.state
  pendingPreviousBuffer := two.pendingPreviousBuffer.trans one.pendingPreviousBuffer
  pendingBufferLength := two.pendingBufferLength.trans one.pendingBufferLength
  errored := two.errored.trans one.errored
  stopped := two.stopped.trans one.stopped
  processHeaderComplete := two.processHeaderComplete.trans one.processHeaderComplete
  processMessageComplete := two.processMessageComplete.trans one.processMessageComplete
  setToken := two.setToken.trans one.setToken
  stepBack := two.stepBack.trans one.stepBack

/-- The bytes that the parser has not consumed, once its call has returned. -/
def unconsumed (r : RewriterImpl) : Nat := sizeSub r.currentBuffer.size r.currentBufferOffset

/-- The Buffer is one. -/
structure Held (r : RewriterImpl) : Prop where
  wf : r.currentBuffer.WellFormed
  below : r.currentBuffer.Below r.next

/-- What the public functions do, as far as nobody reads the bytes. -/
structure Moves (r r' : RewriterImpl) : Prop where
  framed : Framed r r'
  held : Held r → Held r'
  unconsumed : Held r → unconsumed r' = unconsumed r

theorem Moves.refl (r : RewriterImpl) : Moves r r := ⟨.refl r, id, fun _ => rfl⟩

theorem Moves.trans {r₁ r₂ r₃ : RewriterImpl} (one : Moves r₁ r₂) (two : Moves r₂ r₃) : Moves r₁ r₃ :=
  ⟨one.framed.trans two.framed, fun held => two.held (one.held held),
    fun held => (two.unconsumed (one.held held)).trans (one.unconsumed held)⟩

/-! ## Each public function -/

open LibNekit.Source.Buffer (Sized insertSize_sized shrink_sized setData_sized setIndex_sized)

/-- The Buffer after the part that a rewriting inserts or deletes. -/
structure Resized (r : RewriterImpl) (diff next : Nat) (b : Buffer) : Prop where
  wf : b.WellFormed
  below : b.Below next
  unconsumed : sizeSub b.size (sizeAdd r.currentBufferOffset diff) = unconsumed r

theorem inserted_resized {next offset diff : Nat} {b : Buffer} (held : Held r)
    (ran : r.currentBuffer.insertSize r.next offset diff = .ok (next, b)) : Resized r diff next b := by
  have sized := insertSize_sized held.wf held.below ran
  refine ⟨sized.wf, sized.below, ?_⟩
  rw [sized.size, unconsumed]
  unfold sizeSub sizeAdd sizeRange
  omega

theorem deleted_resized {offset diff : Nat} {b : Buffer} (held : Held r)
    (ran : r.currentBuffer.shrink offset (sizeSub 0 diff) = .ok b) : Resized r diff r.next b := by
  obtain ⟨sized, inside⟩ := shrink_sized held.wf held.below ran
  refine ⟨sized.wf, sized.below, ?_⟩
  rw [sized.size, unconsumed]
  unfold sizeSub sizeAdd sizeRange at *
  omega

theorem sizeSub_lt (a b : Nat) : sizeSub a b < sizeRange := Nat.mod_lt _ (Nat.two_pow_pos 64)

/-- The end of a rewriting, once the Buffer has its new size. -/
theorem rewritten_moves {newToken : Bytes} {diff next : Nat} {b₁ b₂ : Buffer} (resized : Held r → Resized r diff next b₁)
    (written : b₁.setData r.currentTokenOffset newToken = .ok b₂) :
    Moves r { r with
      next
      currentBuffer := b₂
      currentTokenEndOffset := sizeAdd r.currentTokenEndOffset diff
      nextTokenOffset := sizeAdd r.nextTokenOffset diff
      currentBufferOffset := sizeAdd r.currentBufferOffset diff } := by
  constructor
  · exact ⟨rfl, rfl, rfl, rfl, rfl, rfl, rfl, rfl, rfl, rfl⟩
  · intro held
    have sized := setData_sized (resized held).wf (resized held).below written
    exact ⟨sized.wf, sized.below⟩
  · intro held
    have sized := setData_sized (resized held).wf (resized held).below written
    show sizeSub b₂.size _ = _
    rw [sized.size]
    exact (resized held).unconsumed

theorem rewriteCurrentToken_moves {newToken : Bytes} (ran : r.rewriteCurrentToken newToken = .ok r') : Moves r r' := by
  rw [rewriteCurrentToken] at ran
  dsimp only at ran
  split_ifs at ran with grows
  · obtain ⟨⟨next₁, b₁⟩, inserted, ran⟩ := bind_eq_ok.mp ran
    obtain ⟨b₂, written, done⟩ := bind_eq_ok.mp ran
    cases done
    exact rewritten_moves (fun held => inserted_resized held inserted) written
  · obtain ⟨b₁, shrunk, ran⟩ := bind_eq_ok.mp ran
    rw [pure_eq_ok, ok_bind] at ran
    obtain ⟨b₂, written, done⟩ := bind_eq_ok.mp ran
    cases done
    exact rewritten_moves (fun held => deleted_resized held shrunk) written

theorem deleteCurrentHeader_moves (ran : r.deleteCurrentHeader = .ok r') : Moves r r' := by
  rw [deleteCurrentHeader] at ran
  obtain ⟨b₁, shrunk, done⟩ := bind_eq_ok.mp ran
  cases done
  constructor
  · exact ⟨rfl, rfl, rfl, rfl, rfl, rfl, rfl, rfl, rfl, rfl⟩
  · intro held
    obtain ⟨sized, -⟩ := shrink_sized held.wf held.below shrunk
    exact ⟨sized.wf, sized.below⟩
  · intro held
    obtain ⟨sized, inside⟩ := shrink_sized held.wf held.below shrunk
    show sizeSub b₁.size (sizeSub _ _) = sizeSub _ _
    rw [sized.size]
    generalize sizeAdd (sizeSub r.currentTokenEndOffset r.currentTokenOffset) 2 = len at *
    unfold sizeSub sizeRange
    omega

theorem addHeaderLine_moves {header : Bytes} (ran : r.addHeaderLine header = .ok r') : Moves r r' := by
  rw [addHeaderLine] at ran
  obtain ⟨⟨next₁, b₁⟩, inserted, ran⟩ := bind_eq_ok.mp ran
  obtain ⟨b₂, written, ran⟩ := bind_eq_ok.mp ran
  obtain ⟨b₃, first, ran⟩ := bind_eq_ok.mp ran
  obtain ⟨b₄, second, done⟩ := bind_eq_ok.mp ran
  cases done
  have after : Held r → (b₄.WellFormed ∧ b₄.Below next₁) ∧
      b₄.size = r.currentBuffer.size + sizeAdd header.length 2 := by
    intro held
    have one := insertSize_sized held.wf held.below inserted
    have two := setData_sized one.wf one.below written
    have three := setIndex_sized two.wf two.below first
    have four := setIndex_sized three.wf three.below second
    exact ⟨⟨four.wf, four.below⟩, by rw [four.size, three.size, two.size, one.size]⟩
  constructor
  · exact ⟨rfl, rfl, rfl, rfl, rfl, rfl, rfl, rfl, rfl, rfl⟩
  · intro held
    exact ⟨(after held).1.1, (after held).1.2⟩
  · intro held
    show sizeSub b₄.size (sizeAdd _ _) = sizeSub _ _
    rw [(after held).2]
    generalize sizeAdd header.length 2 = len
    unfold sizeSub sizeAdd sizeRange
    omega

theorem PublicCall.moves (c : PublicCall) (ran : c.exec r = .ok r') : Moves r r' := by
  cases c with
  | rewriteCurrentToken newToken => exact rewriteCurrentToken_moves ran
  | rewriteCurrentHeader header => exact rewriteCurrentToken_moves ran
  | deleteCurrentHeader => exact deleteCurrentHeader_moves ran
  | addHeader header => exact addHeaderLine_moves ran
  | addHeaderLine header => exact addHeaderLine_moves ran
  | setSkipBodyInResponse skip =>
    cases ran
    exact ⟨⟨rfl, rfl, rfl, rfl, rfl, rfl, rfl, rfl, rfl, rfl⟩, fun held => ⟨held.wf, held.below⟩, fun _ => rfl⟩

/-- Whatever a delegate does, the unconsumed bytes are as many as they were. -/
theorem Uses.moves (uses : Uses r r') : Moves r r' :=
  uses.keeps Moves.refl Moves.trans fun c _ _ ran => c.moves ran

end LibNekit.Source.Rewriter
