import LibNekit.Canonical.Reader
import LibNekit.Source.Buffer.WellFormed
import LibNekit.Source.Rewriter.Model

/-!
# What a delegate makes of a stream

`Acts` says what a delegate does with each element of a stream, and `Performs` what
that puts out. Neither mentions the rewriter: an element is its bytes, and an edit is
the bytes that stand in its place. `Implements` connects a delegate of the rewriter to
its acts: wherever the rewriter stands exactly on an element, the delegate's call
replaces that element in the Buffer, moves the offsets along, and nothing else.
-/
namespace LibNekit.Canonical

open LibNekit.Source LibNekit.Source.Rewriter LibNekit.Library

variable {δ : Type}

/-- What a call has put out so far, and the delegate's state. -/
structure Draft (δ : Type) where
  out : Bytes
  delegate : δ

/-- `edits d event answer new d'`: called in state `d` on the element `event`, the
delegate returns `answer`, leaves `new` in its place, and is in state `d'`.
`completes` is the same for the end of a message. -/
structure Acts (δ : Type) where
  edits : δ → Event → Bool → Bytes → δ → Prop
  completes : δ → Nat → Bool → Bool → δ → Prop

namespace Acts

variable (acts : Acts δ)

def Performs (event : Event) (g g' : Draft δ) : Prop :=
  match event with
  | .raw bytes => g' = { g with out := g.out ++ bytes }
  | .settled => g' = g
  | .messageComplete upgrade =>
    ∃ d, acts.completes g.delegate g.out.length upgrade true d ∧ g' = { g with delegate := d }
  | event => ∃ new d, acts.edits g.delegate event true new d ∧ g' = ⟨g.out ++ new, d⟩

def PerformsAll : List Event → Draft δ → Draft δ → Prop
  | [], g, g' => g' = g
  | event :: events, g, g' => ∃ middle, acts.Performs event g middle ∧ PerformsAll events middle g'

/-- The delegate returns false somewhere. -/
def Refuses : Prop :=
  (∃ d event new d', acts.edits d event false new d') ∨
    ∃ d offset upgrade d', acts.completes d offset upgrade false d'

/-- No Buffer outgrows what `size_t` can hold, wherever `events` are performed up to. -/
def Tame (events : List Event) (g : Draft δ) : Prop :=
  ∀ front back g', events = front ++ back → acts.PerformsAll front g g' → g'.out.length < 2 ^ 63

variable {acts}

theorem PerformsAll.append {front back : List Event} {g middle g' : Draft δ}
    (first : acts.PerformsAll front g middle) (second : acts.PerformsAll back middle g') :
    acts.PerformsAll (front ++ back) g g' := by
  induction front generalizing g with
  | nil =>
    cases first
    exact second
  | cons event front ih =>
    obtain ⟨next, performed, more⟩ := first
    exact ⟨next, performed, ih more⟩

theorem Tame.small {events : List Event} {g : Draft δ} (tame : acts.Tame events g) :
    g.out.length < 2 ^ 63 := tame [] events g rfl rfl

theorem Tame.take {front back : List Event} {g : Draft δ} (tame : acts.Tame (front ++ back) g) :
    acts.Tame front g := by
  intro first second g' split performed
  exact tame first (second ++ back) g' (by rw [split, List.append_assoc]) performed

theorem Tame.drop {front back : List Event} {g middle : Draft δ}
    (tame : acts.Tame (front ++ back) g) (performed : acts.PerformsAll front g middle) :
    acts.Tame back middle := by
  intro first second g' split more
  exact tame (front ++ first) second g' (by rw [split, List.append_assoc]) (performed.append more)

end Acts

/-! ## The rewriter on an element -/

/-- The Buffer is `out ++ token ++ tail`, and the current token is `token`. -/
structure Spot (r : RewriterImpl) (out token tail : Bytes) : Prop where
  wf : r.currentBuffer.WellFormed
  below : r.currentBuffer.Below r.next
  content : r.currentBuffer.content = out ++ token ++ tail
  fits : (out ++ token ++ tail).length < sizeRange
  behind : tail ≠ []
  begins : r.currentTokenOffset = out.length
  short : token.length < 2 ^ 62
  small : out.length < 2 ^ 63

/-- An offset behind the current token, after the token's length has changed. -/
def shifted (offset old new : Nat) : Nat := sizeSub (sizeAdd offset new) old

/-- `new` stands where `old` stood. Offsets in front of it stay, offsets behind it move
with what they point to. -/
structure Edited (r r' : RewriterImpl) (out old new tail : Bytes) : Prop where
  wf : r'.currentBuffer.WellFormed
  below : r'.currentBuffer.Below r'.next
  content : r'.currentBuffer.content = out ++ new ++ tail
  offset : r.currentBufferOffset < sizeRange →
    r'.currentBufferOffset = shifted r.currentBufferOffset old.length new.length
  next : r.nextTokenOffset < sizeRange →
    r'.nextTokenOffset = shifted r.nextTokenOffset old.length new.length
  frame : r' = { r with
    currentBuffer := r'.currentBuffer, next := r'.next
    currentBufferOffset := r'.currentBufferOffset, currentTokenOffset := r'.currentTokenOffset
    currentTokenEndOffset := r'.currentTokenEndOffset, nextTokenOffset := r'.nextTokenOffset }

/-- The rewriter stands on a header line. -/
structure OnLine (r : RewriterImpl) (out : Bytes) (line : HeaderLine) (tail : Bytes) : Prop where
  spot : Spot r out line.bytes tail
  ends : r.currentTokenEndOffset = out.length + line.text.length
  field : r.currentHeaderFieldOffset = out.length
  fieldEnd : r.currentHeaderFieldEndOffset = out.length + line.name.length
  value : r.currentHeaderValueOffset = out.length + line.text.length - line.value.length
  valueEnd : r.currentHeaderValueEndOffset = out.length + line.text.length

/-- A call on an element of a start line. -/
def EditsToken (acts : Acts δ) (call : DelegateCall δ) (element : Bytes → Event) : Prop :=
  ∀ r d out token tail, Spot r out token tail →
    r.currentTokenEndOffset = out.length + token.length →
    ∃ answer r' d' new, call r d = .ok (answer, r', d') ∧
      acts.edits d (element token) answer new d' ∧ Edited r r' out token new tail ∧
      r'.currentTokenOffset = out.length ∧ r'.currentTokenEndOffset = out.length + new.length

/-- What the rewriter may rely on in a delegate. -/
structure Implements (delegate : Delegate δ) (acts : Acts δ) : Prop where
  method : EditsToken acts delegate.onMethod .method
  url : EditsToken acts delegate.onUrl .url
  version : EditsToken acts delegate.onVersion .version
  status : EditsToken acts delegate.onStatus .status
  header : ∀ r d out line tail, OnLine r out line tail →
    ∃ answer r' d' new, delegate.onHeaderPair r d = .ok (answer, r', d') ∧
      acts.edits d (.header line) answer new d' ∧ Edited r r' out line.bytes new tail
  headerComplete : ∀ r d out tail, Spot r out [] tail →
    ∃ answer r' d' new, delegate.onHeaderComplete r d = .ok (answer, r', d') ∧
      acts.edits d .headersComplete answer new d' ∧ Edited r r' out [] new tail ∧
      r'.currentTokenOffset = out.length + new.length
  messageComplete : ∀ offset upgrade r d,
    ∃ answer d', delegate.onMessageComplete offset upgrade r d = .ok (answer, r, d') ∧
      acts.completes d offset upgrade answer d'

end LibNekit.Canonical
