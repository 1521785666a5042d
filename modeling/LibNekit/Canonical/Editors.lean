import LibNekit.Canonical.Callbacks
import LibNekit.Source.Buffer.Outcomes

/-!
# Delegates that edit once

Such a delegate makes at most one call in a callback: `RewriteCurrentToken` on an element of
a start line, `RewriteCurrentHeader` or `DeleteCurrentHeader` on a header line. What it
chooses may depend on anything it can read. `Tells` is one of its callbacks on an element
that `CurrentToken` and `CurrentHeader` return, and what stands there afterwards.
-/
namespace LibNekit.Canonical

open LibNekit.Source LibNekit.Source.Rewriter LibNekit.Library RewriterImpl

variable {δ : Type} {r r' : RewriterImpl} {out token old new tail : Bytes} {line : HeaderLine}

/-! ## Offsets -/

theorem shifted_same {offset : Nat} (fits : offset < sizeRange) (k : Nat) : shifted offset k k = offset := by
  unfold shifted sizeAdd sizeSub sizeRange at *
  omega

/-- What stays behind an element does not count. -/
theorem shifted_add (offset old new k : Nat) : shifted offset (old + k) (new + k) = shifted offset old new := by
  unfold shifted sizeAdd sizeSub sizeRange
  omega

/-! ## Edits -/

theorem Edited.refl (wf : r.currentBuffer.WellFormed) (below : r.currentBuffer.Below r.next)
    (content : r.currentBuffer.content = out ++ token ++ tail) : Edited r r out token token tail :=
  ⟨wf, below, content, fun fits => (shifted_same fits _).symm, fun fits => (shifted_same fits _).symm, rfl⟩

/-- What was put in place of an element is replaced in its turn. -/
theorem shifted_shifted (offset old new later : Nat) :
    shifted (shifted offset old new) new later = shifted offset old later := by
  unfold shifted sizeAdd sizeSub sizeRange
  omega

theorem Edited.trans {r₁ : RewriterImpl} {middle : Bytes} (one : Edited r r₁ out old middle tail)
    (two : Edited r₁ r' out middle new tail) : Edited r r' out old new tail where
  wf := two.wf
  below := two.below
  content := two.content
  offset fits := by
    have moved := one.offset fits
    rw [two.offset (by rw [moved]; exact shifted_lt _ _ _), moved, shifted_shifted]
  next fits := by
    have moved := one.next fits
    rw [two.next (by rw [moved]; exact shifted_lt _ _ _), moved, shifted_shifted]
  frame := by rw [two.frame, one.frame]

/-- An edit of a part is one of the whole. -/
theorem Edited.extend {stays : Bytes} (edited : Edited r r' out old new (stays ++ tail)) :
    Edited r r' out (old ++ stays) (new ++ stays) tail := by
  refine ⟨edited.wf, edited.below, ?_, ?_, ?_, edited.frame⟩
  · rw [edited.content]
    simp only [List.append_assoc]
  · rw [List.length_append, List.length_append, shifted_add]
    exact edited.offset
  · rw [List.length_append, List.length_append, shifted_add]
    exact edited.next

theorem Spot.size (spot : Spot r out token tail) : r.currentBuffer.size = out.length + token.length + tail.length := by
  rw [← spot.wf.length_content, spot.content, List.length_append, List.length_append]

/-- The rewriter on a token, also one that has been rewritten: it is there, with something behind it. -/
structure Seat (r : RewriterImpl) (out token tail : Bytes) : Prop where
  wf : r.currentBuffer.WellFormed
  below : r.currentBuffer.Below r.next
  content : r.currentBuffer.content = out ++ token ++ tail
  behind : tail ≠ []
  begins : r.currentTokenOffset = out.length
  ends : r.currentTokenEndOffset = out.length + token.length
  short : token.length < 2 ^ 63
  small : out.length < 2 ^ 63

theorem Spot.seat (spot : Spot r out token tail) (ends : r.currentTokenEndOffset = out.length + token.length) :
    Seat r out token tail :=
  ⟨spot.wf, spot.below, spot.content, spot.behind, spot.begins, ends, Nat.lt_trans spot.short (by decide), spot.small⟩

theorem Seat.size (seat : Seat r out token tail) : r.currentBuffer.size = out.length + token.length + tail.length := by
  rw [← seat.wf.length_content, seat.content, List.length_append, List.length_append]

/-- The bytes of the current token. -/
theorem Seat.currentToken (seat : Seat r out token tail) : r.currentToken = .ok token := by
  have size := seat.size
  have short := seat.short
  have small := seat.small
  have behind := List.length_pos_iff.mpr seat.behind
  have range : sizeRange = 2 ^ 64 := rfl
  unfold RewriterImpl.currentToken getStringFromBuffer
  rw [seat.begins, seat.ends, sizeSub_eq (by omega) (by omega), Nat.add_sub_cancel_left,
    seat.wf.getData_eq (by omega) (by omega), seat.content, List.append_assoc, List.drop_left, List.take_left]

theorem Spot.currentToken (spot : Spot r out token tail) (ends : r.currentTokenEndOffset = out.length + token.length) :
    r.currentToken = .ok token := (spot.seat ends).currentToken

/-- The Buffer with room for `new` in the place of the current token. -/
theorem Seat.resizes (seat : Seat r out token tail) (string : new.length < 2 ^ 63) :
    ∃ next b gap, gap.length = new.length ∧ b.WellFormed ∧ b.Below next ∧ b.content = out ++ gap ++ tail ∧
      (if 0 < sizeSub new.length token.length ∧ sizeSub new.length token.length < 2 ^ 63 then
          r.currentBuffer.insertSize r.next out.length (sizeSub new.length token.length)
        else do
          let buffer ← r.currentBuffer.shrink out.length (sizeSub 0 (sizeSub new.length token.length))
          pure (r.next, buffer)) = .ok (next, b) := by
  have size := seat.size
  have short := seat.short
  have behind := List.length_pos_iff.mpr seat.behind
  have range : sizeRange = 2 ^ 64 := rfl
  rcases Nat.lt_or_ge token.length new.length with grows | shrinks
  · have diff : sizeSub new.length token.length = new.length - token.length := sizeSub_eq (by omega) (by omega)
    rw [diff, if_pos (by omega)]
    obtain ⟨next, b, bytes, inserted, holds, gap, gapLength, rfl⟩ :=
      Buffer.insertSize_holds seat.wf seat.below (show out.length ≤ r.currentBuffer.size by omega) (new.length - token.length)
    have sized := holds.sized seat.below
    refine ⟨next, b, gap ++ token, ?_, holds.wf, sized.below, ?_, inserted⟩
    · rw [List.length_append]
      omega
    · rw [holds.content, seat.content, List.append_assoc out, List.take_left, List.drop_left]
      simp only [List.append_assoc]
  · have back : sizeSub 0 (sizeSub new.length token.length) = token.length - new.length := by
      simp only [sizeSub, range]
      omega
    rw [if_neg (by simp only [sizeSub, range]; omega), back]
    obtain ⟨b, shrunk, holds⟩ := Buffer.shrink_holds r.next seat.wf (show out.length < r.currentBuffer.size by omega)
      (show out.length + (token.length - new.length) ≤ r.currentBuffer.size by omega)
    have sized := holds.sized seat.below
    rw [shrunk]
    refine ⟨r.next, b, token.drop (token.length - new.length), ?_, holds.wf, sized.below, ?_, rfl⟩
    · rw [List.length_drop]
      omega
    · rw [holds.content, seat.content, List.append_assoc out, List.take_left, ← List.drop_drop, List.drop_left,
        List.drop_append_of_le_length (by omega), List.append_assoc]

/-- The end of the token moves with its text. -/
theorem Seat.end_moves (seat : Seat r out token tail) (string : new.length < 2 ^ 63) :
    shifted (out.length + token.length) token.length new.length = out.length + new.length := by
  have small := seat.small
  have range : sizeRange = 2 ^ 64 := rfl
  rw [shifted_eq (by omega) (by omega), Nat.add_sub_cancel]

/-- `RewriteCurrentToken` puts `new` in the place of the current token. -/
theorem Seat.rewrites (seat : Seat r out token tail) (string : new.length < 2 ^ 63) :
    ∃ r', r.rewriteCurrentToken new = .ok r' ∧ Edited r r' out token new tail ∧ Seat r' out new tail := by
  have size := seat.size
  have short := seat.short
  have small := seat.small
  have behind := List.length_pos_iff.mpr seat.behind
  have range : sizeRange = 2 ^ 64 := rfl
  have length : sizeSub r.currentTokenEndOffset out.length = token.length := by
    rw [seat.ends, sizeSub_eq (by omega) (by omega), Nat.add_sub_cancel_left]
  obtain ⟨next, b, gap, gapLength, wf, below, content, resized⟩ := seat.resizes string
  have bSize : b.size = out.length + new.length + tail.length := by
    rw [← wf.length_content, content, List.length_append, List.length_append, gapLength]
  obtain ⟨b', written, wf', addrs, -, content'⟩ := wf.setData_eq (show out.length < b.size by omega)
    (show out.length + new.length ≤ b.size by omega)
  have moved (offset : Nat) : sizeAdd offset (sizeSub new.length token.length) = shifted offset token.length new.length := by
    simp only [shifted, sizeAdd, sizeSub, range]
    omega
  have final : b'.content = out ++ new ++ tail := by
    rw [content', content, List.append_assoc out, List.take_left, ← List.drop_drop, List.drop_left, ← gapLength,
      List.drop_left]
  have below' : b'.Below next := fun a member => below a (addrs ▸ member)
  have ran : r.rewriteCurrentToken new = .ok { r with
      next
      currentBuffer := b'
      currentTokenEndOffset := sizeAdd r.currentTokenEndOffset (sizeSub new.length token.length)
      nextTokenOffset := sizeAdd r.nextTokenOffset (sizeSub new.length token.length)
      currentBufferOffset := sizeAdd r.currentBufferOffset (sizeSub new.length token.length) } := by
    unfold rewriteCurrentToken
    rw [seat.begins, length]
    dsimp only
    split_ifs at resized ⊢ with grows
    · rw [resized, ok_bind, written]
      rfl
    · obtain ⟨b₁, shrunk, same⟩ := bind_eq_ok.mp resized
      cases same
      rw [shrunk, ok_bind, pure_eq_ok, ok_bind, written]
      rfl
  refine ⟨_, ran, ⟨wf', below', final, fun _ => moved _, fun _ => moved _, rfl⟩,
    wf', below', final, seat.behind, seat.begins, ?_, string, small⟩
  show sizeAdd r.currentTokenEndOffset _ = _
  rw [moved, seat.ends, seat.end_moves string]

theorem Spot.rewrites (spot : Spot r out token tail) (ends : r.currentTokenEndOffset = out.length + token.length)
    (string : new.length < 2 ^ 63) :
    ∃ r', r.rewriteCurrentToken new = .ok r' ∧ Edited r r' out token new tail ∧ r'.currentTokenOffset = out.length ∧
      r'.currentTokenEndOffset = out.length + new.length := by
  obtain ⟨r', ran, edited, seat⟩ := (spot.seat ends).rewrites string
  exact ⟨r', ran, edited, seat.begins, seat.ends⟩

/-- `DeleteCurrentHeader` takes the token out, with the end of its line. -/
theorem Seat.deletes (seat : Seat r out token (crlf ++ tail)) (behind : tail ≠ []) :
    ∃ r', r.deleteCurrentHeader = .ok r' ∧ Edited r r' out (token ++ crlf) [] tail := by
  have size := seat.size
  have short := seat.short
  have small := seat.small
  have some_bytes := List.length_pos_iff.mpr behind
  have range : sizeRange = 2 ^ 64 := rfl
  have bytes : (token ++ crlf).length = token.length + 2 := List.length_append
  have rest : (crlf ++ tail).length = 2 + tail.length := List.length_append
  have length : sizeAdd (sizeSub r.currentTokenEndOffset r.currentTokenOffset) 2 = (token ++ crlf).length := by
    rw [seat.ends, seat.begins, sizeSub_eq (by omega) (by omega), Nat.add_sub_cancel_left, sizeAdd_eq (by omega), bytes]
  obtain ⟨b, shrunk, holds⟩ := Buffer.shrink_holds r.next seat.wf (show out.length < r.currentBuffer.size by omega)
    (show out.length + (token ++ crlf).length ≤ r.currentBuffer.size by omega)
  have sized := holds.sized seat.below
  have moved (offset : Nat) : sizeSub offset (token ++ crlf).length = shifted offset (token ++ crlf).length ([] : Bytes).length := by
    simp only [shifted, sizeAdd, sizeSub, range, List.length_nil]
    omega
  have content : b.content = out ++ [] ++ tail := by
    rw [holds.content, seat.content, List.append_assoc out, List.take_left, ← List.drop_drop, List.drop_left,
      ← List.append_assoc token, List.drop_left, List.append_nil]
  have ran : r.deleteCurrentHeader = .ok { r with
      currentBuffer := b
      currentBufferOffset := sizeSub r.currentBufferOffset (token ++ crlf).length
      nextTokenOffset := sizeSub r.nextTokenOffset (token ++ crlf).length } := by
    unfold deleteCurrentHeader
    dsimp only
    rw [length, seat.begins, shrunk]
    rfl
  exact ⟨_, ran, ⟨holds.wf, sized.below, content, fun _ => moved _, fun _ => moved _, rfl⟩⟩

/-! ## Header lines -/

/-- The line without its end is a token too. -/
theorem OnLine.text_spot (onLine : OnLine r out line tail) : Spot r out line.text (crlf ++ tail) := by
  have spot := onLine.spot
  have bytes : line.bytes = line.text ++ crlf := rfl
  have length : line.bytes.length = line.text.length + 2 := List.length_append
  have short := spot.short
  have content := spot.content
  have fits := spot.fits
  rw [bytes, ← List.append_assoc out, List.append_assoc (out ++ line.text)] at content fits
  exact ⟨spot.wf, spot.below, content, fits, List.append_ne_nil_of_left_ne_nil (List.cons_ne_nil _ _) _, spot.begins,
    by omega, spot.small⟩

theorem OnLine.seat (onLine : OnLine r out line tail) : Seat r out line.text (crlf ++ tail) :=
  onLine.text_spot.seat onLine.ends

/-- `DeleteCurrentHeader` takes the line out, with its end. -/
theorem OnLine.deletes (onLine : OnLine r out line tail) :
    ∃ r', r.deleteCurrentHeader = .ok r' ∧ Edited r r' out line.bytes [] tail := onLine.seat.deletes onLine.spot.behind

theorem OnLine.currentToken (onLine : OnLine r out line tail) : r.currentToken = .ok line.text :=
  onLine.text_spot.currentToken onLine.ends

theorem OnLine.currentHeader (onLine : OnLine r out line tail) : r.currentHeader = .ok (line.name, line.value) := by
  have spot := onLine.text_spot
  have size := spot.size
  have fits := spot.fits
  have text : line.text = line.name ++ byte ':' :: (line.blanks ++ line.value) := rfl
  have length := congrArg List.length text
  simp only [List.length_append, List.length_cons, crlf, List.length_nil] at size fits length
  have name : r.getStringFromBuffer out.length line.name.length = .ok line.name := by
    unfold getStringFromBuffer
    rw [spot.wf.getData_eq (by omega) (by omega), spot.content, List.append_assoc, List.drop_left, text,
      List.append_assoc, List.take_left]
  have value : r.getStringFromBuffer (out.length + line.text.length - line.value.length) line.value.length =
      .ok line.value := by
    have split : out ++ line.text ++ (crlf ++ tail) =
        (out ++ line.name ++ [byte ':'] ++ line.blanks) ++ (line.value ++ (crlf ++ tail)) := by
      rw [text]
      simp only [List.append_assoc, List.cons_append, List.nil_append]
    have start : out.length + line.text.length - line.value.length =
        (out ++ line.name ++ [byte ':'] ++ line.blanks).length := by
      simp only [List.length_append, List.length_singleton]
      omega
    unfold getStringFromBuffer
    rw [spot.wf.getData_eq (by omega) (by omega), spot.content, split, start, List.drop_left, List.take_left]
  unfold RewriterImpl.currentHeader
  rw [onLine.field, onLine.fieldEnd, sizeSub_eq (by omega) (by omega), Nat.add_sub_cancel_left, name, ok_bind, onLine.value,
    onLine.valueEnd, sizeSub_eq (by omega) (by omega), Nat.sub_sub_self (by omega), value, ok_bind]
  rfl

/-! ## Edits of a delegate -/

inductive TokenEdit where
  | keep
  | rewrite (newToken : Bytes)
  deriving DecidableEq, Repr

inductive HeaderEdit where
  | keep
  | rewrite (header : Header)
  | delete
  deriving DecidableEq, Repr

namespace TokenEdit

def exec (r : RewriterImpl) : TokenEdit → Checked RewriterImpl
  | keep => .ok r
  | rewrite newToken => r.rewriteCurrentToken newToken

/-- What stands in the place of `token` then. -/
def bytes (token : Bytes) : TokenEdit → Bytes
  | keep => token
  | rewrite newToken => newToken

/-- A `std::string` is no longer than this. -/
def Fits : TokenEdit → Prop
  | keep => True
  | rewrite newToken => newToken.length < 2 ^ 63

theorem exec_edits (edit : TokenEdit) (fits : edit.Fits) (spot : Spot r out token tail)
    (ends : r.currentTokenEndOffset = out.length + token.length) :
    ∃ r', edit.exec r = .ok r' ∧ Edited r r' out token (edit.bytes token) tail ∧ r'.currentTokenOffset = out.length ∧
      r'.currentTokenEndOffset = out.length + (edit.bytes token).length := by
  cases edit with
  | keep => exact ⟨r, rfl, .refl spot.wf spot.below spot.content, spot.begins, ends⟩
  | rewrite newToken => exact spot.rewrites ends fits

end TokenEdit

namespace HeaderEdit

def exec (r : RewriterImpl) : HeaderEdit → Checked RewriterImpl
  | keep => .ok r
  | rewrite header => r.rewriteCurrentHeader header
  | delete => r.deleteCurrentHeader

/-- What stands in the place of `line` and its end then. -/
def bytes (line : HeaderLine) : HeaderEdit → Bytes
  | keep => line.bytes
  | rewrite header => headerLine header ++ crlf
  | delete => []

def Fits : HeaderEdit → Prop
  | rewrite header => (headerLine header).length < 2 ^ 63
  | _ => True

theorem exec_edits (edit : HeaderEdit) (fits : edit.Fits) (onLine : OnLine r out line tail) :
    ∃ r', edit.exec r = .ok r' ∧ Edited r r' out line.bytes (edit.bytes line) tail := by
  cases edit with
  | keep => exact ⟨r, rfl, .refl onLine.spot.wf onLine.spot.below onLine.spot.content⟩
  | rewrite header =>
    obtain ⟨r', ran, edited, -, -⟩ := onLine.text_spot.rewrites onLine.ends fits
    exact ⟨r', ran, edited.extend⟩
  | delete => exact onLine.deletes

end HeaderEdit

variable {δ : Type}

/-- What a delegate chooses in its callbacks, whatever it looks at, and what it remembers. -/
structure Editor (δ : Type) where
  method : RewriterImpl → δ → TokenEdit × δ
  url : RewriterImpl → δ → TokenEdit × δ
  version : RewriterImpl → δ → TokenEdit × δ
  status : RewriterImpl → δ → TokenEdit × δ
  headerPair : RewriterImpl → δ → HeaderEdit × δ
  headerComplete : RewriterImpl → δ → δ
  messageComplete : Nat → Bool → RewriterImpl → δ → δ

namespace Editor

/-- A callback on an element of a start line. -/
def onToken (choose : RewriterImpl → δ → TokenEdit × δ) : DelegateCall δ := fun r d => do
  let (edit, d) := choose r d
  return (true, ← edit.exec r, d)

def delegate (editor : Editor δ) : Delegate δ where
  onMethod := onToken editor.method
  onUrl := onToken editor.url
  onVersion := onToken editor.version
  onStatus := onToken editor.status
  onHeaderPair r d := do
    let (edit, d) := editor.headerPair r d
    return (true, ← edit.exec r, d)
  onHeaderComplete r d := .ok (true, r, editor.headerComplete r d)
  onMessageComplete offset upgrade r d := .ok (true, r, editor.messageComplete offset upgrade r d)

/-- Whatever it writes is a `std::string`. -/
structure Fits (editor : Editor δ) : Prop where
  method : ∀ r d, (editor.method r d).1.Fits
  url : ∀ r d, (editor.url r d).1.Fits
  version : ∀ r d, (editor.version r d).1.Fits
  status : ∀ r d, (editor.status r d).1.Fits
  headerPair : ∀ r d, (editor.headerPair r d).1.Fits

/-- A callback finds `token`, and leaves `new`. -/
def TellsToken (choose : RewriterImpl → δ → TokenEdit × δ) (d : δ) (token new : Bytes) (d' : δ) : Prop :=
  ∃ r, r.currentToken = .ok token ∧ new = (choose r d).1.bytes token ∧ d' = (choose r d).2

/-- The callback on an element: what it finds with `CurrentToken` and `CurrentHeader`, and what
it leaves. -/
def Tells (editor : Editor δ) (d : δ) (event : Event) (new : Bytes) (d' : δ) : Prop :=
  match event with
  | .method method => TellsToken editor.method d method new d'
  | .url url => TellsToken editor.url d url new d'
  | .version version => TellsToken editor.version d version new d'
  | .status status => TellsToken editor.status d status new d'
  | .header line => ∃ r, r.currentToken = .ok line.text ∧ r.currentHeader = .ok (line.name, line.value) ∧
      new = (editor.headerPair r d).1.bytes line ∧ d' = (editor.headerPair r d).2
  | .headersComplete => ∃ r, new = [] ∧ d' = editor.headerComplete r d
  | .messageComplete upgrade => ∃ offset r, new = [] ∧ d' = editor.messageComplete offset upgrade r d
  | .raw bytes => new = bytes ∧ d' = d
  | .settled => new = [] ∧ d' = d

/-- The acts of its delegate. -/
def acts (editor : Editor δ) : Acts δ where
  edits d event answer new d' := answer = true ∧ editor.Tells d event new d'
  completes d offset upgrade answer d' := answer = true ∧ ∃ r, d' = editor.messageComplete offset upgrade r d

variable {editor : Editor δ}

theorem acts_answers : ¬editor.acts.Refuses := by
  rintro (⟨d, event, new, d', answer, -⟩ | ⟨d, offset, upgrade, d', answer, -⟩) <;> cases answer

theorem onToken_edits {choose : RewriterImpl → δ → TokenEdit × δ} {element : Bytes → Event} (fits : ∀ r d, (choose r d).1.Fits)
    (tells : ∀ d token new d', TellsToken choose d token new d' → editor.Tells d (element token) new d') :
    EditsToken editor.acts (onToken choose) element := by
  intro r d out token tail spot ends
  obtain ⟨r', ran, edited, begins, stops⟩ := (choose r d).1.exec_edits (fits r d) spot ends
  refine ⟨true, r', (choose r d).2, _, ?_, ⟨rfl, tells _ _ _ _ ⟨r, spot.currentToken ends, rfl, rfl⟩⟩, edited, begins, stops⟩
  show (do return (true, ← (choose r d).1.exec r, (choose r d).2)) = _
  rw [ran]
  rfl

/-- What the rewriter relies on in a delegate that edits once. -/
theorem implements (fits : editor.Fits) : Implements editor.delegate editor.acts where
  method := onToken_edits fits.method fun _ _ _ _ told => told
  url := onToken_edits fits.url fun _ _ _ _ told => told
  version := onToken_edits fits.version fun _ _ _ _ told => told
  status := onToken_edits fits.status fun _ _ _ _ told => told
  header := by
    intro r d out line tail onLine
    obtain ⟨r', ran, edited⟩ := (editor.headerPair r d).1.exec_edits (fits.headerPair r d) onLine
    refine ⟨true, r', (editor.headerPair r d).2, _, ?_,
      ⟨rfl, r, onLine.currentToken, onLine.currentHeader, rfl, rfl⟩, edited⟩
    show (do return (true, ← (editor.headerPair r d).1.exec r, (editor.headerPair r d).2)) = _
    rw [ran]
    rfl
  headerComplete := by
    intro r d out tail spot
    refine ⟨true, r, _, [], rfl, ⟨rfl, r, rfl, rfl⟩, .refl spot.wf spot.below spot.content, ?_⟩
    rw [spot.begins, List.length_nil, Nat.add_zero]
  messageComplete := fun offset upgrade r d => ⟨true, _, rfl, rfl, r, rfl⟩

/-- The callbacks on a stream in order, one for each element, and what they put out. -/
inductive TellsAll (editor : Editor δ) : δ → List Event → Bytes → δ → Prop where
  | nothing (d : δ) : TellsAll editor d [] [] d
  | tells {d d₁ d' : δ} {event : Event} {events : List Event} {new rest : Bytes} (told : editor.Tells d event new d₁)
      (more : TellsAll editor d₁ events rest d') : TellsAll editor d (event :: events) (new ++ rest) d'

theorem TellsAll.append {d d₁ d' : δ} {front back : List Event} {one two : Bytes} (first : editor.TellsAll d front one d₁)
    (second : editor.TellsAll d₁ back two d') : editor.TellsAll d (front ++ back) (one ++ two) d' := by
  induction first with
  | nothing d => exact second
  | tells told more ih =>
    rw [List.cons_append, List.append_assoc]
    exact .tells told (ih second)

theorem performs_tells {event : Event} {g g' : Draft δ} (performed : editor.acts.Performs event g g') :
    ∃ new, editor.Tells g.delegate event new g'.delegate ∧ g'.out = g.out ++ new := by
  cases event with
  | raw bytes =>
    cases performed
    exact ⟨bytes, ⟨rfl, rfl⟩, rfl⟩
  | settled =>
    cases performed
    exact ⟨[], ⟨rfl, rfl⟩, (List.append_nil _).symm⟩
  | messageComplete upgrade =>
    obtain ⟨d, ⟨-, r, same⟩, rfl⟩ := performed
    exact ⟨[], ⟨_, r, rfl, same⟩, (List.append_nil _).symm⟩
  | _ =>
    obtain ⟨new, d, ⟨-, told⟩, rfl⟩ := performed
    exact ⟨new, told, rfl⟩

/-- What a call puts out does not depend on what it began with. -/
theorem performsAll_tells {events : List Event} {g g' : Draft δ} (performed : editor.acts.PerformsAll events g g') :
    ∃ new, editor.TellsAll g.delegate events new g'.delegate ∧ g'.out = g.out ++ new := by
  induction events generalizing g with
  | nil =>
    cases performed
    exact ⟨[], .nothing _, (List.append_nil _).symm⟩
  | cons event events ih =>
    obtain ⟨middle, first, more⟩ := performed
    obtain ⟨new, told, put⟩ := performs_tells first
    obtain ⟨rest, tells, putRest⟩ := ih more
    refine ⟨new ++ rest, .tells told tells, ?_⟩
    rw [putRest, put, List.append_assoc]

/-! ## A record -/

/-- What a callback reads with `CurrentToken` and `CurrentHeader`. -/
abbrev Reading := Option Bytes × Option Header

/-- What there is to read on an element. -/
def readings : Event → List Reading
  | .method token | .url token | .version token | .status token => [(some token, none)]
  | .header line => [(some line.text, some (line.name, line.value))]
  | .headersComplete | .messageComplete _ => [(none, none)]
  | .raw _ | .settled => []

/-- The editor, with a record of what its callbacks read. -/
def recorded (editor : Editor δ) : Editor (δ × List Reading) where
  method r s := ((editor.method r s.1).1, (editor.method r s.1).2, s.2 ++ [(r.currentToken.toOption, none)])
  url r s := ((editor.url r s.1).1, (editor.url r s.1).2, s.2 ++ [(r.currentToken.toOption, none)])
  version r s := ((editor.version r s.1).1, (editor.version r s.1).2, s.2 ++ [(r.currentToken.toOption, none)])
  status r s := ((editor.status r s.1).1, (editor.status r s.1).2, s.2 ++ [(r.currentToken.toOption, none)])
  headerPair r s :=
    ((editor.headerPair r s.1).1, (editor.headerPair r s.1).2,
      s.2 ++ [(r.currentToken.toOption, r.currentHeader.toOption)])
  headerComplete r s := (editor.headerComplete r s.1, s.2 ++ [(none, none)])
  messageComplete offset upgrade r s := (editor.messageComplete offset upgrade r s.1, s.2 ++ [(none, none)])

theorem recorded_fits (fits : editor.Fits) : editor.recorded.Fits where
  method r s := fits.method r s.1
  url r s := fits.url r s.1
  version r s := fits.version r s.1
  status r s := fits.status r s.1
  headerPair r s := fits.headerPair r s.1

theorem recorded_tells {s s' : δ × List Reading} {event : Event} {new : Bytes} (told : editor.recorded.Tells s event new s') :
    editor.Tells s.1 event new s'.1 ∧ s'.2 = s.2 ++ readings event := by
  cases event with
  | method token | url token | version token | status token =>
    obtain ⟨r, reads, rfl, rfl⟩ := told
    refine ⟨⟨r, reads, rfl, rfl⟩, ?_⟩
    show s.2 ++ [(r.currentToken.toOption, none)] = _
    rw [reads]
    rfl
  | header line =>
    obtain ⟨r, reads, header, rfl, rfl⟩ := told
    refine ⟨⟨r, reads, header, rfl, rfl⟩, ?_⟩
    show s.2 ++ [(r.currentToken.toOption, r.currentHeader.toOption)] = _
    rw [reads, header]
    rfl
  | headersComplete =>
    obtain ⟨r, rfl, rfl⟩ := told
    exact ⟨⟨r, rfl, rfl⟩, rfl⟩
  | messageComplete upgrade =>
    obtain ⟨offset, r, rfl, rfl⟩ := told
    exact ⟨⟨offset, r, rfl, rfl⟩, rfl⟩
  | raw bytes | settled =>
    obtain ⟨rfl, rfl⟩ := told
    exact ⟨⟨rfl, rfl⟩, (List.append_nil _).symm⟩

/-- The record is the elements, in their order. -/
theorem recorded_tellsAll {s s' : δ × List Reading} {events : List Event} {text : Bytes}
    (told : editor.recorded.TellsAll s events text s') :
    editor.TellsAll s.1 events text s'.1 ∧ s'.2 = s.2 ++ events.flatMap readings := by
  induction told with
  | nothing s => exact ⟨.nothing _, (List.append_nil _).symm⟩
  | tells told more ih =>
    obtain ⟨tells, reads⟩ := recorded_tells told
    refine ⟨.tells tells ih.1, ?_⟩
    rw [ih.2, reads, List.flatMap_cons, List.append_assoc]

end Editor

end LibNekit.Canonical
