import LibNekit.Canonical.Call

/-!
# The callbacks inside an element

A callback that begins an element tells the delegate of what was complete, and pauses
the parser; the others move offsets, and the parser goes on. Each is followed from
where the rewriter `Stands`, whatever the delegate does with its elements.
-/
namespace LibNekit.Canonical

open LibNekit.Source LibNekit.Source.Rewriter LibNekit.Source.HttpParser LibNekit.Library

variable {δ : Type}

/-! ## Offsets -/

theorem shifted_eq {offset old new : Nat} (behind : old ≤ offset)
    (fits : offset - old + new < sizeRange) : shifted offset old new = offset - old + new := by
  unfold shifted sizeAdd sizeSub sizeRange at *
  omega

theorem sizeAdd_shifted (offset old new parsed : Nat) :
    sizeAdd (shifted offset old new) parsed = shifted (sizeAdd offset parsed) old new := by
  unfold shifted sizeAdd sizeSub sizeRange
  omega

theorem shifted_lt (offset old new : Nat) : shifted offset old new < sizeRange :=
  Nat.mod_lt _ (by unfold sizeRange; omega)

theorem finish_eq {r : RewriterImpl} (calm : r.setToken = false) (n : Nat) :
    finish n r = { r with currentBufferOffset := sizeAdd r.currentBufferOffset n } := by
  unfold finish RewriterImpl.settleToken
  rw [if_neg (by simp [calm])]

namespace Context

variable {x : Context δ} {r r' : RewriterImpl} {g g' : Draft δ} {phase phase' : Phase}
  {p start len n : Nat}

def unread (x : Context δ) (p : Nat) : Bytes := x.data.drop p ++ x.after

/-- What a slice holds of the element that begins at `start`. -/
def piece (x : Context δ) (start len : Nat) : Bytes := (x.data.drop start).take len

theorem piece_length (inside : start + len ≤ x.data.length) : (x.piece start len).length = len := by
  unfold piece
  rw [List.length_take, List.length_drop]
  omega

theorem unread_split (x : Context δ) (start len : Nat) :
    x.unread start = x.piece start len ++ x.unread (start + len) := by
  unfold unread piece
  rw [← List.drop_drop, ← List.append_assoc, List.take_append_drop]

theorem unread_length (inside : start + len ≤ x.data.length) :
    (x.unread start).length = len + (x.unread (start + len)).length := by
  rw [x.unread_split start len, List.length_append, piece_length inside]

/-- The pointer that a callback is given can be found again. -/
theorem Stands.locate (stands : x.Stands r g phase p) {k : Nat} (inside : k < x.data.length) :
    findLocation r { x.slice.data with index := x.slice.data.index + k } = .ok (x.before.length + k) := by
  have size : r.currentBuffer.size = x.before.length + x.data.length + x.after.length := by
    rw [← stands.wf.length_content, stands.content]
    simp only [List.length_append]
  unfold findLocation
  rw [stands.located k inside]
  simp only [ok_bind]
  rw [boostAssert_of (by omega)]
  rfl

/-! ## Inside a callback -/

/-- The rewriter in a callback at `start`, in a call that returns `n`. The next element
begins with `lead`. -/
structure Asked (x : Context δ) (r : RewriterImpl) (lead : Bytes) (start n : Nat) (bytes : Bytes) :
    Prop where
  wf : r.currentBuffer.WellFormed
  below : r.currentBuffer.Below r.next
  content : r.currentBuffer.content = bytes
  fits : bytes.length < sizeRange
  next : r.nextTokenOffset + (lead.length + (x.unread start).length) = bytes.length
  small : r.currentBufferOffset < sizeRange
  ends : sizeAdd r.currentBufferOffset n + (x.unread n).length = bytes.length
  forward : start ≤ n
  setToken : r.setToken = false
  calm : Calm x.setup r

variable {lead bytes : Bytes}

/-- Where the rewriter stands when the callback comes. -/
theorem Stands.asked (stands : x.Stands r g phase start) (token : phase.inToken = true)
    (inside : start + len ≤ x.data.length) {asked : RewriterImpl}
    (same : (asked.currentBuffer, asked.next, asked.currentBufferOffset, asked.setToken) =
      (r.currentBuffer, r.next, r.currentBufferOffset, r.setToken))
    (next : asked.nextTokenOffset + lead.length = x.before.length + start)
    (calm : Calm x.setup asked) :
    x.Asked asked lead start (start + len) (g.out ++ phase.held ++ x.unread start) := by
  simp only [Prod.mk.injEq] at same
  obtain ⟨buffer, address, offset, set⟩ := same
  have position := stands.position
  have bound : g.out.length + phase.held.length + (x.unread start).length < sizeRange := stands.bound
  have split := unread_length inside
  refine ⟨buffer ▸ stands.wf, ?_, ?_, ?_, ?_, ?_, ?_, Nat.le_add_right _ _,
    set.trans (stands.offsets.token token).2, calm⟩
  · rw [buffer, address]
    exact stands.below
  · rw [buffer]
    exact stands.whole
  · simpa only [List.length_append] using bound
  · simp only [List.length_append]
    omega
  · rw [offset, stands.offset]
    omega
  · rw [offset, stands.offset, sizeAdd_eq (by omega), List.length_append, List.length_append]
    omega

theorem Asked.congr (asked : x.Asked r lead start n bytes)
    (same : (r'.currentBuffer, r'.next, r'.currentBufferOffset, r'.nextTokenOffset, r'.setToken) =
      (r.currentBuffer, r.next, r.currentBufferOffset, r.nextTokenOffset, r.setToken))
    (calm : Calm x.setup r') : x.Asked r' lead start n bytes := by
  simp only [Prod.mk.injEq] at same
  obtain ⟨buffer, address, offset, token, set⟩ := same
  refine ⟨buffer ▸ asked.wf, ?_, buffer ▸ asked.content, asked.fits, ?_, ?_, ?_, asked.forward,
    set.trans asked.setToken, calm⟩
  · rw [buffer, address]
    exact asked.below
  · rw [token]
    exact asked.next
  · rw [offset]
    exact asked.small
  · rw [offset]
    exact asked.ends

theorem Asked.spot {out token tail : Bytes} (asked : x.Asked r lead start n (out ++ token ++ tail))
    (behind : tail ≠ []) (begins : r.currentTokenOffset = out.length) (short : token.length < 2 ^ 62)
    (small : out.length < 2 ^ 63) : Spot r out token tail :=
  ⟨asked.wf, asked.below, asked.content, asked.fits, behind, begins, short, small⟩

/-- An edit leaves what lies behind it as far from the end as before. -/
theorem Asked.edited {out old new tail : Bytes} (asked : x.Asked r lead start n (out ++ old ++ tail))
    (edited : Edited r r' out old new tail)
    (behind : lead.length + (x.unread start).length ≤ tail.length)
    (small : (out ++ new).length < 2 ^ 63) (short : tail.length < 2 ^ 62) :
    x.Asked r' lead start n (out ++ new ++ tail) := by
  have fits := asked.fits
  have next := asked.next
  have ends := asked.ends
  have later : (x.unread n).length ≤ (x.unread start).length := by
    have forward := asked.forward
    unfold unread
    simp only [List.length_append, List.length_drop]
    omega
  have range : sizeRange = 2 ^ 64 := rfl
  simp only [List.length_append] at fits next ends small
  have offset := edited.offset asked.small
  have token := edited.next (by omega)
  refine ⟨edited.wf, edited.below, edited.content, ?_, ?_, ?_, ?_, asked.forward, ?_, ?_⟩
  · simp only [List.length_append]
    omega
  · rw [token, shifted_eq (by omega) (by omega)]
    simp only [List.length_append]
    omega
  · rw [offset]
    exact shifted_lt ..
  · rw [offset, sizeAdd_shifted, shifted_eq (by omega) (by omega)]
    simp only [List.length_append]
    omega
  · rw [edited.frame]
    exact asked.setToken
  · rw [edited.frame]
    exact asked.calm.congr rfl

theorem Asked.next_eq {out : Bytes} (asked : x.Asked r lead start n (out ++ lead ++ x.unread start)) :
    r.nextTokenOffset = out.length := by
  have next := asked.next
  rw [List.length_append, List.length_append] at next
  omega

theorem Asked.next_add (asked : x.Asked r lead start n bytes) (count : Nat)
    (inside : count ≤ lead.length + (x.unread start).length) :
    sizeAdd r.nextTokenOffset count = r.nextTokenOffset + count := by
  have next := asked.next
  have fits := asked.fits
  exact sizeAdd_eq (by omega)

/-- How a callback inside an element is answered. -/
inductive Answered (x : Context δ) (g : Draft δ) (events : List Event) (phase : Phase) (n : Nat) :
    Answer δ → Prop
  | refused {r : RewriterImpl} {d : δ} (refuses : x.acts.Refuses)
      (incomplete : r.processMessageComplete = false) : Answered x g events phase n ({ code := -1 }, r, d)
  | pauses {r : RewriterImpl} {g' : Draft δ} (performed : x.acts.PerformsAll events g g')
      (rests : Rests x.setup (finish n r) g' phase (x.unread n)) (calm : r.setToken = false) :
      Answered x g events phase n ({ paused := true }, r, g'.delegate)
  | proceeds {r : RewriterImpl} (silent : events = []) (stands : x.Stands r g phase n) :
      Answered x g events phase n ({}, r, g.delegate)

/-- A call on an element of a start line, in a callback. -/
theorem Asked.ensure {call : DelegateCall δ} {element : Bytes → Event}
    (edits : EditsToken x.acts call element) {out token tail : Bytes} {events : List Event}
    {next : RewriterImpl → δ → Checked (Answer δ)} {d : δ}
    (asked : x.Asked r lead start n (out ++ token ++ tail)) (behind : tail ≠ [])
    (begins : r.currentTokenOffset = out.length)
    (ends : r.currentTokenEndOffset = out.length + token.length) (short : token.length < 2 ^ 62)
    (small : out.length < 2 ^ 63)
    (answered : ∀ new r' d', x.acts.edits d (element token) true new d' →
      Edited r r' out token new tail → r'.currentTokenOffset = out.length →
      r'.currentTokenEndOffset = out.length + new.length →
      Outcome (next r' d') (x.Answered g events phase n) False) :
    Outcome (ensureCallback call r d next) (x.Answered g events phase n) False := by
  obtain ⟨answer, r', d', new, called, acted, edited, first, last⟩ :=
    edits r d out token tail (asked.spot behind begins short small) ends
  unfold ensureCallback
  rw [called]
  cases answer with
  | true => exact answered new r' d' acted edited first last
  | false =>
    refine .refused (Or.inl ⟨_, _, _, _, acted⟩) ?_
    rw [edited.frame]
    exact asked.calm.processMessageComplete

/-- The element that a callback begins is where the rewriter rests. -/
theorem Asked.pauses {events : List Event} {d : δ} {out : Bytes}
    (asked : x.Asked r lead start (start + len) (out ++ lead ++ x.unread start))
    (performed : x.acts.PerformsAll events g ⟨out, d⟩) (small : out.length < 2 ^ 63)
    (inside : start + len ≤ x.data.length) (token : phase.inToken = true)
    (held : phase.held = lead ++ x.piece start len)
    (short : lead.length + (x.unread start).length < 2 ^ 62)
    (offsets : Offsets r out.length phase) :
    Outcome (pauseParser r d) (x.Answered g events phase (start + len)) False := by
  have whole : r.currentBuffer.content = out ++ phase.held ++ x.unread (start + len) := by
    rw [asked.content, held, x.unread_split start len]
    simp only [List.append_assoc]
  have split := unread_length inside
  have ends := asked.ends
  rw [← asked.content, whole, List.length_append, List.length_append] at ends
  refine .pauses performed ?_ asked.setToken
  rw [finish_eq asked.setToken]
  refine ⟨asked.wf, asked.below, whole, ?_, ?_, small,
    ⟨offsets.state, offsets.token, offsets.tokenEnd, offsets.field, offsets.value⟩,
    asked.calm.congr rfl, ?_⟩
  · show sizeAdd r.currentBufferOffset (start + len) = out.length + _
    omega
  · rw [held, List.length_append, piece_length inside]
    omega
  · rintro lag rfl
    cases token

/-- An element that goes on: only its end moves. -/
theorem Stands.goesOn (stands : x.Stands r g phase start) (inside : start + len ≤ x.data.length)
    (held : phase'.held = phase.held ++ x.piece start len)
    (same : (r'.currentBuffer, r'.next, r'.currentBufferOffset) =
      (r.currentBuffer, r.next, r.currentBufferOffset))
    (offsets : Offsets r' g.out.length phase') (calm : Calm x.setup r') :
    x.Stands r' g phase' (start + len) := by
  simp only [Prod.mk.injEq] at same
  obtain ⟨buffer, address, offset⟩ := same
  refine ⟨buffer ▸ stands.wf, ?_, buffer ▸ stands.content, ?_, offset.trans stands.offset, inside, ?_, ?_,
    stands.small, offsets, calm⟩
  · rw [buffer, address]
    exact stands.below
  · rw [buffer]
    exact stands.located
  · rw [held, ← List.append_assoc, stands.split, List.append_assoc, List.take_add]
    rfl
  · have fits : phase.held.length + (x.unread start).length < 2 ^ 62 := stands.fits
    rw [unread_length inside] at fits
    show _ + (x.unread (start + len)).length < 2 ^ 62
    rw [held, List.length_append, piece_length inside]
    omega

/-! ## Targets -/

theorem onUrl_begins (lawful : x.Lawful) {m : Bytes} (stands : x.Stands r g (.target m) start)
    (positive : 0 < len) (inside : start + len ≤ x.data.length)
    (tame : x.acts.Tame [.method m, .raw [space]] g) :
    Outcome (x.handler (.data .url start len) (r, g.delegate))
      (x.Answered g [.method m, .raw [space]] (.url (x.piece start len)) (start + len)) False := by
  have position : g.out.length + (m ++ [space]).length = x.before.length + start := stands.position
  have bound : g.out.length + (m ++ [space]).length + (x.unread start).length < sizeRange := stands.bound
  have fits : (m ++ [space]).length + (x.unread start).length < 2 ^ 62 := stands.fits
  have split := unread_length inside
  simp only [List.length_append, List.length_singleton] at position bound fits
  let before : RewriterImpl := { r with
    nextTokenOffset := x.before.length + start
    currentTokenEndOffset := sizeSub (x.before.length + start) 1 }
  have asked : x.Asked before [] start (start + len) (g.out ++ m ++ space :: x.unread start) := by
    have whole : g.out ++ (Phase.target m).held ++ x.unread start =
        g.out ++ m ++ space :: x.unread start := by simp [Phase.held]
    exact whole ▸ stands.asked rfl inside rfl rfl (stands.calm.congr rfl)
  have ends : before.currentTokenEndOffset = g.out.length + m.length := by
    show sizeSub (x.before.length + start) 1 = _
    rw [sizeSub_eq] <;> omega
  have state : r.state = .method := stands.offsets.state
  unfold handler parserSettings onUrl
  dsimp only
  split
  · exact absurd (state.symm.trans ‹_›) (by decide)
  rotate_left
  · exact absurd state ‹_›
  rw [stands.locate (by omega : start < x.data.length), ok_bind]
  refine asked.ensure lawful.implements.method (by simp) (stands.offsets.token rfl).1 ends (by omega) stands.small ?_
  intro new r' d' acted edited _ _
  have performed : x.acts.PerformsAll [.method m, .raw [space]] g ⟨g.out ++ new ++ [space], d'⟩ :=
    ⟨_, ⟨new, d', acted, rfl⟩, _, rfl, rfl⟩
  have small := tame _ [] _ (List.append_nil _).symm performed
  have now := asked.edited edited (by rw [List.length_nil, List.length_cons]; omega)
    (by simp only [List.length_append, List.length_singleton] at small ⊢; omega)
    (by rw [List.length_cons]; omega)
  rw [List.append_cons, ← List.append_nil (g.out ++ new ++ [space])] at now
  have next := now.next_eq
  have after := now.next_add len (by omega)
  refine Asked.pauses (now.congr rfl (now.calm.congr rfl)) performed small inside rfl rfl
    (by rw [List.length_nil]; omega) ⟨rfl, fun _ => ⟨next, now.setToken⟩, ?_, nofun, nofun⟩
  rintro e same
  cases same
  show sizeAdd r'.nextTokenOffset len = _
  rw [after, next, piece_length inside]

/-- The end of the element that is under way moves with it. -/
theorem Stands.end_add (stands : x.Stands r g phase start) (inside : start + len ≤ x.data.length)
    {e : Nat} (ends : e ∈ phase.tokenEnd) (within : e ≤ phase.held.length) :
    sizeAdd r.currentTokenEndOffset len = g.out.length + (e + len) := by
  have bound : g.out.length + phase.held.length + (x.unread start).length < sizeRange := stands.bound
  have split := unread_length inside
  rw [stands.offsets.tokenEnd e ends, sizeAdd_eq (by omega), Nat.add_assoc]

theorem onUrl_goesOn {u : Bytes} (stands : x.Stands r g (.url u) start)
    (inside : start + len ≤ x.data.length) :
    Outcome (x.handler (.data .url start len) (r, g.delegate))
      (x.Answered g [] (.url (u ++ x.piece start len)) (start + len)) False := by
  have state : r.state = .url := stands.offsets.state
  have ends := stands.end_add inside (Option.mem_some_self u.length) (Nat.le_refl _)
  unfold handler parserSettings onUrl
  dsimp only
  split
  rotate_left
  · exact absurd (state.symm.trans ‹_›) (by decide)
  · exact absurd state ‹_›
  refine .proceeds rfl (stands.goesOn inside rfl rfl ⟨state, stands.offsets.token, ?_, nofun, nofun⟩
    (stands.calm.congr rfl))
  rintro e same
  cases same
  rw [List.length_append, piece_length inside]
  exact ends

/-! ## Status lines -/

theorem onStatus_begins (lawful : x.Lawful) {v k : Bytes} (three : k.length = 3)
    (stands : x.Stands r g (.reason v k) start) (inside : start + len ≤ x.data.length)
    (here : start < x.data.length) (tame : x.acts.Tame [.version v, .raw [space]] g) :
    Outcome (x.handler (.data .status start len) (r, g.delegate))
      (x.Answered g [.version v, .raw [space]] (.status (k ++ [space] ++ x.piece start len))
        (start + len)) False := by
  have position : g.out.length + (v ++ space :: (k ++ [space])).length = x.before.length + start :=
    stands.position
  have bound : g.out.length + (v ++ space :: (k ++ [space])).length + (x.unread start).length < sizeRange :=
    stands.bound
  have fits : (v ++ space :: (k ++ [space])).length + (x.unread start).length < 2 ^ 62 := stands.fits
  have split := unread_length inside
  have lead : (k ++ [space]).length = 4 := by rw [List.length_append, three, List.length_singleton]
  simp only [List.length_append, List.length_cons, List.length_nil, three] at position bound fits
  let before : RewriterImpl := { r with
    nextTokenOffset := sizeSub (x.before.length + start) 4
    currentTokenEndOffset := sizeSub (x.before.length + start) 5 }
  have asked : x.Asked before (k ++ [space]) start (start + len)
      (g.out ++ v ++ space :: (k ++ [space] ++ x.unread start)) := by
    have whole : g.out ++ (Phase.reason v k).held ++ x.unread start =
        g.out ++ v ++ space :: (k ++ [space] ++ x.unread start) := by simp [Phase.held]
    refine whole ▸ stands.asked rfl inside rfl ?_ (stands.calm.congr rfl)
    show sizeSub (x.before.length + start) 4 + _ = _
    rw [sizeSub_eq] <;> omega
  have ends : before.currentTokenEndOffset = g.out.length + v.length := by
    show sizeSub (x.before.length + start) 5 = _
    rw [sizeSub_eq] <;> omega
  have state : r.state = .version := stands.offsets.state
  unfold handler parserSettings onStatus
  dsimp only
  split
  rotate_left
  · exact absurd (state.symm.trans ‹_›) (by decide)
  · exact absurd state ‹_›
  rw [stands.locate here, ok_bind, boostAssert_of (by omega), ok_bind]
  refine asked.ensure lawful.implements.version (by simp) (stands.offsets.token rfl).1 ends (by omega) stands.small ?_
  intro new r' d' acted edited _ _
  have performed : x.acts.PerformsAll [.version v, .raw [space]] g ⟨g.out ++ new ++ [space], d'⟩ :=
    ⟨_, ⟨new, d', acted, rfl⟩, _, rfl, rfl⟩
  have small := tame _ [] _ (List.append_nil _).symm performed
  have now := asked.edited edited (by simp only [List.length_append, List.length_cons]; omega)
    (by simp only [List.length_append, List.length_singleton] at small ⊢; omega)
    (by simp only [List.length_append, List.length_cons, List.length_nil, three]; omega)
  have whole : g.out ++ new ++ space :: (k ++ [space] ++ x.unread start) =
      g.out ++ new ++ [space] ++ (k ++ [space]) ++ x.unread start := by simp
  rw [whole] at now
  have next := now.next_eq
  have room := now.fits
  simp only [List.length_append, List.length_singleton] at room next
  refine Asked.pauses (now.congr rfl (now.calm.congr rfl)) performed small inside rfl rfl
    (by omega) ⟨rfl, fun _ => ⟨now.next_eq, now.setToken⟩, ?_, nofun, nofun⟩
  rintro e same
  cases same
  show sizeAdd (sizeAdd r'.nextTokenOffset len) 4 = _
  rw [now.next_add len (by omega), sizeAdd_eq (by omega)]
  simp only [List.length_append, List.length_singleton, piece_length inside]
  omega

theorem onStatus_goesOn {text : Bytes} (stands : x.Stands r g (.status text) start)
    (inside : start + len ≤ x.data.length) :
    Outcome (x.handler (.data .status start len) (r, g.delegate))
      (x.Answered g [] (.status (text ++ x.piece start len)) (start + len)) False := by
  have state : r.state = .status := stands.offsets.state
  have ends := stands.end_add inside (Option.mem_some_self text.length) (Nat.le_refl _)
  unfold handler parserSettings onStatus
  dsimp only
  split
  · exact absurd (state.symm.trans ‹_›) (by decide)
  rotate_left
  · exact absurd state ‹_›
  refine .proceeds rfl (stands.goesOn inside rfl rfl ⟨state, stands.offsets.token, ?_, nofun, nofun⟩
    (stands.calm.congr rfl))
  rintro e same
  cases same
  rw [List.length_append, piece_length inside]
  exact ends

/-! ## Header names -/

theorem Asked.beginHeader {events : List Event} {d : δ} {out : Bytes}
    (asked : x.Asked r [] start (start + len) (out ++ x.unread start))
    (performed : x.acts.PerformsAll events g ⟨out, d⟩) (small : out.length < 2 ^ 63)
    (inside : start + len ≤ x.data.length) (short : (x.unread start).length < 2 ^ 62) :
    Outcome (beginHeader len r d) (x.Answered g events (.name (x.piece start len)) (start + len))
      False := by
  rw [← List.append_nil out] at asked
  have next := asked.next_eq
  have split := unread_length inside
  have after := asked.next_add len (by omega)
  have length := @piece_length _ x start len inside
  refine Asked.pauses (asked.congr rfl (asked.calm.congr rfl)) performed small inside rfl rfl
    (by rw [List.length_nil]; omega) ⟨rfl, fun _ => ⟨next, asked.setToken⟩, ?_, ?_, nofun⟩
  · rintro e same
    cases same
    show sizeAdd r.nextTokenOffset len = _
    rw [after, next, length]
  · rintro line same
    cases same
    refine ⟨next, ?_⟩
    show sizeAdd r.nextTokenOffset len = out.length + (x.piece start len).length
    rw [after, next, length]

theorem onHeaderField_request (lawful : x.Lawful) {target version : Bytes}
    (stands : x.Stands r g (.lineEnd (.request target version)) start) (positive : 0 < len)
    (inside : start + len ≤ x.data.length)
    (tame : x.acts.Tame (Line.request target version).events g) :
    Outcome (x.handler (.data .headerField start len) (r, g.delegate))
      (x.Answered g (Line.request target version).events (.name (x.piece start len)) (start + len))
      False := by
  have fits : (target ++ space :: version ++ crlf).length + (x.unread start).length < 2 ^ 62 := stands.fits
  simp only [List.length_append, List.length_cons, crlf, List.length_nil] at fits
  have split := unread_length inside
  have located := stands.locate (by omega : start < x.data.length)
  have state : r.state = .url := stands.offsets.state
  let before : RewriterImpl := { r with nextTokenOffset := x.before.length + start }
  have asked : x.Asked before [] start (start + len)
      (g.out ++ target ++ (space :: version ++ crlf ++ x.unread start)) := by
    have whole : g.out ++ (Phase.lineEnd (.request target version)).held ++ x.unread start =
        g.out ++ target ++ (space :: version ++ crlf ++ x.unread start) := by simp [Phase.held, Line.text]
    exact whole ▸ stands.asked rfl inside rfl rfl (stands.calm.congr rfl)
  unfold handler parserSettings onHeaderField
  dsimp only
  split
  rotate_left
  · exact absurd (state.symm.trans ‹_›) (by decide)
  · exact absurd (state.symm.trans ‹_›) (by decide)
  · exact absurd (state.symm.trans ‹_›) (by decide)
  · exact absurd state ‹_›
  rw [located, ok_bind]
  refine asked.ensure lawful.implements.url (by simp) (stands.offsets.token rfl).1
    (stands.offsets.tokenEnd _ rfl) (by omega) stands.small ?_
  intro newUrl r₁ d₁ actedUrl editedUrl firstUrl lastUrl
  have performedUrl : x.acts.PerformsAll [.url target] g ⟨g.out ++ newUrl, d₁⟩ :=
    ⟨_, ⟨newUrl, d₁, actedUrl, rfl⟩, rfl⟩
  have smallUrl := tame [.url target] _ _ rfl performedUrl
  have smallBlank := tame [.url target, .raw [space]] _ ⟨g.out ++ newUrl ++ [space], d₁⟩ rfl
    ⟨_, ⟨newUrl, d₁, actedUrl, rfl⟩, _, rfl, rfl⟩
  have between := asked.edited editedUrl
    (by simp only [List.length_append, List.length_nil]; omega) smallUrl
    (by simp only [List.length_append, List.length_cons, crlf, List.length_nil]; omega)
  have whole : g.out ++ newUrl ++ (space :: version ++ crlf ++ x.unread start) =
      g.out ++ newUrl ++ [space] ++ version ++ (crlf ++ x.unread start) := by simp
  rw [whole] at between
  have total := between.fits
  have next := between.next
  simp only [List.length_append, List.length_cons, crlf, List.length_nil] at total next
  let resumed : RewriterImpl := { r₁ with
    currentTokenOffset := sizeAdd r₁.currentTokenEndOffset 1
    currentTokenEndOffset := sizeSub r₁.nextTokenOffset 2 }
  have again : x.Asked resumed [] start (start + len)
      (g.out ++ newUrl ++ [space] ++ version ++ (crlf ++ x.unread start)) :=
    between.congr rfl (between.calm.congr rfl)
  refine again.ensure lawful.implements.version (by simp [crlf]) ?_ ?_ (by omega) smallBlank ?_
  · show sizeAdd r₁.currentTokenEndOffset 1 = _
    rw [lastUrl, sizeAdd_eq (by omega)]
    simp only [List.length_append, List.length_singleton]
  · show sizeSub r₁.nextTokenOffset 2 = _
    rw [sizeSub_eq (by omega) (by omega)]
    simp only [List.length_append, List.length_singleton]
    omega
  intro new r' d' acted edited _ _
  have performed : x.acts.PerformsAll (Line.request target version).events g
      ⟨g.out ++ newUrl ++ [space] ++ new ++ crlf, d'⟩ :=
    ⟨_, ⟨newUrl, d₁, actedUrl, rfl⟩, _, rfl, _, ⟨new, d', acted, rfl⟩, _, rfl, rfl⟩
  have small := tame _ [] _ (List.append_nil _).symm performed
  have now := again.edited edited
    (by simp only [List.length_append, List.length_nil]; omega)
    (by simp only [List.length_append] at small ⊢; omega)
    (by simp only [List.length_append, List.length_cons, crlf, List.length_nil]; omega)
  rw [← List.append_assoc (g.out ++ newUrl ++ [space] ++ new)] at now
  exact now.beginHeader performed small inside (by omega)

theorem onHeaderField_status (lawful : x.Lawful) {text : Bytes}
    (stands : x.Stands r g (.lineEnd (.status text)) start) (positive : 0 < len)
    (inside : start + len ≤ x.data.length) (tame : x.acts.Tame (Line.status text).events g) :
    Outcome (x.handler (.data .headerField start len) (r, g.delegate))
      (x.Answered g (Line.status text).events (.name (x.piece start len)) (start + len)) False := by
  have fits : (text ++ crlf).length + (x.unread start).length < 2 ^ 62 := stands.fits
  have split := unread_length inside
  have located := stands.locate (by omega : start < x.data.length)
  have state : r.state = .status := stands.offsets.state
  let before : RewriterImpl := { r with nextTokenOffset := x.before.length + start }
  have asked : x.Asked before [] start (start + len) (g.out ++ text ++ (crlf ++ x.unread start)) := by
    have whole : g.out ++ (Phase.lineEnd (.status text)).held ++ x.unread start =
        g.out ++ text ++ (crlf ++ x.unread start) := by simp [Phase.held, Line.text]
    exact whole ▸ stands.asked rfl inside rfl rfl (stands.calm.congr rfl)
  simp only [List.length_append, List.length_cons, crlf, List.length_nil] at fits
  unfold handler parserSettings onHeaderField
  dsimp only
  split
  · exact absurd (state.symm.trans ‹_›) (by decide)
  rotate_left
  · exact absurd (state.symm.trans ‹_›) (by decide)
  · exact absurd (state.symm.trans ‹_›) (by decide)
  · exact absurd state ‹_›
  rw [located, ok_bind]
  refine asked.ensure lawful.implements.status (by simp [crlf]) (stands.offsets.token rfl).1
    (stands.offsets.tokenEnd _ rfl) (by omega) stands.small ?_
  intro new r' d' acted edited _ _
  have performed : x.acts.PerformsAll (Line.status text).events g ⟨g.out ++ new ++ crlf, d'⟩ :=
    ⟨_, ⟨new, d', acted, rfl⟩, _, rfl, rfl⟩
  have small := tame _ [] _ (List.append_nil _).symm performed
  have now := asked.edited edited (by simp only [List.length_append, List.length_nil]; omega)
    (by simp only [List.length_append] at small ⊢; omega)
    (by simp only [List.length_append, List.length_cons, crlf, List.length_nil]; omega)
  rw [← List.append_assoc] at now
  exact now.beginHeader performed small inside (by omega)

/-- The rewriter stands on a header line that is complete. -/
theorem Asked.onLine {out tail : Bytes} {line : HeaderLine}
    (asked : x.Asked r lead start n (out ++ line.bytes ++ tail)) (behind : tail ≠ [])
    (begins : r.currentTokenOffset = out.length)
    (ends : r.currentTokenEndOffset = out.length + line.text.length)
    (field : r.currentHeaderFieldOffset = out.length ∧
      r.currentHeaderFieldEndOffset = out.length + line.name.length)
    (value : r.currentHeaderValueOffset = out.length + line.valueStart ∧
      r.currentHeaderValueEndOffset = out.length + line.text.length) (short : line.bytes.length < 2 ^ 62)
    (small : out.length < 2 ^ 63) : OnLine r out line tail := by
  refine ⟨asked.spot behind begins short small, ends, field.1, field.2, ?_, value.2⟩
  have within : line.value.length ≤ line.text.length := by
    unfold HeaderLine.text
    simp only [List.length_append, List.length_cons]
    omega
  rw [value.1, HeaderLine.valueStart]
  omega

/-- The call on a header line, in a callback. -/
theorem Asked.ensureLine (lawful : x.Lawful) {out tail : Bytes} {line : HeaderLine} {events : List Event}
    {next : RewriterImpl → δ → Checked (Answer δ)} {d : δ}
    (asked : x.Asked r lead start n (out ++ line.bytes ++ tail)) (onLine : OnLine r out line tail)
    (answered : ∀ new r' d', x.acts.edits d (.header line) true new d' →
      Edited r r' out line.bytes new tail → Outcome (next r' d') (x.Answered g events phase n) False) :
    Outcome (ensureCallback x.delegate.onHeaderPair r d next) (x.Answered g events phase n) False := by
  obtain ⟨answer, r', d', new, called, acted, edited⟩ := lawful.implements.header r d out line tail onLine
  unfold ensureCallback
  rw [called]
  cases answer with
  | true => exact answered new r' d' acted edited
  | false =>
    refine .refused (Or.inl ⟨_, _, _, _, acted⟩) ?_
    rw [edited.frame]
    exact asked.calm.processMessageComplete

theorem onHeaderField_header (lawful : x.Lawful) {line : HeaderLine}
    (stands : x.Stands r g (.lineEnd (.header line)) start) (positive : 0 < len)
    (inside : start + len ≤ x.data.length) (tame : x.acts.Tame (Line.header line).events g) :
    Outcome (x.handler (.data .headerField start len) (r, g.delegate))
      (x.Answered g (Line.header line).events (.name (x.piece start len)) (start + len)) False := by
  have fits : line.bytes.length + (x.unread start).length < 2 ^ 62 := stands.fits
  have split := unread_length inside
  have behind : x.unread start ≠ [] := List.ne_nil_of_length_pos (by omega)
  have located := stands.locate (by omega : start < x.data.length)
  have state : r.state = .headerValue := stands.offsets.state
  have ends := stands.offsets.tokenEnd _ rfl
  have value := stands.offsets.value _ rfl
  let before : RewriterImpl := { r with
    nextTokenOffset := x.before.length + start
    currentHeaderValueEndOffset := r.currentTokenEndOffset }
  have asked : x.Asked before [] start (start + len) (g.out ++ line.bytes ++ x.unread start) :=
    stands.asked rfl inside rfl rfl (stands.calm.congr rfl)
  have onLine : OnLine before g.out line (x.unread start) :=
    asked.onLine behind (stands.offsets.token rfl).1 ends (stands.offsets.field _ rfl) ⟨value.1, ends⟩
      (by omega) stands.small
  unfold handler parserSettings onHeaderField
  dsimp only
  split
  · exact absurd (state.symm.trans ‹_›) (by decide)
  · exact absurd (state.symm.trans ‹_›) (by decide)
  · exact absurd (state.symm.trans ‹_›) (by decide)
  rotate_left
  · exact absurd state ‹_›
  rw [located, ok_bind]
  refine asked.ensureLine lawful onLine ?_
  intro new r' d' acted edited
  have performed : x.acts.PerformsAll (Line.header line).events g ⟨g.out ++ new, d'⟩ :=
    ⟨_, ⟨new, d', acted, rfl⟩, rfl⟩
  have small := tame _ [] _ (List.append_nil _).symm performed
  have now := asked.edited edited (by rw [List.length_nil]; omega) small (by omega)
  exact now.beginHeader performed small inside (by omega)

theorem onHeaderField_begins (lawful : x.Lawful) {line : Line}
    (stands : x.Stands r g (.lineEnd line) start) (positive : 0 < len)
    (inside : start + len ≤ x.data.length) (tame : x.acts.Tame line.events g) :
    Outcome (x.handler (.data .headerField start len) (r, g.delegate))
      (x.Answered g line.events (.name (x.piece start len)) (start + len)) False := by
  cases line with
  | request target version => exact onHeaderField_request lawful stands positive inside tame
  | status text => exact onHeaderField_status lawful stands positive inside tame
  | header line => exact onHeaderField_header lawful stands positive inside tame

theorem onHeaderField_goesOn {n : Bytes} (stands : x.Stands r g (.name n) start)
    (inside : start + len ≤ x.data.length) :
    Outcome (x.handler (.data .headerField start len) (r, g.delegate))
      (x.Answered g [] (.name (n ++ x.piece start len)) (start + len)) False := by
  have state : r.state = .headerField := stands.offsets.state
  have ends := stands.end_add inside (Option.mem_some_self n.length) (Nat.le_refl _)
  have field := stands.offsets.field _ rfl
  have same := stands.offsets.tokenEnd _ rfl
  unfold handler parserSettings onHeaderField
  dsimp only
  split
  · exact absurd (state.symm.trans ‹_›) (by decide)
  · exact absurd (state.symm.trans ‹_›) (by decide)
  rotate_left
  · exact absurd (state.symm.trans ‹_›) (by decide)
  · exact absurd state ‹_›
  refine .proceeds rfl (stands.goesOn inside rfl rfl ⟨state, stands.offsets.token, ?_, ?_, nofun⟩
    (stands.calm.congr rfl))
  · rintro e same
    cases same
    rw [List.length_append, piece_length inside]
    exact ends
  · rintro line same
    cases same
    refine ⟨field.1, ?_⟩
    show sizeAdd r.currentHeaderFieldEndOffset len = g.out.length + (n ++ x.piece start len).length
    rw [List.length_append, piece_length inside, field.2, ← same]
    exact ends

/-! ## Header values -/

theorem onHeaderValue_begins {n b : Bytes} (stands : x.Stands r g (.blanks n b) start)
    (positive : 0 < len) (inside : start + len ≤ x.data.length) :
    Outcome (x.handler (.data .headerValue start len) (r, g.delegate))
      (x.Answered g [] (.value n b (x.piece start len)) (start + len)) False := by
  have state : r.state = .headerField := stands.offsets.state
  have position : g.out.length + (HeaderLine.text ⟨n, b, []⟩).length = x.before.length + start :=
    stands.position
  have bound : g.out.length + (HeaderLine.text ⟨n, b, []⟩).length + (x.unread start).length < sizeRange :=
    stands.bound
  have split := unread_length inside
  have located := stands.locate (by omega : start < x.data.length)
  have field := stands.offsets.field _ rfl
  have text : HeaderLine.text ⟨n, b, x.piece start len⟩ =
      HeaderLine.text ⟨n, b, []⟩ ++ x.piece start len := by simp [HeaderLine.text]
  have length := congrArg List.length text
  rw [List.length_append, piece_length inside] at length
  have stop : sizeAdd (x.before.length + start) len =
      g.out.length + (HeaderLine.text ⟨n, b, x.piece start len⟩).length := by
    rw [sizeAdd_eq (by omega)]
    omega
  unfold handler parserSettings onHeaderValue
  dsimp only
  split
  · exact absurd (state.symm.trans ‹_›) (by decide)
  rotate_left
  · exact absurd state ‹_›
  rw [located, ok_bind, if_pos (by omega)]
  refine .proceeds rfl (stands.goesOn inside text rfl ⟨rfl, stands.offsets.token, ?_, ?_, ?_⟩
    (stands.calm.congr rfl))
  · rintro e same
    cases same
    exact stop
  · rintro line same
    cases same
    exact field
  · rintro line same
    cases same
    refine ⟨?_, stop⟩
    show x.before.length + start = _
    rw [HeaderLine.valueStart, length, piece_length inside]
    omega

/-- A line without a value is reported at the byte behind its end. -/
theorem onHeaderValue_empty {n b : Bytes} (stands : x.Stands r g (.emptyEnd n b) start)
    (here : start < x.data.length) :
    ∃ r', x.handler (.data .headerValue start 0) (r, g.delegate) = .ok ({}, r', g.delegate) ∧
      x.Stands r' g (.lineEnd (.header ⟨n, b, []⟩)) start := by
  have state : r.state = .headerField := stands.offsets.state
  have position : g.out.length + (HeaderLine.text ⟨n, b, []⟩ ++ crlf).length = x.before.length + start :=
    stands.position
  have bound : g.out.length + (HeaderLine.text ⟨n, b, []⟩ ++ crlf).length + (x.unread start).length <
    sizeRange := stands.bound
  simp only [List.length_append, crlf, List.length_cons, List.length_nil] at position bound
  have stop : sizeSub (x.before.length + start) 2 =
      g.out.length + (HeaderLine.text ⟨n, b, []⟩).length := by
    rw [sizeSub_eq (by omega) (by omega)]
    omega
  unfold handler parserSettings onHeaderValue
  dsimp only
  split
  · exact absurd (state.symm.trans ‹_›) (by decide)
  rotate_left
  · exact absurd state ‹_›
  rw [stands.locate here, ok_bind, if_neg (by simp)]
  have held : (Phase.lineEnd (.header ⟨n, b, []⟩)).held = (Phase.emptyEnd n b).held ++ x.piece start 0 :=
    (List.append_nil _).symm
  refine ⟨_, rfl, Stands.goesOn stands (Nat.le_of_lt here) held rfl ⟨rfl, stands.offsets.token, ?_, ?_, ?_⟩
    (stands.calm.congr rfl)⟩
  · rintro e same
    cases same
    exact stop
  · rintro line same
    cases same
    exact stands.offsets.field _ rfl
  · rintro line same
    cases same
    exact ⟨stop, stop⟩

theorem onHeaderValue_goesOn {n b v : Bytes} (stands : x.Stands r g (.value n b v) start)
    (inside : start + len ≤ x.data.length) :
    Outcome (x.handler (.data .headerValue start len) (r, g.delegate))
      (x.Answered g [] (.value n b (v ++ x.piece start len)) (start + len)) False := by
  have state : r.state = .headerValue := stands.offsets.state
  have ends := stands.end_add inside (Option.mem_some_self (HeaderLine.text ⟨n, b, v⟩).length)
    (Nat.le_refl _)
  have field := stands.offsets.field _ rfl
  have value := stands.offsets.value _ rfl
  have same := stands.offsets.tokenEnd _ rfl
  have text : HeaderLine.text ⟨n, b, v ++ x.piece start len⟩ =
      HeaderLine.text ⟨n, b, v⟩ ++ x.piece start len := by simp [HeaderLine.text]
  have length := congrArg List.length text
  rw [List.length_append, piece_length inside] at length
  unfold handler parserSettings onHeaderValue
  dsimp only
  split
  rotate_left
  · exact absurd (state.symm.trans ‹_›) (by decide)
  · exact absurd state ‹_›
  refine .proceeds rfl (stands.goesOn inside text rfl ⟨state, stands.offsets.token, ?_, ?_, ?_⟩
    (stands.calm.congr rfl))
  · rintro e same
    cases same
    exact ends.trans (congrArg _ length.symm)
  · rintro line same
    cases same
    exact field
  · rintro line same
    cases same
    refine ⟨value.1.trans (congrArg _ ?_), ?_⟩
    · rw [HeaderLine.valueStart, HeaderLine.valueStart, length, List.length_append, piece_length inside]
      dsimp only
      omega
    · show sizeAdd r.currentHeaderValueEndOffset len = _
      rw [value.2, ← same, length]
      exact ends

/-! ## The end of a header block -/

/-- How `on_headers_complete` is answered behind a header line. -/
inductive Closed (x : Context δ) (g : Draft δ) (events : List Event) (p : Nat) : Answer δ → Prop
  | refused {r : RewriterImpl} {d : δ} (refuses : x.acts.Refuses)
      (incomplete : r.processMessageComplete = false) : Closed x g events p ({ code := -1 }, r, d)
  | pauses {r : RewriterImpl} {g' : Draft δ} (performed : x.acts.PerformsAll events g g')
      (rests : Rests x.setup (finish p r) g' (.headersDone 1) (x.unread p)) :
      Closed x g events p
        ({ code := if x.setup.skipBody then 1 else 0, paused := true }, r, g'.delegate)

/-- The call at the end of the block: the rewriter stands in front of the last CR. -/
theorem Asked.closes (lawful : x.Lawful) {events : List Event} {out : Bytes} {d : δ}
    (asked : x.Asked r [cr] p p (out ++ [] ++ cr :: x.unread p)) (begins : r.currentTokenOffset = out.length)
    (performed : x.acts.PerformsAll events g ⟨out, d⟩)
    (tame : x.acts.Tame [.headersComplete, .raw [cr]] ⟨out, d⟩) (short : (x.unread p).length + 1 < 2 ^ 62)
    (next : (x.unread p).head? = some lf) :
    Outcome (ensureCallback x.delegate.onHeaderComplete r d fun r d =>
        .ok ({ code := if r.skipBody then 1 else 0, paused := true }, { r with state := .body }, d))
      (x.Closed g (events ++ [.headersComplete, .raw [cr]]) p) False := by
  obtain ⟨answer, r', d', new, called, acted, edited, token⟩ :=
    lawful.implements.headerComplete r d out _ (asked.spot (by simp) begins (by simp) tame.small)
  unfold ensureCallback
  rw [called]
  cases answer with
  | false =>
    refine .refused (Or.inl ⟨_, _, _, _, acted⟩) ?_
    rw [edited.frame]
    exact asked.calm.processMessageComplete
  | true =>
    have closing : x.acts.PerformsAll [.headersComplete, .raw [cr]] ⟨out, d⟩ ⟨out ++ new ++ [cr], d'⟩ :=
      ⟨_, ⟨new, d', acted, rfl⟩, _, rfl, rfl⟩
    have small := tame _ [] _ (List.append_nil _).symm closing
    have last := asked.edited edited (by simp only [List.length_cons, List.length_nil]; omega)
      (by simp only [List.length_append] at small ⊢; omega) (by rw [List.length_cons]; omega)
    rw [List.append_cons] at last
    have ends := last.ends
    rw [List.length_append] at ends
    simp only [ok_bind, if_true]
    rw [last.calm.skipBody]
    refine .pauses (performed.append closing) ?_
    rw [finish_eq]
    rotate_left
    · exact last.setToken
    refine ⟨last.wf, last.below, ?_, ?_, ?_, small, ⟨rfl, nofun, nofun, nofun, nofun⟩,
      last.calm.congr (by rw [← last.calm.skipBody]), ?_⟩
    · rw [Phase.held, List.append_nil]
      exact last.content
    · show sizeAdd r'.currentBufferOffset p = (out ++ new ++ [cr]).length + 0
      omega
    · show 0 + (x.unread p).length < 2 ^ 62
      omega
    · rintro lag same
      cases same
      refine ⟨next, Nat.le_refl 1, ?_⟩
      show r'.currentTokenOffset + 1 = _
      rw [token, List.length_append, List.length_append, List.length_singleton]

theorem onHeadersComplete_closes (lawful : x.Lawful) {line : HeaderLine}
    (stands : x.Stands r g (.lastCr (.header line)) p) (next : (x.unread p).head? = some lf)
    (tame : x.acts.Tame ((Line.header line).events ++ [.headersComplete, .raw [cr]]) g) :
    Outcome (x.handler (.notify .headersComplete) (r, g.delegate))
      (x.Closed g ((Line.header line).events ++ [.headersComplete, .raw [cr]]) p) False := by
  have position : g.out.length + (line.bytes ++ [cr]).length = x.before.length + p := stands.position
  have bound : g.out.length + (line.bytes ++ [cr]).length + (x.unread p).length < sizeRange := stands.bound
  have fits : (line.bytes ++ [cr]).length + (x.unread p).length < 2 ^ 62 := stands.fits
  have ends := stands.offsets.tokenEnd _ rfl
  have value := stands.offsets.value _ rfl
  have length : line.bytes.length = line.text.length + 2 := List.length_append
  simp only [List.length_append, List.length_singleton, length] at position bound fits
  have state : r.state = .headerValue := stands.offsets.state
  let before : RewriterImpl := { r with nextTokenOffset := sizeAdd r.currentTokenEndOffset 2 }
  have nextToken : sizeAdd r.currentTokenEndOffset 2 = g.out.length + line.bytes.length := by
    rw [ends]
    show sizeAdd (g.out.length + line.text.length) 2 = _
    rw [sizeAdd_eq (by omega)]
    omega
  have asked : x.Asked before [cr] p p (g.out ++ line.bytes ++ cr :: x.unread p) := by
    have whole : g.out ++ (Phase.lastCr (.header line)).held ++ x.unread p =
        g.out ++ line.bytes ++ cr :: x.unread p := by
      simp [Phase.held, Line.text, HeaderLine.bytes, crlf]
    refine whole ▸ @Stands.asked _ _ _ _ _ _ 0 _ stands rfl stands.inside _ rfl ?_ (stands.calm.congr rfl)
    show sizeAdd r.currentTokenEndOffset 2 + 1 = _
    omega
  have onLine : OnLine before g.out line (cr :: x.unread p) :=
    asked.onLine (by simp) (stands.offsets.token rfl).1 ends (stands.offsets.field _ rfl) value
      (by omega) stands.small
  unfold handler parserSettings onHeadersComplete
  dsimp only
  split
  rotate_left
  · exact absurd (state.symm.trans ‹_›) (by decide)
  · exact absurd (state.symm.trans ‹_›) (by decide)
  · exact absurd (state.symm.trans ‹_›) (by decide)
  · exact absurd state ‹_›
  unfold closeLastHeader
  obtain ⟨answer, r₁, d₁, newLine, called, acted, edited⟩ :=
    lawful.implements.header before g.delegate g.out line _ onLine
  unfold ensureCallback
  rw [called]
  cases answer with
  | false =>
    refine .refused (Or.inl ⟨_, _, _, _, acted⟩) ?_
    rw [edited.frame]
    exact stands.calm.processMessageComplete
  | true =>
  have performedLine : x.acts.PerformsAll [.header line] g ⟨g.out ++ newLine, d₁⟩ :=
    ⟨_, ⟨newLine, d₁, acted, rfl⟩, rfl⟩
  have small := tame [.header line] _ _ rfl performedLine
  have between := asked.edited edited (by simp only [List.length_cons, List.length_nil]; omega) small
    (by rw [List.length_cons]; omega)
  have after : r₁.nextTokenOffset = (g.out ++ newLine).length := by
    rw [List.append_cons] at between
    exact between.next_eq
  let resumed : RewriterImpl := { r₁ with currentTokenOffset := r₁.nextTokenOffset }
  have again : x.Asked resumed [cr] p p (g.out ++ newLine ++ [] ++ cr :: x.unread p) := by
    rw [List.append_nil]
    exact between.congr rfl (between.calm.congr rfl)
  simp only [ok_bind, if_true]
  exact again.closes lawful after performedLine (Acts.Tame.drop tame performedLine)
    (by omega) next

/-- Without any header line, the call is made when the parser has returned. -/
theorem onHeadersComplete_waits {line : Line} (start : ∀ header, line ≠ .header header)
    (stands : x.Stands r g (.lastCr line) p) :
    x.handler (.notify .headersComplete) (r, g.delegate) =
      .ok ({ code := if x.setup.skipBody then 1 else 0, paused := true },
        { r with processHeaderComplete := true }, g.delegate) := by
  have state : r.state = line.state := stands.offsets.state
  have waits : r.state = .url ∨ r.state = .status := by
    rw [state]
    cases line with
    | request target version => exact Or.inl rfl
    | status text => exact Or.inr rfl
    | header line => exact absurd rfl (start line)
  rw [← stands.calm.skipBody]
  unfold handler parserSettings onHeadersComplete
  dsimp only
  split
  · rename_i other
    rw [other] at waits
    exact absurd waits (by decide)
  · rename_i other
    rw [other] at waits
    exact absurd waits (by decide)
  · rfl
  · rfl
  · exact waits.elim (fun same => absurd same ‹_›) fun same => absurd same ‹_›

end Context

end LibNekit.Canonical
