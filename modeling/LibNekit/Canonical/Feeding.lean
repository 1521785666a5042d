import LibNekit.Canonical.Callbacks

/-!
# The parser inside a slice

`Ready` is the simulation between two passes of the parser's loop: the parser and the
reader have read the same, and the rewriter stands where the reader does. The rules
below say how a pass keeps it, or how the call ends instead.
-/
namespace LibNekit.Canonical

open LibNekit.Source LibNekit.Source.Rewriter LibNekit.Source.HttpParser LibNekit.Library

/-! ## The count of header bytes -/

section Counting

variable {σ : Type} {handler : Callback → σ → Checked (Reply × σ)} {data : Bytes} {parser : HttpParser}
  {marks : Marks} {p q nread : Nat} {s : σ} {Post : Nat → HttpParser → σ → Prop} {Bad : Prop}

/-- Bytes of a header block are counted, and may be too many. -/
theorem outcome_count (count : Nat) {k : Nat} (next : Frame → Run Frame) (few : nread + k ≤ 2 * count + 1)
    (bounded : count ≤ maxHeaderSize)
    (overflow : 40000 < count → Post p ((parser.counting (nread + k)).setErrno .headerOverflow) s)
    (rest : Outcome ((next ⟨p, parser.counting (nread + k), marks⟩).under handler s)
      (Goes handler data q Post Bad) Bad) :
    Outcome (((⟨p, parser.counting nread, marks⟩ : Frame).countHeaderSize k >>= next).under handler s)
      (Goes handler data q Post Bad) Bad := by
  have range : maxHeaderSize = 81920 := rfl
  have counted := @counted_eq parser nread k (by omega)
  unfold Frame.countHeaderSize
  dsimp only
  rw [counted]
  by_cases room : nread + k ≤ maxHeaderSize
  · rw [if_neg (by simpa using room)]
    exact rest
  · rw [if_pos (by simpa using room)]
    exact overflow (by omega)

/-- A byte of a header block is counted first. -/
theorem Feeds.header {c : UInt8} {count : Nat} (here : data[p]? = some c)
    (header : parser.state.parsingHeader = true) (few : nread ≤ 2 * count)
    (bounded : count ≤ maxHeaderSize)
    (overflow : 40000 < count → Post p ((parser.counting (nread + 1)).setErrno .headerOverflow) s)
    (rest : Outcome ((switch data ⟨p, parser.counting (nread + 1), marks⟩ c).under handler s)
      (Goes handler data p Post Bad) Bad) :
    Feeds handler data ⟨p, parser.counting nread, marks⟩ s Post Bad := by
  refine Feeds.pass here ?_
  unfold iteration
  rw [if_pos (by simpa using header)]
  exact outcome_count count _ (by omega) bounded overflow rest

end Counting

/-! ## Silent steps -/

/-- With `c` the phase turns into `phase'`, and no offset has to move. -/
structure Phase.Glides (phase phase' : Phase) (c : UInt8) : Prop where
  token : phase'.inToken = true
  held : phase'.held = phase.held ++ [c]
  offsets : ∀ r base, Offsets r base phase → Offsets r base phase'
  unmarked : phase'.mark = none

variable {δ : Type}

theorem Rests.glide {setup : Setup} {r : RewriterImpl} {g : Draft δ} {phase phase' : Phase} {c : UInt8}
    {rest : Bytes} {n : Nat} (rests : Rests setup (finish n r) g phase (c :: rest))
    (calm : r.setToken = false) (glides : phase.Glides phase' c) :
    Rests setup (finish (n + 1) r) g phase' rest := by
  rw [finish_eq calm] at rests ⊢
  have fits := rests.fits
  have small := rests.small
  have range : sizeRange = 2 ^ 64 := rfl
  have offset : sizeAdd r.currentBufferOffset n = g.out.length + phase.held.length := rests.offset
  have content : r.currentBuffer.content = g.out ++ phase.held ++ c :: rest := rests.content
  have offsets := glides.offsets _ _ rests.offsets
  rw [List.length_cons] at fits
  refine ⟨rests.wf, rests.below, ?_, ?_, ?_, small,
    ⟨offsets.state, offsets.token, offsets.tokenEnd, offsets.field, offsets.value⟩,
    rests.calm.congr rfl, ?_⟩
  · rw [content, glides.held]
    simp only [List.append_assoc, List.singleton_append]
  · have longer : sizeAdd r.currentBufferOffset (n + 1) = sizeAdd (sizeAdd r.currentBufferOffset n) 1 := by
      unfold sizeAdd sizeRange
      omega
    show sizeAdd r.currentBufferOffset (n + 1) = _
    rw [longer, offset, sizeAdd_eq (by omega), glides.held, List.length_append, List.length_singleton,
      Nat.add_assoc]
  · rw [glides.held, List.length_append, List.length_singleton]
    omega
  · rintro lag rfl
    exact absurd glides.token nofun

namespace Context

variable {x : Context δ} {r : RewriterImpl} {g : Draft δ} {phase phase' : Phase} {p start : Nat}
  {c : UInt8} {rest : Bytes}

theorem unread_cons (left : x.data.drop p = c :: rest) : x.unread p = c :: x.unread (p + 1) := by
  unfold unread
  rw [← List.drop_drop, left, List.drop_succ_cons, List.drop_zero, List.cons_append]

theorem drop_succ (left : x.data.drop p = c :: rest) : x.data.drop (p + 1) = rest := by
  rw [← List.drop_drop, left, List.drop_succ_cons, List.drop_zero]

theorem here_of_drop (left : x.data.drop p = c :: rest) : x.data[p]? = some c := by
  rw [← List.head?_drop, left]
  rfl

theorem lt_of_drop (left : x.data.drop p = c :: rest) : p < x.data.length :=
  (List.getElem?_eq_some_iff.mp (here_of_drop left)).1

theorem piece_succ {len : Nat} (left : x.data.drop (start + len) = c :: rest) :
    x.piece start (len + 1) = x.piece start len ++ [c] := by
  unfold piece
  rw [List.take_add, List.drop_drop, left]
  rfl

theorem piece_zero (x : Context δ) (start : Nat) : x.piece start 0 = [] := rfl

theorem Stands.glide (stands : x.Stands r g phase p) (left : x.data.drop p = c :: rest)
    (glides : phase.Glides phase' c) : x.Stands r g phase' (p + 1) := by
  have fits : phase.held.length + (x.unread p).length < 2 ^ 62 := stands.fits
  have inside := lt_of_drop left
  rw [unread_cons left, List.length_cons] at fits
  refine ⟨stands.wf, stands.below, stands.content, stands.located, stands.offset, inside, ?_, ?_,
    stands.small, glides.offsets _ _ stands.offsets, stands.calm⟩
  · rw [glides.held, ← List.append_assoc, stands.split, List.append_assoc, List.take_add, left]
    rfl
  · show _ + (x.unread (p + 1)).length < 2 ^ 62
    rw [glides.held, List.length_append, List.length_singleton]
    omega

/-- The parser returns inside an element. -/
theorem Stands.rests (stands : x.Stands r g phase p) (token : phase.inToken = true) :
    Rests x.setup (finish p r) g phase (x.unread p) := by
  rw [finish_eq (stands.offsets.token token).2]
  have offsets := stands.offsets
  refine ⟨stands.wf, stands.below, stands.whole, stands.finished, stands.fits, stands.small,
    ⟨offsets.state, offsets.token, offsets.tokenEnd, offsets.field, offsets.value⟩,
    stands.calm.congr rfl, ?_⟩
  rintro lag rfl
  cases token

/-! ## The simulation -/

variable {already : Bool} {events front back : List Event} {last l l' : Reader} {nread : Nat}

/-- What holds when the loop is about to read the byte at `p`. -/
structure Ready (x : Context δ) (already : Bool) (g : Draft δ) (events : List Event) (last l : Reader)
    (r : RewriterImpl) (p nread : Nat) : Prop where
  few : nread ≤ 2 * l.count
  sound : l.Sound x.setup
  stands : x.Stands r g l.phase p
  ahead : Reader.run x.setup l (x.data.drop p) = some (last, events)
  tame : x.acts.Tame events g
  fresh : l.phase.inToken = true → x.token = none
  running : l.phase ≠ .stopped ∧ ∀ lag, l.phase = .headersDone lag → p < x.data.length
  token : ∀ t ∈ x.token, if already then r.setToken = true else
    r.setToken = false ∧ r.currentTokenOffset = t
  known : l.phase.inToken = false → x.token ≠ none

theorem running_of_token {phase : Phase} (token : phase.inToken = true) : phase ≠ .stopped := by
  rintro rfl
  cases token

theorem token_runs {phase : Phase} (token : phase.inToken = true) :
    phase ≠ .stopped ∧ ∀ lag, phase = .headersDone lag → p < x.data.length := by
  refine ⟨?_, fun lag => ?_⟩ <;> rintro rfl <;> cases token

/-- The call goes on from the parser's loop at `p`, and ends as it may. -/
def Resumes (x : Context δ) (already : Bool) (g : Draft δ) (events : List Event) (last l : Reader)
    (r : RewriterImpl) (p nread : Nat) (marks : Marks) : Prop :=
  Feeds x.handler x.data ⟨p, l.parser.counting nread, marks⟩ (r, g.delegate)
    (x.Left already g events last) False

/-- Wherever the loop is ready from `p` on, it resumes. -/
def Continues (x : Context δ) (last : Reader) (p : Nat) : Prop :=
  ∀ already g events l r q nread, p ≤ q → x.Ready already g events last l r q nread →
    l.phase.mark = none → x.Resumes already g events last l r q nread fun _ => none

theorem Ready.few_bytes (lawful : x.Lawful) (ready : x.Ready already g events last l r p nread) :
    l.count ≤ maxHeaderSize :=
  Nat.le_trans ready.sound.count lawful.limit

/-- The parser gives up on a long header block. -/
theorem left_overflow (lawful : x.Lawful) {parser : HttpParser} {s : RewriterImpl × δ}
    (sound : l.Sound x.setup) (long : 40000 < l.count) (calm : s.1.processMessageComplete = false) :
    x.Left already g events last p (parser.setErrno .headerOverflow) s :=
  .failed (lawful.overflow (Nat.lt_of_lt_of_le long sound.count)) ⟨nofun, nofun⟩ calm

theorem left_refused (lawful : x.Lawful) {parser : HttpParser} {s : RewriterImpl × δ}
    {callback : DataCallback} (refuses : x.acts.Refuses) (calm : s.1.processMessageComplete = false) :
    x.Left already g events last p (parser.setErrno (.cbData callback)) s :=
  .failed (lawful.refusal refuses) ⟨nofun, nofun⟩ calm

/-- The call ends inside an element. -/
theorem Stands.left {parser : HttpParser} {n : Nat} (stands : x.Stands r g l.phase n)
    (token : l.phase.inToken = true) (sound : l.Sound x.setup)
    (models : l.Models parser) (ahead : Reader.run x.setup l (x.data.drop n) = some (last, events))
    (moved : 0 < n) : x.Left already g events last n parser (r, g.delegate) :=
  .rests (List.nil_append _).symm rfl sound models ahead stands.inside (Or.inl moved)
    (stands.rests token) (fun t _ silent => absurd token (by simp [silent]))
    (fun silent => absurd token (by simp [silent])) (running_of_token token)

/-- The end of the slice cuts an element, which is reported as far as it goes. -/
theorem reported_stop {callback : DataCallback} {len : Nat} (lawful : x.Lawful)
    (answered : Outcome (x.handler (.data callback start len) (r, g.delegate))
      (x.Answered g front l.phase (start + len)) False)
    (used : start + len = x.data.length) (positive : 0 < start + len) (few : nread ≤ 2 * l.count)
    (sound : l.Sound x.setup) (token : l.phase.inToken = true)
    (ahead : Reader.run x.setup l [] = some (last, back)) :
    Feeds x.handler x.data ⟨start + len, l.parser.counting nread,
      Function.update (fun _ => none) callback (some start)⟩ (r, g.delegate)
      (x.Left already g (front ++ back) last) False := by
  have clear := sound.meets.clear
  have rest : x.data.drop (start + len) = [] := by rw [used, List.drop_length]
  refine Feeds.report used clear rfl ?_
  rw [show x.data.length - start = len by omega]
  refine answered.mono ?_ id
  rw [← used]
  rintro _ (⟨refuses, incomplete⟩ | ⟨performed, rests, calm⟩ | ⟨silent, stands⟩)
  · exact left_refused lawful refuses incomplete
  · refine .rests rfl performed sound ⟨nread, few, Or.inr rfl⟩ (by rw [rest]; exact ahead)
      (Nat.le_of_eq used) (Or.inl positive) rests (fun t _ silent => absurd token (by simp [silent]))
      (fun silent => absurd token (by simp [silent])) (running_of_token token)
  · subst silent
    refine stands.left token sound ⟨nread, few, Or.inl ?_⟩ (by rw [rest]; exact ahead) positive
    show (l.parser.counting nread).setErrno .ok = _
    rw [← clear]
    rfl

theorem unmark (callback : DataCallback) (start : Nat) :
    Function.update (Function.update (fun _ => none) callback (some start)) callback none =
      (fun _ => none : Marks) := by
  funext other
  by_cases it : other = callback <;> simp [it]

theorem setErrno_clear {parser : HttpParser} (clear : parser.httpErrno = .ok) :
    parser.setErrno .ok = parser := by
  rw [← clear]
  rfl

/-- An element ends with `c`, and is reported before the pass goes on. -/
theorem reported_then {callback : DataCallback} {len : Nat} (after : Frame → Run Frame) (lawful : x.Lawful)
    (answered : Outcome (x.handler (.data callback start len) (r, g.delegate))
      (x.Answered g front phase (start + len)) False)
    (left : x.data.drop (start + len) = c :: rest) (glides : phase.Glides l.phase c)
    (few : nread ≤ 2 * l.count) (sound : l.Sound x.setup)
    (ahead : Reader.run x.setup l rest = some (last, back)) (tame : x.acts.Tame (front ++ back) g)
    (fresh : x.token = none)
    (proceeds : ∀ r', (x.Ready already g (front ++ back) last l r' (start + len + 1) nread) →
      Outcome ((after ⟨start + len, l.parser.counting nread, fun _ => none⟩).under x.handler
        (r', g.delegate)) (Goes x.handler x.data (start + len) (x.Left already g (front ++ back) last)
          False) False) :
    Outcome ((callbackDataTo callback (start + len) (start + len + 1) ⟨start + len,
        l.parser.counting nread, Function.update (fun _ => none) callback (some start)⟩ >>= after).under
      x.handler (r, g.delegate))
      (Goes x.handler x.data (start + len) (x.Left already g (front ++ back) last) False) False := by
  have clear := sound.meets.clear
  have behind := drop_succ left
  have marked : Function.update (fun _ => none : Marks) callback (some start) callback = some start :=
    Function.update_self ..
  rw [callbackDataTo_marked clear marked, show start + len - start = len by omega, Run.ask_bind]
  refine outcome_ask (answered.mono ?_ id)
  rintro _ (⟨refuses, incomplete⟩ | ⟨performed, rests, calm⟩ | ⟨silent, stands⟩)
  · exact left_refused lawful refuses incomplete
  · have more := unread_cons left ▸ rests
    refine .rests rfl performed sound ⟨nread, few, Or.inr rfl⟩ (by rw [behind]; exact ahead)
      (lt_of_drop left) (Or.inl (Nat.succ_pos _)) (more.glide calm glides)
      (fun t _ silent => absurd glides.token (by simp [silent]))
      (fun silent => absurd glides.token (by simp [silent])) (running_of_token glides.token)
  · subst silent
    have same : (l.parser.counting nread).setErrno .ok = l.parser.counting nread := setErrno_clear clear
    refine Eq.mp ?_ (proceeds _ ⟨few, sound, stands.glide left glides, by rw [behind]; exact ahead, tame,
      fun _ => fresh, token_runs glides.token, by simp [fresh], fun silent => absurd glides.token (by simp [silent])⟩)
    simp only [Reply.errno, ne_eq, not_true_eq_false, if_false, Bool.false_eq_true, if_true, same, unmark,
      Run.next_bind]

theorem bind_next {α : Type} (run : Run α) : (run >>= Run.next) = run := by
  refine (congrArg (Program.bind run) (funext fun flow => ?_)).trans (Program.bind_done run)
  cases flow <;> rfl

/-- An element ends with `c`, and is reported. -/
theorem reported_end {callback : DataCallback} {len : Nat} (lawful : x.Lawful)
    (answered : Outcome (x.handler (.data callback start len) (r, g.delegate))
      (x.Answered g front phase (start + len)) False)
    (left : x.data.drop (start + len) = c :: rest) (glides : phase.Glides l.phase c)
    (few : nread ≤ 2 * l.count) (sound : l.Sound x.setup)
    (ahead : Reader.run x.setup l rest = some (last, back)) (tame : x.acts.Tame (front ++ back) g)
    (fresh : x.token = none) (ih : x.Continues last (start + len + 1)) :
    Outcome ((callbackDataTo callback (start + len) (start + len + 1) ⟨start + len,
        l.parser.counting nread, Function.update (fun _ => none) callback (some start)⟩).under
      x.handler (r, g.delegate))
      (Goes x.handler x.data (start + len) (x.Left already g (front ++ back) last) False) False := by
  have ends := reported_then Run.next lawful answered left glides few sound ahead tame fresh
    fun r' ready => ⟨Nat.le_refl _, ih already g _ l r' _ nread (Nat.le_refl _) ready glides.unmarked⟩
  rwa [bind_next] at ends

/-- A pass that moves nothing. -/
theorem Ready.silent (lawful : x.Lawful) (ready : x.Ready already g events last l r p nread)
    (left : x.data.drop p = c :: rest) (ih : x.Continues last (p + 1))
    (stepped : l.step x.setup c = some (l', [])) (header : l.parser.state.parsingHeader = true)
    (glides : l.phase.Glides l'.phase c) (count : l'.count = l.count + 1) (fresh : x.token = none)
    (passes : ∀ n, switch x.data ⟨p, l.parser.counting n, fun _ => none⟩ c =
      Run.next ⟨p, l'.parser.counting n, fun _ => none⟩) :
    x.Resumes already g events last l r p nread fun _ => none := by
  obtain ⟨next, first, more, same, ahead, rfl⟩ := Reader.run_cons_some (left ▸ ready.ahead)
  cases stepped.symm.trans same
  refine Feeds.header (here_of_drop left) header ready.few (ready.few_bytes lawful)
    (fun long => left_overflow lawful ready.sound long ready.stands.calm.processMessageComplete) ?_
  rw [passes]
  refine ⟨Nat.le_refl _, ih already g more l' r _ _ (Nat.le_refl _) ⟨?_, ?_, ready.stands.glide left glides,
    by rw [drop_succ left]; exact ahead, ready.tame, fun _ => fresh, token_runs glides.token, by simp [fresh],
    fun silent => absurd glides.token (by simp [silent])⟩
    glides.unmarked⟩
  · have few := ready.few
    omega
  · exact Reader.step_sound ready.sound stepped

end Context

namespace Reader

/-- A byte that does not end a header block. -/
theorem step_read {setup : Setup} {l l' : Reader} {c : UInt8} {events : List Event}
    (inside : ∀ line, l.phase ≠ .lastCr line) (stepped : l.step setup c = some (l', events)) :
    read l.phase l.parser c = some (l'.parser, l'.phase, events) ∧ l'.count = l.countAfter := by
  have stepped : l.readByte c = some (l', events) := by
    unfold step at stepped
    split at stepped
    · cases stepped
    · split at stepped
      · rename_i line state
        exact absurd state (inside line)
      · exact stepped
  obtain ⟨⟨parser, phase, seen⟩, read, same⟩ := Option.map_eq_some_iff.mp stepped
  cases same
  exact ⟨read, rfl⟩

end Reader

end LibNekit.Canonical
