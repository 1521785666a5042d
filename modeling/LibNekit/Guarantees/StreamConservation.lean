import LibNekit.Source.Utils.StreamReading

/-!
# StreamReader conserves the stream

Bytes leave the reader's buffer from its front, in answers of the shape that was asked for,
and nothing is lost. What a run can break is a search that goes on after a read: the
matcher's iterators then point into a parameter that is gone. They are followed as soon
as there are as many bytes to look at as the pattern has.
-/
namespace LibNekit.Guarantees.StreamConservation

open LibNekit.Source LibNekit.Library LibNekit.Source.StreamReading
open LibNekit.Source.Buffer (WellFormed Below)
open LibNekit.Source.StreamReader (Cut)

variable {Failure : Type} {searcher : PatternSearcher} {s s' : StreamReading Failure} {request : Request}
  {r : StreamReader} {next : Nat}

/-- The bytes that a request asks for. -/
def Fits (request : Request) (bytes : Bytes) : Prop :=
  match request with
  | .toLength length => bytes.length = length
  | .toPattern pattern => pattern <:+ bytes

def answered (answer : Nat × Except Failure Buffer) : Bytes :=
  match answer.2 with
  | .ok buffer => buffer.content
  | .error _ => []

/-- The handlers have these bytes, or a task is posted that brings them. -/
def handed (s : StreamReading Failure) : Bytes :=
  s.answers.flatMap answered ++ s.posts.flatMap fun post => post.2.content

structure Conserves (s : StreamReading Failure) : Prop where
  bytes : handed s ++ s.reader.buffer.content = s.delivered
  shape : ∀ (i : Nat) (buffer : Buffer), (i, .ok buffer) ∈ s.answers →
    ∃ request, s.requests[i]? = some request ∧ Fits request buffer.content
  once : (s.answers.map Prod.fst).Nodup

/-- One step conserves the stream, and an error leaves the buffer alone. -/
def Good (e : Event Failure) (s s' : StreamReading Failure) : Prop :=
  Conserves s' ∧ ∀ failure, e = .error failure → s'.reader.buffer = s.reader.buffer

/-- No search goes on over as many bytes as the pattern has. -/
def Unresumed (e : Event Failure) (s : StreamReading Failure) : Prop :=
  match e with
  | .data buffer _ => ∀ pattern, s.outstanding = some (.toPattern pattern) →
      s.reader.buffer.size + buffer.size - s.reader.lastPos < pattern.length
  | _ => True

/-! ## What the reader comes to -/

/-- The reader waits for more bytes to answer the request. -/
def Waits (request : Request) (r : StreamReader) : Prop :=
  match request with
  | .toLength length => length ≠ 0 ∧ r.lengthToRead = length
  | .toPattern pattern => pattern ≠ [] ∧ r.patternSize = pattern.length ∧ r.lastPos ≤ r.buffer.size

def Outcome (next : Nat) (request : Request) (r : StreamReader) (ran : StreamReader × StreamReader.Action) : Prop :=
  (∃ r', ran = (r', .read) ∧ r'.buffer = r.buffer ∧ Waits request r') ∨
    ∃ r' b len, ran = (r', .post b) ∧ Cut next len r r' b ∧ Fits request b.content

/-- A buffer of the reader. -/
structure Holds (next : Nat) (r : StreamReader) : Prop where
  wf : r.buffer.WellFormed
  below : r.buffer.Below next
  fits : r.buffer.size < sizeRange

theorem length_outcome {length : Nat} (holds : Holds next r) (waits : Waits (.toLength length) r) :
    ∃ ran, r.doReadLength next = .ok ran ∧ Outcome next (.toLength length) r ran := by
  obtain ⟨positive, same⟩ := waits
  by_cases enough : r.lengthToRead ≤ r.buffer.size
  · obtain ⟨r', b, ran, cut⟩ :=
      StreamReader.handOver_cut holds.wf holds.below holds.fits (by omega : 0 < r.lengthToRead) enough
    refine ⟨_, (StreamReader.doReadLength_eq enough).trans ran, Or.inr ⟨r', b, _, rfl, cut, ?_⟩⟩
    rw [Fits, cut.front, List.length_take, holds.wf.length_content]
    omega
  · exact ⟨_, StreamReader.doReadLength_waits (by omega), Or.inl ⟨r, rfl, rfl, positive, same⟩⟩

theorem pattern_waits {pattern : Bytes} (waits : Waits (.toPattern pattern) r) :
    Waits (.toPattern pattern) { r with lastPos := r.buffer.size - min r.buffer.size r.patternSize } :=
  ⟨waits.1, waits.2.1, Nat.sub_le _ _⟩

theorem pattern_outcome {pattern : Bytes} (holds : Holds next r) (waits : Waits (.toPattern pattern) r) :
    ∃ ran, r.doReadPattern searcher next (some pattern) = .ok ran ∧ Outcome next (.toPattern pattern) r ran := by
  obtain ⟨positive, size, inside⟩ := waits
  rcases @StreamReader.doReadPattern_looks next r searcher pattern holds.wf holds.below holds.fits inside positive size
    with reads | ⟨r', b, len, ran, cut, ends⟩
  · exact ⟨_, reads, Or.inl ⟨_, rfl, rfl, pattern_waits ⟨positive, size, inside⟩⟩⟩
  · exact ⟨_, ran, Or.inr ⟨r', b, len, rfl, cut, ends⟩⟩

theorem short_outcome {pattern : Bytes} (holds : Holds next r) (waits : Waits (.toPattern pattern) r)
    (short : r.buffer.size - r.lastPos < pattern.length) :
    ∃ ran, r.doReadPattern searcher next none = .ok ran ∧ Outcome next (.toPattern pattern) r ran :=
  ⟨_, StreamReader.doReadPattern_short holds.wf waits.2.2 none (by rw [waits.2.1]; exact short),
    Or.inl ⟨_, rfl, rfl, pattern_waits waits⟩⟩

/-! ## The runs -/

/-- Request `init.length` is the last one, and the only one that may be without an answer. -/
structure Current (init : List Request) (request : Request) (s : StreamReading Failure) : Prop where
  requests : s.requests = init ++ [request]
  before : ∀ answer ∈ s.answers, answer.1 < init.length

def Standing (s : StreamReading Failure) : Prop :=
  (s.outstanding = none ∧ s.posts = []) ∨
  (∃ init request, Current init request s ∧ s.outstanding = some request ∧ s.posts = [] ∧
    s.handler = some init.length ∧ Waits request s.reader) ∨
  ∃ init request b, Current init request s ∧ s.outstanding = none ∧ s.posts = [(init.length, b)] ∧
    Fits request b.content

structure Sound (s : StreamReading Failure) : Prop where
  conserves : Conserves s
  holds : Holds s.next s.reader
  known : ∀ answer ∈ s.answers, answer.1 < s.requests.length
  standing : Standing s

theorem start_sound : Sound ({} : StreamReading Failure) :=
  ⟨⟨rfl, nofun, List.nodup_nil⟩, ⟨Buffer.empty_wellFormed, nofun, Nat.two_pow_pos 64⟩, nofun, Or.inl ⟨rfl, rfl⟩⟩

theorem Current.known {init : List Request} (current : Current init request s) :
    ∀ answer ∈ s.answers, answer.1 < s.requests.length := by
  intro answer member
  rw [current.requests, List.length_append]
  exact Nat.lt_of_lt_of_le (current.before answer member) (Nat.le_add_right _ _)

/-- Whatever the reader comes to with the bytes it has, it goes on soundly. -/
theorem follow_sound {init : List Request} {ran : StreamReader × StreamReader.Action}
    (bytes : handed s ++ r.buffer.content = s.delivered) (shape : ∀ (i : Nat) (buffer : Buffer),
      (i, .ok buffer) ∈ s.answers → ∃ request, s.requests[i]? = some request ∧ Fits request buffer.content)
    (once : (s.answers.map Prod.fst).Nodup) (holds : Holds s.next r) (current : Current init request s)
    (idle : s.outstanding = none ∧ s.posts = []) (handler : s.handler = some init.length)
    (outcome : Outcome s.next request r ran) : ∃ s', s.follow request ran = .ok s' ∧ Sound s' := by
  rcases outcome with ⟨r', rfl, same, waits⟩ | ⟨r', b, len, rfl, cut, fits⟩
  · refine ⟨_, rfl, ⟨?_, shape, once⟩, ?_, current.known,
      Or.inr (Or.inl ⟨init, request, ⟨current.requests, current.before⟩, rfl, idle.2, handler, waits⟩)⟩
    · exact (congrArg (handed s ++ ·.content) same).trans bytes
    · refine ⟨by rw [same]; exact holds.wf, ?_, by rw [same]; exact holds.fits⟩
      rw [same]
      exact holds.below.mono (Nat.le_succ _)
  · have halves : b.content ++ r'.buffer.content = r.buffer.content := by
      rw [cut.front, cut.back, List.take_append_drop]
    refine ⟨{ s with reader := r', next := s.next + 1, handler := none, posts := s.posts ++ [(init.length, b)] },
      by rw [follow, handler]; rfl, ⟨?_, shape, once⟩, ⟨cut.wf, cut.below, ?_⟩, current.known,
      Or.inr (Or.inr ⟨init, request, b, ⟨current.requests, current.before⟩, idle.1, ?_, fits⟩)⟩
    · rw [handed, idle.2] at bytes
      rw [← bytes, ← halves]
      simp [handed, idle.2]
    · have size := holds.wf.length_content
      have less := cut.wf.length_content
      rw [cut.back, List.length_drop] at less
      have := holds.fits
      show r'.buffer.size < sizeRange
      omega
    · rw [idle.2]
      rfl

/-- A new request. -/
theorem request_sound (sound : Sound s) (admits : Admits (.request request : Event Failure) s) :
    ∃ s', step searcher (.request request) s = .ok s' ∧ Sound s' := by
  have idle : s.outstanding = none ∧ s.posts = [] := by
    cases request
    · exact ⟨admits.1, admits.2.1⟩
    · exact ⟨admits.1, admits.2.1⟩
  let s₁ : StreamReading Failure := { s with
    handler := some s.requests.length, requests := s.requests ++ [request] }
  have shape : ∀ (i : Nat) (buffer : Buffer), (i, .ok buffer) ∈ s.answers →
      ∃ asked, (s.requests ++ [request])[i]? = some asked ∧ Fits asked buffer.content := by
    intro i buffer member
    obtain ⟨asked, here, fits⟩ := sound.conserves.shape i buffer member
    exact ⟨asked, by rw [List.getElem?_append_left (sound.known _ member)]; exact here, fits⟩
  have current : Current s.requests request s₁ := ⟨rfl, sound.known⟩
  cases request with
  | toLength length =>
    have positive : length ≠ 0 := Nat.one_le_iff_ne_zero.mp admits.2.2
    have holds : Holds s.next { s.reader with lengthToRead := length } :=
      ⟨sound.holds.wf, sound.holds.below, sound.holds.fits⟩
    obtain ⟨ran, read, outcome⟩ := length_outcome holds ⟨positive, rfl⟩
    obtain ⟨s', followed, after⟩ := @follow_sound _ s₁ _ { s.reader with lengthToRead := length } _ _ sound.conserves.bytes shape sound.conserves.once
      holds current idle rfl outcome
    refine ⟨s', ?_, after⟩
    rw [step, onRequest, StreamReader.readToLength, boostAssert_of positive, ok_bind, read]
    exact followed
  | toPattern pattern =>
    have positive : pattern.length ≠ 0 := by simpa using admits.2.2
    have holds : Holds s.next { s.reader with lastPos := 0, patternSize := pattern.length } :=
      ⟨sound.holds.wf, sound.holds.below, sound.holds.fits⟩
    obtain ⟨ran, read, outcome⟩ := @pattern_outcome searcher _ _ _ holds ⟨admits.2.2, rfl, Nat.zero_le _⟩
    obtain ⟨s', followed, after⟩ := @follow_sound _ s₁ _
      { s.reader with lastPos := 0, patternSize := pattern.length } _ _ sound.conserves.bytes shape sound.conserves.once
      holds current idle rfl outcome
    refine ⟨s', ?_, after⟩
    rw [step, onRequest, StreamReader.readToPattern, boostAssert_of positive, ok_bind, read]
    exact followed

/-- The reader's buffer with what the flow delivered. -/
theorem grown_holds {buffer : Buffer} {upTo : Nat} (holds : Holds next r) (wf : buffer.WellFormed)
    (fresh : ∀ a ∈ buffer.addrs, next ≤ a ∧ a < upTo) (fits : r.buffer.size + buffer.size < sizeRange) :
    ∃ grown, r.buffer.insertBackBuffer buffer = .ok (grown, buffer.movedOut) ∧
      Holds (max next upTo) { r with buffer := grown } ∧ grown.content = r.buffer.content ++ buffer.content ∧
      grown.size = r.buffer.size + buffer.size := by
  have disjoint : ∀ a ∈ r.buffer.addrs, a ∉ buffer.addrs := by
    intro a old new
    have := holds.below a old
    have := (fresh a new).1
    omega
  obtain ⟨grown, ran, after⟩ := Buffer.insertBackBuffer_holds 0 holds.wf wf disjoint
  have size : grown.size = r.buffer.size + buffer.size := by
    rw [← after.wf.length_content, after.content, List.length_append, holds.wf.length_content, wf.length_content]
  refine ⟨grown, ran, ⟨after.wf, ?_, ?_⟩, after.content, size⟩
  · intro a member
    rcases after.alloc.origin a member with old | ⟨low, high⟩
    · rcases List.mem_append.mp old with kept | new
      · exact Nat.lt_of_lt_of_le (holds.below a kept) (Nat.le_max_left _ _)
      · exact Nat.lt_of_lt_of_le (fresh a new).2 (Nat.le_max_right _ _)
    · omega
  · show grown.size < sizeRange
    omega

/-- Data for a request that waits. -/
theorem data_sound {buffer : Buffer} {upTo : Nat} (sound : Sound s) (admits : Admits (.data buffer upTo) s)
    (unresumed : Unresumed (.data buffer upTo) s) :
    ∃ s', step searcher (.data buffer upTo) s = .ok s' ∧ Sound s' := by
  obtain ⟨reads, wf, fresh, fits⟩ := admits
  rcases sound.standing with ⟨idle, -⟩ | ⟨init, request, current, outstanding, posts, handler, waits⟩ |
    ⟨_, _, _, _, idle, -⟩
  · exact absurd idle reads
  · obtain ⟨grown, inserted, holds, content, size⟩ := grown_holds sound.holds wf fresh fits
    let s₁ : StreamReading Failure := { s with
      outstanding := none, next := max s.next upTo, delivered := s.delivered ++ buffer.content }
    have bytes : handed s₁ ++ grown.content = s₁.delivered := by
      show handed s ++ grown.content = s.delivered ++ buffer.content
      rw [content, ← List.append_assoc, sound.conserves.bytes]
    have goesOn {ran : StreamReader × StreamReader.Action}
        (outcome : Outcome s₁.next request { s.reader with buffer := grown } ran) :
        ∃ s', s₁.follow request ran = .ok s' ∧ Sound s' :=
      follow_sound bytes sound.conserves.shape sound.conserves.once holds ⟨current.requests, current.before⟩
        ⟨rfl, posts⟩ handler outcome
    cases request with
    | toLength length =>
      obtain ⟨ran, read, outcome⟩ := @length_outcome _ _ length holds waits
      obtain ⟨s', followed, after⟩ := goesOn outcome
      refine ⟨s', ?_, after⟩
      have read' : s.reader.onData (max s.next upTo) buffer = .ok ran := by
        rw [StreamReader.onData, inserted]
        exact read
      rw [step, onData, outstanding]
      exact (congrArg (· >>= s₁.follow (.toLength length)) read').trans followed
    | toPattern pattern =>
      have waits' : Waits (.toPattern pattern) { s.reader with buffer := grown } :=
        ⟨waits.1, waits.2.1, by
          have := waits.2.2
          show s.reader.lastPos ≤ grown.size
          omega⟩
      obtain ⟨ran, read, outcome⟩ := @short_outcome searcher _ _ pattern holds waits' (by
        have short := unresumed pattern outstanding
        show grown.size - s.reader.lastPos < pattern.length
        omega)
      obtain ⟨s', followed, after⟩ := goesOn outcome
      refine ⟨s', ?_, after⟩
      have read' : s.reader.onPatternData searcher (max s.next upTo) buffer = .ok ran := by
        rw [StreamReader.onPatternData, inserted]
        exact read
      rw [step, onData, outstanding]
      exact (congrArg (· >>= s₁.follow (.toPattern pattern)) read').trans followed
  · exact absurd idle reads

/-- Enough data for a pattern makes the matcher follow its iterators. -/
theorem data_dangling {buffer : Buffer} {upTo : Nat} (sound : Sound s) (admits : Admits (.data buffer upTo) s)
    (resumed : ¬Unresumed (.data buffer upTo) s) :
    step searcher (.data buffer upTo) s = .error .danglingPointer := by
  obtain ⟨-, wf, fresh, fits⟩ := admits
  simp only [Unresumed, not_forall, Nat.not_lt] at resumed
  obtain ⟨pattern, outstanding, enough⟩ := resumed
  rcases sound.standing with ⟨idle, -⟩ | ⟨init, request, current, reads, posts, handler, waits⟩ |
    ⟨_, _, _, _, idle, -⟩
  · exact absurd (idle.symm.trans outstanding) (by simp)
  · obtain rfl : request = .toPattern pattern := Option.some.inj (reads.symm.trans outstanding)
    obtain ⟨grown, inserted, holds, content, size⟩ := grown_holds sound.holds wf fresh fits
    have inside : s.reader.lastPos ≤ grown.size := by
      have := waits.2.2
      omega
    have read : s.reader.onPatternData searcher (max s.next upTo) buffer = .error .danglingPointer := by
      rw [StreamReader.onPatternData, inserted]
      refine @StreamReader.doReadPattern_dangling _ { s.reader with buffer := grown } _ holds.wf inside ?_
      show s.reader.patternSize ≤ grown.size - s.reader.lastPos
      rw [waits.2.1]
      omega
    let s₁ : StreamReading Failure := { s with
      outstanding := none, next := max s.next upTo, delivered := s.delivered ++ buffer.content }
    rw [step, onData, outstanding]
    exact congrArg (· >>= s₁.follow (.toPattern pattern)) read
  · exact absurd (idle.symm.trans outstanding) (by simp)

/-- An error answers the request, and leaves the buffer for the next one. -/
theorem error_sound {failure : Failure} (sound : Sound s) (reads : s.outstanding ≠ none) :
    ∃ s', step searcher (.error failure) s = .ok s' ∧ Sound s' ∧ s'.reader.buffer = s.reader.buffer := by
  rcases sound.standing with ⟨idle, -⟩ | ⟨init, request, current, outstanding, posts, handler, waits⟩ |
    ⟨_, _, _, _, idle, -⟩
  · exact absurd idle reads
  · have last : (init.length, Except.error failure) ∈ s.answers ++ [(init.length, Except.error failure)] := by simp
    refine ⟨{ s with outstanding := none, answers := s.answers ++ [(init.length, .error failure)] },
      by rw [step, onError, handler]; rfl, ⟨⟨?_, ?_, ?_⟩, sound.holds, ?_, Or.inl ⟨rfl, posts⟩⟩, rfl⟩
    · rw [← sound.conserves.bytes]
      simp [handed, answered]
    · intro i buffer member
      have old : (i, .ok buffer) ∈ s.answers := by simpa using member
      exact sound.conserves.shape i buffer old
    · rw [List.map_append]
      refine List.nodup_append.mpr ⟨sound.conserves.once, by simp, ?_⟩
      simp only [List.map_cons, List.map_nil, List.mem_singleton, List.mem_map]
      rintro _ ⟨answer, member, rfl⟩ _ rfl
      exact Nat.ne_of_lt (current.before answer member)
    · intro answer member
      rcases List.mem_append.mp member with old | new
      · exact sound.known answer old
      · rw [List.mem_singleton.mp new, current.requests]
        simp
  · exact absurd idle reads

/-- The posted task answers the request. -/
theorem posted_sound (sound : Sound s) (some_post : s.posts ≠ []) :
    ∃ s', step searcher .posted s = .ok s' ∧ Sound s' := by
  rcases sound.standing with ⟨-, none⟩ | ⟨_, _, _, -, none, -⟩ | ⟨init, request, b, current, idle, posts, fits⟩
  · exact absurd none some_post
  · exact absurd none some_post
  · refine ⟨{ s with posts := [], answers := s.answers ++ [(init.length, .ok b)] },
      by rw [step, onPosted, posts], ⟨⟨?_, ?_, ?_⟩, sound.holds, ?_, Or.inl ⟨idle, rfl⟩⟩⟩
    · rw [← sound.conserves.bytes]
      simp [handed, answered, posts]
    · intro i buffer member
      rcases List.mem_append.mp member with old | new
      · exact sound.conserves.shape i buffer old
      · obtain ⟨rfl, rfl⟩ : i = init.length ∧ buffer = b := by simpa using new
        exact ⟨request, by rw [current.requests]; simp, fits⟩
    · rw [List.map_append]
      refine List.nodup_append.mpr ⟨sound.conserves.once, by simp, ?_⟩
      simp only [List.map_cons, List.map_nil, List.mem_singleton, List.mem_map]
      rintro _ ⟨answer, member, rfl⟩ _ rfl
      exact Nat.ne_of_lt (current.before answer member)
    · intro answer member
      rcases List.mem_append.mp member with old | new
      · exact sound.known answer old
      · rw [List.mem_singleton.mp new, current.requests]
        simp

theorem step_sound {e : Event Failure} (sound : Sound s) (admits : Admits e s) (unresumed : Unresumed e s) :
    ∃ s', step searcher e s = .ok s' ∧ Good e s s' ∧ Sound s' := by
  cases e with
  | request request =>
    obtain ⟨s', stepped, after⟩ := @request_sound _ searcher _ _ sound admits
    exact ⟨s', stepped, ⟨after.conserves, nofun⟩, after⟩
  | data buffer upTo =>
    obtain ⟨s', stepped, after⟩ := @data_sound _ searcher _ _ _ sound admits unresumed
    exact ⟨s', stepped, ⟨after.conserves, nofun⟩, after⟩
  | error failure =>
    obtain ⟨s', stepped, after, same⟩ := @error_sound _ searcher _ failure sound admits
    exact ⟨s', stepped, ⟨after.conserves, fun _ _ => same⟩, after⟩
  | posted =>
    obtain ⟨s', stepped, after⟩ := @posted_sound _ searcher _ sound admits
    exact ⟨s', stepped, ⟨after.conserves, nofun⟩, after⟩

/-- The reader conserves the stream in exactly the runs that resume no search. -/
theorem reader_conserves_iff (searcher : PatternSearcher) (events : List (Event Failure))
    (admitted : (machine Failure searcher).Admitted events {}) :
    (machine Failure searcher).AllSteps Good events {} ↔ (machine Failure searcher).Along Unresumed events {} := by
  refine @Machine.allSteps_iff_along _ _ _ (machine Failure searcher) Sound _ _ ?_ ?_ events _ start_sound admitted
  · intro e s sound admits
    constructor
    · rintro ⟨s', stepped, -⟩
      by_contra resumed
      cases e with
      | data buffer upTo =>
        have failed := @data_dangling _ searcher _ _ _ sound admits resumed
        cases stepped.symm.trans failed
      | request request => exact resumed trivial
      | error failure => exact resumed trivial
      | posted => exact resumed trivial
    · intro unresumed
      obtain ⟨s', stepped, good, -⟩ := @step_sound _ searcher _ _ sound admits unresumed
      exact ⟨s', stepped, good⟩
  · intro e s s' sound admits unresumed stepped
    obtain ⟨s₁, stepped₁, -, after⟩ := @step_sound _ searcher _ _ sound admits unresumed
    obtain rfl : s₁ = s' := Except.ok.inj (stepped₁.symm.trans stepped)
    exact after

/-- A searcher that tries every place. -/
def everyPlace : PatternSearcher where
  find pattern corpus := (List.range (corpus.length + 1)).find? fun k => pattern.isPrefixOf (corpus.drop k)
  found := by
    intro pattern corpus k sought
    rw [List.find?_range_eq_some] at sought
    refine ⟨List.isPrefixOf_iff_prefix.mp sought.1, fun j lt here => ?_⟩
    have passed := sought.2.2 j lt
    rw [List.isPrefixOf_iff_prefix.mpr here] at passed
    exact Bool.false_ne_true passed
  missing := by
    intro pattern corpus sought j inside here
    rw [List.find?_range_eq_none] at sought
    have passed := sought j (Nat.lt_succ_of_le inside)
    rw [List.isPrefixOf_iff_prefix.mpr here] at passed
    exact Bool.false_ne_true passed

/-- A Buffer of one chunk. -/
def piece (addr : Nat) (bytes : Bytes) : Buffer := ⟨[⟨addr, bytes, 0, bytes.length⟩], some addr, bytes.length⟩

theorem piece_wellFormed {addr : Nat} {bytes : Bytes} (nonempty : 0 < bytes.length) : (piece addr bytes).WellFormed :=
  ⟨by
    intro c member
    rw [List.mem_singleton.mp member]
    exact ⟨nonempty, Nat.le_of_eq (Nat.zero_add _)⟩, by simp [piece, Buffer.addrs], rfl, rfl⟩

/-- A read to a length, and a search that an error ends before it sees enough. -/
theorem reader_conserves_iff_both_kinds :
    (machine Nat everyPlace).AllSteps Good [.request (.toLength 2), .data (piece 1 [7, 8]) 2, .posted,
      .request (.toPattern [13, 10]), .data (piece 4 [13]) 5, .error 0] {} := by
  have admitted : (machine Nat everyPlace).Admitted [.request (.toLength 2), .data (piece 1 [7, 8]) 2, .posted,
      .request (.toPattern [13, 10]), .data (piece 4 [13]) 5, .error 0] {} := by
    refine ⟨⟨rfl, rfl, by decide⟩, fun s stepped => ?_⟩
    cases stepped
    refine ⟨⟨nofun, piece_wellFormed (Nat.zero_lt_succ _), by decide, by decide⟩, fun s stepped => ?_⟩
    cases stepped
    refine ⟨nofun, fun s stepped => ?_⟩
    cases stepped
    refine ⟨⟨rfl, rfl, nofun⟩, fun s stepped => ?_⟩
    cases stepped
    refine ⟨⟨nofun, piece_wellFormed (Nat.zero_lt_succ _), by decide, by decide⟩, fun s stepped => ?_⟩
    cases stepped
    exact ⟨nofun, fun _ _ => trivial⟩
  refine (reader_conserves_iff everyPlace _ admitted).mpr ?_
  refine ⟨trivial, fun s stepped => ?_⟩
  cases stepped
  refine ⟨nofun, fun s stepped => ?_⟩
  cases stepped
  refine ⟨trivial, fun s stepped => ?_⟩
  cases stepped
  refine ⟨trivial, fun s stepped => ?_⟩
  cases stepped
  refine ⟨?_, fun s stepped => ?_⟩
  · intro pattern asked
    cases asked
    decide
  · cases stepped
    exact ⟨trivial, fun _ _ => trivial⟩

/-- The pattern in the first bytes that are read. -/
theorem resumed_search_dangles :
    (machine Nat everyPlace).Admitted [.request (.toPattern [13, 10]), .data (piece 1 [13, 10]) 2] {} ∧
      (machine Nat everyPlace).run [.request (.toPattern [13, 10]), .data (piece 1 [13, 10]) 2] {} =
        .error .danglingPointer ∧
      ¬(machine Nat everyPlace).AllSteps Good [.request (.toPattern [13, 10]), .data (piece 1 [13, 10]) 2] {} := by
  refine ⟨⟨⟨rfl, rfl, nofun⟩, fun s stepped => ?_⟩, rfl, ?_⟩
  · cases stepped
    exact ⟨⟨nofun, piece_wellFormed (Nat.zero_lt_succ _), by decide, by decide⟩, fun _ _ => trivial⟩
  · rintro ⟨s, stepped, -, s', resumed, -⟩
    cases stepped
    cases resumed

end LibNekit.Guarantees.StreamConservation
