import LibNekit.Guarantees.StreamConservation
import LibNekit.Library.Occurrence
import LibNekit.Source.Utils.PatternReading

/-!
# A resumed search finds what a full search would

A search that finds nothing settles every place where the bytes had room for the pattern.
`last_pos_` lies behind none of the others, so the first occurrence in the rest is the
first of all.
-/
namespace LibNekit.Guarantees.ResumedSearch

open LibNekit.Source LibNekit.Library LibNekit.Library.Occurrence LibNekit.Source.PatternReading
open LibNekit.Source.StreamReader (Cut)
open LibNekit.Guarantees.StreamConservation (Holds grown_holds everyPlace piece piece_wellFormed)

variable {searcher : PatternSearcher} {pattern : Bytes} {r : StreamReader} {next : Nat} {s : PatternReading}

/-- The handler is given the shortest beginning that contains the pattern, by the task that is
posted as soon as there is one. -/
def Prompt (s : PatternReading) : Prop :=
  match s.stage with
  | .idle => True
  | .reading => ¬s.pattern <:+: s.accumulated
  | .posted buffer | .handled buffer => Shortest s.pattern s.accumulated buffer.content

/-! ## One search -/

/-- No occurrence begins in front of `last_pos_`. -/
def Settled (pattern : Bytes) (r : StreamReader) : Prop := ∀ j < r.lastPos, ¬pattern <+: r.buffer.content.drop j

/-- The search goes on from here after a read. -/
structure Resumes (pattern : Bytes) (r : StreamReader) : Prop where
  missing : ¬pattern <:+: r.buffer.content
  size : r.patternSize = pattern.length
  lastPos : r.lastPos = r.buffer.size - min r.buffer.size pattern.length

inductive Search (next : Nat) (pattern : Bytes) (r : StreamReader) : StreamReader × StreamReader.Action → Prop where
  | read {r' : StreamReader} (same : r'.buffer = r.buffer) (resumes : Resumes pattern r') : Search next pattern r (r', .read)
  | post {r' : StreamReader} {b : Buffer} {len : Nat} (cut : Cut next len r r' b)
      (shortest : Shortest pattern r.buffer.content b.content) : Search next pattern r (r', .post b)

/-- What the matcher says about the rest. -/
theorem search_rest (corpus : Bytes) (positive : pattern ≠ []) :
    ∃ result, StreamReader.search searcher (some pattern) pattern.length corpus = .ok result ∧
      (result = none → ∀ j, ¬pattern <+: corpus.drop j) ∧
      ∀ k, result = some k → pattern <+: corpus.drop k ∧ ∀ j < k, ¬pattern <+: corpus.drop j := by
  by_cases short : corpus.length < pattern.length
  · refine ⟨none, StreamReader.search_short short, ?_, nofun⟩
    intro _ j here
    have room := occurs_room positive here
    omega
  · refine ⟨_, StreamReader.search_some short, ?_, fun k sought => searcher.found sought⟩
    intro sought j here
    have room := occurs_room positive here
    exact searcher.missing sought j (by omega) here

/-- One run of `DoReadPattern` over a buffer without an occurrence in front of `last_pos_`. -/
theorem doReadPattern_search (holds : Holds next r) (positive : pattern ≠ []) (size : r.patternSize = pattern.length)
    (inside : r.lastPos ≤ r.buffer.size) (settled : Settled pattern r) :
    ∃ ran, r.doReadPattern searcher next (some pattern) = .ok ran ∧ Search next pattern r ran := by
  have length := holds.wf.length_content
  obtain ⟨result, sought, nowhere, somewhere⟩ :=
    @search_rest searcher pattern (r.buffer.content.drop r.lastPos) positive
  rw [StreamReader.doReadPattern, holds.wf.walk_append_from inside, ok_bind, List.nil_append, size, sought, ok_bind]
  cases result with
  | none =>
    refine ⟨_, rfl, Search.read rfl ⟨?_, rfl, rfl⟩⟩
    exact missing_of_rest settled (nowhere rfl)
  | some k =>
    obtain ⟨here, first⟩ := somewhere k rfl
    have first' := first_of_rest settled first
    rw [List.drop_drop] at here
    have room := occurs_room positive here
    have lengthPos := List.length_pos_iff.mpr positive
    obtain ⟨r', b, ran, cut⟩ := @StreamReader.handOver_cut next r (k + pattern.length + r.lastPos)
      holds.wf holds.below holds.fits (by omega) (by omega)
    refine ⟨_, ran, Search.post cut ?_⟩
    have end_eq : k + pattern.length + r.lastPos = r.lastPos + k + pattern.length := by omega
    rw [cut.front, end_eq]
    exact shortest_of_first here first'

/-! ## The runs -/

structure Sound (s : PatternReading) : Prop where
  holds : Holds s.next s.reader
  prompt : Prompt s
  resumes : s.stage = .reading →
    s.pattern ≠ [] ∧ Resumes s.pattern s.reader ∧ s.reader.buffer.content = s.accumulated

/-- Whatever the search comes to, the run goes on soundly. -/
theorem follow_sound {ran : StreamReader × StreamReader.Action} (positive : s.pattern ≠ []) (holds : Holds s.next r)
    (accumulated : r.buffer.content = s.accumulated) (search : Search s.next s.pattern r ran) : Sound (s.follow ran) := by
  cases search with
  | read same resumes =>
    constructor
    · constructor
      · show Buffer.WellFormed _
        exact same ▸ holds.wf
      · show Buffer.Below _ _
        exact (same ▸ holds.below).mono (Nat.le_succ _)
      · show Buffer.size _ < sizeRange
        exact same ▸ holds.fits
    · show ¬s.pattern <:+: s.accumulated
      rw [← accumulated, ← same]
      exact resumes.missing
    · intro _
      exact ⟨positive, resumes, (congrArg Buffer.content same).trans accumulated⟩
  | @post r' b len cut shortest =>
    constructor
    · refine ⟨cut.wf, cut.below, ?_⟩
      have before := holds.wf.length_content
      have after := cut.wf.length_content
      rw [cut.back, List.length_drop] at after
      have fits := holds.fits
      show r'.buffer.size < sizeRange
      omega
    · show Shortest s.pattern s.accumulated b.content
      rw [← accumulated]
      exact shortest
    · intro reading
      cases reading

/-- A new request searches what is there from its beginning. -/
theorem request_sound (sound : Sound s) (positive : pattern ≠ []) :
    ∃ s', step searcher (.request pattern) s = .ok s' ∧ Sound s' := by
  have length : pattern.length ≠ 0 := by simpa using positive
  have holds : Holds s.next { s.reader with lastPos := 0, patternSize := pattern.length } :=
    ⟨sound.holds.wf, sound.holds.below, sound.holds.fits⟩
  obtain ⟨ran, read, search⟩ := @doReadPattern_search searcher pattern _ _ holds positive rfl (Nat.zero_le _)
    (fun j impossible => absurd impossible (Nat.not_lt_zero j))
  refine ⟨{ s with pattern, accumulated := s.reader.buffer.content }.follow ran, ?_, ?_⟩
  · rw [step, onRequest, StreamReader.readToPattern, boostAssert_of length, ok_bind, read]
    rfl
  · exact follow_sound positive holds rfl search

/-- After a read the search goes on at `last_pos_`. -/
theorem data_sound {buffer : Buffer} {upTo : Nat} (sound : Sound s) (admits : Admits (.data buffer upTo) s) :
    ∃ s', step searcher (.data buffer upTo) s = .ok s' ∧ Sound s' := by
  obtain ⟨reading, wf, fresh, fits⟩ := admits
  obtain ⟨positive, resumes, accumulated⟩ := sound.resumes reading
  obtain ⟨grown, inserted, holds, content, size⟩ := grown_holds sound.holds wf fresh fits
  have length := sound.holds.wf.length_content
  have lastPos := resumes.lastPos
  have settled : Settled s.pattern { s.reader with buffer := grown } := by
    intro j early here
    rw [content] at here
    have late := occurs_late resumes.missing here
    have early : j < s.reader.lastPos := early
    omega
  have inside : s.reader.lastPos ≤ grown.size := by omega
  obtain ⟨ran, read, search⟩ := @doReadPattern_search searcher s.pattern { s.reader with buffer := grown } _
    holds positive resumes.size inside settled
  let s₁ : PatternReading := { s with next := max s.next upTo, accumulated := s.accumulated ++ buffer.content }
  refine ⟨s₁.follow ran, ?_, ?_⟩
  · rw [step, onData, inserted]
    exact congrArg (· >>= fun ran => Except.ok (s₁.follow ran)) read
  · refine @follow_sound { s.reader with buffer := grown } s₁ ran positive holds ?_ search
    show grown.content = s.accumulated ++ buffer.content
    rw [content, accumulated]

theorem posted_sound (sound : Sound s) (admits : Admits .posted s) : Sound s.onPosted := by
  obtain ⟨buffer, posted⟩ := admits
  have prompt := sound.prompt
  rw [Prompt, posted] at prompt
  have handled : s.onPosted = { s with stage := .handled buffer } := by rw [onPosted, posted]
  rw [handled]
  exact ⟨sound.holds, prompt, nofun⟩

theorem step_sound {e : Event} (sound : Sound s) (admits : Admits e s) :
    ∃ s', step searcher e s = .ok s' ∧ Sound s' := by
  cases e with
  | request pattern => exact request_sound sound admits.2
  | data buffer upTo => exact data_sound sound admits
  | posted => exact ⟨_, rfl, posted_sound sound admits⟩

/-- Whatever `buffer_` holds at a request and however the stream is cut into Buffers and chunks. -/
theorem resumed_search_prompt (searcher : PatternSearcher) (r : StreamReader) (next : Nat) (holds : Holds next r)
    (events : List Event) (admitted : (machine searcher).Admitted events { reader := r, next }) :
    (machine searcher).AllSteps (fun _ _ s' => Prompt s') events { reader := r, next } := by
  have start : Sound { reader := r, next } := ⟨holds, trivial, nofun⟩
  apply @Machine.allSteps_of_inputs _ _ _ (machine searcher) Sound _ (fun _ => True) _ events _ start admitted
  · intro e _
    trivial
  · intro e s sound admits _
    obtain ⟨s', stepped, after⟩ := @step_sound searcher s e sound admits
    exact ⟨s', stepped, after.prompt, after⟩

/-- Two bytes that repeat, over three reads and what `buffer_` held. -/
theorem resumed_search_prompt_three_reads :
    (machine everyPlace).AllSteps (fun _ _ s' => Prompt s') [.request [7, 7, 8], .data (piece 2 [7]) 3,
      .data (piece 4 [7]) 5, .data (piece 6 [8, 9]) 7, .posted] { reader := { buffer := piece 0 [6, 7] }, next := 1 } := by
  have holds : Holds 1 { buffer := piece 0 [6, 7] } := by
    constructor
    · exact piece_wellFormed (Nat.zero_lt_succ _)
    · show ∀ a ∈ (piece 0 [6, 7]).addrs, a < 1
      decide
    · decide
  refine resumed_search_prompt everyPlace _ 1 holds _ ?_
  refine ⟨⟨rfl, by decide⟩, fun s stepped => ?_⟩
  cases stepped
  refine ⟨⟨rfl, piece_wellFormed (Nat.zero_lt_succ _), by decide, by decide⟩, fun s stepped => ?_⟩
  cases stepped
  refine ⟨⟨rfl, piece_wellFormed (Nat.zero_lt_succ _), by decide, by decide⟩, fun s stepped => ?_⟩
  cases stepped
  refine ⟨⟨rfl, piece_wellFormed (Nat.zero_lt_succ _), by decide, by decide⟩, fun s stepped => ?_⟩
  cases stepped
  exact ⟨⟨_, rfl⟩, fun _ _ => trivial⟩

end LibNekit.Guarantees.ResumedSearch
