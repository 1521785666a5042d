import LibNekit.Canonical.Passes

/-!
# The loop in a stream

It goes on until the Buffer is used up. `Lag` says where the token is then, if no element
is under way: where it was set last, with bytes behind it that nobody was told about.
-/
namespace LibNekit.Canonical

open LibNekit.Source LibNekit.Source.Rewriter LibNekit.Source.HttpParser LibNekit.Source.HttpMessageStreamRewriter
  LibNekit.Library

variable {δ : Type}

/-- What nobody is told about goes out as it is. -/
theorem performs_passive {acts : Acts δ} {events : List Event} {g g' : Draft δ}
    (passive : ∀ event ∈ events, event.passive = true) (performed : acts.PerformsAll events g g') :
    g' = ⟨g.out ++ events.flatMap Event.bytes, g.delegate⟩ := by
  induction events generalizing g with
  | nil =>
    cases performed
    rw [List.flatMap_nil, List.append_nil]
  | cons event events ih =>
    obtain ⟨silent, rest⟩ := List.forall_mem_cons.mp passive
    obtain ⟨middle, first, more⟩ := performed
    rw [ih rest more, List.flatMap_cons]
    cases event with
    | raw bytes =>
      cases first
      rw [← List.append_assoc]
      rfl
    | settled =>
      cases first
      rfl
    | _ => cases silent

namespace Scene

/-- Where the token was set last, at a point where the reader was `at` and `out` had been
put out: by the call itself, or before it began. -/
structure Lag (y : Scene δ) (before : Nat) (g : Draft δ) (l : Reader) (unread : Bytes) (token : Nat) (g' : Draft δ)
    (last : Reader) : Prop where
  since : ∃ (m : Reader) (out rest : Bytes) (tail : List Event), m.Sound y.setup ∧ m.phase.inToken = false ∧
    Reader.run y.setup m rest = some (last, tail) ∧ .settled ∉ tail ∧ (∀ event ∈ tail, event.passive = true) ∧
      g'.out = out ++ tail.flatMap Event.bytes ∧
        (token = out.length ∨ (∃ lag ≤ 1, m.phase = .headersDone lag ∧ token + lag = out.length) ∨
          m = l ∧ out = g.out ∧ rest = unread ∧ token = before)

/-- What the loop comes to. -/
inductive Looped (y : Scene δ) (s : HttpMessageStreamRewriter δ) (g : Draft δ) (l : Reader) (unread : Bytes)
    (events : List Event) (last : Reader) : HttpMessageStreamRewriter δ → Prop
  | done {g' : Draft δ} {s' : HttpMessageStreamRewriter δ} (performed : y.acts.PerformsAll events g g')
      (between : y.Between s' g' last []) (lag : last.phase.inToken = false →
        y.Lag s.impl.currentTokenOffset g l unread s'.impl.currentTokenOffset g' last) :
      Looped y s g l unread events last s'
  | stops {front back : List Event} {g' : Draft δ} {l' : Reader} {unread' : Bytes} {s' : HttpMessageStreamRewriter δ}
      (split : events = front ++ .messageComplete true :: back)
      (performed : y.acts.PerformsAll (front ++ [.messageComplete true]) g g') (upgraded : y.Upgraded s' g' unread')
      (phase : l'.phase = .stopped) (ahead : Reader.run y.setup l' unread' = some (last, back)) :
      Looped y s g l unread events last s'
  | failed {s' : HttpMessageStreamRewriter δ} (excuse : y.excuse) (errored : s'.impl.errored = true) :
      Looped y s g l unread events last s'

variable {y : Scene δ} {s s₁ s' : HttpMessageStreamRewriter δ} {g g₁ g' : Draft δ} {l l₁ last : Reader} {unread unread₁ : Bytes}
  {events front back : List Event}

theorem parseLoop_finished (finished : s.unfinished = false) (fuel : Nat) : parseLoop y.delegate fuel s = .ok s := by
  cases fuel <;> simp [parseLoop, finished]

/-- Nothing is left. -/
theorem Between.used (between : y.Between s g l []) (fuel : Nat) :
    Outcome (parseLoop y.delegate fuel s) (y.Looped s g l [] [] l) False := by
  have finished : s.unfinished = false := Bool.eq_false_iff.mpr fun more => between.unfinished_iff.mp more rfl
  rw [parseLoop_finished finished]
  refine .done rfl between fun outside => ⟨l, g.out, [], [], between.sound, outside, rfl, nofun, nofun, ?_, Or.inr (Or.inr ⟨rfl, rfl, rfl, rfl⟩)⟩
  rw [List.flatMap_nil, List.append_nil]

/-- A pass in front of the rest of the loop. -/
theorem Looped.before (token : l₁.phase.inToken = false → (∃ lag, l₁.phase = .headersDone lag) ∨
      (Settles front ∧ s₁.impl.currentTokenOffset = s₁.impl.currentBufferOffset) ∨ y.Waits s l unread front s₁ l₁ unread₁)
    (sound : l.Sound y.setup) (performed : y.acts.PerformsAll front g g₁) (between : y.Between s₁ g₁ l₁ unread₁)
    (looped : y.Looped s₁ g₁ l₁ unread₁ back last s') : y.Looped s g l unread (front ++ back) last s' := by
  cases looped with
  | failed excuse errored => exact .failed excuse errored
  | stops split more upgraded phase ahead =>
    refine .stops (by rw [split, List.append_assoc]) ?_ upgraded phase ahead
    rw [List.append_assoc]
    exact performed.append more
  | done more ends lag =>
    refine .done (performed.append more) ends fun outside => ?_
    obtain ⟨m, out, rest, tail, soundM, silent, ran, unsettled, passive, put, since⟩ := (lag outside).since
    rcases since with set | header | ⟨rfl, rfl, rfl, same⟩
    · exact ⟨m, out, rest, tail, soundM, silent, ran, unsettled, passive, put, Or.inl set⟩
    · exact ⟨m, out, rest, tail, soundM, silent, ran, unsettled, passive, put, Or.inr (Or.inl header)⟩
    rcases token silent with ⟨lag, phase⟩ | ⟨-, set⟩ | waits
    · obtain ⟨-, small, behind⟩ := between.rests.lag lag phase
      exact ⟨m, _, rest, tail, soundM, silent, ran, unsettled, passive, put, Or.inr (Or.inl ⟨lag, small, phase, same ▸ behind⟩)⟩
    · refine ⟨m, _, rest, tail, soundM, silent, ran, unsettled, passive, put, Or.inl ?_⟩
      rw [same, set, between.rests.offset, Phase.held_of_outside silent, List.length_nil, Nat.add_zero]
    · obtain ⟨slice, split, taken⟩ := waits.ran
      refine ⟨l, g.out, unread, front ++ tail, sound, waits.outside, ?_, ?_, ?_, ?_,
        Or.inr (Or.inr ⟨rfl, rfl, rfl, same.trans waits.token⟩)⟩
      · rw [split]
        exact Reader.run_join taken ran
      · exact fun member => (List.mem_append.mp member).elim waits.unsettled unsettled
      · exact fun event member => (List.mem_append.mp member).elim (waits.passive event) (passive event)
      · rw [put, performs_passive waits.passive performed, List.flatMap_append, List.append_assoc]

/-- The loop, by induction on the passes that are left. -/
theorem parseLoop_loops (lawful : y.Lawful) (fuel : Nat) (between : y.Between s g l unread)
    (enough : effort l unread ≤ fuel) (short : LoopAlong y.delegate ShortSlice fuel s)
    (ahead : Reader.run y.setup l unread = some (last, events)) (tame : y.acts.Tame events g) :
    Outcome (parseLoop y.delegate fuel s) (y.Looped s g l unread events last) False := by
  induction fuel generalizing s g l unread events with
  | zero =>
    obtain rfl : unread = [] := by
      unfold effort at enough
      exact List.length_eq_zero_iff.mp (by omega)
    cases ahead
    exact between.used 0
  | succ fuel ih =>
    by_cases some_bytes : unread = []
    · subst some_bytes
      cases ahead
      exact between.used (fuel + 1)
    have unfinished := between.unfinished_iff.mpr some_bytes
    obtain ⟨few, later⟩ := short unfinished
    rw [parseLoop, if_pos unfinished]
    obtain ⟨s₁, ran, passed⟩ := (parseStep_passes lawful between some_bytes few ahead tame).exists_ok
    rw [ran, ok_bind]
    cases passed with
    | failed excuse errored =>
      have finished : s₁.unfinished = false := by simp [HttpMessageStreamRewriter.unfinished, errored]
      rw [parseLoop_finished finished]
      exact .failed excuse errored
    | stops split performed upgraded phase ahead =>
      have finished : s₁.unfinished = false := by simp [HttpMessageStreamRewriter.unfinished, upgraded.stopped]
      rw [parseLoop_finished finished]
      exact .stops split performed upgraded phase ahead
    | goesOn split performed between₁ ahead₁ less token =>
      subst split
      refine (ih between₁ (by omega) (later s₁ ran) ahead₁ (Acts.Tame.drop tame performed)).mono ?_ id
      exact fun s' looped => Looped.before token between.sound performed between₁ looped

end Scene

end LibNekit.Canonical
