import LibNekit.Canonical.BodyBytes

/-!
# One call of the parser, from its beginning to its end
-/
namespace LibNekit.Canonical

open LibNekit.Source LibNekit.Source.Rewriter LibNekit.Source.HttpParser LibNekit.Library

variable {δ : Type}

namespace Context

variable {x : Context δ} {already : Bool} {g : Draft δ} {events : List Event} {last l : Reader}
  {r : RewriterImpl} {p nread : Nat}

/-- The slice is used up, and no element is marked. -/
theorem Ready.used (ready : x.Ready already g events last l r p nread) (used : p = x.data.length)
    (positive : 0 < p) : x.Resumes already g events last l r p nread fun _ => none := by
  have models : l.Models (l.parser.counting nread) := ⟨nread, ready.few, Or.inl rfl⟩
  have clear : l.parser.httpErrno = .ok := ready.sound.meets.clear
  refine Feeds.stop used clear rfl ?_
  rw [← used]
  cases phase : l.phase with
  | stopped => exact absurd phase ready.running.1
  | headersDone lag =>
    have inside := ready.running.2 lag phase
    omega
  | idle => exact ready.stops (Or.inl phase) models used positive
  | body => exact ready.stops (Or.inr phase) models used positive
  | _ => exact ready.stands.left (by rw [phase]; rfl) ready.sound models ready.ahead positive

/-- One byte, or the piece that begins with it. -/
theorem Ready.resumes {c : UInt8} {rest : Bytes} (lawful : x.Lawful)
    (ready : x.Ready already g events last l r p nread) (unmarked : l.phase.mark = none)
    (left : x.data.drop p = c :: rest) (ih : x.Continues last (p + 1)) :
    x.Resumes already g events last l r p nread fun _ => none := by
  cases phase : l.phase with
  | stopped => exact absurd phase ready.running.1
  | idle => exact feeds_idle lawful ready phase left ih
  | target m => exact feeds_target lawful ready phase left ih
  | reason v k => exact feeds_reason lawful ready phase left ih
  | blanks n b => exact feeds_blanks lawful ready phase left ih
  | lineEnd line => exact feeds_lineEnd lawful ready phase left ih
  | emptyEnd n b => exact feeds_emptyEnd lawful ready phase left ih
  | lastCr line => exact feeds_lastCr lawful ready phase left
  | headersDone lag => exact feeds_headersDone lawful ready phase left ih
  | body => exact feeds_body lawful ready phase left ih
  | url u | status text | name n | value n b v =>
    rw [phase] at unmarked
    cases unmarked
  | _ => exact feeds_quiet lawful ready left ih (by rw [phase]; rfl)

/-- The loop goes on from wherever it is ready, by induction on what is left of the slice. -/
theorem continues (lawful : x.Lawful) (positive : 0 < x.data.length) :
    ∀ left p, x.data.length ≤ p + left → x.Continues last p := by
  intro left
  induction left with
  | zero =>
    intro p enough already g events l r q nread later ready unmarked
    have inside := ready.stands.inside
    exact ready.used (by omega) (by omega)
  | succ left ih =>
    intro p enough already g events l r q nread later ready unmarked
    cases behind : x.data.drop q with
    | nil =>
      have inside := ready.stands.inside
      have used := List.drop_eq_nil_iff.mp behind
      exact ready.used (by omega) (by omega)
    | cons c rest => exact ready.resumes lawful unmarked behind (ih (q + 1) (by omega))

/-- An element is marked on entry where the phase reads into it. -/
theorem mark_eq {phase : Phase} {state : ParserState} (has : phase.Has state) (running : phase ≠ .stopped) :
    entryMark state = phase.mark := by
  cases phase with
  | stopped => exact absurd rfl running
  | url u => exact has
  | lineCr line | lineEnd line => cases line <;> cases has <;> rfl
  | idle => rcases has with rfl | rfl | rfl <;> rfl
  | version u v => rcases has with rfl | rfl | rfl | rfl | rfl | rfl | rfl | rfl | rfl <;> rfl
  | resVersion v => rcases has with rfl | rfl | rfl | rfl | rfl | rfl | rfl | rfl <;> rfl
  | code v k => rcases has with ⟨rfl, -⟩ | rfl <;> rfl
  | reason v k =>
    obtain ⟨rfl, -⟩ := has
    rfl
  | body => rcases has with rfl | rfl | rfl | rfl | rfl | rfl | rfl | rfl | rfl | rfl | rfl <;> rfl
  | _ =>
    cases has
    rfl

/-- A call of `http_parser_execute` on the slice. -/
theorem executes (lawful : x.Lawful) (positive : 0 < x.data.length)
    (ready : x.Ready already g events last l r 0 nread) :
    Outcome ((execute (l.parser.counting nread) x.data).run x.handler (r, g.delegate))
      (fun done => x.Left already g events last done.1.1 done.1.2 done.2) False := by
  have some_data : x.data ≠ [] := List.ne_nil_of_length_pos positive
  have ih : ∀ p, x.Continues last p := fun p => continues lawful positive x.data.length p (Nat.le_add_left _ _)
  have entry : entryMark (l.parser.counting nread).state = l.phase.mark :=
    mark_eq ready.sound.meets.has ready.running.1
  refine execute_outcome ready.sound.meets.clear some_data ?_
  unfold entryFrame
  dsimp only
  rw [entry]
  cases phase : l.phase with
  | url u => exact feeds_urlRest lawful ready phase positive (ih 1)
  | status text => exact feeds_statusRest lawful ready phase positive (ih 1)
  | name n => exact feeds_nameRest lawful ready phase positive (ih 1)
  | value n b v => exact feeds_valueRest lawful ready phase positive (ih 1)
  | _ => exact ih 0 already g events l r 0 nread (Nat.le_refl _) ready (by rw [phase]; rfl)

end Context

end LibNekit.Canonical
