import LibNekit.Canonical.Elements

/-!
# Reading the head of a message

What is read of a head depends on the parser and on where the next byte belongs. As long
as there is room for it, the count and the limits of a stream do not matter.
-/
namespace LibNekit.Canonical

open LibNekit.Source LibNekit.Source.HttpParser LibNekit.Library

/-- The next byte belongs to a start line or to a header line. -/
def Phase.inHead : Phase → Bool
  | .idle | .lastCr _ | .headersDone _ | .body | .stopped => false
  | _ => true

namespace Reader

/-- The reader in a head. -/
def follow (parser : HttpParser) (phase : Phase) : Bytes → Reading
  | [] => some (parser, phase, [])
  | c :: rest =>
    if phase.inHead then do
      let (parser, phase, first) ← read phase parser c
      let (parser, phase, more) ← follow parser phase rest
      return (parser, phase, first ++ more)
    else none

variable {setup : Setup} {r : Reader} {parser parser' last : HttpParser} {phase phase' phaseLast : Phase} {c : UInt8}
  {front back bytes : Bytes} {events more : List Event}

theorem follow_cons (head : phase.inHead = true) (readBy : read phase parser c = some (parser', phase', events))
    (later : follow parser' phase' bytes = some (last, phaseLast, more)) :
    follow parser phase (c :: bytes) = some (last, phaseLast, events ++ more) := by
  rw [follow, if_pos head, readBy]
  change (follow parser' phase' bytes).bind _ = _
  rw [later]
  rfl

theorem follow_append (here : follow parser phase front = some (parser', phase', events))
    (later : follow parser' phase' back = some (last, phaseLast, more)) :
    follow parser phase (front ++ back) = some (last, phaseLast, events ++ more) := by
  induction front generalizing parser phase events with
  | nil =>
    cases here
    exact later
  | cons c front ih =>
    rw [follow] at here
    split at here
    · next head =>
      obtain ⟨⟨parser₁, phase₁, first⟩, readBy, here⟩ := Option.bind_eq_some_iff.mp here
      obtain ⟨⟨parser₂, phase₂, rest⟩, follows, same⟩ := Option.bind_eq_some_iff.mp here
      cases same
      rw [List.cons_append, List.append_assoc]
      exact follow_cons head readBy (ih follows)
    · cases here

/-- There is room for the next byte. -/
theorem refuses_false (room : r.count < setup.limit) (short : r.phase.held.length ≤ 8003)
    (head : r.phase ≠ .idle ∧ r.phase ≠ .body ∧ r.phase ≠ .stopped) : r.refuses setup c = false := by
  have allowed : r.plain c = true := by
    unfold Reader.plain
    split
    · next idle => exact absurd idle head.1
    · next body => exact absurd body head.2.1
    · next stopped => exact absurd stopped head.2.2
    · exact decide_eq_true short
  unfold refuses full
  rw [allowed, decide_eq_false (Nat.not_le.mpr room)]
  simp

theorem countAfter_le_succ : r.countAfter ≤ r.count + 1 := by
  unfold countAfter
  split_ifs <;> omega

theorem inHead_running (head : phase.inHead = true) : phase ≠ .idle ∧ phase ≠ .body ∧ phase ≠ .stopped := by
  refine ⟨?_, ?_, ?_⟩ <;> rintro rfl <;> cases head

theorem step_inHead (room : r.count < setup.limit) (short : r.phase.held.length ≤ 8003) (head : r.phase.inHead = true) :
    r.step setup c = r.readByte c := by
  unfold step
  rw [refuses_false room short (inHead_running head), if_neg Bool.false_ne_true]
  split
  · next line phase =>
    rw [phase] at head
    cases head
  · rfl

/-- A stream with room for the head reads it as it is followed. -/
theorem run_follow (sound : Sound setup r) (room : r.count + bytes.length ≤ setup.limit)
    (short : r.phase.held.length + bytes.length ≤ 8003) (follows : follow r.parser r.phase bytes = some (last, phaseLast, events)) :
    ∃ count, run setup r bytes = some (⟨last, phaseLast, count⟩, events) ∧ count ≤ r.count + bytes.length := by
  induction bytes generalizing r events with
  | nil =>
    cases follows
    exact ⟨r.count, rfl, Nat.le_refl _⟩
  | cons c bytes ih =>
    rw [List.length_cons] at room short
    rw [follow] at follows
    split at follows
    · next head =>
      obtain ⟨⟨parser₁, phase₁, first⟩, readBy, onward⟩ := Option.bind_eq_some_iff.mp follows
      obtain ⟨⟨parser₂, phase₂, rest⟩, later, same⟩ := Option.bind_eq_some_iff.mp onward
      cases same
      have stepped : r.step setup c = some (⟨parser₁, phase₁, r.countAfter⟩, first) := by
        rw [step_inHead (by omega) (by omega) head]
        unfold readByte
        rw [readBy]
        rfl
      have counted : r.countAfter ≤ r.count + 1 := countAfter_le_succ
      have held : r.phase.held.length + 1 = (bytesOf first).length + phase₁.held.length := by
        have takes := congrArg List.length (step_takes sound stepped).bytes
        rwa [List.length_append, List.length_append] at takes
      obtain ⟨count, ran, counts⟩ := ih (r := ⟨parser₁, phase₁, r.countAfter⟩) (step_sound sound stepped)
        (by change r.countAfter + _ ≤ _; omega) (by change phase₁.held.length + _ ≤ _; omega) later
      refine ⟨count, ?_, ?_⟩
      · rw [run_cons, stepped, Option.bind_some, ran]
        rfl
      · change count ≤ r.countAfter + _ at counts
        rw [List.length_cons]
        omega
    · cases follows

end Reader

end LibNekit.Canonical
