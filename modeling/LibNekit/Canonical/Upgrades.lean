import LibNekit.Canonical.Plain

/-!
# The end of a plain stream that upgrades

A plain stream has nothing behind a message that upgrades the connection. The call that
reads the end of the message hands back everything, and has stopped.
-/
namespace LibNekit.Canonical

open LibNekit.Source LibNekit.Source.Rewriter LibNekit.Source.HttpParser LibNekit.Source.HttpMessageStreamRewriter
  LibNekit.Library

variable {δ : Type} {setup : Setup} {l last : Reader} {bytes : Bytes} {events : List Event}

namespace Reader

/-- Nothing is read behind the end. -/
theorem run_behind (plain : setup.plain = true) (stopped : l.phase = .stopped)
    (ran : run setup l bytes = some (last, events)) : bytes = [] ∧ events = [] := by
  cases bytes with
  | nil =>
    cases ran
    exact ⟨rfl, rfl⟩
  | cons c bytes =>
    obtain ⟨next, first, rest, stepped, -, rfl⟩ := run_cons_some ran
    have allowed := step_plain plain stepped
    unfold Reader.plain at allowed
    rw [stopped] at allowed
    cases allowed

end Reader

namespace Scene

variable {y : Scene δ} {s s' : HttpMessageStreamRewriter δ} {pending : Bytes} {input : Nat × Buffer}

/-- How the last call ends. -/
structure Concludes (y : Scene δ) (s : HttpMessageStreamRewriter δ) (l : Reader) (pending : Bytes) (events : List Event)
    (g : Draft δ) (s' : HttpMessageStreamRewriter δ) : Prop where
  ends : ∃ front, events = front ++ [.messageComplete true]
  performed : y.acts.PerformsAll events (opening l pending s.delegate) g
  delegate : s'.delegate = g.delegate
  content : s'.impl.currentBuffer.content = g.out
  wf : s'.impl.currentBuffer.WellFormed

theorem rewriteBuffer_upgrades (lawful : y.Lawful) (inexcusable : ¬y.excuse) (plain : y.setup.plain = true)
    (paused : y.Paused s l pending) (wf : input.2.WellFormed) (below : input.2.Below input.1) (fits : input.2.size < 2 ^ 61)
    (some_bytes : input.2.content ≠ []) (short : CallAlong y.delegate ShortSlice input s)
    (ahead : Reader.run y.setup l input.2.content = some (last, events)) (stopped : last.phase = .stopped)
    (tame : y.acts.Tame events (opening l pending s.delegate)) :
    ∃ s' g, s.rewriteBuffer y.delegate input.1 input.2 = .ok (.ok (), s') ∧ Concludes y s l pending events g s' := by
  obtain ⟨done, ran, called⟩ := (rewriteBuffer_calls lawful paused.withholds wf below fits short ahead tame).exists_ok
  cases called with
  | failed excuse errored => exact absurd excuse inexcusable
  | @stops front back g l' unread' s' done split performed upgraded phase behind withheld =>
    obtain ⟨rfl, rfl⟩ := Reader.run_behind plain phase behind
    have rests := upgraded.rests
    have content : s'.impl.currentBuffer.content = g.out := by
      have whole : s'.impl.currentBuffer.content = g.out ++ Phase.held .idle ++ [] := rests.content
      rw [whole, List.append_nil]
      exact List.append_nil _
    have well : s'.impl.currentBuffer.WellFormed := rests.wf
    have nothing : s'.impl.currentTokenOffset = s'.impl.currentBuffer.size := by
      have offset : s'.impl.currentBufferOffset = g.out.length + (Phase.held .idle).length := rests.offset
      rw [upgraded.token, offset, ← well.length_content, content]
      rfl
    rw [withhold_nothing nothing] at withheld
    cases withheld
    rw [split]
    exact ⟨s', g, ran, ⟨front, rfl⟩, performed, upgraded.delegate, content, well⟩
  | @ended g token done performed inside lag behind ended =>
    have outside : last.phase.inToken = false := by
      rw [stopped]
      rfl
    have held : last.phase.held = [] := Phase.held_of_outside outside
    obtain ⟨before, after, -⟩ := Lag.near plain some_bytes paused.withholds.behind behind outside (lag outside)
    cases ended with
    | tooLong long =>
      have range : maxBufferSize = 8192 := rfl
      rw [held, List.append_nil] at long
      omega
    | ok withholds delegate wf put count => exact absurd stopped withholds.running

end Scene

end LibNekit.Canonical
