import LibNekit.Canonical.Sessions
import LibNekit.Guarantees.StreamRuns

/-!
# Editing sessions

A delegate may read and rewrite the element it stands on as often as it likes. What comes
back of a stream of plain messages is what its scripts mean for the elements one by one,
whatever the Buffers are in which the stream comes: nothing of a Buffer shows through. At
every moment no more is withheld than the element under way.
-/
namespace LibNekit.Guarantees.EditingSessions

open LibNekit.Source LibNekit.Source.Rewriter LibNekit.Source.HttpParser LibNekit.Source.HttpMessageStreamRewriter
  LibNekit.Library LibNekit.Canonical LibNekit.Guarantees.Fragmentation LibNekit.Guarantees.StreamRuns RewriterImpl

variable {δ : Type} {session : Session δ} {type : MessageType} {d d' : δ} {event : Event} {events : List Event} {new text : Bytes}
  {last : Reader} {inputs : List (Nat × Buffer)}

def scene (type : MessageType) (session : Session δ) : Scene δ := ⟨plain type, session.delegate, session.acts, False⟩

theorem scene_lawful (fits : session.Fits) : (scene type session).Lawful where
  implements := Session.implements fits
  refusal := Session.acts_answers
  overflow := fun large => absurd (show (40000 : Nat) < 40000 from large) (Nat.lt_irrefl _)
  limit := show (40000 : Nat) ≤ maxHeaderSize by decide

end LibNekit.Guarantees.EditingSessions
