import Mathlib.Init

/-!
# Runs that end well unless something is wrong

`Outcome run Good Bad` describes a run that may fail: its result satisfies `Good`,
and if it fails then `Bad` holds. With `Bad = False` it says that the run succeeds.
-/
namespace LibNekit.Library

variable {ε α β : Type}

def Outcome (run : Except ε α) (Good : α → Prop) (Bad : Prop) : Prop :=
  match run with
  | .ok a => Good a
  | .error _ => Bad

namespace Outcome

variable {Good Good' : α → Prop} {Bad Bad' : Prop}

@[simp] theorem ok (a : α) : Outcome (.ok a : Except ε α) Good Bad ↔ Good a := Iff.rfl

@[simp] theorem error (e : ε) : Outcome (.error e : Except ε α) Good Bad ↔ Bad := Iff.rfl

theorem mono {run : Except ε α} (outcome : Outcome run Good Bad) (good : ∀ a, Good a → Good' a)
    (bad : Bad → Bad') : Outcome run Good' Bad' := by
  cases run with
  | ok a => exact good a outcome
  | error e => exact bad outcome

theorem bind {Good : β → Prop} {Middle : α → Prop} {run : Except ε α} {f : α → Except ε β}
    (first : Outcome run Middle Bad) (rest : ∀ a, Middle a → Outcome (f a) Good Bad) :
    Outcome (run >>= f) Good Bad := by
  cases run with
  | ok a => exact rest a first
  | error e => exact first

/-- A run that cannot go wrong has a result. -/
theorem exists_ok {run : Except ε α} (outcome : Outcome run Good False) :
    ∃ a, run = .ok a ∧ Good a := by
  cases run with
  | ok a => exact ⟨a, rfl, outcome⟩
  | error e => exact outcome.elim

end Outcome

end LibNekit.Library
