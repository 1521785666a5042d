import Mathlib.Data.List.Infix
import Mathlib.Algebra.Order.Ring.Nat

/-!
# Runtime conventions shared by every model

A C++ run that fails an assertion or follows a bad pointer has no result. Such
runs are `Except.error` with the reason, never a default value, so that "the
operation is safe" is a statement about the model and not a side condition.
`size_t` values are natural numbers; where the source relies on (or suffers
from) unsigned wrap-around the model uses `sizeAdd` and `sizeSub`.
-/
namespace LibNekit.Source

abbrev Bytes := List UInt8

inductive Fault where
  | assertion | nullPointer | danglingPointer | outOfBounds | endlessLoop | signedOverflow
  deriving DecidableEq, Repr

abbrev Checked (α : Type) := Except Fault α

/-- `BOOST_ASSERT(condition)`. -/
def boostAssert (condition : Prop) [Decidable condition] : Checked Unit :=
  if condition then .ok () else .error .assertion

@[simp] theorem boostAssert_eq_ok {condition : Prop} [Decidable condition] {u : Unit} :
    boostAssert condition = .ok u ↔ condition := by
  unfold boostAssert
  split <;> simp [*]

theorem boostAssert_of {condition : Prop} [Decidable condition] (holds : condition) :
    boostAssert condition = .ok () := if_pos holds

/-- A pointer that the source follows without a null check. -/
def deref {α : Type} : Option α → Checked α
  | some x => .ok x
  | none => .error .nullPointer

@[simp] theorem deref_some {α : Type} (x : α) : deref (some x) = .ok x := rfl
@[simp] theorem deref_none {α : Type} : deref (none : Option α) = .error .nullPointer := rfl

@[simp] theorem ok_bind {ε α β : Type} (x : α) (next : α → Except ε β) :
    ((Except.ok x : Except ε α) >>= next) = next x := rfl

@[simp] theorem error_bind {ε α β : Type} (e : ε) (next : α → Except ε β) :
    ((Except.error e : Except ε α) >>= next) = .error e := rfl

@[simp] theorem pure_eq_ok {ε α : Type} (x : α) : (pure x : Except ε α) = .ok x := rfl

/-- A run that finished went through both halves. -/
theorem bind_eq_ok {ε α β : Type} {step : Except ε α} {next : α → Except ε β} {value : β} :
    (step >>= next) = .ok value ↔ ∃ x, step = .ok x ∧ next x = .ok value := by
  cases step with
  | error e => simp
  | ok x => simp

/-- Number of `size_t` values. -/
def sizeRange : Nat := 2 ^ 64

def sizeAdd (a b : Nat) : Nat := (a + b) % sizeRange

def sizeSub (a b : Nat) : Nat := (a + (sizeRange - b % sizeRange)) % sizeRange

theorem sizeAdd_eq {a b : Nat} (fits : a + b < sizeRange) : sizeAdd a b = a + b :=
  Nat.mod_eq_of_lt fits

theorem sizeSub_eq {a b : Nat} (fits : a < sizeRange) (le : b ≤ a) : sizeSub a b = a - b := by
  unfold sizeSub sizeRange at *
  omega

end LibNekit.Source
