import Mathlib.Data.List.Basic

/-!
# Keystreams

A text is enciphered by adding the bytes of a keystream to its own, from some position of
the keystream on. Addition is any operation that undoes itself.
-/
namespace LibNekit.Library.Keystream

variable {α : Type*} [XorOp α] {stream : Nat → α}

/-- `text`, with the keystream from `start` on added to it. -/
def cipher (stream : Nat → α) (start : Nat) : List α → List α
  | [] => []
  | a :: text => (a ^^^ stream start) :: cipher stream (start + 1) text

@[simp] theorem length_cipher (start : Nat) (text : List α) : (cipher stream start text).length = text.length := by
  induction text generalizing start with
  | nil => rfl
  | cons a text ih => rw [cipher, List.length_cons, List.length_cons, ih]

/-- A text in two parts. -/
theorem cipher_append (start : Nat) (first second : List α) :
    cipher stream start (first ++ second) = cipher stream start first ++ cipher stream (start + first.length) second := by
  induction first generalizing start with
  | nil => rfl
  | cons a first ih =>
    rw [List.cons_append, cipher, ih, cipher, List.cons_append, List.length_cons, Nat.add_right_comm, Nat.add_assoc]

/-- The end of a text is enciphered from where it stands. -/
theorem cipher_drop (start n : Nat) (text : List α) :
    (cipher stream start text).drop n = cipher stream (start + n) (text.drop n) := by
  induction n generalizing start text with
  | zero => rfl
  | succ n ih =>
    cases text with
    | nil => rfl
    | cons a text => rw [cipher, List.drop_succ_cons, List.drop_succ_cons, ih, Nat.add_right_comm, Nat.add_assoc]

/-- Deciphering is enciphering. -/
theorem cipher_cipher (undoes : ∀ a b : α, a ^^^ b ^^^ b = a) (start : Nat) (text : List α) :
    cipher stream start (cipher stream start text) = text := by
  induction text generalizing start with
  | nil => rfl
  | cons a text ih => rw [cipher, cipher, undoes, ih]

end LibNekit.Library.Keystream
