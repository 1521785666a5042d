import Mathlib.Algebra.Order.Ring.Nat
import Mathlib.Algebra.BigOperators.Group.List.Basic

/-!
# Ropes: sequences held as a list of sized pieces

A rope keeps one sequence as a list of pieces. A cursor walk passes over whole
pieces while the remaining offset lies past them; the two walks that occur in
practice differ only at a piece's end: `seek atOrPast` stops where the element
at the offset lives, `seek beyond` also stops at the end of a piece.

Pieces are arbitrary: `size` is the piece's declared length and `elems` its
elements; the lemmas relating both ask only that they agree on the pieces at hand.
-/
namespace LibNekit.Library.Rope

variable {α β : Type*}

/-- Declared length of a list of pieces. -/
def total (size : α → Nat) (pieces : List α) : Nat := (pieces.map size).sum

/-- A position inside a rope: the pieces passed, the piece reached, the pieces
after it, and the offset that is left within the piece reached. -/
structure Cursor (α : Type*) where
  before : List α
  current : α
  after : List α
  pos : Nat

def Cursor.pieces (c : Cursor α) : List α := c.before ++ c.current :: c.after

def Cursor.push (x : α) (c : Cursor α) : Cursor α := { c with before := x :: c.before }

/-- Pass over pieces while `past pos (size piece)` holds; `none` is a walk off
the end. -/
def seek (size : α → Nat) (past : Nat → Nat → Bool) : List α → Nat → Option (Cursor α)
  | [], _ => none
  | x :: rest, pos =>
    if past pos (size x) then (seek size past rest (pos - size x)).map (Cursor.push x)
    else some ⟨[], x, rest, pos⟩

/-- `pos >= size`: stop at the piece that holds the element at `pos`. -/
def atOrPast (pos size : Nat) : Bool := decide (size ≤ pos)

/-- `pos > size`: stop as soon as `pos` is at the end of a piece. -/
def beyond (pos size : Nat) : Bool := decide (size < pos)

section Total
variable (size : α → Nat)

@[simp] theorem total_nil : total size [] = 0 := rfl

@[simp] theorem total_cons (x : α) (xs : List α) :
    total size (x :: xs) = size x + total size xs := by simp [total]

@[simp] theorem total_append (xs ys : List α) :
    total size (xs ++ ys) = total size xs + total size ys := by simp [total]

/-- No piece of a rope of positive pieces is skipped by counting. -/
theorem total_eq_zero_iff {xs : List α} (positive : ∀ x ∈ xs, 0 < size x) :
    total size xs = 0 ↔ xs = [] := by
  cases xs with
  | nil => simp
  | cons x xs =>
    have := positive x (by simp)
    simp only [total_cons, reduceCtorEq, iff_false]
    omega

end Total

section Seek
variable {size : α → Nat} {past : Nat → Nat → Bool}

/-- What a finished walk says: the pieces are split at the cursor, the offsets
add up, and the walk really stopped. -/
theorem seek_some {pieces : List α} {pos : Nat} {c : Cursor α}
    (sound : ∀ p s, past p s = true → s ≤ p) (found : seek size past pieces pos = some c) :
    pieces = c.pieces ∧ pos = total size c.before + c.pos ∧
      past c.pos (size c.current) = false := by
  induction pieces generalizing pos c with
  | nil => simp [seek] at found
  | cons x rest ih =>
    unfold seek at found
    split at found
    · rename_i passed
      obtain ⟨d, reached, rfl⟩ := Option.map_eq_some_iff.mp found
      obtain ⟨split, sum, stopped⟩ := ih reached
      have bound := sound _ _ passed
      refine ⟨by simp [Cursor.pieces, Cursor.push, split], ?_, stopped⟩
      simp only [Cursor.push, total_cons]
      omega
    · rename_i stopped
      cases found
      exact ⟨rfl, by simp, by simpa using stopped⟩

/-- The element walk never falls off inside the rope. -/
theorem seek_atOrPast {pieces : List α} {pos : Nat} (inside : pos < total size pieces) :
    ∃ c, seek size atOrPast pieces pos = some c ∧ pieces = c.pieces ∧
      pos = total size c.before + c.pos ∧ c.pos < size c.current := by
  have exists_cursor : ∃ c, seek size atOrPast pieces pos = some c := by
    induction pieces generalizing pos with
    | nil => simp at inside
    | cons x rest ih =>
      simp only [total_cons] at inside
      unfold seek
      split
      · rename_i passed
        simp only [atOrPast, decide_eq_true_eq] at passed
        obtain ⟨c, reached⟩ := @ih (pos - size x) (by omega)
        exact ⟨c.push x, by simp [reached]⟩
      · exact ⟨_, rfl⟩
  obtain ⟨c, found⟩ := exists_cursor
  obtain ⟨split, sum, stopped⟩ := seek_some (by simp [atOrPast]) found
  exact ⟨c, found, split, sum, by simpa [atOrPast] using stopped⟩

/-- The element walk stops in the piece whose range holds the position. -/
theorem seek_cut {before after : List α} {x : α} {pos : Nat} (low : total size before ≤ pos)
    (high : pos < total size before + size x) :
    seek size atOrPast (before ++ x :: after) pos =
      some ⟨before, x, after, pos - total size before⟩ := by
  induction before generalizing pos with
  | nil =>
    have stops : atOrPast pos (size x) = false := by
      simp only [total_nil] at high
      simp [atOrPast]
      omega
    simp [seek, stops]
  | cons y rest ih =>
    simp only [total_cons] at low high
    have passes : atOrPast pos (size y) = true := by
      simp [atOrPast]
      omega
    simp only [List.cons_append, seek, passes, if_true, total_cons,
      @ih (pos - size y) (by omega) (by omega), Option.map_some, Cursor.push]
    rw [Nat.sub_sub]

/-- At or past the declared length the element walk falls off the end. -/
theorem seek_atOrPast_none {pieces : List α} {pos : Nat} (outside : total size pieces ≤ pos) :
    seek size atOrPast pieces pos = none := by
  induction pieces generalizing pos with
  | nil => rfl
  | cons x rest ih =>
    simp only [total_cons] at outside
    have passed : atOrPast pos (size x) = true := by simp [atOrPast]; omega
    simp [seek, passed, @ih (pos - size x) (by omega)]

/-- The gap walk finds every gap after the first element, and leaves a positive
offset in the piece it stops at. -/
theorem seek_beyond {pieces : List α} {pos : Nat} (start : 0 < pos)
    (inside : pos ≤ total size pieces) :
    ∃ c, seek size beyond pieces pos = some c ∧ pieces = c.pieces ∧
      pos = total size c.before + c.pos ∧ 0 < c.pos ∧ c.pos ≤ size c.current := by
  have exists_cursor : ∃ c, seek size beyond pieces pos = some c ∧ 0 < c.pos := by
    induction pieces generalizing pos with
    | nil => simp at inside; omega
    | cons x rest ih =>
      simp only [total_cons] at inside
      unfold seek
      split
      · rename_i passed
        simp only [beyond, decide_eq_true_eq] at passed
        obtain ⟨c, reached, positive⟩ := @ih (pos - size x) (by omega) (by omega)
        exact ⟨c.push x, by simp [reached], positive⟩
      · exact ⟨_, rfl, start⟩
  obtain ⟨c, found, positive⟩ := exists_cursor
  obtain ⟨split, sum, stopped⟩ := seek_some (by simp [beyond]; omega) found
  exact ⟨c, found, split, sum, positive, by simpa [beyond] using stopped⟩

end Seek

section Content
variable {size : α → Nat} {elems : α → List β}

theorem length_flatMap_eq_total (pieces : List α)
    (sized : ∀ x ∈ pieces, (elems x).length = size x) :
    (pieces.flatMap elems).length = total size pieces := by
  induction pieces with
  | nil => rfl
  | cons x xs ih =>
    simp [sized x (by simp), ih fun y member => sized y (by simp [member])]

/-- Cutting a rope's sequence at a cursor cuts the piece reached. -/
theorem take_at_cursor {c : Cursor α} (sized : ∀ x ∈ c.pieces, (elems x).length = size x)
    (inside : c.pos ≤ size c.current) :
    (c.pieces.flatMap elems).take (total size c.before + c.pos) =
      c.before.flatMap elems ++ (elems c.current).take c.pos := by
  have front := length_flatMap_eq_total c.before
    fun x member => sized x (by simp [Cursor.pieces, member])
  have here := sized c.current (by simp [Cursor.pieces])
  simp only [Cursor.pieces, List.flatMap_append, List.flatMap_cons, List.take_append, front, here]
  rw [List.take_of_length_le (by omega), Nat.add_sub_cancel_left]
  simp [show c.pos - size c.current = 0 by omega]

theorem drop_at_cursor {c : Cursor α} (sized : ∀ x ∈ c.pieces, (elems x).length = size x)
    (inside : c.pos ≤ size c.current) :
    (c.pieces.flatMap elems).drop (total size c.before + c.pos) =
      (elems c.current).drop c.pos ++ c.after.flatMap elems := by
  have front := length_flatMap_eq_total c.before
    fun x member => sized x (by simp [Cursor.pieces, member])
  have here := sized c.current (by simp [Cursor.pieces])
  simp only [Cursor.pieces, List.flatMap_append, List.flatMap_cons, List.drop_append, front, here]
  rw [List.drop_of_length_le (by omega), Nat.add_sub_cancel_left]
  simp [show c.pos - size c.current = 0 by omega]

end Content

end LibNekit.Library.Rope
