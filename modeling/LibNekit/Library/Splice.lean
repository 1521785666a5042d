import Mathlib.Data.List.Basic

/-!
# Slices of a list, and overwriting them

`splice` puts a list in the place of as many elements of another. What is read back there is
what was put, and elsewhere nothing changes.
-/
namespace LibNekit.Library.Splice

variable {α : Type} {xs ys zs : List α} {i j m : Nat}

def slice (xs : List α) (i len : Nat) : List α := (xs.drop i).take len

def splice (xs : List α) (i : Nat) (ys : List α) : List α := xs.take i ++ ys ++ xs.drop (i + ys.length)

theorem length_slice (inside : i + m ≤ xs.length) : (slice xs i m).length = m := by
  rw [slice, List.length_take, List.length_drop]
  omega

theorem length_splice (inside : i + ys.length ≤ xs.length) : (splice xs i ys).length = xs.length := by
  rw [splice, List.length_append, List.length_append, List.length_take, List.length_drop]
  omega

@[simp] theorem splice_nil (xs : List α) (i : Nat) : splice xs i [] = xs := by
  rw [splice, List.length_nil, Nat.add_zero, List.append_nil, List.take_append_drop]

theorem getElem?_slice (k : Nat) : (slice xs i m)[k]? = if k < m then xs[i + k]? else none := by
  rw [slice, List.getElem?_take, List.getElem?_drop]

/-- One element of a spliced list. -/
theorem getElem?_splice (inside : i + ys.length ≤ xs.length) (k : Nat) :
    (splice xs i ys)[k]? = if i ≤ k ∧ k < i + ys.length then ys[k - i]? else xs[k]? := by
  have front : (xs.take i).length = i := by
    rw [List.length_take]
    omega
  rw [splice, List.append_assoc, List.getElem?_append, front]
  by_cases before : k < i
  · rw [if_pos before, if_neg (by omega), List.getElem?_take_of_lt before]
  · rw [if_neg before, List.getElem?_append]
    by_cases here : k - i < ys.length
    · rw [if_pos here, if_pos (by omega)]
    · rw [if_neg here, if_neg (by omega), List.getElem?_drop]
      congr 1
      omega

/-- What was put is read back. -/
theorem slice_splice_self (inside : i + ys.length ≤ xs.length) : slice (splice xs i ys) i ys.length = ys := by
  apply List.ext_getElem?
  intro k
  rw [getElem?_slice, getElem?_splice inside]
  by_cases here : k < ys.length
  · rw [if_pos here, if_pos (by omega), Nat.add_sub_cancel_left]
  · rw [if_neg here, List.getElem?_eq_none (by omega)]

/-- A slice elsewhere is what it was. -/
theorem slice_splice_apart (inside : i + ys.length ≤ xs.length) (apart : j + m ≤ i ∨ i + ys.length ≤ j) :
    slice (splice xs i ys) j m = slice xs j m := by
  apply List.ext_getElem?
  intro k
  rw [getElem?_slice, getElem?_slice]
  by_cases here : k < m
  · rw [if_pos here, if_pos here, getElem?_splice inside, if_neg (by omega)]
  · rw [if_neg here, if_neg here]

/-- Two splices of different places come in any order. -/
theorem splice_comm (insideI : i + ys.length ≤ xs.length) (insideJ : j + zs.length ≤ xs.length)
    (apart : j + zs.length ≤ i ∨ i + ys.length ≤ j) :
    splice (splice xs i ys) j zs = splice (splice xs j zs) i ys := by
  have lengthI := length_splice insideI
  have lengthJ := length_splice insideJ
  apply List.ext_getElem?
  intro k
  rw [getElem?_splice (by omega), getElem?_splice insideI, getElem?_splice (by omega), getElem?_splice insideJ]
  by_cases inI : i ≤ k ∧ k < i + ys.length
  · rw [if_neg (by omega), if_pos inI, if_pos inI]
  · rw [if_neg inI, if_neg inI]

/-- Two splices one behind the other are one. -/
theorem splice_splice (inside : i + (ys ++ zs).length ≤ xs.length) :
    splice (splice xs i ys) (i + ys.length) zs = splice xs i (ys ++ zs) := by
  have both := @List.length_append _ ys zs
  have insideY : i + ys.length ≤ xs.length := by omega
  have length := length_splice insideY
  apply List.ext_getElem?
  intro k
  rw [getElem?_splice (by omega), getElem?_splice insideY, getElem?_splice inside, List.getElem?_append]
  by_cases inY : i ≤ k ∧ k < i + ys.length
  · rw [if_neg (by omega), if_pos inY, if_pos (by omega), if_pos (by omega)]
  · rw [if_neg inY]
    by_cases inZ : i + ys.length ≤ k ∧ k < i + ys.length + zs.length
    · rw [if_pos inZ, if_pos (by omega), if_neg (by omega)]
      congr 1
      omega
    · rw [if_neg inZ, if_neg (by omega)]

theorem splice_append_left (inside : i + ys.length ≤ xs.length) (zs : List α) :
    splice (xs ++ zs) i ys = splice xs i ys ++ zs := by
  rw [splice, splice, List.take_append_of_le_length (by omega), List.drop_append_of_le_length inside]
  simp only [List.append_assoc]

theorem splice_append_right (xs zs : List α) (i : Nat) (ys : List α) :
    splice (xs ++ zs) (xs.length + i) ys = xs ++ splice zs i ys := by
  simp only [splice, List.append_assoc, List.take_length_add_append, Nat.add_assoc, List.drop_length_add_append]

/-- A slice in two parts. -/
theorem slice_split (xs : List α) (i : Nat) {n : Nat} (le : n ≤ m) :
    slice xs i m = slice xs i n ++ slice xs (i + n) (m - n) := by
  rw [slice, slice, slice, ← List.drop_drop, ← List.take_add]
  congr 1
  omega

end LibNekit.Library.Splice
