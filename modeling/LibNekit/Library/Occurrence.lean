import Mathlib.Data.List.Infix

/-!
# Occurrences of a pattern in a text

A pattern occurs at `k` when the text from `k` on begins with it. The first occurrence ends
the shortest prefix that contains the pattern. A search may go on where the old text had
no room for the pattern, when the old text did not contain it.
-/
namespace LibNekit.Library.Occurrence

variable {α : Type} {pattern text old new : List α} {j k : Nat}

/-- `bytes` is the shortest beginning of the text that contains the pattern. -/
structure Shortest (pattern text bytes : List α) : Prop where
  front : bytes <+: text
  contains : pattern <:+: bytes
  least : ∀ other, other <+: text → pattern <:+: other → bytes <+: other

theorem occurs_room (positive : pattern ≠ []) (here : pattern <+: text.drop k) : k + pattern.length ≤ text.length := by
  have room := here.length_le
  have length := List.length_pos_iff.mpr positive
  rw [List.length_drop] at room
  omega

theorem isInfix_iff_occurs : pattern <:+: text ↔ ∃ k, pattern <+: text.drop k := by
  constructor
  · rintro ⟨before, after, rfl⟩
    refine ⟨before.length, ?_⟩
    rw [List.append_assoc, List.drop_left]
    exact List.prefix_append _ _
  · rintro ⟨k, here⟩
    exact here.isInfix.trans (List.drop_suffix k text).isInfix

/-- What has room in the front of a text occurs in the front. -/
theorem occurs_front (here : pattern <+: (old ++ new).drop j) (room : j + pattern.length ≤ old.length) :
    pattern <+: old.drop j := by
  have whole : (old ++ new).drop j = old.drop j ++ new := List.drop_append_of_le_length (by omega)
  rw [whole] at here
  apply List.prefix_of_prefix_length_le here (List.prefix_append _ _)
  rw [List.length_drop]
  omega

theorem take_occurs (here : pattern <+: text.drop k) :
    text.take (k + pattern.length) = text.take k ++ pattern := by
  rw [List.take_add]
  exact congrArg (text.take k ++ ·) (List.prefix_iff_eq_take.mp here).symm

/-- The first occurrence ends the shortest beginning that contains the pattern. -/
theorem shortest_of_first (here : pattern <+: text.drop k) (first : ∀ j < k, ¬pattern <+: text.drop j) :
    Shortest pattern text (text.take (k + pattern.length)) := by
  have front := List.take_prefix (k + pattern.length) text
  constructor
  · exact front
  · rw [take_occurs here]
    exact (List.suffix_append _ _).isInfix
  · intro other beginning contains
    obtain ⟨j, inside⟩ := isInfix_iff_occurs.mp contains
    have there : pattern <+: text.drop j := inside.trans (beginning.drop j)
    have later : k ≤ j := Nat.le_of_not_lt fun earlier => first j earlier there
    apply List.prefix_of_prefix_length_le front beginning
    rw [List.length_take]
    by_cases empty : pattern = []
    · subst empty
      -- nothing occurs at once
      have zero : k = 0 := Nat.eq_zero_of_not_pos fun positive => first 0 positive (List.nil_prefix)
      simp [zero]
    · have room := occurs_room empty inside
      omega

/-- The shortest beginning is one. -/
theorem Shortest.unique {one two : List α} (a : Shortest pattern text one) (b : Shortest pattern text two) : one = two := by
  have ab := a.least two b.front b.contains
  have ba := b.least one a.front a.contains
  exact ab.eq_of_length_le ba.length_le

/-- An old text without the pattern: no occurrence in the grown text begins where the old one
had room for it. -/
theorem occurs_late (missing : ¬pattern <:+: old) (here : pattern <+: (old ++ new).drop j) :
    old.length - min old.length pattern.length ≤ j := by
  by_contra early
  have inside := occurs_front here (by omega)
  exact missing (isInfix_iff_occurs.mpr ⟨j, inside⟩)

/-- A search of the rest finds the first occurrence of all. -/
theorem first_of_rest {start : Nat} (settled : ∀ j < start, ¬pattern <+: text.drop j)
    (first : ∀ j < k, ¬pattern <+: (text.drop start).drop j) : ∀ j < start + k, ¬pattern <+: text.drop j := by
  intro j inside here
  by_cases early : j < start
  · exact settled j early here
  · apply first (j - start) (by omega)
    rwa [List.drop_drop, show start + (j - start) = j by omega]

/-- A search of the rest that finds nothing. -/
theorem missing_of_rest {start : Nat} (settled : ∀ j < start, ¬pattern <+: text.drop j)
    (nowhere : ∀ j, ¬pattern <+: (text.drop start).drop j) : ¬pattern <:+: text := by
  intro contains
  obtain ⟨j, here⟩ := isInfix_iff_occurs.mp contains
  exact first_of_rest settled (fun i _ => nowhere i) j (Nat.lt_add_left start (Nat.lt_succ_self j)) here

end LibNekit.Library.Occurrence
