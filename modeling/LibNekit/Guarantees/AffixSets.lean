import LibNekit.Source.Utils.Trie

/-!
# A trie is the set of the affixes added to it
-/
namespace LibNekit.Guarantees.AffixSets

open LibNekit.Source Trie TrieNode

variable {offset : Int} {nodeSize : Nat} {reverse : Bool} {node node' child : TrieNode nodeSize}

/-! ## The words of a node -/

/-- The word leads to an end mark. -/
def Has (offset : Int) : Bytes → TrieNode nodeSize → Prop
  | [], node => node.ends = true
  | ch :: rest, node => ∃ child, node.child (charValue ch - offset) = .ok (some child) ∧ Has offset rest child

theorem child_empty {index : Int} (found : (empty : TrieNode nodeSize).child index = .ok (some child)) : False := by
  unfold TrieNode.child at found
  split at found
  · nomatch found
  · nomatch found

theorem not_has_empty (word : Bytes) : ¬Has offset word (empty : TrieNode nodeSize) := by
  cases word with
  | nil => nofun
  | cons ch rest =>
    rintro ⟨child, found, -⟩
    exact child_empty found

/-- Characters are told apart by their values. -/
theorem charValue_inj {a b : UInt8} (same : charValue a = charValue b) : a = b := by
  have small := a.toNat_lt
  have small' := b.toNat_lt
  apply UInt8.toNat_inj.mp
  unfold charValue at same
  split at same <;> split at same <;> omega

theorem setChild_ok {ch : UInt8} (inside : outside offset nodeSize ch = false) (node child : TrieNode nodeSize) :
    ∃ node', node.setChild (charValue ch - offset) child = .ok node' := by
  rw [outside, Bool.or_eq_false_iff, decide_eq_false_iff_not, decide_eq_false_iff_not] at inside
  exact ⟨_, dif_pos ⟨by omega, by omega⟩⟩

theorem setChild_ends {index : Int} (set : node.setChild index child = .ok node') : node'.ends = node.ends := by
  unfold setChild at set
  split at set
  · cases set
    rfl
  · cases set

theorem setChild_child {index : Int} (set : node.setChild index child = .ok node') :
    node'.child index = .ok (some child) := by
  unfold setChild at set
  split at set
  · next bound =>
    cases set
    rw [TrieNode.child, dif_pos bound]
    simp [nodes]
  · cases set

theorem setChild_other {index other : Int} (set : node.setChild index child = .ok node') (differs : other ≠ index) :
    node'.child other = node.child other := by
  unfold setChild at set
  split at set
  · next bound =>
    cases set
    unfold TrieNode.child
    split
    · next bound' =>
      have apart : other.toNat ≠ index.toNat := by omega
      simp [nodes, apart]
    · rfl
  · cases set

/-- What one insertion adds. -/
theorem has_insert {word : Bytes} (inserted : insert offset word node = .ok node') (other : Bytes) :
    Has offset other node' ↔ other = word ∨ Has offset other node := by
  induction word generalizing node node' other with
  | nil =>
    cases inserted
    cases other with
    | nil => simp [Has, ends]
    | cons ch rest => simp [Has, TrieNode.child, nodes]
  | cons ch rest ih =>
    obtain ⟨child, found, more⟩ := bind_eq_ok.mp inserted
    obtain ⟨child', grown, set⟩ := bind_eq_ok.mp more
    cases other with
    | nil => simp [Has, setChild_ends set]
    | cons ch' rest' =>
      by_cases same : ch' = ch
      · subst same
        simp only [Has, setChild_child set, found, Except.ok.injEq, Option.some.injEq, exists_eq_left', ih grown,
          List.cons.injEq, true_and]
        cases child with
        | none => simp [not_has_empty]
        | some child => simp
      · have differs : charValue ch' - offset ≠ charValue ch - offset := fun equal =>
          same (charValue_inj (by omega))
        simp [Has, setChild_other set differs, same]

theorem insert_ok {word : Bytes} (inside : ∀ ch ∈ word, outside offset nodeSize ch = false) (node : TrieNode nodeSize) :
    ∃ node', insert offset word node = .ok node' := by
  induction word generalizing node with
  | nil => exact ⟨_, rfl⟩
  | cons ch rest ih =>
    obtain ⟨here, more⟩ := List.forall_mem_cons.mp inside
    obtain ⟨child, found⟩ := child_ok here node
    obtain ⟨child', grown⟩ := ih more (child.getD .empty)
    obtain ⟨node', set⟩ := setChild_ok here node child'
    refine ⟨node', ?_⟩
    rw [Trie.insert, found, ok_bind, grown, ok_bind, set]

/-- A character outside the window leads nowhere. -/
theorem outside_child {ch : UInt8} (beyond : outside offset nodeSize ch = true) :
    node.child (charValue ch - offset) = .error .outOfBounds := by
  rw [outside, Bool.or_eq_true, decide_eq_true_eq, decide_eq_true_eq] at beyond
  exact dif_neg (by omega)

/-- The search stops at the first end mark behind the root. -/
theorem matchFrom_iff (text : Bytes) (node : TrieNode nodeSize) : ∃ found, matchFrom offset text node = .ok found ∧
    (found = true ↔ ∃ word, word ≠ [] ∧ word <+: text ∧ Has offset word node) := by
  induction text generalizing node with
  | nil =>
    refine ⟨false, rfl, ?_⟩
    simp
  | cons ch rest ih =>
    have split : (∃ word, word ≠ [] ∧ word <+: ch :: rest ∧ Has offset word node) ↔
        ∃ child, node.child (charValue ch - offset) = .ok (some child) ∧ ∃ word, word <+: rest ∧ Has offset word child := by
      constructor
      · rintro ⟨_ | ⟨ch', word⟩, some, is, has⟩
        · exact absurd rfl some
        · obtain ⟨rfl, more⟩ := List.cons_prefix_cons.mp is
          obtain ⟨child, found, has⟩ := has
          exact ⟨child, found, word, more, has⟩
      · rintro ⟨child, found, word, is, has⟩
        exact ⟨ch :: word, List.cons_ne_nil _ _, List.cons_prefix_cons.mpr ⟨rfl, is⟩, child, found, has⟩
    rw [matchFrom, split]
    by_cases beyond : outside offset nodeSize ch = true
    · rw [if_pos beyond, outside_child beyond]
      exact ⟨false, rfl, by simp⟩
    · obtain ⟨child, found⟩ := child_ok (Bool.eq_false_iff.mpr beyond) node
      rw [if_neg beyond, found, ok_bind]
      cases child with
      | none => exact ⟨false, rfl, by simp⟩
      | some child =>
        have step : (∃ word, word <+: rest ∧ Has offset word child) ↔
            child.ends = true ∨ ∃ word, word ≠ [] ∧ word <+: rest ∧ Has offset word child := by
          constructor
          · rintro ⟨_ | ⟨ch', word⟩, is, has⟩
            · exact Or.inl has
            · exact Or.inr ⟨_, List.cons_ne_nil _ _, is, has⟩
          · rintro (ends | ⟨word, -, is, has⟩)
            · exact ⟨[], List.nil_prefix, ends⟩
            · exact ⟨word, is, has⟩
        by_cases ends : child.ends = true
        · exact ⟨true, if_pos ends, by simp [step, ends]⟩
        · obtain ⟨answer, more, iff⟩ := ih child
          exact ⟨answer, (if_neg ends).trans more, by simp [step, ends, iff]⟩

/-! ## Histories -/

/-- A string that `AddPrefix` takes. -/
def Accepted (offset : Int) (nodeSize : Nat) (text : Bytes) : Prop :=
  text ≠ [] ∧ ∀ ch ∈ text, offset ≤ charValue ch ∧ charValue ch < offset + nodeSize

instance (text : Bytes) : Decidable (Accepted offset nodeSize text) :=
  @instDecidableAnd _ _ instDecidableNot (@List.decidableBAll _ _ (fun _ =>
    @instDecidableAnd _ _ (Int.decLe _ _) (Int.decLt _ _)) text)

/-- The calls of `AddPrefix`, one after the other, with what each returns. -/
def addAll : List Bytes → Trie offset nodeSize reverse → Checked (List Bool × Trie offset nodeSize reverse)
  | [], trie => .ok ([], trie)
  | text :: more, trie => do
    let (added, trie) ← trie.addPrefix text
    let (answers, trie) ← addAll more trie
    return (added :: answers, trie)

/-- A prefix, or a suffix where the trie is reversed. -/
def Affix (reverse : Bool) (text literal : Bytes) : Prop :=
  if reverse then text <:+ literal else text <+: literal

theorem inOrder_prefix_iff (text literal : Bytes) :
    inOrder reverse text <+: inOrder reverse literal ↔ Affix reverse text literal := by
  cases reverse with
  | false => exact Iff.rfl
  | true => exact List.reverse_prefix

theorem inOrder_eq_nil {text : Bytes} : inOrder reverse text = [] ↔ text = [] := by
  cases reverse with
  | false => exact Iff.rfl
  | true => exact List.reverse_eq_nil_iff

theorem outside_eq_false {ch : UInt8} :
    outside offset nodeSize ch = false ↔ offset ≤ charValue ch ∧ charValue ch < offset + nodeSize := by
  rw [outside, Bool.or_eq_false_iff, decide_eq_false_iff_not, decide_eq_false_iff_not, not_lt, not_le]

variable {trie trie' : Trie offset nodeSize reverse}

theorem addPrefix_rejected {text : Bytes} (rejected : ¬Accepted offset nodeSize text) :
    trie.addPrefix text = .ok (false, trie) := by
  unfold addPrefix
  by_cases empty : text.length = 0
  · rw [if_pos empty]
  · rw [if_neg empty, if_pos]
    by_contra inside
    refine rejected ⟨fun nil => empty (by rw [nil]; rfl), fun ch member => ?_⟩
    rw [Bool.not_eq_true, List.any_eq_false] at inside
    exact outside_eq_false.mp (Bool.eq_false_iff.mpr (inside ch member))

theorem addPrefix_accepted {text : Bytes} (accepted : Accepted offset nodeSize text) :
    ∃ trie', trie.addPrefix text = .ok (true, trie') ∧ ∀ word,
      Has offset word trie'.root ↔ word = inOrder reverse text ∨ Has offset word trie.root := by
  have within : ∀ ch ∈ text, outside offset nodeSize ch = false := fun ch member =>
    outside_eq_false.mpr (accepted.2 ch member)
  have ordered : ∀ ch ∈ inOrder reverse text, outside offset nodeSize ch = false := by
    cases reverse with
    | false => exact within
    | true => exact fun ch member => within ch (List.mem_reverse.mp member)
  obtain ⟨root, inserted⟩ := insert_ok ordered trie.root
  refine ⟨⟨root⟩, ?_, has_insert inserted⟩
  have inside : ¬text.any (outside offset nodeSize) = true := by
    rw [Bool.not_eq_true, List.any_eq_false]
    exact fun ch member => Bool.eq_false_iff.mp (within ch member)
  rw [addPrefix, if_neg (fun empty => accepted.1 (List.length_eq_zero_iff.mp empty)), if_neg inside, inserted]
  rfl

theorem addAll_ok (added : List Bytes) (trie : Trie offset nodeSize reverse) :
    ∃ trie', addAll added trie = .ok (added.map fun text => decide (Accepted offset nodeSize text), trie') ∧
      ∀ word, Has offset word trie'.root ↔
        (∃ text ∈ added, Accepted offset nodeSize text ∧ word = inOrder reverse text) ∨ Has offset word trie.root := by
  induction added generalizing trie with
  | nil => exact ⟨trie, rfl, by simp⟩
  | cons text more ih =>
    by_cases accepted : Accepted offset nodeSize text
    · obtain ⟨middle, first, grown⟩ := @addPrefix_accepted _ _ _ trie _ accepted
      obtain ⟨last, ran, holds⟩ := ih middle
      refine ⟨last, ?_, fun word => ?_⟩
      · rw [addAll, first, ok_bind]
        dsimp only
        rw [ran, List.map_cons, decide_eq_true accepted]
        rfl
      · rw [holds, grown]
        simp [accepted, or_left_comm, or_assoc]
    · obtain ⟨last, ran, holds⟩ := ih trie
      refine ⟨last, ?_, fun word => ?_⟩
      · rw [addAll, addPrefix_rejected accepted, ok_bind]
        dsimp only
        rw [ran, List.map_cons, decide_eq_false accepted]
        rfl
      · rw [holds]
        simp [accepted]

/-- Whatever strings are added to a new trie, `AddPrefix` takes those that are not empty
and stay inside the window, a string that it does not take changes nothing, and a literal
matches when one of those taken is a prefix of it (a suffix where the trie is reversed). No
index leaves the array. -/
theorem matches_affixes (offset : Int) (nodeSize : Nat) (reverse : Bool) (added : List Bytes) :
    ∃ trie : Trie offset nodeSize reverse,
      addAll added .make = .ok (added.map fun text => decide (Accepted offset nodeSize text), trie) ∧
      (∀ text, ¬Accepted offset nodeSize text → trie.addPrefix text = .ok (false, trie)) ∧
      ∀ literal, ∃ found, trie.matchPrefixWith literal = .ok found ∧
        (found = true ↔ ∃ text ∈ added, Accepted offset nodeSize text ∧ Affix reverse text literal) := by
  obtain ⟨trie, ran, holds⟩ := addAll_ok added (.make : Trie offset nodeSize reverse)
  refine ⟨trie, ran, fun text rejected => addPrefix_rejected rejected, fun literal => ?_⟩
  have affixes : (∃ word, word ≠ [] ∧ word <+: inOrder reverse literal ∧ Has offset word trie.root) ↔
      ∃ text ∈ added, Accepted offset nodeSize text ∧ Affix reverse text literal := by
    constructor
    · rintro ⟨word, -, is, has⟩
      obtain ⟨text, member, accepted, rfl⟩ := (or_iff_left (not_has_empty word)).mp ((holds word).mp has)
      exact ⟨text, member, accepted, (inOrder_prefix_iff text literal).mp is⟩
    · rintro ⟨text, member, accepted, is⟩
      exact ⟨inOrder reverse text, fun nil => accepted.1 (inOrder_eq_nil.mp nil),
        (inOrder_prefix_iff text literal).mpr is, (holds _).mpr (Or.inl ⟨text, member, accepted, rfl⟩)⟩
  unfold matchPrefixWith
  by_cases empty : literal.length = 0
  · refine ⟨false, if_pos empty, ?_⟩
    obtain rfl := List.length_eq_zero_iff.mp empty
    rw [← affixes, inOrder_eq_nil.mpr rfl]
    simp
  · obtain ⟨found, searched, iff⟩ := matchFrom_iff (inOrder reverse literal) trie.root
    exact ⟨found, (if_neg empty).trans searched, iff.trans affixes⟩

end LibNekit.Guarantees.AffixSets
