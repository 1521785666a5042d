import LibNekit.Guarantees.BufferRefinement

/-!
# Buffers used again after a move

Programs that may go on using a Buffer after it was moved into another one.
Assignment resets the Buffer it empties; the insertions take only its `head_`.
-/
namespace LibNekit.Guarantees.MovedBuffers

open LibNekit.Source LibNekit.Library LibNekit.Source.Buffer LibNekit.Source.Pool
open LibNekit.Guarantees.BufferRefinement

variable {op : Op} {p p' : Pool}

/-- The assertions of each operation, wherever its Buffers were used before. -/
def Offered : Op → Pool → Prop
  | .make _ size, _ => size < sizeRange
  | .move _ _, _ => True
  | .insertBuffer i j pos, p =>
    i ≠ j ∧ pos ≤ (p.buffers i).size ∧ (p.buffers i).size + (p.buffers j).size < sizeRange
  | .insertSize i skip len, p => skip ≤ (p.buffers i).size ∧ (p.buffers i).size + len < sizeRange
  | .insertFrontBuffer i j, p | .insertBackBuffer i j, p =>
    i ≠ j ∧ (p.buffers i).size + (p.buffers j).size < sizeRange
  | .insertFrontSize i size, p | .insertBackSize i size, p => (p.buffers i).size + size < sizeRange
  | .shrink i skip len, p => skip < (p.buffers i).size ∧ skip + len ≤ (p.buffers i).size
  | .shrinkFront i size, p => 0 < (p.buffers i).size ∧ size ≤ (p.buffers i).size
  | .shrinkBack i size, p => 0 < size ∧ size ≤ (p.buffers i).size
  | .brk i _ skip, p => 0 < skip ∧ skip < (p.buffers i).size
  | .setData i skip source, p => skip < (p.buffers i).size ∧ skip + source.length ≤ (p.buffers i).size
  | .setIndex i index _, p => index < (p.buffers i).size

instance : (op : Op) → (p : Pool) → Decidable (Offered op p)
  | .make .., _ | .insertBuffer .., _ | .insertSize .., _ | .insertFrontBuffer .., _ | .insertBackBuffer .., _
  | .insertFrontSize .., _ | .insertBackSize .., _ | .shrink .., _ | .shrinkFront .., _ | .shrinkBack .., _
  | .brk .., _ | .setData .., _ | .setIndex .., _ => by
    unfold Offered
    infer_instance
  | .move .., _ => .isTrue trivial

/-- The pool as a machine that accepts every operation whose assertions hold. -/
def reusing : Machine Pool Op Fault := ⟨Offered, Pool.step⟩

instance (op : Op) (p : Pool) : Decidable (reusing.admits op p) :=
  inferInstanceAs (Decidable (Offered op p))

/-! ## What a move hands over -/

/-- `j` counts nothing any more, `i` counts what `j` had besides `own` bytes, and no
other Buffer counts more or less than before. -/
structure Handed (i j own : Nat) (p p' : Pool) : Prop where
  emptied : (p'.buffers j).size = 0
  counted : (p'.buffers i).size = own + (p.buffers j).size
  others : ∀ k, k ≠ i → k ≠ j → (p'.buffers k).size = (p.buffers k).size

/-- Each operation that moves a Buffer into another one hands its bytes over. -/
def HandedOver : Op → Pool → Pool → Prop
  | .move i j, p, p' => i ≠ j → Handed i j 0 p p'
  | .insertBuffer i j _, p, p' | .insertFrontBuffer i j, p, p' | .insertBackBuffer i j, p, p' =>
    Handed i j (p.buffers i).size p p'
  | _, _, _ => True

/-- What is to hold after every step. -/
structure Owned (op : Op) (p p' : Pool) : Prop where
  wellFormed : ∀ k, (p'.buffers k).WellFormed
  apart : ∀ i j, i ≠ j → ∀ a ∈ (p'.buffers i).addrs, a ∉ (p'.buffers j).addrs
  handedOver : HandedOver op p p'

/-- No insertion takes a Buffer that has bytes. -/
def InsertsEmpty : Op → Pool → Prop
  | .insertBuffer _ j _, p | .insertFrontBuffer _ j, p | .insertBackBuffer _ j, p => (p.buffers j).size = 0
  | _, _ => True

instance : (op : Op) → (p : Pool) → Decidable (InsertsEmpty op p)
  | .insertBuffer _ j _, p | .insertFrontBuffer _ j, p | .insertBackBuffer _ j, p =>
    decEq (p.buffers j).size 0
  | .make .., _ | .move .., _ | .insertSize .., _ | .insertFrontSize .., _ | .insertBackSize .., _ | .shrink .., _
  | .shrinkFront .., _ | .shrinkBack .., _ | .brk .., _ | .setData .., _ | .setIndex .., _ => .isTrue trivial

/-! ## One step -/

/-- The pool invariant, with no Buffer spent. -/
structure Usable (p : Pool) : Prop where
  inv : Inv p
  wf : ∀ k, (p.buffers k).WellFormed

theorem usable_init : Usable Pool.init := ⟨inv_init, fun _ => empty_wellFormed⟩

theorem Usable.meets (usable : Usable p) (offered : Offered op p) : Meets op p := by
  have clean (k : Nat) : ¬Spent (p.buffers k) := not_spent (usable.wf k)
  cases op with
  | make i size => exact offered
  | move i j => exact clean j
  | insertBuffer i j pos => exact ⟨offered.1, clean i, clean j, offered.2⟩
  | insertFrontBuffer i j => exact ⟨offered.1, clean i, clean j, offered.2⟩
  | insertBackBuffer i j => exact ⟨offered.1, clean i, clean j, offered.2⟩
  | insertSize i skip len => exact ⟨clean i, offered⟩
  | insertFrontSize i size => exact ⟨clean i, offered⟩
  | insertBackSize i size => exact ⟨clean i, offered⟩
  | shrink i skip len => exact ⟨clean i, offered⟩
  | shrinkFront i size => exact ⟨clean i, offered⟩
  | shrinkBack i size => exact ⟨clean i, offered⟩
  | brk i j skip => exact ⟨clean i, offered⟩
  | setData i skip source => exact ⟨clean i, offered⟩
  | setIndex i index v => exact ⟨clean i, offered⟩

/-- The Buffer that an operation inserts into its receiver. -/
def inserted : Op → Option (Nat × Nat)
  | .insertBuffer i j _ | .insertFrontBuffer i j | .insertBackBuffer i j => some (i, j)
  | _ => none

/-- An insertion takes the chunks of the Buffer and leaves its size as it is. -/
theorem step_inserted {i j : Nat} (usable : Usable p) (offered : Offered op p) (inserts : inserted op = some (i, j))
    (stepped : Pool.step op p = .ok p') : p'.buffers j = (p.buffers j).movedOut := by
  have wi := usable.wf i
  have wj := usable.wf j
  have apart := usable.inv.apart i j
  cases op with
  | insertBuffer i' j' pos =>
    cases inserts
    obtain ⟨distinct, inside, -⟩ := offered
    obtain ⟨next', b, run, -⟩ :=
      insertBuffer_holds wi wj (apart distinct) (usable.inv.below i) (usable.inv.below j) inside
    simp only [Pool.step, run, ok_bind, pure_eq_ok, Except.ok.injEq] at stepped
    simp [← stepped, Pool.set, Ne.symm distinct]
  | insertFrontBuffer i' j' =>
    cases inserts
    obtain ⟨b, run, -⟩ := insertFrontBuffer_holds p.next wi wj (apart offered.1)
    simp only [Pool.step, run, ok_bind, pure_eq_ok, Except.ok.injEq] at stepped
    simp [← stepped, Pool.set, Ne.symm offered.1]
  | insertBackBuffer i' j' =>
    cases inserts
    obtain ⟨b, run, -⟩ := insertBackBuffer_holds p.next wi wj (apart offered.1)
    simp only [Pool.step, run, ok_bind, pure_eq_ok, Except.ok.injEq] at stepped
    simp [← stepped, Pool.set, Ne.symm offered.1]
  | _ => cases inserts

theorem insertsEmpty_iff : InsertsEmpty op p ↔ ∀ i j, inserted op = some (i, j) → (p.buffers j).size = 0 := by
  cases op <;> simp [InsertsEmpty, inserted]

/-- Every Buffer that a step touches without leaving it well formed was inserted. -/
theorem touched_cases {k : Nat} (touches : k ∈ touched op) :
    k ∈ receivers op ∨ ∃ i, inserted op = some (i, k) := by
  cases op <;> simp_all [touched, receivers, inserted, eq_comm]

theorem step_wellFormed (usable : Usable p) (offered : Offered op p) (empty : InsertsEmpty op p)
    (stepped : Pool.step op p = .ok p') (refines : Refines op p p') (k : Nat) : (p'.buffers k).WellFormed := by
  by_cases touches : k ∈ touched op
  · rcases touched_cases touches with receives | ⟨i, inserts⟩
    · exact refines.wellFormed k receives
    · have zero := insertsEmpty_iff.mp empty i k inserts
      rw [step_inserted usable offered inserts stepped, (usable.wf k).movedOut_empty zero]
      exact usable.wf k
  · rw [refines.frame k touches]
    exact usable.wf k

/-- What an insertion of a Buffer without bytes hands over: nothing. -/
theorem handed_inserted {i j : Nat} (usable : Usable p) (offered : Offered op p) (empty : InsertsEmpty op p)
    (stepped : Pool.step op p = .ok p') (refines : Refines op p p') (inserts : inserted op = some (i, j))
    (length : (p'.buffers i).content.length = (p.buffers i).size + (p.buffers j).size) :
    Handed i j (p.buffers i).size p p' where
  emptied := by
    rw [step_inserted usable offered inserts stepped]
    exact insertsEmpty_iff.mp empty i j inserts
  counted := by
    rw [← length, (step_wellFormed usable offered empty stepped refines i).length_content]
  others k notI notJ := by
    have frame := refines.frame k
    cases op <;> cases inserts <;> simp_all [touched]

theorem handed_moved {i j : Nat} (usable : Usable p) (refines : Refines (.move i j) p p') (distinct : i ≠ j) :
    Handed i j 0 p p' := by
  have target := refines.wellFormed i (by simp [receivers])
  have source := refines.wellFormed j (by simp [receivers])
  constructor
  · rw [← source.length_content, refines.result.2 distinct]
    rfl
  · rw [Nat.zero_add, ← target.length_content, refines.result.1, (usable.wf j).length_content]
  · intro k notI notJ
    rw [refines.frame k (by simp [touched, receivers, notI, notJ])]

/-- A step that inserts no bytes does what a move is to do, and every Buffer can be used again. -/
theorem step_owned (usable : Usable p) (offered : Offered op p) (empty : InsertsEmpty op p) :
    ∃ p', Pool.step op p = .ok p' ∧ Owned op p p' ∧ Usable p' := by
  obtain ⟨p', stepped, inv, refines⟩ := step_refines usable.inv (usable.meets offered)
  have wf := step_wellFormed usable offered empty stepped refines
  refine ⟨p', stepped, ⟨wf, inv.apart, ?_⟩, inv, wf⟩
  have inserts {i j : Nat} := @handed_inserted op p p' i j usable offered empty stepped refines
  cases op with
  | move i j => exact handed_moved usable refines
  | insertBuffer i j pos =>
    apply inserts rfl
    rw [refines.result, length_insert, (usable.wf i).length_content, (usable.wf j).length_content]
  | insertFrontBuffer i j =>
    apply inserts rfl
    rw [refines.result, List.length_append, (usable.wf i).length_content, (usable.wf j).length_content, Nat.add_comm]
  | insertBackBuffer i j =>
    apply inserts rfl
    rw [refines.result, List.length_append, (usable.wf i).length_content, (usable.wf j).length_content]
  | _ => trivial

theorem Owned.emptied {i j : Nat} (owned : Owned op p p') (inserts : inserted op = some (i, j)) :
    (p'.buffers j).size = 0 := by
  have handed := owned.handedOver
  cases op <;> cases inserts <;> exact Handed.emptied handed

/-- An insertion leaves the size behind, so only a Buffer without bytes comes out empty. -/
theorem step_owned_iff (usable : Usable p) (offered : Offered op p) :
    (∃ p', Pool.step op p = .ok p' ∧ Owned op p p') ↔ InsertsEmpty op p := by
  constructor
  · rintro ⟨p', stepped, owned⟩
    apply insertsEmpty_iff.mpr
    intro i j inserts
    have left := owned.emptied inserts
    rwa [step_inserted usable offered inserts stepped] at left
  · intro empty
    obtain ⟨p', stepped, owned, -⟩ := step_owned usable offered empty
    exact ⟨p', stepped, owned⟩

/-! ## Every program -/

/-- A program leaves every Buffer well formed, and every moved Buffer empty, after each
of its steps exactly when none of its insertions takes a Buffer that has bytes. -/
theorem moved_from_empty_iff (ops : List Op) (admitted : reusing.Admitted ops Pool.init) :
    reusing.AllSteps Owned ops Pool.init ↔ reusing.Along InsertsEmpty ops Pool.init := by
  have decides (op : Op) (p : Pool) (usable : Usable p) (offered : reusing.admits op p) :
      (∃ p', reusing.step op p = .ok p' ∧ Owned op p p') ↔ InsertsEmpty op p := step_owned_iff usable offered
  apply Machine.allSteps_iff_along decides _ ops Pool.init usable_init admitted
  intro op p p' usable offered empty stepped
  obtain ⟨p₁, again, -, after⟩ := step_owned usable offered empty
  cases stepped.symm.trans again
  exact after

/-- The rule at a program that assigns a Buffer, and inserts the one that is left empty. -/
theorem moved_from_empty_iff_assigned :
    reusing.AllSteps Owned [.make 1 3, .move 0 1, .insertBackBuffer 0 1, .insertBackSize 1 2, .move 2 1] Pool.init :=
  (moved_from_empty_iff _ (by decide +kernel)).mpr (by decide +kernel)

/-- Two Buffers with bytes, and one appended to the other: the one moved from keeps its
size, and a `tail_` that points into the other. -/
theorem inserted_buffer_keeps_size :
    reusing.Admitted [.make 0 2, .make 1 3, .insertBackBuffer 0 1] Pool.init ∧
      ¬reusing.AllSteps Owned [.make 0 2, .make 1 3, .insertBackBuffer 0 1] Pool.init ∧
      ∃ p, reusing.run [.make 0 2, .make 1 3, .insertBackBuffer 0 1] Pool.init = .ok p ∧
        (p.buffers 0).size = 5 ∧ (p.buffers 0).tail = some 1 ∧ p.buffers 1 = ⟨[], some 1, 3⟩ := by
  refine ⟨by decide +kernel, ?_, _, rfl, by decide +kernel, by decide +kernel, by decide +kernel⟩
  rintro ⟨p₁, first, -, p₂, second, -, p₃, third, owned, -⟩
  cases first
  cases second
  cases third
  have left := owned.handedOver.emptied
  revert left
  decide +kernel

end LibNekit.Guarantees.MovedBuffers
