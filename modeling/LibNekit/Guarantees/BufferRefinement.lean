import LibNekit.Source.Buffer.Pool

/-!
# Buffer refines byte lists

The pool invariant (every Buffer that is not spent is well formed, no chunk
belongs to two Buffers, every chunk lies below the allocator) is preserved by
every operation, and each operation has its list meaning on the contents.
-/
namespace LibNekit.Guarantees.BufferRefinement

open LibNekit.Source LibNekit.Library LibNekit.Source.Buffer LibNekit.Source.Pool

structure Inv (p : Pool) : Prop where
  wf : ∀ i, ¬Spent (p.buffers i) → (p.buffers i).WellFormed
  fits : ∀ i, (p.buffers i).size < sizeRange
  below : ∀ i, (p.buffers i).Below p.next
  apart : ∀ i j, i ≠ j → ∀ a ∈ (p.buffers i).addrs, a ∉ (p.buffers j).addrs

theorem inv_init : Inv Pool.init where
  wf _ _ := empty_wellFormed
  fits _ := Nat.two_pow_pos 64
  below _ := by simp [Pool.init, Below]
  apart _ _ _ := by simp [Pool.init]

/-- A well-formed Buffer is not spent. -/
theorem not_spent {b : Buffer} (wf : b.WellFormed) : ¬Spent b :=
  fun spent => spent.2 (wf.size_eq_zero.mpr spent.1)

/-- Only `i` changes, to old chunks of its own and fresh ones. -/
theorem Inv.set {p : Pool} (inv : Inv p) (i : Nat) {next' : Nat} {b : Buffer} {bytes : Bytes}
    (holds : Holds p.next next' (p.buffers i).addrs b bytes) (fits : b.size < sizeRange) :
    Inv { p.set i b with next := next' } where
  wf k := by
    by_cases here : k = i
    · subst here
      simpa [Pool.set] using fun _ => holds.wf
    · simpa [Pool.set, here] using inv.wf k
  fits k := by
    by_cases here : k = i
    · subst here
      simpa [Pool.set] using fits
    · simpa [Pool.set, here] using inv.fits k
  below k := by
    by_cases here : k = i
    · subst here
      simpa [Pool.set] using holds.alloc.below (inv.below k)
    · simpa [Pool.set, here] using (inv.below k).mono holds.alloc.counter
  apart := by
    have foreign (k : Nat) (other : k ≠ i) : ∀ a ∈ b.addrs, a ∉ (p.buffers k).addrs := by
      intro a member inK
      rcases holds.alloc.origin a member with own | fresh
      · exact inv.apart i k (Ne.symm other) a own inK
      · have := inv.below k a inK
        omega
    intro k l distinct a inK inL
    by_cases hk : k = i
    · subst hk
      simp only [Pool.set, Function.update_self, Function.update_of_ne (Ne.symm distinct)] at inK inL
      exact foreign l (Ne.symm distinct) a inK inL
    · by_cases hl : l = i
      · subst hl
        simp only [Pool.set, Function.update_self, Function.update_of_ne hk] at inK inL
        exact foreign k hk a inL inK
      · simp only [Pool.set, Function.update_of_ne hk, Function.update_of_ne hl] at inK inL
        exact inv.apart k l distinct a inK inL

/-- `i` and `j` change, sharing out their old chunks and fresh ones. -/
theorem Inv.set_two {p : Pool} (inv : Inv p) {i j : Nat} (distinct : i ≠ j) {next' : Nat}
    {b x : Buffer} (counter : p.next ≤ next')
    (bWf : b.WellFormed) (xWf : ¬Spent x → x.WellFormed)
    (bFits : b.size < sizeRange) (xFits : x.size < sizeRange)
    (origin : ∀ a, a ∈ b.addrs ∨ a ∈ x.addrs →
      (a ∈ (p.buffers i).addrs ∨ a ∈ (p.buffers j).addrs) ∨ (p.next ≤ a ∧ a < next'))
    (shared : ∀ a ∈ b.addrs, a ∉ x.addrs) :
    Inv { (p.set j x).set i b with next := next' } := by
  have at_i : ((p.set j x).set i b).buffers i = b := by simp [Pool.set]
  have at_j : ((p.set j x).set i b).buffers j = x := by simp [Pool.set, Ne.symm distinct]
  have at_k (k : Nat) (hi : k ≠ i) (hj : k ≠ j) : ((p.set j x).set i b).buffers k = p.buffers k := by
    simp [Pool.set, hi, hj]
  have bound : ∀ a, a ∈ b.addrs ∨ a ∈ x.addrs → a < next' := by
    intro a member
    rcases origin a member with (inI | inJ) | fresh
    · exact Nat.lt_of_lt_of_le (inv.below i a inI) counter
    · exact Nat.lt_of_lt_of_le (inv.below j a inJ) counter
    · exact fresh.2
  have foreign (k : Nat) (hi : k ≠ i) (hj : k ≠ j) :
      ∀ a, a ∈ b.addrs ∨ a ∈ x.addrs → a ∉ (p.buffers k).addrs := by
    intro a member inK
    rcases origin a member with (inI | inJ) | fresh
    · exact inv.apart i k (Ne.symm hi) a inI inK
    · exact inv.apart j k (Ne.symm hj) a inJ inK
    · have := inv.below k a inK
      omega
  refine ⟨fun k => ?_, fun k => ?_, fun k => ?_, fun k l different a inK inL => ?_⟩
  · by_cases hi : k = i
    · exact fun _ => by simpa only [hi, at_i] using bWf
    by_cases hj : k = j
    · simpa only [hj, at_j] using xWf
    · simpa only [at_k k hi hj] using inv.wf k
  · by_cases hi : k = i
    · simpa only [hi, at_i] using bFits
    by_cases hj : k = j
    · simpa only [hj, at_j] using xFits
    · simpa only [at_k k hi hj] using inv.fits k
  · by_cases hi : k = i
    · exact fun a member => bound a (Or.inl (by simpa only [hi, at_i] using member))
    by_cases hj : k = j
    · exact fun a member => bound a (Or.inr (by simpa only [hj, at_j] using member))
    · simpa only [Below, at_k k hi hj] using (inv.below k).mono counter
  · dsimp only at inK inL
    by_cases ki : k = i <;> by_cases kj : k = j <;> by_cases li : l = i <;> by_cases lj : l = j
    all_goals first
      | (subst_vars; contradiction)
      | skip
    · rw [ki, at_i] at inK
      rw [lj, at_j] at inL
      exact shared a inK inL
    · rw [ki, at_i] at inK
      rw [at_k l li lj] at inL
      exact foreign l li lj a (Or.inl inK) inL
    · rw [kj, at_j] at inK
      rw [li, at_i] at inL
      exact shared a inL inK
    · rw [kj, at_j] at inK
      rw [at_k l li lj] at inL
      exact foreign l li lj a (Or.inr inK) inL
    · rw [at_k k ki kj] at inK
      rw [li, at_i] at inL
      exact foreign k ki kj a (Or.inl inL) inK
    · rw [at_k k ki kj] at inK
      rw [lj, at_j] at inL
      exact foreign k ki kj a (Or.inr inL) inK
    · rw [at_k k ki kj] at inK
      rw [at_k l li lj] at inL
      exact inv.apart k l different a inK inL

/-! ## The list meaning of each operation -/

/-- The Buffers an operation leaves well formed: its receiver, and the Buffer that
`Break` returns or a move empties. -/
def receivers : Op → List Nat
  | .make i _ | .insertBuffer i _ _ | .insertSize i _ _ | .insertFrontBuffer i _
  | .insertFrontSize i _ | .insertBackBuffer i _ | .insertBackSize i _
  | .shrink i _ _ | .shrinkFront i _ | .shrinkBack i _ | .setData i _ _ | .setIndex i _ _ => [i]
  | .move i j | .brk i j _ => [i, j]

/-- The receivers, and the Buffer whose chunks an insertion takes. -/
def touched : Op → List Nat
  | .insertBuffer i j _ | .insertFrontBuffer i j | .insertBackBuffer i j => [i, j]
  | op => receivers op

/-- What the receivers hold afterwards, as byte lists. -/
def Result : Op → Pool → Pool → Prop
  | .make i size, _, p' => (p'.buffers i).content = List.replicate size 0
  | .move i j, p, p' => (p'.buffers i).content = (p.buffers j).content ∧
      (i ≠ j → (p'.buffers j).content = [])
  | .insertBuffer i j pos, p, p' => (p'.buffers i).content =
      (p.buffers i).content.take pos ++ (p.buffers j).content ++ (p.buffers i).content.drop pos
  | .insertSize i skip len, p, p' => GapAt (p.buffers i) skip len (p'.buffers i).content
  | .insertFrontBuffer i j, p, p' =>
      (p'.buffers i).content = (p.buffers j).content ++ (p.buffers i).content
  | .insertFrontSize i size, p, p' => GapAt (p.buffers i) 0 size (p'.buffers i).content
  | .insertBackBuffer i j, p, p' =>
      (p'.buffers i).content = (p.buffers i).content ++ (p.buffers j).content
  | .insertBackSize i size, p, p' =>
      GapAt (p.buffers i) (p.buffers i).size size (p'.buffers i).content
  | .shrink i skip len, p, p' => (p'.buffers i).content =
      (p.buffers i).content.take skip ++ (p.buffers i).content.drop (skip + len)
  | .shrinkFront i size, p, p' => (p'.buffers i).content = (p.buffers i).content.drop size
  | .shrinkBack i size, p, p' =>
      (p'.buffers i).content = (p.buffers i).content.take ((p.buffers i).size - size)
  | .brk i j skip, p, p' => (p'.buffers j).content = (p.buffers i).content.drop skip ∧
      (i ≠ j → (p'.buffers i).content = (p.buffers i).content.take skip)
  | .setData i skip source, p, p' => (p'.buffers i).content = (p.buffers i).content.take skip ++
      source ++ (p.buffers i).content.drop (skip + source.length)
  | .setIndex i _ _, p, p' => (p'.buffers i).content.length = (p.buffers i).content.length

/-- One operation does to the pool what its list meaning says, and nothing else. -/
structure Refines (op : Op) (p p' : Pool) : Prop where
  result : Result op p p'
  wellFormed : ∀ k ∈ receivers op, (p'.buffers k).WellFormed
  frame : ∀ k ∉ touched op, p'.buffers k = p.buffers k

/-- The rule for operations on one Buffer. -/
theorem refines_one {op : Op} {p : Pool} (inv : Inv p) {i next' : Nat} {b : Buffer} {bytes : Bytes}
    (holds : Holds p.next next' (p.buffers i).addrs b bytes) (fits : bytes.length < sizeRange)
    (alone : receivers op = [i] ∧ touched op = [i])
    (result : ∀ p' : Pool, (p'.buffers i).content = bytes → Result op p p') :
    Inv { p.set i b with next := next' } ∧ Refines op p { p.set i b with next := next' } := by
  have size : b.size < sizeRange := by
    rwa [← holds.wf.length_content, holds.content]
  refine ⟨inv.set i holds size, result _ (by simpa [Pool.set] using holds.content), ?_, ?_⟩
  · simpa [alone.1, Pool.set] using holds.wf
  · intro k other
    have : k ≠ i := by simpa [alone.2] using other
    simp [Pool.set, this]

/-- The rule for insertions of one Buffer into another. -/
theorem refines_insert {op : Op} {p : Pool} (inv : Inv p) {i j next' : Nat} (distinct : i ≠ j)
    {b : Buffer} {bytes : Bytes} (clean : ¬Spent (p.buffers j))
    (holds : Holds p.next next' ((p.buffers i).addrs ++ (p.buffers j).addrs) b bytes)
    (fits : bytes.length < sizeRange)
    (two : receivers op = [i] ∧ touched op = [i, j])
    (result : ∀ p' : Pool, (p'.buffers i).content = bytes → Result op p p') :
    Inv { (p.set j (p.buffers j).movedOut).set i b with next := next' } ∧
      Refines op p { (p.set j (p.buffers j).movedOut).set i b with next := next' } := by
  have size : b.size < sizeRange := by
    rwa [← holds.wf.length_content, holds.content]
  refine ⟨inv.set_two distinct holds.alloc.counter holds.wf (fun unspent => ?_) size (inv.fits j)
    (fun a member => ?_) (by simp [movedOut, addrs]), result _ ?_, ?_, fun k other => ?_⟩
  · -- A moved-out Buffer that is not spent was empty already.
    have zero : (p.buffers j).size = 0 := by
      by_contra positive
      exact unspent ⟨rfl, positive⟩
    rw [(inv.wf j clean).movedOut_empty zero]
    exact inv.wf j clean
  · rcases member with inB | inX
    · exact (holds.alloc.origin a inB).imp_left List.mem_append.mp
    · simp [movedOut, addrs] at inX
  · simpa [Pool.set] using holds.content
  · simpa [two.1, Pool.set] using holds.wf
  · have apart : k ≠ i ∧ k ≠ j := by simpa [two.2] using other
    simp [Pool.set, apart]

theorem refines_make {p : Pool} (inv : Inv p) {i size : Nat} (fits : size < sizeRange) :
    ∃ p', Pool.step (.make i size) p = .ok p' ∧ Inv p' ∧ Refines (.make i size) p p' := by
  obtain ⟨next', b, made, holds⟩ := make_holds p.next size
  exact ⟨_, by simp [Pool.step, made], refines_one inv (holds.mono (by simp)) (by simpa using fits)
    ⟨rfl, rfl⟩ fun _ => id⟩

theorem refines_move {p : Pool} (inv : Inv p) {i j : Nat} (clean : ¬Spent (p.buffers j)) :
    ∃ p', Pool.step (.move i j) p = .ok p' ∧ Inv p' ∧ Refines (.move i j) p p' := by
  have source := inv.wf j clean
  by_cases same : i = j
  · subst same
    exact ⟨p, by simp [Pool.step], inv, ⟨rfl, fun other => absurd rfl other⟩,
      by simpa [receivers] using source, fun _ _ => rfl⟩
  · refine ⟨_, by rw [Pool.step, if_neg same]; rfl,
      inv.set_two same (Nat.le_refl _) source (fun _ => empty_wellFormed) (inv.fits j)
        (Nat.two_pow_pos 64) (fun a member => Or.inl (Or.inr ?_)) (by simp), ⟨?_, ?_⟩, ?_, ?_⟩
    · exact member.resolve_right (by simp)
    · simp [Pool.set]
    · intro _
      simp [Pool.set, Ne.symm same]
    · simp only [receivers, List.forall_mem_cons, List.not_mem_nil, false_implies, implies_true,
        and_true]
      exact ⟨by simpa [Pool.set] using source,
        by simpa [Pool.set, Ne.symm same] using empty_wellFormed⟩
    · intro k other
      have apart : k ≠ i ∧ k ≠ j := by simpa [touched, receivers] using other
      simp [Pool.set, apart]

theorem refines_brk {p : Pool} (inv : Inv p) {i j skip : Nat} (clean : ¬Spent (p.buffers i))
    (positive : 0 < skip) (inside : skip < (p.buffers i).size) :
    ∃ p', Pool.step (.brk i j skip) p = .ok p' ∧ Inv p' ∧ Refines (.brk i j skip) p p' := by
  have source := inv.wf i clean
  have whole := source.length_content
  have fits := inv.fits i
  obtain ⟨next', b', out, run, kept, handed, apart⟩ :=
    brk_holds p.next source fits (inv.below i) positive inside
  have keptFits : b'.size < sizeRange := by
    rw [← kept.wf.length_content, kept.content, List.length_take]
    omega
  have handedFits : out.size < sizeRange := by
    rw [← handed.wf.length_content, handed.content, List.length_drop]
    omega
  by_cases same : i = j
  · -- The part that is kept is destroyed when the receiver is assigned the rest.
    subst same
    refine ⟨{ p.set i out with next := next' }, ?_, inv.set i handed handedFits,
      ⟨by simpa [Pool.set] using handed.content, fun other => absurd rfl other⟩,
      by simpa [receivers, Pool.set] using handed.wf, fun k other => ?_⟩
    · simp [Pool.step, run, Pool.set]
    · have : k ≠ i := by simpa [touched, receivers] using other
      simp [Pool.set, this]
  · refine ⟨{ (p.set i b').set j out with next := next' }, by simp [Pool.step, run],
      inv.set_two (Ne.symm same) handed.alloc.counter handed.wf (fun _ => kept.wf) handedFits
        keptFits ?_ fun a inOut inKept => apart a inKept inOut,
      ⟨by simpa [Pool.set] using handed.content,
        fun _ => by simpa [Pool.set, same] using kept.content⟩, ?_, fun k other => ?_⟩
    · rintro a (inOut | inKept)
      · exact (handed.alloc.origin a inOut).imp_left Or.inr
      · exact (kept.alloc.origin a inKept).imp_left Or.inr
    · simp only [receivers, List.forall_mem_cons, List.not_mem_nil, false_implies, implies_true,
        and_true]
      exact ⟨by simpa [Pool.set, same] using kept.wf, by simpa [Pool.set] using handed.wf⟩
    · have apart : k ≠ i ∧ k ≠ j := by simpa [touched, receivers] using other
      simp [Pool.set, apart]

/-- Every operation whose arguments meet its assertions succeeds, keeps the pool
invariant and has its list meaning. -/
theorem step_refines {op : Op} {p : Pool} (inv : Inv p) (meets : Meets op p) :
    ∃ p', Pool.step op p = .ok p' ∧ Inv p' ∧ Refines op p p' := by
  cases op with
  | make i size => exact refines_make inv meets
  | move i j => exact refines_move inv meets
  | insertBuffer i j pos =>
    obtain ⟨distinct, cleanI, cleanJ, inside, fits⟩ := meets
    have wi := inv.wf i cleanI
    have wj := inv.wf j cleanJ
    obtain ⟨next', b, run, holds⟩ :=
      insertBuffer_holds wi wj (inv.apart i j distinct) (inv.below i) (inv.below j) inside
    exact ⟨_, by simp [Pool.step, run], refines_insert inv distinct cleanJ holds
      (by rwa [length_insert, wi.length_content, wj.length_content]) ⟨rfl, rfl⟩ fun _ => id⟩
  | insertSize i skip len =>
    obtain ⟨clean, inside, fits⟩ := meets
    have wi := inv.wf i clean
    obtain ⟨next', b, bytes, run, holds, gap⟩ := insertSize_holds wi (inv.below i) inside len
    exact ⟨_, by simp [Pool.step, run], refines_one inv holds (by rwa [length_gap wi gap])
      ⟨rfl, rfl⟩ fun _ same => by rwa [Result, same]⟩
  | insertFrontBuffer i j =>
    obtain ⟨distinct, cleanI, cleanJ, fits⟩ := meets
    have wi := inv.wf i cleanI
    have wj := inv.wf j cleanJ
    obtain ⟨b, run, holds⟩ := insertFrontBuffer_holds p.next wi wj (inv.apart i j distinct)
    exact ⟨_, by simp [Pool.step, run]; rfl, refines_insert inv distinct cleanJ holds
      (by rw [List.length_append, wi.length_content, wj.length_content]; omega) ⟨rfl, rfl⟩
      fun _ => id⟩
  | insertFrontSize i size =>
    obtain ⟨clean, fits⟩ := meets
    have wi := inv.wf i clean
    obtain ⟨next', b, bytes, run, holds, gap⟩ := insertFrontSize_holds wi (inv.below i) size
    exact ⟨_, by simp [Pool.step, run], refines_one inv holds (by rwa [length_gap wi gap])
      ⟨rfl, rfl⟩ fun _ same => by rwa [Result, same]⟩
  | insertBackBuffer i j =>
    obtain ⟨distinct, cleanI, cleanJ, fits⟩ := meets
    have wi := inv.wf i cleanI
    have wj := inv.wf j cleanJ
    obtain ⟨b, run, holds⟩ := insertBackBuffer_holds p.next wi wj (inv.apart i j distinct)
    exact ⟨_, by simp [Pool.step, run]; rfl, refines_insert inv distinct cleanJ holds
      (by rwa [List.length_append, wi.length_content, wj.length_content]) ⟨rfl, rfl⟩ fun _ => id⟩
  | insertBackSize i size =>
    obtain ⟨clean, fits⟩ := meets
    have wi := inv.wf i clean
    obtain ⟨next', b, bytes, run, holds, gap⟩ := insertBackSize_holds wi (inv.below i) size
    exact ⟨_, by simp [Pool.step, run], refines_one inv holds (by rwa [length_gap wi gap])
      ⟨rfl, rfl⟩ fun _ same => by rwa [Result, same]⟩
  | shrink i skip len =>
    obtain ⟨clean, start, inside⟩ := meets
    have wi := inv.wf i clean
    have whole := wi.length_content
    have fits := inv.fits i
    obtain ⟨b, run, holds⟩ := shrink_holds p.next wi start inside
    exact ⟨_, by simp [Pool.step, run]; rfl, refines_one inv holds
      (by rw [List.length_append, List.length_take, List.length_drop]; omega) ⟨rfl, rfl⟩ fun _ => id⟩
  | shrinkFront i size =>
    obtain ⟨clean, start, inside⟩ := meets
    have wi := inv.wf i clean
    have whole := wi.length_content
    have fits := inv.fits i
    obtain ⟨b, run, holds⟩ := shrinkFront_holds p.next wi start inside
    exact ⟨_, by simp [Pool.step, run]; rfl, refines_one inv holds
      (by rw [List.length_drop]; omega) ⟨rfl, rfl⟩ fun _ => id⟩
  | shrinkBack i size =>
    obtain ⟨clean, positive, inside⟩ := meets
    have wi := inv.wf i clean
    have whole := wi.length_content
    have fits := inv.fits i
    obtain ⟨b, run, holds⟩ := shrinkBack_holds p.next wi fits positive inside
    exact ⟨_, by simp [Pool.step, run]; rfl, refines_one inv holds
      (by rw [List.length_take]; omega) ⟨rfl, rfl⟩ fun _ => id⟩
  | brk i j skip => exact refines_brk inv meets.1 meets.2.1 meets.2.2
  | setData i skip source =>
    obtain ⟨clean, start, inside⟩ := meets
    have wi := inv.wf i clean
    have fits := inv.fits i
    obtain ⟨b, run, wb, addrs, size, written⟩ := wi.setData_eq start inside
    exact ⟨_, by simp [Pool.step, run]; rfl,
      refines_one inv (.of_addrs wb written fun _ member => addrs ▸ member)
        (by rw [← written, wb.length_content]; omega) ⟨rfl, rfl⟩ fun _ => id⟩
  | setIndex i index v =>
    obtain ⟨clean, inside⟩ := meets
    have wi := inv.wf i clean
    have fits := inv.fits i
    obtain ⟨c, here⟩ := wi.at inside
    obtain ⟨b, run, wb, addrs, size, -⟩ := setIndex_eq wi here inside v
    exact ⟨_, by simp [Pool.step, run]; rfl,
      refines_one inv (.of_addrs wb rfl fun _ member => addrs ▸ member)
        (by rw [wb.length_content]; omega) ⟨rfl, rfl⟩
        fun _ same => by rw [Result, same, wb.length_content, wi.length_content, size]⟩

/-- Every admitted program runs, and its pool satisfies the invariant. -/
theorem run_inv {ops : List Op} (admitted : Pool.machine.Admitted ops Pool.init) :
    ∃ p, Pool.machine.run ops Pool.init = .ok p ∧ Inv p :=
  Machine.run_invariant (fun _ _ inv meets =>
    let ⟨p', stepped, inv', _⟩ := step_refines inv meets
    ⟨p', stepped, inv'⟩) ops _ inv_init admitted

/-! ## Every program -/

/-- After any admitted program, each further operation that meets its assertions
succeeds, leaves its receivers well formed and has its list meaning. -/
theorem buffer_refines_byte_lists (ops : List Op) (admitted : Pool.machine.Admitted ops Pool.init)
    (op : Op) :
    ∃ p, Pool.machine.run ops Pool.init = .ok p ∧
      (Meets op p → ∃ p', Pool.step op p = .ok p' ∧ Refines op p p') := by
  obtain ⟨p, ran, inv⟩ := run_inv admitted
  refine ⟨p, ran, fun meets => ?_⟩
  obtain ⟨p', stepped, -, refines⟩ := step_refines inv meets
  exact ⟨p', stepped, refines⟩

/-- The rule at a program that grows a chunk in place and cuts one in two. -/
theorem buffer_refines_byte_lists_example :
    ∃ p, Pool.machine.run
        [.make 0 4, .shrinkFront 0 2, .insertFrontSize 0 1, .make 1 3, .insertBuffer 0 1 1] Pool.init =
          .ok p ∧
      (Meets (.brk 0 2 2) p → ∃ p', Pool.step (.brk 0 2 2) p = .ok p' ∧ Refines (.brk 0 2 2) p p') :=
  buffer_refines_byte_lists _ (by decide +kernel) _

end LibNekit.Guarantees.BufferRefinement
