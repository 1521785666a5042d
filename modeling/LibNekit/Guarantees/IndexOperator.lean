import LibNekit.Guarantees.BufferRefinement

/-!
# `operator[]` against `GetData`

`operator[]` adds the walked position to `data_` and forgets `offset_`. It
therefore addresses the byte `GetData` does exactly where the chunk starts at the
beginning of its array, and everywhere else both its reads and its writes miss.
-/
namespace LibNekit.Guarantees.IndexOperator

open LibNekit.Source LibNekit.Library LibNekit.Library.Rope LibNekit.Source.Buffer
open LibNekit.Source.Pool LibNekit.Guarantees.BufferRefinement

/-- Reading and writing one byte through `operator[]` is reading and writing the
byte that `GetData(index, 1, ..)` copies out. -/
def Agrees (b : Buffer) (index : Nat) : Prop :=
  (∃ v, b.index index = .ok v ∧ b.getData index 1 = .ok [v]) ∧
    ∀ v, ∃ b', b.setIndex index v = .ok b' ∧ b'.getData index 1 = .ok [v] ∧
      ∀ other, other < b.size → other ≠ index → b'.getData other 1 = b.getData other 1

variable {b : Buffer} {index : Nat} {c : Cursor Buf}

/-- Where the chunk is unshifted, reads and writes agree. -/
theorem agrees_of_unshifted (wf : b.WellFormed) (inside : index < b.size)
    (here : At b index c) (zero : c.current.offset = 0) : Agrees b index := by
  have length := wf.length_content
  refine ⟨?_, fun v => ?_⟩
  · obtain ⟨v, read, found⟩ := index_eq here inside
    refine ⟨v, read, ?_⟩
    rw [wf.getData_one inside, here.content_getElem?, zero, Nat.zero_add, found]
    rfl
  · obtain ⟨b', run, wf', -, size, content_eq⟩ := setIndex_eq wf here inside v
    rw [zero, if_neg (Nat.not_lt_zero _), Nat.sub_zero] at content_eq
    refine ⟨b', run, ?_, fun other bound different => ?_⟩
    · rw [wf'.getData_one (size ▸ inside), content_eq, List.getElem?_set_self (by omega)]
      rfl
    · rw [wf'.getData_one (size ▸ bound), wf.getData_one bound, content_eq,
        List.getElem?_set_ne (Ne.symm different)]

/-- Where it is shifted a write leaves the byte `GetData` reads alone. -/
theorem write_misses (wf : b.WellFormed) (inside : index < b.size) (here : At b index c)
    (shifted : c.current.offset ≠ 0) (v : UInt8) :
    ∃ b', b.setIndex index v = .ok b' ∧ b'.getData index 1 = b.getData index 1 := by
  obtain ⟨b', run, wf', -, size, content_eq⟩ := setIndex_eq wf here inside v
  refine ⟨b', run, ?_⟩
  rw [wf'.getData_one (size ▸ inside), wf.getData_one inside, content_eq]
  split
  · rfl
  · rename_i behind
    have sum := here.sum
    rw [List.getElem?_set_ne (by omega)]

/-- So some write is lost. -/
theorem not_agrees_of_shifted (wf : b.WellFormed) (inside : index < b.size)
    (here : At b index c) (shifted : c.current.offset ≠ 0) : ¬Agrees b index := by
  rintro ⟨⟨old, -, read⟩, writes⟩
  obtain ⟨b', run, sees, -⟩ := writes (old + 1)
  obtain ⟨b'', run', unchanged⟩ := write_misses wf inside here shifted (old + 1)
  obtain rfl : b' = b'' := Except.ok.inj (run.symm.trans run')
  rw [unchanged, read] at sees
  simp at sees

theorem agrees_iff (wf : b.WellFormed) (inside : index < b.size) :
    Agrees b index ↔ Unshifted b index := by
  obtain ⟨c, here⟩ := wf.at inside
  rw [unshifted_iff here]
  constructor
  · intro agrees
    by_contra shifted
    exact not_agrees_of_shifted wf inside here shifted agrees
  · exact agrees_of_unshifted wf inside here

/-! ## Every reachable Buffer -/

/-- For every Buffer of every reachable pool and every index: `operator[]` agrees
with `GetData` exactly when the chunk holding the byte starts at `data_[0]`. -/
theorem index_agrees_with_getData_iff (p : Pool) (reached : Pool.machine.Reachable Pool.init p)
    (i index : Nat) (unspent : ¬Spent (p.buffers i)) (inside : index < (p.buffers i).size) :
    Agrees (p.buffers i) index ↔ Unshifted (p.buffers i) index := by
  have inv : Inv p := reached.invariant inv_init fun op s s' inv meets stepped => by
    obtain ⟨s₁, stepped', inv', -⟩ := step_refines inv meets
    obtain rfl : s' = s₁ := Except.ok.inj (stepped.symm.trans stepped')
    exact inv'
  exact agrees_iff (inv.wf i unspent) inside

/-- Two bytes with the first one deleted. -/
def shrunk : List Op := [.make 0 2, .setData 0 0 [1, 2], .shrinkFront 0 1]

theorem index_agrees_with_getData_iff_shrunk :
    ∃ p, Pool.machine.run shrunk Pool.init = .ok p ∧
      (Agrees (p.buffers 0) 0 ↔ Unshifted (p.buffers 0) 0) :=
  ⟨_, rfl, index_agrees_with_getData_iff _ ⟨shrunk, by decide +kernel, rfl⟩ 0 0
    (by decide +kernel) (by decide +kernel)⟩

/-- After the deletion `operator[]` still finds the deleted byte. -/
theorem index_reads_deleted_byte :
    ∃ p, Pool.machine.Reachable Pool.init p ∧ ¬Spent (p.buffers 0) ∧ 0 < (p.buffers 0).size ∧
      (p.buffers 0).index 0 = .ok 1 ∧ (p.buffers 0).getData 0 1 = .ok [2] ∧
      ¬Agrees (p.buffers 0) 0 := by
  refine ⟨_, ⟨shrunk, by decide +kernel, rfl⟩, by decide +kernel, by decide +kernel,
    by decide +kernel, by decide +kernel, ?_⟩
  rintro ⟨⟨v, read, copied⟩, -⟩
  cases read
  cases copied

end LibNekit.Guarantees.IndexOperator
