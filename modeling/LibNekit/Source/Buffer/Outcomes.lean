import LibNekit.Source.Buffer.Calls

/-!
# What operations leave that came to their end

Their assertions held, so nothing else has to be known about the arguments.
-/
namespace LibNekit.Source.Buffer

variable {b b' : Buffer} {next next' : Nat}

/-- A Buffer of `size` bytes, all of them allocated. -/
structure Sized (next : Nat) (b : Buffer) (size : Nat) : Prop where
  wf : b.WellFormed
  below : b.Below next
  size : b.size = size

theorem Holds.sized {old : List Nat} {bytes : Bytes} (holds : Holds next next' old b bytes)
    (oldBelow : ∀ a ∈ old, a < next) : Sized next' b bytes.length :=
  ⟨holds.wf, holds.alloc.below oldBelow, by rw [← holds.wf.length_content, holds.content]⟩

theorem insertSize_sized {skip len : Nat} (wf : b.WellFormed) (below : b.Below next)
    (ran : b.insertSize next skip len = .ok (next', b')) : Sized next' b' (b.size + len) := by
  obtain ⟨_, asserted, -⟩ := bind_eq_ok.mp (show boostAssert (skip ≤ b.size) >>= _ = _ from ran)
  obtain ⟨next₁, b₁, bytes, ran₁, holds, gap⟩ := insertSize_holds wf below (boostAssert_eq_ok.mp asserted) len
  obtain ⟨rfl, rfl⟩ := Prod.mk.inj (Except.ok.inj (ran₁.symm.trans ran))
  rw [← length_gap wf gap]
  exact holds.sized below

theorem insertFrontSize_sized {len : Nat} (wf : b.WellFormed) (below : b.Below next)
    (ran : b.insertFrontSize next len = .ok (next', b')) : Sized next' b' (b.size + len) := by
  obtain ⟨next₁, b₁, bytes, ran₁, holds, gap⟩ := insertFrontSize_holds wf below len
  obtain ⟨rfl, rfl⟩ := Prod.mk.inj (Except.ok.inj (ran₁.symm.trans ran))
  rw [← length_gap wf gap]
  exact holds.sized below

theorem shrink_sized {skip len : Nat} (wf : b.WellFormed) (below : b.Below next) (ran : b.shrink skip len = .ok b') :
    Sized next b' (b.size - len) ∧ len ≤ b.size := by
  obtain ⟨_, start, ran'⟩ := bind_eq_ok.mp (show boostAssert (skip < b.size) >>= _ = _ from ran)
  obtain ⟨_, -, ran'⟩ := bind_eq_ok.mp ran'
  obtain ⟨_, inside, -⟩ := bind_eq_ok.mp ran'
  have inside := boostAssert_eq_ok.mp inside
  have whole := wf.length_content
  obtain ⟨b₁, ran₁, holds⟩ := shrink_holds next wf (boostAssert_eq_ok.mp start) inside
  obtain rfl := Except.ok.inj (ran₁.symm.trans ran)
  have length : (b.content.take skip ++ b.content.drop (skip + len)).length = b.size - len := by
    rw [List.length_append, List.length_take, List.length_drop]
    omega
  refine ⟨?_, by omega⟩
  rw [← length]
  exact holds.sized below

theorem setData_sized {skip : Nat} {source : Bytes} (wf : b.WellFormed) (below : b.Below next)
    (ran : b.setData skip source = .ok b') : Sized next b' b.size := by
  obtain ⟨_, start, ran'⟩ := bind_eq_ok.mp (show boostAssert (skip < b.size) >>= _ = _ from ran)
  obtain ⟨_, -, ran'⟩ := bind_eq_ok.mp ran'
  obtain ⟨_, inside, -⟩ := bind_eq_ok.mp ran'
  obtain ⟨b₁, ran₁, wf₁, addrs, size, -⟩ := wf.setData_eq (boostAssert_eq_ok.mp start) (boostAssert_eq_ok.mp inside)
  obtain rfl := Except.ok.inj (ran₁.symm.trans ran)
  exact ⟨wf₁, fun a member => below a (addrs ▸ member), size⟩

theorem setIndex_sized {i : Nat} {v : UInt8} (wf : b.WellFormed) (below : b.Below next)
    (ran : b.setIndex i v = .ok b') : Sized next b' b.size := by
  obtain ⟨_, inside, -⟩ := bind_eq_ok.mp (show boostAssert (i < b.size) >>= _ = _ from ran)
  have inside := boostAssert_eq_ok.mp inside
  obtain ⟨c, here⟩ := wf.at inside
  obtain ⟨b₁, ran₁, wf₁, addrs, size, -⟩ := setIndex_eq wf here inside v
  obtain rfl := Except.ok.inj (ran₁.symm.trans ran)
  exact ⟨wf₁, fun a member => below a (addrs ▸ member), size⟩

/-- What was read is what is there. -/
theorem getData_read {skip len : Nat} {bytes : Bytes} (wf : b.WellFormed) (ran : b.getData skip len = .ok bytes) :
    skip + len ≤ b.size ∧ bytes = (b.content.drop skip).take len := by
  rcases Nat.lt_or_ge b.size (skip + len) with outside | inside
  · rw [getData_outside outside] at ran
    cases ran
  rcases Nat.lt_or_ge skip b.size with start | past
  · rw [wf.getData_eq start inside] at ran
    exact ⟨inside, (Except.ok.inj ran).symm⟩
  · obtain rfl : skip = b.size := by omega
    obtain rfl : len = 0 := by omega
    rw [wf.getData_end] at ran
    cases ran

theorem getData_length {skip len : Nat} {bytes : Bytes} (wf : b.WellFormed) (ran : b.getData skip len = .ok bytes) :
    bytes.length = len := by
  obtain ⟨inside, rfl⟩ := getData_read wf ran
  rw [List.length_take, List.length_drop, wf.length_content]
  omega

end LibNekit.Source.Buffer
