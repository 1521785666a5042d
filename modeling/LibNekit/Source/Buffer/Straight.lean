import LibNekit.Source.Buffer.Shrink

/-!
# Buffers that nothing was deleted from the front of

The chunks a flow receives start at the beginning of their arrays. As long as they
do, `operator[]` addresses the bytes `GetData` does.
-/
namespace LibNekit.Source.Buffer

open LibNekit.Library.Rope

/-- Every chunk starts at `data_[0]`. -/
def Straight (b : Buffer) : Prop := ∀ c ∈ b.head, c.offset = 0

variable {b b' x : Buffer} {next next' : Nat}

theorem empty_straight : empty.Straight := nofun

theorem make_straight (next size : Nat) : (make next size).2.Straight := by
  unfold make
  split
  · intro c member
    rw [List.mem_singleton.mp member, Buf.make_offset]
  · exact empty_straight

theorem Straight.unshifted (straight : b.Straight) (i : Nat) : Unshifted b i := by
  rintro c ⟨before, after, split, -⟩
  exact straight c (by simp [split])

/-! ## What keeps a Buffer straight -/

theorem setNext_straight {chain after result : List Buf} {addr : Nat}
    (linked : setNext chain addr after = .ok result) (front : ∀ c ∈ chain, c.offset = 0)
    (back : ∀ c ∈ after, c.offset = 0) : ∀ c ∈ result, c.offset = 0 := by
  induction chain generalizing result with
  | nil => cases linked
  | cons d rest ih =>
    unfold setNext at linked
    split at linked
    · cases linked
      simpa using ⟨front d (by simp), back⟩
    · obtain ⟨more, rest_linked, same⟩ := bind_eq_ok.mp linked
      cases same
      simpa using ⟨front d (by simp), ih rest_linked fun c member => front c (by simp [member])⟩

theorem updateAt_straight {chain result : List Buf} {addr : Nat} {f : Buf → Buf}
    (keeps : ∀ c, (f c).offset = c.offset) (updated : updateAt chain addr f = .ok result)
    (front : ∀ c ∈ chain, c.offset = 0) :
    ∀ c ∈ result, c.offset = 0 := by
  induction chain generalizing result with
  | nil => cases updated
  | cons d rest ih =>
    have others : ∀ c ∈ rest, c.offset = 0 := fun c member => front c (by simp [member])
    unfold updateAt at updated
    split at updated
    · cases updated
      simpa [keeps] using ⟨front d (by simp), others⟩
    · obtain ⟨more, rest_updated, same⟩ := bind_eq_ok.mp updated
      cases same
      simpa using ⟨front d (by simp), ih rest_updated others⟩

theorem Straight.insertBackBuffer (straight : b.Straight) (other : x.Straight) {left : Buffer}
    (ran : b.insertBackBuffer x = .ok (b', left)) : b'.Straight := by
  unfold Buffer.insertBackBuffer at ran
  split at ran
  · cases ran
    exact straight
  · split at ran
    · obtain ⟨last, -, ran⟩ := bind_eq_ok.mp ran
      obtain ⟨chain, linked, same⟩ := bind_eq_ok.mp ran
      cases same
      exact setNext_straight linked straight other
    · cases ran
      exact other

theorem Straight.insertBackNew (straight : b.Straight) {size : Nat}
    (ran : b.insertBackNew next size = .ok (next', b')) : b'.Straight := by
  obtain ⟨⟨grown, left⟩, inserted, same⟩ := bind_eq_ok.mp ran
  cases same
  exact straight.insertBackBuffer (make_straight next size) inserted

theorem Straight.insertBackSize (straight : b.Straight) {size : Nat}
    (ran : b.insertBackSize next size = .ok (next', b')) : b'.Straight := by
  unfold Buffer.insertBackSize at ran
  split at ran
  · obtain ⟨c, -, ran⟩ := bind_eq_ok.mp ran
    split at ran
    · obtain ⟨chain, updated, same⟩ := bind_eq_ok.mp ran
      cases same
      exact updateAt_straight (f := fun c => { c with size := c.size + size }) (fun _ => rfl) updated straight
    · exact straight.insertBackNew ran
  · exact straight.insertBackNew ran

theorem writeLoop_straight {chain written : List Buf} {skip : Nat} {source : Bytes}
    (ran : writeLoop chain skip source = .ok written) (front : ∀ c ∈ chain, c.offset = 0) :
    ∀ c ∈ written, c.offset = 0 := by
  induction chain generalizing skip source written with
  | nil =>
    unfold writeLoop at ran
    split at ran <;> cases ran
    exact List.forall_mem_nil _
  | cons d rest ih =>
    unfold writeLoop at ran
    split at ran
    · cases ran
      exact front
    · obtain ⟨more, rest_written, same⟩ := bind_eq_ok.mp ran
      cases same
      simpa using ⟨front d (by simp), ih rest_written fun c member => front c (by simp [member])⟩

/-- Breaking a chunk leaves its front where it was and copies its back to one new array. -/
theorem brk_straight {c : Buf} {after : List Buf} {pos : Nat} {kept : Buf} {out : List Buf}
    (ran : c.brk next after pos = .ok (next', kept, out)) (zero : c.offset = 0)
    (back : ∀ d ∈ after, d.offset = 0) :
    kept.offset = 0 ∧ (∀ d ∈ out, d.offset = 0) ∧ next' ≤ next + 1 := by
  obtain ⟨-, -, ran⟩ := bind_eq_ok.mp ran
  obtain ⟨-, -, ran⟩ := bind_eq_ok.mp ran
  split at ran
  · cases ran
    exact ⟨zero, back, Nat.le_succ _⟩
  · cases ran
    exact ⟨zero, by simpa using back, Nat.le_refl _⟩

/-! ## The operations on straight Buffers -/

theorem Straight.index_eq (straight : b.Straight) (wf : b.WellFormed) {i : Nat} (inside : i < b.size) :
    b.index i = .ok (b.content.getD i 0) := by
  obtain ⟨c, here⟩ := wf.at inside
  obtain ⟨v, read, found⟩ := Buffer.index_eq here inside
  have zero := (unshifted_iff here).mp (straight.unshifted i)
  have same := here.content_getElem?
  rw [zero, Nat.zero_add, found] at same
  rw [read, List.getD_eq_getElem?_getD, same]
  rfl

theorem Straight.setIndex_eq (straight : b.Straight) (wf : b.WellFormed) {i : Nat} (inside : i < b.size)
    (v : UInt8) :
    ∃ b', b.setIndex i v = .ok b' ∧ b'.WellFormed ∧ b'.Straight ∧ b'.addrs = b.addrs ∧
      b'.size = b.size ∧ b'.content = b.content.set i v := by
  obtain ⟨c, here⟩ := wf.at inside
  have zero := (unshifted_iff here).mp (straight.unshifted i)
  obtain ⟨b', ran, wf', addrs, size, content_eq⟩ := Buffer.setIndex_eq wf here inside v
  rw [zero, if_neg (Nat.not_lt_zero _), Nat.sub_zero] at content_eq
  refine ⟨b', ran, wf', ?_, addrs, size, content_eq⟩
  unfold setIndex at ran
  rw [boostAssert_of inside, ok_bind, here.walked, ok_bind, if_pos here.in_array] at ran
  cases ran
  intro d member
  rw [← List.singleton_append, List.mem_append, List.mem_append, List.mem_singleton] at member
  rcases member with inBefore | rfl | inAfter
  · exact straight d (by simp [here.split, inBefore])
  · exact zero
  · exact straight d (by simp [here.split, inAfter])

theorem Straight.setData_eq (straight : b.Straight) (wf : b.WellFormed) {skip : Nat} {source : Bytes}
    (start : skip < b.size) (inside : skip + source.length ≤ b.size) :
    ∃ b', b.setData skip source = .ok b' ∧ b'.WellFormed ∧ b'.Straight ∧ b'.addrs = b.addrs ∧
      b'.size = b.size ∧
      b'.content = b.content.take skip ++ source ++ b.content.drop (skip + source.length) := by
  obtain ⟨c, here⟩ := wf.at start
  obtain ⟨b', ran, wf', addrs, size, content_eq⟩ := wf.setData_eq start inside
  refine ⟨b', ran, wf', ?_, addrs, size, content_eq⟩
  unfold setData at ran
  rw [boostAssert_of start, boostAssert_of (by omega), boostAssert_of inside, ok_bind, ok_bind, ok_bind,
    here.walked, ok_bind] at ran
  obtain ⟨written, wrote, same⟩ := bind_eq_ok.mp ran
  cases same
  have back := writeLoop_straight wrote fun d member => straight d (by
    rw [here.split]
    exact List.mem_append_right _ member)
  intro d member
  rcases List.mem_append.mp member with inBefore | inWritten
  · exact straight d (by simp [here.split, inBefore])
  · exact back d inWritten

/-- `Break` inside a straight Buffer. -/
theorem Straight.brk_eq (straight : b.Straight) (wf : b.WellFormed) (fits : b.size < sizeRange)
    (below : b.Below next) {skip : Nat} (positive : 0 < skip) (inside : skip < b.size) :
    ∃ next' b' out, b.brk next skip = .ok (next', b', out) ∧ b'.Straight ∧ out.Straight ∧
      Holds next next' b.addrs b' (b.content.take skip) ∧
      Holds next next' b.addrs out (b.content.drop skip) ∧ next' ≤ next + 1 := by
  obtain ⟨next', b', out, ran, front, back, -⟩ := brk_holds next wf fits below positive inside
  obtain ⟨c, walked, split, -⟩ := wf.walkTo_beyond positive (Nat.le_of_lt inside)
  have member : ∀ d ∈ c.before ++ c.current :: c.after, d.offset = 0 := by
    rw [show c.before ++ c.current :: c.after = b.head from split.symm]
    exact straight
  have after : ∀ d ∈ c.after, d.offset = 0 := fun d inAfter => member d (by simp [inAfter])
  refine ⟨next', b', out, ran, ?_, ?_, front, back, ?_⟩
  all_goals
    simp only [brk, walked, ok_bind] at ran
    obtain ⟨⟨next₁, kept, buf⟩, halves, ran⟩ := bind_eq_ok.mp ran
    obtain ⟨outTail, -, ran⟩ := bind_eq_ok.mp ran
    obtain ⟨tail, -, same⟩ := bind_eq_ok.mp ran
    cases same
    have parts : kept.offset = 0 ∧ (∀ d ∈ buf, d.offset = 0) ∧ next₁ ≤ next + 1 := by
      unfold brkAt at halves
      split at halves
      · cases halves
        exact ⟨member _ (by simp), after, Nat.le_succ _⟩
      · exact brk_straight halves (member _ (by simp)) after
  · intro d inKept
    rcases List.mem_append.mp inKept with inBefore | isCurrent
    · exact member d (by simp [inBefore])
    · rw [List.mem_singleton.mp isCurrent]
      exact parts.1
  · exact parts.2.1
  · exact parts.2.2

/-! ## What a straight Buffer holds -/

/-- A straight Buffer with these bytes. -/
structure Built (b : Buffer) (bytes : Bytes) : Prop where
  wf : b.WellFormed
  straight : b.Straight
  content : b.content = bytes

variable {bytes other : Bytes}

theorem Built.size_eq (built : Built b bytes) : b.size = bytes.length := by
  rw [← built.content, built.wf.length_content]

theorem Built.setIndex (built : Built b bytes) {i : Nat} (inside : i < bytes.length) (v : UInt8) :
    ∃ b', b.setIndex i v = .ok b' ∧ Built b' (bytes.set i v) := by
  obtain ⟨b', ran, wf, straight, -, -, content⟩ :=
    built.straight.setIndex_eq built.wf (by rwa [built.size_eq]) v
  exact ⟨b', ran, wf, straight, by rw [content, built.content]⟩

theorem Built.setData (built : Built b bytes) {skip : Nat} {source : Bytes} (start : skip < bytes.length)
    (inside : skip + source.length ≤ bytes.length) :
    ∃ b', b.setData skip source = .ok b' ∧
      Built b' (bytes.take skip ++ source ++ bytes.drop (skip + source.length)) := by
  obtain ⟨b', ran, wf, straight, -, -, content⟩ :=
    built.straight.setData_eq built.wf (by rwa [built.size_eq]) (by rwa [built.size_eq])
  exact ⟨b', ran, wf, straight, by rw [content, built.content]⟩

theorem Built.insertBackSize (built : Built b bytes) (below : b.Below next) (size : Nat) :
    ∃ next' b' gap, b.insertBackSize next size = .ok (next', b') ∧ gap.length = size ∧
      Built b' (bytes ++ gap) := by
  obtain ⟨next', b', bytes', ran, holds, gap, length, same⟩ := insertBackSize_holds built.wf below size
  have whole := built.wf.length_content
  rw [List.take_of_length_le (by omega), List.drop_of_length_le (by omega), List.append_nil,
    built.content] at same
  exact ⟨next', b', gap, ran, length, holds.wf, built.straight.insertBackSize ran,
    holds.content.trans same⟩

theorem Built.addrs_nil (built : Built b []) : b.addrs = [] := by
  have size := built.size_eq
  rw [addrs, built.wf.size_eq_zero.mp size]
  rfl

theorem empty_built : Built empty [] := ⟨empty_wellFormed, empty_straight, rfl⟩

theorem make_built (next size : Nat) : Built (make next size).2 (List.replicate size 0) := by
  obtain ⟨next', b, made, holds⟩ := make_holds next size
  have straight := make_straight next size
  rw [made] at straight ⊢
  exact ⟨holds.wf, straight, holds.content⟩

theorem Built.index (built : Built b bytes) {i : Nat} (inside : i < bytes.length) :
    b.index i = .ok (bytes.getD i 0) := by
  rw [built.straight.index_eq built.wf (by rwa [built.size_eq]), built.content]

theorem Built.insertBackBuffer (built : Built b bytes) (more : Built x other)
    (disjoint : ∀ a ∈ b.addrs, a ∉ x.addrs) :
    ∃ b' left, b.insertBackBuffer x = .ok (b', left) ∧ Built b' (bytes ++ other) ∧
      ∀ a ∈ b'.addrs, a ∈ b.addrs ∨ a ∈ x.addrs := by
  obtain ⟨b', ran, holds⟩ := insertBackBuffer_holds 0 built.wf more.wf disjoint
  refine ⟨b', _, ran, ⟨holds.wf, built.straight.insertBackBuffer more.straight ran, ?_⟩, fun a member => ?_⟩
  · rw [holds.content, built.content, more.content]
  · rcases holds.alloc.origin a member with old | ⟨low, high⟩
    · exact List.mem_append.mp old
    · omega

end LibNekit.Source.Buffer
