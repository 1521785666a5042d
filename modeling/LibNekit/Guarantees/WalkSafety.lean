import LibNekit.Source.Buffer.Calls

/-!
# Which calls of a Buffer are safe

Nearly all of them are, wherever their assertions hold. `GetData` and the copies between
Buffers walk to their position even when no byte is asked for, so the position must be
that of a byte; and `Break` must leave bytes on both sides. A Buffer that an insertion takes
is left a Buffer only if there was nothing in it.
-/
namespace LibNekit.Guarantees.WalkSafety

open LibNekit.Source LibNekit.Source.Buffer

variable {σ : Type} {b x : Buffer} {next next' : Nat} {call : Call σ}

/-- Another Buffer, from the same allocator. -/
structure Argument (next : Nat) (b x : Buffer) : Prop where
  wf : x.WellFormed
  below : x.Below next
  apart : ∀ a ∈ b.addrs, a ∉ x.addrs

/-- The call comes to its end, and the Buffers it leaves are well formed, with what is left
in one that it has taken. -/
def Safe (next : Nat) (b : Buffer) (call : Call σ) : Prop :=
  ∃ left, call.exec next b = .ok left ∧ (∀ x ∈ left.buffers, x.WellFormed) ∧ ∀ x ∈ left.taken, x.WellFormed

/-- No call walks to the end of a Buffer for nothing, no `Break` leaves nothing on one side,
and no insertion takes a Buffer with bytes. -/
def Inside (b : Buffer) : Call σ → Prop
  | .getData skip _ => skip < b.size
  | .getDataTo _ _ target offset => offset < target.size
  | .setDataFrom skip _ _ _ => skip < b.size
  | .brk skip => 0 < skip ∧ skip < b.size
  | .insertBuffer x _ | .insertFrontBuffer x | .insertBackBuffer x => x.size = 0
  | _ => True

theorem safe_of_ok (buffers : List Buffer) (ran : call.exec next b = .ok ⟨next', buffers, none⟩)
    (wf : ∀ x ∈ buffers, x.WellFormed) : Safe next b call :=
  ⟨⟨next', buffers, none⟩, ran, wf, nofun⟩

theorem unsafe_of_error (fault : Fault) (failed : call.exec next b = .error fault) : ¬Safe next b call := by
  rintro ⟨left, ran, -⟩
  cases failed.symm.trans ran

theorem one_wellFormed (wf : x.WellFormed) : ∀ y ∈ [x], y.WellFormed := by
  intro y member
  rwa [List.mem_singleton.mp member]

theorem two_wellFormed {y : Buffer} (wx : x.WellFormed) (wy : y.WellFormed) : ∀ z ∈ [x, y], z.WellFormed := by
  intro z member
  rcases List.mem_cons.mp member with rfl | last
  · exact wx
  · rwa [List.mem_singleton.mp last]

/-! ## The calls that may fail -/

theorem getData_safe_iff (wf : b.WellFormed) {skip len : Nat} (inside : skip + len ≤ b.size) :
    Safe next b (.getData skip len : Call σ) ↔ skip < b.size := by
  constructor
  · intro safe
    by_contra outside
    obtain rfl : len = 0 := by omega
    obtain rfl : skip = b.size := by omega
    refine unsafe_of_error .nullPointer ?_ safe
    rw [Call.exec, wf.getData_end]
    rfl
  · intro start
    apply safe_of_ok [b]
    · rw [Call.exec, wf.getData_eq start inside]
      rfl
    · exact one_wellFormed wf

/-- Both ways of copying from one Buffer to another. -/
theorem copy_iff (wf : b.WellFormed) (wx : x.WellFormed) {skip len offset : Nat} (start : skip < b.size)
    (inside : skip + len ≤ b.size) (insideX : offset + len ≤ x.size) :
    (∃ x', b.getDataTo skip len x offset = .ok x' ∧ x'.WellFormed) ↔ offset < x.size := by
  constructor
  · rintro ⟨x', ran, -⟩
    by_contra outside
    obtain rfl : len = 0 := by omega
    obtain rfl : offset = x.size := by omega
    cases (getDataTo_end wx start).symm.trans ran
  · intro startX
    obtain ⟨x', ran, written⟩ := wf.getDataTo_eq wx start inside startX insideX
    exact ⟨x', ran, written.wf⟩

theorem getDataTo_safe_iff (wf : b.WellFormed) {skip len offset : Nat} :
    Safe next b (.getDataTo skip len x offset : Call σ) ↔
      ∃ x', b.getDataTo skip len x offset = .ok x' ∧ x'.WellFormed := by
  constructor
  · rintro ⟨left, ran, wellFormed, -⟩
    obtain ⟨x', copied, done⟩ := bind_eq_ok.mp ran
    cases done
    exact ⟨x', copied, wellFormed x' (by simp)⟩
  · rintro ⟨x', copied, wx⟩
    apply safe_of_ok [b, x']
    · rw [Call.exec, copied]
      rfl
    · exact two_wellFormed wf wx

theorem setDataFrom_safe_iff (wx : x.WellFormed) {skip len offset : Nat} :
    Safe next b (.setDataFrom skip len x offset : Call σ) ↔
      ∃ b', x.getDataTo offset len b skip = .ok b' ∧ b'.WellFormed := by
  constructor
  · rintro ⟨left, ran, wellFormed, -⟩
    obtain ⟨b', copied, done⟩ := bind_eq_ok.mp ran
    cases done
    exact ⟨b', copied, wellFormed b' (by simp)⟩
  · rintro ⟨b', copied, wb⟩
    apply safe_of_ok [b', x]
    · rw [Call.exec, setDataFrom, copied]
      rfl
    · exact two_wellFormed wb wx

theorem brk_safe_iff (wf : b.WellFormed) (fits : b.size < sizeRange) (below : b.Below next) {skip : Nat}
    (asks : skip ≤ b.size) : Safe next b (.brk skip : Call σ) ↔ 0 < skip ∧ skip < b.size := by
  constructor
  · intro safe
    by_contra outside
    by_cases zero : skip = 0
    · subst zero
      obtain ⟨fault, failed⟩ := brk_start next wf
      apply unsafe_of_error fault _ safe
      rw [Call.exec, failed]
      rfl
    · obtain rfl : skip = b.size := by omega
      apply unsafe_of_error .nullPointer _ safe
      rw [Call.exec, wf.brk_end next (by omega)]
      rfl
  · rintro ⟨positive, inside⟩
    obtain ⟨next', b', out, ran, kept, handed, -⟩ := brk_holds next wf fits below positive inside
    apply safe_of_ok [b', out]
    · rw [Call.exec, ran]
      rfl
    · exact two_wellFormed kept.wf handed.wf

/-! ## The calls that do not -/

/-- An insertion of a Buffer leaves in it everything but its chunks. -/
theorem insert_leaves (wf : b.WellFormed) (below : b.Below next) (own : Argument next b x) (moves : call.moved = some x)
    (asserts : call.Asserts b) :
    ∃ next' b', call.exec next b = .ok ⟨next', [b'], some x.movedOut⟩ ∧ b'.WellFormed := by
  cases call with
  | insertBuffer y pos =>
    cases moves
    obtain ⟨next', b', ran, holds⟩ := insertBuffer_holds wf own.wf own.apart below own.below asserts
    exact ⟨next', b', by rw [Call.exec, ran]; rfl, holds.wf⟩
  | insertFrontBuffer y =>
    cases moves
    obtain ⟨b', ran, holds⟩ := insertFrontBuffer_holds next wf own.wf own.apart
    exact ⟨next, b', by rw [Call.exec, ran]; rfl, holds.wf⟩
  | insertBackBuffer y =>
    cases moves
    obtain ⟨b', ran, holds⟩ := insertBackBuffer_holds next wf own.wf own.apart
    exact ⟨next, b', by rw [Call.exec, ran]; rfl, holds.wf⟩
  | _ => cases moves

/-- What is left in the argument is a Buffer only if there was nothing in it. -/
theorem movedOut_wellFormed_iff (wx : x.WellFormed) : x.movedOut.WellFormed ↔ x.size = 0 := by
  constructor
  · intro wf
    exact wf.size_eq
  · intro zero
    rwa [wx.movedOut_empty zero]

theorem insert_safe_iff (wf : b.WellFormed) (below : b.Below next) (own : Argument next b x) (moves : call.moved = some x)
    (asserts : call.Asserts b) : Safe next b call ↔ x.size = 0 := by
  obtain ⟨next', b', ran, wf'⟩ := insert_leaves wf below own moves asserts
  rw [← movedOut_wellFormed_iff own.wf]
  constructor
  · rintro ⟨left, again, -, taken⟩
    obtain rfl := Except.ok.inj (ran.symm.trans again)
    exact taken _ rfl
  · intro emptied
    refine ⟨_, ran, one_wellFormed wf', fun y left => ?_⟩
    obtain rfl := Option.some.inj left
    exact emptied

theorem findLocation_ok (wf : b.WellFormed) (pointer : BytePtr) : ∃ offset, b.findLocation pointer = .ok offset := by
  obtain ⟨offset, ran⟩ := wf.walk_ok (fun slice offset =>
    if pointer.buf = slice.data.buf ∧ slice.data.index ≤ pointer.index ∧
        pointer.index < slice.data.index + slice.bytes.length then
      (false, offset + (pointer.index - slice.data.index))
    else (true, offset + slice.bytes.length)) (Nat.zero_le _) 0
  refine ⟨offset, ?_⟩
  rw [← ran, findLocation]
  congr 1
  funext slice offset
  split_ifs <;> rfl

/-- A call with another Buffer, or with none, is safe exactly if it stays inside; an insertion
always leaves its receiver well formed, and of its argument everything but the chunks. -/
theorem calls_safe_iff (next : Nat) (b : Buffer) (call : Call σ) (wf : b.WellFormed) (fits : b.size < sizeRange)
    (below : b.Below next) (asserts : call.Asserts b) (own : ∀ x, call.argument = some x → Argument next b x) :
    (Safe next b call ↔ Inside b call) ∧
      ∀ x, call.moved = some x →
        ∃ next' b', call.exec next b = .ok ⟨next', [b'], some x.movedOut⟩ ∧ b'.WellFormed := by
  constructor
  · cases call with
    | index i =>
      obtain ⟨c, here⟩ := wf.at asserts
      obtain ⟨v, ran, -⟩ := index_eq here asserts
      apply iff_of_true _ trivial
      exact safe_of_ok [b] (by rw [Call.exec, ran]; rfl) (one_wellFormed wf)
    | setIndex i v =>
      obtain ⟨c, here⟩ := wf.at asserts
      obtain ⟨b', ran, wf', -⟩ := setIndex_eq wf here asserts v
      apply iff_of_true _ trivial
      exact safe_of_ok [b'] (by rw [Call.exec, ran]; rfl) (one_wellFormed wf')
    | insertBuffer x pos => exact insert_safe_iff wf below (own x rfl) rfl asserts
    | insertFrontBuffer x => exact insert_safe_iff wf below (own x rfl) rfl asserts
    | insertBackBuffer x => exact insert_safe_iff wf below (own x rfl) rfl asserts
    | insertSize skip len =>
      obtain ⟨next', b', bytes, ran, holds, -⟩ := insertSize_holds wf below asserts len
      apply iff_of_true _ trivial
      exact safe_of_ok [b'] (by rw [Call.exec, ran]; rfl) (one_wellFormed holds.wf)
    | insertFrontSize size =>
      obtain ⟨next', b', bytes, ran, holds, -⟩ := insertFrontSize_holds wf below size
      apply iff_of_true _ trivial
      exact safe_of_ok [b'] (by rw [Call.exec, ran]; rfl) (one_wellFormed holds.wf)
    | insertBackSize size =>
      obtain ⟨next', b', bytes, ran, holds, -⟩ := insertBackSize_holds wf below size
      apply iff_of_true _ trivial
      exact safe_of_ok [b'] (by rw [Call.exec, ran]; rfl) (one_wellFormed holds.wf)
    | shrink skip len =>
      obtain ⟨b', ran, holds⟩ := shrink_holds next wf asserts.1 asserts.2.2
      apply iff_of_true _ trivial
      exact safe_of_ok [b'] (by rw [Call.exec, ran]; rfl) (one_wellFormed holds.wf)
    | setData skip source =>
      obtain ⟨b', ran, written⟩ := wf.setData_overwritten asserts.1 asserts.2.2
      apply iff_of_true _ trivial
      exact safe_of_ok [b'] (by rw [Call.exec, ran]; rfl) (one_wellFormed written.wf)
    | walk walker start s =>
      obtain ⟨s', ran⟩ := wf.walk_ok walker asserts s
      apply iff_of_true _ trivial
      exact safe_of_ok [b] (by rw [Call.exec, ran]; rfl) (one_wellFormed wf)
    | findLocation pointer =>
      obtain ⟨offset, ran⟩ := findLocation_ok wf pointer
      apply iff_of_true _ trivial
      exact safe_of_ok [b] (by rw [Call.exec, ran]; rfl) (one_wellFormed wf)
    | getData skip len => exact getData_safe_iff wf asserts.2.2
    | getDataTo skip len target offset =>
      rw [getDataTo_safe_iff wf]
      exact copy_iff wf (own target rfl).wf asserts.1.1 asserts.1.2.2 asserts.2.2.2
    | setDataFrom skip len source offset =>
      rw [setDataFrom_safe_iff (own source rfl).wf]
      exact copy_iff (own source rfl).wf wf asserts.1.1 asserts.1.2.2 asserts.2.2.2
    | brk skip => exact brk_safe_iff wf fits below asserts
  · intro x moves
    have known : call.argument = some x := by
      cases call with
      | insertBuffer y pos => exact moves
      | insertFrontBuffer y => exact moves
      | insertBackBuffer y => exact moves
      | _ => cases moves
    exact insert_leaves wf below (own x known) moves asserts

/-- A Buffer of one chunk with two bytes. -/
def twoBytes : Buffer := ⟨[⟨0, [7, 8], 0, 2⟩], some 0, 2⟩

theorem twoBytes_wellFormed : twoBytes.WellFormed := by
  constructor
  · intro c member
    rw [List.mem_singleton.mp member]
    exact ⟨by decide, by decide⟩
  · decide
  · rfl
  · rfl

theorem calls_safe_iff_break : Safe 1 twoBytes (.brk 1 : Call Unit) := by
  refine (calls_safe_iff 1 twoBytes (.brk 1 : Call Unit) twoBytes_wellFormed (by decide) ?_
    (Nat.le_succ 1) ?_).1.mpr ⟨Nat.one_pos, Nat.lt_succ_self 1⟩
  · show ∀ a ∈ twoBytes.addrs, a < 1
    decide
  · intro x argument
    cases argument

/-- Nothing is read from an empty Buffer, and from behind the last byte of another; a Buffer
is broken in front of its first byte, and behind its last. -/
theorem calls_at_the_ends :
    ((Call.getData 0 0 : Call Unit).Asserts empty ∧ ¬Safe 0 empty (.getData 0 0 : Call Unit)) ∧
      ((Call.getData 2 0 : Call Unit).Asserts twoBytes ∧ ¬Safe 1 twoBytes (.getData 2 0 : Call Unit)) ∧
      ((Call.brk 0 : Call Unit).Asserts twoBytes ∧ ¬Safe 1 twoBytes (.brk 0 : Call Unit)) ∧
      ((Call.brk 2 : Call Unit).Asserts twoBytes ∧ ¬Safe 1 twoBytes (.brk 2 : Call Unit)) := by
  refine ⟨⟨⟨by decide, by decide, by decide⟩, ?_⟩, ⟨⟨by decide, by decide, by decide⟩, ?_⟩,
    ⟨Nat.zero_le 2, ?_⟩, ⟨Nat.le_refl 2, ?_⟩⟩
  · exact unsafe_of_error .nullPointer rfl
  · exact unsafe_of_error .nullPointer rfl
  · exact unsafe_of_error .assertion rfl
  · exact unsafe_of_error .nullPointer rfl

end LibNekit.Guarantees.WalkSafety
