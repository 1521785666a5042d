import LibNekit.Source.Buffer.Access

/-!
# One slice of a walk

A walker that stops at once sees the rest of one chunk, and `FindLocation` finds the
logical index of every byte of it.
-/
namespace LibNekit.Source.Buffer

open LibNekit.Library.Rope

variable {b : Buffer}

theorem At.sliceOf_bytes {pos : Nat} {c : Cursor Buf} (here : At b pos c) :
    (sliceOf c.current c.pos).bytes = c.current.bytes.drop c.pos :=
  Buf.window_rest here.okCurrent (Nat.le_of_lt here.bound)

/-- The search passes chunks that the pointer does not point into. -/
theorem walkLoop_passes {before chain : List Buf} {pointer : BytePtr} {seen : Nat}
    (ok : ∀ c ∈ before, c.Ok) (others : ∀ c ∈ before, c.addr ≠ pointer.buf) :
    walkLoop (fun slice offset =>
      if pointer.buf = slice.data.buf ∧ slice.data.index ≤ pointer.index ∧
          pointer.index < slice.data.index + slice.bytes.length then
        .ok (false, offset + (pointer.index - slice.data.index))
      else .ok (true, offset + slice.bytes.length)) (before ++ chain) 0 seen =
    walkLoop (fun slice offset =>
      if pointer.buf = slice.data.buf ∧ slice.data.index ≤ pointer.index ∧
          pointer.index < slice.data.index + slice.bytes.length then
        .ok (false, offset + (pointer.index - slice.data.index))
      else .ok (true, offset + slice.bytes.length)) chain 0 (seen + total Buf.size before) := by
  induction before generalizing seen with
  | nil => rfl
  | cons c before ih =>
    have other := others c (by simp)
    have length : (sliceOf c 0).bytes.length = c.size := by
      rw [sliceOf, Buf.window_rest (ok c (by simp)) (Nat.zero_le _), List.drop_zero,
        Buf.length_bytes (ok c (by simp))]
    rw [List.cons_append, walkLoop, if_neg fun found => other found.1.symm]
    simp only [ok_bind, if_true, length]
    rw [ih (fun d member => ok d (by simp [member])) fun d member => others d (by simp [member]),
      total_cons, Nat.add_assoc]

/-- `FindLocation` of a byte of the chunk at the cursor. -/
theorem At.findLocation {pos k : Nat} {c : Cursor Buf} (wf : b.WellFormed) (here : At b pos c)
    (inside : c.pos + k < c.current.size) :
    b.findLocation { (sliceOf c.current c.pos).data with
        index := (sliceOf c.current c.pos).data.index + k } = .ok (pos + k) := by
  have sum := here.sum
  have length : (sliceOf c.current 0).bytes.length = c.current.size := by
    rw [sliceOf, Buf.window_rest here.okCurrent (Nat.zero_le _), List.drop_zero,
      Buf.length_bytes here.okCurrent]
  have others : ∀ d ∈ c.before, d.addr ≠ c.current.addr := by
    have distinct := wf.distinct
    simp only [addrs, here.split, List.map_append, List.map_cons] at distinct
    intro d member same
    exact (List.nodup_append.mp distinct).2.2 _ (List.mem_map_of_mem member) _ (by simp) same
  have okBefore : ∀ d ∈ c.before, d.Ok := fun d member => here.ok d (by simp [member])
  -- The walk starts at the first chunk.
  have walk (σ : Type) (walker : Slice → σ → Checked (Bool × σ)) (s : σ) :
      b.walkInternalChunk walker 0 s = walkLoop walker b.head 0 s := by
    have some_bytes : (0 : Nat) < b.size := by
      rw [wf.size_eq, here.split, total_append, total_cons]
      omega
    obtain ⟨first, atFirst⟩ := wf.at some_bytes
    have firstSum := atFirst.sum
    have front : first.before = [] := (total_eq_zero_iff Buf.size fun d member =>
      (atFirst.ok d (by simp [member])).nonempty).mp (by omega)
    unfold walkInternalChunk
    rw [boostAssert_of (Nat.zero_le _)]
    simp only [ok_bind, if_neg (Nat.ne_of_lt some_bytes), atFirst.walked]
    rw [atFirst.split, front, show first.pos = 0 by omega, List.nil_append]
  unfold Buffer.findLocation
  rw [walk, here.split, walkLoop_passes okBefore others, walkLoop,
    if_pos ⟨rfl, by simp only [sliceOf]; omega, by rw [length]; simp only [sliceOf]; omega⟩]
  simp only [ok_bind, Bool.false_eq_true, if_false, pure_eq_ok, sliceOf]
  congr 1
  omega

/-- A walk that stops at its first slice. -/
theorem WellFormed.walk_once (wf : b.WellFormed) {start : Nat} (inside : start < b.size) :
    ∃ slice rest, slice.bytes ≠ [] ∧ b.content.drop start = slice.bytes ++ rest ∧
      (∀ k < slice.bytes.length,
        b.findLocation { slice.data with index := slice.data.index + k } = .ok (start + k)) ∧
      ∀ {σ : Type} (step : Slice → σ → Checked σ) (s : σ),
        b.walkInternalChunk (fun slice s => do return (false, ← step slice s)) start s = step slice s := by
  obtain ⟨c, here⟩ := wf.at inside
  have bound := here.bound
  have bytes := here.sliceOf_bytes
  have length : (sliceOf c.current c.pos).bytes.length = c.current.size - c.pos := by
    rw [bytes, List.length_drop, Buf.length_bytes here.okCurrent]
  refine ⟨sliceOf c.current c.pos, c.after.flatMap Buf.bytes, ?_, ?_, ?_, ?_⟩
  · rw [← List.length_pos_iff, length]
    omega
  · rw [here.behind, bytes]
  · intro k small
    exact here.findLocation wf (by omega)
  · intro σ step s
    unfold walkInternalChunk
    rw [boostAssert_of (Nat.le_of_lt inside)]
    simp only [ok_bind, if_neg (Nat.ne_of_lt inside), here.walked]
    rw [walkLoop]
    cases step (sliceOf c.current c.pos) s <;> rfl

end LibNekit.Source.Buffer
