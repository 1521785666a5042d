import LibNekit.Source.Buffer.Chunk

/-!
# Well-formed Buffers and their content

`WellFormed` is the representation invariant of `Buffer`: no empty chunk, every
chunk inside its array, `size_` the sum of the chunk sizes, `tail_` the address
of the last chunk. `content` is the abstraction to byte lists.
-/
namespace LibNekit.Source

open LibNekit.Library.Rope

namespace Buffer

/-- The bytes of a Buffer: the concatenation of its chunks. -/
def content (b : Buffer) : Bytes := b.head.flatMap Buf.bytes

/-- Addresses of the chunks a Buffer owns. -/
def addrs (b : Buffer) : List Nat := b.head.map Buf.addr

structure WellFormed (b : Buffer) : Prop where
  ok : ∀ c ∈ b.head, c.Ok
  distinct : b.addrs.Nodup
  size_eq : b.size = total Buf.size b.head
  tail_eq : b.tail = b.head.getLast?.map Buf.addr

theorem sized {chain : List Buf} (ok : ∀ c ∈ chain, c.Ok) :
    ∀ c ∈ chain, c.bytes.length = c.size :=
  fun c member => Buf.length_bytes (ok c member)

theorem WellFormed.length_content {b : Buffer} (wf : b.WellFormed) : b.content.length = b.size := by
  rw [content, length_flatMap_eq_total _ (sized wf.ok), wf.size_eq]

/-- Only the empty chain has size zero. -/
theorem WellFormed.size_eq_zero {b : Buffer} (wf : b.WellFormed) : b.size = 0 ↔ b.head = [] := by
  rw [wf.size_eq, total_eq_zero_iff]
  exact fun c member => (wf.ok c member).nonempty

theorem empty_wellFormed : empty.WellFormed := ⟨by simp [empty], by simp [empty, addrs], rfl, rfl⟩

@[simp] theorem empty_content : empty.content = [] := rfl
@[simp] theorem empty_addrs : empty.addrs = [] := rfl

/-- Chunks that an operation allocated: their addresses come from the counter. -/
structure Allocates (next next' : Nat) (old : List Nat) (b : Buffer) : Prop where
  counter : next ≤ next'
  origin : ∀ a ∈ b.addrs, a ∈ old ∨ (next ≤ a ∧ a < next')

/-- Every chunk of the Buffer was allocated before the counter stood at `next`. -/
def Below (next : Nat) (b : Buffer) : Prop := ∀ a ∈ b.addrs, a < next

theorem Allocates.below {next next' : Nat} {old : List Nat} {b : Buffer}
    (alloc : Allocates next next' old b) (oldBelow : ∀ a ∈ old, a < next) : b.Below next' := by
  intro a member
  have := alloc.counter
  rcases alloc.origin a member with held | ⟨_, bound⟩
  · have := oldBelow a held
    omega
  · exact bound

theorem Below.mono {next next' : Nat} {b : Buffer} (below : b.Below next) (le : next ≤ next') :
    b.Below next' := fun a member => Nat.lt_of_lt_of_le (below a member) le

/-! ## Reaching the last chunk through `tail_` -/

/-- A non-empty well-formed Buffer as its chunks before the last, and the last. -/
theorem WellFormed.snoc {b : Buffer} (wf : b.WellFormed) (nonempty : b.head ≠ []) :
    ∃ init last, b.head = init ++ [last] ∧ b.tail = some last.addr ∧
      ∀ c ∈ init, c.addr ≠ last.addr := by
  obtain ⟨init, last, split⟩ := List.eq_nil_or_concat' b.head |>.resolve_left nonempty
  refine ⟨init, last, split, by simp [wf.tail_eq, split], ?_⟩
  have distinct := wf.distinct
  simp only [addrs, split, List.map_append, List.map_cons, List.map_nil] at distinct
  intro c member equal
  have := (List.nodup_append.mp distinct).2.2 c.addr (List.mem_map_of_mem member) last.addr (by simp)
  exact this equal

theorem setNext_last {init : List Buf} {last : Buf} (after : List Buf)
    (others : ∀ c ∈ init, c.addr ≠ last.addr) :
    setNext (init ++ [last]) last.addr after = .ok (init ++ last :: after) := by
  induction init with
  | nil => simp [setNext]
  | cons c rest ih =>
    have here := others c (by simp)
    simp [setNext, here, ih fun d member => others d (by simp [member])]

theorem readAt_last {init : List Buf} {last : Buf} (others : ∀ c ∈ init, c.addr ≠ last.addr) :
    readAt (init ++ [last]) last.addr = .ok last := by
  induction init with
  | nil => simp [readAt]
  | cons c rest ih =>
    have here := others c (by simp)
    simp [readAt, here, ih fun d member => others d (by simp [member])]

theorem updateAt_last {init : List Buf} {last : Buf} (f : Buf → Buf)
    (others : ∀ c ∈ init, c.addr ≠ last.addr) :
    updateAt (init ++ [last]) last.addr f = .ok (init ++ [f last]) := by
  induction init with
  | nil => simp [updateAt]
  | cons c rest ih =>
    have here := others c (by simp)
    simp [updateAt, here, ih fun d member => others d (by simp [member])]

/-- Chunks regrown in place: same nodes, so the same `tail_`. -/
theorem WellFormed.regrown {b : Buffer} (wb : b.WellFormed) {head : List Buf} {n : Nat}
    (same : head.map Buf.addr = b.addrs) (ok : ∀ c ∈ head, c.Ok) (size : n = total Buf.size head) :
    WellFormed ⟨head, b.tail, n⟩ where
  ok := ok
  distinct := by
    show (head.map Buf.addr).Nodup
    exact same ▸ wb.distinct
  size_eq := size
  tail_eq := by
    show b.tail = head.getLast?.map Buf.addr
    rw [wb.tail_eq, ← List.getLast?_map, ← List.getLast?_map, same]
    rfl

/-! ## Walks -/

/-- The walk of `operator[]`, `Shrink`, `GetData`, … stays inside the chain and
cuts the content at the position asked for. -/
theorem WellFormed.walkTo_atOrPast {b : Buffer} (wf : b.WellFormed) {pos : Nat}
    (inside : pos < b.size) :
    ∃ c : Cursor Buf, walkTo atOrPast b.head pos = .ok c ∧ b.head = c.pieces ∧
      pos = total Buf.size c.before + c.pos ∧ c.pos < c.current.size ∧
      b.content.take pos = c.before.flatMap Buf.bytes ++ c.current.bytes.take c.pos ∧
      b.content.drop pos = c.current.bytes.drop c.pos ++ c.after.flatMap Buf.bytes := by
  rw [wf.size_eq] at inside
  obtain ⟨c, found, split, sum, bound⟩ := seek_atOrPast inside
  have sizes : ∀ x ∈ c.pieces, x.bytes.length = x.size := split ▸ sized wf.ok
  refine ⟨c, by simp [walkTo, found], split, sum, bound, ?_, ?_⟩
  · rw [content, split, sum]
    exact take_at_cursor sizes (Nat.le_of_lt bound)
  · rw [content, split, sum]
    exact drop_at_cursor sizes (Nat.le_of_lt bound)

/-- The walk of `Insert` and `Break` finds every gap behind the first byte. -/
theorem WellFormed.walkTo_beyond {b : Buffer} (wf : b.WellFormed) {pos : Nat}
    (start : 0 < pos) (inside : pos ≤ b.size) :
    ∃ c : Cursor Buf, walkTo beyond b.head pos = .ok c ∧ b.head = c.pieces ∧
      pos = total Buf.size c.before + c.pos ∧ 0 < c.pos ∧ c.pos ≤ c.current.size ∧
      b.content.take pos = c.before.flatMap Buf.bytes ++ c.current.bytes.take c.pos ∧
      b.content.drop pos = c.current.bytes.drop c.pos ++ c.after.flatMap Buf.bytes := by
  rw [wf.size_eq] at inside
  obtain ⟨c, found, split, sum, positive, bound⟩ := seek_beyond start inside
  have sizes : ∀ x ∈ c.pieces, x.bytes.length = x.size := split ▸ sized wf.ok
  refine ⟨c, by simp [walkTo, found], split, sum, positive, bound, ?_, ?_⟩
  · rw [content, split, sum]
    exact take_at_cursor sizes bound
  · rw [content, split, sum]
    exact drop_at_cursor sizes bound

end Buffer

end LibNekit.Source
