import LibNekit.Source.Buffer.Model

/-!
# One chunk

What the field updates of buffer.cc do to the bytes a chunk contributes. All of
them are read off one fact: the array of a well-formed chunk is its spare space
in front, its bytes, and its spare space behind.
-/
namespace LibNekit.Source

open LibNekit.Library.Rope

namespace Buf

/-- A chunk is never empty and stays inside its array. -/
structure Ok (c : Buf) : Prop where
  nonempty : 0 < c.size
  fits : c.offset + c.size ≤ c.capacity

variable {c : Buf}

theorem length_bytes (ok : c.Ok) : c.bytes.length = c.size := by
  have := ok.fits
  simp only [bytes, capacity, List.length_take, List.length_drop] at *
  omega

/-- The array of a chunk as spare space, bytes, spare space. -/
theorem Ok.layout (ok : c.Ok) : ∃ front back, c.data = front ++ c.bytes ++ back ∧
    front.length = c.offset := by
  have fits := ok.fits
  unfold capacity at fits
  refine ⟨c.data.take c.offset, c.data.drop (c.offset + c.size), ?_, ?_⟩
  · simp only [bytes, List.append_assoc, ← List.drop_drop, List.take_append_drop]
  · rw [List.length_take]
    omega

/-- Any window of the array inside the chunk is a window of its bytes. -/
theorem window {skip len : Nat} (inside : skip + len ≤ c.size) :
    (c.data.drop (c.offset + skip)).take len = (c.bytes.drop skip).take len := by
  simp only [bytes, List.drop_take, List.drop_drop, List.take_take]
  rw [Nat.min_eq_left (by omega)]

/-- The last `size - skip` bytes of the array window are the bytes from `skip` on. -/
theorem window_rest (ok : c.Ok) {skip : Nat} (inside : skip ≤ c.size) :
    (c.data.drop (c.offset + skip)).take (c.size - skip) = c.bytes.drop skip := by
  rw [window (by omega), List.take_of_length_le
    (Nat.le_of_eq (by rw [List.length_drop, length_bytes ok]))]

@[simp] theorem make_addr (addr size : Nat) : (make addr size).addr = addr := rfl
@[simp] theorem make_size (addr size : Nat) : (make addr size).size = size := rfl
@[simp] theorem make_offset (addr size : Nat) : (make addr size).offset = 0 := rfl
@[simp] theorem make_bytes (addr size : Nat) : (make addr size).bytes = List.replicate size 0 := by
  simp [make, bytes]

theorem make_ok {addr size : Nat} (positive : 0 < size) : (make addr size).Ok :=
  ⟨positive, by simp [make, capacity]⟩

@[simp] theorem overwrite_addr (start : Nat) (source : Bytes) :
    (c.overwrite start source).addr = c.addr := rfl
@[simp] theorem overwrite_size (start : Nat) (source : Bytes) :
    (c.overwrite start source).size = c.size := rfl
@[simp] theorem overwrite_offset (start : Nat) (source : Bytes) :
    (c.overwrite start source).offset = c.offset := rfl

theorem overwrite_capacity {start : Nat} {source : Bytes}
    (inside : start + source.length ≤ c.capacity) :
    (c.overwrite start source).capacity = c.capacity := by
  simp only [overwrite, capacity, List.length_append, List.length_take, List.length_drop] at *
  omega

/-- The layout of the array determines the bytes. -/
theorem bytes_of_layout {front mid back : Bytes} (layout : c.data = front ++ mid ++ back)
    (frontLen : front.length = c.offset) (midLen : mid.length = c.size) : c.bytes = mid := by
  simp only [bytes, layout, ← frontLen, ← midLen, List.append_assoc, List.drop_left, List.take_left]

/-- A copy into the chunk's own bytes replaces exactly that window of them. -/
theorem overwrite_bytes (ok : c.Ok) {skip : Nat} {source : Bytes}
    (inside : skip + source.length ≤ c.size) :
    (c.overwrite (c.offset + skip) source).bytes =
      c.bytes.take skip ++ source ++ c.bytes.drop (skip + source.length) := by
  obtain ⟨front, back, layout, frontLen⟩ := ok.layout
  have midLen := length_bytes ok
  generalize c.bytes = mid at *
  refine bytes_of_layout (?_ : _ = front ++ _ ++ back) frontLen ?_
  · have before : (front ++ mid ++ back).take (c.offset + skip) = front ++ mid.take skip := by
      rw [← frontLen, List.append_assoc, List.take_length_add_append,
        List.take_append_of_le_length (by omega)]
    have behind : (front ++ mid ++ back).drop (c.offset + skip + source.length) =
        mid.drop (skip + source.length) ++ back := by
      rw [← frontLen, Nat.add_assoc, List.append_assoc, List.drop_length_add_append,
        List.drop_append_of_le_length (by omega)]
    simp only [overwrite, layout]
    rw [before, behind]
    simp only [List.append_assoc]
  · simp only [List.length_append, List.length_take, List.length_drop, overwrite_size]
    omega

/-- A copy inside the array leaves the chunk well formed. -/
theorem overwrite_ok (ok : c.Ok) {skip : Nat} {source : Bytes}
    (inside : skip + source.length ≤ c.size) : (c.overwrite (c.offset + skip) source).Ok := by
  have fits := ok.fits
  refine ⟨ok.nonempty, ?_⟩
  rw [overwrite_capacity (by omega)]
  exact fits

/-! ## Spare capacity -/

/-- Growing a chunk into the spare space behind it appends stale bytes. -/
theorem grow_back (ok : c.Ok) {n : Nat} (room : n ≤ c.capacity - c.offset - c.size) :
    Ok { c with size := c.size + n } ∧ ∃ gap : Bytes, gap.length = n ∧
      bytes { c with size := c.size + n } = c.bytes ++ gap := by
  have fits := ok.fits
  unfold capacity at *
  refine ⟨⟨Nat.add_pos_left ok.nonempty n, by simp only [capacity]; omega⟩,
    ((c.data.drop c.offset).drop c.size).take n, ?_, by simp [bytes, List.take_add]⟩
  simp only [List.length_take, List.length_drop]
  omega

/-- Growing a chunk into the spare space in front of it prepends stale bytes. -/
theorem grow_front (ok : c.Ok) {n : Nat} (room : n ≤ c.offset) :
    Ok { c with offset := c.offset - n, size := c.size + n } ∧ ∃ gap : Bytes, gap.length = n ∧
      bytes { c with offset := c.offset - n, size := c.size + n } = gap ++ c.bytes := by
  have fits := ok.fits
  unfold capacity at *
  refine ⟨⟨Nat.add_pos_left ok.nonempty n, by simp only [capacity]; omega⟩,
    (c.data.drop (c.offset - n)).take n, ?_, ?_⟩
  · simp only [List.length_take, List.length_drop]
    omega
  · simp only [bytes, Nat.add_comm c.size n, List.take_add, List.drop_drop]
    rw [Nat.sub_add_cancel room]

/-- `offset_ += n; size_ -= n`: the first bytes of the chunk are dropped. -/
theorem drop_front (ok : c.Ok) {n : Nat} (inside : n < c.size) :
    Ok { c with offset := c.offset + n, size := c.size - n } ∧
      bytes { c with offset := c.offset + n, size := c.size - n } = c.bytes.drop n := by
  have fits := ok.fits
  unfold capacity at fits
  exact ⟨⟨Nat.sub_pos_of_lt inside, by simp only [capacity]; omega⟩, window_rest ok (Nat.le_of_lt inside)⟩

/-- `size_ = n`: only the first bytes of the chunk are kept. -/
theorem keep_front (ok : c.Ok) {n : Nat} (positive : 0 < n) (inside : n ≤ c.size) :
    Ok { c with size := n } ∧ bytes { c with size := n } = c.bytes.take n := by
  have fits := ok.fits
  unfold capacity at fits
  exact ⟨⟨positive, by simp only [capacity]; omega⟩, by
    simp only [bytes, List.take_take, Nat.min_eq_left inside]⟩

/-- Moving the rest of a chunk down over `len` bytes deletes them. -/
theorem cut_middle (ok : c.Ok) {skip len : Nat} (positive : 0 < skip) (inside : skip + len ≤ c.size) :
    let moved := c.overwrite (c.offset + skip)
      ((c.data.drop (c.offset + skip + len)).take (c.size - skip - len))
    Ok { moved with size := c.size - len } ∧
      bytes { moved with size := c.size - len } = c.bytes.take skip ++ c.bytes.drop (skip + len) := by
  have behind : (c.data.drop (c.offset + skip + len)).take (c.size - skip - len) =
      c.bytes.drop (skip + len) := by
    rw [Nat.add_assoc, Nat.sub_sub]
    exact window_rest ok inside
  have length := length_bytes ok
  have room : skip + (c.bytes.drop (skip + len)).length ≤ c.size := by
    rw [List.length_drop]
    omega
  simp only [behind]
  obtain ⟨okCut, bytes_eq⟩ := keep_front (overwrite_ok ok room) (n := c.size - len) (by omega)
    (Nat.sub_le _ _)
  refine ⟨okCut, bytes_eq.trans ?_⟩
  rw [overwrite_bytes ok room, List.take_append_of_le_length, List.take_of_length_le]
  · simp only [List.length_append, List.length_take, List.length_drop]
    omega
  · simp only [List.length_append, List.length_take, List.length_drop]
    omega

/-! ## Splitting -/

/-- The two halves of `Buf::Break`: what the split chunk and the chain behind it
are, and which addresses the chain has. -/
theorem brk_spec (next : Nat) {after : List Buf} {pos : Nat} (ok : c.Ok)
    (okAfter : ∀ d ∈ after, d.Ok) (positive : 0 < pos) (inside : pos ≤ c.size) :
    ∃ next' c' rest, c.brk next after pos = .ok (next', c', rest) ∧
      c'.Ok ∧ c'.addr = c.addr ∧ c'.size = pos ∧ c'.bytes = c.bytes.take pos ∧
      (∀ d ∈ rest, d.Ok) ∧ total Buf.size rest = c.size - pos + total Buf.size after ∧
      rest.flatMap Buf.bytes = c.bytes.drop pos ++ after.flatMap Buf.bytes ∧
      ((pos = c.size ∧ next' = next ∧ rest = after) ∨
        (pos < c.size ∧ next' = next + 1 ∧ ∃ d, d.addr = next ∧ rest = d :: after)) := by
  have len := length_bytes ok
  unfold brk
  rw [boostAssert_of (by omega : pos ≠ 0), boostAssert_of inside]
  by_cases whole : pos = c.size
  · refine ⟨next, c, after, by simp [whole], ok, rfl, whole.symm, ?_, okAfter, by omega, ?_,
      Or.inl ⟨whole, rfl, rfl⟩⟩
    · rw [List.take_of_length_le (by omega)]
    · simp [List.drop_of_length_le (show c.bytes.length ≤ pos by omega)]
  · have copied : (c.data.drop (c.offset + pos)).take (c.size - pos) = c.bytes.drop pos :=
      window_rest ok inside
    have makeOk : (make next (c.size - pos)).Ok := make_ok (by omega)
    have restLen : (c.bytes.drop pos).length = c.size - pos := by simp [len]
    have room : 0 + (c.bytes.drop pos).length ≤ (make next (c.size - pos)).size := by
      simp [len]
    refine ⟨next + 1, { c with size := pos },
      (make next (c.size - pos)).overwrite 0 (c.bytes.drop pos) :: after,
      by simp [whole, copied], (keep_front ok positive inside).1, rfl, rfl,
      (keep_front ok positive inside).2, ?_, by simp, ?_, Or.inr ⟨by omega, rfl, _, rfl, rfl⟩⟩
    · simp only [List.mem_cons, forall_eq_or_imp]
      exact ⟨overwrite_ok makeOk room, okAfter⟩
    · have bytes := overwrite_bytes makeOk room
      simp only [make_offset, Nat.zero_add] at bytes
      simp only [List.flatMap_cons, bytes, restLen]
      simp

end Buf

end LibNekit.Source
