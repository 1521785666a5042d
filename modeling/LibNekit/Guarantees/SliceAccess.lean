import LibNekit.Source.Buffer.Transfer

/-!
# GetData and SetData are slice read and slice update

Both forms of each, on every well-formed Buffer and whatever its chunks are. The target of a
copy is another Buffer, so nothing is read that the copy has written.
-/
namespace LibNekit.Guarantees.SliceAccess

open LibNekit.Source LibNekit.Library.Splice
open LibNekit.Source.Buffer (WellFormed Overwritten)

variable {b : Buffer}

/-- A Buffer of its own. -/
structure Another (b other : Buffer) : Prop where
  wf : other.WellFormed
  apart : ∀ a ∈ other.addrs, a ∉ b.addrs

/-- A range that begins at a byte of `c` and ends inside. -/
structure InRange (c : Bytes) (skip len : Nat) : Prop where
  start : skip < c.length
  inside : skip + len ≤ c.length

/-- The four operations, and what they say about each other. -/
structure Slices (b : Buffer) : Prop where
  read : ∀ skip len, InRange b.content skip len → b.getData skip len = .ok (slice b.content skip len)
  write : ∀ skip len (source : Bytes), InRange b.content skip len → len ≤ source.length →
    ∃ b', b.setData skip (source.take len) = .ok b' ∧ Overwritten b b' skip (source.take len)
  readTo : ∀ skip len target offset, Another b target → InRange b.content skip len → InRange target.content offset len →
    ∃ target', b.getDataTo skip len target offset = .ok target' ∧
      Overwritten target target' offset (slice b.content skip len)
  writeFrom : ∀ skip len source offset, Another b source → InRange b.content skip len →
    InRange source.content offset len → ∃ b', b.setDataFrom skip len source offset = .ok b' ∧
      Overwritten b b' skip (slice source.content offset len)
  back : ∀ skip bytes b', InRange b.content skip bytes.length → b.setData skip bytes = .ok b' →
    b'.getData skip bytes.length = .ok bytes
  backFrom : ∀ skip len source offset b', Another b source → InRange b.content skip len →
    InRange source.content offset len → b.setDataFrom skip len source offset = .ok b' →
    b'.getData skip len = source.getData offset len
  apart : ∀ skip bytes b' i n, InRange b.content skip bytes.length → InRange b.content i n →
    i + n ≤ skip ∨ skip + bytes.length ≤ i → b.setData skip bytes = .ok b' → b'.getData i n = b.getData i n
  apartFrom : ∀ skip len source offset b' i n, Another b source → InRange b.content skip len →
    InRange source.content offset len → InRange b.content i n → i + n ≤ skip ∨ skip + len ≤ i →
    b.setDataFrom skip len source offset = .ok b' → b'.getData i n = b.getData i n
  commute : ∀ i one j two, InRange b.content i one.length → InRange b.content j two.length →
    j + two.length ≤ i ∨ i + one.length ≤ j → ∃ b₁ b₁₂ b₂ b₂₁, b.setData i one = .ok b₁ ∧ b₁.setData j two = .ok b₁₂ ∧
      b.setData j two = .ok b₂ ∧ b₂.setData i one = .ok b₂₁ ∧ b₁₂.content = b₂₁.content

section Operations
variable {skip len offset : Nat} (wf : b.WellFormed)
include wf

theorem read_slice (range : InRange b.content skip len) : b.getData skip len = .ok (slice b.content skip len) := by
  have length := wf.length_content
  apply wf.getData_eq
  · exact length ▸ range.start
  · exact length ▸ range.inside

theorem write_slice {bytes : Bytes} (range : InRange b.content skip bytes.length) :
    ∃ b', b.setData skip bytes = .ok b' ∧ Overwritten b b' skip bytes := by
  have length := wf.length_content
  apply wf.setData_overwritten
  · exact length ▸ range.start
  · exact length ▸ range.inside

theorem copy_slice {target : Buffer} (wt : target.WellFormed) (range : InRange b.content skip len)
    (rangeT : InRange target.content offset len) :
    ∃ target', b.getDataTo skip len target offset = .ok target' ∧
      Overwritten target target' offset (slice b.content skip len) := by
  have length := wf.length_content
  have lengthT := wt.length_content
  apply wf.getDataTo_eq wt
  · exact length ▸ range.start
  · exact length ▸ range.inside
  · exact lengthT ▸ rangeT.start
  · exact lengthT ▸ rangeT.inside

end Operations

/-- An overwritten Buffer has the ranges it had. -/
theorem range_overwritten (wf : b.WellFormed) {b' : Buffer} {skip i n : Nat} {bytes : Bytes}
    (written : Overwritten b b' skip bytes) (range : InRange b.content i n) : InRange b'.content i n := by
  have same : b'.content.length = b.content.length := by
    rw [written.wf.length_content, wf.length_content, written.size]
  exact ⟨same ▸ range.start, same ▸ range.inside⟩

/-- What was written is read back. -/
theorem read_overwritten (wf : b.WellFormed) {b' : Buffer} {skip : Nat} {bytes : Bytes}
    (written : Overwritten b b' skip bytes) (range : InRange b.content skip bytes.length) :
    b'.getData skip bytes.length = .ok bytes := by
  rw [read_slice written.wf (range_overwritten wf written range), written.content, slice_splice_self range.inside]

/-- What is elsewhere stays. -/
theorem read_apart (wf : b.WellFormed) {b' : Buffer} {skip i n : Nat} {bytes : Bytes}
    (written : Overwritten b b' skip bytes) (range : InRange b.content skip bytes.length)
    (other : InRange b.content i n) (apart : i + n ≤ skip ∨ skip + bytes.length ≤ i) :
    b'.getData i n = b.getData i n := by
  rw [read_slice written.wf (range_overwritten wf written other), read_slice wf other, written.content,
    slice_splice_apart range.inside apart]

theorem get_set_data_slices (b : Buffer) (wf : b.WellFormed) : Slices b := by
  constructor
  · intro skip len range
    exact read_slice wf range
  · intro skip len source range enough
    have length : (source.take len).length = len := by
      rw [List.length_take]
      omega
    apply write_slice wf
    rwa [length]
  · intro skip len target offset another range rangeT
    exact copy_slice wf another.wf range rangeT
  · intro skip len source offset another range rangeS
    exact copy_slice another.wf wf rangeS range
  · intro skip bytes b' range ran
    obtain ⟨b₁, wrote, written⟩ := write_slice wf range
    obtain rfl : b₁ = b' := Except.ok.inj (wrote.symm.trans ran)
    exact read_overwritten wf written range
  · intro skip len source offset b' another range rangeS ran
    obtain ⟨b₁, wrote, written⟩ := copy_slice another.wf wf rangeS range
    obtain rfl : b₁ = b' := Except.ok.inj (wrote.symm.trans ran)
    have length : (slice source.content offset len).length = len := length_slice rangeS.inside
    have back := read_overwritten wf written (by rwa [length])
    rw [read_slice another.wf rangeS]
    rwa [length] at back
  · intro skip bytes b' i n range other apart ran
    obtain ⟨b₁, wrote, written⟩ := write_slice wf range
    obtain rfl : b₁ = b' := Except.ok.inj (wrote.symm.trans ran)
    exact read_apart wf written range other apart
  · intro skip len source offset b' i n another range rangeS other apart ran
    obtain ⟨b₁, wrote, written⟩ := copy_slice another.wf wf rangeS range
    obtain rfl : b₁ = b' := Except.ok.inj (wrote.symm.trans ran)
    have length : (slice source.content offset len).length = len := length_slice rangeS.inside
    apply read_apart wf written (by rwa [length]) other
    rwa [length]
  · intro i one j two rangeI rangeJ apart
    obtain ⟨b₁, wroteI, writtenI⟩ := write_slice wf rangeI
    obtain ⟨b₂, wroteJ, writtenJ⟩ := write_slice wf rangeJ
    obtain ⟨b₁₂, wroteIJ, writtenIJ⟩ := write_slice writtenI.wf (range_overwritten wf writtenI rangeJ)
    obtain ⟨b₂₁, wroteJI, writtenJI⟩ := write_slice writtenJ.wf (range_overwritten wf writtenJ rangeI)
    refine ⟨b₁, b₁₂, b₂, b₂₁, wroteI, wroteIJ, wroteJ, wroteJI, ?_⟩
    rw [writtenIJ.content, writtenJI.content, writtenI.content, writtenJ.content]
    exact splice_comm rangeI.inside rangeJ.inside apart

/-- Two chunks, one of them with bytes in front of `offset_`. -/
theorem get_set_data_slices_two_chunks :
    Slices ⟨[⟨0, [9, 7, 8], 1, 2⟩, ⟨1, [6, 5, 4], 0, 2⟩], some 1, 4⟩ := by
  apply get_set_data_slices
  constructor
  · intro c member
    rcases List.mem_cons.mp member with rfl | last
    · exact ⟨by decide, by decide⟩
    · rw [List.mem_singleton.mp last]
      exact ⟨by decide, by decide⟩
  · decide
  · rfl
  · rfl

end LibNekit.Guarantees.SliceAccess
