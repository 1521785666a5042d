import LibNekit.Source.Buffer.Shrink
import LibNekit.Source.Buffer.Slices
import LibNekit.Source.Buffer.Transfer

/-!
# One call of a Buffer

The operations of `Buffer` with their arguments, what each of them asserts, and what it
leaves behind.
-/
namespace LibNekit.Source.Buffer

/-- `σ` is the state that a walker captures. -/
inductive Call (σ : Type) where
  /-- `b[i]`, read -/
  | index (i : Nat)
  /-- `b[i] = v` -/
  | setIndex (i : Nat) (v : UInt8)
  | insertBuffer (x : Buffer) (pos : Nat)
  | insertSize (skip len : Nat)
  | insertFrontBuffer (x : Buffer)
  | insertFrontSize (size : Nat)
  | insertBackBuffer (x : Buffer)
  | insertBackSize (size : Nat)
  | shrink (skip len : Nat)
  | getData (skip len : Nat)
  | getDataTo (skip len : Nat) (target : Buffer) (offset : Nat)
  | setData (skip : Nat) (source : Bytes)
  | setDataFrom (skip len : Nat) (source : Buffer) (offset : Nat)
  | brk (skip : Nat)
  | walk (walker : Slice → σ → Bool × σ) (start : Nat) (s : σ)
  | findLocation (pointer : BytePtr)

namespace Call

variable {σ : Type}

/-- The assertions at the beginning of each operation, and that `Break` asks for at most the
bytes there are. -/
def Asserts (b : Buffer) : Call σ → Prop
  | index i | setIndex i _ => i < b.size
  | insertBuffer _ pos => pos ≤ b.size
  | insertSize skip _ => skip ≤ b.size
  | insertFrontBuffer _ | insertFrontSize _ | insertBackBuffer _ | insertBackSize _ | findLocation _ => True
  | shrink skip len => skip < b.size ∧ len ≤ b.size ∧ skip + len ≤ b.size
  | getData skip len => skip ≤ b.size ∧ len ≤ b.size ∧ skip + len ≤ b.size
  | getDataTo skip len target offset => (skip < b.size ∧ len ≤ b.size ∧ skip + len ≤ b.size) ∧
      offset ≤ target.size ∧ len ≤ target.size ∧ offset + len ≤ target.size
  | setData skip source => skip < b.size ∧ source.length ≤ b.size ∧ skip + source.length ≤ b.size
  | setDataFrom skip len source offset => (offset < source.size ∧ len ≤ source.size ∧ offset + len ≤ source.size) ∧
      skip ≤ b.size ∧ len ≤ b.size ∧ skip + len ≤ b.size
  | brk skip => skip ≤ b.size
  | walk _ start _ => start ≤ b.size

/-- The Buffer that a `Buffer&&` parameter takes. -/
def moved : Call σ → Option Buffer
  | insertBuffer x _ | insertFrontBuffer x | insertBackBuffer x => some x
  | _ => none

/-- The other Buffer of a call. -/
def argument : Call σ → Option Buffer
  | getDataTo _ _ x _ | setDataFrom _ _ x _ => some x
  | call => call.moved

end Call

/-- `buffers`: the receiver, and the Buffer that is returned or written to. `taken` is what
is left in a `Buffer&&` argument. -/
structure Left where
  next : Nat
  buffers : List Buffer
  taken : Option Buffer := none

def Call.exec {σ : Type} (next : Nat) (b : Buffer) : Call σ → Checked Left
  | index i => do
    let _ ← b.index i
    return ⟨next, [b], none⟩
  | setIndex i v => do return ⟨next, [← b.setIndex i v], none⟩
  | insertBuffer x pos => do
    let (next, b, x) ← b.insertBuffer next x pos
    return ⟨next, [b], some x⟩
  | insertSize skip len => do
    let (next, b) ← b.insertSize next skip len
    return ⟨next, [b], none⟩
  | insertFrontBuffer x => do
    let (b, x) ← b.insertFrontBuffer x
    return ⟨next, [b], some x⟩
  | insertFrontSize size => do
    let (next, b) ← b.insertFrontSize next size
    return ⟨next, [b], none⟩
  | insertBackBuffer x => do
    let (b, x) ← b.insertBackBuffer x
    return ⟨next, [b], some x⟩
  | insertBackSize size => do
    let (next, b) ← b.insertBackSize next size
    return ⟨next, [b], none⟩
  | shrink skip len => do return ⟨next, [← b.shrink skip len], none⟩
  | getData skip len => do
    let _ ← b.getData skip len
    return ⟨next, [b], none⟩
  | getDataTo skip len target offset => do return ⟨next, [b, ← b.getDataTo skip len target offset], none⟩
  | setData skip source => do return ⟨next, [← b.setData skip source], none⟩
  | setDataFrom skip len source offset => do return ⟨next, [← b.setDataFrom skip len source offset, source], none⟩
  | brk skip => do
    let (next, b, out) ← b.brk next skip
    return ⟨next, [b, out], none⟩
  | walk walker start s => do
    let _ ← b.walkInternalChunk (fun slice s => .ok (walker slice s)) start s
    return ⟨next, [b], none⟩
  | findLocation pointer => do
    let _ ← b.findLocation pointer
    return ⟨next, [b], none⟩

/-! ## Where a walk runs off the chain -/

variable {b : Buffer} {σ : Type}

open LibNekit.Library.Rope

/-- The walk to the byte behind the last one follows the null pointer there. -/
theorem WellFormed.walkTo_end (wf : b.WellFormed) : walkTo atOrPast b.head b.size = .error .nullPointer := by
  rw [walkTo, seek_atOrPast_none (Nat.le_of_eq wf.size_eq.symm)]
  rfl

theorem WellFormed.getData_end (wf : b.WellFormed) : b.getData b.size 0 = .error .nullPointer := by
  rw [getData, Nat.add_zero, boostAssert_of (Nat.le_refl _), boostAssert_of (Nat.zero_le _)]
  simp only [ok_bind, wf.walkTo_end, error_bind]

theorem getDataTo_end {target : Buffer} (wt : target.WellFormed) {skip : Nat} (start : skip < b.size) :
    b.getDataTo skip 0 target target.size = .error .nullPointer := by
  rw [getDataTo, Nat.add_zero, Nat.add_zero, boostAssert_of start, boostAssert_of (Nat.zero_le _),
    boostAssert_of (Nat.le_of_lt start), boostAssert_of (Nat.le_refl _), boostAssert_of (Nat.zero_le _)]
  simp only [ok_bind, wt.walkTo_end, error_bind]

/-- `Break(0)` looks for a gap in front of the first chunk, which only `Buf::Break` notices. -/
theorem brk_start (next : Nat) (wf : b.WellFormed) : ∃ fault, b.brk next 0 = .error fault := by
  rw [brk]
  cases head : b.head with
  | nil => exact ⟨.nullPointer, rfl⟩
  | cons c rest =>
    have positive := (wf.ok c (head ▸ List.mem_cons_self)).nonempty
    refine ⟨.assertion, ?_⟩
    have stops : beyond 0 c.size = false := by simp [beyond]
    have differs : ¬0 = c.size := by omega
    simp only [walkTo, seek, stops, Bool.false_eq_true, if_false, deref_some, ok_bind, brkAt, if_neg differs]
    rfl

/-- `Break(size())` returns a Buffer without chunks, whose `tail_` cannot be found. -/
theorem WellFormed.brk_end (next : Nat) (wf : b.WellFormed) (positive : 0 < b.size) :
    b.brk next b.size = .error .nullPointer := by
  obtain ⟨c, walked, split, sum, -, bound, -, -⟩ := wf.walkTo_beyond positive (Nat.le_refl _)
  have okAfter : ∀ d ∈ c.after, d.Ok := fun d member => wf.ok d (split ▸ by simp [Cursor.pieces, member])
  have whole := wf.size_eq
  rw [split, Cursor.pieces, total_append, total_cons] at whole
  have nothing : c.after = [] :=
    (total_eq_zero_iff Buf.size fun d member => (okAfter d member).nonempty).mp (by omega)
  have atEnd : c.pos = c.current.size := by
    rw [nothing, total_nil] at whole
    omega
  rw [brk, walked]
  simp only [ok_bind, brkAt, if_pos atEnd, pure_eq_ok, nothing]
  rfl

/-- Walkers that do not fail make no walk fail. -/
theorem walkLoop_ok (walker : Slice → σ → Bool × σ) (chain : List Buf) (skip : Nat) (s : σ) :
    ∃ s', walkLoop (fun slice s => .ok (walker slice s)) chain skip s = .ok s' := by
  induction chain generalizing skip s with
  | nil => exact ⟨s, rfl⟩
  | cons c rest ih =>
    rw [walkLoop, ok_bind]
    by_cases more : (walker (sliceOf c skip) s).1 = true
    · obtain ⟨s', ran⟩ := ih 0 (walker (sliceOf c skip) s).2
      exact ⟨s', (if_pos more).trans ran⟩
    · exact ⟨_, if_neg more⟩

theorem WellFormed.walk_ok (wf : b.WellFormed) (walker : Slice → σ → Bool × σ) {start : Nat} (inside : start ≤ b.size)
    (s : σ) : ∃ s', b.walkInternalChunk (fun slice s => .ok (walker slice s)) start s = .ok s' := by
  rw [walkInternalChunk, boostAssert_of inside, ok_bind]
  by_cases atEnd : start = b.size
  · exact ⟨s, if_pos atEnd⟩
  · obtain ⟨c, here⟩ := wf.at (Nat.lt_of_le_of_ne inside atEnd)
    rw [if_neg atEnd, here.walked]
    exact walkLoop_ok walker _ _ s

end LibNekit.Source.Buffer
