import LibNekit.Source.Buffer.WellFormed

/-!
# Insertion

Every branch of `Insert`, `InsertFront` and `InsertBack`: linking a whole chain
in, splitting a chunk around it, and reusing spare capacity in front of or
behind a chunk. `Holds` is the common postcondition: a well-formed receiver with
the stated content whose chunks are old ones or freshly allocated.
-/
namespace LibNekit.Source

open LibNekit.Library.Rope

namespace Buffer

structure Holds (next next' : Nat) (old : List Nat) (b : Buffer) (bytes : Bytes) : Prop where
  wf : b.WellFormed
  content : b.content = bytes
  alloc : Allocates next next' old b

theorem Holds.of_addrs {next : Nat} {old : List Nat} {b : Buffer} {bytes : Bytes}
    (wf : b.WellFormed) (content : b.content = bytes) (held : ∀ a ∈ b.addrs, a ∈ old) :
    Holds next next old b bytes :=
  ⟨wf, content, Nat.le_refl _, fun a member => Or.inl (held a member)⟩

theorem Holds.mono {next next' : Nat} {old old' : List Nat} {b : Buffer} {bytes : Bytes}
    (h : Holds next next' old b bytes) (sub : ∀ a ∈ old, a ∈ old' ∨ (next ≤ a ∧ a < next')) :
    Holds next next' old' b bytes :=
  ⟨h.wf, h.content, h.alloc.counter, fun a member => by
    rcases h.alloc.origin a member with held | fresh
    · exact sub a held
    · exact Or.inr fresh⟩

/-! ## Construction -/

theorem make_holds (next size : Nat) :
    ∃ next' b, make next size = (next', b) ∧
      Holds next next' [] b (List.replicate size 0) := by
  by_cases zero : size = 0
  · subst zero
    exact ⟨next, empty, rfl, .of_addrs empty_wellFormed rfl (by simp)⟩
  · refine ⟨next + 1, _, if_pos zero, ⟨?_, by simp [content], by omega, ?_⟩⟩
    · exact ⟨by simpa using Buf.make_ok (by omega), by simp [addrs], by simp, rfl⟩
    · simp [addrs]

/-! ## Linking chains -/

theorem WellFormed.setNext_tail {x : Buffer} (wf : x.WellFormed) (nonempty : x.head ≠ [])
    (after : List Buf) :
    ∃ last, x.tail = some last ∧ setNext x.head last after = .ok (x.head ++ after) := by
  obtain ⟨init, last, split, tail, others⟩ := wf.snoc nonempty
  refine ⟨last.addr, tail, ?_⟩
  rw [split, setNext_last after others]
  simp

/-- Two disjoint well-formed chains linked one behind the other. -/
theorem append_wellFormed {left right : Buffer} (wl : left.WellFormed) (wr : right.WellFormed)
    (disjoint : ∀ a ∈ left.addrs, a ∉ right.addrs) :
    WellFormed ⟨left.head ++ right.head,
      if right.tail.isNone then left.tail else right.tail, left.size + right.size⟩ where
  ok := by
    intro c member
    rcases List.mem_append.mp member with inLeft | inRight
    · exact wl.ok c inLeft
    · exact wr.ok c inRight
  distinct := by
    simp only [addrs, List.map_append]
    refine List.nodup_append.mpr ⟨wl.distinct, wr.distinct, ?_⟩
    rintro a inLeft _ inRight rfl
    exact disjoint a inLeft inRight
  size_eq := by simp [wl.size_eq, wr.size_eq]
  tail_eq := by
    rw [wl.tail_eq, wr.tail_eq]
    cases eq : right.head.getLast? with
    | none => simp [List.getLast?_eq_none_iff.mp eq]
    | some last => simp [List.getLast?_append, eq]

theorem append_content (left right : Buffer) (tail : Option Nat) (size : Nat) :
    content ⟨left.head ++ right.head, tail, size⟩ = left.content ++ right.content := by
  simp [content]

variable {next : Nat} {b x : Buffer}

/-- An empty argument is left as it is, which is also what moving `head_` out of
it would leave. -/
theorem WellFormed.movedOut_empty (wf : x.WellFormed) (zero : x.size = 0) : x.movedOut = x := by
  have null := wf.size_eq_zero.mp zero
  cases x
  simp_all [movedOut]

theorem insertFrontBuffer_holds (next : Nat) (wb : b.WellFormed) (wx : x.WellFormed)
    (disjoint : ∀ a ∈ b.addrs, a ∉ x.addrs) :
    ∃ b', b.insertFrontBuffer x = .ok (b', x.movedOut) ∧
      Holds next next (b.addrs ++ x.addrs) b' (x.content ++ b.content) := by
  unfold insertFrontBuffer
  by_cases zero : x.size = 0
  · rw [if_pos zero]
    have := wx.size_eq_zero.mp zero
    exact ⟨_, by rw [wx.movedOut_empty zero], .of_addrs wb (by simp [content, this]) (by simp +contextual)⟩
  · rw [if_neg zero]
    have nonempty : x.head ≠ [] := fun null => zero (wx.size_eq_zero.mpr null)
    obtain ⟨last, tail, linked⟩ := wx.setNext_tail nonempty b.head
    refine ⟨⟨x.head ++ b.head, if b.tail.isNone then x.tail else b.tail, b.size + x.size⟩,
      by simp [tail, linked], .of_addrs ?_ (append_content x b _ _) ?_⟩
    · rw [Nat.add_comm]
      exact append_wellFormed wx wb fun a inX inB => disjoint a inB inX
    · simp [addrs, or_comm]

theorem insertBackBuffer_holds (next : Nat) (wb : b.WellFormed) (wx : x.WellFormed)
    (disjoint : ∀ a ∈ b.addrs, a ∉ x.addrs) :
    ∃ b', b.insertBackBuffer x = .ok (b', x.movedOut) ∧
      Holds next next (b.addrs ++ x.addrs) b' (b.content ++ x.content) := by
  unfold insertBackBuffer
  by_cases zero : x.size = 0
  · rw [if_pos zero]
    have := wx.size_eq_zero.mp zero
    exact ⟨_, by rw [wx.movedOut_empty zero], .of_addrs wb (by simp [content, this]) (by simp +contextual)⟩
  · rw [if_neg zero]
    have nonempty : x.head ≠ [] := fun null => zero (wx.size_eq_zero.mpr null)
    have xTail : x.tail.isNone = false := by
      rw [wx.tail_eq]
      simpa [List.getLast?_eq_none_iff] using nonempty
    have linked := append_wellFormed wb wx disjoint
    simp only [xTail, Bool.false_eq_true, if_false] at linked
    by_cases null : b.head = []
    · have bSize : b.size = 0 := wb.size_eq_zero.mpr null
      rw [if_neg (by simp [null])]
      simp only [null, List.nil_append] at linked
      exact ⟨_, rfl, .of_addrs linked (by simp [content, null])
        fun a member => List.mem_append_right _ member⟩
    · rw [if_pos null]
      obtain ⟨last, tail, eq⟩ := wb.setNext_tail null x.head
      refine ⟨⟨b.head ++ x.head, x.tail, b.size + x.size⟩, by simp [tail, eq],
        .of_addrs linked (append_content b x _ _) (by simp [addrs])⟩

/-! ## Splitting -/

/-- Building the postcondition from the addresses of the new chain: old ones, in
any order, and freshly allocated ones. -/
theorem Holds.of_perm {next' : Nat} {old : List Nat} (fresh : List Nat) {b' : Buffer} {bytes : Bytes}
    (ok : ∀ c ∈ b'.head, c.Ok) (size_eq : b'.size = total Buf.size b'.head)
    (tail_eq : b'.tail = b'.head.getLast?.map Buf.addr) (content_eq : b'.content = bytes)
    (perm : b'.addrs.Perm (fresh ++ old)) (oldDistinct : old.Nodup)
    (oldBelow : ∀ a ∈ old, a < next) (counter : next ≤ next') (freshDistinct : fresh.Nodup)
    (freshRange : ∀ a ∈ fresh, next ≤ a ∧ a < next') : Holds next next' old b' bytes where
  wf := by
    refine ⟨ok, perm.nodup_iff.mpr (List.nodup_append.mpr ⟨freshDistinct, oldDistinct, ?_⟩),
      size_eq, tail_eq⟩
    rintro a isFresh _ isOld rfl
    have := freshRange a isFresh
    have := oldBelow a isOld
    omega
  content := content_eq
  alloc := by
    refine ⟨counter, fun a member => ?_⟩
    rcases List.mem_append.mp (perm.mem_iff.mp member) with isFresh | isOld
    · exact Or.inr (freshRange a isFresh)
    · exact Or.inl isOld

/-- Splitting a chunk around an inserted chain. -/
theorem insertBufAt_holds (wb : b.WellFormed) (wx : x.WellFormed) (xNonempty : x.head ≠ [])
    (disjoint : ∀ a ∈ b.addrs, a ∉ x.addrs) (bBelow : b.Below next) (xBelow : x.Below next)
    {c : Cursor Buf} (split : b.head = c.pieces) (positive : 0 < c.pos)
    (inside : c.pos ≤ c.current.size) :
    ∃ next' b', b.insertBufAt next c x c.pos = .ok (next', b', x.movedOut) ∧
      Holds next next' (b.addrs ++ x.addrs) b'
        (c.before.flatMap Buf.bytes ++ c.current.bytes.take c.pos ++ x.content ++
          (c.current.bytes.drop c.pos ++ c.after.flatMap Buf.bytes)) := by
  have chainOk : ∀ d ∈ c.pieces, d.Ok := split ▸ wb.ok
  have okCurrent : c.current.Ok := chainOk _ (by simp [Cursor.pieces])
  have okAfter : ∀ d ∈ c.after, d.Ok := fun d member => chainOk d (by simp [Cursor.pieces, member])
  obtain ⟨next', c', rest, broke, okC', addrC', sizeC', bytesC', okRest, totalRest, bytesRest, shape⟩ :=
    Buf.brk_spec next okCurrent okAfter positive inside
  obtain ⟨last, tail, linked⟩ := wx.setNext_tail xNonempty rest
  have bAddrs : b.addrs = c.before.map Buf.addr ++ c.current.addr :: c.after.map Buf.addr := by
    simp [addrs, split, Cursor.pieces]
  have bTail : b.tail = (c.after.getLast?.getD c.current).addr := by
    rw [wb.tail_eq, split]
    cases eq : c.after.getLast? with
    | none => simp [Cursor.pieces, List.getLast?_append, List.getLast?_cons, eq]
    | some d => simp [Cursor.pieces, List.getLast?_append, List.getLast?_cons, eq]
  -- `buf == tail_` exactly when nothing follows the chunk that was split.
  have isTail : some c'.addr = b.tail ↔ c.after = [] := by
    rw [addrC', bTail]
    constructor
    · intro equal
      cases getLast : c.after.getLast? with
      | none => exact List.getLast?_eq_none_iff.mp getLast
      | some d =>
        have member := List.mem_of_getLast? getLast
        have distinct := wb.distinct
        rw [bAddrs] at distinct
        have notBehind := (List.nodup_cons.mp (List.nodup_append.mp distinct).2.1).1
        simp only [getLast, Option.getD_some, Option.some.injEq] at equal
        exact absurd (equal ▸ List.mem_map_of_mem member) notBehind
    · rintro null
      simp [null]
  have newOk : ∀ d ∈ c.before ++ c' :: (x.head ++ rest), d.Ok := by
    intro d member
    simp only [List.mem_append, List.mem_cons] at member
    rcases member with inBefore | rfl | inX | inRest
    · exact chainOk d (by simp [Cursor.pieces, inBefore])
    · exact okC'
    · exact wx.ok d inX
    · exact okRest d inRest
  have newSize : b.size + x.size = total Buf.size (c.before ++ c' :: (x.head ++ rest)) := by
    rw [wb.size_eq, wx.size_eq, split]
    simp only [Cursor.pieces, total_append, total_cons, sizeC', totalRest]
    clear shape
    omega
  have oldDistinct : (b.addrs ++ x.addrs).Nodup :=
    List.nodup_append.mpr ⟨wb.distinct, wx.distinct,
      fun a inB _ inX equal => disjoint a inB (equal ▸ inX)⟩
  have oldBelow : ∀ a ∈ b.addrs ++ x.addrs, a < next := by
    intro a member
    rcases List.mem_append.mp member with inB | inX
    · exact bBelow a inB
    · exact xBelow a inX
  refine ⟨next', ⟨c.before ++ c' :: (x.head ++ rest), _, b.size + x.size⟩,
    by simp [insertBufAt, broke, tail, linked]; rfl, ?_⟩
  have content_eq (t : Option Nat) (n : Nat) :
      content ⟨c.before ++ c' :: (x.head ++ rest), t, n⟩ =
        c.before.flatMap Buf.bytes ++ c.current.bytes.take c.pos ++ x.content ++
          (c.current.bytes.drop c.pos ++ c.after.flatMap Buf.bytes) := by
    simp [content, bytesC', bytesRest]
  rcases shape with ⟨_, rfl, rfl⟩ | ⟨_, rfl, d, addrD, rfl⟩
  · refine Holds.of_perm [] newOk newSize ?_ (content_eq _ _) ?_ oldDistinct oldBelow
      (Nat.le_refl _) (by simp) (by simp)
    · by_cases null : c.after = []
      · rw [if_pos (isTail.mpr null), null]
        have lastX : x.head.getLast?.map Buf.addr = some last := wx.tail_eq ▸ tail
        obtain ⟨e, getLast, addrE⟩ := Option.map_eq_some_iff.mp lastX
        simp [List.getLast?_append, List.getLast?_cons, getLast, addrE]
      · rw [if_neg (isTail.not.mpr null), bTail]
        simp [List.getLast?_append, List.getLast?_cons, List.getLast?_eq_some_getLast null]
    · rw [bAddrs]
      refine List.perm_iff_count.mpr fun a => ?_
      simp [addrs, addrC', List.count_append, List.count_cons]
      omega
  · refine Holds.of_perm [next] newOk newSize ?_ (content_eq _ _) ?_ oldDistinct oldBelow
      (by omega) (by simp) (by simp)
    · by_cases null : c.after = []
      · rw [if_pos (isTail.mpr null), null]
        simp [List.getLast?_append, List.getLast?_cons]
      · rw [if_neg (isTail.not.mpr null), bTail]
        simp [List.getLast?_append, List.getLast?_cons, List.getLast?_eq_some_getLast null]
    · rw [bAddrs]
      refine List.perm_iff_count.mpr fun a => ?_
      simp [addrs, addrC', addrD, List.count_append, List.count_cons]
      omega

/-- `Insert(Buffer&&, pos)` places the chain at `pos`. -/
theorem insertBuffer_holds (wb : b.WellFormed) (wx : x.WellFormed)
    (disjoint : ∀ a ∈ b.addrs, a ∉ x.addrs) (bBelow : b.Below next) (xBelow : x.Below next)
    {pos : Nat} (inside : pos ≤ b.size) :
    ∃ next' b', b.insertBuffer next x pos = .ok (next', b', x.movedOut) ∧
      Holds next next' (b.addrs ++ x.addrs) b'
        (b.content.take pos ++ x.content ++ b.content.drop pos) := by
  have len := wb.length_content
  unfold insertBuffer
  rw [boostAssert_of inside]
  by_cases zero : x.size = 0
  · have null := wx.size_eq_zero.mp zero
    exact ⟨next, b, by simp [zero, wx.movedOut_empty zero], .of_addrs wb (by simp [content, null]) (by simp +contextual)⟩
  by_cases back : pos = b.size
  · obtain ⟨b', run, holds⟩ := insertBackBuffer_holds next wb wx disjoint
    refine ⟨next, b', by simp [zero, back, run], ?_⟩
    rwa [List.take_of_length_le (by omega), List.drop_of_length_le (by omega), List.append_nil]
  by_cases front : pos = 0
  · obtain ⟨b', run, holds⟩ := insertFrontBuffer_holds next wb wx disjoint
    subst front
    exact ⟨next, b', by simp [zero, back, run], by simpa using holds⟩
  · obtain ⟨c, walked, split, _, positive, bound, before, behind⟩ :=
      wb.walkTo_beyond (Nat.pos_of_ne_zero front) inside
    obtain ⟨next', b', run, holds⟩ := insertBufAt_holds wb wx
      (fun null => zero (wx.size_eq_zero.mpr null)) disjoint bBelow xBelow split positive bound
    exact ⟨next', b', by simp [zero, back, front, walked, run], before ▸ behind ▸ holds⟩

/-! ## Gaps -/

/-- `b` with `len` unspecified bytes inserted at `pos`. -/
def GapAt (b : Buffer) (pos len : Nat) (bytes : Bytes) : Prop :=
  ∃ gap : Bytes, gap.length = len ∧ bytes = b.content.take pos ++ gap ++ b.content.drop pos

/-- Inserting some of one list into another adds the lengths. -/
theorem length_insert (bytes inserted : Bytes) (pos : Nat) :
    (bytes.take pos ++ inserted ++ bytes.drop pos).length = bytes.length + inserted.length := by
  simp only [List.length_append, List.length_take, List.length_drop]
  omega

theorem length_gap {b : Buffer} {pos len : Nat} {bytes : Bytes} (wf : b.WellFormed)
    (gap : GapAt b pos len bytes) : bytes.length = b.size + len := by
  obtain ⟨filler, fillerLen, rfl⟩ := gap
  rw [length_insert, fillerLen, wf.length_content]

theorem below_not_fresh {next' len : Nat} (wb : b.Below next)
    (holds : Holds next next' [] x (List.replicate len 0)) :
    (∀ a ∈ b.addrs, a ∉ x.addrs) ∧ b.Below next' ∧ x.Below next' := by
  have alloc := holds.alloc
  refine ⟨fun a inB inX => ?_, wb.mono alloc.counter, alloc.below (by simp)⟩
  have := wb a inB
  have := (alloc.origin a inX).resolve_left (by simp)
  omega

/-- Chain the allocation of the gap and the linking of it. -/
theorem Holds.after_make {next₁ next' len : Nat} {b' : Buffer} {bytes : Bytes}
    (made : Holds next next₁ [] x (List.replicate len 0))
    (linked : Holds next₁ next' (b.addrs ++ x.addrs) b' bytes) :
    Holds next next' b.addrs b' bytes where
  wf := linked.wf
  content := linked.content
  alloc := by
    have first := made.alloc
    have second := linked.alloc
    refine ⟨Nat.le_trans first.counter second.counter, fun a member => ?_⟩
    rcases second.origin a member with held | fresh
    · rcases List.mem_append.mp held with inB | inX
      · exact Or.inl inB
      · have := (first.origin a inX).resolve_left (by simp)
        have := second.counter
        exact Or.inr (by omega)
    · have := first.counter
      exact Or.inr (by omega)

theorem Holds.of_regrown (wb : b.WellFormed) {head : List Buf} {n : Nat} {bytes : Bytes}
    (same : head.map Buf.addr = b.addrs) (ok : ∀ c ∈ head, c.Ok) (size : n = total Buf.size head)
    (content_eq : head.flatMap Buf.bytes = bytes) :
    Holds next next b.addrs ⟨head, b.tail, n⟩ bytes :=
  .of_addrs (wb.regrown same ok size) content_eq fun _ member => same ▸ member

theorem insertFrontNew_holds (wb : b.WellFormed) (bBelow : b.Below next) (size : Nat) :
    ∃ next' b' bytes, b.insertFrontNew next size = .ok (next', b') ∧
      Holds next next' b.addrs b' bytes ∧ GapAt b 0 size bytes := by
  obtain ⟨next', x, made, xHolds⟩ := make_holds next size
  obtain ⟨disjoint, -, -⟩ := below_not_fresh bBelow xHolds
  obtain ⟨b', run, holds⟩ := insertFrontBuffer_holds next' wb xHolds.wf disjoint
  exact ⟨next', b', _, by simp [insertFrontNew, made, run], xHolds.after_make holds, x.content,
    by simp [xHolds.content], by simp⟩

/-- `InsertFront(size)`: space in front of the first chunk, or a new chunk. -/
theorem insertFrontSize_holds (wb : b.WellFormed) (bBelow : b.Below next) (size : Nat) :
    ∃ next' b' bytes, b.insertFrontSize next size = .ok (next', b') ∧
      Holds next next' b.addrs b' bytes ∧ GapAt b 0 size bytes := by
  unfold insertFrontSize
  split
  · rename_i c rest head
    split_ifs with room
    · have okC := wb.ok c (by simp [head])
      obtain ⟨okGrown, gap, gapLen, bytes⟩ := Buf.grow_front okC room
      refine ⟨next, _, gap ++ b.content, rfl,
        .of_regrown wb (by simp [addrs, head]) ?_ ?_ ?_, gap, gapLen, by simp⟩
      · intro d member
        rcases List.mem_cons.mp member with rfl | inRest
        · exact okGrown
        · exact wb.ok d (by simp [head, inRest])
      · rw [wb.size_eq, head]
        simp only [total_cons]
        omega
      · simp [content, head, bytes]
    · exact insertFrontNew_holds wb bBelow size
  · exact insertFrontNew_holds wb bBelow size

theorem insertBackNew_holds (wb : b.WellFormed) (bBelow : b.Below next) (size : Nat) :
    ∃ next' b' bytes, b.insertBackNew next size = .ok (next', b') ∧
      Holds next next' b.addrs b' bytes ∧ GapAt b b.size size bytes := by
  have whole := wb.length_content
  obtain ⟨next', x, made, xHolds⟩ := make_holds next size
  obtain ⟨disjoint, -, -⟩ := below_not_fresh bBelow xHolds
  obtain ⟨b', run, holds⟩ := insertBackBuffer_holds next' wb xHolds.wf disjoint
  refine ⟨next', b', _, by simp [insertBackNew, made, run], xHolds.after_make holds, x.content,
    by simp [xHolds.content], ?_⟩
  rw [List.take_of_length_le (by omega), List.drop_of_length_le (by omega), List.append_nil]

/-- `InsertBack(size)`: space behind the last chunk, or a new chunk. -/
theorem insertBackSize_holds (wb : b.WellFormed) (bBelow : b.Below next) (size : Nat) :
    ∃ next' b' bytes, b.insertBackSize next size = .ok (next', b') ∧
      Holds next next' b.addrs b' bytes ∧ GapAt b b.size size bytes := by
  have whole := wb.length_content
  unfold insertBackSize
  split
  · rename_i last tail
    have nonempty : b.head ≠ [] := fun null => by simp [wb.tail_eq, null] at tail
    obtain ⟨init, l, split, tail', others⟩ := wb.snoc nonempty
    obtain rfl : l.addr = last := by simpa [tail] using tail'.symm
    have read : readAt b.head l.addr = .ok l := split ▸ readAt_last others
    simp only [read, ok_bind]
    split_ifs with room
    · have okL := wb.ok l (by simp [split])
      obtain ⟨okGrown, gap, gapLen, bytes⟩ := Buf.grow_back okL room
      refine ⟨next, ⟨init ++ [{ l with size := l.size + size }], b.tail, b.size + size⟩,
        b.content ++ gap, by simp [split, updateAt_last _ others],
        .of_regrown wb (by simp [addrs, split]) ?_ ?_ ?_, gap, gapLen, ?_⟩
      · intro d member
        rcases List.mem_append.mp member with inInit | isLast
        · exact wb.ok d (by simp [split, inInit])
        · obtain rfl := List.mem_singleton.mp isLast
          exact okGrown
      · rw [wb.size_eq, split]
        simp only [total_append, total_cons, total_nil]
        omega
      · simp [content, split, bytes]
      · rw [List.take_of_length_le (by omega), List.drop_of_length_le (by omega), List.append_nil]
    · exact insertBackNew_holds wb bBelow size
  · exact insertBackNew_holds wb bBelow size

theorem insertNewAt_holds (wb : b.WellFormed) (bBelow : b.Below next) {len skip : Nat}
    (some_len : len ≠ 0) {c : Cursor Buf} (split : b.head = c.pieces) (positive : 0 < c.pos)
    (inside : c.pos ≤ c.current.size)
    (before : b.content.take skip = c.before.flatMap Buf.bytes ++ c.current.bytes.take c.pos)
    (behind : b.content.drop skip = c.current.bytes.drop c.pos ++ c.after.flatMap Buf.bytes) :
    ∃ next' b' bytes, b.insertNewAt next c len = .ok (next', b') ∧
      Holds next next' b.addrs b' bytes ∧ GapAt b skip len bytes := by
  obtain ⟨next₁, x, made, xHolds⟩ := make_holds next len
  obtain ⟨disjoint, bBelow₁, xBelow⟩ := below_not_fresh bBelow xHolds
  have xNonempty : x.head ≠ [] := fun null => by
    have contentLen := congrArg List.length xHolds.content
    simp [content, null] at contentLen
    omega
  obtain ⟨next', b', run, holds⟩ := insertBufAt_holds wb xHolds.wf xNonempty disjoint bBelow₁
    xBelow split positive inside
  exact ⟨next', b', _, by simp [insertNewAt, made, run], xHolds.after_make holds, x.content,
    by simp [xHolds.content], by rw [before, behind]⟩

/-- The reuse branch keeps the nodes and opens the gap between the two chunks. -/
theorem useSpare_some {current : Buf} {after chain : List Buf} {len : Nat} (okCurrent : current.Ok)
    (okAfter : ∀ d ∈ after, d.Ok) (reused : useSpare current after len = some chain) :
    chain.map Buf.addr = current.addr :: after.map Buf.addr ∧ (∀ d ∈ chain, d.Ok) ∧
      total Buf.size chain = current.size + len + total Buf.size after ∧
      ∃ gap : Bytes, gap.length = len ∧
        chain.flatMap Buf.bytes = current.bytes ++ gap ++ after.flatMap Buf.bytes := by
  obtain ⟨okGrown, gap₁, gapLen₁, bytes₁⟩ := Buf.grow_back okCurrent (Nat.min_le_right len _)
  unfold useSpare at reused
  split at reused
  · rename_i following rest
    dsimp only at reused
    split at reused
    · rename_i room
      have okFollowing := okAfter following (by simp)
      obtain ⟨okFollowing', gap₂, gapLen₂, bytes₂⟩ := Buf.grow_front okFollowing
        (n := len - min len (current.capacity - current.offset - current.size)) (by omega)
      cases reused
      -- With nothing left over the update of the next chunk is the identity.
      split
      · refine ⟨by simp, ?_, by simp only [total_cons]; omega, gap₁ ++ gap₂,
          by simp only [List.length_append, gapLen₁, gapLen₂]; omega, by simp [bytes₁, bytes₂]⟩
        simp only [List.mem_cons, forall_eq_or_imp] at okAfter ⊢
        exact ⟨okGrown, okFollowing', okAfter.2⟩
      · refine ⟨by simp, ?_, by simp only [total_cons]; omega, gap₁, by omega, by simp [bytes₁]⟩
        simp only [List.mem_cons, forall_eq_or_imp] at okAfter ⊢
        exact ⟨okGrown, okAfter⟩
    · cases reused
  · dsimp only at reused
    split at reused
    · cases reused
      exact ⟨by simp, by simpa using okGrown, by simp only [total_cons, total_nil]; omega,
        gap₁, by omega, by simp [bytes₁]⟩
    · cases reused

/-- `Insert(skip, len)` opens a gap of `len` bytes at `skip`, wherever the space
comes from. -/
theorem insertSize_holds (wb : b.WellFormed) (bBelow : b.Below next) {skip : Nat}
    (inside : skip ≤ b.size) (len : Nat) :
    ∃ next' b' bytes, b.insertSize next skip len = .ok (next', b') ∧
      Holds next next' b.addrs b' bytes ∧ GapAt b skip len bytes := by
  unfold insertSize
  rw [boostAssert_of inside]
  by_cases zero : len = 0
  · exact ⟨next, b, b.content, by simp [zero], .of_addrs wb rfl (by simp), [], by simp [zero], by simp⟩
  by_cases back : skip = b.size
  · obtain ⟨next', b', bytes, run, holds, gap⟩ := insertBackSize_holds wb bBelow len
    exact ⟨next', b', bytes, by simp [zero, back, run], holds, back ▸ gap⟩
  by_cases front : skip = 0
  · obtain ⟨next', b', bytes, run, holds, gap⟩ := insertFrontSize_holds wb bBelow len
    exact ⟨next', b', bytes, by simp [zero, front, front ▸ back, run], holds, front ▸ gap⟩
  obtain ⟨c, walked, split, sum, positive, bound, before, behind⟩ :=
    wb.walkTo_beyond (Nat.pos_of_ne_zero front) inside
  have fresh := insertNewAt_holds wb bBelow zero split positive bound before behind
  have okCurrent : c.current.Ok := wb.ok _ (by simp [split, Cursor.pieces])
  have okAfter : ∀ d ∈ c.after, d.Ok := fun d member =>
    wb.ok d (by simp [split, Cursor.pieces, member])
  simp only [ok_bind, if_neg zero, if_neg back, if_neg front, walked]
  by_cases atEnd : c.pos = c.current.size
  · rw [if_pos atEnd]
    have len_bytes := Buf.length_bytes okCurrent
    have allOfIt : c.current.bytes.take c.pos = c.current.bytes := List.take_of_length_le (by omega)
    have nothing : c.current.bytes.drop c.pos = [] := List.drop_of_length_le (by omega)
    rw [allOfIt] at before
    rw [nothing, List.nil_append] at behind
    cases reused : useSpare c.current c.after len with
    | none => exact fresh
    | some chain =>
      obtain ⟨same, ok, totalChain, gap, gapLen, bytes⟩ := useSpare_some okCurrent okAfter reused
      refine ⟨next, _, _, rfl,
        .of_regrown wb (by simp [addrs, split, Cursor.pieces, same]) ?_ ?_ rfl, gap, gapLen, ?_⟩
      · intro d member
        rcases List.mem_append.mp member with inBefore | inChain
        · exact wb.ok d (by simp [split, Cursor.pieces, inBefore])
        · exact ok d inChain
      · rw [wb.size_eq, split]
        simp only [Cursor.pieces, total_append, total_cons, totalChain]
        omega
      · rw [before, behind]
        simp [bytes]
  · rw [if_neg atEnd]
    exact fresh

end Buffer

end LibNekit.Source
