import LibNekit.Library.Splice
import LibNekit.Source.Buffer.Access

/-!
# Copies from one Buffer to another

The forms of `GetData` and `SetData` that take a Buffer. One cursor walks over the chunks of
the source and one over those of the target; each turn of the loop copies up to the nearest
of three ends.
-/
namespace LibNekit.Source

open LibNekit.Library.Rope LibNekit.Library.Splice

/-- Where a chunk is and where its bytes are in it. -/
def Buf.layout (c : Buf) : Nat × Nat × Nat × Nat := (c.addr, c.offset, c.size, c.capacity)

namespace Buffer

/-- The `while (len)` loop: the target's chunks from `tcurrent` on. A turn that copies fewer
bytes than `len` leaves a chunk, so there are no more turns than chunks. -/
def copyLoop : Nat → List Buf → Nat → List Buf → Nat → Nat → Checked (List Buf)
  | 0, _, _, target, _, len => if len = 0 then .ok target else .error .nullPointer
  | _ + 1, [], _, target, _, len => if len = 0 then .ok target else .error .nullPointer
  | _ + 1, _ :: _, _, [], _, len => if len = 0 then .ok [] else .error .nullPointer
  | turns + 1, s :: sources, skip, t :: targets, offset, len =>
    if len = 0 then .ok (t :: targets)
    else do
      let copyLen := min (s.size - skip) (min len (t.size - offset))
      let t := t.overwrite (t.offset + offset) ((s.data.drop (s.offset + skip)).take copyLen)
      let (source, skip) := if skip + copyLen = s.size then (sources, 0) else (s :: sources, skip + copyLen)
      if offset + copyLen = t.size then
        return t :: (← copyLoop turns source skip targets 0 (len - copyLen))
      else copyLoop turns source skip (t :: targets) (offset + copyLen) (len - copyLen)

/-- `GetData(skip, len, target, offset)`: the target afterwards. -/
def getDataTo (b : Buffer) (skip len : Nat) (target : Buffer) (offset : Nat) : Checked Buffer := do
  boostAssert (skip < b.size)
  boostAssert (len ≤ b.size)
  boostAssert (skip + len ≤ b.size)
  boostAssert (offset ≤ target.size)
  boostAssert (len ≤ target.size)
  boostAssert (offset + len ≤ target.size)
  let t ← walkTo atOrPast target.head offset
  let s ← walkTo atOrPast b.head skip
  let written ← copyLoop ((s.current :: s.after).length + (t.current :: t.after).length)
    (s.current :: s.after) s.pos (t.current :: t.after) t.pos len
  return { target with head := t.before ++ written }

/-- `SetData(skip, len, source, offset)` -/
def setDataFrom (b : Buffer) (skip len : Nat) (source : Buffer) (offset : Nat) : Checked Buffer :=
  source.getDataTo offset len b skip

/-! ## One turn -/

variable {b : Buffer}

theorem overwrite_layout {c : Buf} (ok : c.Ok) {skip : Nat} {source : Bytes} (inside : skip + source.length ≤ c.size) :
    (c.overwrite (c.offset + skip) source).layout = c.layout := by
  have fits := ok.fits
  have capacity : (c.overwrite (c.offset + skip) source).capacity = c.capacity := Buf.overwrite_capacity (by omega)
  simp only [Buf.layout, capacity, Buf.overwrite_addr, Buf.overwrite_offset, Buf.overwrite_size]

theorem overwrite_splice {c : Buf} (ok : c.Ok) {skip : Nat} {source : Bytes} (inside : skip + source.length ≤ c.size) :
    (c.overwrite (c.offset + skip) source).bytes = splice c.bytes skip source := Buf.overwrite_bytes ok inside

theorem map_addr_of_layout {old new : List Buf} (same : new.map Buf.layout = old.map Buf.layout) :
    new.map Buf.addr = old.map Buf.addr := by
  have first := congrArg (List.map Prod.fst) same
  simpa [Buf.layout, Function.comp_def] using first

theorem total_of_layout {old new : List Buf} (same : new.map Buf.layout = old.map Buf.layout) :
    total Buf.size new = total Buf.size old := by
  have third := congrArg (List.map fun l : Nat × Nat × Nat × Nat => l.2.2.1) same
  simp only [List.map_map] at third
  exact congrArg List.sum third

/-- What an overwriting of a chain leaves. -/
structure Written (chain written : List Buf) (i : Nat) (bytes : Bytes) : Prop where
  ok : ∀ c ∈ written, c.Ok
  layout : written.map Buf.layout = chain.map Buf.layout
  content : written.flatMap Buf.bytes = splice (chain.flatMap Buf.bytes) i bytes

theorem written_nothing {chain : List Buf} (ok : ∀ c ∈ chain, c.Ok) (i : Nat) : Written chain chain i [] :=
  ⟨ok, rfl, (splice_nil _ i).symm⟩

/-- The first chunk of a chain, overwritten. -/
theorem written_head {c : Buf} {rest : List Buf} (ok : ∀ d ∈ c :: rest, d.Ok) {i : Nat} {bytes : Bytes}
    (inside : i + bytes.length ≤ c.size) :
    Written (c :: rest) (c.overwrite (c.offset + i) bytes :: rest) i bytes := by
  have okC := ok c List.mem_cons_self
  have length := Buf.length_bytes okC
  constructor
  · intro d member
    rcases List.mem_cons.mp member with rfl | later
    · exact Buf.overwrite_ok okC inside
    · exact ok d (List.mem_cons_of_mem c later)
  · rw [List.map_cons, List.map_cons, overwrite_layout okC inside]
  · rw [List.flatMap_cons, List.flatMap_cons, overwrite_splice okC inside, splice_append_left (by omega)]

/-- A chain written behind its first chunk. -/
theorem Written.behind {c : Buf} {rest written : List Buf} {i : Nat} {bytes : Bytes} (okC : c.Ok)
    (more : Written rest written i bytes) : Written (c :: rest) (c :: written) (c.size + i) bytes := by
  constructor
  · intro d member
    rcases List.mem_cons.mp member with rfl | later
    · exact okC
    · exact more.ok d later
  · rw [List.map_cons, List.map_cons, more.layout]
  · rw [List.flatMap_cons, List.flatMap_cons, more.content, ← Buf.length_bytes okC, splice_append_right]

/-- One overwriting and then another, right behind it. -/
theorem Written.trans {chain middle written : List Buf} {i : Nat} {front back : Bytes} (sizes : ∀ c ∈ chain, c.Ok)
    (first : Written chain middle i front) (second : Written middle written (i + front.length) back)
    (inside : i + (front ++ back).length ≤ total Buf.size chain) : Written chain written i (front ++ back) := by
  constructor
  · exact second.ok
  · rw [second.layout, first.layout]
  · rw [second.content, first.content, splice_splice]
    rwa [length_flatMap_eq_total _ (sized sizes)]

/-! ## The loop -/

/-- Where a turn of `n` bytes leaves the source's cursor. -/
structure Advanced (chain : List Buf) (skip n : Nat) (source : List Buf) (skip' : Nat) : Prop where
  ok : ∀ c ∈ source, c.Ok
  start : ∀ c ∈ source.head?, skip' < c.size
  sizes : total Buf.size source + (skip + n) = total Buf.size chain + skip'
  rest : (source.flatMap Buf.bytes).drop skip' = (chain.flatMap Buf.bytes).drop (skip + n)

/-- The cursor leaves a chunk whose bytes are all copied. -/
theorem source_advanced {s : Buf} {sources : List Buf} (ok : ∀ c ∈ s :: sources, c.Ok) {skip n : Nat}
    (inside : skip + n ≤ s.size) {source : List Buf} {skip' : Nat}
    (moved : (if skip + n = s.size then (sources, 0) else (s :: sources, skip + n)) = (source, skip')) :
    Advanced (s :: sources) skip n source skip' ∧ source.length ≤ sources.length + 1 ∧
      (skip + n = s.size → source.length = sources.length) := by
  have okRest : ∀ c ∈ sources, c.Ok := fun c member => ok c (List.mem_cons_of_mem s member)
  have length := Buf.length_bytes (ok s List.mem_cons_self)
  split_ifs at moved with atEnd
  · obtain ⟨rfl, rfl⟩ := Prod.mk.inj moved
    refine ⟨⟨okRest, ?_, ?_, ?_⟩, Nat.le_succ _, fun _ => rfl⟩
    · exact fun c member => (okRest c (List.mem_of_mem_head? member)).nonempty
    · rw [total_cons]
      omega
    · have gone : s.bytes.drop (skip + n) = [] := List.drop_of_length_le (by omega)
      rw [List.flatMap_cons, List.drop_append, gone, List.nil_append, atEnd, length, Nat.sub_self]
  · obtain ⟨rfl, rfl⟩ := Prod.mk.inj moved
    refine ⟨⟨ok, ?_, rfl, rfl⟩, Nat.le_refl _, fun whole => absurd whole atEnd⟩
    intro c member
    cases member
    omega

/-- The bytes that a turn copies. -/
theorem source_bytes {s : Buf} {sources : List Buf} (okS : s.Ok) {skip n : Nat} (inside : skip + n ≤ s.size) :
    (s.data.drop (s.offset + skip)).take n = slice ((s :: sources).flatMap Buf.bytes) skip n := by
  have length := Buf.length_bytes okS
  rw [slice, List.flatMap_cons, List.drop_append_of_le_length (by omega), Buf.window inside,
    List.take_append_of_le_length (by rw [List.length_drop]; omega)]

theorem copyLoop_done (turns : Nat) (source : List Buf) (skip : Nat) (target : List Buf) (offset : Nat) :
    copyLoop turns source skip target offset 0 = .ok target := by
  cases turns <;> cases source <;> cases target <;> rfl

/-- Whatever the two layouts are, the slice of the source comes to the target. -/
theorem copyLoop_written {turns : Nat} {source target : List Buf} {skip offset len : Nat}
    (okS : ∀ c ∈ source, c.Ok) (okT : ∀ c ∈ target, c.Ok)
    (startS : ∀ c ∈ source.head?, skip < c.size) (startT : ∀ c ∈ target.head?, offset < c.size)
    (insideS : skip + len ≤ total Buf.size source) (insideT : offset + len ≤ total Buf.size target)
    (enough : source.length + target.length ≤ turns) :
    ∃ written, copyLoop turns source skip target offset len = .ok written ∧
      Written target written offset (slice (source.flatMap Buf.bytes) skip len) := by
  induction turns generalizing source target skip offset len with
  | zero =>
    obtain rfl : target = [] := List.length_eq_zero_iff.mp (by omega)
    obtain rfl : len = 0 := by
      rw [total_nil] at insideT
      omega
    exact ⟨[], rfl, written_nothing okT offset⟩
  | succ turns ih =>
    by_cases done : len = 0
    · subst done
      exact ⟨target, copyLoop_done _ _ _ _ _, written_nothing okT offset⟩
    · cases source with
      | nil => simp only [total_nil] at insideS; omega
      | cons s sources =>
      cases target with
      | nil => simp only [total_nil] at insideT; omega
      | cons t targets =>
        have firstS : skip < s.size := startS s rfl
        have firstT : offset < t.size := startT t rfl
        have okTRest : ∀ c ∈ targets, c.Ok := fun c member => okT c (List.mem_cons_of_mem t member)
        have sizeT : total Buf.size (t :: targets) = t.size + total Buf.size targets := total_cons _ _ _
        generalize copy : min (s.size - skip) (min len (t.size - offset)) = n
        generalize moved : (if skip + n = s.size then (sources, 0) else (s :: sources, skip + n)) = next
        obtain ⟨source', skip'⟩ := next
        obtain ⟨advanced, shorter, left⟩ := source_advanced okS (by omega : skip + n ≤ s.size) moved
        have bytes := @source_bytes s sources (okS s List.mem_cons_self) skip n (by omega)
        have sizes := advanced.sizes
        -- what this turn copies, and what is left for the others
        have split := slice_split ((s :: sources).flatMap Buf.bytes) skip (by omega : n ≤ len)
        have restSlice : slice ((s :: sources).flatMap Buf.bytes) (skip + n) (len - n) =
            slice (source'.flatMap Buf.bytes) skip' (len - n) := by rw [slice, slice, advanced.rest]
        have lengthS : ((s :: sources).flatMap Buf.bytes).length = total Buf.size (s :: sources) :=
          length_flatMap_eq_total _ (sized okS)
        have lengthN : (slice ((s :: sources).flatMap Buf.bytes) skip n).length = n := length_slice (by omega)
        have lengthAll : (slice ((s :: sources).flatMap Buf.bytes) skip len).length = len := length_slice (by omega)
        have first := written_head okT (by omega : offset + (slice ((s :: sources).flatMap Buf.bytes) skip n).length ≤ t.size)
        simp only [List.length_cons] at enough
        rw [copyLoop, if_neg done]
        simp only [copy, moved, bytes, Buf.overwrite_size]
        have inside : offset + (slice ((s :: sources).flatMap Buf.bytes) skip n ++
            slice (source'.flatMap Buf.bytes) skip' (len - n)).length ≤ total Buf.size (t :: targets) := by
          rw [← restSlice, ← split, lengthAll]
          exact insideT
        rw [split, restSlice]
        by_cases next : offset + n = t.size
        · rw [if_pos next]
          obtain ⟨written, ran, more⟩ := @ih source' targets skip' 0 (len - n) advanced.ok okTRest advanced.start
            (fun c member => (okTRest c (List.mem_of_mem_head? member)).nonempty) (by omega) (by omega) (by omega)
          refine ⟨_, by rw [ran]; rfl, first.trans okT ?_ inside⟩
          have behind := more.behind (first.ok _ List.mem_cons_self)
          rw [Buf.overwrite_size, Nat.add_zero] at behind
          rwa [lengthN, next]
        · rw [if_neg next]
          by_cases all : len - n = 0
          · refine ⟨_, by rw [all]; exact copyLoop_done _ _ _ _ _, first.trans okT ?_ inside⟩
            rw [all]
            exact written_nothing first.ok _
          · have sameSize : total Buf.size (t.overwrite (t.offset + offset)
                (slice ((s :: sources).flatMap Buf.bytes) skip n) :: targets) = total Buf.size (t :: targets) :=
              total_of_layout first.layout
            have atEnd := left (by omega)
            obtain ⟨written, ran, more⟩ := @ih source' _ skip' (offset + n) (len - n) advanced.ok first.ok advanced.start
              (by
                intro c member
                cases member
                rw [Buf.overwrite_size]
                omega)
              (by omega) (by omega) (by rw [List.length_cons]; omega)
            refine ⟨_, ran, first.trans okT ?_ inside⟩
            rwa [lengthN]

/-! ## Whole Buffers -/

/-- The bytes of `b` from `skip` on are `bytes` now. No chunk has moved or changed its size. -/
structure Overwritten (b b' : Buffer) (skip : Nat) (bytes : Bytes) : Prop where
  wf : b'.WellFormed
  content : b'.content = splice b.content skip bytes
  size : b'.size = b.size
  layout : b'.head.map Buf.layout = b.head.map Buf.layout

/-- The chunks from a cursor on are written. -/
theorem At.overwritten {pos : Nat} {c : Cursor Buf} (wf : b.WellFormed) (here : At b pos c) {written : List Buf}
    {bytes : Bytes} (after : Written (c.current :: c.after) written c.pos bytes) :
    Overwritten b { b with head := c.before ++ written } pos bytes := by
  have okBefore : ∀ d ∈ c.before, d.Ok := fun d member => here.ok d (List.mem_append_left _ member)
  have layout : (c.before ++ written).map Buf.layout = b.head.map Buf.layout := by
    rw [here.split, List.map_append, List.map_append, after.layout]
  constructor
  · apply wf.regrown (map_addr_of_layout layout)
    · intro d member
      rcases List.mem_append.mp member with inBefore | inWritten
      · exact okBefore d inBefore
      · exact after.ok d inWritten
    · rw [total_of_layout layout, wf.size_eq]
  · have length := length_flatMap_eq_total c.before (sized okBefore)
    show (c.before ++ written).flatMap Buf.bytes = splice (b.head.flatMap Buf.bytes) pos bytes
    rw [here.split, List.flatMap_append, List.flatMap_append, after.content, here.sum, ← length, splice_append_right]
  · rfl
  · exact layout

/-- The Buffer-to-Buffer `GetData`. -/
theorem WellFormed.getDataTo_eq (wf : b.WellFormed) {target : Buffer} (wt : target.WellFormed) {skip len offset : Nat}
    (start : skip < b.size) (inside : skip + len ≤ b.size) (startT : offset < target.size)
    (insideT : offset + len ≤ target.size) :
    ∃ target', b.getDataTo skip len target offset = .ok target' ∧
      Overwritten target target' offset (slice b.content skip len) := by
  obtain ⟨s, hereS⟩ := wf.at start
  obtain ⟨t, hereT⟩ := wt.at startT
  have wholeS : total Buf.size b.head = b.size := wf.size_eq.symm
  have wholeT : total Buf.size target.head = target.size := wt.size_eq.symm
  have sumS := hereS.sum
  have sumT := hereT.sum
  have bound := hereS.bound
  rw [hereS.split, total_append] at wholeS
  rw [hereT.split, total_append] at wholeT
  obtain ⟨written, ran, after⟩ := @copyLoop_written _ (s.current :: s.after) (t.current :: t.after) s.pos t.pos len
    (by simpa using ⟨hereS.okCurrent, hereS.okAfter⟩) (by simpa using ⟨hereT.okCurrent, hereT.okAfter⟩)
    (by simpa using hereS.bound) (by simpa using hereT.bound) (by omega) (by omega) (Nat.le_refl _)
  have same : slice ((s.current :: s.after).flatMap Buf.bytes) s.pos len = slice b.content skip len := by
    rw [slice, slice, hereS.behind, List.flatMap_cons,
      List.drop_append_of_le_length (by rw [Buf.length_bytes hereS.okCurrent]; omega)]
  rw [same] at after
  refine ⟨_, ?_, hereT.overwritten wt after⟩
  unfold getDataTo
  rw [boostAssert_of start, boostAssert_of (by omega), boostAssert_of inside, boostAssert_of (by omega),
    boostAssert_of (by omega), boostAssert_of insideT]
  simp only [ok_bind, hereT.walked, hereS.walked, ran, pure_eq_ok]

/-- The copy loop of `SetData`, with the layout it leaves. -/
theorem writeLoop_written {chain : List Buf} (ok : ∀ c ∈ chain, c.Ok) {skip : Nat} {source : Bytes}
    (start : ∀ c ∈ chain.head?, skip < c.size) (inside : skip + source.length ≤ total Buf.size chain) :
    ∃ written, writeLoop chain skip source = .ok written ∧ Written chain written skip source := by
  obtain ⟨written, ran, okWritten, -, -, bytes⟩ := writeLoop_eq ok start inside
  refine ⟨written, ran, okWritten, ?_, bytes⟩
  clear okWritten bytes
  induction chain generalizing skip source written with
  | nil =>
    have nothing : source.length = 0 := by
      rw [total_nil] at inside
      omega
    rw [writeLoop, if_pos nothing] at ran
    cases ran
    rfl
  | cons c rest ih =>
    rw [writeLoop] at ran
    split_ifs at ran with zero
    · cases ran
      rfl
    · have okC := ok c List.mem_cons_self
      have okRest : ∀ d ∈ rest, d.Ok := fun d member => ok d (List.mem_cons_of_mem c member)
      have first : skip < c.size := start c rfl
      obtain ⟨more, ranRest, done⟩ := bind_eq_ok.mp ran
      cases done
      rw [total_cons] at inside
      have layoutRest := @ih okRest 0 _ (fun d member => (okRest d (List.mem_of_mem_head? member)).nonempty)
        (by rw [List.length_drop]; omega) more ranRest
      rw [List.map_cons, List.map_cons, layoutRest,
        overwrite_layout okC (by rw [List.length_take]; omega)]

theorem WellFormed.setData_overwritten (wf : b.WellFormed) {skip : Nat} {source : Bytes} (start : skip < b.size)
    (inside : skip + source.length ≤ b.size) :
    ∃ b', b.setData skip source = .ok b' ∧ Overwritten b b' skip source := by
  obtain ⟨c, here⟩ := wf.at start
  have whole : total Buf.size b.head = b.size := wf.size_eq.symm
  have sum := here.sum
  rw [here.split, total_append] at whole
  obtain ⟨written, ran, after⟩ := @writeLoop_written (c.current :: c.after)
    (by simpa using ⟨here.okCurrent, here.okAfter⟩) c.pos source (by simpa using here.bound) (by omega)
  refine ⟨_, ?_, here.overwritten wf after⟩
  unfold setData
  rw [boostAssert_of start, boostAssert_of (by omega), boostAssert_of inside]
  simp only [ok_bind, here.walked, ran, pure_eq_ok]

end Buffer

end LibNekit.Source
