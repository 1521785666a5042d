import LibNekit.Source.Buffer.WellFormed

/-!
# Reading and writing in place

`GetData`, `SetData`, `operator[]` and `FindLocation` on the bytes a Buffer
holds. The first two agree with the list; `operator[]` addresses `data_` without
`offset_`, so its meaning is stated on the chunk and not on the content.
-/
namespace LibNekit.Source.Buffer

open LibNekit.Library.Rope

variable {b : Buffer}

/-- What the element walk knows about the chunk it stopped at. -/
structure At (b : Buffer) (pos : Nat) (c : Cursor Buf) : Prop where
  walked : walkTo atOrPast b.head pos = .ok c
  split : b.head = c.before ++ c.current :: c.after
  sum : pos = total Buf.size c.before + c.pos
  bound : c.pos < c.current.size
  ok : ∀ d ∈ c.before ++ c.current :: c.after, d.Ok
  before : b.content.take pos = c.before.flatMap Buf.bytes ++ c.current.bytes.take c.pos
  behind : b.content.drop pos = c.current.bytes.drop c.pos ++ c.after.flatMap Buf.bytes

theorem WellFormed.at (wf : b.WellFormed) {pos : Nat} (inside : pos < b.size) :
    ∃ c, At b pos c := by
  obtain ⟨c, walked, split, sum, bound, before, behind⟩ := wf.walkTo_atOrPast inside
  exact ⟨c, walked, split, sum, bound, fun d member => wf.ok d (split ▸ member), before, behind⟩

theorem At.okCurrent {pos : Nat} {c : Cursor Buf} (here : At b pos c) : c.current.Ok :=
  here.ok _ (by simp)

theorem At.okAfter {pos : Nat} {c : Cursor Buf} (here : At b pos c) : ∀ d ∈ c.after, d.Ok :=
  fun d member => here.ok d (by simp [member])

/-! ## GetData -/

/-- The copy loop returns the bytes that follow, as long as there are enough. -/
theorem readLoop_eq {chain : List Buf} (ok : ∀ c ∈ chain, c.Ok) {skip len : Nat}
    (start : ∀ c ∈ chain.head?, skip < c.size)
    (inside : skip + len ≤ total Buf.size chain) :
    readLoop chain skip len = .ok (((chain.flatMap Buf.bytes).drop skip).take len) := by
  induction chain generalizing skip len with
  | nil =>
    simp only [total_nil, Nat.le_zero, Nat.add_eq_zero_iff] at inside
    simp [readLoop, inside.2]
  | cons c rest ih =>
    by_cases zero : len = 0
    · simp [readLoop, zero]
    have okC := ok c (by simp)
    have okRest : ∀ d ∈ rest, d.Ok := fun d member => ok d (by simp [member])
    have first := start c (by simp)
    have length := Buf.length_bytes okC
    simp only [total_cons] at inside
    have more := ih okRest (fun d member => (okRest d (List.mem_of_mem_head? member)).nonempty)
      (by omega : 0 + (len - min len (c.size - skip)) ≤ total Buf.size rest)
    have here : (c.data.drop (c.offset + skip)).take (min len (c.size - skip)) =
        (c.bytes.drop skip).take len := by
      rw [Buf.window (by omega)]
      by_cases short : len ≤ c.size - skip
      · rw [Nat.min_eq_left short]
      · rw [Nat.min_eq_right (by omega), List.take_of_length_le (by rw [List.length_drop]; omega),
          List.take_of_length_le (by rw [List.length_drop]; omega)]
    simp only [readLoop, if_neg zero, more, ok_bind, pure_eq_ok, here, List.flatMap_cons,
      List.drop_zero]
    rw [List.drop_append_of_le_length (by omega), List.take_append, List.length_drop, length]
    congr 3
    omega

/-- `GetData` reads the window of the content it is asked for. -/
theorem WellFormed.getData_eq (wf : b.WellFormed) {skip len : Nat} (start : skip < b.size)
    (inside : skip + len ≤ b.size) :
    b.getData skip len = .ok ((b.content.drop skip).take len) := by
  obtain ⟨c, here⟩ := wf.at start
  have whole : total Buf.size b.head = b.size := wf.size_eq.symm
  rw [here.split, total_append, total_cons] at whole
  have sum := here.sum
  unfold getData
  rw [boostAssert_of (Nat.le_of_lt start), boostAssert_of (by omega), boostAssert_of inside]
  simp only [ok_bind, here.walked]
  rw [readLoop_eq (by simpa using ⟨here.okCurrent, here.okAfter⟩) (by simpa using here.bound)
    (by rw [total_cons]; omega), List.flatMap_cons,
    List.drop_append_of_le_length (by rw [Buf.length_bytes here.okCurrent]; exact Nat.le_of_lt here.bound),
    here.behind]

/-- A window that ends past the Buffer fails the assertion. -/
theorem getData_outside {skip len : Nat} (outside : b.size < skip + len) :
    b.getData skip len = .error .assertion := by
  unfold getData boostAssert
  split_ifs <;> first | omega | rfl

/-! ## SetData -/

/-- The copy loop overwrites the bytes that follow and no field of a chunk. -/
theorem writeLoop_eq {chain : List Buf} (ok : ∀ c ∈ chain, c.Ok) {skip : Nat} {source : Bytes}
    (start : ∀ c ∈ chain.head?, skip < c.size)
    (inside : skip + source.length ≤ total Buf.size chain) :
    ∃ written, writeLoop chain skip source = .ok written ∧ (∀ c ∈ written, c.Ok) ∧
      written.map Buf.addr = chain.map Buf.addr ∧ total Buf.size written = total Buf.size chain ∧
      written.flatMap Buf.bytes = (chain.flatMap Buf.bytes).take skip ++ source ++
        (chain.flatMap Buf.bytes).drop (skip + source.length) := by
  induction chain generalizing skip source with
  | nil =>
    simp only [total_nil, Nat.le_zero, Nat.add_eq_zero_iff] at inside
    obtain rfl := List.length_eq_zero_iff.mp inside.2
    exact ⟨[], by simp [writeLoop], by simp, rfl, rfl, by simp⟩
  | cons c rest ih =>
    by_cases zero : source.length = 0
    · obtain rfl := List.length_eq_zero_iff.mp zero
      exact ⟨c :: rest, by simp [writeLoop], ok, rfl, rfl, by simp⟩
    have okC := ok c (by simp)
    have okRest : ∀ d ∈ rest, d.Ok := fun d member => ok d (by simp [member])
    have first := start c (by simp)
    have length := Buf.length_bytes okC
    simp only [total_cons] at inside
    generalize copy : min source.length (c.size - skip) = copyLen
    have prefixLen : (source.take copyLen).length = copyLen := by
      rw [List.length_take]
      omega
    obtain ⟨written, run, okWritten, addrs, sizes, bytes⟩ := ih okRest
      (fun d member => (okRest d (List.mem_of_mem_head? member)).nonempty)
      (by rw [List.length_drop]; omega : 0 + (source.drop copyLen).length ≤ total Buf.size rest)
    have room : skip + (source.take copyLen).length ≤ c.size := by omega
    refine ⟨c.overwrite (c.offset + skip) (source.take copyLen) :: written, ?_, ?_, ?_, ?_, ?_⟩
    · simp only [writeLoop, if_neg zero, copy, run, ok_bind, pure_eq_ok]
    · simpa using ⟨Buf.overwrite_ok okC room, okWritten⟩
    · simp [addrs]
    · simp [sizes]
    · rw [List.flatMap_cons, Buf.overwrite_bytes okC room, bytes, prefixLen, List.length_drop,
        List.flatMap_cons, List.take_append_of_le_length (by omega), List.drop_append, length]
      by_cases short : copyLen = source.length
      · rw [short, List.take_length, List.drop_length]
        simp [show skip + source.length - c.size = 0 by omega]
      · have full : skip + copyLen = c.size := by omega
        rw [List.drop_of_length_le (show c.bytes.length ≤ skip + copyLen by omega),
          List.drop_of_length_le (show c.bytes.length ≤ skip + source.length by omega)]
        simp only [List.take_zero, List.append_nil, List.nil_append, Nat.zero_add,
          List.append_assoc]
        rw [← List.append_assoc (source.take copyLen), List.take_append_drop]
        congr 3
        omega

/-- `SetData` replaces the window it is asked for; the nodes stay. -/
theorem WellFormed.setData_eq (wf : b.WellFormed) {skip : Nat} {source : Bytes}
    (start : skip < b.size) (inside : skip + source.length ≤ b.size) :
    ∃ b', b.setData skip source = .ok b' ∧ b'.WellFormed ∧ b'.addrs = b.addrs ∧ b'.size = b.size ∧
      b'.content = b.content.take skip ++ source ++ b.content.drop (skip + source.length) := by
  obtain ⟨c, here⟩ := wf.at start
  have whole : total Buf.size b.head = b.size := wf.size_eq.symm
  rw [here.split, total_append, total_cons] at whole
  have sum := here.sum
  have length := Buf.length_bytes here.okCurrent
  have bound := here.bound
  obtain ⟨written, run, okWritten, addrs, sizes, bytes⟩ :=
    writeLoop_eq (by simpa using ⟨here.okCurrent, here.okAfter⟩) (by simpa using bound)
      (by rw [total_cons]; omega :
        c.pos + source.length ≤ total Buf.size (c.current :: c.after))
  have sameAddrs : (c.before ++ written).map Buf.addr = b.addrs := by
    rw [List.map_append, addrs, Buffer.addrs, here.split, List.map_append]
  refine ⟨{ b with head := c.before ++ written }, ?_,
    wf.regrown sameAddrs ?_ ?_, sameAddrs, rfl, ?_⟩
  · unfold setData
    rw [boostAssert_of start, boostAssert_of (by omega), boostAssert_of inside]
    simp only [ok_bind, here.walked, run, pure_eq_ok]
  · simp only [List.mem_append]
    rintro d (inBefore | inWritten)
    · exact here.ok d (by simp [inBefore])
    · exact okWritten d inWritten
  · rw [total_append, sizes, total_cons]
    omega
  · have cut : b.content.drop (skip + source.length) =
        ((c.current :: c.after).flatMap Buf.bytes).drop (c.pos + source.length) := by
      rw [← List.drop_drop, here.behind, ← List.drop_drop, List.flatMap_cons,
        List.drop_append_of_le_length (by omega : c.pos ≤ c.current.bytes.length)]
    rw [here.before, cut]
    simp only [content, List.flatMap_append, bytes, List.flatMap_cons, List.append_assoc]
    rw [List.take_append_of_le_length (by omega)]

/-! ## Single bytes -/

/-- Inside the chunk the bytes are the array behind `offset_`. -/
theorem bytes_getElem? {c : Buf} {k : Nat} (inside : k < c.size) :
    c.bytes[k]? = c.data[c.offset + k]? := by
  rw [Buf.bytes, List.getElem?_take_of_lt inside, List.getElem?_drop]

/-- The byte `GetData` finds at the cursor. -/
theorem At.content_getElem? {pos : Nat} {c : Cursor Buf} (here : At b pos c) :
    b.content[pos]? = c.current.data[c.current.offset + c.pos]? := by
  have length := Buf.length_bytes here.okCurrent
  have bound := here.bound
  rw [← bytes_getElem? bound, ← List.head?_drop, here.behind, List.head?_append_of_ne_nil,
    List.head?_drop]
  rw [← List.length_pos_iff, List.length_drop]
  omega

theorem WellFormed.getData_one (wf : b.WellFormed) {pos : Nat} (inside : pos < b.size) :
    b.getData pos 1 = .ok b.content[pos]?.toList := by
  rw [wf.getData_eq inside (by omega), List.take_one, List.head?_drop]

/-- The array index `operator[]` computes always exists. -/
theorem At.in_array {pos : Nat} {c : Cursor Buf} (here : At b pos c) :
    c.pos < c.current.data.length := by
  have fits := here.okCurrent.fits
  have bound := here.bound
  unfold Buf.capacity at fits
  omega

theorem index_eq {pos : Nat} {c : Cursor Buf} (here : At b pos c) (inside : pos < b.size) :
    ∃ v, b.index pos = .ok v ∧ c.current.data[c.pos]? = some v := by
  have found := List.getElem?_eq_getElem here.in_array
  unfold index
  rw [boostAssert_of inside]
  exact ⟨_, by simp only [ok_bind, here.walked, found, pure_eq_ok], found⟩

/-- The chunk that a write through `operator[]` leaves. -/
def poke (c : Buf) (k : Nat) (v : UInt8) : Buf := { c with data := c.data.set k v }

theorem poke_ok {c : Buf} (ok : c.Ok) (k : Nat) (v : UInt8) : (poke c k v).Ok :=
  ⟨ok.nonempty, by simpa [poke, Buf.capacity] using ok.fits⟩

/-- The write lands `offset_` bytes too early: in front of the chunk's bytes, or
on an earlier one of them. -/
theorem poke_bytes (c : Buf) (k : Nat) (v : UInt8) :
    (poke c k v).bytes = if k < c.offset then c.bytes else c.bytes.set (k - c.offset) v := by
  show ((c.data.set k v).drop c.offset).take c.size = _
  rw [List.drop_set]
  split
  · rfl
  · rw [List.take_set]
    rfl

/-- A write through `operator[]` keeps the nodes, their sizes and the invariant,
and changes at most the logical byte `offset_` in front of the one asked for. -/
theorem setIndex_eq (wf : b.WellFormed) {pos : Nat} {c : Cursor Buf} (here : At b pos c)
    (inside : pos < b.size) (v : UInt8) :
    ∃ b', b.setIndex pos v = .ok b' ∧ b'.WellFormed ∧ b'.addrs = b.addrs ∧ b'.size = b.size ∧
      b'.content = if c.pos < c.current.offset then b.content
        else b.content.set (pos - c.current.offset) v := by
  have sameAddrs : (c.before ++ poke c.current c.pos v :: c.after).map Buf.addr = b.addrs := by
    simp [Buffer.addrs, here.split, poke]
  refine ⟨{ b with head := c.before ++ poke c.current c.pos v :: c.after }, ?_,
    wf.regrown sameAddrs ?_ ?_, sameAddrs, rfl, ?_⟩
  · unfold setIndex
    rw [boostAssert_of inside]
    simp only [ok_bind, here.walked, if_pos here.in_array, pure_eq_ok, poke]
  · simp only [List.mem_append, List.mem_cons]
    rintro d (inBefore | rfl | inAfter)
    · exact here.ok d (by simp [inBefore])
    · exact poke_ok here.okCurrent _ _
    · exact here.okAfter d inAfter
  · rw [wf.size_eq, here.split]
    simp [poke]
  · have lenBefore := length_flatMap_eq_total c.before
      (sized fun d member => here.ok d (by simp [member]))
    have sum := here.sum
    simp only [content, here.split, List.flatMap_append, List.flatMap_cons, poke_bytes]
    split
    · rfl
    · rw [List.set_append_right _ _ (by omega), List.set_append_left _ _ (by
        rw [Buf.length_bytes here.okCurrent]
        have := here.bound
        omega)]
      congr 3
      omega

/-! ## The chunk behind an index -/

/-- `c` is the chunk that holds logical byte `index`. -/
def Holding (b : Buffer) (index : Nat) (c : Buf) : Prop :=
  ∃ before after, b.head = before ++ c :: after ∧ total Buf.size before ≤ index ∧
    index < total Buf.size before + c.size

/-- No front deletion or front reuse has moved the start of that chunk. -/
def Unshifted (b : Buffer) (index : Nat) : Prop := ∀ c, Holding b index c → c.offset = 0

theorem holding_current {index : Nat} {c : Cursor Buf} (here : At b index c) : Holding b index c.current := by
  have sum := here.sum
  have bound := here.bound
  exact ⟨c.before, c.after, here.split, by omega, by omega⟩

theorem unshifted_iff {index : Nat} {c : Cursor Buf} (here : At b index c) : Unshifted b index ↔ c.current.offset = 0 := by
  constructor
  · exact fun unshifted => unshifted _ (holding_current here)
  · rintro zero d ⟨before, after, split, low, high⟩
    have walked := here.walked
    rw [walkTo, split, seek_cut low high] at walked
    cases walked
    exact zero

/-! ## Walks over the slices -/

/-- A walk that never stops and appends what it sees collects the content. -/
theorem walkLoop_append {chain : List Buf} (ok : ∀ c ∈ chain, c.Ok) {skip : Nat}
    (start : ∀ c ∈ chain.head?, skip < c.size) (seen : Bytes) :
    walkLoop (fun slice seen => .ok (true, seen ++ slice.bytes)) chain skip seen =
      .ok (seen ++ (chain.flatMap Buf.bytes).drop skip) := by
  induction chain generalizing skip seen with
  | nil => simp [walkLoop]
  | cons c rest ih =>
    have okC := ok c (by simp)
    have okRest : ∀ d ∈ rest, d.Ok := fun d member => ok d (by simp [member])
    have first := start c (by simp)
    have length := Buf.length_bytes okC
    simp only [walkLoop, ok_bind, if_true, List.flatMap_cons]
    rw [ih okRest fun d member => (okRest d (List.mem_of_mem_head? member)).nonempty]
    rw [sliceOf, Buf.window_rest okC (Nat.le_of_lt first), List.drop_zero,
      List.drop_append_of_le_length (by omega), List.append_assoc]

theorem WellFormed.walk_append_from (wf : b.WellFormed) {start : Nat} (inside : start ≤ b.size) (seen : Bytes) :
    b.walkInternalChunk (fun slice seen => .ok (true, seen ++ slice.bytes)) start seen =
      .ok (seen ++ b.content.drop start) := by
  unfold walkInternalChunk
  rw [boostAssert_of inside]
  by_cases atEnd : start = b.size
  · rw [List.drop_of_length_le (by rw [wf.length_content, atEnd])]
    simp [atEnd]
  · obtain ⟨c, here⟩ := wf.at (Nat.lt_of_le_of_ne inside atEnd)
    simp only [ok_bind, if_neg atEnd, here.walked]
    rw [walkLoop_append (by simpa using ⟨here.okCurrent, here.okAfter⟩) (by simpa using here.bound), here.behind,
      List.flatMap_cons, List.drop_append_of_le_length
        (by rw [Buf.length_bytes here.okCurrent]; exact Nat.le_of_lt here.bound)]

theorem WellFormed.walk_append (wf : b.WellFormed) (seen : Bytes) :
    b.walkInternalChunk (fun slice seen => .ok (true, seen ++ slice.bytes)) 0 seen =
      .ok (seen ++ b.content) := wf.walk_append_from (Nat.zero_le _) seen

end LibNekit.Source.Buffer
