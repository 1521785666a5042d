import LibNekit.Source.Buffer.Access
import LibNekit.Source.Buffer.Insert

/-!
# Deletion and splitting

`Shrink` deletes inside a chunk, drops whole chunks and repairs `tail_` from the
`prev` pointer; `Break` hands the chunks behind a position to a new Buffer.
-/
namespace LibNekit.Source

open LibNekit.Library.Rope

namespace Buffer

/-- What the deletion loop leaves: the chunks behind the deleted bytes, the first
of them possibly advanced. Every byte asked for is counted. -/
theorem shrinkLoop_spec {chain : List Buf} (ok : ∀ c ∈ chain, c.Ok) {len : Nat}
    (inside : len ≤ total Buf.size chain) :
    ∃ rest, shrinkLoop chain len = .ok (rest, len) ∧ (∀ c ∈ rest, c.Ok) ∧
      total Buf.size rest = total Buf.size chain - len ∧
      rest.flatMap Buf.bytes = (chain.flatMap Buf.bytes).drop len ∧
      rest.map Buf.addr <:+ chain.map Buf.addr := by
  induction chain generalizing len with
  | nil =>
    obtain rfl : len = 0 := by simpa using inside
    exact ⟨[], rfl, by simp, rfl, rfl, List.suffix_refl _⟩
  | cons c chain ih =>
    have okC := ok c (by simp)
    have length := Buf.length_bytes okC
    simp only [total_cons] at inside ⊢
    unfold shrinkLoop
    by_cases zero : len = 0
    · subst zero
      exact ⟨c :: chain, rfl, ok, by simp, by simp, List.suffix_refl _⟩
    rw [if_neg zero]
    by_cases partly : len < c.size
    · obtain ⟨okRest, bytes⟩ := Buf.drop_front okC partly
      have remove : min len c.size = len := Nat.min_eq_left (by omega)
      refine ⟨{ c with offset := c.offset + len, size := c.size - len } :: chain, ?_, ?_, ?_, ?_,
        List.suffix_refl _⟩
      · simp only [remove]
        exact if_pos (by omega)
      · simp only [List.mem_cons, forall_eq_or_imp]
        exact ⟨okRest, fun d member => ok d (by simp [member])⟩
      · simp only [total_cons]
        omega
      · simp only [List.flatMap_cons, bytes]
        exact (List.drop_append_of_le_length (by omega)).symm
    · obtain ⟨rest, run, okRest, totalRest, bytes, suffix⟩ :=
        ih (fun d member => ok d (by simp [member])) (by omega : len - c.size ≤ _)
      have remove : min len c.size = c.size := Nat.min_eq_right (by omega)
      have gone : c.bytes.drop len = [] := List.drop_of_length_le (by omega)
      refine ⟨rest, by simp [remove, run, show c.size + (len - c.size) = len by omega], okRest,
        by omega, ?_, suffix.trans (List.suffix_cons _ _)⟩
      rw [bytes, List.flatMap_cons, List.drop_append, gone, length, List.nil_append]

variable {b : Buffer}

/-- Dropping the chunks in the middle of the chain and repairing `tail_`. -/
theorem shrinkRest_holds (next : Nat) (wb : b.WellFormed) (before rest : List Buf) (removed len : Nat)
    (okBefore : ∀ c ∈ before, c.Ok) (okRest : ∀ c ∈ rest, c.Ok)
    (same : (before ++ rest).map Buf.addr = b.addrs)
    (size : b.size - removed = total Buf.size before + total Buf.size rest)
    (inside : len ≤ total Buf.size rest) :
    ∃ b', shrinkRest b before rest removed len = .ok b' ∧
      Holds next next b.addrs b'
        (before.flatMap Buf.bytes ++ (rest.flatMap Buf.bytes).drop len) := by
  obtain ⟨chain, run, okChain, totalChain, bytes, ⟨gone, suffix⟩⟩ := shrinkLoop_spec okRest inside
  have kept : ((before ++ chain).map Buf.addr).Sublist b.addrs := by
    rw [← same, List.map_append, List.map_append, ← suffix]
    exact (List.Sublist.refl _).append (List.sublist_append_right _ _)
  refine ⟨⟨before ++ chain, if chain = [] then before.getLast?.map Buf.addr else b.tail,
      b.size - removed - len⟩, by simp [shrinkRest, run],
    .of_addrs ⟨?_, ?_, ?_, ?_⟩ (by simp [content, bytes]) fun a member => kept.subset member⟩
  · intro c member
    rcases List.mem_append.mp member with inBefore | inChain
    · exact okBefore c inBefore
    · exact okChain c inChain
  · exact kept.nodup wb.distinct
  · simp only [total_append, totalChain]
    omega
  · by_cases null : chain = []
    · simp [null]
    · -- The last chunk survived, so `tail_` is still its address.
      have lastOf (pre : List Nat) : (pre ++ chain.map Buf.addr).getLast? = chain.getLast?.map Buf.addr := by
        rw [List.getLast?_append, List.getLast?_map]
        simp [List.getLast?_eq_some_getLast null]
      have tail : b.tail = b.addrs.getLast? := by
        rw [wb.tail_eq, addrs, List.getLast?_map]
      show (if chain = [] then _ else b.tail) = (before ++ chain).getLast?.map Buf.addr
      rw [if_neg null, tail, ← same, ← List.getLast?_map, List.map_append, List.map_append, ← suffix,
        ← List.append_assoc, lastOf, lastOf]

/-- `Shrink(skip, len)` deletes `len` bytes at `skip`. -/
theorem shrink_holds (next : Nat) (wb : b.WellFormed) {skip len : Nat} (start : skip < b.size)
    (inside : skip + len ≤ b.size) :
    ∃ b', b.shrink skip len = .ok b' ∧
      Holds next next b.addrs b' (b.content.take skip ++ b.content.drop (skip + len)) := by
  obtain ⟨c, walked, split, sum, bound, before, behind⟩ := wb.walkTo_atOrPast start
  have chainOk : ∀ d ∈ c.pieces, d.Ok := split ▸ wb.ok
  have okCurrent : c.current.Ok := chainOk _ (by simp [Cursor.pieces])
  have okBefore : ∀ d ∈ c.before, d.Ok := fun d member => chainOk d (by simp [Cursor.pieces, member])
  have okAfter : ∀ d ∈ c.after, d.Ok := fun d member => chainOk d (by simp [Cursor.pieces, member])
  have length := Buf.length_bytes okCurrent
  have bSize := wb.size_eq
  have bAddrs : b.addrs = (c.before ++ c.current :: c.after).map Buf.addr := by
    rw [addrs, split, Cursor.pieces]
  simp only [split, Cursor.pieces, total_append, total_cons] at bSize
  unfold shrink
  rw [boostAssert_of start, boostAssert_of (by omega : len ≤ b.size), boostAssert_of inside]
  simp only [ok_bind, walked]
  have cut : b.content.drop (skip + len) =
      (c.current.bytes.drop c.pos ++ c.after.flatMap Buf.bytes).drop len := by
    rw [← List.drop_drop, behind]
  rw [before, cut]
  by_cases atStart : c.pos = 0
  · rw [if_neg (by simp [atStart])]
    obtain ⟨b', run, holds⟩ := shrinkRest_holds next wb c.before (c.current :: c.after) 0 len okBefore
      (by simpa using ⟨okCurrent, okAfter⟩) bAddrs.symm (by simp only [total_cons]; omega)
      (by simp only [total_cons]; omega)
    exact ⟨b', run, by simpa [atStart] using holds⟩
  rw [if_pos atStart]
  by_cases truncates : c.current.size - c.pos ≤ len
  · rw [if_pos truncates]
    obtain ⟨okKept, bytesKept⟩ := Buf.keep_front okCurrent (Nat.pos_of_ne_zero atStart) (Nat.le_of_lt bound)
    obtain ⟨b', run, holds⟩ := shrinkRest_holds next wb
      (c.before ++ [{ c.current with size := c.pos }]) c.after (c.current.size - c.pos)
      (len - (c.current.size - c.pos)) (by
        simp only [List.mem_append, List.mem_singleton]
        rintro d (inBefore | rfl)
        · exact okBefore d inBefore
        · exact okKept) okAfter (by simp [bAddrs])
      (by simp only [total_append, total_cons, total_nil]; omega) (by omega)
    refine ⟨b', run, ?_⟩
    have gone : (c.current.bytes.drop c.pos).drop len = [] :=
      List.drop_of_length_le (by rw [List.length_drop]; omega)
    rw [List.drop_append, gone, List.length_drop, length]
    simpa [bytesKept] using holds
  · rw [if_neg truncates]
    obtain ⟨okCut, bytesCut⟩ := Buf.cut_middle okCurrent
      (Nat.pos_of_ne_zero atStart) (by omega : c.pos + len ≤ c.current.size)
    refine ⟨_, rfl, .of_regrown wb (by simp [bAddrs]) ?_ ?_ ?_⟩
    · simp only [List.mem_append, List.mem_cons]
      rintro d (inBefore | rfl | inAfter)
      · exact okBefore d inBefore
      · exact okCut
      · exact okAfter d inAfter
    · simp only [total_append, total_cons]
      omega
    · have within : len ≤ (c.current.bytes.drop c.pos).length := by
        rw [List.length_drop]
        omega
      rw [List.drop_append_of_le_length within, List.drop_drop]
      simp only [List.flatMap_append, List.flatMap_cons, List.append_assoc]
      rw [← List.append_assoc (c.current.bytes.take c.pos), ← bytesCut]

theorem shrinkFront_holds (next : Nat) (wb : b.WellFormed) {size : Nat} (start : 0 < b.size)
    (inside : size ≤ b.size) :
    ∃ b', b.shrinkFront size = .ok b' ∧ Holds next next b.addrs b' (b.content.drop size) := by
  simpa [shrinkFront] using shrink_holds next wb start (by omega : 0 + size ≤ b.size)

theorem shrinkBack_holds (next : Nat) (wb : b.WellFormed) (fits : b.size < sizeRange) {size : Nat}
    (positive : 0 < size) (inside : size ≤ b.size) :
    ∃ b', b.shrinkBack size = .ok b' ∧
      Holds next next b.addrs b' (b.content.take (b.size - size)) := by
  have length := wb.length_content
  obtain ⟨b', run, holds⟩ := shrink_holds next wb
    (by omega) (by omega : b.size - size + size ≤ b.size)
  rw [List.drop_of_length_le (by omega), List.append_nil] at holds
  exact ⟨b', by rw [shrinkBack, sizeSub_eq fits inside, run], holds⟩

/-- What is left of the chain by a deletion at its end: the chunks in front of the
cut, and the front of the chunk that is cut. -/
theorem shrinkBack_head (next : Nat) (wb : b.WellFormed) (fits : b.size < sizeRange) {size : Nat}
    (positive : 0 < size) (inside : size ≤ b.size) {c : Cursor Buf} (here : At b (b.size - size) c) :
    ∃ b', b.shrinkBack size = .ok b' ∧
      Holds next next b.addrs b' (b.content.take (b.size - size)) ∧
      b'.head = c.before ++ if c.pos = 0 then [] else [{ c.current with size := c.pos }] := by
  obtain ⟨b', run, holds⟩ := shrinkBack_holds next wb fits positive inside
  refine ⟨b', run, holds, ?_⟩
  have whole := wb.size_eq
  rw [here.split, total_append, total_cons] at whole
  have sum := here.sum
  have bound := here.bound
  -- Everything behind the cut goes.
  have emptied (chain : List Buf) (ok : ∀ d ∈ chain, d.Ok) (n : Nat)
      (all : n = total Buf.size chain) : shrinkLoop chain n = .ok ([], n) := by
    obtain ⟨rest, looped, okRest, totalRest, -⟩ := shrinkLoop_spec ok (Nat.le_of_eq all)
    have nothing : total Buf.size rest = 0 := by omega
    rwa [(total_eq_zero_iff Buf.size fun d member => (okRest d member).nonempty).mp nothing] at looped
  rw [shrinkBack, sizeSub_eq fits inside] at run
  unfold shrink at run
  rw [boostAssert_of (by omega), boostAssert_of inside, boostAssert_of (by omega)] at run
  simp only [ok_bind, here.walked] at run
  by_cases atStart : c.pos = 0
  · rw [if_neg (by simpa using atStart), shrinkRest, emptied _ (by simpa using
      ⟨here.okCurrent, here.okAfter⟩) _ (by rw [total_cons]; omega)] at run
    cases run
    simp [atStart]
  · rw [if_pos atStart, if_pos (by omega), shrinkRest, emptied _ here.okAfter _ (by omega)] at run
    cases run
    simp [atStart]

/-- A deletion at the end leaves every earlier byte where it is in its array. -/
theorem shrinkBack_keeps (next : Nat) (wb : b.WellFormed) (fits : b.size < sizeRange) {size : Nat}
    (positive : 0 < size) (inside : size ≤ b.size) :
    ∃ b', b.shrinkBack size = .ok b' ∧
      Holds next next b.addrs b' (b.content.take (b.size - size)) ∧
      ∀ index c, index < b.size - size → At b index c →
        ∃ c', At b' index c' ∧ c'.pos = c.pos ∧ c'.current.offset = c.current.offset := by
  obtain ⟨cut, reached⟩ := wb.at (by omega : b.size - size < b.size)
  obtain ⟨b', run, holds, head⟩ := shrinkBack_head next wb fits positive inside reached
  refine ⟨b', run, holds, fun index c kept here => ?_⟩
  have total_b' : b'.size = b.size - size := by
    rw [← holds.wf.length_content, holds.content, List.length_take, wb.length_content]
    omega
  obtain ⟨c', here'⟩ := holds.wf.at (by omega : index < b'.size)
  have walked := here.walked
  have walked' := here'.walked
  have sum := reached.sum
  refine ⟨c', here', ?_⟩
  by_cases front : index < total Buf.size cut.before
  · -- The chunk is in front of the cut, in both chains.
    obtain ⟨d, -, split, sumD, boundD⟩ := seek_atOrPast front
    have low : total Buf.size d.before ≤ index := by omega
    have high : index < total Buf.size d.before + d.current.size := by omega
    rw [walkTo, reached.split, split, Cursor.pieces, List.append_assoc, List.cons_append,
      seek_cut low high] at walked
    rw [walkTo, head, split, Cursor.pieces, List.append_assoc, List.cons_append,
      seek_cut low high] at walked'
    cases walked
    cases walked'
    exact ⟨rfl, rfl⟩
  · have bound := reached.bound
    rw [walkTo, reached.split, seek_cut (by omega) (by omega)] at walked
    rw [walkTo, head, if_neg (by omega), seek_cut (by omega) (by
      show index < _ + cut.pos
      omega)] at walked'
    cases walked
    cases walked'
    exact ⟨rfl, rfl⟩

/-- `Break(skip)` strictly inside the Buffer: the receiver keeps the first `skip`
bytes, the rest is handed out, and no chunk is in both. -/
theorem brk_holds (next : Nat) (wb : b.WellFormed) (fits : b.size < sizeRange) (bBelow : b.Below next)
    {skip : Nat} (positive : 0 < skip) (inside : skip < b.size) :
    ∃ next' b' out, b.brk next skip = .ok (next', b', out) ∧
      Holds next next' b.addrs b' (b.content.take skip) ∧
      Holds next next' b.addrs out (b.content.drop skip) ∧ ∀ a ∈ b'.addrs, a ∉ out.addrs := by
  obtain ⟨c, walked, split, sum, start, bound, before, behind⟩ :=
    wb.walkTo_beyond positive (Nat.le_of_lt inside)
  have chainOk : ∀ d ∈ c.pieces, d.Ok := split ▸ wb.ok
  have okCurrent : c.current.Ok := chainOk _ (by simp [Cursor.pieces])
  have okAfter : ∀ d ∈ c.after, d.Ok := fun d member => chainOk d (by simp [Cursor.pieces, member])
  obtain ⟨next', c', rest, broke, okC', addrC', sizeC', bytesC', okRest, totalRest, bytesRest, shape⟩ :=
    Buf.brk_spec next okCurrent okAfter start bound
  -- At a chunk's end the source moves `next_buf_` itself; `Buf::Break` would do the same.
  have halves : brkAt next c = .ok (next', c', rest) := by
    rw [← broke, brkAt]
    split
    · rename_i atEnd
      have nonzero : c.current.size ≠ 0 := by omega
      simp [Buf.brk, boostAssert, atEnd, nonzero]
    · rfl
  have bAddrs : b.addrs = c.before.map Buf.addr ++ c.current.addr :: c.after.map Buf.addr := by
    simp [addrs, split, Cursor.pieces]
  have bSize := wb.size_eq
  simp only [split, Cursor.pieces, total_append, total_cons] at bSize
  have restNonempty : rest ≠ [] := by
    rintro rfl
    simp only [total_nil] at totalRest
    clear shape
    omega
  have keptAddrs : (c.before ++ [c']).map Buf.addr = c.before.map Buf.addr ++ [c.current.addr] := by
    simp [addrC']
  have distinct := bAddrs ▸ wb.distinct
  have keptSublist : (c.before.map Buf.addr ++ [c.current.addr]).Sublist b.addrs := by
    rw [bAddrs]
    exact (List.Sublist.refl _).append (by simp)
  have afterSublist : (c.after.map Buf.addr).Sublist b.addrs := by
    rw [bAddrs]
    exact (List.sublist_cons_self _ _).trans (List.sublist_append_right _ _)
  have apart : ∀ a ∈ c.before.map Buf.addr ++ [c.current.addr], a ∉ c.after.map Buf.addr := by
    rw [List.append_cons] at distinct
    exact fun a inKept inAfter => (List.nodup_append.mp distinct).2.2 a inKept a inAfter rfl
  obtain ⟨last, lastRest⟩ : ∃ d, rest.getLast? = some d := ⟨_, List.getLast?_eq_some_getLast restNonempty⟩
  refine ⟨next', ⟨c.before ++ [c'], some c'.addr, skip⟩, ⟨rest, some last.addr, b.size - skip⟩, ?_,
    ⟨⟨?_, ?_, ?_, by simp⟩, ?_, ?_⟩, ⟨⟨okRest, ?_, ?_, by simp [lastRest]⟩, ?_, ?_⟩, ?_⟩
  · simp only [brk, walked, ok_bind, halves]
    simp [resetTail, lastRest, sizeSub_eq fits (Nat.le_of_lt inside)]
  · intro d member
    rcases List.mem_append.mp member with inBefore | isCurrent
    · exact chainOk d (by simp [Cursor.pieces, inBefore])
    · exact List.mem_singleton.mp isCurrent ▸ okC'
  · show ((c.before ++ [c']).map Buf.addr).Nodup
    exact keptAddrs ▸ keptSublist.nodup wb.distinct
  · simp only [total_append, total_cons, total_nil, sizeC']
    omega
  · rw [before]
    simp [content, bytesC']
  · refine ⟨?_, fun a member => Or.inl (keptSublist.subset ?_)⟩
    · rcases shape with ⟨_, rfl, _⟩ | ⟨_, rfl, _⟩ <;> omega
    · exact keptAddrs ▸ member
  · show (rest.map Buf.addr).Nodup
    rcases shape with ⟨_, _, rfl⟩ | ⟨_, _, d, addrD, rfl⟩
    · exact afterSublist.nodup wb.distinct
    · refine List.nodup_cons.mpr ⟨fun member => ?_, afterSublist.nodup wb.distinct⟩
      have := bBelow _ (afterSublist.subset member)
      omega
  · show b.size - skip = total Buf.size rest
    clear shape
    omega
  · rw [behind]
    exact bytesRest
  · refine ⟨?_, fun a member => ?_⟩
    · rcases shape with ⟨_, rfl, _⟩ | ⟨_, rfl, _⟩ <;> omega
    · rcases shape with ⟨_, rfl, rfl⟩ | ⟨_, rfl, d, addrD, rfl⟩
      · exact Or.inl (afterSublist.subset member)
      · rcases List.mem_cons.mp member with rfl | inAfter
        · exact Or.inr (by omega)
        · exact Or.inl (afterSublist.subset inAfter)
  · intro a inKept inOut
    have inKept : a ∈ c.before.map Buf.addr ++ [c.current.addr] := keptAddrs ▸ inKept
    rcases shape with ⟨_, _, rfl⟩ | ⟨_, _, d, addrD, rfl⟩
    · exact apart a inKept inOut
    · rcases List.mem_cons.mp inOut with rfl | inAfter
      · have := bBelow _ (keptSublist.subset inKept)
        omega
      · exact apart a inKept inAfter

/-- `Break` allocates at most one chunk. -/
theorem brk_next {skip next next' : Nat} {b b' out : Buffer} (ran : b.brk next skip = .ok (next', b', out)) :
    next' ≤ next + 1 := by
  obtain ⟨c, -, ran⟩ := bind_eq_ok.mp ran
  obtain ⟨⟨next₁, current, buf⟩, halves, ran⟩ := bind_eq_ok.mp ran
  obtain ⟨outTail, -, ran⟩ := bind_eq_ok.mp ran
  obtain ⟨tail, -, same⟩ := bind_eq_ok.mp ran
  cases same
  unfold brkAt at halves
  split at halves
  · cases halves
    exact Nat.le_succ _
  · obtain ⟨-, -, halves⟩ := bind_eq_ok.mp halves
    obtain ⟨-, -, halves⟩ := bind_eq_ok.mp halves
    split at halves
    · cases halves
      exact Nat.le_succ _
    · cases halves
      exact Nat.le_refl _

end Buffer

end LibNekit.Source
