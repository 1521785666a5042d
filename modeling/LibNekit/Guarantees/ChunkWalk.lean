import LibNekit.Source.Buffer.Slices

/-!
# Walking over chunks, and back from an address

`WalkInternalChunk` shows its walker what lies behind `from`, chunk by chunk, and
`FindLocation` undoes the step from a logical index to an address.
-/
namespace LibNekit.Guarantees.ChunkWalk

open LibNekit.Source LibNekit.Source.Buffer LibNekit.Library.Rope

variable {σ : Type} {b : Buffer} {start : Nat} {c : Cursor Buf}

/-! ## What a walk visits -/

/-- The slices one after another, until the walker returns false. -/
def visit (walker : Slice → σ → Checked (Bool × σ)) : List Slice → σ → Checked σ
  | [], s => .ok s
  | slice :: rest, s => do
    let (more, s) ← walker slice s
    if more then visit walker rest s else return s

/-- Whole chunks. -/
def whole (chain : List Buf) : List Slice := chain.map fun c => sliceOf c 0

/-- What lies behind a cursor. -/
def slicesFrom (c : Cursor Buf) : List Slice := sliceOf c.current c.pos :: whole c.after

theorem walkLoop_whole (walker : Slice → σ → Checked (Bool × σ)) (chain : List Buf) (s : σ) :
    walkLoop walker chain 0 s = visit walker (whole chain) s := by
  induction chain generalizing s with
  | nil => rfl
  | cons c rest ih =>
    simp only [walkLoop, whole, List.map_cons, visit]
    simp only [ih, whole]

theorem walk_visits (inside : start < b.size) (here : At b start c)
    (walker : Slice → σ → Checked (Bool × σ)) (s : σ) :
    b.walkInternalChunk walker start s = visit walker (slicesFrom c) s := by
  unfold walkInternalChunk
  rw [boostAssert_of (Nat.le_of_lt inside)]
  simp only [ok_bind, if_neg (Nat.ne_of_lt inside), here.walked]
  simp only [walkLoop, slicesFrom, visit, walkLoop_whole]

theorem sliceOf_bytes {d : Buf} (ok : d.Ok) {skip : Nat} (within : skip < d.size) :
    (sliceOf d skip).bytes = d.bytes.drop skip ∧ (sliceOf d skip).bytes.length = d.size - skip := by
  have same : (sliceOf d skip).bytes = d.bytes.drop skip := Buf.window_rest ok (Nat.le_of_lt within)
  exact ⟨same, by rw [same, List.length_drop, Buf.length_bytes ok]⟩

theorem slicesFrom_nonempty (here : At b start c) : ∀ slice ∈ slicesFrom c, slice.bytes ≠ [] := by
  have some_bytes {d : Buf} (ok : d.Ok) {skip : Nat} (within : skip < d.size) : (sliceOf d skip).bytes ≠ [] := by
    apply List.ne_nil_of_length_pos
    rw [(sliceOf_bytes ok within).2]
    omega
  intro slice member
  rcases List.mem_cons.mp member with rfl | later
  · exact some_bytes here.okCurrent here.bound
  · obtain ⟨d, inAfter, rfl⟩ := List.mem_map.mp later
    have ok := here.okAfter d inAfter
    exact some_bytes ok ok.nonempty

theorem slicesFrom_bytes (here : At b start c) : (slicesFrom c).flatMap Slice.bytes = b.content.drop start := by
  have chunks : ∀ chain : List Buf, (∀ d ∈ chain, d.Ok) →
      (whole chain).flatMap Slice.bytes = chain.flatMap Buf.bytes := by
    intro chain ok
    induction chain with
    | nil => rfl
    | cons d rest ih =>
      have first := ok d List.mem_cons_self
      rw [whole, List.map_cons, List.flatMap_cons, List.flatMap_cons,
        (sliceOf_bytes first first.nonempty).1, List.drop_zero]
      exact congrArg _ (ih fun e member => ok e (List.mem_cons_of_mem d member))
  rw [slicesFrom, List.flatMap_cons, (sliceOf_bytes here.okCurrent here.bound).1, chunks c.after here.okAfter,
    here.behind]

/-- A walker that writes down what it sees, and goes on as long as `goOn` says so. -/
def recorder (goOn : List Slice → Bool) (slice : Slice) (seen : List Slice) : Checked (Bool × List Slice) :=
  .ok (goOn (seen ++ [slice]), seen ++ [slice])

/-- It sees the slices in order, and none behind the one at which it returns false. -/
theorem visit_records (goOn : List Slice → Bool) (slices seen : List Slice) :
    ∃ n ≤ slices.length, visit (recorder goOn) slices seen = .ok (seen ++ slices.take n) ∧
      (∀ m, 0 < m → m < n → goOn (seen ++ slices.take m) = true) ∧
      (n = slices.length ∨ 0 < n ∧ goOn (seen ++ slices.take n) = false) := by
  induction slices generalizing seen with
  | nil => exact ⟨0, Nat.le_refl _, by simp [visit], by simp, Or.inl rfl⟩
  | cons slice rest ih =>
    cases goes : goOn (seen ++ [slice]) with
    | false =>
      refine ⟨1, by simp, ?_, fun m positive less => by omega, Or.inr ⟨Nat.one_pos, by simpa using goes⟩⟩
      simp [visit, recorder, goes]
    | true =>
      obtain ⟨n, inside, visited, before, last⟩ := ih (seen ++ [slice])
      have longer : ∀ m, seen ++ (slice :: rest).take (m + 1) = seen ++ [slice] ++ rest.take m := by
        intro m
        simp
      refine ⟨n + 1, Nat.succ_le_succ inside, ?_, fun m positive less => ?_, ?_⟩
      · rw [longer, ← visited]
        simp [visit, recorder, goes]
      · obtain ⟨m, rfl⟩ := Nat.exists_eq_succ_of_ne_zero (Nat.ne_of_gt positive)
        rw [Nat.succ_eq_add_one, longer]
        rcases Nat.eq_zero_or_pos m with rfl | later
        · simpa using goes
        · exact before m later (by omega)
      · rw [longer]
        rcases last with all | ⟨-, stops⟩
        · exact Or.inl (by rw [List.length_cons, all])
        · exact Or.inr ⟨Nat.succ_pos n, stops⟩

/-! ## Addresses -/

/-- The address of the byte that is `k` bytes behind the beginning of the walk. -/
def addressOf : List Slice → Nat → Option BytePtr
  | [], _ => none
  | slice :: rest, k =>
    if k < slice.bytes.length then some { slice.data with index := slice.data.index + k }
    else addressOf rest (k - slice.bytes.length)

/-- What lies at an address. -/
def byteAt (b : Buffer) (pointer : BytePtr) : Checked (Option UInt8) := do
  let c ← readAt b.head pointer.buf
  return c.data[pointer.index]?

/-- The address that a cursor stands on. -/
def pointerOf (c : Cursor Buf) : BytePtr := ⟨c.current.addr, c.current.offset + c.pos⟩

theorem addressOf_seek {chain : List Buf} (ok : ∀ d ∈ chain, d.Ok) (i : Nat) :
    addressOf (whole chain) i = (seek Buf.size atOrPast chain i).map pointerOf := by
  induction chain generalizing i with
  | nil => rfl
  | cons d rest ih =>
    have first := ok d List.mem_cons_self
    have length := (sliceOf_bytes first first.nonempty).2
    rw [Nat.sub_zero] at length
    rw [whole, List.map_cons, addressOf, seek, length]
    by_cases within : i < d.size
    · rw [if_pos within, if_neg (by simp [atOrPast, within])]
      rfl
    · rw [if_neg within, if_pos (by simpa [atOrPast] using within)]
      have more := ih (fun e member => ok e (List.mem_cons_of_mem d member)) (i - d.size)
      rw [whole] at more
      rw [more, Option.map_map]
      rfl

/-- A walk that begins later hands out the same addresses. -/
theorem addressOf_behind {before after : List Buf} {current : Buf} {pos : Nat}
    (ok : ∀ d ∈ before ++ current :: after, d.Ok) (within : pos < current.size) (k : Nat) :
    addressOf (sliceOf current pos :: whole after) k =
      addressOf (whole (before ++ current :: after)) (total Buf.size before + (pos + k)) := by
  induction before with
  | nil =>
    have okCurrent := ok current (by simp)
    have length := (sliceOf_bytes okCurrent within).2
    have size := (sliceOf_bytes okCurrent okCurrent.nonempty).2
    rw [List.nil_append, total_nil, Nat.zero_add, whole, whole, List.map_cons, addressOf, addressOf, length, size,
      Nat.sub_zero]
    by_cases here : pos + k < current.size
    · rw [if_pos (by omega), if_pos here]
      simp only [sliceOf, Nat.add_zero, Nat.add_assoc]
    · rw [if_neg (by omega), if_neg here, show k - (current.size - pos) = pos + k - current.size by omega]
  | cons d before ih =>
    have first := ok d (by simp)
    have length := (sliceOf_bytes first first.nonempty).2
    rw [ih fun e member => ok e (List.mem_cons_of_mem d member), List.cons_append]
    conv => rhs; rw [whole, List.map_cons, addressOf]
    rw [total_cons, length, Nat.sub_zero, if_neg (by omega), ← whole]
    congr 1
    omega

theorem readAt_current (wf : b.WellFormed) (here : At b start c) : readAt b.head c.current.addr = .ok c.current := by
  have distinct := wf.distinct
  rw [addrs, here.split] at distinct
  have found : ∀ before : List Buf, ((before ++ c.current :: c.after).map Buf.addr).Nodup →
      readAt (before ++ c.current :: c.after) c.current.addr = .ok c.current := by
    intro before
    induction before with
    | nil => simp [readAt]
    | cons d before ih =>
      intro distinct
      rw [List.cons_append, List.map_cons, List.nodup_cons] at distinct
      have other : d.addr ≠ c.current.addr := fun same => distinct.1 (by rw [same]; simp)
      rw [List.cons_append, readAt, if_neg other]
      exact ih distinct.2
  rw [here.split]
  exact found c.before distinct

/-- Every byte behind the beginning of a walk is found again by its address. -/
theorem lookup (wf : b.WellFormed) (here : At b start c) {i : Nat} (behind : start ≤ i) (inside : i < b.size) :
    ∃ pointer, addressOf (slicesFrom c) (i - start) = some pointer ∧ byteAt b pointer = .ok b.content[i]? ∧
      b.findLocation pointer = .ok i := by
  obtain ⟨d, found⟩ := wf.at inside
  have sum := here.sum
  refine ⟨pointerOf d, ?_, ?_, ?_⟩
  · have walked : seek Buf.size atOrPast b.head i = some d := by
      have reached := found.walked
      unfold walkTo at reached
      cases sought : seek Buf.size atOrPast b.head i with
      | none =>
        rw [sought] at reached
        cases reached
      | some e =>
        rw [sought] at reached
        exact congrArg some (Except.ok.inj reached)
    rw [slicesFrom, addressOf_behind here.ok here.bound, ← here.split,
      show total Buf.size c.before + (c.pos + (i - start)) = i by omega, addressOf_seek wf.ok, walked]
    rfl
  · unfold byteAt pointerOf
    dsimp only
    rw [readAt_current wf found, found.content_getElem?]
    rfl
  · exact found.findLocation wf (k := 0) found.bound

/-! ## Every walk -/

/-- For every well-formed Buffer and every `from` inside it: what a walk visits, where a
walker that returns false stops it, and that `FindLocation` takes the address of each byte
handed out back to its index. -/
theorem walk_and_lookup (b : Buffer) (wf : b.WellFormed) (start : Nat) (inside : start ≤ b.size) :
    ∃ slices : List Slice,
      (∀ slice ∈ slices, slice.bytes ≠ []) ∧ slices.flatMap Slice.bytes = b.content.drop start ∧
      (∀ (σ : Type) (walker : Slice → σ → Checked (Bool × σ)) (s : σ),
        b.walkInternalChunk walker start s = visit walker slices s) ∧
      (∀ goOn : List Slice → Bool, ∃ n ≤ slices.length,
        b.walkInternalChunk (recorder goOn) start [] = .ok (slices.take n) ∧
        (∀ m, 0 < m → m < n → goOn (slices.take m) = true) ∧
        (n = slices.length ∨ 0 < n ∧ goOn (slices.take n) = false)) ∧
      ∀ i, start ≤ i → i < b.size →
        ∃ pointer, addressOf slices (i - start) = some pointer ∧ byteAt b pointer = .ok b.content[i]? ∧
          b.findLocation pointer = .ok i := by
  suffices found : ∃ slices : List Slice,
      (∀ slice ∈ slices, slice.bytes ≠ []) ∧ slices.flatMap Slice.bytes = b.content.drop start ∧
      (∀ (σ : Type) (walker : Slice → σ → Checked (Bool × σ)) (s : σ),
        b.walkInternalChunk walker start s = visit walker slices s) ∧
      ∀ i, start ≤ i → i < b.size →
        ∃ pointer, addressOf slices (i - start) = some pointer ∧ byteAt b pointer = .ok b.content[i]? ∧
          b.findLocation pointer = .ok i by
    obtain ⟨slices, nonempty, bytes, visits, addresses⟩ := found
    refine ⟨slices, nonempty, bytes, visits, fun goOn => ?_, addresses⟩
    rw [visits]
    exact visit_records goOn slices []
  rcases Nat.eq_or_lt_of_le inside with rfl | within
  · -- nothing lies behind the end, and the walker is not called
    refine ⟨[], by simp, ?_, fun σ walker s => ?_, fun i behind before => by omega⟩
    · rw [← wf.length_content, List.drop_length]
      rfl
    · unfold walkInternalChunk
      rw [boostAssert_of (Nat.le_refl _)]
      simp only [ok_bind, if_true, pure_eq_ok, visit]
  · obtain ⟨c, here⟩ := wf.at within
    exact ⟨slicesFrom c, slicesFrom_nonempty here, slicesFrom_bytes here,
      fun _ walker s => walk_visits within here walker s, fun i behind before => lookup wf here behind before⟩

/-- The rule at a Buffer with room on both sides of its first chunk, from inside that chunk. -/
theorem walk_and_lookup_inside_chunk :
    ∃ b : Buffer, b.WellFormed ∧ b.content = [1, 2, 3] ∧ ∃ slices : List Slice,
      (∀ slice ∈ slices, slice.bytes ≠ []) ∧ slices.flatMap Slice.bytes = b.content.drop 1 ∧
      (∀ (σ : Type) (walker : Slice → σ → Checked (Bool × σ)) (s : σ),
        b.walkInternalChunk walker 1 s = visit walker slices s) ∧
      (∀ goOn : List Slice → Bool, ∃ n ≤ slices.length,
        b.walkInternalChunk (recorder goOn) 1 [] = .ok (slices.take n) ∧
        (∀ m, 0 < m → m < n → goOn (slices.take m) = true) ∧
        (n = slices.length ∨ 0 < n ∧ goOn (slices.take n) = false)) ∧
      ∀ i, 1 ≤ i → i < b.size →
        ∃ pointer, addressOf slices (i - 1) = some pointer ∧ byteAt b pointer = .ok b.content[i]? ∧
          b.findLocation pointer = .ok i := by
  have wf : WellFormed ⟨[⟨0, [9, 1, 2, 9], 1, 2⟩, ⟨1, [3], 0, 1⟩], some 1, 3⟩ := by
    refine ⟨fun d member => ?_, by decide, by decide, by decide⟩
    rcases List.mem_cons.mp member with rfl | rest
    · exact ⟨by decide, by decide⟩
    · obtain rfl := List.mem_singleton.mp rest
      exact ⟨by decide, by decide⟩
  exact ⟨_, wf, by decide, walk_and_lookup _ wf 1 (by decide)⟩

end LibNekit.Guarantees.ChunkWalk
