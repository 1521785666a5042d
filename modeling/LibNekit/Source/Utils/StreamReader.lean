import LibNekit.Source.Buffer.Straight

/-!
# StreamReader

`ReadToLength` and `ReadToPattern` of stream_reader.cc. What the reader does next is
returned: another read of the flow, or a task for the runloop that hands the bytes to the
handler. Boost's searcher is a parameter.
-/
namespace LibNekit.Source

/-- The Knuth-Morris-Pratt searcher: where the first occurrence of a pattern begins. -/
structure PatternSearcher where
  find : Bytes → Bytes → Option Nat
  found : ∀ {pattern corpus : Bytes} {k : Nat}, find pattern corpus = some k →
    pattern <+: corpus.drop k ∧ ∀ j < k, ¬pattern <+: corpus.drop j
  missing : ∀ {pattern corpus : Bytes}, find pattern corpus = none → ∀ j, j ≤ corpus.length → ¬pattern <+: corpus.drop j

structure StreamReader where
  buffer : Buffer := .empty
  lengthToRead : Nat := 0
  lastPos : Nat := 0
  patternSize : Nat := 0
  deriving DecidableEq, Repr

namespace StreamReader

inductive Action where
  | read
  | post (buffer : Buffer)
  deriving DecidableEq, Repr

/-- `DoReadLength()`. `next` is the first address that no chunk has used. -/
def doReadLength (next : Nat) (r : StreamReader) : Checked (StreamReader × Action) := do
  if r.lengthToRead ≤ r.buffer.size then
    let (b, left) := r.buffer.move
    if b.size ≠ r.lengthToRead then
      let (_, b, rest) ← b.brk next r.lengthToRead
      return ({ r with buffer := rest }, .post b)
    else return ({ r with buffer := left }, .post b)
  else return (r, .read)

/-- `ReadToLength(length, handler)` -/
def readToLength (next length : Nat) (r : StreamReader) : Checked (StreamReader × Action) := do
  boostAssert (length ≠ 0)
  doReadLength next { r with lengthToRead := length }

/-- The completion of the read with data. -/
def onData (next : Nat) (data : Buffer) (r : StreamReader) : Checked (StreamReader × Action) := do
  let (buffer, _) ← r.buffer.insertBackBuffer data
  doReadLength next { r with buffer }

/-- The end of `DoReadPattern`: the first `len` bytes leave, as they do in `DoReadLength`. -/
def handOver (next len : Nat) (r : StreamReader) : Checked (StreamReader × Action) := do
  let (b, left) := r.buffer.move
  if b.size ≠ len then
    let (_, b, rest) ← b.brk next len
    return ({ r with buffer := rest }, .post b)
  else return ({ r with buffer := left }, .post b)

/-- The matcher's call operator. It holds two iterators into `pattern`, a parameter of
`ReadToPattern` (`none` once that has returned), and follows them when the corpus has room
for the pattern. -/
def search (searcher : PatternSearcher) (pattern : Option Bytes) (patternSize : Nat) (corpus : Bytes) :
    Checked (Option Nat) :=
  if corpus.length < patternSize then .ok none
  else
    match pattern with
    | some pattern => .ok (searcher.find pattern corpus)
    | none => .error .danglingPointer

/-- `DoReadPattern()` -/
def doReadPattern (searcher : PatternSearcher) (next : Nat) (pattern : Option Bytes) (r : StreamReader) :
    Checked (StreamReader × Action) := do
  let corpus ← r.buffer.walkInternalChunk (fun slice buffers => .ok (true, buffers ++ slice.bytes)) r.lastPos []
  match ← search searcher pattern r.patternSize corpus with
  | none => return ({ r with lastPos := r.buffer.size - min r.buffer.size r.patternSize }, .read)
  | some distance => handOver next (distance + r.patternSize + r.lastPos) r

/-- `ReadToPattern(pattern, handler)` -/
def readToPattern (searcher : PatternSearcher) (next : Nat) (pattern : Bytes) (r : StreamReader) :
    Checked (StreamReader × Action) := do
  boostAssert (pattern.length ≠ 0)
  doReadPattern searcher next (some pattern) { r with lastPos := 0, patternSize := pattern.length }

/-- The completion of a read for a pattern, when `ReadToPattern` has long returned. -/
def onPatternData (searcher : PatternSearcher) (next : Nat) (data : Buffer) (r : StreamReader) :
    Checked (StreamReader × Action) := do
  let (buffer, _) ← r.buffer.insertBackBuffer data
  doReadPattern searcher next none { r with buffer }

/-- `ConsumeRemainData()` -/
def consumeRemainData (r : StreamReader) : Buffer × StreamReader :=
  (r.buffer.move.1, { r with buffer := r.buffer.move.2 })

/-! ## What the reader does -/

open LibNekit.Source.Buffer

variable {next : Nat} {r : StreamReader} {bytes more : Bytes} {data : Buffer}

/-- The first `len` bytes have left, in a Buffer of their own. -/
structure Cut (next len : Nat) (r r' : StreamReader) (b : Buffer) : Prop where
  front : b.content = r.buffer.content.take len
  back : r'.buffer.content = r.buffer.content.drop len
  wf : r'.buffer.WellFormed
  below : r'.buffer.Below (next + 1)

theorem handOver_cut {len : Nat} (wf : r.buffer.WellFormed) (below : r.buffer.Below next)
    (fits : r.buffer.size < sizeRange) (positive : 0 < len) (inside : len ≤ r.buffer.size) :
    ∃ r' b, handOver next len r = .ok (r', .post b) ∧ Cut next len r r' b := by
  have length := wf.length_content
  rw [handOver]
  dsimp only [Buffer.move]
  by_cases whole : r.buffer.size = len
  · rw [if_neg (not_not.mpr whole)]
    refine ⟨{ r with buffer := empty }, r.buffer, rfl, ?_, ?_, empty_wellFormed, nofun⟩
    · rw [List.take_of_length_le (by omega)]
    · rw [List.drop_of_length_le (by omega)]
      rfl
  · obtain ⟨next', b, rest, ran, front, back, -⟩ :=
      brk_holds next wf fits below positive (Nat.lt_of_le_of_ne inside (Ne.symm whole))
    rw [if_pos whole]
    refine ⟨{ r with buffer := rest }, b, by rw [ran]; rfl, front.content, back.content, back.wf, ?_⟩
    exact (back.alloc.below below).mono (brk_next ran)

theorem doReadLength_eq (enough : r.lengthToRead ≤ r.buffer.size) :
    doReadLength next r = handOver next r.lengthToRead r := by
  rw [doReadLength, if_pos enough]
  rfl

theorem doReadLength_waits (short : r.buffer.size < r.lengthToRead) : doReadLength next r = .ok (r, .read) := by
  rw [doReadLength, if_neg (by omega)]
  rfl

variable {searcher : PatternSearcher} {pattern : Bytes}

theorem search_short {which : Option Bytes} {size : Nat} {corpus : Bytes} (short : corpus.length < size) :
    search searcher which size corpus = .ok none := if_pos short

theorem search_some {size : Nat} {corpus : Bytes} (enough : ¬corpus.length < size) :
    search searcher (some pattern) size corpus = .ok (searcher.find pattern corpus) := if_neg enough

theorem search_none {size : Nat} {corpus : Bytes} (enough : ¬corpus.length < size) :
    search searcher none size corpus = .error .danglingPointer := if_neg enough

/-- Too few bytes to look at: the matcher does not look at the pattern either. -/
theorem doReadPattern_short (wf : r.buffer.WellFormed) (inside : r.lastPos ≤ r.buffer.size) (which : Option Bytes)
    (short : r.buffer.size - r.lastPos < r.patternSize) : doReadPattern searcher next which r =
      .ok ({ r with lastPos := r.buffer.size - min r.buffer.size r.patternSize }, .read) := by
  have length : (r.buffer.content.drop r.lastPos).length < r.patternSize := by
    rw [List.length_drop, wf.length_content]
    exact short
  rw [doReadPattern, wf.walk_append_from inside, ok_bind, List.nil_append, search_short length]
  rfl

/-- Enough bytes, after a read: the matcher follows its iterators. -/
theorem doReadPattern_dangling (wf : r.buffer.WellFormed) (inside : r.lastPos ≤ r.buffer.size)
    (enough : r.patternSize ≤ r.buffer.size - r.lastPos) :
    doReadPattern searcher next none r = .error .danglingPointer := by
  have length : ¬(r.buffer.content.drop r.lastPos).length < r.patternSize := by
    rw [List.length_drop, wf.length_content]
    omega
  rw [doReadPattern, wf.walk_append_from inside, ok_bind, List.nil_append, search_none length]
  rfl

/-- With the pattern at hand, the reader waits or hands over bytes that end with it. -/
theorem doReadPattern_looks (wf : r.buffer.WellFormed) (below : r.buffer.Below next)
    (fits : r.buffer.size < sizeRange) (inside : r.lastPos ≤ r.buffer.size) (positive : pattern ≠ [])
    (size : r.patternSize = pattern.length) :
    doReadPattern searcher next (some pattern) r =
        .ok ({ r with lastPos := r.buffer.size - min r.buffer.size r.patternSize }, .read) ∨
      ∃ r' b len, doReadPattern searcher next (some pattern) r = .ok (r', .post b) ∧ Cut next len r r' b ∧
        pattern <:+ b.content := by
  by_cases short : r.buffer.size - r.lastPos < r.patternSize
  · exact Or.inl (doReadPattern_short wf inside _ short)
  · have length : ¬(r.buffer.content.drop r.lastPos).length < r.patternSize := by
      rw [List.length_drop, wf.length_content]
      exact short
    rw [doReadPattern, wf.walk_append_from inside, ok_bind, List.nil_append, search_some length, ok_bind]
    cases sought : searcher.find pattern (r.buffer.content.drop r.lastPos) with
    | none => exact Or.inl rfl
    | some k =>
      have here := (searcher.found sought).1
      rw [List.drop_drop] at here
      have room := here.length_le
      have lengthPos := List.length_pos_iff.mpr positive
      rw [List.length_drop, wf.length_content] at room
      obtain ⟨r', b, ran, cut⟩ := @handOver_cut next r (k + r.patternSize + r.lastPos) wf below fits
        (by omega) (by omega)
      refine Or.inr ⟨r', b, _, ran, cut, ?_⟩
      have front : r.buffer.content.take (k + r.patternSize + r.lastPos) =
          r.buffer.content.take (r.lastPos + k) ++ pattern := by
        rw [show k + r.patternSize + r.lastPos = r.lastPos + k + pattern.length by omega, List.take_add,
          List.prefix_iff_eq_take.mp here, List.length_take, Nat.min_eq_left (by rw [List.length_drop, wf.length_content]; omega)]
      rw [cut.front, front]
      exact List.suffix_append _ _

theorem doReadLength_short (built : Built r.buffer bytes) (short : bytes.length < r.lengthToRead) :
    doReadLength next r = .ok (r, .read) := by
  rw [doReadLength, if_neg (by rw [built.size_eq]; omega)]
  rfl

/-- Enough bytes are handed over, and the reader keeps the rest. -/
theorem doReadLength_enough (built : Built r.buffer bytes) (below : r.buffer.Below next)
    (fits : bytes.length < sizeRange) (positive : r.lengthToRead ≠ 0) (enough : r.lengthToRead ≤ bytes.length) :
    ∃ b rest, doReadLength next r = .ok ({ r with buffer := rest }, .post b) ∧
      Built b (bytes.take r.lengthToRead) ∧ Built rest (bytes.drop r.lengthToRead) ∧
      ∀ a ∈ rest.addrs ++ b.addrs, a ∈ r.buffer.addrs ∨ a = next := by
  have size := built.size_eq
  rw [doReadLength, if_pos (by omega)]
  dsimp only [Buffer.move]
  by_cases whole : r.buffer.size = r.lengthToRead
  · rw [if_neg (not_not.mpr whole)]
    refine ⟨r.buffer, empty, rfl, ?_, ?_, fun a member => Or.inl (by simpa using member)⟩
    · rwa [List.take_of_length_le (by omega)]
    · rw [List.drop_of_length_le (by omega)]
      exact empty_built
  · rw [if_pos whole]
    obtain ⟨next', b, rest, ran, straight, restStraight, holds, restHolds, few⟩ :=
      built.straight.brk_eq built.wf (by omega) below (by omega : 0 < r.lengthToRead) (by omega)
    refine ⟨b, rest, by rw [ran]; rfl, ⟨holds.wf, straight, by rw [holds.content, built.content]⟩,
      ⟨restHolds.wf, restStraight, by rw [restHolds.content, built.content]⟩, fun a member => ?_⟩
    have origin : a ∈ r.buffer.addrs ∨ (next ≤ a ∧ a < next') := by
      rcases List.mem_append.mp member with inRest | inFront
      · exact restHolds.alloc.origin a inRest
      · exact holds.alloc.origin a inFront
    rcases origin with old | new
    · exact Or.inl old
    · exact Or.inr (by omega)

/-- A read adds its bytes to those that wait. -/
theorem onData_eq (built : Built r.buffer bytes) (fresh : Built data more)
    (disjoint : ∀ a ∈ r.buffer.addrs, a ∉ data.addrs) :
    ∃ b, r.onData next data = doReadLength next { r with buffer := b } ∧ Built b (bytes ++ more) ∧
      ∀ a ∈ b.addrs, a ∈ r.buffer.addrs ∨ a ∈ data.addrs := by
  obtain ⟨b, left, ran, grown, addrs⟩ := built.insertBackBuffer fresh disjoint
  exact ⟨b, by rw [onData, ran]; rfl, grown, addrs⟩

end StreamReader

end LibNekit.Source
