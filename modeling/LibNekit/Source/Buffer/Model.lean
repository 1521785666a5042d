import LibNekit.Source.Runtime
import LibNekit.Library.Rope

/-!
# `Buffer`: a chain of `Buf` chunks

Source: src/utils/buffer.cc, include/nekit/utils/buffer.h.

`std::unique_ptr` links make the chunks reachable from `head_` a list, so the
chain is a list of `Buf`s. A `Buf` also has an address, because `tail_` is a raw
pointer: it is compared with other pointers and written through, and what such a
write does depends on where (and whether) the node is found in the chain.
`make_unique` takes the next unused address, so functions that allocate take the
allocator's counter and return it.

`capacity_` never changes after construction and is the length of the array
`data_`, so it is read off `data`. New arrays are zeroed, as `make_unique` does.
-/
namespace LibNekit.Source

open LibNekit.Library.Rope

/-- One chunk: `data_`, `offset_`, `size_`, and the node's own address. -/
structure Buf where
  addr : Nat
  data : Bytes
  offset : Nat
  size : Nat
  deriving DecidableEq, Repr

namespace Buf

def capacity (b : Buf) : Nat := b.data.length

/-- The bytes a chunk contributes: `data_[offset_, offset_ + size_)`. -/
def bytes (b : Buf) : Bytes := (b.data.drop b.offset).take b.size

/-- `Buf(size_t size)`. -/
def make (addr size : Nat) : Buf := ⟨addr, List.replicate size 0, 0, size⟩

/-- `memcpy`/`memmove` of `source` to index `at` of the chunk's array. -/
def overwrite (b : Buf) (start : Nat) (source : Bytes) : Buf :=
  { b with data := b.data.take start ++ source ++ b.data.drop (start + source.length) }

/-- `Buf::Break(pos)` of a chunk followed by `after`: what stays, and the chain
that is handed out. -/
def brk (next : Nat) (b : Buf) (after : List Buf) (pos : Nat) :
    Checked (Nat × Buf × List Buf) := do
  boostAssert (pos ≠ 0)
  boostAssert (pos ≤ b.size)
  if pos = b.size then
    return (next, b, after)
  let rest : Buf := (make next (b.size - pos)).overwrite 0
    ((b.data.drop (b.offset + pos)).take (b.size - pos))
  return (next + 1, { b with size := pos }, rest :: after)

end Buf

/-- A raw pointer into a chunk's array: the node and the index into `data_`. -/
structure BytePtr where
  buf : Nat
  index : Nat
  deriving DecidableEq, Repr

/-- A contiguous slice handed out by a chunk walk. -/
structure Slice where
  data : BytePtr
  bytes : Bytes
  deriving DecidableEq, Repr

structure Buffer where
  head : List Buf
  tail : Option Nat
  size : Nat
  deriving DecidableEq, Repr

namespace Buffer

/-- Assign `next_buf_` of the node at `addr`; the chunks it owned before are
destroyed. -/
def setNext : List Buf → Nat → List Buf → Checked (List Buf)
  | [], _, _ => .error .danglingPointer
  | c :: rest, addr, after =>
    if c.addr = addr then .ok (c :: after)
    else do return c :: (← setNext rest addr after)

/-- Read the node at `addr`. -/
def readAt : List Buf → Nat → Checked Buf
  | [], _ => .error .danglingPointer
  | c :: rest, addr => if c.addr = addr then .ok c else readAt rest addr

/-- Update the node at `addr` in place. -/
def updateAt : List Buf → Nat → (Buf → Buf) → Checked (List Buf)
  | [], _, _ => .error .danglingPointer
  | c :: rest, addr, f =>
    if c.addr = addr then .ok (f c :: rest)
    else do return c :: (← updateAt rest addr f)

/-- `while (index >= current->size_)`, and the `>` form used for gaps. -/
def walkTo (past : Nat → Nat → Bool) (chain : List Buf) (pos : Nat) : Checked (Cursor Buf) :=
  deref (seek Buf.size past chain pos)

def empty : Buffer := ⟨[], none, 0⟩

/-- `Buffer(size_t size)`. -/
def make (next size : Nat) : Nat × Buffer :=
  if size ≠ 0 then (next + 1, ⟨[Buf.make next size], some next, size⟩) else (next, empty)

/-- Move construction and move assignment: the new value of the target, and the
moved-from source. The chunks the target owned before are destroyed. -/
def move (source : Buffer) : Buffer × Buffer :=
  (⟨source.head, source.tail, source.size⟩, ⟨[], none, 0⟩)

/-- `operator[]`, reading. -/
def index (b : Buffer) (i : Nat) : Checked UInt8 := do
  boostAssert (i < b.size)
  let c ← walkTo atOrPast b.head i
  match c.current.data[c.pos]? with
  | some v => return v
  | none => throw .outOfBounds

/-- `(*this)[i] = v`. -/
def setIndex (b : Buffer) (i : Nat) (v : UInt8) : Checked Buffer := do
  boostAssert (i < b.size)
  let c ← walkTo atOrPast b.head i
  if c.pos < c.current.data.length then
    return { b with head := c.before ++ { c.current with data := c.current.data.set c.pos v } :: c.after }
  else throw .outOfBounds

/-- What the insertions leave in a `Buffer&&` argument: only `head_` is moved out. -/
def movedOut (buffer : Buffer) : Buffer := { buffer with head := [] }

/-- `InsertFront(Buffer&&)`. Like the other `Buffer&&` operations it returns the
receiver and what is left in the argument. -/
def insertFrontBuffer (b buffer : Buffer) : Checked (Buffer × Buffer) :=
  if buffer.size = 0 then .ok (b, buffer)
  else do
    let last ← deref buffer.tail
    let chain ← setNext buffer.head last b.head
    return (⟨chain, if b.tail.isNone then buffer.tail else b.tail, b.size + buffer.size⟩,
      buffer.movedOut)

/-- `InsertFront(Buffer(size))`. -/
def insertFrontNew (next : Nat) (b : Buffer) (size : Nat) : Checked (Nat × Buffer) := do
  let (b, _) ← b.insertFrontBuffer (make next size).2
  return ((make next size).1, b)

/-- `InsertFront(size_t)`. -/
def insertFrontSize (next : Nat) (b : Buffer) (size : Nat) : Checked (Nat × Buffer) :=
  match b.head with
  | c :: rest =>
    if size ≤ c.offset then
      .ok (next, ⟨{ c with offset := c.offset - size, size := c.size + size } :: rest,
        b.tail, b.size + size⟩)
    else insertFrontNew next b size
  | [] => insertFrontNew next b size

/-- `InsertBack(Buffer&&)`. -/
def insertBackBuffer (b buffer : Buffer) : Checked (Buffer × Buffer) :=
  if buffer.size = 0 then .ok (b, buffer)
  else if b.head ≠ [] then do
    let last ← deref b.tail
    let chain ← setNext b.head last buffer.head
    return (⟨chain, buffer.tail, b.size + buffer.size⟩, buffer.movedOut)
  else .ok (⟨buffer.head, buffer.tail, b.size + buffer.size⟩, buffer.movedOut)

/-- `InsertBack(Buffer(size))`. -/
def insertBackNew (next : Nat) (b : Buffer) (size : Nat) : Checked (Nat × Buffer) := do
  let (b, _) ← b.insertBackBuffer (make next size).2
  return ((make next size).1, b)

/-- `InsertBack(size_t)`. -/
def insertBackSize (next : Nat) (b : Buffer) (size : Nat) : Checked (Nat × Buffer) :=
  match b.tail with
  | some last => do
    let c ← readAt b.head last
    if size ≤ c.capacity - c.offset - c.size then
      let chain ← updateAt b.head last fun c => { c with size := c.size + size }
      return (next, ⟨chain, b.tail, b.size + size⟩)
    else insertBackNew next b size
  | none => insertBackNew next b size

/-- `InsertBufAt(buf, buffer, pos)`, with `buf` given by the cursor that reached it. -/
def insertBufAt (next : Nat) (b : Buffer) (c : Cursor Buf) (buffer : Buffer) (pos : Nat) :
    Checked (Nat × Buffer × Buffer) := do
  let (next, buf, newBuf) ← c.current.brk next c.after pos
  let last ← deref buffer.tail
  let middle ← setNext buffer.head last newBuf
  let tail :=
    if some buf.addr = b.tail then
      match newBuf with
      | first :: _ => some first.addr
      | [] => buffer.tail
    else b.tail
  return (next, ⟨c.before ++ buf :: middle, tail, b.size + buffer.size⟩, buffer.movedOut)

/-- `InsertBufAt(current, Buffer(len), skip)`. -/
def insertNewAt (next : Nat) (b : Buffer) (c : Cursor Buf) (len : Nat) :
    Checked (Nat × Buffer) := do
  let (next', b, _) ← b.insertBufAt (make next len).1 c (make next len).2 c.pos
  return (next', b)

/-- `Insert(Buffer&&, pos)`. -/
def insertBuffer (next : Nat) (b buffer : Buffer) (pos : Nat) :
    Checked (Nat × Buffer × Buffer) := do
  boostAssert (pos ≤ b.size)
  if buffer.size = 0 then return (next, b, buffer)
  if pos = b.size then return (next, ← insertBackBuffer b buffer)
  if pos = 0 then return (next, ← insertFrontBuffer b buffer)
  let c ← walkTo beyond b.head pos
  insertBufAt next b c buffer c.pos

/-- The reuse branch of `Insert(skip, len)` at the end of `current`: the gap is
taken from the spare capacity behind it and then in front of the next chunk, when
they suffice. -/
def useSpare (current : Buf) (after : List Buf) (len : Nat) : Option (List Buf) :=
  let remain := current.capacity - current.offset - current.size
  let grown := { current with size := current.size + min len remain }
  let left := len - min len remain
  match after with
  | following :: rest =>
    if len ≤ remain ∨ len ≤ remain + following.offset then
      let following' :=
        if left ≠ 0 then
          { following with offset := following.offset - left, size := following.size + left }
        else following
      some (grown :: following' :: rest)
    else none
  | [] => if len ≤ remain then some [grown] else none

/-- `Insert(skip, len)`. -/
def insertSize (next : Nat) (b : Buffer) (skip len : Nat) : Checked (Nat × Buffer) := do
  boostAssert (skip ≤ b.size)
  if len = 0 then return (next, b)
  if skip = b.size then return (← insertBackSize next b len)
  if skip = 0 then return (← insertFrontSize next b len)
  let c ← walkTo beyond b.head skip
  if c.pos = c.current.size then
    match useSpare c.current c.after len with
    | some chain => return (next, ⟨c.before ++ chain, b.tail, b.size + len⟩)
    | none => insertNewAt next b c len
  else insertNewAt next b c len

/-- The `while (len)` loop of `Shrink` on the chunks from `current` on: what is
left of them, and the bytes removed from `size_`. -/
def shrinkLoop : List Buf → Nat → Checked (List Buf × Nat)
  | [], len => if len = 0 then .ok ([], 0) else .error .nullPointer
  | c :: rest, len =>
    if len = 0 then .ok (c :: rest, 0)
    else
      let removeLength := min len c.size
      let c' := { c with offset := c.offset + removeLength, size := c.size - removeLength }
      if c'.size ≠ 0 then .ok (c' :: rest, removeLength)
      else do
        let (chain, removed) ← shrinkLoop rest (len - removeLength)
        return (chain, removeLength + removed)

/-- The end of `Shrink`: delete from the chunks after `before`, and move `tail_`
to `prev` when nothing follows. -/
def shrinkRest (b : Buffer) (before rest : List Buf) (removed len : Nat) : Checked Buffer := do
  let (chain, more) ← shrinkLoop rest len
  let prev := before.getLast?.map Buf.addr
  return ⟨before ++ chain, if chain = [] then prev else b.tail, b.size - removed - more⟩

/-- `Shrink(skip, len)`. -/
def shrink (b : Buffer) (skip len : Nat) : Checked Buffer := do
  boostAssert (skip < b.size)
  boostAssert (len ≤ b.size)
  boostAssert (skip + len ≤ b.size)
  let c ← walkTo atOrPast b.head skip
  let current := c.current
  if c.pos ≠ 0 then
    let bufRemain := current.size - c.pos
    if bufRemain ≤ len then
      shrinkRest b (c.before ++ [{ current with size := c.pos }]) c.after bufRemain (len - bufRemain)
    else
      let moved := current.overwrite (current.offset + c.pos)
        ((current.data.drop (current.offset + c.pos + len)).take (current.size - c.pos - len))
      return ⟨c.before ++ { moved with size := current.size - len } :: c.after, b.tail, b.size - len⟩
  else shrinkRest b c.before (current :: c.after) 0 len

/-- `ShrinkFront(size)`. -/
def shrinkFront (b : Buffer) (size : Nat) : Checked Buffer := b.shrink 0 size

/-- `ShrinkBack(size)`; `size() - size` is a `size_t` subtraction. -/
def shrinkBack (b : Buffer) (size : Nat) : Checked Buffer := b.shrink (sizeSub b.size size) size

/-- The copy loop of `GetData` from offset `skip` of the first chunk. -/
def readLoop : List Buf → Nat → Nat → Checked Bytes
  | [], _, len => if len = 0 then .ok [] else .error .assertion
  | c :: rest, skip, len =>
    if len = 0 then .ok []
    else do
      let copyLen := min len (c.size - skip)
      let more ← readLoop rest 0 (len - copyLen)
      return (c.data.drop (c.offset + skip)).take copyLen ++ more

/-- `GetData(skip, len, void*)`: the bytes written to the target. -/
def getData (b : Buffer) (skip len : Nat) : Checked Bytes := do
  boostAssert (skip ≤ b.size)
  boostAssert (len ≤ b.size)
  boostAssert (skip + len ≤ b.size)
  let c ← walkTo atOrPast b.head skip
  readLoop (c.current :: c.after) c.pos len

/-- The copy loop of `SetData`. -/
def writeLoop : List Buf → Nat → Bytes → Checked (List Buf)
  | [], _, source => if source.length = 0 then .ok [] else .error .assertion
  | c :: rest, skip, source =>
    if source.length = 0 then .ok (c :: rest)
    else do
      let copyLen := min source.length (c.size - skip)
      let more ← writeLoop rest 0 (source.drop copyLen)
      return c.overwrite (c.offset + skip) (source.take copyLen) :: more

/-- `SetData(skip, len, const void*)` with `source` the `len` bytes read. -/
def setData (b : Buffer) (skip : Nat) (source : Bytes) : Checked Buffer := do
  boostAssert (skip < b.size)
  boostAssert (source.length ≤ b.size)
  boostAssert (skip + source.length ≤ b.size)
  let c ← walkTo atOrPast b.head skip
  let written ← writeLoop (c.current :: c.after) c.pos source
  return { b with head := c.before ++ written }

/-- `ResetTail()`: it follows `head_` without a null check. -/
def resetTail (chain : List Buf) : Checked Nat := deref (chain.getLast?.map Buf.addr)

/-- `rs == current->size_ ? std::move(current->next_buf_) : current->Break(rs)`. -/
def brkAt (next : Nat) (c : Cursor Buf) : Checked (Nat × Buf × List Buf) :=
  if c.pos = c.current.size then .ok (next, c.current, c.after)
  else c.current.brk next c.after c.pos

/-- `Break(skip)`: the receiver and the Buffer returned. -/
def brk (next : Nat) (b : Buffer) (skip : Nat) : Checked (Nat × Buffer × Buffer) := do
  let c ← walkTo beyond b.head skip
  let (next, current, buf) ← brkAt next c
  let kept := c.before ++ [current]
  let outTail ← resetTail buf
  let tail ← resetTail kept
  return (next, ⟨kept, some tail, skip⟩, ⟨buf, some outTail, sizeSub b.size skip⟩)

/-- The slice a chunk hands to a walker, from `skip` bytes into the chunk. -/
def sliceOf (c : Buf) (skip : Nat) : Slice :=
  ⟨⟨c.addr, c.offset + skip⟩, (c.data.drop (c.offset + skip)).take (c.size - skip)⟩

/-- The `while (current)` loop of `WalkInternalChunk`. -/
def walkLoop {σ : Type} (walker : Slice → σ → Checked (Bool × σ)) : List Buf → Nat → σ → Checked σ
  | [], _, s => .ok s
  | c :: rest, skip, s => do
    let (more, s) ← walker (sliceOf c skip) s
    if more then walkLoop walker rest 0 s else return s

/-- `WalkInternalChunk(walker, from)`; the walker's captured state is threaded. -/
def walkInternalChunk {σ : Type} (b : Buffer) (walker : Slice → σ → Checked (Bool × σ))
    (start : Nat) (s : σ) : Checked σ := do
  boostAssert (start ≤ b.size)
  if start = b.size then return s
  let c ← walkTo atOrPast b.head start
  walkLoop walker (c.current :: c.after) c.pos s

/-- `FindLocation(pointer)`. Slices of different arrays never contain each
other's addresses. -/
def findLocation (b : Buffer) (pointer : BytePtr) : Checked Nat :=
  b.walkInternalChunk (fun slice offset =>
    if pointer.buf = slice.data.buf ∧ slice.data.index ≤ pointer.index ∧
        pointer.index < slice.data.index + slice.bytes.length then
      .ok (false, offset + (pointer.index - slice.data.index))
    else .ok (true, offset + slice.bytes.length)) 0 0

end Buffer

end LibNekit.Source
