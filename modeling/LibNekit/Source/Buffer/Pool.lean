import Mathlib.Logic.Function.Basic
import LibNekit.Library.Machine
import LibNekit.Source.Buffer.Access
import LibNekit.Source.Buffer.Shrink

/-!
# Programs over named Buffers

The operations of `Buffer` as the statements of a straight-line program: each
name holds a Buffer, and one allocator serves them all. A Buffer whose chunks an
insertion has moved out keeps its `tail_` and `size_`; it is `Spent` until it is
assigned again.
-/
namespace LibNekit.Source

open LibNekit.Library

structure Pool where
  next : Nat
  buffers : Nat → Buffer

inductive Op where
  /-- `i = Buffer(size)` -/
  | make (i size : Nat)
  /-- `i = std::move(j)`, or the construction of `i` from `j` -/
  | move (i j : Nat)
  /-- `i.Insert(std::move(j), pos)` -/
  | insertBuffer (i j pos : Nat)
  | insertSize (i skip len : Nat)
  | insertFrontBuffer (i j : Nat)
  | insertFrontSize (i size : Nat)
  | insertBackBuffer (i j : Nat)
  | insertBackSize (i size : Nat)
  | shrink (i skip len : Nat)
  | shrinkFront (i size : Nat)
  | shrinkBack (i size : Nat)
  /-- `j = i.Break(skip)` -/
  | brk (i j skip : Nat)
  /-- `i.SetData(skip, source.size(), source)` -/
  | setData (i skip : Nat) (source : Bytes)
  /-- `i[index] = v` -/
  | setIndex (i index : Nat) (v : UInt8)
  deriving DecidableEq, Repr

namespace Pool

def init : Pool := ⟨0, fun _ => Buffer.empty⟩

def set (p : Pool) (i : Nat) (b : Buffer) : Pool :=
  { p with buffers := Function.update p.buffers i b }

def step : Op → Pool → Checked Pool
  | .make i size, p =>
    let (next, b) := Buffer.make p.next size
    .ok { p.set i b with next }
  | .move i j, p =>
    if i = j then .ok p
    else
      let (target, source) := Buffer.move (p.buffers j)
      .ok ((p.set j source).set i target)
  | .insertBuffer i j pos, p => do
    let (next, b, x) ← (p.buffers i).insertBuffer p.next (p.buffers j) pos
    return { (p.set j x).set i b with next }
  | .insertSize i skip len, p => do
    let (next, b) ← (p.buffers i).insertSize p.next skip len
    return { p.set i b with next }
  | .insertFrontBuffer i j, p => do
    let (b, x) ← (p.buffers i).insertFrontBuffer (p.buffers j)
    return (p.set j x).set i b
  | .insertFrontSize i size, p => do
    let (next, b) ← (p.buffers i).insertFrontSize p.next size
    return { p.set i b with next }
  | .insertBackBuffer i j, p => do
    let (b, x) ← (p.buffers i).insertBackBuffer (p.buffers j)
    return (p.set j x).set i b
  | .insertBackSize i size, p => do
    let (next, b) ← (p.buffers i).insertBackSize p.next size
    return { p.set i b with next }
  | .shrink i skip len, p => do return p.set i (← (p.buffers i).shrink skip len)
  | .shrinkFront i size, p => do return p.set i (← (p.buffers i).shrinkFront size)
  | .shrinkBack i size, p => do return p.set i (← (p.buffers i).shrinkBack size)
  | .brk i j skip, p => do
    let (next, b, out) ← (p.buffers i).brk p.next skip
    return { (p.set i b).set j out with next }
  | .setData i skip source, p => do return p.set i (← (p.buffers i).setData skip source)
  | .setIndex i index v, p => do return p.set i (← (p.buffers i).setIndex index v)

/-- The chunks were moved out by an insertion and the Buffer not assigned since. -/
def Spent (b : Buffer) : Prop := b.head = [] ∧ b.size ≠ 0

instance (b : Buffer) : Decidable (Spent b) := by unfold Spent; infer_instance

/-- The assertions of each operation, that no spent Buffer is used, that an
inserted Buffer is not the receiver, and that no sum exceeds `size_t`. -/
def Meets : Op → Pool → Prop
  | .make _ size, _ => size < sizeRange
  | .move _ j, p => ¬Spent (p.buffers j)
  | .insertBuffer i j pos, p =>
    i ≠ j ∧ ¬Spent (p.buffers i) ∧ ¬Spent (p.buffers j) ∧ pos ≤ (p.buffers i).size ∧
      (p.buffers i).size + (p.buffers j).size < sizeRange
  | .insertSize i skip len, p =>
    ¬Spent (p.buffers i) ∧ skip ≤ (p.buffers i).size ∧ (p.buffers i).size + len < sizeRange
  | .insertFrontBuffer i j, p | .insertBackBuffer i j, p =>
    i ≠ j ∧ ¬Spent (p.buffers i) ∧ ¬Spent (p.buffers j) ∧
      (p.buffers i).size + (p.buffers j).size < sizeRange
  | .insertFrontSize i size, p | .insertBackSize i size, p =>
    ¬Spent (p.buffers i) ∧ (p.buffers i).size + size < sizeRange
  | .shrink i skip len, p =>
    ¬Spent (p.buffers i) ∧ skip < (p.buffers i).size ∧ skip + len ≤ (p.buffers i).size
  | .shrinkFront i size, p =>
    ¬Spent (p.buffers i) ∧ 0 < (p.buffers i).size ∧ size ≤ (p.buffers i).size
  | .shrinkBack i size, p => ¬Spent (p.buffers i) ∧ 0 < size ∧ size ≤ (p.buffers i).size
  | .brk i _ skip, p => ¬Spent (p.buffers i) ∧ 0 < skip ∧ skip < (p.buffers i).size
  | .setData i skip source, p =>
    ¬Spent (p.buffers i) ∧ skip < (p.buffers i).size ∧ skip + source.length ≤ (p.buffers i).size
  | .setIndex i index _, p => ¬Spent (p.buffers i) ∧ index < (p.buffers i).size

instance (op : Op) (p : Pool) : Decidable (Meets op p) := by
  cases op <;> unfold Meets <;> infer_instance

/-- The pool as a machine whose inputs are the operations. -/
def machine : Machine Pool Op Fault := ⟨Meets, step⟩

instance (op : Op) (p : Pool) : Decidable (machine.admits op p) :=
  inferInstanceAs (Decidable (Meets op p))

end Pool

end LibNekit.Source
