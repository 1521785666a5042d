import LibNekit.Library.Keystream
import LibNekit.Source.Runtime

/-!
# SodiumStreamCipher

Source: include/nekit/crypto/sodium_stream_cipher.h. The keystreams are libsodium's; its
function adds the keystream from a block on to its input, and ends the process when the
keystream is not long enough. Members of array type are passed by their data.
-/
namespace LibNekit.Source

open LibNekit.Library Keystream

/-- The bytes that pointers point to. -/
abbrev Memory := Nat → UInt8

namespace Memory

def read (m : Memory) (pointer len : Nat) : Bytes := (List.range len).map fun i => m (pointer + i)

def write (m : Memory) (pointer : Nat) (bytes : Bytes) : Memory :=
  fun a => if pointer ≤ a then (bytes[a - pointer]?).getD (m a) else m a

@[simp] theorem length_read (m : Memory) (pointer len : Nat) : (m.read pointer len).length = len := by simp [read]

theorem getElem?_read (m : Memory) (pointer : Nat) {len i : Nat} (inside : i < len) :
    (m.read pointer len)[i]? = some (m (pointer + i)) := by
  simp [read, inside]

theorem write_at (m : Memory) (pointer : Nat) {bytes : Bytes} {i : Nat} {c : UInt8} (here : bytes[i]? = some c) :
    m.write pointer bytes (pointer + i) = c := by
  simp [write, here]

theorem read_write (m : Memory) (pointer : Nat) (bytes : Bytes) : (m.write pointer bytes).read pointer bytes.length = bytes := by
  refine List.ext_getElem (by simp) fun i _ inside => ?_
  simp [read, write, inside]

/-- Bytes in front of what was written, or behind it. -/
theorem write_frame (m : Memory) {pointer a : Nat} {bytes : Bytes} (outside : a < pointer ∨ pointer + bytes.length ≤ a) :
    m.write pointer bytes a = m a := by
  unfold write
  split
  · rw [List.getElem?_eq_none (by omega)]
    rfl
  · rfl

end Memory

/-- The instantiations of the template, for either action. -/
inductive SodiumCipher where
  | chaCha20 | chaCha20Ietf | xChaCha20 | salsa20 | xSalsa20
  deriving DecidableEq, Repr

namespace SodiumCipher

/-- The width of `BlockCounterLengthType` -/
def counterBits : SodiumCipher → Nat
  | .chaCha20Ietf => 32
  | _ => 64

/-- `block_size_` -/
def blockSize : Nat := 64

/-- How long a keystream is. -/
def limit (kind : SodiumCipher) : Nat := blockSize * 2 ^ kind.counterBits

/-- The keystream for a key and an iv. -/
abbrev KeystreamOf := Bytes → Bytes → Nat → UInt8

/-- `method_` -/
def method (kind : SodiumCipher) (keystream : KeystreamOf) (input iv : Bytes) (ic : Nat) (key : Bytes) : Checked Bytes :=
  if blockSize * ic + input.length ≤ kind.limit then .ok (cipher (keystream key iv) (blockSize * ic) input)
  else .error .assertion

end SodiumCipher

open SodiumCipher

structure SodiumStreamCipher where
  counter : Nat := 0
  blockBuffer : Bytes
  key : Bytes
  iv : Bytes
  deriving DecidableEq, Repr

namespace SodiumStreamCipher

/-- `block_buffer_` -/
abbrev Block := { block : Bytes // block.length = blockSize }

/-- A cipher that has its key and its iv. -/
def fresh (block : Block) (key iv : Bytes) : SodiumStreamCipher := { blockBuffer := block.val, key, iv }

variable (kind : SodiumCipher) (keystream : KeystreamOf)

/-- `counter / block_size_`, as an argument of `method_` -/
def blockCounter (c : SodiumStreamCipher) : Nat := c.counter / blockSize % 2 ^ kind.counterBits

/-- `counter += n`, a `uint64_t` -/
def counted (c : SodiumStreamCipher) (n : Nat) : SodiumStreamCipher := { c with counter := (c.counter + n) % sizeRange }

/-- What `Process` does first, where it stands inside a block: the content goes to the end
of the block buffer. It returns the pointers and the length for the rest; the new `input`
is computed from `output`, which has moved by then. -/
def processHead (c : SodiumStreamCipher) (memory : Memory) (input len output contentSize : Nat) :
    Checked (SodiumStreamCipher × Memory × Nat × Nat × Nat) := do
  let start := blockSize - contentSize
  let blockBuffer := c.blockBuffer.take start ++ memory.read input contentSize
  let blockBuffer ← kind.method keystream blockBuffer c.iv (c.blockCounter kind) c.key
  let memory := memory.write output (blockBuffer.drop start)
  let output := output + contentSize
  return ({ c with blockBuffer }.counted contentSize, memory, output + contentSize, len - contentSize, output)

/-- `Process(input, len, input_tag, output, output_tag)` -/
def process (c : SodiumStreamCipher) (memory : Memory) (input len output : Nat) :
    Checked (SodiumStreamCipher × Memory) := do
  let contentSize := min (sizeSub 0 c.counter % blockSize) len
  let (c, memory, input, len, output) ←
    if contentSize ≠ 0 then processHead kind keystream c memory input len output contentSize
    else pure (c, memory, input, len, output)
  let bytes ← kind.method keystream (memory.read input len) c.iv (c.blockCounter kind) c.key
  return (c.counted len, memory.write output bytes)

end SodiumStreamCipher

/-- A call of `Process`, with the memory as it is then. -/
structure CipherCall where
  memory : Memory
  input : Nat
  len : Nat
  output : Nat

namespace CipherCall

/-- The text that the call is given. -/
def piece (call : CipherCall) : Bytes := call.memory.read call.input call.len

@[simp] theorem length_piece (call : CipherCall) : call.piece.length = call.len := Memory.length_read _ _ _

end CipherCall

namespace SodiumStreamCipher

variable (kind : SodiumCipher) (keystream : KeystreamOf)

/-- Calls one after the other, and what they have written. -/
def processAll : List CipherCall → SodiumStreamCipher → Checked (SodiumStreamCipher × Bytes)
  | [], c => .ok (c, [])
  | call :: calls, c => do
    let (c, memory) ← process kind keystream c call.memory call.input call.len call.output
    let (c, written) ← processAll calls c
    return (c, memory.read call.output call.len ++ written)

end SodiumStreamCipher

end LibNekit.Source
