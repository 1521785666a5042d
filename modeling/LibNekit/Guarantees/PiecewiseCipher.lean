import LibNekit.Source.Crypto.SodiumStreamCipher

/-!
# A text enciphered in pieces

A piece is enciphered as the whole text would be if it starts where a block starts, or
ends where the block it starts in ends. Any other piece is put at the wrong end of the
block buffer, or goes on with bytes that are not its own.
-/
namespace LibNekit.Guarantees.PiecewiseCipher

open LibNekit.Source LibNekit.Library Keystream SodiumCipher SodiumStreamCipher

variable {kind : SodiumCipher} {keystream : KeystreamOf} {c : SodiumStreamCipher} {call : CipherCall}

/-- The sizes of the pieces of a text that one call could be given. -/
structure Split where
  sizes : List Nat
  sum_lt : sizes.sum < sizeRange

/-- Every piece starts or ends where a block does, or is empty. -/
def Lined : Nat → List Nat → Prop
  | _, [] => True
  | start, n :: rest =>
    (n = 0 ∨ start % blockSize = 0 ∨ start % blockSize + n = blockSize) ∧ Lined (start + n) rest

instance decidableLined : (start : Nat) → (sizes : List Nat) → Decidable (Lined start sizes)
  | _, [] => .isTrue trivial
  | start, n :: rest =>
    haveI := decidableLined (start + n) rest
    inferInstanceAs (Decidable ((n = 0 ∨ start % blockSize = 0 ∨ start % blockSize + n = blockSize) ∧ Lined (start + n) rest))

/-! ## A piece that is lined up -/

theorem headSize (counter : Nat) :
    sizeSub 0 counter % blockSize = (blockSize - counter % blockSize) % blockSize := by
  unfold sizeSub sizeRange blockSize
  omega

theorem method_ok {input iv key : Bytes} {ic : Nat} (fits : blockSize * ic + input.length ≤ kind.limit) :
    method kind keystream input iv ic key = .ok (cipher (keystream key iv) (blockSize * ic) input) := if_pos fits

theorem blockCounter_eq {start : Nat} (counter : c.counter = start) (fits : start < kind.limit) :
    c.blockCounter kind = start / blockSize := by
  unfold blockCounter
  rw [counter]
  refine Nat.mod_eq_of_lt (Nat.div_lt_of_lt_mul fits)

theorem counted_counter {n : Nat} (fits : c.counter + n < sizeRange) : (c.counted n).counter = c.counter + n :=
  Nat.mod_eq_of_lt fits

/-- The rest of a piece, where a block starts. -/
theorem rest_ok {bytes : Bytes} (aligned : bytes = [] ∨ c.counter % blockSize = 0)
    (fits : c.counter + bytes.length ≤ kind.limit) :
    method kind keystream bytes c.iv (c.blockCounter kind) c.key = .ok (cipher (keystream c.key c.iv) c.counter bytes) := by
  cases bytes with
  | nil =>
    have small : blockSize * c.blockCounter kind + ([] : Bytes).length ≤ kind.limit := by
      have := Nat.mod_lt (c.counter / blockSize) (Nat.two_pow_pos kind.counterBits)
      simp only [blockCounter, limit, List.length_nil, Nat.add_zero]
      exact Nat.mul_le_mul_left _ (Nat.le_of_lt this)
    exact method_ok small
  | cons a bytes =>
    have aligned : c.counter % blockSize = 0 := by simpa using aligned
    have block : c.blockCounter kind = c.counter / blockSize :=
      blockCounter_eq rfl (by simp only [List.length_cons] at fits; omega)
    have start : blockSize * c.blockCounter kind = c.counter := by
      rw [block]
      exact Nat.mul_div_cancel' (Nat.dvd_of_mod_eq_zero aligned)
    rw [method_ok (by rw [start]; exact fits), start]

/-- A cipher that stands at a position of its keystream. -/
structure Stands (key iv : Bytes) (start : Nat) (c : SodiumStreamCipher) : Prop where
  counter : c.counter = start
  key : c.key = key
  iv : c.iv = iv
  block : c.blockBuffer.length = blockSize

variable {key iv : Bytes} {start : Nat}

theorem Stands.counted (stands : Stands key iv start c) {n : Nat} (fits : start + n < sizeRange) :
    Stands key iv (start + n) (c.counted n) := by
  refine ⟨?_, stands.key, stands.iv, stands.block⟩
  rw [← stands.counter] at fits ⊢
  exact counted_counter fits

theorem write_nil (memory : Memory) (pointer : Nat) : memory.write pointer [] = memory := by
  funext a
  exact Memory.write_frame memory (Nat.lt_or_ge a pointer)

/-- The first part of a piece: it is put at the end of the block. -/
theorem processHead_ok (stands : Stands key iv start c) {memory : Memory} {input len output contentSize : Nat}
    (ends : start % blockSize + contentSize = blockSize) (fits : start + contentSize ≤ kind.limit) :
    ∃ c', processHead kind keystream c memory input len output contentSize = .ok (c'.counted contentSize,
        memory.write output (cipher (keystream key iv) start (memory.read input contentSize)),
        output + contentSize + contentSize, len - contentSize, output + contentSize) ∧
      Stands key iv start c' := by
  have positive : 0 < contentSize := by
    have := Nat.mod_lt start (show 0 < blockSize by decide)
    omega
  have block : c.blockCounter kind = start / blockSize := blockCounter_eq stands.counter (by omega)
  have position : blockSize * (start / blockSize) + start % blockSize = start := Nat.div_add_mod start blockSize
  have taken : (c.blockBuffer.take (blockSize - contentSize)).length = start % blockSize := by
    rw [List.length_take, stands.block]
    omega
  have whole : (c.blockBuffer.take (blockSize - contentSize) ++ memory.read input contentSize).length = blockSize := by
    rw [List.length_append, taken, Memory.length_read, ends]
  have deciphered := @method_ok kind keystream
    (c.blockBuffer.take (blockSize - contentSize) ++ memory.read input contentSize) c.iv c.key (c.blockCounter kind)
    (by rw [whole, block]; omega)
  refine ⟨{ c with blockBuffer := (cipher (keystream c.key c.iv) (blockSize * c.blockCounter kind)
      (c.blockBuffer.take (blockSize - contentSize) ++ memory.read input contentSize)) }, ?_, ?_⟩
  · have tail : (cipher (keystream c.key c.iv) (blockSize * c.blockCounter kind)
        (c.blockBuffer.take (blockSize - contentSize) ++ memory.read input contentSize)).drop (blockSize - contentSize) =
        cipher (keystream key iv) start (memory.read input contentSize) := by
      rw [cipher_drop, List.drop_append_of_le_length (by omega), List.drop_eq_nil_of_le (by omega), List.nil_append, block,
        stands.key, stands.iv]
      congr 1
      omega
    unfold processHead
    dsimp only
    rw [deciphered]
    simp only [ok_bind, pure_eq_ok, tail]
  · refine ⟨stands.counter, stands.key, stands.iv, ?_⟩
    rw [length_cipher, whole]

/-- A piece that is lined up is enciphered as it should be. -/
theorem process_lined (stands : Stands key iv start c)
    (lined : call.len = 0 ∨ start % blockSize = 0 ∨ start % blockSize + call.len = blockSize)
    (fits : start + call.len ≤ kind.limit) (small : start + call.len < sizeRange) :
    ∃ c' memory, process kind keystream c call.memory call.input call.len call.output = .ok (c', memory) ∧
      memory.read call.output call.len = cipher (keystream key iv) start call.piece ∧ Stands key iv (start + call.len) c' := by
  have size : sizeSub 0 c.counter % blockSize = (blockSize - start % blockSize) % blockSize := by
    rw [stands.counter]
    exact headSize _
  have inside := Nat.mod_lt start (show 0 < blockSize by decide)
  unfold process
  rw [size]
  by_cases direct : call.len = 0 ∨ start % blockSize = 0
  · have none : min ((blockSize - start % blockSize) % blockSize) call.len = 0 := by
      rcases direct with empty | aligned
      · rw [empty, Nat.min_zero]
      · rw [aligned, Nat.sub_zero, Nat.mod_self, Nat.zero_min]
    have enciphered := @rest_ok kind keystream c call.piece ?_ (by rw [stands.counter, CipherCall.length_piece]; exact fits)
    · simp only [none, ne_eq, not_true_eq_false, if_false, pure_eq_ok, ok_bind]
      rw [show call.memory.read call.input call.len = call.piece from rfl, enciphered]
      refine ⟨_, _, rfl, ?_, stands.counted small⟩
      have written := Memory.read_write call.memory call.output (cipher (keystream c.key c.iv) c.counter call.piece)
      rw [length_cipher, CipherCall.length_piece] at written
      rw [written, stands.key, stands.iv, stands.counter]
    · rcases direct with empty | aligned
      · left
        rw [← List.length_eq_zero_iff, CipherCall.length_piece, empty]
      · right
        rw [stands.counter, aligned]
  · obtain ⟨some_bytes, unaligned⟩ := not_or.mp direct
    have ends : start % blockSize + call.len = blockSize := (lined.resolve_left some_bytes).resolve_left unaligned
    have all : min ((blockSize - start % blockSize) % blockSize) call.len = call.len := by
      rw [Nat.mod_eq_of_lt (by omega)]
      omega
    obtain ⟨c', head, stands'⟩ := @processHead_ok kind keystream c key iv start stands call.memory call.input call.len
      call.output call.len ends fits
    have moved := stands'.counted small
    have enciphered := @rest_ok kind keystream (c'.counted call.len) [] (Or.inl rfl) (by rw [moved.counter]; exact fits)
    simp only [all, ne_eq, some_bytes, not_false_eq_true, if_true, head, ok_bind, Nat.sub_self]
    rw [show ∀ (m : Memory) p, m.read p 0 = [] from fun _ _ => rfl, enciphered]
    refine ⟨_, _, rfl, ?_, ?_⟩
    · have written := Memory.read_write call.memory call.output (cipher (keystream key iv) start call.piece)
      rw [length_cipher, CipherCall.length_piece] at written
      rw [cipher, write_nil]
      exact written
    · exact @Stands.counted _ _ _ _ moved 0 (by omega)

/-- Pieces that are lined up, one after the other. -/
theorem processAll_lined {calls : List CipherCall} (stands : Stands key iv start c)
    (lined : Lined start (calls.map CipherCall.len)) (fits : start + (calls.map CipherCall.len).sum ≤ kind.limit)
    (small : start + (calls.map CipherCall.len).sum < sizeRange) :
    ∃ c', processAll kind keystream calls c = .ok (c', cipher (keystream key iv) start (calls.flatMap CipherCall.piece)) ∧
      Stands key iv (start + (calls.map CipherCall.len).sum) c' := by
  induction calls generalizing start c with
  | nil => exact ⟨c, rfl, stands⟩
  | cons call calls ih =>
    simp only [List.map_cons, List.sum_cons] at fits small ⊢
    obtain ⟨c₁, memory, ran, written, stands₁⟩ := @process_lined kind keystream c call key iv start stands lined.1
      (by omega) (by omega)
    obtain ⟨c₂, more, stands₂⟩ := ih stands₁ lined.2 (by omega) (by omega)
    refine ⟨c₂, ?_, by rw [← Nat.add_assoc]; exact stands₂⟩
    rw [processAll, ran]
    simp only [ok_bind, more, pure_eq_ok, written]
    rw [List.flatMap_cons, cipher_append, CipherCall.length_piece]

/-! ## A piece that is not -/

/-- A keystream that is zero but for one byte. -/
def singleOne (position : Nat) : KeystreamOf := fun _ _ k => if k = position then 1 else 0

/-- A call that is given zeros, with ones behind them. -/
def zeros (len : Nat) : CipherCall := ⟨fun a => if a < len then 0 else 1, 0, len, len⟩

theorem zeros_piece (len : Nat) : (zeros len).piece = List.replicate len 0 := by
  refine List.ext_getElem (by simp [zeros]) fun i inside _ => ?_
  have inside : i < len := by simpa [zeros] using inside
  simp [CipherCall.piece, Memory.read, zeros, inside]

theorem getElem_cipher_zeros {stream : Nat → UInt8} {start len i : Nat} (inside : i < len) :
    (cipher stream start (List.replicate len (0 : UInt8)))[i]? = some (stream (start + i)) := by
  have tail := @cipher_drop _ _ stream start i (List.replicate len (0 : UInt8))
  rw [List.drop_replicate] at tail
  obtain ⟨rest, more⟩ : ∃ rest, len - i = rest + 1 := ⟨len - i - 1, by omega⟩
  rw [more, List.replicate_succ, cipher] at tail
  have first := congrArg (·[0]?) tail
  simpa using first

theorem method_eq {input iv key out : Bytes} {ic : Nat} (ran : method kind keystream input iv ic key = .ok out) :
    out = cipher (keystream key iv) (blockSize * ic) input := by
  unfold method at ran
  split at ran <;> cases ran
  rfl

theorem singleOne_start (start : Nat) : singleOne start key iv start = 1 := if_pos rfl

theorem singleOne_other {start k : Nat} (other : k ≠ start) : singleOne start key iv k = 0 := if_neg other

theorem block_position (n ic : Nat) : (blockSize * ic + n) % blockSize = n % blockSize := Nat.mul_add_mod _ _ _

/-- A piece that ends inside the block it starts in: its first byte is enciphered as a
later byte of the block. -/
theorem process_short (stands : Stands key iv start c) {len : Nat} (some_bytes : len ≠ 0)
    (short : start % blockSize + len < blockSize) (unaligned : start % blockSize ≠ 0)
    {c' : SodiumStreamCipher} {memory : Memory}
    (ran : process kind (singleOne start) c (zeros len).memory (zeros len).input (zeros len).len (zeros len).output =
      .ok (c', memory)) : (memory.read (zeros len).output len)[0]? = some 0 := by
  have size : min (sizeSub 0 c.counter % blockSize) len = len := by
    rw [stands.counter, headSize, Nat.mod_eq_of_lt (by omega)]
    omega
  unfold process at ran
  simp only [show (zeros len).len = len from rfl, size, ne_eq, some_bytes, not_false_eq_true, if_true] at ran
  obtain ⟨⟨c₁, memory₁, input, rest, output⟩, head, ran⟩ := bind_eq_ok.mp ran
  unfold processHead at head
  obtain ⟨block, ciphered, head⟩ := bind_eq_ok.mp head
  simp only [pure_eq_ok, Except.ok.injEq, Prod.mk.injEq] at head
  obtain ⟨rfl, rfl, rfl, rfl, rfl⟩ := head
  obtain ⟨bytes, ciphered', ran⟩ := bind_eq_ok.mp ran
  cases ran
  have nothing : bytes = [] := by
    rw [method_eq ciphered', Nat.sub_self]
    rfl
  rw [Memory.getElem?_read _ _ (Nat.pos_of_ne_zero some_bytes), nothing, write_nil]
  refine congrArg some (Memory.write_at _ _ ?_)
  have taken : (c.blockBuffer.take (blockSize - len)).length = blockSize - len := by
    rw [List.length_take, stands.block]
    omega
  rw [method_eq ciphered, cipher_drop, List.drop_append_of_le_length (by omega), List.drop_eq_nil_of_le (by omega),
    List.nil_append, show (zeros len).memory.read (zeros len).input len = List.replicate len 0 from zeros_piece len,
    getElem_cipher_zeros (Nat.pos_of_ne_zero some_bytes), Nat.add_zero]
  refine congrArg some (singleOne_other fun same => ?_)
  have position := block_position (blockSize - len) (c.blockCounter kind)
  rw [same, Nat.mod_eq_of_lt (by omega : blockSize - len < blockSize)] at position
  omega

/-- A piece that goes on into the next block: there it is read from behind the output. -/
theorem process_long (stands : Stands key iv start c) {len : Nat} (long : blockSize < start % blockSize + len)
    (unaligned : start % blockSize ≠ 0) {c' : SodiumStreamCipher} {memory : Memory}
    (ran : process kind (singleOne start) c (zeros len).memory (zeros len).input (zeros len).len (zeros len).output =
      .ok (c', memory)) : (memory.read (zeros len).output len)[blockSize - start % blockSize]? = some 1 := by
  have inside := Nat.mod_lt start (show 0 < blockSize by decide)
  have size : min (sizeSub 0 c.counter % blockSize) len = blockSize - start % blockSize := by
    rw [stands.counter, headSize, Nat.mod_eq_of_lt (by omega)]
    omega
  obtain ⟨part, here⟩ : ∃ part, part = blockSize - start % blockSize := ⟨_, rfl⟩
  rw [← here] at size ⊢
  have positive : part ≠ 0 := by omega
  unfold process at ran
  simp only [show (zeros len).len = len from rfl, size, ne_eq, positive, not_false_eq_true, if_true] at ran
  obtain ⟨⟨c₁, memory₁, input, rest, output⟩, head, ran⟩ := bind_eq_ok.mp ran
  unfold processHead at head
  obtain ⟨block, ciphered, head⟩ := bind_eq_ok.mp head
  simp only [pure_eq_ok, Except.ok.injEq, Prod.mk.injEq] at head
  obtain ⟨rfl, rfl, rfl, rfl, rfl⟩ := head
  obtain ⟨bytes, ciphered', ran⟩ := bind_eq_ok.mp ran
  cases ran
  rw [Memory.getElem?_read _ _ (by omega)]
  refine congrArg some (@Memory.write_at _ ((zeros len).output + part) bytes 0 1 ?_)
  have length : block.length = blockSize := by
    rw [method_eq ciphered, length_cipher, List.length_append, List.length_take, stands.block, Memory.length_read]
    omega
  -- the first byte of the rest, which is a one that nothing has overwritten
  obtain ⟨more, count⟩ : ∃ more, len - part = more + 1 := ⟨len - part - 1, by omega⟩
  rw [method_eq ciphered']
  have read : ∀ (m : Memory) p, m.read p (len - part) = m p :: m.read (p + 1) more := by
    intro m p
    rw [count]
    unfold Memory.read
    rw [List.range_succ_eq_map, List.map_cons, List.map_map]
    refine congrArg _ (List.map_congr_left fun i _ => ?_)
    simp [Nat.add_right_comm, Nat.add_assoc]
  have one : (zeros len).memory ((zeros len).output + part + part) = 1 := if_neg (by simp only [zeros]; omega)
  have plain : ∀ ic, singleOne start c.key c.iv (blockSize * ic) = 0 := by
    refine fun ic => singleOne_other fun same => unaligned ?_
    rw [← same]
    exact Nat.mul_mod_right _ _
  rw [read, cipher, List.getElem?_cons_zero]
  dsimp only
  refine congrArg some ?_
  rw [Memory.write_frame _ (Or.inr (by rw [List.length_drop, length]; omega)), one]
  exact congrArg (1 ^^^ ·) (plain _)

/-! ## Splits -/

/-- Whatever the text, the key, the iv, the keystream and the memory are: the pieces of the
split come out as one call on the whole text has it, which is the text with the keystream
from its beginning on; and the split deciphers that again. -/
def Agrees (kind : SodiumCipher) (split : Split) : Prop :=
  ∀ (keystream : KeystreamOf) (key iv : Bytes) (block₁ block₂ block₃ : Block) (pieces : List CipherCall) (whole : CipherCall)
    (back : List CipherCall),
    pieces.map CipherCall.len = split.sizes → pieces.flatMap CipherCall.piece = whole.piece →
    ∃ c₁ c₂ text, processAll kind keystream pieces (fresh block₁ key iv) = .ok (c₁, text) ∧
      processAll kind keystream [whole] (fresh block₂ key iv) = .ok (c₂, text) ∧
      text = cipher (keystream key iv) 0 whole.piece ∧
      (back.map CipherCall.len = split.sizes → back.flatMap CipherCall.piece = text →
        ∃ c₃, processAll kind keystream back (fresh block₃ key iv) = .ok (c₃, whole.piece))

theorem fresh_stands (block : Block) : Stands key iv 0 (fresh block key iv) := ⟨rfl, rfl, rfl, block.2⟩

theorem length_pieces (calls : List CipherCall) :
    (calls.flatMap CipherCall.piece).length = (calls.map CipherCall.len).sum := by
  induction calls with
  | nil => rfl
  | cons call calls ih => simp [ih]

theorem agrees_of_lined {split : Split} (lined : Lined 0 split.sizes) (fits : split.sizes.sum ≤ kind.limit) :
    Agrees kind split := by
  intro keystream key iv block₁ block₂ block₃ pieces whole back sizes text
  have len : whole.len = split.sizes.sum := by
    rw [← CipherCall.length_piece, ← text, length_pieces, sizes]
  have one : Lined 0 ([whole].map CipherCall.len) := ⟨Or.inr (Or.inl rfl), trivial⟩
  have small := split.sum_lt
  obtain ⟨c₁, ran₁, -⟩ := @processAll_lined kind keystream _ key iv 0 pieces (fresh_stands block₁) (sizes ▸ lined)
    (by rw [sizes]; omega) (by rw [sizes]; omega)
  obtain ⟨c₂, ran₂, -⟩ := @processAll_lined kind keystream _ key iv 0 [whole] (fresh_stands block₂) one
    (by simp; omega) (by simp; omega)
  rw [text] at ran₁
  rw [List.flatMap_singleton] at ran₂
  refine ⟨c₁, c₂, _, ran₁, ran₂, rfl, fun sizes' restored => ?_⟩
  obtain ⟨c₃, ran₃, -⟩ := @processAll_lined kind keystream _ key iv 0 back (fresh_stands block₃) (sizes' ▸ lined)
    (by rw [sizes']; omega) (by rw [sizes']; omega)
  refine ⟨c₃, ?_⟩
  rw [ran₃, restored, cipher_cipher fun a b => by rw [UInt8.xor_assoc, UInt8.xor_self, UInt8.xor_zero]]

/-- A split that is not lined up has a first piece that is not. -/
theorem first_unlined {sizes : List Nat} {start : Nat} (unlined : ¬Lined start sizes) :
    ∃ before n after, sizes = before ++ n :: after ∧ Lined start before ∧
      ¬(n = 0 ∨ (start + before.sum) % blockSize = 0 ∨ (start + before.sum) % blockSize + n = blockSize) := by
  induction sizes generalizing start with
  | nil => exact absurd trivial unlined
  | cons n rest ih =>
    by_cases here : n = 0 ∨ start % blockSize = 0 ∨ start % blockSize + n = blockSize
    · obtain ⟨before, m, after, rfl, lined, bad⟩ := ih fun more => unlined ⟨here, more⟩
      exact ⟨n :: before, m, after, rfl, ⟨here, lined⟩, by rwa [List.sum_cons, ← Nat.add_assoc]⟩
    · exact ⟨[], n, rest, rfl, trivial, by simpa using here⟩

theorem processAll_append {before after : List CipherCall} {c c' : SodiumStreamCipher} {text : Bytes}
    (ran : processAll kind keystream (before ++ after) c = .ok (c', text)) :
    ∃ c₁ first second, processAll kind keystream before c = .ok (c₁, first) ∧
      processAll kind keystream after c₁ = .ok (c', second) ∧ text = first ++ second := by
  induction before generalizing c text with
  | nil => exact ⟨c, [], text, rfl, ran, rfl⟩
  | cons call before ih =>
    obtain ⟨⟨c₁, memory⟩, one, ran⟩ := bind_eq_ok.mp ran
    obtain ⟨⟨c₂, written⟩, more, ran⟩ := bind_eq_ok.mp ran
    cases ran
    obtain ⟨c₃, first, second, ran₁, ran₂, rfl⟩ := ih more
    refine ⟨c₃, memory.read call.output call.len ++ first, second, ?_, ran₂, (List.append_assoc _ _ _).symm⟩
    rw [processAll, one]
    simp [ran₁]

theorem flatMap_zeros (sizes : List Nat) : (sizes.map zeros).flatMap CipherCall.piece = List.replicate sizes.sum 0 := by
  induction sizes with
  | nil => rfl
  | cons n rest ih => rw [List.map_cons, List.flatMap_cons, ih, zeros_piece, List.sum_cons, List.replicate_add]

theorem lens_zeros (sizes : List Nat) : (sizes.map zeros).map CipherCall.len = sizes := by
  rw [List.map_map]
  exact List.map_id' sizes

/-- A piece that is not lined up shows in the text. -/
theorem not_agrees {split : Split} (unlined : ¬Lined 0 split.sizes) (fits : split.sizes.sum ≤ kind.limit) :
    ¬Agrees kind split := by
  intro agrees
  obtain ⟨before, n, after, sizes, lined, bad⟩ := first_unlined unlined
  rw [Nat.zero_add] at bad
  have small := split.sum_lt
  have total : split.sizes.sum = before.sum + (n + after.sum) := by rw [sizes, List.sum_append, List.sum_cons]
  have whole : (split.sizes.map zeros).flatMap CipherCall.piece = (zeros split.sizes.sum).piece := by
    rw [flatMap_zeros, zeros_piece]
  obtain ⟨c₁, -, text, ran, -, expected, -⟩ := agrees (singleOne before.sum) [] [] ⟨List.replicate 64 0, rfl⟩
    ⟨List.replicate 64 0, rfl⟩ ⟨List.replicate 64 0, rfl⟩ (split.sizes.map zeros) (zeros split.sizes.sum) []
    (lens_zeros _) whole
  rw [sizes, List.map_append, List.map_cons] at ran
  obtain ⟨c₂, first, second, ran₁, ran₂, rfl⟩ := processAll_append ran
  obtain ⟨c₃, fine, stands⟩ := @processAll_lined kind (singleOne before.sum) _ [] [] 0 (before.map zeros)
    (fresh_stands ⟨List.replicate 64 0, rfl⟩) (by rw [lens_zeros]; exact lined) (by rw [lens_zeros]; omega)
    (by rw [lens_zeros]; omega)
  rw [ran₁] at fine
  cases fine
  rw [lens_zeros, Nat.zero_add] at stands
  obtain ⟨⟨c₄, memory⟩, one, ran₂⟩ := bind_eq_ok.mp ran₂
  obtain ⟨⟨c₅, written⟩, -, ran₂⟩ := bind_eq_ok.mp ran₂
  cases ran₂
  -- the piece comes behind what the pieces before it have become
  have length : (cipher (singleOne before.sum [] []) 0 ((before.map zeros).flatMap CipherCall.piece)).length = before.sum := by
    rw [length_cipher, flatMap_zeros, List.length_replicate]
  have at_piece : ∀ i < n, (memory.read (zeros n).output n)[i]? =
      some (singleOne before.sum [] [] (before.sum + i)) := by
    intro i inside
    have here := congrArg (·[before.sum + i]?) expected
    rw [zeros_piece, getElem_cipher_zeros (by omega), Nat.zero_add] at here
    rw [← here, List.getElem?_append_right (by omega), length, Nat.add_sub_cancel_left, List.getElem?_append_left]
    · rfl
    · rw [Memory.length_read]
      exact inside
  obtain ⟨some_bytes, more⟩ := not_or.mp bad
  obtain ⟨unaligned, unended⟩ := not_or.mp more
  rcases Nat.lt_or_gt_of_ne unended with short | long
  · have zero := process_short stands some_bytes short unaligned one
    rw [at_piece 0 (Nat.pos_of_ne_zero some_bytes), Nat.add_zero, singleOne_start] at zero
    exact absurd zero (by decide)
  · have inside := Nat.mod_lt before.sum (show 0 < blockSize by decide)
    have one' := process_long stands long unaligned one
    rw [at_piece _ (by omega), singleOne_other (by omega)] at one'
    exact absurd one' (by decide)

/-- A text beyond the end of the keystream ends the process. -/
theorem fits_of_agrees {split : Split} (agrees : Agrees kind split) : split.sizes.sum ≤ kind.limit := by
  have whole : (split.sizes.map zeros).flatMap CipherCall.piece = (zeros split.sizes.sum).piece := by
    rw [flatMap_zeros, zeros_piece]
  obtain ⟨-, c₂, text, -, ran, -⟩ := agrees (singleOne 0) [] [] ⟨List.replicate 64 0, rfl⟩
    ⟨List.replicate 64 0, rfl⟩ ⟨List.replicate 64 0, rfl⟩ (split.sizes.map zeros) (zeros split.sizes.sum) []
    (lens_zeros _) whole
  obtain ⟨⟨c₃, memory⟩, one, -⟩ := bind_eq_ok.mp ran
  have none : min (sizeSub 0 0 % blockSize) split.sizes.sum = 0 := by
    rw [headSize]
    exact Nat.zero_min _
  unfold process at one
  simp only [fresh, zeros, none, ne_eq, not_true_eq_false, if_false, pure_eq_ok, ok_bind] at one
  obtain ⟨bytes, ciphered, -⟩ := bind_eq_ok.mp one
  unfold method at ciphered
  split at ciphered
  · next fits =>
    rw [Memory.length_read] at fits
    exact Nat.le_trans (Nat.le_add_left _ _) fits
  · cases ciphered

/-- A split agrees with one call exactly if each of its pieces starts or ends where a block
does, or is empty, and the keystream is long enough. -/
theorem split_agrees_iff (kind : SodiumCipher) (split : Split) :
    Agrees kind split ↔ Lined 0 split.sizes ∧ split.sizes.sum ≤ kind.limit := by
  constructor
  · intro agrees
    have fits := fits_of_agrees agrees
    exact ⟨not_not.mp fun unlined => not_agrees unlined fits agrees, fits⟩
  · rintro ⟨lined, fits⟩
    exact agrees_of_lined lined fits

/-- Two pieces of ten bytes. -/
theorem ten_and_ten_disagree : ¬Agrees .chaCha20 ⟨[10, 10], by decide⟩ := not_agrees (by decide) (by decide)

end LibNekit.Guarantees.PiecewiseCipher
