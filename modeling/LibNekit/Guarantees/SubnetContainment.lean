import LibNekit.Source.Utils.Subnet

/-!
# A subnet contains the addresses with its prefix

The bits of a word are numbered as they are sent, whatever the byte order of the machine;
so numbered, `htonl` does not move them, and a mask keeps the first ones.
-/
namespace LibNekit.Guarantees.SubnetContainment

open LibNekit.Source Subnet

/-! ## Bits of a word -/

/-- The bits of a byte in memory, among those of its word. -/
def place (order : ByteOrder) (j : Nat) : Nat :=
  match order with
  | .littleEndian => j
  | .bigEndian => 3 - j

/-- Bit `i` of the bytes of a word in memory, the highest bit of the first byte first. -/
def wordBit (order : ByteOrder) (w : UInt32) (i : Nat) : Bool :=
  w.toNat.testBit (8 * place order (i / 8) + (7 - i % 8))

/-- Bit `i` of bytes that are sent. -/
def networkBit (bytes : Bytes) (i : Nat) : Bool := (bytes.getD (i / 8) 0).toNat.testBit (7 - i % 8)

variable {order : ByteOrder}

theorem byte_bit_beyond (b : UInt8) {k : Nat} (beyond : 8 ≤ k) : b.toNat.testBit k = false :=
  Nat.testBit_lt_two_pow (Nat.lt_of_lt_of_le b.toNat_lt (Nat.pow_le_pow_right (by decide) beyond))

theorem shifted_testBit (b : UInt8) {j i : Nat} (small : j < 4) (bound : i < 32) :
    (b.toUInt32 <<< UInt32.ofNat (8 * j)).toNat.testBit i = (decide (i / 8 = j) && b.toNat.testBit (i % 8)) := by
  have shift : (UInt32.ofNat (8 * j)).toNat = 8 * j := by
    simp only [UInt32.toNat_ofNat']
    omega
  rw [UInt32.toNat_shiftLeft, shift, UInt8.toNat_toUInt32, Nat.testBit_mod_two_pow, Nat.testBit_shiftLeft,
    Nat.mod_eq_of_lt (by omega : 8 * j < 32)]
  by_cases here : i / 8 = j
  · rw [show i % 8 = i - 8 * j by omega]
    simp [here, bound, show 8 * j ≤ i by omega]
  · by_cases before : 8 * j ≤ i
    · simp [here, byte_bit_beyond b (show 8 ≤ i - 8 * j by omega)]
    · simp [here, before]

theorem word_testBit (order : ByteOrder) (b₀ b₁ b₂ b₃ : UInt8) {i : Nat} (bound : i < 32) :
    (order.word b₀ b₁ b₂ b₃).toNat.testBit i =
      ([b₀, b₁, b₂, b₃].getD (place order (i / 8)) 0).toNat.testBit (i % 8) := by
  have lowest : ∀ b : UInt8, b.toUInt32.toNat.testBit i = (decide (i / 8 = 0) && b.toNat.testBit (i % 8)) := by
    intro b
    simpa using shifted_testBit b (by decide : 0 < 4) bound
  have second : (8 : UInt32) = UInt32.ofNat (8 * 1) := rfl
  have third : (16 : UInt32) = UInt32.ofNat (8 * 2) := rfl
  have highest : (24 : UInt32) = UInt32.ofNat (8 * 3) := rfl
  have byte : i / 8 = 0 ∨ i / 8 = 1 ∨ i / 8 = 2 ∨ i / 8 = 3 := by omega
  cases order <;> rw [ByteOrder.word, second, third, highest] <;>
    simp only [UInt32.toNat_or, Nat.testBit_or, place, lowest, shifted_testBit _ (by decide : 1 < 4) bound,
      shifted_testBit _ (by decide : 2 < 4) bound, shifted_testBit _ (by decide : 3 < 4) bound] <;>
    rcases byte with is | is | is | is <;> simp [is]

theorem wordBit_word (b₀ b₁ b₂ b₃ : UInt8) {i : Nat} (bound : i < 32) :
    wordBit order (order.word b₀ b₁ b₂ b₃) i = networkBit [b₀, b₁, b₂, b₃] i := by
  have small : place order (i / 8) < 4 := by
    cases order <;> simp only [place] <;> omega
  have back : place order (place order (i / 8)) = i / 8 := by
    cases order <;> simp only [place]
    omega
  rw [wordBit, word_testBit order b₀ b₁ b₂ b₃ (by omega), networkBit,
    show (8 * place order (i / 8) + (7 - i % 8)) / 8 = place order (i / 8) by omega, back,
    show (8 * place order (i / 8) + (7 - i % 8)) % 8 = 7 - i % 8 by omega]

theorem cut_testBit (x : UInt32) {n k : Nat} (inside : n < 32) (bound : k < 8) :
    (x >>> UInt32.ofNat n).toUInt8.toNat.testBit k = x.toNat.testBit (n + k) := by
  have shift : (UInt32.ofNat n).toNat = n := by
    simp only [UInt32.toNat_ofNat']
    omega
  rw [UInt32.toNat_toUInt8, Nat.testBit_mod_two_pow, decide_eq_true bound, Bool.true_and, UInt32.toNat_shiftRight,
    Nat.testBit_shiftRight, shift, Nat.mod_eq_of_lt inside]

theorem wordBit_htonl (x : UInt32) {i : Nat} (bound : i < 32) :
    wordBit order (order.htonl x) i = x.toNat.testBit (31 - i) := by
  have low : x.toUInt8 = (x >>> UInt32.ofNat 0).toUInt8 := by simp
  have byte : i / 8 = 0 ∨ i / 8 = 1 ∨ i / 8 = 2 ∨ i / 8 = 3 := by omega
  rw [ByteOrder.htonl, wordBit_word _ _ _ _ bound, networkBit, low]
  rcases byte with is | is | is | is <;> rw [is]
  · exact (cut_testBit x (by decide : 24 < 32) (by omega)).trans (by congr 1; omega)
  · exact (cut_testBit x (by decide : 16 < 32) (by omega)).trans (by congr 1; omega)
  · exact (cut_testBit x (by decide : 8 < 32) (by omega)).trans (by congr 1; omega)
  · exact (cut_testBit x (by decide : 0 < 32) (by omega)).trans (by congr 1; omega)

theorem wordBit_and (v w : UInt32) (i : Nat) : wordBit order (v &&& w) i = (wordBit order v i && wordBit order w i) := by
  rw [wordBit, UInt32.toNat_and, Nat.testBit_and]
  rfl

/-- The bits make the word. -/
theorem word_ext {v w : UInt32} (same : ∀ i < 32, wordBit order v i = wordBit order w i) : v = w := by
  apply UInt32.toNat_inj.mp
  apply Nat.eq_of_testBit_eq
  intro k
  by_cases bound : k < 32
  · have here := same (8 * place order (k / 8) + (7 - k % 8)) (by cases order <;> simp only [place] <;> omega)
    unfold wordBit at here
    have back : 8 * place order ((8 * place order (k / 8) + (7 - k % 8)) / 8) +
        (7 - (8 * place order (k / 8) + (7 - k % 8)) % 8) = k := by
      cases order <;> simp only [place] <;> omega
    rwa [back] at here
  · have beyond : ∀ x : UInt32, x.toNat.testBit k = false := fun x =>
      Nat.testBit_lt_two_pow (Nat.lt_of_lt_of_le x.toNat_lt (Nat.pow_le_pow_right (by decide) (by omega)))
    rw [beyond, beyond]

/-! ## Masks -/

/-- The mask that keeps the first `n` bits. -/
def Keeps (order : ByteOrder) (n : Nat) (mask : UInt32) : Prop := ∀ i < 32, wordBit order mask i = decide (i < n)

theorem keeps_ones : Keeps order 32 (~~~0) := by
  intro i bound
  rw [wordBit, decide_eq_true bound]
  show (2 ^ 32 - 1).testBit _ = true
  rw [Nat.testBit_two_pow_sub_one, decide_eq_true]
  cases order <;> simp only [place] <;> omega

theorem keeps_leading {n : Nat} (positive : 0 < n) (few : n < 32) : Keeps order n (order.htonl (leading n)) := by
  intro i bound
  have shift : (UInt32.ofNat (32 - n)).toNat = 32 - n := by
    simp only [UInt32.toNat_ofNat']
    omega
  rw [wordBit_htonl _ bound, leading, UInt32.toNat_shiftLeft, shift, Nat.testBit_mod_two_pow, Nat.testBit_shiftLeft,
    Nat.mod_eq_of_lt (by omega : 32 - n < 32)]
  show (decide _ && (decide _ && (2 ^ 32 - 1).testBit _)) = _
  rw [Nat.testBit_two_pow_sub_one]
  by_cases inside : i < n
  · simp [inside, show 31 - i < 32 by omega, show 32 - n ≤ 31 - i by omega, show 31 - i - (32 - n) < 32 by omega]
  · simp [inside, show ¬32 - n ≤ 31 - i by omega]

theorem keeps_htonl_ones : Keeps order 32 (order.htonl (~~~0)) := by
  intro i bound
  rw [wordBit_htonl _ bound, decide_eq_true bound]
  show (2 ^ 32 - 1).testBit _ = true
  rw [Nat.testBit_two_pow_sub_one, decide_eq_true]
  omega

/-- Two words agree under a mask when they agree in the bits it keeps. -/
theorem masked_eq_iff {n : Nat} {mask v w : UInt32} (keeps : Keeps order n mask) (few : n ≤ 32) :
    mask &&& w = v &&& mask ↔ ∀ i < n, wordBit order w i = wordBit order v i := by
  constructor
  · intro same i inside
    have here := congrArg (wordBit order · i) same
    simpa [wordBit_and, keeps i (by omega), inside] using here
  · intro same
    refine @word_ext order _ _ fun i bound => ?_
    rw [wordBit_and, wordBit_and, keeps i bound]
    by_cases inside : i < n
    · simp [inside, same i inside]
    · simp [inside]

/-! ## Addresses -/

/-- Bit `i` of the words in memory. -/
def wordsBit (order : ByteOrder) (words : List UInt32) (i : Nat) : Bool :=
  wordBit order (words.getD (i / 32) 0) (i % 32)

theorem networkBit_beyond (front rest : Bytes) (i : Nat) :
    networkBit (front ++ rest) (8 * front.length + i) = networkBit rest i := by
  rw [networkBit, networkBit, show (8 * front.length + i) / 8 = front.length + i / 8 by omega,
    show (8 * front.length + i) % 8 = i % 8 by omega, List.getD_eq_getElem?_getD, List.getD_eq_getElem?_getD,
    List.getElem?_append_right (Nat.le_add_right _ _), Nat.add_sub_cancel_left]

theorem wordsBit_words (bytes : Bytes) (whole : bytes.length % 4 = 0) {i : Nat} (bound : i < 8 * bytes.length) :
    wordsBit order (order.words bytes) i = networkBit bytes i := by
  induction bytes using ByteOrder.words.induct generalizing i with
  | case1 b₀ b₁ b₂ b₃ rest ih =>
    rw [ByteOrder.words]
    by_cases first : i < 32
    · rw [wordsBit, show i / 32 = 0 by omega, show i % 32 = i by omega, List.getD_cons_zero, wordBit_word _ _ _ _ first,
        networkBit, networkBit]
      have byte : i / 8 = 0 ∨ i / 8 = 1 ∨ i / 8 = 2 ∨ i / 8 = 3 := by omega
      rcases byte with is | is | is | is <;> simp [is]
    · obtain ⟨k, rfl⟩ : ∃ k, i = 32 + k := ⟨i - 32, by omega⟩
      simp only [List.length_cons] at whole bound
      rw [wordsBit, show (32 + k) / 32 = k / 32 + 1 by omega, show (32 + k) % 32 = k % 32 by omega, List.getD_cons_succ]
      exact (ih (by omega) (by omega)).trans (networkBit_beyond [b₀, b₁, b₂, b₃] rest k).symm
  | case2 bytes short =>
    rcases bytes with _ | ⟨a, _ | ⟨b, _ | ⟨c, _ | ⟨d, rest⟩⟩⟩⟩
    · exact absurd bound (by simp)
    · exact absurd whole (by simp)
    · exact absurd whole (by simp)
    · exact absurd whole (by simp)
    · exact absurd rfl (short a b c d rest)

theorem wordsBit_cons (v w : UInt32) (vs ws : List UInt32) (n : Nat) :
    (∀ i < n, wordsBit order (w :: ws) i = wordsBit order (v :: vs) i) ↔
      (∀ i < min n 32, wordBit order w i = wordBit order v i) ∧
        ∀ i < n - 32, wordsBit order ws i = wordsBit order vs i := by
  constructor
  · intro same
    constructor
    · intro i bound
      have here := same i (by omega)
      rwa [wordsBit, wordsBit, show i / 32 = 0 by omega, show i % 32 = i by omega] at here
    · intro i bound
      have here := same (32 + i) (by omega)
      rwa [wordsBit, wordsBit, show (32 + i) / 32 = i / 32 + 1 by omega, show (32 + i) % 32 = i % 32 by omega] at here
  · rintro ⟨first, more⟩ i bound
    by_cases inside : i < 32
    · rw [wordsBit, wordsBit, show i / 32 = 0 by omega, show i % 32 = i by omega]
      exact first i (by omega)
    · have here := more (i - 32) (by omega)
      rw [wordsBit, wordsBit] at here ⊢
      rw [show i / 32 = (i - 32) / 32 + 1 by omega, show i % 32 = (i - 32) % 32 by omega]
      exact here

theorem sameNetwork_cons (mask w network : UInt32) (masks ws networks : List UInt32) :
    sameNetwork (mask :: masks) (w :: ws) (network :: networks) = true ↔
      mask &&& w = network ∧ sameNetwork masks ws networks = true := by
  rw [sameNetwork]
  split
  · next differs => exact ⟨nofun, fun same => absurd same.1 differs⟩
  · next same => exact ⟨fun more => ⟨not_not.mp same, more⟩, fun both => both.2⟩

/-- The loop of `Contains` over what the constructor made of an IPv6 address. -/
theorem sameNetwork_maskWords (vs ws : List UInt32) (same : vs.length = ws.length) {n : Nat} (fits : n ≤ 32 * vs.length) :
    sameNetwork ((maskWords order n vs).map Prod.fst) ws ((maskWords order n vs).map Prod.snd) = true ↔
      ∀ i < n, wordsBit order ws i = wordsBit order vs i := by
  induction vs generalizing ws n with
  | nil =>
    obtain rfl : n = 0 := by simpa using fits
    rw [maskWords, List.map_nil, List.map_nil, sameNetwork]
    · simp
    · nofun
  | cons v vs ih =>
    obtain ⟨w, ws, rfl⟩ := List.exists_cons_of_length_eq_add_one same.symm
    rw [List.length_cons, List.length_cons, Nat.add_right_cancel_iff] at same
    rw [List.length_cons] at fits
    rw [wordsBit_cons]
    cases n with
    | zero =>
      rw [maskWords, List.map_cons, List.map_cons, sameNetwork_cons, ih ws same (Nat.zero_le _)]
      simp
    | succ n =>
      rw [maskWords]
      split
      · next whole =>
        have first := masked_eq_iff (@keeps_ones order) (Nat.le_refl 32) (v := v) (w := w)
        rw [show v &&& ~~~0 = v by simp] at first
        rw [List.map_cons, List.map_cons, sameNetwork_cons, ih ws same (by omega), Nat.min_eq_right whole, first]
      · next part =>
        have first := masked_eq_iff (@keeps_leading order _ (Nat.succ_pos n) (by omega)) (by omega) (v := v) (w := w)
        rw [List.map_cons, List.map_cons, sameNetwork_cons, ih ws same (Nat.zero_le _), Nat.min_eq_left (by omega), first,
          show n + 1 - 32 = 0 by omega]

theorem words_length (bytes : Bytes) : (order.words bytes).length = bytes.length / 4 := by
  induction bytes using ByteOrder.words.induct with
  | case1 b₀ b₁ b₂ b₃ rest ih =>
    rw [ByteOrder.words, List.length_cons, ih]
    simp only [List.length_cons]
    omega
  | case2 bytes short =>
    rw [ByteOrder.words]
    · rcases bytes with _ | ⟨a, _ | ⟨b, _ | ⟨c, _ | ⟨d, rest⟩⟩⟩⟩
      · rfl
      · simp
      · simp
      · simp
      · exact absurd rfl (short a b c d rest)
    · exact short

/-- An address with as many bytes as its family has. -/
structure Address where
  ip : IpAddress
  sized : 8 * ip.bytes.length = ip.width

/-- The bits of two addresses are those of their words. -/
theorem bits_of_words {n : Nat} {bytes bytes' : Bytes} (whole : bytes.length % 4 = 0)
    (same : bytes'.length = bytes.length) (fits : n ≤ 8 * bytes.length) :
    (∀ i < n, wordsBit order (order.words bytes') i = wordsBit order (order.words bytes) i) ↔
      ∀ i < n, networkBit bytes' i = networkBit bytes i := by
  refine forall₂_congr fun i bound => ?_
  rw [wordsBit_words bytes whole (by omega), wordsBit_words bytes' (by omega) (by omega)]

theorem contains_v4 {n : Nat} {bytes bytes' : Bytes} {mask : UInt32} (keeps : Keeps order n mask) (fits : n ≤ 32)
    (size : bytes.length = 4) (size' : bytes'.length = 4) :
    sameNetwork [mask] (order.words bytes') ((order.words bytes).map fun network => network &&& mask) = true ↔
      ∀ i < n, networkBit bytes' i = networkBit bytes i := by
  have one : (order.words bytes).length = 1 := by rw [words_length, size]
  have one' : (order.words bytes').length = 1 := by rw [words_length, size']
  rw [← @bits_of_words order n bytes bytes' (by omega) (by omega) (by omega)]
  obtain ⟨v, is⟩ := List.length_eq_one_iff.mp one
  obtain ⟨w, is'⟩ := List.length_eq_one_iff.mp one'
  rw [is, is', wordsBit_cons, Nat.min_eq_left fits, ← masked_eq_iff keeps fits, List.map_singleton, sameNetwork_cons,
    sameNetwork]
  · simp [show n - 32 = 0 by omega]
  · nofun

/-- The mask of an IPv4 subnet. -/
def mask (order : ByteOrder) (n : Nat) : UInt32 := order.htonl (if n < 32 then leading n else ~~~0)

theorem keeps_mask {n : Nat} (positive : 0 < n) (fits : n ≤ 32) : Keeps order n (mask order n) := by
  unfold mask
  by_cases few : n < 32
  · rw [if_pos few]
    exact keeps_leading positive few
  · obtain rfl : n = 32 := by omega
    exact keeps_htonl_ones

theorem make_v4 {n : Nat} {bytes : Bytes} (positive : 0 < n) (fits : n ≤ 32) : make order (.v4 bytes) n =
    .ok ⟨(order.words bytes).map fun network => network &&& mask order n, [mask order n], true⟩ := by
  rw [make, boostAssert_of (by omega), ok_bind]
  dsimp only
  rw [boostAssert_of fits]
  rfl

theorem make_v6 {n : Nat} {bytes : Bytes} (positive : 0 < n) (fits : n ≤ 128) : make order (.v6 bytes) n =
    .ok ⟨(maskWords order n (order.words bytes)).map Prod.snd, (maskWords order n (order.words bytes)).map Prod.fst,
      false⟩ := by
  rw [make, boostAssert_of (by omega), ok_bind]
  dsimp only
  rw [boostAssert_of fits]
  rfl

/-- `Subnet(a, n)` contains the addresses of the family of `a` that begin with the first
`n` bits of `a`. -/
theorem subnet_contains_iff (order : ByteOrder) (a : Address) {n : Nat} (positive : 0 < n) (fits : n ≤ a.ip.width) :
    ∃ subnet, Subnet.make order a.ip n = .ok subnet ∧ ∀ b : Address,
      subnet.contains order b.ip = true ↔
        b.ip.isV4 = a.ip.isV4 ∧ ∀ i < n, networkBit b.ip.bytes i = networkBit a.ip.bytes i := by
  obtain ⟨ip, sized⟩ := a
  cases ip with
  | v4 bytes =>
    have size : 8 * bytes.length = 32 := sized
    have fits : n ≤ 32 := fits
    refine ⟨_, make_v4 positive fits, ?_⟩
    rintro ⟨ip', sized'⟩
    cases ip' with
    | v4 bytes' =>
      have size' : 8 * bytes'.length = 32 := sized'
      simpa [contains, IpAddress.isV4, IpAddress.bytes] using
        contains_v4 (@keeps_mask order n positive fits) fits (by omega : bytes.length = 4) (by omega : bytes'.length = 4)
    | v6 bytes' => simp [contains, IpAddress.isV4]
  | v6 bytes =>
    have size : 8 * bytes.length = 128 := sized
    have fits : n ≤ 128 := fits
    refine ⟨_, make_v6 positive fits, ?_⟩
    rintro ⟨ip', sized'⟩
    cases ip' with
    | v4 bytes' => simp [contains, IpAddress.isV4]
    | v6 bytes' =>
      have size' : 8 * bytes'.length = 128 := sized'
      have lengths : (order.words bytes).length = (order.words bytes').length := by
        rw [words_length, words_length]
        omega
      have words := @sameNetwork_maskWords order _ _ lengths n (by rw [words_length]; omega)
      rw [@bits_of_words order n bytes bytes' (by omega) (by omega) (by omega)] at words
      simpa [contains, IpAddress.isV4, IpAddress.bytes] using words

/-- The first 60 bits of fe80::. -/
theorem subnet_contains_iff_slash60 :
    ∃ subnet, Subnet.make .littleEndian (.v6 (254 :: 128 :: List.replicate 14 0)) 60 = .ok subnet ∧ ∀ b : Address,
      subnet.contains .littleEndian b.ip = true ↔
        b.ip.isV4 = false ∧ ∀ i < 60, networkBit b.ip.bytes i = networkBit (254 :: 128 :: List.replicate 14 0) i :=
  subnet_contains_iff .littleEndian ⟨.v6 (254 :: 128 :: List.replicate 14 0), rfl⟩ (by decide) (by decide)

end LibNekit.Guarantees.SubnetContainment
