import LibNekit.Source.Crypto.KeyGenerator
import Mathlib.Data.List.Basic

/-!
# Key and iv from one chain of digests

After each round, what has been written is a prefix of the chain, cut where the key ends.
The outer loop asks only whether the iv is finished, so a key that no iv follows is never
written.
-/
namespace LibNekit.Guarantees.KeyDerivation

open LibNekit.Source KeyGenerator

variable (md5 : Bytes → Digest) (data : Bytes)

/-- `D(i + 1)` -/
def digest : Nat → Bytes
  | 0 => (md5 data).val
  | i + 1 => (md5 (digest i ++ data)).val

/-- `D1 ++ ... ++ Dn` -/
def chain (n : Nat) : Bytes := (List.range n).flatMap (digest md5 data)

/-- The first `n` bytes of `D1 ++ D2 ++ ...`, which `n` digests contain. -/
def firstBytes (n : Nat) : Bytes := (chain md5 data n).take n

variable {md5 data}

theorem length_digest (i : Nat) : (digest md5 data i).length = 16 := by
  cases i <;> exact (md5 _).2

theorem chain_succ (n : Nat) : chain md5 data (n + 1) = chain md5 data n ++ digest md5 data n := by
  simp [chain, List.range_succ]

theorem length_chain (n : Nat) : (chain md5 data n).length = 16 * n := by
  induction n with
  | zero => rfl
  | succ n ih =>
    rw [chain_succ, List.length_append, ih, length_digest]
    rfl

theorem chain_grows {m n : Nat} (le : m ≤ n) : chain md5 data m <+: chain md5 data n := by
  induction n, le using Nat.le_induction with
  | base => exact List.prefix_rfl
  | succ n _ ih =>
    rw [chain_succ]
    exact ih.trans (List.prefix_append _ _)

/-- Any chain that is long enough begins with the same bytes. -/
theorem take_chain {m n : Nat} (enough : m ≤ 16 * n) : (chain md5 data n).take m = firstBytes md5 data m := by
  unfold firstBytes
  have cut : ∀ {j k : Nat}, j ≤ k → m ≤ 16 * j → (chain md5 data k).take m = (chain md5 data j).take m := by
    intro j k le long
    obtain ⟨rest, more⟩ := @chain_grows md5 data _ _ le
    rw [← more, List.take_append_of_le_length]
    rw [length_chain]
    exact long
  rcases Nat.le_total m n with le | le
  · exact cut le (by omega)
  · exact (cut le enough).symm

/-! ## Rounds -/

variable (md5 data) in
/-- What the buffer holds after `r` rounds. -/
def lastDigest : Nat → Bytes
  | 0 => []
  | i + 1 => digest md5 data i

/-- The locals after `r` rounds. -/
def after (keySize ivSize r : Nat) : Locals where
  round := r
  digest := lastDigest md5 data r
  keyRemain := keySize - 16 * r
  ivRemain := ivSize - (16 * r - keySize)
  key := some ((chain md5 data r).take keySize)
  iv := some (((chain md5 data r).drop keySize).take ivSize)

theorem round_after {keySize ivSize r : Nat} (room : r < 2 ^ 31 - 1) :
    roundOf md5 data (@after md5 data keySize ivSize r) = .ok (@after md5 data keySize ivSize (r + 1)) := by
  have length := @length_chain md5 data r
  have next : (md5 ((if (@after md5 data keySize ivSize r).round ≠ 0 then (@after md5 data keySize ivSize r).digest
      else []) ++ data)).val = digest md5 data r := by
    cases r <;> rfl
  unfold roundOf
  dsimp only
  rw [next]
  simp only [after, countRound, room, if_true, ok_bind, pure_eq_ok, lastDigest]
  simp only [fill_eq, chain_succ, List.take_append, List.drop_append, List.length_drop, length_digest, length]
  congr 2
  all_goals omega

/-- The whole loop, by induction on the rounds that are left. -/
theorem loop_after {keySize ivSize : Nat} (fuel r : Nat) (positive : 0 < ivSize)
    (enough : keySize + ivSize ≤ 16 * (r + fuel)) (fits : keySize + ivSize ≤ 16 * (2 ^ 31 - 1)) :
    ∃ n, keySize + ivSize ≤ 16 * n ∧
      loop md5 data fuel (@after md5 data keySize ivSize r) = .ok (@after md5 data keySize ivSize n) := by
  induction fuel generalizing r with
  | zero =>
    have done : (@after md5 data keySize ivSize r).ivRemain = 0 := by
      simp only [after]
      omega
    exact ⟨r, enough, by rw [loop, if_neg (by simp [done])]⟩
  | succ fuel ih =>
    by_cases more : (@after md5 data keySize ivSize r).ivRemain = 0
    · refine ⟨r, ?_, by rw [loop, if_neg (by simp [more])]⟩
      simp only [after] at more
      omega
    · have room : r < 2 ^ 31 - 1 := by
        simp only [after] at more
        omega
      obtain ⟨n, covers, ran⟩ := ih (r + 1) (by omega)
      refine ⟨n, covers, ?_⟩
      rw [loop, if_pos more, round_after room]
      exact ran

/-- Beyond the range of `round` the run has no result. -/
theorem loop_overflows {keySize ivSize : Nat} (fuel r : Nat) (early : r ≤ 2 ^ 31 - 1)
    (beyond : 16 * (2 ^ 31 - 1) < keySize + ivSize) (positive : 0 < ivSize) :
    ∃ e, loop md5 data fuel (@after md5 data keySize ivSize r) = .error e := by
  have more : ¬(@after md5 data keySize ivSize r).ivRemain = 0 := by
    simp only [after]
    omega
  induction fuel generalizing r with
  | zero => exact ⟨_, by rw [loop, if_pos more]⟩
  | succ fuel ih =>
    rw [loop, if_pos more]
    rcases Nat.lt_or_eq_of_le early with room | full
    · rw [round_after room]
      refine ih (r + 1) room ?_
      simp only [after]
      omega
    · refine ⟨.signedOverflow, ?_⟩
      simp [roundOf, countRound, after, full]

/-- What the bytes written should be. -/
def Fills (md5 : Bytes → Digest) (data : Bytes) (keySize ivSize : Nat) : Prop :=
  ∃ key iv, shadowsocksGenerate md5 data (some []) keySize (some []) ivSize = .ok (some key, some iv) ∧
    key ++ iv = firstBytes md5 data (keySize + ivSize)

/-- The law holds exactly where an iv is asked for, or nothing at all, and `round` stays
in its range. -/
theorem fills_iff (md5 : Bytes → Digest) (data : Bytes) (keySize ivSize : Nat) :
    Fills md5 data keySize ivSize ↔
      (0 < ivSize ∧ keySize + ivSize ≤ 16 * (2 ^ 31 - 1)) ∨ (keySize = 0 ∧ ivSize = 0) := by
  have start : ({ keyRemain := keySize, ivRemain := ivSize, key := some [], iv := some [] } : Locals) =
      @after md5 data keySize ivSize 0 := by
    simp [after, chain, lastDigest]
  unfold Fills shadowsocksGenerate
  rw [start]
  rcases Nat.eq_zero_or_pos ivSize with none | positive
  · subst none
    have stops : loop md5 data (keySize + 0) (@after md5 data keySize 0 0) = .ok (@after md5 data keySize 0 0) := by
      cases keySize <;> rw [Nat.add_zero, loop, if_neg (by simp [after])]
    rw [stops]
    constructor
    · rintro ⟨key, iv, ran, bytes⟩
      right
      obtain ⟨rfl, rfl⟩ : [] = key ∧ [] = iv := by simpa [after, chain] using ran
      have length := congrArg List.length bytes
      simp only [firstBytes, List.length_take, length_chain, List.append_nil, List.length_nil] at length
      omega
    · rintro (⟨positive, -⟩ | ⟨rfl, -⟩)
      · exact absurd positive (Nat.lt_irrefl 0)
      · exact ⟨[], [], rfl, rfl⟩
  by_cases fits : keySize + ivSize ≤ 16 * (2 ^ 31 - 1)
  · obtain ⟨n, covers, ran⟩ := @loop_after md5 data keySize ivSize (keySize + ivSize) 0 positive (by omega) fits
    rw [ran]
    refine iff_of_true ⟨_, _, rfl, ?_⟩ (Or.inl ⟨positive, fits⟩)
    rw [← take_chain covers, List.take_add]
  · obtain ⟨e, ran⟩ := @loop_overflows md5 data keySize ivSize (keySize + ivSize) 0 (by omega) (by omega) positive
    rw [ran]
    refine iff_of_false ?_ ?_
    · rintro ⟨key, iv, stuck, -⟩
      cases stuck
    · rintro (⟨-, le⟩ | ⟨-, zero⟩)
      · exact fits le
      · omega

/-- A key that no iv follows is never written. -/
theorem key_without_iv :
    ¬Fills (fun data => ⟨List.replicate 16 (data.headD 0), List.length_replicate⟩) [112, 119] 16 0 := by
  rintro ⟨key, iv, ran, bytes⟩
  have nothing : key = [] ∧ iv = [] := by
    cases ran
    exact ⟨rfl, rfl⟩
  rw [nothing.1, nothing.2] at bytes
  exact absurd bytes (by decide)

end LibNekit.Guarantees.KeyDerivation
