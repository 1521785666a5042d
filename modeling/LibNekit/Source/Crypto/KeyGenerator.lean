import LibNekit.Source.Runtime

/-!
# KeyGenerator

`ShadowsocksGenerate` of key_generator.cc. `EVP_md5` is any function with digests of 16
bytes; that OpenSSL has no memory left, which ends the process, is left out.
-/
namespace LibNekit.Source

namespace KeyGenerator

/-- What is in the first `digest_size` bytes of `digest_buffer`. -/
abbrev Digest := { digest : Bytes // digest.length = 16 }

/-- The locals of the outer loop. A pointer is what has been written through it so far,
and `none` when it is null. -/
structure Locals where
  round : Nat := 0
  digest : Bytes := []
  keyRemain : Nat
  ivRemain : Nat
  key : Option Bytes
  iv : Option Bytes
  deriving DecidableEq, Repr

/-- `round++`, of an `int`. -/
def countRound (round : Nat) : Checked Nat := if round < 2 ^ 31 - 1 then .ok (round + 1) else .error .signedOverflow

/-- An inner loop, on the part of the digest that remains: what it leaves of the digest
and of the count, and the target. -/
def fill : Bytes → Nat → Option Bytes → Bytes × Nat × Option Bytes
  | [], remain, target => ([], remain, target)
  | rest, 0, target => (rest, 0, target)
  | c :: rest, remain + 1, target => fill rest remain (target.map (· ++ [c]))

/-- One round. -/
def roundOf (md5 : Bytes → Digest) (data : Bytes) (l : Locals) : Checked Locals := do
  let update := if l.round ≠ 0 then l.digest else []
  let round ← countRound l.round
  let digest := (md5 (update ++ data)).val
  let (rest, keyRemain, key) := fill digest l.keyRemain l.key
  let (_, ivRemain, iv) := fill rest l.ivRemain l.iv
  return { round, digest, keyRemain, ivRemain, key, iv }

/-- `while (iv_remain)` -/
def loop (md5 : Bytes → Digest) (data : Bytes) : Nat → Locals → Checked Locals
  | 0, l => if l.ivRemain ≠ 0 then .error .endlessLoop else .ok l
  | fuel + 1, l => if l.ivRemain ≠ 0 then do loop md5 data fuel (← roundOf md5 data l) else .ok l

/-- `ShadowsocksGenerate`: what it writes to `key` and to `iv`. Each round uses up a byte
of one of them. -/
def shadowsocksGenerate (md5 : Bytes → Digest) (data : Bytes) (key : Option Bytes) (keySize : Nat) (iv : Option Bytes)
    (ivSize : Nat) : Checked (Option Bytes × Option Bytes) := do
  let l ← loop md5 data (keySize + ivSize) { keyRemain := keySize, ivRemain := ivSize, key, iv }
  return (l.key, l.iv)

/-! ## The inner loops -/

theorem fill_eq (bytes : Bytes) (remain : Nat) (target : Bytes) :
    fill bytes remain (some target) = (bytes.drop remain, remain - bytes.length, some (target ++ bytes.take remain)) := by
  induction bytes generalizing remain target with
  | nil => simp [fill]
  | cons c rest ih =>
    cases remain with
    | zero => simp [fill]
    | succ remain =>
      rw [fill, Option.map_some, ih]
      simp

end KeyGenerator

end LibNekit.Source
