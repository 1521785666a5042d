import LibNekit.Library.Loop
import LibNekit.Source.Runtime

/-!
# What TlsTunnel asks of OpenSSL

The library is not in the repository. A session, with the BIO pair between it and the
tunnel, is a state that the calls below change, and what they do to it is a parameter.
-/
namespace LibNekit.Source

open LibNekit.Library

/-- What `SSL_get_error` tells apart. -/
inductive SslError where
  | none | wantRead | wantWrite | zeroReturn | other
  deriving DecidableEq, Repr

inductive SslCall where
  /-- `BIO_write(cipher_bio_, data, len)` with the `len` bytes, of which there are none if
  `len` is not positive. So it is in `SSL_write`. -/
  | bioWrite (data : Bytes)
  /-- `BIO_ctrl_pending(cipher_bio_)` -/
  | bioPending
  /-- `BIO_read(cipher_bio_, data, len)` -/
  | bioRead (len : Nat)
  /-- `SSL_read(ssl_, data, len)` -/
  | sslRead (len : Nat)
  /-- `SSL_write(ssl_, data, len)` -/
  | sslWrite (data : Bytes)
  /-- `SSL_connect(ssl_)`, or `SSL_accept(ssl_)` -/
  | handShake
  deriving DecidableEq, Repr

/-- The result of a call. `count` is what a write or `BIO_ctrl_pending` returned, and
`data` what a read filled in; they are empty when the call failed. -/
structure SslReply where
  count : Nat := 0
  data : Bytes := []
  error : SslError := .none
  /-- `BIO_should_retry(cipher_bio_)` -/
  shouldRetry : Bool := false
  /-- `ERR_get_error()` -/
  code : Nat := 0
  deriving DecidableEq, Repr

/-- A library is what each call returns and what it does to the session. -/
abbrev OpenSsl (σ : Type) := SslCall → σ → SslReply × σ

/-- Code that makes such calls. -/
abbrev Ssl (α : Type) := Program SslCall SslReply Fault α

namespace Ssl

variable {σ α : Type}

def call (c : SslCall) : Ssl SslReply := .ask c .done

/-- `BOOST_ASSERT(condition)` -/
def assert (condition : Prop) [Decidable condition] : Ssl Unit :=
  if condition then .done () else .fail .assertion

/-- The library never fails to answer. -/
def answers (lib : OpenSsl σ) (c : SslCall) (s : σ) : Checked (SslReply × σ) := .ok (lib c s)

/-- Run the code on a session. -/
def on (lib : OpenSsl σ) (program : Ssl α) (s : σ) : Checked (α × σ) := program.run (answers lib) s

/-- The calls of that run, each with the session that it found. -/
def calls (lib : OpenSsl σ) (program : Ssl α) (s : σ) : List (SslCall × σ) := program.asked (answers lib) s

@[simp] theorem call_bind (c : SslCall) (f : SslReply → Ssl α) : (call c >>= f) = .ask c f := rfl

@[simp] theorem on_done (lib : OpenSsl σ) (a : α) (s : σ) : on lib (.done a) s = .ok (a, s) := rfl

@[simp] theorem on_fail (lib : OpenSsl σ) (e : Fault) (s : σ) : on lib (.fail e : Ssl α) s = .error e := rfl

@[simp] theorem on_ask (lib : OpenSsl σ) (c : SslCall) (f : SslReply → Ssl α) (s : σ) :
    on lib (.ask c f) s = on lib (f (lib c s).1) (lib c s).2 := rfl

@[simp] theorem calls_done (lib : OpenSsl σ) (a : α) (s : σ) : calls lib (.done a) s = [] := rfl

@[simp] theorem calls_fail (lib : OpenSsl σ) (e : Fault) (s : σ) : calls lib (.fail e : Ssl α) s = [] := rfl

@[simp] theorem calls_ask (lib : OpenSsl σ) (c : SslCall) (f : SslReply → Ssl α) (s : σ) :
    calls lib (.ask c f) s = (c, s) :: calls lib (f (lib c s).1) (lib c s).2 := rfl

theorem on_assert {lib : OpenSsl σ} {condition : Prop} [Decidable condition] {u : Unit} {s s' : σ} :
    on lib (assert condition) s = .ok (u, s') ↔ condition ∧ s = s' := by
  unfold assert
  split <;> simp [*]

variable {lib : OpenSsl σ} {β : Type} {p : Ssl α} {f : α → Ssl β} {s s' : σ}

theorem on_bind_ok {x : β × σ} :
    on lib (p >>= f) s = .ok x ↔ ∃ a s', on lib p s = .ok (a, s') ∧ on lib (f a) s' = .ok x := Program.run_bind_ok

theorem on_bind {a : α} (ran : on lib p s = .ok (a, s')) : on lib (p >>= f) s = on lib (f a) s' := by
  unfold on at ran ⊢
  rw [Program.run_bind, ran]

theorem calls_bind {a : α} (ran : on lib p s = .ok (a, s')) :
    calls lib (p >>= f) s = calls lib p s ++ calls lib (f a) s' := Program.asked_bind ran

end Ssl

end LibNekit.Source
