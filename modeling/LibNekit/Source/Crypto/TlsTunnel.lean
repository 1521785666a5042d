import LibNekit.Source.Crypto.OpenSsl

/-!
# TlsTunnel

tls_tunnel.cc over a session of OpenSSL. The while loops are given fuel. The constructor
makes the session and `SetDomain` names the peer; both are part of the session here.

`InsertBack(n)` makes the Buffer longer by one piece of n bytes, whether it grows the last
chunk or adds another one, so what is read into it is a text without chunks. What is
written is walked chunk by chunk.
-/
namespace LibNekit.Source

open LibNekit.Library Ssl

/-- A Buffer as its walkers see it: its chunks, none of which is empty. -/
structure Chunks where
  list : List Bytes
  filled : ∀ c ∈ list, c ≠ []
  deriving DecidableEq

namespace Chunks

def empty : Chunks := ⟨[], nofun⟩

def size (b : Chunks) : Nat := (b.list.map List.length).sum

def bytes (b : Chunks) : Bytes := b.list.flatten

/-- What `WalkInternalChunk` passes from an offset on. -/
def piecesFrom : Nat → List Bytes → List Bytes
  | _, [] => []
  | skip, c :: cs => if skip < c.length then c.drop skip :: cs else piecesFrom (skip - c.length) cs

theorem piecesFrom_filled {cs : List Bytes} (filled : ∀ c ∈ cs, c ≠ []) (skip : Nat) :
    ∀ c ∈ piecesFrom skip cs, c ≠ [] := by
  induction cs generalizing skip with
  | nil => exact filled
  | cons c cs ih =>
    unfold piecesFrom
    split
    · next inside =>
      rintro d member rfl
      rcases List.mem_cons.mp member with first | later
      · have := congrArg List.length first
        simp only [List.length_nil, List.length_drop] at this
        omega
      · exact filled _ (List.mem_cons_of_mem _ later) rfl
    · exact ih (fun d member => filled d (List.mem_cons_of_mem _ member)) _

theorem piecesFrom_short {cs : List Bytes} {limit : Nat} (short : ∀ c ∈ cs, c.length < limit) (skip : Nat) :
    ∀ c ∈ piecesFrom skip cs, c.length < limit := by
  induction cs generalizing skip with
  | nil => exact short
  | cons c cs ih =>
    unfold piecesFrom
    split
    · intro d member
      rcases List.mem_cons.mp member with rfl | later
      · have := short c List.mem_cons_self
        rw [List.length_drop]
        omega
      · exact short d (List.mem_cons_of_mem _ later)
    · exact ih (fun d member => short d (List.mem_cons_of_mem _ member)) _

theorem flatten_piecesFrom (skip : Nat) (cs : List Bytes) : (piecesFrom skip cs).flatten = cs.flatten.drop skip := by
  induction cs generalizing skip with
  | nil => simp [piecesFrom]
  | cons c cs ih =>
    unfold piecesFrom
    split
    · next inside => rw [List.flatten_cons, List.flatten_cons, List.drop_append_of_le_length (by omega)]
    · next outside =>
      have passed : c.drop skip = [] := List.drop_eq_nil_of_le (by omega)
      rw [ih, List.flatten_cons, List.drop_append, passed, List.nil_append]

/-- `ShrinkFront(size)`, without its assertion. -/
def shrinkFront (size : Nat) (b : Chunks) : Chunks := ⟨piecesFrom size b.list, piecesFrom_filled b.filled size⟩

theorem length_bytes (b : Chunks) : b.bytes.length = b.size := List.length_flatten

theorem bytes_shrinkFront (n : Nat) (b : Chunks) : (b.shrinkFront n).bytes = b.bytes.drop n := flatten_piecesFrom n b.list

theorem bytes_eq_nil {b : Chunks} : b.bytes = [] ↔ b.size = 0 := by
  rw [← length_bytes, List.length_eq_zero_iff]

end Chunks

/-- `NEKIT_TLS_READ_SIZE` -/
def tlsReadSize : Nat := 8192

structure TlsTunnel where
  needCipherInput : Bool := false
  closed : Bool := false
  pendingWritePlain : Chunks := .empty
  pendingReadPlain : Bytes := []
  pendingReadCipher : Bytes := []
  /-- The code of `error_`, where 0 is no error. -/
  error : Nat := 0
  deriving DecidableEq

namespace TlsTunnel

inductive HandShakeAction where
  | wantIo | success
  deriving DecidableEq, Repr

/-- `TlsTunnelErrorCategory::FromSslError`, by the code that its `int` has. -/
def fromSslError (code : Nat) : Nat := code % 2 ^ 32

def hasPlainTextDataToRead (t : TlsTunnel) : Bool := t.pendingReadPlain ≠ []

def finishWritingCipherData (t : TlsTunnel) : Bool := t.pendingWritePlain.size = 0 ∧ t.pendingReadCipher = []

/-- `ReadPlainTextData`. An error is handed out again the next time, as moving it keeps
the code. -/
def readPlainTextData (t : TlsTunnel) : Except Nat Bytes × TlsTunnel :=
  if t.error ≠ 0 then (.error t.error, t) else (.ok t.pendingReadPlain, { t with pendingReadPlain := [] })

/-- `ReadCipherTextData` -/
def readCipherTextData (t : TlsTunnel) : Bytes × TlsTunnel := (t.pendingReadCipher, { t with pendingReadCipher := [] })

/-! ## Flushing -/

/-- `FlushCipherBuffer` -/
def flushCipherBuffer (t : TlsTunnel) : Ssl TlsTunnel := do
  let pending ← call .bioPending
  if pending.count = 0 then return t
  let read ← call (.bioRead pending.count)
  assert (read.data.length = pending.count)
  return { t with pendingReadCipher := t.pendingReadCipher ++ read.data }

/-- What an `SSL_read` that gave nothing leads to. -/
def readStopped (r : SslReply) (t : TlsTunnel) : TlsTunnel :=
  match r.error with
  | .wantRead | .wantWrite => t
  | .zeroReturn => { t with closed := true }
  | .none | .other => { t with error := fromSslError r.code }

/-- One `SSL_read` of `FlushPlainBuffer`, for which the Buffer has been made longer. The
part that is not filled is taken off at the end. -/
def readOnce (t : TlsTunnel) : Ssl (TlsTunnel ⊕ TlsTunnel) := do
  let r ← call (.sslRead tlsReadSize)
  if r.data = [] then return .inr (t.readStopped r)
  else if r.data.length < tlsReadSize then return .inr { t with pendingReadPlain := t.pendingReadPlain ++ r.data }
  else if r.data.length = tlsReadSize then return .inl { t with pendingReadPlain := t.pendingReadPlain ++ r.data }
  -- `HEDLEY_UNREACHABLE_RETURN(false)`
  else .fail .outOfBounds

/-- `FlushPlainBuffer` -/
def flushPlainBuffer (fuel : Nat) (t : TlsTunnel) : Ssl TlsTunnel := .loop .endlessLoop readOnce fuel t

/-- `FlushBuffer` -/
def flushBuffer (fuel : Nat) (t : TlsTunnel) : Ssl TlsTunnel := do
  let t ← t.flushCipherBuffer
  t.flushPlainBuffer fuel

/-! ## Lengths -/

/-- The `int` that a length is passed as, or 0 where that is negative. -/
def intLength (n : Nat) : Nat := if n % 2 ^ 32 < 2 ^ 31 then n % 2 ^ 32 else 0

/-- What `BIO_write` and `SSL_write` are given of a chunk. -/
def passed (data : Bytes) : Bytes := data.take (intLength data.length)

theorem intLength_le (n : Nat) : intLength n ≤ n := by
  unfold intLength
  split
  · exact Nat.mod_le _ _
  · exact Nat.zero_le _

theorem intLength_lt (n : Nat) : intLength n < 2 ^ 31 := by
  unfold intLength
  split <;> omega

theorem length_passed (data : Bytes) : (passed data).length = intLength data.length := by
  rw [passed, List.length_take, Nat.min_eq_left (intLength_le _)]

theorem passed_eq {data : Bytes} (few : data.length < 2 ^ 31) : passed data = data := by
  have same : intLength data.length = data.length := by
    unfold intLength
    rw [Nat.mod_eq_of_lt (by omega), if_pos few]
  rw [passed, same, List.take_length]

/-- The bytes that were taken are the chunk's first. -/
theorem take_passed {data : Bytes} {n : Nat} (le : n ≤ (passed data).length) :
    n ≤ data.length ∧ (passed data).take n = data.take n := by
  rw [length_passed] at le
  refine ⟨le.trans (intLength_le _), ?_⟩
  rw [passed, List.take_take, Nat.min_eq_left le]

/-! ## Cipher text from the peer -/

/-- The walk of `WriteCipherTextData`, with `buffer_processed`. -/
def writePieces : List Bytes → TlsTunnel → Nat → Ssl (TlsTunnel × Nat)
  | [], t, processed => .done (t, processed)
  | data :: rest, t, processed => do
    let t := { t with needCipherInput := false }
    let n ← call (.bioWrite (passed data))
    if n.count = 0 then
      if n.shouldRetry then return (t, processed)
      else return ({ t with error := fromSslError n.code }, processed)
    else if n.count = data.length then writePieces rest t (processed + n.count)
    else return (t, processed + n.count)

/-- A pass of the loop of `WriteCipherTextData`. -/
def writePass (buffer : Chunks) (fuel : Nat) (x : TlsTunnel × Nat) : Ssl (TlsTunnel × Nat ⊕ TlsTunnel) := do
  if x.2 ≠ buffer.size ∧ x.1.error = 0 then
    let (t, processed) ← writePieces (Chunks.piecesFrom x.2 buffer.list) x.1 x.2
    if t.error = 0 then
      let t ← t.flushBuffer fuel
      return .inl (t, processed)
    else return .inl (t, processed)
  else return .inr x.1

/-- `WriteCipherTextData` -/
def writeCipherTextData (fuel : Nat) (buffer : Chunks) (t : TlsTunnel) : Ssl TlsTunnel :=
  .loop .endlessLoop (writePass buffer fuel) fuel (t, 0)

/-! ## Plain text for the peer -/

/-- The walk of `InternalPlainWrite`, with `writed`. -/
def plainPieces : List Bytes → TlsTunnel → Nat → Ssl (TlsTunnel × Nat)
  | [], t, writed => .done (t, writed)
  | data :: rest, t, writed => do
    let n ← call (.sslWrite (passed data))
    if n.count = data.length then plainPieces rest t (writed + n.count)
    else if 0 < n.count then
      assert (n.count < data.length)
      return (t, writed + n.count)
    else match n.error with
      | .wantRead => return ({ t with needCipherInput := true }, writed)
      | .wantWrite => return (t, writed)
      | .zeroReturn => return ({ t with closed := true }, writed)
      | .none | .other => return ({ t with error := fromSslError n.code }, writed)

/-- `InternalPlainWrite` up to the call of itself. -/
def plainPass (t : TlsTunnel) : Ssl (TlsTunnel ⊕ TlsTunnel) := do
  let (t, writed) ← plainPieces t.pendingWritePlain.list t 0
  assert (0 < t.pendingWritePlain.size)
  let t ← flushCipherBuffer { t with pendingWritePlain := t.pendingWritePlain.shrinkFront writed }
  if t.pendingWritePlain.size ≠ 0 ∧ t.needCipherInput = false ∧ t.closed = false ∧ t.error = 0 then return .inl t
  else return .inr t

/-- `InternalPlainWrite` -/
def internalPlainWrite (fuel : Nat) (t : TlsTunnel) : Ssl TlsTunnel := .loop .endlessLoop plainPass fuel t

/-- `WritePlainTextData`. It reports the error that `error_` holds then. -/
def writePlainTextData (fuel : Nat) (buffer : Chunks) (t : TlsTunnel) : Ssl TlsTunnel := do
  assert t.finishWritingCipherData
  internalPlainWrite fuel { t with pendingWritePlain := buffer }

/-! ## The handshake -/

/-- `HandShake` -/
def handShake (t : TlsTunnel) : Ssl (Except Nat HandShakeAction × TlsTunnel) := do
  let n ← call .handShake
  match n.error with
  | .wantRead | .wantWrite =>
    let t ← t.flushCipherBuffer
    return (.ok .wantIo, t)
  | .none => return (.ok .success, t)
  | .zeroReturn | .other => return (.error (fromSslError n.code), t)

end TlsTunnel

end LibNekit.Source
