import LibNekit.Source.Crypto.TlsTunnel

/-!
# A session that does not encrypt

TLS records as they are before there are keys, with the two calls of a BIO pair around
them. It stands for OpenSSL where a result about TlsTunnel is shown at work.
-/
namespace LibNekit.Source

/-- The record at the front of some bytes, if all of it is there: its type, what it holds,
and how long it is. -/
def nextRecord (bytes : Bytes) : Option (UInt8 × Bytes × Nat) :=
  match bytes with
  | type :: _ :: _ :: high :: low :: rest =>
    let length := high.toNat * 256 + low.toNat
    if length ≤ rest.length then some (type, rest.take length, 5 + length) else none
  | _ => none

/-- A record that holds the bytes. -/
def record (type : UInt8) (payload : Bytes) : Bytes :=
  [type, 3, 3, UInt8.ofNat (payload.length / 256), UInt8.ofNat payload.length] ++ payload

def applicationData : UInt8 := 23

def alert : UInt8 := 21

/-- A close_notify of the peer. -/
def closeNotify : Bytes := record alert [1, 0]

/-- The default size of a BIO pair. -/
def pairSize : Nat := 17 * 1024

/-- `held` is in the pair, `begun` has been taken out of it for a record that is not all
there, and `rest` is what has not been handed out of the record before. -/
structure PlainRecords where
  held : Bytes := []
  begun : Bytes := []
  rest : Bytes := []
  closed : Bool := false
  /-- The other direction of the pair. -/
  outgoing : Bytes := []
  deriving DecidableEq, Repr

namespace PlainRecords

def bioWrite (data : Bytes) (s : PlainRecords) : SslReply × PlainRecords :=
  let n := min data.length (pairSize - s.held.length)
  ({ count := n, shouldRetry := n = 0 }, { s with held := s.held ++ data.take n })

def bioRead (len : Nat) (s : PlainRecords) : SslReply × PlainRecords :=
  ({ data := s.outgoing.take len }, { s with outgoing := s.outgoing.drop len })

/-- The next piece of a record. -/
def handOut (len : Nat) (s : PlainRecords) : SslReply × PlainRecords :=
  ({ data := s.rest.take len }, { s with rest := s.rest.drop len })

def sslRead (len : Nat) (s : PlainRecords) : SslReply × PlainRecords :=
  if s.closed then ({ error := .zeroReturn }, s)
  else if s.rest ≠ [] then s.handOut len
  else match nextRecord (s.begun ++ s.held) with
    | none => ({ error := .wantRead }, { s with begun := s.begun ++ s.held, held := [] })
    | some (type, payload, size) =>
      let taken := { s with begun := [], held := s.held.drop (size - s.begun.length) }
      if type = alert then ({ error := .zeroReturn }, { taken with closed := true })
      -- an empty record is an error here
      else if type = applicationData ∧ payload ≠ [] then handOut len { taken with rest := payload }
      else ({ error := .other, code := 1 }, s)

def sslWrite (data : Bytes) (s : PlainRecords) : SslReply × PlainRecords :=
  ({ count := data.length }, { s with outgoing := s.outgoing ++ record applicationData data })

def openSsl : OpenSsl PlainRecords
  | .bioWrite data, s => s.bioWrite data
  | .bioPending, s => ({ count := s.outgoing.length }, s)
  | .bioRead len, s => s.bioRead len
  | .sslRead len, s => s.sslRead len
  | .sslWrite data, s => s.sslWrite data
  | .handShake, s => ({}, s)

theorem nextRecord_size {bytes payload : Bytes} {type : UInt8} {size : Nat}
    (found : nextRecord bytes = some (type, payload, size)) : payload.length + 5 ≤ size ∧ size ≤ bytes.length := by
  unfold nextRecord at found
  split at found
  · dsimp only at found
    split at found
    · next fits =>
      cases found
      simp only [List.length_take, List.length_cons]
      omega
    · cases found
  · cases found

/-- What a caller writes. -/
def oneByte : Chunks := ⟨[[7]], by decide⟩

example : (openSsl (.sslRead 10) { held := record applicationData [1, 2] ++ closeNotify }).1.data = [1, 2] := by decide

end PlainRecords

end LibNekit.Source
