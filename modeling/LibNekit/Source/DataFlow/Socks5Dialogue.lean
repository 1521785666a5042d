import LibNekit.Source.DataFlow.Socks5DataFlow
import LibNekit.Source.DataFlow.Socks5Handshake

/-!
# Socks5DataFlow connected to Socks5ServerDataFlow

The two flows and the stream between them as one machine. A Write puts its bytes on
the way when it begins; the other end gets them in whatever pieces its next hop reads,
and it may be sooner than the writer hears that the Write is complete. The next hops do
not fail, and nothing is cancelled.
-/
namespace LibNekit.Source

open LibNekit.Library

namespace Socks5Dialogue

inductive Turn where
  | client (e : Socks5DataFlow.Event)
  | server (e : Socks5Handshake.Event)
  deriving DecidableEq, Repr

end Socks5Dialogue

open Socks5Dialogue

structure Socks5Dialogue where
  client : Socks5DataFlow
  server : Socks5Handshake := .init
  toServer : Bytes := []
  toClient : Bytes := []
  deriving DecidableEq, Repr

namespace Socks5Dialogue

def init (target : Endpoint) : Socks5Dialogue := { client := { targetEndpoint := target } }

/-- The bytes of the Write that the client waits for. -/
def clientWrites (f : Socks5DataFlow) : Bytes :=
  match f.stage with
  | .greeting buffer | .requesting buffer => buffer.content
  | _ => []

/-- The bytes of the Write that the negotiation asks for. -/
def effectWrites : Socks5Server.Effect → Bytes
  | .write buffer => buffer.content
  | _ => []

/-- The bytes of the Write that the server begins. -/
def serverWrites (text : AddressText) (e : Socks5Handshake.Event) (h : Socks5Handshake) : Checked Bytes := do
  match e with
  | .read buffer => return effectWrites (← h.flow.onNegotiateRead buffer).2
  | .callContinue =>
    let endpoint ← deref h.flow.endpoint
    return (← Socks5Handshake.response 0 (endpoint.build text)).2.content
  | _ => return []

/-- The bytes that a read takes off the stream. -/
def clientReads : Socks5DataFlow.Event → Bytes
  | .read _ (some buffer) => buffer.content
  | _ => []

def serverReads : Socks5Handshake.Event → Bytes
  | .read (some buffer) => buffer.content
  | _ => []

def step (text : AddressText) (turn : Turn) (d : Socks5Dialogue) : Checked Socks5Dialogue :=
  match turn with
  | .client e => do
    let client ← d.client.step e
    return { d with client, toServer := d.toServer ++ clientWrites client, toClient := d.toClient.drop (clientReads e).length }
  | .server e => do
    let writes ← serverWrites text e d.server
    let server ← d.server.step text e
    return { d with server, toServer := d.toServer.drop (serverReads e).length, toClient := d.toClient ++ writes }

/-- A Buffer that a socket fills with the first bytes on the way. -/
structure Arrives (buffer : Buffer) (way : Bytes) : Prop where
  wf : buffer.WellFormed
  straight : buffer.Straight
  nonempty : 0 < buffer.size
  first : buffer.content <+: way

/-- What a next hop that does not fail tells the client. -/
def ClientHears (way : Bytes) : Socks5DataFlow.Event → Prop
  | .nextConnected _ success | .written _ success => success = true
  | .read _ data => ∃ buffer, data = some buffer ∧ Arrives buffer way
  | .callConnect | .runTask _ => True

/-- The same for the server. -/
def ServerHears (way : Bytes) : Socks5Handshake.Event → Prop
  | .nextOpened success | .replyWritten success | .responseWritten success | .nextContinued success => success = true
  | .read data => ∃ buffer, data = some buffer ∧ Arrives buffer way
  | .callOpen | .callContinue => True

def Admits (turn : Turn) (d : Socks5Dialogue) : Prop :=
  match turn with
  | .client e => d.client.Admits e ∧ ClientHears d.toClient e
  | .server e => d.server.Admits e ∧ ServerHears d.toServer e

def machine (text : AddressText) : Machine Socks5Dialogue Turn Fault := ⟨Admits, step text⟩

end Socks5Dialogue

end LibNekit.Source
