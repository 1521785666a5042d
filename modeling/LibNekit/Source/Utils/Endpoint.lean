import LibNekit.Source.DataFlow.Socks5Server

/-!
# Endpoint

How endpoint.cc builds an endpoint. Reading and printing addresses is Boost's work
and a parameter here.
-/
namespace LibNekit.Source

inductive IpAddress where
  | v4 (bytes : Bytes)
  | v6 (bytes : Bytes)
  deriving DecidableEq, Repr

namespace IpAddress

/-- `is_v4()` -/
def isV4 : IpAddress → Bool
  | v4 _ => true
  | v6 _ => false

/-- `to_v4().to_bytes()` or `to_v6().to_bytes()` -/
def bytes : IpAddress → Bytes
  | v4 bytes | v6 bytes => bytes

/-- The bits of an address of the family. -/
def width : IpAddress → Nat
  | v4 _ => 32
  | v6 _ => 128

end IpAddress

/-- `boost::asio::ip::address::from_string` and `to_string`. -/
structure AddressText where
  fromString : Bytes → Option IpAddress
  toString : IpAddress → Bytes

inductive EndpointType where
  | domain | address
  deriving DecidableEq, Repr

structure Endpoint where
  type : EndpointType
  domain : Bytes
  address : Option IpAddress
  port : Nat
  deriving DecidableEq, Repr

namespace Endpoint

/-- `Endpoint(const std::string& host, uint16_t port)` -/
def ofHost (text : AddressText) (host : Bytes) (port : Nat) : Endpoint :=
  match text.fromString host with
  | none => ⟨.domain, host, none, port⟩
  | some address => ⟨.address, host, some address, port⟩

/-- `Endpoint(const boost::asio::ip::address& ip, uint16_t port)` -/
def ofAddress (text : AddressText) (ip : IpAddress) (port : Nat) : Endpoint :=
  ⟨.address, text.toString ip, some ip, port⟩

end Endpoint

/-- The endpoint that a session gets. -/
def SessionEndpoint.build (text : AddressText) (e : SessionEndpoint) : Endpoint :=
  match e.host with
  | .addressV4 bytes => .ofAddress text (.v4 bytes) e.port
  | .addressV6 bytes => .ofAddress text (.v6 bytes) e.port
  | .host name => .ofHost text name e.port

end LibNekit.Source
