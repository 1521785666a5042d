import LibNekit.Source.Utils.Endpoint

/-!
# Subnet

subnet.cc: masks and addresses are words in the byte order of the machine.
-/
namespace LibNekit.Source

inductive ByteOrder where
  | littleEndian | bigEndian
  deriving DecidableEq, Repr

/-- The `uint32_t` that the bytes at an address are. -/
def ByteOrder.word (order : ByteOrder) (b₀ b₁ b₂ b₃ : UInt8) : UInt32 :=
  match order with
  | .littleEndian => b₀.toUInt32 ||| b₁.toUInt32 <<< 8 ||| b₂.toUInt32 <<< 16 ||| b₃.toUInt32 <<< 24
  | .bigEndian => b₃.toUInt32 ||| b₂.toUInt32 <<< 8 ||| b₁.toUInt32 <<< 16 ||| b₀.toUInt32 <<< 24

def ByteOrder.words (order : ByteOrder) : Bytes → List UInt32
  | b₀ :: b₁ :: b₂ :: b₃ :: rest => order.word b₀ b₁ b₂ b₃ :: order.words rest
  | _ => []

/-- `htonl`: the word whose bytes in memory are those of `x`, the highest first. -/
def ByteOrder.htonl (order : ByteOrder) (x : UInt32) : UInt32 :=
  order.word (x >>> 24).toUInt8 (x >>> 16).toUInt8 (x >>> 8).toUInt8 x.toUInt8

structure Subnet where
  networkAddressData : List UInt32
  maskData : List UInt32
  isIpv4 : Bool
  deriving DecidableEq, Repr

namespace Subnet

/-- `~uint32_t(0) << (32 - bits)`, for 1 to 31 bits. -/
def leading (bits : Nat) : UInt32 := (~~~0 : UInt32) <<< UInt32.ofNat (32 - bits)

/-- The two loops over the words of an IPv6 address: the masks, which start out as zero,
and the words that are left of the address. -/
def maskWords (order : ByteOrder) : Nat → List UInt32 → List (UInt32 × UInt32)
  | _, [] => []
  | 0, _ :: rest => (0, 0) :: maskWords order 0 rest
  | remain@(_ + 1), network :: rest =>
    if remain ≥ 32 then (~~~0, network) :: maskWords order (remain - 32) rest
    else (order.htonl (leading remain), network &&& order.htonl (leading remain)) :: maskWords order 0 rest

/-- `Subnet(address, prefix)` -/
def make (order : ByteOrder) (address : IpAddress) (prefixLen : Nat) : Checked Subnet := do
  boostAssert (prefixLen ≠ 0)
  match address with
  | .v4 bytes =>
    boostAssert (prefixLen ≤ 32)
    let mask := order.htonl (if prefixLen < 32 then leading prefixLen else ~~~0)
    return ⟨(order.words bytes).map fun network => network &&& mask, [mask], true⟩
  | .v6 bytes =>
    boostAssert (prefixLen ≤ 128)
    let words := maskWords order prefixLen (order.words bytes)
    return ⟨words.map Prod.snd, words.map Prod.fst, false⟩

/-- The loop of `Contains` over the words. -/
def sameNetwork : List UInt32 → List UInt32 → List UInt32 → Bool
  | mask :: masks, addr :: addrs, network :: networks =>
    if mask &&& addr ≠ network then false else sameNetwork masks addrs networks
  | _, _, _ => true

/-- `Contains(address)` -/
def contains (order : ByteOrder) (subnet : Subnet) : IpAddress → Bool
  | .v4 bytes => subnet.isIpv4 && sameNetwork subnet.maskData (order.words bytes) subnet.networkAddressData
  | .v6 bytes => !subnet.isIpv4 && sameNetwork subnet.maskData (order.words bytes) subnet.networkAddressData

end Subnet

end LibNekit.Source
