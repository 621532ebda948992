import Mathlib.Algebra.Group.Nat.Defs
import PacketPipe.ByteFields
import PacketPipe.FlowEvents

/-!
# Decoding captured frames

`PacketDecoder::decode` with every length check and every read. A read at a
position that was not captured is an error of its own, so that reading out of
bounds is not confused with refusing a frame. Offsets are 32-bit unsigned in
the source; a sum with a `sizeof` is a 64-bit one.
-/

namespace PacketPipe.PacketDecoderModel

open FlowEvents ByteFields

/-- A captured frame; its length is a `uint32_t`. -/
structure Capture where
  /-- The captured bytes. -/
  bytes : List UInt8
  /-- `len` can hold their number. -/
  fits : bytes.length<2^32

/-- `struct timeval` with 64-bit members. -/
structure Timeval where
  /-- Seconds. -/
  tvSec : Int64
  /-- Microseconds. -/
  tvUsec : Int64

/-- A read beyond the captured bytes. -/
structure OutOfRange where
  /-- The position. -/
  position : ℕ
  deriving DecidableEq

/-- `kEthHdrLen`. -/
def kEthHdrLen : ℕ := 14
/-- `kEtherIPv4`. -/
def kEtherIPv4 : UInt16 := 0x0800
/-- `kEtherIPv6`. -/
def kEtherIPv6 : UInt16 := 0x86DD
/-- `kEtherVLAN`. -/
def kEtherVLAN : UInt16 := 0x8100
/-- `sizeof(struct ip)`. -/
def sizeofIp : ℕ := 20
/-- `sizeof(struct ip6_hdr)`. -/
def sizeofIp6 : ℕ := 40
/-- `sizeof(struct tcphdr)`. -/
def sizeofTcp : ℕ := 20
/-- `sizeof(struct udphdr)`. -/
def sizeofUdp : ℕ := 8
/-- `sizeof(struct icmphdr)`. -/
def sizeofIcmp : ℕ := 8
/-- `TH_FIN`. -/
def thFin : UInt8 := 0x01
/-- `TH_RST`. -/
def thRst : UInt8 := 0x04

/-- Addition of `uint32_t`. -/
def add32 (a b : ℕ) : ℕ := (a+b)%2^32

/-- Addition of `size_t`. -/
def add64 (a b : ℕ) : ℕ := (a+b)%2^64

/-- `data[position]`. -/
def readByte (data : List UInt8) (position : ℕ) : Except OutOfRange UInt8 :=
  match data[position]? with
  | some b => .ok b
  | none => .error ⟨position⟩

/-- `ntohs` of the two bytes at a position. -/
def read16 (data : List UInt8) (position : ℕ) : Except OutOfRange UInt16 := do
  let hi ← readByte data position
  let lo ← readByte data (position+1)
  return join16 hi lo

/-- `memcpy` of `n` bytes from a position. -/
def readBytes (data : List UInt8) (position n : ℕ) : Except OutOfRange (Vector UInt8 n) :=
  if h : position+n≤data.length then
    .ok ⟨((data.drop position).take n).toArray,by
      rw [List.size_toArray,List.length_take,List.length_drop]
      omega⟩
  else .error ⟨max position data.length⟩

/-- `set_ipv4_mapped`. -/
def setIpv4Mapped (addr4 : Vector UInt8 4) : Address :=
  (#v[0,0,0,0,0,0,0,0,0,0,0xFF,0xFF] : Vector UInt8 12)++addr4

/-- The Ethernet header with a single VLAN tag unwrapped, its TCI skipped: the
EtherType and the offset behind it. -/
def decodeEthernet (data : List UInt8) : Except OutOfRange (Option (UInt16×ℕ)) :=
  if data.length<kEthHdrLen then .ok none
  else do
    let offset := kEthHdrLen-2
    let ethertype ← read16 data offset
    let offset := add32 offset 2
    if ethertype=kEtherVLAN then
      if data.length<add32 offset 4 then return none
      else
        let offset := add32 offset 2
        let ethertype ← read16 data offset
        return some (ethertype,add32 offset 2)
    else return some (ethertype,offset)

/-- The IPv4 header at an offset. -/
def decodeIpv4 (data : List UInt8) (offset : ℕ) (pkt : ParsedPacket) :
    Except OutOfRange (Option (ParsedPacket×ℕ)) :=
  if data.length<add64 offset sizeofIp then .ok none
  else do
    let versionIhl ← readByte data offset
    if versionIhl>>>4≠4 then return none
    else
      let ipHdrLen := (versionIhl&&&0x0F).toNat*4
      if ipHdrLen<20 ∨ data.length<add32 offset ipHdrLen then return none
      else
        let src ← readBytes data (offset+12) 4
        let dst ← readBytes data (offset+16) 4
        let protocol ← readByte data (offset+9)
        let totalLength ← read16 data (offset+2)
        return some ({pkt with
          srcIp := setIpv4Mapped src
          dstIp := setIpv4Mapped dst
          protocol := protocol
          wireLength := totalLength.toUInt32
          isIpv6 := false},add32 offset ipHdrLen)

/-- The IPv6 header at an offset. -/
def decodeIpv6 (data : List UInt8) (offset : ℕ) (pkt : ParsedPacket) :
    Except OutOfRange (Option (ParsedPacket×ℕ)) :=
  if data.length<add64 offset sizeofIp6 then .ok none
  else do
    let vfc ← readByte data offset
    if vfc>>>4≠6 then return none
    else
      let src ← readBytes data (offset+8) 16
      let dst ← readBytes data (offset+24) 16
      let nextHeader ← readByte data (offset+6)
      let payloadLength ← read16 data (offset+4)
      return some ({pkt with
        srcIp := src
        dstIp := dst
        protocol := nextHeader
        wireLength := payloadLength.toUInt32+40
        isIpv6 := true},add64 offset sizeofIp6%2^32)

/-- The transport header at an offset. -/
def decodeTransport (data : List UInt8) (offset : ℕ) (pkt : ParsedPacket) :
    Except OutOfRange (Option ParsedPacket) :=
  if pkt.protocol=ipprotoTcp then
    if data.length<add64 offset sizeofTcp then .ok none
    else do
      let srcPort ← read16 data offset
      let dstPort ← read16 data (offset+2)
      let flags ← readByte data (offset+13)
      return some {pkt with
        srcPort := srcPort
        dstPort := dstPort
        tcpFin := flags&&&thFin≠0
        tcpRst := flags&&&thRst≠0}
  else if pkt.protocol=ipprotoUdp then
    if data.length<add64 offset sizeofUdp then .ok none
    else do
      let srcPort ← read16 data offset
      let dstPort ← read16 data (offset+2)
      return some {pkt with srcPort := srcPort,dstPort := dstPort}
  else if pkt.protocol=ipprotoIcmp then
    if data.length<add64 offset sizeofIcmp then .ok none
    else do
      let type ← readByte data offset
      let code ← readByte data (offset+1)
      return some {pkt with srcPort := type.toUInt16<<<8|||code.toUInt16}
  else if pkt.protocol=ipprotoIcmpv6 then
    if data.length<add32 offset 4 then .ok none
    else do
      let type ← readByte data offset
      let code ← readByte data (offset+1)
      return some {pkt with srcPort := type.toUInt16<<<8|||code.toUInt16}
  else .ok none

/-- The packet before any header is read. -/
def stampedPacket (ts : Timeval) : ParsedPacket :=
  {timestampUs := ts.tvSec*1000000+ts.tvUsec}

/-- `PacketDecoder::decode`; no capture is the null pointer. -/
def decode (data : Option Capture) (ts : Timeval) : Except OutOfRange (Option ParsedPacket) :=
  match data with
  | none => .ok none
  | some capture => do
    match ← decodeEthernet capture.bytes with
    | none => return none
    | some (ethertype,offset) =>
      let network ←
        if ethertype=kEtherIPv4 then decodeIpv4 capture.bytes offset (stampedPacket ts)
        else if ethertype=kEtherIPv6 then decodeIpv6 capture.bytes offset (stampedPacket ts)
        else pure none
      match network with
      | none => return none
      | some (pkt,offset) => decodeTransport capture.bytes offset pkt

end PacketPipe.PacketDecoderModel
