import PacketPipe.PacketDecoderModel

/-!
# The layout of decodable frames

A frame is given by its fields: an Ethernet header, an optional tag, an IPv4
or IPv6 header, a transport header named by the protocol byte and any further
bytes. Encoding the fields gives exactly the captures that `decode` accepts,
and the packet it returns is a function of the fields.
-/

namespace PacketPipe.PacketFrameLayout

open FlowEvents ByteFields PacketDecoderModel

/-- The 20 bytes of a TCP header without options. -/
structure TcpHeader where
  srcPort : UInt16
  dstPort : UInt16
  /-- Sequence and acknowledgement numbers and the data offset. -/
  sequencing : Vector UInt8 9
  flags : UInt8
  /-- Window, checksum and urgent pointer. -/
  trailer : Vector UInt8 6

/-- A UDP header. -/
structure UdpHeader where
  srcPort : UInt16
  dstPort : UInt16
  /-- Length and checksum. -/
  trailer : Vector UInt8 4

/-- An ICMP or ICMPv6 header of `4+n` bytes. -/
structure IcmpHeader (n : ℕ) where
  type : UInt8
  code : UInt8
  /-- Checksum, and in ICMP the four bytes that depend on the type. -/
  trailer : Vector UInt8 (2+n)

/-- The transport header of a frame. -/
inductive Transport
  | tcp (h : TcpHeader)
  | udp (h : UdpHeader)
  | icmp (h : IcmpHeader 4)
  | icmpv6 (h : IcmpHeader 0)

/-- Layout of a TCP header. -/
def tcpLayout : Layout (UInt16×UInt16×Vector UInt8 9×UInt8×Vector UInt8 6) :=
  big16.before (big16.before ((raw 9).before (byte.before (raw 6))))

/-- Layout of a UDP header. -/
def udpLayout : Layout (UInt16×UInt16×Vector UInt8 4) :=
  big16.before (big16.before (raw 4))

/-- Layout of an ICMP or ICMPv6 header. -/
def icmpLayout (n : ℕ) : Layout (UInt8×UInt8×Vector UInt8 (2+n)) :=
  byte.before (byte.before (raw (2+n)))

/-- The protocol number that names the header. -/
def Transport.protocol : Transport → UInt8
  | .tcp _ => ipprotoTcp
  | .udp _ => ipprotoUdp
  | .icmp _ => ipprotoIcmp
  | .icmpv6 _ => ipprotoIcmpv6

/-- The bytes of the header. -/
def Transport.encode : Transport → List UInt8
  | .tcp h => tcpLayout.encode (h.srcPort,h.dstPort,h.sequencing,h.flags,h.trailer)
  | .udp h => udpLayout.encode (h.srcPort,h.dstPort,h.trailer)
  | .icmp h => (icmpLayout 4).encode (h.type,h.code,h.trailer)
  | .icmpv6 h => (icmpLayout 0).encode (h.type,h.code,h.trailer)

/-- The source port, or type and code. -/
def Transport.srcPort : Transport → UInt16
  | .tcp h => h.srcPort
  | .udp h => h.srcPort
  | .icmp h => h.type.toUInt16<<<8|||h.code.toUInt16
  | .icmpv6 h => h.type.toUInt16<<<8|||h.code.toUInt16

/-- The destination port; none for ICMP and ICMPv6. -/
def Transport.dstPort : Transport → UInt16
  | .tcp h => h.dstPort
  | .udp h => h.dstPort
  | .icmp _ => 0
  | .icmpv6 _ => 0

/-- The flags byte of TCP. -/
def Transport.flags : Transport → UInt8
  | .tcp h => h.flags
  | .udp _ => 0
  | .icmp _ => 0
  | .icmpv6 _ => 0

/-- An IPv4 header apart from its protocol byte. -/
structure Ipv4Header where
  /-- Four-byte words of options; the IHL is five more. -/
  optionWords : Fin 11
  tos : UInt8
  totalLength : UInt16
  /-- Identification, flags and fragment offset. -/
  fragmentation : Vector UInt8 4
  ttl : UInt8
  checksum : UInt16
  src : Vector UInt8 4
  dst : Vector UInt8 4
  options : Vector UInt8 (4*optionWords)

/-- An IPv6 header apart from its next-header byte. -/
structure Ipv6Header where
  /-- High half of the traffic class. -/
  classHigh : Fin 16
  /-- Low half of the traffic class and the flow label. -/
  flow : Vector UInt8 3
  payloadLength : UInt16
  hopLimit : UInt8
  src : Address
  dst : Address

/-- The network header of a frame. -/
inductive Network
  | ipv4 (h : Ipv4Header)
  | ipv6 (h : Ipv6Header)

/-- Layout of the 20 fixed bytes of an IPv4 header. -/
def ipv4Layout : Layout (UInt8×UInt8×UInt16×Vector UInt8 4×UInt8×UInt8×UInt16×
    Vector UInt8 4×Vector UInt8 4) :=
  byte.before (byte.before (big16.before ((raw 4).before (byte.before (byte.before
    (big16.before ((raw 4).before (raw 4))))))))

/-- Layout of an IPv6 header. -/
def ipv6Layout : Layout (UInt8×Vector UInt8 3×UInt16×UInt8×UInt8×Address×Address) :=
  byte.before ((raw 3).before (big16.before (byte.before (byte.before
    ((raw 16).before (raw 16))))))

/-- The version and IHL byte of IPv4. -/
def versionIhl (optionWords : Fin 11) : UInt8 := UInt8.ofNat (0x45+optionWords)

/-- The first byte of IPv6. -/
def versionClass (classHigh : Fin 16) : UInt8 := UInt8.ofNat (0x60+classHigh)

/-- The bytes of an IPv4 header. -/
def Ipv4Header.encode (h : Ipv4Header) (protocol : UInt8) : List UInt8 :=
  ipv4Layout.encode (versionIhl h.optionWords,h.tos,h.totalLength,h.fragmentation,h.ttl,
    protocol,h.checksum,h.src,h.dst)++h.options.toList

/-- The bytes of an IPv6 header. -/
def Ipv6Header.encode (h : Ipv6Header) (nextHeader : UInt8) : List UInt8 :=
  ipv6Layout.encode (versionClass h.classHigh,h.flow,h.payloadLength,nextHeader,h.hopLimit,
    h.src,h.dst)

/-- The EtherType that names the header. -/
def Network.etherType : Network → UInt16
  | .ipv4 _ => kEtherIPv4
  | .ipv6 _ => kEtherIPv6

/-- The bytes of the header. -/
def Network.encode (protocol : UInt8) : Network → List UInt8
  | .ipv4 h => h.encode protocol
  | .ipv6 h => h.encode protocol

/-- The source address, IPv4-mapped for IPv4. -/
def Network.srcIp : Network → Address
  | .ipv4 h => setIpv4Mapped h.src
  | .ipv6 h => h.src

/-- The destination address. -/
def Network.dstIp : Network → Address
  | .ipv4 h => setIpv4Mapped h.dst
  | .ipv6 h => h.dst

/-- The IPv4 total length, or the IPv6 payload length and its header. -/
def Network.wireLength : Network → UInt32
  | .ipv4 h => h.totalLength.toUInt32
  | .ipv6 h => h.payloadLength.toUInt32+40

/-- Whether the header is IPv6. -/
def Network.isIpv6 : Network → Bool
  | .ipv4 _ => false
  | .ipv6 _ => true

/-- The Ethernet header, with or without a tag. -/
structure Link where
  /-- Destination and source addresses. -/
  addresses : Vector UInt8 12
  /-- The control information of an 802.1Q tag. -/
  tci : Option UInt16

/-- The bytes of the header before the EtherType of the network layer. -/
def Link.encode (l : Link) : List UInt8 :=
  l.addresses.toList++match l.tci with
    | none => []
    | some tci => split16 kEtherVLAN++split16 tci

/-- A decodable frame. -/
structure Frame where
  link : Link
  network : Network
  transport : Transport
  /-- Whatever follows the transport header. -/
  payload : List UInt8

/-- The bytes of a frame. -/
def Frame.encode (f : Frame) : List UInt8 :=
  f.link.encode++split16 f.network.etherType++f.network.encode f.transport.protocol++
    f.transport.encode++f.payload

/-- The packet that a frame stands for. -/
def Frame.packet (f : Frame) (ts : Timeval) : ParsedPacket where
  srcIp := f.network.srcIp
  dstIp := f.network.dstIp
  srcPort := f.transport.srcPort
  dstPort := f.transport.dstPort
  protocol := f.transport.protocol
  wireLength := f.network.wireLength
  timestampUs := ts.tvSec*1000000+ts.tvUsec
  tcpFin := f.transport.flags&&&thFin≠0
  tcpRst := f.transport.flags&&&thRst≠0
  isIpv6 := f.network.isIpv6

section Reads

/-- A read behind a prefix is a read of the rest. -/
theorem readByte_behind {head rest : List UInt8} {i : ℕ} {b : UInt8} (h : rest[i]?=some b) :
    readByte (head++rest) (head.length+i)=.ok b := by
  rw [readByte,List.getElem?_append_right (Nat.le_add_right _ _),Nat.add_sub_cancel_left,h]

/-- A read right behind a prefix. -/
theorem readByte_front {head rest : List UInt8} {b : UInt8} (h : rest[0]?=some b) :
    readByte (head++rest) head.length=.ok b := by
  have hread : readByte (head++rest) (head.length+0)=.ok b := readByte_behind h
  rwa [Nat.add_zero] at hread

/-- A two-byte read behind a prefix. -/
theorem read16_behind {head rest : List UInt8} {i : ℕ} {x : UInt16}
    (h : (rest.drop i).take 2=split16 x) : read16 (head++rest) (head.length+i)=.ok x := by
  have hhi : rest[i]?=some (UInt8.ofNat (x.toNat/256)) := by
    have hfirst := congrArg (fun l : List UInt8 => l[0]?) h
    simpa [split16] using hfirst
  have hlo : rest[i+1]?=some (UInt8.ofNat x.toNat) := by
    have hsecond := congrArg (fun l : List UInt8 => l[1]?) h
    simpa [split16] using hsecond
  rw [read16,readByte_behind hhi,Nat.add_assoc,readByte_behind hlo]
  exact congrArg Except.ok (join_split16 x)

/-- A two-byte read right behind a prefix. -/
theorem read16_front {head rest : List UInt8} {x : UInt16} (h : rest.take 2=split16 x) :
    read16 (head++rest) head.length=.ok x := by
  have hread : read16 (head++rest) (head.length+0)=.ok x := read16_behind h
  rwa [Nat.add_zero] at hread

/-- A block read behind a prefix. -/
theorem readBytes_behind {head rest : List UInt8} {i n : ℕ} {v : Vector UInt8 n} (hn : 0<n)
    (h : (rest.drop i).take n=v.toList) : readBytes (head++rest) (head.length+i) n=.ok v := by
  have hdrop : (head++rest).drop (head.length+i)=rest.drop i := by
    rw [List.drop_append,Nat.add_sub_cancel_left,List.drop_eq_nil_of_le (by omega),List.nil_append]
  have hlength := congrArg List.length h
  rw [List.length_take,List.length_drop,Vector.length_toList] at hlength
  have hbound : head.length+i+n≤(head++rest).length := by
    rw [List.length_append]
    omega
  rw [readBytes,dif_pos hbound]
  refine congrArg Except.ok (Vector.toList_inj.mp ?_)
  rw [← h,← hdrop]
  rfl

end Reads

end PacketPipe.PacketFrameLayout
