import PacketPipe.FrameIdentity

/-!
# The transport header and the bounds of its datagram

The decoder takes the bytes right behind the IP header for the transport
header and checks that they were captured. Whether they belong to the
datagram at all depends on the fragment offset and on the length field of the
IP header, which it does not consult: later fragments and padding are decoded
alike.
-/

namespace PacketPipe.DatagramBounds

open FlowEvents ByteFields PacketDecoderModel PacketFrameLayout PacketDecoding FrameIdentity

/-- Bytes of the transport header that the decoder requires. -/
def Transport.size : Transport → ℕ
  | .tcp _ => sizeofTcp
  | .udp _ => sizeofUdp
  | .icmp _ => sizeofIcmp
  | .icmpv6 _ => 4

/-- Bytes of the IP header: `IHL*4`, or forty. -/
def Network.headerLength : Network → ℕ
  | .ipv4 h => (5+h.optionWords)*4
  | .ipv6 _ => sizeofIp6

/-- Bytes of the datagram according to its own header. -/
def Network.datagramLength : Network → ℕ
  | .ipv4 h => h.totalLength.toNat
  | .ipv6 h => h.payloadLength.toNat+sizeofIp6

/-- The fragment offset: the low thirteen bits of its field; none in the
fixed IPv6 header. -/
def Network.fragmentOffset : Network → ℕ
  | .ipv4 h => (join16 (h.fragmentation.get 2) (h.fragmentation.get 3)).toNat%8192
  | .ipv6 _ => 0

/-- The fields say that the transport header is in this datagram: it is no
later fragment and long enough for both headers. -/
def OwnsTransport (f : Frame) : Prop :=
  Network.fragmentOffset f.network=0 ∧
    Network.headerLength f.network+Transport.size f.transport≤Network.datagramLength f.network

instance (f : Frame) : Decidable (OwnsTransport f) := inferInstanceAs (Decidable (_ ∧ _))

/-- Position of the IP header. -/
def networkStart (f : Frame) : ℕ := (f.link.encode++split16 f.network.etherType).length

/-- Position right behind the IP header. -/
def transportStart (f : Frame) : ℕ := networkStart f+Network.headerLength f.network

/-- The bytes that the IP header claims for the datagram, as far as captured. -/
def datagram (f : Frame) : List UInt8 :=
  (f.encode.drop (networkStart f)).take (Network.datagramLength f.network)

/-- Number of bytes of an encoded transport header. -/
theorem length_transport (t : Transport) : t.encode.length=Transport.size t := by
  cases t with
  | tcp h => exact tcpLayout.length_encode _
  | udp h => exact udpLayout.length_encode _
  | icmp h => exact (icmpLayout 4).length_encode _
  | icmpv6 h => exact (icmpLayout 0).length_encode _

/-- Number of bytes of an encoded network header. -/
theorem length_header (w : Network) (protocol : UInt8) :
    (w.encode protocol).length=Network.headerLength w := by
  cases w with
  | ipv4 h =>
    rw [Network.encode,length_ipv4,Network.headerLength]
    omega
  | ipv6 h => exact length_ipv6 h protocol

/-- Behind the IP header are the transport header and the rest. -/
theorem drop_transportStart (f : Frame) :
    f.encode.drop (transportStart f)=f.transport.encode++f.payload := by
  have hfront : (f.link.encode++split16 f.network.etherType++
      f.network.encode f.transport.protocol).length=transportStart f := by
    rw [List.length_append,length_header]
    rfl
  rw [Frame.encode,List.append_assoc _ f.transport.encode,←hfront,List.drop_left]

/-- The fields are right exactly when the transport header is what follows
the IP header within the first fragment's datagram. -/
theorem ownsTransport_iff (f : Frame) :
    OwnsTransport f ↔ Network.fragmentOffset f.network=0 ∧
      f.transport.encode<+:(datagram f).drop (Network.headerLength f.network) := by
  have hbehind : (datagram f).drop (Network.headerLength f.network)=
      (f.transport.encode++f.payload).take
        (Network.datagramLength f.network-Network.headerLength f.network) := by
    rw [datagram,List.drop_take,List.drop_drop]
    exact congrArg _ (drop_transportStart f)
  have hsize := length_transport f.transport
  have hpositive : 0<Transport.size f.transport := by
    cases f.transport <;> exact Nat.zero_lt_succ _
  refine and_congr_right fun _ => ?_
  rw [hbehind]
  constructor
  · intro hlong
    rw [List.take_append,List.take_of_length_le (by omega)]
    exact List.prefix_append _ _
  · intro hprefix
    have hlength := hprefix.length_le
    rw [List.length_take] at hlength
    omega

/-- The same header with other fragmentation and length fields. -/
inductive OtherLengths : Network → Network → Prop
  | ipv4 (h : Ipv4Header) (fragmentation : Vector UInt8 4) (totalLength : UInt16) :
    OtherLengths (.ipv4 h)
      (.ipv4 {h with fragmentation := fragmentation,totalLength := totalLength})
  | ipv6 (h : Ipv6Header) (payloadLength : UInt16) :
    OtherLengths (.ipv6 h) (.ipv6 {h with payloadLength := payloadLength})

/-- Those fields show in the packet's length only. -/
theorem OtherLengths.packet {f : Frame} {w : Network} (h : OtherLengths f.network w)
    (ts : Timeval) :
    Frame.packet {f with network := w} ts={f.packet ts with wireLength := w.wireLength} := by
  obtain ⟨link,network,transport,payload⟩ := f
  cases h <;> rfl

/-- For every accepted capture the bytes taken for the transport header are
those right behind the IP header; all of them were captured, and ports and
flags are read from them. They are the transport header of the datagram
exactly when the fragment offset is zero and the datagram's own length covers
both headers. These fields are not consulted: with any other values of them
the frame is accepted alike, with the same key and flags. -/
theorem transport_behind_header {c : Capture} {ts : Timeval} {p : ParsedPacket}
    (hp : decode (some c) ts=.ok (some p)) :
    (∃ f,Frame.encode f=c.bytes) ∧ ∀ f : Frame,f.encode=c.bytes →
      (c.bytes.drop (transportStart f)).take (Transport.size f.transport)=f.transport.encode ∧
      transportStart f+Transport.size f.transport≤c.bytes.length ∧
      (p.srcPort=f.transport.srcPort ∧ p.dstPort=f.transport.dstPort ∧
        p.protocol=f.transport.protocol ∧ p.tcpFin=decide (f.transport.flags&&&thFin≠0) ∧
        p.tcpRst=decide (f.transport.flags&&&thRst≠0)) ∧
      (OwnsTransport f ↔ Network.fragmentOffset f.network=0 ∧
        f.transport.encode<+:(datagram f).drop (Network.headerLength f.network)) ∧
      ∀ w,OtherLengths f.network w → ∀ hfits : (Frame.encode {f with network := w}).length<2^32,
        decode (some ⟨Frame.encode {f with network := w},hfits⟩) ts=
          .ok (some {p with wireLength := w.wireLength}) := by
  obtain ⟨hframe,hpacket⟩ := accepted_packet hp
  refine ⟨hframe,fun f hf => ?_⟩
  have hbytes : c.bytes.drop (transportStart f)=f.transport.encode++f.payload := by
    rw [←hf]
    exact drop_transportStart f
  have hsize := length_transport f.transport
  have hlength := congrArg List.length hbytes
  rw [List.length_drop,List.length_append] at hlength
  have hpositive : 0<Transport.size f.transport := by
    cases f.transport <;> exact Nat.zero_lt_succ _
  cases hpacket f hf
  refine ⟨?_,by omega,⟨rfl,rfl,rfl,rfl,rfl⟩,ownsTransport_iff f,fun w hw hfits => ?_⟩
  · rw [hbytes,←hsize,List.take_left]
  · rw [decode_encoded,hw.packet]

/-- A frame with a TCP segment in a datagram of sixty bytes. -/
def wholeSegment : Frame where
  link := ⟨.replicate 12 2,none⟩
  network := .ipv4 (plainHeader 60 (.replicate 4 0))
  transport := .tcp ⟨1234,80,.replicate 9 0,0x11,.replicate 6 0⟩
  payload := .replicate 20 0

/-- A later fragment of a TCP datagram, at fragment offset 185. -/
def laterFragment : Frame :=
  {wholeSegment with
    network := .ipv4 (plainHeader 60 #v[0,1,0,185])}

/-- A datagram without payload, padded by the Ethernet. -/
def paddedDatagram : Frame :=
  {wholeSegment with
    network := .ipv4 (plainHeader 20 (.replicate 4 0))}

/-- An IPv6 datagram with a payload length of zero. -/
def emptyPayload : Frame :=
  {wholeSegment with
    network := .ipv6 (plainHeader6 0 (.replicate 16 1) (.replicate 16 2))}

/-- The whole segment's header is the one behind its IP header. -/
theorem transport_behind_header_whole :
    OwnsTransport wholeSegment ∧
      (wholeSegment.encode.drop (transportStart wholeSegment)).take 20=
        wholeSegment.transport.encode :=
  ⟨by decide,
    ((transport_behind_header (decode_encoded wholeSegment ⟨1,0⟩ (by decide))).2
      wholeSegment rfl).1⟩

/-- A later fragment, padding and an empty IPv6 payload are all decoded to a
packet with ports and FIN. -/
theorem foreign_bytes_accepted :
    (∀ f∈[laterFragment,paddedDatagram,emptyPayload],¬OwnsTransport f) ∧
      (∀ f∈[laterFragment,paddedDatagram,emptyPayload],∀ hfits : f.encode.length<2^32,
        decode (some ⟨f.encode,hfits⟩) ⟨1,0⟩=.ok (some (f.packet ⟨1,0⟩)) ∧
          (f.packet ⟨1,0⟩).srcPort=1234 ∧ (f.packet ⟨1,0⟩).tcpFin=true) ∧
      laterFragment.encode.length=74 ∧ paddedDatagram.encode.length=74 ∧
      emptyPayload.encode.length=94 := by
  refine ⟨by decide,fun f hf hfits => ⟨decode_encoded f ⟨1,0⟩ hfits,?_⟩,
    by decide,by decide,by decide⟩
  revert f
  decide

end PacketPipe.DatagramBounds
