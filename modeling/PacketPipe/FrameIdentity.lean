import PacketPipe.FlowTableModel
import PacketPipe.PacketDecoding

/-!
# When two frames belong to the same flow

A flow key holds sixteen address bytes for either IP version and no version
of its own. Frames of one version share a key exactly when they agree on
addresses, protocol and transport identifiers. An IPv4 and an IPv6 frame share
one exactly when the IPv6 addresses are the IPv4-mapped forms of the others.
-/

namespace PacketPipe.FrameIdentity

open FlowEvents FlowTableModel ByteFields PacketDecoderModel PacketFrameLayout PacketDecoding

/-- Source and destination with the IP version they belong to. -/
inductive Endpoints
  | ipv4 (src dst : Vector UInt8 4)
  | ipv6 (src dst : Address)
  deriving DecidableEq

/-- What tells the flows of two hosts apart. -/
inductive TransportIds
  | ports (src dst : UInt16)
  | typeCode (type code : UInt8)
  deriving DecidableEq

/-- Version and addresses of a network header. -/
def Network.endpoints : Network → Endpoints
  | .ipv4 h => .ipv4 h.src h.dst
  | .ipv6 h => .ipv6 h.src h.dst

/-- Identifiers of a transport header. -/
def Transport.ids : Transport → TransportIds
  | .tcp h => .ports h.srcPort h.dstPort
  | .udp h => .ports h.srcPort h.dstPort
  | .icmp h => .typeCode h.type h.code
  | .icmpv6 h => .typeCode h.type h.code

/-- Same protocol number and same transport identifiers. -/
def SameTransport (f g : Frame) : Prop :=
  f.transport.protocol=g.transport.protocol ∧
    Transport.ids f.transport=Transport.ids g.transport

/-- Same IP version, addresses, protocol and transport identifiers. -/
def SameIdentity (f g : Frame) : Prop :=
  Network.endpoints f.network=Network.endpoints g.network ∧ SameTransport f g

/-- An IPv4 frame and an IPv6 frame between the IPv4-mapped addresses, with
the same protocol and transport identifiers. -/
def MappedTwin (f g : Frame) : Prop :=
  (∃ src dst,Network.endpoints f.network=.ipv4 src dst ∧
    Network.endpoints g.network=.ipv6 (setIpv4Mapped src) (setIpv4Mapped dst)) ∧
    SameTransport f g

instance (f g : Frame) : Decidable (SameTransport f g) := inferInstanceAs (Decidable (_ ∧ _))

instance (f g : Frame) : Decidable (SameIdentity f g) := inferInstanceAs (Decidable (_ ∧ _))

section Encodings

/-- Mapped addresses are equal only for equal IPv4 addresses. -/
theorem setIpv4Mapped_inj {a b : Vector UInt8 4} : setIpv4Mapped a=setIpv4Mapped b ↔ a=b :=
  ⟨fun h => Vector.append_inj_right h,congrArg setIpv4Mapped⟩

/-- Type and code are the two bytes of the port field. -/
theorem typeCode_toNat (type code : UInt8) :
    (type.toUInt16<<<8|||code.toUInt16).toNat=256*type.toNat+code.toNat := by
  have htype := type.toNat_lt
  have hcode := code.toNat_lt
  have hshift : (type.toUInt16<<<8).toNat=type.toNat<<<8 := by
    rw [UInt16.toNat_shiftLeft,UInt8.toNat_toUInt16,Nat.shiftLeft_eq,Nat.shiftLeft_eq]
    change type.toNat*2^8%2^16=type.toNat*2^8
    omega
  rw [UInt16.toNat_or,hshift,UInt8.toNat_toUInt16,←Nat.shiftLeft_add_eq_or_of_lt hcode,
    Nat.shiftLeft_eq]
  omega

/-- The port field determines type and code. -/
theorem typeCode_inj {type code type' code' : UInt8} :
    type.toUInt16<<<8|||code.toUInt16=type'.toUInt16<<<8|||code'.toUInt16 ↔
      type=type' ∧ code=code' := by
  constructor
  · intro h
    have hvalue := congrArg UInt16.toNat h
    rw [typeCode_toNat,typeCode_toNat] at hvalue
    have hcode := code.toNat_lt
    have hcode' := code'.toNat_lt
    constructor
    · exact UInt8.toNat_inj.mp (by omega)
    · exact UInt8.toNat_inj.mp (by omega)
  · rintro ⟨rfl,rfl⟩
    rfl

/-- Port fields and protocol agree exactly for the same transport. -/
theorem sameTransport_iff (f g : Frame) :
    (f.transport.srcPort=g.transport.srcPort ∧ f.transport.dstPort=g.transport.dstPort ∧
      f.transport.protocol=g.transport.protocol) ↔ SameTransport f g := by
  unfold SameTransport
  cases f.transport <;> cases g.transport <;>
    simp [Transport.protocol,Transport.ids,Transport.srcPort,Transport.dstPort,typeCode_inj,
      ipprotoTcp,ipprotoUdp,ipprotoIcmp,ipprotoIcmpv6]

/-- The sixteen-byte addresses agree for the same endpoints or mapped ones. -/
theorem addresses_iff (v w : Network) :
    (v.srcIp=w.srcIp ∧ v.dstIp=w.dstIp) ↔
      Network.endpoints v=Network.endpoints w ∨
        (∃ src dst,Network.endpoints v=.ipv4 src dst ∧
          Network.endpoints w=.ipv6 (setIpv4Mapped src) (setIpv4Mapped dst)) ∨
        ∃ src dst,Network.endpoints w=.ipv4 src dst ∧
          Network.endpoints v=.ipv6 (setIpv4Mapped src) (setIpv4Mapped dst) := by
  cases v with
  | ipv4 h => cases w with
    | ipv4 k => simp [Network.endpoints,Network.srcIp,Network.dstIp,setIpv4Mapped_inj]
    | ipv6 k =>
      simp [Network.endpoints,Network.srcIp,Network.dstIp,eq_comm]
  | ipv6 h => cases w with
    | ipv4 k => simp [Network.endpoints,Network.srcIp,Network.dstIp]
    | ipv6 k => simp [Network.endpoints,Network.srcIp,Network.dstIp]

end Encodings

/-- The key of a frame's packet consists of its address and port fields. -/
theorem key_fields (f : Frame) (ts : Timeval) :
    keyFromPacket (f.packet ts)=
      ⟨f.network.srcIp,f.network.dstIp,f.transport.srcPort,f.transport.dstPort,
        f.transport.protocol⟩ := rfl

/-- Two frames share a key exactly when they have the same identity or one is
the mapped twin of the other. -/
theorem key_eq_iff (f g : Frame) (ts ts' : Timeval) :
    keyFromPacket (f.packet ts)=keyFromPacket (g.packet ts') ↔
      SameIdentity f g ∨ MappedTwin f g ∨ MappedTwin g f := by
  have htransport := sameTransport_iff f g
  have haddresses := addresses_iff f.network g.network
  have hsymm : SameTransport g f ↔ SameTransport f g := by
    unfold SameTransport
    rw [eq_comm,eq_comm (a := Transport.ids g.transport)]
  rw [key_fields,key_fields,FlowKey.mk.injEq,SameIdentity,MappedTwin,MappedTwin,hsymm,
    ←or_and_right,←or_and_right,←haddresses,←htransport]
  tauto

/-- Frames of one IP version are no mapped twins. -/
theorem not_twin {f g : Frame} (h : f.network.isIpv6=g.network.isIpv6) : ¬MappedTwin f g := by
  rintro ⟨⟨src,dst,hf,hg⟩,_⟩
  cases hv : f.network with
  | ipv4 v => cases hw : g.network with
    | ipv4 w =>
      rw [hw] at hg
      cases hg
    | ipv6 w =>
      rw [hv,hw] at h
      cases h
  | ipv6 v =>
    rw [hv] at hf
    cases hf

/-- Accepted captures are encoded frames, with the packets of their frames. -/
theorem accepted_packet {c : Capture} {ts : Timeval} {p : ParsedPacket}
    (h : decode (some c) ts=.ok (some p)) :
    (∃ f,Frame.encode f=c.bytes) ∧ ∀ f : Frame,f.encode=c.bytes → f.packet ts=p := by
  obtain ⟨f,hf,_⟩ := decode_packet.mp h
  refine ⟨⟨f,hf⟩,fun g hg => ?_⟩
  have hdecode : decode (some c) ts=.ok (some (g.packet ts)) := decode_packet.mpr ⟨g,hg,rfl⟩
  rw [h] at hdecode
  cases hdecode
  rfl

/-- For any two accepted captures: frames of the same IP version share a flow
key exactly when they agree on addresses, protocol and transport identifiers;
frames of different versions share one exactly when, besides, the IPv6
addresses are the IPv4-mapped forms of the IPv4 addresses. -/
theorem flow_key_identity {c d : Capture} {ts ts' : Timeval} {p q : ParsedPacket}
    (hp : decode (some c) ts=.ok (some p)) (hq : decode (some d) ts'=.ok (some q)) :
    (∃ f g,Frame.encode f=c.bytes ∧ Frame.encode g=d.bytes) ∧
      ∀ f g : Frame,f.encode=c.bytes → g.encode=d.bytes →
        (keyFromPacket p=keyFromPacket q ↔
          SameIdentity f g ∨ MappedTwin f g ∨ MappedTwin g f) ∧
        (f.network.isIpv6=g.network.isIpv6 →
          (keyFromPacket p=keyFromPacket q ↔ SameIdentity f g)) := by
  obtain ⟨⟨f,hf⟩,hpacket⟩ := accepted_packet hp
  obtain ⟨⟨g,hg⟩,hpacket'⟩ := accepted_packet hq
  refine ⟨⟨f,g,hf,hg⟩,fun f g hf hg => ?_⟩
  have hkeys := key_eq_iff f g ts ts'
  rw [hpacket f hf,hpacket' g hg] at hkeys
  refine ⟨hkeys,fun hversion => ?_⟩
  rw [hkeys,or_iff_left]
  rintro (htwin | htwin)
  · exact not_twin hversion htwin
  · exact not_twin hversion.symm htwin

/-- The IPv4 address 10.0.0.n. -/
def host (n : UInt8) : Vector UInt8 4 := #v[10,0,0,n]

/-- A header without options from 10.0.0.1 to 10.0.0.2. -/
def plainHeader (totalLength : UInt16) (fragmentation : Vector UInt8 4) : Ipv4Header :=
  ⟨⟨0,Nat.succ_pos 10⟩,0,totalLength,fragmentation,64,0,host 1,host 2,.replicate 0 0⟩

/-- A DNS query from 10.0.0.1 to 10.0.0.2. -/
def queryIpv4 : Frame where
  link := ⟨.replicate 12 2,none⟩
  network := .ipv4 (plainHeader 28 (.replicate 4 0))
  transport := .udp ⟨1000,53,.replicate 4 0⟩
  payload := []

/-- An IPv6 header from one address to another. -/
def plainHeader6 (payloadLength : UInt16) (src dst : Address) : Ipv6Header :=
  ⟨0,.replicate 3 0,payloadLength,64,src,dst⟩

/-- A DNS query from ::ffff:10.0.0.1 to ::ffff:10.0.0.2. -/
def queryIpv6 : Frame where
  link := ⟨.replicate 12 2,none⟩
  network := .ipv6 (plainHeader6 8 (setIpv4Mapped (host 1)) (setIpv4Mapped (host 2)))
  transport := .udp ⟨1000,53,.replicate 4 0⟩
  payload := []

/-- Another query of the same flow, behind a VLAN tag and with a payload. -/
def nextQueryIpv4 : Frame where
  link := ⟨.replicate 12 2,some 7⟩
  network := .ipv4 (plainHeader 31 (.replicate 4 0))
  transport := .udp ⟨1000,53,.replicate 4 0⟩
  payload := [1,2,3]

/-- The two frames differ, and have the same key. -/
theorem flow_key_repeated :
    queryIpv4.encode≠nextQueryIpv4.encode ∧
      keyFromPacket (queryIpv4.packet ⟨1,0⟩)=keyFromPacket (nextQueryIpv4.packet ⟨2,0⟩) :=
  ⟨by decide,(((flow_key_identity (decode_encoded queryIpv4 ⟨1,0⟩ (by decide))
    (decode_encoded nextQueryIpv4 ⟨2,0⟩ (by decide))).2 queryIpv4 nextQueryIpv4 rfl rfl).2
      rfl).mpr ⟨rfl,rfl,rfl⟩⟩

/-- Both queries are accepted with the same key, though of different versions. -/
theorem versions_share_key :
    decode (some ⟨queryIpv4.encode,by decide⟩) ⟨1,0⟩=.ok (some (queryIpv4.packet ⟨1,0⟩)) ∧
      decode (some ⟨queryIpv6.encode,by decide⟩) ⟨1,0⟩=.ok (some (queryIpv6.packet ⟨1,0⟩)) ∧
      queryIpv4.network.isIpv6=false ∧ queryIpv6.network.isIpv6=true ∧
      ¬SameIdentity queryIpv4 queryIpv6 ∧
      keyFromPacket (queryIpv4.packet ⟨1,0⟩)=keyFromPacket (queryIpv6.packet ⟨1,0⟩) :=
  ⟨decode_encoded _ _ _,decode_encoded _ _ _,rfl,rfl,by decide,by decide⟩

end PacketPipe.FrameIdentity
