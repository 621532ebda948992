import Mathlib.Algebra.Group.Int.Defs
import PacketPipe.PacketFrameLayout

/-!
# Decoding agrees with the frame layout

Every stage of `decode` reads behind a known prefix. Each has two lemmas: on
an encoded header it returns the fields, and on any bytes it refuses them or
they are an encoded header. No stage reads beyond the captured bytes.
-/

namespace PacketPipe.PacketDecoding

open FlowEvents ByteFields PacketDecoderModel PacketFrameLayout

section Bounds

variable {head rest : List UInt8} {n : ℕ}

/-- A 64-bit length check behind a short prefix is one of the rest. -/
theorem short64_iff (hhead : head.length≤78) (hn : n≤60) :
    (head++rest).length<add64 head.length n ↔ rest.length<n := by
  rw [List.length_append,add64,Nat.mod_eq_of_lt (by omega)]
  omega

/-- A 32-bit length check behind a short prefix is one of the rest. -/
theorem short32_iff (hhead : head.length≤78) (hn : n≤60) :
    (head++rest).length<add32 head.length n ↔ rest.length<n := by
  rw [List.length_append,add32,Nat.mod_eq_of_lt (by omega)]
  omega

/-- An encoded field is not short. -/
theorem not_short {β : Type} (f : Layout β) (x : β) (tail : List UInt8) :
    ¬(f.encode x++tail).length<f.width := by
  rw [List.length_append,f.length_encode]
  omega

end Bounds

section Transport

variable {head rest : List UInt8} {pkt : ParsedPacket}

/-- The packet with the transport fields filled in. -/
def withTransport (pkt : ParsedPacket) (t : Transport) : ParsedPacket where
  srcIp := pkt.srcIp
  dstIp := pkt.dstIp
  srcPort := t.srcPort
  dstPort := t.dstPort
  protocol := pkt.protocol
  wireLength := pkt.wireLength
  timestampUs := pkt.timestampUs
  tcpFin := t.flags&&&thFin≠0
  tcpRst := t.flags&&&thRst≠0
  isIpv6 := pkt.isIpv6

/-- Before the transport header is read its fields have their defaults. -/
structure NoTransport (pkt : ParsedPacket) : Prop where
  dstPort : pkt.dstPort=0
  tcpFin : pkt.tcpFin=false
  tcpRst : pkt.tcpRst=false

/-- An encoded TCP header is decoded to its fields. -/
theorem decodeTransport_tcp (hhead : head.length≤78) (h : TcpHeader) (payload : List UInt8)
    (hprotocol : pkt.protocol=ipprotoTcp) :
    decodeTransport (head++((Transport.tcp h).encode++payload)) head.length pkt=
      .ok (some (withTransport pkt (.tcp h))) := by
  have hlong : ¬(head++((Transport.tcp h).encode++payload)).length<add64 head.length sizeofTcp :=
    (short64_iff hhead (by decide)).not.mpr (not_short tcpLayout _ _)
  have hsrc : read16 (head++((Transport.tcp h).encode++payload)) head.length=.ok h.srcPort :=
    read16_front rfl
  have hdst : read16 (head++((Transport.tcp h).encode++payload)) (head.length+2)=
      .ok h.dstPort := read16_behind rfl
  have hflags : readByte (head++((Transport.tcp h).encode++payload)) (head.length+13)=
      .ok h.flags := readByte_behind (by
    simp [Transport.encode,tcpLayout,Layout.before,big16,raw,byte,split16])
  rw [decodeTransport,if_pos hprotocol,if_neg hlong,hsrc,hdst,hflags]
  rfl

/-- An encoded UDP header is decoded to its fields. -/
theorem decodeTransport_udp (hhead : head.length≤78) (hpkt : NoTransport pkt) (h : UdpHeader)
    (payload : List UInt8) (hprotocol : pkt.protocol=ipprotoUdp) :
    decodeTransport (head++((Transport.udp h).encode++payload)) head.length pkt=
      .ok (some (withTransport pkt (.udp h))) := by
  have hlong : ¬(head++((Transport.udp h).encode++payload)).length<add64 head.length sizeofUdp :=
    (short64_iff hhead (by decide)).not.mpr (not_short udpLayout _ _)
  have hsrc : read16 (head++((Transport.udp h).encode++payload)) head.length=.ok h.srcPort :=
    read16_front rfl
  have hdst : read16 (head++((Transport.udp h).encode++payload)) (head.length+2)=
      .ok h.dstPort := read16_behind rfl
  rw [decodeTransport,if_neg (by rw [hprotocol]; decide),if_pos hprotocol,if_neg hlong,hsrc,hdst]
  have hfields : withTransport pkt (.udp h)=
      {pkt with srcPort := h.srcPort,dstPort := h.dstPort} := by
    simp [withTransport,Transport.srcPort,Transport.dstPort,Transport.flags,hpkt.tcpFin,hpkt.tcpRst]
  rw [hfields]
  rfl

/-- Type and code of an encoded ICMP or ICMPv6 header. -/
theorem read_icmp {n : ℕ} (head : List UInt8) (type code : UInt8) (trailer : Vector UInt8 (2+n))
    (payload : List UInt8) :
    readByte (head++((icmpLayout n).encode (type,code,trailer)++payload)) head.length=.ok type ∧
      readByte (head++((icmpLayout n).encode (type,code,trailer)++payload)) (head.length+1)=
        .ok code := by
  constructor
  · exact readByte_front rfl
  · exact readByte_behind rfl

/-- An encoded ICMP header is decoded to its fields. -/
theorem decodeTransport_icmp (hhead : head.length≤78) (hpkt : NoTransport pkt) (h : IcmpHeader 4)
    (payload : List UInt8) (hprotocol : pkt.protocol=ipprotoIcmp) :
    decodeTransport (head++((Transport.icmp h).encode++payload)) head.length pkt=
      .ok (some (withTransport pkt (.icmp h))) := by
  have hlong : ¬(head++((Transport.icmp h).encode++payload)).length<
      add64 head.length sizeofIcmp :=
    (short64_iff hhead (by decide)).not.mpr (not_short (icmpLayout 4) _ _)
  have hfields : withTransport pkt (.icmp h)=
      {pkt with srcPort := h.type.toUInt16<<<8|||h.code.toUInt16} := by
    simp [withTransport,Transport.srcPort,Transport.dstPort,Transport.flags,hpkt.dstPort,
      hpkt.tcpFin,hpkt.tcpRst]
  obtain ⟨htype,hcode⟩ := read_icmp head h.type h.code h.trailer payload
  rw [decodeTransport,if_neg (by rw [hprotocol]; decide),if_neg (by rw [hprotocol]; decide),
    if_pos hprotocol,if_neg hlong,hfields,Transport.encode,htype,hcode]
  rfl

/-- An encoded ICMPv6 header is decoded to its fields. -/
theorem decodeTransport_icmpv6 (hhead : head.length≤78) (hpkt : NoTransport pkt)
    (h : IcmpHeader 0) (payload : List UInt8) (hprotocol : pkt.protocol=ipprotoIcmpv6) :
    decodeTransport (head++((Transport.icmpv6 h).encode++payload)) head.length pkt=
      .ok (some (withTransport pkt (.icmpv6 h))) := by
  have hlong : ¬(head++((Transport.icmpv6 h).encode++payload)).length<add32 head.length 4 :=
    (short32_iff hhead (by decide)).not.mpr (not_short (icmpLayout 0) _ _)
  have hfields : withTransport pkt (.icmpv6 h)=
      {pkt with srcPort := h.type.toUInt16<<<8|||h.code.toUInt16} := by
    simp [withTransport,Transport.srcPort,Transport.dstPort,Transport.flags,hpkt.dstPort,
      hpkt.tcpFin,hpkt.tcpRst]
  obtain ⟨htype,hcode⟩ := read_icmp head h.type h.code h.trailer payload
  rw [decodeTransport,if_neg (by rw [hprotocol]; decide),if_neg (by rw [hprotocol]; decide),
    if_neg (by rw [hprotocol]; decide),if_pos hprotocol,if_neg hlong,hfields,Transport.encode,
    htype,hcode]
  rfl

/-- An encoded transport header is decoded to its fields. -/
theorem decodeTransport_encoded (hhead : head.length≤78) (hpkt : NoTransport pkt)
    (t : Transport) (payload : List UInt8) (hprotocol : pkt.protocol=t.protocol) :
    decodeTransport (head++(t.encode++payload)) head.length pkt=
      .ok (some (withTransport pkt t)) := by
  cases t with
  | tcp h => exact decodeTransport_tcp hhead h payload hprotocol
  | udp h => exact decodeTransport_udp hhead hpkt h payload hprotocol
  | icmp h => exact decodeTransport_icmp hhead hpkt h payload hprotocol
  | icmpv6 h => exact decodeTransport_icmpv6 hhead hpkt h payload hprotocol

/-- Whatever follows the network header is refused or an encoded transport
header of its protocol. -/
theorem decodeTransport_reads (hhead : head.length≤78) (rest : List UInt8) (pkt : ParsedPacket) :
    decodeTransport (head++rest) head.length pkt=.ok none ∨
      ∃ t payload,pkt.protocol=Transport.protocol t ∧ rest=t.encode++payload := by
  by_cases htcp : pkt.protocol=ipprotoTcp
  · by_cases hshort : rest.length<sizeofTcp
    · exact .inl (by
        rw [decodeTransport,if_pos htcp,if_pos ((short64_iff hhead (by decide)).mpr hshort)])
    obtain ⟨⟨src,dst,sequencing,flags,trailer⟩,payload,rfl⟩ :=
      tcpLayout.split (Nat.not_lt.mp hshort)
    exact .inr ⟨.tcp ⟨src,dst,sequencing,flags,trailer⟩,payload,htcp,rfl⟩
  by_cases hudp : pkt.protocol=ipprotoUdp
  · by_cases hshort : rest.length<sizeofUdp
    · exact .inl (by
        rw [decodeTransport,if_neg htcp,if_pos hudp,
          if_pos ((short64_iff hhead (by decide)).mpr hshort)])
    obtain ⟨⟨src,dst,trailer⟩,payload,rfl⟩ := udpLayout.split (Nat.not_lt.mp hshort)
    exact .inr ⟨.udp ⟨src,dst,trailer⟩,payload,hudp,rfl⟩
  by_cases hicmp : pkt.protocol=ipprotoIcmp
  · by_cases hshort : rest.length<sizeofIcmp
    · exact .inl (by
        rw [decodeTransport,if_neg htcp,if_neg hudp,if_pos hicmp,
          if_pos ((short64_iff hhead (by decide)).mpr hshort)])
    obtain ⟨⟨type,code,trailer⟩,payload,rfl⟩ := (icmpLayout 4).split (Nat.not_lt.mp hshort)
    exact .inr ⟨.icmp ⟨type,code,trailer⟩,payload,hicmp,rfl⟩
  by_cases hicmpv6 : pkt.protocol=ipprotoIcmpv6
  · by_cases hshort : rest.length<4
    · exact .inl (by
        rw [decodeTransport,if_neg htcp,if_neg hudp,if_neg hicmp,if_pos hicmpv6,
          if_pos ((short32_iff hhead (by decide)).mpr hshort)])
    obtain ⟨⟨type,code,trailer⟩,payload,rfl⟩ := (icmpLayout 0).split (Nat.not_lt.mp hshort)
    exact .inr ⟨.icmpv6 ⟨type,code,trailer⟩,payload,hicmpv6,rfl⟩
  exact .inl (by
    rw [decodeTransport,if_neg htcp,if_neg hudp,if_neg hicmp,if_neg hicmpv6])

end Transport

section Network

variable {head rest : List UInt8} {pkt : ParsedPacket}

/-- The packet with the network fields filled in. -/
def withNetwork (pkt : ParsedPacket) (w : Network) (protocol : UInt8) : ParsedPacket :=
  {pkt with
    srcIp := w.srcIp
    dstIp := w.dstIp
    protocol := protocol
    wireLength := w.wireLength
    isIpv6 := w.isIpv6}

/-- The version is the high half of the first byte. -/
theorem version_toNat (b : UInt8) : (b>>>4).toNat=b.toNat/16 := by
  rw [UInt8.toNat_shiftRight]
  exact Nat.shiftRight_eq_div_pow b.toNat 4

/-- The IHL is the low half of the first byte. -/
theorem ihl_toNat (b : UInt8) : (b&&&0x0F).toNat=b.toNat%16 := by
  rw [UInt8.toNat_and]
  exact Nat.and_two_pow_sub_one_eq_mod b.toNat 4

/-- The first byte of an encoded IPv4 header. -/
theorem versionIhl_fields (w : Fin 11) :
    versionIhl w>>>4=4 ∧ (versionIhl w&&&0x0F).toNat*4=20+4*w := by
  have hw := w.isLt
  have hbyte : (versionIhl w).toNat=69+w := by
    rw [versionIhl,UInt8.toNat_ofNat']
    omega
  refine ⟨UInt8.toNat_inj.mp ?_,?_⟩
  · rw [version_toNat,hbyte]
    change (69+w.val)/16=4
    omega
  · rw [ihl_toNat,hbyte]
    omega

/-- Every first byte with version 4 and a long enough IHL is encoded. -/
theorem versionIhl_reaches {b : UInt8} (hversion : b>>>4=4) (hihl : 20≤(b&&&0x0F).toNat*4) :
    ∃ w : Fin 11,b=versionIhl w := by
  have hfour : b.toNat/16=4 := by
    rw [← version_toNat,hversion]
    rfl
  rw [ihl_toNat] at hihl
  have hb := b.toNat_lt
  refine ⟨⟨b.toNat%16-5,by omega⟩,UInt8.toNat_inj.mp ?_⟩
  rw [versionIhl,UInt8.toNat_ofNat']
  dsimp only
  omega

/-- The first byte of an encoded IPv6 header. -/
theorem versionClass_version (c : Fin 16) : versionClass c>>>4=6 := by
  have hc := c.isLt
  refine UInt8.toNat_inj.mp ?_
  rw [version_toNat,versionClass,UInt8.toNat_ofNat']
  change (96+c.val)%2^8/16=6
  omega

/-- Every first byte with version 6 is encoded. -/
theorem versionClass_reaches {b : UInt8} (hversion : b>>>4=6) : ∃ c : Fin 16,b=versionClass c := by
  have hsix : b.toNat/16=6 := by
    rw [← version_toNat,hversion]
    rfl
  have hb := b.toNat_lt
  refine ⟨⟨b.toNat%16,by omega⟩,UInt8.toNat_inj.mp ?_⟩
  rw [versionClass,UInt8.toNat_ofNat']
  dsimp only
  omega

/-- Number of bytes of an IPv4 header. -/
theorem length_ipv4 (h : Ipv4Header) (protocol : UInt8) :
    (h.encode protocol).length=20+4*h.optionWords := by
  rw [Ipv4Header.encode,List.length_append,Layout.length_encode,Vector.length_toList]
  rfl

/-- Number of bytes of an IPv6 header. -/
theorem length_ipv6 (h : Ipv6Header) (nextHeader : UInt8) :
    (h.encode nextHeader).length=40 := by
  rw [Ipv6Header.encode,Layout.length_encode]
  rfl

/-- An encoded IPv4 header is decoded to its fields. -/
theorem decodeIpv4_encoded (hhead : head.length≤18) (h : Ipv4Header) (protocol : UInt8)
    (rest : List UInt8) :
    decodeIpv4 (head++(h.encode protocol++rest)) head.length pkt=
      .ok (some (withNetwork pkt (.ipv4 h) protocol,(head++h.encode protocol).length)) := by
  have hw := h.optionWords.isLt
  have hlength := length_ipv4 h protocol
  obtain ⟨hversion,hihl⟩ := versionIhl_fields h.optionWords
  have hlong : ¬(head++(h.encode protocol++rest)).length<add64 head.length sizeofIp := by
    rw [short64_iff (by omega) (by decide),List.length_append,sizeofIp]
    omega
  have hfull : ¬(head++(h.encode protocol++rest)).length<
      add32 head.length (20+4*h.optionWords) := by
    rw [short32_iff (by omega) (by omega),List.length_append]
    omega
  have hbyte : readByte (head++(h.encode protocol++rest)) head.length=
      .ok (versionIhl h.optionWords) := readByte_front rfl
  have hsrc : readBytes (head++(h.encode protocol++rest)) (head.length+12) 4=.ok h.src :=
    readBytes_behind (by decide) (by
      simp [Ipv4Header.encode,ipv4Layout,Layout.before,big16,raw,byte,split16,List.drop_append,
        List.drop_eq_nil_of_le])
  have hdst : readBytes (head++(h.encode protocol++rest)) (head.length+16) 4=.ok h.dst :=
    readBytes_behind (by decide) (by
      simp [Ipv4Header.encode,ipv4Layout,Layout.before,big16,raw,byte,split16,List.drop_append,
        List.drop_eq_nil_of_le])
  have hprotocol : readByte (head++(h.encode protocol++rest)) (head.length+9)=.ok protocol :=
    readByte_behind (by
      simp [Ipv4Header.encode,ipv4Layout,Layout.before,big16,raw,byte,split16,
        List.getElem?_append_right])
  have htotal : read16 (head++(h.encode protocol++rest)) (head.length+2)=.ok h.totalLength :=
    read16_behind rfl
  have hoffset : add32 head.length (20+4*h.optionWords)=(head++h.encode protocol).length := by
    rw [List.length_append,hlength,add32,Nat.mod_eq_of_lt (by omega)]
  rw [decodeIpv4,if_neg hlong,hbyte,hsrc,hdst,hprotocol,htotal]
  dsimp only [bind,Except.bind,pure,Except.pure]
  rw [if_neg (not_not.mpr hversion),hihl,if_neg (not_or.mpr ⟨by omega,hfull⟩),hoffset]
  rfl

/-- An encoded IPv6 header is decoded to its fields. -/
theorem decodeIpv6_encoded (hhead : head.length≤18) (h : Ipv6Header) (nextHeader : UInt8)
    (rest : List UInt8) :
    decodeIpv6 (head++(h.encode nextHeader++rest)) head.length pkt=
      .ok (some (withNetwork pkt (.ipv6 h) nextHeader,(head++h.encode nextHeader).length)) := by
  have hlong : ¬(head++(h.encode nextHeader++rest)).length<add64 head.length sizeofIp6 :=
    (short64_iff (by omega) (by decide)).not.mpr (not_short ipv6Layout _ _)
  have hbyte : readByte (head++(h.encode nextHeader++rest)) head.length=
      .ok (versionClass h.classHigh) := readByte_front rfl
  have hsrc : readBytes (head++(h.encode nextHeader++rest)) (head.length+8) 16=.ok h.src :=
    readBytes_behind (by decide) (by
      simp [Ipv6Header.encode,ipv6Layout,Layout.before,big16,raw,byte,split16,List.drop_append,
        List.drop_eq_nil_of_le])
  have hdst : readBytes (head++(h.encode nextHeader++rest)) (head.length+24) 16=.ok h.dst :=
    readBytes_behind (by decide) (by
      simp [Ipv6Header.encode,ipv6Layout,Layout.before,big16,raw,byte,split16,List.drop_append,
        List.drop_eq_nil_of_le])
  have hnext : readByte (head++(h.encode nextHeader++rest)) (head.length+6)=.ok nextHeader :=
    readByte_behind (by
      simp [Ipv6Header.encode,ipv6Layout,Layout.before,big16,raw,byte,split16,
        List.getElem?_append_right])
  have hpayload : read16 (head++(h.encode nextHeader++rest)) (head.length+4)=
      .ok h.payloadLength := read16_behind (by
    simp [Ipv6Header.encode,ipv6Layout,Layout.before,big16,raw,byte,split16])
  have hoffset : add64 head.length sizeofIp6%2^32=(head++h.encode nextHeader).length := by
    rw [List.length_append,length_ipv6,add64,sizeofIp6]
    omega
  rw [decodeIpv6,if_neg hlong,hbyte,hsrc,hdst,hnext,hpayload]
  dsimp only [bind,Except.bind,pure,Except.pure]
  rw [if_neg (not_not.mpr (versionClass_version h.classHigh)),hoffset]
  rfl

/-- Whatever follows the link header of an IPv4 frame is refused or starts
with an encoded IPv4 header. -/
theorem decodeIpv4_reads (hhead : head.length≤18) (rest : List UInt8) (pkt : ParsedPacket) :
    decodeIpv4 (head++rest) head.length pkt=.ok none ∨
      ∃ h protocol tail,rest=Ipv4Header.encode h protocol++tail := by
  by_cases hshort : rest.length<sizeofIp
  · exact .inl (by
      rw [decodeIpv4,if_pos ((short64_iff (by omega) (by decide)).mpr hshort)])
  have hlong : ¬(head++rest).length<add64 head.length sizeofIp :=
    (short64_iff (by omega) (by decide)).not.mpr hshort
  obtain ⟨⟨b,tos,total,fragmentation,ttl,protocol,checksum,src,dst⟩,tail,hrest⟩ :=
    ipv4Layout.split (Nat.not_lt.mp hshort)
  have hbyte : readByte (head++rest) head.length=.ok b := readByte_front (by rw [hrest]; rfl)
  by_cases hversion : b>>>4=4
  case neg =>
    refine .inl ?_
    rw [decodeIpv4,if_neg hlong,hbyte]
    exact if_pos hversion
  by_cases hbounds : (b&&&0x0F).toNat*4<20 ∨
      (head++rest).length<add32 head.length ((b&&&0x0F).toNat*4)
  · refine .inl ?_
    rw [decodeIpv4,if_neg hlong,hbyte]
    dsimp only [bind,Except.bind,pure,Except.pure]
    rw [if_neg (not_not.mpr hversion),if_pos hbounds]
  obtain ⟨hihl,hfull⟩ := not_or.mp hbounds
  obtain ⟨w,rfl⟩ := versionIhl_reaches hversion (Nat.not_lt.mp hihl)
  have hw := w.isLt
  rw [(versionIhl_fields w).2,short32_iff (by omega) (by omega)] at hfull
  have hoptions : 4*w.val≤tail.length := by
    have hlength := congrArg List.length hrest
    rw [List.length_append,Layout.length_encode] at hlength
    change rest.length=20+tail.length at hlength
    omega
  obtain ⟨options,after,rfl⟩ := (raw (4*w)).split hoptions
  refine .inr ⟨⟨w,tos,total,fragmentation,ttl,checksum,src,dst,options⟩,protocol,after,?_⟩
  rw [hrest,← List.append_assoc]
  rfl

/-- Whatever follows the link header of an IPv6 frame is refused or starts
with an encoded IPv6 header. -/
theorem decodeIpv6_reads (hhead : head.length≤18) (rest : List UInt8) (pkt : ParsedPacket) :
    decodeIpv6 (head++rest) head.length pkt=.ok none ∨
      ∃ h nextHeader tail,rest=Ipv6Header.encode h nextHeader++tail := by
  by_cases hshort : rest.length<sizeofIp6
  · exact .inl (by
      rw [decodeIpv6,if_pos ((short64_iff (by omega) (by decide)).mpr hshort)])
  have hlong : ¬(head++rest).length<add64 head.length sizeofIp6 :=
    (short64_iff (by omega) (by decide)).not.mpr hshort
  obtain ⟨⟨b,flow,payload,nextHeader,hopLimit,src,dst⟩,tail,hrest⟩ :=
    ipv6Layout.split (Nat.not_lt.mp hshort)
  have hbyte : readByte (head++rest) head.length=.ok b := readByte_front (by rw [hrest]; rfl)
  by_cases hversion : b>>>4=6
  case neg =>
    refine .inl ?_
    rw [decodeIpv6,if_neg hlong,hbyte]
    exact if_pos hversion
  obtain ⟨c,rfl⟩ := versionClass_reaches hversion
  exact .inr ⟨⟨c,flow,payload,hopLimit,src,dst⟩,nextHeader,tail,hrest⟩

end Network

section Link

/-- The first EtherType decides whether a second one is read. -/
theorem decodeEthernet_outer {data : List UInt8} {type : UInt16} (hlong : 14≤data.length)
    (hread : read16 data 12=.ok type) :
    decodeEthernet data=
      if type=kEtherVLAN then
        if data.length<18 then .ok none
        else (read16 data 16).map fun inner => some (inner,18)
      else .ok (some (type,14)) := by
  have hshort : ¬data.length<kEthHdrLen := Nat.not_lt.mpr hlong
  have houter : read16 data (kEthHdrLen-2)=.ok type := hread
  rw [decodeEthernet,if_neg hshort]
  dsimp only
  rw [houter]
  rfl

/-- An encoded Ethernet header is unwrapped. -/
theorem decodeEthernet_encoded (l : Link) (type : UInt16) (rest : List UInt8)
    (htype : l.tci=none → type≠kEtherVLAN) :
    decodeEthernet (l.encode++(split16 type++rest))=
      .ok (some (type,(l.encode++split16 type).length)) := by
  obtain ⟨addresses,tci⟩ := l
  cases tci with
  | none =>
    have hread : read16 (addresses.toList++(split16 type++rest)) addresses.toList.length=
        .ok type := read16_front rfl
    have hlong : 14≤(addresses.toList++(split16 type++rest)).length := by
      simp only [List.length_append,Vector.length_toList,split16,List.length_cons]
      omega
    have hlength : (addresses.toList++split16 type).length=14 := by simp [split16]
    rw [Vector.length_toList] at hread
    rw [Link.encode,List.append_nil,decodeEthernet_outer hlong hread,if_neg (htype rfl),hlength]
  | some tci =>
    have houter : read16 (addresses.toList++(split16 kEtherVLAN++split16 tci++
        (split16 type++rest))) addresses.toList.length=.ok kEtherVLAN := read16_front rfl
    have hinner : read16 (addresses.toList++(split16 kEtherVLAN++split16 tci++
        (split16 type++rest))) (addresses.toList.length+4)=.ok type := read16_behind rfl
    have hlong : 18≤(addresses.toList++(split16 kEtherVLAN++split16 tci++
        (split16 type++rest))).length := by
      simp only [List.length_append,Vector.length_toList,split16,List.length_cons]
      omega
    have hlength : (addresses.toList++(split16 kEtherVLAN++split16 tci)++
        split16 type).length=18 := by
      simp [split16]
    rw [Vector.length_toList] at houter hinner
    rw [Link.encode,hlength,List.append_assoc,decodeEthernet_outer (by omega) houter,if_pos rfl,
      if_neg (by omega),hinner]
    rfl

/-- Any bytes are refused or start with an encoded Ethernet header. -/
theorem decodeEthernet_reads (bytes : List UInt8) :
    decodeEthernet bytes=.ok none ∨
      ∃ l type rest,bytes=Link.encode l++(split16 type++rest) ∧
        (l.tci=none → type≠kEtherVLAN) := by
  by_cases hshort : bytes.length<14
  · exact .inl (if_pos hshort)
  obtain ⟨⟨addresses,type⟩,rest,hbytes⟩ := ((raw 12).before big16).split (Nat.not_lt.mp hshort)
  have houter : read16 (addresses.toList++(split16 type++rest)) addresses.toList.length=
      .ok type := read16_front rfl
  rw [Vector.length_toList,← List.append_assoc] at houter
  change bytes=addresses.toList++split16 type++rest at hbytes
  rw [← hbytes] at houter
  by_cases htype : type=kEtherVLAN
  case neg =>
    refine .inr ⟨⟨addresses,none⟩,type,rest,?_,fun _ => htype⟩
    rw [hbytes,Link.encode,List.append_nil,List.append_assoc]
  by_cases htag : bytes.length<18
  · exact .inl (by
      rw [decodeEthernet_outer (Nat.not_lt.mp hshort) houter,if_pos htype,if_pos htag])
  have hrest : 4≤rest.length := by
    have hlength := congrArg List.length hbytes
    simp only [List.length_append,Vector.length_toList,split16,List.length_cons,
      List.length_nil] at hlength
    omega
  obtain ⟨⟨tci,inner⟩,after,rfl⟩ := (big16.before big16).split hrest
  have htagged : (Link.mk addresses (some tci)).tci=none → inner≠kEtherVLAN :=
    fun hnone => absurd hnone (Option.some_ne_none tci)
  refine .inr ⟨⟨addresses,some tci⟩,inner,after,?_,htagged⟩
  rw [hbytes,htype,Link.encode]
  change _=addresses.toList++(split16 kEtherVLAN++split16 tci)++(split16 inner++after)
  simp only [List.append_assoc]
  rfl

end Link

section Frame

/-- The EtherType of a network header is not that of a tag. -/
theorem etherType_ne_vlan (w : Network) : w.etherType≠kEtherVLAN := by
  cases w with
  | ipv4 _ => exact (by decide : kEtherIPv4≠kEtherVLAN)
  | ipv6 _ => exact (by decide : kEtherIPv6≠kEtherVLAN)

/-- The network stage of `decode`. -/
def decodeNetwork (data : List UInt8) (ethertype : UInt16) (offset : ℕ) (pkt : ParsedPacket) :
    Except OutOfRange (Option (ParsedPacket×ℕ)) :=
  if ethertype=kEtherIPv4 then decodeIpv4 data offset pkt
  else if ethertype=kEtherIPv6 then decodeIpv6 data offset pkt
  else .ok none

/-- An encoded network header is decoded to its fields. -/
theorem decodeNetwork_encoded {head : List UInt8} (hhead : head.length≤18) (pkt : ParsedPacket)
    (w : Network) (protocol : UInt8) (rest : List UInt8) :
    decodeNetwork (head++(w.encode protocol++rest)) w.etherType head.length pkt=
      .ok (some (withNetwork pkt w protocol,(head++w.encode protocol).length)) := by
  cases w with
  | ipv4 h =>
    rw [decodeNetwork,Network.etherType,if_pos rfl]
    exact decodeIpv4_encoded hhead h protocol rest
  | ipv6 h =>
    rw [decodeNetwork,Network.etherType,if_neg (by decide),if_pos rfl]
    exact decodeIpv6_encoded hhead h protocol rest

/-- Whatever follows the link header is refused or starts with the network
header its EtherType names. -/
theorem decodeNetwork_reads {head : List UInt8} (hhead : head.length≤18) (ethertype : UInt16)
    (rest : List UInt8) (pkt : ParsedPacket) :
    decodeNetwork (head++rest) ethertype head.length pkt=.ok none ∨
      ∃ w protocol tail,ethertype=Network.etherType w ∧ rest=w.encode protocol++tail := by
  by_cases hipv4 : ethertype=kEtherIPv4
  · rw [decodeNetwork,if_pos hipv4]
    rcases decodeIpv4_reads hhead rest pkt with hrefused | ⟨h,protocol,tail,hrest⟩
    · exact .inl hrefused
    · exact .inr ⟨.ipv4 h,protocol,tail,hipv4,hrest⟩
  by_cases hipv6 : ethertype=kEtherIPv6
  · rw [decodeNetwork,if_neg hipv4,if_pos hipv6]
    rcases decodeIpv6_reads hhead rest pkt with hrefused | ⟨h,protocol,tail,hrest⟩
    · exact .inl hrefused
    · exact .inr ⟨.ipv6 h,protocol,tail,hipv6,hrest⟩
  exact .inl (by rw [decodeNetwork,if_neg hipv4,if_neg hipv6])

/-- Number of bytes of a network header. -/
theorem length_network (w : Network) (protocol : UInt8) : (w.encode protocol).length≤60 := by
  cases w with
  | ipv4 h =>
    have hw := h.optionWords.isLt
    rw [Network.encode,length_ipv4]
    omega
  | ipv6 h =>
    rw [Network.encode,length_ipv6]
    omega

/-- Number of bytes of a link header with its EtherType. -/
theorem length_link (l : Link) (type : UInt16) : (l.encode++split16 type).length≤18 := by
  obtain ⟨addresses,tci⟩ := l
  cases tci with
  | none => simp [Link.encode,split16]
  | some tci => simp [Link.encode,split16]

/-- `decode` stage by stage. -/
theorem decode_stages (capture : Capture) (ts : Timeval) :
    decode (some capture) ts=
      (decodeEthernet capture.bytes).bind fun link => match link with
        | none => .ok none
        | some (ethertype,offset) =>
          (decodeNetwork capture.bytes ethertype offset (stampedPacket ts)).bind
            fun network => match network with
              | none => .ok none
              | some (pkt,offset) => decodeTransport capture.bytes offset pkt := by
  rw [decode]
  cases decodeEthernet capture.bytes with
  | error e => rfl
  | ok link => match link with
    | none => rfl
    | some (ethertype,offset) =>
      dsimp only [bind,Except.bind,decodeNetwork]
      split
      · rfl
      · split <;> rfl

/-- Every encoded frame is decoded to its packet. -/
theorem decode_encoded (f : Frame) (ts : Timeval) (hfits : f.encode.length<2^32) :
    decode (some ⟨f.encode,hfits⟩) ts=.ok (some (f.packet ts)) := by
  obtain ⟨l,w,t,payload⟩ := f
  have hhead := length_link l w.etherType
  have hhead' : ((l.encode++split16 w.etherType)++w.encode t.protocol).length≤78 := by
    have hnetwork := length_network w t.protocol
    rw [List.length_append]
    omega
  have hbytes : Frame.encode ⟨l,w,t,payload⟩=
      l.encode++(split16 w.etherType++(w.encode t.protocol++(t.encode++payload))) := by
    simp only [Frame.encode,List.append_assoc]
  have hlink := decodeEthernet_encoded l w.etherType (w.encode t.protocol++(t.encode++payload))
    fun _ => etherType_ne_vlan w
  have hnetwork := decodeNetwork_encoded hhead (stampedPacket ts) w t.protocol
    (t.encode++payload)
  have htransport := decodeTransport_encoded hhead'
    (⟨rfl,rfl,rfl⟩ : NoTransport (withNetwork (stampedPacket ts) w t.protocol)) t payload rfl
  rw [decode_stages]
  dsimp only
  rw [hbytes,hlink]
  dsimp only [Except.bind]
  rw [← List.append_assoc,hnetwork]
  dsimp only
  rw [← List.append_assoc,htransport]
  rfl

/-- Every capture is refused or an encoded frame. -/
theorem decode_reads (capture : Capture) (ts : Timeval) :
    decode (some capture) ts=.ok none ∨ ∃ f,Frame.encode f=capture.bytes := by
  rw [decode_stages]
  rcases decodeEthernet_reads capture.bytes with hrefused | ⟨l,type,rest,hbytes,htype⟩
  · exact .inl (by rw [hrefused]; rfl)
  have hlink := decodeEthernet_encoded l type rest htype
  have hhead := length_link l type
  rw [hbytes,hlink]
  dsimp only [Except.bind]
  rw [← List.append_assoc]
  have hnetwork := decodeNetwork_reads hhead type rest (stampedPacket ts)
  rcases hnetwork with hrefused | ⟨w,protocol,tail,rfl,rfl⟩
  · exact .inl (by rw [hrefused])
  have hnetwork := decodeNetwork_encoded hhead (stampedPacket ts) w protocol tail
  have hhead' : ((l.encode++split16 w.etherType)++w.encode protocol).length≤78 := by
    have hwidth := length_network w protocol
    rw [List.length_append]
    omega
  rw [hnetwork]
  dsimp only
  rw [← List.append_assoc]
  have htransport :=
    decodeTransport_reads hhead' tail (withNetwork (stampedPacket ts) w protocol)
  rcases htransport with hrefused | ⟨t,payload,hprotocol,rfl⟩
  · exact .inl hrefused
  have hsame : protocol=t.protocol := hprotocol
  refine .inr ⟨⟨l,w,t,payload⟩,?_⟩
  rw [Frame.encode,hsame,List.append_assoc _ t.encode]

/-- The timestamp is exact when it fits. -/
theorem timestamp_exact (f : Frame) (ts : Timeval)
    (hlo : -2^63≤ts.tvSec.toInt*1000000+ts.tvUsec.toInt)
    (hhi : ts.tvSec.toInt*1000000+ts.tvUsec.toInt<2^63) :
    (f.packet ts).timestampUs.toInt=ts.tvSec.toInt*1000000+ts.tvUsec.toInt := by
  have hmillion : (1000000 : Int64).toInt=1000000 := rfl
  change (ts.tvSec*1000000+ts.tvUsec).toInt=_
  rw [Int64.toInt_add,Int64.toInt_mul,hmillion,Int.bmod_add_bmod]
  exact Int.bmod_eq_of_le (by omega) (by omega)

/-- Every capture is refused or decoded. -/
theorem decode_returns (capture : Capture) (ts : Timeval) :
    ∃ result,decode (some capture) ts=.ok result := by
  rcases decode_reads capture ts with hrefused | ⟨f,hf⟩
  · exact ⟨none,hrefused⟩
  · obtain ⟨bytes,hfits⟩ := capture
    subst hf
    exact ⟨some (f.packet ts),decode_encoded f ts hfits⟩

/-- The captures that are decoded, and to what. -/
theorem decode_packet {capture : Capture} {ts : Timeval} {p : ParsedPacket} :
    decode (some capture) ts=.ok (some p) ↔ ∃ f : Frame,f.encode=capture.bytes ∧ f.packet ts=p := by
  constructor
  · intro hdecode
    rcases decode_reads capture ts with hrefused | ⟨f,hf⟩
    · rw [hrefused] at hdecode
      cases hdecode
    · obtain ⟨bytes,hfits⟩ := capture
      subst hf
      rw [decode_encoded f ts hfits] at hdecode
      cases hdecode
      exact ⟨f,rfl,rfl⟩
  · rintro ⟨f,hf,rfl⟩
    obtain ⟨bytes,hfits⟩ := capture
    subst hf
    exact decode_encoded f ts hfits

/-- Exactly the encoded frames are decoded, each to the packet of its fields
with the capture time in microseconds; every other capture is refused, and
nothing is read beyond the captured bytes. -/
theorem decode_agrees (ts : Timeval) :
    decode none ts=.ok none ∧
      (∀ capture,∃ result,decode (some capture) ts=.ok result) ∧
      (∀ capture p,decode (some capture) ts=.ok (some p) ↔
        ∃ f : Frame,f.encode=capture.bytes ∧ f.packet ts=p) ∧
      (-2^63≤ts.tvSec.toInt*1000000+ts.tvUsec.toInt →
        ts.tvSec.toInt*1000000+ts.tvUsec.toInt<2^63 →
        ∀ f : Frame,(f.packet ts).timestampUs.toInt=
          ts.tvSec.toInt*1000000+ts.tvUsec.toInt) :=
  ⟨rfl,fun capture => decode_returns capture ts,fun _ _ => decode_packet,
    fun hlo hhi f => timestamp_exact f ts hlo hhi⟩

/-- A tagged IPv4 frame with one word of options and a TCP segment with FIN. -/
def taggedFin : Frame where
  link := ⟨.replicate 12 2,some 7⟩
  network := .ipv4 ⟨1,0,44,.replicate 4 0,64,0,#v[10,0,0,1],#v[10,0,0,2],.replicate 4 1⟩
  transport := .tcp ⟨1234,80,.replicate 9 0,0x11,.replicate 6 0⟩
  payload := [0,0]

/-- The packet of the tagged frame one second and five microseconds in. -/
theorem taggedFin_decoded :
    decode (some ⟨taggedFin.encode,by decide⟩) ⟨1,5⟩=.ok (some (taggedFin.packet ⟨1,5⟩)) ∧
      (taggedFin.packet ⟨1,5⟩).srcPort=1234 ∧ (taggedFin.packet ⟨1,5⟩).tcpFin=true ∧
      (taggedFin.packet ⟨1,5⟩).timestampUs.toInt=1000005 :=
  ⟨((decode_agrees ⟨1,5⟩).2.2.1 ⟨taggedFin.encode,by decide⟩ _).mpr ⟨taggedFin,rfl,rfl⟩,
    rfl,by decide,(decode_agrees ⟨1,5⟩).2.2.2 (by decide) (by decide) taggedFin⟩

end Frame

end PacketPipe.PacketDecoding
