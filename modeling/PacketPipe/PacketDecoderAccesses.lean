import PacketPipe.AccessLogs
import PacketPipe.PacketDecoding

/-!
# What the decoder touches

The decoder once more, with a log of every byte position it reads and of
every sum of offsets it computes, on every path. Without the log it is
`decode`. Every position lies within the capture and no sum reaches the end
of its integer type, so that each length check compares the true sum.
-/

namespace PacketPipe.PacketDecoderAccesses

open FlowEvents ByteFields PacketDecoderModel PacketFrameLayout PacketDecoding AccessLogs

/-- One access of the decoder. -/
inductive Access
  /-- One byte at a position. -/
  | byte (position : ℕ)
  /-- A block of bytes from a position. -/
  | block (position n : ℕ)
  /-- A sum of two `uint32_t`. -/
  | sum32 (a b : ℕ)
  /-- A sum of two `size_t`. -/
  | sum64 (a b : ℕ)
  /-- A `size_t` stored in a `uint32_t`. -/
  | narrow (a : ℕ)
  deriving DecidableEq

/-- A read of captured bytes, or arithmetic that does not wrap. -/
def InRange (len : ℕ) : Access → Prop
  | .byte position => position<len
  | .block position n => position+n≤len
  | .sum32 a b => a+b<2^32
  | .sum64 a b => a+b<2^64
  | .narrow a => a<2^32

/-- Each access can be checked. -/
instance (len : ℕ) : DecidablePred (InRange len)
  | .byte position => inferInstanceAs (Decidable (position<len))
  | .block position n => inferInstanceAs (Decidable (position+n≤len))
  | .sum32 a b => inferInstanceAs (Decidable (a+b<2^32))
  | .sum64 a b => inferInstanceAs (Decidable (a+b<2^64))
  | .narrow a => inferInstanceAs (Decidable (a<2^32))

/-- A decoder stage with its accesses. -/
abbrev Decoder (α : Type) := Logged Access OutOfRange α

section Programs

variable (data : List UInt8)

/-- `data[position]`. -/
def loggedByte (position : ℕ) : Decoder UInt8 := access (.byte position) (readByte data position)

/-- `ntohs` of two bytes. -/
def logged16 (position : ℕ) : Decoder UInt16 := do
  let hi ← loggedByte data position
  let lo ← loggedByte data (position+1)
  return join16 hi lo

/-- `memcpy`. -/
def loggedBytes (position n : ℕ) : Decoder (Vector UInt8 n) :=
  access (.block position n) (readBytes data position n)

/-- Addition of `uint32_t`. -/
def logged32 (a b : ℕ) : Decoder ℕ := access (.sum32 a b) (.ok (add32 a b))

/-- Addition of `size_t`. -/
def logged64 (a b : ℕ) : Decoder ℕ := access (.sum64 a b) (.ok (add64 a b))

/-- Conversion to `uint32_t`. -/
def loggedNarrow (a : ℕ) : Decoder ℕ := access (.narrow a) (.ok (a%2^32))

/-- The Ethernet header and a single tag. -/
def loggedEthernet : Decoder (Option (UInt16×ℕ)) :=
  if data.length<kEthHdrLen then return none
  else do
    let offset := kEthHdrLen-2
    let ethertype ← logged16 data offset
    let offset ← logged32 offset 2
    if ethertype=kEtherVLAN then do
      let limit ← logged32 offset 4
      if data.length<limit then return none
      else do
        let offset ← logged32 offset 2
        let ethertype ← logged16 data offset
        let offset ← logged32 offset 2
        return some (ethertype,offset)
    else return some (ethertype,offset)

/-- The IPv4 header at an offset. -/
def loggedIpv4 (offset : ℕ) (pkt : ParsedPacket) : Decoder (Option (ParsedPacket×ℕ)) := do
  let limit ← logged64 offset sizeofIp
  if data.length<limit then return none
  else do
    let versionIhl ← loggedByte data offset
    if versionIhl>>>4≠4 then return none
    else do
      let ipHdrLen := (versionIhl&&&0x0F).toNat*4
      let limit ← logged32 offset ipHdrLen
      if ipHdrLen<20 ∨ data.length<limit then return none
      else do
        let src ← loggedBytes data (offset+12) 4
        let dst ← loggedBytes data (offset+16) 4
        let protocol ← loggedByte data (offset+9)
        let totalLength ← logged16 data (offset+2)
        let offset ← logged32 offset ipHdrLen
        return some ({pkt with
          srcIp := setIpv4Mapped src
          dstIp := setIpv4Mapped dst
          protocol := protocol
          wireLength := totalLength.toUInt32
          isIpv6 := false},offset)

/-- The IPv6 header at an offset. -/
def loggedIpv6 (offset : ℕ) (pkt : ParsedPacket) : Decoder (Option (ParsedPacket×ℕ)) := do
  let limit ← logged64 offset sizeofIp6
  if data.length<limit then return none
  else do
    let vfc ← loggedByte data offset
    if vfc>>>4≠6 then return none
    else do
      let src ← loggedBytes data (offset+8) 16
      let dst ← loggedBytes data (offset+24) 16
      let nextHeader ← loggedByte data (offset+6)
      let payloadLength ← logged16 data (offset+4)
      let offset ← logged64 offset sizeofIp6
      let offset ← loggedNarrow offset
      return some ({pkt with
        srcIp := src
        dstIp := dst
        protocol := nextHeader
        wireLength := payloadLength.toUInt32+40
        isIpv6 := true},offset)

/-- The transport header at an offset. -/
def loggedTransport (offset : ℕ) (pkt : ParsedPacket) : Decoder (Option ParsedPacket) :=
  if pkt.protocol=ipprotoTcp then do
    let limit ← logged64 offset sizeofTcp
    if data.length<limit then return none
    else do
      let srcPort ← logged16 data offset
      let dstPort ← logged16 data (offset+2)
      let flags ← loggedByte data (offset+13)
      return some {pkt with
        srcPort := srcPort
        dstPort := dstPort
        tcpFin := flags&&&thFin≠0
        tcpRst := flags&&&thRst≠0}
  else if pkt.protocol=ipprotoUdp then do
    let limit ← logged64 offset sizeofUdp
    if data.length<limit then return none
    else do
      let srcPort ← logged16 data offset
      let dstPort ← logged16 data (offset+2)
      return some {pkt with srcPort := srcPort,dstPort := dstPort}
  else if pkt.protocol=ipprotoIcmp then do
    let limit ← logged64 offset sizeofIcmp
    if data.length<limit then return none
    else do
      let type ← loggedByte data offset
      let code ← loggedByte data (offset+1)
      return some {pkt with srcPort := type.toUInt16<<<8|||code.toUInt16}
  else if pkt.protocol=ipprotoIcmpv6 then do
    let limit ← logged32 offset 4
    if data.length<limit then return none
    else do
      let type ← loggedByte data offset
      let code ← loggedByte data (offset+1)
      return some {pkt with srcPort := type.toUInt16<<<8|||code.toUInt16}
  else return none

/-- The network stage. -/
def loggedNetwork (ethertype : UInt16) (offset : ℕ) (pkt : ParsedPacket) :
    Decoder (Option (ParsedPacket×ℕ)) :=
  if ethertype=kEtherIPv4 then loggedIpv4 data offset pkt
  else if ethertype=kEtherIPv6 then loggedIpv6 data offset pkt
  else return none

/-- All stages after the null check. -/
def loggedStages (ts : Timeval) : Decoder (Option ParsedPacket) := do
  let link ← loggedEthernet data
  match link with
  | none => return none
  | some (ethertype,offset) =>
    let network ← loggedNetwork data ethertype offset (stampedPacket ts)
    match network with
    | none => return none
    | some (pkt,offset) => loggedTransport data offset pkt

end Programs

/-- `PacketDecoder::decode` with its accesses. -/
def loggedDecode (data : Option Capture) (ts : Timeval) : Decoder (Option ParsedPacket) :=
  match data with
  | none => return none
  | some capture => loggedStages capture.bytes ts

section Results

variable (data : List UInt8)

@[simp] theorem result_byte (position : ℕ) :
    (loggedByte data position).result=readByte data position := rfl

@[simp] theorem result_bytes (position n : ℕ) :
    (loggedBytes data position n).result=readBytes data position n := rfl

@[simp] theorem result_16 (position : ℕ) :
    (logged16 data position).result=read16 data position := by
  simp only [logged16,result_bind,result_byte,result_pure]
  rfl

@[simp] theorem result_32 (a b : ℕ) : (logged32 a b).result=.ok (add32 a b) := rfl

@[simp] theorem result_64 (a b : ℕ) : (logged64 a b).result=.ok (add64 a b) := rfl

@[simp] theorem result_narrow (a : ℕ) : (loggedNarrow a).result=.ok (a%2^32) := rfl

/-- Without its log the Ethernet stage is `decodeEthernet`. -/
theorem result_ethernet : (loggedEthernet data).result=decodeEthernet data := by
  simp only [loggedEthernet,result_ite,result_bind,result_16,result_32,result_pure]
  rfl

/-- Without its log the IPv4 stage is `decodeIpv4`. -/
theorem result_ipv4 (offset : ℕ) (pkt : ParsedPacket) :
    (loggedIpv4 data offset pkt).result=decodeIpv4 data offset pkt := by
  simp only [loggedIpv4,result_ite,result_bind,result_byte,result_bytes,result_16,result_32,
    result_64,result_pure]
  rfl

/-- Without its log the IPv6 stage is `decodeIpv6`. -/
theorem result_ipv6 (offset : ℕ) (pkt : ParsedPacket) :
    (loggedIpv6 data offset pkt).result=decodeIpv6 data offset pkt := by
  simp only [loggedIpv6,result_ite,result_bind,result_byte,result_bytes,result_16,result_64,
    result_narrow,result_pure]
  rfl

/-- Without its log the transport stage is `decodeTransport`. -/
theorem result_transport (offset : ℕ) (pkt : ParsedPacket) :
    (loggedTransport data offset pkt).result=decodeTransport data offset pkt := by
  simp only [loggedTransport,result_ite,result_bind,result_byte,result_16,result_32,result_64,
    result_pure]
  rfl

/-- Without its log the network stage is that of `decode`. -/
theorem result_network (ethertype : UInt16) (offset : ℕ) (pkt : ParsedPacket) :
    (loggedNetwork data ethertype offset pkt).result=decodeNetwork data ethertype offset pkt := by
  simp only [loggedNetwork,result_ite,result_ipv4,result_ipv6,result_pure]
  rfl

/-- Without its log the decoder is `decode`. -/
theorem result_decode (capture : Option Capture) (ts : Timeval) :
    (loggedDecode capture ts).result=decode capture ts := by
  cases capture with
  | none => rfl
  | some capture =>
    rw [loggedDecode,loggedStages,decode_stages,result_bind,result_ethernet]
    refine congrArg _ (funext fun link => ?_)
    cases link with
    | none => rfl
    | some link =>
      dsimp only
      rw [result_bind,result_network]
      refine congrArg _ (funext fun network => ?_)
      cases network with
      | none => rfl
      | some network => exact result_transport _ _ _

end Results

section Ranges

variable {data : List UInt8}

/-- A stage all of whose accesses are in range. -/
abbrev Safe {α : Type} (data : List UInt8) (post : α → Prop) (x : Decoder α) : Prop :=
  Meets (InRange data.length) post x

/-- A byte that was captured. -/
theorem safe_byte {position : ℕ} (h : position<data.length) :
    Safe data (fun _ => True) (loggedByte data position) := by
  have hread : readByte data position=.ok (data.get ⟨position,h⟩) := by
    rw [readByte,List.getElem?_eq_getElem h]
    rfl
  exact Meets.access h hread trivial

/-- Two bytes that were captured. -/
theorem safe_16 {position : ℕ} (h : position+2≤data.length) :
    Safe data (fun _ => True) (logged16 data position) := by
  refine Meets.bind (safe_byte (by omega)) fun hi _ => ?_
  exact Meets.bind (safe_byte (by omega)) fun lo _ => Meets.pure trivial

/-- A block that was captured. -/
theorem safe_bytes {position n : ℕ} (h : position+n≤data.length) :
    Safe data (fun _ => True) (loggedBytes data position n) := by
  have hread : ∃ v,readBytes data position n=.ok v := by
    rw [readBytes,dif_pos h]
    exact ⟨_,rfl⟩
  obtain ⟨v,hv⟩ := hread
  exact Meets.access h hv trivial

/-- A 32-bit sum that does not wrap. -/
theorem safe_32 {a b : ℕ} (h : a+b<2^32) : Safe data (fun x => x=a+b) (logged32 a b) :=
  Meets.access h rfl (Nat.mod_eq_of_lt h)

/-- A 64-bit sum that does not wrap. -/
theorem safe_64 {a b : ℕ} (h : a+b<2^64) : Safe data (fun x => x=a+b) (logged64 a b) :=
  Meets.access h rfl (Nat.mod_eq_of_lt h)

/-- A conversion that keeps the value. -/
theorem safe_narrow {a : ℕ} (h : a<2^32) : Safe data (fun x => x=a) (loggedNarrow a) :=
  Meets.access h rfl (Nat.mod_eq_of_lt h)

/-- A length check against a sum: the rest may assume that many bytes. -/
theorem safe_check {α : Type} {post : Option α → Prop} {n : ℕ} {sum : Decoder ℕ}
    {x : Decoder (Option α)} (hsum : Safe data (fun limit => limit=n) sum) (hnone : post none)
    (h : n≤data.length → Safe data post x) :
    Safe data post (do
      let limit ← sum
      if data.length<limit then return none else x) := by
  refine Meets.bind hsum fun limit hlimit => ?_
  subst hlimit
  exact Meets.ite (fun _ => Meets.pure hnone) fun hlong => h (Nat.not_lt.mp hlong)

/-- The offset behind a header has a bound. -/
def Behind {α : Type} (bound : ℕ) (found : Option (α×ℕ)) : Prop :=
  ∀ a offset,found=some (a,offset) → offset≤bound

theorem behind_none {α : Type} {bound : ℕ} : Behind bound (none : Option (α×ℕ)) := by
  intro a offset h
  cases h

theorem behind_some {α : Type} {bound offset : ℕ} {a : α} (h : offset≤bound) :
    Behind bound (some (a,offset)) := by
  intro a' offset' hsome
  cases hsome
  exact h

/-- The Ethernet stage stays in range and ends at most 18 bytes in. -/
theorem safe_ethernet : Safe data (Behind 18) (loggedEthernet data) := by
  refine Meets.ite (fun _ => Meets.pure behind_none) fun hlong => ?_
  have hlong : 12+2≤data.length := Nat.not_lt.mp hlong
  refine Meets.bind (safe_16 hlong) fun ethertype _ => ?_
  refine Meets.bind (safe_32 (by decide)) fun offset hoffset => ?_
  have hoffset : offset=14 := hoffset
  subst hoffset
  refine Meets.ite (fun _ => ?_) fun _ => Meets.pure (behind_some (by decide))
  refine safe_check (safe_32 (by decide)) behind_none fun htag => ?_
  refine Meets.bind (safe_32 (by decide)) fun offset hoffset => ?_
  subst hoffset
  refine Meets.bind (safe_16 (by omega)) fun inner _ => ?_
  refine Meets.bind (safe_32 (by decide)) fun offset hoffset => ?_
  subst hoffset
  exact Meets.pure (behind_some (by decide))

/-- The IPv4 stage stays in range and ends within its header's length. -/
theorem safe_ipv4 {offset : ℕ} (hoffset : offset≤18) (pkt : ParsedPacket) :
    Safe data (Behind 78) (loggedIpv4 data offset pkt) := by
  refine safe_check (safe_64 (by rw [sizeofIp]; omega)) behind_none fun hlong => ?_
  rw [sizeofIp] at hlong
  refine Meets.bind (safe_byte (by omega)) fun versionIhl _ => ?_
  refine Meets.ite (fun _ => Meets.pure behind_none) fun _ => ?_
  have hihl : (versionIhl&&&0x0F).toNat*4≤60 := by
    rw [ihl_toNat]
    omega
  refine Meets.bind (safe_32 (by omega)) fun limit hlimit => ?_
  subst hlimit
  refine Meets.ite (fun _ => Meets.pure behind_none) fun hheader => ?_
  obtain ⟨_,hheader⟩ := not_or.mp hheader
  refine Meets.bind (safe_bytes (by omega)) fun src _ => ?_
  refine Meets.bind (safe_bytes (by omega)) fun dst _ => ?_
  refine Meets.bind (safe_byte (by omega)) fun protocol _ => ?_
  refine Meets.bind (safe_16 (by omega)) fun totalLength _ => ?_
  refine Meets.bind (safe_32 (by omega)) fun next hnext => ?_
  subst hnext
  exact Meets.pure (behind_some (by omega))

/-- The IPv6 stage stays in range and ends forty bytes on. -/
theorem safe_ipv6 {offset : ℕ} (hoffset : offset≤18) (pkt : ParsedPacket) :
    Safe data (Behind 78) (loggedIpv6 data offset pkt) := by
  refine safe_check (safe_64 (by rw [sizeofIp6]; omega)) behind_none fun hlong => ?_
  rw [sizeofIp6] at hlong
  refine Meets.bind (safe_byte (by omega)) fun vfc _ => ?_
  refine Meets.ite (fun _ => Meets.pure behind_none) fun _ => ?_
  refine Meets.bind (safe_bytes (by omega)) fun src _ => ?_
  refine Meets.bind (safe_bytes (by omega)) fun dst _ => ?_
  refine Meets.bind (safe_byte (by omega)) fun nextHeader _ => ?_
  refine Meets.bind (safe_16 (by omega)) fun payloadLength _ => ?_
  refine Meets.bind (safe_64 (by rw [sizeofIp6]; omega)) fun sum hsum => ?_
  rw [sizeofIp6] at hsum
  subst hsum
  refine Meets.bind (safe_narrow (by omega)) fun next hnext => ?_
  subst hnext
  exact Meets.pure (behind_some (by omega))

/-- The transport stage stays in range. -/
theorem safe_transport {offset : ℕ} (hoffset : offset≤78) (pkt : ParsedPacket) :
    Safe data (fun _ => True) (loggedTransport data offset pkt) := by
  refine Meets.ite (fun _ => ?_) fun _ => Meets.ite (fun _ => ?_) fun _ =>
    Meets.ite (fun _ => ?_) fun _ => Meets.ite (fun _ => ?_) fun _ => Meets.pure trivial
  · refine safe_check (safe_64 (by rw [sizeofTcp]; omega)) trivial fun hlong => ?_
    rw [sizeofTcp] at hlong
    refine Meets.bind (safe_16 (by omega)) fun srcPort _ => ?_
    refine Meets.bind (safe_16 (by omega)) fun dstPort _ => ?_
    exact Meets.bind (safe_byte (by omega)) fun flags _ => Meets.pure trivial
  · refine safe_check (safe_64 (by rw [sizeofUdp]; omega)) trivial fun hlong => ?_
    rw [sizeofUdp] at hlong
    refine Meets.bind (safe_16 (by omega)) fun srcPort _ => ?_
    exact Meets.bind (safe_16 (by omega)) fun dstPort _ => Meets.pure trivial
  · refine safe_check (safe_64 (by rw [sizeofIcmp]; omega)) trivial fun hlong => ?_
    rw [sizeofIcmp] at hlong
    refine Meets.bind (safe_byte (by omega)) fun type _ => ?_
    exact Meets.bind (safe_byte (by omega)) fun code _ => Meets.pure trivial
  · refine safe_check (safe_32 (by omega)) trivial fun hlong => ?_
    refine Meets.bind (safe_byte (by omega)) fun type _ => ?_
    exact Meets.bind (safe_byte (by omega)) fun code _ => Meets.pure trivial

/-- All stages stay in range. -/
theorem safe_stages (ts : Timeval) : Safe data (fun _ => True) (loggedStages data ts) := by
  refine Meets.bind safe_ethernet fun link hlink => ?_
  cases link with
  | none => exact Meets.pure trivial
  | some link =>
    obtain ⟨ethertype,offset⟩ := link
    have hoffset := hlink ethertype offset rfl
    have hnetwork : Safe data (Behind 78)
        (loggedNetwork data ethertype offset (stampedPacket ts)) :=
      Meets.ite (fun _ => safe_ipv4 hoffset _) fun _ =>
        Meets.ite (fun _ => safe_ipv6 hoffset _) fun _ => Meets.pure behind_none
    refine Meets.bind hnetwork fun network hbehind => ?_
    cases network with
    | none => exact Meets.pure trivial
    | some network =>
      obtain ⟨pkt,offset⟩ := network
      exact safe_transport (hbehind pkt offset rfl) pkt

end Ranges

/-- Number of readable bytes. -/
def readable : Option Capture → ℕ
  | none => 0
  | some capture => capture.bytes.length

/-- For every capture and capture time, on every path, each byte that `decode`
reads was captured and no offset arithmetic wraps; so it always returns. -/
theorem decode_in_range (data : Option Capture) (ts : Timeval) :
    (loggedDecode data ts).result=decode data ts ∧
      (∃ p,decode data ts=.ok p) ∧
      ∀ a∈(loggedDecode data ts).log,InRange (readable data) a := by
  rw [←result_decode data ts]
  cases data with
  | none => exact ⟨rfl,⟨none,rfl⟩,List.forall_mem_nil _⟩
  | some capture =>
    have hsafe : Safe capture.bytes (fun _ => True) (loggedStages capture.bytes ts) :=
      safe_stages ts
    obtain ⟨p,hp,_⟩ := hsafe.returns
    exact ⟨rfl,⟨p,hp⟩,hsafe.accesses⟩

end PacketPipe.PacketDecoderAccesses
