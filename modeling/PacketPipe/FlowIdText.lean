import PacketPipe.AddressTexts
import PacketPipe.SelfDelimitingCodes

/-!
# The flow identifier names the flow

The key text is a concatenation of self-delimiting codes: an address followed
by `:`, in brackets unless it is IPv4, a port followed by `-` or `/`, and the
protocol last.
-/

namespace PacketPipe.FlowIdText

open FlowEvents AvroSerializerModel AddressTexts SelfDelimitingCodes

section Addresses

/-- The bytes that `inet_ntop` is given. -/
def addressView (ip : Address) : Vector UInt8 4⊕Address :=
  if isIpv4Mapped ip then .inl (embeddedIpv4 ip) else .inr ip

/-- A mapped address is its prefix and its last four bytes. -/
theorem eq_of_embeddedIpv4 {a b : Address} (ha : isIpv4Mapped a=true) (hb : isIpv4Mapped b=true)
    (h : embeddedIpv4 a=embeddedIpv4 b) : a=b := by
  simp only [isIpv4Mapped,Bool.and_eq_true,decide_eq_true_eq] at ha hb
  simp only [embeddedIpv4,Vector.mk.injEq,Array.mk.injEq,List.cons.injEq,and_true] at h
  refine Vector.ext fun i hi => ?_
  match i,hi with
  | 0,_ | 1,_ | 2,_ | 3,_ | 4,_ | 5,_ | 6,_ | 7,_ | 8,_ | 9,_ | 10,_ | 11,_ | 12,_ | 13,_ | 14,_
  | 15,_ => simp only [ha,hb,h]
  | i+16,hi => omega

/-- The bytes given to `inet_ntop` determine the address. -/
theorem addressView_injective : Function.Injective addressView := by
  intro a b h
  unfold addressView at h
  split at h <;> split at h
  · rename_i ha hb
    exact eq_of_embeddedIpv4 ha hb (Sum.inl.inj h)
  · cases h
  · cases h
  · exact Sum.inr.inj h

variable {ntop : InetNtop}

/-- The text of an IPv4 address before a port. -/
def ipv4Code (ntop : InetNtop) (a : Vector UInt8 4) : List Char :=
  (ntop.ipv4 a).text.toList++[':']

/-- The bracketed text of an IPv6 address before a port. -/
def ipv6Code (ntop : InetNtop) (a : Address) : List Char :=
  '['::((ntop.ipv6 a).text.toList++[']']++[':'])

/-- An IPv4 text ends at the colon. -/
theorem ipv4Code_selfDelimiting (h : Documented ntop) : SelfDelimiting (ipv4Code ntop) := by
  refine selfDelimiting_terminated (fun a b hab => h.ipv4_injective a b (String.toList_inj.mp hab))
    fun a hmem => ?_
  rcases h.ipv4_chars a ':' hmem with hdigit | hdot
  · exact absurd hdigit (by decide)
  · exact absurd hdot (by decide)

/-- An IPv6 text ends at the closing bracket. -/
theorem ipv6Code_selfDelimiting (h : Documented ntop) : SelfDelimiting (ipv6Code ntop) := by
  have hterminated : SelfDelimiting fun a => (ntop.ipv6 a).text.toList++[']'] := by
    refine selfDelimiting_terminated
      (fun a b hab => h.ipv6_injective a b (String.toList_inj.mp hab)) fun a hmem => ?_
    rcases h.ipv6_chars a ']' hmem with hhex | hcolon | hdot
    · exact absurd hhex (by decide)
    · exact absurd hcolon (by decide)
    · exact absurd hdot (by decide)
  exact (hterminated.followed ':').marked '['

/-- An IPv4 text does not start with a bracket. -/
theorem ipv4Code_ne_ipv6Code (h : Documented ntop) (a : Vector UInt8 4) (b : Address)
    (rest rest' : List Char) : ipv4Code ntop a++rest≠ipv6Code ntop b++rest' := by
  intro heq
  rw [ipv4Code,ipv6Code,List.cons_append] at heq
  cases htext : (ntop.ipv4 a).text.toList with
  | nil =>
    rw [htext] at heq
    exact absurd (List.cons.inj heq).1 (by decide)
  | cons c text =>
    rw [htext] at heq
    have hfirst : c = '[' := (List.cons.inj heq).1
    rcases h.ipv4_chars a '[' (by rw [htext,hfirst]; exact List.mem_cons_self) with hdigit | hdot
    · exact absurd hdigit (by decide)
    · exact absurd hdot (by decide)

/-- The text of an address before a port. -/
def addressCode (ntop : InetNtop) : Address → List Char :=
  Sum.elim (ipv4Code ntop) (ipv6Code ntop)∘addressView

/-- The text of an address determines it and where it ends. -/
theorem addressCode_selfDelimiting (h : Documented ntop) : SelfDelimiting (addressCode ntop) :=
  ((ipv4Code_selfDelimiting h).alternatives (ipv6Code_selfDelimiting h)
    (ipv4Code_ne_ipv6Code h)).comap addressView_injective

end Addresses

section Decimals

/-- Decimal texts determine their numbers. -/
theorem decimal_injective : Function.Injective fun n : ℕ => n.repr.toList := by
  intro n m h
  have hvalue := congrArg (fun l => Nat.ofDigitChars 10 l 0) h
  simpa only [Nat.toList_repr,Nat.ofDigitChars_ten_toDigits] using hvalue

/-- A decimal text ends at any character that is not a digit. -/
theorem decimal_selfDelimiting {s : Char} (hs : s.isDigit=false) :
    SelfDelimiting fun n : ℕ => n.repr.toList++[s] := by
  refine selfDelimiting_terminated decimal_injective fun n hmem => ?_
  rw [Nat.toList_repr] at hmem
  have hdigit := Nat.isDigit_of_mem_toDigits (by decide) (by decide) hmem
  rw [hs] at hdigit
  cases hdigit

end Decimals

section FlowId

variable {ntop : InetNtop}

/-- An address and a port before a character. -/
def endpointCode (ntop : InetNtop) (s : Char) (p : Address×ℕ) : List Char :=
  addressCode ntop p.1++(p.2.repr.toList++[s])

/-- The text of an endpoint determines it and where it ends. -/
theorem endpointCode_selfDelimiting (h : Documented ntop) {s : Char} (hs : s.isDigit=false) :
    SelfDelimiting (endpointCode ntop s) :=
  (addressCode_selfDelimiting h).seq (decimal_selfDelimiting hs)

/-- The two endpoints and the protocol of a key. -/
def keyParts (key : FlowKey) : ((Address×ℕ)×(Address×ℕ))×ℕ :=
  (((key.srcIp,key.srcPort.toNat),(key.dstIp,key.dstPort.toNat)),key.protocol.toNat)

/-- The parts determine the key. -/
theorem keyParts_injective : Function.Injective keyParts := by
  rintro ⟨srcIp,dstIp,srcPort,dstPort,protocol⟩ ⟨srcIp',dstIp',srcPort',dstPort',protocol'⟩ h
  simp only [keyParts,Prod.mk.injEq,UInt16.toNat_inj,UInt8.toNat_inj] at h
  obtain ⟨⟨⟨rfl,rfl⟩,rfl,rfl⟩,rfl⟩ := h
  rfl

/-- The key text in terms of its parts. -/
def partsCode (ntop : InetNtop) (p : ((Address×ℕ)×(Address×ℕ))×ℕ) : List Char :=
  endpointCode ntop '-' p.1.1++endpointCode ntop '/' p.1.2++p.2.repr.toList

/-- The parts can be told apart. -/
theorem partsCode_injective (h : Documented ntop) : Function.Injective (partsCode ntop) :=
  SelfDelimiting.last
    ((endpointCode_selfDelimiting h (by decide)).seq (endpointCode_selfDelimiting h (by decide)))
    decimal_injective

/-- A formatted address and a colon. -/
theorem formatted_address (ntop : InetNtop) (ip : Address) :
    ((if !isIpv4Mapped ip then "[" ++ ipArrayToString ntop ip ++ "]" else ipArrayToString ntop ip)
      ++ ":").toList=addressCode ntop ip := by
  cases hmapped : isIpv4Mapped ip with
  | true => simp [addressCode,addressView,ipv4Code,ipArrayToString,hmapped,String.toList_append]
  | false => simp [addressCode,addressView,ipv6Code,ipArrayToString,hmapped,String.toList_append]

/-- The characters of the flow identifier. -/
theorem toList_flowId (key : FlowKey) : (flowId ntop key).toList=partsCode ntop (keyParts key) := by
  have hsrc := formatted_address ntop key.srcIp
  have hdst := formatted_address ntop key.dstIp
  rw [String.toList_append] at hsrc hdst
  simp only [flowId,partsCode,keyParts,endpointCode,String.toList_append,← hsrc,← hdst,
    List.append_assoc]
  rfl

/-- The flow identifier determines the key. -/
theorem flowId_injective (h : Documented ntop) : Function.Injective (flowId ntop) := by
  intro k1 k2 heq
  have hchars := congrArg String.toList heq
  rw [toList_flowId,toList_flowId] at hchars
  exact keyParts_injective (partsCode_injective h hchars)

/-- Two keys have the same flow identifier exactly when they are equal. -/
theorem flowId_eq_iff (h : Documented ntop) (k1 k2 : FlowKey) :
    flowId ntop k1=flowId ntop k2 ↔ k1=k2 := by
  constructor
  · intro heq
    exact flowId_injective h heq
  · intro heq
    rw [heq]

/-- A key with an IPv4 source and an IPv6 destination. -/
def mixedKey (srcPort dstPort : UInt16) : FlowKey where
  srcIp := #v[0,0,0,0,0,0,0,0,0,0,0xFF,0xFF,192,168,1,10]
  dstIp := #v[0x20,0x01,0x0d,0xb8,0,1,0,2,0,3,0,4,0,5,0,6]
  srcPort := srcPort
  dstPort := dstPort
  protocol := ipprotoTcp

example : flowId plainNtop (mixedKey 54321 80)=
    "192.168.1.10:54321-[2001:db8:1:2:3:4:5:6]:80/6" := by
  decide

/-- Swapping the ports of a key changes its text. -/
theorem flowId_swapped_ports :
    flowId plainNtop (mixedKey 54321 80)≠flowId plainNtop (mixedKey 80 54321) := by
  intro heq
  have hkeys := (flowId_eq_iff plainNtop_documented _ _).mp heq
  exact absurd (congrArg FlowKey.srcPort hkeys) (by decide)

end FlowId

end PacketPipe.FlowIdText
