import PacketPipe.MultiplyXorHashes
import PacketPipe.PacketDecoderModel

/-!
# Hashes of flow keys

The hash of the table of active flows mixes in the bytes of a key one by one.
Two keys collide only if their bytes differ in places that are more than four
apart: flows between the same two hosts, and IPv4 flows that have one host and
the ports in common, have different hashes.
-/

namespace PacketPipe.FlowKeyHashes

open FlowEvents PacketDecoderModel MultiplyXorHashes

/-- `FNV_OFFSET`. -/
def fnvOffset : UInt64 := 14695981039346656037

/-- `FNV_PRIME`. -/
def fnvPrime : UInt64 := 1099511628211

/-- The lambda `mix`. -/
def mixByte (h : UInt64) (b : UInt8) : UInt64 := (h^^^b.toUInt64)*fnvPrime

/-- `FlowKeyHash`, where `size_t` has 64 bits. -/
def flowKeyHash (k : FlowKey) : UInt64 :=
  let h := fnvOffset
  let h := k.srcIp.toList.foldl mixByte h
  let h := k.dstIp.toList.foldl mixByte h
  let h := mixByte h (k.srcPort>>>8).toUInt8
  let h := mixByte h (k.srcPort&&&0xFF).toUInt8
  let h := mixByte h (k.dstPort>>>8).toUInt8
  let h := mixByte h (k.dstPort&&&0xFF).toUInt8
  mixByte h k.protocol

/-- The bytes of a port in the order in which they are mixed in. -/
def portBytes (port : UInt16) : List UInt8 := [(port>>>8).toUInt8,(port&&&0xFF).toUInt8]

/-- The bytes of a key in the order in which they are mixed in. -/
def keyBytes (k : FlowKey) : List UInt8 :=
  k.srcIp.toList++k.dstIp.toList++portBytes k.srcPort++portBytes k.dstPort++[k.protocol]

/-- The bytes of a port determine it. -/
theorem portBytes_injective {p q : UInt16} (h : portBytes p=portBytes q) : p=q := by
  obtain ⟨hhigh,hlow⟩ := List.cons.inj h
  have hlow := (List.cons.inj hlow).1
  have hhigh := congrArg UInt8.toNat hhigh
  have hlow := congrArg UInt8.toNat hlow
  have hp := p.toNat_lt
  have hq := q.toNat_lt
  apply UInt16.toNat_inj.mp
  have hmask : ∀ n : ℕ,n&&&255=n%256 := fun n => Nat.and_two_pow_sub_one_eq_mod n 8
  simp only [UInt16.toNat_toUInt8,UInt16.toNat_shiftRight,UInt16.toNat_and,UInt16.reduceToNat,
    Nat.reduceMod,Nat.shiftRight_eq_div_pow,hmask,Nat.reducePow] at hhigh hlow
  omega

/-- The bytes of a key determine it. -/
theorem keyBytes_injective {j k : FlowKey} (h : keyBytes j=keyBytes k) : j=k := by
  obtain ⟨h,hprotocol⟩ := List.append_inj' h rfl
  obtain ⟨h,hdstPort⟩ := List.append_inj' h rfl
  obtain ⟨h,hsrcPort⟩ := List.append_inj' h rfl
  obtain ⟨hsrcIp,hdstIp⟩ := List.append_inj' h (by simp)
  obtain ⟨srcIp,dstIp,srcPort,dstPort,protocol⟩ := j
  obtain ⟨srcIp',dstIp',srcPort',dstPort',protocol'⟩ := k
  have hsrcIp : srcIp=srcIp' := Vector.toList_inj.mp hsrcIp
  have hdstIp : dstIp=dstIp' := Vector.toList_inj.mp hdstIp
  have hsrcPort : srcPort=srcPort' := portBytes_injective hsrcPort
  have hdstPort : dstPort=dstPort' := portBytes_injective hdstPort
  have hprotocol : protocol=protocol' := (List.cons.inj hprotocol).1
  rw [hsrcIp,hdstIp,hsrcPort,hdstPort,hprotocol]

/-- Number of bytes of a key. -/
theorem keyBytes_length (k : FlowKey) : (keyBytes k).length=37 := by
  simp [keyBytes,portBytes]

/-- The hash is that of the bytes. -/
theorem flowKeyHash_bytes (k : FlowKey) :
    (flowKeyHash k).toBitVec=hash fnvPrime.toBitVec fnvOffset.toBitVec
      ((keyBytes k).map UInt8.toBitVec) := by
  have hfold : ∀ (bytes : List UInt8) (h : UInt64),
      (bytes.foldl mixByte h).toBitVec=
        hash fnvPrime.toBitVec h.toBitVec (bytes.map UInt8.toBitVec) := by
    intro bytes
    induction bytes with
    | nil => exact fun _ => rfl
    | cons b bytes ih => exact fun h => ih (mixByte h b)
  have hkey : flowKeyHash k=(keyBytes k).foldl mixByte fnvOffset := by
    simp only [keyBytes,portBytes,List.foldl_append,List.foldl_cons,List.foldl_nil,flowKeyHash]
  rw [hkey,hfold]

/-- The multiplier spreads four bytes: modulo 2^64 its second and third powers
have the high parts 870 and 567675 beside low parts that are too small to make
up for them. -/
theorem fnvPrime_spread : Spread fnvPrime.toBitVec 4 := by
  intro es hlength hbounds hdvd
  obtain ⟨a,b,c,d,rfl⟩ : ∃ a b c d,es=[a,b,c,d] := List.length_eq_four.mp hlength
  obtain ⟨ha,hb,hc,hd,-⟩ : (-510≤a ∧ a≤510) ∧ (-510≤b ∧ b≤510) ∧ (-510≤c ∧ c≤510) ∧
      (-510≤d ∧ d≤510) ∧ ∀ e∈([] : List ℤ),-510≤e ∧ e≤510 := by
    simpa only [List.forall_mem_cons] using hbounds
  obtain ⟨m,hm⟩ := hdvd
  have hprime : (fnvPrime.toBitVec.toNat : ℤ)=1099511628211 := rfl
  simp only [digits,List.foldl_cons,List.foldl_nil,hprime] at hm
  have hlow : 82312875*a+189225*b+435*c+d=0 := by omega
  have hsmall : -1≤a ∧ a≤1 := by omega
  have hhigh : 567675*a+870*b+c=0 := by omega
  have hfirst : a=0 := by omega
  have hsecond : b=0 := by omega
  simp only [List.forall_mem_cons]
  refine ⟨hfirst,hsecond,?_,?_,List.forall_mem_nil _⟩
  · omega
  · omega

/-- Keys whose bytes differ in a window of four have different hashes. -/
theorem hash_apart {j k : FlowKey} {front back as bs : List UInt8} (has : as.length=4)
    (hbs : bs.length=4) (hj : keyBytes j=front++as++back) (hk : keyBytes k=front++bs++back)
    (hsame : flowKeyHash j=flowKeyHash k) : j=k := by
  have hbytes := congrArg UInt64.toBitVec hsame
  rw [flowKeyHash_bytes,flowKeyHash_bytes,hj,hk] at hbytes
  simp only [List.map_append] at hbytes
  have hwindow := hash_window (by decide) (by decide) fnvPrime_spread fnvOffset.toBitVec
    (by rw [List.length_map,has]) (by rw [List.length_map,hbs]) hbytes
  have hequal : as=bs := (List.map_inj_right fun _ _ h => UInt8.toBitVec_inj.mp h).mp hwindow
  exact keyBytes_injective (by rw [hj,hk,hequal])

/-- Keys that have the same bytes outside of some four consecutive ones have
different hashes, unless they are equal. -/
theorem flowKeyHash_window (j k : FlowKey) (i : ℕ)
    (h : ∀ n,n< i ∨ i+4≤n → (keyBytes j)[n]?=(keyBytes k)[n]?) :
    flowKeyHash j=flowKeyHash k ↔ j=k := by
  refine ⟨fun hsame => ?_,congrArg flowKeyHash⟩
  have hmoved : ∀ n,n< min i 33 ∨ min i 33+4≤n → (keyBytes j)[n]?=(keyBytes k)[n]? := by
    intro n hn
    by_cases hbyte : n<37
    · exact h n (by omega)
    · rw [List.getElem?_eq_none,List.getElem?_eq_none] <;> rw [keyBytes_length] <;> omega
  have hsplit : ∀ bytes : List UInt8,
      bytes.take (min i 33)++(bytes.drop (min i 33)).take 4++bytes.drop (min i 33+4)=bytes := by
    intro bytes
    rw [List.append_assoc,← List.drop_drop,List.take_append_drop,List.take_append_drop]
  have hfront : (keyBytes j).take (min i 33)=(keyBytes k).take (min i 33) := by
    apply List.ext_getElem?
    intro n
    rw [List.getElem?_take,List.getElem?_take]
    split
    · next hn => exact hmoved n (.inl hn)
    · rfl
  have hback : (keyBytes j).drop (min i 33+4)=(keyBytes k).drop (min i 33+4) := by
    apply List.ext_getElem?
    intro n
    rw [List.getElem?_drop,List.getElem?_drop]
    exact hmoved _ (.inr (Nat.le_add_right _ n))
  have hlength : ∀ key,(((keyBytes key).drop (min i 33)).take 4).length=4 := by
    intro key
    rw [List.length_take,List.length_drop,keyBytes_length]
    omega
  refine hash_apart (hlength j) (hlength k) (hsplit _).symm ?_ hsame
  rw [hfront,hback]
  exact (hsplit _).symm

/-- A TCP and a UDP flow with the default addresses and ports. -/
theorem flowKeyHash_window_protocols :
    flowKeyHash {protocol := ipprotoTcp}=flowKeyHash {protocol := ipprotoUdp} ↔
      ({protocol := ipprotoTcp} : FlowKey)={protocol := ipprotoUdp} := by
  refine flowKeyHash_window _ _ 33 fun n hn => ?_
  rcases hn with hn | hn
  · have hall : ∀ m<33,(keyBytes {protocol := ipprotoTcp})[m]?=
        (keyBytes {protocol := ipprotoUdp})[m]? := by decide
    exact hall n hn
  · rw [List.getElem?_eq_none,List.getElem?_eq_none] <;> rw [keyBytes_length] <;> omega

/-- The bytes in front of an IPv4 address. -/
def mappedPrefix : List UInt8 := [0,0,0,0,0,0,0,0,0,0,0xFF,0xFF]

/-- The bytes of an IPv4-mapped address. -/
theorem setIpv4Mapped_toList (a : Vector UInt8 4) :
    (setIpv4Mapped a).toList=mappedPrefix++a.toList := by
  rw [setIpv4Mapped]
  exact Vector.toList_append

/-- Two keys that differ in one of these and nothing else: the ports; the
destination port and the protocol; one of two IPv4 addresses. -/
inductive OneApart (j k : FlowKey) : Prop
  /-- Flows between the same two addresses. -/
  | ports (hsrcIp : j.srcIp=k.srcIp) (hdstIp : j.dstIp=k.dstIp) (hprotocol : j.protocol=k.protocol)
  /-- Flows from one port. -/
  | service (hsrcIp : j.srcIp=k.srcIp) (hdstIp : j.dstIp=k.dstIp) (hsrcPort : j.srcPort=k.srcPort)
  /-- IPv4 flows that have all but the source address in common. -/
  | source (a b : Vector UInt8 4) (hj : j.srcIp=setIpv4Mapped a) (hk : k.srcIp=setIpv4Mapped b)
    (hrest : {j with srcIp := k.srcIp}=k)
  /-- IPv4 flows that have all but the destination address in common. -/
  | destination (a b : Vector UInt8 4) (hj : j.dstIp=setIpv4Mapped a)
    (hk : k.dstIp=setIpv4Mapped b) (hrest : {j with dstIp := k.dstIp}=k)

/-- Flows between the same two hosts, and IPv4 flows with one host and the ports
in common, have different hashes unless they are the same flow. -/
theorem flowKeyHash_separates (j k : FlowKey) (h : OneApart j k) :
    flowKeyHash j=flowKeyHash k ↔ j=k := by
  refine ⟨fun hsame => ?_,congrArg flowKeyHash⟩
  cases h with
  | ports hsrcIp hdstIp hprotocol =>
    have hj : keyBytes j=(k.srcIp.toList++k.dstIp.toList)++
        (portBytes j.srcPort++portBytes j.dstPort)++[k.protocol] := by
      simp only [keyBytes,hsrcIp,hdstIp,hprotocol,List.append_assoc]
    have hk : keyBytes k=(k.srcIp.toList++k.dstIp.toList)++
        (portBytes k.srcPort++portBytes k.dstPort)++[k.protocol] := by
      simp only [keyBytes,List.append_assoc]
    exact hash_apart rfl rfl hj hk hsame
  | service hsrcIp hdstIp hsrcPort =>
    have hj : keyBytes j=(k.srcIp.toList++k.dstIp.toList++[(k.srcPort>>>8).toUInt8])++
        ([(k.srcPort&&&0xFF).toUInt8]++portBytes j.dstPort++[j.protocol])++[] := by
      simp [keyBytes,portBytes,hsrcIp,hdstIp,hsrcPort]
    have hk : keyBytes k=(k.srcIp.toList++k.dstIp.toList++[(k.srcPort>>>8).toUInt8])++
        ([(k.srcPort&&&0xFF).toUInt8]++portBytes k.dstPort++[k.protocol])++[] := by
      simp [keyBytes,portBytes]
    exact hash_apart rfl rfl hj hk hsame
  | source a b hsrc hsrc' hrest =>
    have hj : keyBytes j=mappedPrefix++a.toList++
        (k.dstIp.toList++portBytes k.srcPort++portBytes k.dstPort++[k.protocol]) := by
      rw [← hrest]
      simp only [keyBytes,hsrc,setIpv4Mapped_toList,List.append_assoc]
    have hk : keyBytes k=mappedPrefix++b.toList++
        (k.dstIp.toList++portBytes k.srcPort++portBytes k.dstPort++[k.protocol]) := by
      simp only [keyBytes,hsrc',setIpv4Mapped_toList,List.append_assoc]
    exact hash_apart (by simp) (by simp) hj hk hsame
  | destination a b hdst hdst' hrest =>
    have hj : keyBytes j=(k.srcIp.toList++mappedPrefix)++a.toList++
        (portBytes k.srcPort++portBytes k.dstPort++[k.protocol]) := by
      rw [← hrest]
      simp only [keyBytes,hdst,setIpv4Mapped_toList,List.append_assoc]
    have hk : keyBytes k=(k.srcIp.toList++mappedPrefix)++b.toList++
        (portBytes k.srcPort++portBytes k.dstPort++[k.protocol]) := by
      simp only [keyBytes,hdst',setIpv4Mapped_toList,List.append_assoc]
    exact hash_apart (by simp) (by simp) hj hk hsame

/-- Two flows from one host and port to port 80 of neighbouring hosts. -/
theorem flowKeyHash_separates_neighbours :
    flowKeyHash ⟨setIpv4Mapped #v[192,168,1,1],setIpv4Mapped #v[10,0,0,1],1234,80,ipprotoTcp⟩=
      flowKeyHash ⟨setIpv4Mapped #v[192,168,1,1],setIpv4Mapped #v[10,0,0,2],1234,80,ipprotoTcp⟩ ↔
    (⟨setIpv4Mapped #v[192,168,1,1],setIpv4Mapped #v[10,0,0,1],1234,80,ipprotoTcp⟩ : FlowKey)=
      ⟨setIpv4Mapped #v[192,168,1,1],setIpv4Mapped #v[10,0,0,2],1234,80,ipprotoTcp⟩ :=
  flowKeyHash_separates _ _ (.destination #v[10,0,0,1] #v[10,0,0,2] rfl rfl rfl)

end PacketPipe.FlowKeyHashes
