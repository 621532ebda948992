import PacketPipe.AvroSerializerModel

/-!
# Texts of addresses

What is known of `inet_ntop`, and texts that satisfy it: dotted decimals and
hexadecimal groups, which are those of `inet_ntop` for every IPv4 address and
for every IPv6 address without consecutive zero groups.
-/

namespace PacketPipe.AddressTexts

open FlowEvents ByteFields AvroSerializerModel

/-- A hexadecimal digit. -/
def isHexDigit (c : Char) : Bool :=
  c.isDigit || (decide ('a' ≤ c) && decide (c ≤ 'f')) ||
    (decide ('A' ≤ c) && decide (c ≤ 'F'))

/-- What is known of `inet_ntop`. -/
structure Documented (ntop : InetNtop) : Prop where
  /-- IPv4 addresses have different texts. -/
  ipv4_injective : ∀ a b,(ntop.ipv4 a).text=(ntop.ipv4 b).text → a=b
  /-- IPv6 addresses have different texts. -/
  ipv6_injective : ∀ a b,(ntop.ipv6 a).text=(ntop.ipv6 b).text → a=b
  /-- IPv4 texts are digits and dots. -/
  ipv4_chars : ∀ a c,c∈(ntop.ipv4 a).text.toList → c.isDigit=true ∨ c = '.'
  /-- IPv6 texts are hexadecimal digits, colons and dots. -/
  ipv6_chars : ∀ a c,c∈(ntop.ipv6 a).text.toList → isHexDigit c=true ∨ c = ':' ∨ c = '.'

section Words

/-- Words joined by a separator. -/
def joined (s : Char) (words : List (List Char)) : List Char := [s].intercalate words

/-- A character of joined words is the separator or in a word. -/
theorem mem_joined {s c : Char} {words : List (List Char)} (h : c∈joined s words) :
    c=s ∨ ∃ word∈words,c∈word := by
  induction words with
  | nil => cases h
  | cons word words ih =>
    cases words with
    | nil =>
      rw [joined,List.intercalate_singleton] at h
      exact .inr ⟨word,List.mem_cons_self,h⟩
    | cons next words =>
      rw [joined,List.intercalate_cons_cons,List.mem_append,List.mem_append,
        List.mem_singleton] at h
      rcases h with (hword | hsep) | hrest
      · exact .inr ⟨word,List.mem_cons_self,hword⟩
      · exact .inl hsep
      · rcases ih hrest with hsep | ⟨w,hw,hc⟩
        · exact .inl hsep
        · exact .inr ⟨w,List.mem_cons_of_mem _ hw,hc⟩

/-- Length of joined words. -/
theorem length_joined {s : Char} {k : ℕ} {words : List (List Char)}
    (h : ∀ word∈words,word.length≤k) : (joined s words).length≤words.length*(k+1) := by
  induction words with
  | nil => exact Nat.zero_le _
  | cons word words ih =>
    have hword := h word List.mem_cons_self
    have hrest := ih fun w hw => h w (List.mem_cons_of_mem _ hw)
    rw [List.length_cons,Nat.succ_mul]
    cases words with
    | nil =>
      rw [joined,List.intercalate_singleton]
      omega
    | cons next words =>
      rw [joined] at hrest
      rw [joined,List.intercalate_cons_cons,List.length_append,List.length_append,
        List.length_singleton]
      omega

/-- Joined words without the separator determine the words. -/
theorem joined_injective {s : Char} {words words' : List (List Char)} (hne : words≠[])
    (hne' : words'≠[]) (h : ∀ word∈words,s∉word) (h' : ∀ word∈words',s∉word)
    (heq : joined s words=joined s words') : words=words' := by
  rw [← List.splitOn_intercalate s h hne,← List.splitOn_intercalate s h' hne']
  exact congrArg (List.splitOn s) heq

/-- The digits of a number are digits of its base. -/
theorem mem_toDigits {b n : ℕ} {c : Char} (hb : 1<b) (h : c∈Nat.toDigits b n) :
    ∃ d<b,c=Nat.digitChar d := by
  induction n using Nat.strongRecOn with
  | ind n ih =>
    rw [Nat.toDigits_eq_if hb] at h
    split at h
    · rename_i hsmall
      exact ⟨n,hsmall,List.mem_singleton.mp h⟩
    · rename_i hlarge
      rcases List.mem_append.mp h with hhigh | hlow
      · exact ih (n/b) (Nat.div_lt_self (by omega) hb) hhigh
      · exact ⟨n%b,Nat.mod_lt n (by omega),List.mem_singleton.mp hlow⟩

/-- Hexadecimal digits are different. -/
theorem digitChar_injective : ∀ d<16,∀ e<16,Nat.digitChar d=Nat.digitChar e → d=e := by
  decide

/-- Hexadecimal texts determine their numbers. -/
theorem hex_injective {n m : ℕ} (h : Nat.toDigits 16 n=Nat.toDigits 16 m) : n=m := by
  induction n using Nat.strongRecOn generalizing m with
  | ind n ih =>
    rw [Nat.toDigits_eq_if (by decide),Nat.toDigits_eq_if (n:=m) (by decide)] at h
    split at h <;> split at h
    · rename_i hn hm
      exact digitChar_injective n hn m hm (List.singleton_injective h)
    · have hlength := congrArg List.length h
      have hpos := Nat.length_toDigits_pos (b:=16) (n:=m/16)
      rw [List.length_append,List.length_singleton,List.length_singleton] at hlength
      omega
    · have hlength := congrArg List.length h
      have hpos := Nat.length_toDigits_pos (b:=16) (n:=n/16)
      rw [List.length_append,List.length_singleton,List.length_singleton] at hlength
      omega
    · obtain ⟨hhigh,hlow⟩ := List.append_inj' h rfl
      have hquotient := ih (n/16) (by omega) hhigh
      have hdigit := digitChar_injective (n%16) (by omega) (m%16) (by omega)
        (List.singleton_injective hlow)
      omega

end Words

section PlainTexts

/-- Decimal bytes joined by dots. -/
def dottedText (a : Vector UInt8 4) : List Char :=
  joined '.' (a.toList.map fun b => Nat.toDigits 10 b.toNat)

/-- Bytes as big-endian pairs. -/
def pairs : List UInt8 → List UInt16
  | hi::lo::rest => join16 hi lo::pairs rest
  | _ => []

/-- The eight groups of an address. -/
def groups (a : Address) : List UInt16 := pairs a.toList

/-- Half as many groups as bytes. -/
theorem length_pairs (n : ℕ) {bytes : List UInt8} (h : bytes.length=2*n) :
    (pairs bytes).length=n := by
  induction n generalizing bytes with
  | zero =>
    obtain rfl := List.length_eq_zero_iff.mp h
    rfl
  | succ n ih =>
    match bytes,h with
    | hi::lo::rest,h =>
      rw [List.length_cons,List.length_cons] at h
      rw [pairs,List.length_cons,ih (by omega)]

/-- Splitting the groups gives the bytes. -/
theorem split_pairs (n : ℕ) {bytes : List UInt8} (h : bytes.length=2*n) :
    (pairs bytes).flatMap split16=bytes := by
  induction n generalizing bytes with
  | zero =>
    obtain rfl := List.length_eq_zero_iff.mp h
    rfl
  | succ n ih =>
    match bytes,h with
    | hi::lo::rest,h =>
      rw [List.length_cons,List.length_cons] at h
      rw [pairs,List.flatMap_cons,split_join16,ih (by omega)]
      rfl

/-- An address has eight groups. -/
theorem length_groups (a : Address) : (groups a).length=8 :=
  length_pairs 8 (by rw [Vector.length_toList])

/-- Hexadecimal groups joined by colons. -/
def groupedText (a : Address) : List Char :=
  joined ':' ((groups a).map fun g => Nat.toDigits 16 g.toNat)

/-- A dotted text fits the buffer. -/
theorem length_dottedText (a : Vector UInt8 4) : (dottedText a).length < inet6Addrstrlen := by
  have hwords : ∀ word∈a.toList.map fun b => Nat.toDigits 10 b.toNat,word.length≤3 := by
    intro word hword
    obtain ⟨b,_,rfl⟩ := List.mem_map.mp hword
    have hb := b.toNat_lt
    exact (Nat.length_toDigits_le_iff (by decide) (by decide)).mpr (by omega)
  have hlength := length_joined (s := '.') hwords
  rw [List.length_map,Vector.length_toList] at hlength
  rw [dottedText,inet6Addrstrlen]
  omega

/-- A grouped text fits the buffer. -/
theorem length_groupedText (a : Address) : (groupedText a).length < inet6Addrstrlen := by
  have hwords : ∀ word∈(groups a).map fun g => Nat.toDigits 16 g.toNat,word.length≤4 := by
    intro word hword
    obtain ⟨g,_,rfl⟩ := List.mem_map.mp hword
    have hg := g.toNat_lt
    exact (Nat.length_toDigits_le_iff (by decide) (by decide)).mpr (by omega)
  have hlength := length_joined (s := ':') hwords
  rw [List.length_map,length_groups] at hlength
  rw [groupedText,inet6Addrstrlen]
  omega

/-- Dotted decimals and hexadecimal groups. -/
def plainNtop : InetNtop where
  ipv4 a := ⟨String.ofList (dottedText a),by
    rw [String.length_ofList]
    exact length_dottedText a⟩
  ipv6 a := ⟨String.ofList (groupedText a),by
    rw [String.length_ofList]
    exact length_groupedText a⟩

/-- The groups determine the address. -/
theorem groups_injective {a b : Address} (h : groups a=groups b) : a=b := by
  have hbytes := congrArg (List.flatMap split16) h
  rw [groups,groups,split_pairs 8 (by rw [Vector.length_toList]),
    split_pairs 8 (by rw [Vector.length_toList])] at hbytes
  exact Vector.toList_inj.mp hbytes

/-- No decimal digit is a dot. -/
theorem dot_not_mem (n : ℕ) : '.'∉Nat.toDigits 10 n := by
  intro h
  exact absurd (Nat.isDigit_of_mem_toDigits (by decide) (by decide) h) (by decide)

/-- Every digit of base 16 is hexadecimal. -/
theorem isHexDigit_digitChar : ∀ d<16,isHexDigit (Nat.digitChar d)=true := by
  decide

/-- No hexadecimal digit is a colon. -/
theorem colon_not_mem (n : ℕ) : ':'∉Nat.toDigits 16 n := by
  intro h
  obtain ⟨d,hd,hc⟩ := mem_toDigits (by decide) h
  have hhex := isHexDigit_digitChar d hd
  rw [← hc] at hhex
  exact absurd hhex (by decide)

/-- The plain texts satisfy what is known of `inet_ntop`. -/
theorem plainNtop_documented : Documented plainNtop where
  ipv4_injective a b h := by
    have htext : dottedText a=dottedText b := String.ofList_injective h
    have hnonempty : ∀ x : Vector UInt8 4,(x.toList.map fun b => Nat.toDigits 10 b.toNat)≠[] := by
      intro x
      refine List.ne_nil_of_length_pos ?_
      rw [List.length_map,Vector.length_toList]
      decide
    have hfree : ∀ x : Vector UInt8 4,∀ word∈x.toList.map fun b => Nat.toDigits 10 b.toNat,
        '.'∉word := by
      intro x word hword
      obtain ⟨b,_,rfl⟩ := List.mem_map.mp hword
      exact dot_not_mem b.toNat
    have hwords := joined_injective (hnonempty a) (hnonempty b) (hfree a) (hfree b) htext
    refine Vector.toList_inj.mp (List.map_injective_iff.mpr ?_ hwords)
    intro x y hxy
    have hvalue := congrArg (fun l => Nat.ofDigitChars 10 l 0) hxy
    simp only [Nat.ofDigitChars_ten_toDigits] at hvalue
    exact UInt8.toNat_inj.mp hvalue
  ipv6_injective a b h := by
    have htext : groupedText a=groupedText b := String.ofList_injective h
    have hfree : ∀ x : Address,∀ word∈(groups x).map fun g => Nat.toDigits 16 g.toNat,
        ':'∉word := by
      intro x word hword
      obtain ⟨g,_,rfl⟩ := List.mem_map.mp hword
      exact colon_not_mem g.toNat
    have hnonempty : ∀ x : Address,(groups x).map (fun g => Nat.toDigits 16 g.toNat)≠[] := by
      intro x
      refine List.ne_nil_of_length_pos ?_
      rw [List.length_map,length_groups]
      decide
    have hwords := joined_injective (hnonempty a) (hnonempty b) (hfree a) (hfree b) htext
    refine groups_injective (List.map_injective_iff.mpr ?_ hwords)
    intro g g' hg
    exact UInt16.toNat_inj.mp (hex_injective hg)
  ipv4_chars a c h := by
    change c∈(String.ofList (dottedText a)).toList at h
    rw [String.toList_ofList] at h
    rcases mem_joined h with hdot | ⟨word,hword,hc⟩
    · exact .inr hdot
    · obtain ⟨b,_,rfl⟩ := List.mem_map.mp hword
      exact .inl (Nat.isDigit_of_mem_toDigits (by decide) (by decide) hc)
  ipv6_chars a c h := by
    change c∈(String.ofList (groupedText a)).toList at h
    rw [String.toList_ofList] at h
    rcases mem_joined h with hcolon | ⟨word,hword,hc⟩
    · exact .inr (.inl hcolon)
    · obtain ⟨g,_,rfl⟩ := List.mem_map.mp hword
      obtain ⟨d,hd,rfl⟩ := mem_toDigits (by decide) hc
      exact .inl (isHexDigit_digitChar d hd)

end PlainTexts

end PacketPipe.AddressTexts
