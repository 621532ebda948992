import Mathlib.Data.Int.ModEq
import Mathlib.RingTheory.Coprime.Lemmas
import Mathlib.Tactic.Ring

/-!
# Hashes that mix in one byte at a time

A word is combined with each byte by exclusive or and then multiplied by a
fixed odd number, modulo a power of two. Equal continuations lead different
words to different words, so that two byte lists collide only where they
differ. Whether lists that differ in a short window can collide is a question
about the multiplier alone: the differences of the bytes are small, and they
are the digits of a number in the base of the multiplier.
-/

namespace PacketPipe.MultiplyXorHashes

variable {w : ℕ}

/-- Combine the word with the byte, then multiply. -/
def mix (prime h : BitVec w) (byte : BitVec 8) : BitVec w := (h^^^byte.setWidth w)*prime

/-- Mix in the bytes from left to right. -/
def hash (prime h : BitVec w) (bytes : List (BitVec 8)) : BitVec w := bytes.foldl (mix prime) h

/-- The bytes of a concatenation one list after the other. -/
theorem hash_append (prime h : BitVec w) (xs ys : List (BitVec 8)) :
    hash prime h (xs++ys)=hash prime (hash prime h xs) ys := List.foldl_append

/-- An odd number is prime to the modulus. -/
theorem coprime_of_odd {prime : BitVec w} (hodd : prime.toNat%2=1) :
    Nat.Coprime (2^w) prime.toNat := by
  have htwo : Nat.Coprime 2 prime.toNat := by
    rw [Nat.coprime_iff_gcd_eq_one,Nat.gcd_rec,hodd]
    exact Nat.gcd_one_left 2
  exact htwo.pow_left w

/-- An odd factor cancels. -/
theorem mul_odd_cancel {prime : BitVec w} (hodd : prime.toNat%2=1) {x y : BitVec w}
    (h : x*prime=y*prime) : x=y := by
  have hmod : x.toNat*prime.toNat≡y.toNat*prime.toNat [MOD 2^w] := by
    have htoNat := congrArg BitVec.toNat h
    rwa [BitVec.toNat_mul,BitVec.toNat_mul] at htoNat
  have hcancelled := Nat.ModEq.cancel_right_of_coprime (coprime_of_odd hodd) hmod
  apply BitVec.eq_of_toNat_eq
  rwa [Nat.ModEq,Nat.mod_eq_of_lt x.isLt,Nat.mod_eq_of_lt y.isLt] at hcancelled

/-- Different words stay different under equal bytes. -/
theorem hash_cancel {prime : BitVec w} (hodd : prime.toNat%2=1) (bytes : List (BitVec 8))
    {x y : BitVec w} (h : hash prime x bytes=hash prime y bytes) : x=y := by
  induction bytes generalizing x y with
  | nil => exact h
  | cons byte bytes ih =>
    have hmixed : mix prime x byte=mix prime y byte := ih h
    exact (BitVec.xor_left_inj _).mp (mul_odd_cancel hodd hmixed)

/-- How much the exclusive or with a byte adds to the word. -/
def delta (h : BitVec w) (byte : BitVec 8) : ℤ := ((h^^^byte.setWidth w).toNat : ℤ)-h.toNat

/-- Only the lowest eight bits change. -/
theorem delta_bounds (h : BitVec w) (byte : BitVec 8) : -255≤delta h byte ∧ delta h byte≤255 := by
  have hbyte : (byte.setWidth w).toNat/2^8=0 := by
    rw [BitVec.toNat_setWidth]
    exact Nat.div_eq_of_lt ((Nat.mod_le _ _).trans_lt byte.isLt)
  have hhigh : (h^^^byte.setWidth w).toNat/2^8=h.toNat/2^8 := by
    rw [BitVec.toNat_xor,Nat.xor_div_two_pow,hbyte,Nat.xor_zero]
  unfold delta
  omega

/-- The differences of the words' changes, byte by byte. -/
def differences (prime : BitVec w) : BitVec w → BitVec w → List (BitVec 8) → List (BitVec 8) →
    List ℤ
  | x,y,a::as,b::bs =>
    (delta x a-delta y b)::differences prime (mix prime x a) (mix prime y b) as bs
  | _,_,_,_ => []

/-- The value of the digits in the base, behind a leading number. -/
def digits (base : ℤ) (start : ℤ) (es : List ℤ) : ℤ :=
  es.foldl (fun value e => value*base+e) start

section Differences

variable {prime : BitVec w}

/-- There is one for each byte. -/
theorem differences_length (x y : BitVec w) {as bs : List (BitVec 8)}
    (hlength : as.length=bs.length) : (differences prime x y as bs).length=as.length := by
  induction as generalizing x y bs with
  | nil => rfl
  | cons a as ih =>
    cases bs with
    | nil => cases hlength
    | cons b bs => exact congrArg (·+1) (ih _ _ (Nat.succ.inj hlength))

/-- They are small. -/
theorem differences_bounds (x y : BitVec w) (as bs : List (BitVec 8)) :
    ∀ e∈differences prime x y as bs,-510≤e ∧ e≤510 := by
  induction as generalizing x y bs with
  | nil => exact List.forall_mem_nil _
  | cons a as ih =>
    cases bs with
    | nil => exact List.forall_mem_nil _
    | cons b bs =>
      have hx := delta_bounds x a
      have hy := delta_bounds y b
      exact List.forall_mem_cons.mpr ⟨by omega,ih _ _ bs⟩

/-- A word and its residue. -/
theorem mix_modEq (prime h : BitVec w) (byte : BitVec 8) :
    ((mix prime h byte).toNat : ℤ)≡(h.toNat+delta h byte)*prime.toNat [ZMOD 2^w] := by
  have hsum : (h.toNat : ℤ)+delta h byte=(h^^^byte.setWidth w).toNat := by
    unfold delta
    omega
  rw [hsum,mix,BitVec.toNat_mul]
  push_cast
  exact Int.mod_modEq _ _

/-- The difference of two hashes is, up to the multiplier, the number that has
the differences for digits. -/
theorem hash_difference (x y : BitVec w) {as bs : List (BitVec 8)}
    (hlength : as.length=bs.length) {start : ℤ}
    (hstart : (x.toNat : ℤ)-y.toNat≡start*prime.toNat [ZMOD 2^w]) :
    ((hash prime x as).toNat : ℤ)-(hash prime y bs).toNat≡
      digits prime.toNat start (differences prime x y as bs)*prime.toNat [ZMOD 2^w] := by
  induction as generalizing x y bs start with
  | nil =>
    cases bs with
    | nil => exact hstart
    | cons b bs => cases hlength
  | cons a as ih =>
    cases bs with
    | nil => cases hlength
    | cons b bs =>
      refine ih _ _ (Nat.succ.inj hlength) ?_
      have hx := mix_modEq prime x a
      have hy := mix_modEq prime y b
      have hsum := (hstart.add_right (delta x a-delta y b)).mul_right (prime.toNat : ℤ)
      have hmixed := hx.sub hy
      have hregroup : ((x.toNat : ℤ)+delta x a)*prime.toNat-(y.toNat+delta y b)*prime.toNat=
          ((x.toNat : ℤ)-y.toNat+(delta x a-delta y b))*prime.toNat := by ring
      rw [hregroup] at hmixed
      exact hmixed.trans hsum

/-- From one word, no difference means equal bytes. -/
theorem eq_of_differences (h : BitVec w) (hwidth : 8≤w) {as bs : List (BitVec 8)}
    (hlength : as.length=bs.length) (hzero : ∀ e∈differences prime h h as bs,e=0) : as=bs := by
  induction as generalizing h bs with
  | nil => exact (List.length_eq_zero_iff.mp hlength.symm).symm
  | cons a as ih =>
    cases bs with
    | nil => cases hlength
    | cons b bs =>
      obtain ⟨hfirst,hrest⟩ := List.forall_mem_cons.mp hzero
      have hsame : a=b := by
        have hword : h^^^a.setWidth w=h^^^b.setWidth w := by
          apply BitVec.eq_of_toNat_eq
          unfold delta at hfirst
          omega
        have hbytes := (BitVec.xor_right_inj h).mp hword
        have hback := congrArg (BitVec.setWidth 8) hbytes
        rwa [BitVec.setWidth_setWidth_of_le _ hwidth,BitVec.setWidth_setWidth_of_le _ hwidth,
          BitVec.setWidth_eq,BitVec.setWidth_eq] at hback
      subst hsame
      rw [ih (mix prime h a) (Nat.succ.inj hlength) hrest]

end Differences

/-- No `k` small digits, other than zeros, are the digits of a multiple of the
modulus in the base of the multiplier. -/
def Spread (prime : BitVec w) (k : ℕ) : Prop :=
  ∀ es : List ℤ,es.length=k → (∀ e∈es,-510≤e ∧ e≤510) →
    (2^w : ℤ)∣digits prime.toNat 0 es → ∀ e∈es,e=0

/-- Lists as long as the multiplier spreads do not collide. -/
theorem hash_injective {prime : BitVec w} (hwidth : 8≤w) (hodd : prime.toNat%2=1) {k : ℕ}
    (hspread : Spread prime k) (h : BitVec w) {as bs : List (BitVec 8)} (has : as.length=k)
    (hbs : bs.length=k) (hsame : hash prime h as=hash prime h bs) : as=bs := by
  have hlength : as.length=bs.length := has.trans hbs.symm
  have hcount : (differences prime h h as bs).length=k :=
    (differences_length h h hlength).trans has
  have hstart : (h.toNat : ℤ)-h.toNat≡0*prime.toNat [ZMOD 2^w] := by
    rw [sub_self,zero_mul]
  have hdifference := hash_difference h h hlength hstart
  rw [hsame,sub_self] at hdifference
  have hdvd : (2^w : ℤ)∣digits prime.toNat 0 (differences prime h h as bs)*prime.toNat :=
    Int.modEq_zero_iff_dvd.mp hdifference.symm
  have hcoprime : IsCoprime (2^w : ℤ) prime.toNat := by
    have hnat := Nat.isCoprime_iff_coprime.mpr (coprime_of_odd hodd)
    rwa [Nat.cast_pow] at hnat
  have hdigits := hcoprime.dvd_of_dvd_mul_right hdvd
  exact eq_of_differences h hwidth hlength
    (hspread _ hcount (differences_bounds h h as bs) hdigits)

/-- Lists that differ in a window as long as the multiplier spreads do not collide. -/
theorem hash_window {prime : BitVec w} (hwidth : 8≤w) (hodd : prime.toNat%2=1) {k : ℕ}
    (hspread : Spread prime k) (h : BitVec w) {front back as bs : List (BitVec 8)}
    (has : as.length=k) (hbs : bs.length=k)
    (hsame : hash prime h (front++as++back)=hash prime h (front++bs++back)) : as=bs := by
  rw [hash_append,hash_append,hash_append,hash_append] at hsame
  exact hash_injective hwidth hodd hspread _ has hbs (hash_cancel hodd back hsame)

end PacketPipe.MultiplyXorHashes
