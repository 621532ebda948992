import Mathlib.Algebra.Group.Int.Defs
import Mathlib.Algebra.Group.Nat.Defs
import Mathlib.Data.Int.Notation

/-!
# Signed machine words and the integers they stand for

An operation on signed words of `w` bits wraps the integer result modulo
`2^w`. It gives the integer result exactly when that fits the word. In C++ the
same condition separates the defined operations from the undefined ones.
-/

namespace PacketPipe.SignedWords

/-- The integer has a signed word of `w` bits. -/
def Fits (w : ℕ) (n : ℤ) : Prop := -2^(w-1)≤n ∧ n<2^(w-1)

instance decidableFits (w : ℕ) (n : ℤ) : Decidable (Fits w n) := inferInstanceAs (Decidable (_∧_))

/-- The range of `int`. -/
theorem fits_32 {n : ℤ} : Fits 32 n ↔ -2147483648≤n ∧ n≤2147483647 := by
  have hpower : (2 : ℤ)^(32-1)=2147483648 := rfl
  rw [Fits,hpower]
  omega

/-- The range of `int64_t`. -/
theorem fits_64 {n : ℤ} : Fits 64 n ↔ -9223372036854775808≤n ∧ n≤9223372036854775807 := by
  have hpower : (2 : ℤ)^(64-1)=9223372036854775808 := rfl
  rw [Fits,hpower]
  omega

/-- Wrapping changes exactly the integers without a word of their own. -/
theorem bmod_eq_iff_fits {w : ℕ} (hw : 0<w) {n : ℤ} : n.bmod (2^w)=n ↔ Fits w n := by
  obtain ⟨k,rfl⟩ := Nat.exists_eq_succ_of_ne_zero (Nat.ne_of_gt hw)
  have hdouble : ((2^(k+1) : ℕ) : ℤ)=2*2^k := by
    rw [Nat.pow_succ,Int.natCast_mul,Int.natCast_pow,Int.mul_comm]
    rfl
  have hself : ((2^(k+1) : ℕ) : ℤ)∣n-n := by
    rw [Int.sub_self]
    exact Int.dvd_zero _
  rw [Int.bmod_eq_iff (Nat.two_pow_pos _),hdouble,Fits,Nat.succ_sub_one]
  generalize (2 : ℤ)^k=half at *
  constructor
  · rintro ⟨hlow,hhigh,_⟩
    omega
  · rintro ⟨hlow,hhigh⟩
    refine ⟨?_,?_,?_⟩
    · omega
    · omega
    · rwa [hdouble] at hself

/-- A count is exact as `int` below 2^31. -/
theorem int32_ofNat_iff {n : ℕ} : (Int32.ofNat n).toInt=n ↔ n<2^31 := by
  have hwrapped : (Int32.ofNat n).toInt=(n : ℤ).bmod (2^32) := Int32.toInt_ofNat'
  rw [hwrapped,bmod_eq_iff_fits (by decide),fits_32]
  omega

/-- A product of `int` is exact when it fits. -/
theorem int32_mul_iff (x y : Int32) :
    (x*y).toInt=x.toInt*y.toInt ↔ Fits 32 (x.toInt*y.toInt) := by
  rw [Int32.toInt_mul]
  exact bmod_eq_iff_fits (by decide)

/-- A product of `int64_t` is exact when it fits. -/
theorem int64_mul_iff (x y : Int64) :
    (x*y).toInt=x.toInt*y.toInt ↔ Fits 64 (x.toInt*y.toInt) := by
  rw [Int64.toInt_mul]
  exact bmod_eq_iff_fits (by decide)

/-- A sum of `int64_t` is exact when it fits. -/
theorem int64_add_iff (x y : Int64) :
    (x+y).toInt=x.toInt+y.toInt ↔ Fits 64 (x.toInt+y.toInt) := by
  rw [Int64.toInt_add]
  exact bmod_eq_iff_fits (by decide)

/-- A difference of `int64_t` is exact when it fits. -/
theorem int64_sub_iff (x y : Int64) :
    (x-y).toInt=x.toInt-y.toInt ↔ Fits 64 (x.toInt-y.toInt) := by
  rw [Int64.toInt_sub]
  exact bmod_eq_iff_fits (by decide)

/-- A difference of `int64_t` is off by a multiple of 2^64. -/
theorem int64_sub_wrapped {x y : Int64} {k : ℤ} (h : Fits 64 (x.toInt-y.toInt+k*2^64)) :
    (x-y).toInt=x.toInt-y.toInt+k*2^64 := by
  rw [fits_64] at h
  have hpower : ((2^64 : ℕ) : ℤ)=2^64 := rfl
  rw [Int64.toInt_sub,Int.bmod_eq_iff (Nat.two_pow_pos _),hpower]
  exact ⟨by omega,by omega,k,by omega⟩

/-- What has elapsed between two words, measured by their difference in 64
bits, compares with the interval as the exact duration does. -/
def Gauged (interval elapsed : ℤ) : Prop :=
  elapsed<2^63 ∧ (-2^63≤elapsed ∨ elapsed+2^64< interval)

instance decidableGauged (interval elapsed : ℤ) : Decidable (Gauged interval elapsed) :=
  inferInstanceAs (Decidable (_∧_))

/-- A duration that fits is measured exactly. -/
theorem Fits.gauged {elapsed : ℤ} (h : Fits 64 elapsed) (interval : ℤ) :
    Gauged interval elapsed := by
  rw [fits_64] at h
  unfold Gauged
  omega

/-- From a reading that is not negative, only such a duration is. -/
theorem gauged_iff_fits {interval : ℤ} {x y : Int64} (hx : 0≤x.toInt) :
    Gauged interval (x.toInt-y.toInt) ↔ Fits 64 (x.toInt-y.toInt) := by
  have hy := y.toInt_lt
  rw [fits_64,Gauged]
  omega

/-- The test of the difference against the interval is then exact. -/
theorem Gauged.le_sub_iff {interval x y : Int64} (h : Gauged interval.toInt (x.toInt-y.toInt)) :
    interval≤x-y ↔ interval.toInt≤x.toInt-y.toInt := by
  have hinterval := interval.le_toInt
  have hx := x.le_toInt
  have hy := y.toInt_lt
  rw [Int64.le_iff_toInt_le]
  obtain ⟨hhigh,hlow | hwrapped⟩ := h
  · rw [(int64_sub_iff x y).mpr (fits_64.mpr (by omega))]
  · by_cases hfits : -2^63≤x.toInt-y.toInt
    · rw [(int64_sub_iff x y).mpr (fits_64.mpr (by omega))]
    · rw [int64_sub_wrapped (k := 1) (fits_64.mpr (by omega))]
      omega

/-- And only then, for an interval that is positive. -/
theorem gauged_iff {interval x y : Int64} (hinterval : 0< interval.toInt) :
    (interval≤x-y ↔ interval.toInt≤x.toInt-y.toInt) ↔
      Gauged interval.toInt (x.toInt-y.toInt) := by
  refine ⟨fun htest => ?_,Gauged.le_sub_iff⟩
  have hbound := interval.toInt_lt
  have hx := x.le_toInt
  have hx' := x.toInt_lt
  have hy := y.le_toInt
  have hy' := y.toInt_lt
  rw [Int64.le_iff_toInt_le] at htest
  by_cases hhigh : x.toInt-y.toInt<2^63
  · by_cases hlow : -2^63≤x.toInt-y.toInt
    · exact ⟨hhigh,Or.inl hlow⟩
    · rw [int64_sub_wrapped (k := 1) (fits_64.mpr (by omega))] at htest
      exact ⟨hhigh,Or.inr (by omega)⟩
  · rw [int64_sub_wrapped (k := -1) (fits_64.mpr (by omega))] at htest
    omega

/-- The larger of two `int` is the larger integer. -/
theorem int32_max (x y : Int32) : (max x y).toInt=max x.toInt y.toInt := by
  have hmax : max x y=if x≤y then y else x := rfl
  rw [hmax,Int.max_def]
  by_cases h : x≤y
  · rw [if_pos h,if_pos (Int32.le_iff_toInt_le.mp h)]
  · rw [if_neg h,if_neg (mt Int32.le_iff_toInt_le.mpr h)]

/-- The smaller of two `int` is the smaller integer. -/
theorem int32_min (x y : Int32) : (min x y).toInt=min x.toInt y.toInt := by
  have hmin : min x y=if x≤y then x else y := rfl
  rw [hmin,Int.min_def]
  by_cases h : x≤y
  · rw [if_pos h,if_pos (Int32.le_iff_toInt_le.mp h)]
  · rw [if_neg h,if_neg (mt Int32.le_iff_toInt_le.mpr h)]

end PacketPipe.SignedWords
