import Mathlib.Algebra.Order.Group.Nat
import Mathlib.Algebra.Order.Ring.Nat
import Mathlib.Data.Nat.Log
import Mathlib.Tactic.Common
import Mathlib.Tactic.Ring
import Mathlib.Tactic.NormNum

/-! Binary floating point numbers of 64 bits: the place of a unit among so many is one of them. -/
namespace RisuNest
open Float.Model Float.Model.UnpackedFloat

/-- Mantissa and exponent of a number of 64 bits. -/
def FitsDouble : UnpackedFloat → Prop
  | .finite _ m e _ => m < 2^53 ∧ -1074 ≤ e ∧ e ≤ 971 ∧ (2^52 ≤ m ∨ e = -1074)
  | _ => True

/-- `f64` -/
structure Double where
  value : UnpackedFloat
  fits : FitsDouble value

namespace Doubles

def isFinite : UnpackedFloat → Bool
  | .finite _ _ _ _ => true
  | .zero _ => true
  | _ => false

/-- A natural number as `f64`. -/
def ofNat (n : ℕ) : UnpackedFloat := UnpackedFloat.ofNat Format.binary64 n

def mul (x y : UnpackedFloat) : UnpackedFloat := UnpackedFloat.mul Format.binary64 x y

/-- `f64::floor`, and as a `usize` of 64 bits. -/
def floorToNat (x : UnpackedFloat) : ℕ := min (x.toInt 0 (2^64 - 1)).toNat (2^64 - 1)

/-! ### Rounding -/

lemma mantissa_shift (em : ExtendedMantissa) (s : ℕ) :
    (em >>> s).mantissa = em.mantissa/2^s := by
  induction s with
  | zero => exact (Nat.div_one _).symm
  | succ s ih =>
    change (em >>> s).mantissa/2 = _
    rw [ih, Nat.div_div_eq_div_mul, Nat.pow_succ]

lemma roundBit_shift (em : ExtendedMantissa) (s : ℕ) :
    (em >>> (s+1)).roundBit = (em.mantissa/2^s % 2 != 0) := by
  change ((em >>> s).mantissa % 2 != 0) = _
  rw [mantissa_shift]

lemma roundedMantissa_le (em : ExtendedMantissa) :
    em.roundedMantissa ≤ em.mantissa + em.roundBit.toNat := by
  obtain ⟨m,round,sticky⟩ := em
  cases round <;> cases sticky
  · exact le_rfl
  · exact le_rfl
  · exact Nat.add_le_add_left (Nat.le_of_lt_succ (Nat.mod_lt m Nat.two_pos)) m
  · exact le_rfl

lemma rounded_shift_le (m s : ℕ) :
    (ExtendedMantissa.mk m false false >>> (s+1)).roundedMantissa*2^(s+1) ≤ m + 2^s := by
  have hle := roundedMantissa_le (ExtendedMantissa.mk m false false >>> (s+1))
  rw [mantissa_shift, roundBit_shift] at hle
  dsimp only at hle
  have hbit : (m/2^s % 2 != 0).toNat = m/2^s % 2 := by
    cases Nat.mod_two_eq_zero_or_one (m/2^s) with
    | inl h => rw [h]; rfl
    | inr h => rw [h]; rfl
  have hhalf := Nat.div_add_mod (m/2^s) 2
  have hpow : 2^(s+1) = 2^s*2 := pow_succ 2 s
  rw [hbit, hpow] at hle
  rw [Nat.div_div_eq_div_mul] at hhalf
  rw [hpow]
  have hbits : m/2^s % 2 ≤ 1 := Nat.le_of_lt_succ (Nat.mod_lt _ Nat.two_pos)
  generalize (ExtendedMantissa.mk m false false >>> (s+1)).roundedMantissa = r at hle ⊢
  generalize m/2^s % 2 = b at *
  generalize m/(2^s*2) = q at *
  calc r*(2^s*2) ≤ (q+b)*(2^s*2) := Nat.mul_le_mul_right _ hle
    _ = 2^s*(2*q + b) + 2^s*b := by ring
    _ ≤ m + 2^s := by
      rw [hhalf]
      apply Nat.add_le_add (Nat.mul_div_le m (2^s))
      exact (Nat.mul_le_mul_left _ hbits).trans_eq (Nat.mul_one _)

lemma rounded_exact (m s : ℕ) (h : 2^s ∣ m) :
    (ExtendedMantissa.mk m false false >>> s).roundedMantissa*2^s ≤ m := by
  cases s with
  | zero => exact (Nat.mul_one _).le
  | succ s =>
    have hle := roundedMantissa_le (ExtendedMantissa.mk m false false >>> (s+1))
    rw [mantissa_shift, roundBit_shift] at hle
    dsimp only at hle
    have heven : m/2^s % 2 = 0 := by
      obtain ⟨k, rfl⟩ := h
      rw [Nat.pow_succ, Nat.mul_assoc, Nat.mul_div_cancel_left _ (Nat.two_pow_pos s)]
      exact Nat.mul_mod_right 2 k
    rw [heven] at hle
    exact (Nat.mul_le_mul_right _ hle).trans (Nat.div_mul_le_self m _)

/-! ### Exponents -/

/-- How far a mantissa is shifted. -/
def shiftOf (m : ℕ) (e : ℤ) : ℕ := (max ((m.log2 : ℤ) + 1 + e - 53) (-1074) - e).toNat

lemma roundWithAccuracy_eq (s : Sign) (m : ℕ) (e : ℤ) :
    roundWithAccuracy Format.binary64 s m e .exact =
      let r := (ExtendedMantissa.mk m false false >>> shiftOf m e).roundedMantissa
      let e' := e + shiftOf m e
      let r' := (ExtendedMantissa.mk r false false >>> shiftOf r e').mantissa
      if h : r' = 0 then .zero s
      else .finite s r' (e' + shiftOf r e') (Nat.pos_of_ne_zero h) := rfl

lemma log2_lt {m : ℕ} (h : m < 2^53) : m.log2 < 53 := by
  by_cases hm : m = 0
  · rw [hm]
    decide
  · exact (Nat.log2_lt hm).mpr h

lemma shiftOf_small {m : ℕ} {e : ℤ} (hm : m < 2^53) (he : -1074 ≤ e) : shiftOf m e = 0 := by
  have := log2_lt hm
  unfold shiftOf
  omega

lemma round_small (s : Sign) {m : ℕ} {e : ℤ} (hpos : 0 < m) (hm : m < 2^53) (he : -1074 ≤ e) :
    roundWithAccuracy Format.binary64 s m e .exact = .finite s m e hpos := by
  rw [roundWithAccuracy_eq, shiftOf_small hm he]
  have hsame : (ExtendedMantissa.mk m false false >>> 0).roundedMantissa = m := rfl
  rw [hsame]
  dsimp only
  have he' : e + ((0 : ℕ) : ℤ) = e := by omega
  rw [he', shiftOf_small hm he]
  have hmantissa : (ExtendedMantissa.mk m false false >>> 0).mantissa = m := rfl
  have hfinite : ∀ (m' : ℕ) (e' : ℤ) (h : 0 < m'), m' = m → e' = e →
      UnpackedFloat.finite s m' e' h = .finite s m e hpos := by
    rintro _ _ _ rfl rfl
    rfl
  rw [dif_neg (hmantissa.trans_ne hpos.ne')]
  exact hfinite _ _ _ hmantissa he'

lemma ofNat_eq {n : ℕ} (hpos : 0 < n) (hn : n < 2^53) : ∃ (j : ℕ) (h : 0 < n*2^j),
    ofNat n = .finite .positive (n*2^j) (-(j : ℤ)) h := by
  have hlog := log2_lt hn
  obtain ⟨j, hj⟩ : ∃ j, n.log2 + j = 52 := ⟨52 - n.log2,by omega⟩
  have hlt : n*2^j < 2^53 := by
    have h := Nat.lt_log2_self (n := n)
    calc n*2^j < 2^(n.log2 + 1)*2^j := Nat.mul_lt_mul_of_pos_right h (Nat.two_pow_pos j)
      _ = 2^53 := by rw [← pow_add]; congr 1; omega
  have hpos' : 0 < n*2^j := Nat.mul_pos hpos (Nat.two_pow_pos j)
  refine ⟨j,hpos',?_⟩
  have hgt : compare (n : ℤ) 0 = .gt := by
    rw [compare_gt_iff_gt]
    omega
  have hround : ofNat n = UnpackedFloat.round Format.binary64 .positive n 0 := by
    change (match compare (n : ℤ) 0 with | .lt => _ | .eq => _ | .gt => _) = _
    rw [hgt]
    rfl
  have hshift : (0 - max ((n.log2 : ℤ) + 1 + 0 - 53) (-1074)).toNat = j := by omega
  rw [hround]
  change roundWithAccuracy Format.binary64 .positive
    (n <<< (0 - max ((n.log2 : ℤ) + 1 + 0 - 53) (-1074)).toNat)
    (0 - ((0 - max ((n.log2 : ℤ) + 1 + 0 - 53) (-1074)).toNat : ℤ)) .exact = _
  rw [hshift, Nat.shiftLeft_eq, Int.zero_sub]
  exact round_small .positive hpos' hlt (by omega)

/-! ### The whole part -/

lemma toInt_finite (m : ℕ) (e c : ℤ) (h : 0 < m) :
    (UnpackedFloat.finite .positive m e h).toInt 0 c =
      ((m*2^e.toNat/2^(-e).toNat : ℕ) : ℤ) := by
  change (((ExtendedMantissa.mk (m <<< (e - 0).toNat) false false >>>
    (0 - (e - ((e - 0).toNat : ℤ))).toNat).mantissa : ℕ) : ℤ) = _
  rw [mantissa_shift]
  dsimp only
  rw [Nat.shiftLeft_eq, Int.sub_zero]
  have hshift : (0 - (e - (e.toNat : ℤ))).toNat = (-e).toNat := by omega
  rw [hshift]

lemma whole_lt {m n k c : ℕ} {e : ℤ} (he : e + k = c) (h : m*2^c < n*2^k) :
    m*2^e.toNat/2^(-e).toNat < n := by
  by_cases hneg : e < 0
  · have hzero : e.toNat = 0 := by omega
    obtain ⟨b, hb⟩ : ∃ b : ℕ, (-e).toNat = b := ⟨_,rfl⟩
    obtain rfl : k = b + c := by omega
    rw [hzero, hb, pow_zero, Nat.mul_one, Nat.div_lt_iff_lt_mul (Nat.two_pow_pos b)]
    rw [pow_add, ← Nat.mul_assoc] at h
    exact Nat.lt_of_mul_lt_mul_right h
  · have hzero : (-e).toNat = 0 := by omega
    obtain ⟨b, hb⟩ : ∃ b : ℕ, e.toNat = b := ⟨_,rfl⟩
    obtain rfl : c = b + k := by omega
    rw [hzero, hb, pow_zero, Nat.div_one]
    rw [pow_add, ← Nat.mul_assoc] at h
    exact Nat.lt_of_mul_lt_mul_right h

lemma rounded_lt {m n k s : ℕ} (hn : m + 2^(s-1) < n*2^k ∨ 2^s ∣ m ∧ m < n*2^k) :
    (ExtendedMantissa.mk m false false >>> s).roundedMantissa*2^s < n*2^k := by
  cases hn with
  | inr h => exact (rounded_exact m s h.1).trans_lt h.2
  | inl h =>
    cases s with
    | zero =>
      have := rounded_exact m 0 (one_dvd m)
      omega
    | succ s => exact (rounded_shift_le m s).trans_lt h

/-- The product of a unit and a number is rounded to less than the number. -/
theorem floor_lt {m n j e : ℕ} (hm : m < 2^53) (hme : m < 2^e) (he : e ≤ 1074) (hpos : 0 < n) :
    floorToNat (roundWithAccuracy Format.binary64 .positive (m*(n*2^j)) (-((e + j : ℕ) : ℤ))
      .exact) < n := by
  have hstep : 0 < n*2^j := Nat.mul_pos hpos (Nat.two_pow_pos j)
  have hroom : (m+1)*(n*2^j) ≤ n*2^(e+j) := by
    calc (m+1)*(n*2^j) ≤ 2^e*(n*2^j) := Nat.mul_le_mul_right _ hme
      _ = n*2^(e+j) := by ring
  rw [Nat.succ_mul] at hroom
  rw [roundWithAccuracy_eq]
  dsimp only
  obtain ⟨s, hs⟩ : ∃ s, shiftOf (m*(n*2^j)) (-((e + j : ℕ) : ℤ)) = s := ⟨_,rfl⟩
  rw [hs]
  have hrounded : (ExtendedMantissa.mk (m*(n*2^j)) false false >>> s).roundedMantissa*2^s <
      n*2^(e+j) := by
    apply rounded_lt
    have hcases : s ≤ j ∨ 0 < s ∧ s + 52 = (m*(n*2^j)).log2 := by
      unfold shiftOf at hs
      omega
    cases hcases with
    | inl hle =>
      -- only zeros are shifted out
      refine .inr ⟨?_,by omega⟩
      exact Dvd.dvd.mul_left (Dvd.dvd.mul_left (Nat.pow_dvd_pow 2 hle) n) m
    | inr hlog =>
      obtain ⟨hs', hlog⟩ := hlog
      left
      have hne : m*(n*2^j) ≠ 0 := by
        intro h
        rw [h] at hlog
        have hnone : Nat.log2 0 = 0 := rfl
        omega
      have hlow : 2^(s+52) ≤ m*(n*2^j) := hlog ▸ Nat.log2_self_le hne
      have hhalf : 2^(s-1)*2^53 < (n*2^j)*2^53 := by
        calc 2^(s-1)*2^53 ≤ 2^(s+52) := by
              rw [← pow_add]
              exact Nat.pow_le_pow_right Nat.two_pos (by omega)
          _ ≤ m*(n*2^j) := hlow
          _ < 2^53*(n*2^j) := Nat.mul_lt_mul_of_pos_right hm hstep
          _ = (n*2^j)*2^53 := Nat.mul_comm ..
      have := Nat.lt_of_mul_lt_mul_right hhalf
      omega
  generalize (ExtendedMantissa.mk (m*(n*2^j)) false false >>> s).roundedMantissa = r at hrounded ⊢
  obtain ⟨t, ht⟩ : ∃ t, shiftOf r (-((e + j : ℕ) : ℤ) + s) = t := ⟨_,rfl⟩
  rw [ht]
  generalize hq : (ExtendedMantissa.mk r false false >>> t).mantissa = q
  rw [mantissa_shift] at hq
  dsimp only at hq
  by_cases hzero : q = 0
  · rw [dif_pos hzero]
    exact hpos
  · rw [dif_neg hzero]
    apply (Nat.min_le_left ..).trans_lt
    rw [toInt_finite, Int.toNat_natCast]
    refine whole_lt (k := e + j) (c := t + s) (by omega) ?_
    calc q*2^(t+s) = r/2^t*2^t*2^s := by rw [← hq, pow_add, Nat.mul_assoc]
      _ ≤ r*2^s := Nat.mul_le_mul_right _ (Nat.div_mul_le_self r _)
      _ < n*2^(e+j) := hrounded

/-- A unit: a number that is not less than zero, and not one or more. -/
def isUnit (x : UnpackedFloat) : Bool :=
  isFinite x && !x.lt (.zero .positive) && !(ofNat 1).le x

lemma isUnit_cases {x : UnpackedFloat} (hfits : FitsDouble x) (h : isUnit x = true) :
    (∃ s, x = .zero s) ∨ ∃ m e hpos, x = .finite .positive m (-((e : ℕ) : ℤ)) hpos ∧
      m < 2^53 ∧ m < 2^e ∧ e ≤ 1074 := by
  simp only [isUnit, Bool.and_eq_true, Bool.not_eq_true'] at h
  obtain ⟨⟨hfinite, hneg⟩, hle⟩ := h
  cases x with
  | infinity s => cases hfinite
  | notANumber => cases hfinite
  | zero s => exact .inl ⟨s,rfl⟩
  | finite s m e hpos =>
    cases s with
    | negative => cases hneg
    | positive =>
      obtain ⟨hm, hmin, -, hnormal⟩ := hfits
      have hunit : ofNat 1 = .finite .positive (2^52) (-52) (Nat.two_pow_pos 52) := by rfl
      rw [hunit] at hle
      have hcompare : ((compare (-52) e).then (compare (2^52) m)).isLE = false := hle
      have hless : e < -52 ∨ e = -52 ∧ m < 2^52 := by
        rcases lt_trichotomy e (-52) with h | h | h
        · exact .inl h
        · rw [compare_eq_iff_eq.mpr h.symm] at hcompare
          refine .inr ⟨h,?_⟩
          by_contra hge
          cases (not_lt.mp hge).lt_or_eq with
          | inl hlt =>
            rw [compare_lt_iff_lt.mpr hlt] at hcompare
            cases hcompare
          | inr heq =>
            rw [compare_eq_iff_eq.mpr heq] at hcompare
            cases hcompare
        · rw [compare_lt_iff_lt.mpr h] at hcompare
          cases hcompare
      obtain ⟨k, rfl⟩ : ∃ k : ℕ, e = -(k : ℤ) := ⟨(-e).toNat,by omega⟩
      refine .inr ⟨m,k,hpos,rfl,hm,?_,by omega⟩
      cases hless with
      | inl h => exact hm.trans_le (Nat.pow_le_pow_right Nat.two_pos (by omega))
      | inr h =>
        obtain rfl : k = 52 := by omega
        exact h.2

/-- The place of a unit among some is one of them. -/
theorem place_lt {x : Double} (h : isUnit x.value = true) {n : ℕ} (hpos : 0 < n) (hn : n < 2^53) :
    floorToNat (mul x.value (ofNat n)) < n := by
  obtain ⟨j, hj, hnat⟩ := ofNat_eq hpos hn
  rw [hnat]
  cases isUnit_cases x.fits h with
  | inl hzero =>
    obtain ⟨s, hs⟩ := hzero
    rw [hs]
    exact hpos
  | inr hfinite =>
    obtain ⟨m, e, hm', hx, hm, hme, he⟩ := hfinite
    rw [hx]
    have hexponent : -(e : ℤ) + -(j : ℤ) = -((e + j : ℕ) : ℤ) := by omega
    change floorToNat (roundWithAccuracy Format.binary64 .positive (m*(n*2^j))
      (-(e : ℤ) + -(j : ℤ)) .exact) < n
    rw [hexponent]
    exact floor_lt hm hme he hpos

end Doubles
end RisuNest
