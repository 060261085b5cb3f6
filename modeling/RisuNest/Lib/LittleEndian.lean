import Mathlib.Algebra.Order.Ring.Nat
import Mathlib.Data.List.Basic
import Mathlib.Tactic.Common

/-! Numbers as bytes, the least significant byte first. -/
namespace RisuNest

/-- The low `count` bytes of a number. -/
def toLittleEndian : ℕ → ℕ → List UInt8
  | 0, _ => []
  | count+1, n => UInt8.ofNat n :: toLittleEndian count (n/256)

def littleEndian : List UInt8 → ℕ
  | [] => 0
  | b :: bytes => b.toNat + 256*littleEndian bytes

@[simp] theorem length_toLittleEndian (count n : ℕ) : (toLittleEndian count n).length = count := by
  induction count generalizing n with
  | zero => rfl
  | succ count ih => simp [toLittleEndian, ih]

theorem littleEndian_toLittleEndian (count n : ℕ) :
    littleEndian (toLittleEndian count n) = n % 256^count := by
  induction count generalizing n with
  | zero => simp [toLittleEndian, littleEndian, Nat.mod_one]
  | succ count ih =>
    rw [toLittleEndian, littleEndian, ih, Nat.pow_succ', Nat.mod_mul]
    rfl

theorem littleEndian_lt (bytes : List UInt8) : littleEndian bytes < 256^bytes.length := by
  induction bytes with
  | nil => simp [littleEndian]
  | cons b bytes ih =>
    have hb := b.toNat_lt
    rw [littleEndian, List.length_cons, Nat.pow_succ']
    omega

theorem toLittleEndian_littleEndian (bytes : List UInt8) :
    toLittleEndian bytes.length (littleEndian bytes) = bytes := by
  induction bytes with
  | nil => rfl
  | cons b bytes ih =>
    have hb := b.toNat_lt
    have hdiv : (b.toNat + 256*littleEndian bytes)/256 = littleEndian bytes := by omega
    rw [List.length_cons, littleEndian, toLittleEndian, hdiv, ih]
    congr 1
    apply UInt8.toNat_inj.mp
    rw [UInt8.toNat_ofNat']
    omega

theorem toLittleEndian_inj {count m n : ℕ} (hm : m < 256^count) (hn : n < 256^count) :
    toLittleEndian count m = toLittleEndian count n ↔ m = n := by
  constructor
  · intro h
    have := congrArg littleEndian h
    rwa [littleEndian_toLittleEndian, littleEndian_toLittleEndian, Nat.mod_eq_of_lt hm,
      Nat.mod_eq_of_lt hn] at this
  · intro h
    rw [h]

end RisuNest
