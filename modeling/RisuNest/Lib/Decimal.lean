import Mathlib.Data.String.Basic
import Mathlib.Tactic.Linarith
import Mathlib.Tactic.Common

/-! Decimal texts of natural numbers. Compared by length and then as text they are in numeric
order, so a text column of sequence numbers can be ranged over. -/
namespace RisuNest.Decimal

theorem repr_injective : Function.Injective Nat.repr := by
  intro m n h
  have hd : Nat.toDigits 10 m = Nat.toDigits 10 n := by
    rw [← Nat.toList_repr, ← Nat.toList_repr, h]
  rw [← Nat.ofDigitChars_ten_toDigits (n := m), hd, Nat.ofDigitChars_ten_toDigits]

/-- The value of a text of digits. -/
def value (l : List Char) : ℕ := Nat.ofDigitChars 10 l 0

def Digits (l : List Char) : Prop := ∀ c ∈ l, c.isDigit

lemma value_cons (c : Char) (l : List Char) :
    value (c :: l) = 10^l.length * (c.toNat - 48) + value l := by
  rw [value, Nat.ofDigitChars_cons, Nat.ofDigitChars_eq_ofDigitChars_zero]
  simp [value]

lemma toNat_of_isDigit {c : Char} (h : c.isDigit) : 48 ≤ c.toNat ∧ c.toNat < 58 := by
  simp only [Char.isDigit, Bool.and_eq_true, decide_eq_true_eq, ge_iff_le] at h
  have h1 : (48 : UInt32).toNat ≤ c.val.toNat := UInt32.le_iff_toNat_le.mp h.1
  have h2 : c.val.toNat ≤ (57 : UInt32).toNat := UInt32.le_iff_toNat_le.mp h.2
  change 48 ≤ c.val.toNat ∧ c.val.toNat < 58
  exact ⟨h1,Nat.lt_succ_of_le h2⟩

lemma value_lt {l : List Char} (h : Digits l) : value l < 10^l.length := by
  induction l with
  | nil => simp [value]
  | cons c l ih =>
    have hc := toNat_of_isDigit (h c (by simp))
    have hl := ih fun d hd => h d (by simp [hd])
    have hm : 10^l.length * (c.toNat-48) ≤ 10^l.length * 9 := Nat.mul_le_mul_left _ (by omega)
    rw [value_cons, List.length_cons, pow_succ]
    omega

/-- Digit texts of one length are in the order of their values. -/
theorem lt_iff_value_lt {l m : List Char} (hl : Digits l) (hm : Digits m)
    (h : l.length = m.length) : l < m ↔ value l < value m := by
  induction l generalizing m with
  | nil =>
    obtain rfl := List.length_eq_zero_iff.mp h.symm
    simp
  | cons c l ih =>
    cases m with
    | nil => simp at h
    | cons d m =>
      have hlen : l.length = m.length := by simpa using h
      have hl' : Digits l := fun x hx => hl x (by simp [hx])
      have hm' : Digits m := fun x hx => hm x (by simp [hx])
      have hc := toNat_of_isDigit (hl c (by simp))
      have hd := toNat_of_isDigit (hm d (by simp))
      have bl := value_lt hl'
      have bm := value_lt hm'
      rw [hlen] at bl
      rw [List.cons_lt_cons_iff, ih hl' hm' hlen, value_cons, value_cons, hlen]
      rcases lt_trichotomy c.toNat d.toNat with hcd | hcd | hcd
      · have hlt : c < d := hcd
        have hmul : 10^m.length * (c.toNat-48) + 10^m.length ≤ 10^m.length * (d.toNat-48) := by
          rw [← Nat.mul_succ]
          exact Nat.mul_le_mul_left _ (by omega)
        exact iff_of_true (Or.inl hlt) (by omega)
      · have heq : c = d := Char.toNat_inj.mp hcd
        subst heq
        simp
      · have hlt : d < c := hcd
        have hmul : 10^m.length * (d.toNat-48) + 10^m.length ≤ 10^m.length * (c.toNat-48) := by
          rw [← Nat.mul_succ]
          exact Nat.mul_le_mul_left _ (by omega)
        refine iff_of_false ?_ (by omega)
        rintro (h' | ⟨rfl, -⟩)
        · exact lt_asymm hlt h'
        · exact lt_irrefl _ hlt

lemma digits_repr (n : ℕ) : Digits n.repr.toList := by
  intro c hc
  rw [Nat.toList_repr] at hc
  exact Nat.isDigit_of_mem_toDigits (by decide) (by decide) hc

@[simp] lemma value_repr (n : ℕ) : value n.repr.toList = n := by
  rw [Nat.toList_repr, value, Nat.ofDigitChars_ten_toDigits]

lemma length_repr_le_iff (n : ℕ) {k : ℕ} (hk : 0 < k) :
    n.repr.toList.length ≤ k ↔ n < 10^k := by
  rw [Nat.toList_repr]
  exact Nat.length_toDigits_le_iff (by decide) hk

lemma length_repr_pos (n : ℕ) : 0 < n.repr.toList.length := by
  rw [Nat.toList_repr]
  exact Nat.length_toDigits_pos

/-- `(length(a),a) < (length(b),b)` of two text columns. -/
def textLt (a b : String) : Bool :=
  decide (a.toList.length < b.toList.length ∨ a.toList.length = b.toList.length ∧ a < b)

/-- `(length(a),a) <= (length(b),b)` of two text columns. -/
def textLe (a b : String) : Bool := !textLt b a

/-- Comparing decimal texts by length and text compares the numbers. -/
@[simp] theorem textLt_repr (m n : ℕ) : textLt m.repr n.repr = decide (m < n) := by
  rw [textLt, decide_eq_decide, String.lt_iff_toList_lt]
  have hm := length_repr_pos m
  have hn := length_repr_pos n
  rcases lt_trichotomy m.repr.toList.length n.repr.toList.length with h | h | h
  · refine iff_of_true (Or.inl h) ?_
    have h1 := (length_repr_le_iff m hm).mp le_rfl
    have h2 : ¬ n < 10^m.repr.toList.length := by
      rw [← length_repr_le_iff n hm]
      omega
    omega
  · have hv := lt_iff_value_lt (digits_repr m) (digits_repr n) h
    rw [value_repr, value_repr] at hv
    rw [hv]
    exact ⟨fun hh => hh.elim (fun hlt => absurd hlt (by omega)) And.right,fun hh => Or.inr ⟨h,hh⟩⟩
  · have h1 := (length_repr_le_iff n hn).mp le_rfl
    have h2 : ¬ m < 10^n.repr.toList.length := by
      rw [← length_repr_le_iff m hn]
      omega
    exact iff_of_false (by omega) (by omega)

@[simp] theorem textLe_repr (m n : ℕ) : textLe m.repr n.repr = decide (m ≤ n) := by
  rw [textLe, textLt_repr, ← decide_not, decide_eq_decide, not_lt]

end RisuNest.Decimal
