import Mathlib.Tactic.Ring
import RisuNest.Wire.Sizes

/-! Sequence numbers as decimal texts (`head.rs`). -/
namespace RisuNest.Wire

/-- The texts that `Sequence::try_from` refuses. -/
def refusesSequence (value : String) : Prop :=
  value.toList = [] ∨ 64 < byteLength value.toList ∨ ¬ value.toList.all Char.isDigit = true ∨
    1 < byteLength value.toList ∧ value.toList.head? = some '0'

instance (value : String) : Decidable (refusesSequence value) := by
  unfold refusesSequence
  infer_instance

/-- `Sequence` -/
structure Sequence where
  text : String
  valid : ¬ refusesSequence text

namespace Sequence

def tryFrom (value : String) : Result Sequence :=
  if h : refusesSequence value then .error ⟨"invalid-sequence"⟩ else .ok ⟨value,h⟩

/-- The loop of `next` over the digits from the last one on. -/
def carry : List Char → List Char
  | [] => ['1']
  | digit :: rest =>
    if digit ≠ '9' then Char.ofNat (digit.toNat + 1) :: rest else '0' :: carry rest

def next (s : Sequence) : Result Sequence :=
  tryFrom (String.ofList (carry s.text.toList.reverse).reverse)

def cmp (a b : Sequence) : Ordering :=
  (compare (byteLength a.text.toList) (byteLength b.text.toList)).then (compare a.text b.text)

/-- The number that a sequence denotes. -/
def toNat (s : Sequence) : ℕ := Decimal.value s.text.toList

/-! ### The texts of sequences -/

lemma digits_of_not_refused {t : String} (h : ¬ refusesSequence t) : Decimal.Digits t.toList := by
  intro c hc
  have hd : t.toList.all Char.isDigit = true := by
    by_contra hn
    exact h (.inr (.inr (.inl hn)))
  exact List.all_eq_true.mp hd c hc

lemma byteLength_digits {l : List Char} (h : Decimal.Digits l) : byteLength l = l.length :=
  byteLength_ascii fun c hc => by
    have := Decimal.toNat_of_isDigit (h c hc)
    omega

/-- Digits without a zero in front. -/
def Plain (l : List Char) : Prop := Decimal.Digits l ∧ l ≠ [] ∧ (1 < l.length → l.head? ≠ some '0')

theorem refusesSequence_iff {l : List Char} (h : Plain l) :
    refusesSequence (String.ofList l) ↔ 64 < l.length := by
  unfold refusesSequence
  rw [String.toList_ofList,byteLength_digits h.1]
  have hall : l.all Char.isDigit = true := List.all_eq_true.mpr h.1
  simp only [h.2.1,hall,not_true_eq_false,false_or]
  exact ⟨fun hr => hr.elim id fun hz => absurd hz.2 (h.2.2 hz.1),Or.inl⟩

lemma plain_text (s : Sequence) : Plain s.text.toList := by
  have hd := digits_of_not_refused s.valid
  refine ⟨hd,fun hn => s.valid (.inl hn),fun hl hz => s.valid (.inr (.inr (.inr ⟨?_,hz⟩)))⟩
  rwa [byteLength_digits hd]

lemma plain_repr (n : ℕ) : Plain n.repr.toList := by
  refine ⟨Decimal.digits_repr n,List.ne_nil_of_length_pos (Decimal.length_repr_pos n),fun hl => ?_⟩
  exact head_repr_ne_zero (by omega)

lemma pow_le_value {l : List Char} (h : Plain l) (hl : 1 < l.length) :
    10^(l.length - 1) ≤ Decimal.value l := by
  cases l with
  | nil => cases hl
  | cons c l =>
    have hc := Decimal.toNat_of_isDigit (h.1 c (List.mem_cons_self ..))
    have h0 : c.toNat ≠ 48 := fun hz => h.2.2 hl (congrArg some (Char.toNat_inj.mp hz))
    have hm : 10^l.length*1 ≤ 10^l.length*(c.toNat - 48) := Nat.mul_le_mul_left _ (by omega)
    rw [Decimal.value_cons,List.length_cons,Nat.add_sub_cancel]
    omega

lemma value_lt_of_length_lt {l m : List Char} (hl : Plain l) (hm : Plain m)
    (h : l.length < m.length) : Decimal.value l < Decimal.value m := by
  have h0 := List.length_pos_of_ne_nil hl.2.1
  have h1 : 10^l.length ≤ 10^(m.length - 1) := Nat.pow_le_pow_right (by decide) (by omega)
  have h2 := Decimal.value_lt hl.1
  have h3 := pow_le_value hm (by omega)
  omega

/-- Numbers are written in one way. -/
theorem eq_of_value_eq {l m : List Char} (hl : Plain l) (hm : Plain m)
    (h : Decimal.value l = Decimal.value m) : l = m := by
  have hlen : l.length = m.length := by
    obtain hlt | he | hgt := lt_trichotomy l.length m.length
    · have := value_lt_of_length_lt hl hm hlt
      omega
    · exact he
    · have := value_lt_of_length_lt hm hl hgt
      omega
  obtain hlt | he | hgt := lt_trichotomy l m
  · have := (Decimal.lt_iff_value_lt hl.1 hm.1 hlen).mp hlt
    omega
  · exact he
  · have := (Decimal.lt_iff_value_lt hm.1 hl.1 hlen.symm).mp hgt
    omega

theorem text_eq (s : Sequence) : s.text = s.toNat.repr := by
  apply String.toList_injective
  apply eq_of_value_eq s.plain_text (plain_repr _)
  rw [Decimal.value_repr]
  rfl

/-! ### The order -/

theorem cmp_eq (a b : Sequence) : a.cmp b = compare a.toNat b.toNat := by
  unfold cmp
  rw [byteLength_digits a.plain_text.1,byteLength_digits b.plain_text.1]
  obtain hlt | he | hgt := lt_trichotomy a.text.toList.length b.text.toList.length
  · rw [compare_lt_iff_lt.mpr hlt]
    exact (compare_lt_iff_lt.mpr (value_lt_of_length_lt a.plain_text b.plain_text hlt)).symm
  · rw [compare_eq_iff_eq.mpr he]
    have hlt (a b : Sequence) (he : a.text.toList.length = b.text.toList.length) :
        a.text < b.text ↔ a.toNat < b.toNat := by
      rw [String.lt_iff_toList_lt]
      exact Decimal.lt_iff_value_lt a.plain_text.1 b.plain_text.1 he
    change compare a.text b.text = _
    obtain h | h | h := lt_trichotomy a.toNat b.toNat
    · rw [compare_lt_iff_lt.mpr h]
      exact compare_lt_iff_lt.mpr ((hlt a b he).mpr h)
    · rw [compare_eq_iff_eq.mpr h,compare_eq_iff_eq,text_eq a,text_eq b,h]
    · rw [compare_gt_iff_gt.mpr h]
      exact compare_gt_iff_gt.mpr ((hlt b a he.symm).mpr h)
  · rw [compare_gt_iff_gt.mpr hgt]
    exact (compare_gt_iff_gt.mpr (value_lt_of_length_lt b.plain_text a.plain_text hgt)).symm

/-! ### The next one -/

lemma value_concat (l : List Char) (c : Char) :
    Decimal.value (l ++ [c]) = 10*Decimal.value l + (c.toNat - 48) := by
  induction l with
  | nil => rw [List.nil_append,Decimal.value_cons]; simp [Decimal.value]
  | cons d l ih =>
    rw [List.cons_append,Decimal.value_cons,Decimal.value_cons,ih,List.length_append,
      List.length_singleton,pow_succ]
    ring

/-- A digit that is not the last one is followed by another. -/
lemma succ_digit {c : Char} (h : c.isDigit) (h9 : c ≠ '9') :
    (Char.ofNat (c.toNat + 1)).toNat = c.toNat + 1 ∧ c.toNat < 57 := by
  have hc := Decimal.toNat_of_isDigit h
  have hne : c.toNat ≠ 57 := fun hn => h9 (Char.toNat_inj.mp hn)
  refine ⟨?_,by omega⟩
  have hv : (c.toNat + 1).isValidChar := .inl (by omega)
  rw [Char.ofNat,dif_pos hv]
  rfl

lemma isDigit_of_toNat {c : Char} (h : 48 ≤ c.toNat) (h' : c.toNat < 58) : c.isDigit := by
  simp only [Char.isDigit,Bool.and_eq_true,decide_eq_true_eq,ge_iff_le,UInt32.le_iff_toNat_le]
  exact ⟨h,Nat.lt_succ_iff.mp h'⟩

lemma carry_spec {r : List Char} (h : Decimal.Digits r) :
    Decimal.Digits (carry r) ∧
      Decimal.value (carry r).reverse = Decimal.value r.reverse + 1 := by
  induction r with
  | nil => exact ⟨by simp [carry,Decimal.Digits],by decide⟩
  | cons c r ih =>
    have hc := h c (List.mem_cons_self ..)
    have hr : Decimal.Digits r := fun d hd => h d (List.mem_cons_of_mem _ hd)
    unfold carry
    split_ifs with h9
    · obtain ⟨hn,hlt⟩ := succ_digit hc h9
      have h48 := Decimal.toNat_of_isDigit hc
      refine ⟨fun d hd => ?_,?_⟩
      · obtain rfl | hd := List.mem_cons.mp hd
        · exact isDigit_of_toNat (by omega) (by omega)
        · exact hr d hd
      · rw [List.reverse_cons,List.reverse_cons,value_concat,value_concat,hn]
        omega
    · obtain rfl := not_not.mp h9
      refine ⟨fun d hd => ?_,?_⟩
      · obtain rfl | hd := List.mem_cons.mp hd
        · decide
        · exact (ih hr).1 d hd
      · rw [List.reverse_cons,List.reverse_cons,value_concat,value_concat,(ih hr).2]
        have h1 : ('0' : Char).toNat = 48 := rfl
        have h2 : ('9' : Char).toNat = 57 := rfl
        omega

/-- No zero comes to the front: a carry ends in the digit it adds or in front of the others. -/
lemma getLast?_carry {r : List Char} (h : Decimal.Digits r)
    (hlast : 1 < r.length → r.getLast? ≠ some '0') : (carry r).getLast? ≠ some '0' := by
  have hsucc {c : Char} (hc : c.isDigit) (h9 : c ≠ '9') : Char.ofNat (c.toNat + 1) ≠ '0' := by
    intro he
    have h1 := (succ_digit hc h9).1
    have h2 := Decimal.toNat_of_isDigit hc
    rw [he] at h1
    change 48 = _ at h1
    omega
  induction r with
  | nil => simp [carry]
  | cons c r ih =>
    have hc := h c (List.mem_cons_self ..)
    have hr : Decimal.Digits r := fun d hd => h d (List.mem_cons_of_mem _ hd)
    unfold carry
    split_ifs with h9
    · cases r with
      | nil => simpa using hsucc hc h9
      | cons d r =>
        rw [List.getLast?_cons_cons]
        have := hlast (by simp)
        rwa [List.getLast?_cons_cons] at this
    · have hne : carry r ≠ [] := by
        cases r <;> simp only [carry]
        · simp
        · split_ifs <;> simp
      rw [List.getLast?_cons_of_ne_nil hne]
      apply ih hr
      intro hl
      have hr0 : r ≠ [] := List.ne_nil_of_length_pos (by omega)
      have := hlast (by simp; omega)
      rwa [List.getLast?_cons_of_ne_nil hr0] at this

theorem carry_text (s : Sequence) :
    (carry s.text.toList.reverse).reverse = (s.toNat + 1).repr.toList := by
  have hp := s.plain_text
  have hd : Decimal.Digits s.text.toList.reverse := fun c hc => hp.1 c (List.mem_reverse.mp hc)
  obtain ⟨hdigits,hvalue⟩ := carry_spec hd
  rw [List.reverse_reverse] at hvalue
  refine eq_of_value_eq ⟨fun c hc => hdigits c (List.mem_reverse.mp hc),fun hn => ?_,fun _ => ?_⟩
    (plain_repr _) ?_
  · rw [hn] at hvalue
    cases hvalue
  · rw [List.head?_reverse]
    apply getLast?_carry hd
    rw [List.length_reverse,List.getLast?_reverse]
    exact hp.2.2
  · rw [hvalue,Decimal.value_repr]
    rfl

theorem next_eq (s : Sequence) : s.next = tryFrom (s.toNat + 1).repr := by
  unfold next
  rw [carry_text,String.ofList_toList]

lemma refusesSequence_repr (n : ℕ) : refusesSequence n.repr ↔ 10^64 ≤ n := by
  have h := refusesSequence_iff (plain_repr n)
  rw [String.ofList_toList] at h
  rw [h,← not_le,Decimal.length_repr_le_iff n (by decide),not_lt]

/-! ### Machine integers -/

lemma not_refused_of_u64 (n : UInt64) : ¬ refusesSequence n.toNat.repr := by
  rw [refusesSequence_repr]
  have := n.toNat_lt
  omega

/-- `From<u64>` -/
def ofU64 (n : UInt64) : Sequence := ⟨n.toNat.repr,not_refused_of_u64 n⟩

/-- The digits of `str::parse::<u64>`, with its checks for overflow. -/
def parseDigits (value : ℕ) : List Char → Option ℕ
  | [] => some value
  | c :: rest =>
    if c.isDigit then
      if value*10 < 2^64 ∧ value*10 + (c.toNat - 48) < 2^64 then
        parseDigits (value*10 + (c.toNat - 48)) rest
      else none
    else none

/-- `str::parse::<u64>` -/
def parseU64 (text : String) : Option UInt64 :=
  let digits := match text.toList with
    | '+' :: rest => rest
    | digits => digits
  if digits = [] then none else (parseDigits 0 digits).map UInt64.ofNat

lemma parseDigits_eq {l : List Char} (h : Decimal.Digits l) {value : ℕ} (hv : value < 2^64) :
    parseDigits value l = if 10^l.length*value + Decimal.value l < 2^64 then
      some (10^l.length*value + Decimal.value l) else none := by
  induction l generalizing value with
  | nil =>
    change some value = if 1*value + 0 < 2^64 then some (1*value + 0) else none
    rw [Nat.one_mul,Nat.add_zero,if_pos hv]
  | cons c l ih =>
    have hl : Decimal.Digits l := fun d hd => h d (List.mem_cons_of_mem _ hd)
    have hval : 10^(c :: l).length*value + Decimal.value (c :: l) =
        10^l.length*(value*10 + (c.toNat - 48)) + Decimal.value l := by
      rw [Decimal.value_cons,List.length_cons,pow_succ]
      ring
    have hle : value*10 + (c.toNat - 48) ≤ 10^l.length*(value*10 + (c.toNat - 48)) :=
      Nat.le_mul_of_pos_left _ (by positivity)
    unfold parseDigits
    rw [if_pos (h c (List.mem_cons_self ..)),hval]
    split_ifs with hb hlt hlt
    · rw [ih hl hb.2,if_pos hlt]
    · rw [ih hl hb.2,if_neg hlt]
    · omega
    · rfl

theorem parseU64_text (s : Sequence) :
    parseU64 s.text = if s.toNat < 2^64 then some (UInt64.ofNat s.toNat) else none := by
  have hp := s.plain_text
  have hplus : (match s.text.toList with
      | '+' :: rest => rest
      | digits => digits) = s.text.toList := by
    split
    · rename_i rest he
      have := hp.1 '+' (by rw [he]; exact List.mem_cons_self ..)
      cases this
    · rfl
  unfold parseU64
  dsimp only
  rw [hplus,if_neg hp.2.1,parseDigits_eq hp.1 (by decide),Nat.mul_zero,Nat.zero_add]
  change Option.map _ (if s.toNat < 2^64 then some s.toNat else none) = _
  split_ifs <;> rfl

/-- Sequences behave as the natural numbers they denote: a sequence is its number's decimal, the
order is the numbers' order, the next one denotes the successor where that has at most 64 digits,
and machine integers are converted from and to the decimal. -/
theorem sequences_are_numbers :
    (∀ s : Sequence, s.text = s.toNat.repr) ∧
    (∀ a b : Sequence, a.cmp b = compare a.toNat b.toNat) ∧
    (∀ s : Sequence, (s.toNat + 1).repr.length ≤ 64 →
      ∃ t, s.next = .ok t ∧ t.text = (s.toNat + 1).repr ∧ t.toNat = s.toNat + 1) ∧
    (∀ s : Sequence, 64 < (s.toNat + 1).repr.length → s.next = .error ⟨"invalid-sequence"⟩) ∧
    (∀ n : UInt64, (ofU64 n).text = n.toNat.repr ∧ (ofU64 n).toNat = n.toNat ∧
      tryFrom n.toNat.repr = .ok (ofU64 n) ∧ parseU64 (ofU64 n).text = some n) ∧
    (∀ s : Sequence, parseU64 s.text =
      if s.toNat < 2^64 then some (UInt64.ofNat s.toNat) else none) := by
  have hlen (n : ℕ) : n.repr.length ≤ 64 ↔ n < 10^64 := by
    rw [← String.length_toList]
    exact Decimal.length_repr_le_iff n (by decide)
  refine ⟨text_eq,cmp_eq,fun s h => ?_,fun s h => ?_,fun n => ?_,parseU64_text⟩
  · have hv : ¬ refusesSequence (s.toNat + 1).repr := by
      rw [refusesSequence_repr,not_le]
      exact (hlen _).mp h
    refine ⟨⟨_,hv⟩,?_,rfl,Decimal.value_repr _⟩
    rw [next_eq,tryFrom,dif_neg hv]
  · rw [next_eq,tryFrom,dif_pos]
    rw [refusesSequence_repr,← not_lt,← hlen]
    omega
  · have hn : (ofU64 n).toNat = n.toNat := Decimal.value_repr _
    refine ⟨rfl,hn,dif_neg (not_refused_of_u64 n),?_⟩
    rw [parseU64_text,hn,if_pos n.toNat_lt,UInt64.ofNat_toNat]

end Sequence
end RisuNest.Wire
