import Mathlib.Data.List.Basic
import Mathlib.Tactic.Common

/-! Cutting a list into segments from left to right. When the cut looks at no more than the
segment and the item after it, an edit leaves the segments before it, and what follows a common
boundary after it, as they were. -/
namespace RisuNest.Segments
variable {α : Type*}

/-- Cut a list into segments; `size` says how many items follow the first of a segment. -/
def segments (size : List α → ℕ) : List α → List (List α)
  | [] => []
  | a :: l => (a :: l.take (size (a :: l))) :: segments size (l.drop (size (a :: l)))
termination_by l => l.length
decreasing_by simp only [List.length_drop, List.length_cons]; omega

@[simp] theorem segments_nil (size : List α → ℕ) : segments size [] = [] := by rw [segments]

theorem segments_cons (size : List α → ℕ) (a : α) (l : List α) :
    segments size (a :: l) =
      (a :: l.take (size (a :: l))) :: segments size (l.drop (size (a :: l))) := by
  rw [segments]

@[simp] theorem flatten_segments (size : List α → ℕ) (l : List α) :
    (segments size l).flatten = l := by
  fun_induction segments size l with
  | case1 => rfl
  | case2 a l ih => rw [List.flatten_cons, ih, List.cons_append, List.take_append_drop]

theorem ne_nil_of_mem {size : List α → ℕ} {l s : List α} (h : s ∈ segments size l) : s ≠ [] := by
  fun_induction segments size l with
  | case1 => cases h
  | case2 a l ih =>
    rcases List.mem_cons.mp h with rfl | h
    · exact List.cons_ne_nil _ _
    · exact ih h

theorem forall_mem_segments {size : List α → ℕ} {P : List α → Prop}
    (h : ∀ (a : α) (l : List α), P (a :: l.take (size (a :: l)))) {l s : List α} (hs : s ∈ segments size l) :
    P s := by
  fun_induction segments size l with
  | case1 => cases hs
  | case2 a l ih =>
    rcases List.mem_cons.mp hs with rfl | hs
    · exact h a l
    · exact ih hs

/-- The segments after some first ones are those of the rest of the list. -/
theorem segments_drop {size : List α → ℕ} {l : List α} {P Q : List (List α)}
    (h : segments size l = P ++ Q) : segments size (l.drop P.flatten.length) = Q := by
  induction P generalizing l with
  | nil => simpa using h
  | cons p P ih =>
    cases l with
    | nil =>
      rw [segments_nil] at h
      cases h
    | cons a l =>
      rw [segments_cons] at h
      obtain ⟨rfl, ht⟩ := List.cons.inj h
      rw [← ih ht, List.flatten_cons, List.cons_append, List.length_cons, List.drop_succ_cons,
        List.length_append, List.length_take]
      congr 1
      rcases Nat.le_total (size (a :: l)) l.length with hle | hle
      · rw [Nat.min_eq_left hle, List.drop_drop]
      · rw [Nat.min_eq_right hle, List.drop_eq_nil_of_le hle, List.drop_nil,
          List.drop_eq_nil_of_le (Nat.le_add_right _ _)]

/-- The size of a first segment looks no further than one item beyond it. -/
def Local (size : List α → ℕ) : Prop :=
  ∀ l r r', size (l ++ r) + 1 < l.length → size (l ++ r') = size (l ++ r)

/-- First segments that end before a change stay. -/
theorem segments_append {size : List α → ℕ} (hs : Local size) {l r r' : List α}
    {P Q : List (List α)} (h : segments size (l ++ r) = P ++ Q)
    (hl : P.flatten.length < l.length) :
    segments size (l ++ r') = P ++ segments size ((l ++ r').drop P.flatten.length) := by
  induction P generalizing l with
  | nil => simp
  | cons p P ih =>
    cases l with
    | nil => cases hl
    | cons a l =>
      rw [List.cons_append, segments_cons] at h
      obtain ⟨rfl, ht⟩ := List.cons.inj h
      generalize hn : size (a :: (l ++ r)) = n at ht hl
      have hlen : n < l.length := by
        simp only [List.flatten_cons, List.length_append, List.length_cons, List.length_take] at hl
        omega
      have hsame : size (a :: (l ++ r')) = n := by
        rw [← hn]
        apply hs (a :: l) r r'
        rw [List.cons_append, hn, List.length_cons]
        omega
      have htake : ∀ t : List α, (l ++ t).take n = l.take n := fun t =>
        List.take_append_of_le_length (Nat.le_of_lt hlen)
      have hdrop : ∀ t : List α, (l ++ t).drop n = l.drop n ++ t := fun t =>
        List.drop_append_of_le_length (Nat.le_of_lt hlen)
      rw [hdrop] at ht
      rw [htake, List.flatten_cons, List.length_append, List.length_cons, List.length_cons,
        List.length_take, Nat.min_eq_left (Nat.le_of_lt hlen)] at hl
      rw [List.cons_append, segments_cons, hsame, htake, htake, hdrop,
        ih ht (by rw [List.length_drop]; omega)]
      simp only [List.cons_append, List.flatten_cons, List.length_append, List.length_cons,
        List.length_take, Nat.min_eq_left (Nat.le_of_lt hlen)]
      congr 3
      rw [show n + P.flatten.length + 1 = (n + P.flatten.length) + 1 from rfl,
        List.drop_succ_cons, ← List.drop_drop, hdrop]

end RisuNest.Segments
