import Mathlib.Logic.Relation
import Mathlib.Tactic.Common

/-! The nodes a list of edges reaches from some roots, computed as a recursive query does: edges
that leave the set found so far add their targets until none is left. -/
namespace RisuNest.Closure
variable {α : Type*} [DecidableEq α]

/-- Grow a set of nodes along the edges, for at most the given number of rounds. -/
def grow : ℕ → List (α × α) → List α → List α
  | 0, _, found => found
  | n+1, edges, found =>
    let leaving := edges.filter fun e => e.1 ∈ found
    if leaving.isEmpty then found
    else grow n (edges.filter fun e => e.1 ∉ found) (found ++ leaving.map Prod.snd)

/-- Every round uses up an edge, so as many rounds as edges are enough. -/
def closure (edges : List (α × α)) (roots : List α) : List α := grow edges.length edges roots

lemma subset_grow (n : ℕ) (edges : List (α × α)) (found : List α) :
    found ⊆ grow n edges found := by
  induction n generalizing edges found with
  | zero => exact List.Subset.refl _
  | succ n ih =>
    rw [grow]
    split_ifs
    · exact List.Subset.refl _
    · exact fun x hx => ih _ _ (List.mem_append_left _ hx)

lemma grow_closed {n : ℕ} {edges : List (α × α)} {found : List α} (hn : edges.length ≤ n)
    {a b : α} (he : (a,b) ∈ edges) (ha : a ∈ grow n edges found) : b ∈ grow n edges found := by
  induction n generalizing edges found with
  | zero =>
    rw [List.length_eq_zero_iff.mp (Nat.le_zero.mp hn)] at he
    cases he
  | succ n ih =>
    rw [grow] at ha ⊢
    split_ifs at ha ⊢ with hl
    · rw [List.isEmpty_iff, List.filter_eq_nil_iff] at hl
      exact absurd (decide_eq_true ha) (hl _ he)
    · by_cases hf : a ∈ found
      · refine subset_grow _ _ _ (List.mem_append_right _ ?_)
        exact List.mem_map.mpr ⟨(a,b),List.mem_filter.mpr ⟨he,by simpa using hf⟩,rfl⟩
      · refine ih ?_ (List.mem_filter.mpr ⟨he,by simpa using hf⟩) ha
        have hlt : (edges.filter fun e => e.1 ∉ found).length < edges.length := by
          rw [List.isEmpty_iff, List.filter_eq_nil_iff] at hl
          push Not at hl
          obtain ⟨e, hm, hp⟩ := hl
          refine List.length_filter_lt_length_iff_exists.mpr ⟨e,hm,?_⟩
          simpa using hp
        omega

theorem closure_closed {edges : List (α × α)} {roots : List α} {a b : α}
    (he : (a,b) ∈ edges) (ha : a ∈ closure edges roots) : b ∈ closure edges roots :=
  grow_closed (Nat.le_refl _) he ha

theorem root_mem_closure {edges : List (α × α)} {roots : List α} {r : α} (hr : r ∈ roots) :
    r ∈ closure edges roots := subset_grow _ _ _ hr

end RisuNest.Closure
