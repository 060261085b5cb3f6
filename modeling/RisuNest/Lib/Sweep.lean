import Mathlib.Data.List.Basic
import Mathlib.Data.List.Perm.Subperm
import Mathlib.Algebra.Order.BigOperators.Group.List
import Mathlib.Algebra.GroupWithZero.Nat
import Mathlib.Algebra.Order.Group.Nat
import Mathlib.Logic.Relation

/-! Elements of a graph one after the other, each once all that lead to it are done. -/
namespace RisuNest
variable {α : Type*} {edge : α → α → Prop}

/-- A list each element of which comes after all that lead to it. -/
inductive Sweep (edge : α → α → Prop) : List α → Prop
  | nil : Sweep edge []
  | snoc {done : List α} {x : α} (sweep : Sweep edge done) (fresh : x ∉ done)
      (ready : ∀ a, edge a x → a ∈ done) : Sweep edge (done ++ [x])

namespace Sweep

lemma nodup {done : List α} (h : Sweep edge done) : done.Nodup := by
  induction h with
  | nil => exact List.nodup_nil
  | snoc _ fresh _ ih =>
    rw [List.nodup_append]
    refine ⟨ih,List.pairwise_singleton _ _,?_⟩
    intro a ha b hb he
    obtain rfl := List.mem_singleton.mp hb
    exact fresh (he ▸ ha)

lemma closed {done : List α} (h : Sweep edge done) {a b : α} (hb : b ∈ done) (he : edge a b) :
    a ∈ done := by
  induction h with
  | nil => cases hb
  | snoc _ _ ready ih =>
    apply List.mem_append_left
    rcases List.mem_append.mp hb with hb | hb
    · exact ih hb
    · obtain rfl := List.mem_singleton.mp hb
      exact ready a he

lemma ancestor_mem {done : List α} (h : Sweep edge done) {a b : α} (hb : b ∈ done)
    (path : Relation.TransGen edge a b) : a ∈ done := by
  induction path using Relation.TransGen.head_induction_on with
  | single he => exact h.closed hb he
  | head he _ ih => exact h.closed ih he

theorem pairwise {done : List α} (h : Sweep edge done) :
    done.Pairwise fun x y => ¬ Relation.TransGen edge y x := by
  induction h with
  | nil => exact .nil
  | snoc sweep fresh _ ih =>
    rw [List.pairwise_append]
    refine ⟨ih,List.pairwise_singleton _ _,?_⟩
    intro x hx y hy path
    obtain rfl := List.mem_singleton.mp hy
    exact fresh (sweep.ancestor_mem hx path)

end Sweep

theorem mem_of_sum_eq {all done : List α} (hn : done.Nodup) (hs : done ⊆ all) {f : α → ℕ}
    (h : (done.map f).sum = (all.map f).sum) {a : α} (ha : a ∈ all) (hf : f a ≠ 0) :
    a ∈ done := by
  by_contra hnot
  have hsub : (a :: done).Subperm all := by
    apply List.Nodup.subperm (List.nodup_cons.mpr ⟨hnot,hn⟩)
    exact List.cons_subset.mpr ⟨ha,hs⟩
  obtain ⟨l, hperm, hl⟩ := hsub
  have hle : ((a :: done).map f).sum ≤ (all.map f).sum := by
    rw [← (hperm.map f).sum_eq]
    exact (hl.map f).sum_le_sum fun _ _ => Nat.zero_le _
  rw [List.map_cons, List.sum_cons] at hle
  omega

end RisuNest
