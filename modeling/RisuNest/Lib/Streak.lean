import Mathlib.Data.List.Chain
import Mathlib.Data.List.Infix

/-! The longest run of sightings that ends with the last event of a history, kept as its ends. -/
namespace RisuNest
variable {α : Type*}

/-- `run` is the longest run at the end of a history, where `none` is an event that ends any run
and every sighting of a run follows the one before. -/
structure LongestRun (follows : α → α → Prop) (history : List (Option α)) (run : List α) : Prop where
  isSuffix : run.map some <:+ history
  isChain : run.IsChain follows
  longest : ∀ other : List α, other.map some <:+ history → other.IsChain follows → other <:+ run

namespace Streak
variable (follows : α → α → Prop) [DecidableRel follows]

/-- The first and last sighting of the run after one more event. -/
def step (ends : Option (α × α)) : Option α → Option (α × α)
  | none => none
  | some a => some ((ends.elim a fun e => if follows e.2 a then e.1 else a),a)

def after (history : List (Option α)) : Option (α × α) := history.foldl (step follows) none

/-- The ends of a run. -/
def ends (run : List α) : Option (α × α) :=
  run.head?.bind fun first => run.getLast?.map fun last => (first,last)

@[simp] lemma after_concat (history : List (Option α)) (e : Option α) :
    after follows (history ++ [e]) = step follows (after follows history) e := by
  simp [after]

@[simp] lemma ends_nil : ends ([] : List α) = none := rfl

@[simp] lemma ends_singleton (a : α) : ends [a] = some (a,a) := rfl

lemma ends_concat {run : List α} {first last : α} (h : ends run = some (first,last)) (a : α) :
    ends (run ++ [a]) = some (first,a) := by
  cases run with
  | nil => cases h
  | cons b run =>
    simp only [ends, List.head?_cons, Option.bind_some, Option.map_eq_some_iff, Prod.mk.injEq] at h
    obtain ⟨-, -, rfl, -⟩ := h
    simp [ends, List.getLast?_cons]

lemma ends_eq_none {run : List α} (h : ends run = none) : run = [] := by
  cases run with
  | nil => rfl
  | cons b run => simp [ends, List.getLast?_cons] at h

lemma head?_of_ends {run : List α} {first last : α} (h : ends run = some (first,last)) :
    run.head? = some first := by
  cases run with
  | nil => cases h
  | cons b run =>
    simp only [ends, List.head?_cons, Option.bind_some, Option.map_eq_some_iff, Prod.mk.injEq] at h
    obtain ⟨-, -, rfl, -⟩ := h
    rfl

lemma getLast?_of_ends {run : List α} {first last : α} (h : ends run = some (first,last)) :
    run.getLast? = some last := by
  cases run with
  | nil => cases h
  | cons b run =>
    simp only [ends, List.head?_cons, Option.bind_some, Option.map_eq_some_iff, Prod.mk.injEq] at h
    obtain ⟨_, hl, -, rfl⟩ := h
    exact hl

end Streak

namespace LongestRun
variable {follows : α → α → Prop} {history : List (Option α)} {run : List α}

lemma nil : LongestRun follows [] [] where
  isSuffix := by simp
  isChain := .nil
  longest other h _ := by simpa using h

theorem unique {other : List α} (h : LongestRun follows history run)
    (h' : LongestRun follows history other) : run = other :=
  (h'.longest run h.isSuffix h.isChain).eq_of_length_le
    (h.longest other h'.isSuffix h'.isChain).length_le

lemma suffix_concat_cases {other : List α} {a : α}
    (h : other.map some <:+ history ++ [some a]) :
    other = [] ∨ ∃ before : List α, other = before ++ [a] ∧ before.map some <:+ history := by
  rw [List.suffix_concat_iff] at h
  apply h.imp List.map_eq_nil_iff.mp
  rintro ⟨t, ht, hs⟩
  obtain ⟨before, last, rfl, rfl, hlast⟩ := List.map_eq_append_iff.mp ht
  obtain ⟨b, rfl, hb⟩ := List.map_eq_singleton_iff.mp hlast
  cases hb
  exact ⟨before,rfl,hs⟩

lemma broken (history : List (Option α)) : LongestRun follows (history ++ [none]) [] where
  isSuffix := List.nil_suffix
  isChain := .nil
  longest other h _ := by
    rcases List.suffix_concat_iff.mp h with h | ⟨t, ht, -⟩
    · simp [List.map_eq_nil_iff.mp h]
    · have hn : none ∈ other.map some := by simp [ht]
      simp at hn

lemma extended (h : LongestRun follows history run) {a : α}
    (hf : ∀ last ∈ run.getLast?, follows last a) :
    LongestRun follows (history ++ [some a]) (run ++ [a]) where
  isSuffix := by
    rw [List.map_append, List.map_singleton]
    exact List.suffix_append_self_iff.mpr h.isSuffix
  isChain := h.isChain.append (.singleton a) fun last hl b hb => by
    obtain rfl : a = b := by simpa using hb
    exact hf last hl
  longest other ho hc := by
    obtain rfl | ⟨before, rfl, hb⟩ := suffix_concat_cases ho
    · exact List.nil_suffix
    · exact List.suffix_append_self_iff.mpr (h.longest before hb hc.left_of_append)

lemma restarted (h : LongestRun follows history run) {a last : α} (hl : run.getLast? = some last)
    (hf : ¬ follows last a) : LongestRun follows (history ++ [some a]) [a] where
  isSuffix := by simp
  isChain := .singleton a
  longest other ho hc := by
    obtain rfl | ⟨before, rfl, hb⟩ := suffix_concat_cases ho
    · exact List.nil_suffix
    · have hrun := h.longest before hb hc.left_of_append
      cases hlast : before.getLast? with
      | none => simp [List.getLast?_eq_none_iff.mp hlast]
      | some b =>
        exfalso
        obtain ⟨t, rfl⟩ := hrun
        obtain rfl : b = last := by simpa [List.getLast?_append, hlast] using hl
        exact hf ((List.isChain_append.mp hc).2.2 b hlast a rfl)

end LongestRun

/-- What is kept after a history are the ends of its longest run. -/
theorem Streak.exists_longestRun (follows : α → α → Prop) [DecidableRel follows]
    (history : List (Option α)) :
    ∃ run, LongestRun follows history run ∧ after follows history = ends run := by
  induction history using List.reverseRecOn with
  | nil => exact ⟨[],.nil,rfl⟩
  | append_singleton history e ih =>
    obtain ⟨run, hrun, hends⟩ := ih
    rw [after_concat, hends]
    cases e with
    | none => exact ⟨[],.broken history,rfl⟩
    | some a =>
      cases he : ends run with
      | none =>
        obtain rfl := ends_eq_none he
        exact ⟨[a],hrun.extended (by simp),rfl⟩
      | some kept =>
        obtain ⟨first, last⟩ := kept
        have hl := getLast?_of_ends he
        by_cases hf : follows last a
        · refine ⟨run ++ [a],hrun.extended fun b hb => ?_,?_⟩
          · obtain rfl : last = b := by simpa [hl] using hb
            exact hf
          · simp [step, ends_concat he, hf]
        · exact ⟨[a],hrun.restarted hl hf,by simp [step, hf]⟩

end RisuNest
