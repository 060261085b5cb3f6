import Mathlib.Data.List.Basic
import Mathlib.Tactic.Common

/-! Self-delimiting codes: code words that stay recognisable whatever text follows them.
They compose, and they are injective. -/
namespace RisuNest
variable {α β σ : Type*}

/-- No text that starts with one code word also starts with another. -/
def SelfDelimiting (enc : α → List σ) : Prop :=
  ∀ a b r s, enc a ++ r = enc b ++ s → a = b ∧ r = s

/-- No code word starts with the symbol, so the symbol can end a list of them. -/
def NeverStarts (t : σ) (enc : α → List σ) : Prop :=
  ∀ a r s, enc a ++ r ≠ t :: s

namespace SelfDelimiting

theorem injective {enc : α → List σ} (h : SelfDelimiting enc) : Function.Injective enc := by
  intro a b e
  exact (h a b [] [] (by rw [e])).1

theorem of_decoder {enc : α → List σ} (dec : List σ → Option (α × List σ))
    (h : ∀ a r, dec (enc a ++ r) = some (a,r)) : SelfDelimiting enc := by
  intro a b r s e
  have hb := h b s
  rw [← e, h a r, Option.some.injEq, Prod.mk.injEq] at hb
  exact hb

/-- Words followed by a symbol that starts none of them. -/
theorem many {enc : α → List σ} {t : σ} (h : SelfDelimiting enc) (ht : NeverStarts t enc) :
    SelfDelimiting fun l : List α => l.flatMap enc ++ [t] := by
  intro as
  induction as with
  | nil =>
    intro bs r s e
    cases bs with
    | nil => exact ⟨rfl,by simpa using e⟩
    | cons b bs =>
      simp only [List.flatMap_nil, List.nil_append, List.flatMap_cons, List.append_assoc,
        List.cons_append] at e
      exact absurd e.symm (ht b _ _)
  | cons a as ih =>
    intro bs r s e
    cases bs with
    | nil =>
      simp only [List.flatMap_nil, List.nil_append, List.flatMap_cons, List.append_assoc,
        List.cons_append] at e
      exact absurd e (ht a _ _)
    | cons b bs =>
      simp only [List.flatMap_cons, List.append_assoc] at e
      obtain ⟨rfl, e⟩ := h a b _ _ e
      obtain ⟨rfl, rfl⟩ := ih bs r s (by simpa using e)
      exact ⟨rfl,rfl⟩

/-- Words with no end symbol, as long as none is empty. -/
theorem flatMap_injective {enc : α → List σ} (h : SelfDelimiting enc) (hne : ∀ a, enc a ≠ []) :
    Function.Injective fun l : List α => l.flatMap enc := by
  intro as
  induction as with
  | nil =>
    intro bs e
    cases bs with
    | nil => rfl
    | cons b bs =>
      simp only [List.flatMap_nil, List.flatMap_cons] at e
      exact absurd (List.append_eq_nil_iff.mp e.symm).1 (hne b)
  | cons a as ih =>
    intro bs e
    cases bs with
    | nil =>
      simp only [List.flatMap_nil, List.flatMap_cons] at e
      exact absurd (List.append_eq_nil_iff.mp e).1 (hne a)
    | cons b bs =>
      simp only [List.flatMap_cons] at e
      obtain ⟨rfl, h'⟩ := h a b _ _ e
      exact congrArg (a :: ·) (ih h')

theorem cons {enc : α → List σ} (h : SelfDelimiting enc) (t : σ) :
    SelfDelimiting fun a => t :: enc a := by
  intro a b r s e
  exact h a b r s (List.cons.inj e).2

end SelfDelimiting
end RisuNest
