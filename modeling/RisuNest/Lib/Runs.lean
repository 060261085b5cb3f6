import Mathlib.Logic.Basic

/-! Runs of a machine that takes one event after the other, where a condition is put on the events
of the run. -/
namespace RisuNest.Runs
variable {σ ε : Type*} (step : σ → ε → Option σ)

/-- Runs whose events all meet a condition on the state before them. -/
inductive Run (allowed : σ → ε → Prop) : σ → σ → Prop
  | refl (s : σ) : Run allowed s s
  | step {s t u : σ} {e : ε} (run : Run allowed s t) (ok : allowed t e)
      (next : step t e = some u) : Run allowed s u

/-- The events of a list, one after the other. -/
def steps (s : σ) : List ε → Option σ
  | [] => some s
  | e::es => (step s e).bind fun t => steps t es

/-- Whether all events of a list meet a condition. -/
def MeetAll (allowed : σ → ε → Prop) (s : σ) : List ε → Prop
  | [] => True
  | e::es => allowed s e ∧ ∀ t ∈ step s e, MeetAll allowed t es

instance decidableMeetAll (allowed : σ → ε → Prop) [∀ s e, Decidable (allowed s e)] (s : σ) :
    (es : List ε) → Decidable (MeetAll step allowed s es)
  | [] => .isTrue trivial
  | e::es =>
    have := fun t => decidableMeetAll allowed t es
    inferInstanceAs (Decidable (allowed s e ∧ ∀ t ∈ step s e, MeetAll step allowed t es))

variable {step} {allowed : σ → ε → Prop}

lemma meetAll_true (s : σ) (es : List ε) : MeetAll step (fun _ _ => True) s es := by
  induction es generalizing s with
  | nil => trivial
  | cons e es ih => exact ⟨trivial,fun t _ => ih t⟩

namespace Run

lemma trans {s t u : σ} (h : Run step allowed s t) (k : Run step allowed t u) :
    Run step allowed s u := by
  induction k with
  | refl => exact h
  | step _ ok next ih => exact .step ih ok next

lemma of_steps {s t : σ} {es : List ε} (h : steps step s es = some t)
    (hm : MeetAll step allowed s es) : Run step allowed s t := by
  induction es generalizing s with
  | nil =>
    obtain rfl := Option.some.inj h
    exact .refl s
  | cons e es ih =>
    obtain ⟨u,hu,hv⟩ := Option.bind_eq_some_iff.mp h
    exact (Run.step (.refl s) hm.1 hu).trans (ih hv (hm.2 u hu))

theorem keeps {I : σ → Prop} (hk : ∀ s e t, I s → allowed s e → step s e = some t → I t) {s t : σ}
    (h : Run step allowed s t) (hs : I s) : I t := by
  induction h with
  | refl => exact hs
  | @step t u e _ ok next ih => exact hk t e u ih ok next

end Run
end RisuNest.Runs
