import Mathlib.Data.List.Basic
import Mathlib.Tactic.Common

/-! Sections: lists of durable writes that a failure may cut short after any of them. -/
namespace RisuNest
universe u v

section
variable {σ : Type u} {ω : Type v} (apply : σ → ω → σ)

/-- The state after some writes. -/
def written (s : σ) (ws : List ω) : σ := ws.foldl apply s

@[simp] theorem written_nil (s : σ) : written apply s [] = s := rfl

@[simp] theorem written_cons (s : σ) (w : ω) (ws : List ω) :
    written apply s (w :: ws) = written apply (apply s w) ws := rfl

theorem written_append (s : σ) (ws vs : List ω) :
    written apply s (ws ++ vs) = written apply (written apply s ws) vs :=
  List.foldl_append

/-- Two sections, the second of which reads what the first wrote. -/
def andThen (a b : σ → List ω) (s : σ) : List ω := a s ++ b (written apply s (a s))

/-- An invariant that holds wherever the writes stop. -/
def Along (I : σ → Prop) (s : σ) (ws : List ω) : Prop := ∀ k, I (written apply s (ws.take k))

variable {apply} {I : σ → Prop} {s : σ}

theorem along_nil : Along apply I s ([] : List ω) ↔ I s := by
  unfold Along
  simp

theorem along_cons {w : ω} {ws : List ω} :
    Along apply I s (w :: ws) ↔ I s ∧ Along apply I (apply s w) ws := by
  constructor
  · intro h
    exact ⟨h 0,fun k => h (k+1)⟩
  · rintro ⟨hs, h⟩ k
    cases k with
    | zero => exact hs
    | succ k => exact h k

theorem Along.start {ws : List ω} (h : Along apply I s ws) : I s := h 0

theorem Along.finish {ws : List ω} (h : Along apply I s ws) : I (written apply s ws) := by
  have := h ws.length
  rwa [List.take_length] at this

theorem along_append {ws vs : List ω} :
    Along apply I s (ws ++ vs) ↔ Along apply I s ws ∧ Along apply I (written apply s ws) vs := by
  induction ws generalizing s with
  | nil =>
    rw [List.nil_append, written_nil, along_nil]
    exact ⟨fun h => ⟨h.start,h⟩,fun h => h.2⟩
  | cons w ws ih => rw [List.cons_append, along_cons, along_cons, ih, written_cons, and_assoc]

theorem Along.andThen {a b : σ → List ω} (ha : Along apply I s (a s))
    (hb : I (written apply s (a s)) →
      Along apply I (written apply s (a s)) (b (written apply s (a s)))) :
    Along apply I s (andThen apply a b s) :=
  along_append.mpr ⟨ha,hb ha.finish⟩

theorem along_of_kept {ws : List ω} (hs : I s) (h : ∀ w ∈ ws, ∀ t, I t → I (apply t w)) :
    Along apply I s ws := by
  induction ws generalizing s with
  | nil => exact along_nil.mpr hs
  | cons w ws ih =>
    obtain ⟨hw, hws⟩ := List.forall_mem_cons.mp h
    exact along_cons.mpr ⟨hs,ih (hw s hs) hws⟩

theorem Along.imp {J : σ → Prop} {ws : List ω} (h : Along apply I s ws) (hij : ∀ t, I t → J t) :
    Along apply J s ws :=
  fun k => hij _ (h k)

end
end RisuNest
