import Mathlib.Data.List.Forall2
import Mathlib.Tactic.Common

/-! Rules for computations that may fail. -/
namespace RisuNest
universe u v
variable {ε : Type u} {α β : Type v}

/-- Stop with an error unless a condition holds. -/
def require (p : Prop) [Decidable p] (e : ε) : Except ε Unit := if p then .ok () else .error e

@[simp] theorem require_eq_ok {p : Prop} [Decidable p] {e : ε} :
    require p e = .ok () ↔ p := by
  unfold require
  split_ifs with h <;> simp [h]

theorem require_eq_error {p : Prop} [Decidable p] {e e' : ε} :
    require p e = .error e' ↔ ¬ p ∧ e = e' := by
  unfold require
  split_ifs with h <;> simp [h]

theorem bind_eq_ok {x : Except ε α} {f : α → Except ε β} {b : β} :
    (x >>= f) = .ok b ↔ ∃ a, x = .ok a ∧ f a = .ok b := by
  cases x with
  | error e => simp [bind, Except.bind]
  | ok a => simp [bind, Except.bind]

theorem bind_eq_error {x : Except ε α} {f : α → Except ε β} {e : ε} :
    (x >>= f) = .error e ↔ x = .error e ∨ ∃ a, x = .ok a ∧ f a = .error e := by
  cases x with
  | error e' => simp [bind, Except.bind]
  | ok a => simp [bind, Except.bind]

theorem require_bind_eq_ok {β : Type} {p : Prop} [Decidable p] {e : ε} {f : Unit → Except ε β}
    {b : β} : (require p e >>= f) = .ok b ↔ p ∧ f () = .ok b := by
  rw [bind_eq_ok]
  constructor
  · rintro ⟨a,ha,hf⟩
    exact ⟨require_eq_ok.mp ha,hf⟩
  · rintro ⟨hp,hf⟩
    exact ⟨(),require_eq_ok.mpr hp,hf⟩

theorem exists_eq_ok {x : Except ε α} (h : x.isOk = true) : ∃ a, x = .ok a := by
  cases x with
  | error e => cases h
  | ok a => exact ⟨a,rfl⟩

theorem mapM_eq_ok {γ : Type v} {f : γ → Except ε β} {l : List γ} {ys : List β} :
    l.mapM f = .ok ys ↔ List.Forall₂ (fun x y => f x = .ok y) l ys := by
  induction l generalizing ys with
  | nil =>
    rw [List.mapM_nil, List.forall₂_nil_left_iff]
    exact ⟨fun h => (Except.ok.inj h).symm,fun h => by rw [h]; rfl⟩
  | cons x l ih =>
    rw [List.mapM_cons, bind_eq_ok, List.forall₂_cons_left_iff]
    constructor
    · rintro ⟨y, hy, h⟩
      obtain ⟨zs, hz, h⟩ := bind_eq_ok.mp h
      cases h
      exact ⟨y,zs,hy,ih.mp hz,rfl⟩
    · rintro ⟨y, zs, hy, hz, rfl⟩
      exact ⟨y,hy,bind_eq_ok.mpr ⟨zs,ih.mpr hz,rfl⟩⟩

theorem mem_of_mapM_eq_ok {γ : Type v} {f : γ → Except ε β} {l : List γ} {ys : List β}
    (h : l.mapM f = .ok ys) (y : β) : y ∈ ys ↔ ∃ x ∈ l, f x = .ok y := by
  have hall := Iff.mp mapM_eq_ok h
  clear h
  induction hall with
  | nil => simp
  | cons hx _ ih =>
    simp only [List.mem_cons, ih, hx, exists_eq_or_imp, Except.ok.injEq]
    rw [eq_comm]

theorem exists_of_mapM_eq_ok {γ : Type v} {f : γ → Except ε β} {l : List γ} {ys : List β}
    (h : l.mapM f = .ok ys) {x : γ} (hx : x ∈ l) : ∃ y, f x = .ok y := by
  have hall := Iff.mp mapM_eq_ok h
  clear h
  induction hall with
  | nil => cases hx
  | cons hy _ ih =>
    cases hx with
    | head => exact ⟨_,hy⟩
    | tail _ hx => exact ih hx

theorem exists_mapM_eq_ok {γ : Type v} {f : γ → Except ε β} {l : List γ}
    (h : ∀ x ∈ l, ∃ y, f x = .ok y) : ∃ ys, l.mapM f = .ok ys := by
  induction l with
  | nil => exact ⟨[],rfl⟩
  | cons x l ih =>
    obtain ⟨y, hy⟩ := h x List.mem_cons_self
    obtain ⟨ys, hys⟩ := ih fun z hz => h z (List.mem_cons_of_mem _ hz)
    exact ⟨y :: ys,by rw [List.mapM_cons, hy, hys]; rfl⟩

theorem forM_eq_ok {γ : Type v} {f : γ → Except ε PUnit} {l : List γ} :
    l.forM f = .ok ⟨⟩ ↔ ∀ x ∈ l, f x = .ok ⟨⟩ := by
  induction l with
  | nil => exact ⟨fun _ => List.forall_mem_nil _,fun _ => rfl⟩
  | cons x l ih =>
    rw [List.forall_mem_cons, ← ih]
    change (f x >>= fun _ => l.forM f) = .ok ⟨⟩ ↔ _
    rw [bind_eq_ok]
    exact ⟨fun ⟨_,hx,h⟩ => ⟨hx,h⟩,fun ⟨hx,h⟩ => ⟨⟨⟩,hx,h⟩⟩

theorem forIn_eq_forM {γ : Type v} (f : γ → Except ε PUnit) (l : List γ) :
    (forIn l PUnit.unit fun x _ => do f x; pure (ForInStep.yield PUnit.unit) : Except ε PUnit) =
      l.forM f := by
  induction l with
  | nil => rfl
  | cons x l ih =>
    change _ = (f x >>= fun _ => l.forM f)
    rw [List.forIn_cons, ← ih]
    cases f x <;> rfl

theorem foldlM_cons_eq_ok {σ : Type u} {γ : Type u} {f : σ → γ → Except ε σ} {s t : σ} {x : γ}
    {l : List γ} : (x :: l).foldlM f s = .ok t ↔ ∃ m, f s x = .ok m ∧ l.foldlM f m = .ok t := by
  rw [List.foldlM_cons, bind_eq_ok]

/-- What each round of a fold preserves holds in the end. -/
theorem foldlM_induct {σ γ : Type u} {f : σ → γ → Except ε σ} {I : List γ → σ → Prop}
    (step : ∀ done s x t, I done s → f s x = .ok t → I (done ++ [x]) t) {l : List γ} {s t : σ}
    (h : I [] s) (hf : l.foldlM f s = .ok t) : I l t := by
  have key : ∀ {rest done : List γ} {s : σ}, I done s → rest.foldlM f s = .ok t →
      I (done ++ rest) t := by
    intro rest
    induction rest with
    | nil =>
      intro done s h hf
      rw [List.foldlM_nil] at hf
      cases hf
      rwa [List.append_nil]
    | cons x rest ih =>
      intro done s h hf
      obtain ⟨m, hm, hf⟩ := foldlM_cons_eq_ok.mp hf
      have := ih (step done s x m h hm) hf
      rwa [List.append_assoc, List.singleton_append] at this
  exact key h hf

/-- A fold goes through when each of its rounds does from what the rounds before preserve. -/
theorem foldlM_total {σ γ : Type u} {f : σ → γ → Except ε σ} {I : List γ → σ → Prop} {l : List γ}
    (step : ∀ done x rest s, l = done ++ x :: rest → I done s →
      ∃ t, f s x = .ok t ∧ I (done ++ [x]) t) {s : σ} (h : I [] s) :
    ∃ t, l.foldlM f s = .ok t ∧ I l t := by
  have key : ∀ rest done s, l = done ++ rest → I done s →
      ∃ t, rest.foldlM f s = .ok t ∧ I l t := by
    intro rest
    induction rest with
    | nil =>
      intro done s hl h
      rw [List.append_nil] at hl
      exact ⟨s,rfl,hl ▸ h⟩
    | cons x rest ih =>
      intro done s hl h
      obtain ⟨m, hm, hi⟩ := step done x rest s hl h
      obtain ⟨t, ht, hi⟩ := ih (done ++ [x]) m (by rw [hl, List.append_assoc]; rfl) hi
      exact ⟨t,foldlM_cons_eq_ok.mpr ⟨m,hm,ht⟩,hi⟩
  exact key l [] s rfl h

end RisuNest
