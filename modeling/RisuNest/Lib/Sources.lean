import RisuNest.Lib.Fallible

/-! Sources that give their items a few at a time. What is filled from one does not depend on how
many items each read gives. -/
namespace RisuNest
variable {α σ ε : Type}

/-- A source that is read: a read of some items fails or gives at most so many of those that are
left, and none only where none are left or none were wanted. -/
structure Source (α σ ε : Type) where
  read : σ → ℕ → Except ε (List α × σ)
  left : σ → List α
  gives : ∀ {s k piece t}, read s k = .ok (piece,t) → piece ++ left t = left s ∧ piece.length ≤ k
  ends : ∀ {s k t}, read s k = .ok ([],t) → k = 0 ∨ left s = []

namespace Source
variable (r : Source α σ ε)

/-- No read fails. -/
def Steady : Prop := ∀ s k, ∃ p, r.read s k = .ok p

/-- Read until so many items came, or no more did. -/
def fill (s : σ) (k : ℕ) : Except ε (List α × σ) :=
  if _ : k = 0 then .ok ([],s)
  else do
    let (piece, t) ← r.read s k
    if _ : piece = [] then pure ([],t)
    else
      let (rest, u) ← fill t (k - piece.length)
      pure (piece ++ rest,u)
termination_by k
decreasing_by
  have := List.length_pos_of_ne_nil ‹_›
  omega

/-- Read so many items, and fail with this where fewer are left. -/
def readExact (short : ε) (s : σ) (k : ℕ) :
    Except ε ({items : List α // items.length = k} × σ) := do
  let (items, t) ← r.fill s k
  if h : items.length = k then pure (⟨items,h⟩,t) else .error short

variable {r}

lemma fill_succ (s : σ) (k : ℕ) : r.fill s (k+1) = (do
    let (piece, t) ← r.read s (k+1)
    if piece = [] then pure ([],t)
    else do
      let (rest, u) ← r.fill t (k + 1 - piece.length)
      pure (piece ++ rest,u)) := by
  rw [fill]
  rfl

/-- What is filled is what was left, up to the number of items. -/
theorem fill_eq_ok {s t : σ} {k : ℕ} {items : List α} (h : r.fill s k = .ok (items,t)) :
    items = (r.left s).take k ∧ r.left t = (r.left s).drop k := by
  induction k using Nat.strongRecOn generalizing s t items with
  | ind k ih =>
    cases k with
    | zero =>
      rw [fill] at h
      cases h
      exact ⟨rfl,rfl⟩
    | succ k =>
      rw [fill_succ] at h
      obtain ⟨⟨piece, u⟩, hread, h⟩ := bind_eq_ok.mp h
      dsimp only at h
      split_ifs at h with hpiece
      · subst hpiece
        cases h
        have hs : r.left s = [] := (r.ends hread).resolve_left (Nat.succ_ne_zero k)
        have ht : [] ++ r.left t = r.left s := (r.gives hread).1
        rw [List.nil_append] at ht
        rw [ht, hs, List.take_nil, List.drop_nil]
        exact ⟨rfl,rfl⟩
      · obtain ⟨⟨rest, v⟩, hfill, h⟩ := bind_eq_ok.mp h
        cases h
        obtain ⟨happend, hle⟩ := r.gives hread
        have hpos := List.length_pos_of_ne_nil hpiece
        obtain ⟨hrest, hv⟩ := ih _ (by omega) hfill
        rw [← happend, List.take_append, List.drop_append, hrest, hv,
          List.take_of_length_le hle, List.drop_of_length_le hle]
        exact ⟨rfl,rfl⟩

/-- A source that does not fail is filled from. -/
theorem exists_fill (hr : r.Steady) (s : σ) (k : ℕ) :
    ∃ t, r.fill s k = .ok ((r.left s).take k,t) ∧ r.left t = (r.left s).drop k := by
  have hok : ∃ p, r.fill s k = .ok p := by
    induction k using Nat.strongRecOn generalizing s with
    | ind k ih =>
      cases k with
      | zero =>
        rw [fill]
        exact ⟨_,rfl⟩
      | succ k =>
        obtain ⟨⟨piece, t⟩, hread⟩ := hr s (k+1)
        rw [fill_succ, hread]
        by_cases hpiece : piece = []
        · exact ⟨([],t),if_pos hpiece⟩
        · have hpos := List.length_pos_of_ne_nil hpiece
          obtain ⟨⟨rest, u⟩, hfill⟩ := ih (k + 1 - piece.length) (by omega) t
          refine ⟨(piece ++ rest,u),(if_neg hpiece).trans ?_⟩
          rw [hfill]
          rfl
  obtain ⟨⟨items, t⟩, hfill⟩ := hok
  obtain ⟨rfl, ht⟩ := fill_eq_ok hfill
  exact ⟨t,hfill,ht⟩

theorem exists_readExact (hr : r.Steady) (short : ε) {s : σ} {k : ℕ} {items rest : List α}
    (hk : items.length = k) (hs : r.left s = items ++ rest) :
    ∃ t, r.readExact short s k = .ok (⟨items,hk⟩,t) ∧ r.left t = rest := by
  obtain ⟨t, hfill, ht⟩ := exists_fill hr s k
  subst hk
  rw [hs, List.take_left] at hfill
  rw [hs, List.drop_left] at ht
  refine ⟨t,?_,ht⟩
  unfold readExact
  rw [hfill]
  exact dif_pos rfl

/-- A source that gives at most so many items and one at a time. -/
def atMost (n : ℕ) : Source α (List α) ε where
  read s k := .ok (s.take (min k (n+1)),s.drop (min k (n+1)))
  left := id
  gives := by
    intro s k piece t h
    cases h
    refine ⟨List.take_append_drop _ _,?_⟩
    rw [List.length_take]
    omega
  ends := by
    intro s k t h
    have htake : s.take (min k (n+1)) = [] := congrArg Prod.fst (Except.ok.inj h)
    rw [List.take_eq_nil_iff] at htake
    exact htake.imp_left (by omega)

lemma atMost_steady (n : ℕ) : (atMost n : Source α (List α) ε).Steady := fun _ _ => ⟨_,rfl⟩

end Source
end RisuNest
