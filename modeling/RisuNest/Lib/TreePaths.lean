import Mathlib.Data.List.Lex
import Mathlib.Data.Sum.Order
import Mathlib.Tactic.Common

/-! Trees of arrays and objects, edited at paths: what a list of edits comes to when every path
refers to the tree before the edits, and the order in which one edit after the other does that. -/
namespace RisuNest
variable {K L : Type}

/-- One step of a path. -/
inductive PathStep (K : Type)
  | key (name : K)
  | index (position : ℕ)
  deriving DecidableEq

namespace PathStep

def toLex : PathStep K → K ⊕ₗ ℕ
  | key k => Sum.inlₗ k
  | index i => Sum.inrₗ i

lemma toLex_injective : Function.Injective (toLex (K := K)) := by
  rintro (k | i) (k' | i') h
  · exact congrArg key (Sum.inl_injective h)
  · cases h
  · cases h
  · exact congrArg index (Sum.inr_injective h)

/-- Keys come before indexes. -/
instance [LinearOrder K] : LinearOrder (PathStep K) := LinearOrder.lift' toLex toLex_injective

lemma index_lt_index [LinearOrder K] {i j : ℕ} :
    (index i : PathStep K) < index j ↔ i < j := Sum.Lex.inr_lt_inr_iff

end PathStep

open PathStep

/-- An object is known by the member of each key. -/
inductive PathTree (K L : Type)
  | leaf (value : L)
  | arr (items : List (PathTree K L))
  | obj (member : K → Option (PathTree K L))

namespace PathTree

/-! ### Edits at one path -/

section
variable [DecidableEq K]

/-- The tree with what the path points at changed. A path that points at nothing changes
nothing. -/
def modifyAt (f : PathTree K L → PathTree K L) : List (PathStep K) → PathTree K L → PathTree K L
  | [], t => f t
  | .key k :: rest, .obj m => .obj (Function.update m k ((m k).map (modifyAt f rest)))
  | .index i :: rest, .arr ts => .arr (ts.modify i (modifyAt f rest))
  | _ :: _, t => t

/-- The tree without one of its members or items. -/
def remove : PathStep K → PathTree K L → PathTree K L
  | .key k, .obj m => .obj (Function.update m k none)
  | .index i, .arr ts => .arr (ts.eraseIdx i)
  | _, t => t

end

def onLeaf (h : L → L) : PathTree K L → PathTree K L
  | .leaf l => .leaf (h l)
  | t => t

/-! ### Edits at many paths -/

mutual
/-- The tree without the places that `P` names and with the leaves changed by `f`; both refer to
the tree by its paths. -/
def edited (P : List (PathStep K) → Bool) (f : List (PathStep K) → L → L) :
    PathTree K L → PathTree K L
  | .leaf l => .leaf (f [] l)
  | .arr ts => .arr (editedItems P f 0 ts)
  | .obj m => .obj fun k =>
    if P [key k] then none
    else editedMember (fun p => P (key k :: p)) (fun p => f (key k :: p)) (m k)

/-- The items from a position on. -/
def editedItems (P : List (PathStep K) → Bool) (f : List (PathStep K) → L → L) :
    ℕ → List (PathTree K L) → List (PathTree K L)
  | _, [] => []
  | i, t :: ts =>
    if P [index i] then editedItems P f (i+1) ts
    else edited (fun p => P (index i :: p)) (fun p => f (index i :: p)) t ::
      editedItems P f (i+1) ts

def editedMember (P : List (PathStep K) → Bool) (f : List (PathStep K) → L → L) :
    Option (PathTree K L) → Option (PathTree K L)
  | none => none
  | some t => some (edited P f t)
end

mutual
theorem edited_none : ∀ t : PathTree K L, edited (fun _ => false) (fun _ l => l) t = t
  | .leaf l => rfl
  | .arr ts => by rw [edited, editedItems_none]
  | .obj m => by
    rw [edited]
    exact congrArg obj (funext fun k => editedMember_none (m k))

theorem editedItems_none : ∀ (i : ℕ) (ts : List (PathTree K L)),
    editedItems (fun _ => false) (fun _ l => l) i ts = ts
  | _, [] => rfl
  | i, t :: ts => by
    rw [editedItems, if_neg (by decide), edited_none, editedItems_none]

theorem editedMember_none : ∀ t : Option (PathTree K L),
    editedMember (fun _ => false) (fun _ l => l) t = t
  | none => rfl
  | some t => by rw [editedMember, edited_none]
end

variable {P P' : List (PathStep K) → Bool} {f f' : List (PathStep K) → L → L}

/-- The same edits at a step and below it. -/
def SameFrom (s : PathStep K) (P P' : List (PathStep K) → Bool)
    (f f' : List (PathStep K) → L → L) : Prop :=
  ∀ p, P' (s :: p) = P (s :: p) ∧ f' (s :: p) = f (s :: p)

lemma SameFrom.below {s : PathStep K} (h : SameFrom s P P' f f') :
    (fun p => P' (s :: p)) = (fun p => P (s :: p)) ∧
      (fun p => f' (s :: p)) = fun p => f (s :: p) :=
  ⟨funext fun p => (h p).1,funext fun p => (h p).2⟩

lemma editedItems_congr {b : ℕ} {ts : List (PathTree K L)}
    (h : ∀ j, b ≤ j → SameFrom (index j) P P' f f') :
    editedItems P' f' b ts = editedItems P f b ts := by
  induction ts generalizing b with
  | nil => rfl
  | cons t ts ih =>
    have hb := h b le_rfl
    have hrest := ih (b := b+1) fun j hj => h j (by omega)
    rw [editedItems, editedItems, (hb []).1, hb.below.1, hb.below.2, hrest]

lemma editedItems_modify {g : PathTree K L → PathTree K L} {b i : ℕ} {ts : List (PathTree K L)}
    (hP : ∀ j, b ≤ j → j ≤ b + i → P [index j] = false) (hi : P' [index (b+i)] = false)
    (h : ∀ j, b ≤ j → j ≠ b + i → SameFrom (index j) P P' f f')
    (hg : ∀ t, g (edited (fun p => P (index (b+i) :: p)) (fun p => f (index (b+i) :: p)) t) =
      edited (fun p => P' (index (b+i) :: p)) (fun p => f' (index (b+i) :: p)) t) :
    (editedItems P f b ts).modify i g = editedItems P' f' b ts := by
  induction ts generalizing b i with
  | nil => exact List.modify_nil ..
  | cons t ts ih =>
    have hb := hP b le_rfl (by omega)
    rw [editedItems, editedItems, if_neg (Bool.eq_false_iff.mp hb)]
    cases i with
    | zero =>
      have hrest : editedItems P' f' (b+1) ts = editedItems P f (b+1) ts :=
        editedItems_congr fun j hj => h j (by omega) (by omega)
      rw [Nat.add_zero] at hi hg
      rw [List.modify_zero_cons, if_neg (Bool.eq_false_iff.mp hi), hrest]
      exact congrArg (· :: _) (hg t)
    | succ i =>
      have hs := h b le_rfl (by omega)
      have he : b + (i+1) = b + 1 + i := by omega
      rw [he] at hP hi h hg
      rw [List.modify_succ_cons, (hs []).1, if_neg (Bool.eq_false_iff.mp hb), hs.below.1,
        hs.below.2, ih (fun j hj hle => hP j (by omega) hle) hi
          (fun j hj hne => h j (by omega) hne) hg]

lemma editedItems_eraseIdx {b i : ℕ} {ts : List (PathTree K L)}
    (hP : ∀ j, b ≤ j → j ≤ b + i → P [index j] = false) (hi : P' [index (b+i)] = true)
    (h : ∀ j, b ≤ j → j ≠ b + i → SameFrom (index j) P P' f f') :
    (editedItems P f b ts).eraseIdx i = editedItems P' f' b ts := by
  induction ts generalizing b i with
  | nil => rfl
  | cons t ts ih =>
    have hb := hP b le_rfl (by omega)
    rw [editedItems, editedItems, if_neg (Bool.eq_false_iff.mp hb)]
    cases i with
    | zero =>
      have hrest : editedItems P' f' (b+1) ts = editedItems P f (b+1) ts :=
        editedItems_congr fun j hj => h j (by omega) (by omega)
      rw [Nat.add_zero] at hi
      rw [List.eraseIdx_cons_zero, if_pos hi, hrest]
    | succ i =>
      have hs := h b le_rfl (by omega)
      have he : b + (i+1) = b + 1 + i := by omega
      rw [he] at hP hi h
      rw [List.eraseIdx_cons_succ, (hs []).1, if_neg (Bool.eq_false_iff.mp hb), hs.below.1,
        hs.below.2, ih (fun j hj hle => hP j (by omega) hle) hi
          (fun j hj hne => h j (by omega) hne)]

lemma edited_obj_congr {m : K → Option (PathTree K L)}
    (h : ∀ k, SameFrom (key k) P P' f f') : edited P' f' (.obj m) = edited P f (.obj m) := by
  rw [edited, edited]
  refine congrArg obj (funext fun k => ?_)
  rw [(h k []).1, (h k).below.1, (h k).below.2]

lemma edited_arr_congr {ts : List (PathTree K L)}
    (h : ∀ i, SameFrom (index i) P P' f f') : edited P' f' (.arr ts) = edited P f (.arr ts) := by
  rw [edited, edited, editedItems_congr fun j _ => h j]

/-! ### One edit more -/

/-- The edits differ at the path and below it only. -/
def OnlyFrom (q : List (PathStep K)) (P P' : List (PathStep K) → Bool)
    (f f' : List (PathStep K) → L → L) : Prop :=
  ∀ p, ¬ q <+: p → P' p = P p ∧ f' p = f p

lemma OnlyFrom.below {s : PathStep K} {q : List (PathStep K)} (h : OnlyFrom (s :: q) P P' f f') :
    OnlyFrom q (fun p => P (s :: p)) (fun p => P' (s :: p)) (fun p => f (s :: p))
      (fun p => f' (s :: p)) :=
  fun p hp => h (s :: p) fun hpre => hp (List.cons_prefix_cons.mp hpre).2

lemma OnlyFrom.sameFrom {s s' : PathStep K} {q : List (PathStep K)}
    (h : OnlyFrom (s :: q) P P' f f') (hs : s' ≠ s) : SameFrom s' P P' f f' :=
  fun p => h (s' :: p) fun hpre => hs (List.cons_prefix_cons.mp hpre).1.symm


variable [LinearOrder K]

/-- Every removal is at a path behind this one. -/
def Behind (q : List (PathStep K)) (P : List (PathStep K) → Bool) : Prop :=
  ∀ p, P p = true → q < p

lemma Behind.eq_false {q p : List (PathStep K)} (h : Behind q P) (hp : ¬ q < p) : P p = false :=
  Bool.eq_false_iff.mpr fun ht => hp (h p ht)

lemma Behind.below {s : PathStep K} {q : List (PathStep K)} (h : Behind (s :: q) P) :
    Behind q fun p => P (s :: p) := fun p hp => by
  obtain hlt | ⟨-,hlt⟩ := List.cons_lt_cons_iff.mp (h _ hp)
  · exact absurd hlt (lt_irrefl s)
  · exact hlt

lemma Behind.singleton {i j : ℕ} {q : List (PathStep K)} (h : Behind (index i :: q) P)
    (hj : j ≤ i) : P [index j] = false := by
  refine h.eq_false fun hlt => ?_
  obtain hlt | ⟨-,hlt⟩ := List.cons_lt_cons_iff.mp hlt
  · have := PathStep.index_lt_index.mp hlt
    omega
  · exact absurd hlt (List.not_lt_nil _)

/-- A change of what a path points at, where no removal has moved it, is the same change of the
edits below the path. -/
theorem modifyAt_edited {g : PathTree K L → PathTree K L} {q : List (PathStep K)} {t : PathTree K L}
    (hP : Behind q P) (hq : P' q = false) (h : OnlyFrom q P P' f f')
    (hg : ∀ t, g (edited (fun p => P (q ++ p)) (fun p => f (q ++ p)) t) =
      edited (fun p => P' (q ++ p)) (fun p => f' (q ++ p)) t) :
    modifyAt g q (edited P f t) = edited P' f' t := by
  induction q generalizing P P' f f' t with
  | nil => exact hg t
  | cons s q ih =>
    have hstep : ∀ t, modifyAt g q (edited (fun p => P (s :: p)) (fun p => f (s :: p)) t) =
        edited (fun p => P' (s :: p)) (fun p => f' (s :: p)) t :=
      fun t => ih hP.below hq h.below hg
    have hs : P' [s] = false := by
      cases q with
      | nil => exact hq
      | cons s' q =>
        rw [(h [s] fun hpre => by simpa using hpre.length_le).1]
        refine hP.eq_false fun hlt => ?_
        obtain hlt | ⟨-,hlt⟩ := List.cons_lt_cons_iff.mp hlt
        · exact lt_irrefl _ hlt
        · exact List.not_lt_nil _ hlt
    cases t with
    | leaf l =>
      have hl : f' [] = f [] := (h [] fun hpre => by simpa using hpre.length_le).2
      rw [edited, edited, hl]
      cases s <;> rfl
    | arr ts =>
      cases s with
      | key k => exact (edited_arr_congr fun i => h.sameFrom nofun).symm
      | index i =>
        rw [edited, edited, modifyAt]
        refine congrArg arr (editedItems_modify (fun j _ hj => hP.singleton (by omega)) ?_
          (fun j _ hne => h.sameFrom fun he => ?_) ?_)
        · rwa [Nat.zero_add]
        · cases he
          omega
        · rwa [Nat.zero_add]
    | obj m =>
      cases s with
      | index i => exact (edited_obj_congr fun k => h.sameFrom nofun).symm
      | key k =>
        rw [edited, edited, modifyAt]
        refine congrArg obj (funext fun k' => ?_)
        by_cases hk : k' = k
        · subst hk
          have hlt : ¬ (key k' :: q) < [key k'] := fun hlt => by
            obtain hlt | ⟨-,hlt⟩ := List.cons_lt_cons_iff.mp hlt
            · exact lt_irrefl _ hlt
            · exact List.not_lt_nil _ hlt
          rw [Function.update_self, hs, hP.eq_false hlt]
          cases m k' with
          | none => rfl
          | some t => exact congrArg some (hstep t)
        · have hsame : SameFrom (key k') P P' f f' :=
            h.sameFrom fun he => hk (PathStep.key.inj he)
          rw [Function.update_of_ne hk, (hsame []).1, hsame.below.1, hsame.below.2]

/-- The removals with one path more. -/
def mark (q : List (PathStep K)) (P : List (PathStep K) → Bool) : List (PathStep K) → Bool :=
  fun p => decide (p = q) || P p

lemma remove_edited {s : PathStep K} {t : PathTree K L} (hP : Behind [s] P) :
    remove s (edited P f t) = edited (mark [s] P) f t := by
  have hsame : ∀ s', s' ≠ s → SameFrom s' P (mark [s] P) f f := fun s' hne p => by
    refine ⟨?_,rfl⟩
    have : (s' :: p) ≠ [s] := fun he => hne (List.cons.inj he).1
    rw [mark, decide_eq_false this, Bool.false_or]
  have hs : mark [s] P [s] = true := by rw [mark, decide_eq_true rfl, Bool.true_or]
  cases t with
  | leaf l => cases s <;> rfl
  | arr ts =>
    cases s with
    | key k => exact (edited_arr_congr fun i => hsame _ nofun).symm
    | index i =>
      rw [edited, edited, remove]
      refine congrArg arr (editedItems_eraseIdx (fun j _ hj => hP.singleton (by omega)) ?_
        fun j _ hne => hsame _ fun he => ?_)
      · rwa [Nat.zero_add]
      · cases he
        omega
  | obj m =>
    cases s with
    | index i => exact (edited_obj_congr fun k => hsame _ nofun).symm
    | key k =>
      rw [edited, edited, remove]
      refine congrArg obj (funext fun k' => ?_)
      by_cases hk : k' = k
      · subst hk
        rw [Function.update_self, hs, if_pos rfl]
      · have hsame := hsame (key k') fun he => hk (PathStep.key.inj he)
        rw [Function.update_of_ne hk, (hsame []).1, hsame.below.1]

/-! ### Runs of edits -/

/-- The tree without what the path points at. -/
def removeAt (q : List (PathStep K)) (t : PathTree K L) : PathTree K L :=
  match q.getLast? with
  | none => t
  | some last => modifyAt (remove last) q.dropLast t

lemma lt_of_append_lt {q a b : List (PathStep K)} (h : q ++ a < q ++ b) : a < b := by
  induction q with
  | nil => exact h
  | cons s q ih =>
    obtain hlt | ⟨-,hlt⟩ := List.cons_lt_cons_iff.mp h
    · exact absurd hlt (lt_irrefl s)
    · exact ih hlt

lemma lt_append_singleton (q : List (PathStep K)) (s : PathStep K) : q < q ++ [s] := by
  induction q with
  | nil => exact List.nil_lt_cons ..
  | cons s' q ih => exact List.cons_lt_cons_iff.mpr (.inr ⟨rfl,ih⟩)

theorem removeAt_edited {q : List (PathStep K)} {t : PathTree K L} (hq : q ≠ []) (hP : Behind q P) :
    removeAt q (edited P f t) = edited (mark q P) f t := by
  obtain rfl | ⟨parents,last,rfl⟩ := List.eq_nil_or_concat q
  · exact absurd rfl hq
  rw [List.concat_eq_append] at hP ⊢
  have hlt := lt_append_singleton parents last
  rw [removeAt, List.getLast?_concat, List.dropLast_concat]
  refine modifyAt_edited (fun p hp => hlt.trans (hP p hp)) ?_ (fun p hp => ⟨?_,rfl⟩) fun t => ?_
  · rw [mark, decide_eq_false hlt.ne, Bool.false_or]
    exact hP.eq_false hlt.not_gt
  · have hne : p ≠ parents ++ [last] := fun he => hp (he ▸ List.prefix_append ..)
    rw [mark, decide_eq_false hne, Bool.false_or]
  · rw [remove_edited fun p hp => lt_of_append_lt (hP _ hp)]
    congr 1
    funext p
    simp only [mark, List.append_cancel_left_eq]

/-- Removals from the last path backwards take away what the paths point at. -/
theorem foldl_removeAt {qs : List (List (PathStep K))} {t : PathTree K L}
    (hsorted : qs.Pairwise (· > ·)) (hne : ∀ q ∈ qs, q ≠ []) (hP : ∀ q ∈ qs, Behind q P) :
    qs.foldl (fun t q => removeAt q t) (edited P f t) =
      edited (fun p => decide (p ∈ qs) || P p) f t := by
  induction qs generalizing P with
  | nil => rfl
  | cons q qs ih =>
    obtain ⟨hgt,hsorted⟩ := List.pairwise_cons.mp hsorted
    rw [List.foldl_cons, removeAt_edited (hne q List.mem_cons_self) (hP q List.mem_cons_self),
      ih hsorted (fun r hr => hne r (List.mem_cons_of_mem _ hr)) fun r hr p hp => ?_]
    · congr 1
      funext p
      simp only [mark, List.mem_cons, Bool.decide_or]
      rw [← Bool.or_assoc, Bool.or_comm (decide (p ∈ qs))]
    · obtain hp | hp := (Bool.or_eq_true ..).mp hp
      · exact of_decide_eq_true hp ▸ hgt r hr
      · exact hP r (List.mem_cons_of_mem _ hr) p hp

/-- The changes of leaves with one change more. -/
def also (h : L → L) (q : List (PathStep K)) (f : List (PathStep K) → L → L) :
    List (PathStep K) → L → L :=
  fun p l => if p = q then h (f p l) else f p l

lemma modifyAt_onLeaf {h : L → L} {q : List (PathStep K)} {t : PathTree K L} :
    modifyAt (onLeaf h) q (edited (fun _ => false) f t) =
      edited (fun _ => false) (also h q f) t := by
  refine modifyAt_edited (fun _ hp => absurd hp Bool.false_ne_true) rfl
    (fun p hp => ⟨rfl,funext fun l => ?_⟩) fun t => ?_
  · change (if p = q then h (f p l) else f p l) = f p l
    have hpq : p ≠ q := fun he => hp (he ▸ List.prefix_rfl)
    exact if_neg hpq
  · have hne : ∀ s p, also h q f (q ++ s :: p) = f (q ++ s :: p) := fun s p =>
      funext fun l => if_neg fun he => List.cons_ne_nil s p (List.append_right_eq_self.mp he)
    cases t with
    | leaf l =>
      rw [edited, edited, onLeaf]
      exact congrArg leaf (if_pos (List.append_nil q)).symm
    | arr ts =>
      have hts : edited (fun _ => false) (fun p => also h q f (q ++ p)) (arr ts) =
          edited (fun _ => false) (fun p => f (q ++ p)) (arr ts) :=
        edited_arr_congr fun i p => ⟨rfl,hne (index i) p⟩
      rw [hts, edited]
      rfl
    | obj m =>
      have hm : edited (fun _ => false) (fun p => also h q f (q ++ p)) (obj m) =
          edited (fun _ => false) (fun p => f (q ++ p)) (obj m) :=
        edited_obj_congr fun k p => ⟨rfl,hne (key k) p⟩
      rw [hm, edited]
      rfl

/-- Changes of leaves, each path once. -/
theorem foldl_modifyAt {h : List (PathStep K) → L → L} {qs : List (List (PathStep K))}
    {t : PathTree K L} (hnodup : qs.Nodup) :
    qs.foldl (fun t q => modifyAt (onLeaf (h q)) q t) (edited (fun _ => false) f t) =
      edited (fun _ => false) (fun p l => if p ∈ qs then h p (f p l) else f p l) t := by
  induction qs generalizing f with
  | nil => simp only [List.foldl_nil, List.not_mem_nil, if_false]
  | cons q qs ih =>
    obtain ⟨hq,hnodup⟩ := List.nodup_cons.mp hnodup
    rw [List.foldl_cons, modifyAt_onLeaf, ih hnodup]
    congr 1
    funext p l
    by_cases hp : p = q
    · subst hp
      rw [also, if_neg hq, if_pos rfl, if_pos List.mem_cons_self]
    · simp only [also, hp, if_false, List.mem_cons, false_or]

/-- Changes of leaves before removals, which go from the last path backwards: every path refers to
the tree before all of them. -/
theorem runs_eq_edited {h : List (PathStep K) → L → L} {cs rs : List (List (PathStep K))}
    {t : PathTree K L} (hnodup : cs.Nodup) (hsorted : rs.Pairwise (· > ·))
    (hne : ∀ q ∈ rs, q ≠ []) :
    rs.foldl (fun t q => removeAt q t) (cs.foldl (fun t q => modifyAt (onLeaf (h q)) q t) t) =
      edited (fun p => decide (p ∈ rs)) (fun p l => if p ∈ cs then h p l else l) t := by
  have hcuts := foldl_modifyAt (f := fun _ l => l) (h := h) (t := t) hnodup
  rw [edited_none] at hcuts
  rw [hcuts, foldl_removeAt hsorted hne fun _ _ _ h => absurd h Bool.false_ne_true]
  simp only [Bool.or_false]

/-- Edits at one path and below it change what the path points at and nothing else. -/
theorem edited_below {q : List (PathStep K)} {t : PathTree K L} (hq : P q = false)
    (h : ∀ p, ¬ q <+: p → P p = false ∧ f p = fun l => l) :
    edited P f t = modifyAt (edited (fun p => P (q ++ p)) fun p => f (q ++ p)) q t := by
  have := modifyAt_edited (P := fun _ => false) (f := fun _ l => l) (t := t)
    (g := edited (fun p => P (q ++ p)) fun p => f (q ++ p)) nofun hq h fun t => by
      rw [edited_none]
  rw [edited_none] at this
  exact this.symm

end PathTree
end RisuNest
