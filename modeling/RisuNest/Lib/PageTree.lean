import Mathlib.Data.List.Forall2
import Mathlib.Data.List.Basic
import Mathlib.Data.List.Nodup
import Mathlib.Data.List.Pairwise
import Mathlib.Order.Basic
import Mathlib.Tactic.Common

/-! Trees of pages that name their children by key: what is below a page, in the order of a walk
from left to right, and what an order of the values says about the pages. -/
namespace RisuNest.PageTree
universe u v
variable {κ : Type u} {α : Type v}

/-- A page holds values, or it names the pages below it. -/
inductive Page (κ : Type u) (α : Type v)
  | leaf (values : List α)
  | branch (children : List κ)

/-- A page that holds something. -/
def Page.Full : Page κ α → Prop
  | .leaf values => values ≠ []
  | .branch children => children ≠ []

/-- What a walk meets from a page on, and the number of levels it goes down. -/
structure Contents (κ : Type u) (α : Type v) where
  visits : List (κ ⊕ α)
  depth : ℕ

namespace Contents

/-- The pages met, each before the pages below it. -/
def pages (c : Contents κ α) : List κ := c.visits.filterMap Sum.getLeft?

/-- The values met. -/
def values (c : Contents κ α) : List α := c.visits.filterMap Sum.getRight?

def ofLeaf (key : κ) (values : List α) : Contents κ α := ⟨.inl key :: values.map .inr,1⟩

/-- A page before what its children lead to. -/
def ofBranch (key : κ) (below : List (Contents κ α)) : Contents κ α :=
  ⟨.inl key :: below.flatMap visits,(below.map depth).foldr max 0 + 1⟩

@[simp] lemma pages_ofLeaf (key : κ) (values : List α) : (ofLeaf key values).pages = [key] := by
  simp [ofLeaf, pages, List.filterMap_map]

@[simp] lemma values_ofLeaf (key : κ) (values : List α) : (ofLeaf key values).values = values := by
  change (Sum.inl key :: values.map Sum.inr).filterMap (Sum.getRight? : κ ⊕ α → Option α) = values
  rw [List.filterMap_cons_none (by rfl), List.filterMap_map]
  exact List.filterMap_some

@[simp] lemma pages_ofBranch (key : κ) (below : List (Contents κ α)) :
    (ofBranch key below).pages = key :: below.flatMap pages := by
  change (Sum.inl key :: below.flatMap visits).filterMap Sum.getLeft? = _
  rw [List.filterMap_cons_some (by rfl), List.filterMap_flatMap]
  rfl

@[simp] lemma values_ofBranch (key : κ) (below : List (Contents κ α)) :
    (ofBranch key below).values = below.flatMap values := by
  change (Sum.inl key :: below.flatMap visits).filterMap Sum.getRight? = _
  rw [List.filterMap_cons_none (by rfl), List.filterMap_flatMap]
  rfl

@[simp] lemma depth_ofLeaf (key : κ) (values : List α) : (ofLeaf key values).depth = 1 := rfl

lemma depth_le_foldr {below : List (Contents κ α)} {c : Contents κ α} (h : c ∈ below) :
    c.depth ≤ (below.map depth).foldr max 0 := by
  induction below with
  | nil => cases h
  | cons b below ih =>
    rw [List.map_cons, List.foldr_cons]
    obtain rfl | h := List.mem_cons.mp h
    · exact Nat.le_max_left ..
    · exact Nat.le_trans (ih h) (Nat.le_max_right ..)

lemma foldr_depth_le {below : List (Contents κ α)} {n : ℕ} (h : ∀ c ∈ below, c.depth ≤ n) :
    (below.map depth).foldr max 0 ≤ n := by
  induction below with
  | nil => exact Nat.zero_le n
  | cons b below ih =>
    rw [List.map_cons, List.foldr_cons]
    rw [List.forall_mem_cons] at h
    exact Nat.max_le.mpr ⟨h.1,ih h.2⟩

end Contents

variable (page : κ → Option (Page κ α))

/-- The contents below a page, if all pages are there and at most the given number of levels. -/
def walk : ℕ → κ → Option (Contents κ α)
  | 0, _ => none
  | n+1, key =>
    match page key with
    | none => none
    | some (.leaf values) => some (.ofLeaf key values)
    | some (.branch children) => (children.mapM (walk n)).map (.ofBranch key)

section
variable {page}

lemma mapM_eq_some {β γ : Type*} {f : β → Option γ} {l : List β} {r : List γ} :
    l.mapM f = some r ↔ List.Forall₂ (fun x y => f x = some y) l r := by
  induction l generalizing r with
  | nil => simp [eq_comm]
  | cons x l ih =>
    rw [List.mapM_cons, List.forall₂_cons_left_iff]
    simp only [Option.bind_eq_bind, Option.bind_eq_some_iff, ih, Option.pure_def, Option.some.injEq]
    constructor
    · rintro ⟨y,hy,ys,hys,rfl⟩
      exact ⟨y,ys,hy,hys,rfl⟩
    · rintro ⟨y,ys,hy,hys,rfl⟩
      exact ⟨y,hy,ys,hys,rfl⟩

lemma exists_of_forall₂_right {β γ : Type*} {R : β → γ → Prop} {l : List β} {r : List γ}
    (h : List.Forall₂ R l r) {y : γ} (hy : y ∈ r) : ∃ x ∈ l, R x y := by
  induction h with
  | nil => cases hy
  | cons hxy _ ih =>
    obtain rfl | hy := List.mem_cons.mp hy
    · exact ⟨_,List.mem_cons_self,hxy⟩
    · obtain ⟨x,hx,hr⟩ := ih hy
      exact ⟨x,List.mem_cons_of_mem _ hx,hr⟩

lemma forall₂_append {β γ : Type*} {R : β → γ → Prop} {a b : List β} {r : List γ} :
    List.Forall₂ R (a ++ b) r ↔
      ∃ x y, r = x ++ y ∧ List.Forall₂ R a x ∧ List.Forall₂ R b y := by
  induction a generalizing r with
  | nil => simp
  | cons z a ih =>
    rw [List.cons_append, List.forall₂_cons_left_iff]
    constructor
    · rintro ⟨w,rest,hw,hr,rfl⟩
      obtain ⟨x,y,rfl,hx,hy⟩ := ih.mp hr
      exact ⟨w :: x,y,rfl,.cons hw hx,hy⟩
    · rintro ⟨x,y,rfl,hx,hy⟩
      obtain ⟨w,rest,hw,hr,rfl⟩ := List.forall₂_cons_left_iff.mp hx
      exact ⟨w,rest ++ y,hw,ih.mpr ⟨rest,y,rfl,hr,hy⟩,rfl⟩

lemma sublist_flatMap {β γ : Type*} {f : β → List γ} {l : List β} {x : β} (h : x ∈ l) :
    (f x).Sublist (l.flatMap f) := by
  rw [List.flatMap_def]
  exact List.sublist_flatten_of_mem (List.mem_map_of_mem h)

/-- What a walk found: a leaf, or a branch whose children were all walked. -/
inductive Walked (page : κ → Option (Page κ α)) (n : ℕ) (key : κ) : Contents κ α → Prop
  | leaf {values : List α} (h : page key = some (.leaf values)) :
      Walked page n key (.ofLeaf key values)
  | branch {children : List κ} {below : List (Contents κ α)}
      (h : page key = some (.branch children))
      (hb : List.Forall₂ (fun c b => walk page n c = some b) children below) :
      Walked page n key (.ofBranch key below)

lemma walk_of_page {n : ℕ} {key : κ} : walk page (n+1) key = match page key with
    | none => none
    | some (.leaf values) => some (.ofLeaf key values)
    | some (.branch children) => (children.mapM (walk page n)).map (.ofBranch key) := rfl

theorem walk_succ {n : ℕ} {key : κ} {c : Contents κ α} :
    walk page (n+1) key = some c ↔ Walked page n key c := by
  rw [walk_of_page]
  constructor
  · intro h
    cases hp : page key with
    | none =>
      rw [hp] at h
      cases h
    | some found =>
      rw [hp] at h
      cases found with
      | leaf values =>
        obtain rfl := Option.some.inj h
        exact .leaf hp
      | branch children =>
        obtain ⟨below,hb,rfl⟩ := Option.map_eq_some_iff.mp h
        exact .branch hp (mapM_eq_some.mp hb)
  · intro h
    cases h with
    | leaf hp => rw [hp]
    | branch hp hb =>
      rw [hp]
      exact Option.map_eq_some_iff.mpr ⟨_,mapM_eq_some.mpr hb,rfl⟩

lemma walk_leaf {n : ℕ} {key : κ} {values : List α} {c : Contents κ α}
    (hp : page key = some (.leaf values)) :
    walk page n key = some c ↔ 0 < n ∧ c = .ofLeaf key values := by
  cases n with
  | zero =>
    change none = some c ↔ _
    simp
  | succ n => simp [walk_of_page, hp, eq_comm]

lemma walk_branch {n : ℕ} {key : κ} {children : List κ} {c : Contents κ α}
    (hp : page key = some (.branch children)) :
    walk page (n+1) key = some c ↔ ∃ below, c = .ofBranch key below ∧
      List.Forall₂ (fun c b => walk page n c = some b) children below := by
  simp only [walk_of_page, hp, Option.map_eq_some_iff, mapM_eq_some]
  constructor
  · rintro ⟨below,hb,rfl⟩
    exact ⟨below,rfl,hb⟩
  · rintro ⟨below,rfl,hb⟩
    exact ⟨below,hb,rfl⟩

lemma exists_page {n : ℕ} {key : κ} {c : Contents κ α} (h : walk page n key = some c) :
    ∃ m p rest, n = m + 1 ∧ page key = some p ∧ c.visits = .inl key :: rest := by
  cases n with
  | zero => cases h
  | succ m =>
    cases walk_succ.mp h with
    | leaf hp => exact ⟨m,_,_,rfl,hp,rfl⟩
    | branch hp _ => exact ⟨m,_,_,rfl,hp,rfl⟩

lemma depth_le {n : ℕ} {key : κ} {c : Contents κ α} (h : walk page n key = some c) :
    c.depth ≤ n := by
  induction n generalizing key c with
  | zero => cases h
  | succ n ih =>
    cases walk_succ.mp h with
    | leaf hp => exact Nat.succ_le_succ (Nat.zero_le n)
    | branch hp hb =>
      refine Nat.succ_le_succ (Contents.foldr_depth_le fun c hc => ?_)
      obtain ⟨child,-,hw⟩ := exists_of_forall₂_right hb hc
      exact ih hw

/-- A walk may go down further than it has to. -/
theorem walk_mono {n m : ℕ} {key : κ} {c : Contents κ α} (h : walk page n key = some c)
    (hm : c.depth ≤ m) : walk page m key = some c := by
  induction n generalizing m key c with
  | zero => cases h
  | succ n ih =>
    cases walk_succ.mp h with
    | leaf hp =>
      obtain ⟨m,rfl⟩ := Nat.exists_eq_succ_of_ne_zero (Nat.ne_of_gt (Nat.lt_of_lt_of_le Nat.zero_lt_one hm))
      exact walk_succ.mpr (.leaf hp)
    | branch hp hb =>
      obtain ⟨m,rfl⟩ := Nat.exists_eq_succ_of_ne_zero
        (Nat.ne_of_gt (Nat.lt_of_lt_of_le (Nat.succ_pos _) hm))
      refine walk_succ.mpr (.branch hp ?_)
      have hdepth := fun b hb => Nat.le_trans (Contents.depth_le_foldr (c := b) hb)
        (Nat.le_of_succ_le_succ hm)
      clear h hp hm
      induction hb with
      | nil => exact .nil
      | cons hcb _ rest =>
        rw [List.forall_mem_cons] at hdepth
        exact .cons (ih hcb hdepth.1) (rest hdepth.2)

theorem walk_unique {n m : ℕ} {key : κ} {c d : Contents κ α} (h : walk page n key = some c)
    (h' : walk page m key = some d) : c = d := by
  have hc := walk_mono h (Nat.le_trans (depth_le h) (Nat.le_max_left n m))
  have hd := walk_mono h' (Nat.le_trans (depth_le h') (Nat.le_max_right n m))
  exact Option.some.inj (hc.symm.trans hd)

/-- A page that is met has its own contents among those met. -/
theorem walk_of_mem {n : ℕ} {key p : κ} {c : Contents κ α} (h : walk page n key = some c)
    (hp : p ∈ c.pages) : ∃ m d, walk page m p = some d ∧ d.pages.Sublist c.pages ∧
      d.values.Sublist c.values := by
  induction n generalizing key c with
  | zero => cases h
  | succ n ih =>
    cases walk_succ.mp h with
    | leaf hk =>
      rw [Contents.pages_ofLeaf, List.mem_singleton] at hp
      subst hp
      exact ⟨_,_,h,.refl _,.refl _⟩
    | branch hk hb =>
      rw [Contents.pages_ofBranch] at hp
      obtain rfl | hp := List.mem_cons.mp hp
      · exact ⟨_,_,h,.refl _,.refl _⟩
      · obtain ⟨b,hmem,hpb⟩ := List.mem_flatMap.mp hp
        obtain ⟨child,-,hw⟩ := exists_of_forall₂_right hb hmem
        obtain ⟨m,d,hd,hpages,hvalues⟩ := ih hw hpb
        rw [Contents.pages_ofBranch, Contents.values_ofBranch]
        exact ⟨m,d,hd,(hpages.trans (sublist_flatMap hmem)).cons _,
          hvalues.trans (sublist_flatMap hmem)⟩

lemma values_ne_nil (full : ∀ key p, page key = some p → p.Full) {n : ℕ} {key : κ}
    {c : Contents κ α} (h : walk page n key = some c) : c.values ≠ [] := by
  induction n generalizing key c with
  | zero => cases h
  | succ n ih =>
    cases walk_succ.mp h with
    | leaf hk => exact Contents.values_ofLeaf key _ ▸ full key _ hk
    | branch hk hb =>
      rw [Contents.values_ofBranch]
      cases hb with
      | nil => exact absurd rfl (full key _ hk)
      | cons hw _ =>
        rw [List.flatMap_cons]
        exact List.append_ne_nil_of_left_ne_nil (ih hw) _

lemma pairwise_append_getLast [Preorder α] {a b : List α} :
    (a ++ b).Pairwise (· < ·) ↔ a.Pairwise (· < ·) ∧ (a.getLast?.toList ++ b).Pairwise (· < ·) := by
  obtain rfl | ha := eq_or_ne a []
  · simp
  · rw [List.getLast?_eq_some_getLast ha, List.pairwise_append]
    change _ ↔ _ ∧ (_ :: b).Pairwise _
    rw [List.pairwise_cons]
    constructor
    · rintro ⟨h1,h2,h3⟩
      exact ⟨h1,h3 _ (List.getLast_mem ha),h2⟩
    · rintro ⟨h1,h3,h2⟩
      refine ⟨h1,h2,fun x hx y hy => ?_⟩
      obtain rfl | hlt : x = a.getLast ha ∨ x < a.getLast ha := by
        rw [← List.dropLast_append_getLast ha, List.mem_append, List.mem_singleton] at hx
        obtain hx | hx := hx
        · rw [← List.dropLast_append_getLast ha, List.pairwise_append] at h1
          exact .inr (h1.2.2 x hx _ (List.mem_singleton_self _))
        · exact .inl hx
      · exact h3 y hy
      · exact hlt.trans (h3 y hy)

/-- Where the values come in strict order, no page is met twice. -/
theorem nodup_pages [Preorder α] (full : ∀ key p, page key = some p → p.Full) {n : ℕ} {key : κ}
    {c : Contents κ α} (h : walk page n key = some c) (hs : c.values.Pairwise (· < ·)) :
    c.pages.Nodup := by
  induction n generalizing key c with
  | zero => cases h
  | succ n ih =>
    cases walk_succ.mp h with
    | leaf hk =>
      rw [Contents.pages_ofLeaf]
      exact List.nodup_singleton _
    | @branch children below hk hb =>
      have walked : ∀ b ∈ below, ∃ child, walk page n child = some b := fun b hmem => by
        obtain ⟨child,-,hw⟩ := exists_of_forall₂_right hb hmem
        exact ⟨child,hw⟩
      rw [Contents.values_ofBranch, List.pairwise_flatMap] at hs
      rw [Contents.pages_ofBranch, List.nodup_cons]
      constructor
      · -- a page below itself would have more pages than it has
        intro hkey
        obtain ⟨b,hmem,hkey⟩ := List.mem_flatMap.mp hkey
        obtain ⟨child,hw⟩ := walked b hmem
        obtain ⟨m,d,hd,hsub,-⟩ := walk_of_mem hw hkey
        obtain rfl := walk_unique h hd
        have hlen := (hsub.trans (sublist_flatMap (f := Contents.pages) hmem)).length_le
        rw [Contents.pages_ofBranch, List.length_cons] at hlen
        omega
      · rw [List.nodup_flatMap]
        constructor
        · intro b hmem
          obtain ⟨child,hw⟩ := walked b hmem
          exact ih hw (hs.1 b hmem)
        · refine hs.2.imp_of_mem fun {b b'} hmem hmem' hlt p hp hp' => ?_
          -- the values below a common page would come before themselves
          obtain ⟨child,hw⟩ := walked b hmem
          obtain ⟨child',hw'⟩ := walked b' hmem'
          obtain ⟨m,d,hd,-,hsub⟩ := walk_of_mem hw hp
          obtain ⟨m',d',hd',-,hsub'⟩ := walk_of_mem hw' hp'
          obtain rfl := walk_unique hd hd'
          obtain ⟨v,hv⟩ := List.exists_mem_of_ne_nil _ (values_ne_nil full hd)
          exact lt_irrefl v (hlt v (hsub.subset hv) v (hsub'.subset hv))

end
end RisuNest.PageTree
