import RisuNest.Lib.Table
import Mathlib.Order.Lattice

/-! Maps whose rows stand in the ascending order of their keys. -/
namespace RisuNest

/-- Rows of distinct keys, in the order of the keys. -/
structure SortedMap (κ : Type*) (ν : Type*) [LinearOrder κ] where
  rows : List (κ × ν)
  ascending : (rows.map Prod.fst).Pairwise (· < ·)

namespace SortedMap
variable {κ ν : Type*} [LinearOrder κ]

def empty : SortedMap κ ν := ⟨[],List.Pairwise.nil⟩

instance : Inhabited (SortedMap κ ν) := ⟨empty⟩

def get (m : SortedMap κ ν) (k : κ) : Option ν := Table.lookup k m.rows

def contains (m : SortedMap κ ν) (k : κ) : Bool := (m.get k).isSome

def values (m : SortedMap κ ν) : List ν := m.rows.map Prod.snd

/-- A value goes where its key belongs, in the place of the one before. -/
def insertRow (k : κ) (a : ν) : List (κ × ν) → List (κ × ν)
  | [] => [(k,a)]
  | r :: rows =>
    if k < r.1 then (k,a) :: r :: rows
    else if r.1 = k then (k,a) :: rows
    else r :: insertRow k a rows

lemma names_insertRow (k : κ) (a : ν) (rows : List (κ × ν)) (k' : κ) :
    k' ∈ (insertRow k a rows).map Prod.fst ↔ k' = k ∨ k' ∈ rows.map Prod.fst := by
  induction rows with
  | nil => simp [insertRow]
  | cons r rows ih =>
    unfold insertRow
    split_ifs with hlt heq
    · simp
    · simp [heq]
    · simp only [List.map_cons, List.mem_cons, ih]
      exact or_left_comm

lemma ascending_insertRow (k : κ) (a : ν) {rows : List (κ × ν)}
    (h : (rows.map Prod.fst).Pairwise (· < ·)) :
    ((insertRow k a rows).map Prod.fst).Pairwise (· < ·) := by
  induction rows with
  | nil => exact List.pairwise_singleton _ _
  | cons r rows ih =>
    have hcons := List.pairwise_cons.mp h
    unfold insertRow
    split_ifs with hlt heq
    · apply List.pairwise_cons.mpr
      refine ⟨?_,h⟩
      intro k' hk'
      rcases List.mem_cons.mp hk' with rfl | hk'
      · exact hlt
      · exact hlt.trans (hcons.1 k' hk')
    · rw [List.map_cons, heq] at h
      exact h
    · apply List.pairwise_cons.mpr
      refine ⟨?_,ih hcons.2⟩
      intro k' hk'
      rcases (names_insertRow k a rows k').mp hk' with rfl | hk'
      · exact lt_of_le_of_ne (not_lt.mp hlt) heq
      · exact hcons.1 k' hk'

def insert (m : SortedMap κ ν) (k : κ) (a : ν) : SortedMap κ ν :=
  ⟨insertRow k a m.rows,ascending_insertRow k a m.ascending⟩

def erase (m : SortedMap κ ν) (k : κ) : SortedMap κ ν where
  rows := m.rows.filter fun r => r.1 ≠ k
  ascending := List.Pairwise.sublist (List.Sublist.map _ List.filter_sublist) m.ascending

/-- The rows one after the other: of those with one key the last counts. -/
def ofRows (rows : List (κ × ν)) : SortedMap κ ν :=
  rows.foldl (fun m r => m.insert r.1 r.2) empty

/-- The rows of some keys. -/
def restrict (m : SortedMap κ ν) (ks : List κ) : SortedMap κ ν :=
  ks.foldl (fun d k => match m.get k with
    | some a => d.insert k a
    | none => d) empty

/-- Rows on top of those that are there. -/
def insertAll (m n : SortedMap κ ν) : SortedMap κ ν :=
  n.rows.foldl (fun m r => m.insert r.1 r.2) m

def eraseAll (m : SortedMap κ ν) (ks : List κ) : SortedMap κ ν := ks.foldl erase m

/-- Some keys go from one map to another with their values. -/
def moveTo (ks : List κ) (s : SortedMap κ ν × SortedMap κ ν) : SortedMap κ ν × SortedMap κ ν :=
  ks.foldl (fun s k => match s.1.get k with
    | some a => (s.1.erase k,s.2.insert k a)
    | none => s) s

/-! ### Rows and lookups -/

lemma nodup (m : SortedMap κ ν) : (m.rows.map Prod.fst).Nodup :=
  m.ascending.imp fun h => h.ne

lemma get_eq_some {m : SortedMap κ ν} {k : κ} {a : ν} : m.get k = some a ↔ (k,a) ∈ m.rows :=
  Table.lookup_eq_some m.nodup

lemma get_eq_none {m : SortedMap κ ν} {k : κ} : m.get k = none ↔ k ∉ m.rows.map Prod.fst :=
  Table.lookup_eq_none

lemma contains_eq_false {m : SortedMap κ ν} {k : κ} : m.contains k = false ↔ m.get k = none := by
  rw [contains, Option.isSome_eq_false_iff, Option.isNone_iff_eq_none]

theorem ext_get {m n : SortedMap κ ν} (h : ∀ k, m.get k = n.get k) : m = n := by
  have hmem : ∀ r, r ∈ m.rows ↔ r ∈ n.rows := by
    rintro ⟨k, a⟩
    rw [← get_eq_some, ← get_eq_some, h]
  have hperm : m.rows.Perm n.rows :=
    (List.perm_ext_iff_of_nodup m.nodup.of_map n.nodup.of_map).mpr hmem
  have hrows : m.rows = n.rows := by
    refine List.Perm.eq_of_pairwise ?_ (List.pairwise_map.mp m.ascending)
      (List.pairwise_map.mp n.ascending) hperm
    intro a b _ _ hab hba
    exact absurd (hab.trans hba) (lt_irrefl _)
  obtain ⟨mrows, hm⟩ := m
  obtain ⟨nrows, hn⟩ := n
  cases hrows
  rfl

@[simp] theorem get_empty (k : κ) : (empty : SortedMap κ ν).get k = none := rfl

lemma lookup_insertRow (k : κ) (a : ν) (rows : List (κ × ν)) :
    Table.lookup k (insertRow k a rows) = some a := by
  induction rows with
  | nil => simp [insertRow, Table.lookup]
  | cons r rows ih =>
    unfold insertRow
    split_ifs with hlt heq
    · simp [Table.lookup]
    · simp [Table.lookup]
    · rw [Table.lookup, if_neg heq, ih]

lemma lookup_insertRow_of_ne {k k' : κ} (h : k ≠ k') (a : ν) (rows : List (κ × ν)) :
    Table.lookup k' (insertRow k a rows) = Table.lookup k' rows := by
  induction rows with
  | nil => simp [insertRow, Table.lookup, h]
  | cons r rows ih =>
    unfold insertRow
    split_ifs with hlt heq
    · simp [Table.lookup, h]
    · simp [Table.lookup, heq, h]
    · rw [Table.lookup, Table.lookup, ih]

@[simp] theorem get_insert (m : SortedMap κ ν) (k : κ) (a : ν) (k' : κ) :
    (m.insert k a).get k' = if k' = k then some a else m.get k' := by
  split_ifs with hk
  · rw [hk]
    exact lookup_insertRow k a m.rows
  · exact lookup_insertRow_of_ne (Ne.symm hk) a m.rows

theorem rows_insert_of_forall_lt {m : SortedMap κ ν} {k : κ} (h : ∀ r ∈ m.rows, r.1 < k) (a : ν) :
    (m.insert k a).rows = m.rows ++ [(k,a)] := by
  change insertRow k a m.rows = m.rows ++ [(k,a)]
  revert h
  induction m.rows with
  | nil =>
    intro _
    rfl
  | cons r rows ih =>
    intro h
    have hlt := h r List.mem_cons_self
    rw [insertRow, if_neg (not_lt_of_gt hlt), if_neg (ne_of_lt hlt),
      ih fun r hr => h r (List.mem_cons_of_mem _ hr), List.cons_append]

@[simp] theorem get_erase (m : SortedMap κ ν) (k k' : κ) :
    (m.erase k).get k' = if k' = k then none else m.get k' := by
  change Table.lookup k' (m.rows.filter _) = if k' = k then none else Table.lookup k' m.rows
  induction m.rows with
  | nil => simp [Table.lookup]
  | cons r rows ih =>
    by_cases hr : r.1 = k
    · rw [List.filter_cons_of_neg (by simpa using hr), ih]
      split_ifs with hk
      · rfl
      · rw [Table.lookup, if_neg (hr ▸ Ne.symm hk)]
    · rw [List.filter_cons_of_pos (by simpa using hr), Table.lookup, Table.lookup, ih]
      split_ifs with h₁ h₂ <;> simp_all

lemma get_foldl_insert {rows : List (κ × ν)} (h : (rows.map Prod.fst).Nodup) (m : SortedMap κ ν)
    (k : κ) : (rows.foldl (fun m r => m.insert r.1 r.2) m).get k =
      (Table.lookup k rows).or (m.get k) := by
  induction rows generalizing m with
  | nil => rfl
  | cons r rows ih =>
    rw [List.map_cons, List.nodup_cons] at h
    rw [List.foldl_cons, ih h.2, get_insert, Table.lookup]
    split_ifs with hr hk hk
    · rw [← hk, Table.lookup_eq_none.mpr h.1] at *
      rfl
    · exact absurd hr.symm hk
    · exact absurd hk.symm hr
    · rfl

theorem ofRows_of_perm {m : SortedMap κ ν} {rows : List (κ × ν)} (h : rows.Perm m.rows) :
    ofRows rows = m := by
  have hnodup : (rows.map Prod.fst).Nodup := (h.map Prod.fst).nodup_iff.mpr m.nodup
  apply ext_get
  intro k
  have hlookup : Table.lookup k rows = m.get k := by
    apply Option.ext
    intro a
    rw [Table.lookup_eq_some hnodup, get_eq_some, h.mem_iff]
  unfold ofRows
  rw [get_foldl_insert hnodup, get_empty, Option.or_none, hlookup]

/-! ### Several keys at once -/

@[simp] theorem get_restrict (m : SortedMap κ ν) (ks : List κ) (k : κ) :
    (m.restrict ks).get k = if k ∈ ks then m.get k else none := by
  have key : ∀ (ks : List κ) (d : SortedMap κ ν), (∀ k', d.get k' ≠ none → d.get k' = m.get k') →
      (ks.foldl (fun d k => match m.get k with
        | some a => d.insert k a
        | none => d) d).get k = if k ∈ ks then m.get k else d.get k := by
    intro ks
    induction ks with
    | nil =>
      intro d hd
      simp
    | cons k' ks ih =>
      intro d hd
      rw [List.foldl_cons]
      cases hk' : m.get k' with
      | none =>
        dsimp only
        rw [ih d hd]
        by_cases hk : k = k'
        · subst hk
          have hnone : d.get k = none := by
            by_contra hne
            exact hne ((hd k hne).trans hk')
          simp [hk', hnone]
        · simp [hk]
      | some a =>
        dsimp only
        rw [ih]
        · by_cases hk : k = k'
          · simp [hk, hk']
          · simp [hk]
        · intro j hj
          rw [get_insert] at hj ⊢
          split_ifs at hj ⊢ with hjk
          · rw [hjk, hk']
          · exact hd j hj
  unfold restrict
  rw [key ks empty (fun k' h => absurd (get_empty k') h), get_empty]

@[simp] theorem get_insertAll (m n : SortedMap κ ν) (k : κ) :
    (m.insertAll n).get k = (n.get k).or (m.get k) := get_foldl_insert n.nodup m k

@[simp] theorem get_eraseAll (m : SortedMap κ ν) (ks : List κ) (k : κ) :
    (m.eraseAll ks).get k = if k ∈ ks then none else m.get k := by
  unfold eraseAll
  induction ks generalizing m with
  | nil => simp
  | cons k' ks ih =>
    rw [List.foldl_cons, ih, get_erase]
    by_cases hk : k = k'
    · simp [hk]
    · simp [hk]

theorem get_moveTo (ks : List κ) (s : SortedMap κ ν × SortedMap κ ν) (k : κ) :
    (moveTo ks s).1.get k = (if k ∈ ks then none else s.1.get k) ∧
      (moveTo ks s).2.get k = if k ∈ ks then (s.1.get k).or (s.2.get k) else s.2.get k := by
  unfold moveTo
  induction ks generalizing s with
  | nil => simp
  | cons k' ks ih =>
    rw [List.foldl_cons]
    cases hk' : s.1.get k' with
    | none =>
      dsimp only
      obtain ⟨hfirst, hsecond⟩ := ih s
      rw [hfirst, hsecond]
      by_cases hk : k = k'
      · simp [hk, hk']
      · simp [hk]
    | some a =>
      dsimp only
      obtain ⟨hfirst, hsecond⟩ := ih (s.1.erase k',s.2.insert k' a)
      rw [hfirst, hsecond]
      simp only [get_erase, get_insert]
      by_cases hk : k = k'
      · simp [hk, hk']
      · simp [hk]

/-- A map that another one was added to, under keys of its own, has the rows of both. -/
theorem rows_perm_append {m n d : SortedMap κ ν} (h : ∀ k, m.get k = (d.get k).or (n.get k))
    (hapart : ∀ k, d.get k ≠ none → n.get k = none) : m.rows.Perm (n.rows ++ d.rows) := by
  have hnodup : ((n.rows ++ d.rows).map Prod.fst).Nodup := by
    rw [List.map_append, List.nodup_append]
    refine ⟨n.nodup,d.nodup,?_⟩
    rintro k hn k' hd rfl
    have hdk : d.get k ≠ none := fun hnone => get_eq_none.mp hnone hd
    exact get_eq_none.mp (hapart k hdk) hn
  apply (List.perm_ext_iff_of_nodup m.nodup.of_map hnodup.of_map).mpr
  rintro ⟨k, a⟩
  rw [← get_eq_some, h, List.mem_append, ← get_eq_some, ← get_eq_some]
  cases hd : d.get k with
  | none => simp
  | some b =>
    have hn := hapart k (by rw [hd]; simp)
    simp [hn]

end SortedMap
end RisuNest
