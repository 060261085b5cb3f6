import Mathlib.Data.List.Nodup
import Mathlib.Data.List.Perm.Subperm
import Mathlib.Tactic.Common

/-! Tables with a primary key, kept as rows in insertion order. Keys are distinct by
construction, so a lookup determines a row. -/
namespace RisuNest

/-- Rows of a keyed table, oldest first. -/
structure Table (κ : Type*) (ν : Type*) where
  rows : List (κ × ν)
  nodup : (rows.map Prod.fst).Nodup

namespace Table
variable {κ ν : Type*} [DecidableEq κ]

def empty : Table κ ν := ⟨[],List.nodup_nil⟩

instance : Inhabited (Table κ ν) := ⟨empty⟩

/-- The value stored for a key in a list of rows. -/
def lookup (k : κ) : List (κ × ν) → Option ν
  | [] => none
  | r :: rs => if r.1 = k then some r.2 else lookup k rs

/-- `SELECT value WHERE key = k`. -/
def get (t : Table κ ν) (k : κ) : Option ν := lookup k t.rows

lemma lookup_eq_none {k : κ} {rs : List (κ × ν)} :
    lookup k rs = none ↔ k ∉ rs.map Prod.fst := by
  induction rs with
  | nil => simp [lookup]
  | cons r rs ih =>
    by_cases h : r.1 = k
    · simp [lookup, h]
    · simp only [lookup, h, if_false, ih, List.map_cons, List.mem_cons, not_or]
      exact ⟨fun hn => ⟨fun e => h e.symm, hn⟩, fun hn => hn.2⟩

lemma lookup_eq_some {k : κ} {v : ν} {rs : List (κ × ν)} (hn : (rs.map Prod.fst).Nodup) :
    lookup k rs = some v ↔ (k,v) ∈ rs := by
  induction rs with
  | nil => simp [lookup]
  | cons r rs ih =>
    rw [List.map_cons, List.nodup_cons] at hn
    obtain ⟨a, b⟩ := r
    by_cases h : a = k
    · subst a
      have hk : (k,v) ∉ rs := fun hm => hn.1 (List.mem_map.mpr ⟨(k,v),hm,rfl⟩)
      simp only [lookup, if_true, Option.some.injEq, List.mem_cons, Prod.mk.injEq, true_and, hk,
        or_false]
      exact eq_comm
    · simp only [lookup, h, if_false, ih hn.2, List.mem_cons, Prod.mk.injEq]
      exact ⟨Or.inr, fun hm => hm.elim (fun e => absurd e.1.symm h) id⟩

lemma lookup_append (k : κ) (rs ss : List (κ × ν)) :
    lookup k (rs ++ ss) = (lookup k rs).or (lookup k ss) := by
  induction rs with
  | nil => simp [lookup]
  | cons r rs ih =>
    by_cases h : r.1 = k <;> simp [lookup, h, ih]

theorem get_eq_some {t : Table κ ν} {k : κ} {v : ν} : t.get k = some v ↔ (k,v) ∈ t.rows :=
  lookup_eq_some t.nodup

theorem get_eq_none {t : Table κ ν} {k : κ} : t.get k = none ↔ k ∉ t.rows.map Prod.fst :=
  lookup_eq_none

@[simp] theorem get_empty (k : κ) : (empty : Table κ ν).get k = none := rfl

/-- Whether some row satisfies a condition: `SELECT EXISTS`. -/
def any (t : Table κ ν) (p : κ → ν → Bool) : Bool := t.rows.any fun r => p r.1 r.2

theorem any_eq_true {t : Table κ ν} {p : κ → ν → Bool} :
    t.any p = true ↔ ∃ k v, t.get k = some v ∧ p k v = true := by
  simp [any, get_eq_some]

theorem any_eq_false {t : Table κ ν} {p : κ → ν → Bool} :
    t.any p = false ↔ ∀ k v, t.get k = some v → p k v = false := by
  simp [any, get_eq_some]

/-- `SELECT EXISTS` by key. -/
def contains (t : Table κ ν) (k : κ) : Bool := (t.get k).isSome

@[simp] theorem contains_iff {t : Table κ ν} {k : κ} :
    t.contains k = true ↔ ∃ v, t.get k = some v := by
  simp [contains, Option.isSome_iff_exists]

/-- `DELETE WHERE p`. -/
def deleteWhere (t : Table κ ν) (p : κ → ν → Bool) : Table κ ν where
  rows := t.rows.filter fun r => !p r.1 r.2
  nodup := t.nodup.sublist (List.filter_sublist.map _)

theorem get_deleteWhere (t : Table κ ν) (p : κ → ν → Bool) (k : κ) :
    (t.deleteWhere p).get k = (t.get k).filter fun v => !p k v := by
  ext v
  simp [get_eq_some, deleteWhere, Option.filter_eq_some_iff]

theorem get_deleteWhere_eq_some {t : Table κ ν} {p : κ → ν → Bool} {k : κ} {v : ν} :
    (t.deleteWhere p).get k = some v ↔ t.get k = some v ∧ p k v = false := by
  simp [get_deleteWhere, Option.filter_eq_some_iff]

/-- `DELETE WHERE key = k`. -/
def erase (t : Table κ ν) (k : κ) : Table κ ν := t.deleteWhere fun k' _ => decide (k' = k)

@[simp] theorem get_erase (t : Table κ ν) (k k' : κ) :
    (t.erase k).get k' = if k' = k then none else t.get k' := by
  rw [erase, get_deleteWhere]
  split_ifs with h
  · cases t.get k' <;> simp [h]
  · cases t.get k' <;> simp [h]

/-- `INSERT OR IGNORE`. -/
def insertOrIgnore (t : Table κ ν) (k : κ) (v : ν) : Table κ ν :=
  if h : k ∈ t.rows.map Prod.fst then t
  else
    { rows := t.rows ++ [(k,v)]
      nodup := by
        rw [List.map_append, List.nodup_append]
        refine ⟨t.nodup, by simp, ?_⟩
        intro a ha b hb
        rw [List.map_singleton, List.mem_singleton] at hb
        rintro rfl
        exact h (by rwa [hb] at ha) }

@[simp] theorem get_insertOrIgnore (t : Table κ ν) (k : κ) (v : ν) (k' : κ) :
    (t.insertOrIgnore k v).get k' =
      if k' = k then some ((t.get k).getD v) else t.get k' := by
  unfold insertOrIgnore
  split_ifs with h hk hk
  · subst k'
    cases hv : t.get k with
    | none => exact absurd h (get_eq_none.mp hv)
    | some w => rfl
  · rfl
  · subst k'
    have hn : t.get k = none := get_eq_none.mpr h
    rw [hn]
    change lookup k (t.rows ++ [(k,v)]) = some v
    rw [lookup_append, show lookup k t.rows = none from hn]
    simp [lookup]
  · change lookup k' (t.rows ++ [(k,v)]) = lookup k' t.rows
    rw [lookup_append]
    have : lookup k' [(k,v)] = none := by simp [lookup, Ne.symm hk]
    rw [this, Option.or_none]

theorem get_insertOrIgnore_of_get {t : Table κ ν} {k l : κ} {v w : ν} (h : t.get l = some w) :
    (t.insertOrIgnore k v).get l = some w := by
  rw [get_insertOrIgnore]
  split_ifs with he
  · rw [← he, h, Option.getD_some]
  · exact h

/-- The rows with values of another type in their places. -/
def convert {μ : Type*} (t : Table κ ν) (f : κ → ν → μ) : Table κ μ where
  rows := t.rows.map fun r => (r.1,f r.1 r.2)
  nodup := by simpa [List.map_map, Function.comp_def] using t.nodup

@[simp] theorem get_convert {μ : Type*} (t : Table κ ν) (f : κ → ν → μ) (k : κ) :
    (t.convert f).get k = (t.get k).map (f k) := by
  change lookup k (t.rows.map fun r => (r.1,f r.1 r.2)) = (lookup k t.rows).map (f k)
  induction t.rows with
  | nil => rfl
  | cons r rs ih =>
    by_cases h : r.1 = k
    · subst h; simp [lookup]
    · simp [lookup, h, ih]

/-- Replace every value, keeping keys and order: an unconditional `UPDATE`. -/
def mapValues (t : Table κ ν) (f : κ → ν → ν) : Table κ ν where
  rows := t.rows.map fun r => (r.1,f r.1 r.2)
  nodup := by simpa [List.map_map, Function.comp_def] using t.nodup

@[simp] theorem get_mapValues (t : Table κ ν) (f : κ → ν → ν) (k : κ) :
    (t.mapValues f).get k = (t.get k).map (f k) := get_convert t f k

/-- `INSERT ... ON CONFLICT DO UPDATE`: a new row goes last, an old one keeps its place. -/
def upsert (t : Table κ ν) (k : κ) (v : ν) : Table κ ν :=
  (t.insertOrIgnore k v).mapValues fun k' v' => if k' = k then v else v'

@[simp] theorem get_upsert (t : Table κ ν) (k : κ) (v : ν) (k' : κ) :
    (t.upsert k v).get k' = if k' = k then some v else t.get k' := by
  rw [upsert, get_mapValues, get_insertOrIgnore]
  split_ifs with h
  · subst h; simp
  · cases t.get k' <;> simp

theorem contains_eq_false {t : Table κ ν} {k : κ} : t.contains k = false ↔ t.get k = none := by
  simp [contains]

theorem contains_foldl_insertOrIgnore {α : Type*} (t : Table κ ν) (f : α → κ) (v : ν)
    (l : List α) (k : κ) :
    (l.foldl (fun t a => t.insertOrIgnore (f a) v) t).contains k =
      (t.contains k || decide (k ∈ l.map f)) := by
  induction l generalizing t with
  | nil => simp
  | cons a l ih =>
    rw [List.foldl_cons, ih, List.map_cons]
    by_cases h : k = f a
    · simp [contains, h]
    · simp [contains, h]

/-- The keys of the rows that satisfy a condition. -/
def keysWhere (t : Table κ ν) (p : κ × ν → Bool) : List κ := (t.rows.filter p).map Prod.fst

theorem mem_keysWhere {t : Table κ ν} {p : κ × ν → Bool} {k : κ} :
    k ∈ t.keysWhere p ↔ ∃ v, t.get k = some v ∧ p (k,v) = true := by
  simp [keysWhere, get_eq_some]

omit [DecidableEq κ] in
theorem nodup_keysWhere (t : Table κ ν) (p : κ × ν → Bool) : (t.keysWhere p).Nodup :=
  t.nodup.sublist (List.filter_sublist.map _)

omit [DecidableEq κ] in
theorem countP_le_length {t : Table κ ν} {p : κ × ν → Bool} {ks : List κ}
    (h : ∀ k ∈ t.keysWhere p, k ∈ ks) : t.rows.countP p ≤ ks.length := by
  have hle := ((t.nodup_keysWhere p).subperm h).length_le
  rwa [keysWhere, List.length_map, ← List.countP_eq_length_filter] at hle

omit [DecidableEq κ] in
theorem length_keysWhere (t : Table κ ν) (p : κ × ν → Bool) :
    (t.keysWhere p).length = t.rows.countP p := by
  rw [keysWhere, List.length_map, List.countP_eq_length_filter]

/-- The table of some rows, where the first of a key counts. -/
def ofRows (rows : List (κ × ν)) : Table κ ν :=
  rows.foldl (fun t r => t.insertOrIgnore r.1 r.2) empty

@[simp] theorem get_ofRows (rows : List (κ × ν)) (k : κ) : (ofRows rows).get k = lookup k rows := by
  have key : ∀ (rows : List (κ × ν)) (t : Table κ ν),
      (rows.foldl (fun t r => t.insertOrIgnore r.1 r.2) t).get k = (t.get k).or (lookup k rows) := by
    intro rows
    induction rows with
    | nil => exact fun t => Option.or_none.symm
    | cons r rows ih =>
      intro t
      rw [List.foldl_cons, ih, get_insertOrIgnore, lookup]
      by_cases h : k = r.1
      · subst h
        cases t.get r.1 <;> simp
      · rw [if_neg h, if_neg (Ne.symm h)]
  exact key rows empty

/-- The rows under other keys. -/
def rekey (t : Table κ ν) (f : κ → κ) : Table κ ν := ofRows (t.rows.map fun r => (f r.1,r.2))

theorem get_rekey {f : κ → κ} (hf : Function.Injective f) (t : Table κ ν) (k : κ) :
    (t.rekey f).get (f k) = t.get k := by
  rw [rekey, get_ofRows, get]
  induction t.rows with
  | nil => rfl
  | cons r rows ih =>
    rw [List.map_cons, lookup, lookup, ih]
    simp only [hf.eq_iff]

end Table
end RisuNest
