import Mathlib.Data.List.Nodup
import Mathlib.Tactic.Common

/-! JSON documents as trees over any type of numbers, and how the readers of records take them
apart. -/
namespace RisuNest
variable {N : Type}

/-- A document. The names in an object may repeat, as they may in a text. -/
inductive JsonTree (N : Type)
  | null
  | bool (b : Bool)
  | num (n : N)
  | str (s : String)
  | arr (vs : List (JsonTree N))
  | obj (ms : List (String × JsonTree N))

namespace JsonTree

mutual
/-- How deep arrays and objects nest. -/
def depth : JsonTree N → ℕ
  | .arr vs => depthItems vs + 1
  | .obj ms => depthMembers ms + 1
  | _ => 0

def depthItems : List (JsonTree N) → ℕ
  | [] => 0
  | v :: vs => max (depth v) (depthItems vs)

def depthMembers : List (String × JsonTree N) → ℕ
  | [] => 0
  | (_,v) :: ms => max (depth v) (depthMembers ms)
end

mutual
/-- Whether no name repeats in any object. -/
def distinct : JsonTree N → Bool
  | .arr vs => distinctItems vs
  | .obj ms => decide (ms.map Prod.fst).Nodup && distinctMembers ms
  | _ => true

def distinctItems : List (JsonTree N) → Bool
  | [] => true
  | v :: vs => distinct v && distinctItems vs

def distinctMembers : List (String × JsonTree N) → Bool
  | [] => true
  | (_,v) :: ms => distinct v && distinctMembers ms
end

/-- A member of a map: in the place of the one with its name, or at the end. -/
def put : List (String × JsonTree N) → String × JsonTree N → List (String × JsonTree N)
  | [], m => [m]
  | m' :: ms, m => if m'.1 = m.1 then m :: ms else m' :: put ms m

mutual
/-- The value of a document: of the members of one name the last counts. -/
def collapse : JsonTree N → JsonTree N
  | .arr vs => .arr (collapseItems vs)
  | .obj ms => .obj ((collapseMembers ms).foldl put [])
  | v => v

def collapseItems : List (JsonTree N) → List (JsonTree N)
  | [] => []
  | v :: vs => collapse v :: collapseItems vs

def collapseMembers : List (String × JsonTree N) → List (String × JsonTree N)
  | [] => []
  | (k,v) :: ms => (k,collapse v) :: collapseMembers ms
end

/-! ### Maps -/

lemma mem_put {ms : List (String × JsonTree N)} {m m' : String × JsonTree N}
    (h : m' ∈ put ms m) : m' = m ∨ m' ∈ ms := by
  induction ms with
  | nil => exact .inl (List.mem_singleton.mp h)
  | cons a ms ih =>
    unfold put at h
    split_ifs at h
    · exact (List.mem_cons.mp h).imp_right (List.mem_cons_of_mem _)
    · rcases List.mem_cons.mp h with rfl | h
      · exact .inr List.mem_cons_self
      · exact (ih h).imp_right (List.mem_cons_of_mem _)

lemma names_put (ms : List (String × JsonTree N)) (m : String × JsonTree N) (name : String) :
    name ∈ (put ms m).map Prod.fst ↔ name = m.1 ∨ name ∈ ms.map Prod.fst := by
  induction ms with
  | nil => simp [put]
  | cons a ms ih =>
    unfold put
    split_ifs with ha
    · simp [ha]
    · simp only [List.map_cons, List.mem_cons, ih]
      exact or_left_comm

lemma names_foldl_put (ms done : List (String × JsonTree N)) (name : String) :
    name ∈ (ms.foldl put done).map Prod.fst ↔
      name ∈ ms.map Prod.fst ∨ name ∈ done.map Prod.fst := by
  induction ms generalizing done with
  | nil => simp
  | cons m ms ih =>
    rw [List.foldl_cons, ih, names_put, List.map_cons, List.mem_cons]
    exact or_left_comm.trans or_assoc.symm

lemma nodup_put {ms : List (String × JsonTree N)} (h : (ms.map Prod.fst).Nodup)
    (m : String × JsonTree N) : ((put ms m).map Prod.fst).Nodup := by
  induction ms with
  | nil => simp [put]
  | cons a ms ih =>
    rw [List.map_cons, List.nodup_cons] at h
    unfold put
    split_ifs with ha
    · rw [List.map_cons, List.nodup_cons, ← ha]
      exact h
    · rw [List.map_cons, List.nodup_cons]
      refine ⟨?_,ih h.2⟩
      intro hmem
      obtain ⟨m', hm', hname⟩ := List.mem_map.mp hmem
      rcases mem_put hm' with rfl | hm'
      · exact ha hname.symm
      · exact h.1 (List.mem_map.mpr ⟨m',hm',hname⟩)

lemma put_of_notMem {ms : List (String × JsonTree N)} {m : String × JsonTree N}
    (h : m.1 ∉ ms.map Prod.fst) : put ms m = ms ++ [m] := by
  induction ms with
  | nil => rfl
  | cons a ms ih =>
    rw [List.map_cons, List.mem_cons, not_or] at h
    unfold put
    rw [if_neg (Ne.symm h.1), ih h.2, List.cons_append]

lemma foldl_put {ms done : List (String × JsonTree N)} (h : ((done ++ ms).map Prod.fst).Nodup) :
    ms.foldl put done = done ++ ms := by
  induction ms generalizing done with
  | nil => rw [List.foldl_nil, List.append_nil]
  | cons m ms ih =>
    have hm : m.1 ∉ done.map Prod.fst := by
      rw [List.map_append, List.nodup_append] at h
      intro hmem
      exact h.2.2 _ hmem _ List.mem_cons_self rfl
    have hsplit : done ++ m :: ms = (done ++ [m]) ++ ms := by
      rw [List.append_assoc, List.singleton_append]
    rw [List.foldl_cons, put_of_notMem hm, hsplit]
    apply ih
    rw [← hsplit]
    exact h

lemma names_collapseMembers (ms : List (String × JsonTree N)) :
    (collapseMembers ms).map Prod.fst = ms.map Prod.fst := by
  induction ms with
  | nil => rfl
  | cons m ms ih => rw [collapseMembers, List.map_cons, List.map_cons, ih]

lemma distinctMembers_iff {ms : List (String × JsonTree N)} :
    distinctMembers ms = true ↔ ∀ m ∈ ms, m.2.distinct = true := by
  induction ms with
  | nil => simp [distinctMembers]
  | cons m ms ih => rw [distinctMembers, Bool.and_eq_true, ih, List.forall_mem_cons]

lemma forall_mem_foldl_put {P : String × JsonTree N → Prop} {ms done : List (String × JsonTree N)}
    (hms : ∀ m ∈ ms, P m) (hdone : ∀ m ∈ done, P m) : ∀ m ∈ ms.foldl put done, P m := by
  induction ms generalizing done with
  | nil => exact hdone
  | cons a ms ih =>
    rw [List.forall_mem_cons] at hms
    apply ih hms.2
    intro m hm
    rcases mem_put hm with rfl | hm
    · exact hms.1
    · exact hdone m hm

lemma nodup_foldl_put {ms done : List (String × JsonTree N)} (h : (done.map Prod.fst).Nodup) :
    ((ms.foldl put done).map Prod.fst).Nodup := by
  induction ms generalizing done with
  | nil => exact h
  | cons m ms ih => exact ih (nodup_put h m)

mutual
theorem distinct_collapse : (v : JsonTree N) → v.collapse.distinct = true
  | .null => rfl
  | .bool _ => rfl
  | .num _ => rfl
  | .str _ => rfl
  | .arr vs => distinctItems_collapse vs
  | .obj ms => by
    have hvalues := distinctMembers_iff.mp (distinctMembers_collapse ms)
    rw [collapse, distinct, Bool.and_eq_true, distinctMembers_iff]
    exact ⟨decide_eq_true (nodup_foldl_put List.nodup_nil),
      forall_mem_foldl_put hvalues (List.forall_mem_nil _)⟩

theorem distinctItems_collapse : (vs : List (JsonTree N)) →
    distinctItems (collapseItems vs) = true
  | [] => rfl
  | v :: vs => by
    rw [collapseItems, distinctItems, distinct_collapse v, distinctItems_collapse vs,
      Bool.and_self]

theorem distinctMembers_collapse : (ms : List (String × JsonTree N)) →
    distinctMembers (collapseMembers ms) = true
  | [] => rfl
  | (k,v) :: ms => by
    rw [collapseMembers, distinctMembers, distinct_collapse v, distinctMembers_collapse ms,
      Bool.and_self]
end

mutual
theorem collapse_of_distinct : (v : JsonTree N) → v.distinct = true → v.collapse = v
  | .null, _ => rfl
  | .bool _, _ => rfl
  | .num _, _ => rfl
  | .str _, _ => rfl
  | .arr vs, h => by rw [collapse, collapseItems_of_distinct vs h]
  | .obj ms, h => by
    rw [distinct, Bool.and_eq_true] at h
    rw [collapse, collapseMembers_of_distinct ms h.2, foldl_put (of_decide_eq_true h.1)]
    rfl

theorem collapseItems_of_distinct : (vs : List (JsonTree N)) → distinctItems vs = true →
    collapseItems vs = vs
  | [], _ => rfl
  | v :: vs, h => by
    rw [distinctItems, Bool.and_eq_true] at h
    rw [collapseItems, collapse_of_distinct v h.1, collapseItems_of_distinct vs h.2]

theorem collapseMembers_of_distinct : (ms : List (String × JsonTree N)) →
    distinctMembers ms = true → collapseMembers ms = ms
  | [], _ => rfl
  | (k,v) :: ms, h => by
    rw [distinctMembers, Bool.and_eq_true] at h
    rw [collapseMembers, collapse_of_distinct v h.1, collapseMembers_of_distinct ms h.2]
end

/-! ### Records -/

/-- The fields of a record that admits no others: all of them in an array, or each at most once by
its name. The ones marked may be left out, and are null then. -/
def fieldsOf (names : List (String × Bool)) : JsonTree N → Option (List (JsonTree N))
  | .arr vs => if vs.length = names.length then some vs else none
  | .obj ms =>
    if (ms.map Prod.fst).Nodup ∧ ∀ m ∈ ms, m.1 ∈ names.map Prod.fst then
      names.mapM fun name => match ms.find? fun m => m.1 = name.1 with
        | some m => some m.2
        | none => if name.2 then some .null else none
    else none
  | _ => none

def text? : JsonTree N → Option String
  | .str s => some s
  | _ => none

/-- The variant with its content, where a document names one of some. -/
def variantOf : JsonTree N → Option (String × JsonTree N)
  | .obj [(name, v)] => some (name,v)
  | _ => none

/-- A variant without content is a text, or the only name of an object, with null. -/
def unitOf {α : Type} (named : String → Option α) : JsonTree N → Option α
  | .str name => named name
  | .obj [(name, .null)] => named name
  | _ => none

def listOf {α : Type} (item : JsonTree N → Option α) : JsonTree N → Option (List α)
  | .arr vs => vs.mapM item
  | _ => none

/-- Null is none. -/
def optionOf {α : Type} (item : JsonTree N → Option α) : JsonTree N → Option (Option α)
  | .null => some none
  | v => (item v).map some

end JsonTree

/-- A value, as it is kept: no name repeats in it. -/
abbrev JsonValue (N : Type) := {v : JsonTree N // v.distinct = true}

namespace JsonValue

def ofTree (v : JsonTree N) : JsonValue N := ⟨v.collapse,v.distinct_collapse⟩

@[simp] lemma ofTree_val (v : JsonValue N) : ofTree v.val = v :=
  Subtype.ext (v.val.collapse_of_distinct v.property)

end JsonValue
end RisuNest
