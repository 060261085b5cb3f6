import RisuNest.Wire.JsonText

/-! The order of the members of an object: values that differ in nothing else, and the sorted one
among them that a writer picks. -/
namespace RisuNest.Wire
open Payload JsonText

/-- The same value up to the order of the members of its objects. -/
inductive Reordered : Json → Json → Prop
  | refl (v) : Reordered v v
  | symm {v w} (h : Reordered v w) : Reordered w v
  | trans {v w x} (h : Reordered v w) (h' : Reordered w x) : Reordered v x
  | item (pre) {v w} (post) (h : Reordered v w) :
    Reordered (.arr (pre ++ v :: post)) (.arr (pre ++ w :: post))
  | member (pre) (k) {v w} (post) (h : Reordered v w) :
    Reordered (.obj (pre ++ (k,v) :: post)) (.obj (pre ++ (k,w) :: post))
  | swap {ms ns : List (String × Json)} (h : ms.Perm ns) : Reordered (.obj ms) (.obj ns)

/-- An order in which no two names share a place. -/
structure KeyOrder (le : String → String → Bool) : Prop where
  total : ∀ a b, le a b = true ∨ le b a = true
  trans : ∀ a b c, le a b = true → le b c = true → le a c = true
  antisymm : ∀ a b, le a b = true → le b a = true → a = b

mutual
/-- The value with the members of every object in order. -/
def sortBy (le : String → String → Bool) : Json → Json
  | .arr vs => .arr (sortItemsBy le vs)
  | .obj ms => .obj ((sortEachBy le ms).insertionSort fun a b => le a.1 b.1)
  | v => v

def sortItemsBy (le : String → String → Bool) : List Json → List Json
  | [] => []
  | v :: vs => sortBy le v :: sortItemsBy le vs

def sortEachBy (le : String → String → Bool) : List (String × Json) → List (String × Json)
  | [] => []
  | (k,v) :: ms => (k,sortBy le v) :: sortEachBy le ms
end

/-! ### Lists of items and of members -/

lemma sortItemsBy_eq (le : String → String → Bool) (vs : List Json) :
    sortItemsBy le vs = vs.map (sortBy le) := by
  induction vs with
  | nil => rfl
  | cons v vs ih => rw [sortItemsBy, ih, List.map_cons]

lemma sortEachBy_eq (le : String → String → Bool) (ms : List (String × Json)) :
    sortEachBy le ms = ms.map fun m => (m.1,sortBy le m.2) := by
  induction ms with
  | nil => rfl
  | cons m ms ih => rw [sortEachBy, ih, List.map_cons]

lemma distinctItems_eq (vs : List Json) : Json.distinctItems vs = vs.all Json.distinct := by
  induction vs with
  | nil => rfl
  | cons v vs ih => rw [Json.distinctItems, ih, List.all_cons]

lemma distinctMembers_eq (ms : List (String × Json)) :
    Json.distinctMembers ms = ms.all fun m => m.2.distinct := by
  induction ms with
  | nil => rfl
  | cons m ms ih => rw [Json.distinctMembers, ih, List.all_cons]

lemma shallowItems_eq (depth : ℕ) (vs : List Json) :
    shallowItems depth vs = vs.all (shallow depth) := by
  induction vs with
  | nil => rfl
  | cons v vs ih => rw [shallowItems, ih, List.all_cons]

lemma shallowMembers_eq (depth : ℕ) (ms : List (String × Json)) :
    shallowMembers depth ms = ms.all fun m => shallow depth m.2 := by
  induction ms with
  | nil => rfl
  | cons m ms ih => rw [shallowMembers, ih, List.all_cons]

lemma numbersOfItems_eq (vs : List Json) : numbersOfItems vs = vs.flatMap numbers := by
  induction vs with
  | nil => rfl
  | cons v vs ih => rw [numbersOfItems, ih, List.flatMap_cons]

lemma numbersOfMembers_eq (ms : List (String × Json)) :
    numbersOfMembers ms = ms.flatMap fun m => numbers m.2 := by
  induction ms with
  | nil => rfl
  | cons m ms ih => rw [numbersOfMembers, ih, List.flatMap_cons]

/-! ### What the order of members leaves alone -/

lemma all_perm {α : Type} {l l' : List α} (h : l.Perm l') (p : α → Bool) : l.all p = l'.all p := by
  rw [Bool.eq_iff_iff, List.all_eq_true, List.all_eq_true]
  exact ⟨fun hl a ha => hl a (h.mem_iff.mpr ha),fun hl a ha => hl a (h.mem_iff.mp ha)⟩

theorem Reordered.distinct_eq {v w : Json} (h : Reordered v w) : v.distinct = w.distinct := by
  induction h with
  | refl => rfl
  | symm _ ih => exact ih.symm
  | trans _ _ ih ih' => exact ih.trans ih'
  | item pre post _ ih =>
    simp only [Json.distinct, distinctItems_eq, List.all_append, List.all_cons, ih]
  | member pre k post _ ih =>
    simp only [Json.distinct, distinctMembers_eq, List.all_append, List.all_cons, ih,
      List.map_append, List.map_cons]
  | @swap ms ns h =>
    have hn : (ms.map Prod.fst).Nodup ↔ (ns.map Prod.fst).Nodup := (h.map Prod.fst).nodup_iff
    simp only [Json.distinct, distinctMembers_eq, all_perm h, hn]

theorem Reordered.shallow_eq {v w : Json} (h : Reordered v w) (depth : ℕ) :
    shallow depth v = shallow depth w := by
  induction h generalizing depth with
  | refl => rfl
  | symm _ ih => exact (ih depth).symm
  | trans _ _ ih ih' => exact (ih depth).trans (ih' depth)
  | item pre post _ ih =>
    simp only [shallow, shallowItems_eq, List.all_append, List.all_cons, ih]
  | member pre k post _ ih =>
    simp only [shallow, shallowMembers_eq, List.all_append, List.all_cons, ih]
  | swap h => simp only [shallow, shallowMembers_eq, all_perm h]

theorem Reordered.numbers_iff {v w : Json} (h : Reordered v w) (n : ℚ) :
    n ∈ numbers v ↔ n ∈ numbers w := by
  induction h with
  | refl => rfl
  | symm _ ih => exact ih.symm
  | trans _ _ ih ih' => exact ih.trans ih'
  | item pre post _ ih =>
    simp only [numbers, numbersOfItems_eq, List.flatMap_append, List.flatMap_cons, List.mem_append,
      ih]
  | member pre k post _ ih =>
    simp only [numbers, numbersOfMembers_eq, List.flatMap_append, List.flatMap_cons,
      List.mem_append, ih]
  | swap h => simp only [numbers, numbersOfMembers_eq, List.mem_flatMap, h.mem_iff]

/-! ### Sorting -/

section
variable {le : String → String → Bool}

/-- Members in a sorted list. -/
def sortedMembers (le : String → String → Bool) (ms : List (String × Json)) : List (String × Json) :=
  ms.insertionSort fun a b => le a.1 b.1

lemma pairwise_sortedMembers (hle : KeyOrder le) (ms : List (String × Json)) :
    (sortedMembers le ms).Pairwise fun a b => le a.1 b.1 = true := by
  have : Std.Total fun a b : String × Json => le a.1 b.1 = true := ⟨fun a b => hle.total a.1 b.1⟩
  have : IsTrans (String × Json) fun a b => le a.1 b.1 = true :=
    ⟨fun a b c => hle.trans a.1 b.1 c.1⟩
  exact List.pairwise_insertionSort _ ms

lemma sortedMembers_perm (hle : KeyOrder le) {ms ns : List (String × Json)} (h : ms.Perm ns)
    (hn : (ms.map Prod.fst).Nodup) : sortedMembers le ms = sortedMembers le ns := by
  have hms := List.perm_insertionSort (fun a b : String × Json => le a.1 b.1 = true) ms
  have hns := List.perm_insertionSort (fun a b : String × Json => le a.1 b.1 = true) ns
  refine List.Perm.eq_of_pairwise ?_ (pairwise_sortedMembers hle ms) (pairwise_sortedMembers hle ns)
    (hms.trans (h.trans hns.symm))
  intro a b ha hb hab hba
  have hname := hle.antisymm _ _ hab hba
  exact List.inj_on_of_nodup_map hn (hms.mem_iff.mp ha) (h.mem_iff.mpr (hns.mem_iff.mp hb)) hname

lemma reordered_items {vs : List Json} {f : Json → Json} (h : ∀ v ∈ vs, Reordered v (f v))
    (pre : List Json) : Reordered (.arr (pre ++ vs)) (.arr (pre ++ vs.map f)) := by
  induction vs generalizing pre with
  | nil => exact .refl _
  | cons v vs ih =>
    obtain ⟨hv,hvs⟩ := List.forall_mem_cons.mp h
    have hrest := ih hvs (pre ++ [f v])
    simp only [List.append_assoc, List.singleton_append] at hrest
    exact (Reordered.item pre vs hv).trans hrest

lemma reordered_members {ms : List (String × Json)} {f : Json → Json}
    (h : ∀ m ∈ ms, Reordered m.2 (f m.2)) (pre : List (String × Json)) :
    Reordered (.obj (pre ++ ms)) (.obj (pre ++ ms.map fun m => (m.1,f m.2))) := by
  induction ms generalizing pre with
  | nil => exact .refl _
  | cons m ms ih =>
    obtain ⟨hm,hms⟩ := List.forall_mem_cons.mp h
    have hrest := ih hms (pre ++ [(m.1,f m.2)])
    simp only [List.append_assoc, List.singleton_append] at hrest
    exact (Reordered.member pre m.1 ms hm).trans hrest

mutual
theorem reordered_sortBy (le : String → String → Bool) : ∀ v : Json, Reordered v (sortBy le v)
  | .null => .refl _
  | .bool _ => .refl _
  | .num _ => .refl _
  | .str _ => .refl _
  | .arr vs => by
    have h := reordered_items (reordered_sortItemsBy le vs) []
    rw [← sortItemsBy_eq] at h
    exact h
  | .obj ms => by
    have h := reordered_members (reordered_sortEachBy le ms) []
    rw [List.nil_append, List.nil_append, ← sortEachBy_eq] at h
    exact h.trans (.swap (List.perm_insertionSort _ _).symm)

theorem reordered_sortItemsBy (le : String → String → Bool) : ∀ vs : List Json,
    ∀ v ∈ vs, Reordered v (sortBy le v)
  | [] => nofun
  | v :: vs => List.forall_mem_cons.mpr ⟨reordered_sortBy le v,reordered_sortItemsBy le vs⟩

theorem reordered_sortEachBy (le : String → String → Bool) : ∀ ms : List (String × Json),
    ∀ m ∈ ms, Reordered m.2 (sortBy le m.2)
  | [] => nofun
  | (_,v) :: ms => List.forall_mem_cons.mpr ⟨reordered_sortBy le v,reordered_sortEachBy le ms⟩
end

lemma names_sorted (ms : List (String × Json)) :
    (ms.map fun m => (m.1,sortBy le m.2)).map Prod.fst = ms.map Prod.fst := by
  rw [List.map_map]
  rfl

/-- Values that differ in the order of members only are the same once sorted. -/
theorem Reordered.sortBy_eq (hle : KeyOrder le) {v w : Json} (h : Reordered v w)
    (hd : v.distinct = true) : sortBy le v = sortBy le w := by
  induction h with
  | refl => rfl
  | symm h ih => exact (ih (h.distinct_eq.trans hd)).symm
  | trans h _ ih ih' => exact (ih hd).trans (ih' (h.distinct_eq.symm.trans hd))
  | item pre post _ ih =>
    simp only [Json.distinct, distinctItems_eq, List.all_append, List.all_cons, Bool.and_eq_true]
      at hd
    simp only [sortBy, sortItemsBy_eq, List.map_append, List.map_cons, ih hd.2.1]
  | member pre k post _ ih =>
    simp only [Json.distinct, distinctMembers_eq, List.all_append, List.all_cons, Bool.and_eq_true]
      at hd
    simp only [sortBy, sortEachBy_eq, List.map_append, List.map_cons, ih hd.2.2.1]
  | @swap ms ns h =>
    simp only [Json.distinct, Bool.and_eq_true, decide_eq_true_eq] at hd
    have hsorted := sortedMembers_perm hle (h.map fun m => (m.1,sortBy le m.2))
      ((names_sorted ms).symm ▸ hd.1)
    simp only [sortBy, sortEachBy_eq]
    exact congrArg Json.obj hsorted

theorem sortBy_eq_iff (hle : KeyOrder le) {v w : Json} (hd : v.distinct = true) :
    sortBy le v = sortBy le w ↔ Reordered v w := by
  constructor
  · intro h
    exact (reordered_sortBy le v).trans (h ▸ (reordered_sortBy le w).symm)
  · exact fun h => h.sortBy_eq hle hd

theorem sortBy_idem (hle : KeyOrder le) {v : Json} (hd : v.distinct = true) :
    sortBy le (sortBy le v) = sortBy le v :=
  ((reordered_sortBy le v).sortBy_eq hle hd).symm

end

/-! ### The two orders -/

/-- One character off the front of some code units. -/
private def readUnits : List ℕ → Option (Char × List ℕ)
  | [] => none
  | n :: r =>
    match charOf [n], r with
    | some c, r => some (c,r)
    | none, m :: r => (charOf [n,m]).map fun c => (c,r)
    | none, [] => none

lemma utf16Units_cases (c : Char) :
    (∃ n, utf16Units c = [n]) ∨ ∃ n m, utf16Units c = [n,m] := by
  unfold utf16Units
  split_ifs
  · exact .inl ⟨_,rfl⟩
  · exact .inr ⟨_,_,rfl⟩

lemma utf16Units_selfDelimiting : SelfDelimiting utf16Units := by
  refine SelfDelimiting.of_decoder readUnits fun c r => ?_
  rcases utf16Units_cases c with ⟨n,hunits⟩ | ⟨n,m,hunits⟩
  · rw [hunits]
    simp only [List.singleton_append, readUnits, charOf_eq_some.mpr hunits]
  · rw [hunits]
    simp only [List.cons_append, List.nil_append, readUnits, charOf_high hunits,
      charOf_eq_some.mpr hunits, Option.map_some]

theorem encodeUtf16_injective : Function.Injective encodeUtf16 := by
  intro a b h
  refine String.toList_inj.mp (utf16Units_selfDelimiting.flatMap_injective (fun c hc => ?_) h)
  rcases utf16Units_cases c with ⟨n,hunits⟩ | ⟨n,m,hunits⟩ <;>
  · rw [hunits] at hc
    cases hc

/-- `a.encode_utf16().cmp(b.encode_utf16())`: the first name is not after the second. -/
def utf16Le (a b : String) : Bool := decide (encodeUtf16 a ≤ encodeUtf16 b)

theorem keyOrder_utf16Le : KeyOrder utf16Le where
  total a b := by
    simp only [utf16Le, decide_eq_true_eq]
    exact le_total _ _
  trans a b c := by
    simp only [utf16Le, decide_eq_true_eq]
    exact le_trans
  antisymm a b := by
    simp only [utf16Le, decide_eq_true_eq]
    exact fun h h' => encodeUtf16_injective (le_antisymm h h')

lemma arrayIndex_eq_some {a : String} {i : ℕ} (h : arrayIndex a = some i) : toString i = a := by
  unfold arrayIndex at h
  split_ifs at h
  obtain ⟨-,h⟩ := Option.filter_eq_some_iff.mp h
  simp only [Bool.and_eq_true, decide_eq_true_eq] at h
  exact h.2

theorem keyOrder_keyLe : KeyOrder keyLe where
  total a b := by
    unfold keyLe
    cases arrayIndex a <;> cases arrayIndex b <;> simp only [decide_eq_true_eq]
    · exact le_total _ _
    · exact .inr trivial
    · exact .inl trivial
    · exact le_total _ _
  trans a b c := by
    unfold keyLe
    cases arrayIndex a <;> cases arrayIndex b <;> cases arrayIndex c <;>
      simp only [decide_eq_true_eq, reduceCtorEq, false_implies, implies_true]
    · exact le_trans
    · exact le_trans
  antisymm a b := by
    unfold keyLe
    cases ha : arrayIndex a <;> cases hb : arrayIndex b <;>
      simp only [decide_eq_true_eq, reduceCtorEq, false_implies, implies_true]
    · exact fun h h' => encodeUtf16_injective (le_antisymm h h')
    · intro h h'
      rw [← arrayIndex_eq_some ha, ← arrayIndex_eq_some hb, le_antisymm h h']

mutual
theorem sortMembers_eq : ∀ v : Json, sortMembers v = sortBy keyLe v
  | .null => rfl
  | .bool _ => rfl
  | .num _ => rfl
  | .str _ => rfl
  | .arr vs => congrArg Json.arr (sortItems_eq vs)
  | .obj ms => by rw [sortMembers, sortBy, sortEach_eq]

theorem sortItems_eq : ∀ vs : List Json, sortItems vs = sortItemsBy keyLe vs
  | [] => rfl
  | v :: vs => by rw [sortItems, sortItemsBy, sortMembers_eq, sortItems_eq]

theorem sortEach_eq : ∀ ms : List (String × Json), sortEach ms = sortEachBy keyLe ms
  | [] => rfl
  | (_,v) :: ms => by rw [sortEach, sortEachBy, sortMembers_eq, sortEach_eq]
end

end RisuNest.Wire
