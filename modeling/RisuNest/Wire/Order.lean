import RisuNest.Wire.Stamp
import Mathlib.Data.Finset.Basic
import Mathlib.Data.List.Perm.Basic

/-! The order in which the live records of a kind are read (`order.rs`). -/
namespace RisuNest.Wire

structure LiveRecord where
  id : String
  creationStamp : Stamp
  deriving DecidableEq

namespace ReadOrder

/-- Insertion into a map that is ordered by id. A record of the same id is replaced. -/
def insertRecord (r : LiveRecord) : List LiveRecord → List LiveRecord
  | [] => [r]
  | s :: rest =>
    if r.id < s.id then r :: s :: rest
    else if r.id = s.id then r :: rest
    else s :: insertRecord r rest

/-- The live records that are not retired, as the `BTreeMap` lists them. -/
def records (live : List LiveRecord) (retired : Finset String) : List LiveRecord :=
  (live.filter fun r => r.id ∉ retired).foldl (fun m r => insertRecord r m) []

/-- What the loop over the listed ids holds. -/
structure Listing where
  seen : Finset String
  result : List String

/-- One listed id. -/
def Listing.add (m : List LiveRecord) (s : Listing) (id : String) : Listing :=
  if id ∈ m.map LiveRecord.id ∧ id ∉ s.seen then ⟨insert id s.seen,s.result ++ [id]⟩ else s

def listed (m : List LiveRecord) (orderedIds : List String) : Listing :=
  orderedIds.foldl (Listing.add m) ⟨∅,[]⟩

/-- What the records that are not listed are sorted by. -/
def rank (r : LiveRecord) : Stamp ×ₗ String := toLex (r.creationStamp,r.id)

end ReadOrder

open ReadOrder

def readOrder (orderedIds : List String) (live : List LiveRecord) (retired : Finset String) :
    List String :=
  let m := records live retired
  let s := listed m orderedIds
  let unlisted := m.filter fun r => r.id ∉ s.seen
  s.result ++ (unlisted.mergeSort fun a b => rank a ≤ rank b).map LiveRecord.id

namespace ReadOrder

/-! ### The map -/

def ById (m : List LiveRecord) : Prop := m.Pairwise fun a b => a.id < b.id

lemma mem_insertRecord {r x : LiveRecord} {m : List LiveRecord} (h : ById m) :
    x ∈ insertRecord r m ↔ x = r ∨ x ∈ m ∧ x.id ≠ r.id := by
  induction m with
  | nil => simp [insertRecord]
  | cons s rest ih =>
    obtain ⟨hs,hrest⟩ := List.pairwise_cons.mp h
    unfold insertRecord
    split_ifs with hlt heq
    · have hne : ∀ y ∈ s :: rest, y.id ≠ r.id := by
        intro y hy
        obtain rfl | hy := List.mem_cons.mp hy
        · exact ne_of_gt hlt
        · exact ne_of_gt (lt_trans hlt (hs y hy))
      rw [List.mem_cons]
      exact or_congr_right ⟨fun hx => ⟨hx,hne x hx⟩,And.left⟩
    · have hne : ∀ y ∈ rest, y.id ≠ r.id := fun y hy => heq ▸ ne_of_gt (hs y hy)
      rw [List.mem_cons, List.mem_cons]
      constructor
      · rintro (rfl | hx)
        · exact .inl rfl
        · exact .inr ⟨.inr hx,hne x hx⟩
      · rintro (rfl | ⟨rfl | hx,hid⟩)
        · exact .inl rfl
        · exact absurd heq.symm hid
        · exact .inr hx
    · rw [List.mem_cons, ih hrest, List.mem_cons]
      constructor
      · rintro (rfl | rfl | ⟨hx,hid⟩)
        · exact .inr ⟨.inl rfl,Ne.symm heq⟩
        · exact .inl rfl
        · exact .inr ⟨.inr hx,hid⟩
      · rintro (rfl | ⟨rfl | hx,hid⟩)
        · exact .inr (.inl rfl)
        · exact .inl rfl
        · exact .inr (.inr ⟨hx,hid⟩)

lemma byId_insertRecord {r : LiveRecord} {m : List LiveRecord} (h : ById m) :
    ById (insertRecord r m) := by
  induction m with
  | nil => exact List.pairwise_singleton _ r
  | cons s rest ih =>
    obtain ⟨hs,hrest⟩ := List.pairwise_cons.mp h
    unfold insertRecord
    split_ifs with hlt heq
    · refine List.pairwise_cons.mpr ⟨fun y hy => ?_,h⟩
      obtain rfl | hy := List.mem_cons.mp hy
      · exact hlt
      · exact lt_trans hlt (hs y hy)
    · exact List.pairwise_cons.mpr ⟨fun y hy => heq ▸ hs y hy,hrest⟩
    · refine List.pairwise_cons.mpr ⟨fun y hy => ?_,ih hrest⟩
      obtain rfl | ⟨hy,-⟩ := (mem_insertRecord hrest).mp hy
      · exact lt_of_le_of_ne (le_of_not_gt hlt) (Ne.symm heq)
      · exact hs y hy

/-- An id has one record. -/
def OneEach (live : List LiveRecord) : Prop := ∀ r ∈ live, ∀ s ∈ live, r.id = s.id → r = s

instance (live : List LiveRecord) : Decidable (OneEach live) :=
  inferInstanceAs (Decidable (∀ r ∈ live, ∀ s ∈ live, r.id = s.id → r = s))

lemma mem_foldl_insert {l m : List LiveRecord} (hone : OneEach (l ++ m)) (hm : ById m) :
    ById (l.foldl (fun m r => insertRecord r m) m) ∧
      ∀ x, x ∈ l.foldl (fun m r => insertRecord r m) m ↔ x ∈ l ∨ x ∈ m := by
  induction l generalizing m with
  | nil => exact ⟨hm,fun x => by simp⟩
  | cons r l ih =>
    have hmem : ∀ x, x ∈ insertRecord r m ↔ x = r ∨ x ∈ m := by
      intro x
      rw [mem_insertRecord hm]
      refine or_congr_right' fun hne => and_iff_left_of_imp fun hx hid => hne ?_
      exact hone x (by simp [hx]) r (by simp) hid
    have hone' : OneEach (l ++ insertRecord r m) := by
      intro x hx y hy
      refine hone x ?_ y ?_
      · obtain hx | hx := List.mem_append.mp hx
        · simp [hx]
        · obtain rfl | hx := (hmem x).mp hx <;> simp [*]
      · obtain hy | hy := List.mem_append.mp hy
        · simp [hy]
        · obtain rfl | hy := (hmem y).mp hy <;> simp [*]
    obtain ⟨hsorted,hall⟩ := ih hone' (byId_insertRecord hm)
    refine ⟨hsorted,fun x => ?_⟩
    rw [List.foldl_cons, hall, hmem, List.mem_cons]
    exact or_left_comm.trans or_assoc.symm

section
variable {live : List LiveRecord}

lemma records_spec (retired : Finset String) (hone : OneEach live) : ById (records live retired) ∧
    ∀ r, r ∈ records live retired ↔ r ∈ live ∧ r.id ∉ retired := by
  have hone' : OneEach ((live.filter fun r => r.id ∉ retired) ++ []) := by
    intro r hr s hs
    simp only [List.append_nil, List.mem_filter] at hr hs
    exact hone r hr.1 s hs.1
  obtain ⟨hsorted,hmem⟩ := mem_foldl_insert hone' List.Pairwise.nil
  refine ⟨hsorted,fun r => (hmem r).trans ?_⟩
  simp

lemma records_congr {live' : List LiveRecord} (retired : Finset String) (hone : OneEach live)
    (h : ∀ r, r ∈ live' ↔ r ∈ live) : records live' retired = records live retired := by
  have hone' : OneEach live' := fun r hr s hs => hone r ((h r).mp hr) s ((h s).mp hs)
  obtain ⟨hsorted,hmem⟩ := records_spec retired hone
  obtain ⟨hsorted',hmem'⟩ := records_spec retired hone'
  have nodup {m : List LiveRecord} (hm : ById m) : m.Nodup :=
    hm.imp fun hab heq => absurd (congrArg LiveRecord.id heq) (ne_of_lt hab)
  have hperm : (records live' retired).Perm (records live retired) :=
    (List.perm_ext_iff_of_nodup (nodup hsorted') (nodup hsorted)).mpr fun r => by
      rw [hmem, hmem', h]
  exact hperm.eq_of_pairwise (fun a b _ _ hab hba => absurd (lt_trans hab hba) (lt_irrefl _))
    hsorted' hsorted

end

/-! ### The listed ids -/

/-- What the loop holds after some ids. -/
structure Listed (m : List LiveRecord) (done : List String) (s : Listing) : Prop where
  seen : ∀ id, id ∈ s.seen ↔ id ∈ s.result
  mem : ∀ id, id ∈ s.result ↔ id ∈ done ∧ id ∈ m.map LiveRecord.id
  ordered : s.result.Pairwise fun a b => done.idxOf a < done.idxOf b

lemma Listed.add {m : List LiveRecord} {done : List String} {s : Listing} (h : Listed m done s)
    (id : String) : Listed m (done ++ [id]) (s.add m id) := by
  have hkeep : s.result.Pairwise fun a b => (done ++ [id]).idxOf a < (done ++ [id]).idxOf b := by
    refine h.ordered.imp_of_mem fun ha hb hab => ?_
    rw [List.idxOf_append_of_mem ((h.mem _).mp ha).1, List.idxOf_append_of_mem ((h.mem _).mp hb).1]
    exact hab
  unfold Listing.add
  by_cases hc : id ∈ m.map LiveRecord.id ∧ id ∉ s.seen
  · rw [if_pos hc]
    have hnew : id ∉ done := fun hd => hc.2 ((h.seen id).mpr ((h.mem id).mpr ⟨hd,hc.1⟩))
    refine ⟨fun x => ?_,fun x => ?_,?_⟩
    · rw [Finset.mem_insert, h.seen, List.mem_append, List.mem_singleton]
      exact or_comm
    · rw [List.mem_append, h.mem, List.mem_append, List.mem_singleton]
      constructor
      · rintro (hx | rfl)
        · exact ⟨.inl hx.1,hx.2⟩
        · exact ⟨.inr rfl,hc.1⟩
      · rintro ⟨hx | rfl,hm⟩
        · exact .inl ⟨hx,hm⟩
        · exact .inr rfl
    · refine List.pairwise_append.mpr ⟨hkeep,List.pairwise_singleton _ _,fun a ha b hb => ?_⟩
      obtain rfl := List.mem_singleton.mp hb
      have hd := ((h.mem a).mp ha).1
      rw [List.idxOf_append_of_mem hd, List.idxOf_append_of_notMem hnew]
      exact Nat.lt_of_lt_of_le (List.idxOf_lt_length_of_mem hd) (Nat.le_add_right ..)
  · rw [if_neg hc]
    refine ⟨h.seen,fun x => ?_,hkeep⟩
    rw [h.mem, List.mem_append, List.mem_singleton]
    constructor
    · exact fun hx => ⟨.inl hx.1,hx.2⟩
    · rintro ⟨hx | rfl,hm⟩
      · exact ⟨hx,hm⟩
      · exact (h.mem x).mp ((h.seen x).mp (not_not.mp fun hs => hc ⟨hm,hs⟩))

theorem listed_spec (m : List LiveRecord) (orderedIds : List String) :
    Listed m orderedIds (listed m orderedIds) := by
  induction orderedIds using List.reverseRecOn with
  | nil => exact ⟨fun _ => by simp [listed],fun _ => by simp [listed],List.Pairwise.nil⟩
  | append_singleton done id ih =>
    unfold listed
    rw [List.foldl_concat]
    exact ih.add id

lemma Listed.nodup {m : List LiveRecord} {done : List String} {s : Listing}
    (h : Listed m done s) : s.result.Nodup :=
  h.ordered.imp fun hab heq => absurd (congrArg done.idxOf heq) (Nat.ne_of_lt hab)

lemma listed_eq_self {m : List LiveRecord} {ids : List String} (hn : ids.Nodup)
    (h : ∀ id ∈ ids, id ∈ m.map LiveRecord.id) : (listed m ids).result = ids := by
  induction ids using List.reverseRecOn with
  | nil => rfl
  | append_singleton done id ih =>
    obtain ⟨hd,-,hnew⟩ := List.nodup_append.mp hn
    have hdone := ih hd fun x hx => h x (List.mem_append_left _ hx)
    have hs : id ∉ (listed m done).seen := fun hs => by
      rw [(listed_spec m done).seen, hdone] at hs
      exact hnew id hs id (List.mem_singleton_self id) rfl
    change (List.foldl (Listing.add m) ⟨∅,[]⟩ (done ++ [id])).result = _
    rw [List.foldl_concat]
    change ((listed m done).add m id).result = _
    unfold Listing.add
    rw [if_pos ⟨h id (List.mem_append_right _ (List.mem_singleton_self id)),hs⟩, hdone]

/-! ### The order -/

/-- The records that are not listed, in the order they follow in. -/
def unlisted (m : List LiveRecord) (orderedIds : List String) : List LiveRecord :=
  (m.filter fun r => r.id ∉ (listed m orderedIds).seen).mergeSort fun a b => rank a ≤ rank b

lemma readOrder_eq (orderedIds : List String) (live : List LiveRecord) (retired : Finset String) :
    readOrder orderedIds live retired = (listed (records live retired) orderedIds).result ++
      (unlisted (records live retired) orderedIds).map LiveRecord.id := rfl

lemma mem_unlisted {m : List LiveRecord} {orderedIds : List String} {r : LiveRecord} :
    r ∈ unlisted m orderedIds ↔ r ∈ m ∧ r.id ∉ orderedIds := by
  have h := listed_spec m orderedIds
  unfold unlisted
  rw [List.mem_mergeSort, List.mem_filter, decide_eq_true_eq, h.seen, h.mem]
  exact and_congr_right fun hr => not_congr (and_iff_left (List.mem_map_of_mem hr))

lemma unlisted_sorted {m : List LiveRecord} (hm : ById m) (orderedIds : List String) :
    (unlisted m orderedIds).Pairwise fun a b => rank a < rank b := by
  have hperm : (unlisted m orderedIds).Perm _ := List.mergeSort_perm _ _
  have hne : (unlisted m orderedIds).Pairwise fun a b => a.id ≠ b.id := by
    refine hperm.symm.pairwise ((hm.imp fun hab => ne_of_lt hab).filter _) Ne.symm
  have hle : (unlisted m orderedIds).Pairwise fun a b => rank a ≤ rank b := by
    have hsort : (unlisted m orderedIds).Pairwise fun a b => decide (rank a ≤ rank b) = true :=
      List.pairwise_mergeSort
        (fun a b c hab hbc => by
          rw [decide_eq_true_eq] at hab hbc ⊢
          exact le_trans hab hbc)
        (fun a b => by simpa using le_total (rank a) (rank b)) _
    exact hsort.imp fun hab => of_decide_eq_true hab
  refine hle.and hne |>.imp fun hab => lt_of_le_of_ne hab.1 fun heq => hab.2 ?_
  exact congrArg Prod.snd (toLex.injective heq)

end ReadOrder

/-- The order holds every live record that is not retired once and nothing else: the listed ones in
their first listed order, then the others by creation and id. It does not depend on how the live
records are enumerated, and reading it as the listed order gives it again. -/
theorem readOrder_stable (orderedIds : List String) {live : List LiveRecord}
    (retired : Finset String) (hone : OneEach live) :
    (readOrder orderedIds live retired).Nodup ∧
    (∀ id, id ∈ readOrder orderedIds live retired ↔
      (∃ r ∈ live, r.id = id) ∧ id ∉ retired) ∧
    (∃ (first : List String) (rest : List LiveRecord),
      readOrder orderedIds live retired = first ++ rest.map LiveRecord.id ∧
      (∀ id, id ∈ first ↔ id ∈ orderedIds ∧ (∃ r ∈ live, r.id = id) ∧ id ∉ retired) ∧
      first.Pairwise (fun a b => orderedIds.idxOf a < orderedIds.idxOf b) ∧
      (∀ r, r ∈ rest ↔ r ∈ live ∧ r.id ∉ retired ∧ r.id ∉ orderedIds) ∧
      rest.Pairwise fun a b => a.creationStamp < b.creationStamp ∨
        a.creationStamp = b.creationStamp ∧ a.id < b.id) ∧
    (∀ live', (∀ r, r ∈ live' ↔ r ∈ live) →
      readOrder orderedIds live' retired = readOrder orderedIds live retired) ∧
    readOrder (readOrder orderedIds live retired) live retired =
      readOrder orderedIds live retired := by
  obtain ⟨hsorted,hrec⟩ := records_spec retired hone
  have hlisted := listed_spec (records live retired) orderedIds
  have hids : ∀ id, id ∈ (records live retired).map LiveRecord.id ↔
      (∃ r ∈ live, r.id = id) ∧ id ∉ retired := by
    intro id
    rw [List.mem_map]
    constructor
    · rintro ⟨r,hr,rfl⟩
      exact ⟨⟨r,((hrec r).mp hr).1,rfl⟩,((hrec r).mp hr).2⟩
    · rintro ⟨⟨r,hr,rfl⟩,hn⟩
      exact ⟨r,(hrec r).mpr ⟨hr,hn⟩,rfl⟩
  have hrest := unlisted_sorted hsorted orderedIds
  have hmem : ∀ id, id ∈ readOrder orderedIds live retired ↔
      id ∈ (records live retired).map LiveRecord.id := by
    intro id
    rw [readOrder_eq, List.mem_append, hlisted.mem, List.mem_map, List.mem_map]
    constructor
    · rintro (⟨-,h⟩ | ⟨r,hr,rfl⟩)
      · exact h
      · exact ⟨r,(mem_unlisted.mp hr).1,rfl⟩
    · rintro ⟨r,hr,rfl⟩
      by_cases ho : r.id ∈ orderedIds
      · exact .inl ⟨ho,r,hr,rfl⟩
      · exact .inr ⟨r,mem_unlisted.mpr ⟨hr,ho⟩,rfl⟩
  have hnodup : (readOrder orderedIds live retired).Nodup := by
    rw [readOrder_eq, List.nodup_append]
    refine ⟨hlisted.nodup,?_,?_⟩
    · refine List.Nodup.map_on ?_ (hrest.imp fun hab heq => absurd (congrArg rank heq) (ne_of_lt hab))
      intro a ha b hb hab
      have ha := (hrec a).mp (mem_unlisted.mp ha).1
      have hb := (hrec b).mp (mem_unlisted.mp hb).1
      exact hone a ha.1 b hb.1 hab
    · rintro a ha _ hb rfl
      obtain ⟨r,hr,rfl⟩ := List.mem_map.mp hb
      exact (mem_unlisted.mp hr).2 ((hlisted.mem _).mp ha).1
  refine ⟨hnodup,fun id => (hmem id).trans (hids id),?_,?_,?_⟩
  · refine ⟨_,_,readOrder_eq ..,fun id => ?_,hlisted.ordered,fun r => ?_,?_⟩
    · rw [hlisted.mem, hids]
    · rw [mem_unlisted, hrec, and_assoc]
    · exact hrest.imp fun hab => Prod.Lex.toLex_lt_toLex.mp hab
  · intro live' h
    unfold readOrder
    rw [records_congr retired hone h]
  · have hagain := listed_eq_self hnodup fun id hid => (hmem id).mp hid
    have hempty : unlisted (records live retired) (readOrder orderedIds live retired) = [] := by
      rw [List.eq_nil_iff_forall_not_mem]
      intro r hr
      obtain ⟨hr,hn⟩ := mem_unlisted.mp hr
      exact hn ((hmem r.id).mpr (List.mem_map_of_mem hr))
    rw [readOrder_eq (readOrder orderedIds live retired), hagain, hempty, List.map_nil,
      List.append_nil]

def sampleLive : List LiveRecord := [⟨"a",⟨1,0,""⟩⟩,⟨"b",⟨2,0,""⟩⟩,⟨"c",⟨1,0,""⟩⟩]

/-- A listed id goes before the others, and a listed id that is not alive is left out. -/
theorem readOrder_stable_sample : readOrder ["b","x","b"] sampleLive {"c"} = ["b","a"] ∧
    readOrder (readOrder ["b","x","b"] sampleLive {"c"}) sampleLive {"c"} =
      readOrder ["b","x","b"] sampleLive {"c"} :=
  ⟨by decide +kernel,(readOrder_stable ["b","x","b"] {"c"} (by decide)).2.2.2.2⟩

end RisuNest.Wire
