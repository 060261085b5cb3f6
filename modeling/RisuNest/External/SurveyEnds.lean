import RisuNest.External.Survey
import Mathlib.Data.Finset.Card
import Mathlib.Data.Finset.Lattice.Fold
import Mathlib.Data.Set.Finite.Basic

/-! A survey of a repository with finitely many objects ends: the walks see every locator once, and
the loops over the edges take every key once. -/
namespace RisuNest.External
open Wire

/-- The computation was not cut short. -/
def Ends {α : Type} (x : Fueled α) : Prop := x ≠ .error .outOfFuel

lemma ends_ok {α : Type} (a : α) : Ends (.ok a) := fun h => by cases h

lemma ends_run {α : Type} (x : Provided α) : Ends (run x) := by
  intro h
  cases x with
  | ok a => cases h
  | error e => cases h

lemma Ends.bind {α β : Type} {x : Fueled α} {f : α → Fueled β} (h : Ends x)
    (hf : ∀ a, x = .ok a → Ends (f a)) : Ends (x >>= f) := by
  intro he
  rcases bind_eq_error.mp he with hx | ⟨a, ha, hx⟩
  · exact h hx
  · exact hf a ha hx

/-! ### Walks -/

section
variable {cr : Crates} {source : DocumentSource} {repository : RepositoryHandle}
  {formatRepositoryId : String} {roots : Set RemoteObject} {pending : List RemoteObject}
  {g : Graph} {memo : Memo}

/-- The locators of the named objects, and how many objects each of them names. -/
structure Bounded (source : DocumentSource) (roots : Set RemoteObject) (keys : Finset String)
    (width : ℕ) : Prop where
  keys : ∀ o, Named source roots o → keyOf o ∈ keys
  width : ∀ o cs, Named source roots o → visit source o = .ok (some cs) → cs.length ≤ width

lemma Bounded.mono {roots' : Set RemoteObject} {keys : Finset String} {width : ℕ}
    (h : Bounded source roots' keys width) (hr : roots ⊆ roots') :
    Bounded source roots keys width :=
  ⟨fun o ho => h.keys o (ho.mono hr),fun o cs ho => h.width o cs (ho.mono hr)⟩

theorem exists_bounded (h : {o | Named source roots o}.Finite) :
    ∃ keys width, Bounded source roots keys width := by
  classical
  let count : RemoteObject → ℕ := fun o => ((visit source o).toOption.join.map List.length).getD 0
  refine ⟨h.toFinset.image keyOf,h.toFinset.sup count,?_,?_⟩
  · exact fun o ho => Finset.mem_image_of_mem _ (h.mem_toFinset.mpr ho)
  · intro o cs ho hv
    have hle : count o ≤ h.toFinset.sup count := Finset.le_sup (h.mem_toFinset.mpr ho)
    simpa [count, hv, Except.toOption] using hle

/-- The locators a walk has not met. -/
def unmet (keys : Finset String) (g : Graph) : Finset String :=
  keys.filter fun k => g.identities.get k = none

theorem ends_walkFrom (consistent : Consistent cr source repository formatRepositoryId)
    {keys : Finset String} {width : ℕ} (hb : Bounded source roots keys width)
    {tolerateMissing : Bool} {fuel : ℕ}
    (hw : Walking cr source repository formatRepositoryId roots pending g)
    (hm : Remembers cr source repository formatRepositoryId memo)
    (hf : pending.length + (unmet keys g).card * (width+1) ≤ fuel) :
    Ends (walkFrom cr source repository formatRepositoryId tolerateMissing fuel pending
      (g,memo)) := by
  induction fuel generalizing pending g memo with
  | zero =>
    cases pending with
    | nil => exact ends_ok _
    | cons o rest => simp at hf
  | succ fuel ih =>
    cases pending with
    | nil => exact ends_ok _
    | cons o rest =>
      rw [List.length_cons] at hf
      rw [walkFrom]
      refine (ends_run _).bind fun i hi => ?_
      rw [run_eq_ok] at hi
      cases hk : g.identities.get (keyOf o) with
      | some previous =>
        refine (ends_run _).bind fun _ he => ?_
        rw [run_eq_ok, require_eq_ok] at he
        exact ih (hw.skip hi (he ▸ hk)) hm (by omega)
      | none =>
        refine (ends_run _).bind fun visited hv => (ends_run _).bind fun _ _ => ?_
        rw [run_eq_ok] at hv
        obtain ⟨visited, memo₁⟩ := visited
        obtain ⟨hvisit, hm'⟩ := visitOnce_eq_ok consistent hm hi hv
        have hnamed := hw.queued o List.mem_cons_self
        have hlen : (visited.getD []).length ≤ width := by
          cases hvis : visited with
          | none => simp
          | some cs => exact hb.width o cs hnamed (hvis ▸ hvisit)
        have hmet : (unmet keys (g.record o i visited)).card + 1 ≤ (unmet keys g).card := by
          have hin : keyOf o ∈ unmet keys g := Finset.mem_filter.mpr ⟨hb.keys o hnamed,hk⟩
          rw [← Finset.card_erase_add_one hin]
          refine Nat.add_le_add_right (Finset.card_le_card ?_) 1
          intro k hku
          obtain ⟨hkk, hkn⟩ := Finset.mem_filter.mp hku
          have hget : (g.record o i visited).identities.get k =
              if k = keyOf o then some i else g.identities.get k := by
            cases visited <;> simp [Graph.record]
          rw [hget] at hkn
          split_ifs at hkn with he
          exact Finset.mem_erase.mpr ⟨he,Finset.mem_filter.mpr ⟨hkk,hkn⟩⟩
        refine ih (hw.record hi hk hvisit) hm' ?_
        dsimp only
        rw [List.length_append]
        have hmul := Nat.mul_le_mul_right (width+1) hmet
        rw [Nat.add_mul, Nat.one_mul] at hmul
        omega

end

/-! ### Loops over the edges -/

namespace Graph

/-- The keys among these that still have edges into them. -/
def waiting (keys : Finset String) (incoming : Table String ℕ) : Finset String :=
  keys.filter fun k => (incoming.get k).any fun n => decide (n ≠ 0)

lemma card_waiting_upsert {keys : Finset String} {incoming : Table String ℕ} {k : String} {n : ℕ}
    (hk : k ∈ keys) (hn : incoming.get k = some n) (hne : n ≠ 0) :
    (waiting keys (incoming.upsert k (n-1))).card + (if n = 1 then 1 else 0) ≤
      (waiting keys incoming).card := by
  have hin : k ∈ waiting keys incoming := Finset.mem_filter.mpr ⟨hk,by simp [hn, hne]⟩
  have hsub : waiting keys (incoming.upsert k (n-1)) ⊆ waiting keys incoming := by
    intro l hl
    obtain ⟨hlk, hlw⟩ := Finset.mem_filter.mp hl
    by_cases he : l = k
    · exact he ▸ hin
    · rw [Table.get_upsert, if_neg he] at hlw
      exact Finset.mem_filter.mpr ⟨hlk,hlw⟩
  split_ifs with h1
  · rw [← Finset.card_erase_add_one hin]
    refine Nat.add_le_add_right (Finset.card_le_card ?_) 1
    intro l hl
    refine Finset.mem_erase.mpr ⟨?_,hsub hl⟩
    rintro rfl
    have hlw := (Finset.mem_filter.mp hl).2
    simp [h1] at hlw
  · exact Finset.card_le_card hsub

lemma release_le {keys : Finset String} {children : List String}
    {s s' : Table String ℕ × List String} (hk : ∀ k n, s.1.get k = some n → k ∈ keys)
    (h : children.foldlM releaseChild s = .ok s') :
    (∀ k n, s'.1.get k = some n → k ∈ keys) ∧
      s'.2.length + (waiting keys s'.1).card ≤ s.2.length + (waiting keys s.1).card := by
  refine foldlM_induct (I := fun (_ : List String) (t : Table String ℕ × List String) =>
    (∀ k n, t.1.get k = some n → k ∈ keys) ∧
      t.2.length + (waiting keys t.1).card ≤ s.2.length + (waiting keys s.1).card) ?_
    ⟨hk,le_rfl⟩ h
  rintro _ t child t' ⟨hkeys, hle⟩ ht
  unfold releaseChild at ht
  cases hn : t.1.get child with
  | none =>
    rw [hn] at ht
    cases ht
    exact ⟨hkeys,hle⟩
  | some n =>
    simp only [hn] at ht
    obtain ⟨_, hne, ht⟩ := bind_eq_ok.mp ht
    cases ht
    have hcard := card_waiting_upsert (hkeys child n hn) hn (require_eq_ok.mp hne)
    constructor
    · intro k m hm
      rw [Table.get_upsert] at hm
      split_ifs at hm with he
      · exact he ▸ hkeys child n hn
      · exact hkeys k m hm
    · dsimp only
      split_ifs at hcard ⊢ with h1
      · rw [List.length_append, List.length_singleton]
        omega
      · omega

lemma ends_drain {g : Graph} {keys : Finset String} {fuel : ℕ} {incoming : Table String ℕ}
    {ready : List String} {visited : ℕ} (hk : ∀ k n, incoming.get k = some n → k ∈ keys)
    (hf : ready.length + (waiting keys incoming).card ≤ fuel) :
    Ends (g.drain fuel incoming ready visited) := by
  induction fuel generalizing incoming ready visited with
  | zero =>
    cases ready with
    | nil => exact ends_ok _
    | cons k rest => simp at hf
  | succ fuel ih =>
    cases ready with
    | nil => exact ends_ok _
    | cons k rest =>
      rw [List.length_cons] at hf
      refine (ends_run _).bind fun released hr => ?_
      rw [run_eq_ok] at hr
      obtain ⟨hk', hle⟩ := release_le hk hr
      dsimp only at hle
      exact ih hk' (by omega)

lemma countIncoming_keys {g : Graph} {keys : List String} {allowed : String → Bool}
    {incoming : Table String ℕ} (h : g.countIncoming keys allowed = .ok incoming) :
    ∀ k n, incoming.get k = some n → k ∈ keys := by
  have hzero : ∀ (ks : List String) (t : Table String ℕ),
      (∀ k n, t.get k = some n → k ∈ keys) → (∀ k ∈ ks, k ∈ keys) →
      ∀ k n, (ks.foldl (fun t key => t.insertOrIgnore key 0) t).get k = some n → k ∈ keys := by
    intro ks
    induction ks with
    | nil => exact fun t ht _ => ht
    | cons l ks ih =>
      intro t ht hks
      rw [List.forall_mem_cons] at hks
      refine ih _ ?_ hks.2
      intro k n hn
      rw [Table.get_insertOrIgnore] at hn
      split_ifs at hn with he
      · exact he ▸ hks.1
      · exact ht k n hn
  unfold countIncoming at h
  refine foldlM_induct (I := fun (_ : List String) (t : Table String ℕ) =>
    ∀ k n, t.get k = some n → k ∈ keys) ?_
    (hzero keys .empty (fun _ _ h => (by cases h)) fun _ h => h) h
  intro _ t key t' ht hkey
  refine foldlM_induct (I := fun (_ : List String) (t : Table String ℕ) =>
    ∀ k n, t.get k = some n → k ∈ keys) ?_ ht hkey
  intro _ u child u' hu hc
  unfold countChild at hc
  cases hn : u.get child with
  | none =>
    rw [hn] at hc
    obtain ⟨_, -, hc⟩ := bind_eq_ok.mp hc
    cases hc
    exact hu
  | some n =>
    rw [hn] at hc
    cases hc
    intro k m hm
    rw [Table.get_upsert] at hm
    split_ifs at hm with he
    · exact he ▸ hu child n hn
    · exact hu k m hm

lemma ready_add_waiting_le {keys : List String} (incoming : Table String ℕ)
    (hn : keys.Nodup) :
    (keys.filter fun key => incoming.get key = some 0).length +
      (waiting keys.toFinset incoming).card ≤ keys.length := by
  have hready : (keys.filter fun key => incoming.get key = some 0).length =
      (keys.toFinset.filter fun key => incoming.get key = some 0).card := by
    rw [← List.toFinset_card_of_nodup (hn.filter _), List.toFinset_filter]
    simp
  rw [hready, waiting, ← List.toFinset_card_of_nodup hn, ← Finset.card_union_of_disjoint]
  · exact Finset.card_le_card (Finset.union_subset (Finset.filter_subset _ _)
      (Finset.filter_subset _ _))
  · rw [Finset.disjoint_filter]
    intro k _ h0 hany
    simp [h0] at hany

lemma ends_checkAcyclic {g : Graph} {fuel : ℕ} (hf : g.nodes.rows.length ≤ fuel) :
    Ends (g.checkAcyclic fuel) := by
  unfold checkAcyclic
  refine (ends_run _).bind fun incoming hi => Ends.bind ?_ fun _ _ => ends_run _
  rw [run_eq_ok] at hi
  have hkeys := countIncoming_keys hi
  have hle := ready_add_waiting_le incoming g.nodes.nodup
  rw [List.length_map] at hle
  exact ends_drain (fun k n hn => List.mem_toFinset.mpr (hkeys k n hn)) (hle.trans hf)

end Graph

/-! ### A mark -/

lemma length_le_card {ks : List String} {keys : Finset String} (hn : ks.Nodup)
    (h : ∀ k ∈ ks, k ∈ keys) : ks.length ≤ keys.card := by
  rw [← List.toFinset_card_of_nodup hn]
  exact Finset.card_le_card fun k hk => h k (List.mem_toFinset.mp hk)

namespace MarkRequest
variable {cr : Crates} {source : DocumentSource} {request : MarkRequest}

lemma length_insertKey_le (k : String) (keys : List String) :
    (insertKey k keys).length ≤ keys.length + 1 := by
  unfold insertKey
  split_ifs
  · omega
  · rw [List.orderedInsert_length]

lemma length_keySet_le (keys : List String) : (keySet keys).length ≤ keys.length := by
  induction keys with
  | nil => exact le_rfl
  | cons k keys ih =>
    exact (length_insertKey_le k _).trans (Nat.add_le_add_right ih 1)

lemma delay_le {keys : Finset String} {delays : Bool} {children : List String} {c c' : Collection}
    (hk : ∀ k n, c.incoming.get k = some n → k ∈ keys)
    (h : children.foldlM (delayChild delays) c = .ok c') :
    (∀ k n, c'.incoming.get k = some n → k ∈ keys) ∧
      c'.ready.length + (Graph.waiting keys c'.incoming).card ≤
        c.ready.length + (Graph.waiting keys c.incoming).card := by
  refine foldlM_induct (I := fun (_ : List String) (d : Collection) =>
    (∀ k n, d.incoming.get k = some n → k ∈ keys) ∧
      d.ready.length + (Graph.waiting keys d.incoming).card ≤
        c.ready.length + (Graph.waiting keys c.incoming).card) ?_ ⟨hk,le_rfl⟩ h
  rintro _ d child d' ⟨hkeys, hle⟩ hd
  unfold delayChild at hd
  cases hn : d.incoming.get child with
  | none =>
    rw [hn] at hd
    cases hd
    exact ⟨hkeys,hle⟩
  | some n =>
    simp only [hn] at hd
    obtain ⟨_, hne, hd⟩ := bind_eq_ok.mp hd
    cases hd
    have hcard := Graph.card_waiting_upsert (hkeys child n hn) hn (require_eq_ok.mp hne)
    constructor
    · intro k m hm
      rw [Table.get_upsert] at hm
      split_ifs at hm with he
      · exact he ▸ hkeys child n hn
      · exact hkeys k m hm
    · dsimp only
      split_ifs at hcard ⊢ with h1
      · have := length_insertKey_le child d.ready
        omega
      · omega

lemma ends_collect {candidates : Graph} {unreachable : List String} {observed : Table String ℕ}
    {keys : Finset String} {fuel : ℕ} {c : Collection}
    (hk : ∀ k n, c.incoming.get k = some n → k ∈ keys)
    (hf : c.ready.length + (Graph.waiting keys c.incoming).card ≤ fuel) :
    Ends (request.collect candidates unreachable observed fuel c) := by
  induction fuel generalizing c with
  | zero =>
    unfold collect
    cases hr : c.ready with
    | nil => exact ends_ok _
    | cons k rest => simp [hr] at hf
  | succ fuel ih =>
    unfold collect
    cases hr : c.ready with
    | nil => exact ends_ok _
    | cons k rest =>
      rw [hr, List.length_cons] at hf
      dsimp only
      cases hn : candidates.nodes.get k with
      | none =>
        intro h
        cases h
      | some n =>
        refine (ends_run _).bind fun released hrel => ?_
        rw [run_eq_ok] at hrel
        obtain ⟨hk', hle⟩ := delay_le (by exact hk) hrel
        dsimp only [collectNode] at hle
        exact ih hk' (by omega)

lemma ends_select {s : Surveyed} {observed : Table String ℕ} {fuel : ℕ}
    (hf : s.candidates.nodes.rows.length ≤ fuel) :
    Ends (request.select source s observed fuel) := by
  unfold select
  refine (ends_run _).bind fun incoming hi => Ends.bind ?_ fun _ _ => (ends_run _).bind fun _ _ =>
    (ends_run _).bind fun _ _ => (ends_run _).bind fun _ _ => ends_ok _
  rw [run_eq_ok] at hi
  have hnodup := s.candidates.nodes.nodup.filter fun key => decide (key ∉ s.reachable)
  have hkeys := Graph.countIncoming_keys hi
  refine ends_collect (fun k n hn => List.mem_toFinset.mpr (hkeys k n hn)) ?_
  have hle := Graph.ready_add_waiting_le incoming hnodup
  have hset := length_keySet_le
    (((s.candidates.nodes.rows.map Prod.fst).filter fun key => decide (key ∉ s.reachable)).filter
      fun key => decide (incoming.get key = some 0))
  have hlen : ((s.candidates.nodes.rows.map Prod.fst).filter
      fun key => decide (key ∉ s.reachable)).length ≤ s.candidates.nodes.rows.length :=
    (List.length_filter_le ..).trans (List.length_map ..).le
  dsimp only at hset hle ⊢
  omega

lemma protectedObjects_from {bySnapshot known : Table String RemoteObject}
    {objects : List RemoteObject} (h : request.protectedObjects bySnapshot known = .ok objects) :
    ∀ o ∈ objects, o ∈ request.roots.head.toList ++ request.roots.keptPoints ++
      request.roots.keptBundles ++ request.roots.jobReferences ++
      request.roots.jobSnapshotIds.filterMap bySnapshot.get ∨
      ∃ r ∈ request.roots.jobObjects, known.get (locatorKey r.locator) = some o := by
  unfold protectedObjects at h
  generalize request.roots.head.toList ++ request.roots.keptPoints ++ request.roots.keptBundles ++
    request.roots.jobReferences ++ request.roots.jobSnapshotIds.filterMap bySnapshot.get = base
    at h ⊢
  refine foldlM_induct (I := fun (receipts : List ObjectReceipt) (objects : List RemoteObject) =>
    ∀ o ∈ objects, o ∈ base ∨ ∃ r ∈ receipts, known.get (locatorKey r.locator) = some o) ?_
    (fun _ h => .inl h) h
  intro done u r u' ih hu
  have hold : ∀ o ∈ u, o ∈ base ∨ ∃ q ∈ done ++ [r], known.get (locatorKey q.locator) = some o :=
    fun o ho => (ih o ho).imp id fun ⟨q,hq,hk⟩ => ⟨q,List.mem_append_left _ hq,hk⟩
  obtain ⟨_, -, hu⟩ := bind_eq_ok.mp hu
  obtain ⟨_, -, hu⟩ := bind_eq_ok.mp hu
  cases hk : known.get (locatorKey r.locator) with
  | none =>
    rw [hk] at hu
    cases hu
    exact hold
  | some p =>
    simp only [hk] at hu
    obtain ⟨_, -, hu⟩ := bind_eq_ok.mp hu
    cases hu
    intro o ho
    rcases List.mem_append.mp ho with ho | ho
    · exact hold o ho
    · rw [List.mem_singleton.mp ho]
      exact .inr ⟨r,by simp,hk⟩

lemma readListed_from {t : Table String RemoteObject × List String}
    (h : request.listed.foldlM (request.readListed source) (.empty,[]) = .ok t)
    {id : String} {o : RemoteObject} (ho : t.1.get id = some o) :
    ∃ receipt ∈ request.listed, ∃ d, source.listed receipt = .ok (o,d) ∧ d.snapshotId = id := by
  refine foldlM_induct (I := fun (receipts : List ObjectReceipt)
      (t : Table String RemoteObject × List String) => t.1.get id = some o →
      ∃ receipt ∈ receipts, ∃ d, source.listed receipt = .ok (o,d) ∧ d.snapshotId = id) ?_
    (fun h => (by cases h)) h ho
  clear ho
  intro done u receipt u' ih hu ho
  obtain ⟨_, -, hu⟩ := bind_eq_ok.mp hu
  obtain ⟨_, -, hu⟩ := bind_eq_ok.mp hu
  obtain ⟨opened, hopen, hu⟩ := bind_eq_ok.mp hu
  obtain ⟨_, -, hu⟩ := bind_eq_ok.mp hu
  obtain ⟨_, -, hu⟩ := bind_eq_ok.mp hu
  obtain ⟨_, hnew, hu⟩ := bind_eq_ok.mp hu
  cases hu
  have hnew := (require_eq_ok.mp hnew).2.2.2.2
  dsimp only at ho
  rw [Table.get_insertOrIgnore] at ho
  split_ifs at ho with he
  · rw [Table.contains_eq_false.mp hnew, Option.getD_none] at ho
    cases ho
    exact ⟨receipt,by simp,opened.2,hopen,he.symm⟩
  · obtain ⟨q, hq, d, hd⟩ := ih ho
    exact ⟨q,List.mem_append_left _ hq,d,hd⟩

lemma liveRoot_of_mem {listed : Table String RemoteObject × List String}
    {known : Table String RemoteObject} {objects : List RemoteObject}
    (hlisted : request.listed.foldlM (request.readListed source) (.empty,[]) = .ok listed)
    (hknown : request.knownObjects.foldlM (request.readKnown cr source) .empty = .ok known)
    (h : request.protectedObjects listed.1 known = .ok objects) :
    ∀ o ∈ objects, LiveRoot source request o := by
  intro o ho
  rcases protectedObjects_from h o ho with ho | ⟨r, hr, hk⟩
  · simp only [List.mem_append, Option.mem_toList] at ho
    rcases ho with (((ho | ho) | ho) | ho) | ho
    · exact .head ho
    · exact .keptPoint ho
    · exact .keptBundle ho
    · exact .jobReference ho
    · obtain ⟨id, hid, hg⟩ := List.mem_filterMap.mp ho
      obtain ⟨receipt, hr, d, hd, rfl⟩ := readListed_from hlisted hg
      exact .jobSnapshot hr hd hid
  · obtain ⟨hm, he⟩ := (readKnown_eq_ok hknown).1 _ _ hk
    exact .jobObject hr hm he

/-- The nodes of a graph are locators of named objects. -/
def NodesIn (g : Graph) (keys : Finset String) : Prop :=
  ∀ k n, g.nodes.get k = some n → k ∈ keys

lemma NodesIn.length_le {g : Graph} {keys : Finset String} (h : NodesIn g keys) :
    g.nodes.rows.length ≤ keys.card := by
  rw [← List.length_map (f := Prod.fst)]
  refine length_le_card g.nodes.nodup fun k hk => ?_
  obtain ⟨⟨k', n⟩, hr, rfl⟩ := List.mem_map.mp hk
  exact h k' n (Table.get_eq_some.mpr hr)

lemma Walked.nodesIn {repository : RepositoryHandle} {formatRepositoryId : String}
    {roots : Set RemoteObject} {g : Graph} {keys : Finset String} {width : ℕ}
    (h : Walked cr source repository formatRepositoryId roots g)
    (hb : Bounded source roots keys width) : NodesIn g keys := by
  intro k n hn
  obtain ⟨hkey, hnamed, -⟩ := h.walking.nodes k n hn
  exact hkey ▸ hb.keys _ hnamed

lemma NodesIn.attachBundles {g : Graph} {keys : Finset String} (h : NodesIn g keys) :
    NodesIn (request.attachBundles g) keys := by
  intro k n hn
  have ho := @attachBundles_nodes request g k
  rw [hn] at ho
  obtain ⟨m, hm, -⟩ := Option.map_eq_some_iff.mp ho.symm
  exact h k m hm

lemma NodesIn.merge {target other merged : Graph} {keys : Finset String} (ht : NodesIn target keys)
    (ho : NodesIn other keys) (h : MergedGraph target other merged) : NodesIn merged keys :=
  fun k n hn => (h.nodes k n hn).elim (ht k n) (ho k n)

lemma ends_merge {target other : Graph} {keys : Finset String} {fuel : ℕ}
    (ht : NodesIn target keys) (ho : NodesIn other keys) (hf : keys.card ≤ fuel) :
    Ends (target.merge other fuel) := by
  refine (ends_run _).bind fun identities _ => (ends_run _).bind fun nodes hn =>
    (ends_run _).bind fun _ _ => ?_
  rw [run_eq_ok] at hn
  have hin : NodesIn ⟨nodes,other.missing.foldr insertKey target.missing,identities⟩ keys := by
    intro k n hk
    rcases mergeNodes_eq_ok hn k n hk with hk | hk
    · exact ht k n hk
    · exact ho k n (Table.get_eq_some.mpr hk)
  exact (Graph.ends_checkAcyclic (hin.length_le.trans hf)).bind fun _ _ => ends_ok _

lemma ends_walk {repository : RepositoryHandle} {formatRepositoryId : String} {memo : Memo}
    {objects : List RemoteObject} {tolerateMissing : Bool} {fuel : ℕ} {keys : Finset String}
    {width : ℕ} (consistent : Consistent cr source repository formatRepositoryId)
    (hm : Remembers cr source repository formatRepositoryId memo)
    (hb : Bounded source {o | o ∈ objects} keys width)
    (hf : objects.length + keys.card * (width+1) ≤ fuel) :
    Ends (walk cr source repository formatRepositoryId fuel objects tolerateMissing memo) := by
  have hunmet : (unmet keys Graph.empty).card ≤ keys.card :=
    Finset.card_le_card (Finset.filter_subset _ _)
  have hmul := Nat.mul_le_mul_right (width+1) hunmet
  have hcard : keys.card ≤ keys.card * (width+1) := Nat.le_mul_of_pos_right _ (Nat.succ_pos _)
  refine (ends_walkFrom consistent hb (.start objects) hm (by omega)).bind fun walked hw => ?_
  obtain ⟨hwalk, -, -⟩ := walkFrom_eq_ok consistent (.start objects) hm (fun _ => rfl) hw
  have hlen := (Walked.nodesIn ⟨hwalk,consistent⟩ hb).length_le
  exact (Graph.ends_checkAcyclic (by omega)).bind fun _ _ => ends_ok _

/-- The roots of the first walk, if they can be told. -/
def startOf (cr : Crates) (source : DocumentSource) (request : MarkRequest) :
    Provided (List RemoteObject) := do
  let listed ← request.listed.foldlM (request.readListed source) (.empty,[])
  let known ← request.knownObjects.foldlM (request.readKnown cr source) .empty
  request.protectedObjects listed.1 known

lemma ends_survey {keys : Finset String} {width fuel : ℕ}
    (consistent : Consistent cr source request.repository request.formatRepositoryId)
    (hb : Bounded source (surveyRoots source request) keys width)
    (hstart : ∀ objects, startOf cr source request = .ok objects →
      objects.length + keys.card * (width+1) ≤ fuel)
    (hretired : request.retiredObjects.length + keys.card * (width+1) ≤ fuel)
    (hknown : request.knownObjects.length + keys.card * (width+1) ≤ fuel) :
    Ends (request.survey cr source fuel) ∧
      ∀ s, request.survey cr source fuel = .ok s → NodesIn s.candidates keys := by
  have hbr : Bounded source {o | o ∈ request.retiredObjects} keys width :=
    hb.mono fun o ho => .inr (.inr ho)
  have hbk : Bounded source {o | o ∈ request.knownObjects} keys width :=
    hb.mono fun o ho => .inr (.inl ho)
  have hcard : keys.card ≤ keys.card * (width+1) := Nat.le_mul_of_pos_right _ (Nat.succ_pos _)
  have hnothing : Remembers cr source request.repository request.formatRepositoryId .empty :=
    fun _ _ _ hk => (by cases hk)
  unfold survey
  constructor
  · refine (ends_run _).bind fun listed hl => (ends_run _).bind fun known hk =>
      (ends_run _).bind fun objects ho => ?_
    rw [run_eq_ok] at hl hk ho
    have hbo : Bounded source {o | o ∈ objects} keys width :=
      hb.mono fun o hm => .inl (liveRoot_of_mem hl hk ho o hm)
    have hlen := hstart objects (bind_eq_ok.mpr ⟨listed,hl,bind_eq_ok.mpr ⟨known,hk,ho⟩⟩)
    refine (ends_walk consistent hnothing hbo hlen).bind fun live hlive =>
      (ends_run _).bind fun _ _ => ?_
    obtain ⟨-, hmem, -⟩ := walk_eq_ok consistent hnothing hlive
    refine (ends_walk consistent hmem hbr hretired).bind fun expired hexp =>
      (ends_run _).bind fun _ _ => ?_
    obtain ⟨wexp, hmem, -⟩ := walk_eq_ok consistent hmem hexp
    refine (ends_walk consistent hmem hbk hknown).bind fun candidates hcand => ?_
    obtain ⟨wcand, -, -⟩ := walk_eq_ok consistent hmem hcand
    exact (ends_merge (Walked.nodesIn wcand hbk).attachBundles
      (Walked.nodesIn wexp hbr).attachBundles (by omega)).bind fun _ _ =>
        (ends_run _).bind fun _ _ => ends_ok _
  · intro s h
    obtain ⟨listed, hl, h⟩ := bind_eq_ok.mp h
    obtain ⟨known, hk, h⟩ := bind_eq_ok.mp h
    obtain ⟨objects, ho, h⟩ := bind_eq_ok.mp h
    obtain ⟨live, hlive, h⟩ := bind_eq_ok.mp h
    obtain ⟨_, -, h⟩ := bind_eq_ok.mp h
    obtain ⟨expired, hexp, h⟩ := bind_eq_ok.mp h
    obtain ⟨_, -, h⟩ := bind_eq_ok.mp h
    obtain ⟨candidates, hcand, h⟩ := bind_eq_ok.mp h
    obtain ⟨merged, hmerged, h⟩ := bind_eq_ok.mp h
    obtain ⟨_, -, h⟩ := bind_eq_ok.mp h
    cases h
    obtain ⟨-, hmem, -⟩ := walk_eq_ok consistent hnothing hlive
    obtain ⟨wexp, hmem, -⟩ := walk_eq_ok consistent hmem hexp
    obtain ⟨wcand, -, -⟩ := walk_eq_ok consistent hmem hcand
    exact (Walked.nodesIn wcand hbk).attachBundles.merge (Walked.nodesIn wexp hbr).attachBundles
      (merge_eq_ok_graph hmerged)

/-- With enough fuel for the objects it can meet a mark answers. -/
theorem ends_mark (consistent : Consistent cr source request.repository request.formatRepositoryId)
    (finite : {o | Named source (surveyRoots source request) o}.Finite) :
    ∃ n, ∀ fuel, n ≤ fuel → ∀ store, Ends (request.mark cr source store fuel).1 := by
  obtain ⟨keys, width, hb⟩ := exists_bounded finite
  have hcard : keys.card ≤ keys.card * (width+1) := Nat.le_mul_of_pos_right _ (Nat.succ_pos _)
  obtain ⟨start, hstart⟩ : ∃ n, ∀ objects, startOf cr source request = .ok objects →
      objects.length ≤ n := by
    cases hs : startOf cr source request with
    | error e => exact ⟨0,fun _ h => (by cases h)⟩
    | ok objects => exact ⟨objects.length,fun _ h => (Except.ok.inj h) ▸ le_rfl⟩
  refine ⟨start + request.retiredObjects.length + request.knownObjects.length +
    keys.card * (width+1),?_⟩
  intro fuel hf store
  obtain ⟨hends, hin⟩ := @ends_survey cr source request keys width fuel consistent hb
    (fun objects ho => by have := hstart objects ho; omega) (by omega) (by omega)
  unfold mark
  cases hs : request.survey cr source fuel with
  | error e =>
    intro h
    have he : e = .outOfFuel := Except.error.inj h
    exact hends (by rw [hs, he])
  | ok s =>
    have hlen := (hin s hs).length_le
    dsimp only
    split
    · intro h
      cases h
    · exact ends_select (by omega)

end MarkRequest
end RisuNest.External
