import RisuNest.External.Reachability

/-! A survey sees everything its roots name, so what it selects is not live. -/
namespace RisuNest.External
open Wire

@[simp] lemma run_eq_ok {α : Type} {x : Provided α} {a : α} : run x = .ok a ↔ x = .ok a := by
  cases x <;> simp [run, Except.mapError]

lemma mem_insertKey {k l : String} {keys : List String} :
    k ∈ insertKey l keys ↔ k = l ∨ k ∈ keys := by
  unfold insertKey
  split_ifs with h
  · exact ⟨.inr,fun hk => hk.elim (fun he => he ▸ h) id⟩
  · exact List.mem_orderedInsert ..

@[simp] lemma mem_keySet {k : String} {keys : List String} : k ∈ keySet keys ↔ k ∈ keys := by
  induction keys with
  | nil => rfl
  | cons l keys ih =>
    rw [keySet, List.foldr_cons, mem_insertKey, List.mem_cons]
    exact or_congr Iff.rfl ih

lemma mem_foldr_insertKey {k : String} {ks ls : List String} :
    k ∈ ks.foldr insertKey ls ↔ k ∈ ks ∨ k ∈ ls := by
  induction ks with
  | nil => simp
  | cons l ks ih => rw [List.foldr_cons, mem_insertKey, ih, List.mem_cons, or_assoc]

/-- What documents and catalogs name, to any depth. -/
inductive Named (source : DocumentSource) (roots : Set RemoteObject) : RemoteObject → Prop
  | root {o : RemoteObject} (h : o ∈ roots) : Named source roots o
  | child {p c : RemoteObject} {cs : List RemoteObject} (h : Named source roots p)
      (hv : visit source p = .ok (some cs)) (hc : c ∈ cs) : Named source roots c

lemma Named.mono {source : DocumentSource} {roots roots' : Set RemoteObject} {o : RemoteObject}
    (h : Named source roots o) (hr : roots ⊆ roots') : Named source roots' o := by
  induction h with
  | root h => exact .root (hr h)
  | child _ hv hc ih => exact .child ih hv hc

section
variable (cr : Crates) (source : DocumentSource) (repository : RepositoryHandle)
  (formatRepositoryId : String)

/-- A source answers for an object by its locator and identity: what it reads is a repository. -/
def Consistent : Prop := ∀ o p i,
  identityOf cr source repository formatRepositoryId o = .ok i →
  identityOf cr source repository formatRepositoryId p = .ok i → keyOf o = keyOf p →
  visit source o = visit source p

/-- A graph has the object under its locator, with its identity. -/
def Registered (g : Graph) (o : RemoteObject) : Prop :=
  ∃ i, identityOf cr source repository formatRepositoryId o = .ok i ∧
    g.identities.get (keyOf o) = some i

/-- What is remembered of an identity was found for an object with it. -/
def Remembers (memo : Memo) : Prop := ∀ k i v, memo.get (k,i) = some v →
  ∃ o, keyOf o = k ∧ identityOf cr source repository formatRepositoryId o = .ok i ∧
    visit source o = .ok v

/-- A graph whose walk still has objects to look at. -/
structure Walking (roots : Set RemoteObject) (pending : List RemoteObject) (g : Graph) :
    Prop where
  rooted : ∀ o ∈ roots, o ∈ pending ∨ Registered cr source repository formatRepositoryId g o
  queued : ∀ o ∈ pending, Named source roots o
  nodes : ∀ k n, g.nodes.get k = some n → keyOf n.object = k ∧ Named source roots n.object ∧
    Registered cr source repository formatRepositoryId g n.object ∧
    ∃ cs, visit source n.object = .ok (some cs) ∧ n.children = keySet (cs.map keyOf) ∧
      ∀ c ∈ cs, c ∈ pending ∨ Registered cr source repository formatRepositoryId g c
  missing : ∀ k ∈ g.missing, ∃ o, keyOf o = k ∧ Named source roots o ∧
    Registered cr source repository formatRepositoryId g o ∧ visit source o = .ok none
  identities : ∀ k i, g.identities.get k = some i →
    (∃ o, keyOf o = k ∧ Named source roots o ∧
      identityOf cr source repository formatRepositoryId o = .ok i) ∧
    (k ∈ g.missing ∨ ∃ n, g.nodes.get k = some n)

end

section
variable {cr : Crates} {source : DocumentSource} {repository : RepositoryHandle}
  {formatRepositoryId : String} {roots : Set RemoteObject} {pending : List RemoteObject}
  {g : Graph} {memo : Memo} {o : RemoteObject} {i : String}

lemma Registered.mono {g' : Graph} (h : Registered cr source repository formatRepositoryId g o)
    (hg : ∀ k i, g.identities.get k = some i → g'.identities.get k = some i) :
    Registered cr source repository formatRepositoryId g' o := by
  obtain ⟨i, hi, hk⟩ := h
  exact ⟨i,hi,hg _ _ hk⟩

lemma Walking.start (objects : List RemoteObject) :
    Walking cr source repository formatRepositoryId {o | o ∈ objects} objects .empty :=
  ⟨fun _ h => .inl h,fun _ h => .root h,fun _ _ h => (by cases h),fun _ h => (by cases h),
    fun _ _ h => (by cases h)⟩

lemma Walking.skip (h : Walking cr source repository formatRepositoryId roots (o :: pending) g)
    (hi : identityOf cr source repository formatRepositoryId o = .ok i)
    (hg : g.identities.get (keyOf o) = some i) :
    Walking cr source repository formatRepositoryId roots pending g := by
  have hdone : ∀ c, c ∈ o :: pending ∨ Registered cr source repository formatRepositoryId g c →
      c ∈ pending ∨ Registered cr source repository formatRepositoryId g c := by
    rintro c (hc | hc)
    · rcases List.mem_cons.mp hc with rfl | hc
      · exact .inr ⟨i,hi,hg⟩
      · exact .inl hc
    · exact .inr hc
  refine ⟨fun c hc => hdone c (h.rooted c hc),
    fun c hc => h.queued c (List.mem_cons_of_mem _ hc),?_,h.missing,h.identities⟩
  intro k n hn
  obtain ⟨hk, hnamed, hreg, cs, hv, hcs, hall⟩ := h.nodes k n hn
  exact ⟨hk,hnamed,hreg,cs,hv,hcs,fun c hc => hdone c (hall c hc)⟩

lemma Walking.record (h : Walking cr source repository formatRepositoryId roots (o :: pending) g)
    (hi : identityOf cr source repository formatRepositoryId o = .ok i)
    (hg : g.identities.get (keyOf o) = none) {visited : Option (List RemoteObject)}
    (hv : visit source o = .ok visited) :
    Walking cr source repository formatRepositoryId roots (pending ++ visited.getD [])
      (g.record o i visited) := by
  have hids : ∀ k j, (g.record o i visited).identities.get k = some j ↔
      (k = keyOf o ∧ j = i) ∨ g.identities.get k = some j := by
    intro k j
    have hget : (g.record o i visited).identities.get k =
        if k = keyOf o then some i else g.identities.get k := by
      cases visited <;> simp [Graph.record]
    rw [hget]
    split_ifs with he
    · subst he
      rw [hg]
      simp [eq_comm]
    · simp [he]
  have hmono : ∀ k j, g.identities.get k = some j →
      (g.record o i visited).identities.get k = some j := fun k j hk => (hids k j).mpr (.inr hk)
  have hself : Registered cr source repository formatRepositoryId (g.record o i visited) o :=
    ⟨i,hi,(hids _ _).mpr (.inl ⟨rfl,rfl⟩)⟩
  have hdone : ∀ c, c ∈ o :: pending ∨ Registered cr source repository formatRepositoryId g c →
      c ∈ pending ++ visited.getD [] ∨
        Registered cr source repository formatRepositoryId (g.record o i visited) c := by
    rintro c (hc | hc)
    · rcases List.mem_cons.mp hc with rfl | hc
      · exact .inr hself
      · exact .inl (List.mem_append_left _ hc)
    · exact .inr (hc.mono hmono)
  have hnamed : Named source roots o := h.queued o List.mem_cons_self
  have hold : ∀ {k : String} {n : Node}, g.nodes.get k = some n →
      keyOf n.object = k ∧ Named source roots n.object ∧
        Registered cr source repository formatRepositoryId (g.record o i visited) n.object ∧
        ∃ cs, visit source n.object = .ok (some cs) ∧ n.children = keySet (cs.map keyOf) ∧
          ∀ c ∈ cs, c ∈ pending ++ visited.getD [] ∨
            Registered cr source repository formatRepositoryId (g.record o i visited) c := by
    intro k n hn
    obtain ⟨hk, hnm, hreg, cs, hvis, hcs, hall⟩ := h.nodes k n hn
    exact ⟨hk,hnm,hreg.mono hmono,cs,hvis,hcs,fun c hc => hdone c (hall c hc)⟩
  refine ⟨fun c hc => hdone c (h.rooted c hc),?_,?_,?_,?_⟩
  · intro c hc
    rcases List.mem_append.mp hc with hc | hc
    · exact h.queued c (List.mem_cons_of_mem _ hc)
    · cases visited with
      | none => cases hc
      | some cs => exact .child hnamed hv hc
  · intro k n hn
    cases visited with
    | none => exact hold hn
    | some cs =>
      simp only [Graph.record, Table.get_upsert] at hn
      split_ifs at hn with he
      · cases hn
        exact ⟨he.symm,hnamed,hself,cs,hv,rfl,fun c hc => .inl (List.mem_append_right _ hc)⟩
      · exact hold hn
  · intro k hk
    have hold' : k ∈ g.missing → ∃ p, keyOf p = k ∧ Named source roots p ∧
        Registered cr source repository formatRepositoryId (g.record o i visited) p ∧
        visit source p = .ok none := by
      intro hk
      obtain ⟨p, hpk, hpn, hreg, hpv⟩ := h.missing k hk
      exact ⟨p,hpk,hpn,hreg.mono hmono,hpv⟩
    cases visited with
    | none =>
      rcases mem_insertKey.mp hk with rfl | hk
      · exact ⟨o,rfl,hnamed,hself,hv⟩
      · exact hold' hk
    | some cs => exact hold' hk
  · intro k j hj
    rcases (hids k j).mp hj with ⟨rfl, rfl⟩ | hj
    · refine ⟨⟨o,rfl,hnamed,hi⟩,?_⟩
      cases visited with
      | none => exact .inl (mem_insertKey.mpr (.inl rfl))
      | some cs => exact .inr ⟨⟨o,keySet (cs.map keyOf)⟩,by simp [Graph.record]⟩
    · obtain ⟨hex, hin⟩ := h.identities k j hj
      refine ⟨hex,?_⟩
      rcases hin with hm | ⟨n, hn⟩
      · cases visited with
        | none => exact .inl (mem_insertKey.mpr (.inr hm))
        | some cs => exact .inl hm
      · cases visited with
        | none => exact .inr ⟨n,hn⟩
        | some cs =>
          simp only [Graph.record, Table.get_upsert]
          split_ifs with he
          · exact .inr ⟨_,rfl⟩
          · exact .inr ⟨n,hn⟩

lemma visitOnce_eq_ok (consistent : Consistent cr source repository formatRepositoryId)
    (hm : Remembers cr source repository formatRepositoryId memo)
    (hi : identityOf cr source repository formatRepositoryId o = .ok i)
    {visited : Option (List RemoteObject)} {memo' : Memo}
    (h : visitOnce source memo (keyOf o) i o = .ok (visited,memo')) :
    visit source o = .ok visited ∧ Remembers cr source repository formatRepositoryId memo' := by
  unfold visitOnce at h
  cases hk : memo.get (keyOf o,i) with
  | some known =>
    rw [hk] at h
    cases h
    obtain ⟨p, hpk, hpi, hpv⟩ := hm _ _ _ hk
    exact ⟨(consistent o p i hi hpi hpk.symm).trans hpv,hm⟩
  | none =>
    rw [hk] at h
    obtain ⟨found, hv, h⟩ := bind_eq_ok.mp h
    cases h
    refine ⟨hv,?_⟩
    intro k j v hg
    rw [Table.get_upsert] at hg
    split_ifs at hg with he
    · cases hg
      cases he
      exact ⟨o,rfl,hi,hv⟩
    · exact hm k j v hg

/-- A finished walk. -/
theorem walkFrom_eq_ok (consistent : Consistent cr source repository formatRepositoryId)
    {tolerateMissing : Bool} {fuel : ℕ} {g' : Graph} {memo' : Memo}
    (hw : Walking cr source repository formatRepositoryId roots pending g)
    (hm : Remembers cr source repository formatRepositoryId memo)
    (ht : tolerateMissing = false → g.missing = [])
    (h : walkFrom cr source repository formatRepositoryId tolerateMissing fuel pending (g,memo) =
      .ok (g',memo')) :
    Walking cr source repository formatRepositoryId roots [] g' ∧
      Remembers cr source repository formatRepositoryId memo' ∧
      (tolerateMissing = false → g'.missing = []) := by
  induction fuel generalizing pending g memo with
  | zero =>
    cases pending with
    | nil =>
      cases h
      exact ⟨hw,hm,ht⟩
    | cons o rest => cases h
  | succ fuel ih =>
    cases pending with
    | nil =>
      cases h
      exact ⟨hw,hm,ht⟩
    | cons o rest =>
      rw [walkFrom] at h
      obtain ⟨i, hi, h⟩ := bind_eq_ok.mp h
      rw [run_eq_ok] at hi
      cases hk : g.identities.get (keyOf o) with
      | some previous =>
        simp only [hk] at h
        obtain ⟨_, he, hrest⟩ := bind_eq_ok.mp h
        rw [run_eq_ok, require_eq_ok] at he
        exact ih (hw.skip hi (he ▸ hk)) hm ht hrest
      | none =>
        simp only [hk] at h
        obtain ⟨⟨visited, memo₁⟩, hv, h⟩ := bind_eq_ok.mp h
        obtain ⟨_, hr, h⟩ := bind_eq_ok.mp h
        rw [run_eq_ok] at hv
        rw [run_eq_ok, require_eq_ok] at hr
        obtain ⟨hvisit, hm'⟩ := visitOnce_eq_ok consistent hm hi hv
        refine ih (hw.record hi hk hvisit) hm' ?_ h
        intro hf
        cases visited with
        | none => simp [hf] at hr
        | some cs => exact ht hf

/-- A graph that a walk from some roots finished. -/
structure Walked (cr : Crates) (source : DocumentSource) (repository : RepositoryHandle)
    (formatRepositoryId : String) (roots : Set RemoteObject) (g : Graph) : Prop where
  walking : Walking cr source repository formatRepositoryId roots [] g
  consistent : Consistent cr source repository formatRepositoryId

theorem walk_eq_ok (consistent : Consistent cr source repository formatRepositoryId)
    {tolerateMissing : Bool} {fuel : ℕ} {objects : List RemoteObject} {s : Graph × Memo}
    (hm : Remembers cr source repository formatRepositoryId memo)
    (h : walk cr source repository formatRepositoryId fuel objects tolerateMissing memo = .ok s) :
    Walked cr source repository formatRepositoryId {o | o ∈ objects} s.1 ∧
      Remembers cr source repository formatRepositoryId s.2 ∧
      (tolerateMissing = false → s.1.missing = []) := by
  obtain ⟨walked, hw, h⟩ := bind_eq_ok.mp h
  obtain ⟨_, -, h⟩ := bind_eq_ok.mp h
  cases h
  obtain ⟨hwalk, hmem, hmiss⟩ := walkFrom_eq_ok consistent
    (.start objects) hm (fun _ => rfl) hw
  exact ⟨⟨hwalk,consistent⟩,hmem,hmiss⟩

namespace Walked

lemma registered_of_root (h : Walked cr source repository formatRepositoryId roots g)
    (ho : o ∈ roots) : Registered cr source repository formatRepositoryId g o :=
  (h.walking.rooted o ho).resolve_left List.not_mem_nil

lemma cases_of_registered (h : Walked cr source repository formatRepositoryId roots g)
    (hr : Registered cr source repository formatRepositoryId g o) :
    (visit source o = .ok none ∧ keyOf o ∈ g.missing) ∨
      ∃ cs n, visit source o = .ok (some cs) ∧ g.nodes.get (keyOf o) = some n ∧
        ∀ c ∈ cs, Registered cr source repository formatRepositoryId g c := by
  obtain ⟨i, hi, hk⟩ := hr
  obtain ⟨-, hm | ⟨n, hn⟩⟩ := h.walking.identities _ _ hk
  · obtain ⟨p, hpk, -, ⟨j, hj, hjk⟩, hv⟩ := h.walking.missing _ hm
    rw [hpk, hk] at hjk
    cases hjk
    exact .inl ⟨(h.consistent o p i hi hj hpk.symm).trans hv,hm⟩
  · obtain ⟨hnk, -, ⟨j, hj, hjk⟩, cs, hv, -, hall⟩ := h.walking.nodes _ _ hn
    rw [hnk, hk] at hjk
    cases hjk
    refine .inr ⟨cs,n,(h.consistent o n.object i hi hj hnk.symm).trans hv,hn,?_⟩
    exact fun c hc => (hall c hc).resolve_left List.not_mem_nil

theorem registered (h : Walked cr source repository formatRepositoryId roots g)
    (ho : Named source roots o) : Registered cr source repository formatRepositoryId g o := by
  induction ho with
  | root ho => exact h.registered_of_root ho
  | child _ hv hc ih =>
    rcases h.cases_of_registered ih with ⟨hnone, -⟩ | ⟨ds, n, hsome, -, hall⟩
    · rw [hnone] at hv
      cases hv
    · rw [hsome] at hv
      cases hv
      exact hall _ hc

end Walked
end

/-! ### The graphs of a survey -/

/-- What a merge of two graphs is. -/
structure MergedGraph (target other merged : Graph) : Prop where
  identities : ∀ k i, merged.identities.get k = some i ↔
    target.identities.get k = some i ∨ other.identities.get k = some i
  nodes : ∀ k n, merged.nodes.get k = some n →
    target.nodes.get k = some n ∨ other.nodes.get k = some n
  missing : ∀ k, k ∈ merged.missing ↔ k ∈ target.missing ∨ k ∈ other.missing

lemma mergeIdentities_eq_ok {t t' : Table String String} {rows : List (String × String)}
    (h : rows.foldlM mergeIdentity t = .ok t') (k i : String) :
    t'.get k = some i ↔ t.get k = some i ∨ (k,i) ∈ rows := by
  revert k i
  refine foldlM_induct (I := fun rows t' => ∀ k i,
    t'.get k = some i ↔ t.get k = some i ∨ (k,i) ∈ rows) ?_ ?_ h
  · intro done u row u' ih hu k i
    obtain ⟨_, hr, hu⟩ := bind_eq_ok.mp hu
    cases hu
    have hr := require_eq_ok.mp hr
    simp only [Option.all_eq_true, decide_eq_true_eq] at hr
    rw [Table.get_upsert, List.mem_append, List.mem_singleton, ← or_assoc, ← ih]
    by_cases hk : k = row.1
    · subst hk
      rw [if_pos rfl, Option.some.injEq]
      constructor
      · rintro rfl
        exact .inr rfl
      · rintro (hi | hi)
        · exact (hr i hi).symm
        · exact (congrArg Prod.snd hi).symm
    · rw [if_neg hk]
      exact ⟨.inl,fun h => h.elim id fun he => absurd (congrArg Prod.fst he) hk⟩
  · simp

lemma mergeNodes_eq_ok {t t' : Table String Node} {rows : List (String × Node)}
    (h : rows.foldlM mergeNode t = .ok t') (k : String) (n : Node) (hn : t'.get k = some n) :
    t.get k = some n ∨ (k,n) ∈ rows := by
  revert k n
  refine foldlM_induct (I := fun rows t' => ∀ k n, t'.get k = some n →
    t.get k = some n ∨ (k,n) ∈ rows) ?_ (fun _ _ h => .inl h) h
  intro done u row u' ih hu k n hn
  obtain ⟨_, -, hu⟩ := bind_eq_ok.mp hu
  cases hu
  rw [Table.get_insertOrIgnore] at hn
  have hold : u.get k = some n → t.get k = some n ∨ (k,n) ∈ done ++ [row] :=
    fun hu => (ih k n hu).imp id fun hm => List.mem_append_left _ hm
  split_ifs at hn with hk
  · cases hu : u.get row.1 with
    | none =>
      rw [hu] at hn
      cases hn
      exact .inr (by simp [hk])
    | some m =>
      rw [hu] at hn
      cases hn
      exact hold (hk ▸ hu)
  · exact hold hn

lemma merge_eq_ok_graph {target other merged : Graph} {fuel : ℕ}
    (h : target.merge other fuel = .ok merged) : MergedGraph target other merged := by
  obtain ⟨identities, hi, h⟩ := bind_eq_ok.mp h
  obtain ⟨nodes, hn, h⟩ := bind_eq_ok.mp h
  obtain ⟨_, -, h⟩ := bind_eq_ok.mp h
  obtain ⟨_, -, h⟩ := bind_eq_ok.mp h
  cases h
  rw [run_eq_ok] at hi hn
  refine ⟨?_,?_,?_⟩
  · intro k i
    rw [mergeIdentities_eq_ok hi]
    exact or_congr Iff.rfl Table.get_eq_some.symm
  · intro k n hk
    exact (mergeNodes_eq_ok hn k n hk).imp id Table.get_eq_some.mpr
  · intro k
    rw [mem_foldr_insertKey, or_comm]

namespace MarkRequest
variable {cr : Crates} {source : DocumentSource} {request : MarkRequest}

lemma attachBundles_nodes (g : Graph) (k : String) :
    ((request.attachBundles g).nodes.get k).map Node.object = (g.nodes.get k).map Node.object := by
  unfold attachBundles
  generalize g.nodes = nodes
  induction request.retiredPoints generalizing nodes with
  | nil => rfl
  | cons p points ih =>
    rw [List.foldl_cons, ih]
    cases hp : nodes.get (keyOf p.point) with
    | none => rfl
    | some node =>
      rw [Table.get_upsert]
      split_ifs with hk
      · rw [hk, hp]
        rfl
      · rfl

lemma readListed_eq_ok {t : Table String RemoteObject × List String}
    (h : request.listed.foldlM (request.readListed source) (.empty,[]) = .ok t)
    {receipt : ObjectReceipt} (hr : receipt ∈ request.listed) {o : RemoteObject} {d : DocumentNode}
    (hd : source.listed receipt = .ok (o,d)) : t.1.get d.snapshotId = some o := by
  refine foldlM_induct (I := fun receipts (t : Table String RemoteObject × List String) =>
    ∀ receipt ∈ receipts, source.listed receipt = .ok (o,d) → t.1.get d.snapshotId = some o)
    ?_ (by simp) h receipt hr hd
  clear hr hd
  intro done u receipt u' ih hu r hr hd
  obtain ⟨_, -, hu⟩ := bind_eq_ok.mp hu
  obtain ⟨_, -, hu⟩ := bind_eq_ok.mp hu
  obtain ⟨opened, ho, hu⟩ := bind_eq_ok.mp hu
  obtain ⟨_, -, hu⟩ := bind_eq_ok.mp hu
  obtain ⟨_, -, hu⟩ := bind_eq_ok.mp hu
  obtain ⟨_, hnew, hu⟩ := bind_eq_ok.mp hu
  cases hu
  have hnew := (require_eq_ok.mp hnew).2.2.2.2
  rcases List.mem_append.mp hr with hr | hr
  · exact Table.get_insertOrIgnore_of_get (ih r hr hd)
  · rw [List.mem_singleton.mp hr, ho] at hd
    cases hd
    simp [Table.contains_eq_false.mp hnew]

lemma readKnown_eq_ok {t : Table String RemoteObject}
    (h : request.knownObjects.foldlM (request.readKnown cr source) .empty = .ok t) :
    (∀ k o, t.get k = some o → o ∈ request.knownObjects ∧ keyOf o = k) ∧
      ∀ o ∈ request.knownObjects, ∃ p, t.get (keyOf o) = some p := by
  refine foldlM_induct (I := fun objects t => (∀ k o, t.get k = some o → o ∈ objects ∧ keyOf o = k) ∧
    ∀ o ∈ objects, ∃ p, t.get (keyOf o) = some p) ?_
    ⟨fun _ _ hk => (by cases hk),fun _ ho => (by cases ho)⟩ h
  rintro done u o u' ⟨hfrom, hall⟩ hu
  have hu' : u' = u.upsert (keyOf o) o := by
    obtain ⟨nativeBody, -, hu⟩ := bind_eq_ok.mp hu
    obtain ⟨_, -, hu⟩ := bind_eq_ok.mp hu
    cases hk : u.get (keyOf o) with
    | none =>
      rw [hk] at hu
      exact (Except.ok.inj hu).symm
    | some previous =>
      simp only [hk] at hu
      obtain ⟨_, -, hu⟩ := bind_eq_ok.mp hu
      exact (Except.ok.inj hu).symm
  subst hu'
  constructor
  · intro k p hp
    rw [Table.get_upsert] at hp
    split_ifs at hp with hk
    · cases hp
      exact ⟨by simp,hk.symm⟩
    · exact ⟨List.mem_append_left _ (hfrom k p hp).1,(hfrom k p hp).2⟩
  · intro p hp
    rw [Table.get_upsert]
    split_ifs with hk
    · exact ⟨o,rfl⟩
    · rcases List.mem_append.mp hp with hp | hp
      · exact hall p hp
      · exact absurd (by rw [List.mem_singleton.mp hp]) hk

lemma protectedObjects_eq_ok {bySnapshot known : Table String RemoteObject}
    {objects : List RemoteObject} (h : request.protectedObjects bySnapshot known = .ok objects) :
    (∀ o ∈ request.roots.head.toList ++ request.roots.keptPoints ++ request.roots.keptBundles ++
      request.roots.jobReferences ++ request.roots.jobSnapshotIds.filterMap bySnapshot.get,
      o ∈ objects) ∧
    ∀ r ∈ request.roots.jobObjects, ∀ o, known.get (locatorKey r.locator) = some o →
      o ∈ objects := by
  unfold protectedObjects at h
  generalize request.roots.head.toList ++ request.roots.keptPoints ++ request.roots.keptBundles ++
    request.roots.jobReferences ++ request.roots.jobSnapshotIds.filterMap bySnapshot.get = base
    at h ⊢
  refine foldlM_induct (I := fun (receipts : List ObjectReceipt) (objects : List RemoteObject) =>
    (∀ o ∈ base, o ∈ objects) ∧ ∀ r ∈ receipts, ∀ o,
      known.get (locatorKey r.locator) = some o → o ∈ objects) ?_
    ⟨fun _ h => h,fun _ h => (by cases h)⟩ h
  rintro done u r u' ⟨hbase, hall⟩ hu
  obtain ⟨_, -, hu⟩ := bind_eq_ok.mp hu
  obtain ⟨_, -, hu⟩ := bind_eq_ok.mp hu
  cases hk : known.get (locatorKey r.locator) with
  | none =>
    rw [hk] at hu
    cases hu
    refine ⟨hbase,?_⟩
    intro q hq o ho
    rcases List.mem_append.mp hq with hq | hq
    · exact hall q hq o ho
    · rw [List.mem_singleton.mp hq, hk] at ho
      cases ho
  | some p =>
    simp only [hk] at hu
    obtain ⟨_, -, hu⟩ := bind_eq_ok.mp hu
    cases hu
    refine ⟨fun o ho => List.mem_append_left _ (hbase o ho),?_⟩
    intro q hq o ho
    rcases List.mem_append.mp hq with hq | hq
    · exact List.mem_append_left _ (hall q hq o ho)
    · rw [List.mem_singleton.mp hq, hk] at ho
      cases ho
      simp

lemma reachableOf_eq_ok {live : Graph} {s : List String × ℕ}
    (h : request.reachableOf live = .ok s) :
    (∀ k n, live.nodes.get k = some n → k ∈ s.1) ∧
      ∀ r ∈ request.roots.jobObjects, locatorKey r.locator ∈ s.1 := by
  unfold reachableOf at h
  obtain ⟨bytes, -, h⟩ := bind_eq_ok.mp h
  have key : (∀ k ∈ live.nodes.rows.map Prod.fst, k ∈ s.1) ∧
      ∀ r ∈ request.roots.jobObjects, locatorKey r.locator ∈ s.1 := by
    refine foldlM_induct (I := fun (receipts : List ObjectReceipt) (s : List String × ℕ) =>
      (∀ k ∈ live.nodes.rows.map Prod.fst, k ∈ s.1) ∧
        ∀ r ∈ receipts, locatorKey r.locator ∈ s.1) ?_ ⟨fun _ h => h,fun _ h => (by cases h)⟩ h
    rintro done u r u' ⟨hbase, hall⟩ hu
    split_ifs at hu with hin
    · cases hu
      refine ⟨hbase,?_⟩
      intro q hq
      rcases List.mem_append.mp hq with hq | hq
      · exact hall q hq
      · rwa [List.mem_singleton.mp hq]
    · obtain ⟨_, -, hu⟩ := bind_eq_ok.mp hu
      cases hu
      refine ⟨fun k hk => List.mem_cons_of_mem _ (hbase k hk),?_⟩
      intro q hq
      rcases List.mem_append.mp hq with hq | hq
      · exact List.mem_cons_of_mem _ (hall q hq)
      · rw [List.mem_singleton.mp hq]
        exact List.mem_cons_self
  exact ⟨fun k n hn => key.1 k (List.mem_map.mpr ⟨_,Table.get_eq_some.mp hn,rfl⟩),key.2⟩

/-- The objects that have to stay: the head, what is kept, what jobs refer to, the listed objects
of their snapshots, and the known objects of their receipts. -/
inductive LiveRoot (source : DocumentSource) (request : MarkRequest) (o : RemoteObject) : Prop
  | head (h : request.roots.head = some o)
  | keptPoint (h : o ∈ request.roots.keptPoints)
  | keptBundle (h : o ∈ request.roots.keptBundles)
  | jobReference (h : o ∈ request.roots.jobReferences)
  | jobSnapshot {receipt : ObjectReceipt} {d : DocumentNode} (h : receipt ∈ request.listed)
      (hd : source.listed receipt = .ok (o,d)) (hj : d.snapshotId ∈ request.roots.jobSnapshotIds)
  | jobObject {receipt : ObjectReceipt} (h : receipt ∈ request.roots.jobObjects)
      (hk : o ∈ request.knownObjects) (hl : keyOf o = locatorKey receipt.locator)

/-- Everything the walks of a survey start from. -/
def surveyRoots (source : DocumentSource) (request : MarkRequest) : Set RemoteObject :=
  {o | LiveRoot source request o ∨ o ∈ request.knownObjects ∨ o ∈ request.retiredObjects}

/-- What a finished survey found. -/
structure SurveyFound (cr : Crates) (source : DocumentSource) (request : MarkRequest)
    (s : Surveyed) : Prop where
  live : ∀ o, Named source {o | LiveRoot source request o} o →
    Registered cr source request.repository request.formatRepositoryId s.live o ∧
      (∃ cs, visit source o = .ok (some cs)) ∧ keyOf o ∈ s.reachable
  jobs : ∀ r ∈ request.roots.jobObjects, locatorKey r.locator ∈ s.reachable
  others : ∀ o, Named source {o | o ∈ request.knownObjects ∨ o ∈ request.retiredObjects} o →
    Registered cr source request.repository request.formatRepositoryId s.candidates o
  agree : ∀ k i j, s.live.identities.get k = some i → s.candidates.identities.get k = some j →
    i = j
  candidates : ∀ k n, s.candidates.nodes.get k = some n → keyOf n.object = k ∧
    Registered cr source request.repository request.formatRepositoryId s.candidates n.object
  authorized : ∀ k ∈ s.authorized, ∃ o, keyOf o = k ∧
    (o ∈ request.knownObjects ∨ Named source {o | o ∈ request.retiredObjects} o)

lemma Named.of_union {source : DocumentSource} {A B : Set RemoteObject} {o : RemoteObject}
    (h : Named source {o | o ∈ A ∨ o ∈ B} o) : Named source A o ∨ Named source B o := by
  induction h with
  | root h => exact h.imp .root .root
  | child _ hv hc ih => exact ih.imp (.child · hv hc) (.child · hv hc)

theorem survey_eq_ok {fuel : ℕ} {s : Surveyed}
    (consistent : Consistent cr source request.repository request.formatRepositoryId)
    (h : request.survey cr source fuel = .ok s) : SurveyFound cr source request s := by
  unfold survey at h
  obtain ⟨listed, hlisted, h⟩ := bind_eq_ok.mp h
  obtain ⟨known, hknown, h⟩ := bind_eq_ok.mp h
  obtain ⟨objects, hobjects, h⟩ := bind_eq_ok.mp h
  obtain ⟨live, hlive, h⟩ := bind_eq_ok.mp h
  obtain ⟨reachable, hreach, h⟩ := bind_eq_ok.mp h
  obtain ⟨expired, hexpired, h⟩ := bind_eq_ok.mp h
  obtain ⟨_, -, h⟩ := bind_eq_ok.mp h
  obtain ⟨candidates, hcands, h⟩ := bind_eq_ok.mp h
  obtain ⟨merged, hmerged, h⟩ := bind_eq_ok.mp h
  obtain ⟨_, hcheck, h⟩ := bind_eq_ok.mp h
  cases h
  rw [run_eq_ok] at hlisted hknown hobjects hreach hcheck
  have hnothing : Remembers cr source request.repository request.formatRepositoryId .empty :=
    fun _ _ _ hk => (by cases hk)
  obtain ⟨wlive, hmem, hnomiss⟩ := walk_eq_ok consistent hnothing hlive
  obtain ⟨wexp, hmem, -⟩ := walk_eq_ok consistent hmem hexpired
  obtain ⟨wcand, -, -⟩ := walk_eq_ok consistent hmem hcands
  have hm := merge_eq_ok_graph hmerged
  obtain ⟨hfrom, hall⟩ := readKnown_eq_ok hknown
  obtain ⟨hbase, hjobs⟩ := protectedObjects_eq_ok hobjects
  obtain ⟨hkeys, hjobkeys⟩ := reachableOf_eq_ok hreach
  have hbase' : ∀ {o}, o ∈ request.roots.head.toList ∨ o ∈ request.roots.keptPoints ∨
      o ∈ request.roots.keptBundles ∨ o ∈ request.roots.jobReferences ∨
      o ∈ request.roots.jobSnapshotIds.filterMap listed.1.get → o ∈ objects := by
    intro o ho
    apply hbase
    simp only [List.mem_append, or_assoc]
    exact ho
  -- a known object of a job receipt is registered as the last known object of its locator
  have hregistered : ∀ o, LiveRoot source request o →
      Registered cr source request.repository request.formatRepositoryId live.1 o := by
    intro o ho
    cases ho with
    | head h => exact wlive.registered_of_root (hbase' (.inl (by simp [h])))
    | keptPoint h => exact wlive.registered_of_root (hbase' (.inr (.inl h)))
    | keptBundle h => exact wlive.registered_of_root (hbase' (.inr (.inr (.inl h))))
    | jobReference h => exact wlive.registered_of_root (hbase' (.inr (.inr (.inr (.inl h)))))
    | jobSnapshot hr hd hj =>
      refine wlive.registered_of_root (hbase' (.inr (.inr (.inr (.inr ?_)))))
      exact List.mem_filterMap.mpr ⟨_,hj,readListed_eq_ok hlisted hr hd⟩
    | @jobObject receipt hr hk hl =>
      obtain ⟨p, hp⟩ := hall o hk
      obtain ⟨hpk, hpo⟩ := hfrom _ _ hp
      obtain ⟨i, hi, hgi⟩ := wcand.registered_of_root (show o ∈ {o | o ∈ request.knownObjects} from hk)
      obtain ⟨j, hj, hgj⟩ := wcand.registered_of_root (show p ∈ {o | o ∈ request.knownObjects} from hpk)
      rw [hpo, hgi] at hgj
      cases hgj
      obtain ⟨j, hpj, hgj⟩ := wlive.registered_of_root (hjobs receipt hr p (hl ▸ hp))
      rw [hj] at hpj
      cases hpj
      exact ⟨i,hi,hpo ▸ hgj⟩
  have hlive' : ∀ o, Named source {o | LiveRoot source request o} o →
      Registered cr source request.repository request.formatRepositoryId live.1 o := by
    intro o ho
    induction ho with
    | root ho => exact hregistered _ ho
    | child _ hv hc ih =>
      rcases wlive.cases_of_registered ih with ⟨hnone, -⟩ | ⟨ds, n, hsome, -, hds⟩
      · rw [hnone] at hv
        cases hv
      · rw [hsome] at hv
        cases hv
        exact hds _ hc
  have hids : ∀ {k i}, (request.attachBundles candidates.1).identities.get k = some i ∨
      (request.attachBundles expired.1).identities.get k = some i →
      merged.identities.get k = some i := fun h => (hm.identities _ _).mpr h
  refine ⟨?_,hjobkeys,?_,?_,?_,?_⟩
  · intro o ho
    have hr := hlive' o ho
    refine ⟨hr,?_⟩
    rcases wlive.cases_of_registered hr with ⟨-, hk⟩ | ⟨cs, n, hv, hn, -⟩
    · rw [hnomiss rfl] at hk
      cases hk
    · exact ⟨⟨cs,hv⟩,hkeys _ _ hn⟩
  · intro o ho
    rcases Named.of_union ho with ho | ho
    · exact (wcand.registered ho).mono fun k i hk => hids (.inl hk)
    · exact (wexp.registered ho).mono fun k i hk => hids (.inr hk)
  · intro k i j hi hj
    have hrow := List.all_eq_true.mp (require_eq_ok.mp hcheck) (k,i) (Table.get_eq_some.mp hi)
    simp only [Bool.and_eq_true, Option.all_eq_true, decide_eq_true_eq] at hrow
    exact (hrow.1 j hj).symm
  · intro k n hn
    rcases hm.nodes k n hn with hn | hn
    · have ho := @attachBundles_nodes request candidates.1 k
      rw [hn] at ho
      obtain ⟨m, hmk, hmo⟩ := Option.map_eq_some_iff.mp ho.symm
      obtain ⟨hk, -, hreg, -⟩ := wcand.walking.nodes k m hmk
      rw [← hmo]
      exact ⟨hk,hreg.mono fun k i hk => hids (.inl hk)⟩
    · have ho := @attachBundles_nodes request expired.1 k
      rw [hn] at ho
      obtain ⟨m, hmk, hmo⟩ := Option.map_eq_some_iff.mp ho.symm
      obtain ⟨hk, -, hreg, -⟩ := wexp.walking.nodes k m hmk
      rw [← hmo]
      exact ⟨hk,hreg.mono fun k i hk => hids (.inr hk)⟩
  · intro k hk
    rcases List.mem_append.mp hk with hk | hk
    · obtain ⟨o, ho, rfl⟩ := List.mem_map.mp hk
      exact ⟨o,rfl,.inl ho⟩
    · obtain ⟨⟨k', n⟩, hr, rfl⟩ := List.mem_map.mp hk
      obtain ⟨hok, hnamed, -⟩ := wexp.walking.nodes k' n (Table.get_eq_some.mpr hr)
      exact ⟨n.object,hok,.inr hnamed⟩

/-! ### What is selected -/

/-- An object the last loop selects. -/
def Selected (request : MarkRequest) (candidates : Graph) (unreachable : List String)
    (observed : Table String ℕ) (o : RemoteObject) : Prop :=
  ∃ k n, candidates.nodes.get k = some n ∧ n.object = o ∧ k ∈ unreachable ∧
    request.oldEnough observed k = true

lemma delayChildren_eq_ok {delays : Bool} {children : List String} {c c' : Collection}
    (h : children.foldlM (delayChild delays) c = .ok c') : c'.eligible = c.eligible := by
  refine foldlM_induct (I := fun (_ : List String) (d : Collection) => d.eligible = c.eligible)
    ?_ rfl h
  intro _ d child d' ih hd
  unfold delayChild at hd
  cases hn : d.incoming.get child with
  | none =>
    rw [hn] at hd
    cases hd
    exact ih
  | some n =>
    rw [hn] at hd
    obtain ⟨_, -, hd⟩ := bind_eq_ok.mp hd
    cases hd
    exact ih

lemma collect_eq_ok {candidates : Graph} {unreachable : List String} {observed : Table String ℕ}
    {fuel : ℕ} {c c' : Collection}
    (h : request.collect candidates unreachable observed fuel c = .ok c')
    (hc : ∀ o ∈ c.eligible, Selected request candidates unreachable observed o) :
    ∀ o ∈ c'.eligible, Selected request candidates unreachable observed o := by
  induction fuel generalizing c with
  | zero =>
    unfold collect at h
    cases hr : c.ready with
    | nil =>
      rw [hr] at h
      cases h
      exact hc
    | cons k rest =>
      rw [hr] at h
      cases h
  | succ fuel ih =>
    unfold collect at h
    cases hr : c.ready with
    | nil =>
      rw [hr] at h
      cases h
      exact hc
    | cons k rest =>
      simp only [hr] at h
      cases hn : candidates.nodes.get k with
      | none =>
        rw [hn] at h
        cases h
      | some n =>
        simp only [hn] at h
        obtain ⟨released, hrel, h⟩ := bind_eq_ok.mp h
        rw [run_eq_ok] at hrel
        refine ih h ?_
        rw [delayChildren_eq_ok hrel]
        intro o ho
        simp only [collectNode] at ho
        split_ifs at ho with hcollect
        · rcases List.mem_append.mp ho with ho | ho
          · exact hc o ho
          · simp only [Bool.and_eq_true, decide_eq_true_eq] at hcollect
            exact ⟨k,n,hn,(List.mem_singleton.mp ho).symm,hcollect.1.1,hcollect.1.2⟩
        · exact hc o ho

end MarkRequest
end RisuNest.External
