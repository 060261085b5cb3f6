import RisuNest.Client.AssetEvents
import RisuNest.Client.Custody

/-! Deletion tombstones never lock the repository out: what every event keeps, and what an opening
makes of it. -/
namespace RisuNest.Client
open Wire Storage

namespace AssetWorld

/-- What holds of the catalog, its tombstones and the holders of bodies between any two events. -/
structure Catalogued (cr : Crates) (bodyLength : String → ℕ) (w : AssetWorld) : Prop where
  object : ∀ digest o, w.objects.get digest = some o → o.byteSize = bodyLength digest
  deletion : ∀ digest t, w.deletions.get digest = some t →
    t.byteSize = bodyLength digest ∧ t.physicalKey = objectPhysicalKey digest
  file : ∀ digest bytes, w.files.get digest = some bytes →
    bytes.length = bodyLength digest ∧ hash cr bytes = digest
  custody : ∀ key row, w.residency.objects.get key = some row →
    row.size = bodyLength key.2 ∧ w.residency.contexts.contains key.1 = true
  source : ∀ key s, w.sources.get key = some s → s.byteLength = bodyLength key.1
  pending : ∀ digest t, w.deletions.get digest = some t → t.state = .pending →
    ∃ o, w.objects.get digest = some o
  unlinked : ∀ digest t, w.deletions.get digest = some t → t.state = .unlinked →
    w.objects.get digest = none
  held : ∀ digest o, w.objects.get digest = some o → w.Held digest ∨ w.Pending digest
  few : w.deletions.rows.countP isPending ≤ assetObjectCatalogMaxPage

/-- A collection that no commit has overtaken has its tombstone. -/
def Collects (w : AssetWorld) : Prop :=
  ∀ c, w.collecting = some c → c.phase ≠ .marked true → w.Pending c.digest

/-- What an eviction was granted is in custody. -/
def Granted (w : AssetWorld) : Prop :=
  ∀ granted, w.job = .evicting granted → ∀ key ∈ granted, ∃ row,
    w.residency.objects.get key = some row ∧ row.state = .active

variable {cr : Crates} {bodyLength : String → ℕ} {w v : AssetWorld} {digest : String}

/-! ### Holders -/

lemma pending_iff : w.Pending digest ↔
    ∃ t, w.deletions.get digest = some t ∧ t.state = .pending := by
  unfold Pending
  constructor
  · rintro ⟨t,ht,rfl,hp⟩
    exact ⟨t.2,Table.get_eq_some.mpr ht,by simpa [isPending] using hp⟩
  · rintro ⟨t,ht,hp⟩
    exact ⟨(digest,t),Table.get_eq_some.mp ht,rfl,by simpa [isPending] using hp⟩

lemma inCustody_iff : w.InCustody digest ↔
    ∃ context row, w.residency.objects.get (context,digest) = some row ∧
      w.Kept (context,digest) row := by
  unfold InCustody
  constructor
  · rintro ⟨⟨⟨context,_⟩,row⟩,hr,rfl,hk⟩
    exact ⟨context,row,Table.get_eq_some.mpr hr,hk⟩
  · rintro ⟨context,row,hr,hk⟩
    exact ⟨((context,digest),row),Table.get_eq_some.mp hr,rfl,hk⟩

lemma sourced_iff : (∃ r ∈ w.sources.rows, r.1.1 = digest) ↔
    ∃ key s, w.sources.get key = some s ∧ key.1 = digest := by
  constructor
  · rintro ⟨⟨key,s⟩,hr,rfl⟩
    exact ⟨key,s,Table.get_eq_some.mpr hr,rfl⟩
  · rintro ⟨key,s,hs,rfl⟩
    exact ⟨(key,s),Table.get_eq_some.mp hs,rfl⟩

lemma Held.mono (h : w.Held digest)
    (hf : w.files.contains digest = true → v.files.contains digest = true)
    (hc : w.InCustody digest → v.InCustody digest)
    (hs : ∀ key s, w.sources.get key = some s → key.1 = digest →
      ∃ s', v.sources.get key = some s') : v.Held digest := by
  rcases h with h | h | h
  · exact .inl (hf h)
  · exact .inr (.inl (hc h))
  · obtain ⟨key,s,hk,hd⟩ := sourced_iff.mp h
    obtain ⟨s',hs'⟩ := hs key s hk hd
    exact .inr (.inr (sourced_iff.mpr ⟨key,s',hs',hd⟩))

lemma InCustody.congr (h : w.InCustody digest) (hr : v.residency = w.residency)
    (hj : v.job = w.job) : v.InCustody digest := by
  obtain ⟨context,row,hrow,hk⟩ := inCustody_iff.mp h
  refine inCustody_iff.mpr ⟨context,row,by rw [hr,hrow],?_⟩
  unfold Kept begun at hk ⊢
  rwa [hj]

lemma InCustody.idle (h : w.InCustody digest) (hr : v.residency = w.residency)
    (hj : v.begun = []) : v.InCustody digest := by
  obtain ⟨context,row,hrow,hk⟩ := inCustody_iff.mp h
  refine inCustody_iff.mpr ⟨context,row,by rw [hr,hrow],?_⟩
  rcases hk with hk | ⟨hk,-⟩
  · exact .inl hk
  · exact .inr ⟨hk,by rw [hj]; exact fun o ho => nomatch ho⟩

lemma mem_of_head_insertionSort {α : Type} {r : α → α → Prop} [DecidableRel r] {l : List α} {a : α}
    (h : (l.insertionSort r).head? = some a) : a ∈ l :=
  (List.mem_insertionSort r).mp (List.mem_of_head? h)

lemma head_insertionSort_ne_none {α : Type} {r : α → α → Prop} [DecidableRel r] {l : List α} {a : α}
    (h : a ∈ l) : (l.insertionSort r).head? ≠ none := by
  rw [ne_eq,List.head?_eq_none_iff]
  intro hn
  have := (List.mem_insertionSort r).mpr h
  rw [hn] at this
  exact nomatch this

lemma custodySize_eq_some (h : w.Catalogued cr bodyLength) {n : ℕ}
    (hn : w.custodySize digest = some n) : n = bodyLength digest := by
  unfold custodySize custodyRow at hn
  simp only [Option.map_map,Option.map_eq_some_iff] at hn
  obtain ⟨⟨key,row⟩,hr,rfl⟩ := hn
  obtain ⟨hm,hp⟩ := List.mem_filter.mp (mem_of_head_insertionSort hr)
  obtain ⟨rfl,-⟩ := of_decide_eq_true hp
  exact (h.custody key row (Table.get_eq_some.mpr hm)).1

lemma InCustody.custodySize (hc : w.InCustody digest) (h : w.Catalogued cr bodyLength) :
    w.custodySize digest = some (bodyLength digest) := by
  cases hn : w.custodySize digest with
  | some n => rw [custodySize_eq_some h hn]
  | none =>
    obtain ⟨context,row,hr,hk⟩ := inCustody_iff.mp hc
    unfold AssetWorld.custodySize custodyRow at hn
    simp only [Option.map_map,Option.map_eq_none_iff] at hn
    refine absurd hn (head_insertionSort_ne_none (a := ((context,digest),row)) ?_)
    refine List.mem_filter.mpr ⟨Table.get_eq_some.mp hr,decide_eq_true ⟨rfl,?_,(h.custody _ _ hr).2⟩⟩
    rcases hk with hk | ⟨hk,-⟩ <;> rw [hk] <;> decide

lemma sourceSize_eq (h : w.Catalogued cr bodyLength) (hs : ∃ r ∈ w.sources.rows, r.1.1 = digest) :
    w.sourceSize digest = some (bodyLength digest) := by
  obtain ⟨r,hr,hd⟩ := hs
  have hm : r ∈ w.sources.rows.filter fun row => row.1.1 = digest :=
    List.mem_filter.mpr ⟨hr,decide_eq_true hd⟩
  cases hn : w.sourceSize digest with
  | none =>
    unfold sourceSize at hn
    rw [Option.map_eq_none_iff] at hn
    exact absurd hn (head_insertionSort_ne_none hm)
  | some n =>
    unfold sourceSize at hn
    obtain ⟨⟨key,s⟩,hh,rfl⟩ := Option.map_eq_some_iff.mp hn
    obtain ⟨hmem,hp⟩ := List.mem_filter.mp (mem_of_head_insertionSort hh)
    obtain rfl := of_decide_eq_true hp
    exact congrArg some (h.source key s (Table.get_eq_some.mpr hmem))

lemma Held.size (hh : w.Held digest) (h : w.Catalogued cr bodyLength) :
    w.statObject digest = some (bodyLength digest) ∨
      w.gcSize digest = some (bodyLength digest) := by
  rcases hh with hf | hc | hs
  · obtain ⟨bytes,hb⟩ := Table.contains_iff.mp hf
    refine .inl ?_
    rw [statObject,hb,Option.map_some,(h.file _ _ hb).1]
  · refine .inr ?_
    rw [gcSize,hc.custodySize h,Option.some_or]
  · refine .inr ?_
    cases hc : w.custodySize digest with
    | none => rw [gcSize,hc,Option.none_or,sourceSize_eq h hs]
    | some n => rw [gcSize,hc,Option.some_or,custodySize_eq_some h hc]

/-! ### Registration -/

lemma registerObject_eq_ok {byteSize : ℕ} {createdAtMs : ℤ}
    (h : w.registerObject digest byteSize createdAtMs = .ok v) :
    ∃ objects deletions, v = { w with objects := objects, deletions := deletions } ∧
      (∃ o, objects.get digest = some o ∧ o.byteSize = byteSize) ∧
      deletions.get digest = none ∧ (∀ k, k ≠ digest → objects.get k = w.objects.get k) ∧
      ∀ k, k ≠ digest → deletions.get k = w.deletions.get k := by
  unfold registerObject at h
  obtain ⟨_,-,h⟩ := bind_eq_ok.mp h
  obtain ⟨_,-,h⟩ := bind_eq_ok.mp h
  obtain ⟨placed,hp,h⟩ := bind_eq_ok.mp h
  obtain ⟨_,hsize,h⟩ := bind_eq_ok.mp h
  obtain rfl := Except.ok.inj h
  obtain ⟨o,ho,hs⟩ := Option.map_eq_some_iff.mp (require_eq_ok.mp hsize)
  unfold placeObject at hp
  cases hd : w.deletions.get digest with
  | none =>
    rw [hd] at hp
    obtain rfl := Except.ok.inj hp
    refine ⟨_,_,rfl,⟨o,ho,hs⟩,hd,fun k hk => ?_,fun _ _ => rfl⟩
    rw [Table.get_insertOrIgnore,if_neg hk]
  | some tombstone =>
    rw [hd] at hp
    obtain ⟨_,-,hp⟩ := bind_eq_ok.mp hp
    obtain rfl := Except.ok.inj hp
    refine ⟨_,_,rfl,⟨o,ho,hs⟩,by rw [Table.get_erase,if_pos rfl],fun k hk => ?_,fun k hk => ?_⟩
    · rw [Table.get_upsert,if_neg hk]
    · rw [Table.get_erase,if_neg hk]

lemma few_of_pending (h : w.deletions.rows.countP isPending ≤ assetObjectCatalogMaxPage)
    (hp : ∀ digest, v.Pending digest → w.Pending digest) :
    v.deletions.rows.countP isPending ≤ assetObjectCatalogMaxPage := by
  refine (Table.countP_le_length fun k hk => ?_).trans
    ((Table.length_keysWhere w.deletions isPending).le.trans h)
  obtain ⟨t,ht,hpk⟩ := Table.mem_keysWhere.mp hk
  obtain ⟨t',ht',hs⟩ := pending_iff.mp (hp k (pending_iff.mpr ⟨t,ht,by simpa [isPending] using hpk⟩))
  exact Table.mem_keysWhere.mpr ⟨t',ht',by simpa [isPending] using hs⟩

lemma Catalogued.registered (h : w.Catalogued cr bodyLength) {byteSize : ℕ} {createdAtMs : ℤ}
    (hh : w.Held digest) (hb : byteSize = bodyLength digest)
    (hr : w.registerObject digest byteSize createdAtMs = .ok v) : v.Catalogued cr bodyLength := by
  obtain ⟨objects,deletions,rfl,⟨o,ho,hsize⟩,hgone,hobj,hdel⟩ := registerObject_eq_ok hr
  have hpending : ∀ k, Pending { w with objects := objects, deletions := deletions } k →
      k ≠ digest ∧ w.Pending k := by
    intro k hk
    obtain ⟨t,ht,hs⟩ := pending_iff.mp hk
    have hne : k ≠ digest := by
      rintro rfl
      exact nomatch ht.symm.trans hgone
    exact ⟨hne,pending_iff.mpr ⟨t,(hdel k hne).symm.trans ht,hs⟩⟩
  refine ⟨?_,?_,h.file,h.custody,h.source,?_,?_,?_,few_of_pending h.few fun k hk => (hpending k hk).2⟩
  · intro k o' ho'
    by_cases hk : k = digest
    · subst k
      rw [Option.some.inj (ho'.symm.trans ho),hsize,hb]
    · exact h.object k o' ((hobj k hk).symm.trans ho')
  · intro k t ht
    by_cases hk : k = digest
    · subst k
      exact nomatch ht.symm.trans hgone
    · exact h.deletion k t ((hdel k hk).symm.trans ht)
  · intro k t ht hs
    obtain ⟨hne,-⟩ := hpending k (pending_iff.mpr ⟨t,ht,hs⟩)
    obtain ⟨o',ho'⟩ := h.pending k t ((hdel k hne).symm.trans ht) hs
    exact ⟨o',(hobj k hne).trans ho'⟩
  · intro k t ht hs
    by_cases hk : k = digest
    · subst k
      exact nomatch ht.symm.trans hgone
    · exact (hobj k hk).trans (h.unlinked k t ((hdel k hk).symm.trans ht) hs)
  · intro k o' ho'
    by_cases hk : k = digest
    · subst k
      exact .inl (hh.mono id (fun hc => hc.congr rfl rfl) fun _ s hs _ => ⟨s,hs⟩)
    · rcases h.held k o' ((hobj k hk).symm.trans ho') with hk' | hk'
      · exact .inl (hk'.mono id (fun hc => hc.congr rfl rfl) fun _ s hs _ => ⟨s,hs⟩)
      · obtain ⟨t,ht,hs⟩ := pending_iff.mp hk'
        exact .inr (pending_iff.mpr ⟨t,(hdel k hk).trans ht,hs⟩)

lemma Catalogued.registeredAll {objects : List (String × ℕ)} {createdAtMs : ℤ}
    (h : w.Catalogued cr bodyLength)
    (hh : ∀ o ∈ objects, w.Held o.1 ∧ o.2 = bodyLength o.1)
    (hr : objects.foldlM (fun w o => registerObject w o.1 o.2 createdAtMs) w = .ok v) :
    v.Catalogued cr bodyLength ∧ v.residency = w.residency ∧ v.job = w.job ∧
      v.collecting = w.collecting := by
  induction objects generalizing w with
  | nil =>
    obtain rfl := Except.ok.inj hr
    exact ⟨h,rfl,rfl,rfl⟩
  | cons o objects ih =>
    obtain ⟨mid,hm,hr⟩ := foldlM_cons_eq_ok.mp hr
    obtain ⟨ho,hrest⟩ := List.forall_mem_cons.mp hh
    have hmid := h.registered ho.1 ho.2 hm
    obtain ⟨objs,dels,hv,-⟩ := registerObject_eq_ok hm
    have hframe : mid.files = w.files ∧ mid.residency = w.residency ∧ mid.sources = w.sources ∧
        mid.job = w.job ∧ mid.collecting = w.collecting := by
      rw [hv]
      exact ⟨rfl,rfl,rfl,rfl,rfl⟩
    obtain ⟨hf,hres,hsrc,hjob,hcol⟩ := hframe
    have hheld : ∀ p ∈ objects, mid.Held p.1 ∧ p.2 = bodyLength p.1 := by
      intro p hp
      refine ⟨(hrest p hp).1.mono (by rw [hf]; exact id) (fun hc => hc.congr hres hjob) ?_,
        (hrest p hp).2⟩
      rw [hsrc]
      exact fun _ s hs _ => ⟨s,hs⟩
    obtain ⟨hv',hres',hjob',hcol'⟩ := ih hmid hheld hr
    exact ⟨hv',hres'.trans hres,hjob'.trans hjob,hcol'.trans hcol⟩

/-! ### Recovery -/

/-- A change of the tombstone and the row of one object, and of nothing else. -/
structure OnlyAt (digest : String) (w v : AssetWorld) : Prop where
  objects : ∀ k, k ≠ digest → v.objects.get k = w.objects.get k
  deletions : ∀ k, k ≠ digest → v.deletions.get k = w.deletions.get k
  files : v.files = w.files
  residency : v.residency = w.residency
  sources : v.sources = w.sources
  job : v.job = w.job

lemma OnlyAt.held (h : OnlyAt digest w v) {k : String} (hk : w.Held k) : v.Held k := by
  refine hk.mono (by rw [h.files]; exact id) (fun hc => hc.congr h.residency h.job) ?_
  rw [h.sources]
  exact fun _ s hs _ => ⟨s,hs⟩

lemma Catalogued.onlyAt (h : w.Catalogued cr bodyLength) (hv : OnlyAt digest w v)
    (hobject : ∀ o, v.objects.get digest = some o → w.objects.get digest = some o ∧ w.Held digest)
    (hdeletion : ∀ t, v.deletions.get digest = some t →
      t.byteSize = bodyLength digest ∧ t.physicalKey = objectPhysicalKey digest ∧
        t.state = .unlinked ∧ v.objects.get digest = none) : v.Catalogued cr bodyLength := by
  have hpending : ∀ k, v.Pending k → k ≠ digest ∧ w.Pending k := by
    intro k hk
    obtain ⟨t,ht,hs⟩ := pending_iff.mp hk
    have hne : k ≠ digest := by
      rintro rfl
      obtain ⟨-,-,hu,-⟩ := hdeletion t ht
      rw [hu] at hs
      exact nomatch hs
    exact ⟨hne,pending_iff.mpr ⟨t,(hv.deletions k hne).symm.trans ht,hs⟩⟩
  constructor
  case object =>
    intro k o ho
    by_cases hk : k = digest
    · subst k
      exact h.object _ o (hobject o ho).1
    · exact h.object k o ((hv.objects k hk).symm.trans ho)
  case deletion =>
    intro k t ht
    by_cases hk : k = digest
    · subst k
      exact ⟨(hdeletion t ht).1,(hdeletion t ht).2.1⟩
    · exact h.deletion k t ((hv.deletions k hk).symm.trans ht)
  case file =>
    rw [hv.files]
    exact h.file
  case custody =>
    rw [hv.residency]
    exact h.custody
  case source =>
    rw [hv.sources]
    exact h.source
  case pending =>
    intro k t ht hs
    obtain ⟨hne,-⟩ := hpending k (pending_iff.mpr ⟨t,ht,hs⟩)
    obtain ⟨o,ho⟩ := h.pending k t ((hv.deletions k hne).symm.trans ht) hs
    exact ⟨o,(hv.objects k hne).trans ho⟩
  case unlinked =>
    intro k t ht hs
    by_cases hk : k = digest
    · subst k
      exact (hdeletion t ht).2.2.2
    · exact (hv.objects k hk).trans (h.unlinked k t ((hv.deletions k hk).symm.trans ht) hs)
  case held =>
    intro k o ho
    by_cases hk : k = digest
    · subst k
      exact .inl (hv.held (hobject o ho).2)
    · rcases h.held k o ((hv.objects k hk).symm.trans ho) with hh | hp
      · exact .inl (hv.held hh)
      · obtain ⟨t,ht,hs⟩ := pending_iff.mp hp
        exact .inr (pending_iff.mpr ⟨t,(hv.deletions k hk).trans ht,hs⟩)
  case few => exact few_of_pending h.few fun k hk => (hpending k hk).2

lemma statObject_eq (h : w.Catalogued cr bodyLength) {n : ℕ} (hn : w.statObject digest = some n) :
    n = bodyLength digest ∧ w.Held digest := by
  obtain ⟨bytes,hb,rfl⟩ := Option.map_eq_some_iff.mp hn
  exact ⟨(h.file _ _ hb).1,.inl (Table.contains_iff.mpr ⟨bytes,hb⟩)⟩

lemma recoverDeletion_ok (h : w.Catalogued cr bodyLength) {t : AssetDeletion}
    (ht : w.deletions.get digest = some t) :
    ∃ v, w.recoverDeletion (digest,t) = .ok v ∧ v.Catalogued cr bodyLength ∧
      OnlyAt digest w v ∧ v.collecting = w.collecting ∧ ¬ v.Pending digest := by
  obtain ⟨hsize,hkey⟩ := h.deletion digest t ht
  have hcanonical : require (t.physicalKey = objectPhysicalKey digest)
      (StoreError.validation "asset deletion tombstone physical key is not canonical") = .ok () :=
    require_eq_ok.mpr hkey
  have hdrop : OnlyAt digest w { w with deletions := w.deletions.erase digest } :=
    ⟨fun _ _ => rfl,fun k hk => by rw [Table.get_erase,if_neg hk],rfl,rfl,rfl,rfl⟩
  have hgone : (w.deletions.erase digest).get digest = none := by
    rw [Table.get_erase,if_pos rfl]
  cases hs : t.state with
  | pending =>
    obtain ⟨o,ho⟩ := h.pending digest t ht hs
    have hexact : (w.objects.get digest).map AssetObject.byteSize = some t.byteSize := by
      rw [ho,Option.map_some,h.object _ _ ho,hsize]
    cases hstat : w.statObject digest with
    | some actual =>
      obtain ⟨ha,hheld⟩ := statObject_eq h hstat
      refine ⟨_,?_,h.onlyAt hdrop (fun o ho => ⟨ho,hheld⟩)
        (fun t' ht' => by cases ht'.symm.trans hgone),hdrop,rfl,fun hp => ?_⟩
      · unfold recoverDeletion
        refine bind_eq_ok.mpr ⟨⟨⟩,hcanonical,?_⟩
        simp only [hs,hstat]
        exact bind_eq_ok.mpr ⟨⟨⟩,require_eq_ok.mpr hexact,
          bind_eq_ok.mpr ⟨⟨⟩,require_eq_ok.mpr (ha.trans hsize.symm),rfl⟩⟩
      · obtain ⟨t',ht',-⟩ := pending_iff.mp hp
        cases ht'.symm.trans hgone
    | none =>
      have hnew : (w.deletions.upsert digest { t with state := .unlinked }).get digest =
          some { t with state := .unlinked } := by rw [Table.get_upsert,if_pos rfl]
      have hrow : (w.objects.erase digest).get digest = none := by
        rw [Table.get_erase,if_pos rfl]
      have hat : OnlyAt digest w { w with
          objects := w.objects.erase digest
          deletions := w.deletions.upsert digest { t with state := .unlinked } } :=
        ⟨fun k hk => by rw [Table.get_erase,if_neg hk],
          fun k hk => by rw [Table.get_upsert,if_neg hk],rfl,rfl,rfl,rfl⟩
      refine ⟨_,?_,h.onlyAt hat (fun o ho => by cases ho.symm.trans hrow) fun t' ht' => ?_,hat,
        rfl,fun hp => ?_⟩
      · unfold recoverDeletion
        refine bind_eq_ok.mpr ⟨⟨⟩,hcanonical,?_⟩
        simp only [hs,hstat]
        exact bind_eq_ok.mpr ⟨⟨⟩,require_eq_ok.mpr hexact,rfl⟩
      · obtain rfl := Option.some.inj (ht'.symm.trans hnew)
        exact ⟨hsize,hkey,rfl,hrow⟩
      · obtain ⟨t',ht',hp⟩ := pending_iff.mp hp
        obtain rfl := Option.some.inj (ht'.symm.trans hnew)
        cases hp
  | unlinked =>
    have hnone := h.unlinked digest t ht hs
    cases hstat : w.statObject digest with
    | some actual =>
      obtain ⟨ha,-⟩ := statObject_eq h hstat
      refine ⟨w,?_,h,⟨fun _ _ => rfl,fun _ _ => rfl,rfl,rfl,rfl,rfl⟩,rfl,fun hp => ?_⟩
      · unfold recoverDeletion
        refine bind_eq_ok.mpr ⟨⟨⟩,hcanonical,?_⟩
        simp only [hs,hstat]
        exact bind_eq_ok.mpr ⟨⟨⟩,require_eq_ok.mpr hnone,
          bind_eq_ok.mpr ⟨⟨⟩,require_eq_ok.mpr (ha.trans hsize.symm),rfl⟩⟩
      · obtain ⟨t',ht',hp⟩ := pending_iff.mp hp
        obtain rfl := Option.some.inj (ht'.symm.trans ht)
        rw [hs] at hp
        cases hp
    | none =>
      refine ⟨_,?_,h.onlyAt hdrop (fun o ho => by cases ho.symm.trans hnone)
        (fun t' ht' => by cases ht'.symm.trans hgone),hdrop,rfl,fun hp => ?_⟩
      · unfold recoverDeletion
        refine bind_eq_ok.mpr ⟨⟨⟩,hcanonical,?_⟩
        simp only [hs,hstat]
        exact bind_eq_ok.mpr ⟨⟨⟩,require_eq_ok.mpr hnone,rfl⟩
      · obtain ⟨t',ht',-⟩ := pending_iff.mp hp
        cases ht'.symm.trans hgone

lemma recoverDeletions_ok {ts : List (String × AssetDeletion)} (h : w.Catalogued cr bodyLength)
    (hd : (ts.map Prod.fst).Nodup) (ht : ∀ t ∈ ts, w.deletions.get t.1 = some t.2) :
    ∃ v, w.recoverDeletions ts = .ok v ∧ v.Catalogued cr bodyLength ∧
      (∀ k, v.Pending k → w.Pending k ∧ k ∉ ts.map Prod.fst) ∧ v.files = w.files ∧
      v.collecting = w.collecting ∧ v.job = w.job ∧ v.residency = w.residency := by
  induction ts generalizing w with
  | nil => exact ⟨w,rfl,h,fun k hk => ⟨hk,List.not_mem_nil⟩,rfl,rfl,rfl,rfl⟩
  | cons t ts ih =>
    obtain ⟨digest,t⟩ := t
    rw [List.map_cons,List.nodup_cons] at hd
    obtain ⟨hfirst,hrest⟩ := List.forall_mem_cons.mp ht
    obtain ⟨m,hm,hcat,hat,hcol,hnot⟩ := recoverDeletion_ok h hfirst
    have hstill : ∀ t ∈ ts, m.deletions.get t.1 = some t.2 := by
      intro t' ht'
      have hne : t'.1 ≠ digest := by
        intro he
        apply hd.1
        rw [← he]
        exact List.mem_map.mpr ⟨t',ht',rfl⟩
      rw [hat.deletions _ hne,hrest t' ht']
    obtain ⟨v,hv,hcat',hp,hf,hc,hj,hr⟩ := ih hcat hd.2 hstill
    refine ⟨v,foldlM_cons_eq_ok.mpr ⟨m,hm,hv⟩,hcat',fun k hk => ?_,hf.trans hat.files,
      hc.trans hcol,hj.trans hat.job,hr.trans hat.residency⟩
    obtain ⟨hkm,hknot⟩ := hp k hk
    have hne : k ≠ digest := by
      rintro rfl
      exact hnot hkm
    obtain ⟨t',ht',hs⟩ := pending_iff.mp hkm
    refine ⟨pending_iff.mpr ⟨t',(hat.deletions k hne).symm.trans ht',hs⟩,?_⟩
    rw [List.map_cons,List.mem_cons]
    rintro (he | he)
    · exact hne he
    · exact hknot he

lemma mem_take_of_first {α : Type} {r : α → α → Prop} {p : α → Bool} {l : List α} {n : ℕ} {x : α}
    (hs : l.Pairwise r) (hr : ∀ a b, r a b → p b = true → p a = true) (hx : x ∈ l)
    (hp : p x = true) (hc : l.countP p ≤ n) : x ∈ l.take n := by
  rw [← List.take_append_drop n l] at hx hs hc
  rcases List.mem_append.mp hx with hx | hx
  · exact hx
  · have hall : ∀ a ∈ l.take n, p a = true := fun a ha =>
      hr a x ((List.pairwise_append.mp hs).2.2 a ha x hx) hp
    have h1 : (l.take n).countP p = (l.take n).length := List.countP_eq_length.mpr hall
    have h2 : 0 < (l.drop n).countP p := List.countP_pos_iff.mpr ⟨x,hx,hp⟩
    have h3 : n ≤ l.length := by
      by_contra hlt
      rw [List.drop_of_length_le (by omega)] at hx
      exact nomatch hx
    rw [List.countP_append,h1,List.length_take] at hc
    omega

lemma isPending_of_le {a b : String × AssetDeletion} (h : deletionKey a ≤ deletionKey b)
    (hb : isPending b = true) : isPending a = true := by
  have hr : DeletionState.rank a.2.state ≤ DeletionState.rank b.2.state := by
    rcases Prod.Lex.toLex_le_toLex.mp h with h | h
    · exact h.le
    · exact h.1.le
  simp only [isPending,decide_eq_true_eq] at hb ⊢
  rw [hb] at hr
  cases hs : a.2.state with
  | pending => rfl
  | unlinked =>
    rw [hs] at hr
    exact absurd hr (by decide)

lemma mem_deletionPage {t : String × AssetDeletion} (h : t ∈ w.deletionPage) :
    w.deletions.get t.1 = some t.2 :=
  Table.get_eq_some.mpr ((List.mem_insertionSort _).mp (List.mem_of_mem_take h))

lemma nodup_deletionPage (w : AssetWorld) : (w.deletionPage.map Prod.fst).Nodup := by
  unfold deletionPage
  rw [List.map_take]
  refine List.Nodup.sublist (List.take_sublist _ _) ?_
  exact ((List.perm_insertionSort _ _).map Prod.fst).nodup_iff.mpr w.deletions.nodup

lemma pending_mem_deletionPage (h : w.Catalogued cr bodyLength) (hp : w.Pending digest) :
    digest ∈ w.deletionPage.map Prod.fst := by
  obtain ⟨t,ht,rfl,hs⟩ := hp
  refine List.mem_map_of_mem (mem_take_of_first (List.pairwise_insertionSort _ _)
    (fun a b => isPending_of_le) ((List.mem_insertionSort _).mpr ht) hs ?_)
  rw [(List.perm_insertionSort _ _).countP_eq]
  exact h.few

lemma Catalogued.of_calls (h : w.Catalogued cr bodyLength) (collecting : Option Collecting)
    (job : OffloadJob) (hj : job = w.job ∨ begun { w with job := job } = []) :
    Catalogued cr bodyLength { w with collecting := collecting, job := job } := by
  refine ⟨h.object,h.deletion,h.file,h.custody,h.source,h.pending,h.unlinked,?_,h.few⟩
  intro k o ho
  rcases h.held k o ho with hh | hp
  · refine .inl (hh.mono id (fun hc => ?_) fun _ s hs _ => ⟨s,hs⟩)
    rcases hj with rfl | hj
    · exact hc.congr rfl rfl
    · exact hc.idle rfl hj
  · exact .inr hp

theorem Catalogued.recovered (h : w.Catalogued cr bodyLength) :
    ∃ v, w.recover = .ok v ∧ v.Catalogued cr bodyLength ∧ (∀ k, ¬ v.Pending k) ∧
      v.collecting = none ∧ v.job = .idle := by
  obtain ⟨v,hv,hcat,hp,-,hc,hj,-⟩ := recoverDeletions_ok (h.of_calls none .idle (.inr rfl)) (nodup_deletionPage w)
    fun t => mem_deletionPage
  exact ⟨v,hv,hcat,fun k hk => (hp k hk).2 (pending_mem_deletionPage h (hp k hk).1),hc,hj⟩

/-! ### Releases -/

/-- Custody that a release may have taken out of use, and nothing more. -/
def Releasing (r t : Residency) : Prop :=
  t.contexts = r.contexts ∧ ∀ key, t.objects.get key = r.objects.get key ∨
    ∃ row, r.objects.get key = some row ∧
      t.objects.get key = some { row with state := .releasing }

lemma Releasing.trans {r s t : Residency} (h : Releasing r s) (k : Releasing s t) :
    Releasing r t := by
  refine ⟨k.1.trans h.1,fun key => ?_⟩
  rcases k.2 key with hk | ⟨row,hrow,ht⟩
  · rcases h.2 key with hh | ⟨row,hrow,hs⟩
    · exact .inl (hk.trans hh)
    · exact .inr ⟨row,hrow,hk.trans hs⟩
  · rcases h.2 key with hh | ⟨old,hold,hs⟩
    · exact .inr ⟨row,hh.symm.trans hrow,ht⟩
    · obtain rfl := Option.some.inj (hrow.symm.trans hs)
      exact .inr ⟨old,hold,ht⟩

lemma releasing_of_beginLatestRelease {r t : Residency} {context : String}
    {answer : Synced (Option RemoteObject)}
    (h : r.beginLatestRelease digest context = (t,answer)) : Releasing r t := by
  rcases Residency.beginLatestRelease_spec h with ⟨rfl,-⟩ | ⟨object,row,-,hrow,-,rfl⟩
  · exact ⟨rfl,fun _ => .inl rfl⟩
  · refine ⟨rfl,fun key => ?_⟩
    by_cases hk : key = (object.context,object.hash)
    · subst key
      exact .inr ⟨row,hrow,by rw [Table.get_upsert,if_pos rfl]⟩
    · exact .inl (by rw [Table.get_upsert,if_neg hk])

/-- What a page of releases has done: the custody and the rows that changed are those of objects
it has begun to release, and a row stays only where the body is local. -/
structure Progressed (w : AssetWorld) (digests : List String)
    (p : Residency × Table String AssetObject × List RemoteObject) : Prop where
  releasing : Releasing w.residency p.1
  untouched : ∀ key, (∀ o ∈ p.2.2, o.hash ≠ key.2) →
    p.1.objects.get key = w.residency.objects.get key
  kept : ∀ k, p.2.1.get k = w.objects.get k ∨
    p.2.1.get k = none ∧ k ∈ digests ∧ w.statObject k = none
  dropped : ∀ o ∈ p.2.2, w.statObject o.hash = none → p.2.1.get o.hash = none

lemma beginReleases_spec {context : String} {digests done : List String}
    {p : Residency × Table String AssetObject × List RemoteObject}
    (hp : w.Progressed done p) {residency : Residency}
    {answer : Synced (Residency × Table String AssetObject × List RemoteObject)}
    (h : w.beginReleases context p digests = (residency,answer)) :
    Releasing w.residency residency ∧
      ∀ q, answer = .ok q → q.1 = residency ∧ w.Progressed (done ++ digests) q := by
  induction digests generalizing done p with
  | nil =>
    obtain ⟨rfl,rfl⟩ := Prod.mk.inj h
    refine ⟨hp.releasing,fun q hq => ?_⟩
    obtain rfl := Except.ok.inj hq
    rw [List.append_nil]
    exact ⟨rfl,hp⟩
  | cons digest digests ih =>
    unfold beginReleases beginRelease at h
    cases hb : p.1.beginLatestRelease digest context with
    | mk next found =>
      have hrel := hp.releasing.trans (releasing_of_beginLatestRelease hb)
      rw [hb] at h
      cases found with
      | error e =>
        obtain ⟨rfl,rfl⟩ := Prod.mk.inj h
        exact ⟨hrel,fun q hq => nomatch hq⟩
      | ok object =>
        have hmore : ∀ k, k ∈ done → k ∈ done ++ [digest] := fun k hk =>
          List.mem_append_left _ hk
        rw [List.append_cons]
        cases object with
        | none =>
          refine ih (p := (next,p.2)) ⟨hrel,fun key hkey => ?_,fun k => ?_,hp.dropped⟩ h
          · rcases Residency.beginLatestRelease_spec hb with ⟨rfl,-⟩ | ⟨o,row,he,-⟩
            · exact hp.untouched key hkey
            · exact nomatch he
          · exact (hp.kept k).imp id fun ⟨h1,h2,h3⟩ => ⟨h1,hmore k h2,h3⟩
        | some object =>
          obtain ⟨-,hhash⟩ := Residency.object_of_beginLatestRelease hb
          refine ih ⟨hrel,fun key hkey => ?_,fun k => ?_,fun o ho hnone => ?_⟩ h
          · have hne : object.hash ≠ key.2 :=
              hkey object (List.mem_append_right _ List.mem_cons_self)
            rw [← hp.untouched key fun o ho => hkey o (List.mem_append_left _ ho)]
            rcases Residency.beginLatestRelease_spec hb with ⟨-,hn⟩ | ⟨o,row,he,-,-,rfl⟩
            · exact absurd rfl (hn object)
            · obtain rfl := Option.some.inj (Except.ok.inj he)
              rw [Table.get_upsert,if_neg fun hk => hne (by rw [hk])]
          · dsimp only
            cases hstat : w.statObject digest with
            | some n => exact (hp.kept k).imp id fun ⟨h1,h2,h3⟩ => ⟨h1,hmore k h2,h3⟩
            | none =>
              by_cases hk : k = digest
              · subst k
                refine .inr ⟨by rw [Table.get_erase,if_pos rfl],?_,hstat⟩
                exact List.mem_append_right _ List.mem_cons_self
              · rw [Table.get_erase,if_neg hk]
                exact (hp.kept k).imp id fun ⟨h1,h2,h3⟩ => ⟨h1,hmore k h2,h3⟩
          · dsimp only
            rcases List.mem_append.mp ho with ho | ho
            · have := hp.dropped o ho hnone
              cases hstat : w.statObject digest with
              | some n => exact this
              | none =>
                rw [Table.get_erase]
                split_ifs
                · rfl
                · exact this
            · obtain rfl := List.mem_singleton.mp ho
              rw [hhash] at hnone ⊢
              rw [hnone]
              exact (Table.get_erase ..).trans (if_pos rfl)

/-! ### One event -/

/-- What every event keeps. -/
structure InOrder (cr : Crates) (bodyLength : String → ℕ) (w : AssetWorld) : Prop where
  catalogued : w.Catalogued cr bodyLength
  collects : w.Collects
  granted : w.Granted

lemma Catalogued.of_holders (h : w.Catalogued cr bodyLength) (ho : v.objects = w.objects)
    (hd : v.deletions = w.deletions)
    (hfile : ∀ k bytes, v.files.get k = some bytes →
      bytes.length = bodyLength k ∧ hash cr bytes = k)
    (hcustody : ∀ key row, v.residency.objects.get key = some row →
      row.size = bodyLength key.2 ∧ v.residency.contexts.contains key.1 = true)
    (hsource : ∀ key s, v.sources.get key = some s → s.byteLength = bodyLength key.1)
    (hheld : ∀ k o, w.objects.get k = some o → w.Held k → v.Held k ∨ w.Pending k) :
    v.Catalogued cr bodyLength := by
  refine ⟨by rw [ho]; exact h.object,by rw [hd]; exact h.deletion,hfile,hcustody,hsource,
    by rw [hd,ho]; exact h.pending,by rw [hd,ho]; exact h.unlinked,fun k o hk => ?_,
    by rw [hd]; exact h.few⟩
  rw [ho] at hk
  have hp : v.Pending k ↔ w.Pending k := by rw [pending_iff,pending_iff,hd]
  rw [hp]
  rcases h.held k o hk with hh | hh
  · exact hheld k o hk hh
  · exact .inr hh

lemma Releasing.custody (h : w.Catalogued cr bodyLength) {r : Residency}
    (hr : Releasing w.residency r) (key : String × String) (row : CustodyRow)
    (hk : r.objects.get key = some row) :
    row.size = bodyLength key.2 ∧ r.contexts.contains key.1 = true := by
  rw [hr.1]
  rcases hr.2 key with hsame | ⟨old,hold,hnew⟩
  · exact h.custody key row (hsame.symm.trans hk)
  · obtain rfl := Option.some.inj (hk.symm.trans hnew)
    exact h.custody key old hold

lemma InOrder.publish (h : w.InOrder cr bodyLength) {bytes : List UInt8}
    (hv : w.step cr bodyLength (.publish digest bytes) = some v) : v.InOrder cr bodyLength := by
  simp only [step] at hv
  split_ifs at hv with hg
  obtain rfl := Option.some.inj hv
  have hc := h.catalogued
  refine ⟨hc.of_holders rfl rfl (fun k b hb => ?_) hc.custody hc.source fun k o ho hh => .inl ?_,
    h.collects,h.granted⟩
  · dsimp only at hb
    rw [Table.get_insertOrIgnore] at hb
    split_ifs at hb with hk
    · subst k
      cases hf : w.files.get digest with
      | none =>
        rw [hf] at hb
        obtain rfl := Option.some.inj hb
        exact ⟨hg.2,hg.1⟩
      | some old =>
        rw [hf] at hb
        obtain rfl := Option.some.inj hb
        exact hc.file _ _ hf
    · exact hc.file k b hb
  · refine hh.mono (fun hf => ?_) (fun hc => hc.congr rfl rfl) fun _ s hs _ => ⟨s,hs⟩
    obtain ⟨b,hb⟩ := Table.contains_iff.mp hf
    exact Table.contains_iff.mpr ⟨b,Table.get_insertOrIgnore_of_get hb⟩

lemma committed_collects (w : AssetWorld) : w.committed.Collects := by
  intro c hc hne
  obtain ⟨c',-,rfl⟩ := Option.map_eq_some_iff.mp hc
  exact absurd rfl hne

lemma InOrder.committed (h : w.InOrder cr bodyLength) : w.committed.InOrder cr bodyLength :=
  ⟨h.catalogued.of_calls _ w.job (.inl rfl),committed_collects w,h.granted⟩

lemma InOrder.register (h : w.InOrder cr bodyLength) {objects : List (String × ℕ)}
    {createdAtMs : ℤ} (hg : w.Careful bodyLength (.register objects createdAtMs))
    (hv : w.step cr bodyLength (.register objects createdAtMs) = some v) :
    v.InOrder cr bodyLength := by
  simp only [step] at hv
  split_ifs at hv with hw
  cases hr : AssetWorld.register w objects createdAtMs with
  | error e =>
    rw [hr] at hv
    contradiction
  | ok next =>
    rw [hr] at hv
    obtain rfl := Option.some.inj hv
    obtain ⟨_,-,hr⟩ := bind_eq_ok.mp hr
    obtain ⟨_,-,hr⟩ := bind_eq_ok.mp hr
    obtain ⟨hcat,hres,hjob,-⟩ := h.catalogued.registeredAll hg hr
    refine ⟨hcat.of_calls _ next.job (.inl rfl),committed_collects next,fun granted hj => ?_⟩
    change ∀ key ∈ granted, ∃ row, next.residency.objects.get key = some row ∧ row.state = .active
    rw [hres]
    exact h.granted granted (hjob.symm.trans hj)

lemma InOrder.confirm (h : w.InOrder cr bodyLength) {config : StoredConfig} {head : RemoteHead}
    {objects : List Server.RetainedObject}
    (hv : w.step cr bodyLength (.confirm config head objects) = some v) :
    v.InOrder cr bodyLength := by
  change w.confirm cr bodyLength config head objects = some v at hv
  unfold AssetWorld.confirm at hv
  split_ifs at hv with hsize
  cases hr : w.residency.confirm cr config head objects with
  | error e =>
    rw [hr] at hv
    contradiction
  | ok residency =>
    rw [hr] at hv
    obtain rfl := Option.some.inj hv
    obtain ⟨hcontexts,hrows⟩ := Residency.confirm_eq_ok hr
    have hc := h.catalogued
    refine ⟨hc.of_holders rfl rfl hc.file (fun key row hk => ?_) hc.source
      fun k o ho hh => .inl ?_,h.collects,?_⟩
    · rcases hrows key with ⟨hsame,-⟩ | ⟨o,ho,rfl,hnew⟩
      · obtain ⟨h1,h2⟩ := hc.custody key row (hsame.symm.trans hk)
        exact ⟨h1,hcontexts _ (.inr h2)⟩
      · obtain rfl := Option.some.inj (hk.symm.trans hnew)
        exact ⟨hsize o ho,hcontexts _ (.inl rfl)⟩
    · refine hh.mono id (fun hin => ?_) fun _ s hs _ => ⟨s,hs⟩
      obtain ⟨context,row,hrow,hkept⟩ := inCustody_iff.mp hin
      rcases hrows (context,k) with ⟨hsame,-⟩ | ⟨o,ho,-,hnew⟩
      · refine inCustody_iff.mpr ⟨context,row,hsame.trans hrow,?_⟩
        unfold Kept begun at hkept ⊢
        cases hj : w.job <;> simp only [hj,OffloadJob.grant] at hkept ⊢ <;> exact hkept
      · exact inCustody_iff.mpr ⟨context,_,hnew,.inl rfl⟩
    · intro granted hj key hkey
      dsimp only at hj
      cases hw : w.job with
      | evicting old =>
        rw [hw] at hj
        obtain rfl := OffloadJob.evicting.inj hj
        rcases hrows key with ⟨hsame,hnot⟩ | ⟨o,-,-,hnew⟩
        · rcases List.mem_append.mp hkey with hkey | hkey
          · obtain ⟨row,hrow,hs⟩ := h.granted old hw key hkey
            exact ⟨row,hsame.trans hrow,hs⟩
          · obtain ⟨o,ho,he⟩ := List.mem_map.mp hkey
            exact absurd he (hnot o ho)
        · exact ⟨_,hnew,rfl⟩
      | idle =>
        rw [hw] at hj
        contradiction
      | releasing begun =>
        rw [hw] at hj
        contradiction

lemma InOrder.addSource (h : w.InOrder cr bodyLength) {key : SourceKey} {source : BodySource}
    (hv : w.step cr bodyLength (.addSource key source) = some v) : v.InOrder cr bodyLength := by
  simp only [step] at hv
  split_ifs at hv with hg
  obtain rfl := Option.some.inj hv
  have hc := h.catalogued
  refine ⟨hc.of_holders rfl rfl hc.file hc.custody (fun k s hs => ?_) fun k o ho hh => .inl ?_,
    h.collects,h.granted⟩
  · dsimp only at hs
    rw [Table.get_upsert] at hs
    split_ifs at hs with hk
    · obtain rfl := Option.some.inj hs
      rw [hk,hg]
    · exact hc.source k s hs
  · refine hh.mono id (fun hc => hc.congr rfl rfl) fun key' s hs _ => ?_
    by_cases hk : key' = key
    · exact ⟨source,by rw [Table.get_upsert,if_pos hk]⟩
    · exact ⟨s,by rw [Table.get_upsert,if_neg hk,hs]⟩

lemma InOrder.mark (h : w.InOrder cr bodyLength) {nowMs : ℤ}
    (hg : w.Careful bodyLength (.mark digest nowMs)) (hv : w.mark digest nowMs = some v) :
    v.InOrder cr bodyLength := by
  unfold AssetWorld.mark at hv
  split at hv
  · next object ho hd =>
    split_ifs at hv with hif
    obtain rfl := Option.some.inj hv
    have hc := h.catalogued
    have hnew : ∀ k t, (w.deletions.upsert digest
        ⟨object.byteSize,objectPhysicalKey digest,.pending,nowMs⟩).get k = some t →
        (k = digest ∧ t = ⟨object.byteSize,objectPhysicalKey digest,.pending,nowMs⟩) ∨
          k ≠ digest ∧ w.deletions.get k = some t := by
      intro k t ht
      rw [Table.get_upsert] at ht
      split_ifs at ht with hk
      · exact .inl ⟨hk,(Option.some.inj ht).symm⟩
      · exact .inr ⟨hk,ht⟩
    refine ⟨⟨hc.object,fun k t ht => ?_,hc.file,hc.custody,hc.source,fun k t ht hs => ?_,
      fun k t ht hs => ?_,fun k o hk => ?_,?_⟩,?_,h.granted⟩
    · rcases hnew k t ht with ⟨rfl,rfl⟩ | ⟨-,ht⟩
      · exact ⟨hc.object _ _ ho,rfl⟩
      · exact hc.deletion k t ht
    · rcases hnew k t ht with ⟨rfl,-⟩ | ⟨-,ht⟩
      · exact ⟨object,ho⟩
      · exact hc.pending k t ht hs
    · rcases hnew k t ht with ⟨-,rfl⟩ | ⟨-,ht⟩
      · cases hs
      · exact hc.unlinked k t ht hs
    · rcases hc.held k o hk with hh | hp
      · exact .inl (hh.mono id (fun hc => hc.congr rfl rfl) fun _ s hs _ => ⟨s,hs⟩)
      · obtain ⟨t,ht,hs⟩ := pending_iff.mp hp
        refine .inr (pending_iff.mpr ?_)
        by_cases hkd : k = digest
        · exact ⟨_,by rw [Table.get_upsert,if_pos hkd],rfl⟩
        · exact ⟨t,by rw [Table.get_upsert,if_neg hkd,ht],hs⟩
    · have hle : w.deletions.rows.countP isPending + 1 ≤ assetObjectCatalogMaxPage := hg
      rw [← Table.length_keysWhere] at hle
      have hsub : ∀ k ∈ (w.deletions.upsert digest
          ⟨object.byteSize,objectPhysicalKey digest,.pending,nowMs⟩).keysWhere isPending,
          k ∈ digest::w.deletions.keysWhere isPending := by
        intro k hk
        obtain ⟨t,ht,hpk⟩ := Table.mem_keysWhere.mp hk
        rcases hnew k t ht with ⟨rfl,-⟩ | ⟨-,ht⟩
        · exact List.mem_cons_self
        · exact List.mem_cons_of_mem _ (Table.mem_keysWhere.mpr ⟨t,ht,hpk⟩)
      exact (Table.countP_le_length hsub).trans hle
    · intro c hcol _
      obtain rfl := Option.some.inj hcol
      exact pending_iff.mpr ⟨_,by rw [Table.get_upsert,if_pos rfl],rfl⟩
  · contradiction

lemma InOrder.unlink (h : w.InOrder cr bodyLength) (hv : w.unlink cr = some v) :
    v.InOrder cr bodyLength := by
  unfold AssetWorld.unlink at hv
  split at hv
  · next digest byteSize hcol =>
    split at hv
    · split_ifs at hv with hif
      obtain rfl := Option.some.inj hv
      have hc := h.catalogued
      have hp : w.Pending digest := h.collects _ hcol (by simp)
      refine ⟨hc.of_holders rfl rfl (fun k b hb => ?_) hc.custody hc.source fun k o ho hh => ?_,
        fun c hc' _ => ?_,h.granted⟩
      · dsimp only at hb
        rw [Table.get_erase] at hb
        split_ifs at hb
        exact hc.file k b hb
      · by_cases hk : k = digest
        · subst k
          exact .inr hp
        · refine .inl (hh.mono (fun hf => ?_) (fun hc => hc.congr rfl rfl) fun _ s hs _ => ⟨s,hs⟩)
          obtain ⟨b,hb⟩ := Table.contains_iff.mp hf
          exact Table.contains_iff.mpr ⟨b,by rw [Table.get_erase,if_neg hk,hb]⟩
      · obtain rfl := Option.some.inj hc'
        exact hp
    · contradiction
  · contradiction

lemma completed_deletions {t : AssetDeletion} (ht : w.deletions.get digest = some t)
    (hs : t.state = .pending) (directorySynced : Bool) :
    let deletions := if directorySynced then w.deletions.erase digest
      else w.deletions.mapValues fun k t =>
        if k = digest ∧ t.state = .pending then { t with state := .unlinked } else t
    (∀ k, k ≠ digest → deletions.get k = w.deletions.get k) ∧
      ∀ t', deletions.get digest = some t' → t' = { t with state := .unlinked } := by
  cases directorySynced with
  | true =>
    refine ⟨fun k hk => (Table.get_erase ..).trans (if_neg hk),fun t' ht' => ?_⟩
    have hgone : (w.deletions.erase digest).get digest = none :=
      (Table.get_erase ..).trans (if_pos rfl)
    exact nomatch ht'.symm.trans hgone
  | false =>
    refine ⟨fun k hk => ?_,fun t' ht' => ?_⟩
    · rw [if_neg Bool.false_ne_true,Table.get_mapValues]
      cases w.deletions.get k with
      | none => rfl
      | some t => exact congrArg some (if_neg fun he => hk he.1)
    · rw [if_neg Bool.false_ne_true,Table.get_mapValues,ht,Option.map_some,if_pos ⟨rfl,hs⟩] at ht'
      exact (Option.some.inj ht').symm

lemma InOrder.complete (h : w.InOrder cr bodyLength) {directorySynced : Bool}
    (hv : w.complete directorySynced = some v) : v.InOrder cr bodyLength := by
  unfold AssetWorld.complete at hv
  split at hv
  · next digest byteSize hcol =>
    have hif : (w.objects.get digest).map AssetObject.byteSize = some byteSize := by
      by_contra hn
      rw [if_neg hn] at hv
      contradiction
    rw [if_pos hif] at hv
    obtain rfl := Option.some.inj hv
    have hc := h.catalogued
    obtain ⟨t,ht,hs⟩ := pending_iff.mp (h.collects _ hcol (by simp))
    obtain ⟨hsize,hkey⟩ := hc.deletion digest t ht
    obtain ⟨hother,hat⟩ := completed_deletions ht hs directorySynced
    have hrow : (w.objects.erase digest).get digest = none := by
      rw [Table.get_erase,if_pos rfl]
    have hrows : ∀ k, k ≠ digest → (w.objects.erase digest).get k = w.objects.get k :=
      fun k hk => (Table.get_erase ..).trans (if_neg hk)
    refine ⟨hc.onlyAt ⟨hrows,hother,rfl,rfl,rfl,rfl⟩ (fun o ho => nomatch ho.symm.trans hrow)
      fun t' ht' => ?_,(fun c hc' => nomatch hc'),h.granted⟩
    obtain rfl := hat t' ht'
    exact ⟨hsize,hkey,rfl,hrow⟩
  · contradiction

lemma InOrder.evict (h : w.InOrder cr bodyLength) {context : String}
    (hv : w.evict context digest = some v) : v.InOrder cr bodyLength := by
  unfold AssetWorld.evict at hv
  split at hv
  · next granted hj hcol =>
    split_ifs at hv with hmem
    obtain rfl := Option.some.inj hv
    have hc := h.catalogued
    obtain ⟨row,hrow,hs⟩ := h.granted granted hj _ hmem
    refine ⟨hc.of_holders rfl rfl (fun k b hb => ?_) hc.custody hc.source fun k o ho hh => .inl ?_,
      h.collects,h.granted⟩
    · dsimp only at hb
      rw [Table.get_erase] at hb
      split_ifs at hb
      exact hc.file k b hb
    · by_cases hk : k = digest
      · subst k
        exact .inr (.inl (inCustody_iff.mpr ⟨context,row,hrow,.inl hs⟩))
      · refine hh.mono (fun hf => ?_) (fun hc => hc.congr rfl rfl) fun _ s hs _ => ⟨s,hs⟩
        obtain ⟨b,hb⟩ := Table.contains_iff.mp hf
        exact Table.contains_iff.mpr ⟨b,by rw [Table.get_erase,if_neg hk,hb]⟩
  · contradiction

lemma Catalogued.of_rows (h : w.Catalogued cr bodyLength) (hd : v.deletions = w.deletions)
    (hf : v.files = w.files)
    (hcustody : ∀ key row, v.residency.objects.get key = some row →
      row.size = bodyLength key.2 ∧ v.residency.contexts.contains key.1 = true)
    (hsource : ∀ key s, v.sources.get key = some s → s.byteLength = bodyLength key.1)
    (hrows : ∀ k, v.objects.get k = w.objects.get k ∨ v.objects.get k = none ∧ ¬ w.Pending k)
    (hheld : ∀ k o, v.objects.get k = some o → w.Held k → v.Held k) :
    v.Catalogued cr bodyLength := by
  have hold : ∀ k o, v.objects.get k = some o → w.objects.get k = some o := by
    intro k o ho
    rcases hrows k with hk | ⟨hk,-⟩
    · exact hk.symm.trans ho
    · exact nomatch ho.symm.trans hk
  refine ⟨fun k o ho => h.object k o (hold k o ho),by rw [hd]; exact h.deletion,
    by rw [hf]; exact h.file,hcustody,hsource,fun k t ht hs => ?_,fun k t ht hs => ?_,
    fun k o ho => ?_,by rw [hd]; exact h.few⟩
  · rw [hd] at ht
    obtain ⟨o,ho⟩ := h.pending k t ht hs
    rcases hrows k with hk | ⟨-,hk⟩
    · exact ⟨o,hk.trans ho⟩
    · exact absurd (pending_iff.mpr ⟨t,ht,hs⟩) hk
  · rw [hd] at ht
    have hnone := h.unlinked k t ht hs
    rcases hrows k with hk | ⟨hk,-⟩
    · exact hk.trans hnone
    · exact hk
  · rcases h.held k o (hold k o ho) with hh | hp
    · exact .inl (hheld k o ho hh)
    · rw [pending_iff] at hp
      exact .inr (pending_iff.mpr (by rwa [hd]))

lemma Held.of_releasing {r : Residency} (h : w.Held digest) (hr : Releasing w.residency r)
    (hf : v.files = w.files) (hres : v.residency = r) (hs : v.sources = w.sources)
    (hb : v.begun = []) : v.Held digest := by
  refine h.mono (by rw [hf]; exact id) (fun hin => ?_) (by rw [hs]; exact fun _ s hs _ => ⟨s,hs⟩)
  obtain ⟨context,row,hrow,hk⟩ := inCustody_iff.mp hin
  have hany : ∀ o ∈ v.begun, ¬ (o.context = context ∧ o.hash = digest ∧
      o.retentionId = row.retentionId) := by
    rw [hb]
    exact fun o ho => nomatch ho
  rcases hr.2 (context,digest) with hsame | ⟨old,hold,hnew⟩
  · refine inCustody_iff.mpr ⟨context,row,by rw [hres,hsame,hrow],?_⟩
    rcases hk with hk | ⟨hk,-⟩
    · exact .inl hk
    · exact .inr ⟨hk,hany⟩
  · obtain rfl := Option.some.inj (hrow.symm.trans hold)
    exact inCustody_iff.mpr ⟨context,{ row with state := .releasing },by rw [hres,hnew],
      .inr ⟨rfl,hany⟩⟩

lemma progressed_start (w : AssetWorld) : w.Progressed [] (w.residency,w.objects,[]) :=
  ⟨⟨rfl,fun _ => .inl rfl⟩,fun _ _ => rfl,fun _ => .inl rfl,fun _ ho => nomatch ho⟩

lemma InOrder.stopReleases (h : w.InOrder cr bodyLength) {context : String}
    {digests : List String} (hv : w.stopReleases context digests = some v) :
    v.InOrder cr bodyLength := by
  unfold AssetWorld.stopReleases at hv
  split at hv
  · next hj hcol =>
    obtain rfl := Option.some.inj hv
    obtain ⟨hr,-⟩ := beginReleases_spec w.progressed_start (Prod.eta _).symm
    have hc := h.catalogued
    refine ⟨hc.of_holders rfl rfl hc.file (Releasing.custody hc hr) hc.source
      (fun k o ho hh => .inl ?_),h.collects,fun granted hg => nomatch hg⟩
    exact hh.of_releasing hr rfl rfl rfl rfl
  · contradiction

lemma InOrder.beginReleases (h : w.InOrder cr bodyLength) {context : String}
    {digests : List String} (hg : w.Careful bodyLength (.beginReleases context digests))
    (hv : w.beginReleasesStep context digests = some v) : v.InOrder cr bodyLength := by
  unfold beginReleasesStep at hv
  split at hv
  · next hj hcol =>
    have hc := h.catalogued
    cases hb : w.beginReleases context (w.residency,w.objects,[]) digests with
    | mk residency answer =>
      obtain ⟨hr,hq⟩ := beginReleases_spec w.progressed_start hb
      rw [hb] at hv
      cases answer with
      | error e =>
        obtain rfl := Option.some.inj hv
        refine ⟨hc.of_holders rfl rfl hc.file (Releasing.custody hc hr) hc.source
          (fun k o ho hh => .inl ?_),h.collects,fun granted hg => nomatch hg⟩
        exact hh.of_releasing hr rfl rfl rfl rfl
      | ok q =>
        obtain ⟨rfl,hp⟩ := hq q rfl
        obtain rfl := Option.some.inj hv
        rw [List.nil_append] at hp
        refine ⟨hc.of_rows rfl rfl (Releasing.custody hc hr) hc.source (fun k => ?_)
          (fun k o ho hh => ?_),h.collects,fun granted hg => nomatch hg⟩
        · exact (hp.kept k).imp id fun ⟨h1,h2,h3⟩ => And.intro h1 (hg k h2 h3)
        · cases hstat : w.statObject k with
          | some n =>
            obtain ⟨bytes,hb,-⟩ := Option.map_eq_some_iff.mp hstat
            exact .inl (Table.contains_iff.mpr ⟨bytes,hb⟩)
          | none =>
            -- an object that keeps its row without a body here is not among those released
            have hnone : ∀ o ∈ q.2.2, o.hash ≠ k := by
              rintro o' ho' rfl
              exact nomatch ho.symm.trans (hp.dropped o' ho' hstat)
            refine hh.mono id (fun hin => ?_) fun _ s hs _ => ⟨s,hs⟩
            obtain ⟨c,row,hrow,hk⟩ := inCustody_iff.mp hin
            refine inCustody_iff.mpr ⟨c,row,(hp.untouched (c,k) hnone).trans hrow,?_⟩
            exact hk.imp id fun hs => And.intro hs.1 fun o' ho' he => hnone o' ho' he.2.1
  · contradiction

lemma finishRelease_get (r : Residency) (object : RemoteObject) (key : String × String) :
    (r.finishRelease object).objects.get key = r.objects.get key ∨
      ∃ row, r.objects.get key = some row ∧ row.state = .releasing ∧
        (object.context = key.1 ∧ object.hash = key.2 ∧ object.retentionId = row.retentionId) ∧
        (r.finishRelease object).objects.get key = some { row with state := .released } := by
  unfold Residency.finishRelease
  cases hr : r.objects.get (object.context,object.hash) with
  | none => exact .inl rfl
  | some row =>
    dsimp only
    by_cases hif : row.retentionId = object.retentionId ∧ row.state = .releasing
    · rw [if_pos hif]
      by_cases hk : key = (object.context,object.hash)
      · subst key
        exact .inr ⟨row,hr,hif.2,⟨rfl,rfl,hif.1.symm⟩,by rw [Table.get_upsert,if_pos rfl]⟩
      · exact .inl (by rw [Table.get_upsert,if_neg hk])
    · rw [if_neg hif]
      exact .inl rfl

lemma contexts_finishRelease (r : Residency) (object : RemoteObject) :
    (r.finishRelease object).contexts = r.contexts := by
  unfold Residency.finishRelease
  split
  · rfl
  · split_ifs <;> rfl

lemma InOrder.finishRelease (h : w.InOrder cr bodyLength) {object : RemoteObject}
    (hv : w.finishRelease object = some v) : v.InOrder cr bodyLength := by
  unfold AssetWorld.finishRelease at hv
  split at hv
  · next begun hj =>
    split_ifs at hv with hmem
    obtain rfl := Option.some.inj hv
    have hc := h.catalogued
    refine ⟨hc.of_holders rfl rfl hc.file (fun key row hrow => ?_) hc.source
      (fun k o ho hh => .inl ?_),h.collects,fun granted hg => nomatch hg⟩
    · rw [contexts_finishRelease]
      rcases finishRelease_get w.residency object key with hsame | ⟨old,hold,-,-,hnew⟩
      · exact hc.custody key row (hsame.symm.trans hrow)
      · obtain rfl := Option.some.inj (hrow.symm.trans hnew)
        exact hc.custody key old hold
    · refine hh.mono id (fun hin => ?_) fun _ s hs _ => ⟨s,hs⟩
      obtain ⟨c,row,hrow,hk⟩ := inCustody_iff.mp hin
      have hb : w.begun = begun := by rw [AssetWorld.begun,hj]
      rcases finishRelease_get w.residency object (c,k) with hsame | ⟨old,hold,hs,he,-⟩
      · refine inCustody_iff.mpr ⟨c,row,hsame.trans hrow,hk.imp id fun hkept => ?_⟩
        exact ⟨hkept.1,fun o' ho' => hkept.2 o' (by rw [hb]; exact List.mem_of_mem_erase ho')⟩
      · obtain rfl := Option.some.inj (hrow.symm.trans hold)
        rcases hk with hk | ⟨-,hn⟩
        · rw [hs] at hk
          exact nomatch hk
        · exact absurd he (hn object (by rwa [hb]))
  · contradiction

/-! ### Forgetting a connection -/

lemma mem_orphans {connectionId : String} : digest ∈ w.orphans connectionId ↔
    (∃ r ∈ w.sources.rows, r.1.1 = digest) ∧
      ∀ r ∈ w.sources.rows, r.1.1 = digest → r.2.connectionId = connectionId := by
  unfold orphans
  rw [List.mem_dedup,List.mem_filter,List.mem_map]
  simp only [List.mem_filter,decide_eq_true_eq,Bool.not_eq_true',List.any_eq_false,
    Bool.and_eq_true,not_and,not_not]
  constructor
  · rintro ⟨⟨r,⟨hr,-⟩,hd⟩,hall⟩
    exact ⟨⟨r,hr,hd⟩,hall⟩
  · rintro ⟨⟨r,hr,hd⟩,hall⟩
    exact ⟨⟨r,⟨hr,hall r hr hd⟩,hd⟩,hall⟩

lemma forgetRows_get {connectionId : String} (k : String) :
    (w.forgetRows connectionId).get k =
      if k ∈ w.orphans connectionId ∧ w.statObject k = none ∧ w.custodySize k = none then none
      else w.objects.get k := by
  unfold forgetRows forgotten
  rw [Table.get_deleteWhere]
  split_ifs with hk
  · obtain ⟨h1,h2,h3⟩ := hk
    cases w.objects.get k <;> simp [h1,h2,h3]
  · have hfalse : (decide (k ∈ w.orphans connectionId) &&
        ((w.statObject k).isNone && (w.custodySize k).isNone)) = false := by
      rw [Bool.eq_false_iff]
      intro ht
      simp only [Bool.and_eq_true,decide_eq_true_eq,Option.isNone_iff_eq_none] at ht
      exact hk ht
    rw [hfalse]
    cases w.objects.get k <;> rfl

lemma not_pending_of_forgotten {connectionId : String}
    (hg : w.Careful bodyLength (.forget connectionId)) (k : String) :
    (w.forgetRows connectionId).get k = w.objects.get k ∨
      (w.forgetRows connectionId).get k = none ∧ ¬ w.Pending k := by
  rw [forgetRows_get]
  split_ifs with hk
  · have hcare := hg k hk.1 hk.2.1
    rw [if_pos hk.2.2] at hcare
    exact .inr ⟨rfl,hcare⟩
  · exact .inl rfl

lemma InOrder.stopForgetting (h : w.InOrder cr bodyLength) {connectionId : String}
    (hg : w.Careful bodyLength (.forget connectionId)) :
    InOrder cr bodyLength { w with objects := w.forgetRows connectionId } := by
  have hc := h.catalogued
  refine ⟨hc.of_rows rfl rfl hc.custody hc.source (not_pending_of_forgotten hg) fun k o _ hh => ?_,
    h.collects,h.granted⟩
  exact hh.mono id (fun hc => hc.congr rfl rfl) fun _ s hs _ => ⟨s,hs⟩

lemma InOrder.forget (h : w.InOrder cr bodyLength) {connectionId : String}
    (hg : w.Careful bodyLength (.forget connectionId)) :
    InOrder cr bodyLength { w with
      objects := w.forgetRows connectionId
      sources := w.sources.deleteWhere fun _ source => source.connectionId = connectionId } := by
  have hc := h.catalogued
  refine ⟨hc.of_rows rfl rfl hc.custody (fun key s hs => ?_) (not_pending_of_forgotten hg)
    (fun k o ho hh => ?_),h.collects,h.granted⟩
  · exact hc.source key s (Table.get_deleteWhere_eq_some.mp hs).1
  · rcases hh with hf | hin | hs
    · exact .inl hf
    · exact .inr (.inl (hin.congr rfl rfl))
    · by_cases horphan : k ∈ w.orphans connectionId
      · cases hstat : w.statObject k with
        | some n =>
          obtain ⟨bytes,hb,-⟩ := Option.map_eq_some_iff.mp hstat
          exact .inl (Table.contains_iff.mpr ⟨bytes,hb⟩)
        | none =>
          have hcare := hg k horphan hstat
          by_cases hn : w.custodySize k = none
          · -- such a row is gone
            change (w.forgetRows connectionId).get k = some o at ho
            rw [forgetRows_get,if_pos ⟨horphan,hstat,hn⟩] at ho
            exact nomatch ho
          · rw [if_neg hn] at hcare
            exact .inr (.inl (hcare.congr rfl rfl))
      · have hother : ∃ r ∈ w.sources.rows, r.1.1 = k ∧ r.2.connectionId ≠ connectionId := by
          by_contra hall
          refine horphan (mem_orphans.mpr ⟨hs,fun r hr hd => ?_⟩)
          by_contra hne
          exact hall ⟨r,hr,hd,hne⟩
        obtain ⟨r,hr,hd,hne⟩ := hother
        refine .inr (.inr (sourced_iff.mpr ⟨r.1,r.2,?_,hd⟩))
        exact Table.get_deleteWhere_eq_some.mpr ⟨Table.get_eq_some.mpr hr,by simpa using hne⟩

/-! ### Runs -/

lemma InOrder.opening (h : w.InOrder cr bodyLength)
    (hv : w.step cr bodyLength .opening = some v) : v.InOrder cr bodyLength := by
  obtain ⟨t,ht,hcat,-,hcol,hjob⟩ := h.catalogued.recovered
  simp only [step,ht] at hv
  obtain rfl := Option.some.inj hv
  refine ⟨hcat,fun c hc => ?_,fun granted hg => ?_⟩
  · exact nomatch hc.symm.trans hcol
  · exact nomatch hg.symm.trans hjob

lemma InOrder.stopOpening (h : w.InOrder cr bodyLength) {done : ℕ}
    (hv : w.step cr bodyLength (.stopOpening done) = some v) : v.InOrder cr bodyLength := by
  have hd : ((w.deletionPage.take done).map Prod.fst).Nodup := by
    rw [List.map_take]
    exact (nodup_deletionPage w).sublist (List.take_sublist _ _)
  obtain ⟨t,ht,hcat,-,-,hcol,hjob,-⟩ := recoverDeletions_ok (h.catalogued.of_calls none .idle (.inr rfl))
    hd fun t ht => mem_deletionPage (List.mem_of_mem_take ht)
  have hrun : w.closed.recoverDeletions (w.deletionPage.take done) = .ok t := ht
  simp only [step,hrun] at hv
  obtain rfl := Option.some.inj hv
  refine ⟨hcat,fun c hc => ?_,fun granted hg => ?_⟩
  · exact nomatch hc.symm.trans hcol
  · exact nomatch hg.symm.trans hjob

lemma InOrder.step {e : AssetEvent} (h : w.InOrder cr bodyLength) (hg : w.Careful bodyLength e)
    (hv : w.step cr bodyLength e = some v) : v.InOrder cr bodyLength := by
  cases e with
  | publish digest bytes => exact h.publish hv
  | register objects createdAtMs => exact h.register hg hv
  | confirm config head objects => exact h.confirm hv
  | addSource key source => exact h.addSource hv
  | commit =>
    simp only [AssetWorld.step] at hv
    split_ifs at hv
    obtain rfl := Option.some.inj hv
    exact h.committed
  | mark digest nowMs => exact h.mark hg hv
  | unlink => exact h.unlink hv
  | complete directorySynced => exact h.complete hv
  | stopCollecting =>
    obtain rfl := Option.some.inj hv
    exact ⟨h.catalogued.of_calls none w.job (.inl rfl),(fun c hc => nomatch hc),h.granted⟩
  | offload =>
    simp only [AssetWorld.step] at hv
    split_ifs at hv
    obtain rfl := Option.some.inj hv
    refine ⟨h.catalogued.of_calls w.collecting _ (.inr rfl),h.collects,
      fun granted hg key hkey => ?_⟩
    obtain rfl := OffloadJob.evicting.inj hg
    exact nomatch hkey
  | evict context digest => exact h.evict hv
  | releaseUnused =>
    simp only [AssetWorld.step] at hv
    split at hv
    · obtain rfl := Option.some.inj hv
      exact ⟨h.catalogued.of_calls w.collecting _ (.inr rfl),h.collects,fun granted hg => nomatch hg⟩
    · contradiction
  | beginReleases context digests => exact h.beginReleases hg hv
  | stopReleases context digests => exact h.stopReleases hv
  | finishRelease object => exact h.finishRelease hv
  | endJob =>
    obtain rfl := Option.some.inj hv
    exact ⟨h.catalogued.of_calls w.collecting _ (.inr rfl),h.collects,fun granted hg => nomatch hg⟩
  | forget connectionId =>
    simp only [AssetWorld.step] at hv
    split_ifs at hv
    obtain rfl := Option.some.inj hv
    exact h.forget hg
  | stopForgetting connectionId =>
    simp only [AssetWorld.step] at hv
    split_ifs at hv
    obtain rfl := Option.some.inj hv
    exact h.stopForgetting hg
  | opening => exact h.opening hv
  | stopOpening done => exact h.stopOpening hv

lemma inOrder_empty : empty.InOrder cr bodyLength := by
  refine ⟨⟨?_,?_,?_,?_,?_,?_,?_,?_,Nat.zero_le _⟩,?_,?_⟩
  case refine_9 => exact fun c hc => nomatch hc
  case refine_10 => exact fun granted hg => nomatch hg
  all_goals
    intro k row h
    cases h

lemma Catalogued.collectable (h : w.Catalogued cr bodyLength) (hcol : w.collecting = none)
    {o : AssetObject} (ho : w.objects.get digest = some o) (hd : w.deletions.get digest = none)
    (hf : w.files.contains digest = true) {nowMs : ℤ} (hn : 0 ≤ nowMs) :
    ∃ u, Runs.steps (step cr bodyLength) w [.mark digest nowMs,.unlink,.complete true] = some u ∧
      u.objects.get digest = none ∧ u.deletions.get digest = none := by
  obtain ⟨bytes,hb⟩ := Table.contains_iff.mp hf
  obtain ⟨hlength,hhash⟩ := h.file _ _ hb
  have hsize : bytes.length = o.byteSize := hlength.trans (h.object _ _ ho).symm
  have hstat : w.statObject digest = some o.byteSize := by
    rw [statObject,hb,Option.map_some,hsize]
  have hrow : (w.objects.get digest).map AssetObject.byteSize = some o.byteSize := by
    rw [ho,Option.map_some]
  let marked : AssetWorld := { w with
    deletions := w.deletions.upsert digest ⟨o.byteSize,objectPhysicalKey digest,.pending,nowMs⟩
    collecting := some ⟨digest,o.byteSize,.marked false⟩ }
  let unlinked : AssetWorld := { marked with
    files := w.files.erase digest
    collecting := some ⟨digest,o.byteSize,.unlinked⟩ }
  have hmark : w.step cr bodyLength (.mark digest nowMs) = some marked := by
    simp only [step,AssetWorld.mark,ho,hd]
    exact if_pos ⟨hcol,hn,hstat⟩
  have hunlink : marked.step cr bodyLength .unlink = some unlinked := by
    simp only [step,AssetWorld.unlink,marked,hb]
    exact if_pos ⟨hrow,hsize,hhash⟩
  let collected : AssetWorld := { unlinked with
    objects := w.objects.erase digest
    deletions := unlinked.deletions.erase digest
    collecting := none }
  have hcomplete : unlinked.step cr bodyLength (.complete true) = some collected := by
    simp only [step,AssetWorld.complete,unlinked,marked]
    exact if_pos hrow
  refine ⟨collected,?_,(Table.get_erase ..).trans (if_pos rfl),
    (Table.get_erase ..).trans (if_pos rfl)⟩
  simp only [Runs.steps,hmark,hunlink,hcomplete,Option.bind_some]

lemma Catalogued.registrable (h : w.Catalogued cr bodyLength)
    (hd : Wire.validateHash digest = .ok ()) (hsize : bodyLength digest ≤ Residency.i64Max)
    (createdAtMs : ℤ) (hn : 0 ≤ createdAtMs) :
    ∃ u, w.register [(digest,bodyLength digest)] createdAtMs = .ok u ∧
      (∃ o, u.objects.get digest = some o) ∧ u.deletions.get digest = none ∧
      u.files = w.files ∧ u.collecting = w.collecting := by
  have hplaced : ∃ placed, w.placeObject digest (bodyLength digest) createdAtMs = .ok placed ∧
      (placed.objects.get digest).map AssetObject.byteSize = some (bodyLength digest) := by
    unfold placeObject
    cases ht : w.deletions.get digest with
    | some t =>
      refine ⟨_,bind_eq_ok.mpr ⟨⟨⟩,require_eq_ok.mpr (h.deletion digest t ht),rfl⟩,?_⟩
      rw [Table.get_upsert,if_pos rfl,Option.map_some]
    | none =>
      refine ⟨_,rfl,?_⟩
      rw [Table.get_insertOrIgnore,if_pos rfl]
      cases ho : w.objects.get digest with
      | none => rfl
      | some o => exact congrArg some (h.object digest o ho)
  obtain ⟨placed,hplace,hexact⟩ := hplaced
  have hone : w.registerObject digest (bodyLength digest) createdAtMs = .ok placed := by
    unfold registerObject
    refine bind_eq_ok.mpr ⟨⟨⟩,by rw [hd]; rfl,bind_eq_ok.mpr ⟨⟨⟩,require_eq_ok.mpr hsize,?_⟩⟩
    exact bind_eq_ok.mpr ⟨placed,hplace,bind_eq_ok.mpr ⟨⟨⟩,require_eq_ok.mpr hexact,rfl⟩⟩
  obtain ⟨objects,deletions,rfl,⟨o,ho,-⟩,hgone,-⟩ := registerObject_eq_ok hone
  refine ⟨{ w with objects := objects, deletions := deletions },?_,⟨o,ho⟩,hgone,rfl,rfl⟩
  refine bind_eq_ok.mpr ⟨⟨⟩,require_eq_ok.mpr hn,bind_eq_ok.mpr ⟨⟨⟩,require_eq_ok.mpr ?_,?_⟩⟩
  · change 1 ≤ assetObjectCatalogMaxPage
    decide
  · exact foldlM_cons_eq_ok.mpr ⟨_,hone,rfl⟩

/-- What an opening makes of a repository in order. -/
structure Reopened (cr : Crates) (bodyLength : String → ℕ) (w : AssetWorld) : Prop where
  /-- Every row has a body of its size here or with a remote holder. -/
  backed : ∀ digest o, w.objects.get digest = some o →
    w.statObject digest = some o.byteSize ∨ w.gcSize digest = some o.byteSize
  noPending : ∀ digest t, w.deletions.get digest = some t → t.state ≠ .pending
  /-- An object that was kept can be collected. -/
  kept : ∀ digest o nowMs, w.objects.get digest = some o → w.files.contains digest = true →
    0 ≤ nowMs → ∃ u, Runs.steps (step cr bodyLength) w
      [.mark digest nowMs,.unlink,.complete true] = some u ∧
      u.objects.get digest = none ∧ u.deletions.get digest = none
  /-- Any body can be registered, and collected again. -/
  registered : ∀ digest bytes nowMs, Wire.validateHash digest = .ok () → hash cr bytes = digest →
    bytes.length = bodyLength digest → bytes.length ≤ Residency.i64Max → 0 ≤ nowMs →
    ∃ u, Runs.steps (step cr bodyLength) w [.publish digest bytes,
      .register [(digest,bytes.length)] nowMs,.mark digest nowMs,.unlink,.complete true] = some u ∧
      u.objects.get digest = none ∧ u.deletions.get digest = none

lemma reopened_of_inOrder (h : w.InOrder cr bodyLength) (hp : ∀ k, ¬ w.Pending k)
    (hcol : w.collecting = none) : w.Reopened cr bodyLength := by
  have hc := h.catalogued
  constructor
  case backed =>
    intro k o ho
    rw [hc.object k o ho]
    exact ((hc.held k o ho).resolve_right (hp k)).size hc
  case noPending =>
    intro k t ht hs
    exact hp k (pending_iff.mpr ⟨t,ht,hs⟩)
  case kept =>
    intro k o nowMs ho hf hn
    refine hc.collectable hcol ho ?_ hf hn
    -- a tombstone here would be pending, or have no row
    cases ht : w.deletions.get k with
    | none => rfl
    | some t =>
      cases hs : t.state with
      | pending => exact absurd (pending_iff.mpr ⟨t,ht,hs⟩) (hp k)
      | unlinked => exact nomatch ho.symm.trans (hc.unlinked k t ht hs)
  case registered =>
    intro k bytes nowMs hk hhash hlength hsize hn
    rw [hlength] at hsize ⊢
    let published : AssetWorld := { w with files := w.files.insertOrIgnore k bytes }
    have hpub : w.step cr bodyLength (.publish k bytes) = some published :=
      if_pos ⟨hhash,hlength⟩
    have hin : published.InOrder cr bodyLength := h.publish hpub
    have hlocal : published.files.contains k = true := by
      rw [Table.contains_iff]
      exact ⟨_,(Table.get_insertOrIgnore ..).trans (if_pos rfl)⟩
    obtain ⟨u,hu,⟨o,ho⟩,hgone,hfiles,hsame⟩ :=
      hin.catalogued.registrable hk hsize nowMs hn
    have hreg : published.step cr bodyLength (.register [(k,bodyLength k)] nowMs) =
        some u.committed := by
      have hw : published.writing = false := by
        unfold writing
        rw [show published.collecting = none from hcol]
      simp only [step,hw,hu]
      exact if_neg Bool.false_ne_true
    have hcareful : published.Careful bodyLength (.register [(k,bodyLength k)] nowMs) := by
      intro o ho
      obtain rfl := List.mem_singleton.mp ho
      exact ⟨.inl hlocal,rfl⟩
    have hnext := (hin.step hcareful hreg).catalogued
    have hidle : u.committed.collecting = none := by
      rw [committed,hsame,show published.collecting = none from hcol]
      rfl
    have hbody : u.committed.files.contains k = true := by
      change u.files.contains k = true
      rw [hfiles]
      exact hlocal
    obtain ⟨z,hz,hout⟩ := hnext.collectable hidle ho hgone hbody hn
    refine ⟨z,?_,hout⟩
    simp only [Runs.steps,hpub,hreg,Option.bind_some]
    exact hz

/-- In every run whose events are all careful, every pending tombstone has its exact row, and an
opening succeeds and leaves a repository that works. -/
theorem tombstones_never_lock_out
    (h : Runs.Run (step cr bodyLength) (Careful bodyLength) empty w) :
    (∀ digest t, w.deletions.get digest = some t → t.state = .pending →
      (w.objects.get digest).map AssetObject.byteSize = some t.byteSize) ∧
    ∃ v, w.recover = .ok v ∧ v.Reopened cr bodyLength := by
  have hw : w.InOrder cr bodyLength :=
    Runs.Run.keeps (fun _ _ _ hi hg hv => hi.step hg hv) h inOrder_empty
  constructor
  · intro digest t ht hs
    obtain ⟨o,ho⟩ := hw.catalogued.pending digest t ht hs
    rw [ho,Option.map_some,hw.catalogued.object _ _ ho,(hw.catalogued.deletion _ _ ht).1]
  · obtain ⟨v,hv,-,hp,hcol,-⟩ := hw.catalogued.recovered
    have hopen : w.step cr bodyLength .opening = some v := by
      simp only [step,hv]
      rfl
    exact ⟨v,hv,reopened_of_inOrder (hw.opening hopen) hp hcol⟩

/-! ### A deletion that stays pending without its row -/

open CustodyWorld (sampleId sampleConfig sampleHead)

def sampleHashes : Crates := tabulated [([1],sampleId 'e')] [] []

/-- The body is unlinked, and the catalog commit fails. -/
def sampleStopped : List AssetEvent :=
  [.publish (sampleId 'e') [1],
    .confirm sampleConfig sampleHead [⟨sampleId 'e',1,sampleId 'a'⟩],
    .register [(sampleId 'e',1)] 0,.mark (sampleId 'e') 0,.unlink,.stopCollecting]

/-- A release of the custody takes the row along, and no opening succeeds any more. -/
theorem a_release_locks_out :
    ∃ w, Runs.Run (step sampleHashes fun _ => 1) (fun _ _ => True) empty w ∧
      w.recover.toOption.isNone = true := by
  have hr : (Runs.steps (step sampleHashes fun _ => 1) empty (sampleStopped ++
      [.offload,.releaseUnused,.beginReleases "" [sampleId 'e']])).map
      (fun w => w.recover.toOption.isNone) = some true := by
    decide +kernel
  obtain ⟨w,hw,he⟩ := Option.map_eq_some_iff.mp hr
  exact ⟨w,.of_steps hw (Runs.meetAll_true _ _),he⟩

theorem tombstones_never_lock_out_sample :
    ∃ w : AssetWorld, (w.deletions.get (sampleId 'e')).map AssetDeletion.state = some .pending ∧
      w.files.contains (sampleId 'e') = false ∧
      ∃ v, w.recover = .ok v ∧ v.Reopened sampleHashes fun _ => 1 := by
  have hr : (Runs.steps (step sampleHashes fun _ => 1) empty sampleStopped).map
      (fun w => ((w.deletions.get (sampleId 'e')).map AssetDeletion.state,
        w.files.contains (sampleId 'e'))) = some (some .pending,false) := by
    decide +kernel
  have hm : Runs.MeetAll (step sampleHashes fun _ => 1) (Careful fun _ => 1) empty
      sampleStopped := by
    decide +kernel
  obtain ⟨w,hw,he⟩ := Option.map_eq_some_iff.mp hr
  obtain ⟨hpending,hgone⟩ := Prod.mk.inj he
  exact ⟨w,hpending,hgone,(tombstones_never_lock_out (.of_steps hw hm)).2⟩

end AssetWorld
end RisuNest.Client
