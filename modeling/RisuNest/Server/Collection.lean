import RisuNest.Server.Index
import RisuNest.Server.Retired

/-! The collection of objects keeps whatever the rows a pass retains lead to: the index covers
every descriptor and page, the roots cover every row, and the closure follows every edge. -/
namespace RisuNest.Server
open Wire

namespace Store
variable {cr : Crates} {s t : Store}

theorem mem_heldVersions {c : UnitChange} : c ∈ s.heldVersions ↔
    (∃ k, s.units.get k = some c) ∨
    (∃ id pin k, s.statePins.get id = some pin ∧ pin.units.get k = some c) ∨
    ∃ k row, s.journal.get k = some row ∧ row.item.change = c := by
  simp only [heldVersions, List.mem_append, List.mem_map, List.mem_flatMap, Prod.exists,
    exists_eq_right, ← Table.get_eq_some]
  rw [or_assoc]
  constructor
  · rintro (h | ⟨id, pin, hp, k, hk⟩ | h)
    · exact .inl h
    · exact .inr (.inl ⟨id,pin,k,hp,hk⟩)
    · exact .inr (.inr h)
  · rintro (h | ⟨id, pin, k, hp, hk⟩ | h)
    · exact .inl h
    · exact .inr (.inl ⟨id,pin,hp,k,hk⟩)
    · exact .inr (.inr h)

lemma prepareChanges_grows (s : Store) (p : PendingIndex) (cs : List UnitChange) :
    Grows s (s.prepareChanges cr p cs).2 := by
  induction cs generalizing s p with
  | nil => exact flush_grows s p
  | cons c cs ih =>
    unfold prepareChanges
    cases c.value with
    | object h d =>
      dsimp only
      cases (s.prepareDescriptor cr p h).mapError fun e => e.forKey c.key with
      | error e => exact .refl s
      | ok prepared =>
        dsimp only
        split_ifs
        · exact .refl s
        · exact (flush_grows s _).trans (ih _ _)
        · exact ih _ _
    | inline bytes => exact ih s p
    | deleted => exact ih s p

end Store

lemma Indexed.congr {cr : Crates} {s t : Store} (h : Indexed cr s)
    (ho : ∀ h b, s.objects.get h = some b → t.objects.get h = some b)
    (hd : t.descriptors = s.descriptors) (hn : t.referenceNodes = s.referenceNodes)
    (hc : t.referenceChildren = s.referenceChildren)
    (hl : t.referenceObjects = s.referenceObjects) : Indexed cr t := by
  refine ⟨?_,?_,?_⟩
  · rw [hd]
    exact h.object
  · rw [hd, hn]
    exact h.trees
  · intro x hx
    rw [hn] at hx
    obtain ⟨bytes, page, hb, hp, hi⟩ := h.node x hx
    refine ⟨bytes,page,ho x bytes hb,hp,?_⟩
    cases page with
    | branches children =>
      rw [PageIndexed, hc, hn]
      exact hi
    | objects hashes =>
      rw [PageIndexed, hl]
      exact hi
    | relations keys => trivial

/-- The index covers the objects, every version that is held has its descriptor row, and so has
every change of a push that is prepared. -/
structure Collectable (cr : Crates) (s : System) : Prop where
  indexed : Indexed cr s.store
  held : ∀ c ∈ s.store.heldVersions, Described s.store c
  pending : ∀ p, s.pending = some p → p.preparation = .ok () →
    ∀ c ∈ p.request.changes, Described s.store c

lemma Described.congr {s t : Store} (h : t.descriptors = s.descriptors) {c : UnitChange}
    (hc : Described s c) : Described t c := by
  unfold Described at hc ⊢
  rw [h]
  exact hc

lemma Collectable.genesis (cr : Crates) (libraryId epoch : String) :
    Collectable cr ⟨Store.genesis cr libraryId epoch,none⟩ := by
  refine ⟨⟨?_,?_,?_⟩,?_,?_⟩
  · exact fun _ _ h => by cases h
  · exact fun _ _ h => by cases h
  · exact fun _ h => by cases h
  · exact fun _ h => by cases h
  · exact fun _ h => by cases h

namespace Store
variable {cr : Crates} {s t : Store} {p : Pending} {created : ℤ} {level : ℕ}
  {won : List UnitChange} {receipt : PushReceipt}

lemma Accepted.held (a : Accepted cr s p created level won receipt t) {c : UnitChange}
    (h : c ∈ t.heldVersions) : c ∈ s.heldVersions ∨ c ∈ p.request.changes := by
  rcases mem_heldVersions.mp h with ⟨k, hk⟩ | ⟨id, pin, k, hp, hk⟩ | ⟨k, row, hk, hc⟩
  · rcases a.unit_cases k with ⟨d, hd, -, hu⟩ | ⟨-, ⟨-, hu, -⟩ | ⟨-, hu, -⟩⟩
    · rw [hu] at hk
      cases hk
      exact .inr (a.mem_changes hd)
    · rw [hu] at hk
      cases hk
    · rw [hu] at hk
      exact .inl (mem_heldVersions.mpr (.inl ⟨k,hk⟩))
  · rw [a.frame] at hp
    exact .inl (mem_heldVersions.mpr (.inr (.inl ⟨id,pin,k,hp,hk⟩)))
  · rcases a.unit_cases k with ⟨d, hd, rfl, -⟩ | ⟨-, ⟨-, -, hj⟩ | ⟨-, -, hj⟩⟩
    · obtain ⟨q, -, -, hj⟩ := a.applied.item d hd
      rw [hj] at hk
      cases hk
      subst hc
      exact .inr (a.mem_changes hd)
    · rw [hj] at hk
      cases hk
    · rw [hj] at hk
      exact .inl (mem_heldVersions.mpr (.inr (.inr ⟨k,row,hk,hc⟩)))

lemma pruned_held {current : ℤ} {c : UnitChange} (h : c ∈ (s.pruned current).heldVersions) :
    c ∈ s.heldVersions := by
  rcases mem_heldVersions.mp h with hk | ⟨id, pin, k, hp, hk⟩ | ⟨k, row, hk, hc⟩
  · exact mem_heldVersions.mpr (.inl hk)
  · exact mem_heldVersions.mpr
      (.inr (.inl ⟨id,pin,k,(Table.get_deleteWhere_eq_some.mp hp).1,hk⟩))
  · exact mem_heldVersions.mpr
      (.inr (.inr ⟨k,row,(Table.get_deleteWhere_eq_some.mp hk).1,hc⟩))

/-! ### A pass over the objects -/

lemma mem_rootAliasBodies {cs : List UnitChange} {aliases : List String}
    (h : rootAliasBodies cr cs = .ok aliases) {c : UnitChange} (hc : c ∈ cs) {x : String}
    {roots : List String} (hr : aliasRoots cr c = .ok roots) (hx : x ∈ roots) : x ∈ aliases := by
  induction cs generalizing aliases with
  | nil => cases hc
  | cons d cs ih =>
    obtain ⟨first, hf, h⟩ := bind_eq_ok.mp h
    obtain ⟨rest, hrest, h⟩ := bind_eq_ok.mp h
    cases h
    rcases List.mem_cons.mp hc with rfl | hc
    · rw [hr] at hf
      cases hf
      exact List.mem_append_left _ hx
    · exact List.mem_append_right _ (ih hrest hc)

lemma descriptorEdges_subset {h x : String} {row : DescriptorRow}
    (hr : s.descriptors.get h = some row)
    (hx : x ∈ row.object :: (row.body.dependencyRoot.toList ++ row.body.relationRoot.toList ++
      row.body.dependencies)) : (h,x) ∈ s.gcEdges := by
  apply List.mem_append_left
  apply List.mem_append_left
  refine List.mem_flatMap.mpr ⟨(h,row),Table.get_eq_some.mp hr,?_⟩
  exact List.mem_map.mpr ⟨x,hx,rfl⟩

lemma mem_edges_of_contains {table : Table (String × String) Unit} {e : String × String}
    (h : table.contains e = true) : e ∈ table.rows.map Prod.fst := by
  obtain ⟨u, hu⟩ := Table.contains_iff.mp h
  exact List.mem_map.mpr ⟨(e,u),Table.get_eq_some.mp hu,rfl⟩

lemma children_subset {e : String × String} (h : s.referenceChildren.contains e = true) :
    e ∈ s.gcEdges :=
  List.mem_append_left _ (List.mem_append_right _ (mem_edges_of_contains h))

lemma leaves_subset {e : String × String} (h : s.referenceObjects.contains e = true) :
    e ∈ s.gcEdges := List.mem_append_right _ (mem_edges_of_contains h)

lemma get_deleteWhere_alive {κ ν : Type} [DecidableEq κ] (table : Table κ ν) (f : κ → String)
    {alive : List String} {k : κ} (h : f k ∈ alive) :
    (table.deleteWhere fun k _ => f k ∉ alive).get k = table.get k := by
  rw [Table.get_deleteWhere]
  cases table.get k with
  | none => rfl
  | some v => simp [h]

/-- The rows of the object tables under one hash are the same in two stores. -/
structure SameRows (s t : Store) (digest : String) : Prop where
  objects : t.objects.get digest = s.objects.get digest
  descriptors : t.descriptors.get digest = s.descriptors.get digest
  nodes : t.referenceNodes.get digest = s.referenceNodes.get digest
  children : ∀ x, t.referenceChildren.get (digest,x) = s.referenceChildren.get (digest,x)
  leaves : ∀ x, t.referenceObjects.get (digest,x) = s.referenceObjects.get (digest,x)
  relations : ∀ x, t.referenceRelations.get (digest,x) = s.referenceRelations.get (digest,x)

lemma SameRows.refl (s : Store) (digest : String) : SameRows s s digest :=
  ⟨rfl,rfl,rfl,fun _ => rfl,fun _ => rfl,fun _ => rfl⟩

theorem sweep_sameRows (s : Store) {alive : List String} {digest : String}
    (h : digest ∈ alive) : SameRows s (s.sweep alive) digest where
  objects := get_deleteWhere_alive s.objects (fun k => k) h
  descriptors := get_deleteWhere_alive s.descriptors (fun k => k) h
  nodes := get_deleteWhere_alive s.referenceNodes (fun k => k) h
  children x := get_deleteWhere_alive s.referenceChildren Prod.fst (k := (digest,x)) h
  leaves x := get_deleteWhere_alive s.referenceObjects Prod.fst (k := (digest,x)) h
  relations x := get_deleteWhere_alive s.referenceRelations Prod.fst (k := (digest,x)) h

lemma sweep_indexed {alive : List String} (hi : Indexed cr s)
    (hclosed : ∀ a b, (a,b) ∈ s.gcEdges → a ∈ alive → b ∈ alive) : Indexed cr (s.sweep alive) := by
  have kept : ∀ h, h ∈ alive → SameRows s (s.sweep alive) h := fun h => sweep_sameRows s
  have node : ∀ h, h ∈ alive → s.referenceNodes.contains h = true →
      (s.sweep alive).referenceNodes.contains h = true := by
    intro h ha hn
    rw [Table.contains, (kept h ha).nodes]
    exact hn
  refine ⟨?_,?_,?_⟩
  · exact fun h row hr => hi.object h row (Table.get_deleteWhere_eq_some.mp hr).1
  · intro h row hr root hroot
    obtain ⟨hr, ha⟩ := Table.get_deleteWhere_eq_some.mp hr
    have ha : h ∈ alive := by simpa using ha
    apply node root
    · apply hclosed h root (descriptorEdges_subset hr ?_) ha
      exact List.mem_cons_of_mem _ (List.mem_append_left _ hroot)
    · exact hi.trees h row hr root hroot
  · intro h hh
    obtain ⟨row, hr⟩ := Table.contains_iff.mp hh
    obtain ⟨hr, ha⟩ := Table.get_deleteWhere_eq_some.mp hr
    have ha : h ∈ alive := by simpa using ha
    obtain ⟨bytes, page, hb, hp, hpage⟩ := hi.node h (Table.contains_iff.mpr ⟨row,hr⟩)
    refine ⟨bytes,page,by rw [(kept h ha).objects, hb],hp,?_⟩
    cases page with
    | branches children =>
      intro c hc
      obtain ⟨h1, h2⟩ := hpage c hc
      refine ⟨?_,node c (hclosed h c (children_subset h1) ha) h2⟩
      rw [Table.contains, (kept h ha).children]
      exact h1
    | objects hashes =>
      intro x hx
      rw [Table.contains, (kept h ha).leaves]
      exact hpage x hx
    | relations keys => trivial

lemma gcRoots_eq_ok {clock : ℤ} {roots : List String} (h : s.gcRoots cr clock = .ok roots) :
    ∃ aliases, rootAliasBodies cr s.heldVersions = .ok aliases ∧
      roots = s.objectLeases.rows.map (fun r => r.1.2) ++
        s.objectCustody.rows.map (fun r => r.1.2) ++
        ((s.uploads.rows.filter fun r => clock < r.2.expires).map fun r => r.2.hash) ++
        s.uploadDeltaBases.rows.map (fun r => r.1.2) ++
        s.downloadDeltaBases.rows.map (fun r => r.1.2) ++
        aliases ++ s.heldVersions.flatMap valueRoots := by
  obtain ⟨aliases, ha, h⟩ := bind_eq_ok.mp h
  cases h
  exact ⟨aliases,ha,rfl⟩

lemma valueRoots_subset {clock : ℤ} {roots : List String} (h : s.gcRoots cr clock = .ok roots)
    {c : UnitChange} (hc : c ∈ s.heldVersions) : valueRoots c ⊆ roots := by
  obtain ⟨aliases, -, rfl⟩ := gcRoots_eq_ok h
  intro x hx
  exact List.mem_append_right _ (List.mem_flatMap.mpr ⟨c,hc,hx⟩)

lemma sweep_collectable {current clock : ℤ} {roots : List String} (hi : Indexed cr s)
    (hd : ∀ c ∈ s.heldVersions, Described s c)
    (hr : (s.pruned current).gcRoots cr clock = .ok roots) :
    Indexed cr ((s.pruned current).sweep (Closure.closure (s.pruned current).gcEdges roots)) ∧
      ∀ c ∈ ((s.pruned current).sweep
          (Closure.closure (s.pruned current).gcEdges roots)).heldVersions,
        Described ((s.pruned current).sweep
          (Closure.closure (s.pruned current).gcEdges roots)) c := by
  have hp : Indexed cr (s.pruned current) := hi.congr (fun _ _ h => h) rfl rfl rfl rfl
  refine ⟨sweep_indexed hp fun a b => Closure.closure_closed,?_⟩
  intro c hc h d hv
  change c ∈ (s.pruned current).heldVersions at hc
  obtain ⟨row, hrow, hbody⟩ := hd c (pruned_held hc) h d hv
  refine ⟨row,?_,hbody⟩
  have alive : h ∈ Closure.closure (s.pruned current).gcEdges roots := by
    apply Closure.root_mem_closure
    exact valueRoots_subset hr hc (by simp [valueRoots, hv])
  rw [(sweep_sameRows _ alive).descriptors]
  exact hrow

end Store

lemma Moved.collectable {cr : Crates} {texts : Set (List UInt8)} {o : Option Op} {s t : System}
    (h : Collectable cr s) (hm : Moved cr texts o s t) : Collectable cr t := by
  cases hm with
  | quiet hq hp =>
    have hd : ∀ c, Described s.store c → Described t.store c :=
      fun c => Described.congr hq.descriptors
    refine ⟨h.indexed.congr hq.objects hq.descriptors hq.referenceNodes hq.referenceChildren
      hq.referenceObjects,?_,?_⟩
    · intro c hc
      apply hd c
      rcases Store.mem_heldVersions.mp hc with ⟨k, hk⟩ | ⟨id, pin, k, hpin, hk⟩ | ⟨k, row, hk, he⟩
      · rw [hq.units] at hk
        exact h.held c (Store.mem_heldVersions.mpr (.inl ⟨k,hk⟩))
      · rcases hq.pins id pin hpin with hpin | ⟨-, hu⟩
        · exact h.held c (Store.mem_heldVersions.mpr (.inr (.inl ⟨id,pin,k,hpin,hk⟩)))
        · -- a new pin holds the present units
          rw [hu] at hk
          exact h.held c (Store.mem_heldVersions.mpr (.inl ⟨k,hk⟩))
      · rw [hq.journal] at hk
        exact h.held c (Store.mem_heldVersions.mpr (.inr (.inr ⟨k,row,hk,he⟩)))
    · intro p ht hok c hc
      rcases hp with hp | hp
      · exact hd c (h.pending p (hp ▸ ht) hok c hc)
      · rw [hp] at ht
        cases ht
  | @prepared p hs ht hw hx ha hr hf hprep =>
    have held : t.store.heldVersions = s.store.heldVersions := by
      rw [hf]
      rfl
    rcases hprep with ⟨he, e, hfail⟩ | hprep
    · refine ⟨he ▸ h.indexed,he ▸ h.held,?_⟩
      intro q hq hok
      rw [ht] at hq
      cases hq
      rw [hfail] at hok
      cases hok
    · have hprep' := Prod.mk.inj hprep
      have hgrow : Grows s.store t.store := hprep'.2 ▸ Store.prepareChanges_grows s.store .empty _
      obtain ⟨hi, hall⟩ := @prepareChanges_indexed _ _ _ p.request.changes
        (PendingIndex.Sound.empty h.indexed) h.indexed
      refine ⟨hprep'.2 ▸ hi,?_,?_⟩
      · intro c hc
        rw [held] at hc
        exact (h.held c hc).grows hgrow
      · intro q hq hok
        rw [ht] at hq
        cases hq
        rw [hprep'.1] at hok
        rw [hprep'.2]
        exact (hall hok).2
  | @accepted p created level won receipt hs ht ha hr hl hu hacc =>
    have hd : ∀ c, Described s.store c → Described t.store c :=
      fun c => Described.congr (by rw [hacc.frame])
    refine ⟨h.indexed.congr (fun _ _ ho => by rw [hacc.frame]; exact ho) (by rw [hacc.frame])
      (by rw [hacc.frame]) (by rw [hacc.frame]) (by rw [hacc.frame]),?_,?_⟩
    · intro c hc
      rcases hacc.held hc with hc | hc
      · exact hd c (h.held c hc)
      · exact hd c (h.pending p hs hacc.prepared c hc)
    · intro q hq
      rw [ht] at hq
      cases hq
  | pruned hs ht hr ht' =>
    obtain ⟨hi, hheld⟩ := Store.sweep_collectable h.indexed h.held hr
    refine ⟨ht' ▸ hi,ht' ▸ hheld,?_⟩
    intro q hq
    rw [ht] at hq
    cases hq
  | @rotated epoch hs ht hr =>
    have hd : ∀ c, Described s.store c → Described t.store c :=
      fun c => Described.congr (by rw [hr]; rfl)
    refine ⟨h.indexed.congr (fun _ _ ho => by rw [hr]; exact ho) (by rw [hr]; rfl)
      (by rw [hr]; rfl) (by rw [hr]; rfl) (by rw [hr]; rfl),?_,?_⟩
    · intro c hc
      apply hd c
      rw [hr] at hc
      rcases Store.mem_heldVersions.mp hc with hk | ⟨id, pin, k, hpin, -⟩ | ⟨k, row, hk, -⟩
      · exact h.held c (Store.mem_heldVersions.mpr (.inl hk))
      · cases hpin
      · cases hk
    · intro q hq
      rw [ht] at hq
      cases hq

theorem Reachable.collectable {cr : Crates} {texts : Set (List UInt8)} {s : System}
    (h : Reachable cr texts s) : Collectable cr s :=
  (Reachable.invariant (I := fun s => Collectable cr s)
    (fun libraryId epoch => .genesis cr libraryId epoch)
    (fun _ _ _ _ hi hm => hm.collectable hi) h).2

/-! ### What a pass must keep -/

/-- A version that the units hold, or the journal above a floor, or a read pin that has not run
out. -/
inductive Holds (s : Store) (current : ℤ) (floor : ℕ) (c : UnitChange) : Prop
  | unit {k : UnitKey} (h : s.units.get k = some c)
  | journal {k : UnitKey} {row : JournalRow} (h : s.journal.get k = some row)
      (hc : row.item.change = c) (hf : floor < row.item.seq)
  | pin {id : String} {pin : PinRow} {k : UnitKey} (h : s.statePins.get id = some pin)
      (hl : s.lapsed current pin.device pin.expires = false) (hk : pin.units.get k = some c)

/-- The hash of a lease, a custody row, an upload or a delta base that has not run out. -/
inductive Rooted (s : Store) (current clock : ℤ) (digest : String) : Prop
  | lease {device : String} {expires : ℤ}
      (h : s.objectLeases.get (device,digest) = some expires)
      (hl : s.lapsed current device expires = false)
  | custody {device owner : String} (h : s.objectCustody.get (device,digest) = some owner)
  | upload {id : String} {row : UploadRow} (h : s.uploads.get id = some row)
      (hh : row.hash = digest) (hd : s.uploadDropped current row = false)
      (he : clock < row.expires)
  | uploadBase {id : String} (h : s.uploadDeltaBases.contains (id,digest) = true)
      (hl : ∀ row, s.uploads.get id = some row →
        row.state ≠ .complete ∧ s.uploadDropped current row = false)
  | downloadBase {id : String} (h : s.downloadDeltaBases.contains (id,digest) = true)
      (hl : ∀ row, s.downloadDeltas.get id = some row → s.downloadDropped current row = false)

/-- What a hash is followed as. -/
inductive Role
  | object
  | page
  deriving DecidableEq

/-- The hashes that a descriptor names. -/
inductive Names (d : RecordDescriptor) : Role → String → Prop
  | object : Names d .object d.objectHash
  | dependency {x : String} (h : x ∈ d.dependencies) : Names d .object x
  | dependencyRoot {x : String} (h : d.dependencyRoot = some x) : Names d .page x
  | relationRoot {x : String} (h : d.relationRoot = some x) : Names d .page x

/-- The hashes reached from the rows of a store through descriptors and through the pages that
the objects hold. -/
inductive Followed (cr : Crates) (s : Store) (current clock : ℤ) (floor : ℕ) :
    Role → String → Prop
  | row {x : String} (h : Rooted s current clock x) : Followed cr s current clock floor .object x
  | aliased {c : UnitChange} {bytes x : String} (h : Holds s current floor c)
      (hk : isAlias c.key = true) (hv : c.value = .inline bytes)
      (ha : aliasObject cr bytes = .ok (some x)) : Followed cr s current clock floor .object x
  | value {c : UnitChange} {x : String} {d : RecordDescriptor} (h : Holds s current floor c)
      (hv : c.value = .object x d) : Followed cr s current clock floor .object x
  | named {c : UnitChange} {digest x : String} {d : RecordDescriptor} {role : Role}
      (h : Holds s current floor c) (hv : c.value = .object digest d) (hn : Names d role x) :
      Followed cr s current clock floor role x
  | descriptor {digest x : String} {row : DescriptorRow} {role : Role}
      (h : Followed cr s current clock floor .object digest)
      (hr : s.descriptors.get digest = some row) (hn : Names row.body role x) :
      Followed cr s current clock floor role x
  | indexed {x : String} (h : Followed cr s current clock floor .object x)
      (hn : s.referenceNodes.contains x = true) : Followed cr s current clock floor .page x
  | object {x : String} (h : Followed cr s current clock floor .page x) :
      Followed cr s current clock floor .object x
  | child {digest x : String} {bytes : List UInt8} {children : List String}
      (h : Followed cr s current clock floor .page digest)
      (ho : s.objects.get digest = some bytes)
      (hp : Store.readPage cr bytes = .ok (.branches children)) (hx : x ∈ children) :
      Followed cr s current clock floor .page x
  | leaf {digest x : String} {bytes : List UInt8} {hashes : List String}
      (h : Followed cr s current clock floor .page digest)
      (ho : s.objects.get digest = some bytes)
      (hp : Store.readPage cr bytes = .ok (.objects hashes)) (hx : x ∈ hashes) :
      Followed cr s current clock floor .object x

namespace Store
variable {cr : Crates} {s : Store} {current clock : ℤ} {floor : ℕ}

lemma held_pruned {c : UnitChange}
    (h : Holds s current (s.pruned current).head.minRetainedSeq c) :
    c ∈ (s.pruned current).heldVersions := by
  apply mem_heldVersions.mpr
  cases h with
  | @unit k h => exact .inl ⟨k,h⟩
  | @journal k row h hc hf =>
    refine .inr (.inr ⟨k,row,Table.get_deleteWhere_eq_some.mpr ⟨h,?_⟩,hc⟩)
    change Decimal.textLe row.item.seq.repr (s.pruned current).head.minRetainedSeq.repr = false
    rw [Decimal.textLe_repr]
    exact decide_eq_false (not_le.mpr hf)
  | @pin id pin k h hl hk =>
    exact .inr (.inl ⟨id,pin,k,Table.get_deleteWhere_eq_some.mpr ⟨h,hl⟩,hk⟩)

lemma mem_targets_of_get {ν : Type} {table : Table (String × String) ν} {id x : String} {v : ν}
    (h : table.get (id,x) = some v) : x ∈ table.rows.map fun r => r.1.2 :=
  List.mem_map.mpr ⟨((id,x),v),Table.get_eq_some.mp h,rfl⟩

lemma rooted_subset {roots : List String} (hr : (s.pruned current).gcRoots cr clock = .ok roots)
    {x : String} (h : Rooted s current clock x) : x ∈ roots := by
  obtain ⟨aliases, -, rfl⟩ := gcRoots_eq_ok hr
  simp only [List.mem_append]
  cases h with
  | @lease device expires h hl =>
    have hk : (s.pruned current).objectLeases.get (device,x) = some expires :=
      Table.get_deleteWhere_eq_some.mpr ⟨h,hl⟩
    exact .inl (.inl (.inl (.inl (.inl (.inl (mem_targets_of_get hk))))))
  | custody h => exact .inl (.inl (.inl (.inl (.inl (.inr (mem_targets_of_get h))))))
  | @upload id row h hh hd he =>
    have hk : (s.pruned current).uploads.get id = some row :=
      Table.get_deleteWhere_eq_some.mpr ⟨h,hd⟩
    have hm : (id,row) ∈ (s.pruned current).uploads.rows.filter fun r => clock < r.2.expires :=
      List.mem_filter.mpr ⟨Table.get_eq_some.mp hk,by simpa using he⟩
    exact .inl (.inl (.inl (.inl (.inr (List.mem_map.mpr ⟨(id,row),hm,hh⟩)))))
  | @uploadBase id h hl =>
    obtain ⟨u, hu⟩ := Table.contains_iff.mp h
    have hk : (s.pruned current).uploadDeltaBases.get (id,x) = some u := by
      refine Table.get_deleteWhere_eq_some.mpr ⟨hu,?_⟩
      dsimp only
      cases ho : s.uploads.get id with
      | none => rfl
      | some row =>
        obtain ⟨h1, h2⟩ := hl row ho
        simp [h1, h2]
    exact .inl (.inl (.inl (.inr (mem_targets_of_get hk))))
  | @downloadBase id h hl =>
    obtain ⟨u, hu⟩ := Table.contains_iff.mp h
    have hk : (s.pruned current).downloadDeltaBases.get (id,x) = some u := by
      refine Table.get_deleteWhere_eq_some.mpr ⟨hu,?_⟩
      dsimp only
      cases ho : s.downloadDeltas.get id with
      | none => rfl
      | some row => simp [hl row ho]
    exact .inl (.inl (.inr (mem_targets_of_get hk)))

lemma aliased_subset {roots : List String}
    (hr : (s.pruned current).gcRoots cr clock = .ok roots) {c : UnitChange} {bytes x : String}
    (hc : c ∈ (s.pruned current).heldVersions) (hk : isAlias c.key = true)
    (hv : c.value = .inline bytes) (ha : aliasObject cr bytes = .ok (some x)) : x ∈ roots := by
  obtain ⟨aliases, hb, rfl⟩ := gcRoots_eq_ok hr
  have hroots : aliasRoots cr c = .ok [x] := by
    simp only [aliasRoots, hv, hk, if_true, ha]
    rfl
  apply List.mem_append_left
  apply List.mem_append_right
  exact mem_rootAliasBodies hb hc hroots (by simp)

lemma names_alive (hi : Indexed cr s) {alive : List String}
    (hclosed : ∀ a b, (a,b) ∈ s.gcEdges → a ∈ alive → b ∈ alive) {h x : String} {role : Role}
    {row : DescriptorRow} (ha : h ∈ alive) (hr : s.descriptors.get h = some row)
    (hn : Names row.body role x) :
    x ∈ alive ∧ (role = .page → s.referenceNodes.contains x = true) := by
  have hmem : x ∈ row.object :: (row.body.dependencyRoot.toList ++ row.body.relationRoot.toList ++
      row.body.dependencies) := by
    cases hn with
    | object => simp [hi.object h row hr]
    | dependency h => simp [h]
    | dependencyRoot h => simp [h]
    | relationRoot h => simp [h]
  refine ⟨hclosed h x (descriptorEdges_subset hr hmem) ha,?_⟩
  rintro rfl
  apply hi.trees h row hr
  cases hn with
  | dependencyRoot h => simp [h]
  | relationRoot h => simp [h]

/-- Everything that is followed is alive in the pass, and pages are followed only to nodes. -/
theorem followed_alive (hi : Indexed cr s) (hd : ∀ c ∈ s.heldVersions, Described s c)
    {roots : List String} (hr : (s.pruned current).gcRoots cr clock = .ok roots) {role : Role}
    {x : String}
    (h : Followed cr s current clock (s.pruned current).head.minRetainedSeq role x) :
    x ∈ Closure.closure (s.pruned current).gcEdges roots ∧
      (role = .page → s.referenceNodes.contains x = true) := by
  have hclosed : ∀ a b, (a,b) ∈ s.gcEdges →
      a ∈ Closure.closure (s.pruned current).gcEdges roots →
      b ∈ Closure.closure (s.pruned current).gcEdges roots :=
    fun a b => Closure.closure_closed
  have hvalue : ∀ {c : UnitChange} {digest : String} {d : RecordDescriptor},
      Holds s current (s.pruned current).head.minRetainedSeq c → c.value = .object digest d →
        digest ∈ Closure.closure (s.pruned current).gcEdges roots := by
    intro c digest d hc hv
    apply Closure.root_mem_closure
    exact valueRoots_subset hr (held_pruned hc) (by simp [valueRoots, hv])
  induction h with
  | row h => exact ⟨Closure.root_mem_closure (rooted_subset hr h),fun he => by cases he⟩
  | aliased h hk hv ha =>
    refine ⟨Closure.root_mem_closure ?_,fun he => by cases he⟩
    exact aliased_subset hr (held_pruned h) hk hv ha
  | value h hv => exact ⟨hvalue h hv,fun he => by cases he⟩
  | named h hv hn =>
    -- the row of a held version has the body that the version names
    obtain ⟨row, hrow, rfl⟩ := hd _ (pruned_held (held_pruned h)) _ _ hv
    exact names_alive hi hclosed (hvalue h hv) hrow hn
  | descriptor h hrow hn ih => exact names_alive hi hclosed ih.1 hrow hn
  | indexed h hn ih => exact ⟨ih.1,fun _ => hn⟩
  | object h ih => exact ⟨ih.1,fun he => by cases he⟩
  | child h ho hp hx ih =>
    obtain ⟨bytes, page, hb, hpage, hedges⟩ := hi.node _ (ih.2 rfl)
    rw [ho] at hb
    cases hb
    rw [hp] at hpage
    cases hpage
    obtain ⟨hedge, hnode⟩ := hedges _ hx
    exact ⟨hclosed _ _ (children_subset hedge) ih.1,fun _ => hnode⟩
  | leaf h ho hp hx ih =>
    obtain ⟨bytes, page, hb, hpage, hedges⟩ := hi.node _ (ih.2 rfl)
    rw [ho] at hb
    cases hb
    rw [hp] at hpage
    cases hpage
    exact ⟨hclosed _ _ (leaves_subset (hedges _ hx)) ih.1,fun he => by cases he⟩

end Store

/-- A maintenance pass leaves the object, the descriptor and the reference rows of every hash
that is reached from the rows it does not drop. -/
theorem collection_keeps_followed {cr : Crates} {texts : Set (List UInt8)} {s : System}
    (h : Reachable cr texts s) {current clock : ℤ} {role : Role} {digest : String}
    (hf : Followed cr s.store current clock
      (s.exec cr (.maintain current clock)).2.store.head.minRetainedSeq role digest) :
    Store.SameRows s.store (s.exec cr (.maintain current clock)).2.store digest := by
  have hc := h.collectable
  revert hf
  simp only [System.exec, Store.maintainAt]
  cases s.pending with
  | some p => exact fun _ => .refl s.store digest
  | none =>
    dsimp only
    cases hr : (s.store.pruned current).gcRoots cr clock with
    | error e => exact fun _ => .refl s.store digest
    | ok roots =>
      intro hf
      -- the statements before the sweep leave the object tables alone
      obtain ⟨ho, hd, hn, hch, hl, hrel⟩ := Store.sweep_sameRows (s.store.pruned current)
        (Store.followed_alive hc.indexed hc.held hr hf).1
      exact ⟨ho,hd,hn,hch,hl,hrel⟩

/-- An object of four letters. -/
def note : List UInt8 := utf8 "note".toList

def noteHash : String := "edb465624291e4053c6c5ea4b7eb320dec773e10a57d26b95dcf0564f8e310f8"

def noteCrates : Crates :=
  tabulated
    [(note,noteHash),
      ((Control.strings ["risunest-sync-genesis-v1","library","epoch"]).encode,
        "28d155fb4f569bee695e5dac56bb542f2fb624abdb08dc2686703023ebf31a74")] [] []

/-- A new library in which a device has put one object. -/
def sampleLeased : System :=
  System.run noteCrates ⟨sampleLibrary noteCrates,none⟩
    [.putObject sampleDevice noteHash note 1000]

lemma reachable_sampleLeased : Reachable noteCrates ∅ sampleLeased := by
  refine Reachable.run reachable_sampleLibrary fun o ho => ?_
  simp only [List.mem_cons, List.not_mem_nil, or_false] at ho
  subst ho
  exact Set.empty_subset _

/-- An object that only its lease names outlives a pass before the lease ends. -/
theorem collection_keeps_followed_leased :
    sampleLeased.store.objects.get noteHash = some note ∧
      Store.SameRows sampleLeased.store
        (sampleLeased.exec noteCrates (.maintain 2000 2000)).2.store noteHash := by
  have lease : sampleLeased.store.objectLeases.get ("device-a",noteHash) = some 87400 := by
    decide
  have lasting : sampleLeased.store.lapsed 2000 "device-a" 87400 = false := by decide
  refine ⟨by decide,?_⟩
  exact collection_keeps_followed reachable_sampleLeased (.row (.lease lease lasting))

/-- The lease of a device that is revoked goes with the next pass, and the object with it,
although the lease has not run out. -/
theorem collection_drops_leases_of_the_revoked :
    Reachable noteCrates ∅ (sampleLeased.exec noteCrates (.revokeDevice "device-a")).2 ∧
    ((sampleLeased.exec noteCrates (.revokeDevice "device-a")).2.store.objectLeases.get
      ("device-a",noteHash)).any (fun expires => decide (2000 < expires)) = true ∧
    (sampleLeased.exec noteCrates (.revokeDevice "device-a")).2.store.objects.get noteHash =
      some note ∧
    ((sampleLeased.exec noteCrates (.revokeDevice "device-a")).2.exec noteCrates
      (.maintain 2000 2000)).2.store.objects.get noteHash = none :=
  ⟨reachable_sampleLeased.step (.op (.revokeDevice "device-a") (Set.empty_subset _)),
    by decide,by decide,by decide⟩

end RisuNest.Server
