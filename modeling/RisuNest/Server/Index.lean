import RisuNest.Server.Steps

/-! The index of descriptors and reference trees covers the objects it was read from: every edge
of an indexed page or descriptor is a row, and what an edge leads to is indexed as well. -/
namespace RisuNest.Server
open Wire

/-- The rows that the index holds for the values of a page. -/
def PageIndexed (s : Store) (digest : String) : ReferencePage → Prop
  | .branches children => ∀ c ∈ children,
    s.referenceChildren.contains (digest,c) = true ∧ s.referenceNodes.contains c = true
  | .objects hashes => ∀ x ∈ hashes, s.referenceObjects.contains (digest,x) = true
  | .relations _ => True

/-- Descriptor rows name their object and have their trees indexed; node rows stand for pages
that are there, with the edges of their values. -/
structure Indexed (cr : Crates) (s : Store) : Prop where
  object : ∀ h row, s.descriptors.get h = some row → row.object = row.body.objectHash
  trees : ∀ h row, s.descriptors.get h = some row →
    ∀ root ∈ row.body.dependencyRoot.toList ++ row.body.relationRoot.toList,
      s.referenceNodes.contains root = true
  node : ∀ h, s.referenceNodes.contains h = true → ∃ bytes page, s.objects.get h = some bytes ∧
    Store.readPage cr bytes = .ok page ∧ PageIndexed s h page

/-- More rows in the tables of the index and of the objects. -/
structure Grows (s t : Store) : Prop where
  objects : ∀ h b, s.objects.get h = some b → t.objects.get h = some b
  descriptors : ∀ h row, s.descriptors.get h = some row → t.descriptors.get h = some row
  nodes : ∀ h, s.referenceNodes.contains h = true → t.referenceNodes.contains h = true
  children : ∀ e, s.referenceChildren.contains e = true → t.referenceChildren.contains e = true
  leaves : ∀ e, s.referenceObjects.contains e = true → t.referenceObjects.contains e = true

lemma Grows.refl (s : Store) : Grows s s :=
  ⟨fun _ _ h => h,fun _ _ h => h,fun _ h => h,fun _ h => h,fun _ h => h⟩

lemma Grows.trans {s t u : Store} (h : Grows s t) (h' : Grows t u) : Grows s u :=
  ⟨fun _ _ hk => h'.objects _ _ (h.objects _ _ hk),
    fun _ _ hk => h'.descriptors _ _ (h.descriptors _ _ hk),fun _ hk => h'.nodes _ (h.nodes _ hk),
    fun _ hk => h'.children _ (h.children _ hk),fun _ hk => h'.leaves _ (h.leaves _ hk)⟩

lemma PageIndexed.grows {s t : Store} (h : Grows s t) {digest : String} {page : ReferencePage}
    (hp : PageIndexed s digest page) : PageIndexed t digest page := by
  cases page with
  | branches children =>
    intro c hc
    obtain ⟨h1, h2⟩ := hp c hc
    exact ⟨h.children _ h1,h.nodes _ h2⟩
  | objects hashes => exact fun x hx => h.leaves _ (hp x hx)
  | relations keys => trivial

namespace Store
variable {cr : Crates} {s : Store} {p p' : PendingIndex} {kind : NodeKind}

lemma contains_insertOrIgnore {κ ν : Type} [DecidableEq κ] {t : Table κ ν} {k l : κ} {v : ν}
    (h : t.contains l = true) : (t.insertOrIgnore k v).contains l = true := by
  obtain ⟨w, hw⟩ := Table.contains_iff.mp h
  exact Table.contains_iff.mpr ⟨w,Table.get_insertOrIgnore_of_get hw⟩

lemma writeRow_grows (s : Store) (r : Row) : Grows s (s.writeRow r) := by
  cases r with
  | node digest row => exact { Grows.refl s with nodes := fun _ => contains_insertOrIgnore }
  | descriptor digest row =>
    exact { Grows.refl s with descriptors := fun _ _ h => Table.get_insertOrIgnore_of_get h }
  | edge table root value =>
    cases table with
    | children => exact { Grows.refl s with children := fun _ => contains_insertOrIgnore }
    | objects => exact { Grows.refl s with leaves := fun _ => contains_insertOrIgnore }
    | relations => exact { Grows.refl s with }

lemma foldl_writeRow_grows (s : Store) (rows : List Row) : Grows s (rows.foldl writeRow s) := by
  induction rows generalizing s with
  | nil => exact .refl s
  | cons r rows ih => exact (writeRow_grows s r).trans (ih _)

lemma flush_grows (s : Store) (p : PendingIndex) : Grows s (s.flush p) :=
  foldl_writeRow_grows s p.rows

lemma flush_objects (s : Store) (p : PendingIndex) : (s.flush p).objects = s.objects := by
  rw [flush_frame s p]

/-- The edges from a page to its values. -/
def writeEdges (s : Store) (table : EdgeTable) (root : String) (values : List String) : Store :=
  values.foldl (fun s value => s.writeRow (.edge table root value)) s

lemma flush_addNode (s : Store) (p : PendingIndex) (digest : String) (row : NodeRow) :
    s.flush (p.addNode digest row) = (s.flush p).writeRow (.node digest row) := by
  simp [flush, PendingIndex.addNode, List.foldl_append]

lemma flush_addEdges (s : Store) (p : PendingIndex) (table : EdgeTable) (root : String)
    (values : List String) :
    s.flush (p.addEdges table root values) = (s.flush p).writeEdges table root values := by
  unfold writeEdges PendingIndex.addEdges
  induction values generalizing p with
  | nil => rfl
  | cons v vs ih =>
    rw [List.foldl_cons, List.foldl_cons, ih]
    simp [flush, PendingIndex.addEdge, List.foldl_append]

lemma addEdges_lookups (p : PendingIndex) (table : EdgeTable) (root : String)
    (values : List String) : (p.addEdges table root values).nodes = p.nodes ∧
      (p.addEdges table root values).descriptors = p.descriptors := by
  unfold PendingIndex.addEdges
  induction values generalizing p with
  | nil => exact ⟨rfl,rfl⟩
  | cons v vs ih => exact ih (p.addEdge table root v)

lemma writeEdges_spec (s : Store) (table : EdgeTable) (root : String) (values : List String) :
    Grows s (s.writeEdges table root values) ∧
    (s.writeEdges table root values).referenceNodes = s.referenceNodes ∧
    (s.writeEdges table root values).descriptors = s.descriptors ∧
    (s.writeEdges table root values).objects = s.objects ∧
    ∀ v ∈ values,
      (table = .children → (s.writeEdges table root values).referenceChildren.contains (root,v) = true) ∧
      (table = .objects → (s.writeEdges table root values).referenceObjects.contains (root,v) = true) := by
  unfold writeEdges
  induction values generalizing s with
  | nil => exact ⟨.refl s,rfl,rfl,rfl,by simp⟩
  | cons v vs ih =>
    rw [List.foldl_cons]
    obtain ⟨hg, hn, hd, ho, hv⟩ := ih (s.writeRow (.edge table root v))
    have hrow : (s.writeRow (.edge table root v)).referenceNodes = s.referenceNodes ∧
        (s.writeRow (.edge table root v)).descriptors = s.descriptors ∧
        (s.writeRow (.edge table root v)).objects = s.objects := by
      cases table <;> exact ⟨rfl,rfl,rfl⟩
    refine ⟨(writeRow_grows s _).trans hg,hn.trans hrow.1,hd.trans hrow.2.1,ho.trans hrow.2.2,?_⟩
    intro w hw
    rcases List.mem_cons.mp hw with rfl | hw
    · constructor
      · rintro rfl
        apply hg.children
        change (s.referenceChildren.insertOrIgnore (root,w) ()).contains (root,w) = true
        simp [Table.contains]
      · rintro rfl
        apply hg.leaves
        change (s.referenceObjects.insertOrIgnore (root,w) ()).contains (root,w) = true
        simp [Table.contains]
    · exact hv w hw

end Store

/-- The pending rows keep the index covering once they are written, and what the lookups know is
among them. -/
structure PendingIndex.Sound (cr : Crates) (s : Store) (p : PendingIndex) : Prop where
  indexed : Indexed cr (s.flush p)
  nodes : ∀ h row, p.nodes.get h = some row → (s.flush p).referenceNodes.contains h = true
  descriptors : ∀ h body, p.descriptors.get h = some body →
    ∃ row, (s.flush p).descriptors.get h = some row ∧ row.body = body
  fresh : ∀ h, p.descriptors.get h = none →
    (s.flush p).descriptors.get h = s.descriptors.get h

lemma PendingIndex.Sound.empty {cr : Crates} {s : Store} (h : Indexed cr s) :
    PendingIndex.Sound cr s .empty :=
  ⟨h,fun _ _ hk => (by cases hk),fun _ _ hk => (by cases hk),fun _ _ => rfl⟩

/-- Work on the pending rows: the index keeps covering, loses nothing, and learns of no
descriptor. -/
structure PendingIndex.Advances (cr : Crates) (s : Store) (p p' : PendingIndex) : Prop where
  sound : p'.Sound cr s
  grows : Grows (s.flush p) (s.flush p')
  descriptors : p'.descriptors = p.descriptors

lemma PendingIndex.Advances.refl {cr : Crates} {s : Store} {p : PendingIndex}
    (h : p.Sound cr s) : PendingIndex.Advances cr s p p := ⟨h,.refl _,rfl⟩

lemma PendingIndex.Advances.trans {cr : Crates} {s : Store} {p q r : PendingIndex}
    (h : PendingIndex.Advances cr s p q) (h' : PendingIndex.Advances cr s q r) :
    PendingIndex.Advances cr s p r :=
  ⟨h'.sound,h.grows.trans h'.grows,h'.descriptors.trans h.descriptors⟩

namespace Store
variable {cr : Crates} {s : Store} {p p' : PendingIndex} {kind : NodeKind}

lemma childRow_eq_ok (hp : p.Sound cr s) {child : String} {row : NodeRow}
    (h : s.childRow p kind child = .ok row) : (s.flush p).referenceNodes.contains child = true := by
  unfold childRow at h
  cases hn : (p.nodes.get child).filter fun row => row.kind = kind with
  | some r => exact hp.nodes child r (Option.filter_eq_some_iff.mp hn).1
  | none =>
    rw [hn] at h
    cases hs : (s.referenceNodes.get child).filter fun row => row.kind = kind with
    | some r =>
      apply (flush_grows s p).nodes
      exact Table.contains_iff.mpr ⟨r,(Option.filter_eq_some_iff.mp hs).1⟩
    | none =>
      rw [hs] at h
      cases h

lemma mergeChildren_eq_ok (hp : p.Sound cr s) {children : List String}
    {sofar r : Option NodeRow} (h : s.mergeChildren p kind sofar children = .ok r) :
    ∀ c ∈ children, (s.flush p).referenceNodes.contains c = true := by
  induction children generalizing sofar with
  | nil => simp
  | cons child rest ih =>
    rw [mergeChildren] at h
    obtain ⟨row, hrow, h⟩ := bind_eq_ok.mp h
    have hrest : ∀ c ∈ rest, (s.flush p).referenceNodes.contains c = true := by
      cases sofar with
      | none => exact ih h
      | some prior =>
        obtain ⟨_, -, h⟩ := bind_eq_ok.mp h
        exact ih h
    intro c hc
    rcases List.mem_cons.mp hc with rfl | hc
    · exact childRow_eq_ok hp hrow
    · exact hrest c hc

lemma loadPage_eq_ok {digest : String} {page : ReferencePage}
    (h : s.loadPage cr digest = .ok page) :
    ∃ bytes, s.objects.get digest = some bytes ∧ readPage cr bytes = .ok page := by
  unfold loadPage at h
  obtain ⟨bytes, hb, h⟩ := bind_eq_ok.mp h
  obtain ⟨page', hp, h⟩ := bind_eq_ok.mp h
  obtain ⟨_, -, h⟩ := bind_eq_ok.mp h
  cases h
  refine ⟨bytes,?_,lift_eq_ok.mp hp⟩
  unfold getObject at hb
  cases ho : s.objects.get digest with
  | none =>
    rw [ho] at hb
    cases hb
  | some b =>
    simp only [ho] at hb
    split_ifs at hb
    cases hb
    rfl

lemma recordPage_eq_ok (hp : p.Sound cr s) {digest : String} {page : ReferencePage}
    (hl : s.loadPage cr digest = .ok page) (h : s.recordPage p kind digest page = .ok p') :
    p.Advances cr s p' ∧ (s.flush p').referenceNodes.contains digest = true := by
  unfold recordPage at h
  obtain ⟨row, hrow, h⟩ := bind_eq_ok.mp h
  obtain rfl : (p.addNode digest row).addEdges (edgeTable page) digest page.values = p' := by
    cases page with
    | objects hashes =>
      obtain ⟨_, -, h⟩ := bind_eq_ok.mp h
      exact Except.ok.inj h
    | relations keys => exact Except.ok.inj h
    | branches children => exact Except.ok.inj h
  obtain ⟨bytes, hbytes, hread⟩ := loadPage_eq_ok hl
  have hchildren : ∀ children, page = .branches children →
      ∀ c ∈ children, (s.flush p).referenceNodes.contains c = true := by
    rintro children rfl
    unfold nodeRow at hrow
    obtain ⟨merged, hm, -⟩ := bind_eq_ok.mp hrow
    exact mergeChildren_eq_ok hp hm
  have hflush : s.flush ((p.addNode digest row).addEdges (edgeTable page) digest page.values) =
      ((s.flush p).writeRow (.node digest row)).writeEdges (edgeTable page) digest page.values := by
    rw [flush_addEdges, flush_addNode]
  obtain ⟨hg, hn, hd, ho, hv⟩ := writeEdges_spec ((s.flush p).writeRow (.node digest row))
    (edgeTable page) digest page.values
  have hgrow : Grows (s.flush p) (s.flush ((p.addNode digest row).addEdges (edgeTable page)
      digest page.values)) := by
    rw [hflush]
    exact (writeRow_grows _ _).trans hg
  have hself : (s.flush ((p.addNode digest row).addEdges (edgeTable page) digest
      page.values)).referenceNodes.contains digest = true := by
    rw [hflush, hn]
    change ((s.flush p).referenceNodes.insertOrIgnore digest row).contains digest = true
    simp [Table.contains]
  have hlookups := addEdges_lookups (p.addNode digest row) (edgeTable page) digest page.values
  refine ⟨⟨⟨⟨?_,?_,?_⟩,?_,?_,?_⟩,hgrow,hlookups.2⟩,hself⟩
  · rw [hflush, hd]
    exact hp.indexed.object
  · intro h r hr root hroot
    rw [hflush, hd] at hr
    exact hgrow.nodes _ (hp.indexed.trees h r hr root hroot)
  · intro h hh
    by_cases he : h = digest
    · subst he
      refine ⟨bytes,page,?_,hread,?_⟩
      · rw [flush_objects]
        exact hbytes
      · cases page with
        | branches children =>
          intro c hc
          refine ⟨?_,hgrow.nodes _ (hchildren children rfl c hc)⟩
          rw [hflush]
          exact (hv c hc).1 rfl
        | objects hashes =>
          intro x hx
          rw [hflush]
          exact (hv x hx).2 rfl
        | relations keys => trivial
    · -- another node was there before
      rw [hflush, hn] at hh
      change ((s.flush p).referenceNodes.insertOrIgnore digest row).contains h = true at hh
      rw [Table.contains, Table.get_insertOrIgnore, if_neg he] at hh
      obtain ⟨b, q, hb, hq, hi⟩ := hp.indexed.node h hh
      exact ⟨b,q,hgrow.objects _ _ hb,hq,hi.grows hgrow⟩
  · intro h r hr
    rw [hlookups.1] at hr
    change (p.nodes.upsert digest row).get h = some r at hr
    rw [Table.get_upsert] at hr
    split_ifs at hr with he
    · rw [he]
      exact hself
    · exact hgrow.nodes _ (hp.nodes h r hr)
  · intro h body hb
    rw [hlookups.2] at hb
    obtain ⟨r, hr, hbody⟩ := hp.descriptors h body hb
    exact ⟨r,hgrow.descriptors _ _ hr,hbody⟩
  · intro h hh
    rw [hlookups.2] at hh
    rw [hflush, hd]
    exact hp.fresh h hh

lemma indexedKind_eq_some (hp : p.Sound cr s) {digest : String} {found : NodeKind × Bool}
    (h : s.indexedKind p digest = some found) :
    (s.flush p).referenceNodes.contains digest = true := by
  unfold indexedKind at h
  cases hn : p.nodes.get digest with
  | some row => exact hp.nodes digest row hn
  | none =>
    rw [hn] at h
    obtain ⟨row, hrow, -⟩ := Option.map_eq_some_iff.mp h
    exact (flush_grows s p).nodes _ (Table.contains_iff.mpr ⟨row,hrow⟩)

lemma prepareReferenceTree_eq_ok {queue : List (String × ℕ × Bool)} {seen : List String}
    (hp : p.Sound cr s) (h : s.prepareReferenceTree cr kind p queue seen = .ok p') :
    p.Advances cr s p' ∧ ∀ e ∈ queue, (s.flush p').referenceNodes.contains e.1 = true := by
  fun_induction Store.prepareReferenceTree cr s kind p queue seen with
  | case1 =>
    cases h
    exact ⟨.refl hp,by simp⟩
  | case4 p seen digest depth expanded queue existing pending hi _ _ ih =>
    -- the node is indexed already
    obtain ⟨ha, hq⟩ := ih hp h
    refine ⟨ha,?_⟩
    intro e he
    rcases List.mem_cons.mp he with rfl | he
    · exact ha.grows.nodes _ (indexedKind_eq_some hp hi)
    · exact hq e he
  | case9 p seen digest depth queue hi _ page hl _ p₁ hr ih =>
    -- a branch comes back after its children
    obtain ⟨ha₁, hself⟩ := recordPage_eq_ok hp hl hr
    obtain ⟨ha, hq⟩ := ih ha₁.sound h
    refine ⟨ha₁.trans ha,?_⟩
    intro e he
    rcases List.mem_cons.mp he with rfl | he
    · exact ha.grows.nodes _ hself
    · exact hq e he
  | case12 p seen digest depth expanded queue hi _ _ _ children hl ih =>
    obtain ⟨ha, hq⟩ := ih hp h
    refine ⟨ha,?_⟩
    intro e he
    rcases List.mem_cons.mp he with rfl | he
    · exact hq (digest,depth,true) (by simp)
    · exact hq e (by simp [he])
  | case15 p seen digest depth expanded queue hi _ _ _ page hb hl _ p₁ hr ih =>
    obtain ⟨ha₁, hself⟩ := recordPage_eq_ok hp hl hr
    obtain ⟨ha, hq⟩ := ih ha₁.sound h
    refine ⟨ha₁.trans ha,?_⟩
    intro e he
    rcases List.mem_cons.mp he with rfl | he
    · exact ha.grows.nodes _ hself
    · exact hq e he
  | _ => cases h

lemma prepareRoot_eq_ok (hp : p.Sound cr s) {root : Option String}
    (h : (match root with
      | some root => s.prepareReferenceTree cr kind p [(root,0,false)] []
      | none => pure p : Answer PendingIndex) = .ok p') :
    p.Advances cr s p' ∧ ∀ r ∈ root.toList, (s.flush p').referenceNodes.contains r = true := by
  cases root with
  | none =>
    cases h
    exact ⟨.refl hp,by simp⟩
  | some root =>
    obtain ⟨ha, hq⟩ := prepareReferenceTree_eq_ok hp h
    exact ⟨ha,by simpa using hq⟩

lemma prepareRoots_eq_ok (hp : p.Sound cr s) {d : RecordDescriptor}
    (h : s.prepareRoots cr p d = .ok p') :
    p.Advances cr s p' ∧ ∀ root ∈ d.dependencyRoot.toList ++ d.relationRoot.toList,
      (s.flush p').referenceNodes.contains root = true := by
  unfold prepareRoots at h
  obtain ⟨p₁, h₁, h₂⟩ : ∃ p₁, (match d.dependencyRoot with
      | some root => s.prepareReferenceTree cr .objects p [(root,0,false)] []
      | none => pure p : Answer PendingIndex) = .ok p₁ ∧ (match d.relationRoot with
      | some root => s.prepareReferenceTree cr .relations p₁ [(root,0,false)] []
      | none => pure p₁ : Answer PendingIndex) = .ok p' := by
    cases hd : d.dependencyRoot with
    | none =>
      rw [hd] at h
      exact ⟨p,rfl,h⟩
    | some root =>
      rw [hd] at h
      exact bind_eq_ok.mp h
  obtain ⟨ha₁, hr₁⟩ := prepareRoot_eq_ok hp h₁
  obtain ⟨ha₂, hr₂⟩ := prepareRoot_eq_ok ha₁.sound h₂
  refine ⟨ha₁.trans ha₂,?_⟩
  intro root hroot
  rcases List.mem_append.mp hroot with hroot | hroot
  · exact ha₂.grows.nodes _ (hr₁ root hroot)
  · exact hr₂ root hroot

lemma flush_addDescriptor (s : Store) (p : PendingIndex) (digest : String)
    (d : RecordDescriptor) :
    s.flush (p.addDescriptor digest d) =
      (s.flush p).writeRow (.descriptor digest ⟨d.objectHash,d⟩) := by
  simp [flush, PendingIndex.addDescriptor, List.foldl_append]

lemma addDescriptor_sound (hp : p.Sound cr s) {digest : String} {d : RecordDescriptor}
    (hr : ∀ root ∈ d.dependencyRoot.toList ++ d.relationRoot.toList,
      (s.flush p).referenceNodes.contains root = true)
    (hn : (s.flush p).descriptors.get digest = none) :
    (p.addDescriptor digest d).Sound cr s ∧
      Grows (s.flush p) (s.flush (p.addDescriptor digest d)) := by
  have hrows : (s.flush (p.addDescriptor digest d)).descriptors =
      (s.flush p).descriptors.insertOrIgnore digest ⟨d.objectHash,d⟩ := by
    rw [flush_addDescriptor]
    rfl
  have hgrow : Grows (s.flush p) (s.flush (p.addDescriptor digest d)) := by
    rw [flush_addDescriptor]
    exact writeRow_grows _ _
  have hcases : ∀ h row, (s.flush (p.addDescriptor digest d)).descriptors.get h = some row →
      row = ⟨d.objectHash,d⟩ ∨ (s.flush p).descriptors.get h = some row := by
    intro h row hrow
    rw [hrows, Table.get_insertOrIgnore] at hrow
    split_ifs at hrow with he
    · rw [hn, Option.getD_none] at hrow
      exact .inl (Option.some.inj hrow).symm
    · exact .inr hrow
  refine ⟨⟨⟨?_,?_,?_⟩,?_,?_,?_⟩,hgrow⟩
  · intro h row hrow
    rcases hcases h row hrow with rfl | hrow
    · rfl
    · exact hp.indexed.object h row hrow
  · intro h row hrow root hroot
    rcases hcases h row hrow with rfl | hrow
    · exact hgrow.nodes _ (hr root hroot)
    · exact hgrow.nodes _ (hp.indexed.trees h row hrow root hroot)
  · intro h hh
    rw [flush_addDescriptor] at hh
    obtain ⟨b, q, hb, hq, hi⟩ := hp.indexed.node h hh
    exact ⟨b,q,hgrow.objects _ _ hb,hq,hi.grows hgrow⟩
  · exact fun h row hrow => hgrow.nodes _ (hp.nodes h row hrow)
  · intro h body hb
    change (p.descriptors.upsert digest d).get h = some body at hb
    rw [Table.get_upsert] at hb
    split_ifs at hb with he
    · obtain rfl := Option.some.inj hb
      refine ⟨⟨d.objectHash,d⟩,?_,rfl⟩
      rw [hrows, Table.get_insertOrIgnore, if_pos he, hn]
      rfl
    · obtain ⟨row, hrow, hbody⟩ := hp.descriptors h body hb
      exact ⟨row,hgrow.descriptors _ _ hrow,hbody⟩
  · intro h hh
    change (p.descriptors.upsert digest d).get h = none at hh
    rw [Table.get_upsert] at hh
    split_ifs at hh with he
    rw [hrows, Table.get_insertOrIgnore, if_neg he]
    exact hp.fresh h hh

lemma prepareDescriptor_eq_ok (hp : p.Sound cr s) {digest : String} {d : RecordDescriptor}
    (h : s.prepareDescriptor cr p digest = .ok (d,p')) :
    p'.Sound cr s ∧ Grows (s.flush p) (s.flush p') ∧
      ∃ row, (s.flush p').descriptors.get digest = some row ∧ row.body = d := by
  unfold prepareDescriptor at h
  cases hk : p.descriptors.get digest with
  | some body =>
    rw [hk] at h
    cases h
    exact ⟨hp,.refl _,hp.descriptors digest d hk⟩
  | none =>
    simp only [hk] at h
    cases hs : s.descriptors.get digest with
    | some row =>
      simp only [hs] at h
      obtain ⟨_, -, h⟩ := bind_eq_ok.mp h
      obtain ⟨_, -, h⟩ := bind_eq_ok.mp h
      obtain ⟨_, -, h⟩ := bind_eq_ok.mp h
      obtain ⟨_, -, h⟩ := bind_eq_ok.mp h
      obtain ⟨_, -, h⟩ := bind_eq_ok.mp h
      cases h
      have hrow : (s.flush p).descriptors.get digest = some row :=
        (flush_grows s p).descriptors _ _ hs
      refine ⟨⟨hp.indexed,hp.nodes,?_,?_⟩,.refl _,row,hrow,rfl⟩
      · intro h body hb
        change (p.descriptors.upsert digest row.body).get h = some body at hb
        rw [Table.get_upsert] at hb
        split_ifs at hb with he
        · obtain rfl := Option.some.inj hb
          exact ⟨row,he ▸ hrow,rfl⟩
        · exact hp.descriptors h body hb
      · intro h hh
        change (p.descriptors.upsert digest row.body).get h = none at hh
        rw [Table.get_upsert] at hh
        split_ifs at hh
        exact hp.fresh h hh
    | none =>
      simp only [hs] at h
      obtain ⟨_, -, h⟩ := bind_eq_ok.mp h
      obtain ⟨body, -, h⟩ := bind_eq_ok.mp h
      obtain ⟨_, -, h⟩ := bind_eq_ok.mp h
      obtain ⟨_, -, h⟩ := bind_eq_ok.mp h
      obtain ⟨p₁, h₁, h⟩ := bind_eq_ok.mp h
      cases h
      obtain ⟨ha, hroots⟩ := prepareRoots_eq_ok hp h₁
      have hnone : (s.flush p₁).descriptors.get digest = none := by
        rw [ha.sound.fresh digest (by rw [ha.descriptors, hk]), hs]
      obtain ⟨hsound, hgrow⟩ := addDescriptor_sound ha.sound hroots hnone
      refine ⟨hsound,ha.grows.trans hgrow,hsound.descriptors digest d ?_⟩
      change (p₁.descriptors.upsert digest d).get digest = some d
      rw [Table.get_upsert, if_pos rfl]

end Store

/-- A unit value that names a descriptor has a row with its body. -/
def Described (s : Store) (c : UnitChange) : Prop :=
  ∀ h d, c.value = .object h d → ∃ row, s.descriptors.get h = some row ∧ row.body = d

lemma Described.grows {s t : Store} {c : UnitChange} (h : Described s c) (hg : Grows s t) :
    Described t c := by
  intro digest d hd
  obtain ⟨row, hrow, hbody⟩ := h digest d hd
  exact ⟨row,hg.descriptors _ _ hrow,hbody⟩

/-- However a preparation ends, the index covers what it holds; when it succeeds every change
that names a descriptor has its row. -/
theorem prepareChanges_indexed {cr : Crates} {s : Store} {p : PendingIndex}
    {cs : List UnitChange} (hp : p.Sound cr s) (hi : Indexed cr s) :
    Indexed cr (s.prepareChanges cr p cs).2 ∧
      ((s.prepareChanges cr p cs).1 = .ok () → Grows (s.flush p) (s.prepareChanges cr p cs).2 ∧
        ∀ c ∈ cs, Described (s.prepareChanges cr p cs).2 c) := by
  induction cs generalizing s p with
  | nil => exact ⟨hp.indexed,fun _ => ⟨.refl _,by simp⟩⟩
  | cons c cs ih =>
    unfold Store.prepareChanges
    cases hv : c.value with
    | object h d =>
      dsimp only
      cases hd : s.prepareDescriptor cr p h with
      | error e => exact ⟨hi,fun he => by cases he⟩
      | ok prepared =>
        obtain ⟨stored, p₁⟩ := prepared
        obtain ⟨hs₁, hg₁, row, hrow, hbody⟩ := Store.prepareDescriptor_eq_ok hp hd
        simp only [Except.mapError]
        split_ifs with hne hfull
        · exact ⟨hi,fun he => by cases he⟩
        · obtain ⟨h1, h2⟩ := ih (.empty hs₁.indexed) hs₁.indexed
          refine ⟨h1,fun hok => ?_⟩
          obtain ⟨hg, hall⟩ := h2 hok
          refine ⟨hg₁.trans hg,?_⟩
          intro e he
          rcases List.mem_cons.mp he with rfl | he
          · intro h' d' hd'
            rw [hv] at hd'
            cases hd'
            exact ⟨row,hg.descriptors _ _ hrow,hbody.trans (not_not.mp hne)⟩
          · exact hall e he
        · obtain ⟨h1, h2⟩ := ih hs₁ hi
          refine ⟨h1,fun hok => ?_⟩
          obtain ⟨hg, hall⟩ := h2 hok
          refine ⟨hg₁.trans hg,?_⟩
          intro e he
          rcases List.mem_cons.mp he with rfl | he
          · intro h' d' hd'
            rw [hv] at hd'
            cases hd'
            exact ⟨row,hg.descriptors _ _ hrow,hbody.trans (not_not.mp hne)⟩
          · exact hall e he
    | inline bytes =>
      obtain ⟨h1, h2⟩ := ih hp hi
      refine ⟨h1,fun hok => ?_⟩
      obtain ⟨hg, hall⟩ := h2 hok
      refine ⟨hg,?_⟩
      intro e he
      rcases List.mem_cons.mp he with rfl | he
      · intro h' d' hd'
        rw [hv] at hd'
        cases hd'
      · exact hall e he
    | deleted =>
      obtain ⟨h1, h2⟩ := ih hp hi
      refine ⟨h1,fun hok => ?_⟩
      obtain ⟨hg, hall⟩ := h2 hok
      refine ⟨hg,?_⟩
      intro e he
      rcases List.mem_cons.mp he with rfl | he
      · intro h' d' hd'
        rw [hv] at hd'
        cases hd'
      · exact hall e he

end RisuNest.Server
