import RisuNest.External.AssemblyExact

/-! The running length of an assembly against the encoding of its segment, over whole outboxes. -/
namespace RisuNest.External.Documents.Capturing
open Wire (Crates)

/-! ### What is measured -/

/-- A segment without changes and what they refer to. -/
def Capture.frame (c : Capture) : ℕ := frameLength segmentSchema c.library c.writer c.seq

/-- The lengths that are kept are those of the parts of the segment. -/
structure Measured (c : Capture) (st : Assembly) : Prop where
  schema : st.payload.schema = segmentSchema
  library : st.payload.libraryId = c.library
  writer : st.payload.writerId = c.writer
  seq : st.payload.seq = c.seq
  fixed : st.length.fixed = c.frame + changesLength st.payload.changes +
    catalogsLength st.payload.dataCatalogs + catalogsLength st.payload.assetCatalogs +
    bodiesLength st.payload.largeBodies
  pages : st.length.pages = pagesLength st.payload.messagePages
  small : 0 < st.length.smallAssets ↔ ∃ k a, st.assets.get k = some a ∧ a.isSmall = true
  placeholders : st.length.placeholders =
    (st.payload.largeBodies.values.filter fun body => body.locator = none).length

lemma Measured.length {c : Capture} {st : Assembly} (h : Measured c st) :
    st.payload.length = st.length.fixed + st.length.pages := by
  rw [Segment.length, h.fixed, h.pages, h.schema, h.library, h.writer, h.seq, Capture.frame]
  omega

section
variable {cr : Crates} {c : Capture}

lemma length_encodeCapture {s : Segment} {bytes : List UInt8} (h : s.encodeCapture cr = .ok bytes) :
    bytes.length = s.length := by
  obtain ⟨u, -, h⟩ := bind_eq_ok.mp h
  obtain ⟨bytes', hbytes', hlength⟩ := s.exists_canonical
  rw [hbytes'] at h
  cases h
  exact hlength

lemma checkedAdd_eq_ok {a b n : ℕ} (h : checkedAdd a b = .ok n) : n = a + b := by
  unfold checkedAdd at h
  split_ifs at h
  cases h
  rfl

lemma changesLength_append (changes : List Change) (change : Change) :
    changesLength (changes ++ [change]) =
      changesLength changes + changesLength [change] + joined changes.length 1 := by
  unfold changesLength
  rw [List.map_append, joinedLength_append, List.length_map, List.length_map]
  rfl

lemma catalogsLength_append (a b : List StoredObject) :
    catalogsLength (a ++ b) = catalogsLength a + catalogsLength b + joined a.length b.length := by
  unfold catalogsLength
  rw [List.map_append, joinedLength_append, List.length_map, List.length_map]

lemma Extends.mapLength {α : Type} {m m' : TextMap α} {fresh : List String}
    (h : Extends m m' fresh) (f : α → Wire.Json) :
    mapLength f m' = mapLength f m + mapLength f (m'.restrict fresh) +
      joined m.rows.length (m'.restrict fresh).rows.length := by
  have hperm := h.perm.map (rowLength f)
  unfold Documents.mapLength
  rw [joinedLength_perm hperm, List.map_append, joinedLength_append, List.length_map,
    List.length_map]

lemma Extends.filter_length {α : Type} {m m' : TextMap α} {fresh : List String}
    (h : Extends m m' fresh) (p : α → Bool) :
    (m'.values.filter p).length = (m.values.filter p).length +
      ((m'.restrict fresh).values.filter p).length := by
  have hperm := (h.perm.map Prod.snd).filter p
  unfold SortedMap.values
  rw [hperm.length_eq, List.map_append, List.filter_append, List.length_append]

lemma Extends.exists_small {m m' : TextMap FrozenAsset} {fresh : List String}
    (h : Extends m m' fresh) : (∃ k a, m'.get k = some a ∧ a.isSmall = true) ↔
      (∃ k a, m.get k = some a ∧ a.isSmall = true) ∨
        0 < fresh.countP fun hash => (m'.get hash).any FrozenAsset.isSmall := by
  rw [List.countP_pos_iff]
  constructor
  · rintro ⟨k, a, hk, ha⟩
    by_cases hfresh : k ∈ fresh
    · exact .inr ⟨k,hfresh,by rw [hk]; exact ha⟩
    · exact .inl ⟨k,a,by rw [← h.kept k hfresh, hk],ha⟩
  · rintro (⟨k, a, hk, ha⟩ | ⟨k, hfresh, hany⟩)
    · have hnot : k ∉ fresh := fun hfresh => by
        rw [h.absent k hfresh] at hk
        cases hk
      exact ⟨k,a,by rw [h.kept k hnot, hk],ha⟩
    · cases hk : m'.get k with
      | none =>
        rw [hk] at hany
        cases hany
      | some a =>
        rw [hk] at hany
        exact ⟨k,a,hk,hany⟩

lemma frame_new : (Segment.new c.library c.writer c.seq).length = c.frame := by
  change c.frame + 0 + 0 + 0 + 0 + 0 = c.frame
  omega

lemma length_deltaOf (marks : Marks) (st : Assembly) (fresh : List String) (entry : OutboxEntry) :
    (deltaOf c marks st fresh entry).length = c.frame + changesLength [entry.change] +
      catalogsLength (st.payload.dataCatalogs.drop marks.dataCatalogs) +
      catalogsLength (st.payload.assetCatalogs.drop marks.assetCatalogs) +
      bodiesLength (st.payload.largeBodies.restrict fresh) := by
  unfold Segment.length
  change c.frame + _ + 0 + _ + _ + _ = _
  rw [Nat.add_zero]
  rfl

lemma length_pagesOf (st : Assembly) (fresh : List String) : (pagesOf c st fresh).length =
    c.frame + pagesLength (st.payload.messagePages.restrict fresh) := by
  unfold Segment.length
  change c.frame + 0 + _ + 0 + 0 + 0 = _
  simp only [Nat.add_zero]
  rfl

lemma pages_of_measure {empty : ℕ} {marks : Marks} {st : Assembly} {fresh : List String}
    {entry : OutboxEntry} {length : AssemblyLength} (hempty : empty = c.frame)
    (h : measure cr c empty marks st fresh entry = .ok length) :
    length.pages = st.length.pages + pagesLength (st.payload.messagePages.restrict fresh) +
      joined marks.messagePages (st.payload.messagePages.restrict fresh).rows.length := by
  obtain ⟨bytes, -, h⟩ := bind_eq_ok.mp h
  obtain ⟨fixed, -, h⟩ := bind_eq_ok.mp h
  have hrows : (pagesOf c st fresh).messagePages = st.payload.messagePages.restrict fresh := rfl
  rw [hrows] at h
  split at h
  · rename_i hnone
    cases h
    simp [pagesLength, Documents.mapLength, hnone, joined, joinedLength]
  · obtain ⟨bytes', hbytes', h⟩ := bind_eq_ok.mp h
    obtain ⟨pages, hsum, h⟩ := bind_eq_ok.mp h
    obtain ⟨pageBytes, -, h⟩ := bind_eq_ok.mp h
    cases h
    have hsum' := checkedAdd_eq_ok hsum
    rw [length_encodeCapture hbytes', length_pagesOf, hempty] at hsum'
    dsimp only
    omega

lemma fixed_of_measure {empty : ℕ} {marks : Marks} {st : Assembly} {fresh : List String}
    {entry : OutboxEntry} {length : AssemblyLength} (hempty : empty = c.frame)
    (h : measure cr c empty marks st fresh entry = .ok length) :
    length.fixed = st.length.fixed + (changesLength [entry.change] + joined marks.changes 1) +
      (catalogsLength (st.payload.dataCatalogs.drop marks.dataCatalogs) +
        joined marks.dataCatalogs (st.payload.dataCatalogs.drop marks.dataCatalogs).length) +
      (catalogsLength (st.payload.assetCatalogs.drop marks.assetCatalogs) +
        joined marks.assetCatalogs (st.payload.assetCatalogs.drop marks.assetCatalogs).length) +
      (bodiesLength (st.payload.largeBodies.restrict fresh) +
        joined marks.largeBodies (st.payload.largeBodies.restrict fresh).rows.length) := by
  obtain ⟨bytes, hbytes, h⟩ := bind_eq_ok.mp h
  obtain ⟨fixed, hfixed, h⟩ := bind_eq_ok.mp h
  have hsum := checkedAdd_eq_ok hfixed
  rw [length_encodeCapture hbytes, length_deltaOf, hempty] at hsum
  have hdata : (deltaOf c marks st fresh entry).dataCatalogs =
    st.payload.dataCatalogs.drop marks.dataCatalogs := rfl
  have hassets : (deltaOf c marks st fresh entry).assetCatalogs =
    st.payload.assetCatalogs.drop marks.assetCatalogs := rfl
  have hbodies : (deltaOf c marks st fresh entry).largeBodies =
    st.payload.largeBodies.restrict fresh := rfl
  rw [hdata, hassets, hbodies] at hsum
  have hlength : length.fixed = fixed := by
    split at h
    · cases h
      rfl
    · obtain ⟨bytes', -, h⟩ := bind_eq_ok.mp h
      obtain ⟨pages, -, h⟩ := bind_eq_ok.mp h
      obtain ⟨pageBytes, -, h⟩ := bind_eq_ok.mp h
      cases h
      rfl
  omega

lemma counts_of_measure {empty : ℕ} {marks : Marks} {st : Assembly} {fresh : List String}
    {entry : OutboxEntry} {length : AssemblyLength}
    (h : measure cr c empty marks st fresh entry = .ok length) :
    length.smallAssets = st.length.smallAssets +
        (fresh.countP fun hash => (st.assets.get hash).any FrozenAsset.isSmall) ∧
      length.placeholders = st.length.placeholders +
        ((st.payload.largeBodies.restrict fresh).values.filter
          fun body => body.locator = none).length := by
  obtain ⟨bytes, -, h⟩ := bind_eq_ok.mp h
  obtain ⟨fixed, -, h⟩ := bind_eq_ok.mp h
  split at h
  · cases h
    exact ⟨rfl,rfl⟩
  · obtain ⟨bytes', -, h⟩ := bind_eq_ok.mp h
    obtain ⟨pages, -, h⟩ := bind_eq_ok.mp h
    obtain ⟨pageBytes, -, h⟩ := bind_eq_ok.mp h
    cases h
    exact ⟨rfl,rfl⟩

/-- With the length that is measured, the entry's change and what came with it are counted. -/
theorem measured_of_measure {before st : Assembly} {fresh : List String} {entry : OutboxEntry}
    {empty : List UInt8} {length : AssemblyLength} (hbefore : Measured c before)
    (hst : Included before st fresh)
    (hempty : (Segment.new c.library c.writer c.seq).encodeCapture cr = .ok empty)
    (h : measure cr c empty.length before.marks st fresh entry = .ok length) :
    Measured c { st with
      payload := { st.payload with changes := st.payload.changes ++ [entry.change] }
      length := length } := by
  have hframe : empty.length = c.frame := by rw [length_encodeCapture hempty, frame_new]
  obtain ⟨hschema, hlibrary, hwriter, hseq, hsame, -⟩ := Segment.ext_iff.mp hst.head
  have hchanges : st.payload.changes = before.payload.changes := hsame
  obtain ⟨data, hdata⟩ := hst.dataCatalogs
  obtain ⟨asset, hasset⟩ := hst.assetCatalogs
  have hdrop : st.payload.dataCatalogs.drop before.payload.dataCatalogs.length = data := by
    rw [hdata, List.drop_left]
  have hdrop' : st.payload.assetCatalogs.drop before.payload.assetCatalogs.length = asset := by
    rw [hasset, List.drop_left]
  obtain ⟨hsmall, hplaceholders⟩ := counts_of_measure h
  exact {
    schema := hschema.trans hbefore.schema
    library := hlibrary.trans hbefore.library
    writer := hwriter.trans hbefore.writer
    seq := hseq.trans hbefore.seq
    fixed := by
      have hfixed := fixed_of_measure hframe h
      have hbodies := hst.largeBodies.mapLength LargeBody.json
      change length.fixed = c.frame + changesLength (st.payload.changes ++ [entry.change]) +
        catalogsLength st.payload.dataCatalogs + catalogsLength st.payload.assetCatalogs +
        Documents.mapLength LargeBody.json st.payload.largeBodies
      unfold Assembly.marks at hfixed
      dsimp only at hfixed
      rw [hdrop, hdrop', hst.length, hbefore.fixed] at hfixed
      rw [hbodies, hchanges, hdata, hasset, changesLength_append, catalogsLength_append,
        catalogsLength_append]
      unfold bodiesLength at hfixed
      omega
    pages := by
      have hpages := pages_of_measure hframe h
      have hmap := hst.messagePages.mapLength .str
      change length.pages = Documents.mapLength .str st.payload.messagePages
      rw [hst.length, hbefore.pages] at hpages
      rw [hpages, hmap]
      rfl
    small := by
      change 0 < length.smallAssets ↔ ∃ k a, st.assets.get k = some a ∧ a.isSmall = true
      rw [hst.assets.exists_small, ← hbefore.small, hsmall, hst.length]
      omega
    placeholders := by
      change length.placeholders = (st.payload.largeBodies.values.filter _).length
      rw [hst.largeBodies.filter_length, hplaceholders, hst.length, hbefore.placeholders] }

end
end RisuNest.External.Documents.Capturing
