import RisuNest.External.Assembly

/-! The length that is kept while a segment is assembled is the one of its encoding, and an entry
that does not fit leaves nothing behind. -/
namespace RisuNest.External.Documents.Capturing
open Wire (Crates UnitValue)

/-! ### Maps with some new keys -/

/-- Only the fresh keys are new. -/
structure Extends {α : Type} (m m' : TextMap α) (fresh : List String) : Prop where
  absent : ∀ k ∈ fresh, m.get k = none
  kept : ∀ k ∉ fresh, m'.get k = m.get k

namespace Extends
variable {α : Type} {m m' m'' : TextMap α} {f g : List String}

lemma refl (m : TextMap α) (h : ∀ k ∈ f, m.get k = none) : Extends m m f := ⟨h,fun _ _ => rfl⟩

lemma trans (h : Extends m m' f) (h' : Extends m' m'' g) : Extends m m'' (f ++ g) := by
  constructor
  · intro k hk
    by_cases hf : k ∈ f
    · exact h.absent k hf
    · rw [← h.kept k hf]
      exact h'.absent k ((List.mem_append.mp hk).resolve_left hf)
  · intro k hk
    rw [List.mem_append, not_or] at hk
    rw [h'.kept k hk.2, h.kept k hk.1]

lemma insert {k : String} (h : m.get k = none) (a : α) : Extends m (m.insert k a) [k] := by
  constructor
  · intro k' hk'
    rw [List.mem_singleton.mp hk', h]
  · intro k' hk'
    rw [SortedMap.get_insert, if_neg fun heq => hk' (List.mem_singleton.mpr heq)]

lemma eraseAll (h : Extends m m' f) : m'.eraseAll f = m := by
  apply SortedMap.ext_get
  intro k
  rw [SortedMap.get_eraseAll]
  split_ifs with hk
  · rw [h.absent k hk]
  · exact h.kept k hk

lemma perm (h : Extends m m' f) : m'.rows.Perm (m.rows ++ (m'.restrict f).rows) := by
  apply SortedMap.rows_perm_append
  · intro k
    rw [SortedMap.get_restrict]
    split_ifs with hk
    · rw [h.absent k hk, Option.or_none]
    · rw [h.kept k hk, Option.none_or]
  · intro k hk
    rw [SortedMap.get_restrict] at hk
    split_ifs at hk with hmem
    · exact h.absent k hmem
    · exact absurd rfl hk

end Extends

/-! ### What an assembly always is -/

/-- A body that is not sealed yet has the fields of a placeholder. -/
def IsPlaceholder (b : LargeBody) : Prop :=
  b.locator = none ∧ b.sha256 = zeroHash ∧ b.byteLength = 0

/-- Pages are not control objects at the same time, what is frozen is a control object, and a body
that has a place was there already. -/
structure Sound (st : Assembly) : Prop where
  apart : ∀ k, st.payload.messagePages.get k ≠ none → st.controls.get k = none
  frozen : ∀ k, st.frozenControls.get k ≠ none → st.controls.get k ≠ none
  placed : ∀ k b, st.payload.largeBodies.get k = some b →
    IsPlaceholder b ∨ st.reusedAssets.get k ≠ none
  reused : ∀ k p, st.reusedAssets.get k = some p → p.contentHash = k

/-- What objects that are taken in add, under fresh keys. -/
structure Included (before after : Assembly) (fresh : List String) : Prop where
  head : after.payload = { before.payload with
    messagePages := after.payload.messagePages
    dataCatalogs := after.payload.dataCatalogs
    assetCatalogs := after.payload.assetCatalogs
    largeBodies := after.payload.largeBodies }
  dataCatalogs : ∃ l, after.payload.dataCatalogs = before.payload.dataCatalogs ++ l
  assetCatalogs : ∃ l, after.payload.assetCatalogs = before.payload.assetCatalogs ++ l
  messagePages : Extends before.payload.messagePages after.payload.messagePages fresh
  largeBodies : Extends before.payload.largeBodies after.payload.largeBodies fresh
  bodies : ∃ l, after.bodies = before.bodies ++ l
  assets : Extends before.assets after.assets fresh
  controls : Extends before.controls after.controls fresh
  reusedAssets : Extends before.reusedAssets after.reusedAssets fresh
  frozenControls : after.frozenControls = before.frozenControls
  length : after.length = before.length
  selected : after.selected = before.selected

lemma Included.refl (st : Assembly) : Included st st [] where
  head := rfl
  dataCatalogs := ⟨[],(List.append_nil _).symm⟩
  assetCatalogs := ⟨[],(List.append_nil _).symm⟩
  messagePages := .refl _ (List.forall_mem_nil _)
  largeBodies := .refl _ (List.forall_mem_nil _)
  bodies := ⟨[],(List.append_nil _).symm⟩
  assets := .refl _ (List.forall_mem_nil _)
  controls := .refl _ (List.forall_mem_nil _)
  reusedAssets := .refl _ (List.forall_mem_nil _)
  frozenControls := rfl
  length := rfl
  selected := rfl

lemma exists_append_trans {α : Type} {a b c : List α} (h : ∃ l, b = a ++ l) (h' : ∃ l, c = b ++ l) :
    ∃ l, c = a ++ l := by
  obtain ⟨l, rfl⟩ := h
  obtain ⟨l', rfl⟩ := h'
  exact ⟨l ++ l',List.append_assoc _ _ _⟩

lemma Included.trans {a b c : Assembly} {f g : List String} (h : Included a b f)
    (h' : Included b c g) : Included a c (f ++ g) where
  head := by
    rw [h'.head, h.head]
  dataCatalogs := exists_append_trans h.dataCatalogs h'.dataCatalogs
  assetCatalogs := exists_append_trans h.assetCatalogs h'.assetCatalogs
  messagePages := h.messagePages.trans h'.messagePages
  largeBodies := h.largeBodies.trans h'.largeBodies
  bodies := exists_append_trans h.bodies h'.bodies
  assets := h.assets.trans h'.assets
  controls := h.controls.trans h'.controls
  reusedAssets := h.reusedAssets.trans h'.reusedAssets
  frozenControls := h'.frozenControls.trans h.frozenControls
  length := h'.length.trans h.length
  selected := h'.selected.trans h.selected

/-- An object that is not there is new everywhere. -/
structure New (st : Assembly) (hash : String) : Prop where
  messagePages : st.payload.messagePages.get hash = none
  controls : st.controls.get hash = none
  assets : st.assets.get hash = none
  reusedAssets : st.reusedAssets.get hash = none
  largeBodies : st.payload.largeBodies.get hash = none

lemma new_of_holds {st : Assembly} {hash : String} (h : st.holds hash = false) : New st hash := by
  simp only [Assembly.holds, Bool.or_eq_false_iff, SortedMap.contains_eq_false] at h
  exact ⟨h.1.1.1.1,h.1.1.1.2,h.1.1.2,h.1.2,h.2⟩

section
variable {cr : Crates} {answers : Answers} {st st' : Assembly} {hash : String}

lemma New.extends_refl {α : Type} {m : TextMap α} (h : m.get hash = none) : Extends m m [hash] := by
  apply Extends.refl
  intro k hk
  rw [List.mem_singleton.mp hk, h]

lemma joinCatalog_eq_ok {catalogs catalogs' : List StoredObject} {catalog : StoredObject}
    (h : joinCatalog catalogs catalog = .ok catalogs') : ∃ l, catalogs' = catalogs ++ l := by
  unfold joinCatalog at h
  split at h
  · split_ifs at h
    cases h
    exact ⟨[],(List.append_nil _).symm⟩
  · cases h
    exact ⟨[catalog],rfl⟩

lemma Sound.insert_control (hs : Sound st) (h : New st hash) (text : String) :
    Sound { st with controls := st.controls.insert hash text } where
  apart k hk := by
    change (st.controls.insert hash text).get k = none
    rw [SortedMap.get_insert]
    split_ifs with heq
    · rw [heq] at hk
      exact absurd h.messagePages hk
    · exact hs.apart k hk
  frozen k hk := by
    change (st.controls.insert hash text).get k ≠ none
    rw [SortedMap.get_insert]
    split_ifs with heq
    · simp
    · exact hs.frozen k hk
  placed := hs.placed
  reused := hs.reused

lemma Sound.insert_page (hs : Sound st) (h : New st hash) (text : String) :
    Sound { st with payload := { st.payload with
      messagePages := st.payload.messagePages.insert hash text } } where
  apart k hk := by
    change (st.payload.messagePages.insert hash text).get k ≠ none at hk
    rw [SortedMap.get_insert] at hk
    split_ifs at hk with heq
    · rw [heq]
      exact h.controls
    · exact hs.apart k hk
  frozen := hs.frozen
  placed := hs.placed
  reused := hs.reused

lemma Sound.insert_reused (hs : Sound st) {payload : Segment} {proof : FrozenAssetReference}
    (hpages : payload.messagePages = st.payload.messagePages)
    (hbodies : ∀ k, k ≠ hash → payload.largeBodies.get k = st.payload.largeBodies.get k)
    (hproof : proof.contentHash = hash) :
    Sound { st with payload := payload, reusedAssets := st.reusedAssets.insert hash proof } where
  apart k hk := by
    change payload.messagePages.get k ≠ none at hk
    rw [hpages] at hk
    exact hs.apart k hk
  frozen := hs.frozen
  placed k b hb := by
    change payload.largeBodies.get k = some b at hb
    change _ ∨ (st.reusedAssets.insert hash proof).get k ≠ none
    rw [SortedMap.get_insert]
    split_ifs with heq
    · exact .inr (by simp)
    · rw [hbodies k heq] at hb
      exact hs.placed k b hb
  reused k p hp := by
    change (st.reusedAssets.insert hash proof).get k = some p at hp
    rw [SortedMap.get_insert] at hp
    split_ifs at hp with heq
    · cases hp
      rw [heq, hproof]
    · exact hs.reused k p hp

lemma Sound.insert_placeholder (hs : Sound st) (id : String) (n : UInt64) {bodies : List SealedBody}
    {assets : TextMap FrozenAsset} :
    Sound { st with
      payload := { st.payload with
        largeBodies := st.payload.largeBodies.insert hash (placeholder id n) }
      bodies := bodies
      assets := assets } where
  apart := hs.apart
  frozen := hs.frozen
  placed k b hb := by
    change (st.payload.largeBodies.insert hash (placeholder id n)).get k = some b at hb
    rw [SortedMap.get_insert] at hb
    split_ifs at hb with heq
    · cases hb
      exact .inl ⟨rfl,rfl,rfl⟩
    · exact hs.placed k b hb
  reused := hs.reused

lemma includeControl_eq_ok {parts : List String} (hnew : New st hash)
    (h : includeControl cr answers parts st hash = .ok st') :
    Included st st' [hash] ∧ (Sound st → Sound st') := by
  have hrefl : Included st st [hash] :=
    { Included.refl st with
      messagePages := New.extends_refl hnew.messagePages
      largeBodies := New.extends_refl hnew.largeBodies
      assets := New.extends_refl hnew.assets
      controls := New.extends_refl hnew.controls
      reusedAssets := New.extends_refl hnew.reusedAssets }
  obtain ⟨reusable, -, h⟩ := bind_eq_ok.mp h
  cases reusable with
  | some proof =>
    obtain ⟨catalogs, hcatalogs, h⟩ := bind_eq_ok.mp h
    cases h
    exact ⟨{ hrefl with head := rfl, dataCatalogs := joinCatalog_eq_ok hcatalogs },
      fun hs => ⟨hs.apart,hs.frozen,hs.placed,hs.reused⟩⟩
  | none =>
    obtain ⟨native, -, h⟩ := bind_eq_ok.mp h
    cases native with
    | true =>
      cases h
      exact ⟨{ hrefl with controls := .insert hnew.controls _ },fun hs => hs.insert_control hnew _⟩
    | false =>
      obtain ⟨body, -, h⟩ := bind_eq_ok.mp h
      cases body with
      | none => cases h
      | some bytes =>
        dsimp only at h
        split_ifs at h
        · cases h
          exact ⟨{ hrefl with controls := .insert hnew.controls _ },
            fun hs => hs.insert_control hnew _⟩
        · cases h
          exact ⟨{ hrefl with head := rfl, messagePages := .insert hnew.messagePages _ },
            fun hs => hs.insert_page hnew _⟩

lemma includeAsset_eq_ok (hnew : New st hash) (h : includeAsset answers st hash = .ok st') :
    Included st st' [hash] ∧ (Sound st → Sound st') := by
  have hrefl : Included st st [hash] :=
    { Included.refl st with
      messagePages := New.extends_refl hnew.messagePages
      largeBodies := New.extends_refl hnew.largeBodies
      assets := New.extends_refl hnew.assets
      controls := New.extends_refl hnew.controls
      reusedAssets := New.extends_refl hnew.reusedAssets }
  obtain ⟨reusable, -, h⟩ := bind_eq_ok.mp h
  cases reusable with
  | some proof =>
    obtain ⟨byteLength, rootedAtMs, reference⟩ := proof
    obtain ⟨payload, hpayload, h⟩ := bind_eq_ok.mp h
    cases h
    cases reference with
    | catalog catalog =>
      change (joinCatalog st.payload.assetCatalogs catalog).map _ = _ at hpayload
      cases hcatalogs : joinCatalog st.payload.assetCatalogs catalog with
      | error e =>
        rw [hcatalogs] at hpayload
        cases hpayload
      | ok catalogs =>
        rw [hcatalogs] at hpayload
        cases hpayload
        exact ⟨{ hrefl with
            head := rfl
            assetCatalogs := joinCatalog_eq_ok hcatalogs
            reusedAssets := .insert hnew.reusedAssets _ },
          fun hs => hs.insert_reused rfl (fun _ _ => rfl) rfl⟩
    | standalone body =>
      cases hpayload
      exact ⟨{ hrefl with
          head := rfl
          largeBodies := .insert hnew.largeBodies _
          reusedAssets := .insert hnew.reusedAssets _ },
        fun hs => hs.insert_reused rfl (fun k hk => by simp [hk]) rfl⟩
  | none =>
    obtain ⟨byteLength, -, h⟩ := bind_eq_ok.mp h
    dsimp only at h
    split_ifs at h
    · cases h
      exact ⟨{ hrefl with
          head := rfl
          largeBodies := .insert hnew.largeBodies _
          bodies := ⟨_,rfl⟩
          assets := .insert hnew.assets _ },fun hs => hs.insert_placeholder _ _⟩
    · cases h
      exact ⟨{ hrefl with assets := .insert hnew.assets _ },
        fun hs => ⟨hs.apart,hs.frozen,hs.placed,hs.reused⟩⟩

/-- What is taken in is added under fresh keys, and all stays sound. -/
theorem includeObjects_eq_ok {entry : OutboxEntry} {fresh : List String}
    (h : includeObjects cr answers entry st = .ok (st',fresh)) :
    Included st st' fresh ∧ (Sound st → Sound st') := by
  obtain ⟨named, -, h⟩ := bind_eq_ok.mp h
  refine foldlM_induct (I := fun _ s => Included st s.1 s.2 ∧ (Sound st → Sound s.1)) ?_
    ⟨.refl st,id⟩ h
  rintro done ⟨s, f⟩ hash ⟨t, g⟩ ⟨hincluded, hsound⟩ hstep
  obtain ⟨u, -, hstep⟩ := bind_eq_ok.mp hstep
  dsimp only at hstep
  split_ifs at hstep with hholds
  · cases hstep
    exact ⟨hincluded,hsound⟩
  have hnew := new_of_holds (Bool.eq_false_iff.mpr hholds)
  obtain ⟨next, hnext, hstep⟩ := bind_eq_ok.mp hstep
  cases hstep
  obtain ⟨control, -, hnext⟩ := bind_eq_ok.mp hnext
  cases control with
  | true =>
    obtain ⟨hone, hkeeps⟩ := includeControl_eq_ok hnew hnext
    exact ⟨hincluded.trans hone,fun hs => hkeeps (hsound hs)⟩
  | false =>
    obtain ⟨hone, hkeeps⟩ := includeAsset_eq_ok hnew hnext
    exact ⟨hincluded.trans hone,fun hs => hkeeps (hsound hs)⟩

end
end RisuNest.External.Documents.Capturing
