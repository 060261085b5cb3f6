import RisuNest.External.AssemblyLength

/-! What holds of an assembly over a whole run: whatever is taken in, moved out of line, rolled back
or frozen. -/
namespace RisuNest.External.Documents.Capturing
open Wire (Crates)

/-- The assemblies that a run comes to, those between the steps of an entry included. -/
inductive Reached (cr : Crates) (c : Capture) : Assembly → Prop
  | start {bytes : List UInt8} (h : (start c 0).payload.encodeCapture cr = .ok bytes) :
      Reached cr c (start c bytes.length)
  | taken {st st' : Assembly} {empty : List UInt8} {entry : OutboxEntry} {answers : Answers}
      {fresh : List String} (hst : Reached cr c st)
      (hempty : (Segment.new c.library c.writer c.seq).encodeCapture cr = .ok empty)
      (h : takeIn cr c empty.length st entry answers = .ok (st',fresh)) : Reached cr c st'
  | moved {st : Assembly} (hst : Reached cr c st) : Reached cr c (movePages st).1
  | added {st st' : Assembly} {empty : List UInt8} {reserve : ℕ} {entry : OutboxEntry}
      {answers : Answers} {more : Bool} (hst : Reached cr c st)
      (hempty : (Segment.new c.library c.writer c.seq).encodeCapture cr = .ok empty)
      (h : addEntry cr c empty.length reserve st entry answers = .ok (st',more)) : Reached cr c st'

section
variable {cr : Crates} {c : Capture} {st st' : Assembly}

/-! ### Pages out of line -/

lemma movePages_controls (st : Assembly) (k : String) :
    (movePages st).1.controls.get k = (st.payload.messagePages.get k).or (st.controls.get k) :=
  SortedMap.get_insertAll _ _ k

lemma Sound.movePages (hs : Sound st) : Sound (movePages st).1 where
  apart k hk := absurd (SortedMap.get_empty k) hk
  frozen k hk := by
    rw [movePages_controls]
    have hcontrol := hs.frozen k hk
    cases hpage : st.payload.messagePages.get k with
    | none => simpa using hcontrol
    | some page => simp
  placed := hs.placed
  reused := hs.reused

lemma Measured.movePages (h : Measured c st) : Measured c (movePages st).1 where
  schema := h.schema
  library := h.library
  writer := h.writer
  seq := h.seq
  fixed := h.fixed
  pages := by
    change 0 = pagesLength .empty
    rfl
  small := h.small
  placeholders := h.placeholders

lemma moveTo_movePages (hs : Sound st) : SortedMap.moveTo (movePages st).2
    ((movePages st).1.controls,(movePages st).1.payload.messagePages) =
      (st.controls,st.payload.messagePages) := by
  have hmoved : ∀ k, k ∈ (movePages st).2 ↔ st.payload.messagePages.get k ≠ none := by
    intro k
    rw [Ne, SortedMap.get_eq_none, not_not]
    rfl
  apply Prod.ext
  · apply SortedMap.ext_get
    intro k
    rw [(SortedMap.get_moveTo _ _ k).1]
    split_ifs with hk
    · exact (hs.apart k ((hmoved k).mp hk)).symm
    · rw [hmoved, not_not] at hk
      rw [movePages_controls, hk, Option.none_or]
  · apply SortedMap.ext_get
    intro k
    rw [(SortedMap.get_moveTo _ _ k).2]
    split_ifs with hk
    · have hcontrol := hs.apart k ((hmoved k).mp hk)
      change ((movePages st).1.controls.get k).or none = _
      rw [movePages_controls, hcontrol, Option.or_none, Option.or_none]
    · rw [hmoved, not_not] at hk
      exact hk.symm

lemma settle_eq_ok {reserve : ℕ} {moved : List String} {fits : Bool}
    (h : settle reserve st = .ok (st',moved,fits)) :
    (st' = st ∧ moved = [] ∨ st' = (movePages st).1 ∧ moved = (movePages st).2) ∧
      st'.admitted reserve = .ok fits := by
  unfold settle at h
  by_cases hlong : smallBodyBytes < st.length.pageBytes
  · rw [if_pos hlong] at h
    obtain ⟨first, hfirst, h⟩ := bind_eq_ok.mp h
    rw [if_neg fun hmore => hmore.2 rfl] at h
    cases h
    exact ⟨.inr ⟨rfl,rfl⟩,hfirst⟩
  · rw [if_neg hlong] at h
    obtain ⟨first, hfirst, h⟩ := bind_eq_ok.mp h
    split_ifs at h with hmore
    · obtain ⟨second, hsecond, h⟩ := bind_eq_ok.mp h
      cases h
      exact ⟨.inr ⟨rfl,rfl⟩,hsecond⟩
    · cases h
      exact ⟨.inl ⟨rfl,rfl⟩,hfirst⟩

/-! ### An entry that is rolled back -/

lemma takeIn_eq_ok {empty : ℕ} {entry : OutboxEntry} {answers : Answers} {fresh : List String}
    (h : takeIn cr c empty st entry answers = .ok (st',fresh)) :
    ∃ grown length, includeObjects cr answers entry st = .ok (grown,fresh) ∧
      measure cr c empty st.marks grown fresh entry = .ok length ∧
      st' = { grown with
        payload := { grown.payload with changes := grown.payload.changes ++ [entry.change] }
        length := length } := by
  obtain ⟨⟨grown, fresh'⟩, hgrown, h⟩ := bind_eq_ok.mp h
  obtain ⟨length, hlength, h⟩ := bind_eq_ok.mp h
  cases h
  exact ⟨grown,length,hgrown,hlength,rfl⟩

theorem takeIn_keeps {empty : List UInt8} {entry : OutboxEntry} {answers : Answers}
    {fresh : List String} (hs : Sound st) (hm : Measured c st)
    (hempty : (Segment.new c.library c.writer c.seq).encodeCapture cr = .ok empty)
    (h : takeIn cr c empty.length st entry answers = .ok (st',fresh)) :
    Sound st' ∧ Measured c st' := by
  obtain ⟨grown, length, hgrown, hlength, rfl⟩ := takeIn_eq_ok h
  obtain ⟨hincluded, hsound⟩ := includeObjects_eq_ok hgrown
  have hgrownSound := hsound hs
  exact ⟨⟨hgrownSound.apart,hgrownSound.frozen,hgrownSound.placed,hgrownSound.reused⟩,
    measured_of_measure hm hincluded hempty hlength⟩

/-- A roll back, of pages that were moved or not, takes out all that came with the entry. -/
theorem rollBack_eq {empty : ℕ} {entry : OutboxEntry} {answers : Answers} {taken : Assembly}
    {fresh moved : List String} (hs : Sound st)
    (htaken : takeIn cr c empty st entry answers = .ok (taken,fresh))
    (hmoved : st' = taken ∧ moved = [] ∨
      st' = (movePages taken).1 ∧ moved = (movePages taken).2) :
    rollBack st.marks st.length st' fresh moved = { st with
      reusedControls := (rollBack st.marks st.length st' fresh moved).reusedControls } := by
  obtain ⟨grown, length, hgrown, -, htakenEq⟩ := takeIn_eq_ok htaken
  obtain ⟨hincluded, hsound⟩ := includeObjects_eq_ok hgrown
  have htakenSound : Sound taken := by
    rw [htakenEq]
    have hgrownSound := hsound hs
    exact ⟨hgrownSound.apart,hgrownSound.frozen,hgrownSound.placed,hgrownSound.reused⟩
  -- the maps that pages were moved between are those of before the move
  have hback : SortedMap.moveTo moved (st'.controls,st'.payload.messagePages) =
      (grown.controls,grown.payload.messagePages) := by
    rcases hmoved with ⟨rfl, rfl⟩ | ⟨rfl, rfl⟩
    · rw [htakenEq]
      rfl
    · rw [moveTo_movePages htakenSound, htakenEq]
  -- the rest is as it was taken in
  have hrest : st'.payload = { grown.payload with
        changes := grown.payload.changes ++ [entry.change]
        messagePages := st'.payload.messagePages } ∧
      st'.bodies = grown.bodies ∧ st'.assets = grown.assets ∧
      st'.frozenControls = grown.frozenControls ∧ st'.reusedAssets = grown.reusedAssets ∧
      st'.selected = grown.selected := by
    rcases hmoved with ⟨rfl, rfl⟩ | ⟨rfl, rfl⟩
    · rw [htakenEq]
      exact ⟨rfl,rfl,rfl,rfl,rfl,rfl⟩
    · rw [htakenEq]
      exact ⟨rfl,rfl,rfl,rfl,rfl,rfl⟩
  obtain ⟨hpayload, hbodies, hassets, hfrozen, hreused, hselected⟩ := hrest
  obtain ⟨data, hdata⟩ := hincluded.dataCatalogs
  obtain ⟨asset, hasset⟩ := hincluded.assetCatalogs
  obtain ⟨body, hbody⟩ := hincluded.bodies
  have hhead := hincluded.head
  unfold rollBack
  rw [hback, hpayload, hbodies, hassets, hfrozen, hreused, hselected]
  apply Assembly.ext
  · change ({ grown.payload with
        changes := (grown.payload.changes ++ [entry.change]).take st.payload.changes.length
        messagePages := grown.payload.messagePages.eraseAll fresh
        dataCatalogs := grown.payload.dataCatalogs.take st.payload.dataCatalogs.length
        assetCatalogs := grown.payload.assetCatalogs.take st.payload.assetCatalogs.length
        largeBodies := grown.payload.largeBodies.eraseAll fresh } : Segment) = st.payload
    rw [hincluded.messagePages.eraseAll, hincluded.largeBodies.eraseAll, hdata, hasset,
      List.take_left, List.take_left, hhead]
    change ({ st.payload with
        changes := (st.payload.changes ++ [entry.change]).take st.payload.changes.length } :
      Segment) = st.payload
    rw [List.take_left]
  · change grown.bodies.take st.bodies.length = st.bodies
    rw [hbody, List.take_left]
  · exact hincluded.assets.eraseAll
  · exact hincluded.controls.eraseAll
  · exact hincluded.frozenControls
  · rfl
  · exact hincluded.reusedAssets.eraseAll
  · rfl
  · exact hincluded.selected

/-! ### Control objects that are frozen -/

/-- What freezing leaves as it is. -/
structure Frozen (before after : Assembly) : Prop where
  payload : after.payload = before.payload
  assets : after.assets = before.assets
  length : after.length = before.length

lemma Measured.of_frozen (h : Measured c st) (hf : Frozen st st') : Measured c st' where
  schema := by rw [hf.payload, h.schema]
  library := by rw [hf.payload, h.library]
  writer := by rw [hf.payload, h.writer]
  seq := by rw [hf.payload, h.seq]
  fixed := by rw [hf.payload, hf.length, h.fixed]
  pages := by rw [hf.payload, hf.length, h.pages]
  small := by rw [hf.assets, hf.length, h.small]
  placeholders := by rw [hf.payload, hf.length, h.placeholders]

lemma freezeControl_keeps {answers : Answers} {hash : String} (hs : Sound st)
    (h : freezeControl answers st hash = .ok st') : Sound st' ∧ Frozen st st' := by
  unfold freezeControl at h
  split_ifs at h with hfrozen
  · cases h
    exact ⟨hs,rfl,rfl,rfl⟩
  cases hcontrol : st.controls.get hash with
  | none =>
    rw [hcontrol] at h
    cases h
    exact ⟨hs,rfl,rfl,rfl⟩
  | some encoded =>
    rw [hcontrol] at h
    obtain ⟨control, -, h⟩ := bind_eq_ok.mp h
    cases h
    refine ⟨⟨?_,?_,hs.placed,hs.reused⟩,rfl,rfl,rfl⟩
    · intro k hk
      change (st.controls.insert hash "").get k = none
      have hnone := hs.apart k hk
      rw [SortedMap.get_insert, if_neg, hnone]
      intro heq
      rw [heq, hcontrol] at hnone
      cases hnone
    · intro k hk
      change (st.frozenControls.insert hash control).get k ≠ none at hk
      change (st.controls.insert hash "").get k ≠ none
      rw [SortedMap.get_insert] at hk ⊢
      split_ifs at hk ⊢ with heq
      · simp
      · exact hs.frozen k hk

lemma freezeControls_keep {answers : Answers} {hashes : List String} (hs : Sound st)
    (h : hashes.foldlM (freezeControl answers) st = .ok st') : Sound st' ∧ Frozen st st' := by
  refine foldlM_induct (I := fun _ t => Sound t ∧ Frozen st t) ?_ ⟨hs,rfl,rfl,rfl⟩ h
  intro done t hash t' ht hstep
  obtain ⟨hsound, hfrozen⟩ := freezeControl_keeps ht.1 hstep
  refine ⟨hsound,?_,?_,?_⟩
  · rw [hfrozen.payload, ht.2.payload]
  · rw [hfrozen.assets, ht.2.assets]
  · rw [hfrozen.length, ht.2.length]

/-! ### Whole runs -/

lemma grow_eq_ok {empty reserve : ℕ} {entry : OutboxEntry} {answers : Answers} {g : Grown}
    (h : grow cr c empty reserve st entry answers = .ok g) :
    ∃ taken, takeIn cr c empty st entry answers = .ok (taken,g.fresh) ∧
      (g.assembly = taken ∧ g.moved = [] ∨
        g.assembly = (movePages taken).1 ∧ g.moved = (movePages taken).2) := by
  obtain ⟨⟨taken, fresh⟩, htaken, h⟩ := bind_eq_ok.mp h
  obtain ⟨⟨settled, moved, fits⟩, hsettled, h⟩ := bind_eq_ok.mp h
  cases h
  exact ⟨taken,htaken,(settle_eq_ok hsettled).1⟩

lemma Sound.with_reused (hs : Sound st) (reused : TextMap FrozenControlCatalog) :
    Sound { st with reusedControls := reused } := ⟨hs.apart,hs.frozen,hs.placed,hs.reused⟩

lemma Measured.with_reused (h : Measured c st) (reused : TextMap FrozenControlCatalog) :
    Measured c { st with reusedControls := reused } := h.of_frozen ⟨rfl,rfl,rfl⟩

/-- One round of the loop keeps what is counted. -/
theorem addEntry_keeps {empty : List UInt8} {reserve : ℕ} {entry : OutboxEntry} {answers : Answers}
    {more : Bool} (hs : Sound st) (hm : Measured c st)
    (hempty : (Segment.new c.library c.writer c.seq).encodeCapture cr = .ok empty)
    (h : addEntry cr c empty.length reserve st entry answers = .ok (st',more)) :
    Sound st' ∧ Measured c st' := by
  unfold addEntry at h
  split_ifs at h with hkey
  · cases h
    exact ⟨⟨hs.apart,hs.frozen,hs.placed,hs.reused⟩,hm.of_frozen ⟨rfl,rfl,rfl⟩⟩
  obtain ⟨g, hg, h⟩ := bind_eq_ok.mp h
  obtain ⟨taken, htaken, hmoved⟩ := grow_eq_ok hg
  split_ifs at h with hfits
  · obtain ⟨frozen, hfrozen, h⟩ := bind_eq_ok.mp h
    cases h
    obtain ⟨htakenSound, htakenMeasured⟩ := takeIn_keeps hs hm hempty htaken
    have hgrown : Sound g.assembly ∧ Measured c g.assembly := by
      rcases hmoved with ⟨heq, -⟩ | ⟨heq, -⟩
      · rw [heq]
        exact ⟨htakenSound,htakenMeasured⟩
      · rw [heq]
        exact ⟨htakenSound.movePages,htakenMeasured.movePages⟩
    obtain ⟨hsound, hkept⟩ := freezeControls_keep hgrown.1 hfrozen
    exact ⟨⟨hsound.apart,hsound.frozen,hsound.placed,hsound.reused⟩,
      hgrown.2.of_frozen ⟨hkept.payload,hkept.assets,hkept.length⟩⟩
  · obtain ⟨u, -, h⟩ := bind_eq_ok.mp h
    cases h
    rw [rollBack_eq hs htaken hmoved]
    exact ⟨hs.with_reused _,hm.with_reused _⟩

lemma start_sound (fixed : ℕ) : Sound (start c fixed) where
  apart k hk := absurd (SortedMap.get_empty k) hk
  frozen k hk := absurd (SortedMap.get_empty k) hk
  placed k b hb := by
    change (SortedMap.empty : TextMap LargeBody).get k = some b at hb
    rw [SortedMap.get_empty] at hb
    cases hb
  reused k p hp := by
    change (SortedMap.empty : TextMap FrozenAssetReference).get k = some p at hp
    rw [SortedMap.get_empty] at hp
    cases hp

lemma start_measured {bytes : List UInt8}
    (h : (start c 0).payload.encodeCapture cr = .ok bytes) : Measured c (start c bytes.length) where
  schema := rfl
  library := rfl
  writer := rfl
  seq := rfl
  fixed := by
    have hlength := length_encodeCapture h
    change bytes.length = c.frame + changesLength [c.levelChange] + 0 + 0 + 0 at hlength
    exact hlength
  pages := rfl
  small := by
    constructor
    · intro hpos
      exact absurd hpos (lt_irrefl 0)
    · rintro ⟨k, a, hk, -⟩
      change (SortedMap.empty : TextMap FrozenAsset).get k = some a at hk
      rw [SortedMap.get_empty] at hk
      cases hk
  placeholders := rfl

theorem Reached.keeps (h : Reached cr c st) : Sound st ∧ Measured c st := by
  induction h with
  | start h => exact ⟨start_sound _,start_measured h⟩
  | taken _ hempty h ih => exact takeIn_keeps ih.1 ih.2 hempty h
  | moved _ ih => exact ⟨ih.1.movePages,ih.2.movePages⟩
  | added _ hempty h ih => exact addEntry_keeps ih.1 ih.2 hempty h

end
end RisuNest.External.Documents.Capturing
