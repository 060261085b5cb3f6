import RisuNest.External.Catalog
import Mathlib.Data.List.ReduceOption

/-! What a catalog shows is what the changes merged into it determine. -/
namespace RisuNest.External
open Wire Retirement

/-- The order in which versions of one key win: for the format unit its level comes first. -/
def rank (cr : Crates) (c : UnitChange) : ℕ ×ₗ Stamp :=
  toLex (if LibraryFormat.isKey c.key then levelOrder (LibraryFormat.level cr c.value) else 0,
    c.stamp)

/-- Published units as a versioned map whose retirements are permanent. -/
def scheme (cr : Crates) : Scheme UnitKey UnitChange (ℕ ×ₗ Stamp) where
  key := UnitChange.key
  stamp := rank cr
  retires := fun c => isRetirement c = true
  parent := IsParent

/-- Two versions of one key with one stamp and one identity are one change. -/
def Separated (cr : Crates) (H : Set UnitChange) : Prop :=
  ∀ c ∈ H, ∀ d ∈ H, c.key = d.key → c.stamp = d.stamp →
    (∃ i, c.value.identity cr = .ok i ∧ d.value.identity cr = .ok i) → c = d

lemma Separated.mono {cr : Crates} {H K : Set UnitChange} (h : Separated cr K) (hs : H ⊆ K) :
    Separated cr H := fun c hc d hd => h c (hs hc) d (hs hd)

/-- No key and stamp carry two values. -/
def ConflictFree (H : Set UnitChange) : Prop :=
  ∀ c ∈ H, ∀ d ∈ H, c.key = d.key → c.stamp = d.stamp → c.value = d.value

lemma ConflictFree.mono {H K : Set UnitChange} (h : ConflictFree K) (hs : H ⊆ K) :
    ConflictFree H := fun c hc d hd => h c (hs hc) d (hs hd)

lemma ConflictFree.eq {H : Set UnitChange} (h : ConflictFree H) {c d : UnitChange} (hc : c ∈ H)
    (hd : d ∈ H) (hk : c.key = d.key) (hs : c.stamp = d.stamp) : c = d := by
  have hv := h c hc d hd hk hs
  cases c
  cases d
  simp_all

lemma ConflictFree.separated {H : Set UnitChange} (cr : Crates) (h : ConflictFree H) :
    Separated cr H := fun _ hc _ hd hk hs _ => h.eq hc hd hk hs

lemma separated_of_collisionFree {cr : Crates} {texts : Set (List UInt8)} {H : Set UnitChange}
    (free : CollisionFree cr texts) (hx : ∀ c ∈ H, c.value.toControl.encode ∈ texts) :
    Separated cr H := by
  rintro c hc d hd hk hs ⟨i, hi, hj⟩
  have hv := UnitValue.eq_of_identity free (hx c hc) (hx d hd) hi hj
  cases c
  cases d
  simp_all

section
variable {cr : Crates} {H : Set UnitChange} {cat cat' : PublishedCatalog} {c p w : UnitChange}

lemma rank_lt_of_stamp {c d : UnitChange} (hk : c.key = d.key)
    (hf : LibraryFormat.isKey d.key = false) : rank cr c < rank cr d ↔ c.stamp < d.stamp := by
  simp [rank, hk, hf, Prod.Lex.toLex_lt_toLex]

lemma mergeSegment_eq_ok (hk : p.key = c.key) (h : mergeSegment cr (some p) c = .ok w) :
    (w = c ∧ rank cr p < rank cr c) ∨
      (w = p ∧ (rank cr c < rank cr p ∨ c.stamp = p.stamp ∧
        ∃ i, c.value.identity cr = .ok i ∧ p.value.identity cr = .ok i)) := by
  obtain ⟨decision, hd, h⟩ := bind_eq_ok.mp h
  have hcases := compareVersion_eq_ok (orCorrupt_eq_ok.mp hd)
  clear hd
  cases hf : LibraryFormat.isKey c.key with
  | false =>
    simp only [hf, Bool.false_eq_true, if_false] at h
    rcases hcases with ⟨rfl, hlt⟩ | ⟨rfl, hlt⟩ | ⟨rfl, heq, i, hi, hj⟩
    · cases h
      exact .inl ⟨rfl,(rank_lt_of_stamp hk hf).mpr hlt⟩
    · cases h
      exact .inr ⟨rfl,.inl ((rank_lt_of_stamp hk.symm (hk ▸ hf)).mpr hlt)⟩
    · cases h
      exact .inr ⟨rfl,.inr ⟨heq,i,hj,hi⟩⟩
  | true =>
    have hfp : LibraryFormat.isKey p.key = true := hk ▸ hf
    simp only [hf, if_true] at h
    -- the level decides, and the stamps only between versions of one level
    cases hl : compare (levelOrder (LibraryFormat.level cr c.value))
        (levelOrder (LibraryFormat.level cr p.value)) with
    | lt =>
      rw [hl] at h
      cases h
      have hlt := compare_lt_iff_lt.mp hl
      exact .inr ⟨rfl,.inl (by simp [rank, hf, hfp, Prod.Lex.toLex_lt_toLex, hlt])⟩
    | gt =>
      rw [hl] at h
      cases h
      have hlt := compare_gt_iff_gt.mp hl
      exact .inl ⟨rfl,by simp [rank, hf, hfp, Prod.Lex.toLex_lt_toLex, hlt]⟩
    | eq =>
      rw [hl] at h
      have he := compare_eq_iff_eq.mp hl
      rcases hcases with ⟨rfl, hlt⟩ | ⟨rfl, hlt⟩ | ⟨rfl, heq, i, hi, hj⟩
      · cases h
        exact .inl ⟨rfl,by simp [rank, hf, hfp, Prod.Lex.toLex_lt_toLex, he, hlt]⟩
      · cases h
        exact .inr ⟨rfl,.inl (by simp [rank, hf, hfp, Prod.Lex.toLex_lt_toLex, he, hlt])⟩
      · cases h
        exact .inr ⟨rfl,.inr ⟨heq,i,hj,hi⟩⟩

lemma keeps_upsert {t : Table UnitKey UnitChange} (h : (scheme cr).Keeps H t.get)
    (sep : Separated cr (insert c H)) (hm : mergeSegment cr (t.get c.key) c = .ok w) :
    (scheme cr).Keeps (insert c H) (t.upsert c.key w).get := by
  have hw : (t.upsert c.key w).get ((scheme cr).key c) = some w := by simp [scheme]
  have hk : ∀ k, k ≠ (scheme cr).key c → (t.upsert c.key w).get k = t.get k := by
    intro k hk
    simp only [Table.get_upsert, ite_eq_right_iff]
    exact fun he => absurd he hk
  cases hp : t.get c.key with
  | none =>
    rw [hp] at hm
    cases hm
    refine h.insert hw hk (.inl rfl) (.inr rfl) ?_
    intro d hd
    change t.get c.key = some d at hd
    rw [hp] at hd
    cases hd
  | some p =>
    rw [hp] at hm
    have np := h.1 c.key p hp
    rcases mergeSegment_eq_ok np.2.1 hm with ⟨rfl, hlt⟩ | ⟨rfl, hold⟩
    · refine h.insert hw hk (.inl rfl) (.inr rfl) ?_
      intro d hd
      change t.get w.key = some d at hd
      rw [hp] at hd
      cases hd
      exact .inl hlt
    · refine h.insert hw hk (.inr hp) ?_ ?_
      · rcases hold with hlt | ⟨hs, hi⟩
        · exact .inl hlt
        · exact .inr (sep c (.inl rfl) w (.inr np.1) np.2.1.symm hs hi)
      · intro d hd
        change t.get c.key = some d at hd
        rw [hp] at hd
        cases hd
        exact .inr rfl

/-- A change passes the checks of its stamp and its value. -/
def Valid (cr : Crates) (c : UnitChange) : Prop :=
  c.stamp.validate = .ok () ∧ ∃ i, c.value.identity cr = .ok i

/-- The tables of a catalog hold the winners of the changes merged into it, and the versions
checked against are theirs. -/
structure Catalogued (cr : Crates) (H : Set UnitChange) (cat : PublishedCatalog) : Prop where
  units : (scheme cr).Keeps H cat.units.get
  retirements : (scheme cr).Keeps {c ∈ H | isRetirement c = true} cat.retirements.get
  valid : ∀ c ∈ H, Valid cr c
  recorded : ∀ k s i, cat.versions.get (k,s) = some i →
    ∃ c ∈ H, c.key = k ∧ c.stamp = s ∧ c.value.identity cr = .ok i

theorem Catalogued.create (cr : Crates) : Catalogued cr ∅ .create := by
  refine ⟨.empty,?_,fun _ h => (by cases h),fun _ _ _ h => (by cases h)⟩
  rw [show {c ∈ (∅ : Set UnitChange) | isRetirement c = true} = ∅ by ext; simp]
  exact .empty

/-- What a merge leaves of the catalog. -/
structure Merged (cr : Crates) (cat : PublishedCatalog) (c : UnitChange)
    (cat' : PublishedCatalog) : Prop where
  valid : Valid cr c
  unit : ∃ winner, mergeSegment cr (cat.units.get c.key) c = .ok winner ∧
    cat'.units = cat.units.upsert c.key winner
  retirements : PublishedCatalog.mergeRetirement cr cat.retirements c = .ok cat'.retirements
  versions : ∃ i, c.value.identity cr = .ok i ∧
    cat'.versions = cat.versions.insertOrIgnore (c.key,c.stamp) i
  coverage : cat'.coverage = cat.coverage
  visited : cat'.visited = cat.visited + 1

lemma merge_eq_ok (h : cat.merge cr c = .ok cat') : Merged cr cat c cat' := by
  unfold PublishedCatalog.merge at h
  obtain ⟨_, -, h⟩ := bind_eq_ok.mp h
  obtain ⟨_, hs, h⟩ := bind_eq_ok.mp h
  obtain ⟨i, hi, h⟩ := bind_eq_ok.mp h
  obtain ⟨checked, hc, h⟩ := bind_eq_ok.mp h
  obtain ⟨winner, hw, h⟩ := bind_eq_ok.mp h
  obtain ⟨retirements, hr, h⟩ := bind_eq_ok.mp h
  obtain ⟨_, -, hc⟩ := bind_eq_ok.mp hc
  cases hc
  cases h
  have hi := orCorrupt_eq_ok.mp hi
  exact ⟨⟨orCorrupt_eq_ok.mp hs,i,hi⟩,⟨winner,hw,rfl⟩,hr,⟨i,hi,rfl⟩,rfl,rfl⟩

lemma keeps_mergeRetirement {t t' : Table UnitKey UnitChange}
    (h : (scheme cr).Keeps {d ∈ H | isRetirement d = true} t.get)
    (sep : Separated cr (insert c H)) (hm : PublishedCatalog.mergeRetirement cr t c = .ok t') :
    (scheme cr).Keeps {d ∈ insert c H | isRetirement d = true} t'.get := by
  unfold PublishedCatalog.mergeRetirement at hm
  split_ifs at hm with hret
  · obtain ⟨deletion, hd, hm⟩ := bind_eq_ok.mp hm
    rw [← Except.ok.inj hm]
    have hset : {d ∈ insert c H | isRetirement d = true} =
        insert c {d ∈ H | isRetirement d = true} := by
      ext d
      simp only [Set.mem_insert_iff, Set.mem_ofPred_eq]
      constructor
      · rintro ⟨rfl | hd, hdr⟩
        · exact .inl rfl
        · exact .inr ⟨hd,hdr⟩
      · rintro (rfl | ⟨hd, hdr⟩)
        · exact ⟨.inl rfl,hret⟩
        · exact ⟨.inr hd,hdr⟩
    rw [hset]
    exact keeps_upsert h (sep.mono (Set.insert_subset_insert fun d hd => hd.1)) hd
  · rw [← Except.ok.inj hm]
    have hset : {d ∈ insert c H | isRetirement d = true} =
        {d ∈ H | isRetirement d = true} := by
      ext d
      simp only [Set.mem_insert_iff, Set.mem_ofPred_eq]
      constructor
      · rintro ⟨rfl | hd, hdr⟩
        · exact absurd hdr hret
        · exact ⟨hd,hdr⟩
      · exact fun hd => ⟨.inr hd.1,hd.2⟩
    rw [hset]
    exact h

theorem Catalogued.merge (h : Catalogued cr H cat) (sep : Separated cr (insert c H))
    (hm : cat.merge cr c = .ok cat') : Catalogued cr (insert c H) cat' := by
  have hm := merge_eq_ok hm
  obtain ⟨winner, hw, hu⟩ := hm.unit
  refine ⟨?_,keeps_mergeRetirement h.retirements sep hm.retirements,?_,?_⟩
  · rw [hu]
    exact keeps_upsert h.units sep hw
  · rintro d (rfl | hd)
    · exact hm.valid
    · exact h.valid d hd
  · obtain ⟨i, hi, hv⟩ := hm.versions
    intro k s j hj
    rw [hv, Table.get_insertOrIgnore] at hj
    split_ifs at hj with he
    · cases ho : cat.versions.get (c.key,c.stamp) with
      | none =>
        rw [ho] at hj
        cases hj
        exact ⟨c,.inl rfl,(Prod.mk.inj he).1.symm,(Prod.mk.inj he).2.symm,hi⟩
      | some o =>
        rw [ho] at hj
        cases hj
        obtain ⟨d, hd, hdk⟩ := h.recorded _ _ _ (he ▸ ho)
        exact ⟨d,.inr hd,hdk⟩
    · obtain ⟨d, hd, hdk⟩ := h.recorded _ _ _ hj
      exact ⟨d,.inr hd,hdk⟩

lemma insert_union_cons (H : Set UnitChange) (c : UnitChange) (cs : List UnitChange) :
    H ∪ {d | d ∈ c :: cs} = insert c H ∪ {d | d ∈ cs} := by
  ext d
  simp only [Set.mem_union, Set.mem_insert_iff, Set.mem_ofPred_eq, List.mem_cons]
  tauto

theorem Catalogued.mergeAll {cs : List UnitChange} (h : Catalogued cr H cat)
    (sep : Separated cr (H ∪ {c | c ∈ cs})) (hm : cat.mergeAll cr cs = .ok cat') :
    Catalogued cr (H ∪ {c | c ∈ cs}) cat' := by
  induction cs generalizing H cat with
  | nil =>
    rw [PublishedCatalog.mergeAll, List.foldlM_nil] at hm
    cases hm
    simpa using h
  | cons c cs ih =>
    obtain ⟨m, hc, hm⟩ := foldlM_cons_eq_ok.mp hm
    rw [insert_union_cons] at sep ⊢
    exact ih (h.merge (sep.mono Set.subset_union_left) hc) sep hm

lemma mergeAll_coverage {cs : List UnitChange} (hm : cat.mergeAll cr cs = .ok cat') :
    cat'.coverage = cat.coverage ∧ cat'.visited = cat.visited + cs.length := by
  induction cs generalizing cat with
  | nil =>
    rw [PublishedCatalog.mergeAll, List.foldlM_nil] at hm
    cases hm
    exact ⟨rfl,rfl⟩
  | cons c cs ih =>
    obtain ⟨m, hc, hm⟩ := foldlM_cons_eq_ok.mp hm
    have hstep := merge_eq_ok hc
    obtain ⟨hcov, hvis⟩ := ih hm
    refine ⟨hcov.trans hstep.coverage,?_⟩
    rw [hvis, hstep.visited, List.length_cons]
    omega

/-! ### Merging goes through -/

lemma exists_mergeSegment (free : ConflictFree (insert c H)) (hv : ∀ d ∈ insert c H, Valid cr d)
    {t : Table UnitKey UnitChange} (h : (scheme cr).Keeps H t.get) :
    ∃ winner, mergeSegment cr (t.get c.key) c = .ok winner := by
  cases hp : t.get c.key with
  | none => exact ⟨c,rfl⟩
  | some p =>
    have np := h.1 _ _ hp
    obtain ⟨hsp, i, hi⟩ := hv p (.inr np.1)
    obtain ⟨hsc, j, hj⟩ := hv c (.inl rfl)
    have hd : ∃ d, compareVersion cr p.stamp p.value c.stamp c.value = .ok d := by
      unfold compareVersion
      rw [hsp, hsc, hi, hj]
      simp only [bind, Except.bind]
      cases hcmp : compare c.stamp p.stamp with
      | lt => exact ⟨_,rfl⟩
      | gt => exact ⟨_,rfl⟩
      | eq =>
        have he : p.value = c.value := free p (.inr np.1) c (.inl rfl) np.2.1
          (compare_eq_iff_eq.mp hcmp).symm
        rw [he, hj] at hi
        cases hi
        exact ⟨.identical,by simp [pure, Except.pure]⟩
    obtain ⟨d, hd⟩ := hd
    exact ⟨_,bind_eq_ok.mpr ⟨d,orCorrupt_eq_ok.mpr hd,rfl⟩⟩

theorem Catalogued.exists_merge (h : Catalogued cr H cat) (free : ConflictFree (insert c H))
    (hc : Valid cr c) (hvis : cat.visited + 1 < 2^64) : ∃ cat', cat.merge cr c = .ok cat' := by
  have hv : ∀ d ∈ insert c H, Valid cr d := by
    rintro d (rfl | hd)
    · exact hc
    · exact h.valid d hd
  obtain ⟨hs, i, hi⟩ := hc
  obtain ⟨winner, hw⟩ := exists_mergeSegment free hv h.units
  have hr : ∃ t, PublishedCatalog.mergeRetirement cr cat.retirements c = .ok t := by
    unfold PublishedCatalog.mergeRetirement
    split_ifs
    · have hsub : insert c {d ∈ H | isRetirement d = true} ⊆ insert c H :=
        Set.insert_subset_insert fun d hd => hd.1
      obtain ⟨deletion, hd⟩ := exists_mergeSegment (free.mono hsub)
        (fun d hd => hv d (hsub hd)) h.retirements
      exact ⟨_,bind_eq_ok.mpr ⟨deletion,hd,rfl⟩⟩
    · exact ⟨_,rfl⟩
  obtain ⟨retirements, hr⟩ := hr
  have hold : ((cat.versions.get (c.key,c.stamp)).all fun old => decide (old = i)) = true := by
    cases ho : cat.versions.get (c.key,c.stamp) with
    | none => rfl
    | some j =>
      obtain ⟨d, hd, hk, hst, hj⟩ := h.recorded _ _ _ ho
      rw [free d (.inr hd) c (.inl rfl) hk hst, hi] at hj
      cases hj
      simp
  refine ⟨_,bind_eq_ok.mpr ⟨(),require_eq_ok.mpr hvis,bind_eq_ok.mpr
    ⟨(),orCorrupt_eq_ok.mpr hs,bind_eq_ok.mpr ⟨i,orCorrupt_eq_ok.mpr hi,bind_eq_ok.mpr
      ⟨_,bind_eq_ok.mpr ⟨(),require_eq_ok.mpr hold,rfl⟩,bind_eq_ok.mpr ⟨winner,hw,bind_eq_ok.mpr
        ⟨retirements,hr,rfl⟩⟩⟩⟩⟩⟩⟩

theorem Catalogued.exists_mergeAll {cs : List UnitChange} (h : Catalogued cr H cat)
    (free : ConflictFree (H ∪ {c | c ∈ cs})) (hc : ∀ c ∈ cs, Valid cr c)
    (hvis : cat.visited + cs.length < 2^64) : ∃ cat', cat.mergeAll cr cs = .ok cat' := by
  induction cs generalizing H cat with
  | nil => exact ⟨cat,rfl⟩
  | cons c cs ih =>
    rw [insert_union_cons] at free
    rw [List.length_cons] at hvis
    have hfree := free.mono Set.subset_union_left
    obtain ⟨m, hm⟩ := h.exists_merge hfree (hc c List.mem_cons_self) (by omega)
    obtain ⟨cat', hcat⟩ := ih (h.merge (hfree.separated cr) hm) free
      (fun d hd => hc d (List.mem_cons_of_mem _ hd))
      (by rw [(merge_eq_ok hm).visited]; omega)
    exact ⟨cat',foldlM_cons_eq_ok.mpr ⟨m,hm,hcat⟩⟩

/-! ### What is visited -/

/-- What a visitor of the catalog is given for a key. -/
def PublishedCatalog.shown (cat : PublishedCatalog) (k : UnitKey) : Option UnitChange :=
  match cat.retirements.get k with
  | some c => some c
  | none => if cat.retirements.any fun p _ => decide (p.components ∈ parentComponents k.components)
    then none else cat.units.get k

lemma sees_shown (cr : Crates) (cat : PublishedCatalog) :
    (scheme cr).Sees cat.units.get cat.retirements.get cat.shown := by
  have hany : ∀ k, (cat.retirements.any fun p _ =>
      decide (p.components ∈ parentComponents k.components)) = true ↔
        ∃ p, IsParent p k ∧ cat.retirements.get p ≠ none := by
    intro k
    rw [Table.any_eq_true]
    constructor
    · rintro ⟨p, v, hv, hp⟩
      exact ⟨p,by simpa [IsParent] using hp,by simp [hv]⟩
    · rintro ⟨p, hp, hv⟩
      obtain ⟨v, hv⟩ := Option.ne_none_iff_exists'.mp hv
      exact ⟨p,v,hv,by simpa [IsParent] using hp⟩
  refine ⟨?_,?_,?_⟩
  · intro k c hc
    rw [PublishedCatalog.shown, hc]
  · intro k hk hp
    rw [PublishedCatalog.shown, hk]
    exact if_pos ((hany k).mpr hp)
  · intro k hk hp
    rw [PublishedCatalog.shown, hk]
    refine if_neg fun h => ?_
    obtain ⟨p, hq, hne⟩ := (hany k).mp h
    exact hne (hp p hq)

theorem Catalogued.resolves (h : Catalogued cr H cat) : (scheme cr).Resolves H cat.shown :=
  h.units.resolves h.retirements (sees_shown cr cat)

theorem mem_parents {k q : UnitKey} {ps : List UnitKey} (h : parents k = .ok ps) :
    q ∈ ps ↔ IsParent q k := by
  rw [parents, orCorrupt_eq_ok] at h
  rw [IsParent, ← UnitKey.map_components_of_mapM_new h, List.mem_map]
  exact ⟨fun hp => ⟨q,hp,rfl⟩,fun ⟨r,hr,e⟩ => UnitKey.ext e ▸ hr⟩

lemma visitRow_eq_ok {k : UnitKey} {u : UnitChange} {o : Option UnitChange}
    (hu : cat.units.get k = some u) (h : cat.visitRow (k,u) = .ok o) :
    o = cat.shown k ∧ ∀ c, o = some c → c.key = k := by
  unfold PublishedCatalog.visitRow at h
  obtain ⟨_, hkey, h⟩ := bind_eq_ok.mp h
  have hkey := require_eq_ok.mp hkey
  cases hr : cat.retirements.get k with
  | some c =>
    rw [hr, Option.getD_some] at hkey
    simp only [Table.contains, hr, Option.isSome_some, if_true, Option.getD_some] at h
    cases h
    refine ⟨by rw [PublishedCatalog.shown, hr],?_⟩
    intro d hd
    cases hd
    exact hkey
  | none =>
    rw [hr, Option.getD_none] at hkey
    simp only [Table.contains, hr, Option.isSome_none, Bool.false_eq_true, if_false,
      Option.getD_none] at h
    obtain ⟨ps, hps, h⟩ := bind_eq_ok.mp h
    have hiff : (ps.any fun p => (cat.retirements.get p).isSome) = true ↔
        (cat.retirements.any fun p _ =>
          decide (p.components ∈ parentComponents k.components)) = true := by
      rw [List.any_eq_true, Table.any_eq_true]
      rw [hkey] at hps
      constructor
      · rintro ⟨p, hp, hs⟩
        obtain ⟨v, hv⟩ := Option.isSome_iff_exists.mp hs
        have hq := (mem_parents hps).mp hp
        exact ⟨p,v,hv,by simpa [IsParent] using hq⟩
      · rintro ⟨p, v, hv, hp⟩
        have hq : IsParent p k := by simpa [IsParent] using hp
        exact ⟨p,(mem_parents hps).mpr hq,by simp [hv]⟩
    cases h
    rw [PublishedCatalog.shown, hr, hu]
    dsimp only
    split_ifs with h1 h2 h2
    · exact ⟨rfl,fun _ he => (by cases he)⟩
    · exact absurd (hiff.mp h1) h2
    · exact absurd (hiff.mpr h2) h1
    · exact ⟨rfl,fun d hd => (by cases hd; exact hkey)⟩

lemma Catalogued.unit_of_retired (h : Catalogued cr H cat) {k : UnitKey}
    (hr : cat.retirements.get k = some c) : cat.units.get k ≠ none := by
  intro hn
  have nc := h.retirements.1 k c hr
  exact h.units.2 k hn c nc.1.1 nc.2.1

/-- The changes visited are those shown, in the order of their keys. -/
theorem Catalogued.changes (h : Catalogued cr H cat) {l : List UnitChange}
    (hl : cat.changes = .ok l) :
    (∀ c, c ∈ l ↔ cat.shown c.key = some c) ∧
      l.Pairwise fun a b => a.key.asStr < b.key.asStr := by
  unfold PublishedCatalog.changes at hl
  obtain ⟨visited, hv, hl⟩ := bind_eq_ok.mp hl
  cases hl
  rw [mapM_eq_ok] at hv
  have hperm : (PublishedCatalog.byKey cat.units.rows).Perm cat.units.rows :=
    List.perm_insertionSort ..
  have hrows : ∀ r ∈ PublishedCatalog.byKey cat.units.rows, cat.units.get r.1 = some r.2 :=
    fun r hr => Table.get_eq_some.mpr (hperm.mem_iff.mp hr)
  constructor
  · intro c
    rw [List.reduceOption_mem_iff]
    constructor
    · intro hc
      obtain ⟨i, hi, he⟩ := List.getElem_of_mem hc
      have hi' : i < (PublishedCatalog.byKey cat.units.rows).length := hv.length_eq ▸ hi
      have hrow := hv.get hi' hi
      have hu := hrows _ (List.getElem_mem hi')
      obtain ⟨ho, hkey⟩ := visitRow_eq_ok hu hrow
      have hs : visited.get ⟨i,hi⟩ = some c := he
      rw [hkey c hs, ← ho, hs]
    · intro hc
      have hne : cat.units.get c.key ≠ none := by
        cases hr : cat.retirements.get c.key with
        | some d => exact h.unit_of_retired hr
        | none =>
          rw [PublishedCatalog.shown, hr] at hc
          dsimp only at hc
          split_ifs at hc
          rw [hc]
          exact Option.some_ne_none _
      obtain ⟨u, hu⟩ := Option.ne_none_iff_exists'.mp hne
      have hm : (c.key,u) ∈ PublishedCatalog.byKey cat.units.rows :=
        hperm.mem_iff.mpr (Table.get_eq_some.mp hu)
      obtain ⟨i, hi, he⟩ := List.getElem_of_mem hm
      have hi' : i < visited.length := hv.length_eq ▸ hi
      have hrow := hv.get hi hi'
      rw [List.get_eq_getElem, he] at hrow
      obtain ⟨ho, -⟩ := visitRow_eq_ok hu hrow
      rw [hc] at ho
      exact ho ▸ List.get_mem visited ⟨i,hi'⟩
  · have hsorted : (PublishedCatalog.byKey cat.units.rows).Pairwise
        fun a b => a.1.asStr < b.1.asStr := by
      have hle : (PublishedCatalog.byKey cat.units.rows).Pairwise
          fun a b => a.1.asStr ≤ b.1.asStr :=
        List.pairwise_insertionSort
          (fun a b : UnitKey × UnitChange => a.1.asStr ≤ b.1.asStr) cat.units.rows
      have hnodup : ((PublishedCatalog.byKey cat.units.rows).map Prod.fst).Nodup :=
        (hperm.map Prod.fst).nodup_iff.mpr cat.units.nodup
      have hne : (PublishedCatalog.byKey cat.units.rows).Pairwise fun a b => a.1 ≠ b.1 :=
        List.pairwise_map.mp hnodup
      refine (hle.and hne).imp ?_
      rintro a b ⟨h1, h2⟩
      exact lt_of_le_of_ne h1 fun he => h2 (UnitKey.asStr_injective he)
    clear hperm hl
    generalize PublishedCatalog.byKey cat.units.rows = rows at hv hrows hsorted
    induction hv with
    | nil => exact .nil
    | @cons r o rows visited hro hrest ih =>
      have htail := ih (fun r hr => hrows r (List.mem_cons_of_mem _ hr)) hsorted.of_cons
      obtain ⟨-, hkey⟩ := visitRow_eq_ok (hrows r (List.mem_cons_self ..)) hro
      cases o with
      | none => exact htail
      | some c =>
        rw [List.reduceOption_cons_of_some, List.pairwise_cons]
        refine ⟨?_,htail⟩
        intro d hd
        rw [List.reduceOption_mem_iff] at hd
        obtain ⟨i, hi, he⟩ := List.getElem_of_mem hd
        have hi' : i < rows.length := hrest.length_eq ▸ hi
        have hu := hrows _ (List.mem_cons_of_mem r (List.getElem_mem hi'))
        obtain ⟨-, hkd⟩ := visitRow_eq_ok hu (hrest.get hi' hi)
        rw [hkey c rfl, hkd d he]
        exact List.rel_of_pairwise_cons hsorted (List.getElem_mem hi')

/-- Every key that is not retired has parents that are keys. -/
def Readable (cr : Crates) (H : Set UnitChange) : Prop :=
  ∀ c ∈ H, (scheme cr).Retired H c.key ∨ ∃ ps, parents c.key = .ok ps

lemma Catalogued.retired_iff (h : Catalogued cr H cat) (k : UnitKey) :
    (scheme cr).Retired H k ↔ cat.retirements.contains k = true := by
  rw [Table.contains_iff]
  constructor
  · rintro ⟨c, hc, hr, hk⟩
    refine Option.ne_none_iff_exists'.mp fun hn => ?_
    exact h.retirements.2 k hn c ⟨hc,hr⟩ hk
  · rintro ⟨c, hc⟩
    have nc := h.retirements.1 k c hc
    exact ⟨c,nc.1.1,nc.1.2,nc.2.1⟩

lemma Catalogued.visitRow_cases (h : Catalogued cr H cat) {k : UnitKey} {u : UnitChange}
    (hu : cat.units.get k = some u) :
    (((scheme cr).Retired H k ∨ ∃ ps, parents k = .ok ps) → ∃ o, cat.visitRow (k,u) = .ok o) ∧
      (¬ ((scheme cr).Retired H k ∨ ∃ ps, parents k = .ok ps) →
        cat.visitRow (k,u) = .error .corrupt) := by
  have hkey : ((cat.retirements.get k).getD u).key = k := by
    cases hr : cat.retirements.get k with
    | none => exact (h.units.1 k u hu).2.1
    | some c => exact (h.retirements.1 k c hr).2.1
  have hrow : cat.visitRow (k,u) = if cat.retirements.contains k
      then pure (some ((cat.retirements.get k).getD u))
      else parents k >>= fun ps => pure (if ps.any fun p => cat.retirements.contains p then none
        else some ((cat.retirements.get k).getD u)) := by
    unfold PublishedCatalog.visitRow
    dsimp only
    rw [require_eq_ok.mpr hkey, hkey]
    rfl
  rw [hrow, h.retired_iff]
  split_ifs with hr
  · exact ⟨fun _ => ⟨_,rfl⟩,fun hn => absurd (.inl hr) hn⟩
  · constructor
    · rintro (hr' | ⟨ps, hps⟩)
      · exact absurd hr' hr
      · exact ⟨_,bind_eq_ok.mpr ⟨ps,hps,rfl⟩⟩
    · intro hn
      cases hps : parents k with
      | ok ps => exact absurd (.inr ⟨ps,hps⟩) hn
      | error e =>
        unfold parents orCorrupt at hps
        cases hm : (parentComponents k.components).mapM UnitKey.new with
        | ok ps => rw [hm] at hps; cases hps
        | error e' =>
          rw [hm] at hps
          cases hps
          rfl

/-- The changes can be visited exactly when every merged key is retired or has keys for parents. -/
theorem Catalogued.changes_cases (h : Catalogued cr H cat) :
    (Readable cr H ∧ ∃ l, cat.changes = .ok l) ∨
      (¬ Readable cr H ∧ cat.changes = .error .corrupt) := by
  have hperm : (PublishedCatalog.byKey cat.units.rows).Perm cat.units.rows :=
    List.perm_insertionSort ..
  have hrows : ∀ r ∈ PublishedCatalog.byKey cat.units.rows, cat.units.get r.1 = some r.2 :=
    fun r hr => Table.get_eq_some.mpr (hperm.mem_iff.mp hr)
  have hread : Readable cr H ↔ ∀ r ∈ PublishedCatalog.byKey cat.units.rows,
      (scheme cr).Retired H r.1 ∨ ∃ ps, parents r.1 = .ok ps := by
    constructor
    · intro hread r hr
      have nu := h.units.1 r.1 r.2 (hrows r hr)
      have hk : r.2.key = r.1 := nu.2.1
      exact hk ▸ hread r.2 nu.1
    · intro hall c hc
      cases hu : cat.units.get c.key with
      | none => exact absurd rfl (h.units.2 c.key hu c hc)
      | some u => exact hall (c.key,u) (hperm.mem_iff.mpr (Table.get_eq_some.mp hu))
  rw [hread]
  unfold PublishedCatalog.changes
  clear hread hperm
  generalize PublishedCatalog.byKey cat.units.rows = rows at hrows
  induction rows with
  | nil => exact .inl ⟨by simp,_,rfl⟩
  | cons r rows ih =>
    have hr := h.visitRow_cases (hrows r List.mem_cons_self)
    rw [List.forall_mem_cons, List.mapM_cons]
    by_cases hp : (scheme cr).Retired H r.1 ∨ ∃ ps, parents r.1 = .ok ps
    · obtain ⟨o, ho⟩ := hr.1 hp
      rw [ho]
      rcases ih fun q hq => hrows q (List.mem_cons_of_mem _ hq) with ⟨hall, l, hl⟩ | ⟨hnot, hl⟩
      · obtain ⟨ys, hys, -⟩ := bind_eq_ok.mp hl
        rw [hys]
        exact .inl ⟨⟨hp,hall⟩,_,rfl⟩
      · refine .inr ⟨fun hn => hnot hn.2,?_⟩
        cases hys : rows.mapM cat.visitRow with
        | ok ys => rw [hys] at hl; cases hl
        | error e =>
          rw [hys] at hl
          cases hl
          rfl
    · rw [hr.2 hp]
      exact .inr ⟨fun hn => hp hn.1,rfl⟩

/-- Catalogs of the same determined map visit the same changes. -/
theorem Catalogued.changes_eq {H' : Set UnitChange} {cat' : PublishedCatalog}
    (h : Catalogued cr H cat) (h' : Catalogued cr H' cat') (hs : cat.shown = cat'.shown)
    (hr : Readable cr H ↔ Readable cr H') : cat.changes = cat'.changes := by
  rcases h.changes_cases with ⟨hread, l, hl⟩ | ⟨hread, hl⟩
  · rcases h'.changes_cases with ⟨-, l', hl'⟩ | ⟨hread', -⟩
    · rw [hl, hl']
      obtain ⟨hm, hsorted⟩ := h.changes hl
      obtain ⟨hm', hsorted'⟩ := h'.changes hl'
      have hirrefl : Std.Irrefl fun a b : UnitChange => a.key.asStr < b.key.asStr :=
        ⟨fun a => lt_irrefl a.key.asStr⟩
      have hantisymm : Std.Antisymm fun a b : UnitChange => a.key.asStr < b.key.asStr :=
        ⟨fun a b h1 h2 => absurd h2 (lt_asymm h1)⟩
      rw [hsorted.eq_of_mem_iff hsorted' fun c => by rw [hm, hm', hs]]
    · exact absurd (hr.mp hread) hread'
  · rcases h'.changes_cases with ⟨hread', -⟩ | ⟨-, hl'⟩
    · exact absurd (hr.mpr hread') hread
    · rw [hl, hl']

/-! ### What a catalog stands for -/

/-- Every change was readable when it was hidden, or its key still has a row. -/
def Accounts (cr : Crates) (H K : Set UnitChange) : Prop :=
  ∀ c ∈ K, (∃ d ∈ H, d.key = c.key) ∨ (scheme cr).Retired K c.key ∨ ∃ ps, parents c.key = .ok ps

/-- A catalog stands for a set of changes: it was merged from some of them and shows what all of
them determine. -/
structure StandsFor (cr : Crates) (K : Set UnitChange) (cat : PublishedCatalog) : Prop where
  merged : ∃ H, Catalogued cr H cat ∧ H ⊆ K ∧ Accounts cr H K
  resolves : (scheme cr).Resolves K cat.shown
  valid : ∀ c ∈ K, Valid cr c

variable {K D : Set UnitChange}

theorem Catalogued.standsFor (h : Catalogued cr H cat) : StandsFor cr H cat :=
  ⟨⟨H,h,subset_rfl,fun c hc => .inl ⟨c,hc,rfl⟩⟩,h.resolves,h.valid⟩

lemma StandsFor.withCoverage (h : StandsFor cr K cat) (coverage : Coverage) :
    StandsFor cr K { cat with coverage := coverage } := by
  obtain ⟨H, hc, hs, ha⟩ := h.merged
  exact ⟨⟨H,⟨hc.units,hc.retirements,hc.valid,hc.recorded⟩,hs,ha⟩,h.resolves,h.valid⟩

lemma StandsFor.readable_iff (h : StandsFor cr K cat) (hc : Catalogued cr H cat) (hs : H ⊆ K)
    (ha : Accounts cr H K) : Readable cr H ↔ Readable cr K := by
  have hret : ∀ k, (scheme cr).Retired H k ↔ (scheme cr).Retired K k := by
    intro k
    rw [hc.resolves.retired_iff, h.resolves.retired_iff]
  constructor
  · intro hr c hm
    rcases ha c hm with ⟨d, hd, hk⟩ | hrp
    · have := hr d hd
      rwa [hk, hret] at this
    · exact hrp
  · intro hr c hm
    rw [hret]
    exact hr c (hs hm)

lemma StandsFor.merge {cs : List UnitChange} (sep : Separated cr (K ∪ D))
    (h : StandsFor cr K cat) (hm : cat.mergeAll cr cs = .ok cat') (hcs : ∀ c ∈ cs, c ∈ D)
    (hfrom : ∀ v, (scheme cr).Resolves (K ∪ {c | c ∈ cs}) v → (scheme cr).Resolves (K ∪ D) v)
    (ha : Accounts cr {c | c ∈ cs} D) (hv : ∀ c ∈ D, Valid cr c) :
    StandsFor cr (K ∪ D) cat' := by
  obtain ⟨H, hcat, hsub, hacc⟩ := h.merged
  have hsub' : H ∪ {c | c ∈ cs} ⊆ K ∪ D := Set.union_subset_union hsub hcs
  have hcat' : Catalogued cr (H ∪ {c | c ∈ cs}) cat' := hcat.mergeAll (sep.mono hsub') hm
  refine ⟨⟨_,hcat',hsub',?_⟩,hfrom _ (hcat.resolves.exchange h.resolves hcat'.resolves),?_⟩
  · rintro c (hc | hc)
    · rcases hacc c hc with ⟨d, hd, hk⟩ | hr | hps
      · exact .inl ⟨d,.inl hd,hk⟩
      · exact .inr (.inl hr.mono)
      · exact .inr (.inr hps)
    · rcases ha c hc with ⟨d, hd, hk⟩ | ⟨r, hr, hrr⟩ | hps
      · exact .inl ⟨d,.inr hd,hk⟩
      · exact .inr (.inl ⟨r,.inr hr,hrr⟩)
      · exact .inr (.inr hps)
  · exact fun c hc => hc.elim (h.valid c) (hv c)

lemma StandsFor.mergeShown {cs : List UnitChange}
    {u : UnitKey → Option UnitChange} (sep : Separated cr (K ∪ D)) (h : StandsFor cr K cat)
    (hu : (scheme cr).Resolves D u) (hcs : ∀ c, c ∈ cs ↔ u c.key = some c)
    (hread : Readable cr D) (hv : ∀ c ∈ D, Valid cr c)
    (hm : cat.mergeAll cr cs = .ok cat') : StandsFor cr (K ∪ D) cat' := by
  have hseen : {d | d ∈ cs} = (scheme cr).Seen u := by
    ext d
    exact hcs d
  refine h.merge sep hm (fun d hd => (hu.held ((hcs d).mp hd)).1) ?_ (fun d hd => .inr (hread d hd))
    hv
  intro v hv
  rw [hseen, Set.union_comm] at hv
  rw [Set.union_comm]
  exact hu.replace hv

lemma StandsFor.changes (h : StandsFor cr K cat) {l : List UnitChange}
    (hl : cat.changes = .ok l) :
    (∀ c, c ∈ l ↔ cat.shown c.key = some c) ∧ Readable cr K := by
  obtain ⟨H, hcat, hsub, hacc⟩ := h.merged
  refine ⟨(hcat.changes hl).1,?_⟩
  rcases hcat.changes_cases with ⟨hread, -⟩ | ⟨-, herr⟩
  · exact (h.readable_iff hcat hsub hacc).mp hread
  · rw [herr] at hl
    cases hl

theorem StandsFor.changes_eq (h : StandsFor cr K cat) (h' : StandsFor cr K cat') :
    cat.changes = cat'.changes := by
  obtain ⟨H, hcat, hsub, hacc⟩ := h.merged
  obtain ⟨H', hcat', hsub', hacc'⟩ := h'.merged
  exact hcat.changes_eq hcat' (h.resolves.unique h'.resolves)
    ((h.readable_iff hcat hsub hacc).trans (h'.readable_iff hcat' hsub' hacc').symm)

theorem StandsFor.identity_eq (h : StandsFor cr K cat) (h' : StandsFor cr K cat') :
    cat.identity cr = cat'.identity cr := by
  rw [PublishedCatalog.identity, PublishedCatalog.identity, h.changes_eq h']

end
end RisuNest.External
