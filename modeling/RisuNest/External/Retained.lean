import RisuNest.External.Checkpoint

/-! The checkpoints that are retained are the largest ones, one for each coverage (`retained` of
`lww_checkpoint.rs`). -/
namespace RisuNest.External
open Wire

/-- A checkpoint covers another, and more or with a smaller id. -/
def Above (a b : Checkpoint) : Prop :=
  (∀ w, b.coveredPrefixes.prefixOf w ≤ a.coveredPrefixes.prefixOf w) ∧
    ((∀ w, a.coveredPrefixes.prefixOf w ≤ b.coveredPrefixes.prefixOf w) →
      a.snapshotId < b.snapshotId)

lemma Above.irrefl (c : Checkpoint) : ¬ Above c c :=
  fun h => lt_irrefl _ (h.2 fun _ => le_rfl)

lemma Above.trans {a b c : Checkpoint} (h : Above a b) (h' : Above b c) : Above a c := by
  refine ⟨fun w => (h'.1 w).trans (h.1 w),fun hac => ?_⟩
  exact (h.2 fun w => (hac w).trans (h'.1 w)).trans (h'.2 fun w => (h.1 w).trans (hac w))

lemma exists_top (checkpoints : List Checkpoint) {c : Checkpoint} (hc : c ∈ checkpoints) :
    ∃ o ∈ checkpoints, (∀ w, c.coveredPrefixes.prefixOf w ≤ o.coveredPrefixes.prefixOf w) ∧
      ∀ p ∈ checkpoints, ¬ Above p o := by
  classical
  -- each step up leaves fewer checkpoints above
  induction hn : (checkpoints.filter fun o => Above o c).length using Nat.strong_induction_on
      generalizing c with
  | _ n ih =>
    by_cases htop : ∀ p ∈ checkpoints, ¬ Above p c
    · exact ⟨c,hc,fun _ => le_rfl,htop⟩
    · push Not at htop
      obtain ⟨o, ho, hab⟩ := htop
      have hlt : (checkpoints.filter fun p => Above p o).length < n := by
        have hsub : (checkpoints.filter fun p => decide (Above p o)) =
            (checkpoints.filter fun p => decide (Above p c)).filter
              fun p => decide (Above p o) := by
          rw [List.filter_filter]
          apply List.filter_congr
          intro p _
          by_cases hp : Above p o
          · simp [hp, hp.trans hab]
          · simp [hp]
        rw [← hn, hsub]
        apply List.length_filter_lt_length_iff_exists.mpr
        exact ⟨o,by simp [ho, hab],by simp [Above.irrefl]⟩
      obtain ⟨top, hmem, hcov, hnone⟩ := ih _ hlt ho rfl
      exact ⟨top,hmem,fun w => (hab.1 w).trans (hcov w),hnone⟩

/-! ### What one round decides -/

lemma dominates_eq_ok {candidate other : Checkpoint} {d : Bool}
    (h : dominates candidate other = .ok d) :
    d = true ↔ candidate.snapshotId ≠ other.snapshotId ∧ Above other candidate := by
  unfold dominates at h
  by_cases hid : candidate.snapshotId = other.snapshotId
  · simp only [hid, if_true, Except.ok.injEq] at h
    simp [hid, ← h]
  · by_cases hc : other.coveredPrefixes.covers candidate.coveredPrefixes = true
    · by_cases hround : candidate.coveredPrefixes.covers other.coveredPrefixes = true
      · by_cases hi : candidate.stateIdentity = other.stateIdentity
        · simp only [hid, hc, hround, hi, if_false, Bool.not_true, Bool.false_eq_true, if_true,
            ne_eq, not_true_eq_false, Except.ok.injEq] at h
          have hround' := Coverage.covers_iff.mp hround
          rw [← h]
          simp only [Bool.not_eq_true', decide_eq_false_iff_not, not_lt, ne_eq, hid,
            not_false_eq_true, true_and]
          constructor
          · intro hle
            exact ⟨Coverage.covers_iff.mp hc,fun _ => lt_of_le_of_ne hle (Ne.symm hid)⟩
          · intro hab
            exact (hab.2 hround').le
        · simp [hid, hc, hround, hi] at h
      · simp only [hid, hc, hround, if_false, Bool.not_true, Bool.false_eq_true,
          Except.ok.injEq] at h
        rw [← h]
        simp only [true_iff]
        exact ⟨hid,Coverage.covers_iff.mp hc,fun hle => absurd (Coverage.covers_iff.mpr hle) hround⟩
    · simp only [hid, hc, if_false, Bool.not_false, if_true, Except.ok.injEq] at h
      rw [← h]
      simp only [Bool.false_eq_true, false_iff, not_and]
      intro _ hab
      exact hc (Coverage.covers_iff.mpr hab.1)

lemma exists_dominates_eq_ok {candidate other : Checkpoint}
    (h : other.coveredPrefixes.covers candidate.coveredPrefixes = true →
      candidate.coveredPrefixes.covers other.coveredPrefixes = true →
        candidate.stateIdentity = other.stateIdentity) :
    ∃ d, dominates candidate other = .ok d := by
  unfold dominates
  split_ifs with hid hc hround hi
  · exact ⟨_,rfl⟩
  · exact ⟨_,rfl⟩
  · exact absurd (h (by simpa using hc) hround) hi
  · exact ⟨_,rfl⟩
  · exact ⟨_,rfl⟩

lemma dominated_eq_ok {checkpoints : List Checkpoint} {c : Checkpoint} {d : Bool}
    (h : dominated checkpoints c = .ok d) :
    d = true ↔ ∃ o ∈ checkpoints, c.snapshotId ≠ o.snapshotId ∧ Above o c := by
  unfold dominated at h
  have key : ∀ {found : Bool}, checkpoints.foldlM
      (fun found other => do pure (found || (← dominates c other))) found =
        (.ok d : Provided Bool) →
      (d = true ↔ found = true ∨ ∃ o ∈ checkpoints, c.snapshotId ≠ o.snapshotId ∧ Above o c) := by
    clear h
    induction checkpoints with
    | nil =>
      intro found h
      rw [List.foldlM_nil] at h
      cases h
      simp
    | cons o rest ih =>
      intro found h
      obtain ⟨m, hm, h⟩ := foldlM_cons_eq_ok.mp h
      obtain ⟨e, he, hm⟩ := bind_eq_ok.mp hm
      cases hm
      rw [ih h, Bool.or_eq_true, dominates_eq_ok he, or_assoc]
      simp
  simpa using key h

lemma exists_dominated_eq_ok {checkpoints : List Checkpoint} {c : Checkpoint}
    (h : ∀ o ∈ checkpoints, o.coveredPrefixes.covers c.coveredPrefixes = true →
      c.coveredPrefixes.covers o.coveredPrefixes = true → c.stateIdentity = o.stateIdentity) :
    ∃ d, dominated checkpoints c = .ok d := by
  unfold dominated
  generalize false = found
  induction checkpoints generalizing found with
  | nil => exact ⟨found,rfl⟩
  | cons o rest ih =>
    obtain ⟨d, hd⟩ := exists_dominates_eq_ok (h o List.mem_cons_self)
    obtain ⟨e, he⟩ := ih (fun p hp => h p (List.mem_cons_of_mem _ hp)) (found || d)
    exact ⟨e,foldlM_cons_eq_ok.mpr ⟨found || d,by rw [hd]; rfl,he⟩⟩

/-! ### What is retained -/

lemma mem_of_retained {checkpoints : List Checkpoint} {kept : List String}
    (h : retained checkpoints = .ok kept) (id : String) :
    id ∈ kept ↔ ∃ c ∈ checkpoints, c.snapshotId = id ∧
      ∀ o ∈ checkpoints, c.snapshotId ≠ o.snapshotId → ¬ Above o c := by
  unfold retained at h
  obtain ⟨marks, hm, h⟩ := bind_eq_ok.mp h
  cases h
  rw [List.reduceOption_mem_iff, mem_of_mapM_eq_ok hm]
  apply exists_congr
  intro c
  apply and_congr_right
  intro hc
  obtain ⟨mark, hmark⟩ := exists_of_mapM_eq_ok hm hc
  obtain ⟨d, hd, -⟩ := bind_eq_ok.mp hmark
  rw [hd]
  have hd' := dominated_eq_ok hd
  cases d with
  | true =>
    obtain ⟨o, ho, hne, hab⟩ := hd'.mp rfl
    constructor
    · intro h
      cases h
    · intro h
      exact absurd hab (h.2 o ho hne)
  | false =>
    constructor
    · intro h
      refine ⟨Option.some.inj (Except.ok.inj h),fun o ho hne hab => ?_⟩
      exact Bool.false_ne_true (hd'.mpr ⟨o,ho,hne,hab⟩)
    · intro h
      rw [← h.1]
      rfl

theorem retained_covers {checkpoints : List Checkpoint} {kept : List String}
    (h : retained checkpoints = .ok kept) {c : Checkpoint} (hc : c ∈ checkpoints) :
    ∃ o ∈ checkpoints, o.snapshotId ∈ kept ∧
      ∀ w, c.coveredPrefixes.prefixOf w ≤ o.coveredPrefixes.prefixOf w := by
  obtain ⟨o, ho, hcov, hnone⟩ := exists_top checkpoints hc
  exact ⟨o,ho,(mem_of_retained h _).mpr ⟨o,ho,rfl,fun p hp _ => hnone p hp⟩,hcov⟩

/-- Ids of checkpoints: a largest one for each checkpoint, of each largest coverage the smallest
and no other. -/
structure MaximalAntichain (checkpoints : List Checkpoint) (kept : List String) : Prop where
  named : ∀ id ∈ kept, ∃ c ∈ checkpoints, c.snapshotId = id
  covered : ∀ c ∈ checkpoints, ∃ o ∈ checkpoints, o.snapshotId ∈ kept ∧
    o.coveredPrefixes.covers c.coveredPrefixes = true
  maximal : ∀ c ∈ checkpoints, c.snapshotId ∈ kept → ∀ o ∈ checkpoints,
    o.coveredPrefixes.covers c.coveredPrefixes = true →
      c.coveredPrefixes.covers o.coveredPrefixes = true
  one : ∀ c ∈ checkpoints, (∀ o ∈ checkpoints,
      o.coveredPrefixes.covers c.coveredPrefixes = true →
        c.coveredPrefixes.covers o.coveredPrefixes = true) →
    ∃ m ∈ checkpoints, m.coveredPrefixes.covers c.coveredPrefixes = true ∧
      ∀ o ∈ checkpoints, o.coveredPrefixes.covers c.coveredPrefixes = true →
        m.snapshotId ≤ o.snapshotId ∧ (o.snapshotId ∈ kept ↔ o.snapshotId = m.snapshotId)
  nonempty : checkpoints ≠ [] → kept ≠ []

section
variable {checkpoints : List Checkpoint}

/-- Checkpoints that share an id share their coverage. -/
def OneCoverage (checkpoints : List Checkpoint) : Prop :=
  ∀ a ∈ checkpoints, ∀ b ∈ checkpoints, a.snapshotId = b.snapshotId →
    a.coveredPrefixes.covers b.coveredPrefixes = true

/-- Checkpoints that cover each other are of one state. -/
def OneState (checkpoints : List Checkpoint) : Prop :=
  ∀ a ∈ checkpoints, ∀ b ∈ checkpoints, a.coveredPrefixes.covers b.coveredPrefixes = true →
    b.coveredPrefixes.covers a.coveredPrefixes = true → a.stateIdentity = b.stateIdentity

lemma exists_retained (state : OneState checkpoints) : ∃ kept, retained checkpoints = .ok kept := by
  have hall : ∀ c ∈ checkpoints, ∃ mark, (do
      pure (if ← dominated checkpoints c then none else some c.snapshotId) :
        Provided (Option String)) = .ok mark := by
    intro c hc
    obtain ⟨d, hd⟩ := @exists_dominated_eq_ok checkpoints c
      fun o ho h h' => (state o ho c hc h h').symm
    exact ⟨_,by rw [hd]; rfl⟩
  obtain ⟨marks, hm⟩ := exists_mapM_eq_ok hall
  exact ⟨marks.reduceOption,by rw [retained, hm]; rfl⟩

lemma mem_kept_iff (coverage : OneCoverage checkpoints) {kept : List String}
    (h : retained checkpoints = .ok kept) {c : Checkpoint} (hc : c ∈ checkpoints) :
    c.snapshotId ∈ kept ↔ ∀ o ∈ checkpoints, ¬ Above o c := by
  rw [mem_of_retained h]
  constructor
  · intro ⟨d, hd, hid, hnone⟩ o ho hab
    have hcd := Coverage.covers_iff.mp (coverage c hc d hd hid.symm)
    have hod : Above o d := by
      refine ⟨fun w => (hcd w).trans (hab.1 w),fun hback => ?_⟩
      rw [hid]
      exact hab.2 fun w => (hback w).trans (hcd w)
    by_cases he : d.snapshotId = o.snapshotId
    · have hdo := Coverage.covers_iff.mp (coverage d hd o ho he)
      have hlt := hod.2 hdo
      rw [he] at hlt
      exact lt_irrefl _ hlt
    · exact hnone o ho he hod
  · intro hnone
    exact ⟨c,hc,rfl,fun o ho _ => hnone o ho⟩

lemma maximalAntichain_of_retained (coverage : OneCoverage checkpoints) {kept : List String}
    (h : retained checkpoints = .ok kept) : MaximalAntichain checkpoints kept where
  named := by
    intro id hid
    obtain ⟨c, hc, he, -⟩ := (mem_of_retained h id).mp hid
    exact ⟨c,hc,he⟩
  covered := by
    intro c hc
    obtain ⟨o, ho, hk, hcov⟩ := retained_covers h hc
    exact ⟨o,ho,hk,Coverage.covers_iff.mpr hcov⟩
  maximal := by
    intro c hc hk o ho hcov
    by_contra hback
    refine (mem_kept_iff coverage h hc).mp hk o ho ⟨Coverage.covers_iff.mp hcov,fun hle => ?_⟩
    exact absurd (Coverage.covers_iff.mpr hle) hback
  one := by
    intro c hc hmax
    obtain ⟨m, hm, hk, hcov⟩ := retained_covers h hc
    have hmc := Coverage.covers_iff.mpr hcov
    have hcm := Coverage.covers_iff.mp (hmax m hm hmc)
    have hnone := (mem_kept_iff coverage h hm).mp hk
    refine ⟨m,hm,hmc,fun o ho hoc => ?_⟩
    have hco := Coverage.covers_iff.mp hoc
    have hoc' := Coverage.covers_iff.mp (hmax o ho hoc)
    have hmo : ∀ w, m.coveredPrefixes.prefixOf w ≤ o.coveredPrefixes.prefixOf w :=
      fun w => (hcm w).trans (hco w)
    have hom : ∀ w, o.coveredPrefixes.prefixOf w ≤ m.coveredPrefixes.prefixOf w :=
      fun w => (hoc' w).trans (hcov w)
    -- otherwise it would be above the one that is kept
    have hle : m.snapshotId ≤ o.snapshotId := by
      by_contra hlt
      exact hnone o ho ⟨hmo,fun _ => not_le.mp hlt⟩
    refine ⟨hle,fun hko => ?_,fun he => he ▸ hk⟩
    by_contra hne
    exact (mem_kept_iff coverage h ho).mp hko m hm ⟨hom,fun _ => lt_of_le_of_ne hle (Ne.symm hne)⟩
  nonempty := by
    intro hne hnil
    obtain ⟨c, rest, rfl⟩ := List.exists_cons_of_ne_nil hne
    obtain ⟨o, -, hk, -⟩ := retained_covers h (List.mem_cons_self (a := c) (l := rest))
    rw [hnil] at hk
    cases hk

/-- The retained checkpoints are the largest ones, one for each coverage, in every order. -/
theorem retained_is_maximal_antichain (coverage : OneCoverage checkpoints)
    (state : OneState checkpoints) :
    ∃ kept, retained checkpoints = .ok kept ∧ MaximalAntichain checkpoints kept ∧
      ∀ other, checkpoints.Perm other → ∃ kept', retained other = .ok kept' ∧
        ∀ id, id ∈ kept' ↔ id ∈ kept := by
  obtain ⟨kept, h⟩ := exists_retained state
  refine ⟨kept,h,maximalAntichain_of_retained coverage h,fun other hp => ?_⟩
  have hstate : OneState other := fun a ha b hb =>
    state a (hp.mem_iff.mpr ha) b (hp.mem_iff.mpr hb)
  obtain ⟨kept', h'⟩ := exists_retained hstate
  refine ⟨kept',h',fun id => ?_⟩
  rw [mem_of_retained h, mem_of_retained h']
  simp only [hp.mem_iff]

end

/-- A checkpoint without records. -/
def bareCheckpoint (snapshotId : String) (coveredPrefixes : List (String × ℕ))
    (stateIdentity : String) : Checkpoint :=
  ⟨snapshotId,coveredPrefixes.foldl (fun t e => t.upsert e.1 e.2) .empty,stateIdentity,[]⟩

theorem retained_is_maximal_antichain_chain :
    ∃ kept, retained [bareCheckpoint "a" [("v",1)] "x",bareCheckpoint "b" [("v",1),("w",1)] "y",
        bareCheckpoint "c" [("w",1),("v",1)] "y"] = .ok kept ∧
      MaximalAntichain [bareCheckpoint "a" [("v",1)] "x",bareCheckpoint "b" [("v",1),("w",1)] "y",
        bareCheckpoint "c" [("w",1),("v",1)] "y"] kept ∧
      ∀ other, [bareCheckpoint "a" [("v",1)] "x",bareCheckpoint "b" [("v",1),("w",1)] "y",
          bareCheckpoint "c" [("w",1),("v",1)] "y"].Perm other →
        ∃ kept', retained other = .ok kept' ∧ ∀ id, id ∈ kept' ↔ id ∈ kept :=
  retained_is_maximal_antichain (by unfold OneCoverage; decide) (by unfold OneState; decide)

/-- Two checkpoints with one id are not compared, so both stay although one covers more; and
coverages that differ in a prefix of zero cover each other. -/
theorem retained_compares_other_ids :
    (retained [bareCheckpoint "a" [("w",1)] "x",bareCheckpoint "a" [("w",2)] "y"] =
        .ok ["a","a"] ∧
      (bareCheckpoint "a" [("w",2)] "y").coveredPrefixes.covers
        (bareCheckpoint "a" [("w",1)] "x").coveredPrefixes = true ∧
      (bareCheckpoint "a" [("w",1)] "x").coveredPrefixes.covers
        (bareCheckpoint "a" [("w",2)] "y").coveredPrefixes = false) ∧
    (bareCheckpoint "a" [] "x").coveredPrefixes.rows ≠
        (bareCheckpoint "b" [("w",0)] "y").coveredPrefixes.rows ∧
      retained [bareCheckpoint "a" [] "x",bareCheckpoint "b" [("w",0)] "y"] = .error .corrupt :=
  ⟨⟨rfl,by decide,by decide⟩,by decide,rfl⟩

end RisuNest.External
