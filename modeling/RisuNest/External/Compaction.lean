import RisuNest.External.Retained

/-! Compaction keeps the meaning: the state built from checkpoints and the segments above them is
the one that the covered segments give when they are merged from nothing. -/
namespace RisuNest.External
open Wire Retirement

/-! ### Histories of segments -/

/-- The changes of the segments up to a coverage. -/
def covered (history : String → ℕ → List UnitChange) (coverage : Coverage) : Set UnitChange :=
  {c | ∃ w n, 0 < n ∧ n ≤ coverage.prefixOf w ∧ c ∈ history w n}

/-- The changes of all segments. -/
def published (history : String → ℕ → List UnitChange) : Set UnitChange :=
  {c | ∃ w n, c ∈ history w n}

/-- The listed segments are those of a history. -/
def Remote.Publishes (remote : Remote) (history : String → ℕ → List UnitChange) : Prop :=
  ∀ name ∈ remote.listing, ∀ segment, remote.openSegment name = .ok segment →
    segment.changes = history name.writerId name.seq

/-- The checkpoints of a history: each is built from a published state of checkpoints that were
built before it and of listed segments. -/
inductive Built (cr : Crates) (history : String → ℕ → List UnitChange) : Checkpoint → Prop
  | compacted {remote : Remote} {recorded : List ((UnitKey × Stamp) × String)}
      {admitted : Provided ℕ} {state : PublishedCatalog} {jobId : String} {c : Checkpoint}
      (checkpoints : ∀ o ∈ remote.checkpoints, Built cr history o)
      (segments : remote.Publishes history)
      (published : publishedState cr remote recorded admitted = .ok state)
      (compacted : checkpointOf cr state jobId = .ok c) : Built cr history c

section
variable {cr : Crates} {history : String → ℕ → List UnitChange}

lemma covered_subset (coverage : Coverage) : covered history coverage ⊆ published history := by
  rintro c ⟨w, n, -, -, hc⟩
  exact ⟨w,n,hc⟩

lemma covered_includePrefixes (a b : Coverage) :
    covered history (a.includePrefixes b) = covered history a ∪ covered history b := by
  ext c
  constructor
  · rintro ⟨w, n, h0, hn, hc⟩
    rw [Coverage.prefixOf_includePrefixes, le_max_iff] at hn
    exact hn.imp (fun hn => ⟨w,n,h0,hn,hc⟩) fun hn => ⟨w,n,h0,hn,hc⟩
  · rintro (⟨w, n, h0, hn, hc⟩ | ⟨w, n, h0, hn, hc⟩)
    · refine ⟨w,n,h0,?_,hc⟩
      rw [Coverage.prefixOf_includePrefixes]
      exact le_max_of_le_left hn
    · refine ⟨w,n,h0,?_,hc⟩
      rw [Coverage.prefixOf_includePrefixes]
      exact le_max_of_le_right hn

lemma covered_upsert (coverage : Coverage) (w : String) :
    covered history (coverage.upsert w (coverage.prefixOf w + 1)) =
      covered history coverage ∪ {c | c ∈ history w (coverage.prefixOf w + 1)} := by
  ext c
  constructor
  · rintro ⟨v, n, h0, hn, hc⟩
    rw [Coverage.prefixOf_upsert] at hn
    split_ifs at hn with he
    · subst he
      rcases Nat.lt_or_eq_of_le hn with hlt | rfl
      · exact .inl ⟨v,n,h0,Nat.le_of_lt_succ hlt,hc⟩
      · exact .inr hc
    · exact .inl ⟨v,n,h0,hn,hc⟩
  · rintro (⟨v, n, h0, hn, hc⟩ | hc)
    · refine ⟨v,n,h0,?_,hc⟩
      rw [Coverage.prefixOf_upsert]
      split_ifs with he
      · subst he
        exact Nat.le_succ_of_le hn
      · exact hn
    · refine ⟨w,_,Nat.succ_pos _,?_,hc⟩
      rw [Coverage.prefixOf_upsert, if_pos rfl]

/-- A catalog stands for the segments it covers. -/
def Represents (cr : Crates) (history : String → ℕ → List UnitChange)
    (cat : PublishedCatalog) : Prop := StandsFor cr (covered history cat.coverage) cat

/-- What a checkpoint has to be for the states built from it. -/
structure Faithful (cr : Crates) (history : String → ℕ → List UnitChange) (c : Checkpoint) :
    Prop where
  shows : ∃ u, (scheme cr).Resolves (covered history c.coveredPrefixes) u ∧
    ∀ d, d ∈ c.records.map Record.change ↔ u d.key = some d
  valid : ∀ d ∈ covered history c.coveredPrefixes, Valid cr d
  readable : Readable cr (covered history c.coveredPrefixes)

theorem Represents.create (cr : Crates) (history : String → ℕ → List UnitChange) :
    Represents cr history .create := by
  have hempty : covered history PublishedCatalog.create.coverage = ∅ := by
    ext c
    simp only [Set.mem_empty_iff_false, iff_false]
    rintro ⟨w, n, h0, hn, -⟩
    simp [PublishedCatalog.create, Coverage.prefixOf] at hn
    omega
  rw [Represents, hempty]
  exact (Catalogued.create cr).standsFor

lemma mergeRecords_eq_ok {records : List Record} {a b : PublishedCatalog × PublishedCatalog}
    (hf : records.foldlM (mergeRecord cr) a = .ok b) :
    a.2.mergeAll cr (records.map Record.change) = .ok b.2 := by
  induction records generalizing a with
  | nil =>
    rw [List.foldlM_nil] at hf
    cases hf
    rfl
  | cons r records ih =>
    obtain ⟨m, hr, hf⟩ := foldlM_cons_eq_ok.mp hf
    obtain ⟨_, -, hr⟩ := bind_eq_ok.mp hr
    obtain ⟨_, -, hr⟩ := bind_eq_ok.mp hr
    obtain ⟨_, -, hr⟩ := bind_eq_ok.mp hr
    obtain ⟨proof, -, hr⟩ := bind_eq_ok.mp hr
    obtain ⟨catalog, hcat, hr⟩ := bind_eq_ok.mp hr
    cases hr
    exact foldlM_cons_eq_ok.mpr ⟨catalog,hcat,ih hf⟩

lemma Represents.mergeCheckpoint {cat cat' : PublishedCatalog} {c : Checkpoint}
    (free : ConflictFree (published history)) (h : Represents cr history cat)
    (hc : Faithful cr history c) (hm : mergeCheckpoint cr cat c = .ok cat') :
    Represents cr history cat' ∧
      cat'.coverage = cat.coverage.includePrefixes c.coveredPrefixes := by
  obtain ⟨cats, hrec, hm⟩ := bind_eq_ok.mp hm
  obtain ⟨_, -, hm⟩ := bind_eq_ok.mp hm
  obtain ⟨_, -, hm⟩ := bind_eq_ok.mp hm
  cases hm
  have hmerged := mergeRecords_eq_ok hrec
  have hcoverage : cats.2.coverage = cat.coverage := (mergeAll_coverage hmerged).1
  refine ⟨?_,by rw [PublishedCatalog.includePrefixes, hcoverage]⟩
  obtain ⟨u, hu, hshow⟩ := hc.shows
  have hfree := free.mono (covered_subset (cat.coverage.includePrefixes c.coveredPrefixes))
  rw [covered_includePrefixes] at hfree
  rw [Represents, PublishedCatalog.includePrefixes, hcoverage]
  change StandsFor cr (covered history (cat.coverage.includePrefixes c.coveredPrefixes)) _
  rw [covered_includePrefixes]
  exact (StandsFor.mergeShown (hfree.separated cr) h hu hshow hc.readable hc.valid
    hmerged).withCoverage _

lemma Represents.includeSegment {cat : PublishedCatalog} {segment : Segment}
    {out : PublishedCatalog × Bool} (free : ConflictFree (published history))
    (h : Represents cr history cat) (hs : segment.changes = history segment.writerId segment.seq)
    (hi : cat.includeSegment cr segment = .ok out) :
    Represents cr history out.1 ∧
      out.1.coverage = if segment.seq = cat.coverage.prefixOf segment.writerId + 1
        then cat.coverage.upsert segment.writerId segment.seq else cat.coverage := by
  unfold PublishedCatalog.includeSegment at hi
  split_ifs at hi ⊢ with hseq
  · obtain ⟨merged, hm, hi⟩ := bind_eq_ok.mp hi
    cases hi
    have hcoverage : merged.coverage = cat.coverage := (mergeAll_coverage hm).1
    refine ⟨?_,by rw [hcoverage]⟩
    have hset : covered history (cat.coverage.upsert segment.writerId segment.seq) =
        covered history cat.coverage ∪ {c | c ∈ segment.changes} := by
      rw [hs, hseq]
      exact covered_upsert _ _
    have hfree := free.mono (covered_subset (cat.coverage.upsert segment.writerId segment.seq))
    rw [hset] at hfree
    have hvalid : ∀ c ∈ segment.changes, Valid cr c := by
      obtain ⟨H, hcat, hsub, -⟩ := h.merged
      have hcat' := hcat.mergeAll
        ((hfree.mono (Set.union_subset_union_left _ hsub)).separated cr) hm
      exact fun c hc => hcat'.valid c (.inr hc)
    rw [Represents, hcoverage]
    change StandsFor cr (covered history (cat.coverage.upsert segment.writerId segment.seq)) _
    rw [hset]
    exact (StandsFor.merge (hfree.separated cr) h hm (fun c hc => hc) (fun v hv => hv)
      (fun c hc => .inl ⟨c,hc,rfl⟩) hvalid).withCoverage _
  · cases hi
    exact ⟨h,rfl⟩

lemma Represents.checkpointOf {cat : PublishedCatalog} {jobId : String} {c : Checkpoint}
    (h : Represents cr history cat) (hc : checkpointOf cr cat jobId = .ok c) :
    Faithful cr history c := by
  obtain ⟨changes, hl, hc⟩ := bind_eq_ok.mp hc
  obtain ⟨identity, -, hc⟩ := bind_eq_ok.mp hc
  cases hc
  obtain ⟨hshow, hread⟩ := StandsFor.changes h hl
  refine ⟨⟨cat.shown,h.resolves,?_⟩,h.valid,hread⟩
  intro d
  rw [List.map_map]
  simp only [Function.comp_def, List.map_id']
  exact hshow d

end

/-! ### The listed segments -/

lemma segmentGroups_eq_ok {listing : List SegmentName} {groups : Table (String × ℕ) String}
    (h : segmentGroups listing = .ok groups) (w : String) (n : ℕ) (hash : String) :
    groups.get (w,n) = some hash ↔ ⟨w,n,hash⟩ ∈ listing := by
  have key := foldlM_induct (I := fun (done : List SegmentName) (t : Table (String × ℕ) String) =>
    ∀ w n hash, t.get (w,n) = some hash ↔ ⟨w,n,hash⟩ ∈ done) ?_
    (fun _ _ _ => by simp) h
  · exact key w n hash
  · intro done t name t' hI hstep w n hash
    obtain ⟨_, hold, hstep⟩ := bind_eq_ok.mp hstep
    have hold := require_eq_ok.mp hold
    cases hstep
    rw [Table.get_insertOrIgnore, List.mem_append, List.mem_singleton, ← hI]
    split_ifs with he
    · cases he
      cases hg : t.get (name.writerId,name.seq) with
      | none =>
        rw [Option.getD_none, Option.some.injEq]
        constructor
        · rintro rfl
          exact .inr rfl
        · rintro (h | h)
          · cases h
          · cases name
            cases h
            rfl
      | some old =>
        rw [hg, Option.all_some, decide_eq_true_eq] at hold
        subst hold
        rw [Option.getD_some, Option.some.injEq]
        constructor
        · exact .inl
        · rintro (h | h)
          · exact h
          · cases name
            cases h
            rfl
    · constructor
      · exact .inl
      · rintro (h | h)
        · exact h
        · cases name
          cases h
          exact absurd rfl he

lemma inOrder_sorted (groups : Table (String × ℕ) String) :
    (inOrder groups.rows).Pairwise fun a b => toLex a.1 < toLex b.1 := by
  have hperm : (inOrder groups.rows).Perm groups.rows := List.perm_insertionSort ..
  have hle : (inOrder groups.rows).Pairwise fun a b => toLex a.1 ≤ toLex b.1 :=
    List.pairwise_insertionSort
      (fun a b : (String × ℕ) × String => toLex a.1 ≤ toLex b.1) groups.rows
  have hne : (inOrder groups.rows).Pairwise fun a b => a.1 ≠ b.1 :=
    List.pairwise_map.mp ((hperm.map Prod.fst).nodup_iff.mpr groups.nodup)
  exact (hle.and hne).imp fun h => lt_of_le_of_ne h.1 fun he => h.2 (toLex.injective he)

/-- How far the listed segments were followed: without a gap, and up to one. -/
structure Reached (checkpointCoverage : Coverage) (done : List ((String × ℕ) × String))
    (coverage : Coverage) : Prop where
  above : ∀ w, checkpointCoverage.prefixOf w ≤ coverage.prefixOf w
  listed : ∀ w n, checkpointCoverage.prefixOf w < n → n ≤ coverage.prefixOf w →
    ∃ hash, ((w,n),hash) ∈ done
  next : ∀ w hash, ((w,coverage.prefixOf w + 1),hash) ∉ done

section
variable {cr : Crates} {history : String → ℕ → List UnitChange} {remote : Remote}
  {checkpointCoverage : Coverage} {upper : ℕ} {done rest : List ((String × ℕ) × String)}

lemma Reached.step {coverage : Coverage} {w : String} {n : ℕ} (hash : String)
    (h : Reached checkpointCoverage done coverage)
    (hlater : ∀ m hash', ((w,m),hash') ∈ done → m < n) :
    Reached checkpointCoverage (done ++ [((w,n),hash)]) (if n = coverage.prefixOf w + 1
      then coverage.upsert w n else coverage) := by
  split_ifs with hn
  · have hfirst : ∀ v, Coverage.prefixOf (coverage.upsert w n) v =
        if v = w then n else coverage.prefixOf v := fun v => Coverage.prefixOf_upsert _ _ v _
    refine ⟨?_,?_,?_⟩
    · intro v
      rw [hfirst]
      split_ifs with hv
      · subst hv
        have := h.above v
        omega
      · exact h.above v
    · intro v m hlt hm
      rw [hfirst] at hm
      split_ifs at hm with hv
      · subst hv
        by_cases he : m = n
        · exact ⟨hash,by simp [he]⟩
        · obtain ⟨hash', hd⟩ := h.listed v m hlt (by omega)
          exact ⟨hash',List.mem_append_left _ hd⟩
      · obtain ⟨hash', hd⟩ := h.listed v m hlt hm
        exact ⟨hash',List.mem_append_left _ hd⟩
    · intro v hash' hm
      rw [hfirst, List.mem_append, List.mem_singleton] at hm
      split_ifs at hm with hv
      · subst hv
        rcases hm with hm | hm
        · have := hlater _ _ hm
          omega
        · simp only [Prod.mk.injEq, true_and] at hm
          omega
      · rcases hm with hm | hm
        · exact h.next v hash' hm
        · simp only [Prod.mk.injEq] at hm
          exact hv hm.1.1
  · refine ⟨h.above,?_,?_⟩
    · intro v m hlt hm
      obtain ⟨hash', hd⟩ := h.listed v m hlt hm
      exact ⟨hash',List.mem_append_left _ hd⟩
    · intro v hash' hm
      rw [List.mem_append, List.mem_singleton] at hm
      rcases hm with hm | hm
      · exact h.next v hash' hm
      · simp only [Prod.mk.injEq] at hm
        obtain ⟨⟨rfl, hm⟩, -⟩ := hm
        exact hn hm.symm

/-- Following the listed segments keeps a catalog standing for what it covers. -/
theorem Represents.follow (free : ConflictFree (published history)) (hp : remote.Publishes history)
    (hlisted : ∀ g ∈ rest, (⟨g.1.1,g.1.2,g.2⟩ : SegmentName) ∈ remote.listing)
    (hsorted : (done ++ rest).Pairwise fun a b => toLex a.1 < toLex b.1)
    {cats cats' : PublishedCatalog × PublishedCatalog} (h : Represents cr history cats.1)
    (hr : Reached checkpointCoverage done cats.1.coverage)
    (hf : rest.foldlM (includeListed cr remote checkpointCoverage upper) cats = .ok cats') :
    Represents cr history cats'.1 ∧
      Reached checkpointCoverage (done ++ rest) cats'.1.coverage := by
  induction rest generalizing done cats with
  | nil =>
    rw [List.foldlM_nil] at hf
    cases hf
    exact ⟨h,by rwa [List.append_nil]⟩
  | cons g rest ih =>
    obtain ⟨⟨w, n⟩, hash⟩ := g
    obtain ⟨m, hstep, hf⟩ := foldlM_cons_eq_ok.mp hf
    have hlater : ∀ k hash', ((w,k),hash') ∈ done → k < n := by
      intro k hash' hk
      have hlt := (List.pairwise_append.mp hsorted).2.2 _ hk _ List.mem_cons_self
      rw [Prod.Lex.toLex_lt_toLex] at hlt
      rcases hlt with hlt | ⟨-, hlt⟩
      · exact absurd hlt (lt_irrefl w)
      · exact hlt
    have hmid : Represents cr history m.1 ∧ m.1.coverage =
        if n = cats.1.coverage.prefixOf w + 1 then cats.1.coverage.upsert w n
          else cats.1.coverage := by
      unfold includeListed at hstep
      split_ifs at hstep with hle
      · cases hstep
        refine ⟨h,?_⟩
        rw [if_neg]
        have := hr.above w
        change n ≤ checkpointCoverage.prefixOf w at hle
        omega
      · obtain ⟨segment, hopen, hstep⟩ := bind_eq_ok.mp hstep
        obtain ⟨_, -, hstep⟩ := bind_eq_ok.mp hstep
        obtain ⟨_, -, hstep⟩ := bind_eq_ok.mp hstep
        obtain ⟨out, hout, hstep⟩ := bind_eq_ok.mp hstep
        cases hstep
        have hname : segment.writerId = w ∧ segment.seq = n := by
          obtain ⟨found, -, hchecked⟩ := bind_eq_ok.mp hopen
          obtain ⟨_, hreq, hchecked⟩ := bind_eq_ok.mp hchecked
          cases hchecked
          exact require_eq_ok.mp hreq
        have hchanges := hp _ (hlisted _ List.mem_cons_self) segment hopen
        obtain ⟨rfl, rfl⟩ := hname
        exact h.includeSegment free hchanges hout
    have hnext := hr.step hash hlater
    rw [← hmid.2] at hnext
    have := ih (fun g hg => hlisted g (List.mem_cons_of_mem _ hg))
      (by rwa [List.append_assoc, List.singleton_append]) hmid.1 hnext hf
    rwa [List.append_assoc, List.singleton_append] at this

/-- The state of the retained checkpoints stands for what they cover together. -/
theorem Represents.checkpointState {checkpoints : List Checkpoint} {state : PublishedCatalog}
    (free : ConflictFree (published history))
    (hc : ∀ c ∈ checkpoints, Faithful cr history c)
    (h : checkpointState cr checkpoints = .ok state) :
    Represents cr history state ∧
      (∀ c ∈ checkpoints, ∀ w, c.coveredPrefixes.prefixOf w ≤ state.coverage.prefixOf w) ∧
      ∀ w, 0 < state.coverage.prefixOf w → ∃ c ∈ checkpoints,
        state.coverage.prefixOf w ≤ c.coveredPrefixes.prefixOf w := by
  obtain ⟨kept, hk, h⟩ := bind_eq_ok.mp h
  have key := foldlM_induct (I := fun (done : List Checkpoint) cat =>
    (∀ c ∈ done, c ∈ checkpoints) → Represents cr history cat ∧
      (∀ c ∈ done, ∀ w, c.coveredPrefixes.prefixOf w ≤ cat.coverage.prefixOf w) ∧
      ∀ w, 0 < cat.coverage.prefixOf w → ∃ c ∈ done,
        cat.coverage.prefixOf w ≤ c.coveredPrefixes.prefixOf w) ?_ ?_ h
  · obtain ⟨hrep, hall, hfrom⟩ := key fun c hc => (List.mem_filter.mp hc).1
    refine ⟨hrep,?_,?_⟩
    · intro c hm w
      obtain ⟨o, ho, hok, hcov⟩ := retained_covers hk hm
      exact (hcov w).trans (hall o (List.mem_filter.mpr ⟨ho,by simpa using hok⟩) w)
    · intro w hw
      obtain ⟨c, hm, hle⟩ := hfrom w hw
      exact ⟨c,(List.mem_filter.mp hm).1,hle⟩
  · intro done cat c cat' hI hstep hm
    obtain ⟨hrep, hall, hfrom⟩ := hI fun d hd => hm d (List.mem_append_left _ hd)
    obtain ⟨hrep', hcov⟩ := hrep.mergeCheckpoint free
      (hc c (hm c (List.mem_append_right _ List.mem_cons_self))) hstep
    have hfirst : ∀ w, cat'.coverage.prefixOf w =
        max (cat.coverage.prefixOf w) (c.coveredPrefixes.prefixOf w) := by
      intro w
      rw [hcov, Coverage.prefixOf_includePrefixes]
    refine ⟨hrep',?_,?_⟩
    · intro d hd w
      rw [hfirst]
      rw [List.mem_append, List.mem_singleton] at hd
      rcases hd with hd | rfl
      · exact le_max_of_le_left (hall d hd w)
      · exact le_max_right _ _
    · intro w hw
      rw [hfirst] at hw ⊢
      rcases le_total (c.coveredPrefixes.prefixOf w) (cat.coverage.prefixOf w) with hle | hle
      · rw [max_eq_left hle] at hw ⊢
        obtain ⟨d, hd, hle'⟩ := hfrom w hw
        exact ⟨d,List.mem_append_left _ hd,hle'⟩
      · rw [max_eq_right hle]
        exact ⟨c,List.mem_append_right _ List.mem_cons_self,le_rfl⟩
  · intro _
    refine ⟨.create cr history,fun _ h => (by cases h),fun w hw => ?_⟩
    simp [PublishedCatalog.create, Coverage.prefixOf] at hw

/-- The published state stands for the segments it covers, and how far it covers. -/
theorem publishedState_represents {recorded : List ((UnitKey × Stamp) × String)}
    {admitted : Provided ℕ} {state : PublishedCatalog} (free : ConflictFree (published history))
    (hc : ∀ c ∈ remote.checkpoints, Faithful cr history c) (hp : remote.Publishes history)
    (h : publishedState cr remote recorded admitted = .ok state) :
    Represents cr history state ∧
      (∀ c ∈ remote.checkpoints, ∀ w,
        c.coveredPrefixes.prefixOf w ≤ state.coverage.prefixOf w) ∧
      (∀ w n, 0 < n → n ≤ state.coverage.prefixOf w →
        (∃ c ∈ remote.checkpoints, n ≤ c.coveredPrefixes.prefixOf w) ∨
          ∃ hash, ⟨w,n,hash⟩ ∈ remote.listing) ∧
      ∀ w hash, ⟨w,state.coverage.prefixOf w + 1,hash⟩ ∉ remote.listing := by
  obtain ⟨catalog, hcheck, h⟩ := bind_eq_ok.mp h
  obtain ⟨groups, hgroups, h⟩ := bind_eq_ok.mp h
  obtain ⟨seen, -, h⟩ := bind_eq_ok.mp h
  obtain ⟨_, -, h⟩ := bind_eq_ok.mp h
  obtain ⟨_, -, h⟩ := bind_eq_ok.mp h
  obtain ⟨bound, -, h⟩ := bind_eq_ok.mp h
  obtain ⟨_, -, h⟩ := bind_eq_ok.mp h
  obtain ⟨cats, hfold, h⟩ := bind_eq_ok.mp h
  cases h
  obtain ⟨hrep, hall, hfrom⟩ := Represents.checkpointState free hc hcheck
  have hperm : (inOrder groups.rows).Perm groups.rows := List.perm_insertionSort ..
  have hlisted : ∀ w n hash, ((w,n),hash) ∈ inOrder groups.rows ↔
      (⟨w,n,hash⟩ : SegmentName) ∈ remote.listing := by
    intro w n hash
    rw [hperm.mem_iff, ← Table.get_eq_some, segmentGroups_eq_ok hgroups]
  have hstart : Reached catalog.coverage [] catalog.coverage :=
    ⟨fun _ => le_rfl,fun w n hlt hle => absurd hle (Nat.not_le.mpr hlt),
      fun _ _ hm => (by cases hm)⟩
  obtain ⟨hrep', hreach⟩ := Represents.follow free hp (fun g hg => (hlisted _ _ _).mp hg)
    (inOrder_sorted groups) hrep hstart hfold
  rw [List.nil_append] at hreach
  refine ⟨hrep',fun c hm w => (hall c hm w).trans (hreach.above w),?_,?_⟩
  · intro w n h0 hn
    by_cases hle : n ≤ catalog.coverage.prefixOf w
    · obtain ⟨c, hm, hcov⟩ := hfrom w (by omega)
      exact .inl ⟨c,hm,hle.trans hcov⟩
    · obtain ⟨hash, hd⟩ := hreach.listed w n (by omega) hn
      exact .inr ⟨hash,(hlisted _ _ _).mp hd⟩
  · intro w hash hm
    exact hreach.next w hash ((hlisted _ _ _).mpr hm)

theorem Built.faithful {c : Checkpoint} (free : ConflictFree (published history))
    (h : Built cr history c) : Faithful cr history c := by
  induction h with
  | compacted _ hs hp hc ih => exact (publishedState_represents free ih hs hp).1.checkpointOf hc

end

/-- Whatever checkpoints a published state is built from, it shows the changes, and has the
identity, of the segments it covers merged from an empty catalog. It covers what the checkpoints
cover and the listed segments that follow without a gap. -/
theorem compaction_preserves_meaning {cr : Crates} {history : String → ℕ → List UnitChange}
    {remote : Remote} {recorded : List ((UnitKey × Stamp) × String)} {admitted : Provided ℕ}
    {state : PublishedCatalog} (free : ConflictFree (published history))
    (built : ∀ c ∈ remote.checkpoints, Built cr history c) (segments : remote.Publishes history)
    (h : publishedState cr remote recorded admitted = .ok state) :
    (∀ c ∈ remote.checkpoints, ∀ w,
      c.coveredPrefixes.prefixOf w ≤ state.coverage.prefixOf w) ∧
    (∀ w n, 0 < n → n ≤ state.coverage.prefixOf w →
      (∃ c ∈ remote.checkpoints, n ≤ c.coveredPrefixes.prefixOf w) ∨
        ∃ hash, ⟨w,n,hash⟩ ∈ remote.listing) ∧
    (∀ w hash, ⟨w,state.coverage.prefixOf w + 1,hash⟩ ∉ remote.listing) ∧
    ∀ cs : List UnitChange, (∀ c, c ∈ cs ↔ c ∈ covered history state.coverage) →
      cs.length < 2^64 → ∃ reference, PublishedCatalog.create.mergeAll cr cs = .ok reference ∧
        reference.changes = state.changes ∧ reference.identity cr = state.identity cr := by
  obtain ⟨hrep, hall, hfrom, hnext⟩ := publishedState_represents free
    (fun c hm => (built c hm).faithful free) segments h
  refine ⟨hall,hfrom,hnext,?_⟩
  intro cs hcs hlen
  have hset : {c | c ∈ cs} = covered history state.coverage := by
    ext c
    exact hcs c
  have hfree : ConflictFree (∅ ∪ {c | c ∈ cs}) := by
    rw [Set.empty_union, hset]
    exact free.mono (covered_subset _)
  obtain ⟨reference, href⟩ := (Catalogued.create cr).exists_mergeAll hfree
    (fun c hc => hrep.valid c ((hcs c).mp hc)) (by simpa [PublishedCatalog.create] using hlen)
  have hcat := (Catalogued.create cr).mergeAll (hfree.separated cr) href
  rw [Set.empty_union, hset] at hcat
  exact ⟨reference,href,hcat.standsFor.changes_eq hrep,hcat.standsFor.identity_eq hrep⟩

/-! ### Small repositories -/

def sampleCrates : Crates := tabulated [] [] []

def sampleWriter : String := "00000000-0000-4000-8000-000000000001"

def sampleChange (k : UnitKey) (t : ℕ) : UnitChange := ⟨k,⟨t,0,sampleWriter⟩,.deleted⟩

def sampleFirst : UnitChange := sampleChange ⟨["root","a"],by decide⟩ 1

def sampleSecond : UnitChange := sampleChange ⟨["root","b"],by decide⟩ 2

def sampleThird : UnitChange := sampleChange ⟨["root","c"],by decide⟩ 3

/-- One writer with three segments. -/
def sampleHistory (w : String) (n : ℕ) : List UnitChange :=
  if w = sampleWriter then
    if n = 1 then [sampleFirst] else if n = 2 then [sampleSecond]
    else if n = 3 then [sampleThird] else []
  else []

/-- A repository that lists some of the segments. -/
def sampleRemote (checkpoints : List Checkpoint) (seqs : List ℕ) : Remote where
  checkpoints := checkpoints
  listing := seqs.map fun n => ⟨sampleWriter,n,n.repr⟩
  read := fun name => .ok ⟨name.writerId,name.seq,sampleHistory name.writerId name.seq⟩

def sampleState (checkpoints : List Checkpoint) (seqs : List ℕ) : PublishedCatalog :=
  match publishedState sampleCrates (sampleRemote checkpoints seqs) [] (.ok 10) with
  | .ok state => state
  | .error _ => .create

/-- The checkpoint of the first segment. -/
def sampleCheckpoint : Checkpoint :=
  match checkpointOf sampleCrates (sampleState [] [1]) "job" with
  | .ok c => c
  | .error _ => ⟨"",.empty,"",[]⟩

lemma conflictFree_sampleHistory : ConflictFree (published sampleHistory) := by
  have hdeleted : ∀ c ∈ published sampleHistory, c.value = .deleted := by
    rintro c ⟨w, n, hc⟩
    unfold sampleHistory at hc
    split_ifs at hc <;> simp only [List.mem_singleton, List.not_mem_nil] at hc <;> subst hc <;> rfl
  intro c hc d hd _ _
  rw [hdeleted c hc, hdeleted d hd]

lemma publishes_sampleRemote (checkpoints : List Checkpoint) (seqs : List ℕ) :
    (sampleRemote checkpoints seqs).Publishes sampleHistory := by
  intro name _ segment h
  obtain ⟨found, hfound, h⟩ := bind_eq_ok.mp h
  obtain ⟨_, -, h⟩ := bind_eq_ok.mp h
  cases hfound
  cases h
  rfl

lemma publishedState_sample {checkpoints : List Checkpoint} {seqs : List ℕ}
    (h : (publishedState sampleCrates (sampleRemote checkpoints seqs) [] (.ok 10)).isOk = true) :
    publishedState sampleCrates (sampleRemote checkpoints seqs) [] (.ok 10) =
      .ok (sampleState checkpoints seqs) := by
  obtain ⟨state, hs⟩ := exists_eq_ok h
  rw [sampleState, hs]

lemma built_sampleCheckpoint : Built sampleCrates sampleHistory sampleCheckpoint := by
  refine @Built.compacted _ _ (sampleRemote [] [1]) [] (.ok 10) _ "job" _
    (fun _ h => (by cases h)) (publishes_sampleRemote [] [1])
    (publishedState_sample (by decide)) ?_
  obtain ⟨c, hc⟩ := exists_eq_ok
    (x := checkpointOf sampleCrates (sampleState [] [1]) "job") (by decide)
  rw [sampleCheckpoint, hc]

/-- A state built from a checkpoint of the first segment and the listing of the second. -/
theorem compaction_preserves_meaning_checkpointed :
    sampleCheckpoint.coveredPrefixes.prefixOf sampleWriter = 1 ∧
      (sampleState [sampleCheckpoint] [2]).coverage.prefixOf sampleWriter = 2 ∧
      ∃ reference, PublishedCatalog.create.mergeAll sampleCrates [sampleSecond,sampleFirst] =
          .ok reference ∧
        reference.changes = (sampleState [sampleCheckpoint] [2]).changes ∧
        reference.identity sampleCrates =
          (sampleState [sampleCheckpoint] [2]).identity sampleCrates := by
  have hcov : (sampleState [sampleCheckpoint] [2]).coverage.rows = [(sampleWriter,2)] := by
    decide +kernel
  have hfirst : ∀ w, (sampleState [sampleCheckpoint] [2]).coverage.prefixOf w =
      if w = sampleWriter then 2 else 0 := by
    intro w
    rw [Coverage.prefixOf, Table.get, hcov]
    by_cases hw : w = sampleWriter <;> simp [Table.lookup, hw, eq_comm]
  obtain ⟨-, -, -, h⟩ := compaction_preserves_meaning conflictFree_sampleHistory
    (fun c hc => (List.mem_singleton.mp hc) ▸ built_sampleCheckpoint)
    (publishes_sampleRemote [sampleCheckpoint] [2]) (publishedState_sample (by decide +kernel))
  refine ⟨by decide +kernel,by decide +kernel,h _ ?_ (by decide)⟩
  intro c
  constructor
  · intro hc
    rcases List.mem_cons.mp hc with rfl | hc
    · exact ⟨sampleWriter,2,by decide,by rw [hfirst]; simp,by decide⟩
    · exact ⟨sampleWriter,1,by decide,by rw [hfirst]; simp,by simpa [sampleHistory] using hc⟩
  · rintro ⟨w, n, h0, hn, hc⟩
    rw [hfirst] at hn
    split_ifs at hn with hw
    · subst hw
      have hcases : n = 1 ∨ n = 2 := by omega
      rcases hcases with rfl | rfl
      · simp_all [sampleHistory]
      · simp_all [sampleHistory]
    · omega

/-- A listed segment past a gap is not part of the published state. -/
theorem compaction_leaves_out_past_a_gap :
    ∃ state reference, publishedState sampleCrates (sampleRemote [] [1,3]) [] (.ok 10) =
        .ok state ∧
      ConflictFree (published sampleHistory) ∧
      (sampleRemote [] [1,3]).Publishes sampleHistory ∧
      PublishedCatalog.create.mergeAll sampleCrates
        (sampleHistory sampleWriter 1 ++ sampleHistory sampleWriter 3) = .ok reference ∧
      reference.changes ≠ state.changes := by
  obtain ⟨reference, href⟩ := exists_eq_ok (x := PublishedCatalog.create.mergeAll sampleCrates
    (sampleHistory sampleWriter 1 ++ sampleHistory sampleWriter 3)) (by decide)
  refine ⟨_,reference,publishedState_sample (by decide),conflictFree_sampleHistory,
    publishes_sampleRemote [] [1,3],href,?_⟩
  intro h
  have hcount : ((PublishedCatalog.create.mergeAll sampleCrates (sampleHistory sampleWriter 1 ++
      sampleHistory sampleWriter 3)).toOption.bind fun r => r.changes.toOption).map List.length =
        ((sampleState [] [1,3]).changes.toOption).map List.length := by
    rw [href, ← h]
    rfl
  revert hcount
  decide

end RisuNest.External
