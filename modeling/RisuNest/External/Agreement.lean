import RisuNest.External.Winners
import RisuNest.Server.Convergence
import RisuNest.Wire.Sizes

/-! Catalogs agree with one another and with the sync server: what the changes of a catalog are
depends on the set of changes merged into it, and it is what a server holds that accepted them. -/
namespace RisuNest.External
open Wire Retirement

lemma length_keyText_character (d e : String) :
    (utf8 (keyText ["exists","character",d])).length ≤
      (utf8 (keyText ["exists","conversation",d,e])).length := by
  have hleft : keyText ["exists","character",d] =
      "[\"exists\",\"character\",".toList ++ (writeString d ++ [']']) := by
    simp [keyText, Control.strings, Control.write, Control.writeItems, writeString, stringTail,
      escape]
  have hright : keyText ["exists","conversation",d,e] =
      "[\"exists\",\"conversation\",".toList ++ (writeString d ++ ([','] ++
        (writeString e ++ [']']))) := by
    simp [keyText, Control.strings, Control.write, Control.writeItems, writeString, stringTail,
      escape]
  have hl : (utf8 "[\"exists\",\"character\",".toList).length = 22 := by decide +kernel
  have hr : (utf8 "[\"exists\",\"conversation\",".toList).length = 25 := by decide +kernel
  rw [hleft, hright]
  simp only [length_utf8_append, hl, hr]
  omega

/-- The keys an existence lives under are shorter than its own, so they can be written. -/
theorem exists_parents_of_exists {k : UnitKey} (h : k.component 0 = "exists") :
    ∃ ps, parents k = .ok ps := by
  obtain ⟨c, hv⟩ := k
  change component c 0 = "exists" at h
  unfold parents
  change ∃ ps, orCorrupt ((parentComponents c).mapM UnitKey.new) = .ok ps
  have hc : parentComponents c = if 3 ≤ c.length ∧ component c 1 = "conversation" then
      [["exists","character",component c 2]] else [] := by
    simp [parentComponents, h]
  rw [hc]
  split_ifs with h3
  · obtain ⟨hl, h1⟩ := h3
    have hk : checkKey ["exists","character",component c 2] = .ok () := by
      unfold checkKey at hv ⊢
      split_ifs at hv with hsize hzero hshape hids
      obtain _ | ⟨a,_ | ⟨b,_ | ⟨d,rest⟩⟩⟩ := c
      iterate 3 simp at hl
      simp only [component, List.getD_cons_zero, List.getD_cons_succ] at h h1
      subst h h1
      obtain _ | ⟨e,_ | ⟨f,r⟩⟩ := rest
      · simp [keyArity, component] at hshape
      · have hd : d ≠ "" := by
          intro he
          simp [structuralIds, component, he] at hids
        have hlen : ¬ maxUnitKeyBytes < (utf8 (keyText ["exists","character",d])).length := by
          intro hlt
          apply hsize
          exact lt_of_lt_of_le hlt (length_keyText_character d e)
        simp [component, keyArity, keyScope, structuralIds, hd, hlen]
      · simp [keyArity, component] at hshape
    refine ⟨[⟨_,hk⟩],?_⟩
    rw [orCorrupt_eq_ok, List.mapM_cons, UnitKey.new_eq_ok.mpr (rfl : (UnitKey.mk _ hk).components = _)]
    rfl
  · exact ⟨[],rfl⟩

/-- Ways of merging: nothing, one change more, or all the changes of another catalog. -/
inductive Plan
  | empty
  | change (before : Plan) (c : UnitChange)
  | group (before part : Plan)

namespace Plan

/-- The changes a plan merges. -/
def leaves : Plan → List UnitChange
  | empty => []
  | change p c => p.leaves ++ [c]
  | group p q => p.leaves ++ q.leaves

/-- The catalog a plan builds. -/
def build (cr : Crates) : Plan → Provided PublishedCatalog
  | empty => .ok .create
  | change p c => do
    let before ← p.build cr
    before.merge cr c
  | group p q => do
    let before ← p.build cr
    let part ← q.build cr
    let changes ← part.changes
    before.mergeAll cr changes

def changes (cr : Crates) (p : Plan) : Provided (List UnitChange) := do
  let cat ← p.build cr
  cat.changes

def identity (cr : Crates) (p : Plan) : Provided String := do
  let cat ← p.build cr
  cat.identity cr

/-- The set of the changes a plan merges. -/
def leafSet (p : Plan) : Set UnitChange := {c | c ∈ p.leaves}

lemma leafSet_change (p : Plan) (c : UnitChange) :
    (change p c).leafSet = p.leafSet ∪ {d | d ∈ [c]} := by
  ext d
  simp [leafSet, leaves, or_comm]

lemma leafSet_group (p q : Plan) : (group p q).leafSet = p.leafSet ∪ q.leafSet := by
  ext d
  simp [leafSet, leaves]

/-- What a plan builds stands for the changes it merges. -/
theorem standsFor {cr : Crates} {p : Plan} {cat : PublishedCatalog}
    (sep : Separated cr p.leafSet) (h : p.build cr = .ok cat) : StandsFor cr p.leafSet cat := by
  induction p generalizing cat with
  | empty =>
    cases h
    have he : leafSet empty = ∅ := by
      ext c
      simp [leafSet, leaves]
    rw [he]
    exact (Catalogued.create cr).standsFor
  | change p c ih =>
    rw [leafSet_change] at sep ⊢
    obtain ⟨before, hb, h⟩ := bind_eq_ok.mp h
    have hm : before.mergeAll cr [c] = .ok cat := foldlM_cons_eq_ok.mpr ⟨cat,h,rfl⟩
    refine (ih (sep.mono Set.subset_union_left) hb).merge sep hm (fun _ hd => hd)
      (fun _ hv => hv) (fun d hd => .inl ⟨d,hd,rfl⟩) ?_
    intro d hd
    rw [List.mem_singleton.mp hd]
    exact (merge_eq_ok h).valid
  | group p q ihp ihq =>
    rw [leafSet_group] at sep ⊢
    obtain ⟨before, hb, h⟩ := bind_eq_ok.mp h
    obtain ⟨part, hq, h⟩ := bind_eq_ok.mp h
    obtain ⟨l, hl, h⟩ := bind_eq_ok.mp h
    have hpart := ihq (sep.mono Set.subset_union_right) hq
    obtain ⟨hmem, hread⟩ := hpart.changes hl
    exact (ihp (sep.mono Set.subset_union_left) hb).mergeShown sep hpart.resolves hmem hread
      hpart.valid h

end Plan

/-! ### When merging goes through -/

/-- A change that can be merged and whose key can be visited. -/
def Fine (cr : Crates) (c : UnitChange) : Prop := Valid cr c ∧ ∃ ps, parents c.key = .ok ps

section
variable {cr : Crates} {K : Set UnitChange} {cat cat' : PublishedCatalog}

lemma readable_iff_parents : Readable cr K ↔ ∀ c ∈ K, ∃ ps, parents c.key = .ok ps := by
  constructor
  · intro h c hc
    rcases h c hc with ⟨d, -, hr, hk⟩ | hps
    · -- what is retired is an existence, and its parents have shorter keys
      apply exists_parents_of_exists
      have hr : isRetirement d = true := hr
      simp only [isRetirement, Bool.and_eq_true, decide_eq_true_eq] at hr
      exact hk ▸ hr.1
    · exact hps
  · exact fun h c hc => .inr (h c hc)

/-- The only failure of the computation is that something is corrupt. -/
def OnlyCorrupt {α : Type} (x : Provided α) : Prop := ∀ e, x = .error e → e = .corrupt

lemma OnlyCorrupt.bind {α β : Type} {x : Provided α} {f : α → Provided β} (h : OnlyCorrupt x)
    (hf : ∀ a, x = .ok a → OnlyCorrupt (f a)) : OnlyCorrupt (x >>= f) := by
  intro e he
  rcases bind_eq_error.mp he with hx | ⟨a, ha, hx⟩
  · exact h e hx
  · exact hf a ha e hx

lemma onlyCorrupt_ok {α : Type} (a : α) : OnlyCorrupt (.ok a) := fun _ h => (by cases h)

lemma onlyCorrupt_require {p : Prop} [Decidable p] : OnlyCorrupt (require p .corrupt) :=
  fun _ h => (require_eq_error.mp h).2.symm

lemma onlyCorrupt_orCorrupt {α : Type} (x : Result α) : OnlyCorrupt (orCorrupt x) := by
  intro e he
  cases x with
  | ok a => cases he
  | error e' => exact (Except.error.inj he).symm

lemma onlyCorrupt_mergeSegment (previous : Option UnitChange) (c : UnitChange) :
    OnlyCorrupt (mergeSegment cr previous c) := by
  cases previous with
  | none => exact onlyCorrupt_ok c
  | some p => exact (onlyCorrupt_orCorrupt _).bind fun _ _ => onlyCorrupt_ok _

lemma onlyCorrupt_merge (cat : PublishedCatalog) (c : UnitChange) :
    OnlyCorrupt (cat.merge cr c) := by
  refine onlyCorrupt_require.bind fun _ _ => (onlyCorrupt_orCorrupt _).bind fun _ _ =>
    (onlyCorrupt_orCorrupt _).bind fun _ _ => OnlyCorrupt.bind ?_ fun _ _ =>
      (onlyCorrupt_mergeSegment _ _).bind fun _ _ => OnlyCorrupt.bind ?_ fun _ _ =>
        onlyCorrupt_ok _
  · exact onlyCorrupt_require.bind fun _ _ => onlyCorrupt_ok _
  · unfold PublishedCatalog.mergeRetirement
    split_ifs
    · exact (onlyCorrupt_mergeSegment _ _).bind fun _ _ => onlyCorrupt_ok _
    · exact onlyCorrupt_ok _

lemma onlyCorrupt_mergeAll (cat : PublishedCatalog) (cs : List UnitChange) :
    OnlyCorrupt (cat.mergeAll cr cs) := by
  induction cs generalizing cat with
  | nil => exact onlyCorrupt_ok cat
  | cons c cs ih =>
    unfold PublishedCatalog.mergeAll at ih ⊢
    rw [List.foldlM_cons]
    exact (onlyCorrupt_merge cat c).bind fun m _ => ih m

lemma StandsFor.onlyCorrupt (h : StandsFor cr K cat) : OnlyCorrupt cat.changes := by
  obtain ⟨H, hcat, -, -⟩ := h.merged
  intro e he
  rcases hcat.changes_cases with ⟨-, l, hl⟩ | ⟨-, herr⟩
  · rw [hl] at he
    cases he
  · rw [herr] at he
    exact (Except.error.inj he).symm

lemma StandsFor.nodup_changes (h : StandsFor cr K cat) {l : List UnitChange}
    (hl : cat.changes = .ok l) : l.Nodup := by
  obtain ⟨H, hcat, -, -⟩ := h.merged
  refine (hcat.changes hl).2.imp fun {a b} hlt he => ?_
  rw [he] at hlt
  exact lt_irrefl _ hlt

lemma StandsFor.exists_mergeAll {cs : List UnitChange} (h : StandsFor cr K cat)
    (free : ConflictFree (K ∪ {c | c ∈ cs})) (hc : ∀ c ∈ cs, Valid cr c)
    (hvis : cat.visited + cs.length < 2^64) : ∃ cat', cat.mergeAll cr cs = .ok cat' := by
  obtain ⟨H, hcat, hsub, -⟩ := h.merged
  exact hcat.exists_mergeAll (free.mono (Set.union_subset_union_left _ hsub)) hc hvis

lemma StandsFor.exists_changes (h : StandsFor cr K cat)
    (hf : ∀ c ∈ K, ∃ ps, parents c.key = .ok ps) : ∃ l, cat.changes = .ok l := by
  obtain ⟨H, hcat, hsub, -⟩ := h.merged
  rcases hcat.changes_cases with ⟨-, l, hl⟩ | ⟨hread, -⟩
  · exact ⟨l,hl⟩
  · exact absurd (readable_iff_parents.mpr fun c hc => hf c (hsub hc)) hread

end

namespace Plan
variable {cr : Crates} {p q : Plan} {cat : PublishedCatalog}

lemma onlyCorrupt_build (sep : Separated cr p.leafSet) : OnlyCorrupt (p.build cr) := by
  induction p with
  | empty => exact onlyCorrupt_ok _
  | change p c ih =>
    rw [leafSet_change] at sep
    exact (ih (sep.mono Set.subset_union_left)).bind fun m _ => onlyCorrupt_merge m c
  | group p q ihp ihq =>
    rw [leafSet_group] at sep
    have sepq := sep.mono Set.subset_union_right
    refine (ihp (sep.mono Set.subset_union_left)).bind fun m _ => (ihq sepq).bind fun part hq => ?_
    exact (standsFor sepq hq).onlyCorrupt.bind fun l _ => onlyCorrupt_mergeAll m l

lemma onlyCorrupt_changes (sep : Separated cr p.leafSet) : OnlyCorrupt (p.changes cr) :=
  (onlyCorrupt_build sep).bind fun _ h => (standsFor sep h).onlyCorrupt

lemma length_changes_le {l : List UnitChange} (sep : Separated cr q.leafSet)
    (hq : q.build cr = .ok cat) (hl : cat.changes = .ok l) : l.length ≤ q.leaves.length := by
  have h := standsFor sep hq
  have hsub : l ⊆ q.leaves := fun c hc => h.resolves.seen_subset (((h.changes hl).1 c).mp hc)
  exact (List.subperm_of_subset (h.nodup_changes hl) hsub).length_le

lemma visited_le (sep : Separated cr p.leafSet) (h : p.build cr = .ok cat) :
    cat.visited ≤ p.leaves.length := by
  induction p generalizing cat with
  | empty =>
    cases h
    exact le_rfl
  | change p c ih =>
    rw [leafSet_change] at sep
    obtain ⟨before, hb, h⟩ := bind_eq_ok.mp h
    have := ih (sep.mono Set.subset_union_left) hb
    rw [(merge_eq_ok h).visited, leaves, List.length_append, List.length_singleton]
    omega
  | group p q ihp ihq =>
    rw [leafSet_group] at sep
    obtain ⟨before, hb, h⟩ := bind_eq_ok.mp h
    obtain ⟨part, hq, h⟩ := bind_eq_ok.mp h
    obtain ⟨l, hl, h⟩ := bind_eq_ok.mp h
    have hp := ihp (sep.mono Set.subset_union_left) hb
    have hlen := length_changes_le (sep.mono Set.subset_union_right) hq hl
    rw [(mergeAll_coverage h).2, leaves, List.length_append]
    omega

lemma exists_build (free : ConflictFree p.leafSet) (hf : ∀ c ∈ p.leaves, Fine cr c)
    (fits : p.leaves.length < 2^64) : ∃ cat, p.build cr = .ok cat := by
  induction p with
  | empty => exact ⟨_,rfl⟩
  | change p c ih =>
    rw [leafSet_change] at free
    rw [leaves, List.length_append, List.length_singleton] at fits
    have hfree := free.mono Set.subset_union_left
    obtain ⟨m, hm⟩ := ih hfree (fun d hd => hf d (by simp [leaves, hd])) (by omega)
    have hvis := visited_le (hfree.separated cr) hm
    obtain ⟨cat, hcat⟩ := (standsFor (hfree.separated cr) hm).exists_mergeAll free
      (fun d hd => (hf d (by simp [leaves, List.mem_singleton.mp hd])).1)
      (by rw [List.length_singleton]; omega)
    obtain ⟨n, hn, -⟩ := foldlM_cons_eq_ok.mp hcat
    exact ⟨n,bind_eq_ok.mpr ⟨m,hm,hn⟩⟩
  | group p q ihp ihq =>
    rw [leafSet_group] at free
    rw [leaves, List.length_append] at fits
    have freep := free.mono Set.subset_union_left
    have freeq := free.mono Set.subset_union_right
    obtain ⟨m, hm⟩ := ihp freep (fun d hd => hf d (by simp [leaves, hd])) (by omega)
    obtain ⟨part, hq⟩ := ihq freeq (fun d hd => hf d (by simp [leaves, hd])) (by omega)
    have hpart := standsFor (freeq.separated cr) hq
    obtain ⟨l, hl⟩ := hpart.exists_changes fun d hd =>
      (hf d (List.mem_append_right _ hd)).2
    have hsub : {c | c ∈ l} ⊆ q.leafSet := fun c hc =>
      hpart.resolves.seen_subset (((hpart.changes hl).1 c).mp hc)
    have hvis := visited_le (freep.separated cr) hm
    have hlen := length_changes_le (freeq.separated cr) hq hl
    obtain ⟨cat, hcat⟩ := (standsFor (freep.separated cr) hm).exists_mergeAll
      (free.mono (Set.union_subset_union_right _ hsub)) (fun d hd => hpart.valid d (hsub hd))
      (by omega)
    exact ⟨cat,bind_eq_ok.mpr ⟨m,hm,bind_eq_ok.mpr ⟨part,hq,bind_eq_ok.mpr ⟨l,hl,hcat⟩⟩⟩⟩

lemma fine_of_changes (sep : Separated cr p.leafSet) {l : List UnitChange}
    (h : p.changes cr = .ok l) : ∀ c ∈ p.leaves, Fine cr c := by
  obtain ⟨cat, hb, hl⟩ := bind_eq_ok.mp h
  have hs := standsFor sep hb
  exact fun c hc => ⟨hs.valid c hc,readable_iff_parents.mp (hs.changes hl).2 c hc⟩

/-- Plans of the same changes visit the same changes, or both find something corrupt. -/
theorem changes_eq (free : ConflictFree p.leafSet) (same : ∀ c, c ∈ q.leaves ↔ c ∈ p.leaves)
    (fitp : p.leaves.length < 2^64) (fitq : q.leaves.length < 2^64) :
    q.changes cr = p.changes cr := by
  have hset : q.leafSet = p.leafSet := Set.ext same
  have freeq : ConflictFree q.leafSet := hset ▸ free
  have sepp := free.separated cr
  have sepq := freeq.separated cr
  by_cases hf : ∀ c ∈ p.leaves, Fine cr c
  · obtain ⟨m, hm⟩ := exists_build free hf fitp
    obtain ⟨n, hn⟩ := exists_build freeq (fun c hc => hf c ((same c).mp hc)) fitq
    have hsn := standsFor sepq hn
    rw [hset] at hsn
    have he := hsn.changes_eq (standsFor sepp hm)
    simp only [changes, hm, hn]
    exact he
  · have herr : ∀ {r : Plan}, Separated cr r.leafSet → (∀ c, c ∈ r.leaves ↔ c ∈ p.leaves) →
        r.changes cr = .error .corrupt := by
      intro r sep hr
      cases h : r.changes cr with
      | ok l => exact absurd (fun c hc => fine_of_changes sep h c ((hr c).mpr hc)) hf
      | error e => rw [onlyCorrupt_changes sep e h]
    rw [herr sepq same, herr sepp fun _ => Iff.rfl]

lemma identity_eq_changes (p : Plan) : p.identity cr = (do
    let l ← p.changes cr
    pure (cr.sha256 (l.flatMap PublishedCatalog.frame))) := by
  unfold identity changes
  cases p.build cr with
  | error e => rfl
  | ok cat => rfl

end Plan

/-! ### What a server holds that accepted the same changes -/

lemma parentComponents_eq (k : UnitKey) :
    Server.parentComponents k.components = parentComponents k.components := by
  obtain ⟨c, hv⟩ := k
  have har : keyArity c = true := by
    by_contra hn
    simp only [Bool.not_eq_true] at hn
    unfold checkKey at hv
    split_ifs at hv with h1 h2 h3 h4
    simp [hn] at h3
  change Server.parentComponents c = parentComponents c
  unfold Server.parentComponents parentComponents
  unfold keyArity at har
  dsimp only at har ⊢
  generalize component c 0 = kind at har ⊢
  by_cases hchar : kind = "character" ∨ kind = "archive"
  · have hlen : 2 ≤ c.length := by
      rcases hchar with rfl | rfl <;> simp at har <;> omega
    simp [hchar, hlen]
  by_cases hconv : kind = "conversation" ∨ kind = "messages"
  · have hlen : 3 ≤ c.length := by
      rcases hconv with rfl | rfl <;> simp at har <;> omega
    have hpre : ¬ (kind = "preset" ∨ kind = "persona") := by
      rcases hconv with rfl | rfl <;> decide
    simp [hchar, hpre, hconv, hlen]
  by_cases hpre : kind = "preset" ∨ kind = "persona"
  · have hlen : 2 ≤ c.length := by
      rcases hpre with rfl | rfl <;> simp at har <;> omega
    have hex : kind ≠ "exists" := by
      rcases hpre with rfl | rfl <;> decide
    simp [hchar, hconv, hex, hpre, hlen]
  -- the other kinds differ only in the check of the length, which their arity makes
  by_cases hex : kind = "exists"
  · subst hex
    by_cases hscope : component c 1 = "conversation"
    · have hlen : c.length = 4 := by simpa [hscope] using har
      simp [hscope, hlen]
    · simp [hscope]
  by_cases hrec : kind = "record"
  · subst hrec
    have hlen : c.length = 3 := by simpa using har
    simp [hlen]
  by_cases hord : kind = "order"
  · subst hord
    by_cases hscope : component c 1 = "conversations"
    · have hlen : c.length = 3 := by simpa [hscope] using har
      simp [hscope, hlen]
    · simp [hscope]
  simp [hchar, hconv, hpre, hex, hrec, hord]

lemma isParent_iff {p k : UnitKey} : Server.IsParent p k ↔ IsParent p k := by
  rw [Server.IsParent, IsParent, parentComponents_eq]

lemma resolves_of_server {cr : Crates} {H : Set UnitChange} {u : UnitKey → Option UnitChange}
    (plain : ∀ c ∈ H, c.key ≠ Server.formatKey) (h : Server.scheme.Resolves H u) :
    (scheme cr).Resolves H u := by
  have hkey : (scheme cr).key = Server.scheme.key := rfl
  have hret : (scheme cr).retires = Server.scheme.retires := rfl
  refine h.transport hkey hret ?_ ?_
  · funext p k
    exact propext isParent_iff.symm
  · intro c hc d hd hk
    refine rank_lt_of_stamp hk ?_
    by_contra hf
    exact plain d hd (Server.isKey_iff.mp ((Bool.not_eq_false _).mp hf))

lemma exists_parents_of_server {k : UnitKey} {ps : List UnitKey}
    (h : Server.parents k = .ok ps) : parents k = .ok ps := by
  rw [Server.parents, Server.lift_eq_ok, parentComponents_eq] at h
  rwa [parents, orCorrupt_eq_ok]

/-- The changes of every remembered acceptance were fine. -/
def Vetted (cr : Crates) (texts : Set (List UInt8)) (s : Server.Store) : Prop :=
  ∀ k row d receipt, s.operations.get k = some row → row.receipt = .accepted d receipt →
    ∃ r : PushRequest, r.digest cr = d ∧ r.toControl.encode ∈ texts ∧
      ∀ c ∈ r.changes, c.key ≠ Server.formatKey → Fine cr c

section
variable {cr : Crates} {texts : Set (List UInt8)} {s t : Server.Store}

lemma valid_of_validateChanges {seen : List UnitKey} {cs : List UnitChange}
    (h : PushRequest.validateChanges cr seen cs = .ok ()) :
    ∀ c ∈ cs, c.stamp.validate = .ok () := by
  induction cs generalizing seen with
  | nil => simp
  | cons c cs ih =>
    unfold PushRequest.validateChanges at h
    obtain ⟨_, hc, h⟩ := bind_eq_ok.mp h
    by_cases hs : c.key ∈ seen
    · simp [hs, bind, Except.bind, throw, throwThe, MonadExceptOf.throw] at h
    simp only [hs, if_false] at h
    rw [List.forall_mem_cons]
    refine ⟨?_,ih h⟩
    obtain ⟨u, hs, -⟩ := bind_eq_ok.mp hc
    exact hs

lemma fine_of_accepted {p : Server.Pending} {created : ℤ} {level : ℕ} {won : List UnitChange}
    {receipt : PushReceipt} (a : Server.Store.Accepted cr s p created level won receipt t)
    (hw : p.WellFormed cr) {c : UnitChange} (hc : c ∈ p.request.changes)
    (hf : c.key ≠ Server.formatKey) : Fine cr c := by
  have hv := hw.valid a.prepared
  unfold PushRequest.validate at hv
  obtain ⟨_, -, hv⟩ := bind_eq_ok.mp hv
  obtain ⟨_, -, hv⟩ := bind_eq_ok.mp hv
  obtain ⟨_, -, hv⟩ := bind_eq_ok.mp hv
  have hne : p.request.changes ≠ [] := List.ne_nil_of_mem hc
  rw [if_neg hne] at hv
  obtain ⟨i, hi, -⟩ := (a.judged c hc).identity
  have hkey : LibraryFormat.isKey c.key = false := by
    by_contra h
    exact hf (Server.isKey_iff.mp ((Bool.not_eq_false _).mp h))
  obtain ⟨d, ps, -, hps, -⟩ := (a.judged c hc).plain hkey
  exact ⟨⟨valid_of_validateChanges hv c hc,i,hi⟩,ps,exists_parents_of_server hps⟩

lemma Vetted.congr (h : Vetted cr texts s) (ho : ∀ k row, t.operations.get k = some row →
    s.operations.get k = some row ∨ ∃ i d e n, row.receipt = .rejected i d e n) :
    Vetted cr texts t := by
  intro k row d receipt hk hrow
  rcases ho k row hk with hk | ⟨_, _, _, _, he⟩
  · exact h k row d receipt hk hrow
  · rw [he] at hrow
    cases hrow

theorem vetted_of_reachable {s : Server.System} (h : Server.Reachable cr texts s) :
    Vetted cr texts s.store := by
  refine (Server.Reachable.invariant (I := fun s => Vetted cr texts s.store) ?_ ?_ h).2
  · intro _ _ k row d receipt hk
    cases hk
  · intro s t o hp hv hm
    cases hm with
    | quiet hq => exact hv.congr hq.operations
    | prepared _ _ _ _ _ _ hf =>
      rw [hf]
      exact hv.congr fun _ _ hk => .inl hk
    | @accepted p created level won accepted hs _ _ _ _ _ ha =>
      obtain ⟨hw, hx⟩ := hp _ hs
      intro k row d receipt hk hrow
      rw [ha.operations, Table.get_insertOrIgnore] at hk
      split_ifs at hk with he
      · cases ho : s.store.operations.get (p.device.id,p.request.operationId) with
        | some old =>
          rw [ho, Option.getD_some] at hk
          exact hv _ row d receipt (by rw [ho, hk]) hrow
        | none =>
          rw [ho, Option.getD_none] at hk
          cases hk
          cases hrow
          exact ⟨_,hw.digest.symm,hx.1,fun c hc hf => fine_of_accepted ha hw hc hf⟩
      · exact hv k row d receipt hk hrow
    | pruned _ _ _ hpr =>
      rw [hpr]
      exact hv.congr fun _ _ hk => .inl
        (Table.get_deleteWhere_eq_some.mp (Table.get_deleteWhere_eq_some.mp hk).1).1
    | rotated _ _ he =>
      rw [he]
      exact hv.congr fun _ _ hk => .inl hk

/-- What a sequence of pushes delivered, each answered with a receipt, is fine. -/
theorem fine_of_pushAll {calls : List (Server.PushCall × ℤ)} (free : CollisionFree cr texts)
    (h : Server.Reachable cr texts ⟨s,none⟩)
    (hx : ∀ p ∈ calls, (Server.Op.beginPush p.1).texts ⊆ texts)
    (hp : s.pushAll cr calls = .ok t) :
    ∀ c ∈ Server.delivered calls, c.key ≠ Server.formatKey → Fine cr c := by
  induction calls generalizing s with
  | nil => simp [Server.delivered]
  | cons p rest ih =>
    obtain ⟨m, hm, hp⟩ := foldlM_cons_eq_ok.mp hp
    obtain ⟨receipt, hm⟩ := Server.Store.pushOne_eq_ok hm
    have hcall := hx p List.mem_cons_self
    have hreach := @Server.Store.reachable_pushAt _ _ _ _ p.2 h hcall
    rw [hm] at hreach
    rintro c ⟨q, hq, hc⟩ hf
    rcases List.mem_cons.mp hq with rfl | hq
    · cases Server.Store.pushAt_eq_ok hm with
      | repeated ho hrow =>
        obtain ⟨r, hd, hr, hall⟩ := vetted_of_reachable h _ _ _ _ ho hrow
        obtain rfl := PushRequest.eq_of_digest free hr (hcall (.inl rfl)) hd
        exact hall c hc hf
      | accepted _ he hw ha => exact fine_of_accepted ha hw (he ▸ hc) hf
    · exact ih hreach (fun r hr => hx r (List.mem_cons_of_mem _ hr)) hp c ⟨q,hq,hc⟩ hf

/-- Catalogs agree: every plan of the same changes visits the same changes and has the same
identity, a sync server that accepted these changes holds exactly those visited, and a plan of
changes two of which survive with one key and stamp and different values is refused. -/
theorem catalog_agrees_with_server (free : CollisionFree cr texts) {p : Plan}
    (known : ∀ c ∈ p.leaves, c.value.toControl.encode ∈ texts)
    (plain : ∀ c ∈ p.leaves, c.key ≠ Server.formatKey) (fits : p.leaves.length < 2^64) :
    (ConflictFree p.leafSet →
      (∀ q : Plan, (∀ c, c ∈ q.leaves ↔ c ∈ p.leaves) → q.leaves.length < 2^64 →
        q.changes cr = p.changes cr ∧ q.identity cr = p.identity cr) ∧
      ∀ s t calls, Server.Reachable cr texts ⟨s,none⟩ → Server.heldChanges s = ∅ →
        (∀ call ∈ calls, (Server.Op.beginPush call.1).texts ⊆ texts) →
        s.pushAll cr calls = .ok t →
        (∀ c, c ∈ p.leaves ↔ c.key ≠ Server.formatKey ∧ c ∈ Server.delivered calls) →
        ∃ l, p.changes cr = .ok l ∧
          ∀ c, c ∈ l ↔ c.key ≠ Server.formatKey ∧ t.units.get c.key = some c) ∧
    ∀ c d, (scheme cr).Survives p.leafSet c → (scheme cr).Survives p.leafSet d →
      c.key = d.key → c.value ≠ d.value → p.build cr = .error .corrupt := by
  have sep : Separated cr p.leafSet := separated_of_collisionFree free known
  refine ⟨fun hfree => ⟨?_,?_⟩,?_⟩
  · intro q same fitq
    have he := @Plan.changes_eq cr _ _ hfree same fits fitq
    exact ⟨he,by rw [Plan.identity_eq_changes, Plan.identity_eq_changes, he]⟩
  · intro s t calls hs hempty hx hp hdel
    have hfine : ∀ c ∈ p.leaves, Fine cr c := by
      intro c hc
      obtain ⟨hf, hd⟩ := (hdel c).mp hc
      exact fine_of_pushAll free hs hx hp c hd hf
    obtain ⟨cat, hcat⟩ := Plan.exists_build hfree hfine fits
    have hstands := Plan.standsFor sep hcat
    obtain ⟨l, hl⟩ := hstands.exists_changes fun c hc => (hfine c hc).2
    refine ⟨l,bind_eq_ok.mpr ⟨cat,hcat,hl⟩,?_⟩
    have hserver := (Server.resolves_pushAll free hs hx
      (Server.Retirements.resolves (s := s) hs.retirements) hp).2
    have hset : Server.heldChanges s ∪
        {c | c.key ≠ Server.formatKey ∧ c ∈ Server.delivered calls} = p.leafSet := by
      ext c
      rw [hempty, Set.empty_union]
      exact (hdel c).symm
    rw [hset] at hserver
    have hsame := hstands.resolves.unique (resolves_of_server plain hserver)
    intro c
    rw [(hstands.changes hl).1, hsame, Server.plainUnits_eq_some]
  · intro c d hc hd hk hne
    cases hb : p.build cr with
    | ok cat =>
      have he := (Plan.standsFor sep hb).resolves.eq_of_survives hc hd hk
      exact absurd (by rw [he]) hne
    | error e => rw [Plan.onlyCorrupt_build sep e hb]

end
/-- The name of a character, and its deletion. -/
def sampleLeft : Plan :=
  .change (.change .empty (Server.deletionAt Server.sampleName 3))
    (Server.deletionAt Server.sampleCharacter 2)

/-- The same changes, the name from a catalog of its own. -/
def sampleRight : Plan :=
  .group (.change .empty (Server.deletionAt Server.sampleCharacter 2))
    (.change .empty (Server.deletionAt Server.sampleName 3))

/-- A catalog that met the child first, one that met it last, and a server agree. -/
theorem catalog_agrees_with_server_childFirst :
    ∃ t l, (Server.sampleLibrary Server.sampleCrates).pushAll Server.sampleCrates
        [(Server.pushName,0),(Server.pushDeletion,0)] = .ok t ∧
      sampleLeft.changes Server.sampleCrates = .ok l ∧
      sampleRight.changes Server.sampleCrates = .ok l ∧
      ∀ c, c ∈ l ↔ c.key ≠ Server.formatKey ∧ t.units.get c.key = some c := by
  have hleaves : sampleLeft.leaves = [Server.deletionAt Server.sampleName 3,
      Server.deletionAt Server.sampleCharacter 2] := rfl
  have hfree : ConflictFree sampleLeft.leafSet := by
    intro c hc d hd _ _
    change c ∈ sampleLeft.leaves at hc
    change d ∈ sampleLeft.leaves at hd
    simp only [hleaves, List.mem_cons, List.not_mem_nil, or_false] at hc hd
    rcases hc with rfl | rfl <;> rcases hd with rfl | rfl <;> rfl
  have hknown : ∀ c ∈ sampleLeft.leaves,
      c.value.toControl.encode ∈ Server.sampleTexts := by
    simp only [hleaves, List.mem_cons, List.not_mem_nil, or_false]
    rintro c (rfl | rfl) <;> exact ⟨_,.head _⟩
  have hplain : ∀ c ∈ sampleLeft.leaves, c.key ≠ Server.formatKey := by
    rw [hleaves]
    decide
  obtain ⟨t, ht⟩ := exists_eq_ok (x := (Server.sampleLibrary Server.sampleCrates).pushAll
    Server.sampleCrates [(Server.pushName,0),(Server.pushDeletion,0)]) (by decide +kernel)
  have hx : ∀ call ∈ [(Server.pushName,(0 : ℤ)),(Server.pushDeletion,0)],
      (Server.Op.beginPush call.1).texts ⊆ Server.sampleTexts := by
    simp only [List.mem_cons, List.not_mem_nil, or_false]
    rintro call (rfl | rfl) <;> exact Server.texts_samplePushes (by simp)
  have hempty : Server.heldChanges (Server.sampleLibrary Server.sampleCrates) = ∅ := by
    refine Set.eq_empty_of_forall_notMem ?_
    rintro c ⟨-, hc⟩
    cases hc
  obtain ⟨hsame, hserver⟩ := (catalog_agrees_with_server Server.collisionFree_sample hknown hplain
    (by rw [hleaves]; decide)).1 hfree
  have hdel : ∀ c, c ∈ sampleLeft.leaves ↔ c.key ≠ Server.formatKey ∧
      c ∈ Server.delivered [(Server.pushName,0),(Server.pushDeletion,0)] := by
    intro c
    have hd : c ∈ Server.delivered [(Server.pushName,0),(Server.pushDeletion,0)] ↔
        c ∈ sampleLeft.leaves := by
      simp [Server.delivered, hleaves, Server.pushName, Server.pushDeletion, Server.samplePush]
    rw [hd]
    exact ⟨fun h => ⟨hplain c h,h⟩,And.right⟩
  obtain ⟨l, hl, hmem⟩ := hserver _ t _ Server.reachable_sampleLibrary hempty hx ht hdel
  refine ⟨t,l,ht,hl,?_,hmem⟩
  rw [(hsame sampleRight ?_ (by decide)).1, hl]
  intro c
  simp [sampleLeft, sampleRight, Plan.leaves, or_comm]

end RisuNest.External
