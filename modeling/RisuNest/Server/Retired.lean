import RisuNest.Server.Steps

/-! Retirement is permanent: a retired key keeps its deletion, and nothing that is not a
retirement is stored under it or below it. -/
namespace RisuNest.Server
open Wire

/-- What the tables of units, retired keys, parents and journal rows say of one another. -/
structure Retirements (s : Store) : Prop where
  keyed : ∀ k u, s.units.get k = some u → u.key = k
  journalled : ∀ k row, s.journal.get k = some row →
    row.item.key = k ∧ s.units.get k = some row.item.change
  parents : ∀ k u, s.units.get k = some u → ∀ p, IsParent p k →
    s.unitParents.contains (p,k) = true
  onlyParents : ∀ p k, s.unitParents.contains (p,k) = true → IsParent p k
  retired : ∀ k r, s.retired.get k = some r → isRetirement r = true ∧ s.units.get k = some r
  retirement : ∀ k u, s.units.get k = some u → isRetirement u = true → s.retired.get k = some u
  live : ∀ k u, s.units.get k = some u → isRetirement u = false →
    s.retired.get k = none ∧ ∀ p, IsParent p k → s.retired.get p = none

lemma Retirements.genesis (cr : Crates) (libraryId epoch : String) :
    Retirements (Store.genesis cr libraryId epoch) := by
  refine ⟨?_,?_,?_,?_,?_,?_,?_⟩ <;> intros <;> simp_all [Store.genesis, Table.contains]

lemma Retirements.congr {s t : Store} (h : Retirements s) (hu : t.units = s.units)
    (hr : t.retired = s.retired) (hp : t.unitParents = s.unitParents)
    (hj : ∀ k row, t.journal.get k = some row → s.journal.get k = some row) : Retirements t := by
  refine ⟨?_,?_,?_,?_,?_,?_,?_⟩
  · rw [hu]; exact h.keyed
  · intro k row hrow
    rw [hu]
    exact h.journalled k row (hj k row hrow)
  · rw [hu, hp]; exact h.parents
  · rw [hp]; exact h.onlyParents
  · rw [hu, hr]; exact h.retired
  · rw [hu, hr]; exact h.retirement
  · rw [hu, hr]; exact h.live

lemma Retirements.exists_key {s : Store} (h : Retirements s) {k : UnitKey} {r : UnitChange}
    (hk : s.retired.get k = some r) : k.component 0 = "exists" := by
  obtain ⟨hr, hu⟩ := h.retired k r hk
  rw [← h.keyed k r hu]
  exact (isRetirement_iff.mp hr).1

lemma isKey_iff {k : UnitKey} : LibraryFormat.isKey k = true ↔ k = formatKey := by
  rw [LibraryFormat.isKey, decide_eq_true_eq]
  exact ⟨fun h => UnitKey.ext h,fun h => by rw [h]; rfl⟩

lemma not_isParent_formatKey (p : UnitKey) : ¬ IsParent p formatKey := by
  intro h
  exact absurd h (by simp [IsParent, parentComponents, formatKey, component])

namespace Store
variable {cr : Crates} {s t : Store} {p : Pending} {created : ℤ} {level : ℕ}
  {won : List UnitChange} {receipt : PushReceipt}

lemma Accepted.winner_live (a : Accepted cr s p created level won receipt t)
    (h : Retirements s) {c : UnitChange} (hc : c ∈ won) (hr : isRetirement c = false) :
    s.retired.get c.key = none ∧ ∀ q, IsParent q c.key → s.retired.get q = none ∧
      ∀ d ∈ p.request.changes, isRetirement d = true → d.key ≠ q := by
  rw [a.won_eq] at hc
  obtain ⟨hm, hw⟩ := List.mem_filter.mp hc
  cases hf : LibraryFormat.isKey c.key with
  | true =>
    rw [isKey_iff.mp hf]
    refine ⟨?_,fun q hq => absurd hq (not_isParent_formatKey q)⟩
    cases hg : s.retired.get formatKey with
    | none => rfl
    | some r => exact absurd (h.exists_key hg) (by decide)
  | false =>
    obtain ⟨d, ps, -, hps, he⟩ := (a.judged c hm).plain hf
    rw [hw] at he
    have hs : s.suppressed (retiring p.request.changes) ps c = false := by
      cases hs : s.suppressed (retiring p.request.changes) ps c with
      | false => rfl
      | true => simp [hs] at he
    simp only [suppressed, hr, Bool.not_false, Bool.true_and, Bool.or_eq_false_iff,
      Table.contains_eq_false, List.any_eq_false, Bool.or_eq_true, decide_eq_true_eq,
      not_or, Bool.not_eq_true] at hs
    refine ⟨hs.1,?_⟩
    intro q hq
    obtain ⟨hnr, hns⟩ := hs.2 q ((mem_parents hps).mpr hq)
    refine ⟨hns,?_⟩
    rintro d hd hdr rfl
    exact hnr (List.mem_map.mpr ⟨d,List.mem_filter.mpr ⟨hd,hdr⟩,rfl⟩)

lemma Accepted.nodup (a : Accepted cr s p created level won receipt t) (hw : p.WellFormed cr) :
    (p.request.changes.map UnitChange.key).Nodup := nodup_of_validate (hw.valid a.prepared)

lemma Accepted.mem_changes (a : Accepted cr s p created level won receipt t) {c : UnitChange}
    (hc : c ∈ won) : c ∈ p.request.changes := by
  rw [a.won_eq] at hc
  exact (List.mem_filter.mp hc).1

lemma Accepted.eq_of_key (a : Accepted cr s p created level won receipt t)
    (hw : p.WellFormed cr) {c d : UnitChange} (hc : c ∈ p.request.changes)
    (hd : d ∈ p.request.changes) (h : c.key = d.key) : c = d :=
  List.inj_on_of_nodup_map (a.nodup hw) hc hd h

lemma Accepted.retired_cases (a : Accepted cr s p created level won receipt t) (k : UnitKey) :
    (∃ c ∈ won, isRetirement c = true ∧ c.key = k ∧ t.retired.get k = some c) ∨
      (∀ c ∈ won, isRetirement c = true → c.key ≠ k) ∧
        t.retired.get k = s.retired.get k := by
  by_cases h : ∃ c ∈ won, isRetirement c = true ∧ c.key = k
  · obtain ⟨c, hc, hr, rfl⟩ := h
    exact .inl ⟨c,hc,hr,rfl,a.applied.retires c hc hr⟩
  · push Not at h
    exact .inr ⟨h,a.applied.retired k h⟩

lemma Accepted.unit_cases (a : Accepted cr s p created level won receipt t) (k : UnitKey) :
    (∃ c ∈ won, c.key = k ∧ t.units.get k = some c) ∨
      k ∉ won.map UnitChange.key ∧
        (Dropped s won k ∧ t.units.get k = none ∧ t.journal.get k = none ∨
          ¬ Dropped s won k ∧ t.units.get k = s.units.get k ∧
            t.journal.get k = s.journal.get k) := by
  by_cases h : k ∈ won.map UnitChange.key
  · obtain ⟨c, hc, rfl⟩ := List.mem_map.mp h
    exact .inl ⟨c,hc,rfl,a.applied.unit c hc⟩
  · by_cases hd : Dropped s won k
    · exact .inr ⟨h,.inl ⟨hd,a.applied.dropped k h hd⟩⟩
    · exact .inr ⟨h,.inr ⟨hd,a.applied.kept k h hd⟩⟩

lemma Accepted.retirements (a : Accepted cr s p created level won receipt t)
    (hw : p.WellFormed cr) (h : Retirements s) : Retirements t := by
  -- a key retired before the push that no winner retires again is not written at all
  have hquiet : ∀ k r, s.retired.get k = some r →
      (∀ c ∈ won, isRetirement c = true → c.key ≠ k) →
        k ∉ won.map UnitChange.key ∧ ¬ Dropped s won k := by
    intro k r hk hnot
    constructor
    · intro hm
      obtain ⟨c, hc, rfl⟩ := List.mem_map.mp hm
      cases hr : isRetirement c with
      | true => exact hnot c hc hr rfl
      | false =>
        rw [(a.winner_live h hc hr).1] at hk
        cases hk
    · rintro ⟨r', -, hd⟩
      simp [drops, Table.contains, hk] at hd
  refine ⟨?_,?_,?_,?_,?_,?_,?_⟩
  · intro k u hu
    rcases a.unit_cases k with ⟨c, -, rfl, hc⟩ | ⟨-, ⟨-, hn, -⟩ | ⟨-, hs, -⟩⟩
    · rw [hc] at hu
      cases hu
      rfl
    · rw [hn] at hu
      cases hu
    · exact h.keyed k u (hs ▸ hu)
  · intro k row hrow
    rcases a.unit_cases k with ⟨c, hc, rfl, hu⟩ | ⟨-, ⟨-, -, hn⟩ | ⟨-, hs, hj⟩⟩
    · obtain ⟨q, -, -, hi⟩ := a.applied.item c hc
      rw [hi] at hrow
      cases hrow
      exact ⟨rfl,hu⟩
    · rw [hn] at hrow
      cases hrow
    · rw [hs]
      exact h.journalled k row (hj ▸ hrow)
  · intro k u hu q hq
    rcases a.unit_cases k with ⟨c, hc, rfl, -⟩ | ⟨hk, ⟨-, hn, -⟩ | ⟨-, hs, -⟩⟩
    · exact (a.applied.parents c hc q).mpr hq
    · rw [hn] at hu
      cases hu
    · rw [a.applied.otherParents k hk]
      exact h.parents k u (hs ▸ hu) q hq
  · intro q k hqk
    by_cases hk : k ∈ won.map UnitChange.key
    · obtain ⟨c, hc, rfl⟩ := List.mem_map.mp hk
      exact (a.applied.parents c hc q).mp hqk
    · exact h.onlyParents q k (a.applied.otherParents k hk q ▸ hqk)
  · intro k r hk
    rcases a.retired_cases k with ⟨c, hc, hr, rfl, hg⟩ | ⟨hnot, hg⟩
    · rw [hg] at hk
      cases hk
      exact ⟨hr,a.applied.unit r hc⟩
    · rw [hg] at hk
      obtain ⟨hm, hd⟩ := hquiet k r hk hnot
      rw [(a.applied.kept k hm hd).1]
      exact h.retired k r hk
  · intro k u hu hr
    rcases a.unit_cases k with ⟨c, hc, rfl, hg⟩ | ⟨hk, ⟨-, hn, -⟩ | ⟨-, hs, -⟩⟩
    · rw [hg] at hu
      cases hu
      exact a.applied.retires u hc hr
    · rw [hn] at hu
      cases hu
    · rw [a.applied.retired k fun c hc _ e => hk (e ▸ List.mem_map_of_mem hc)]
      exact h.retirement k u (hs ▸ hu) hr
  · intro k u hu hr
    rcases a.unit_cases k with ⟨c, hc, rfl, hg⟩ | ⟨hk, ⟨-, hn, -⟩ | ⟨hd, hs, -⟩⟩
    · rw [hg] at hu
      cases hu
      obtain ⟨hself, hpar⟩ := a.winner_live h hc hr
      constructor
      · rw [a.applied.retired u.key, hself]
        intro d hdw hdr he
        rw [a.eq_of_key hw (a.mem_changes hdw) (a.mem_changes hc) he, hr] at hdr
        cases hdr
      · intro q hq
        obtain ⟨hq1, hq2⟩ := hpar q hq
        rw [a.applied.retired q fun d hdw hdr => hq2 d (a.mem_changes hdw) hdr, hq1]
    · rw [hn] at hu
      cases hu
    · rw [hs] at hu
      obtain ⟨hself, hpar⟩ := h.live k u hu hr
      constructor
      · rw [a.applied.retired k fun c hc _ e => hk (e ▸ List.mem_map_of_mem hc), hself]
      · intro q hq
        rw [a.applied.retired q, hpar q hq]
        rintro r hrw hrr rfl
        refine hd ⟨r,hrw,?_⟩
        rw [drops, hrr, h.parents k u hu r.key hq, Table.contains_eq_false.mpr hself]
        rfl

lemma Accepted.retired_mono (a : Accepted cr s p created level won receipt t) {k : UnitKey}
    (hk : s.retired.contains k = true) : t.retired.contains k = true := by
  rcases a.retired_cases k with ⟨c, -, -, -, hg⟩ | ⟨-, hg⟩
  · simp [Table.contains, hg]
  · rw [Table.contains, hg]
    exact hk

end Store

/-! ### Every run -/

lemma Moved.retirements {cr : Crates} {texts : Set (List UInt8)} {o : Option Op} {s t : System}
    (hv : PendingValid cr texts s) (h : Retirements s.store) (hm : Moved cr texts o s t) :
    Retirements t.store := by
  cases hm with
  | quiet hq => exact h.congr hq.units hq.retired hq.unitParents fun _ _ hj => hq.journal ▸ hj
  | prepared _ _ _ _ _ _ hf =>
    rw [hf]
    exact h.congr rfl rfl rfl fun _ _ hj => hj
  | accepted hs _ _ _ _ _ ha => exact ha.retirements (hv _ hs).1 h
  | pruned _ _ _ hp =>
    rw [hp]
    exact h.congr rfl rfl rfl fun _ _ hj => (Table.get_deleteWhere_eq_some.mp hj).1
  | rotated _ _ hr =>
    rw [hr]
    exact h.congr rfl rfl rfl fun _ _ hj => by cases hj

theorem Reachable.retirements {cr : Crates} {texts : Set (List UInt8)} {s : System}
    (h : Reachable cr texts s) : Retirements s.store :=
  (Reachable.invariant (I := fun s => Retirements s.store)
    (fun libraryId epoch => .genesis cr libraryId epoch)
    (fun _ _ _ hv hi hm => hm.retirements hv hi) h).2

lemma Moved.retired_mono {cr : Crates} {texts : Set (List UInt8)} {o : Option Op}
    {s t : System}
    (hm : Moved cr texts o s t) {k : UnitKey} (hk : s.store.retired.contains k = true) :
    t.store.retired.contains k = true := by
  cases hm with
  | quiet hq =>
    rw [hq.retired]
    exact hk
  | prepared _ _ _ _ _ _ hf =>
    rw [hf]
    exact hk
  | accepted _ _ _ _ _ _ ha => exact ha.retired_mono hk
  | pruned _ _ _ hp =>
    rw [hp]
    exact hk
  | rotated _ _ hr =>
    rw [hr]
    exact hk

/-- In every reachable store nothing but a retirement is stored or journalled under a retired
key or below one, every retired key holds its deletion, and later states keep both. -/
theorem retirement_is_permanent {cr : Crates} {texts : Set (List UInt8)} {s : System}
    (h : Reachable cr texts s) :
    (∀ k u, s.store.units.get k = some u → isRetirement u = false →
      s.store.retired.get k = none ∧ ∀ p, IsParent p k → s.store.retired.get p = none) ∧
    (∀ k row, s.store.journal.get k = some row → isRetirement row.item.change = false →
      s.store.retired.get k = none ∧ ∀ p, IsParent p k → s.store.retired.get p = none) ∧
    (∀ k, s.store.retired.contains k = true →
      ∃ u, s.store.units.get k = some u ∧ u.value = .deleted) ∧
    ∀ t, Relation.ReflTransGen (Step cr texts) s t → ∀ k, s.store.retired.contains k = true →
      t.store.retired.contains k = true ∧ ∃ u, t.store.units.get k = some u ∧ u.value = .deleted := by
  have hdeleted : ∀ {s : System}, Reachable cr texts s → ∀ k, s.store.retired.contains k = true →
      ∃ u, s.store.units.get k = some u ∧ u.value = .deleted := by
    intro s hs k hk
    obtain ⟨r, hr⟩ := Table.contains_iff.mp hk
    obtain ⟨hrr, hu⟩ := hs.retirements.retired k r hr
    exact ⟨r,hu,(isRetirement_iff.mp hrr).2⟩
  refine ⟨h.retirements.live,?_,hdeleted h,?_⟩
  · intro k row hrow hr
    exact h.retirements.live k _ (h.retirements.journalled k row hrow).2 hr
  · intro t path
    -- a step never takes a key out of the retired set
    have hrun := h.run_induct
      (I := fun u => ∀ k, s.store.retired.contains k = true → u.store.retired.contains k = true)
      (fun _ hk => hk) (fun _ _ _ _ hu hm k hk => hm.retired_mono (hu k hk)) path
    exact fun k hk => ⟨hrun.2 k hk,hdeleted hrun.1 k (hrun.2 k hk)⟩

/-- The deleted character stays deleted whatever follows. -/
theorem retirement_is_permanent_deleted :
    (∃ u, sampleDeleted.store.units.get sampleCharacter = some u ∧ u.value = .deleted) ∧
      ∀ t, Relation.ReflTransGen (Step sampleCrates sampleTexts) sampleDeleted t →
        t.store.retired.contains sampleCharacter = true := by
  have deleted : sampleDeleted.store.retired.contains sampleCharacter = true := by
    decide +kernel
  obtain ⟨-, -, h, later⟩ := retirement_is_permanent reachable_sampleDeleted
  exact ⟨h _ deleted,fun t path => (later t path _ deleted).1⟩

end RisuNest.Server
