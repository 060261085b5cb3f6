import RisuNest.Lib.Retirement
import RisuNest.Server.Retired

/-! Pushes converge: what the server holds depends on the set of changes it accepted, not on
their order, grouping, repetition or publishers. -/
namespace RisuNest.Server
open Wire Retirement

/-- Units as a versioned map whose retirements are permanent. -/
def scheme : Scheme UnitKey UnitChange Stamp where
  key := UnitChange.key
  stamp := UnitChange.stamp
  retires := fun c => isRetirement c = true
  parent := IsParent

/-- The units other than the library format. -/
def plainUnits (s : Store) (k : UnitKey) : Option UnitChange :=
  if k = formatKey then none else s.units.get k

lemma plainUnits_eq_some {s : Store} {k : UnitKey} {u : UnitChange} :
    plainUnits s k = some u ↔ k ≠ formatKey ∧ s.units.get k = some u := by
  unfold plainUnits
  split_ifs with h <;> simp [h]

/-- The stored units account for a change: it is held, or something newer is, or its key or a
parent of it is retired. -/
def Reflects (s : Store) (c : UnitChange) : Prop :=
  (isRetirement c = true →
    ∃ w, s.units.get c.key = some w ∧ isRetirement w = true ∧ (c.stamp < w.stamp ∨ c = w)) ∧
  (isRetirement c = false → s.retired.contains c.key = true ∨
    (∃ q, IsParent q c.key ∧ s.retired.contains q = true) ∨
    ∃ w, s.units.get c.key = some w ∧ (c.stamp < w.stamp ∨ c = w))

/-- The texts of the stored values are known, and every remembered acceptance is of a request
whose changes the store accounts for. -/
structure Reflection (cr : Crates) (texts : Set (List UInt8)) (s : Store) : Prop where
  known : ∀ k u, s.units.get k = some u → u.value.toControl.encode ∈ texts
  reflected : ∀ k row d receipt, s.operations.get k = some row →
    row.receipt = .accepted d receipt →
      ∃ r : PushRequest, r.digest cr = d ∧ PushTexts texts r ∧
        (r.changes.map UnitChange.key).Nodup ∧
        ∀ c ∈ r.changes, c.key ≠ formatKey → Reflects s c

namespace Store
variable {cr : Crates} {texts : Set (List UInt8)} {s t : Store} {p : Pending} {created : ℤ}
  {level : ℕ} {won : List UnitChange} {receipt : PushReceipt}

/-- What became of one change of an accepted push. -/
inductive Verdict (s : Store) (cs won : List UnitChange) (c : UnitChange) : Prop
  | won (h : c ∈ won) (hold : ∀ d, s.units.get c.key = some d → d.stamp < c.stamp ∨
      isRetirement c = true ∧ isRetirement d = false)
  | held (h : c ∉ won) {d : UnitChange} (hd : s.units.get c.key = some d)
      (hold : c.stamp < d.stamp ∨ c = d) (hr : isRetirement c = true → isRetirement d = true)
  | suppressed (h : c ∉ won) (hr : isRetirement c = false)
      (hs : s.retired.contains c.key = true ∨ ∃ q, IsParent q c.key ∧
        (s.retired.contains q = true ∨ ∃ r ∈ cs, isRetirement r = true ∧ r.key = q))

lemma Accepted.verdict (a : Accepted cr s p created level won receipt t) (h : Retirements s)
    (free : CollisionFree cr texts) (hk : ∀ k u, s.units.get k = some u →
      u.value.toControl.encode ∈ texts) (hx : PushTexts texts p.request) {c : UnitChange}
    (hc : c ∈ p.request.changes) (hf : c.key ≠ formatKey) :
    Verdict s p.request.changes won c := by
  have hf' : LibraryFormat.isKey c.key = false := by
    cases hh : LibraryFormat.isKey c.key with
    | false => rfl
    | true => exact absurd (isKey_iff.mp hh) hf
  have hmem : c ∈ won ↔
      s.wins cr level p.now (retiring p.request.changes) c = true := by
    rw [a.won_eq, List.mem_filter]
    exact ⟨And.right,fun hw => ⟨hc,hw⟩⟩
  obtain ⟨d, ps, hd, hps, he⟩ := (a.judged c hc).plain hf'
  -- the stored version against the change, when there is one
  have hold : ∀ u, s.units.get c.key = some u →
      d = .applyRemote ∧ u.stamp < c.stamp ∨ d ≠ .applyRemote ∧ (c.stamp < u.stamp ∨ c = u) := by
    intro u hu
    cases hd with
    | absent hn =>
      rw [hn] at hu
      cases hu
    | stored hs hcmp =>
      rw [hs] at hu
      cases hu
      rcases compareVersion_eq_ok hcmp with ⟨rfl, hlt⟩ | ⟨rfl, hlt⟩ | ⟨rfl, heq, i, hi, hj⟩
      · exact .inl ⟨rfl,hlt⟩
      · exact .inr ⟨by decide,.inl hlt⟩
      · refine .inr ⟨by decide,.inr ?_⟩
        have hv := UnitValue.eq_of_identity free (hk _ _ hs) (hx.2 c hc) hi hj
        have hkey := h.keyed _ _ hs
        cases c
        cases u
        simp_all
  cases hs : s.suppressed (retiring p.request.changes) ps c with
  | true =>
    rw [hs] at he
    have hr : isRetirement c = false := by
      cases hr : isRetirement c with
      | false => rfl
      | true => simp [suppressed, hr] at hs
    refine .suppressed (fun hm => by rw [hmem, he] at hm; cases hm) hr ?_
    simp only [suppressed, hr, Bool.not_false, Bool.true_and, Bool.or_eq_true,
      List.any_eq_true, decide_eq_true_eq] at hs
    rcases hs with hs | ⟨q, hq, hs | hs⟩
    · exact .inl hs
    · obtain ⟨r, hr', rfl⟩ := List.mem_map.mp hs
      obtain ⟨hrm, hrr⟩ := List.mem_filter.mp hr'
      exact .inr ⟨r.key,(mem_parents hps).mp hq,.inr ⟨r,hrm,hrr,rfl⟩⟩
    · exact .inr ⟨q,(mem_parents hps).mp hq,.inl hs⟩
  | false =>
    rw [hs, Bool.not_false, Bool.true_and] at he
    cases hw : s.wins cr level p.now (retiring p.request.changes) c with
    | true =>
      refine .won (hmem.mpr hw) ?_
      intro u hu
      rw [hw] at he
      rcases hold u hu with ⟨-, hlt⟩ | ⟨hne, -⟩
      · exact .inl hlt
      · simp only [hne, decide_false, Bool.false_or] at he
        obtain ⟨hr, hn⟩ := (Bool.and_eq_true _ _).mp he.symm
        refine .inr ⟨hr,?_⟩
        cases hur : isRetirement u with
        | false => rfl
        | true =>
          simp [Table.contains, h.retirement _ _ hu hur] at hn
    | false =>
      rw [hw] at he
      obtain ⟨hne, hnr⟩ := Bool.or_eq_false_iff.mp he.symm
      have hne' : d ≠ .applyRemote := by simpa using hne
      cases hu : s.units.get c.key with
      | none =>
        exfalso
        cases hd with
        | absent => exact hne' rfl
        | stored hsu => rw [hsu] at hu; cases hu
      | some u =>
        refine .held (fun hm => by rw [hmem, hw] at hm; cases hm) hu ?_ ?_
        · rcases hold u hu with ⟨hap, -⟩ | ⟨-, hlt⟩
          · exact absurd hap hne'
          · exact hlt
        · intro hr
          rw [hr, Bool.true_and, Bool.not_eq_false', Table.contains_iff] at hnr
          obtain ⟨r, hg⟩ := hnr
          obtain ⟨hrr, hru⟩ := h.retired _ _ hg
          rw [hu] at hru
          cases hru
          exact hrr

lemma Accepted.retires_all (a : Accepted cr s p created level won receipt t)
    (h : Retirements s) (free : CollisionFree cr texts)
    (hk : ∀ k u, s.units.get k = some u → u.value.toControl.encode ∈ texts)
    (hx : PushTexts texts p.request) {c : UnitChange} (hc : c ∈ p.request.changes)
    (hr : isRetirement c = true) : t.retired.contains c.key = true := by
  have hf : c.key ≠ formatKey := fun he => by
    have := (isRetirement_iff.mp hr).1
    rw [he] at this
    exact absurd this (by decide)
  cases a.verdict h free hk hx hc hf with
  | won hm _ => simp [Table.contains, a.applied.retires c hm hr]
  | held _ hd _ hdr =>
    refine a.retired_mono ?_
    simp [Table.contains, h.retirement _ _ hd (hdr hr)]
  | suppressed _ hr' => rw [hr] at hr'; cases hr'

lemma Accepted.unit_of_not_won (a : Accepted cr s p created level won receipt t)
    (h : Retirements s) {k : UnitKey} (hk : k ∉ won.map UnitChange.key) :
    t.units.get k = s.units.get k ∨
      s.retired.get k = none ∧ t.units.get k = none ∧
        ∃ q, IsParent q k ∧ t.retired.contains q = true := by
  by_cases hd : Dropped s won k
  · obtain ⟨r, hr, hdr⟩ := hd
    have hdr' := hdr
    simp only [drops, Bool.and_eq_true, Bool.not_eq_true', Table.contains_eq_false] at hdr'
    obtain ⟨⟨hrr, hp⟩, hn⟩ := hdr'
    refine .inr ⟨hn,(a.applied.dropped k hk ⟨r,hr,hdr⟩).1,r.key,h.onlyParents _ _ hp,?_⟩
    simp [Table.contains, a.applied.retires r hr hrr]
  · exact .inl (a.applied.kept k hk hd).1

lemma Accepted.not_won_key (a : Accepted cr s p created level won receipt t)
    (hw : p.WellFormed cr) {c : UnitChange} (hc : c ∈ p.request.changes) (hn : c ∉ won) :
    c.key ∉ won.map UnitChange.key := by
  intro hm
  obtain ⟨d, hd, he⟩ := List.mem_map.mp hm
  rw [a.eq_of_key hw (a.mem_changes hd) hc he] at hd
  exact hn hd

lemma Accepted.reflects (a : Accepted cr s p created level won receipt t)
    (hw : p.WellFormed cr) (h : Retirements s) (free : CollisionFree cr texts)
    (hk : ∀ k u, s.units.get k = some u → u.value.toControl.encode ∈ texts)
    (hx : PushTexts texts p.request) {c : UnitChange} (hc : c ∈ p.request.changes)
    (hf : c.key ≠ formatKey) : Reflects t c := by
  cases a.verdict h free hk hx hc hf with
  | won hm _ =>
    exact ⟨fun hr => ⟨c,a.applied.unit c hm,hr,.inr rfl⟩,
      fun _ => .inr (.inr ⟨c,a.applied.unit c hm,.inr rfl⟩)⟩
  | held hn hd hold hr =>
    rcases a.unit_of_not_won h (a.not_won_key hw hc hn) with hu | ⟨hret, -, hq⟩
    · exact ⟨fun hcr => ⟨_,hu.trans hd,hr hcr,hold⟩,fun _ => .inr (.inr ⟨_,hu.trans hd,hold⟩)⟩
    · refine ⟨fun hcr => ?_,fun _ => .inr (.inl hq)⟩
      rw [h.retirement _ _ hd (hr hcr)] at hret
      cases hret
  | suppressed _ hr hs =>
    refine ⟨fun hcr => (by rw [hr] at hcr; cases hcr),fun _ => ?_⟩
    rcases hs with hs | ⟨q, hq, hs | ⟨r, hrm, hrr, rfl⟩⟩
    · exact .inl (a.retired_mono hs)
    · exact .inr (.inl ⟨q,hq,a.retired_mono hs⟩)
    · exact .inr (.inl ⟨r.key,hq,a.retires_all h free hk hx hrm hrr⟩)

lemma Accepted.reflects_mono (a : Accepted cr s p created level won receipt t)
    (h : Retirements s) (free : CollisionFree cr texts)
    (hk : ∀ k u, s.units.get k = some u → u.value.toControl.encode ∈ texts)
    (hx : PushTexts texts p.request) {c : UnitChange} (hf : c.key ≠ formatKey)
    (hc : Reflects s c) : Reflects t c := by
  -- the version that accounts for the change, followed through the push
  have hstep : ∀ w, s.units.get c.key = some w → (c.stamp < w.stamp ∨ c = w) →
      (∃ w', t.units.get c.key = some w' ∧ (isRetirement w = true → isRetirement w' = true) ∧
        (c.stamp < w'.stamp ∨ c = w')) ∨
      (isRetirement w = false ∧ (t.retired.contains c.key = true ∨
        ∃ q, IsParent q c.key ∧ t.retired.contains q = true)) := by
    intro w hsw hcw
    by_cases hm : c.key ∈ won.map UnitChange.key
    · obtain ⟨d, hd, he⟩ := List.mem_map.mp hm
      have hdf : d.key ≠ formatKey := by rwa [he]
      have hdu := a.applied.unit d hd
      rw [he] at hdu
      cases a.verdict h free hk hx (a.mem_changes hd) hdf with
      | won _ hold =>
        rcases hold w (he ▸ hsw) with hlt | ⟨hdr, hwr⟩
        · cases hwr : isRetirement w with
          | false =>
            exact .inl ⟨d,hdu,fun h => (by cases h),
              .inl (hcw.elim (fun h => h.trans hlt) fun h => h ▸ hlt)⟩
          | true =>
            have hdr : isRetirement d = true := by
              cases hdr : isRetirement d with
              | true => rfl
              | false =>
                have := (a.winner_live h hd hdr).1
                rw [he, h.retirement _ _ hsw hwr] at this
                cases this
            exact .inl ⟨d,hdu,fun _ => hdr,
              .inl (hcw.elim (fun h => h.trans hlt) fun h => h ▸ hlt)⟩
        · refine .inr ⟨hwr,.inl ?_⟩
          rw [← he, Table.contains, a.applied.retires d hd hdr]
          rfl
      | held hn => exact absurd hd hn
      | suppressed hn => exact absurd hd hn
    · rcases a.unit_of_not_won h hm with hu | ⟨hret, -, hq⟩
      · exact .inl ⟨w,hu.trans hsw,id,hcw⟩
      · refine .inr ⟨?_,.inr hq⟩
        cases hwr : isRetirement w with
        | false => rfl
        | true =>
          rw [h.retirement _ _ hsw hwr] at hret
          cases hret
  constructor
  · intro hr
    obtain ⟨w, hsw, hwr, hcw⟩ := hc.1 hr
    rcases hstep w hsw hcw with ⟨w', hw', hr', hc'⟩ | ⟨hwr', -⟩
    · exact ⟨w',hw',hr' hwr,hc'⟩
    · rw [hwr] at hwr'
      cases hwr'
  · intro hr
    rcases hc.2 hr with hs | ⟨q, hq, hs⟩ | ⟨w, hsw, hcw⟩
    · exact .inl (a.retired_mono hs)
    · exact .inr (.inl ⟨q,hq,a.retired_mono hs⟩)
    · rcases hstep w hsw hcw with ⟨w', hw', -, hc'⟩ | ⟨-, hs⟩
      · exact .inr (.inr ⟨w',hw',hc'⟩)
      · exact hs.elim .inl fun hq => .inr (.inl hq)

end Store

lemma Reflects.congr {s t : Store} {c : UnitChange} (h : Reflects s c)
    (hu : t.units = s.units) (hr : t.retired = s.retired) : Reflects t c := by
  unfold Reflects
  rw [hu, hr]
  exact h

lemma Reflection.congr {cr : Crates} {texts : Set (List UInt8)} {s t : Store}
    (h : Reflection cr texts s) (hu : t.units = s.units) (hr : t.retired = s.retired)
    (ho : ∀ k row, t.operations.get k = some row → s.operations.get k = some row ∨
      ∃ i d e n, row.receipt = .rejected i d e n) : Reflection cr texts t := by
  constructor
  · rw [hu]
    exact h.known
  · intro k row d receipt hk hrow
    rcases ho k row hk with hk | ⟨_, _, _, _, he⟩
    · obtain ⟨r, hd, hx, hn, hc⟩ := h.reflected k row d receipt hk hrow
      exact ⟨r,hd,hx,hn,fun c hm hf => (hc c hm hf).congr hu hr⟩
    · rw [he] at hrow
      cases hrow

lemma Store.Accepted.reflection {cr : Crates} {texts : Set (List UInt8)} {s t : Store}
    {p : Pending} {created : ℤ} {level : ℕ} {won : List UnitChange} {receipt : PushReceipt}
    (a : Accepted cr s p created level won receipt t) (hw : p.WellFormed cr) (h : Retirements s)
    (free : CollisionFree cr texts) (hx : PushTexts texts p.request)
    (hr : Reflection cr texts s) : Reflection cr texts t := by
  constructor
  · intro k u hu
    rcases a.unit_cases k with ⟨c, hc, -, hg⟩ | ⟨-, ⟨-, hn, -⟩ | ⟨-, hs, -⟩⟩
    · rw [hg] at hu
      cases hu
      exact hx.2 _ (a.mem_changes hc)
    · rw [hn] at hu
      cases hu
    · exact hr.known k u (hs ▸ hu)
  · intro k row d receipt' hk hrow
    rw [a.operations, Table.get_insertOrIgnore] at hk
    have hkeep : s.operations.get k = some row →
        ∃ r : PushRequest, r.digest cr = d ∧ PushTexts texts r ∧
          (r.changes.map UnitChange.key).Nodup ∧
          ∀ c ∈ r.changes, c.key ≠ formatKey → Reflects t c := by
      intro hk
      obtain ⟨r, hd, hx', hn, hc⟩ := hr.reflected k row d receipt' hk hrow
      exact ⟨r,hd,hx',hn,fun c hm hf => a.reflects_mono h free hr.known hx hf (hc c hm hf)⟩
    split_ifs at hk with he
    · cases ho : s.operations.get (p.device.id,p.request.operationId) with
      | some old =>
        rw [ho, Option.getD_some] at hk
        exact hkeep (by rw [he, ho, hk])
      | none =>
        rw [ho, Option.getD_none] at hk
        cases hk
        cases hrow
        exact ⟨p.request,hw.digest.symm,hx,a.nodup hw,
          fun c hm hf => a.reflects hw h free hr.known hx hm hf⟩
    · exact hkeep hk

theorem Reachable.reflection {cr : Crates} {texts : Set (List UInt8)} {s : System}
    (free : CollisionFree cr texts) (h : Reachable cr texts s) :
    Reflection cr texts s.store := by
  refine (Reachable.invariant (I := fun s => Retirements s.store ∧ Reflection cr texts s.store)
    ?_ ?_ h).2.2
  · exact fun libraryId epoch => ⟨.genesis cr libraryId epoch,
      ⟨fun _ _ hu => (by cases hu),fun _ _ _ _ hk => (by cases hk)⟩⟩
  · rintro s t o hv ⟨hret, hr⟩ hm
    refine ⟨hm.retirements hv hret,?_⟩
    cases hm with
    | quiet hq => exact hr.congr hq.units hq.retired hq.operations
    | prepared _ _ _ _ _ _ hf =>
      rw [hf]
      exact hr.congr rfl rfl fun _ _ hk => .inl hk
    | accepted hs _ _ _ _ _ ha => exact ha.reflection (hv _ hs).1 hret free (hv _ hs).2 hr
    | pruned _ _ _ hp =>
      rw [hp]
      exact hr.congr rfl rfl fun _ _ hk => .inl
        (Table.get_deleteWhere_eq_some.mp (Table.get_deleteWhere_eq_some.mp hk).1).1
    | rotated _ _ he =>
      rw [he]
      exact hr.congr rfl rfl fun _ _ hk => .inl hk

/-! ### The units are the determined map of what was received -/

/-- The changes a store holds itself. -/
def heldChanges (s : Store) : Set UnitChange :=
  {c | c.key ≠ formatKey ∧ s.units.get c.key = some c}

/-- The changes of a request that are not about the library format. -/
def requestChanges (r : PushRequest) : Set UnitChange :=
  {c | c.key ≠ formatKey ∧ c ∈ r.changes}

lemma ne_formatKey_of_exists {k : UnitKey} (h : k.component 0 = "exists") : k ≠ formatKey := by
  rintro rfl
  exact absurd h (by decide)

lemma retired_iff {H : Set UnitChange} {s : Store} (h : Retirements s)
    (hu : scheme.Resolves H (plainUnits s)) (k : UnitKey) :
    scheme.Retired H k ↔ s.retired.contains k = true := by
  constructor
  · intro hk
    obtain ⟨c, hc, nc⟩ := hu.retired k hk
    have hg := h.retirement k c (plainUnits_eq_some.mp hc).2 nc.1.2
    simp [Table.contains, hg]
  · intro hk
    obtain ⟨r, hr⟩ := Table.contains_iff.mp hk
    obtain ⟨hrr, hru⟩ := h.retired k r hr
    have hne := ne_formatKey_of_exists (h.exists_key hr)
    exact ((hu.held (plainUnits_eq_some.mpr ⟨hne,hru⟩)).2.2).mp hrr

lemma Retirements.resolves {s : Store} (h : Retirements s) :
    scheme.Resolves (heldChanges s) (plainUnits s) := by
  have hsame : ∀ {k : UnitKey} {c d : UnitChange}, c ∈ heldChanges s → c.key = k →
      d ∈ heldChanges s → d.key = k → c = d := by
    rintro k c d hc rfl hd hdk
    have hd' := hd.2
    rw [hdk, hc.2] at hd'
    exact Option.some.inj hd'
  have hheld : ∀ {k : UnitKey} {c : UnitChange}, plainUnits s k = some c →
      c ∈ heldChanges s ∧ c.key = k := by
    intro k c hc
    obtain ⟨hk, hu⟩ := plainUnits_eq_some.mp hc
    have hkey := h.keyed k c hu
    exact ⟨⟨hkey ▸ hk,hkey ▸ hu⟩,hkey⟩
  refine ⟨?_,?_,?_,?_⟩
  · rintro k ⟨c, hc, hr, rfl⟩
    refine ⟨c,plainUnits_eq_some.mpr hc,⟨hc,hr⟩,rfl,?_⟩
    rintro d ⟨hd, -⟩ hdk
    exact .inr (hsame hd hdk hc rfl)
  · rintro k hk ⟨q, hq, c, hc, hr, rfl⟩
    cases hu : plainUnits s k with
    | none => rfl
    | some u =>
      obtain ⟨hum, huk⟩ := hheld hu
      cases hur : isRetirement u with
      | true => exact absurd ⟨u,hum,hur,huk⟩ hk
      | false =>
        have hlive := (h.live k u (plainUnits_eq_some.mp hu).2 hur).2 _ hq
        change s.retired.get c.key = none at hlive
        rw [h.retirement _ _ hc.2 hr] at hlive
        cases hlive
  · intro k _ _ c hc
    obtain ⟨hm, hk⟩ := hheld hc
    exact ⟨hm,hk,fun d hd hdk => .inr (hsame hd hdk hm hk)⟩
  · rintro k _ _ hn c hc rfl
    change plainUnits s c.key = none at hn
    rw [plainUnits_eq_some.mpr hc] at hn
    cases hn

section
variable {cr : Crates} {texts : Set (List UInt8)} {s t : Store} {p : Pending} {created : ℤ}
  {level : ℕ} {won : List UnitChange} {receipt : PushReceipt} {H : Set UnitChange}

lemma Store.Accepted.retired_union (a : Accepted cr s p created level won receipt t)
    (h : Retirements s) (free : CollisionFree cr texts)
    (hk : ∀ k u, s.units.get k = some u → u.value.toControl.encode ∈ texts)
    (hx : PushTexts texts p.request) (hu : scheme.Resolves H (plainUnits s)) (k : UnitKey) :
    scheme.Retired (H ∪ requestChanges p.request) k ↔ t.retired.contains k = true := by
  constructor
  · rintro ⟨c, hc | hc, hr, rfl⟩
    · exact a.retired_mono ((retired_iff h hu _).mp ⟨c,hc,hr,rfl⟩)
    · exact a.retires_all h free hk hx hc.2 hr
  · intro ht
    rcases a.retired_cases k with ⟨c, hc, hr, rfl, -⟩ | ⟨-, hg⟩
    · exact ⟨c,.inr ⟨ne_formatKey_of_exists (isRetirement_iff.mp hr).1,a.mem_changes hc⟩,hr,rfl⟩
    · rw [Table.contains, hg] at ht
      exact ((retired_iff h hu k).mpr ht).mono

/-- An accepted push follows the rule of the versioned map. -/
theorem Store.Accepted.absorbs (a : Accepted cr s p created level won receipt t)
    (hw : p.WellFormed cr) (h : Retirements s) (free : CollisionFree cr texts)
    (hk : ∀ k u, s.units.get k = some u → u.value.toControl.encode ∈ texts)
    (hx : PushTexts texts p.request) (hu : scheme.Resolves H (plainUnits s)) :
    Scheme.Absorbs scheme H (requestChanges p.request) (plainUnits s) (plainUnits t) := by
  have hret := a.retired_union h free hk hx hu
  have hplain : ∀ {s : Store} {k : UnitKey}, k ≠ formatKey → plainUnits s k = s.units.get k :=
    fun hk => if_neg hk
  refine ⟨?_,?_,?_,?_,?_,?_⟩
  · exact fun c hc d hd he => a.eq_of_key hw hc.2 hd.2 he
  · rintro c ⟨hf, hc⟩ hr
    change ∃ w, plainUnits t c.key = some w ∧ _
    rw [hplain hf]
    change ∃ w, t.units.get c.key = some w ∧ isRetirement w = true ∧
      (w = c ∨ plainUnits s c.key = some w) ∧ (c.stamp < w.stamp ∨ c = w) ∧
      ∀ d, plainUnits s c.key = some d → isRetirement d = true → d.stamp < w.stamp ∨ d = w
    rw [hplain hf]
    cases a.verdict h free hk hx hc hf with
    | won hm hold =>
      refine ⟨c,a.applied.unit c hm,hr,.inl rfl,.inr rfl,?_⟩
      intro d hd hdr
      rcases hold d hd with hlt | ⟨-, hdr'⟩
      · exact .inl hlt
      · rw [hdr] at hdr'
        cases hdr'
    | held hn hd hold hdr =>
      rcases a.unit_of_not_won h (a.not_won_key hw hc hn) with hg | ⟨hnr, -⟩
      · refine ⟨_,hg.trans hd,hdr hr,.inr hd,hold,?_⟩
        intro e he _
        rw [hd] at he
        cases he
        exact .inr rfl
      · rw [h.retirement _ _ hd (hdr hr)] at hnr
        cases hnr
    | suppressed _ hr' => rw [hr] at hr'; cases hr'
  · intro k hkr hnone
    have hkr' := (retired_iff h hu k).mp hkr
    obtain ⟨r, hg⟩ := Table.contains_iff.mp hkr'
    have hf := ne_formatKey_of_exists (h.exists_key hg)
    rw [hplain hf, hplain hf]
    have hnw : k ∉ won.map UnitChange.key := by
      intro hm
      obtain ⟨c, hc, rfl⟩ := List.mem_map.mp hm
      cases hr : isRetirement c with
      | true => exact hnone c ⟨hf,a.mem_changes hc⟩ hr rfl
      | false =>
        rw [(a.winner_live h hc hr).1] at hg
        cases hg
    rcases a.unit_of_not_won h hnw with he | ⟨hn, -⟩
    · exact he
    · rw [hg] at hn
      cases hn
  · rintro k hkr ⟨q, hq, hqr⟩
    cases hg : plainUnits t k with
    | none => rfl
    | some u =>
      exfalso
      have ht := a.retirements hw h
      obtain ⟨-, hu'⟩ := plainUnits_eq_some.mp hg
      cases hur : isRetirement u with
      | true =>
        refine hkr ((hret k).mpr ?_)
        simp [Table.contains, ht.retirement k u hu' hur]
      | false =>
        have hlive := (ht.live k u hu' hur).2 q hq
        have hqt := (hret q).mp hqr
        rw [Table.contains, hlive] at hqt
        cases hqt
  · rintro c ⟨hf, hc⟩ hnr hno
    change ¬ scheme.Retired _ c.key at hnr
    change ¬ scheme.Orphaned _ c.key at hno
    change ∃ w, plainUnits t c.key = some w ∧ (w = c ∨ plainUnits s c.key = some w) ∧
      (c.stamp < w.stamp ∨ c = w) ∧
      ∀ d, plainUnits s c.key = some d → d.stamp < w.stamp ∨ d = w
    rw [hplain hf, hplain hf]
    have hr : isRetirement c = false := by
      cases hr : isRetirement c with
      | false => rfl
      | true => exact absurd ⟨c,.inr ⟨hf,hc⟩,hr,rfl⟩ hnr
    cases a.verdict h free hk hx hc hf with
    | won hm hold =>
      refine ⟨c,a.applied.unit c hm,.inl rfl,.inr rfl,?_⟩
      intro d hd
      rcases hold d hd with hlt | ⟨hcr, -⟩
      · exact .inl hlt
      · rw [hr] at hcr
        cases hcr
    | held hn hd hold _ =>
      rcases a.unit_of_not_won h (a.not_won_key hw hc hn) with hg | ⟨-, -, q, hq, hqt⟩
      · refine ⟨_,hg.trans hd,.inr hd,hold,?_⟩
        intro e he
        rw [hd] at he
        cases he
        exact .inr rfl
      · exact absurd ⟨q,hq,(hret q).mpr hqt⟩ hno
    | suppressed _ _ hs =>
      exfalso
      rcases hs with hs | ⟨q, hq, hs | ⟨r, hrm, hrr, rfl⟩⟩
      · exact hnr ((hret _).mpr (a.retired_mono hs))
      · exact hno ⟨q,hq,(hret q).mpr (a.retired_mono hs)⟩
      · exact hno ⟨r.key,hq,(hret _).mpr (a.retires_all h free hk hx hrm hrr)⟩
  · intro k hkr hko hnone
    by_cases hf : k = formatKey
    · simp [plainUnits, hf]
    · rw [hplain hf, hplain hf]
      have hnw : k ∉ won.map UnitChange.key := by
        intro hm
        obtain ⟨c, hc, rfl⟩ := List.mem_map.mp hm
        exact hnone c ⟨hf,a.mem_changes hc⟩ rfl
      rcases a.unit_of_not_won h hnw with hg | ⟨-, -, q, hq, hqt⟩
      · exact hg
      · exact absurd ⟨q,hq,(hret q).mpr hqt⟩ hko

lemma absorbs_reflected {r : PushRequest} (h : Retirements s)
    (hn : (r.changes.map UnitChange.key).Nodup)
    (hr : ∀ c ∈ r.changes, c.key ≠ formatKey → Reflects s c)
    (hu : scheme.Resolves H (plainUnits s)) :
    Scheme.Absorbs scheme H (requestChanges r) (plainUnits s) (plainUnits s) := by
  have hplain : ∀ {k : UnitKey}, k ≠ formatKey → plainUnits s k = s.units.get k :=
    fun hk => if_neg hk
  have hret : ∀ k, scheme.Retired (H ∪ requestChanges r) k → scheme.Retired H k := by
    rintro k ⟨c, hc | ⟨hf, hc⟩, hcr, rfl⟩
    · exact ⟨c,hc,hcr,rfl⟩
    · obtain ⟨w, hw, hwr, -⟩ := (hr c hc hf).1 hcr
      refine (retired_iff h hu _).mpr ?_
      change s.retired.contains c.key = true
      simp [Table.contains, h.retirement _ _ hw hwr]
  refine ⟨?_,?_,fun _ _ _ => rfl,?_,?_,fun _ _ _ _ => rfl⟩
  · exact fun c hc d hd he => List.inj_on_of_nodup_map hn hc.2 hd.2 he
  · rintro c ⟨hf, hc⟩ hcr
    obtain ⟨w, hw, hwr, hcw⟩ := (hr c hc hf).1 hcr
    have hw' : plainUnits s (scheme.key c) = some w := (hplain hf).trans hw
    refine ⟨w,hw',hwr,.inr hw',hcw,?_⟩
    intro d hd _
    rw [hw'] at hd
    cases hd
    exact .inr rfl
  · rintro k hk ⟨q, hq, hqr⟩
    exact hu.orphaned k (fun h => hk h.mono) ⟨q,hq,hret q hqr⟩
  · rintro c ⟨hf, hc⟩ hnr hno
    have hcr : isRetirement c = false := by
      cases hcr : isRetirement c with
      | false => rfl
      | true => exact absurd ⟨c,.inr ⟨hf,hc⟩,hcr,rfl⟩ hnr
    rcases (hr c hc hf).2 hcr with hs | ⟨q, hq, hs⟩ | ⟨w, hw, hcw⟩
    · exact absurd ((retired_iff h hu _).mpr hs).mono hnr
    · exact absurd ⟨q,hq,((retired_iff h hu _).mpr hs).mono⟩ hno
    · have hw' : plainUnits s (scheme.key c) = some w := (hplain hf).trans hw
      refine ⟨w,hw',.inr hw',hcw,?_⟩
      intro d hd
      rw [hw'] at hd
      cases hd
      exact .inr rfl

end

/-! ### Sequences of pushes -/

namespace Store
variable {cr : Crates} {texts : Set (List UInt8)} {s t u : Store} {call : PushCall} {created : ℤ}
  {receipt : PushReceipt}

lemma replay_eq_some {device : Device} {id digest : String}
    (h : s.replay device id digest = .ok (some receipt)) :
    ∃ row, s.operations.get (device.id,id) = some row ∧
      row.receipt = .accepted digest receipt := by
  unfold replay at h
  cases ho : s.operations.get (device.id,id) with
  | none =>
    rw [ho] at h
    cases h
  | some row =>
    simp only [ho] at h
    split_ifs at h with hd
    refine ⟨row,rfl,?_⟩
    cases hr : row.receipt with
    | accepted d r =>
      simp only [hr] at h
      cases h
      rw [hr, OperationReceipt.bodyDigest, not_not] at hd
      rw [hd]
    | rejected i d e n =>
      simp only [hr] at h
      cases hs : row.errorStatus with
      | none => simp [hs] at h
      | some status => simp [hs] at h

/-- A push that is answered with a receipt was accepted before or is accepted now. -/
inductive Answered (cr : Crates) (s : Store) (call : PushCall) (created : ℤ)
    (receipt : PushReceipt) : Store → Prop
  | repeated {row : OperationRow}
      (ho : s.operations.get (call.device.id,call.request.operationId) = some row)
      (hr : row.receipt = .accepted (call.request.digest cr) receipt) :
      Answered cr s call created receipt s
  | accepted {p : Pending} {level : ℕ} {won : List UnitChange} {m t : Store}
      (hm : IndexFrame s m) (hp : p.request = call.request) (hw : p.WellFormed cr)
      (h : Accepted cr m p created level won receipt t) : Answered cr s call created receipt t

theorem pushAt_eq_ok (h : s.pushAt cr call created = (.ok receipt,t)) :
    Answered cr s call created receipt t := by
  unfold pushAt at h
  have hb : Began cr s call _ _ := beginPush_cases s call
  revert h hb
  generalize s.beginPush cr call = began
  obtain ⟨answer, m⟩ := began
  intro h hb
  have hfinish : ∀ {p : Pending} {m : Store}, m.finishPush cr p created = (.ok receipt,t) →
      p.WellFormed cr → p.request = call.request → IndexFrame s m →
      m.replay p.device p.request.operationId p.digest = .ok none →
      Answered cr s call created receipt t := by
    intro p m h hw hp hm hr
    have hf : Finished cr m p created _ _ := finishPush_cases hw created
    rw [h] at hf
    cases hf with
    | repeated _ hr' =>
      rw [hr] at hr'
      cases hr'
    | accepted _ _ _ _ ha => exact .accepted hm hp hw ha
  cases hb with
  | invalid | refused | denied => cases h
  | repeated _ hr =>
    cases h
    obtain ⟨row, ho, hrow⟩ := replay_eq_some hr
    exact .repeated ho hrow
  | invalidRequest _ hr =>
    exact hfinish h ⟨rfl,fun h => by cases h⟩ rfl rfl hr
  | prepared _ hr hv =>
    have hm : IndexFrame s (s.prepareDescriptors cr call.request.changes).2 :=
      prepareChanges_frame s .empty call.request.changes
    revert h hm
    generalize s.prepareDescriptors cr call.request.changes = prepared
    obtain ⟨preparation, m⟩ := prepared
    intro h hm
    dsimp only at h hm
    have ho : m.operations = s.operations := by rw [hm]
    refine hfinish h ⟨rfl,fun _ => hv⟩ rfl hm ?_
    rw [replay, ho]
    exact hr

lemma reachable_pushAt (h : Reachable cr texts ⟨s,none⟩)
    (hx : (Op.beginPush call).texts ⊆ texts) :
    Reachable cr texts ⟨(s.pushAt cr call created).2,none⟩ := by
  have hb := h.step (.op (.beginPush call) hx)
  simp only [System.exec] at hb
  unfold pushAt
  revert hb
  generalize s.beginPush cr call = began
  obtain ⟨answer | p, m⟩ := began
  · exact id
  · exact fun hb => hb.step (.op (.finishPush created) (Set.empty_subset _))

/-- The store after a push that is answered with a receipt. -/
def pushOne (cr : Crates) (s : Store) (p : PushCall × ℤ) : Answer Store :=
  let answered := s.pushAt cr p.1 p.2
  answered.1.map fun _ => answered.2

lemma pushOne_eq_ok {p : PushCall × ℤ} (h : s.pushOne cr p = .ok t) :
    ∃ receipt, s.pushAt cr p.1 p.2 = (.ok receipt,t) := by
  unfold pushOne at h
  generalize s.pushAt cr p.1 p.2 = answered at h ⊢
  obtain ⟨answer, u⟩ := answered
  cases answer with
  | error e => cases h
  | ok receipt =>
    cases h
    exact ⟨receipt,rfl⟩

/-- Pushes one after another, each of which has to be answered with a receipt. -/
def pushAll (cr : Crates) (s : Store) (calls : List (PushCall × ℤ)) : Answer Store :=
  calls.foldlM (pushOne cr) s

end Store

/-- The changes a sequence of pushes delivers. -/
def delivered (calls : List (PushCall × ℤ)) : Set UnitChange :=
  {c | ∃ call ∈ calls, c ∈ call.1.request.changes}

/-- The versions that decide what the units are: those held at the start, and those delivered. -/
def received (s : Store) (calls : List (PushCall × ℤ)) : Set UnitChange :=
  heldChanges s ∪ {c | c.key ≠ formatKey ∧ c ∈ delivered calls}

section
variable {cr : Crates} {texts : Set (List UInt8)} {s t u : Store}

lemma resolves_pushAt {call : PushCall} {created : ℤ} {receipt : PushReceipt}
    {H : Set UnitChange} (free : CollisionFree cr texts) (h : Reachable cr texts ⟨s,none⟩)
    (hx : PushTexts texts call.request) (hu : scheme.Resolves H (plainUnits s))
    (hp : s.pushAt cr call created = (.ok receipt,t)) :
    scheme.Resolves (H ∪ requestChanges call.request) (plainUnits t) := by
  have hret : Retirements s := h.retirements
  have hrefl : Reflection cr texts s := h.reflection free
  refine hu.absorb ?_
  cases Store.pushAt_eq_ok hp with
  | repeated ho hrow =>
    obtain ⟨r, hd, hr, hn, hc⟩ := hrefl.reflected _ _ _ _ ho hrow
    obtain rfl := PushRequest.eq_of_digest free hr.1 hx.1 hd
    exact absorbs_reflected hret hn hc hu
  | accepted hm hq hw ha =>
    -- the preparation of the push leaves the units and the retired keys alone
    rename_i p level won m
    have hu' : m.units = s.units := by rw [hm]
    have hr' : m.retired = s.retired := by rw [hm]
    have hmret : Retirements m := hret.congr hu' hr' (by rw [hm]) fun k row hj => by
      rw [hm] at hj
      exact hj
    have hplain : plainUnits m = plainUnits s := by
      unfold plainUnits
      rw [hu']
    rw [← hq] at hx ⊢
    rw [← hplain] at hu ⊢
    refine ha.absorbs hw hmret free ?_ hx hu
    rw [hu']
    exact hrefl.known

/-- After any sequence of accepted pushes the units are the map determined by what was
received. -/
theorem resolves_pushAll {calls : List (PushCall × ℤ)} {H : Set UnitChange}
    (free : CollisionFree cr texts) (h : Reachable cr texts ⟨s,none⟩)
    (hx : ∀ p ∈ calls, (Op.beginPush p.1).texts ⊆ texts)
    (hu : scheme.Resolves H (plainUnits s)) (hp : s.pushAll cr calls = .ok t) :
    Reachable cr texts ⟨t,none⟩ ∧
      scheme.Resolves (H ∪ {c | c.key ≠ formatKey ∧ c ∈ delivered calls}) (plainUnits t) := by
  induction calls generalizing s H with
  | nil =>
    cases hp
    refine ⟨h,?_⟩
    have he : {c | c.key ≠ formatKey ∧ c ∈ delivered []} = (∅ : Set UnitChange) := by
      ext c
      simp [delivered]
    rw [he, Set.union_empty]
    exact hu
  | cons p rest ih =>
    rw [Store.pushAll, List.foldlM_cons] at hp
    obtain ⟨m, hm, hp⟩ := bind_eq_ok.mp hp
    obtain ⟨receipt, hm⟩ := Store.pushOne_eq_ok hm
    have hcall := hx p (by simp)
    have htexts : PushTexts texts p.1.request :=
      ⟨hcall (.inl rfl),fun c hc => hcall (.inr ⟨c,hc,rfl⟩)⟩
    have hreach : Reachable cr texts ⟨(s.pushAt cr p.1 p.2).2,none⟩ :=
      Store.reachable_pushAt h hcall
    rw [hm] at hreach
    obtain ⟨ht, hres⟩ := ih hreach (fun q hq => hx q (by simp [hq]))
      (resolves_pushAt free h htexts hu hm) hp
    refine ⟨ht,?_⟩
    have he : H ∪ requestChanges p.1.request ∪ {c | c.key ≠ formatKey ∧ c ∈ delivered rest} =
        H ∪ {c | c.key ≠ formatKey ∧ c ∈ delivered (p :: rest)} := by
      ext c
      simp only [requestChanges, delivered, List.mem_cons, Set.mem_union, Set.mem_ofPred_eq,
        exists_eq_or_imp, and_or_left, or_assoc]
    rwa [he] at hres

/-- Two sequences of accepted pushes that deliver the same changes to a reachable store, in any
order and grouping, leave the same units and the same retired keys: those that the changes
determine. -/
theorem push_converges (free : CollisionFree cr texts) (h : Reachable cr texts ⟨s,none⟩)
    {left right : List (PushCall × ℤ)}
    (hl : ∀ p ∈ left, (Op.beginPush p.1).texts ⊆ texts)
    (hr : ∀ p ∈ right, (Op.beginPush p.1).texts ⊆ texts)
    (same : delivered left = delivered right)
    (ht : s.pushAll cr left = .ok t) (hu : s.pushAll cr right = .ok u) :
    (∀ k, k ≠ formatKey → t.units.get k = u.units.get k) ∧
    (∀ k, t.retired.get k = u.retired.get k) ∧
    scheme.Resolves (received s left) (plainUnits t) ∧
    ∀ k r, t.retired.get k = some r ↔ t.units.get k = some r ∧ isRetirement r = true := by
  have hres : scheme.Resolves (heldChanges s) (plainUnits s) :=
    Retirements.resolves (s := s) h.retirements
  obtain ⟨hst, htres⟩ := resolves_pushAll free h hl hres ht
  obtain ⟨hsu, hures⟩ := resolves_pushAll free h hr hres hu
  rw [← same] at hures
  have hplain := htres.unique hures
  have hunits : ∀ k, k ≠ formatKey → t.units.get k = u.units.get k := by
    intro k hk
    have := congrFun hplain k
    rwa [plainUnits, plainUnits, if_neg hk, if_neg hk] at this
  have hretired : ∀ {v : Store}, Reachable cr texts ⟨v,none⟩ → ∀ k r,
      v.retired.get k = some r ↔ v.units.get k = some r ∧ isRetirement r = true :=
    fun hv k r => ⟨fun hk => (hv.retirements.retired k r hk).symm,
      fun hk => hv.retirements.retirement k r hk.1 hk.2⟩
  refine ⟨hunits,?_,htres,hretired hst⟩
  intro k
  ext r
  rw [hretired hst, hretired hsu]
  refine and_congr_left fun hrr => ?_
  by_cases hk : k = formatKey
  · -- the format key is no `exists` key, so it holds no retirement
    have hno : ∀ {v : Store}, Reachable cr texts ⟨v,none⟩ → v.units.get k ≠ some r := by
      intro v hv hg
      have hkey := hv.retirements.keyed k r hg
      exact ne_formatKey_of_exists (isRetirement_iff.mp hrr).1 (hkey.trans hk)
    exact ⟨fun hg => absurd hg (hno hst),fun hg => absurd hg (hno hsu)⟩
  · rw [hunits k hk]

end
/-- A deletion after its child and one in the same batch end alike. -/
theorem push_converges_childFirst :
    ∃ t u, (sampleLibrary sampleCrates).pushAll sampleCrates [(pushName,0),(pushDeletion,0)] =
        .ok t ∧
      (sampleLibrary sampleCrates).pushAll sampleCrates [(pushBoth,0)] = .ok u ∧
      (∀ k, k ≠ formatKey → t.units.get k = u.units.get k) ∧
      ∀ k, t.retired.get k = u.retired.get k := by
  obtain ⟨t, ht⟩ : ∃ t, (sampleLibrary sampleCrates).pushAll sampleCrates
      [(pushName,0),(pushDeletion,0)] = .ok t := exists_eq_ok (by decide +kernel)
  obtain ⟨u, hu⟩ : ∃ u, (sampleLibrary sampleCrates).pushAll sampleCrates
      [(pushBoth,0)] = .ok u := exists_eq_ok (by decide +kernel)
  have hl : ∀ p ∈ [(pushName,(0 : ℤ)),(pushDeletion,0)],
      (Op.beginPush p.1).texts ⊆ sampleTexts := by
    intro p hp
    refine texts_samplePushes ?_
    simp only [List.mem_cons, List.not_mem_nil, or_false] at hp ⊢
    rcases hp with rfl | rfl <;> simp
  have hr : ∀ p ∈ [(pushBoth,(0 : ℤ))], (Op.beginPush p.1).texts ⊆ sampleTexts := by
    intro p hp
    rw [List.mem_singleton] at hp
    subst hp
    exact texts_samplePushes (by simp)
  have same : delivered [(pushName,0),(pushDeletion,0)] = delivered [(pushBoth,0)] := by
    ext c
    simp [delivered, pushName, pushDeletion, pushBoth, samplePush]
  obtain ⟨h1, h2, -⟩ :=
    push_converges collisionFree_sample reachable_sampleLibrary hl hr same ht hu
  exact ⟨t,u,ht,hu,h1,h2⟩

end RisuNest.Server
