import RisuNest.Server.Heads

/-! The format level of the library only rises, stays within what this build knows, and decides
what the library may hold. -/
namespace RisuNest.Server
open Wire

namespace Store
variable {cr : Crates} {s t : Store} {p : Pending} {created : ℤ} {level : ℕ}
  {won : List UnitChange} {receipt : PushReceipt}

lemma storedFormat_congr (h : t.units.get formatKey = s.units.get formatKey) :
    t.storedFormat cr = s.storedFormat cr := by
  unfold storedFormat
  rw [h]

lemma level_of_raisesLevel {c : UnitChange} (h : raisesLevel cr level c = .ok true) :
    ∃ next, LibraryFormat.level cr c.value = some next ∧ level < next := by
  unfold raisesLevel at h
  split at h
  · contradiction
  · split at h
    · contradiction
    · next next hn =>
      split_ifs at h with hlt
      exact ⟨next,(Option.filter_eq_some_iff.mp hn).1,by simpa using Except.ok.inj h⟩

lemma level_le_of_known {cs : List UnitChange} {c : UnitChange} {next : ℕ}
    (h : unknownLevel cr cs = false) (hc : c ∈ cs) (hk : c.key = formatKey)
    (hn : LibraryFormat.level cr c.value = some next) : next ≤ libraryFormatMaxLevel := by
  unfold unknownLevel at h
  rw [List.any_eq_false] at h
  have hnot := h c hc
  rw [isKey_iff.mpr hk,hn] at hnot
  simpa using hnot

lemma plain_of_wins {now : ℕ} {retiring : List UnitKey} {c : UnitChange}
    (h : s.wins cr 1 now retiring c = true) : needsLevelTwo c = false := by
  unfold wins at h
  cases hj : s.judge cr 1 now retiring c with
  | error e =>
    rw [hj] at h
    contradiction
  | ok b =>
    unfold judge at hj
    obtain ⟨_,-,hj⟩ := bind_eq_ok.mp hj
    obtain ⟨_,-,hj⟩ := bind_eq_ok.mp hj
    obtain ⟨_,-,hj⟩ := bind_eq_ok.mp hj
    obtain ⟨_,-,hj⟩ := bind_eq_ok.mp hj
    obtain ⟨_,-,hj⟩ := bind_eq_ok.mp hj
    cases hf : LibraryFormat.isKey c.key with
    | true =>
      have hne : c.key.component 0 ≠ "plugin-local" := by
        rw [isKey_iff.mp hf]
        decide
      unfold needsLevelTwo
      split
      · simp [hne]
      · rfl
    | false =>
      rw [hf,if_neg Bool.false_ne_true] at hj
      obtain ⟨_,hr,-⟩ := bind_eq_ok.mp hj
      have hnot := require_eq_ok.mp hr
      cases hn : needsLevelTwo c with
      | false => rfl
      | true => exact absurd ⟨rfl,hn⟩ hnot

lemma Accepted.format (a : Accepted cr s p created level won receipt t) (hr : Retirements s)
    (hu : unknownLevel cr p.request.changes = false) :
    (∀ c ∈ won, c.key ≠ formatKey) ∧ t.units.get formatKey = s.units.get formatKey ∨
      ∃ c ∈ won, c.key = formatKey ∧ t.units.get formatKey = some c ∧
        ∃ next, LibraryFormat.level cr c.value = some next ∧ level < next ∧
          next ≤ libraryFormatMaxLevel := by
  by_cases hk : formatKey ∈ won.map UnitChange.key
  · obtain ⟨c,hc,hck⟩ := List.mem_map.mp hk
    have hunit := a.applied.unit c hc
    have hwon := hc
    rw [a.won_eq] at hwon
    obtain ⟨hmem,hw⟩ := List.mem_filter.mp hwon
    have hj := (a.judged c hmem).format (isKey_iff.mpr hck)
    rw [hw] at hj
    obtain ⟨next,hn,hlt⟩ := level_of_raisesLevel hj
    rw [hck] at hunit
    exact .inr ⟨c,hc,hck,hunit,next,hn,hlt,level_le_of_known hu hmem hck hn⟩
  · have hd : ¬ Dropped s won formatKey := by
      rintro ⟨r,-,hdrop⟩
      unfold drops at hdrop
      simp only [Bool.and_eq_true] at hdrop
      exact not_isParent_formatKey _ (hr.onlyParents _ _ hdrop.1.2)
    refine .inl ⟨fun c hc he => hk ?_,(a.applied.kept _ hk hd).1⟩
    rw [← he]
    exact List.mem_map_of_mem hc

lemma storedFormat_of_unit {c : UnitChange} {next : ℕ} (h : t.units.get formatKey = some c)
    (hn : LibraryFormat.level cr c.value = some next) : t.storedFormat cr = .ok next := by
  unfold storedFormat
  rw [h]
  simp only [hn]

lemma Accepted.storedFormat (a : Accepted cr s p created level won receipt t) (hr : Retirements s)
    (hl : s.storedFormat cr = .ok level) (hu : unknownLevel cr p.request.changes = false) :
    t.storedFormat cr = .ok (((won.find? fun c => LibraryFormat.isKey c.key).bind fun c =>
      LibraryFormat.level cr c.value).getD level) := by
  rcases a.format hr hu with ⟨hnone,hkeep⟩ | ⟨c,hc,hck,hunit,next,hn,-,-⟩
  · have hfind : (won.find? fun c => LibraryFormat.isKey c.key) = none := by
      rw [List.find?_eq_none]
      intro c hc hk
      exact hnone c hc (isKey_iff.mp hk)
    rw [hfind,storedFormat_congr hkeep,hl]
    rfl
  · cases hfind : won.find? fun c => LibraryFormat.isKey c.key with
    | none => exact absurd (isKey_iff.mpr hck) (by simpa using List.find?_eq_none.mp hfind c hc)
    | some d =>
      have hd := a.applied.unit d (List.mem_of_find?_eq_some hfind)
      have hdk : d.key = formatKey := by
        apply isKey_iff.mp
        have := List.find?_some hfind
        exact this
      rw [hdk] at hd
      obtain rfl := Option.some.inj (hunit.symm.trans hd)
      rw [storedFormat_of_unit hunit hn,Option.bind_some,hn,Option.getD_some]

end Store

/-- What the format level promises: it is within what this build knows, and a library at level 1
holds nothing that needs level 2. -/
structure Formatted (cr : Crates) (s : Store) : Prop where
  level : ∃ level, s.storedFormat cr = .ok level ∧ 1 ≤ level ∧ level ≤ libraryFormatMaxLevel
  plain : s.storedFormat cr = .ok 1 → ∀ k c, s.units.get k = some c → needsLevelTwo c = false

lemma Formatted.congr {cr : Crates} {s t : Store} (h : Formatted cr s) (hu : t.units = s.units) :
    Formatted cr t := by
  have he : t.storedFormat cr = s.storedFormat cr := Store.storedFormat_congr (by rw [hu])
  exact ⟨by rw [he]; exact h.level,by rw [he,hu]; exact h.plain⟩

lemma formatted_genesis (cr : Crates) (libraryId epoch : String) :
    Formatted cr (Store.genesis cr libraryId epoch) :=
  ⟨⟨1,rfl,le_rfl,by decide⟩,fun _ k c hc => nomatch hc⟩

lemma Moved.formatted {cr : Crates} {texts : Set (List UInt8)} {o : Option Op} {s t : System}
    (hm : Moved cr texts o s t) (hr : Retirements s.store) (h : Formatted cr s.store) :
    Formatted cr t.store ∧ ∀ level next, s.store.storedFormat cr = .ok level →
      t.store.storedFormat cr = .ok next → level ≤ next := by
  have hsame : t.store.units = s.store.units → Formatted cr t.store ∧
      ∀ level next, s.store.storedFormat cr = .ok level →
        t.store.storedFormat cr = .ok next → level ≤ next := by
    intro hu
    refine ⟨h.congr hu,fun level next hl hn => ?_⟩
    have he : t.store.storedFormat cr = s.store.storedFormat cr :=
      Store.storedFormat_congr (by rw [hu])
    exact (Except.ok.inj (hl.symm.trans (he.symm.trans hn))).le
  cases hm with
  | quiet hq => exact hsame hq.units
  | prepared _ _ _ _ _ _ hf => exact hsame (by rw [hf])
  | pruned _ _ _ hp => exact hsame (by rw [hp]; rfl)
  | rotated _ _ hp => exact hsame (by rw [hp]; rfl)
  | @accepted p created level won receipt _ _ _ _ hl hu ha =>
    obtain ⟨level',hl',hone,hmax⟩ := h.level
    obtain rfl := Except.ok.inj (hl.symm.trans hl')
    rcases ha.format hr hu with ⟨-,hkeep⟩ | ⟨c,-,-,hunit,next,hlevel,hlt,hle⟩
    · have he : _ = s.store.storedFormat cr := Store.storedFormat_congr hkeep
      refine ⟨⟨⟨level,he.trans hl,hone,hmax⟩,fun h1 k c hc => ?_⟩,fun a b hx hy => ?_⟩
      · obtain rfl := Except.ok.inj (hl.symm.trans (he.symm.trans h1))
        by_cases hk : k ∈ won.map UnitChange.key
        · obtain ⟨d,hd,rfl⟩ := List.mem_map.mp hk
          obtain rfl := Option.some.inj (hc.symm.trans (ha.applied.unit d hd))
          rw [ha.won_eq] at hd
          exact Store.plain_of_wins (List.mem_filter.mp hd).2
        · by_cases hdrop : Store.Dropped s.store won k
          · exact nomatch hc.symm.trans (ha.applied.dropped k hk hdrop).1
          · exact h.plain hl k c ((ha.applied.kept k hk hdrop).1.symm.trans hc)
      · exact (Except.ok.inj (hx.symm.trans (he.symm.trans hy))).le
    · have hn := Store.storedFormat_of_unit hunit hlevel
      refine ⟨⟨⟨next,hn,by omega,hle⟩,fun h1 => ?_⟩,fun a b hx hy => ?_⟩
      · have := Except.ok.inj (hn.symm.trans h1)
        omega
      · have h1 := Except.ok.inj (hx.symm.trans hl)
        have h2 := Except.ok.inj (hy.symm.trans hn)
        omega

theorem Reachable.formatted {cr : Crates} {texts : Set (List UInt8)} {s : System}
    (h : Reachable cr texts s) : Formatted cr s.store := by
  refine ((Reachable.invariant (I := fun s => Retirements s.store ∧ Formatted cr s.store)
    ?_ ?_ h).2).2
  · exact fun libraryId epoch => ⟨.genesis cr libraryId epoch,formatted_genesis cr libraryId epoch⟩
  · intro s t o hv hi hm
    exact ⟨hm.retirements hv hi.1,(hm.formatted hi.1 hi.2).1⟩

theorem Reachable.level_rises {cr : Crates} {texts : Set (List UInt8)} {s t : System}
    (h : Reachable cr texts s) (path : Relation.ReflTransGen (Step cr texts) s t) {level next : ℕ}
    (hl : s.store.storedFormat cr = .ok level) (hn : t.store.storedFormat cr = .ok next) :
    level ≤ next := by
  have hstep : ∀ u v o, Reachable cr texts u →
      (∀ next, u.store.storedFormat cr = .ok next → level ≤ next) → Moved cr texts o u v →
      ∀ next, v.store.storedFormat cr = .ok next → level ≤ next := by
    intro u v o hu hi hm next hv
    obtain ⟨mid,hmid,-⟩ := hu.formatted.level
    exact (hi mid hmid).trans ((hm.formatted hu.retirements hu.formatted).2 mid next hmid hv)
  exact (h.run_induct (I := fun u => ∀ next, u.store.storedFormat cr = .ok next → level ≤ next)
    (fun next hs => (Except.ok.inj (hl.symm.trans hs)).le) hstep path).2 next hn

end RisuNest.Server
