import RisuNest.Server.System

/-! What an accepted push does to the tables, as a whole: which changes win, and the rows that
are there once the winners have been written one by one. -/
namespace RisuNest.Server
open Wire

/-- A unit lives under another one. -/
def IsParent (p k : UnitKey) : Prop := p.components ∈ parentComponents k.components

theorem mem_parents {k p : UnitKey} {ps : List UnitKey} (h : parents k = .ok ps) :
    p ∈ ps ↔ IsParent p k := by
  rw [parents, lift_eq_ok] at h
  rw [IsParent, ← UnitKey.map_components_of_mapM_new h, List.mem_map]
  exact ⟨fun hp => ⟨p,hp,rfl⟩,fun ⟨q,hq,e⟩ => UnitKey.ext e ▸ hq⟩

lemma isRetirement_iff {c : UnitChange} :
    isRetirement c = true ↔ c.key.component 0 = "exists" ∧ c.value = .deleted := by
  simp [isRetirement]

namespace Store
variable {cr : Crates}

/-- How a change compares with the stored unit of its key. -/
inductive Decided (cr : Crates) (s : Store) (c : UnitChange) : LwwDecision → Prop
  | absent (h : s.units.get c.key = none) : Decided cr s c .applyRemote
  | stored {u : UnitChange} {d : LwwDecision} (h : s.units.get c.key = some u)
      (hd : compareVersion cr u.stamp u.value c.stamp c.value = .ok d) : Decided cr s c d

lemma decided_of_compareStored {s : Store} {c : UnitChange} {d : LwwDecision}
    (h : s.compareStored cr c = .ok d) : Decided cr s c d := by
  unfold compareStored at h
  cases hu : s.units.get c.key with
  | none =>
    rw [hu] at h
    cases h
    exact .absent hu
  | some u =>
    rw [hu] at h
    exact .stored hu (lift_eq_ok.mp h)

/-- What the loop found out about a change it did not refuse. -/
structure Judged (cr : Crates) (s : Store) (level now : ℕ) (retiring : List UnitKey)
    (c : UnitChange) (wins : Bool) : Prop where
  within : c.stamp.physicalMs ≤ now + maxClockSkewMs
  identity : ∃ i, c.value.identity cr = .ok i ∧
    ∀ old, s.writerVersions.get (versionKey c) = some old → old.identity = i
  readable : checkAlias cr c = .ok ()
  format : LibraryFormat.isKey c.key = true → raisesLevel cr level c = .ok wins
  plain : LibraryFormat.isKey c.key = false → ∃ d ps, Decided cr s c d ∧ parents c.key = .ok ps ∧
    wins = (!s.suppressed retiring ps c && (d = .applyRemote ||
      (isRetirement c && !s.retired.contains c.key)))

theorem judge_eq_ok {s : Store} {level now : ℕ} {retiring : List UnitKey} {c : UnitChange}
    {wins : Bool} (h : s.judge cr level now retiring c = .ok wins) :
    Judged cr s level now retiring c wins := by
  unfold judge at h
  obtain ⟨_, -, h⟩ := bind_eq_ok.mp h
  obtain ⟨_, hw, h⟩ := bind_eq_ok.mp h
  obtain ⟨i, hi, h⟩ := bind_eq_ok.mp h
  obtain ⟨_, ha, h⟩ := bind_eq_ok.mp h
  obtain ⟨_, hv, h⟩ := bind_eq_ok.mp h
  refine ⟨require_eq_ok.mp hw,⟨i,lift_eq_ok.mp hi,?_⟩,ha,?_,?_⟩
  · intro old ho
    rw [checkVersion, ho] at hv
    exact require_eq_ok.mp hv
  · intro hf
    rwa [if_pos hf] at h
  · intro hf
    rw [if_neg (by simp [hf])] at h
    obtain ⟨_, -, h⟩ := bind_eq_ok.mp h
    obtain ⟨d, hd, h⟩ := bind_eq_ok.mp h
    obtain ⟨ps, hp, h⟩ := bind_eq_ok.mp h
    exact ⟨d,ps,decided_of_compareStored hd,hp,(Except.ok.inj h).symm⟩

/-- The verdict on a change, a refusal counting as a loss. -/
def wins (cr : Crates) (s : Store) (level now : ℕ) (retiring : List UnitKey) (c : UnitChange) :
    Bool :=
  match s.judge cr level now retiring c with
  | .ok b => b
  | .error _ => false

/-- The winners are the changes the loop lets win, and it refuses none. -/
theorem winners_eq_ok {s : Store} {level now : ℕ} {retiring : List UnitKey}
    {cs won : List UnitChange} (h : s.winners cr level now retiring cs = .ok won) :
    (∀ c ∈ cs, Judged cr s level now retiring c (s.wins cr level now retiring c)) ∧
      won = cs.filter (s.wins cr level now retiring) := by
  induction cs generalizing won with
  | nil =>
    cases h
    simp
  | cons c cs ih =>
    rw [winners] at h
    obtain ⟨b, hb, h⟩ := bind_eq_ok.mp h
    obtain ⟨rest, hr, h⟩ := bind_eq_ok.mp h
    obtain ⟨hj, hf⟩ := ih hr
    have hw : s.wins cr level now retiring c = b := by
      unfold wins
      rw [hb]
    refine ⟨?_, ?_⟩
    · intro d hd
      rcases List.mem_cons.mp hd with rfl | hd
      · rw [hw]
        exact judge_eq_ok hb
      · exact hj d hd
    · rw [List.filter_cons, hw, ← hf]
      exact (Except.ok.inj h).symm

/-! ### The rows of one winner -/

/-- Whether writing a change drops the rows of a key: the change retires a parent of it, and
the key is not retired itself. -/
def drops (s : Store) (c : UnitChange) (k : UnitKey) : Bool :=
  isRetirement c && s.unitParents.contains (c.key,k) && !s.retired.contains k

/-- The store the unit of a winner is written to. -/
def retireIf (s : Store) (c : UnitChange) : Store := if isRetirement c then s.retire c else s

lemma get_dropped {ν : Type} (s : Store) (t : Table UnitKey ν) {c : UnitChange} {k : UnitKey}
    (hr : isRetirement c = true) (hk : k ≠ c.key) :
    (t.deleteWhere fun k _ => s.unitParents.contains (c.key,k) &&
      !(s.retired.upsert c.key c).contains k).get k =
      if s.drops c k then none else t.get k := by
  have hc : (s.retired.upsert c.key c).contains k = s.retired.contains k := by
    simp [Table.contains, hk]
  rw [Table.get_deleteWhere, hc, drops, hr, Bool.true_and]
  cases t.get k with
  | none => simp
  | some v =>
    cases s.unitParents.contains (c.key,k) && !s.retired.contains k <;> simp

lemma retireIf_units (s : Store) {c : UnitChange} {k : UnitKey} (hk : k ≠ c.key) :
    (s.retireIf c).units.get k = if s.drops c k then none else s.units.get k := by
  unfold retireIf
  cases hr : isRetirement c with
  | true => exact get_dropped s s.units hr hk
  | false => simp [drops, hr]

lemma retireIf_journal (s : Store) {c : UnitChange} {k : UnitKey} (hk : k ≠ c.key) :
    (s.retireIf c).journal.get k = if s.drops c k then none else s.journal.get k := by
  unfold retireIf
  cases hr : isRetirement c with
  | true => exact get_dropped s s.journal hr hk
  | false => simp [drops, hr]

theorem applyWinner_units (s : Store) (q : ℕ) (t : ℤ) (ps : List UnitKey) (c : UnitChange)
    (k : UnitKey) : (s.applyWinner q t ps c).units.get k =
      if k = c.key then some c else if s.drops c k then none else s.units.get k := by
  change ((s.retireIf c).units.upsert c.key c).get k = _
  rw [Table.get_upsert]
  by_cases hk : k = c.key
  · rw [if_pos hk, if_pos hk]
  · rw [if_neg hk, if_neg hk, retireIf_units s hk]

theorem applyWinner_journal (s : Store) (q : ℕ) (t : ℤ) (ps : List UnitKey) (c : UnitChange)
    (k : UnitKey) : (s.applyWinner q t ps c).journal.get k =
      if k = c.key then some ⟨⟨q,c.key,c.stamp,c.value⟩,t⟩
      else if s.drops c k then none else s.journal.get k := by
  change (((s.retireIf c).journal.erase c.key).insertOrIgnore c.key
    ⟨⟨q,c.key,c.stamp,c.value⟩,t⟩).get k = _
  rw [Table.get_insertOrIgnore, Table.get_erase, Table.get_erase]
  by_cases hk : k = c.key
  · simp [hk]
  · rw [if_neg hk, if_neg hk, if_neg hk, retireIf_journal s hk]

theorem applyWinner_retired (s : Store) (q : ℕ) (t : ℤ) (ps : List UnitKey) (c : UnitChange)
    (k : UnitKey) : (s.applyWinner q t ps c).retired.get k =
      if isRetirement c = true ∧ k = c.key then some c else s.retired.get k := by
  change (s.retireIf c).retired.get k = _
  unfold retireIf retire
  by_cases hr : isRetirement c = true <;> simp [hr]

theorem applyWinner_unitParents (s : Store) (q : ℕ) (t : ℤ) (ps : List UnitKey)
    (c : UnitChange) (p k : UnitKey) : (s.applyWinner q t ps c).unitParents.contains (p,k) =
      if k = c.key then decide (p ∈ ps) else s.unitParents.contains (p,k) := by
  have hb : (s.retireIf c).unitParents = s.unitParents := by
    unfold retireIf retire
    split <;> rfl
  change (ps.foldl (fun t p => t.insertOrIgnore (p,c.key) ())
    ((s.retireIf c).unitParents.deleteWhere fun k _ => k.2 = c.key)).contains (p,k) = _
  rw [hb, Table.contains_foldl_insertOrIgnore _ (fun p => (p,c.key))]
  by_cases hk : k = c.key
  · subst hk
    have hn : (s.unitParents.deleteWhere fun k _ => k.2 = c.key).contains (p,c.key) = false := by
      rw [Table.contains_eq_false, Table.get_deleteWhere]
      cases s.unitParents.get (p,c.key) <;> simp
    rw [hn, Bool.false_or, if_pos rfl, decide_eq_decide, List.mem_map]
    exact ⟨fun ⟨_,hq,e⟩ => (Prod.mk.inj e).1 ▸ hq,fun hp => ⟨p,hp,rfl⟩⟩
  · have hm : (p,k) ∉ ps.map fun p => (p,c.key) := by
      intro h
      obtain ⟨_, -, e⟩ := List.mem_map.mp h
      exact hk (Prod.mk.inj e).2.symm
    simp only [hm, decide_false, Bool.or_false, if_neg hk, Table.contains, Table.get_deleteWhere]
    cases s.unitParents.get (p,k) <;> simp [hk]

lemma applyWinner_drops (s : Store) (q : ℕ) (t : ℤ) (ps : List UnitKey) (c r : UnitChange)
    {k : UnitKey} (hk : k ≠ c.key) : (s.applyWinner q t ps c).drops r k = s.drops r k := by
  rw [drops, drops, applyWinner_unitParents, if_neg hk]
  simp only [Table.contains, applyWinner_retired, hk, and_false, if_false]

theorem applyWinner_frame (s : Store) (q : ℕ) (t : ℤ) (ps : List UnitKey) (c : UnitChange) :
    s.applyWinner q t ps c =
      { s with
        units := (s.applyWinner q t ps c).units
        retired := (s.applyWinner q t ps c).retired
        unitParents := (s.applyWinner q t ps c).unitParents
        journal := (s.applyWinner q t ps c).journal } := by
  unfold applyWinner setParents retire
  cases isRetirement c <;> rfl

/-! ### The rows of a batch -/

/-- Some change of the batch drops the rows of a key. -/
def Dropped (s : Store) (won : List UnitChange) (k : UnitKey) : Prop :=
  ∃ r ∈ won, s.drops r k = true

/-- The tables after a batch of winners, key by key. -/
structure Applied (s t : Store) (seq : ℕ) (created : ℤ) (won : List UnitChange) : Prop where
  unit : ∀ c ∈ won, t.units.get c.key = some c
  item : ∀ c ∈ won, ∃ q, seq < q ∧ q ≤ seq + won.length ∧
    t.journal.get c.key = some ⟨⟨q,c.key,c.stamp,c.value⟩,created⟩
  order : ∀ c ∈ won, ∀ d ∈ won, ∀ i j, t.journal.get c.key = some i → t.journal.get d.key = some j →
    i.item.seq = j.item.seq → c = d
  dropped : ∀ k, k ∉ won.map UnitChange.key → Dropped s won k →
    t.units.get k = none ∧ t.journal.get k = none
  kept : ∀ k, k ∉ won.map UnitChange.key → ¬ Dropped s won k →
    t.units.get k = s.units.get k ∧ t.journal.get k = s.journal.get k
  retires : ∀ c ∈ won, isRetirement c = true → t.retired.get c.key = some c
  retired : ∀ k, (∀ c ∈ won, isRetirement c = true → c.key ≠ k) →
    t.retired.get k = s.retired.get k
  parents : ∀ c ∈ won, ∀ p, t.unitParents.contains (p,c.key) = true ↔ IsParent p c.key
  otherParents : ∀ k, k ∉ won.map UnitChange.key → ∀ p,
    t.unitParents.contains (p,k) = s.unitParents.contains (p,k)

/-- No change of a batch that is not a retirement lives under one the batch retires. -/
def Unretired (won : List UnitChange) : Prop :=
  ∀ c ∈ won, isRetirement c = false → ∀ r ∈ won, isRetirement r = true → ¬ IsParent r.key c.key

theorem applyWinners_eq_ok {s t : Store} {seq seq' : ℕ} {created : ℤ} {won : List UnitChange}
    (h : s.applyWinners seq created won = .ok (t,seq')) (hn : (won.map UnitChange.key).Nodup)
    (hu : Unretired won) : Applied s t seq created won ∧ seq' = seq + won.length ∧
      t = { s with
        units := t.units
        retired := t.retired
        unitParents := t.unitParents
        journal := t.journal } := by
  induction won generalizing s seq with
  | nil =>
    cases h
    refine ⟨⟨?_,?_,?_,?_,?_,?_,?_,?_,?_⟩,rfl,rfl⟩ <;> simp [Dropped]
  | cons c cs ih =>
    rw [applyWinners] at h
    obtain ⟨_, -, h⟩ := bind_eq_ok.mp h
    obtain ⟨ps, hp, h⟩ := bind_eq_ok.mp h
    rw [List.map_cons, List.nodup_cons] at hn
    obtain ⟨hc, hn⟩ := hn
    have hcs : Unretired cs := fun d hd hr r hrm => hu d (by simp [hd]) hr r (by simp [hrm])
    obtain ⟨a, hq, hf⟩ := ih h hn hcs
    have hd : ¬ Dropped (s.applyWinner (seq+1) created ps c) cs c.key := by
      rintro ⟨r, hr, hdr⟩
      simp only [drops, applyWinner_unitParents, if_true, Bool.and_eq_true, decide_eq_true_eq,
        Bool.not_eq_true', Table.contains_eq_false, applyWinner_retired, and_true] at hdr
      obtain ⟨⟨hrr, hps⟩, hnr⟩ := hdr
      have hcr : isRetirement c = false := by
        cases hcr : isRetirement c with
        | false => rfl
        | true => rw [hcr, if_pos rfl] at hnr; cases hnr
      exact hu c (by simp) hcr r (by simp [hr]) hrr ((mem_parents hp).mp hps)
    -- the first winner keeps its rows through the rest of the batch
    have hself := a.kept c.key hc hd
    rw [applyWinner_units, if_pos rfl, applyWinner_journal, if_pos rfl] at hself
    have hdrop {k : UnitKey} (hk : k ≠ c.key) :
        Dropped (s.applyWinner (seq+1) created ps c) cs k ↔ Dropped s cs k := by
      simp only [Dropped, applyWinner_drops _ _ _ _ _ _ hk]
    have hout {k : UnitKey} (hk : k ∉ (c :: cs).map UnitChange.key) :
        k ≠ c.key ∧ k ∉ cs.map UnitChange.key := by
      simpa [not_or] using hk
    refine ⟨⟨?_,?_,?_,?_,?_,?_,?_,?_,?_⟩,by rw [hq, List.length_cons]; omega,
      hf.trans (by rw [applyWinner_frame])⟩
    · intro d hm
      rcases List.mem_cons.mp hm with rfl | hm
      · exact hself.1
      · exact a.unit d hm
    · intro d hm
      rcases List.mem_cons.mp hm with rfl | hm
      · exact ⟨seq+1,by omega,by rw [List.length_cons]; omega,hself.2⟩
      · obtain ⟨q, h1, h2, h3⟩ := a.item d hm
        exact ⟨q,by omega,by rw [List.length_cons]; omega,h3⟩
    · have hlater : ∀ d ∈ cs, ∀ j, t.journal.get d.key = some j → seq + 1 < j.item.seq := by
        intro d hm j hj
        obtain ⟨q, h1, -, h3⟩ := a.item d hm
        rw [h3] at hj
        cases hj
        exact h1
      intro d hm e hm' i j hi hj hij
      rcases List.mem_cons.mp hm with rfl | hd' <;> rcases List.mem_cons.mp hm' with rfl | he'
      · rfl
      · rw [hself.2] at hi
        cases hi
        exact absurd hij (hlater e he' j hj).ne
      · rw [hself.2] at hj
        cases hj
        exact absurd hij.symm (hlater d hd' i hi).ne
      · exact a.order d hd' e he' i j hi hj hij
    · rintro k hk ⟨r, hr, hdr⟩
      obtain ⟨hkc, hkcs⟩ := hout hk
      by_cases hlate : Dropped s cs k
      · exact a.dropped k hkcs ((hdrop hkc).mpr hlate)
      · rcases List.mem_cons.mp hr with rfl | hr
        · obtain ⟨h1, h2⟩ := a.kept k hkcs (fun hx => hlate ((hdrop hkc).mp hx))
          rw [applyWinner_units, if_neg hkc, if_pos hdr] at h1
          rw [applyWinner_journal, if_neg hkc, if_pos hdr] at h2
          exact ⟨h1,h2⟩
        · exact absurd ⟨r,hr,hdr⟩ hlate
    · intro k hk hnd
      obtain ⟨hkc, hkcs⟩ := hout hk
      have hfirst : ¬ s.drops c k = true := fun hx => hnd ⟨c,by simp,hx⟩
      obtain ⟨h1, h2⟩ := a.kept k hkcs fun hx => by
        obtain ⟨r, hr, hdr⟩ := (hdrop hkc).mp hx
        exact hnd ⟨r,by simp [hr],hdr⟩
      rw [applyWinner_units, if_neg hkc, if_neg hfirst] at h1
      rw [applyWinner_journal, if_neg hkc, if_neg hfirst] at h2
      exact ⟨h1,h2⟩
    · intro d hm hdr
      rcases List.mem_cons.mp hm with rfl | hm
      · rw [a.retired d.key, applyWinner_retired, if_pos ⟨hdr,rfl⟩]
        intro e he _ hek
        exact hc (hek ▸ List.mem_map_of_mem he)
      · exact a.retires d hm hdr
    · intro k hk
      rw [a.retired k fun e he => hk e (by simp [he]), applyWinner_retired, if_neg]
      rintro ⟨hcr, rfl⟩
      exact hk c (by simp) hcr rfl
    · intro d hm p
      rcases List.mem_cons.mp hm with rfl | hm
      · rw [a.otherParents d.key hc, applyWinner_unitParents, if_pos rfl, decide_eq_true_eq,
          mem_parents hp]
      · exact a.parents d hm p
    · intro k hk p
      obtain ⟨hkc, hkcs⟩ := hout hk
      rw [a.otherParents k hkcs, applyWinner_unitParents, if_neg hkc]

/-! ### The transaction of a push -/

/-- Every change of an accepted push leaves its version on record. -/
structure Recorded (cr : Crates) (s t : Store) (cs : List UnitChange) : Prop where
  old : ∀ k row, s.writerVersions.get k = some row → t.writerVersions.get k = some row
  new : ∀ k row, t.writerVersions.get k = some row → s.writerVersions.get k = some row ∨
    ∃ c ∈ cs, k = versionKey c ∧ c.value.identity cr = .ok row.identity
  all : ∀ c ∈ cs, ∃ row, t.writerVersions.get (versionKey c) = some row

theorem recordVersions_eq_ok {s t : Store} {created : ℤ} {cs : List UnitChange}
    (h : s.recordVersions cr created cs = .ok t) :
    Recorded cr s t cs ∧ t = { s with writerVersions := t.writerVersions } := by
  induction cs generalizing s with
  | nil =>
    cases h
    exact ⟨⟨fun _ _ h => h,fun _ _ h => Or.inl h,by simp⟩,rfl⟩
  | cons c cs ih =>
    rw [recordVersions] at h
    obtain ⟨i, hi, h⟩ := bind_eq_ok.mp h
    obtain ⟨r, hf⟩ := ih h
    refine ⟨⟨?_,?_,?_⟩,hf⟩
    · intro k row hk
      refine r.old k row ?_
      rw [Table.get_insertOrIgnore]
      split_ifs with he
      · subst he
        rw [hk, Option.getD_some]
      · exact hk
    · intro k row hk
      rcases r.new k row hk with hk | ⟨d, hd, he⟩
      · rw [Table.get_insertOrIgnore] at hk
        split_ifs at hk with he
        · cases ho : s.writerVersions.get (versionKey c) with
          | some old =>
            rw [ho, Option.getD_some] at hk
            exact Or.inl (by rw [he, ho, hk])
          | none =>
            rw [ho, Option.getD_none] at hk
            cases hk
            exact Or.inr ⟨c,by simp,he,lift_eq_ok.mp hi⟩
        · exact Or.inl hk
      · exact Or.inr ⟨d,by simp [hd],he⟩
    · intro d hd
      rcases List.mem_cons.mp hd with rfl | hd
      · exact ⟨_,r.old _ _ (by rw [Table.get_insertOrIgnore, if_pos rfl])⟩
      · exact r.all d hd

/-- An accepted push as a whole. -/
structure Accepted (cr : Crates) (s : Store) (p : Pending) (created : ℤ) (level : ℕ)
    (won : List UnitChange) (receipt : PushReceipt) (t : Store) : Prop where
  prepared : p.preparation = .ok ()
  judged : ∀ c ∈ p.request.changes, Judged cr s level p.now (retiring p.request.changes) c
    (s.wins cr level p.now (retiring p.request.changes) c)
  won_eq : won = p.request.changes.filter (s.wins cr level p.now (retiring p.request.changes))
  applied : Applied s t s.head.seq created won
  recorded : Recorded cr s t p.request.changes
  seq : t.head.seq = s.head.seq + won.length
  receipt_eq : receipt = ⟨p.request.operationId,t.head.seq,won.map UnitChange.key,p.now⟩
  operations : t.operations = s.operations.insertOrIgnore (p.device.id,p.request.operationId)
    ⟨.accepted p.digest receipt,none,none,created⟩
  writers : t.writers = s.writers.insertOrIgnore p.request.writerId p.device.id
  head : t.head = { s.head with headId := t.head.headId, seq := t.head.seq }
  frame : t = { s with
    head := t.head, writers := t.writers, writerVersions := t.writerVersions, units := t.units,
    retired := t.retired, unitParents := t.unitParents, journal := t.journal,
    operations := t.operations }

lemma unretired_winners {s : Store} {level now : ℕ} {cs : List UnitChange}
    (hj : ∀ c ∈ cs, Judged cr s level now (retiring cs) c (s.wins cr level now (retiring cs) c)) :
    Unretired (cs.filter (s.wins cr level now (retiring cs))) := by
  intro c hc hcr r hr hrr hp
  obtain ⟨hc, hw⟩ := List.mem_filter.mp hc
  cases hf : LibraryFormat.isKey c.key with
  | true =>
    rw [LibraryFormat.isKey, decide_eq_true_eq] at hf
    rw [IsParent, hf] at hp
    revert hp
    exact fun hp => absurd hp (by simp [parentComponents, component])
  | false =>
    obtain ⟨d, ps, -, hps, he⟩ := (hj c hc).plain hf
    have hmem : r.key ∈ retiring cs :=
      List.mem_map.mpr ⟨r,List.mem_filter.mpr ⟨(List.mem_filter.mp hr).1,hrr⟩,rfl⟩
    have hs : s.suppressed (retiring cs) ps c = true := by
      simp only [suppressed, hcr, Bool.not_false, Bool.true_and, Bool.or_eq_true, List.any_eq_true]
      exact Or.inr ⟨r.key,(mem_parents hps).mpr hp,by simp [hmem]⟩
    rw [hs] at he
    simp [he] at hw

theorem accept_eq_ok {s t : Store} {p : Pending} {created : ℤ} {level : ℕ}
    {won : List UnitChange} {receipt : PushReceipt} (hv : s.validation cr p level = .ok won)
    (hn : (p.request.changes.map UnitChange.key).Nodup)
    (h : s.accept cr p created won = .ok (receipt,t)) :
    Accepted cr s p created level won receipt t := by
  obtain ⟨_, hprep, hv⟩ := bind_eq_ok.mp hv
  have hwin : s.winners cr level p.now (retiring p.request.changes) p.request.changes = .ok won := by
    cases he : p.emptyOnly <;> simp only [he, Bool.false_eq_true, if_false, if_true] at hv
    · obtain ⟨_, -, hv⟩ := bind_eq_ok.mp hv
      exact hv
    · obtain ⟨_, -, hv⟩ := bind_eq_ok.mp hv
      obtain ⟨_, -, hv⟩ := bind_eq_ok.mp hv
      exact hv
  obtain ⟨hj, hw⟩ := winners_eq_ok hwin
  obtain ⟨s1, h1, h⟩ := bind_eq_ok.mp h
  obtain ⟨⟨s2, seq⟩, h2, h⟩ := bind_eq_ok.mp h
  obtain ⟨hr, hf1⟩ := recordVersions_eq_ok h1
  have hnw : (won.map UnitChange.key).Nodup := by
    rw [hw]
    exact hn.sublist (List.filter_sublist.map _)
  obtain ⟨ha, hseq, hf2⟩ := applyWinners_eq_ok h2 hnw (hw ▸ unretired_winners hj)
  cases h
  have hs1 : s1.head.seq = s.head.seq := by rw [hf1]
  refine ⟨hprep,hj,hw,?_,?_,?_,?_,?_,?_,?_,?_⟩
  · rw [hf1] at ha
    exact ⟨ha.unit,ha.item,ha.order,ha.dropped,ha.kept,ha.retires,ha.retired,ha.parents,
      ha.otherParents⟩
  · rw [hf2]
    exact ⟨hr.old,hr.new,hr.all⟩
  · rw [← hs1, ← hseq]
    rfl
  · rfl
  · rw [hf2, hf1]
    rfl
  · rw [hf2, hf1]
    rfl
  · rw [hf2, hf1]
    rfl
  · rw [hf2, hf1]
    rfl

end Store
end RisuNest.Server
