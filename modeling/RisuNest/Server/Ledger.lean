import RisuNest.Server.Steps

/-! The journal and its floor: sequences are distinct and at most the head, and the floor never
passes what a read pin or a recent acknowledgement still needs. -/
namespace RisuNest.Server
open Wire

lemma foldl_min_le (l : List ℕ) (n : ℕ) : l.foldl min n ≤ n := by
  induction l generalizing n with
  | nil => exact le_rfl
  | cons a l ih => exact (ih (min n a)).trans (min_le_left n a)

lemma foldl_min_le_of_mem {l : List ℕ} {a : ℕ} (h : a ∈ l) (n : ℕ) : l.foldl min n ≤ a := by
  induction l generalizing n with
  | nil => cases h
  | cons b l ih =>
    rcases List.mem_cons.mp h with rfl | h
    · exact (foldl_min_le l _).trans (min_le_right n a)
    · exact ih h _

namespace Store

lemma le_nextFloor (s : Store) (expired : ℤ) : s.head.minRetainedSeq ≤ s.nextFloor expired :=
  le_max_right _ _

lemma nextFloor_le {s : Store} {expired : ℤ} {n : ℕ}
    (h : (s.heldSequences expired).foldl min s.head.seq ≤ n) :
    s.nextFloor expired ≤ max n s.head.minRetainedSeq := by
  unfold nextFloor
  apply max_le_max_right
  cases s.oldestRetained expired with
  | none => exact h
  | some oldest => exact (min_le_left _ _).trans h

lemma nextFloor_le_head (s : Store) (expired : ℤ) :
    s.nextFloor expired ≤ max s.head.seq s.head.minRetainedSeq :=
  nextFloor_le (foldl_min_le _ _)

lemma nextFloor_le_held {s : Store} {expired : ℤ} {q : ℕ} (h : q ∈ s.heldSequences expired) :
    s.nextFloor expired ≤ max q s.head.minRetainedSeq :=
  nextFloor_le (foldl_min_le_of_mem h _)

lemma mem_heldSequences_of_pin {s : Store} {expired : ℤ} {id : String} {pin : PinRow}
    (h : s.statePins.get id = some pin) : pin.startSeq ∈ s.heldSequences expired := by
  apply List.mem_append_right
  exact List.mem_map.mpr ⟨(id,pin),Table.get_eq_some.mp h,rfl⟩

lemma mem_heldSequences_of_ack {s : Store} {expired : ℤ} {id : String} {row : DeviceRow}
    {at_ : ℤ} (h : s.devices.get id = some row) (hr : row.revoked = false)
    (ha : row.lastAck = some at_) (ht : expired < at_) : row.ack ∈ s.heldSequences expired := by
  apply List.mem_append_left
  refine List.mem_map.mpr ⟨(id,row),List.mem_filter.mpr ⟨Table.get_eq_some.mp h,?_⟩,rfl⟩
  simp [hr, ha, ht]

end Store

/-- The journal of a store, its floor and its pins against the head. -/
structure Ledger (s : Store) : Prop where
  keyed : ∀ k row, s.journal.get k = some row → row.item.key = k
  atMost : ∀ k row, s.journal.get k = some row → row.item.seq ≤ s.head.seq
  distinct : ∀ k l row row', s.journal.get k = some row → s.journal.get l = some row' →
    row.item.seq = row'.item.seq → k = l
  floor : s.head.minRetainedSeq ≤ s.head.seq
  pinned : ∀ id pin, s.statePins.get id = some pin →
    s.head.minRetainedSeq ≤ pin.startSeq ∧ pin.startSeq ≤ s.head.seq

lemma Ledger.genesis (cr : Crates) (libraryId epoch : String) :
    Ledger (Store.genesis cr libraryId epoch) := by
  refine ⟨?_,?_,?_,le_rfl,?_⟩ <;> intros <;> simp_all [Store.genesis]

lemma Ledger.raise {s t : Store} (h : Ledger s) (hq : t.head.seq = s.head.seq)
    (hf : t.head.minRetainedSeq ≤ t.head.seq)
    (hj : ∀ k row, t.journal.get k = some row → s.journal.get k = some row)
    (hp : ∀ id pin, t.statePins.get id = some pin →
      t.head.minRetainedSeq ≤ pin.startSeq ∧ pin.startSeq ≤ t.head.seq) : Ledger t := by
  refine ⟨?_,?_,?_,hf,hp⟩
  · exact fun k row hk => h.keyed k row (hj k row hk)
  · intro k row hk
    rw [hq]
    exact h.atMost k row (hj k row hk)
  · exact fun k l row row' hk hl => h.distinct k l row row' (hj k row hk) (hj l row' hl)

namespace Store
variable {cr : Crates} {s t : Store} {p : Pending} {created : ℤ} {level : ℕ}
  {won : List UnitChange} {receipt : PushReceipt}

lemma Accepted.journal_cases (a : Accepted cr s p created level won receipt t) {k : UnitKey}
    {row : JournalRow} (h : t.journal.get k = some row) :
    (∃ c ∈ won, c.key = k ∧ row.item.key = k ∧ s.head.seq < row.item.seq ∧
      row.item.seq ≤ t.head.seq) ∨ s.journal.get k = some row := by
  by_cases hk : k ∈ won.map UnitChange.key
  · obtain ⟨c, hc, rfl⟩ := List.mem_map.mp hk
    obtain ⟨q, h1, h2, hi⟩ := a.applied.item c hc
    rw [hi] at h
    cases h
    exact .inl ⟨c,hc,rfl,rfl,h1,a.seq ▸ h2⟩
  · by_cases hd : Dropped s won k
    · rw [(a.applied.dropped k hk hd).2] at h
      cases h
    · exact .inr ((a.applied.kept k hk hd).2 ▸ h)

lemma Accepted.ledger (a : Accepted cr s p created level won receipt t) (h : Ledger s) :
    Ledger t := by
  have hf : t.head.minRetainedSeq = s.head.minRetainedSeq := by rw [a.head]
  have hp : t.statePins = s.statePins := by rw [a.frame]
  have hseq := a.seq
  refine ⟨?_,?_,?_,?_,?_⟩
  · intro k row hk
    rcases a.journal_cases hk with ⟨_, -, -, hkey, -⟩ | hk
    · exact hkey
    · exact h.keyed k row hk
  · intro k row hk
    rcases a.journal_cases hk with ⟨_, -, -, -, -, hle⟩ | hk
    · exact hle
    · have := h.atMost k row hk
      omega
  · intro k l row row' hk hl he
    rcases a.journal_cases hk with ⟨c, hc, rfl, -, hlt, -⟩ | hk'
    · rcases a.journal_cases hl with ⟨d, hd, rfl, -, hlt', -⟩ | hl'
      · rw [a.applied.order c hc d hd row row' hk hl he]
      · have := h.atMost l row' hl'
        omega
    · rcases a.journal_cases hl with ⟨d, hd, rfl, -, hlt', -⟩ | hl'
      · have := h.atMost k row hk'
        omega
      · exact h.distinct k l row row' hk' hl' he
  · have := h.floor
    omega
  · intro id pin hpin
    rw [hp] at hpin
    obtain ⟨h1, h2⟩ := h.pinned id pin hpin
    omega

lemma pruned_head (s : Store) (current : ℤ) :
    (s.pruned current).head = { s.head with
      minRetainedSeq := (s.expire current).purgeRevokedDevices.nextFloor
        (current - retentionSeconds) } := rfl

lemma pruned_pins {s : Store} {current : ℤ} {id : String} {pin : PinRow}
    (h : (s.pruned current).statePins.get id = some pin) :
    (s.expire current).purgeRevokedDevices.statePins.get id = some pin ∧
      s.statePins.get id = some pin := by
  change (s.statePins.deleteWhere _).get id = some pin at h
  exact ⟨h,(Table.get_deleteWhere_eq_some.mp h).1⟩

lemma pruned_ledger (h : Ledger s) (current : ℤ) : Ledger (s.pruned current) := by
  have hhead := nextFloor_le_head (s.expire current).purgeRevokedDevices
    (current - retentionSeconds)
  change _ ≤ max s.head.seq s.head.minRetainedSeq at hhead
  rw [max_eq_left h.floor] at hhead
  refine h.raise rfl ?_ ?_ ?_
  · rw [pruned_head]
    exact hhead
  · intro k row hk
    exact (Table.get_deleteWhere_eq_some.mp hk).1
  · intro id pin hpin
    obtain ⟨hheld, hold⟩ := pruned_pins hpin
    obtain ⟨h1, h2⟩ := h.pinned id pin hold
    refine ⟨?_,h2⟩
    have hle := @nextFloor_le_held _ (current - retentionSeconds) _
      (mem_heldSequences_of_pin hheld)
    change _ ≤ max pin.startSeq s.head.minRetainedSeq at hle
    rw [max_eq_left h1] at hle
    rw [pruned_head]
    exact hle

end Store

/-! ### Every run -/

lemma Moved.ledger {cr : Crates} {texts : Set (List UInt8)} {o : Option Op} {s t : System}
    (h : Ledger s.store) (hm : Moved cr texts o s t) : Ledger t.store := by
  cases hm with
  | quiet hq =>
    refine h.raise (by rw [hq.head]) (by rw [hq.head]; exact h.floor)
      (fun _ _ hj => hq.journal ▸ hj) ?_
    intro id pin hpin
    rw [hq.head]
    rcases hq.pins id pin hpin with hp | ⟨hp, -⟩
    · exact h.pinned id pin hp
    · rw [hp]
      exact ⟨h.floor,le_rfl⟩
  | prepared _ _ _ _ _ _ hf =>
    rw [hf]
    exact h.raise rfl h.floor (fun _ _ hj => hj) h.pinned
  | accepted _ _ _ _ _ _ ha => exact ha.ledger h
  | @pruned current _ _ _ _ _ hp =>
    have hp' := Store.pruned_ledger h current
    rw [hp]
    exact hp'.raise rfl hp'.floor (fun _ _ hj => hj) hp'.pinned
  | rotated _ _ hr =>
    rw [hr]
    exact h.raise rfl le_rfl (fun _ _ hj => by cases hj) fun _ _ hp => by cases hp

theorem Reachable.ledger {cr : Crates} {texts : Set (List UInt8)} {s : System}
    (h : Reachable cr texts s) : Ledger s.store :=
  (Reachable.invariant (I := fun s => Ledger s.store)
    (fun libraryId epoch => .genesis cr libraryId epoch) (fun _ _ _ _ hi hm => hm.ledger hi) h).2

lemma Moved.heads {cr : Crates} {texts : Set (List UInt8)} {o : Option Op} {s t : System}
    (h : Ledger s.store) (hm : Moved cr texts o s t) :
    s.store.head.seq ≤ t.store.head.seq ∧
      s.store.head.minRetainedSeq ≤ t.store.head.minRetainedSeq := by
  cases hm with
  | quiet hq =>
    rw [hq.head]
    exact ⟨le_rfl,le_rfl⟩
  | prepared _ _ _ _ _ _ hf =>
    rw [hf]
    exact ⟨le_rfl,le_rfl⟩
  | accepted _ _ _ _ _ _ ha =>
    rw [ha.seq, ha.head]
    exact ⟨Nat.le_add_right _ _,le_rfl⟩
  | @pruned current _ _ _ _ _ hp =>
    rw [hp]
    refine ⟨le_rfl,?_⟩
    change s.store.head.minRetainedSeq ≤ (s.store.pruned current).head.minRetainedSeq
    rw [Store.pruned_head]
    exact Store.le_nextFloor (s.store.expire current).purgeRevokedDevices _
  | rotated _ _ hr =>
    rw [hr]
    exact ⟨le_rfl,h.floor⟩

lemma Moved.floor {cr : Crates} {texts : Set (List UInt8)} {o : Option Op} {s t : System}
    (hm : Moved cr texts o s t) : t.store.head.minRetainedSeq = s.store.head.minRetainedSeq ∨
      (∃ current clock, o = some (.maintain current clock)) ∨
        ∃ epoch, o = some (.rotateRestoredEpoch epoch) := by
  cases hm with
  | quiet hq => exact .inl (by rw [hq.head])
  | prepared _ _ _ _ _ _ hf => exact .inl (by rw [hf])
  | accepted _ _ _ _ _ _ ha => exact .inl (by rw [ha.head])
  | pruned _ _ _ _ ho => exact .inr (.inl ⟨_,_,ho⟩)
  | rotated _ _ _ ho => exact .inr (.inr ⟨_,ho⟩)

lemma maintain_floor_le_ack {cr : Crates} {s : System} {current clock seen : ℤ} {id : String}
    {row : DeviceRow} (h : s.store.devices.get id = some row) (hr : row.revoked = false)
    (hs : row.lastAck = some seen) (ht : current - retentionSeconds < seen) :
    (s.exec cr (.maintain current clock)).2.store.head.minRetainedSeq ≤
      max s.store.head.minRetainedSeq row.ack := by
  simp only [System.exec]
  cases s.pending with
  | some p => exact le_max_left _ _
  | none =>
    simp only [Store.maintainAt]
    cases (s.store.pruned current).gcRoots cr clock with
    | error e => exact le_max_left _ _
    | ok roots =>
      -- a device that is not revoked survives the purge of the pass
      have hkept : (s.store.expire current).purgeRevokedDevices.devices.get id = some row := by
        apply Table.get_deleteWhere_eq_some.mpr
        exact ⟨h,by simp [hr]⟩
      have hle := Store.nextFloor_le_held (Store.mem_heldSequences_of_ack hkept hr hs ht)
      change (s.store.pruned current).head.minRetainedSeq ≤ _
      rw [Store.pruned_head, max_comm]
      exact hle

lemma changes_of_floor_le {cr : Crates} {s : Store} {device : Device} {after limit : ℕ}
    (hf : s.head.minRetainedSeq ≤ after) (ha : after ≤ s.head.seq) {e : Error}
    (h : s.changes cr device after limit = .error e) : e.code ≠ "journal-floor" := by
  unfold Store.changes at h
  rcases bind_eq_error.mp h with h | ⟨_, -, h⟩
  · rw [← (require_eq_error.mp h).2]
    decide
  · rcases bind_eq_error.mp h with h | ⟨_, -, h⟩
    · -- the device, or the format it declared, is refused
      rcases bind_eq_error.mp h with h | ⟨_, -, h⟩
      · rw [← (require_eq_error.mp h).2]
        decide
      · rcases bind_eq_error.mp h with h | ⟨level, -, h⟩
        · unfold Store.storedFormat at h
          cases hu : s.units.get formatKey with
          | none => simp [hu] at h
          | some u =>
            cases hl : LibraryFormat.level cr u.value with
            | some level => simp [hu, hl] at h
            | none =>
              simp only [hu, hl, Except.error.injEq] at h
              rw [← h]
              decide
        · unfold admitFormat at h
          split_ifs at h
          cases hd : device.formatLevel with
          | none =>
            simp only [hd, Except.error.injEq] at h
            rw [← h]
            decide
          | some d =>
            simp only [hd] at h
            split_ifs at h
            cases h
            decide
    · simp only [require, hf, ha, if_true, bind, Except.bind] at h
      split at h
      · rename_i hreq
        split_ifs at hreq
        cases hreq
        cases h
        decide
      · cases h

/-- Along every run the floor and the head only rise, the floor stays at or below the head and
every pin, a pass raises it no further than a recent acknowledgement, and reading from a pin on
is not refused for it. -/
theorem pins_protect_the_journal {cr : Crates} {texts : Set (List UInt8)} {s t : System}
    (h : Reachable cr texts s) (path : Relation.ReflTransGen (Step cr texts) s t) :
    s.store.head.minRetainedSeq ≤ t.store.head.minRetainedSeq ∧
    t.store.head.minRetainedSeq ≤ t.store.head.seq ∧
    (∀ id pin, t.store.statePins.get id = some pin →
      t.store.head.minRetainedSeq ≤ pin.startSeq) ∧
    (∀ o, o.texts ⊆ texts →
      (t.exec cr o).2.store.head.minRetainedSeq = t.store.head.minRetainedSeq ∨
      (∃ current clock, o = .maintain current clock) ∨ ∃ epoch, o = .rotateRestoredEpoch epoch) ∧
    (∀ current clock id row seen, t.store.devices.get id = some row → row.revoked = false →
      row.lastAck = some seen → current - retentionSeconds < seen →
        (t.exec cr (.maintain current clock)).2.store.head.minRetainedSeq ≤
          max t.store.head.minRetainedSeq row.ack) ∧
    ∀ id pin, t.store.statePins.get id = some pin → ∀ device after limit e,
      pin.startSeq ≤ after → after ≤ t.store.head.seq →
        t.store.changes cr device after limit = .error e → e.code ≠ "journal-floor" := by
  obtain ⟨ht, hle⟩ := h.run_induct
    (I := fun u => s.store.head.minRetainedSeq ≤ u.store.head.minRetainedSeq) le_rfl
    (fun u v _ hu hi hm => hi.trans (hm.heads hu.ledger).2) path
  refine ⟨hle,ht.ledger.floor,?_,?_,?_,?_⟩
  · exact fun id pin hp => (ht.ledger.pinned id pin hp).1
  · exact fun o ho => by simpa using (exec_cases ht.pendingValid ho).floor
  · exact fun current clock id row seen => maintain_floor_le_ack
  · intro id pin hp device after limit e hpa hle he
    exact changes_of_floor_le ((ht.ledger.pinned id pin hp).1.trans hpa) hle he

/-- A pin is taken, a push follows, and a pass runs while the pin is there. -/
def samplePinned : System :=
  System.run sampleCrates ⟨sampleLibrary sampleCrates,none⟩
    [.createStatePin sampleDevice "pin-1" 1000,.beginPush pushBoth,.finishPush 1001,
      .maintain 2000 2000]

lemma reachable_samplePinned : Reachable sampleCrates sampleTexts samplePinned := by
  refine Reachable.run reachable_sampleLibrary fun o ho => ?_
  simp only [List.mem_cons, List.not_mem_nil, or_false] at ho
  rcases ho with rfl | rfl | rfl | rfl
  · exact Set.empty_subset _
  · exact texts_samplePushes (by simp)
  · exact Set.empty_subset _
  · exact Set.empty_subset _

/-- The pinned reader follows the push after the pass. -/
theorem pins_protect_the_journal_pinned :
    samplePinned.store.head.seq = 1 ∧ samplePinned.store.head.minRetainedSeq = 0 ∧
      ∀ device limit e, samplePinned.store.changes sampleCrates device 0 limit = .error e →
        e.code ≠ "journal-floor" := by
  have start : (samplePinned.store.statePins.get "pin-1").map PinRow.startSeq = some 0 := by
    decide +kernel
  obtain ⟨pin, hp, hs⟩ := Option.map_eq_some_iff.mp start
  obtain ⟨-, -, hfloor, -, -, h⟩ := pins_protect_the_journal reachable_samplePinned .refl
  have hzero := hfloor "pin-1" pin hp
  rw [hs] at hzero
  refine ⟨by decide +kernel,Nat.le_zero.mp hzero,?_⟩
  exact fun device limit e => h "pin-1" pin hp device 0 limit e hs.le (Nat.zero_le _)

end RisuNest.Server
