import RisuNest.Lib.Keyset
import RisuNest.Server.Ledger
import RisuNest.Server.Retired

/-! Readers that follow the journal. A replica that fell behind is brought level by the pages of
`changes`, whatever is pushed or pruned between two pages. -/
namespace RisuNest.Server
open Wire

instance (p k : UnitKey) : Decidable (IsParent p k) := inferInstanceAs (Decidable (_ ∈ _))

abbrev Replica := UnitKey → Option UnitChange

/-- A reader applies an item: it stores the version, and with a retirement drops the stored
units under that key that are not retirements themselves. -/
def applyItem (R : Replica) (i : JournalItem) : Replica := fun k =>
  if k = i.key then some i.change
  else if isRetirement i.change && decide (IsParent i.key k) && !(R k).any isRetirement then none
  else R k

structure Reader where
  replica : Replica
  cursor : ℕ

/-- The server moves, or it answers the reader's next page. -/
inductive CatchUp (cr : Crates) (texts : Set (List UInt8)) :
    System × Reader → System × Reader → Prop
  | server {s t : System} {r : Reader} (h : Step cr texts s t) : CatchUp cr texts (s,r) (t,r)
  | page {s : System} {r : Reader} {device : Device} {limit : ℕ} {page : ChangesPage}
      (h : s.store.changes cr device r.cursor limit = .ok page) :
      CatchUp cr texts (s,r) (s,⟨page.items.foldl applyItem r.replica,page.nextAfter⟩)

/-! ### The pages -/

lemma fillPage_eq_fill (limit count bytes : ℕ) (l : List JournalItem) :
    Store.fillPage limit count bytes l =
      Keyset.fill (fun i => i.toControl.encode.length) limit (maxMetadataBytes - 1024) count bytes
        l := by
  induction l generalizing count bytes with
  | nil => rfl
  | cons i l ih =>
    rw [Store.fillPage, Keyset.fill]
    dsimp only
    rw [ih]

lemma fillPage_prefix (limit count bytes : ℕ) (l : List JournalItem) :
    (Store.fillPage limit count bytes l).1 <+: l := by
  rw [fillPage_eq_fill]
  exact Keyset.fill_prefix count bytes l

lemma fillPage_complete {limit count bytes : ℕ} {l : List JournalItem}
    (h : (Store.fillPage limit count bytes l).2 = false) (hc : count ≤ limit) :
    (Store.fillPage limit count bytes l).1 = l ∧ count + l.length ≤ limit := by
  rw [fillPage_eq_fill] at h ⊢
  exact Keyset.fill_complete h hc

namespace Store
variable {cr : Crates} {s : Store}

lemma mem_journalRange {after through : ℕ} {i : JournalItem} :
    i ∈ s.journalRange after through ↔
      (∃ k row, s.journal.get k = some row ∧ row.item = i) ∧ after < i.seq ∧ i.seq ≤ through := by
  simp only [journalRange, List.mem_insertionSort, List.mem_filter, List.mem_map, Prod.exists,
    Decimal.textLt_repr, Decimal.textLe_repr, Bool.and_eq_true, decide_eq_true_eq,
    Table.get_eq_some]

lemma pairwise_journalRange (after through : ℕ) :
    (s.journalRange after through).Pairwise fun i j => i.seq ≤ j.seq := by
  have he : (fun i j : JournalItem => Decimal.textLe i.seq.repr j.seq.repr = true) =
      fun i j => i.seq ≤ j.seq := by
    funext i j
    simp
  have : Std.Total fun i j : JournalItem => i.seq ≤ j.seq := ⟨fun i j => le_total i.seq j.seq⟩
  have : IsTrans JournalItem fun i j => i.seq ≤ j.seq := ⟨fun _ _ _ => le_trans⟩
  unfold journalRange
  simp only [he]
  exact List.pairwise_insertionSort _ _

lemma nodup_journalRange (h : Ledger s) (after through : ℕ) :
    (s.journalRange after through).Nodup := by
  apply (List.perm_insertionSort _ _).nodup_iff.mpr
  apply List.Nodup.filter
  apply List.Nodup.of_map JournalItem.key
  have he : (s.journal.rows.map fun r => r.2.item).map JournalItem.key =
      s.journal.rows.map Prod.fst := by
    rw [List.map_map]
    refine List.map_congr_left fun r hr => ?_
    exact h.keyed r.1 r.2 (Table.get_eq_some.mpr hr)
  rw [he]
  exact s.journal.nodup

/-- Each item is the oldest in the journal past the one before it. -/
def Follows (s : Store) : ℕ → List JournalItem → Prop
  | _, [] => True
  | after, i :: l => (∃ k row, s.journal.get k = some row ∧ row.item = i) ∧ after < i.seq ∧
    (∀ k row, s.journal.get k = some row → after < row.item.seq → i.seq ≤ row.item.seq) ∧
    Follows s i.seq l

lemma follows_of_sorted (h : Ledger s) {through : ℕ} {after : ℕ} {l : List JournalItem}
    (hs : l.Pairwise fun i j => i.seq ≤ j.seq) (hn : l.Nodup)
    (hm : ∀ i, i ∈ l ↔
      (∃ k row, s.journal.get k = some row ∧ row.item = i) ∧ after < i.seq ∧ i.seq ≤ through) :
    Follows s after l := by
  induction l generalizing after with
  | nil => trivial
  | cons i l ih =>
    obtain ⟨hi, hl⟩ := List.pairwise_cons.mp hs
    obtain ⟨hin, hn⟩ := List.nodup_cons.mp hn
    obtain ⟨hrow, hlt, hle⟩ := (hm i).mp (by simp)
    refine ⟨hrow,hlt,?_,ih hl hn ?_⟩
    · intro k row hk hak
      by_cases hthrough : row.item.seq ≤ through
      · rcases List.mem_cons.mp ((hm row.item).mpr ⟨⟨k,row,hk,rfl⟩,hak,hthrough⟩) with he | hm'
        · rw [he]
        · exact hi _ hm'
      · omega
    · intro j
      constructor
      · intro hj
        obtain ⟨⟨k, row, hk, rfl⟩, hlt', hle'⟩ := (hm j).mp (by simp [hj])
        refine ⟨⟨k,row,hk,rfl⟩,?_,hle'⟩
        -- two items of one sequence number are one item
        rcases Nat.lt_or_eq_of_le (hi _ hj) with hij | hij
        · exact hij
        · obtain ⟨l', row', hk', rfl⟩ := hrow
          have hkl := h.distinct _ _ _ _ hk' hk hij
          subst hkl
          rw [hk] at hk'
          cases hk'
          exact absurd hj hin
      · rintro ⟨hj, hlt', hle'⟩
        rcases List.mem_cons.mp ((hm j).mpr ⟨hj,hlt.trans hlt',hle'⟩) with rfl | hj'
        · omega
        · exact hj'

lemma Follows.of_prefix {after : ℕ} {l m : List JournalItem} (h : Follows s after m)
    (hl : l <+: m) : Follows s after l := by
  induction l generalizing after m with
  | nil => trivial
  | cons i l ih =>
    obtain ⟨m', rfl⟩ := hl
    obtain ⟨h1, h2, h3, h4⟩ := h
    exact ⟨h1,h2,h3,ih h4 (List.prefix_append l m')⟩

/-- The cursor after some items. -/
def cursorAfter (after : ℕ) (l : List JournalItem) : ℕ :=
  ((l.getLast?).map JournalItem.seq).getD after

lemma cursorAfter_cons (after : ℕ) (i : JournalItem) (l : List JournalItem) :
    cursorAfter after (i :: l) = cursorAfter i.seq l := by
  unfold cursorAfter
  rw [List.getLast?_cons]
  cases l.getLast? <;> rfl

/-- A page: the items that follow the cursor, and the cursor after them. -/
structure IsPage (s : Store) (after : ℕ) (page : ChangesPage) : Prop where
  through : page.throughSeq = s.head.seq
  floor : s.head.minRetainedSeq ≤ after
  within : after ≤ s.head.seq
  follows : Follows s after page.items
  next : page.nextAfter = cursorAfter after page.items ∨ page.nextAfter = s.head.seq ∧
    ∀ k row, s.journal.get k = some row → row.item.seq ≤ s.head.seq →
      row.item.seq ≤ cursorAfter after page.items

lemma le_cursorAfter_of_mem {after : ℕ} {l : List JournalItem}
    (hs : l.Pairwise fun i j => i.seq ≤ j.seq) {i : JournalItem} (hi : i ∈ l) :
    i.seq ≤ cursorAfter after l := by
  induction l generalizing after i with
  | nil => cases hi
  | cons j l ih =>
    obtain ⟨hj, hl⟩ := List.pairwise_cons.mp hs
    rw [cursorAfter_cons]
    rcases List.mem_cons.mp hi with rfl | hi
    · cases hl' : l with
      | nil => exact le_rfl
      | cons k m =>
        have hk : k ∈ l := by simp [hl']
        exact (hj k hk).trans (hl' ▸ ih hl hk)
    · exact ih hl hi

lemma cursorAfter_of_follows {after : ℕ} {l : List JournalItem} (h : Follows s after l) :
    after ≤ cursorAfter after l := by
  induction l generalizing after with
  | nil => exact le_rfl
  | cons i l ih =>
    obtain ⟨-, hlt, -, h⟩ := h
    rw [cursorAfter_cons]
    exact hlt.le.trans (ih h)

theorem changes_eq_ok (hl : Ledger s) {device : Device} {after limit : ℕ} {page : ChangesPage}
    (h : s.changes cr device after limit = .ok page) : IsPage s after page := by
  unfold changes at h
  obtain ⟨_, -, h⟩ := bind_eq_ok.mp h
  obtain ⟨_, -, h⟩ := bind_eq_ok.mp h
  obtain ⟨_, hfloor, h⟩ := bind_eq_ok.mp h
  obtain ⟨_, hwithin, h⟩ := bind_eq_ok.mp h
  have hrange : Follows s after (s.journalRange after s.head.seq) :=
    follows_of_sorted hl (pairwise_journalRange _ _) (nodup_journalRange hl _ _)
      fun i => mem_journalRange
  have hfirst := fillPage_prefix limit 0 512
    ((s.journalRange after s.head.seq).take (limit+1))
  have hcomplete := @fillPage_complete limit 0 512
    ((s.journalRange after s.head.seq).take (limit+1))
  revert h hfirst hcomplete
  generalize fillPage limit 0 512 ((s.journalRange after s.head.seq).take (limit+1)) = filled
  obtain ⟨items, more⟩ := filled
  intro h hfirst hcomplete
  obtain ⟨_, -, h⟩ := bind_eq_ok.mp h
  cases h
  refine ⟨rfl,require_eq_ok.mp hfloor,require_eq_ok.mp hwithin,
    hrange.of_prefix (hfirst.trans (List.take_prefix _ _)),?_⟩
  cases more with
  | true => exact .inl rfl
  | false =>
    right
    obtain ⟨he, hlen⟩ := hcomplete rfl (Nat.zero_le _)
    -- nothing was left out, so the items are the whole range
    have hall : items = s.journalRange after s.head.seq := by
      rw [List.length_take] at hlen
      change items = _ at he
      rw [he]
      apply List.take_of_length_le
      omega
    refine ⟨rfl,fun k row hk hle => ?_⟩
    change row.item.seq ≤ cursorAfter after items
    rw [hall]
    by_cases hrow : after < row.item.seq
    · exact le_cursorAfter_of_mem (pairwise_journalRange _ _)
        (mem_journalRange.mpr ⟨⟨k,row,hk,rfl⟩,hrow,hle⟩)
    · exact (Nat.le_of_not_lt hrow).trans (cursorAfter_of_follows hrange)

end Store

/-! ### What a replica still has to see -/

/-- Why a replica may differ from the units at a key: a version of it is in the journal past the
cursor, or the retirement of a parent of it is. -/
inductive Behind (s : Store) (R : Replica) (after : ℕ) (k : UnitKey) : Prop
  | listed {row : JournalRow} (h : s.journal.get k = some row) (ha : after < row.item.seq)
  | level (h : s.units.get k = R k)
  | dropped (h : s.units.get k = none) (hR : ∀ u, R k = some u → isRetirement u = false)
      {p : UnitKey} {row : JournalRow} (hp : IsParent p k) (hj : s.journal.get p = some row)
      (ha : after < row.item.seq) (hr : isRetirement row.item.change = true)

/-- A replica that can be brought level from its cursor, as long as the floor has not passed
it. -/
structure InStep (s : Store) (R : Replica) (after : ℕ) : Prop where
  cursor : after ≤ s.head.seq
  retired : ∀ k u, R k = some u → isRetirement u = true → s.retired.contains k = true
  behind : s.head.minRetainedSeq ≤ after → ∀ k, Behind s R after k

lemma InStep.start {s : Store} (h : Retirements s) : InStep s s.units.get s.head.seq := by
  refine ⟨le_rfl,?_,fun _ k => .level rfl⟩
  intro k u hu hr
  simp [Table.contains, h.retirement k u hu hr]

lemma InStep.level {s : Store} {R : Replica} (h : InStep s R s.head.seq) (hl : Ledger s) :
    ∀ k, R k = s.units.get k := by
  intro k
  cases h.behind hl.floor k with
  | listed hk ha => exact absurd (hl.atMost k _ hk) (Nat.not_le_of_lt ha)
  | level he => exact he.symm
  | dropped _ _ _ hj ha => exact absurd (hl.atMost _ _ hj) (Nat.not_le_of_lt ha)

lemma Behind.applyItem {s : Store} {R : Replica} {after : ℕ} (hret : Retirements s)
    (hl : Ledger s) (h : ∀ k, Behind s R after k) {i : JournalItem} {ki : UnitKey}
    {ri : JournalRow} (hi : s.journal.get ki = some ri) (he : ri.item = i)
    (hfirst : ∀ k row, s.journal.get k = some row → after < row.item.seq →
      i.seq ≤ row.item.seq) (k : UnitKey) : Behind s (applyItem R i) i.seq k := by
  subst he
  obtain ⟨hkey, hunit⟩ := hret.journalled ki ri hi
  by_cases hk : k = ki
  · subst hk
    refine .level ?_
    rw [hunit, Server.applyItem, if_pos hkey.symm]
  · have hk' : k ≠ ri.item.key := fun hc => hk (hc.trans hkey)
    -- any other row past the cursor lies past this item
    have hlater : ∀ l row, s.journal.get l = some row → after < row.item.seq → l ≠ ki →
        ri.item.seq < row.item.seq := by
      intro l row hrow ha hne
      apply lt_of_le_of_ne (hfirst l row hrow ha)
      intro heq
      exact hne (hl.distinct ki l ri row hi hrow heq).symm
    have hR : Server.applyItem R ri.item k = none ∨ Server.applyItem R ri.item k = R k := by
      unfold Server.applyItem
      rw [if_neg hk']
      split_ifs
      · exact .inl rfl
      · exact .inr rfl
    cases h k with
    | listed hrow ha => exact .listed hrow (hlater k _ hrow ha hk)
    | level hlevel =>
      refine .level ?_
      rw [hlevel, Server.applyItem, if_neg hk']
      split_ifs with hdrop
      · -- a unit below a retired key that is no retirement is not stored
        obtain ⟨⟨hr, hp⟩, hn⟩ : (isRetirement ri.item.change = true ∧
            IsParent ri.item.key k) ∧ (R k).any isRetirement = false := by
          simpa [Bool.and_eq_true] using hdrop
        cases hu : R k with
        | none => rfl
        | some u =>
          exfalso
          rw [hu] at hlevel hn
          have hlive := (hret.live k u hlevel hn).2 ri.item.key hp
          rw [hkey, hret.retirement ki _ hunit hr] at hlive
          cases hlive
      · rfl
    | dropped hnone hnr hp hrow ha hr =>
      rename_i p row
      by_cases hpk : p = ki
      · subst hpk
        refine .level ?_
        rw [hi] at hrow
        cases hrow
        rw [hnone, Server.applyItem, if_neg hk', if_pos]
        have hany : (R k).any isRetirement = false := by
          cases hu : R k with
          | none => rfl
          | some u => exact hnr u hu
        rw [hr, hany, hkey]
        simpa using hp
      · refine .dropped hnone ?_ hp hrow (hlater p row hrow ha hpk) hr
        intro u hu
        rcases hR with hR | hR
        · rw [hR] at hu
          cases hu
        · exact hnr u (hR ▸ hu)

lemma InStep.applyItems {s : Store} (hret : Retirements s) (hl : Ledger s)
    {l : List JournalItem} {R : Replica} {after : ℕ} (h : InStep s R after)
    (hf : s.head.minRetainedSeq ≤ after) (hfollow : Store.Follows s after l) :
    InStep s (l.foldl applyItem R) (Store.cursorAfter after l) := by
  induction l generalizing R after with
  | nil => exact h
  | cons i l ih =>
    obtain ⟨⟨k, row, hk, rfl⟩, hlt, hfirst, hfollow⟩ := hfollow
    rw [List.foldl_cons, Store.cursorAfter_cons]
    refine ih ⟨hl.atMost k row hk,?_,?_⟩ (hf.trans hlt.le) hfollow
    · intro l u hu hr
      unfold applyItem at hu
      split_ifs at hu with he
      · obtain ⟨hkey, hunit⟩ := hret.journalled k row hk
        cases hu
        rw [he, hkey]
        simp [Table.contains, hret.retirement k _ hunit hr]
      · exact h.retired l u hu hr
    · exact fun _ => Behind.applyItem hret hl (h.behind hf) hk rfl hfirst

lemma InStep.page {s : Store} (hret : Retirements s) (hl : Ledger s) {R : Replica} {after : ℕ}
    (h : InStep s R after) {page : ChangesPage} (hp : Store.IsPage s after page) :
    InStep s (page.items.foldl applyItem R) page.nextAfter := by
  have happlied := h.applyItems hret hl hp.floor hp.follows
  rcases hp.next with hn | ⟨hn, hall⟩
  · rw [hn]
    exact happlied
  · have hfloor := hp.floor.trans (Store.cursorAfter_of_follows hp.follows)
    rw [hn]
    refine ⟨le_rfl,happlied.retired,fun _ k => ?_⟩
    -- no row lies past the last item
    cases happlied.behind hfloor k with
    | listed hk ha => exact absurd (hall k _ hk (hl.atMost k _ hk)) (Nat.not_le_of_lt ha)
    | level he => exact .level he
    | dropped _ _ _ hj ha => exact absurd (hall _ _ hj (hl.atMost _ _ hj)) (Nat.not_le_of_lt ha)

/-! ### The server moves on -/

lemma Behind.mono {s t : Store} {R : Replica} {after : ℕ} {k : UnitKey}
    (h : Behind s R after k) (hu : t.units = s.units)
    (hj : ∀ k row, s.journal.get k = some row → after < row.item.seq →
      t.journal.get k = some row) : Behind t R after k := by
  cases h with
  | listed hk ha => exact .listed (hj k _ hk ha) ha
  | level he => exact .level (by rw [hu, he])
  | dropped hn hR hp hrow ha hr => exact .dropped (by rw [hu, hn]) hR hp (hj _ _ hrow ha) ha hr

lemma Store.Accepted.inStep {cr : Crates} {s t : Store} {p : Pending} {created : ℤ}
    {level : ℕ} {won : List UnitChange} {receipt : PushReceipt} {R : Replica} {after : ℕ}
    (a : Accepted cr s p created level won receipt t) (hret : Retirements s)
    (h : InStep s R after) : InStep t R after := by
  have hseq := a.seq
  refine ⟨?_,?_,?_⟩
  · have := h.cursor
    omega
  · exact fun k u hu hr => a.retired_mono (h.retired k u hu hr)
  · intro hf k
    have hf' : s.head.minRetainedSeq ≤ after := by rwa [a.head] at hf
    -- a winner's new row lies past the cursor
    have hnew : ∀ c ∈ won, ∃ row, t.journal.get c.key = some row ∧
        row.item.change = c ∧ after < row.item.seq := by
      intro c hc
      obtain ⟨q, hq, -, hrow⟩ := a.applied.item c hc
      exact ⟨_,hrow,rfl,h.cursor.trans_lt hq⟩
    by_cases hk : k ∈ won.map UnitChange.key
    · obtain ⟨c, hc, rfl⟩ := List.mem_map.mp hk
      obtain ⟨row, hrow, -, ha⟩ := hnew c hc
      exact .listed hrow ha
    · by_cases hd : Dropped s won k
      · obtain ⟨r, hr, hdr⟩ := hd
        obtain ⟨row, hrow, hchange, ha⟩ := hnew r hr
        have hdr' := hdr
        simp only [drops, Bool.and_eq_true, Bool.not_eq_true'] at hdr'
        obtain ⟨⟨hrr, hp⟩, hn⟩ := hdr'
        refine .dropped (a.applied.dropped k hk ⟨r,hr,hdr⟩).1 ?_ (hret.onlyParents _ _ hp) hrow
          ha (hchange ▸ hrr)
        intro u hu
        cases hur : isRetirement u with
        | false => rfl
        | true =>
          rw [h.retired k u hu hur] at hn
          cases hn
      · obtain ⟨hu, hj⟩ := a.applied.kept k hk hd
        cases h.behind hf' k with
        | listed hrow ha => exact .listed (hj.trans hrow) ha
        | level he => exact .level (hu.trans he)
        | dropped hn hR hp hrow ha hr =>
          rename_i q row
          -- the parent stays retired, by its old row or by a newer retirement
          have hqret : s.retired.get q = some row.item.change :=
            hret.retirement q _ (hret.journalled q row hrow).2 hr
          by_cases hq : q ∈ won.map UnitChange.key
          · obtain ⟨c, hc, rfl⟩ := List.mem_map.mp hq
            obtain ⟨row', hrow', hchange, ha'⟩ := hnew c hc
            refine .dropped (hu.trans hn) hR hp hrow' ha' ?_
            rw [hchange]
            cases hcr : isRetirement c with
            | true => rfl
            | false =>
              rw [(a.winner_live hret hc hcr).1] at hqret
              cases hqret
          · have hqd : ¬ Dropped s won q := by
              rintro ⟨r', -, hd'⟩
              simp [drops, Table.contains, hqret] at hd'
            exact .dropped (hu.trans hn) hR hp ((a.applied.kept q hq hqd).2.trans hrow) ha hr

lemma Moved.inStep {cr : Crates} {texts : Set (List UInt8)} {o : Option Op} {s t : System} {R : Replica}
    {after : ℕ} (hret : Retirements s.store) (hl : Ledger s.store)
    (hm : Moved cr texts o s t) (h : InStep s.store R after) : InStep t.store R after := by
  cases hm with
  | quiet hq =>
    refine ⟨by rw [hq.head]; exact h.cursor,by rw [hq.retired]; exact h.retired,?_⟩
    rw [hq.head]
    exact fun hf k => (h.behind hf k).mono hq.units fun _ _ hj _ => hq.journal ▸ hj
  | prepared _ _ _ _ _ _ hf =>
    rw [hf]
    exact ⟨h.cursor,h.retired,fun hf k => (h.behind hf k).mono rfl fun _ _ hj _ => hj⟩
  | accepted _ _ _ _ _ _ ha => exact ha.inStep hret h
  | @pruned current _ _ _ _ _ hp =>
    rw [hp]
    refine ⟨h.cursor,h.retired,fun hf k => ?_⟩
    change (s.store.pruned current).head.minRetainedSeq ≤ after at hf
    have hold : s.store.head.minRetainedSeq ≤ after :=
      (Store.le_nextFloor (s.store.expire current).purgeRevokedDevices _).trans hf
    refine (h.behind hold k).mono rfl fun l row hj ha => ?_
    -- the pass drops rows up to the floor only
    apply Table.get_deleteWhere_eq_some.mpr
    refine ⟨hj,?_⟩
    rw [Store.pruned_head] at hf
    rw [Decimal.textLe_repr, decide_eq_false_iff_not]
    exact Nat.not_le_of_lt (lt_of_le_of_lt hf ha)
  | rotated _ _ hr =>
    rw [hr]
    refine ⟨h.cursor,h.retired,fun hf k => .level ?_⟩
    -- the floor is the head, so a reader it has not passed is level
    have hhead : after = s.store.head.seq := le_antisymm h.cursor hf
    subst hhead
    exact (h.level hl k).symm

theorem CatchUp.inStep {cr : Crates} {texts : Set (List UInt8)} {x y : System × Reader}
    (hx : Reachable cr texts x.1) (h : InStep x.1.store x.2.replica x.2.cursor)
    (path : Relation.ReflTransGen (CatchUp cr texts) x y) :
    Reachable cr texts y.1 ∧ InStep y.1.store y.2.replica y.2.cursor := by
  induction path with
  | refl => exact ⟨hx,h⟩
  | tail _ hst ih =>
    obtain ⟨hr, hi⟩ := ih
    cases hst with
    | server hs =>
      obtain ⟨o, hm⟩ := step_cases hr.pendingValid hs
      exact ⟨hr.step hs,hm.inStep hr.retirements hr.ledger hi⟩
    | page hp =>
      exact ⟨hr,hi.page hr.retirements hr.ledger (Store.changes_eq_ok hr.ledger hp)⟩

/-- A reader whose replica is the units at a cursor, and who follows the pages from there, holds
the units again as soon as a page reaches the head, whatever else the server does meanwhile. -/
theorem catch_up_loses_nothing {cr : Crates} {texts : Set (List UInt8)} {s t u : System}
    (h : Reachable cr texts s) (past : Relation.ReflTransGen (Step cr texts) s t)
    {r : Reader} (follow : Relation.ReflTransGen (CatchUp cr texts)
      (t,⟨s.store.units.get,s.store.head.seq⟩) (u,r))
    {device : Device} {limit : ℕ} {page : ChangesPage}
    (answer : u.store.changes cr device r.cursor limit = .ok page)
    (final : page.nextAfter = page.throughSeq) :
    page.throughSeq = u.store.head.seq ∧
      ∀ k, page.items.foldl applyItem r.replica k = u.store.units.get k := by
  obtain ⟨ht, hstart⟩ := h.run_induct
    (I := fun v => InStep v.store s.store.units.get s.store.head.seq) (.start h.retirements)
    (fun v _ _ hv hi hm => hm.inStep hv.retirements hv.ledger hi) past
  obtain ⟨hu, hi⟩ := CatchUp.inStep ht hstart follow
  have hp := Store.changes_eq_ok hu.ledger answer
  refine ⟨hp.through,?_⟩
  have hpage := hi.page hu.retirements hu.ledger hp
  rw [final, hp.through] at hpage
  exact hpage.level hu.ledger

/-- The sample library after the name of a character was pushed. -/
def sampleNamed : System :=
  System.run sampleCrates ⟨sampleLibrary sampleCrates,none⟩ [.beginPush pushName,.finishPush 0]

/-- And after the character was deleted. -/
def sampleGone : System :=
  System.run sampleCrates sampleNamed [.beginPush pushDeletion,.finishPush 0]

def nameItem : JournalItem := ⟨1,sampleName,⟨3,0,sampleWriter⟩,.deleted⟩

def deletionItem : JournalItem := ⟨2,sampleCharacter,⟨2,0,sampleWriter⟩,.deleted⟩

/-- A reader takes a page between the two pushes and a page after them. -/
theorem catch_up_loses_nothing_between_pushes :
    (∃ page, sampleGone.store.changes sampleCrates sampleDevice 1 5 = .ok page) ∧
      ∀ k, applyItem (applyItem (fun _ => none) nameItem) deletionItem k =
        sampleGone.store.units.get k := by
  have hname : (Op.beginPush pushName).texts ⊆ sampleTexts := texts_samplePushes (by simp)
  have hdeletion : (Op.beginPush pushDeletion).texts ⊆ sampleTexts :=
    texts_samplePushes (by simp)
  have first : sampleNamed.store.changes sampleCrates sampleDevice 0 1 =
      .ok ⟨1,0,[nameItem],1⟩ := by decide +kernel
  have second : sampleGone.store.changes sampleCrates sampleDevice 1 5 =
      .ok ⟨2,0,[deletionItem],2⟩ := by decide +kernel
  have past : Relation.ReflTransGen (Step sampleCrates sampleTexts)
      ⟨sampleLibrary sampleCrates,none⟩ sampleNamed :=
    (Relation.ReflTransGen.single (.op (.beginPush pushName) hname)).tail
      (.op (.finishPush 0) (Set.empty_subset _))
  have follow : Relation.ReflTransGen (CatchUp sampleCrates sampleTexts)
      (sampleNamed,⟨fun _ => none,0⟩) (sampleGone,⟨applyItem (fun _ => none) nameItem,1⟩) :=
    ((Relation.ReflTransGen.single (.page first)).tail
      (.server (.op (.beginPush pushDeletion) hdeletion))).tail
        (.server (.op (.finishPush 0) (Set.empty_subset _)))
  exact ⟨⟨_,second⟩,
    (catch_up_loses_nothing reachable_sampleLibrary past follow second rfl).2⟩

end RisuNest.Server
