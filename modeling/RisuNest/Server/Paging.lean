import RisuNest.Server.Heads
import RisuNest.Server.CatchUp
import RisuNest.Server.Reads
import RisuNest.Wire.UnitSizes

/-! Pages of versions always move: no version that a push accepted is too large for a page
(`changes` and `state_page` of `lww.rs`). -/
namespace RisuNest.Server
open Wire

/-- Every device sends its stamps in the types of the code. -/
def TypedPushes (texts : Set (List UInt8)) : Prop :=
  ∀ r : PushRequest, r.toControl.encode ∈ texts → ∀ c ∈ r.changes, c.stamp.Typed

/-- A version that passed its checks, with a stamp in the types of the code. -/
def Shown (cr : Crates) (c : UnitChange) : Prop := c.validate cr = .ok () ∧ c.stamp.Typed

/-- All versions that a page can hold passed their checks. -/
structure Paged (cr : Crates) (s : Store) : Prop where
  units : ∀ k c, s.units.get k = some c → Shown cr c
  journal : ∀ k row, s.journal.get k = some row → Shown cr row.item.change
  pins : ∀ id pin, s.statePins.get id = some pin → ∀ k c, pin.units.get k = some c → Shown cr c

lemma validate_of_validateChanges {cr : Crates} {seen : List UnitKey} {cs : List UnitChange}
    (h : PushRequest.validateChanges cr seen cs = .ok ()) : ∀ c ∈ cs, c.validate cr = .ok () := by
  induction cs generalizing seen with
  | nil => exact List.forall_mem_nil _
  | cons c cs ih =>
    unfold PushRequest.validateChanges at h
    obtain ⟨_,hc,h⟩ := bind_eq_ok.mp h
    dsimp only at h
    split_ifs at h
    · cases h
    · exact List.forall_mem_cons.mpr ⟨hc,ih h⟩

lemma PushRequest.validate_changes {cr : Crates} {r : PushRequest} (h : r.validate cr = .ok ()) :
    ∀ c ∈ r.changes, c.validate cr = .ok () := by
  obtain ⟨_,-,h⟩ := bind_eq_ok.mp h
  obtain ⟨_,-,h⟩ := bind_eq_ok.mp h
  obtain ⟨_,-,h⟩ := bind_eq_ok.mp h
  dsimp only at h
  split_ifs at h
  · cases h
  · exact validate_of_validateChanges h

lemma Moved.paged {cr : Crates} {texts : Set (List UInt8)} {o : Option Op} {s t : System}
    (typed : TypedPushes texts)
    (hv : PendingValid cr texts s) (h : Paged cr s.store) (hm : Moved cr texts o s t) :
    Paged cr t.store := by
  cases hm with
  | quiet hq =>
    refine ⟨hq.units ▸ h.units,hq.journal ▸ h.journal,fun id pin hp => ?_⟩
    obtain hp | ⟨-,hp⟩ := hq.pins id pin hp
    · exact h.pins id pin hp
    · exact hp ▸ h.units
  | prepared _ _ _ _ _ _ hf =>
    rw [hf]
    exact ⟨h.units,h.journal,h.pins⟩
  | @accepted p created level won receipt hs _ _ _ _ _ ha =>
    obtain ⟨hw,hx⟩ := hv p hs
    have hwon : ∀ c ∈ won, Shown cr c := fun c hc => by
      rw [ha.won_eq] at hc
      have hc := (List.mem_filter.mp hc).1
      exact ⟨PushRequest.validate_changes (hw.valid ha.prepared) c hc,typed _ hx.1 c hc⟩
    refine ⟨fun k c hk => ?_,fun k row hk => ?_,ha.frame ▸ h.pins⟩
    · by_cases hm : k ∈ won.map UnitChange.key
      · obtain ⟨d,hd,rfl⟩ := List.mem_map.mp hm
        obtain rfl := Option.some.inj ((ha.applied.unit d hd).symm.trans hk)
        exact hwon d hd
      · by_cases hdrop : Store.Dropped s.store won k
        · exact nomatch (ha.applied.dropped k hm hdrop).1.symm.trans hk
        · exact h.units k c ((ha.applied.kept k hm hdrop).1.symm.trans hk)
    · by_cases hm : k ∈ won.map UnitChange.key
      · obtain ⟨d,hd,rfl⟩ := List.mem_map.mp hm
        obtain ⟨q,-,-,hq⟩ := ha.applied.item d hd
        obtain rfl := Option.some.inj (hq.symm.trans hk)
        exact hwon d hd
      · by_cases hdrop : Store.Dropped s.store won k
        · exact nomatch (ha.applied.dropped k hm hdrop).2.symm.trans hk
        · exact h.journal k row ((ha.applied.kept k hm hdrop).2.symm.trans hk)
  | @pruned current _ _ _ _ _ hp =>
    rw [hp]
    refine ⟨h.units,fun k row hk => ?_,fun id pin hp => ?_⟩
    · exact h.journal k row (Table.get_deleteWhere_eq_some.mp hk).1
    · exact h.pins id pin (Table.get_deleteWhere_eq_some.mp hp).1
  | rotated _ _ hr =>
    rw [hr]
    exact ⟨h.units,(fun _ _ hj => nomatch hj),fun _ _ hp => nomatch hp⟩

lemma Reachable.paged {cr : Crates} {texts : Set (List UInt8)} (typed : TypedPushes texts)
    {s : System} (h : Reachable cr texts s) : Paged cr s.store :=
  (Reachable.invariant (I := fun s => Paged cr s.store)
    (fun _ _ => ⟨(fun _ _ hk => nomatch hk),(fun _ _ hk => nomatch hk),fun _ _ hk => nomatch hk⟩)
    (fun _ _ _ hv hi hm => hm.paged typed hv hi) h).2

/-! ### The pages -/

namespace Store
variable {cr : Crates} {s : Store} {device : Device} {limit : ℕ}

lemma room {size : ℕ} (hsize : size ≤ maxStoredBytes) : 512 + size ≤ maxMetadataBytes - 1024 := by
  change size ≤ 746000 at hsize
  change 512 + size ≤ 1048576 - 1024
  omega

lemma fillPage_head {l : List JournalItem} (hlimit : 1 ≤ limit)
    (hl : ∀ i ∈ l, i.toControl.encode.length ≤ maxStoredBytes) :
    (fillPage limit 0 512 l).1.head? = l.head? := by
  rw [fillPage_eq_fill]
  exact Keyset.fill_head hlimit fun i hi => room (hl i hi)

lemma fillUnits_eq_fill (limit count bytes : ℕ) (l : List UnitChange) :
    fillUnits limit count bytes l =
      Keyset.fill (fun c => c.toControl.encode.length) limit (maxMetadataBytes - 1024) count bytes
        l := by
  induction l generalizing count bytes with
  | nil => rfl
  | cons c l ih =>
    rw [fillUnits, Keyset.fill]
    dsimp only
    rw [ih]

lemma fillUnits_head {l : List UnitChange} (hlimit : 1 ≤ limit)
    (hl : ∀ c ∈ l, c.toControl.encode.length ≤ maxStoredBytes) :
    (fillUnits limit 0 512 l).1.head? = l.head? := by
  rw [fillUnits_eq_fill]
  exact Keyset.fill_head hlimit fun c hc => room (hl c hc)

lemma answers {α : Type} {items l : List α} {more : Bool} (hhead : items.head? = l.head?)
    (hmore : l = [] → more = false) : ¬ (more = true ∧ items = []) := by
  rintro ⟨ht,hempty⟩
  rw [hempty, List.head?_nil, eq_comm, List.head?_eq_none_iff] at hhead
  rw [hmore hhead] at ht
  cases ht

lemma requireDevice_code {e : Error} (h : s.requireDevice cr device = .error e) :
    e.code ≠ "metadata-too-large" := by
  unfold requireDevice at h
  obtain h | ⟨_,-,h⟩ := bind_eq_error.mp h
  · rw [← (require_eq_error.mp h).2]
    decide
  obtain h | ⟨level,-,h⟩ := bind_eq_error.mp h
  · unfold storedFormat at h
    split at h
    · cases h
    · split at h
      · cases h
      · cases h
        decide
  · unfold admitFormat at h
    split_ifs at h
    split at h
    · cases h
      decide
    · split_ifs at h
      cases h
      decide

/-- The texts that a page holds are short. -/
structure Short (s : Store) : Prop where
  units : ∀ k c, s.units.get k = some c → c.toControl.encode.length ≤ maxStoredBytes
  journal : ∀ k row, s.journal.get k = some row →
    row.item.toControl.encode.length ≤ maxStoredBytes
  pins : ∀ id pin, s.statePins.get id = some pin →
    ∀ k c, pin.units.get k = some c → c.toControl.encode.length ≤ maxStoredBytes

lemma Short.journalRange (h : Short s) {after through n : ℕ} :
    ∀ i ∈ (s.journalRange after through).take n, i.toControl.encode.length ≤ maxStoredBytes := by
  intro i hi
  obtain ⟨⟨k,row,hk,rfl⟩,-,-⟩ := mem_journalRange.mp (List.mem_of_mem_take hi)
  exact h.journal k row hk

lemma mem_pinRange {pin : PinRow} {after : Option UnitKey} {c : UnitChange} :
    c ∈ pinRange pin after ↔
      ∃ k, pin.units.get k = some c ∧ (after.map UnitKey.asStr).getD "" < k.asStr := by
  simp only [pinRange, List.mem_map, List.mem_insertionSort, List.mem_filter, decide_eq_true_eq,
    Prod.exists, Table.get_eq_some]
  constructor
  · rintro ⟨k,d,⟨hk,hafter⟩,rfl⟩
    exact ⟨k,hk,hafter⟩
  · rintro ⟨k,hk,hafter⟩
    exact ⟨k,c,⟨hk,hafter⟩,rfl⟩

lemma Short.pinRange (h : Short s) {id : String} {pin : PinRow}
    (hpin : s.statePins.get id = some pin) {after : Option UnitKey} {n : ℕ} :
    ∀ c ∈ (pinRange pin after).take n, c.toControl.encode.length ≤ maxStoredBytes := by
  intro c hc
  obtain ⟨k,hk,-⟩ := mem_pinRange.mp (List.mem_of_mem_take hc)
  exact h.pins id pin hpin k c hk

lemma journalRange_head (hl : Ledger s) {k : UnitKey} {row : JournalRow} {after : ℕ}
    (hk : s.journal.get k = some row) (hafter : after < row.item.seq)
    (hfirst : ∀ l other, s.journal.get l = some other → after < other.item.seq →
      row.item.seq ≤ other.item.seq) :
    (s.journalRange after s.head.seq).head? = some row.item := by
  have hm : row.item ∈ s.journalRange after s.head.seq :=
    mem_journalRange.mpr ⟨⟨k,row,hk,rfl⟩,hafter,hl.atMost k row hk⟩
  have hs := pairwise_journalRange (s := s) after s.head.seq
  cases hrange : s.journalRange after s.head.seq with
  | nil =>
    rw [hrange] at hm
    cases hm
  | cons i l =>
    obtain ⟨⟨ki,ri,hi,rfl⟩,hafter',-⟩ := mem_journalRange.mp (hrange ▸ List.mem_cons_self :
      i ∈ s.journalRange after s.head.seq)
    rw [hrange] at hm hs
    rw [List.head?_cons]
    obtain heq | hm := List.mem_cons.mp hm
    · rw [heq]
    · have hle := (List.pairwise_cons.mp hs).1 _ hm
      have heq := hl.distinct k ki row ri hk hi (le_antisymm (hfirst ki ri hi hafter') hle)
      subst heq
      rw [hk] at hi
      cases hi
      rfl

lemma pinRange_head {pin : PinRow} {after : Option UnitKey} {k : UnitKey} {c : UnitChange}
    (hk : pin.units.get k = some c) (hafter : (after.map UnitKey.asStr).getD "" < k.asStr)
    (hfirst : ∀ l d, pin.units.get l = some d → (after.map UnitKey.asStr).getD "" < l.asStr →
      k.asStr ≤ l.asStr) : (pinRange pin after).head? = some c := by
  unfold pinRange
  dsimp only
  have : Std.Total fun a b : UnitKey × UnitChange => a.1.asStr ≤ b.1.asStr :=
    ⟨fun _ _ => le_total _ _⟩
  have : IsTrans (UnitKey × UnitChange) fun a b => a.1.asStr ≤ b.1.asStr :=
    ⟨fun _ _ _ => le_trans⟩
  have hs := List.pairwise_insertionSort (fun a b : UnitKey × UnitChange => a.1.asStr ≤ b.1.asStr)
    (pin.units.rows.filter fun r => decide ((after.map UnitKey.asStr).getD "" < r.1.asStr))
  have hrow : ∀ r, r ∈ (pin.units.rows.filter fun r =>
      decide ((after.map UnitKey.asStr).getD "" < r.1.asStr)).insertionSort
        (fun a b => a.1.asStr ≤ b.1.asStr) ↔
      pin.units.get r.1 = some r.2 ∧ (after.map UnitKey.asStr).getD "" < r.1.asStr := by
    intro r
    rw [List.mem_insertionSort, List.mem_filter, decide_eq_true_eq, Table.get_eq_some]
  revert hs hrow
  generalize (pin.units.rows.filter fun r =>
    decide ((after.map UnitKey.asStr).getD "" < r.1.asStr)).insertionSort
      (fun a b => a.1.asStr ≤ b.1.asStr) = rows
  intro hs hrow
  have hm := (hrow (k,c)).mpr ⟨hk,hafter⟩
  cases rows with
  | nil => cases hm
  | cons r rows =>
    obtain ⟨hr,hafter'⟩ := (hrow r).mp List.mem_cons_self
    obtain heq | hm := List.mem_cons.mp hm
    · rw [← heq]
      rfl
    · have hle := (List.pairwise_cons.mp hs).1 _ hm
      have heq : k = r.1 := UnitKey.asStr_injective (le_antisymm (hfirst r.1 r.2 hr hafter') hle)
      subst heq
      rw [hk] at hr
      rw [List.map_cons, List.head?_cons, Option.some.inj hr]

lemma changes_code (h : Short s) (hlimit : 1 ≤ limit) {after : ℕ} {e : Error}
    (he : s.changes cr device after limit = .error e) : e.code ≠ "metadata-too-large" := by
  unfold changes at he
  obtain he | ⟨_,-,he⟩ := bind_eq_error.mp he
  · rw [← (require_eq_error.mp he).2]
    decide
  obtain he | ⟨_,-,he⟩ := bind_eq_error.mp he
  · exact requireDevice_code he
  have hcode : "journal-floor" ≠ "metadata-too-large" := by decide
  obtain he | ⟨_,-,he⟩ := bind_eq_error.mp he
  · exact (require_eq_error.mp he).2 ▸ hcode
  obtain he | ⟨_,-,he⟩ := bind_eq_error.mp he
  · exact (require_eq_error.mp he).2 ▸ hcode
  obtain he | ⟨_,-,he⟩ := bind_eq_error.mp he
  · refine absurd ?_ (require_eq_error.mp he).1
    exact answers (fillPage_head hlimit h.journalRange) fun hnil => by rw [hnil, fillPage]
  · cases he

lemma statePage_code (h : Short s) (hlimit : 1 ≤ limit) {id : String} {after : Option UnitKey}
    {now : ℤ} {e : Error} (he : s.statePage cr device id after limit now = .error e) :
    e.code ≠ "metadata-too-large" := by
  unfold statePage at he
  obtain he | ⟨_,-,he⟩ := bind_eq_error.mp he
  · obtain ⟨w,hw,rfl⟩ := lift_eq_error.mp he
    unfold validateId at hw
    dsimp only at hw
    split_ifs at hw
    cases hw
    decide
  obtain he | ⟨_,-,he⟩ := bind_eq_error.mp he
  · rw [← (require_eq_error.mp he).2]
    decide
  obtain he | ⟨_,-,he⟩ := bind_eq_error.mp he
  · exact requireDevice_code he
  cases hpin : s.statePins.get id with
  | none =>
    rw [hpin] at he
    cases he
    decide
  | some pin =>
    rw [hpin] at he
    obtain he | ⟨_,-,he⟩ := bind_eq_error.mp he
    · rw [← (require_eq_error.mp he).2]
      decide
    obtain he | ⟨_,-,he⟩ := bind_eq_error.mp he
    · refine absurd ?_ (require_eq_error.mp he).1
      exact answers (fillUnits_head hlimit (h.pinRange hpin)) fun hnil => by rw [hnil, fillUnits]
    · cases he

lemma changes_first (h : Short s) (hl : Ledger s) (h1 : 1 ≤ limit) (h2 : limit ≤ 1024)
    (hd : s.requireDevice cr device = .ok ()) {k : UnitKey} {row : JournalRow} {after : ℕ}
    (hk : s.journal.get k = some row) (hfloor : s.head.minRetainedSeq ≤ after)
    (hafter : after < row.item.seq)
    (hfirst : ∀ l other, s.journal.get l = some other → after < other.item.seq →
      row.item.seq ≤ other.item.seq) :
    ∃ page, s.changes cr device after limit = .ok page ∧ page.items.head? = some row.item := by
  have hhead := fillPage_head h1 (@Short.journalRange s h after s.head.seq (limit+1))
  have hmore (hnil : (s.journalRange after s.head.seq).take (limit+1) = []) :
      (fillPage limit 0 512 ((s.journalRange after s.head.seq).take (limit+1))).2 = false := by
    rw [hnil, fillPage]
  have hanswers := answers hhead hmore
  rw [List.head?_take, if_neg (Nat.succ_ne_zero limit),
    journalRange_head hl hk hafter hfirst] at hhead
  cases hfilled : fillPage limit 0 512 ((s.journalRange after s.head.seq).take (limit+1)) with
  | mk items more =>
  rw [hfilled] at hhead hanswers
  refine ⟨⟨s.head.seq,s.head.minRetainedSeq,items,
    if more then ((items.getLast?).map JournalItem.seq).getD after else s.head.seq⟩,?_,hhead⟩
  unfold changes
  refine bind_eq_ok.mpr ⟨(),require_eq_ok.mpr ⟨by omega,h2⟩,?_⟩
  refine bind_eq_ok.mpr ⟨(),hd,?_⟩
  refine bind_eq_ok.mpr ⟨(),require_eq_ok.mpr hfloor,?_⟩
  refine bind_eq_ok.mpr ⟨(),require_eq_ok.mpr (hafter.le.trans (hl.atMost k row hk)),?_⟩
  dsimp only
  rw [hfilled]
  exact bind_eq_ok.mpr ⟨(),require_eq_ok.mpr hanswers,rfl⟩

lemma statePage_answers (h : Short s) (h1 : 1 ≤ limit) (h2 : limit ≤ 1024)
    (hd : s.requireDevice cr device = .ok ()) {id : String} {pin : PinRow} {now : ℤ}
    (hid : validateId id = .ok ()) (hpin : s.statePins.get id = some pin)
    (hown : pin.device = device.id) (hnow : now < pin.expires) (after : Option UnitKey) :
    ∃ page, s.statePage cr device id after limit now = .ok page ∧
      page.items.head? = (pinRange pin after).head? := by
  have hhead := fillUnits_head h1 (@Short.pinRange s h id pin hpin after (limit+1))
  have hmore (hnil : (pinRange pin after).take (limit+1) = []) :
      (fillUnits limit 0 512 ((pinRange pin after).take (limit+1))).2 = false := by
    rw [hnil, fillUnits]
  have hanswers := answers hhead hmore
  rw [List.head?_take, if_neg (Nat.succ_ne_zero limit)] at hhead
  cases hfilled : fillUnits limit 0 512 ((pinRange pin after).take (limit+1)) with
  | mk items more =>
  rw [hfilled] at hhead hanswers
  refine ⟨⟨id,pin.startSeq,items,if more then (items.getLast?).map UnitChange.key else none⟩,?_,
    hhead⟩
  unfold statePage
  refine bind_eq_ok.mpr ⟨(),lift_eq_ok.mpr hid,?_⟩
  refine bind_eq_ok.mpr ⟨(),require_eq_ok.mpr ⟨by omega,h2⟩,?_⟩
  refine bind_eq_ok.mpr ⟨(),hd,?_⟩
  rw [hpin]
  refine bind_eq_ok.mpr ⟨(),require_eq_ok.mpr ⟨hown,hnow⟩,?_⟩
  rw [hfilled]
  exact bind_eq_ok.mpr ⟨(),require_eq_ok.mpr hanswers,rfl⟩

end Store

lemma Reachable.short {cr : Crates} (h64 : Base64Url cr) {texts : Set (List UInt8)}
    (typed : TypedPushes texts) {s : System} (h : Reachable cr texts s) : s.store.Short := by
  have hp := h.paged typed
  refine ⟨fun k c hk => ?_,fun k row hk => ?_,fun id pin hid k c hk => ?_⟩
  · obtain ⟨hc,ht⟩ := hp.units k c hk
    exact UnitChange.length_encode_le h64 hc ht
  · obtain ⟨hc,ht⟩ := hp.journal k row hk
    have hseq := (h.ledger.atMost k row hk).trans_lt h.openable.seq
    exact JournalItem.length_encode_le h64 hc ht hseq
  · obtain ⟨hc,ht⟩ := hp.pins id pin hid k c hk
    exact UnitChange.length_encode_le h64 hc ht

lemma Reachable.above_floor {cr : Crates} {texts : Set (List UInt8)} {s : System}
    (h : Reachable cr texts s) {k : UnitKey} {row : JournalRow}
    (hk : s.store.journal.get k = some row) : s.store.head.minRetainedSeq < row.item.seq := by
  refine (Reachable.invariant (I := fun s => Ledger s.store ∧ ∀ k row,
    s.store.journal.get k = some row → s.store.head.minRetainedSeq < row.item.seq) ?_ ?_ h).2.2
      k row hk
  · exact fun libraryId epoch => ⟨.genesis cr libraryId epoch,fun _ _ hk => nomatch hk⟩
  · intro s t o _ ⟨hl,hi⟩ hm
    refine ⟨hm.ledger hl,?_⟩
    cases hm with
    | quiet hq => rwa [hq.head, hq.journal]
    | prepared _ _ _ _ _ _ hf =>
      rw [hf]
      exact hi
    | accepted _ _ _ _ _ _ ha =>
      intro k row hk
      have hfloor : t.store.head.minRetainedSeq = s.store.head.minRetainedSeq := by rw [ha.head]
      rw [hfloor]
      obtain ⟨_,-,-,-,hlt,-⟩ | hk := ha.journal_cases hk
      · exact hl.floor.trans_lt hlt
      · exact hi k row hk
    | @pruned current _ _ _ _ _ hp =>
      intro k row hk
      rw [hp] at hk ⊢
      have hrow := (Table.get_deleteWhere_eq_some.mp hk).2
      rw [Decimal.textLe_repr, decide_eq_false_iff_not] at hrow
      exact Nat.lt_of_not_le hrow
    | rotated _ _ hr =>
      rw [hr]
      exact fun _ _ hk => nomatch hk

/-- Whatever was pushed, paging moves: the texts of units and journal items stay below the room a
page has, no page is refused as too large, and a page of one to 1024 items that starts directly
before a journal item or a unit of a pin starts with it. -/
theorem accepted_versions_move {cr : Crates} (h64 : Base64Url cr) {texts : Set (List UInt8)}
    (typed : TypedPushes texts) {s : System} (h : Reachable cr texts s) :
    (∀ k c, s.store.units.get k = some c →
      512 + c.toControl.encode.length ≤ maxMetadataBytes - 1024) ∧
    (∀ k row, s.store.journal.get k = some row → s.store.head.minRetainedSeq < row.item.seq ∧
      512 + row.item.toControl.encode.length ≤ maxMetadataBytes - 1024) ∧
    ∀ device limit, 1 ≤ limit →
      (∀ after e, s.store.changes cr device after limit = .error e →
        e.code ≠ "metadata-too-large") ∧
      (∀ id after now e, s.store.statePage cr device id after limit now = .error e →
        e.code ≠ "metadata-too-large") ∧
      (limit ≤ 1024 → s.store.requireDevice cr device = .ok () →
        (∀ k row after, s.store.journal.get k = some row →
          s.store.head.minRetainedSeq ≤ after → after < row.item.seq →
          (∀ l other, s.store.journal.get l = some other → after < other.item.seq →
            row.item.seq ≤ other.item.seq) →
          ∃ page, s.store.changes cr device after limit = .ok page ∧
            page.items.head? = some row.item) ∧
        ∀ id pin now k c after, validateId id = .ok () → s.store.statePins.get id = some pin →
          pin.device = device.id → now < pin.expires → pin.units.get k = some c →
          (after.map UnitKey.asStr).getD "" < k.asStr →
          (∀ l d, pin.units.get l = some d → (after.map UnitKey.asStr).getD "" < l.asStr →
            k.asStr ≤ l.asStr) →
          ∃ page, s.store.statePage cr device id after limit now = .ok page ∧
            page.items.head? = some c) := by
  have hs := h.short h64 typed
  refine ⟨fun k c hk => Store.room (hs.units k c hk),
    fun k row hk => ⟨h.above_floor hk,Store.room (hs.journal k row hk)⟩,fun device limit h1 => ?_⟩
  refine ⟨fun after e he => Store.changes_code hs h1 he,
    fun id after now e he => Store.statePage_code hs h1 he,fun h2 hd => ⟨?_,?_⟩⟩
  · intro k row after hk hfloor hafter hfirst
    exact Store.changes_first hs h.ledger h1 h2 hd hk hfloor hafter hfirst
  · intro id pin now k c after hid hpin hown hnow hk hafter hfirst
    exact by
      obtain ⟨page,hpage,hhead⟩ := Store.statePage_answers hs h1 h2 hd hid hpin hown hnow after
      exact ⟨page,hpage,hhead.trans (Store.pinRange_head hk hafter hfirst)⟩

lemma reachable_sampleNamed : Reachable sampleCrates sampleTexts sampleNamed := by
  refine Reachable.run reachable_sampleLibrary fun o ho => ?_
  simp only [List.mem_cons, List.not_mem_nil, or_false] at ho
  rcases ho with rfl | rfl
  · exact texts_samplePushes (by simp)
  · exact Set.empty_subset _

lemma base64Url_sample : Base64Url sampleCrates := fun _ =>
  ⟨Nat.zero_le _,fun _ hc => nomatch hc⟩

instance (s : Stamp) : Decidable s.Typed := inferInstanceAs (Decidable (_ ∧ _))

lemma typed_sample : TypedPushes sampleTexts := by
  intro r hr
  have hsame {call : PushCall} (he : r.toControl.encode = call.request.toControl.encode) :
      r = call.request := PushRequest.toControl_injective (Control.encode_injective he)
  -- a request is an object, so no other text of the sample is one
  have hobject {t : List Char} (he : r.toControl.encode = utf8 t) : t.head? = some '\x7b' := by
    rw [← utf8_injective he]
    rfl
  obtain ⟨digest,hmem⟩ := hr
  simp only [sampleHashes, List.mem_cons, List.not_mem_nil, or_false, Prod.mk.injEq] at hmem
  obtain ⟨he,-⟩ | ⟨he,-⟩ | ⟨he,-⟩ | ⟨he,-⟩ | ⟨he,-⟩ | ⟨he,-⟩ | ⟨he,-⟩ | ⟨he,-⟩ := hmem
  · have := Control.encode_injective he
    simp [PushRequest.toControl, UnitValue.toControl] at this
  · rw [hsame he]
    decide
  · rw [hsame he]
    decide
  · rw [hsame he]
    decide
  · have := Control.encode_injective he
    cases this
  · exact absurd (hobject he) (by decide +kernel)
  · exact absurd (hobject he) (by decide +kernel)
  · exact absurd (hobject he) (by decide +kernel)

/-- The first push of the sample library moves. -/
theorem accepted_versions_move_named : ∃ page,
    sampleNamed.store.changes sampleCrates sampleDevice 0 1024 = .ok page ∧
      page.items.head? = some nameItem := by
  have hk : sampleNamed.store.journal.get sampleName = some ⟨nameItem,0⟩ := by decide
  have hd : sampleNamed.store.requireDevice sampleCrates sampleDevice = .ok () := by
    decide
  have hrow : ∀ r ∈ sampleNamed.store.journal.rows, r = (sampleName,⟨nameItem,0⟩) := by
    decide
  refine ((accepted_versions_move base64Url_sample typed_sample reachable_sampleNamed).2.2
    sampleDevice 1024 (by decide)).2.2 le_rfl hd |>.1 sampleName ⟨nameItem,0⟩ 0 hk ?_ ?_ ?_
  · decide
  · decide
  · intro l other hl _
    cases hrow _ (Table.get_eq_some.mp hl)
    exact le_rfl

/-- More than 1024 items are not answered at once, whatever their size. -/
theorem long_pages_refused : Reachable sampleCrates sampleTexts sampleNamed ∧
    sampleNamed.store.journal.get sampleName = some ⟨nameItem,0⟩ ∧ 0 < nameItem.seq ∧
    sampleNamed.store.changes sampleCrates sampleDevice 0 1025 =
      .error (.new "invalid-limit" 400) := by
  refine ⟨reachable_sampleNamed,?_,?_,?_⟩
  · decide
  · decide
  · decide

end RisuNest.Server
