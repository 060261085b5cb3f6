import RisuNest.Lib.Keyset
import RisuNest.Client.Parents

/-! The units of a device, read in pages over its two databases (`lww_read_unit_state` of
`persistent_store/lww.rs`). -/
namespace RisuNest.Client
open Wire Keyset

/-- The columns of `lww_units` that a page reads. -/
structure UnitRow where
  stamp : Stamp
  value : UnitValue
  version : String
  deriving DecidableEq

/-- The tables of one database that a page reads: units, retired keys, and the characters that are
archived in the active generation. -/
structure UnitTables where
  units : Table UnitKey UnitRow
  retired : Table UnitKey Stamp
  archived : List String

structure OutboxEntry where
  key : UnitKey
  stamp : Stamp
  value : UnitValue
  version : String
  targetAuthority : ℕ
  deriving DecidableEq

structure UnitStatePage where
  entries : List OutboxEntry
  afterKey : Option UnitKey
  hasMore : Bool
  deriving DecidableEq

inductive ParentStatus
  | retired
  | held
  | ready
  deriving DecidableEq

def isDevice (key : UnitKey) : Bool := key.component 0 = "hypa" || key.component 0 = "plugin-local"

/-- What the scan of one database has reached: its cursor, how many units it emitted, and the
entries of the page so far. -/
structure Scan where
  cursor : Option UnitKey
  emitted : ℕ
  entries : List OutboxEntry

namespace UnitTables

/-- The loop of `parent_status` over the parents of a key. -/
def statusUnder (db : UnitTables) (archivedHold : Bool) : Bool → List UnitKey → ParentStatus
  | missing, [] => if missing then .held else .ready
  | missing, parent :: rest =>
    if db.retired.contains parent then .retired
    else
      db.statusUnder archivedHold
        (missing || !db.units.contains parent ||
          (archivedHold && parent.component 1 = "character" &&
            decide (parent.component 2 ∈ db.archived))) rest

def parentStatus (db : UnitTables) (key : UnitKey) : Storage.StoreResult ParentStatus :=
  if db.retired.contains key then .ok .retired
  else do
    let parents ← parentKeys key
    pure (db.statusUnder (key.component 0 ≠ "archive") false parents)

def isDeletedExistence (db : UnitTables) (key : UnitKey) : Bool :=
  key.component 0 = "exists" && (db.units.get key).any fun row => row.value = .deleted

/-- The rows of the query: those behind the cursor, in order, one more than the limit. -/
def queryRows (db : UnitTables) (participating : Bool) (cursor : Option UnitKey) (limit : ℕ) :
    List (UnitKey × UnitRow) :=
  let behind := db.units.rows.filter fun r =>
    decide ((cursor.map UnitKey.asStr).getD "" < r.1.asStr) &&
      (participating || decide (r.1.component 0 ≠ "plugin-local"))
  (behind.insertionSort fun a b => a.1.asStr ≤ b.1.asStr).take (limit+1)

def entry (binding : ℕ) (r : UnitKey × UnitRow) : OutboxEntry :=
  ⟨r.1,r.2.stamp,r.2.value,r.2.version,binding⟩

/-- The loop over the rows of one query. -/
def emitRows (db : UnitTables) (binding limit : ℕ) :
    List (UnitKey × UnitRow) → Scan → Storage.StoreResult Scan
  | [], scan => .ok scan
  | r :: rest, scan => do
    let status ← db.parentStatus r.1
    if status = .retired ∧ db.isDeletedExistence r.1 = false then
      db.emitRows binding limit rest { scan with cursor := some r.1 }
    else
      let next : Scan := ⟨some r.1,scan.emitted+1,scan.entries ++ [entry binding r]⟩
      if limit < next.emitted then pure next else db.emitRows binding limit rest next

/-- The loop over the queries of one database, for as many rounds as it has rows and one more. -/
def scanRounds (db : UnitTables) (participating : Bool) (binding limit : ℕ) :
    ℕ → Scan → Storage.StoreResult Scan
  | 0, scan => .ok scan
  | rounds+1, scan =>
    if limit < scan.emitted then .ok scan
    else do
      let rows := db.queryRows participating scan.cursor limit
      let next ← db.emitRows binding limit rows scan
      if rows.length < limit+1 ∨ limit < next.emitted then pure next
      else db.scanRounds participating binding limit rounds next

/-- The part of `lww_read_unit_state` in one database. -/
def scan (db : UnitTables) (participating : Bool) (binding limit : ℕ) (after : Option UnitKey)
    (entries : List OutboxEntry) : Storage.StoreResult (List OutboxEntry) := do
  let done ← db.scanRounds participating binding limit (db.units.rows.length+1) ⟨after,0,entries⟩
  pure done.entries

end UnitTables

/-- The two databases of a device. Units are kept in the one their kind belongs to, and the keys
of their parents are keys. -/
structure UnitState where
  library : UnitTables
  device : UnitTables
  authority : ℕ
  participating : Bool
  routed : (∀ k row, library.units.get k = some row → isDevice k = false) ∧
    ∀ k row, device.units.get k = some row → isDevice k = true
  parents : ∀ k row, library.units.get k = some row → (parentKeys k).isOk = true

namespace UnitState

/-- `lww_read_unit_state` -/
def readUnitState (s : UnitState) (binding : ℕ) (after : Option UnitKey) (limit : ℕ) :
    Storage.StoreResult UnitStatePage := do
  require (s.authority = binding) (.validation "binding-authority-changed")
  require (limit ≠ 0 ∧ limit ≤ 4096) (.validation "invalid-unit-state-page-limit")
  let library ← s.library.scan s.participating binding limit after []
  let both ← s.device.scan s.participating binding limit after library
  let entries := both.insertionSort fun a b => a.key.asStr ≤ b.key.asStr
  let page := entries.take limit
  pure ⟨page,page.getLast?.map OutboxEntry.key,decide (limit < entries.length)⟩

end UnitState

/-! ### One database -/

namespace UnitTables
variable {db : UnitTables} {binding limit : ℕ} {participating : Bool}

lemma statusUnder_eq_retired {hold missing : Bool} {ps : List UnitKey} :
    db.statusUnder hold missing ps = .retired ↔ ∃ p ∈ ps, db.retired.contains p = true := by
  induction ps generalizing missing with
  | nil =>
    constructor
    · intro h
      cases missing <;> cases h
    · rintro ⟨p,hp,-⟩
      exact absurd hp List.not_mem_nil
  | cons p ps ih =>
    rw [statusUnder, List.exists_mem_cons_iff]
    split_ifs with h
    · exact iff_of_true rfl (.inl h)
    · rw [ih, or_iff_right h]

lemma parentStatus_eq_retired {k : UnitKey} {ps : List UnitKey} (hps : parentKeys k = .ok ps) :
    db.parentStatus k = .ok .retired ↔
      db.retired.contains k = true ∨ ∃ p ∈ ps, db.retired.contains p = true := by
  unfold parentStatus
  split_ifs with h
  · exact iff_of_true rfl (.inl h)
  · rw [hps, or_iff_right h]
    change Except.ok (db.statusUnder _ false ps) = Except.ok _ ↔ _
    rw [Except.ok.injEq, statusUnder_eq_retired]

/-- Whether a page shows a row. -/
def shows (db : UnitTables) (r : UnitKey × UnitRow) : Bool :=
  decide (db.parentStatus r.1 = .ok .retired → db.isDeletedExistence r.1 = true)

/-- The rows that the queries go through, in order. -/
def sortedRows (db : UnitTables) (participating : Bool) : List (UnitKey × UnitRow) :=
  (db.units.rows.filter fun r => participating || decide (r.1.component 0 ≠ "plugin-local")).insertionSort
    fun a b => a.1.asStr ≤ b.1.asStr

lemma ascending_sortedRows : Ascending UnitKey.asStr Prod.fst (db.sortedRows participating) :=
  ascending_insertionSort UnitKey.asStr_injective (db.units.nodup.sublist (List.filter_sublist.map _))

lemma queryRows_eq (cursor : Option UnitKey) : db.queryRows participating cursor limit =
    (behind UnitKey.asStr Prod.fst cursor (db.sortedRows participating)).take (limit+1) := by
  unfold queryRows
  dsimp only
  congr 1
  refine Ascending.eq_of_mem_iff
    (ascending_insertionSort UnitKey.asStr_injective
      (db.units.nodup.sublist (List.filter_sublist.map _)))
    (ascending_sortedRows.behind cursor) fun r => ?_
  simp only [sortedRows, mem_behind, List.mem_insertionSort, List.mem_filter, Bool.and_eq_true,
    decide_eq_true_eq, UnitKey.after_lt_iff]
  tauto

/-- The rows that were gone through, and what a scan has then. -/
structure Gone (db : UnitTables) (binding limit : ℕ) (gone : List (UnitKey × UnitRow))
    (scan next : Scan) : Prop where
  entries : next.entries = scan.entries ++ (gone.filter db.shows).map (entry binding)
  emitted : next.emitted = scan.emitted + (gone.filter db.shows).length
  most : next.emitted ≤ limit+1
  cursor : next.cursor = (gone.getLast?.map Prod.fst).or scan.cursor

lemma emitRows_eq_ok {rows : List (UnitKey × UnitRow)} {scan next : Scan}
    (h : db.emitRows binding limit rows scan = .ok next) (hs : scan.emitted ≤ limit) :
    ∃ gone, gone <+: rows ∧ Gone db binding limit gone scan next ∧
      (gone = rows ∨ limit < next.emitted) := by
  induction rows generalizing scan with
  | nil =>
    cases h
    exact ⟨[],List.prefix_rfl,⟨by simp,rfl,Nat.le_succ_of_le hs,rfl⟩,.inl rfl⟩
  | cons r rest ih =>
    rw [emitRows] at h
    obtain ⟨status,hstatus,h⟩ := bind_eq_ok.mp h
    by_cases hhidden : status = .retired ∧ db.isDeletedExistence r.1 = false
    · rw [if_pos hhidden] at h
      have hshows : db.shows r = false := by
        rw [shows, decide_eq_false_iff_not, hstatus, hhidden.1, hhidden.2]
        simp
      obtain ⟨gone,hfirst,hg,hend⟩ := ih h hs
      refine ⟨r :: gone,(List.prefix_cons_inj r).mpr hfirst,⟨?_,?_,hg.most,?_⟩,?_⟩
      · rw [List.filter_cons_of_neg (by simp [hshows]), hg.entries]
      · rw [List.filter_cons_of_neg (by simp [hshows]), hg.emitted]
      · rw [hg.cursor, List.getLast?_cons]
        cases gone.getLast? <;> rfl
      · exact hend.imp_left (congrArg (r :: ·))
    · rw [if_neg hhidden] at h
      have hshows : db.shows r = true := by
        rw [shows, decide_eq_true_eq, hstatus]
        intro he
        by_contra hc
        exact hhidden ⟨Except.ok.inj he,by simpa using hc⟩
      dsimp only at h
      split_ifs at h with hfull
      · cases h
        refine ⟨[r],(List.prefix_cons_inj r).mpr List.nil_prefix,⟨?_,?_,?_,rfl⟩,.inr hfull⟩
        · rw [List.filter_cons_of_pos hshows]
          rfl
        · rw [List.filter_cons_of_pos hshows]
          rfl
        · exact Nat.succ_le_succ hs
      · obtain ⟨gone,hfirst,hg,hend⟩ := ih h (Nat.le_of_not_lt hfull)
        refine ⟨r :: gone,(List.prefix_cons_inj r).mpr hfirst,⟨?_,?_,hg.most,?_⟩,?_⟩
        · rw [List.filter_cons_of_pos hshows, hg.entries, List.map_cons, List.append_assoc,
            List.singleton_append]
        · rw [List.filter_cons_of_pos hshows, hg.emitted, List.length_cons]
          exact Nat.add_right_comm _ _ _
        · rw [hg.cursor, List.getLast?_cons]
          cases gone.getLast? <;> rfl
        · exact hend.imp_left (congrArg (r :: ·))

lemma Gone.append {gone more : List (UnitKey × UnitRow)} {scan next last : Scan}
    (h : Gone db binding limit gone scan next) (h' : Gone db binding limit more next last) :
    Gone db binding limit (gone ++ more) scan last := by
  refine ⟨?_,?_,h'.most,?_⟩
  · rw [h'.entries, h.entries, List.filter_append, List.map_append, List.append_assoc]
  · rw [h'.emitted, h.emitted, List.filter_append, List.length_append, Nat.add_assoc]
  · rw [h'.cursor, h.cursor, List.getLast?_append]
    cases more.getLast? <;> rfl

lemma scanRounds_eq_ok {rounds : ℕ} {scan done : Scan}
    (h : db.scanRounds participating binding limit rounds scan = .ok done)
    (hrounds : (behind UnitKey.asStr Prod.fst scan.cursor (db.sortedRows participating)).length <
      rounds) (hs : scan.emitted ≤ limit) :
    ∃ gone, gone <+: behind UnitKey.asStr Prod.fst scan.cursor (db.sortedRows participating) ∧
      Gone db binding limit gone scan done ∧
      (gone = behind UnitKey.asStr Prod.fst scan.cursor (db.sortedRows participating) ∨
        limit < done.emitted) := by
  induction rounds generalizing scan with
  | zero => exact absurd hrounds (Nat.not_lt_zero _)
  | succ rounds ih =>
    rw [scanRounds, if_neg (Nat.not_lt.mpr hs), queryRows_eq] at h
    have hdrop : ∀ r, ((behind UnitKey.asStr Prod.fst scan.cursor
        (db.sortedRows participating)).take (limit+1)).getLast? = some r → _ :=
      fun r => behind_take ascending_sortedRows
    generalize behind UnitKey.asStr Prod.fst scan.cursor (db.sortedRows participating) = l
      at h hrounds hdrop ⊢
    obtain ⟨next,hnext,h⟩ := bind_eq_ok.mp h
    obtain ⟨gone,hfirst,hgone,hend⟩ := emitRows_eq_ok hnext hs
    split_ifs at h with hlast
    · cases h
      refine ⟨gone,hfirst.trans (List.take_prefix _ _),hgone,?_⟩
      obtain rfl | hfull := hend
      · refine hlast.imp_left fun hshort => List.take_of_length_le ?_
        rw [List.length_take] at hshort
        omega
      · exact .inr hfull
    · obtain ⟨hlong,hroom⟩ := not_or.mp hlast
      obtain rfl := hend.resolve_right hroom
      -- the next query goes on behind the last row of this one
      obtain ⟨r,hr⟩ : ∃ r, (l.take (limit+1)).getLast? = some r := by
        refine Option.isSome_iff_exists.mp (List.getLast?_isSome.mpr fun he => hlong ?_)
        simp [he]
      have hbehind : behind UnitKey.asStr Prod.fst next.cursor (db.sortedRows participating) =
          l.drop (limit+1) := by
        rw [hgone.cursor, hr, ← hdrop r hr]
        rfl
      have hless : (l.drop (limit+1)).length < rounds := by
        rw [List.length_drop]
        rw [List.length_take] at hlong
        omega
      rw [← hbehind] at hless
      obtain ⟨more,hmore,hg,hend⟩ := ih h hless (Nat.le_of_not_lt hroom)
      rw [hbehind] at hmore hend
      refine ⟨l.take (limit+1) ++ more,?_,hgone.append hg,hend.imp_left ?_⟩
      · have hp := (List.prefix_append_right_inj (l.take (limit+1))).mpr hmore
        rwa [List.take_append_drop] at hp
      · rintro rfl
        exact List.take_append_drop _ _

/-- The units that a page shows, in order. -/
def shownEntries (db : UnitTables) (participating : Bool) (binding : ℕ) : List OutboxEntry :=
  ((db.sortedRows participating).filter db.shows).map (entry binding)

lemma ascending_shownEntries :
    Ascending UnitKey.asStr OutboxEntry.key (db.shownEntries participating binding) :=
  List.pairwise_map.mpr (ascending_sortedRows.filter _)

lemma behind_shownEntries (after : Option UnitKey) :
    behind UnitKey.asStr OutboxEntry.key after (db.shownEntries participating binding) =
      ((behind UnitKey.asStr Prod.fst after (db.sortedRows participating)).filter db.shows).map
        (entry binding) := by
  unfold shownEntries behind
  rw [List.filter_map, List.filter_filter, List.filter_filter]
  congr 1
  exact List.filter_congr fun r _ => Bool.and_comm _ _

lemma scan_eq_ok {after : Option UnitKey} {es es' : List OutboxEntry}
    (h : db.scan participating binding limit after es = .ok es') :
    es' = es ++ (behind UnitKey.asStr OutboxEntry.key after
      (db.shownEntries participating binding)).take (limit+1) := by
  obtain ⟨done,hdone,h⟩ := bind_eq_ok.mp h
  cases h
  have hrounds : (behind UnitKey.asStr Prod.fst after (db.sortedRows participating)).length <
      db.units.rows.length+1 := by
    refine Nat.lt_succ_of_le ((List.filter_sublist.length_le).trans ?_)
    rw [sortedRows, List.length_insertionSort]
    exact List.length_filter_le _ _
  obtain ⟨gone,hfirst,hgone,hend⟩ := scanRounds_eq_ok hdone hrounds (Nat.zero_le _)
  rw [hgone.entries, behind_shownEntries, ← List.map_take]
  congr 2
  have hmost := hgone.most
  rw [hgone.emitted, Nat.zero_add] at hmost hend
  obtain rfl | hfull := hend
  · exact (List.take_of_length_le hmost).symm
  · have hlen : (gone.filter db.shows).length = limit+1 := Nat.le_antisymm hmost hfull
    rw [← hlen]
    exact List.prefix_iff_eq_take.mp (hfirst.filter _)

section Answers
variable (db binding limit participating)

lemma parentStatus_answers {k : UnitKey} (hk : (parentKeys k).isOk = true) :
    ∃ status, db.parentStatus k = .ok status := by
  obtain ⟨ps,hps⟩ := exists_eq_ok hk
  unfold parentStatus
  rw [hps]
  split_ifs
  · exact ⟨_,rfl⟩
  · exact ⟨_,rfl⟩

lemma emitRows_answers {rows : List (UnitKey × UnitRow)}
    (hp : ∀ r ∈ rows, (parentKeys r.1).isOk = true) (scan : Scan) :
    ∃ next, db.emitRows binding limit rows scan = .ok next := by
  induction rows generalizing scan with
  | nil => exact ⟨scan,rfl⟩
  | cons r rest ih =>
    obtain ⟨hr,hrest⟩ := List.forall_mem_cons.mp hp
    obtain ⟨status,hstatus⟩ := parentStatus_answers db hr
    rw [emitRows, hstatus]
    change ∃ next, @ite (Storage.StoreResult Scan) _ _ _ _ = .ok next
    split_ifs
    · exact ih hrest _
    · exact ⟨_,rfl⟩
    · exact ih hrest _

lemma scanRounds_answers (hp : ∀ r ∈ db.units.rows, (parentKeys r.1).isOk = true) (rounds : ℕ)
    (scan : Scan) :
    ∃ done, db.scanRounds participating binding limit rounds scan = .ok done := by
  induction rounds generalizing scan with
  | zero => exact ⟨scan,rfl⟩
  | succ rounds ih =>
    rw [scanRounds]
    split_ifs
    · exact ⟨scan,rfl⟩
    · have hrows : ∀ r ∈ db.queryRows participating scan.cursor limit,
          (parentKeys r.1).isOk = true := fun r hr =>
        hp r (List.mem_of_mem_filter ((List.mem_insertionSort _).mp (List.mem_of_mem_take hr)))
      obtain ⟨next,hnext⟩ := emitRows_answers db binding limit hrows scan
      dsimp only
      rw [hnext]
      change ∃ done, @ite (Storage.StoreResult Scan) _ _ _ _ = .ok done
      split_ifs
      · exact ⟨next,rfl⟩
      · exact ih next

lemma scan_answers (hp : ∀ r ∈ db.units.rows, (parentKeys r.1).isOk = true)
    (after : Option UnitKey) (es : List OutboxEntry) :
    ∃ es', db.scan participating binding limit after es = .ok es' := by
  obtain ⟨done,hdone⟩ := scanRounds_answers db binding limit participating hp
    (db.units.rows.length+1) ⟨after,0,es⟩
  unfold scan
  rw [hdone]
  exact ⟨_,rfl⟩

end Answers

/-- What a database has to publish under a key: the unit is not hidden by a retirement, or it is
one. -/
def Publishes (db : UnitTables) (participating : Bool) (k : UnitKey) : Prop :=
  (participating = true ∨ k.component 0 ≠ "plugin-local") ∧
    ((db.retired.get k = none ∧
        ∀ ps, parentKeys k = .ok ps → ∀ p ∈ ps, db.retired.get p = none) ∨
      (k.component 0 = "exists" ∧ (db.units.get k).map UnitRow.value = some .deleted))

end UnitTables

namespace UnitState

/-- A unit of one of the databases that is published. -/
def Publishes (s : UnitState) (binding : ℕ) (e : OutboxEntry) : Prop :=
  ∃ db ∈ [s.library,s.device], db.Publishes s.participating e.key ∧
    ∃ row, db.units.get e.key = some row ∧ e = UnitTables.entry binding (e.key,row)

/-- Following the pages, each with a limit of its own, as long as there is more. -/
inductive Reading (s : UnitState) : Walk OutboxEntry UnitKey → Walk OutboxEntry UnitKey → Prop
  | page {w : Walk OutboxEntry UnitKey} {limit : ℕ} {page : UnitStatePage}
      (going : w.finished = false)
      (answered : s.readUnitState s.authority w.after limit = .ok page) :
      Reading s w (w.turn page.entries (if page.hasMore then page.afterKey else none))

end UnitState

/-! ### Both databases -/

namespace UnitTables
variable {db : UnitTables} {binding : ℕ} {participating : Bool}

lemma contains_eq_false {retired : Table UnitKey Stamp} {k : UnitKey} :
    ¬retired.contains k = true ↔ retired.get k = none := by
  rw [Table.contains_iff]
  cases retired.get k <;> simp

lemma isDeletedExistence_iff {k : UnitKey} : db.isDeletedExistence k = true ↔
    k.component 0 = "exists" ∧ (db.units.get k).map UnitRow.value = some .deleted := by
  unfold isDeletedExistence
  cases db.units.get k <;> simp

lemma shows_iff {r : UnitKey × UnitRow} (hk : (parentKeys r.1).isOk = true) : db.shows r = true ↔
    (db.retired.get r.1 = none ∧
        ∀ ps, parentKeys r.1 = .ok ps → ∀ p ∈ ps, db.retired.get p = none) ∨
      (r.1.component 0 = "exists" ∧ (db.units.get r.1).map UnitRow.value = some .deleted) := by
  obtain ⟨ps,hps⟩ := exists_eq_ok hk
  rw [shows, decide_eq_true_eq, parentStatus_eq_retired hps, isDeletedExistence_iff,
    Decidable.imp_iff_not_or, not_or, contains_eq_false, hps]
  refine or_congr_left (and_congr_right fun _ => ⟨?_,?_⟩)
  · intro h qs hqs p hp
    rw [← Except.ok.inj hqs] at hp
    exact contains_eq_false.mp fun hc => h ⟨p,hp,hc⟩
  · rintro h ⟨p,hp,hc⟩
    exact contains_eq_false.mpr (h ps rfl p hp) hc

lemma mem_shownEntries (hp : ∀ r ∈ db.units.rows, (parentKeys r.1).isOk = true)
    {e : OutboxEntry} : e ∈ db.shownEntries participating binding ↔
      db.Publishes participating e.key ∧
        ∃ row, db.units.get e.key = some row ∧ e = entry binding (e.key,row) := by
  simp only [shownEntries, sortedRows, List.mem_map, List.mem_filter, List.mem_insertionSort,
    Bool.or_eq_true, decide_eq_true_eq]
  constructor
  · rintro ⟨r,⟨⟨hr,hpart⟩,hshows⟩,rfl⟩
    exact ⟨⟨hpart,(shows_iff (hp r hr)).mp hshows⟩,r.2,Table.get_eq_some.mpr hr,rfl⟩
  · rintro ⟨⟨hpart,hshows⟩,row,hrow,he⟩
    have hr := Table.get_eq_some.mp hrow
    exact ⟨(e.key,row),⟨⟨hr,hpart⟩,(shows_iff (hp _ hr)).mpr hshows⟩,he.symm⟩

end UnitTables

namespace UnitState
variable {s : UnitState} {binding limit : ℕ} {after : Option UnitKey}

/-- The units that are published, in the order of their keys. -/
def shownEntries (s : UnitState) (binding : ℕ) : List OutboxEntry :=
  (s.library.shownEntries s.participating binding ++
    s.device.shownEntries s.participating binding).insertionSort
      fun a b => a.key.asStr ≤ b.key.asStr

lemma library_parents (s : UnitState) :
    ∀ r ∈ s.library.units.rows, (parentKeys r.1).isOk = true := fun r hr =>
  s.parents r.1 r.2 (Table.get_eq_some.mpr hr)

lemma parentKeys_of_isDevice {k : UnitKey} (h : isDevice k = true) : parentKeys k = .ok [] := by
  have hk : k.component 0 = "hypa" ∨ k.component 0 = "plugin-local" := by simpa [isDevice] using h
  have hc : parentComponents k.components = [] := by
    unfold parentComponents
    change component k.components 0 = _ ∨ component k.components 0 = _ at hk
    obtain hk | hk := hk <;> simp [hk]
  unfold parentKeys
  rw [hc]
  rfl

lemma device_parents (s : UnitState) :
    ∀ r ∈ s.device.units.rows, (parentKeys r.1).isOk = true := by
  intro r hr
  rw [parentKeys_of_isDevice (s.routed.2 r.1 r.2 (Table.get_eq_some.mpr hr))]
  rfl

lemma mem_shownEntries {e : OutboxEntry} : e ∈ s.shownEntries binding ↔ s.Publishes binding e := by
  rw [shownEntries, List.mem_insertionSort, List.mem_append,
    UnitTables.mem_shownEntries s.library_parents, UnitTables.mem_shownEntries s.device_parents]
  simp [Publishes]

lemma nodup_keys (s : UnitState) (binding : ℕ) :
    ((s.library.shownEntries s.participating binding ++
      s.device.shownEntries s.participating binding).map OutboxEntry.key).Nodup := by
  have hn {db : UnitTables} :
      ((db.shownEntries s.participating binding).map OutboxEntry.key).Nodup :=
    List.pairwise_map.mpr (UnitTables.ascending_shownEntries.imp fun h he =>
      absurd (congrArg UnitKey.asStr he) h.ne)
  rw [List.map_append, List.nodup_append']
  refine ⟨hn,hn,fun k hk hk' => ?_⟩
  obtain ⟨e,he,rfl⟩ := List.mem_map.mp hk
  obtain ⟨e',he',hkey⟩ := List.mem_map.mp hk'
  obtain ⟨-,row,hrow,-⟩ := (UnitTables.mem_shownEntries s.library_parents).mp he
  obtain ⟨-,row',hrow',-⟩ := (UnitTables.mem_shownEntries s.device_parents).mp he'
  have hl := s.routed.1 _ row hrow
  rw [← hkey, s.routed.2 _ row' hrow'] at hl
  cases hl

lemma ascending_shownEntries :
    Ascending UnitKey.asStr OutboxEntry.key (s.shownEntries binding) :=
  ascending_insertionSort UnitKey.asStr_injective (s.nodup_keys binding)

lemma readUnitState_eq_ok {page : UnitStatePage}
    (h : s.readUnitState binding after limit = .ok page) :
    PageBehind UnitKey.asStr OutboxEntry.key (s.shownEntries binding) after page.entries
      (if page.hasMore then page.afterKey else none) ∧
    (page.entries ≠ [] ∨ page.hasMore = false) := by
  unfold readUnitState at h
  obtain ⟨_,-,h⟩ := bind_eq_ok.mp h
  obtain ⟨_,hlimit,h⟩ := bind_eq_ok.mp h
  obtain ⟨library,hlibrary,h⟩ := bind_eq_ok.mp h
  obtain ⟨both,hboth,h⟩ := bind_eq_ok.mp h
  have h1 := Nat.one_le_iff_ne_zero.mpr (require_eq_ok.mp hlimit).1
  have hs := UnitTables.scan_eq_ok hboth
  rw [UnitTables.scan_eq_ok hlibrary, List.nil_append] at hs
  have hp := pageBehind_merged UnitKey.asStr_injective UnitTables.ascending_shownEntries
    UnitTables.ascending_shownEntries (s.nodup_keys binding) after h1
    (congrArg (List.insertionSort fun a b : OutboxEntry => a.key.asStr ≤ b.key.asStr) hs)
  generalize both.insertionSort (fun a b => a.key.asStr ≤ b.key.asStr) = sorted at h hp
  cases h
  refine ⟨by simpa only [shownEntries, decide_eq_true_eq] using hp,?_⟩
  by_cases hmore : limit < sorted.length
  · left
    intro he
    have hlen := congrArg List.length he
    rw [List.length_take, List.length_nil] at hlen
    omega
  · exact .inr (decide_eq_false hmore)

lemma readUnitState_answers (s : UnitState) (after : Option UnitKey) (h1 : 1 ≤ limit)
    (hmost : limit ≤ 4096) : ∃ page, s.readUnitState s.authority after limit = .ok page := by
  obtain ⟨library,hlibrary⟩ := s.library.scan_answers s.authority limit s.participating
    s.library_parents after []
  obtain ⟨both,hboth⟩ := s.device.scan_answers s.authority limit s.participating
    s.device_parents after library
  unfold readUnitState
  rw [require_eq_ok.mpr rfl, require_eq_ok.mpr ⟨Nat.one_le_iff_ne_zero.mp h1,hmost⟩, hlibrary]
  change ∃ page, (s.device.scan s.participating s.authority limit after library >>= _) = _
  rw [hboth]
  exact ⟨_,rfl⟩

/-- The pages cover both databases: keys come in order, nothing else is read, and what is published
was read or is still ahead. Every page goes on or is the last. -/
theorem state_pages_cover_both (s : UnitState) {w : Walk OutboxEntry UnitKey}
    (path : Relation.ReflTransGen s.Reading .start w) :
    (w.items.Pairwise fun a b => a.key.asStr < b.key.asStr) ∧
    (∀ e ∈ w.items, s.Publishes s.authority e) ∧
    (∀ e, s.Publishes s.authority e → e ∈ w.items ∨
      w.finished = false ∧ ∀ d ∈ w.items, d.key.asStr < e.key.asStr) ∧
    ∀ limit, 1 ≤ limit → limit ≤ 4096 → ∃ page,
      s.readUnitState s.authority w.after limit = .ok page ∧
        (page.entries ≠ [] ∨ page.hasMore = false) := by
  have hasc : Ascending UnitKey.asStr OutboxEntry.key (s.shownEntries s.authority) :=
    ascending_shownEntries
  have hcovers : w.Covers UnitKey.asStr OutboxEntry.key (s.shownEntries s.authority) := by
    induction path with
    | refl => exact Walk.Covers.start _
    | tail _ step ih =>
      cases step with
      | page going answered => exact ih.turn hasc going (readUnitState_eq_ok answered).1
  refine ⟨hcovers.ascending hasc,?_,?_,?_⟩
  · exact fun e he => mem_shownEntries.mp (hcovers.first.subset he)
  · exact fun e he => hcovers.remaining hasc (mem_shownEntries.mpr he)
  · intro limit h1 hmost
    obtain ⟨page,hpage⟩ := s.readUnitState_answers w.after h1 hmost
    exact ⟨page,hpage,(readUnitState_eq_ok hpage).2⟩

lemma forall_units {t : Table UnitKey UnitRow} {p : UnitKey → Bool}
    (h : (t.rows.all fun r => p r.1) = true) : ∀ k row, t.get k = some row → p k = true :=
  fun k row hk => List.all_eq_true.mp h (k,row) (Table.get_eq_some.mp hk)

def sampleHypa : UnitKey := ⟨["hypa","h"],by decide⟩
def sampleRoot : UnitKey := ⟨["root","r"],by decide⟩
def sampleStamp : Stamp := ⟨5,0,"w"⟩

def sampleRow (text : String) : UnitRow := ⟨sampleStamp,.inline text,"v"⟩

/-- A character was deleted and its name is left. -/
def sampleLibrary : UnitTables :=
  ⟨⟨[(sampleRoot,sampleRow "1"),(sampleName,sampleRow "2"),
      (sampleCharacter,⟨sampleStamp,.deleted,"v"⟩)],by decide⟩,
    Table.empty.upsert sampleCharacter sampleStamp,[]⟩

def sampleDevice : UnitTables := ⟨Table.empty.upsert sampleHypa (sampleRow "3"),.empty,[]⟩

def sampleUnits : UnitState where
  library := sampleLibrary
  device := sampleDevice
  authority := 3
  participating := true
  routed :=
    ⟨fun k row h => by
      have := forall_units (t := sampleLibrary.units) (p := fun k => !isDevice k) (by decide) k row h
      simpa using this,
    forall_units (p := isDevice) (by decide)⟩
  parents := forall_units (p := fun k => (parentKeys k).isOk) (by decide)

def samplePages : Walk OutboxEntry UnitKey :=
  ⟨[⟨sampleCharacter,sampleStamp,.deleted,"v",3⟩,⟨sampleHypa,sampleStamp,.inline "3","v",3⟩,
    ⟨sampleRoot,sampleStamp,.inline "1","v",3⟩],none,true⟩

theorem state_pages_cover_both_deleted :
    (samplePages.items.Pairwise fun a b => a.key.asStr < b.key.asStr) ∧
    ∀ e, sampleUnits.Publishes 3 e → e ∈ samplePages.items := by
  let first : Walk OutboxEntry UnitKey := ⟨samplePages.items.take 2,some sampleHypa,false⟩
  have h1 : sampleUnits.readUnitState sampleUnits.authority none 2 =
      .ok ⟨samplePages.items.take 2,some sampleHypa,true⟩ := by decide
  have h2 : sampleUnits.readUnitState sampleUnits.authority (some sampleHypa) 4096 =
      .ok ⟨samplePages.items.drop 2,some sampleRoot,false⟩ := by decide
  have step1 : sampleUnits.Reading .start first := .page (w := .start) rfl h1
  have step2 : sampleUnits.Reading first samplePages := .page (w := first) rfl h2
  have path : Relation.ReflTransGen sampleUnits.Reading .start samplePages :=
    (Relation.ReflTransGen.single step1).tail step2
  obtain ⟨hasc, -, hcovers, -⟩ := state_pages_cover_both sampleUnits path
  refine ⟨hasc,fun e he => (hcovers e he).resolve_right ?_⟩
  rintro ⟨hf,-⟩
  cases hf

def samplePlugin : UnitKey := ⟨["plugin-local","p","data","save"],by decide⟩

/-- A device that does not take part in the data of plugins has some. -/
def resting : UnitState where
  library := ⟨.empty,.empty,[]⟩
  device := ⟨Table.empty.upsert samplePlugin (sampleRow "1"),.empty,[]⟩
  authority := 3
  participating := false
  routed := ⟨fun _ _ => nofun,forall_units (p := isDevice) (by decide)⟩
  parents := fun _ _ => nofun

/-- Data of plugins is left out while the device does not take part, and a large limit is
refused. -/
theorem resting_state_page :
    (resting.device.units.get samplePlugin = some (sampleRow "1") ∧
      resting.device.retired.get samplePlugin = none ∧ parentKeys samplePlugin = .ok []) ∧
    resting.readUnitState 3 none 4096 = .ok ⟨[],none,false⟩ ∧
    resting.readUnitState 3 none 4097 = .error (.validation "invalid-unit-state-page-limit") := by
  decide

end UnitState
end RisuNest.Client
