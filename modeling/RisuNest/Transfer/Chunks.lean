import RisuNest.Transfer.Requests

/-! Acknowledged chunks: a chunk row has its file as long as no chunk is stored under a name that
is still in the trash. -/
namespace RisuNest.Transfer
open Wire Server

namespace Db

/-! ### The trash -/

lemma get_discard {κ : Type} [DecidableEq κ] (t : Table κ ℕ) (k k' : κ) :
    (discard t k).get k' = none ↔ t.get k' = none ∧ k' ≠ k := by
  unfold discard
  rw [Table.get_insertOrIgnore]
  split_ifs with h
  · simp [h]
  · simp [h]

lemma get_foldl_discard {κ : Type} [DecidableEq κ] (l : List κ) (t : Table κ ℕ) (k : κ) :
    (l.foldl discard t).get k = none ↔ t.get k = none ∧ k ∉ l := by
  induction l generalizing t with
  | nil => simp
  | cons x l ih =>
    rw [List.foldl_cons, ih, get_discard, List.mem_cons, not_or, and_assoc]

lemma get_discardChunks {db : Db} {p : String × ℕ → Bool} {k : String × ℕ} :
    (db.discardChunks p).get k = none ↔
      db.stagingTrash.get k = none ∧ (∀ c, db.uploadChunks.get k = some c → p k = false) := by
  unfold discardChunks
  rw [get_foldl_discard, List.mem_filter]
  refine and_congr_right fun _ => ?_
  constructor
  · intro h c hc
    by_contra hp
    exact h ⟨List.mem_map_of_mem (f := Prod.fst) (Table.get_eq_some.mp hc),Bool.not_eq_false _ ▸ hp⟩
  · rintro h ⟨hk, hp⟩
    obtain ⟨⟨k', c⟩, hmem, rfl⟩ := List.mem_map.mp hk
    rw [h c (Table.get_eq_some.mpr hmem)] at hp
    cases hp

lemma get_maintained_chunks {db : Db} {current clock : ℤ} {held alive : List String}
    {k : String × ℕ} {c : Chunk} :
    (db.maintained current clock held alive).uploadChunks.get k = some c ↔
      db.uploadChunks.get k = some c ∧
      (db.maintained current clock held alive).stagingTrash.get k = none ∧
      (db.uploads.get k.1).any (fun u => db.dropped current u) = false := by
  change ((db.uploadChunks.deleteWhere fun k _ => Table.contains _ k).deleteWhere fun k _ =>
    (db.uploads.get k.1).any fun u => db.dropped current u).get k = some c ↔ _
  rw [Table.get_deleteWhere_eq_some, Table.get_deleteWhere_eq_some, and_assoc,
    Table.contains_eq_false]
  rfl

/-- The rows of uploads that are not complete are still there. -/
def RowsKept (db db' : Db) : Prop :=
  ∀ k c, db.uploadChunks.get k = some c → ∀ u, db'.uploads.get k.1 = some u →
    u.state ≠ .complete → db'.uploadChunks.get k = some c

lemma RowsKept.unfinished {db db' : Db} (h : RowsKept db db') {k : String × ℕ} {c : Chunk}
    (hc : db.uploadChunks.get k = some c)
    (hlive : (db'.uploads.get k.1).any unfinished = true) : db'.uploadChunks.get k = some c := by
  obtain ⟨u, hu, hunfinished⟩ := (Option.any_eq_true _ _).mp hlive
  refine h k c hc u hu fun hcomplete => ?_
  unfold Db.unfinished at hunfinished
  rw [hcomplete] at hunfinished
  cases hunfinished

lemma RowsKept.of_same {db db' : Db} (h : db'.uploadChunks = db.uploadChunks) : RowsKept db db' :=
  fun _ _ hc _ _ _ => h ▸ hc

lemma RowsKept.next {db db' db'' : Db} (h : RowsKept db db') (hu : db''.uploads = db'.uploads)
    (hc : db''.uploadChunks = db'.uploadChunks) : RowsKept db db'' := by
  intro k c hk u hget hlive
  rw [hc]
  rw [hu] at hget
  exact h k c hk u hget hlive

lemma rowsKept_maintained {db : Db} (h : ∀ k c, db.uploadChunks.get k = some c →
    db.stagingTrash.get k = none) (current clock : ℤ) (held alive : List String) :
    RowsKept db (db.maintained current clock held alive) := by
  intro k c hk u hu hstate
  obtain ⟨hget, hdropped⟩ := Table.get_deleteWhere_eq_some.mp hu
  change db.uploads.get k.1 = some u at hget
  change db.dropped current u = false at hdropped
  rw [get_maintained_chunks, hget]
  refine ⟨hk,?_,hdropped⟩
  change (db.discardChunks _).get k = none
  refine get_discardChunks.mpr ⟨h k c hk,fun _ _ => ?_⟩
  rw [hget, Option.any_some]
  -- such an upload is discarded only when it is dropped
  rw [decide_eq_false hstate, Bool.false_or]
  exact hdropped

lemma rowsKept_cancelled (db : Db) (p : String → Upload → Bool)
    (trash : Table (String × ℕ) ℕ) :
    RowsKept db (deleteUploads { db with stagingTrash := trash } p) := by
  intro k c hk u hu _
  obtain ⟨hget, hkept⟩ := Table.get_deleteWhere_eq_some.mp hu
  refine Table.get_deleteWhere_eq_some.mpr ⟨hk,?_⟩
  change (db.uploads.get k.1).any (p k.1) = false
  change db.uploads.get k.1 = some u at hget
  rw [hget]
  exact hkept

end Db

open Db

/-- Every chunk row has its file, and none of them is in the trash. -/
def ChunksKept (cr : Crates) (d : Disk) : Prop :=
  ∀ k c, d.db.uploadChunks.get k = some c → d.db.stagingTrash.get k = none ∧
    ∃ b, d.staging.get k = some b ∧ hash cr b = c.hash ∧ b.length = c.size

namespace System
variable {cr : Crates} {s : System}

/-- An operation stores no chunk under a name that is still in the trash. -/
def ClearOp (s : System) (op : Op) : Prop :=
  ∀ call device id index digest bytes, op = .storeChunk call →
    s.calls.get call = some (.chunk device id index digest bytes) →
    s.disk.db.uploadChunks.get (id,index) = none → s.disk.db.stagingTrash.get (id,index) = none

def Clear (s : System) : Event → Prop
  | .perform op => ClearOp s op
  | .crash op _ => ClearOp s op

/-- What holds of the chunks wherever a section stops. -/
def ChunkStep (cr : Crates) (s : System) (d : Disk) : Prop :=
  ChunksKept cr d ∧ RowsKept s.disk.db d.db

lemma ChunkStep.commit {d : Disk} (h : ChunkStep cr s d) {db : Db}
    (hu : db.uploads = d.db.uploads) (hc : db.uploadChunks = d.db.uploadChunks)
    (ht : db.stagingTrash = d.db.stagingTrash) : ChunkStep cr s (d.apply (.commit db)) := by
  refine ⟨fun k c hk => ?_,h.2.next hu hc⟩
  change db.uploadChunks.get k = some c at hk
  rw [hc] at hk
  obtain ⟨htrash, b, hb⟩ := h.1 k c hk
  exact ⟨(congrArg (Table.get · k) ht).trans htrash,b,hb⟩

lemma chunkStep_commit (hs : ChunksKept cr s.disk) {db : Db}
    (hc : db.uploadChunks = s.disk.db.uploadChunks)
    (ht : db.stagingTrash = s.disk.db.stagingTrash) :
    Along Disk.apply (ChunkStep cr s) s.disk [.commit db] := by
  refine along_cons.mpr ⟨⟨hs,.of_same rfl⟩,along_nil.mpr ⟨fun k c hk => ?_,.of_same hc⟩⟩
  change db.uploadChunks.get k = some c at hk
  rw [hc] at hk
  obtain ⟨htrash, b, hb⟩ := hs k c hk
  exact ⟨(congrArg (Table.get · k) ht).trans htrash,b,hb⟩

lemma chunkStep_drainStaging {only : Option String} {cursor : ℕ} {stuck : List (String × ℕ)}
    {d : Disk} (h : ChunkStep cr s d) :
    Along Disk.apply (ChunkStep cr s) d (drainStagingTrash only cursor stuck d) := by
  refine Disk.along_drainStagingTrash (fun d' k h' hdb ⟨row, hrow⟩ => ?_) (fun d' p h' hdb => ?_) h
  · -- a file is removed only under a name without a row
    refine ⟨fun k' c hk => ?_,h'.2⟩
    obtain ⟨htrash, b, hb, hrest⟩ := h'.1 k' c hk
    have hne : k' ≠ k := by
      rintro rfl
      rw [hdb, hrow] at htrash
      cases htrash
    refine ⟨htrash,b,?_,hrest⟩
    change (d'.staging.erase k).get k' = some b
    rw [Table.get_erase, if_neg hne, hb]
  · refine ⟨fun k c hk => ?_,h'.2.next (by rw [hdb]; rfl) (by rw [hdb]; rfl)⟩
    rw [← hdb] at hk
    obtain ⟨htrash, hrest⟩ := h'.1 k c hk
    refine ⟨?_,hrest⟩
    change (d.db.stagingTrash.deleteWhere p).get k = none
    rw [Table.get_deleteWhere, ← hdb, htrash]
    rfl

lemma chunkStep_drainTrash {cursors : ℕ × ℕ} {stuckChunks : List (String × ℕ)}
    {stuckObjects : List String} {d : Disk} (h : ChunkStep cr s d) :
    Along Disk.apply (ChunkStep cr s) d (drainTrash cursors stuckChunks stuckObjects d) := by
  refine (chunkStep_drainStaging h).andThen fun h => ?_
  exact Disk.along_drainObjectTrash (fun _ _ h _ _ => h)
    (fun d' _ _ h' hdb _ => h'.commit (by rw [hdb]) (by rw [hdb]) (by rw [hdb])) h

lemma chunkStep_orphanChunk {d : Disk} (h : ChunkStep cr s d) (k : String × ℕ) :
    ChunkStep cr s (d.apply (.commit (orphanChunk d.db k))) := by
  unfold orphanChunk
  split_ifs with hk
  · exact h
  · refine ⟨fun k' c hc => ?_,h.2⟩
    obtain ⟨htrash, hrest⟩ := h.1 k' c hc
    refine ⟨(get_discard _ _ _).mpr ⟨htrash,?_⟩,hrest⟩
    rintro rfl
    exact hk (Table.contains_iff.mpr ⟨c,hc⟩)

lemma chunkStep_publications {l : List (String × Bytes)} {d : Disk} (h : ChunkStep cr s d) :
    Along Disk.apply (ChunkStep cr s) d (l.map fun o => .publishObject o.1 o.2) := by
  refine along_of_kept h fun w hw d' h' => ?_
  obtain ⟨o, -, rfl⟩ := List.mem_map.mp hw
  exact h'

/-- What an operation writes keeps the chunks, wherever it stops. -/
theorem chunks_along (hs : ChunksKept cr s.disk) (hh : Honest cr s) {op : Op} {o : Outcome}
    (h : Cases cr s op o) (hclear : ClearOp s op) :
    Along Disk.apply (ChunkStep cr s) s.disk o.writes := by
  have hstart : ChunkStep cr s s.disk := ⟨hs,.of_same rfl⟩
  cases h with
  | idle hw =>
    rw [hw]
    exact along_nil.mpr hstart
  | ended | sent | finishes | taken | read | unread | failed | unpublished | offered | sifted =>
    exact along_nil.mpr hstart
  | device => exact chunkStep_commit hs rfl rfl
  | begin _ h =>
    obtain ⟨-, -, rfl⟩ := beginUpload_eq_ok h
    exact chunkStep_commit hs rfl rfl
  | @stored call device id index digest bytes writes hc h =>
    obtain ⟨upload, -, -, ⟨_, -, -, rfl⟩ | ⟨hnone, rfl⟩⟩ := publishChunk_eq_ok h
    · exact along_nil.mpr hstart
    have htrash := hclear call device id index digest bytes rfl hc hnone
    have hhash := hh.objects call _ hc (digest,bytes) List.mem_cons_self
    have hfile : ∀ k c, s.disk.db.uploadChunks.get k = some c →
        (s.disk.staging.upsert (id,index) bytes).get k = s.disk.staging.get k := by
      intro k c hk
      have hne : k ≠ (id,index) := by
        rintro rfl
        rw [hnone] at hk
        cases hk
      rw [Table.get_upsert, if_neg hne]
    refine along_cons.mpr ⟨hstart,along_cons.mpr ⟨⟨fun k c hk => ?_,.of_same rfl⟩,
      along_nil.mpr ⟨fun k c hk => ?_,fun k c hk _ _ _ => Table.get_insertOrIgnore_of_get hk⟩⟩⟩
    · obtain ⟨ht, b, hb⟩ := hs k c hk
      exact ⟨ht,b,(hfile k c hk).trans hb.1,hb.2⟩
    · change (s.disk.db.uploadChunks.insertOrIgnore (id,index) _).get k = some c at hk
      rw [Table.get_insertOrIgnore] at hk
      split_ifs at hk with hid
      · rw [hnone, Option.getD_none] at hk
        obtain rfl := Option.some.inj hk
        rw [hid]
        refine ⟨htrash,bytes,?_,hhash,rfl⟩
        change (s.disk.staging.upsert (id,index) bytes).get (id,index) = some bytes
        rw [Table.get_upsert, if_pos rfl]
      · obtain ⟨ht, b, hb⟩ := hs k c hk
        exact ⟨ht,b,(hfile k c hk).trans hb.1,hb.2⟩
  | attached h =>
    obtain ⟨_, _, -, -, -, -, ⟨-, rfl⟩ | ⟨-, -, -, -, _, -, -, rfl⟩⟩ := attachUploadDelta_eq_ok h
    · exact chunkStep_commit hs rfl rfl
    · exact chunkStep_commit hs rfl rfl
  | submitted _ h =>
    obtain ⟨_, -, -, -, ⟨-, rfl⟩ | ⟨-, -, -, rfl⟩⟩ := submitUpload_eq_accepted h
    · exact chunkStep_commit hs rfl rfl
    · exact chunkStep_commit hs rfl rfl
  | @completed _ caller => cases caller <;> exact along_nil.mpr hstart
  | started _ h =>
    obtain ⟨_, -, -, -, -, -, rfl⟩ := startFinish_eq_finalizing h
    exact chunkStep_commit hs rfl rfl
  | @refused _ caller => cases caller <;> exact along_nil.mpr hstart
  | @published _ caller device id digest size bytes writes _ h =>
    have hw : Along Disk.apply (ChunkStep cr s) s.disk writes := by
      obtain ⟨_, _, -, -, -, -, ⟨-, rfl⟩ | ⟨-, rfl⟩⟩ := publishUpload_eq_ok h
      · exact chunkStep_commit hs rfl rfl
      · refine along_cons.mpr ⟨hstart,along_cons.mpr ⟨hstart,along_nil.mpr ⟨hs,.of_same rfl⟩⟩⟩
    cases caller <;> exact hw
  | @rolledBack _ caller => cases caller <;> exact chunkStep_commit hs rfl rfl
  | @settled _ _ outcome _ => cases outcome <;> exact chunkStep_commit hs rfl rfl
  | @cancelled device id stuck db h =>
    obtain ⟨upload, hget, hown, -, rfl⟩ := cancelled_eq_ok h
    dsimp only
    refine Along.andThen (along_cons.mpr ⟨hstart,along_nil.mpr ⟨fun k c hk => ?_,
      rowsKept_cancelled _ _ _⟩⟩) fun h => chunkStep_drainStaging h
    obtain ⟨hc, hgone⟩ := Table.get_deleteWhere_eq_some.mp hk
    obtain ⟨htrash, hfile⟩ := hs k c hc
    refine ⟨get_discardChunks.mpr ⟨htrash,fun _ _ => decide_eq_false ?_⟩,hfile⟩
    intro hid
    change (s.disk.db.uploads.get k.1).any (fun row => decide (k.1 = id ∧ row.device = device.id)) =
      false at hgone
    rw [hid, hget, Option.any_some] at hgone
    exact of_decide_eq_false hgone ⟨rfl,hown⟩
  | publishedSome => exact chunkStep_publications hstart
  | @storing _ device inline filed =>
    refine along_append.mpr ⟨chunkStep_publications hstart,?_⟩
    have hpublished := (chunkStep_publications (l := filed) hstart).finish
    cases hs' : s.disk.db.storeObjects cr device inline filed s.clock with
    | error e => exact along_nil.mpr hpublished
    | ok db =>
      obtain ⟨objects, small, leases, rfl, -⟩ := storeObjects_eq_ok hs'
      refine along_cons.mpr ⟨hpublished,along_nil.mpr (hpublished.commit ?_ ?_ ?_)⟩
      all_goals rw [Disk.written_publications]
  | pinned h =>
    obtain ⟨leases, hframe, -⟩ := pinned_frame s.disk.db _ _ _
    rw [pinObjects_eq_ok h, hframe]
    exact chunkStep_commit hs rfl rfl
  | maintained =>
    dsimp only
    refine Along.andThen (along_cons.mpr ⟨hstart,along_nil.mpr ⟨fun k c hk => ?_,
      rowsKept_maintained (fun k c hk => (hs k c hk).1) _ _ _ _⟩⟩) fun h => ?_
    · obtain ⟨hc, htrash, -⟩ := get_maintained_chunks.mp hk
      exact ⟨htrash,(hs k c hc).2⟩
    refine Along.andThen ?_ fun h => chunkStep_drainTrash h
    refine Disk.along_reconcileOrphans (I := ChunkStep cr s) (fun d k hd => ?_)
      (fun d k hd => chunkStep_orphanChunk hd k) h _ _
    unfold orphanObject
    split_ifs
    · exact hd
    · exact hd.commit rfl rfl rfl
  | drained => exact chunkStep_drainTrash hstart

/-- The chunks of a store: each row has its file, and what was acknowledged of an unfinished upload
has its row. -/
structure ChunksSound (cr : Crates) (s : System) : Prop where
  kept : ChunksKept cr s.disk
  acknowledged : ∀ a ∈ s.acknowledged, a.2.2 ∈ s.bodiesSeen ∧
    ∃ c, s.disk.db.uploadChunks.get (a.1,a.2.1) = some c ∧ c.hash = hash cr a.2.2

lemma chunksSound_create : ChunksSound cr create where
  kept k c h := by cases h
  acknowledged := List.forall_mem_nil _

lemma acknowledged_of_cases (hh : Honest cr s) {op : Op} {o : Outcome} (h : Cases cr s op o)
    {id : String} {index : ℕ} {bytes : Bytes} (ha : o.acknowledged = some (id,index,bytes)) :
    ∃ c, (written Disk.apply s.disk o.writes).db.uploadChunks.get (id,index) = some c ∧
      c.hash = hash cr bytes := by
  cases h with
  | idle _ hnone =>
    rw [hnone] at ha
    cases ha
  | @stored call device uid uindex digest ubytes writes hc h =>
    cases ha
    have hhash : hash cr bytes = digest :=
      hh.objects call _ hc (digest,bytes) List.mem_cons_self
    obtain ⟨upload, -, -, ⟨prior, hprior, hsame, rfl⟩ | ⟨hnone, rfl⟩⟩ := publishChunk_eq_ok h
    · exact ⟨prior,hprior,hsame.trans hhash.symm⟩
    · refine ⟨⟨digest,bytes.length⟩,?_,hhash.symm⟩
      change (s.disk.db.uploadChunks.insertOrIgnore (id,index) _).get (id,index) = _
      rw [Table.get_insertOrIgnore, if_pos rfl, hnone, Option.getD_none]
  | @completed _ caller => cases caller <;> cases ha
  | @refused _ caller => cases caller <;> cases ha
  | @published _ caller => cases caller <;> cases ha
  | @rolledBack _ caller => cases caller <;> cases ha
  | _ => cases ha

lemma acknowledged_seen (hr : Remembered s) {op : Op} {o : Outcome} (h : Cases cr s op o)
    {id : String} {index : ℕ} {bytes : Bytes} (ha : o.acknowledged = some (id,index,bytes)) :
    bytes ∈ s.bodiesSeen := by
  cases h with
  | idle _ hnone =>
    rw [hnone] at ha
    cases ha
  | @stored call device uid uindex digest ubytes writes hc h =>
    cases ha
    exact hr.calls call _ hc (digest,bytes) List.mem_cons_self
  | @completed _ caller => cases caller <;> cases ha
  | @refused _ caller => cases caller <;> cases ha
  | @published _ caller => cases caller <;> cases ha
  | @rolledBack _ caller => cases caller <;> cases ha
  | _ => cases ha

lemma unfinished_reopened (db : Db) (id : String) :
    (db.reopened.uploads.get id).any unfinished = (db.uploads.get id).any unfinished := by
  rw [get_reopened]
  cases db.uploads.get id with
  | none => rfl
  | some u =>
    rw [Option.map_some, Option.any_some, Option.any_some]
    unfold unfinished
    cases hs : u.state <;> cases db.uploadJobs.contains id <;> simp

theorem ChunksSound.exec (hs : ChunksSound cr s) (hh : Honest cr s) (hr : Remembered s) {e : Event}
    (he : Clear s e) : ChunksSound cr (s.exec cr e) := by
  cases e with
  | perform op =>
    have hcases : Cases cr s op _ := outcome_cases s op
    obtain ⟨hkept, hrows⟩ := (chunks_along hs.kept hh hcases he).finish
    refine ⟨hkept,fun a ha => ?_⟩
    obtain ⟨ha, hlive⟩ := List.mem_filter.mp ha
    rcases List.mem_append.mp ha with ha | ha
    · obtain ⟨hseen, c, hc, hhash⟩ := hs.acknowledged a ha
      exact ⟨bodiesSeen_exec s (.perform op) _ hseen,c,hrows.unfinished hc hlive,hhash⟩
    · obtain ⟨id, index, bytes⟩ := a
      have ha := Option.mem_toList.mp ha
      exact ⟨bodiesSeen_exec s (.perform op) _ (acknowledged_seen hr hcases ha),
        acknowledged_of_cases hh hcases ha⟩
  | crash op k =>
    have hcases : Cases cr s op _ := outcome_cases s op
    obtain ⟨hkept, hrows⟩ := chunks_along hs.kept hh hcases he k
    refine ⟨hkept,fun a ha => ?_⟩
    obtain ⟨ha, hlive⟩ := List.mem_filter.mp ha
    rw [List.append_nil] at ha
    change Option.any unfinished (Table.get (Db.uploads (Db.reopened _)) a.1) = true at hlive
    rw [unfinished_reopened] at hlive
    obtain ⟨hseen, c, hc, hhash⟩ := hs.acknowledged a ha
    exact ⟨bodiesSeen_exec s (.crash op k) _ hseen,c,hrows.unfinished hc hlive,hhash⟩

theorem Reachable.chunksSound (h : Reachable cr Clear s) : ChunksSound cr s := by
  induction h with
  | create => exact chunksSound_create
  | step h he ih => exact ih.exec h.honest h.remembered he

/-- In every run that stores no chunk under a name that is still in the trash, what was acknowledged
of an unfinished upload keeps its row and a file with exactly its bytes. -/
theorem acknowledged_chunks_are_kept (h : Reachable cr Clear s)
    (hcr : NoCollision cr s.bodiesSeen) : ∀ a ∈ s.acknowledged,
      s.disk.db.uploadChunks.get (a.1,a.2.1) = some ⟨hash cr a.2.2,a.2.2.length⟩ ∧
      s.disk.staging.get (a.1,a.2.1) = some a.2.2 := by
  intro a ha
  have hs := h.chunksSound
  obtain ⟨hseen, ⟨chash, csize⟩, hc, rfl⟩ := hs.acknowledged a ha
  obtain ⟨-, b, hb, hhash, hlength⟩ := hs.kept _ _ hc
  have hdisk : b ∈ bodies s.disk := by
    refine List.mem_append_left _ (List.mem_append_left _ ?_)
    exact List.mem_map_of_mem (f := Prod.snd) (Table.get_eq_some.mp hb)
  obtain rfl := hcr b (h.remembered.disk b hdisk) a.2.2 hseen hhash
  exact ⟨hc.trans (congrArg (fun n => some (Chunk.mk _ n)) hlength.symm),hb⟩

/-! ### A chunk under a discarded name -/

/-- SHA-256 on a body of one byte. -/
def sampleCrates : Crates :=
  tabulated [([120],"2d711642b726b04401627ca9fbac32f5c8530fb1903cc4db02258717921a4881")] [] []

def sampleDevice : Device := ⟨"device",none⟩

/-- A client begins an upload of one byte and sends it. -/
def sampleUpload : List Event :=
  [.perform (.addDevice "device"),
    .perform (.beginUpload sampleDevice ⟨hash sampleCrates [120],1⟩ "upload"),
    .perform (.sendChunk 0 sampleDevice "upload" 0 (hash sampleCrates [120]) [120])]

lemma clear_of_empty {s : System} {e : Event}
    (h : decide (s.disk.db.stagingTrash.rows = []) = true) : Clear s e := by
  have hnone : ∀ k, s.disk.db.stagingTrash.get k = none := by
    intro k
    rw [Table.get_eq_none, of_decide_eq_true h]
    exact List.not_mem_nil
  cases e <;> exact fun _ _ _ _ _ _ _ _ _ => hnone _

theorem acknowledged_chunks_are_kept_upload :
    ∃ s, Reachable sampleCrates Clear s ∧ s.acknowledged = [("upload",0,[120])] ∧
      s.disk.staging.get ("upload",0) = some [120] := by
  have hr : Reachable sampleCrates Clear
      (create.run sampleCrates (sampleUpload ++ [.perform (.storeChunk 0)])) :=
    .run (fun _ _ => clear_of_empty) .create (by decide)
  have hcr : NoCollision sampleCrates
      (create.run sampleCrates (sampleUpload ++ [.perform (.storeChunk 0)])).bodiesSeen := by
    unfold NoCollision
    decide
  have hack : (create.run sampleCrates (sampleUpload ++ [.perform (.storeChunk 0)])).acknowledged =
      [("upload",0,[120])] := by decide
  refine ⟨_,hr,hack,?_⟩
  exact (acknowledged_chunks_are_kept hr hcr ("upload",0,[120]) (hack ▸ List.mem_cons_self)).2

/-- The server stops between the file and the row of a chunk, a pass moves the file to the trash
but cannot remove it, the client sends the chunk again, and a drain removes what was
acknowledged. -/
def lostChunk : System :=
  create.run sampleCrates (sampleUpload ++ [.crash (.storeChunk 0) 1,
    .perform (.maintain 0 [] [] [] [("upload",0)] [("upload",0)] []),
    .perform (.sendChunk 0 sampleDevice "upload" 0 (hash sampleCrates [120]) [120]),
    .perform (.storeChunk 0),.perform (.drainTrash [] [])])

theorem an_acknowledged_chunk_is_lost :
    Reachable sampleCrates (fun _ _ => True) lostChunk ∧
    lostChunk.acknowledged = [("upload",0,[120])] ∧
    lostChunk.disk.db.uploads.get "upload" =
      some ⟨"device",hash sampleCrates [120],1,86400,.opened⟩ ∧
    lostChunk.clock = 0 ∧ lostChunk.disk.db.devices.get "device" = some false ∧
    lostChunk.disk.staging.get ("upload",0) = none := by
  refine ⟨.run (p := fun _ _ => true) (fun _ _ _ => trivial) .create (by decide),
    ?_,?_,?_,?_,?_⟩ <;> decide

end System
end RisuNest.Transfer
