import RisuNest.Transfer.Chunks
import RisuNest.Transfer.Lives

/-! The rows behind an upload: the object of a complete one, the bases of a recipe, and what may
become of jobs, recipes and chunks in one operation. -/
namespace RisuNest.Transfer
open Wire Server

namespace Db

/-- What holds of the rows at all times. -/
structure Tables (clock : ℤ) (db : Db) : Prop where
  level : db.formatLevel ≤ libraryFormatMaxLevel
  expires : ∀ id u, db.uploads.get id = some u → u.expires ≤ clock + 86400
  hash : ∀ id u, db.uploads.get id = some u → validateHash u.hash = .ok ()
  owner : ∀ id u, db.uploads.get id = some u → ∃ revoked, db.devices.get u.device = some revoked
  retry : ∀ id job, db.uploadJobs.get id = some job → job.retryAfter ≤ clock + 300
  named : ∀ id job, db.uploadJobs.get id = some job → validateId id = .ok ()
  bases : ∀ id b recipe, db.uploadDeltas.get id = some b → Recipe.decode b = .ok recipe →
    ∀ base ∈ recipe.bases, db.uploadDeltaBases.contains (id,base.hash) = true ∧
      (db.objects.get base.hash).map ObjectRow.size = some base.size
  small : ∀ digest row, db.objects.get digest = some row → row.storage = .inline →
    row.size ≤ smallObjectBytes
  done : ∀ id u, db.uploads.get id = some u → u.state = .complete →
    (db.objects.get u.hash).map ObjectRow.size = some u.size ∧
      ∃ t, db.objectLeases.get (u.device,u.hash) = some t ∧ u.expires ≤ t

lemma Tables.mono {clock clock' : ℤ} {db : Db} (h : Tables clock db) (hc : clock ≤ clock') :
    Tables clock' db where
  level := h.level
  expires id u hu := (h.expires id u hu).trans (by omega)
  hash := h.hash
  owner := h.owner
  retry id job hj := (h.retry id job hj).trans (by omega)
  named := h.named
  bases := h.bases
  small := h.small
  done := h.done

end Db

namespace System
open Db
variable {cr : Crates} {s : System}

/-- A final error is about to be recorded of an upload. -/
def Fails (s : System) (id : String) : Prop :=
  ∃ n e, s.calls.get n = some (.settling id (some e)) ∧ e.status < 500

/-- What an operation leaves of the rows: they are sound, and each change is one of those listed. -/
structure Kept (s : System) (db : Db) : Prop extends Tables s.clock db where
  completed : ∀ id u, db.uploads.get id = some u → u.state = .complete →
    ∃ u, s.disk.db.uploads.get id = some u ∧ (u.state = .complete ∨ u.state = .finalizing)
  unfinished : ∀ id u, db.uploads.get id = some u → Db.unfinished u = true →
    s.disk.db.uploads.get id = none ∨
      ∃ u, s.disk.db.uploads.get id = some u ∧ Db.unfinished u = true
  failed : ∀ id u, db.uploads.get id = some u → u.state = .failed →
    ∃ u, s.disk.db.uploads.get id = some u ∧ (u.state = .failed ∨ s.Fails id)
  revoked : ∀ id u, db.uploads.get id = some u → s.disk.db.devices.get u.device = some true →
    db.devices.get u.device = some true
  queued : ∀ id, db.uploadJobs.contains id = true → s.disk.db.uploadJobs.contains id = true ∨
    db.uploadDeltas.contains id = true ∨ ∃ u, s.disk.db.uploads.get id = some u ∧
      s.disk.db.chunkCount id = divCeil u.size uploadChunkBytes
  attached : ∀ id b, db.uploadDeltas.get id = some b → s.disk.db.uploadDeltas.get id = some b ∨
    s.disk.db.uploadDeltas.get id = none ∧ s.disk.db.uploadJobs.get id = none ∧
      ∃ u, s.disk.db.uploads.get id = some u ∧ u.state = .opened
  recipes : ∀ id b u, s.disk.db.uploadDeltas.get id = some b → db.uploads.get id = some u →
    (∃ u, s.disk.db.uploads.get id = some u ∧ u.state = .complete) ∨
      db.uploadDeltas.get id = some b
  chunks : ∀ k c, db.uploadChunks.get k = some c → s.disk.db.uploadChunks.get k = some c ∨
    s.disk.db.uploadChunks.get k = none ∧
      (∃ n device digest bytes, s.calls.get n = some (.chunk device k.1 k.2 digest bytes)) ∧
      ∃ u, s.disk.db.uploads.get k.1 = some u ∧ u.state = .opened

lemma Kept.start (h : Tables s.clock s.disk.db) : Kept s s.disk.db where
  toTables := h
  completed _ u hu hs := ⟨u,hu,.inl hs⟩
  unfinished _ u hu hs := .inr ⟨u,hu,hs⟩
  failed _ u hu hs := ⟨u,hu,.inl hs⟩
  revoked _ _ _ h := h
  queued _ h := .inl h
  attached _ _ h := .inl h
  recipes _ _ _ h _ := .inr h
  chunks _ _ h := .inl h

lemma map_size_of_kept {t t' : Table String ObjectRow} {digest : String} {size : ℕ}
    (h : ∀ row, t.get digest = some row → t'.get digest = some row)
    (hs : (t.get digest).map ObjectRow.size = some size) :
    (t'.get digest).map ObjectRow.size = some size := by
  obtain ⟨row, hrow, rfl⟩ := Option.map_eq_some_iff.mp hs
  rw [h row hrow, Option.map_some]

lemma Kept.stored {db : Db} (h : Kept s db) {objects : Table String ObjectRow}
    {small : Table String Bytes} {leases : Table (String × String) ℤ}
    (ho : ∀ k row, db.objects.get k = some row → objects.get k = some row)
    (hi : ∀ k row, objects.get k = some row → row.storage = .inline → row.size ≤ smallObjectBytes)
    (hl : Renewed s.clock db.objectLeases leases) :
    Kept s { db with
      objects := objects
      smallObjects := small
      objectLeases := leases } :=
  { h with
    bases := fun id b recipe hb hr base hbase =>
      ⟨(h.bases id b recipe hb hr base hbase).1,
        map_size_of_kept (ho base.hash) (h.bases id b recipe hb hr base hbase).2⟩
    small := hi
    done := by
      intro id u hu hs
      obtain ⟨hsize, t, ht, hle⟩ := h.done id u hu hs
      refine ⟨map_size_of_kept (ho u.hash) hsize,?_⟩
      rcases hl _ t ht with ht | ht
      · exact ⟨t,ht,hle⟩
      · exact ⟨_,ht,h.expires id u hu⟩ }

/-- How the state of an upload may change, unless it is completed. -/
def Moves (s : System) (id : String) (old new : UploadState) : Prop :=
  new = old ∨ old ∈ [UploadState.opened,.queued,.finalizing] ∧
    new ∈ [UploadState.opened,.queued,.finalizing] ∨
  new = .failed ∧ s.Fails id ∧ ∃ u, s.disk.db.uploads.get id = some u

lemma moves_set {db : Db} {id id' : String} {u : Upload} {new : UploadState}
    (hu : db.uploads.get id' = some u)
    (hold : ∀ u, db.uploads.get id = some u → u.state ∈ [UploadState.opened,.queued,.finalizing])
    (hnew : new ∈ [UploadState.opened,.queued,.finalizing] := by decide) :
    s.Moves id' u.state (if id' = id then new else u.state) := by
  by_cases hid : id' = id
  · rw [if_pos hid]
    exact .inr (.inl ⟨hold u (hid ▸ hu),hnew⟩)
  · rw [if_neg hid]
    exact .inl rfl

lemma moves_move {id : String} {state old new : UploadState} {p : Prop} [Decidable p]
    (hold : old ∈ [UploadState.opened,.queued,.finalizing])
    (hnew : new ∈ [UploadState.opened,.queued,.finalizing]) :
    s.Moves id state (if p ∧ state = old then new else state) := by
  by_cases hp : p ∧ state = old
  · rw [if_pos hp, hp.2]
    exact .inr (.inl ⟨hold,hnew⟩)
  · rw [if_neg hp]
    exact .inl rfl

lemma Kept.states {db db' : Db} (h : Kept s db) {f : String → Upload → UploadState}
    (hdb : db' = { db with uploads := db'.uploads })
    (hu : ∀ id, db'.uploads.get id = (db.uploads.get id).map fun u => { u with state := f id u })
    (hf : ∀ id u, db.uploads.get id = some u → s.Moves id u.state (f id u)) : Kept s db' := by
  have hold : ∀ id u', db'.uploads.get id = some u' → ∃ u, db.uploads.get id = some u ∧
      { u with state := f id u } = u' := by
    intro id u' hu'
    rw [hu] at hu'
    exact Option.map_eq_some_iff.mp hu'
  have hcomplete : ∀ id u, db.uploads.get id = some u → f id u = .complete → u.state = .complete := by
    intro id u hget hs
    rcases hf id u hget with hsame | ⟨-, hlive⟩ | ⟨hfailed, -⟩
    · rw [← hsame, hs]
    · rw [hs] at hlive
      simp at hlive
    · rw [hs] at hfailed
      cases hfailed
  rw [hdb]
  exact { h with
    expires := fun id u' hu' => by
      obtain ⟨u, hget, rfl⟩ := hold id u' hu'
      exact h.expires id u hget
    hash := fun id u' hu' => by
      obtain ⟨u, hget, rfl⟩ := hold id u' hu'
      exact h.hash id u hget
    owner := fun id u' hu' => by
      obtain ⟨u, hget, rfl⟩ := hold id u' hu'
      exact h.owner id u hget
    done := fun id u' hu' hs => by
      obtain ⟨u, hget, rfl⟩ := hold id u' hu'
      exact h.done id u hget (hcomplete id u hget hs)
    completed := fun id u' hu' hs => by
      obtain ⟨u, hget, rfl⟩ := hold id u' hu'
      exact h.completed id u hget (hcomplete id u hget hs)
    unfinished := fun id u' hu' hs => by
      obtain ⟨u, hget, rfl⟩ := hold id u' hu'
      refine h.unfinished id u hget ?_
      rcases hf id u hget with hsame | ⟨hlive, -⟩ | ⟨hfailed, -⟩
      · rw [hsame] at hs
        exact hs
      · exact decide_eq_true hlive
      · rw [hfailed] at hs
        cases hs
    failed := fun id u' hu' hs => by
      obtain ⟨u, hget, rfl⟩ := hold id u' hu'
      rcases hf id u hget with hsame | ⟨-, hlive⟩ | ⟨-, hfails, w, hw⟩
      · exact h.failed id u hget (hsame.symm.trans hs)
      · change f id u = .failed at hs
        rw [hs] at hlive
        simp at hlive
      · exact ⟨w,hw,.inr hfails⟩
    revoked := fun id u' hu' => by
      obtain ⟨u, hget, rfl⟩ := hold id u' hu'
      exact h.revoked id u hget
    recipes := fun id b u' hb hu' => by
      obtain ⟨u, hget, rfl⟩ := hold id u' hu'
      exact h.recipes id b u hb hget }

lemma Kept.trash {db : Db} (h : Kept s db) {staging : Table (String × ℕ) ℕ}
    {objects : Table String ℕ} {small : Table String Bytes} :
    Kept s { db with
      stagingTrash := staging
      objectTrash := objects
      smallObjects := small } :=
  { h with }

lemma Kept.deleteUploads {db : Db} (h : Kept s db) (p : String → Upload → Bool) :
    Kept s (db.deleteUploads p) := by
  have hu : ∀ id u, (db.deleteUploads p).uploads.get id = some u → db.uploads.get id = some u :=
    fun id u hu => (Table.get_deleteWhere_eq_some.mp hu).1
  have hj : ∀ id job, (db.deleteUploads p).uploadJobs.get id = some job →
      db.uploadJobs.get id = some job ∧ gone db p id = false :=
    fun id job hj => Table.get_deleteWhere_eq_some.mp hj
  have hd : ∀ id b, (db.deleteUploads p).uploadDeltas.get id = some b ↔
      db.uploadDeltas.get id = some b ∧ gone db p id = false :=
    fun id b => Table.get_deleteWhere_eq_some
  refine { h with
    expires := fun id u hget => h.expires id u (hu id u hget)
    hash := fun id u hget => h.hash id u (hu id u hget)
    owner := fun id u hget => h.owner id u (hu id u hget)
    done := fun id u hget => h.done id u (hu id u hget)
    completed := fun id u hget => h.completed id u (hu id u hget)
    unfinished := fun id u hget => h.unfinished id u (hu id u hget)
    failed := fun id u hget => h.failed id u (hu id u hget)
    revoked := fun id u hget => h.revoked id u (hu id u hget)
    retry := fun id job hget => h.retry id job (hj id job hget).1
    named := fun id job hget => h.named id job (hj id job hget).1
    attached := fun id b hget => h.attached id b ((hd id b).mp hget).1
    bases := ?_
    queued := ?_
    recipes := ?_
    chunks := fun k c hget => h.chunks k c (Table.get_deleteWhere_eq_some.mp hget).1 }
  · intro id b recipe hb hr base hbase
    obtain ⟨hb, hgone⟩ := (hd id b).mp hb
    obtain ⟨hheld, hsize⟩ := h.bases id b recipe hb hr base hbase
    obtain ⟨v, hv⟩ := Table.contains_iff.mp hheld
    exact ⟨Table.contains_iff.mpr ⟨v,Table.get_deleteWhere_eq_some.mpr ⟨hv,hgone⟩⟩,hsize⟩
  · intro id hjob
    obtain ⟨job, hjob⟩ := Table.contains_iff.mp hjob
    obtain ⟨hjob, hgone⟩ := hj id job hjob
    rcases h.queued id (Table.contains_iff.mpr ⟨job,hjob⟩) with hold | hdelta | hcount
    · exact .inl hold
    · obtain ⟨b, hb⟩ := Table.contains_iff.mp hdelta
      exact .inr (.inl (Table.contains_iff.mpr ⟨b,(hd id b).mpr ⟨hb,hgone⟩⟩))
    · exact .inr (.inr hcount)
  · intro id b u hb hget
    obtain ⟨hget, hp⟩ := Table.get_deleteWhere_eq_some.mp hget
    have hgone : gone db p id = false := by
      unfold gone
      rw [hget]
      exact hp
    exact (h.recipes id b u hb hget).imp_right fun hb => (hd id b).mpr ⟨hb,hgone⟩

lemma kept_expireUploads (h : Tables s.clock s.disk.db) :
    Kept s (s.disk.db.expireUploads s.clock) := by
  unfold expireUploads
  extract_lets done trash swept
  refine Kept.deleteUploads ?_ _
  have hd : ∀ id b, swept.uploadDeltas.get id = some b ↔
      s.disk.db.uploadDeltas.get id = some b ∧ done id = false :=
    fun id b => Table.get_deleteWhere_eq_some
  refine { Kept.start h with
    queued := fun _ hjob => .inl hjob
    attached := fun id b hb => .inl ((hd id b).mp hb).1
    bases := ?_
    recipes := ?_
    chunks := fun k c hget => .inl (Table.get_deleteWhere_eq_some.mp hget).1 }
  · intro id b recipe hb hr base hbase
    obtain ⟨hb, hdone⟩ := (hd id b).mp hb
    obtain ⟨hheld, hsize⟩ := h.bases id b recipe hb hr base hbase
    obtain ⟨v, hv⟩ := Table.contains_iff.mp hheld
    exact ⟨Table.contains_iff.mpr ⟨v,Table.get_deleteWhere_eq_some.mpr ⟨hv,hdone⟩⟩,hsize⟩
  · intro id b u hb hget
    change s.disk.db.uploads.get id = some u at hget
    by_cases hdone : done id = true
    · change (s.disk.db.uploads.get id).any _ = true at hdone
      rw [hget] at hdone
      exact .inl ⟨u,hget,of_decide_eq_true hdone⟩
    · exact .inr ((hd id b).mpr ⟨hb,Bool.not_eq_true _ ▸ hdone⟩)

/-- A pass keeps the devices of the uploads that stay, the leases of complete ones and the objects
that either of them needs. -/
lemma kept_maintained (h : Tables s.clock s.disk.db) (clock : ℤ) (held alive : List String) :
    Kept s (s.disk.db.maintained s.clock clock held alive) := by
  have hkept := kept_expireUploads h
  have hstays : ∀ id u, (s.disk.db.expireUploads s.clock).uploads.get id = some u →
      s.disk.db.dropped s.clock u = false :=
    fun id u hu => (Table.get_deleteWhere_eq_some.mp hu).2
  have hdevice : ∀ id u, (s.disk.db.expireUploads s.clock).uploads.get id = some u → ∀ revoked,
      s.disk.db.devices.get u.device = some revoked →
      (s.disk.db.maintained s.clock clock held alive).devices.get u.device = some revoked := by
    intro id u hu revoked hr
    refine Table.get_deleteWhere_eq_some.mpr ⟨hr,?_⟩
    have hany : (s.disk.db.expireUploads s.clock).uploads.any
        (fun _ u' => decide (u'.device = u.device)) = true :=
      Table.any_eq_true.mpr ⟨id,u,hu,decide_eq_true rfl⟩
    rw [hany]
    simp
  have hobject : ∀ digest size, ((s.disk.db.expireUploads s.clock).objects.get digest).map
      ObjectRow.size = some size →
      ((s.disk.db.expireUploads s.clock).expireLeases s.clock held).rooted clock digest = true →
      ((s.disk.db.maintained s.clock clock held alive).objects.get digest).map ObjectRow.size =
        some size := by
    intro digest size hsize hroot
    obtain ⟨row, hrow, rfl⟩ := Option.map_eq_some_iff.mp hsize
    refine Option.map_eq_some_iff.mpr ⟨row,Table.get_deleteWhere_eq_some.mpr ⟨hrow,?_⟩,rfl⟩
    change (!(rooted _ clock digest || _)) = false
    rw [hroot]
    rfl
  refine { hkept with
    owner := ?_
    revoked := fun id u hu hr => hdevice id u hu true hr
    bases := ?_
    small := fun k row hrow => hkept.small k row (Table.get_deleteWhere_eq_some.mp hrow).1
    done := ?_ }
  · intro id u hu
    obtain ⟨revoked, hr⟩ := hkept.owner id u hu
    exact ⟨revoked,hdevice id u hu revoked hr⟩
  · intro id b recipe hb hr base hbase
    obtain ⟨hheld, hsize⟩ := hkept.bases id b recipe hb hr base hbase
    refine ⟨hheld,hobject _ _ hsize ?_⟩
    obtain ⟨v, hv⟩ := Table.contains_iff.mp hheld
    have hany : (s.disk.db.expireUploads s.clock).uploadDeltaBases.any
        (fun k _ => decide (k.2 = base.hash)) = true :=
      Table.any_eq_true.mpr ⟨_,v,hv,decide_eq_true rfl⟩
    exact Bool.or_eq_true_iff.mpr (.inr hany)
  · intro id u hu hs
    obtain ⟨hsize, t, ht, hle⟩ := hkept.done id u hu hs
    have hlapsed : s.disk.db.lapsed s.clock u.device u.expires = false := by
      have := hstays id u hu
      unfold dropped at this
      rw [hs] at this
      exact this
    obtain ⟨hexpires, hrevoked⟩ := Bool.or_eq_false_iff.mp hlapsed
    have hlease : (s.disk.db.maintained s.clock clock held alive).objectLeases.get
        (u.device,u.hash) = some t := by
      refine Table.get_deleteWhere_eq_some.mpr ⟨ht,Bool.or_eq_false_iff.mpr ⟨?_,hrevoked⟩⟩
      have := of_decide_eq_false hexpires
      exact decide_eq_false (by omega)
    refine ⟨hobject _ _ hsize ?_,t,hlease,hle⟩
    have hany : ((s.disk.db.expireUploads s.clock).expireLeases s.clock held).objectLeases.any
        (fun k _ => decide (k.2 = u.hash)) = true :=
      Table.any_eq_true.mpr ⟨_,t,hlease,decide_eq_true rfl⟩
    exact Bool.or_eq_true_iff.mpr (.inl (Bool.or_eq_true_iff.mpr (.inl hany)))

lemma kept_begin (h : Tables s.clock s.disk.db) {device : Device} {manifest : Manifest}
    {id : String} {db : Db} (hdb : s.disk.db.beginUpload device manifest id s.clock = .ok db) :
    Kept s db := by
  obtain ⟨hnone, hactive, rfl⟩ := beginUpload_eq_ok hdb
  have hhash := validateHash_of_begin hdb
  have hu : ∀ id' u, (s.disk.db.uploads.insertOrIgnore id
      ⟨device.id,manifest.hash,manifest.size,s.clock + 86400,.opened⟩).get id' = some u →
      s.disk.db.uploads.get id' = some u ∨
        u = ⟨device.id,manifest.hash,manifest.size,s.clock + 86400,.opened⟩ := by
    intro id' u hu
    rw [Table.get_insertOrIgnore] at hu
    split_ifs at hu
    · rw [hnone, Option.getD_none] at hu
      exact .inr (Option.some.inj hu).symm
    · exact .inl hu
  refine { Kept.start h with
    expires := ?_
    hash := ?_
    owner := ?_
    done := ?_
    completed := ?_
    unfinished := ?_
    failed := ?_
    revoked := fun _ _ _ hr => hr
    recipes := fun _ _ _ hb _ => .inr hb }
  · intro id' u hget
    rcases hu id' u hget with hold | rfl
    · exact h.expires id' u hold
    · exact le_refl _
  · intro id' u hget
    rcases hu id' u hget with hold | rfl
    · exact h.hash id' u hold
    · exact hhash
  · intro id' u hget
    rcases hu id' u hget with hold | rfl
    · exact h.owner id' u hold
    · exact ⟨false,hactive⟩
  · intro id' u hget hs
    rcases hu id' u hget with hold | rfl
    · exact h.done id' u hold hs
    · cases hs
  · intro id' u hget hs
    rcases hu id' u hget with hold | rfl
    · exact ⟨u,hold,.inl hs⟩
    · cases hs
  · intro id' u hget hs
    by_cases hid : id' = id
    · rw [hid]
      exact .inl hnone
    · rw [Table.get_insertOrIgnore, if_neg hid] at hget
      exact .inr ⟨u,hget,hs⟩
  · intro id' u hget hs
    rcases hu id' u hget with hold | rfl
    · exact ⟨u,hold,.inl hs⟩
    · cases hs

lemma Kept.insertJob {db : Db} (h : Kept s db) (hclock : 0 ≤ s.clock) {id : String}
    (hid : validateId id = .ok ())
    (hqueued : db.uploadDeltas.contains id = true ∨ ∃ u, s.disk.db.uploads.get id = some u ∧
      s.disk.db.chunkCount id = divCeil u.size uploadChunkBytes) :
    Kept s { db with uploadJobs := db.uploadJobs.insertOrIgnore id ⟨0,false,none,0⟩ } := by
  have hj : ∀ id' job, (db.uploadJobs.insertOrIgnore id ⟨0,false,none,0⟩).get id' = some job →
      db.uploadJobs.get id' = some job ∨ id' = id ∧ job = ⟨0,false,none,0⟩ := by
    intro id' job hj
    rw [Table.get_insertOrIgnore] at hj
    split_ifs at hj with hid'
    · cases hold : db.uploadJobs.get id with
      | none =>
        rw [hold, Option.getD_none] at hj
        exact .inr ⟨hid',(Option.some.inj hj).symm⟩
      | some old =>
        rw [hold, Option.getD_some] at hj
        rw [hid', hold]
        exact .inl hj
    · exact .inl hj
  refine { h with
    retry := ?_
    named := ?_
    queued := ?_ }
  · intro id' job hget
    rcases hj id' job hget with hold | ⟨-, rfl⟩
    · exact h.retry id' job hold
    · change 0 ≤ s.clock + 300
      omega
  · intro id' job hget
    rcases hj id' job hget with hold | ⟨rfl, -⟩
    · exact h.named id' job hold
    · exact hid
  · intro id' hget
    obtain ⟨job, hget⟩ := Table.contains_iff.mp hget
    rcases hj id' job hget with hold | ⟨rfl, -⟩
    · exact h.queued id' (Table.contains_iff.mpr ⟨job,hold⟩)
    · exact .inr hqueued

lemma kept_attach (h : Tables s.clock s.disk.db) (hclock : 0 ≤ s.clock) {device : Device}
    {id : String} {bytes : Bytes} {db : Db}
    (hdb : s.disk.db.attachUploadDelta device id bytes s.clock = .ok db) : Kept s db := by
  obtain ⟨_, hrow⟩ := uploadRow_of_attach hdb
  obtain ⟨recipe, u, hdecode, hu, -, -, ⟨-, rfl⟩ |
    ⟨hnone, hstate, -, hjob, held, hkeep, hheld, rfl⟩⟩ := attachUploadDelta_eq_ok hdb
  · exact .start h
  have hd : ∀ id' b, (s.disk.db.uploadDeltas.insertOrIgnore id bytes).get id' = some b →
      s.disk.db.uploadDeltas.get id' = some b ∨ id' = id ∧ b = bytes := by
    intro id' b hb
    rw [Table.get_insertOrIgnore] at hb
    split_ifs at hb with hid
    · rw [hnone, Option.getD_none] at hb
      exact .inr ⟨hid,(Option.some.inj hb).symm⟩
    · exact .inl hb
  have hrecipe : Kept s { s.disk.db with
      uploadDeltaBases := held
      uploadDeltas := s.disk.db.uploadDeltas.insertOrIgnore id bytes } := by
    refine { Kept.start h with
      bases := ?_
      queued := fun _ hj => .inl hj
      attached := ?_
      recipes := fun _ _ _ hb _ => .inr (Table.get_insertOrIgnore_of_get hb) }
    · intro id' b recipe' hb hr base hbase
      rcases hd id' b hb with hold | ⟨rfl, rfl⟩
      · obtain ⟨hc, hsize⟩ := h.bases id' b recipe' hold hr base hbase
        exact ⟨hkeep _ hc,hsize⟩
      · obtain rfl := Except.ok.inj (hdecode.symm.trans hr)
        exact hheld base hbase
    · intro id' b hb
      rcases hd id' b hb with hold | ⟨rfl, -⟩
      · exact .inl hold
      · exact .inr ⟨hnone,hjob,u,hu,hstate⟩
  refine (hrecipe.insertJob hclock (uploadRow_eq_ok hrow).1 (.inl ?_)).states rfl
    (get_setState _ _ _) fun id' u' hget => ?_
  · refine Table.contains_iff.mpr ⟨bytes,?_⟩
    change (s.disk.db.uploadDeltas.insertOrIgnore id bytes).get id = _
    rw [Table.get_insertOrIgnore, if_pos rfl, hnone, Option.getD_none]
  · exact moves_set hget fun w hw => by simp [Option.some.inj (hw.symm.trans hu), hstate]

lemma kept_submit (h : Tables s.clock s.disk.db) (hclock : 0 ≤ s.clock) {device : Device}
    {id : String} {db : Db} (hdb : s.disk.db.submitUpload device id s.clock = .ok (.accepted db)) :
    Kept s db := by
  obtain ⟨_, hrow⟩ := uploadRow_of_submit hdb
  obtain ⟨u, hu, -, -, ⟨-, rfl⟩ | ⟨-, -, hcount, rfl⟩⟩ := submitUpload_eq_accepted hdb
  · exact .start h
  refine ((Kept.start h).insertJob hclock (uploadRow_eq_ok hrow).1 (.inr ⟨u,hu,hcount⟩)).states rfl
    (get_moveState _ _ _ _) fun id' u' _ => moves_move (by decide) (by decide)

lemma kept_publish (small : Table String Bytes) (h : Tables s.clock s.disk.db) (hh : Honest cr s)
    {call : ℕ} {caller : Caller} {device : Device} {id digest : String} {size : ℕ} {bytes : Bytes}
    (hc : s.calls.get call = some (.finishing caller device id digest size (.assembled bytes)))
    (hf : ∀ u, s.disk.db.uploads.get id = some u → u.state = .complete ∨ u.state = .finalizing)
    (hown : ∀ u, s.disk.db.uploads.get id = some u → u.device = device.id)
    (hsize : ∀ row, s.disk.db.objects.get digest = some row → row.size = size) :
    Kept s (({ s.disk.db with
      smallObjects := small
      objects := s.disk.db.objects.insertOrIgnore digest ⟨size,.file⟩ }.setState id
        .complete).leaseObject device digest s.clock) := by
  have hfile : ∀ k row, (s.disk.db.objects.insertOrIgnore digest ⟨size,.file⟩).get k = some row →
      row.storage = .inline → row.size ≤ smallObjectBytes := by
    intro k row hrow hs
    rw [Table.get_insertOrIgnore] at hrow
    split_ifs at hrow
    · cases hold : s.disk.db.objects.get digest with
      | none =>
        rw [hold, Option.getD_none] at hrow
        rw [← Option.some.inj hrow] at hs
        cases hs
      | some old =>
        rw [hold, Option.getD_some] at hrow
        exact h.small digest row (hold.trans hrow) hs
    · exact h.small k row hrow hs
  have hstored : Kept s (({ s.disk.db with
      smallObjects := small
      objects := s.disk.db.objects.insertOrIgnore digest ⟨size,.file⟩ }).leaseObject device digest
        s.clock) :=
    (Kept.start h).stored (fun k row hrow => Table.get_insertOrIgnore_of_get hrow) hfile
      (renewed_leaseObject s.disk.db device digest s.clock)
  have hobject : ((s.disk.db.objects.insertOrIgnore digest ⟨size,.file⟩).get digest).map
      ObjectRow.size = some size := by
    rw [Table.get_insertOrIgnore, if_pos rfl]
    cases hrow : s.disk.db.objects.get digest with
    | none => rfl
    | some row =>
      rw [Option.getD_some, Option.map_some, hsize row hrow]
  have hlease : (s.disk.db.objectLeases.upsert (device.id,digest) (s.clock + 86400)).get
      (device.id,digest) = some (s.clock + 86400) := by
    rw [Table.get_upsert, if_pos rfl]
  have hu : ∀ id' u', (s.disk.db.setState id .complete).uploads.get id' = some u' →
      ∃ u, s.disk.db.uploads.get id' = some u ∧
        { u with state := if id' = id then .complete else u.state } = u' := by
    intro id' u' hu'
    rw [get_setState] at hu'
    exact Option.map_eq_some_iff.mp hu'
  refine { hstored with
    expires := ?_
    hash := ?_
    owner := ?_
    done := ?_
    completed := ?_
    unfinished := ?_
    failed := ?_
    revoked := ?_
    recipes := ?_ }
  · intro id' u' hu'
    obtain ⟨u, hget, rfl⟩ := hu id' u' hu'
    exact h.expires id' u hget
  · intro id' u' hu'
    obtain ⟨u, hget, rfl⟩ := hu id' u' hu'
    exact h.hash id' u hget
  · intro id' u' hu'
    obtain ⟨u, hget, rfl⟩ := hu id' u' hu'
    exact h.owner id' u hget
  · intro id' u' hu' hs
    obtain ⟨u, hget, rfl⟩ := hu id' u' hu'
    by_cases hid : id' = id
    · rw [hid] at hget
      obtain ⟨hhash, hsz⟩ := (hh.finishing call _ _ _ _ _ _ hc).2.1 u hget
      dsimp only
      rw [hhash, hsz, hown u hget]
      exact ⟨hobject,_,hlease,h.expires id u hget⟩
    · dsimp only at hs
      rw [if_neg hid] at hs
      exact hstored.done id' u hget hs
  · intro id' u' hu' hs
    obtain ⟨u, hget, rfl⟩ := hu id' u' hu'
    by_cases hid : id' = id
    · rw [hid] at hget ⊢
      exact ⟨u,hget,hf u hget⟩
    · dsimp only at hs
      rw [if_neg hid] at hs
      exact ⟨u,hget,.inl hs⟩
  · intro id' u' hu' hs
    obtain ⟨u, hget, rfl⟩ := hu id' u' hu'
    by_cases hid : id' = id
    · rw [if_pos hid] at hs
      cases hs
    · rw [if_neg hid] at hs
      exact .inr ⟨u,hget,hs⟩
  · intro id' u' hu' hs
    obtain ⟨u, hget, rfl⟩ := hu id' u' hu'
    refine ⟨u,hget,.inl ?_⟩
    dsimp only at hs
    split_ifs at hs
    exact hs
  · intro id' u' hu' hr
    exact hr
  · intro id' b u' hb hu'
    exact .inr hb

lemma kept_settle (h : Tables s.clock s.disk.db) (hsound : ∀ id, (s.life id).Sound) {call : ℕ}
    {id : String} {outcome : Option Error}
    (hc : s.calls.get call = some (.settling id outcome)) :
    Kept s (s.disk.db.settleJob id outcome s.clock) := by
  cases outcome with
  | none =>
    have hj : ∀ id' job, (s.disk.db.uploadJobs.erase id).get id' = some job →
        s.disk.db.uploadJobs.get id' = some job := by
      intro id' job hj
      rw [Table.get_erase] at hj
      split_ifs at hj
      exact hj
    refine { Kept.start h with
      retry := fun id' job hget => h.retry id' job (hj id' job hget)
      named := fun id' job hget => h.named id' job (hj id' job hget)
      queued := fun id' hget => ?_ }
    obtain ⟨job, hget⟩ := Table.contains_iff.mp hget
    exact .inl (Table.contains_iff.mpr ⟨job,hj id' job hget⟩)
  | some e =>
    have hj : ∀ id' job', (s.disk.db.settleJob id (some e) s.clock).uploadJobs.get id' = some job' →
        ∃ job, s.disk.db.uploadJobs.get id' = some job ∧ job'.retryAfter ≤ s.clock + 300 := by
      intro id' job' hget
      rw [get_settleJob_jobs] at hget
      obtain ⟨job, hjob, rfl⟩ := Option.map_eq_some_iff.mp hget
      refine ⟨job,hjob,?_⟩
      split_ifs
      · dsimp only
        omega
      · exact h.retry id' job hjob
    have hjobs : Kept s { s.disk.db with
        uploadJobs := (s.disk.db.settleJob id (some e) s.clock).uploadJobs } := by
      refine { Kept.start h with
        retry := fun id' job' hget => ?_
        named := fun id' job' hget => ?_
        queued := fun id' hget => ?_ }
      · obtain ⟨job, -, hretry⟩ := hj id' job' hget
        exact hretry
      · obtain ⟨job, hjob, -⟩ := hj id' job' hget
        exact h.named id' job hjob
      · obtain ⟨job', hget⟩ := Table.contains_iff.mp hget
        obtain ⟨job, hjob, -⟩ := hj id' job' hget
        exact .inl (Table.contains_iff.mpr ⟨job,hjob⟩)
    refine hjobs.states rfl (get_settleJob_uploads _ _ _ _) fun id' u hget => ?_
    by_cases hid : id' = id
    · rw [if_pos hid]
      rw [hid] at hget ⊢
      by_cases he : e.status < 500
      · rw [if_pos he]
        exact .inr (.inr ⟨rfl,⟨call,e,hc,he⟩,u,hget⟩)
      · -- an error that is not final was recorded of an upload that was given back
        rw [if_neg he]
        have hstage : (s.life id).stage call = some (.settling (some false)) := by
          rw [stage_life hc, ← decide_eq_false he]
          exact if_pos rfl
        have hphase := (hsound id).erred call false hstage
        rw [get_life hget] at hphase
        refine .inr (.inl ⟨?_,by decide⟩)
        rcases hphase with hp | hp | hp | ⟨hf, -⟩
        · simp [Option.some.inj hp]
        · simp [Option.some.inj hp]
        · cases hp
        · cases hf
    · rw [if_neg hid]
      exact .inl rfl

/-- The bodies that calls store in the database are small. -/
def Inlined (s : System) : Prop :=
  ∀ n c, s.calls.get n = some c → ∀ o ∈ c.inline, o.2.length ≤ smallObjectBytes

lemma inline_of_cases {op : Op} {o : Outcome} (hs : Inlined s) (h : Cases cr s op o) {n : ℕ}
    {c : Call} (hop : op.call = some n) (hcall : o.call = some c) :
    ∀ b ∈ c.inline, b.2.length ≤ smallObjectBytes := by
  cases h with
  | idle _ _ hc => exact hs n c ((hc n hop).symm.trans hcall)
  | ended | device | begin | stored | attached | submitted | settled | cancelled | publishedSome |
    storing | pinned | maintained | drained => cases hcall
  | sent | finishes | taken | started | read | unread | failed | unpublished | offered =>
    obtain rfl := Option.some.inj hcall
    exact List.forall_mem_nil _
  | completed | refused | published | rolledBack =>
    obtain rfl := returned_call hcall
    exact List.forall_mem_nil _
  | sifted hop' hc _ _ _ hsmall =>
    obtain rfl := Option.some.inj hcall
    intro b hb
    rcases hsmall b hb with hold | hlength
    · exact hs _ _ hc b hold
    · exact hlength

theorem Reachable.inlined {P : System → Event → Prop} (h : Reachable cr P s) : Inlined s := by
  induction h with
  | create => exact fun n c h => by cases h
  | @step s e _ _ ih =>
    cases e with
    | crash op k => exact fun n c h => by cases h
    | perform op =>
      intro n c h
      rcases get_nextCalls h with h | ⟨hop, hcall⟩
      · exact ih n c h
      · exact inline_of_cases ih (@outcome_cases cr s op) hop hcall

/-- What an operation writes keeps the rows, wherever it stops. -/
theorem kept_along (h : Tables s.clock s.disk.db) (hclock : 0 ≤ s.clock) (hh : Honest cr s)
    (hinline : Inlined s) (hsound : ∀ id, (s.life id).Sound) {op : Op} {o : Outcome} (hcases : Cases cr s op o) :
    Along Disk.apply (fun d => Kept s d.db) s.disk o.writes := by
  have hstart := Kept.start h
  have hone : ∀ {db}, Kept s db → Along Disk.apply (fun d => Kept s d.db) s.disk [.commit db] :=
    fun hdb => along_cons.mpr ⟨hstart,along_nil.mpr hdb⟩
  have hstaging : ∀ {only cursor stuck d}, Kept s d.db → Along Disk.apply
      (fun d => Kept s d.db) d (drainStagingTrash only cursor stuck d) :=
    fun hd => Disk.along_drainStagingTrash (fun _ _ h _ _ => h) (fun _ _ _ _ => hd.trash) hd
  have hdrain : ∀ {cursors stuckChunks stuckObjects d}, Kept s d.db → Along Disk.apply
      (fun d => Kept s d.db) d (drainTrash cursors stuckChunks stuckObjects d) := by
    intro cursors stuckChunks stuckObjects d hd
    refine (hstaging hd).andThen fun h => ?_
    exact Disk.along_drainObjectTrash (fun _ _ h _ _ => h) (fun _ _ _ _ _ _ => h.trash) h
  have hpublications : ∀ l : List (String × Bytes), Along Disk.apply (fun d => Kept s d.db) s.disk
      (l.map fun o => .publishObject o.1 o.2) := by
    intro l
    refine along_of_kept hstart fun w hw d hd => ?_
    obtain ⟨o, -, rfl⟩ := List.mem_map.mp hw
    exact hd
  cases hcases with
  | idle hw =>
    rw [hw]
    exact along_nil.mpr hstart
  | ended | sent | finishes | taken | read | unread | failed | unpublished | offered | sifted =>
    exact along_nil.mpr hstart
  | @device _ _ devices level hlevel hd =>
    refine hone { hstart with
      level := ?_
      owner := fun id u hu => ?_
      revoked := fun id u hu hr => ?_ }
    · rcases hlevel with rfl | hlevel
      · exact h.level
      · exact hlevel
    · obtain ⟨revoked, hr⟩ := h.owner id u hu
      obtain ⟨revoked', hr', -⟩ := hd _ _ hr
      exact ⟨revoked',hr'⟩
    · obtain ⟨revoked', hr', htrue⟩ := hd _ _ hr
      change devices.get u.device = some true
      rw [hr', htrue rfl]
  | begin _ hdb => exact hone (kept_begin h hdb)
  | @stored call device id index digest bytes writes hc hdb =>
    obtain ⟨u, hu, hstate, ⟨_, -, -, rfl⟩ | ⟨hnone, rfl⟩⟩ := publishChunk_eq_ok hdb
    · exact along_nil.mpr hstart
    refine along_cons.mpr ⟨hstart,along_cons.mpr ⟨hstart,along_nil.mpr ?_⟩⟩
    refine { hstart with chunks := fun k c hk => ?_ }
    change (s.disk.db.uploadChunks.insertOrIgnore (id,index) _).get k = some c at hk
    rw [Table.get_insertOrIgnore] at hk
    split_ifs at hk with hid
    · rw [hid]
      exact .inr ⟨hnone,⟨call,device,digest,bytes,hc⟩,u,hu,hstate⟩
    · exact .inl hk
  | attached hdb => exact hone (kept_attach h hclock hdb)
  | submitted _ hdb => exact hone (kept_submit h hclock hdb)
  | @completed _ caller => cases caller <;> exact along_nil.mpr hstart
  | started _ hdb =>
    obtain ⟨u, hrow, -, -, hstate, -, rfl⟩ := startFinish_eq_finalizing hdb
    have hu := (uploadRow_eq_ok hrow).2.2.1
    refine hone (hstart.states rfl (get_setState _ _ _) fun id' u' hget => ?_)
    refine moves_set hget fun w hw => ?_
    rw [Option.some.inj (hw.symm.trans hu)]
    rcases hstate with hstate | hstate <;> simp [hstate]
  | @refused _ caller => cases caller <;> exact along_nil.mpr hstart
  | @published call caller device id digest size bytes writes hc hdb =>
    obtain ⟨u, small, hrow, hsize, -, -, hwrites⟩ := publishUpload_eq_ok hdb
    obtain ⟨-, -, hu, hown, -⟩ := uploadRow_eq_ok hrow
    have hholding : (s.life id).phase = some .finalizing :=
      (hsound id).holding call caller ((stage_life hc id).trans (if_pos rfl))
    have hkept := kept_publish small h hh hc
      (fun u' hu' => .inr (Option.some.inj ((get_life hu').symm.trans hholding)))
      (fun u' hu' => by rw [← Option.some.inj (hu.symm.trans hu'), hown]) hsize
    have hw : Along Disk.apply (fun d => Kept s d.db) s.disk writes := by
      rcases hwrites with ⟨-, rfl⟩ | ⟨-, rfl⟩
      · exact hone hkept
      · exact along_cons.mpr ⟨hstart,along_cons.mpr ⟨hstart,along_nil.mpr hkept⟩⟩
    cases caller <;> exact hw
  | @rolledBack _ caller id e =>
    have hkept : Kept s (s.disk.db.moveState id .finalizing .opened) := by
      refine hstart.states rfl (get_moveState _ _ _ _) fun id' u _ => ?_
      exact moves_move (by decide) (by decide)
    cases caller <;> exact hone hkept
  | settled hc => exact hone (kept_settle h hsound hc)
  | cancelled hdb =>
    obtain ⟨_, -, -, -, rfl⟩ := cancelled_eq_ok hdb
    dsimp only
    refine Along.andThen (hone ?_) fun h => hstaging h
    exact (hstart.trash).deleteUploads _
  | publishedSome => exact hpublications _
  | @storing call device inline filed hc =>
    refine along_append.mpr ⟨hpublications _,?_⟩
    have hpublished := (hpublications filed).finish
    cases hs : s.disk.db.storeObjects cr device inline filed s.clock with
    | error e => exact along_nil.mpr hpublished
    | ok db =>
      obtain ⟨objects, small, leases, rfl, hrows, hkeep, -, -, hleases⟩ := storeObjects_eq_ok hs
      refine along_cons.mpr ⟨hpublished,along_nil.mpr (hstart.stored hkeep ?_ hleases)⟩
      intro k row hrow hstorage
      rcases hrows k row hrow with hold | ⟨bytes, -, rfl⟩ | ⟨bytes, hmem, -, rfl⟩
      · exact h.small k row hold hstorage
      · cases hstorage
      · exact hinline call _ hc (k,bytes) hmem
  | pinned hdb =>
    obtain ⟨leases, hframe, hleases⟩ := pinned_frame s.disk.db _ _ _
    rw [pinObjects_eq_ok hdb, hframe]
    exact hone (hstart.stored (fun _ _ h => h) h.small hleases)
  | maintained =>
    dsimp only
    refine Along.andThen (hone (kept_maintained h _ _ _)) fun h => Along.andThen ?_ fun h => hdrain h
    refine Disk.along_reconcileOrphans (fun d k hd => ?_) (fun d k hd => ?_) h _ _
    · change Kept s (orphanObject d.db k)
      unfold orphanObject
      split_ifs
      · exact hd
      · exact hd.trash
    · change Kept s (orphanChunk d.db k)
      unfold orphanChunk
      split_ifs
      · exact hd
      · exact hd.trash
  | drained => exact hdrain hstart

/-! ### Runs -/

def Event.op : Event → Op
  | .perform op | .crash op _ => op

/-- The clock does not go back. -/
def Onward (s : System) (e : Event) : Prop := s.clock ≤ s.nextClock e.op

lemma clock_exec (s : System) (e : Event) : (s.exec cr e).clock = s.nextClock e.op := by
  cases e <;> rfl

lemma kept_reopened {db : Db} (h : Kept s db) : Kept s db.reopened := by
  have hdb : db.reopened = { db with uploads := db.reopened.uploads } := rfl
  refine h.states hdb (get_reopened db) fun id u _ => ?_
  by_cases hstate : u.state = .finalizing
  · rw [if_pos hstate, hstate]
    refine .inr (.inl ⟨by decide,?_⟩)
    split_ifs <;> decide
  · rw [if_neg hstate]
    exact .inl rfl

theorem kept_exec (h : Tables s.clock s.disk.db) (hclock : 0 ≤ s.clock) (hh : Honest cr s)
    (hinline : Inlined s) (hsound : ∀ id, (s.life id).Sound) (e : Event) : Kept s (s.exec cr e).disk.db := by
  cases e with
  | perform op => exact (kept_along h hclock hh hinline hsound (outcome_cases s op)).finish
  | crash op k => exact kept_reopened (kept_along h hclock hh hinline hsound (outcome_cases s op) k)

/-- The steps of a run in which no chunk is stored under a name that is still in the trash, no
request starts to finish an upload that has a job, and the clock does not go back. -/
structure Orderly (s : System) (e : Event) : Prop where
  clear : Clear s e
  unqueued : Unqueued s e
  onward : Onward s e

theorem Reachable.sound (h : Reachable cr Orderly s) (id : String) : (s.life id).Sound :=
  h.lives (fun _ _ he => he.unqueued) id

theorem Reachable.tables (h : Reachable cr Orderly s) : 0 ≤ s.clock ∧ Tables s.clock s.disk.db := by
  induction h with
  | create =>
    refine ⟨le_refl _,?_⟩
    constructor
    · decide
    all_goals intros; contradiction
  | @step s e h he ih =>
    have hkept : Kept s (s.exec cr e).disk.db := kept_exec ih.2 ih.1 h.honest h.inlined h.sound e
    have hclock : s.clock ≤ (s.exec cr e).clock := (clock_exec s e).symm ▸ he.onward
    exact ⟨ih.1.trans hclock,hkept.toTables.mono hclock⟩

theorem Reachable.kept (h : Reachable cr Orderly s) (e : Event) : Kept s (s.exec cr e).disk.db :=
  kept_exec h.tables.2 h.tables.1 h.honest h.inlined h.sound e

end System
end RisuNest.Transfer
