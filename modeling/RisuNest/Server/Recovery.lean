import RisuNest.Server.Restore

/-! Backup and restoration end to end: what they keep, what they refuse, and what a stop in the
middle leaves. -/
namespace RisuNest.Server
open Wire

/-! ### The library on disk -/

/-- The body of an object, where its row says. -/
def bodyOf (d : Database) (files : Files) (digest : String) : Option (List UInt8) :=
  match d.objectRows.get digest with
  | none => none
  | some row =>
    match row.storage with
    | .inline => d.smallObjects.get digest
    | .file => files.get (objectPath digest)

/-- A data directory that holds a store. -/
structure Contents (d : Database) (files : Files) (s : Store) : Prop where
  tables : d.tables = { s with objects := .empty }
  bodies : ∀ digest, bodyOf d files digest = s.objects.get digest

/-- Every body is present and exact. -/
structure Exact (cr : Crates) (d : Database) (files : Files) : Prop where
  count : d.objectRows.rows.length < 2^64
  body : ∀ digest row, d.objectRows.get digest = some row → ∃ body,
    bodyOf d files digest = some body ∧ body.length = row.size ∧ hash cr body = digest ∧
      (row.storage = .inline → body.length ≤ smallObjectBytes)

/-- The manifest of a complete backup. -/
def manifestOf (cr : Crates) (sq : Sqlite) (d : Database) : BackupManifest :=
  ⟨backupSchema,d.tables.head,hash cr (sq.image d),d.objectRows.rows.length⟩

/-- What a restored directory keeps of a store, and what it starts anew. -/
structure Restored (s : Store) (d : Database) (epoch : String) (files : Files) (db : Database) :
    Prop where
  units : db.tables.units = s.units
  retired : db.tables.retired = s.retired
  unitParents : db.tables.unitParents = s.unitParents
  descriptors : db.tables.descriptors = s.descriptors
  referenceNodes : db.tables.referenceNodes = s.referenceNodes
  referenceChildren : db.tables.referenceChildren = s.referenceChildren
  referenceObjects : db.tables.referenceObjects = s.referenceObjects
  referenceRelations : db.tables.referenceRelations = s.referenceRelations
  objectRows : db.objectRows = d.objectRows
  bodies : ∀ digest, bodyOf db files digest = s.objects.get digest
  libraryId : db.tables.head.libraryId = s.head.libraryId
  seq : db.tables.head.seq = s.head.seq
  epoch : db.tables.head.epoch = epoch
  floor : db.tables.head.minRetainedSeq = s.head.seq
  revoked : ∀ id row, db.tables.devices.get id = some row → row.revoked = true
  journal : db.tables.journal = .empty
  statePins : db.tables.statePins = .empty
  uploads : db.tables.uploads = .empty
  uploadDeltaBases : db.tables.uploadDeltaBases = .empty
  downloadDeltas : db.tables.downloadDeltas = .empty
  downloadDeltaBases : db.tables.downloadDeltaBases = .empty
  objectLeases : db.tables.objectLeases = .empty

section
variable {cr : Crates} {sq : Sqlite} {d : Database} {files : Files} {s : Store} {epoch : String}

lemma restored_of_bodies {restored : Files} (h : Contents d files s)
    (hb : ∀ digest row, d.objectRows.get digest = some row → row.storage = .file →
      restored.get (objectPath digest) = files.get (objectPath digest)) :
    Restored s d epoch restored (rotated cr d epoch) := by
  have ht := h.tables
  constructor
  case bodies =>
    intro digest
    rw [← h.bodies digest]
    unfold bodyOf
    change (match d.objectRows.get digest with | none => none | some row => _) = _
    cases hr : d.objectRows.get digest with
    | none => rfl
    | some row =>
      cases hs : row.storage with
      | inline => simp [hs,rotated]
      | file =>
        simp only [hs]
        exact hb digest row hr hs
  case revoked =>
    intro id row hrow
    change (d.tables.devices.mapValues _).get id = some row at hrow
    rw [Table.get_mapValues] at hrow
    obtain ⟨old,-,rfl⟩ := Option.map_eq_some_iff.mp hrow
    rfl
  all_goals simp [rotated,Store.rotateRestoredEpoch,ht,RemoteHead.genesis]

/-! ### The manifest -/

lemma BackupManifest.read_toControl {m : BackupManifest} (hs : m.head.seq < 2^64)
    (hf : m.head.minRetainedSeq < 2^64) (ho : m.objects < 2^64) :
    BackupManifest.read m.toControl = some m := by
  simp [BackupManifest.read,BackupManifest.toControl,Control.member?,Control.text?,
    readSequence_repr ho,RemoteHead.read_toControl hs hf]

lemma BackupManifest.length_encode_le {m : BackupManifest} (hv : m.head.validate = .ok ())
    (hs : m.head.seq < 2^64) (hf : m.head.minRetainedSeq < 2^64) (ho : m.objects < 2^64)
    (hh : validateHash m.metadataHash = .ok ()) (hsc : m.schema = backupSchema) :
    m.encode.length ≤ maxMetadataBytes := by
  have h1 := RemoteHead.length_write_le hv hs hf
  have h2 := length_writeString_le m.metadataHash
  have h3 := length_writeString_le m.objects.repr
  have h4 := length_of_validateHash hh
  have h5 := length_repr_le ho
  have k1 : (writeString "head").length = 6 := by decide
  have k2 : (writeString "metadataHash").length = 14 := by decide
  have k3 : (writeString "objects").length = 9 := by decide
  have k4 : (writeString "schema").length = 8 := by decide
  have k5 : (writeString m.schema).length = 25 := by rw [hsc]; decide
  have hw : m.toControl.write.length ≤ 5000 := by
    simp only [BackupManifest.toControl,Control.write,Control.writeMembers,List.length_cons,
      List.length_append,List.length_nil,k1,k2,k3,k4,k5]
    omega
  have hu := length_utf8_le m.toControl.write
  change (utf8 m.toControl.write).length ≤ 1024*1024
  omega

/-! ### What a backup writes -/

lemma copied_of_exact (hx : ∀ bytes, validateHash (cr.sha256 bytes) = .ok ())
    (he : Exact cr d files) : ∀ r ∈ orderedRows d, Copied cr d files r := by
  intro r hr
  have hrow := mem_orderedRows.mp hr
  obtain ⟨body,hb,hl,hh,-⟩ := he.body r.1 r.2 hrow
  refine ⟨hh ▸ hx body,?_⟩
  unfold bodyOf at hb
  rw [hrow] at hb
  dsimp only at hb
  cases hs : r.2.storage with
  | inline =>
    rw [hs] at hb
    dsimp only at hb ⊢
    rw [hb,Option.map_some,hl]
  | file =>
    rw [hs] at hb
    exact ⟨body,hb,hl,hh⟩

lemma verifyInline_of_exact (he : Exact cr d files) : verifyInline cr d = .ok () := by
  refine forM_eq_ok.mpr fun r hr => ?_
  have hrow := mem_orderedRows.mp hr
  obtain ⟨body,hb,hl,hh,hsmall⟩ := he.body r.1 r.2 hrow
  unfold verifyRow
  split
  · next hs =>
    have hi : d.smallObjects.get r.1 = some body := by
      unfold bodyOf at hb
      rw [hrow] at hb
      dsimp only at hb
      rwa [hs] at hb
    rw [hi]
    exact bind_eq_ok.mpr ⟨⟨⟩,require_eq_ok.mpr ⟨hsmall hs,hh⟩,require_eq_ok.mpr hl⟩
  · rfl

/-- What a backup writes before its manifest. -/
def bodyWrites (cr : Crates) (sq : Sqlite) (d : Database) (files : Files) : List FileWrite :=
  fileWrites metadataPath (sq.image d) ++ (copyObjects cr d files).writes

lemma backup_writes (cr : Crates) (sq : Sqlite) (d : Database) (files : Files) :
    (backup cr sq d files).writes = bodyWrites cr sq d files ∨
    ∃ m : BackupManifest, (backup cr sq d files).writes =
        bodyWrites cr sq d files ++ fileWrites manifestPath m.encode ∧
      ∀ r ∈ orderedRows d, Copied cr d files r := by
  unfold backup
  rw [Logged.writes_bind_of_ok (a := ⟨⟩) rfl]
  cases hc : (copyObjects cr d files).result with
  | error e =>
    rw [Logged.writes_bind_of_error hc]
    exact .inl rfl
  | ok n =>
    rw [Logged.writes_bind_of_ok hc]
    cases hr : sq.read (sq.image d) with
    | none =>
      rw [Logged.writes_bind_of_error rfl]
      exact .inl (by simp [bodyWrites])
    | some snapshot =>
      rw [Logged.writes_bind_of_ok (a := snapshot) rfl]
      cases hv : verifyInline cr snapshot with
      | error e =>
        rw [Logged.writes_bind_of_error (e := e) rfl]
        exact .inl (by simp [bodyWrites])
      | ok u =>
        rw [Logged.writes_bind_of_ok (a := u) rfl,Logged.writes_bind_of_ok (a := ⟨⟩) rfl]
        refine .inr ⟨⟨backupSchema,d.tables.head,hash cr (sq.image d),n⟩,?_,?_⟩
        · simp [bodyWrites]
        · exact (copyObjects_result.mp hc).2

lemma backup_of_exact (hx : ∀ bytes, validateHash (cr.sha256 bytes) = .ok ())
    (he : Exact cr d files) (hread : sq.read (sq.image d) = some d) :
    (backup cr sq d files).result = .ok (manifestOf cr sq d) ∧
      (backup cr sq d files).writes = bodyWrites cr sq d files ++
        fileWrites manifestPath (manifestOf cr sq d).encode := by
  have hc : (copyObjects cr d files).result = .ok d.objectRows.rows.length :=
    copyObjects_result.mpr ⟨rfl,copied_of_exact hx he⟩
  unfold backup
  constructor
  · simp only [Logged.result_bind,Logged.result_write,Logged.result_check,Logged.result_pure,
      bind_eq_ok]
    refine ⟨⟨⟩,trivial,_,hc,d,?_,⟨⟩,verifyInline_of_exact he,⟨⟩,trivial,?_⟩
    · rw [hread]
    · rfl
  · rw [Logged.writes_bind_of_ok (a := ⟨⟩) rfl,Logged.writes_bind_of_ok hc,
      Logged.writes_bind_of_ok (a := d) (by rw [Logged.result_check,hread]),
      Logged.writes_bind_of_ok (a := ⟨⟩) (verifyInline_of_exact he),
      Logged.writes_bind_of_ok (a := ⟨⟩) rfl]
    simp [bodyWrites,manifestOf]

lemma bodyWrites_ne_manifest : ∀ w ∈ bodyWrites cr sq d files, w.path ≠ manifestPath := by
  intro w hw
  rcases List.mem_append.mp hw with hw | hw
  · rw [path_of_mem_fileWrites hw]
    decide
  · obtain ⟨digest,hd⟩ := copyRows_below w hw
    rw [hd]
    exact objectPath_ne_manifest digest

lemma get_after_bodyWrites (sq : Sqlite) (hc : ∀ r ∈ orderedRows d, Copied cr d files r)
    {path : String} (hp : path ≠ manifestPath) (rest : List FileWrite) (hr : ∀ w ∈ rest, w.path = manifestPath) :
    (Disk.after .empty (bodyWrites cr sq d files ++ rest)).get path =
      if path ∈ filePaths (orderedRows d) then files.get path
      else if path = metadataPath then some (sq.image d) else none := by
  rw [bodyWrites,List.append_assoc,Disk.after,written_append,written_append]
  refine (get_after_of_ne fun w hw he => hp (he.symm.trans (hr w hw))).trans ?_
  refine (get_after_copyRows hc _ path).trans ?_
  by_cases hm : path ∈ filePaths (orderedRows d)
  · rw [if_pos hm,if_pos hm]
  · rw [if_neg hm,if_neg hm]
    exact get_after_fileWrites ..

/-! ### What a restoration accepts -/

/-- What the third-party code does with the texts of a backup and its restoration. -/
structure Faithful (cr : Crates) (sq : Sqlite) (d : Database) (epoch : String) : Prop where
  hashes : ∀ bytes, validateHash (cr.sha256 bytes) = .ok ()
  image : sq.read (sq.image d) = some d
  rotatedImage : sq.read (sq.image (rotated cr d epoch)) = some (rotated cr d epoch)
  json : (cr.readJson (manifestOf cr sq d).encode).bind Json.strict =
    some (manifestOf cr sq d).toControl

/-- The ids of a store, which are drawn at random. -/
structure Named (s : Store) : Prop where
  libraryId : validateId s.head.libraryId = .ok ()
  epoch : validateId s.head.epoch = .ok ()

lemma validate_head {texts : Set (List UInt8)} {sys : System} (h : Reachable cr texts sys)
    (hn : Named sys.store) (hx : ∀ bytes, validateHash (cr.sha256 bytes) = .ok ()) :
    sys.store.head.validate = .ok () := by
  obtain ⟨bytes,hb⟩ := h.openable.headId
  refine bind_eq_ok.mpr ⟨⟨⟩,hn.libraryId,bind_eq_ok.mpr ⟨⟨⟩,hn.epoch,bind_eq_ok.mpr ⟨⟨⟩,?_,?_⟩⟩⟩
  · rw [hb]
    exact hx bytes
  · exact require_eq_ok.mpr h.ledger.floor

lemma mem_filePaths {rows : List (String × ObjectRow)} {path : String} :
    path ∈ filePaths rows ↔ ∃ r ∈ rows, r.2.storage = .file ∧ objectPath r.1 = path := by
  simp [filePaths,and_assoc]

lemma not_mem_filePaths {rows : List (String × ObjectRow)} {path : String}
    (h : ∀ digest, objectPath digest ≠ path) : path ∉ filePaths rows := by
  intro hm
  obtain ⟨r,-,-,hr⟩ := Iff.mp mem_filePaths hm
  exact h r.1 hr

lemma accepts_backup {texts : Set (List UInt8)} {sys : System} (h : Reachable cr texts sys)
    (hd : Contents d files sys.store) (hn : Named sys.store) (hf : Faithful cr sq d epoch)
    (he : Exact cr d files) :
    Accepts cr sq (Disk.after .empty (backup cr sq d files).writes) (manifestOf cr sq d)
      (sq.image d) d := by
  have hc := copied_of_exact hf.hashes he
  have hhead : sys.store.head = (manifestOf cr sq d).head := by rw [manifestOf,hd.tables]
  have hvalid := validate_head h hn hf.hashes
  have hseq := h.openable.seq
  have hfloor := lt_of_le_of_lt h.ledger.floor hseq
  rw [hhead] at hvalid hseq hfloor
  have hget (path : String) (hp : path ≠ manifestPath) :=
    get_after_bodyWrites sq hc hp (fileWrites manifestPath (manifestOf cr sq d).encode)
      fun _ hw => path_of_mem_fileWrites hw
  rw [(backup_of_exact hf.hashes he hf.image).2]
  constructor
  case marked =>
    have hm : (Disk.after .empty (bodyWrites cr sq d files ++
        fileWrites manifestPath (manifestOf cr sq d).encode)).get manifestPath =
        some (manifestOf cr sq d).encode := by
      rw [Disk.after,written_append]
      refine (get_after_fileWrites ..).trans (if_pos rfl)
    have hlen : (manifestOf cr sq d).encode.length ≤ maxMetadataBytes :=
      BackupManifest.length_encode_le hvalid hseq hfloor he.count
        (hf.hashes _) rfl
    have hread : BackupManifest.read (manifestOf cr sq d).toControl = some (manifestOf cr sq d) :=
      BackupManifest.read_toControl hseq hfloor he.count
    unfold readManifest
    refine bind_eq_ok.mpr ⟨_,readFile_eq_ok.mpr hm,?_⟩
    refine bind_eq_ok.mpr ⟨⟨⟩,require_eq_ok.mpr hlen,?_⟩
    refine bind_eq_ok.mpr ⟨manifestOf cr sq d,?_,?_⟩
    · rw [lift_eq_ok]
      unfold decodeControl
      rw [if_neg (by omega),hf.json]
      dsimp only
      rw [hread]
    · refine bind_eq_ok.mpr ⟨⟨⟩,require_eq_ok.mpr rfl,?_⟩
      refine bind_eq_ok.mpr ⟨⟨⟩,lift_eq_ok.mpr hvalid,?_⟩
      exact bind_eq_ok.mpr ⟨⟨⟩,lift_eq_ok.mpr (hf.hashes _),rfl⟩
  case stored =>
    refine (hget _ (by decide)).trans ?_
    rw [if_neg (not_mem_filePaths objectPath_ne_metadata),if_pos rfl]
  case hashed => rfl
  case read => exact hf.image
  case head => rfl
  case objects => rfl
  case copied =>
    intro r hr
    obtain ⟨hv,hs⟩ := hc r hr
    refine ⟨hv,?_⟩
    cases hst : r.2.storage with
    | inline => rwa [hst] at hs
    | file =>
      rw [hst] at hs
      obtain ⟨body,hb,hl⟩ := hs
      refine ⟨body,?_,hl⟩
      refine (hget _ (objectPath_ne_manifest _)).trans ?_
      rw [if_pos (Iff.mpr mem_filePaths ⟨r,hr,hst,rfl⟩),hb]
  case opens =>
    refine openDatabase_eq_ok.mpr ⟨hf.image,?_,hvalid⟩
    obtain ⟨level,hl⟩ := h.openable.storedFormat
    refine ⟨level,?_⟩
    rw [hd.tables]
    exact hl

/-! ### Restored directories -/

lemma openDatabase_rotated {source : Files} {manifest : BackupManifest} {metadata : List UInt8}
    (h : Accepts cr sq source manifest metadata d) (hf : Faithful cr sq d epoch)
    (hv : validateId epoch = .ok ()) :
    openDatabase cr sq (sq.image (rotated cr d epoch)) = .ok (rotated cr d epoch) := by
  obtain ⟨-,hlevel,hhead⟩ := openDatabase_eq_ok.mp h.opens
  obtain ⟨_,hl,-⟩ := bind_eq_ok.mp hhead
  refine openDatabase_eq_ok.mpr ⟨hf.rotatedImage,hlevel,?_⟩
  refine bind_eq_ok.mpr ⟨⟨⟩,hl,bind_eq_ok.mpr ⟨⟨⟩,hv,bind_eq_ok.mpr ⟨⟨⟩,hf.hashes _,?_⟩⟩⟩
  exact require_eq_ok.mpr le_rfl

/-- What is accepted is restored whole. -/
theorem Accepts.restored {source : Files} {manifest : BackupManifest} {metadata : List UInt8}
    (h : Accepts cr sq source manifest metadata d) (hd : Contents d files s)
    (hs : ∀ path ∈ filePaths (orderedRows d), source.get path = files.get path)
    (hf : Faithful cr sq d epoch) (hv : validateId epoch = .ok ()) :
    openStore cr sq (Disk.after .empty (stageBackup cr sq source epoch).writes) =
        .ok (rotated cr d epoch) ∧
      Restored s d epoch (Disk.after .empty (stageBackup cr sq source epoch).writes)
        (rotated cr d epoch) := by
  obtain ⟨-,hget⟩ := h.staged epoch
  constructor
  · unfold openStore
    rw [hget,if_pos rfl]
    exact openDatabase_rotated h hf hv
  · refine restored_of_bodies hd fun digest row hr hst => ?_
    have hm : objectPath digest ∈ filePaths (orderedRows d) :=
      Iff.mpr mem_filePaths ⟨(digest,row),mem_orderedRows.mpr hr,hst,rfl⟩
    rw [hget,if_neg (objectPath_ne_metadata digest),if_pos hm,hs _ hm]

lemma restoreBackup_eq_ok {source restored : Files} {db : Database} :
    restoreBackup cr sq source epoch = .ok (restored,db) ↔
      (∃ staged, (stageBackup cr sq source epoch).result = .ok staged) ∧
        restored = Disk.after .empty (stageBackup cr sq source epoch).writes ∧
        openStore cr sq restored = .ok db := by
  unfold restoreBackup
  cases (stageBackup cr sq source epoch).result with
  | error e => simp
  | ok staged =>
    simp only [bind_eq_ok]
    constructor
    · rintro ⟨db',ho,he⟩
      obtain ⟨rfl,rfl⟩ := Prod.mk.inj (Except.ok.inj he)
      exact ⟨⟨_,rfl⟩,rfl,ho⟩
    · rintro ⟨-,rfl,ho⟩
      exact ⟨db,ho,rfl⟩

/-! ### Interrupted backups -/

lemma writes_of_marked {k : ℕ} {marker : List UInt8}
    (h : (Disk.after .empty ((backup cr sq d files).writes.take k)).get manifestPath =
      some marker) :
    ∃ rest, (backup cr sq d files).writes.take k = bodyWrites cr sq d files ++ rest ∧
      (∀ w ∈ rest, w.path = manifestPath) ∧ ∀ r ∈ orderedRows d, Copied cr d files r := by
  have hearly {n : ℕ} (hw : (backup cr sq d files).writes.take k =
      (bodyWrites cr sq d files).take n) : False := by
    rw [hw,get_after_of_ne fun w hw => bodyWrites_ne_manifest w (List.mem_of_mem_take hw)] at h
    contradiction
  rcases backup_writes cr sq d files with hw | ⟨m,hw,hc⟩
  · exact (hearly (by rw [hw])).elim
  · rw [hw,List.take_append]
    by_cases hk : k ≤ (bodyWrites cr sq d files).length
    · refine (hearly (n := k) ?_).elim
      rw [hw,List.take_append_of_le_length hk]
    · refine ⟨_,by rw [List.take_of_length_le (by omega)],?_,hc⟩
      exact fun w hw => path_of_mem_fileWrites (List.mem_of_mem_take hw)

lemma eq_of_accepts_interrupted (hf : Faithful cr sq d epoch) {k : ℕ} {m : BackupManifest}
    {metadata : List UInt8} {d' : Database} (ha : Accepts cr sq
      (Disk.after .empty ((backup cr sq d files).writes.take k)) m metadata d') :
    d' = d ∧ ∀ path ∈ filePaths (orderedRows d),
      (Disk.after .empty ((backup cr sq d files).writes.take k)).get path = files.get path := by
  obtain ⟨marker,hm,-⟩ := bind_eq_ok.mp ha.marked
  obtain ⟨rest,hw,hr,hc⟩ := writes_of_marked (readFile_eq_ok.mp hm)
  have hget (path : String) (hp : path ≠ manifestPath) :=
    get_after_bodyWrites sq hc hp rest hr
  rw [← hw] at hget
  constructor
  · have hmeta := ha.stored
    rw [hget _ (by decide),if_neg (not_mem_filePaths objectPath_ne_metadata),if_pos rfl] at hmeta
    obtain rfl := Option.some.inj hmeta
    exact Option.some.inj (ha.read.symm.trans hf.image)
  · intro path hp
    obtain ⟨r,-,-,rfl⟩ := Iff.mp mem_filePaths hp
    rw [hget _ (objectPath_ne_manifest _),if_pos hp]

theorem restored_of_interrupted (hd : Contents d files s) (hf : Faithful cr sq d epoch)
    (hv : validateId epoch = .ok ()) {k : ℕ} {restored : Files} {db : Database}
    (h : restoreBackup cr sq (Disk.after .empty ((backup cr sq d files).writes.take k)) epoch =
      .ok (restored,db)) : Restored s d epoch restored db := by
  obtain ⟨⟨staged,hst⟩,rfl,ho⟩ := Iff.mp restoreBackup_eq_ok h
  obtain ⟨manifest,metadata,d',ha,-⟩ := stageBackup_accepts hst
  obtain ⟨rfl,hs⟩ := eq_of_accepts_interrupted hf ha
  obtain ⟨hopen,hres⟩ := ha.restored hd hs hf hv
  rw [hopen] at ho
  obtain rfl := Except.ok.inj ho
  exact hres

/-! ### Changed backups -/

/-- A change of one file. -/
inductive FileChange
  | put (path : String) (bytes : List UInt8)
  | remove (path : String)

def FileChange.path : FileChange → String
  | .put path _ => path
  | .remove path => path

def FileChange.apply (files : Files) : FileChange → Files
  | .put path bytes => files.upsert path bytes
  | .remove path => files.erase path

def FileChange.texts : FileChange → Set (List UInt8)
  | .put _ bytes => {bytes}
  | .remove _ => ∅

/-- A change that alters the bytes of a body, the metadata, or the manifest's head, hash or
count. -/
def Alters (cr : Crates) (d : Database) (m : BackupManifest) (old new : Files) : Prop :=
  (∃ path ∈ filePaths (orderedRows d), new.get path ≠ old.get path) ∨
    new.get metadataPath ≠ old.get metadataPath ∨
    ∀ m', readManifest cr new = .ok m' →
      m'.head ≠ m.head ∨ m'.metadataHash ≠ m.metadataHash ∨ m'.objects ≠ m.objects

lemma FileChange.get_apply_of_ne {c : FileChange} {path : String} (h : path ≠ c.path) :
    (c.apply files).get path = files.get path := by
  cases c with
  | put p bytes => exact (Table.get_upsert ..).trans (if_neg h)
  | remove p => exact (Table.get_erase ..).trans (if_neg h)

lemma FileChange.texts_of_get {c : FileChange} {bytes : List UInt8}
    (h : (c.apply files).get c.path = some bytes) : bytes ∈ c.texts := by
  cases c with
  | put p new =>
    have hg : (files.upsert p new).get p = some new := (Table.get_upsert ..).trans (if_pos rfl)
    exact Option.some.inj (h.symm.trans hg)
  | remove p =>
    have hg : (files.erase p).get p = none := (Table.get_erase ..).trans (if_pos rfl)
    exact nomatch h.symm.trans hg

/-- A change that a restoration accepts altered none of this. -/
theorem unaltered_of_accepts {source : Files} {m m' : BackupManifest}
    {metadata metadata' : List UInt8} {d' : Database} {c : FileChange} {H : Set (List UInt8)}
    (free : CollisionFree cr H)
    (h : Accepts cr sq source m metadata d) (h' : Accepts cr sq (c.apply source) m' metadata' d')
    (hc : c.texts ⊆ H) (hm : metadata ∈ H)
    (hb : ∀ path ∈ filePaths (orderedRows d), ∀ body, source.get path = some body → body ∈ H) :
    ¬ Alters cr d m source (c.apply source) := by
  have hmeta : metadata' = metadata ∧ m'.head = m.head ∧ m'.metadataHash = m.metadataHash ∧
      m'.objects = m.objects := by
    by_cases hp : metadataPath = c.path
    · have hmark : readManifest cr (c.apply source) = readManifest cr source := by
        unfold readManifest readFile
        rw [FileChange.get_apply_of_ne (by rw [← hp]; decide)]
      have he := h'.marked
      rw [hmark,h.marked] at he
      obtain rfl := Except.ok.inj he
      refine ⟨free ?_ hm (h'.hashed.trans h.hashed.symm),rfl,rfl,rfl⟩
      exact hc (FileChange.texts_of_get (hp ▸ h'.stored))
    · have hst := h'.stored
      rw [FileChange.get_apply_of_ne hp,h.stored] at hst
      obtain rfl := Option.some.inj hst
      obtain rfl := Option.some.inj (h.read.symm.trans h'.read)
      exact ⟨rfl,h'.head.symm.trans h.head,h'.hashed.symm.trans h.hashed,
        h'.objects.trans h.objects.symm⟩
  obtain ⟨rfl,hhead,hhash,hcount⟩ := hmeta
  obtain rfl := Option.some.inj (h.read.symm.trans h'.read)
  rintro (⟨path,hp,hne⟩ | hne | hne)
  · obtain ⟨r,hr,hst,rfl⟩ := Iff.mp mem_filePaths hp
    obtain ⟨-,hold⟩ := h.copied r hr
    obtain ⟨-,hnew⟩ := h'.copied r hr
    rw [hst] at hold hnew
    obtain ⟨body,hg,-,hh⟩ := hold
    obtain ⟨body',hg',-,hh'⟩ := hnew
    by_cases hq : objectPath r.1 = c.path
    · have hbody : body' = body :=
        free (hc (FileChange.texts_of_get (hq ▸ hg'))) (hb _ hp body hg) (hh'.trans hh.symm)
      exact hne (by rw [hg',hg,hbody])
    · exact hne (FileChange.get_apply_of_ne hq)
  · exact hne (h'.stored.trans h.stored.symm)
  · rcases hne m' h'.marked with hne | hne | hne
    · exact hne hhead
    · exact hne hhash
    · exact hne hcount

/-! ### Interrupted restorations -/

lemma destination_of_stages (ws : List FileWrite) (st : RestoreState) :
    written RestoreWrite.apply st (ws.map .stage) =
      { st with staged := Disk.after st.staged ws } := by
  induction ws generalizing st with
  | nil => rfl
  | cons w ws ih =>
    rw [List.map_cons,written_cons,ih]
    rfl

lemma destination_of_interrupted {source dest : Files} {k : ℕ}
    (h : (written RestoreWrite.apply ⟨.empty,none⟩
      ((restoreWrites cr sq source epoch).take k)).destination = some dest) :
    (∃ staged, (stageBackup cr sq source epoch).result = .ok staged) ∧
      dest = Disk.after .empty (stageBackup cr sq source epoch).writes := by
  unfold restoreWrites at h
  by_cases hk : k ≤ (stageBackup cr sq source epoch).writes.length
  · rw [List.take_append_of_le_length (by rwa [List.length_map]),← List.map_take,
      destination_of_stages] at h
    contradiction
  · rw [List.take_append,List.take_of_length_le (by rw [List.length_map]; omega),written_append,
      destination_of_stages] at h
    cases hr : (stageBackup cr sq source epoch).result with
    | error e =>
      rw [hr] at h
      change (written RestoreWrite.apply _ (List.take _ [])).destination = _ at h
      rw [List.take_nil] at h
      contradiction
    | ok staged =>
      refine ⟨⟨staged,rfl⟩,?_⟩
      rw [hr] at h
      change (written RestoreWrite.apply _ (List.take _ [.publish])).destination = _ at h
      rw [List.take_of_length_le (by rw [List.length_map,List.length_singleton]; omega)] at h
      exact (Option.some.inj h).symm

lemma not_accepted_of_restored {source : Files} {manifest : BackupManifest}
    {metadata : List UInt8} (h : Accepts cr sq source manifest metadata d) (next : String) :
    ∃ e, restoreBackup cr sq (Disk.after .empty (stageBackup cr sq source epoch).writes) next =
      .error e := by
  have hm : (Disk.after .empty (stageBackup cr sq source epoch).writes).get manifestPath =
      none := by
    rw [(h.staged epoch).2,if_neg (by decide),if_neg (not_mem_filePaths objectPath_ne_manifest)]
  cases hr : restoreBackup cr sq (Disk.after .empty (stageBackup cr sq source epoch).writes)
      next with
  | error e => exact ⟨e,rfl⟩
  | ok r =>
    obtain ⟨⟨staged,hst⟩,-⟩ := Iff.mp restoreBackup_eq_ok hr
    obtain ⟨_,_,_,ha,-⟩ := stageBackup_accepts hst
    obtain ⟨marker,hmark,-⟩ := bind_eq_ok.mp ha.marked
    rw [readFile_eq_ok,hm] at hmark
    contradiction

/-- A complete backup is restored whole, a changed one is refused, and an interruption of either
leaves nothing that is restored, or opened after a restoration, with less. -/
theorem backup_restores {texts H : Set (List UInt8)} {sys : System} (h : Reachable cr texts sys)
    (hd : Contents d files sys.store) (hn : Named sys.store) (hf : Faithful cr sq d epoch)
    (hv : validateId epoch = .ok ()) (free : CollisionFree cr H) (himage : sq.image d ∈ H)
    (hbodies : ∀ digest body, sys.store.objects.get digest = some body → body ∈ H) :
    (Exact cr d files →
      (∃ m, (backup cr sq d files).result = .ok m ∧
        ∃ restored db, restoreBackup cr sq (Disk.after .empty (backup cr sq d files).writes) epoch =
          .ok (restored,db) ∧ Restored sys.store d epoch restored db) ∧
      ∀ (c : FileChange) (next : String), c.texts ⊆ H →
        Alters cr d (manifestOf cr sq d) (Disk.after .empty (backup cr sq d files).writes)
          (c.apply (Disk.after .empty (backup cr sq d files).writes)) →
        ∃ e, restoreBackup cr sq (c.apply (Disk.after .empty (backup cr sq d files).writes)) next =
          .error e) ∧
    (∀ k restored db,
      restoreBackup cr sq (Disk.after .empty ((backup cr sq d files).writes.take k)) epoch =
        .ok (restored,db) → Restored sys.store d epoch restored db) ∧
    ∀ j k dest, (written RestoreWrite.apply ⟨.empty,none⟩ ((restoreWrites cr sq
        (Disk.after .empty ((backup cr sq d files).writes.take j)) epoch).take k)).destination =
          some dest →
      (∃ db, openStore cr sq dest = .ok db ∧ Restored sys.store d epoch dest db) ∧
        ∀ next, ∃ e, restoreBackup cr sq dest next = .error e := by
  refine ⟨fun he => ?_,fun k restored db => restored_of_interrupted hd hf hv,?_⟩
  · have ha := accepts_backup h hd hn hf he
    have hs : ∀ path ∈ filePaths (orderedRows d),
        (Disk.after .empty (backup cr sq d files).writes).get path = files.get path := by
      intro path hp
      obtain ⟨r,-,-,rfl⟩ := Iff.mp mem_filePaths hp
      rw [(backup_of_exact hf.hashes he hf.image).2,get_after_bodyWrites sq
        (copied_of_exact hf.hashes he) (objectPath_ne_manifest _) _
        fun _ hw => path_of_mem_fileWrites hw,if_pos hp]
    constructor
    · obtain ⟨hopen,hres⟩ := ha.restored hd hs hf hv
      refine ⟨_,(backup_of_exact hf.hashes he hf.image).1,_,_,?_,hres⟩
      exact Iff.mpr restoreBackup_eq_ok ⟨⟨_,(ha.staged epoch).1⟩,rfl,hopen⟩
    · intro c next hc halter
      cases hr : restoreBackup cr sq (c.apply (Disk.after .empty (backup cr sq d files).writes))
          next with
      | error e => exact ⟨e,rfl⟩
      | ok r =>
        obtain ⟨⟨staged,hst⟩,-⟩ := Iff.mp restoreBackup_eq_ok hr
        obtain ⟨m',metadata',d',ha',-⟩ := stageBackup_accepts hst
        refine absurd halter (unaltered_of_accepts free ha ha' hc himage ?_)
        intro path hp body hb
        rw [hs path hp] at hb
        obtain ⟨r,hr,hst,rfl⟩ := Iff.mp mem_filePaths hp
        refine hbodies r.1 body ?_
        rw [← hd.bodies,bodyOf,mem_orderedRows.mp hr]
        dsimp only
        rw [hst]
        exact hb
  · intro j k dest hdest
    obtain ⟨⟨staged,hst⟩,rfl⟩ := destination_of_interrupted hdest
    obtain ⟨manifest,metadata,d',ha,-⟩ := stageBackup_accepts hst
    obtain ⟨rfl,hs⟩ := eq_of_accepts_interrupted hf ha
    exact ⟨⟨_,ha.restored hd hs hf hv⟩,not_accepted_of_restored ha⟩

end

/-! ### A sample backup -/

def sampleBody : List UInt8 := [97,98,99]

def sampleDigest : String := "ba7816bf8f01cfea414140de5dae2223b00361a396177a9cb410ff61f20015ad"

def sampleHead : RemoteHead :=
  ⟨"library","epoch",0,"28d155fb4f569bee695e5dac56bb542f2fb624abdb08dc2686703023ebf31a74",0⟩

def sampleManifest : BackupManifest :=
  ⟨backupSchema,sampleHead,"6e340b9cffb37a989ca544e6bb780a2c78901d3fb33738768511a30617afa01d",1⟩

/-- The hashes of the body, of the first database and of the two first heads. -/
def recoveryHashes : List (List UInt8 × String) :=
  [(sampleBody,sampleDigest),
    ([0],sampleManifest.metadataHash),
    ((Control.strings ["risunest-sync-genesis-v1","library","epoch"]).encode,sampleHead.headId),
    ((Control.strings ["risunest-sync-genesis-v1","library","restored"]).encode,
      "115b0e074dda6a3fd68bd52686964e951af859e99aea1a443d732c4bd362f184")]

def sampleManifestJson : Json :=
  .obj [("head",.obj [("epoch",.str sampleHead.epoch),("headId",.str sampleHead.headId),
      ("libraryId",.str "library"),("minRetainedSeq",.str "0"),("seq",.str "0")]),
    ("metadataHash",.str sampleManifest.metadataHash),("objects",.str "1"),
    ("schema",.str backupSchema)]

def recoveryCrates : Crates :=
  { tabulated recoveryHashes [] [] with
    sha256 := fun b => ((recoveryHashes.find? fun e => e.1 = b).map Prod.snd).getD sampleDigest
    readJson := fun b => if b = sampleManifest.encode then some sampleManifestJson else none }

/-- The sample library with one body. -/
def sampleStored : System :=
  System.run recoveryCrates ⟨sampleLibrary recoveryCrates,none⟩
    [.putObject sampleDevice sampleDigest sampleBody 0]

/-- The body came with an upload, which makes it a file. -/
def sampleDatabase : Database where
  tables := { sampleStored.store with objects := .empty }
  objectRows := Table.empty.upsert sampleDigest ⟨3,.file⟩
  smallObjects := .empty

def sampleFiles : Files := Table.empty.upsert (objectPath sampleDigest) sampleBody

/-- The two databases of the sample, one byte each. -/
def sampleSqlite : Sqlite where
  image := fun d => if d.tables.head.epoch = "epoch" then [0] else [1]
  read := fun b =>
    if b = [0] then some sampleDatabase
    else if b = [1] then some (rotated recoveryCrates sampleDatabase "restored") else none

lemma reachable_sampleStored : Reachable recoveryCrates ∅ sampleStored := by
  refine Reachable.run reachable_sampleLibrary fun o ho => ?_
  obtain rfl := List.mem_singleton.mp ho
  exact Set.empty_subset _

lemma objects_sampleStored (digest : String) : sampleStored.store.objects.get digest =
    if digest = sampleDigest then some sampleBody else none := by
  have h : sampleStored.store.objects.rows = [(sampleDigest,sampleBody)] := by decide
  rw [Table.get,h]
  by_cases hd : digest = sampleDigest
  · rw [if_pos hd,hd]
    rfl
  · rw [if_neg hd]
    exact if_neg (Ne.symm hd)

lemma contents_sample : Contents sampleDatabase sampleFiles sampleStored.store := by
  refine ⟨rfl,fun digest => ?_⟩
  rw [objects_sampleStored]
  unfold bodyOf sampleDatabase
  dsimp only
  rw [Table.get_upsert]
  by_cases hd : digest = sampleDigest
  · subst digest
    rw [if_pos rfl,if_pos rfl]
    exact (Table.get_upsert ..).trans (if_pos rfl)
  · rw [if_neg hd,if_neg hd]
    rfl

lemma validateHash_recovery (bytes : List UInt8) :
    validateHash (recoveryCrates.sha256 bytes) = .ok () := by
  have hall : ∀ digest ∈ recoveryHashes.map Prod.snd, validateHash digest = .ok () := by
    decide
  refine hall _ ?_
  unfold recoveryCrates
  dsimp only
  cases hf : recoveryHashes.find? fun e => e.1 = bytes with
  | none => exact List.mem_cons_self
  | some e => exact List.mem_map_of_mem (List.mem_of_find?_eq_some hf)

lemma faithful_sample : Faithful recoveryCrates sampleSqlite sampleDatabase "restored" := by
  have hm : manifestOf recoveryCrates sampleSqlite sampleDatabase = sampleManifest := by
    decide
  refine ⟨validateHash_recovery,rfl,rfl,?_⟩
  rw [hm]
  have hr (b : List UInt8) (hb : b = sampleManifest.encode) :
      recoveryCrates.readJson b = some sampleManifestJson := if_pos hb
  rw [hr _ rfl]
  rfl

lemma exact_sample : Exact recoveryCrates sampleDatabase sampleFiles := by
  refine ⟨Nat.one_lt_two_pow (by decide),fun digest row hr => ?_⟩
  have hrow : (if digest = sampleDigest then some (ObjectRow.mk 3 .file) else none) = some row :=
    (Table.get_upsert ..).symm.trans hr
  by_cases hd : digest = sampleDigest
  · rw [if_pos hd] at hrow
    obtain rfl := Option.some.inj hrow
    subst digest
    refine ⟨sampleBody,?_,rfl,by decide,nofun⟩
    rw [contents_sample.bodies,objects_sampleStored,if_pos rfl]
  · rw [if_neg hd] at hrow
    contradiction

lemma named_sample : Named sampleStored.store := by
  have hh : ((sampleLibrary recoveryCrates).putObject recoveryCrates sampleDevice sampleDigest
      sampleBody 0).2.head = (sampleLibrary recoveryCrates).head := (Store.putObject_quiet ..).head
  change Named ((sampleLibrary recoveryCrates).putObject recoveryCrates sampleDevice sampleDigest
    sampleBody 0).2
  constructor <;> rw [hh] <;> decide

theorem backup_restores_sample :
    ∃ m, (backup recoveryCrates sampleSqlite sampleDatabase sampleFiles).result = .ok m ∧
      ∃ restored db, restoreBackup recoveryCrates sampleSqlite (Disk.after .empty
          (backup recoveryCrates sampleSqlite sampleDatabase sampleFiles).writes) "restored" =
            .ok (restored,db) ∧
        Restored sampleStored.store sampleDatabase "restored" restored db := by
  have free : CollisionFree recoveryCrates {[0],sampleBody} := by
    have hne : recoveryCrates.sha256 [0] ≠ recoveryCrates.sha256 sampleBody := by decide
    rintro a (rfl | rfl) b (rfl | rfl) h
    · rfl
    · exact absurd h hne
    · exact absurd h.symm hne
    · rfl
  refine ((backup_restores reachable_sampleStored contents_sample named_sample faithful_sample
    (by decide) free (.inl rfl) fun digest body hb => ?_).1 exact_sample).1
  rw [objects_sampleStored] at hb
  split_ifs at hb
  exact .inr (Option.some.inj hb).symm

/-- A backup that stopped once its metadata was written opens as a store whose body is missing. -/
theorem stopped_backup_opens : Reachable recoveryCrates ∅ sampleStored ∧
    Contents sampleDatabase sampleFiles sampleStored.store ∧
    Exact recoveryCrates sampleDatabase sampleFiles ∧
    Faithful recoveryCrates sampleSqlite sampleDatabase "restored" ∧
    ∃ k db, openStore recoveryCrates sampleSqlite (Disk.after .empty
        ((backup recoveryCrates sampleSqlite sampleDatabase sampleFiles).writes.take k)) = .ok db ∧
      sampleStored.store.objects.get sampleDigest = some sampleBody ∧
      bodyOf db (Disk.after .empty ((backup recoveryCrates sampleSqlite sampleDatabase
        sampleFiles).writes.take k)) sampleDigest = none := by
  have hw : (backup recoveryCrates sampleSqlite sampleDatabase sampleFiles).writes.take 2 =
      fileWrites metadataPath [0] := by
    rcases backup_writes recoveryCrates sampleSqlite sampleDatabase sampleFiles with h | ⟨m,h,-⟩
    · rw [h]
      rfl
    · rw [h]
      rfl
  refine ⟨reachable_sampleStored,contents_sample,exact_sample,faithful_sample,2,sampleDatabase,?_⟩
  rw [hw]
  refine ⟨?_,by rw [objects_sampleStored,if_pos rfl],?_⟩
  · unfold openStore
    rw [get_after_fileWrites,if_pos rfl]
    refine openDatabase_eq_ok.mpr ⟨rfl,⟨1,rfl⟩,?_⟩
    exact validate_head reachable_sampleStored named_sample validateHash_recovery
  · have hrow : sampleDatabase.objectRows.get sampleDigest = some ⟨3,.file⟩ :=
      (Table.get_upsert ..).trans (if_pos rfl)
    rw [bodyOf,hrow]
    exact (get_after_fileWrites ..).trans (if_neg (objectPath_ne_metadata _))

end RisuNest.Server
