import RisuNest.Lib.Sections
import RisuNest.Server.Store
import RisuNest.Transfer.Recipe

/-! The transfer side of the server's store: bodies, uploads and their jobs, with the files they
live in (`uploads.rs`, `upload_jobs.rs`, `stream_transfers.rs`, `objects.rs`, `maintenance.rs`). -/
namespace RisuNest.Transfer
open Wire Server

def uploadChunkBytes : ℕ := 1024*1024
def maxUploadBytes : ℕ := 1024*1024*1024*1024
def smallObjectBytes : ℕ := 64*1024
def maxTargetBytes : ℕ := 16*1024*1024
def pageSize : ℕ := 1024

def divCeil (a b : ℕ) : ℕ := (a + b - 1)/b

/-- `From<std::io::Error> for Error` -/
def storageIo : Error := .new "storage-io" 503

/-- `From<rusqlite::Error> for Error` -/
def metadataStorage : Error := .new "metadata-storage" 503

inductive UploadState
  | opened
  | queued
  | finalizing
  | complete
  | failed
  deriving DecidableEq, Repr

structure Upload where
  device : String
  hash : String
  size : ℕ
  expires : ℤ
  state : UploadState
  deriving DecidableEq, Repr

structure Job where
  retryAfter : ℤ
  terminal : Bool
  error : Option String
  attempts : ℕ
  deriving DecidableEq, Repr

structure Chunk where
  hash : String
  size : ℕ
  deriving DecidableEq, Repr

inductive Storage
  | file
  | inline
  deriving DecidableEq, Repr

structure ObjectRow where
  size : ℕ
  storage : Storage
  deriving DecidableEq, Repr

/-- The tables of transfers. The rows of the trash tables are numbered, lowest first. -/
structure Db where
  /-- `stored_format` -/
  formatLevel : ℕ
  /-- Whether a device has been revoked. -/
  devices : Table String Bool
  objects : Table String ObjectRow
  smallObjects : Table String Bytes
  objectLeases : Table (String × String) ℤ
  objectTrash : Table String ℕ
  uploads : Table String Upload
  uploadJobs : Table String Job
  uploadDeltas : Table String Bytes
  uploadDeltaBases : Table (String × String) Unit
  uploadChunks : Table (String × ℕ) Chunk
  stagingTrash : Table (String × ℕ) ℕ

/-- What survives a crash: the chunk files, the published files and the database. -/
structure Disk where
  staging : Table (String × ℕ) Bytes
  published : Table String Bytes
  db : Db

/-- A durable step: one file operation, or one committed statement or transaction. -/
inductive Write
  | publishChunk (id : String) (index : ℕ) (bytes : Bytes)
  | removeChunk (id : String) (index : ℕ)
  | publishObject (digest : String) (bytes : Bytes)
  | removeObject (digest : String)
  | commit (db : Db)

namespace Disk

def apply (d : Disk) : Write → Disk
  | .publishChunk id index bytes => { d with staging := d.staging.upsert (id,index) bytes }
  | .removeChunk id index => { d with staging := d.staging.erase (id,index) }
  | .publishObject digest bytes => { d with published := d.published.upsert digest bytes }
  | .removeObject digest => { d with published := d.published.erase digest }
  | .commit db => { d with db := db }

end Disk

namespace Db

def requireDevice (db : Db) (device : Device) : Answer Unit := do
  require (db.devices.get device.id = some false) (.new "unauthorized" 401)
  admitFormat db.formatLevel device.formatLevel

def uploadRow (db : Db) (device : Device) (id : String) (now : ℤ) : Answer Upload := do
  lift (validateId id)
  db.requireDevice device
  match db.uploads.get id with
  | some upload =>
    require (upload.device = device.id) (.new "upload-not-found" 404)
    require (now < upload.expires) (.new "upload-expired" 410)
    pure upload
  | none => .error (.new "upload-not-found" 404)

def setState (db : Db) (id : String) (state : UploadState) : Db :=
  { db with
    uploads := db.uploads.mapValues fun id' upload =>
      if id' = id then { upload with state := state } else upload }

/-- `UPDATE uploads SET state=.. WHERE id=.. AND state=..` -/
def moveState (db : Db) (id : String) (old new : UploadState) : Db :=
  { db with
    uploads := db.uploads.mapValues fun id' upload =>
      if id' = id ∧ upload.state = old then { upload with state := new } else upload }

/-- `DELETE FROM uploads`, with the rows that refer to them. -/
def deleteUploads (db : Db) (p : String → Upload → Bool) : Db :=
  let gone (id : String) := (db.uploads.get id).any (p id)
  { db with
    uploads := db.uploads.deleteWhere p
    uploadJobs := db.uploadJobs.deleteWhere fun id _ => gone id
    uploadDeltas := db.uploadDeltas.deleteWhere fun id _ => gone id
    uploadDeltaBases := db.uploadDeltaBases.deleteWhere fun k _ => gone k.1
    uploadChunks := db.uploadChunks.deleteWhere fun k _ => gone k.1 }

/-- The number of the next row of a table. -/
def nextRow {κ : Type} [DecidableEq κ] (t : Table κ ℕ) : ℕ :=
  (t.rows.map Prod.snd).foldl max 0 + 1

/-- `INSERT OR IGNORE` into a trash table. -/
def discard {κ : Type} [DecidableEq κ] (t : Table κ ℕ) (k : κ) : Table κ ℕ :=
  t.insertOrIgnore k (nextRow t)

def leaseObject (db : Db) (device : Device) (digest : String) (now : ℤ) : Db :=
  { db with objectLeases := db.objectLeases.upsert (device.id,digest) (now + 86400) }

/-! ### Uploads -/

structure Manifest where
  hash : String
  size : ℕ

def unfinished (upload : Upload) : Bool :=
  decide (upload.state ∈ [UploadState.opened,.queued,.finalizing])

/-- `begin_upload` under a fresh id. -/
def beginUpload (db : Db) (device : Device) (manifest : Manifest) (id : String) (now : ℤ) :
    Answer Db := do
  lift (validateHash manifest.hash)
  require (manifest.size ≤ maxUploadBytes) (.new "object-too-large" 413)
  db.requireDevice device
  let held := db.uploads.rows.filter fun r =>
    decide (r.2.device = device.id) && unfinished r.2 && decide (now < r.2.expires)
  require (held.length < 16 ∧ (held.map fun r => r.2.size).sum + manifest.size ≤ maxUploadBytes)
    (.new "upload-quota" 429)
  require (db.uploads.get id = none) metadataStorage
  pure { db with
    uploads := db.uploads.insertOrIgnore id
      ⟨device.id,manifest.hash,manifest.size,now + 86400,.opened⟩ }

/-- The part of `put_upload_chunk` before its gate. -/
def checkChunk (cr : Crates) (db : Db) (device : Device) (id : String) (index : ℕ) (digest : String)
    (bytes : Bytes) (now : ℤ) : Answer Unit := do
  lift (validateHash digest)
  let upload ← db.uploadRow device id now
  require (upload.state = .opened) (.new "upload-not-open" 409)
  require (index*uploadChunkBytes < upload.size) (.new "invalid-chunk-offset" 400)
  require (bytes.length = min (upload.size - index*uploadChunkBytes) uploadChunkBytes ∧
    hash cr bytes = digest) (.new "chunk-mismatch" 400)

/-- The part of `put_upload_chunk` behind its gate. -/
def publishChunk (db : Db) (device : Device) (id : String) (index : ℕ) (digest : String)
    (bytes : Bytes) (now : ℤ) : Answer (List Write) := do
  let upload ← db.uploadRow device id now
  require (upload.state = .opened) (.new "upload-not-open" 409)
  match db.uploadChunks.get (id,index) with
  | some prior =>
    require (prior.hash = digest) (.new "chunk-intent-conflict" 409)
    pure []
  | none =>
    pure [.publishChunk id index bytes,
      .commit { db with
        uploadChunks := db.uploadChunks.insertOrIgnore (id,index) ⟨digest,bytes.length⟩ }]

/-- `SELECT count(*) FROM upload_chunks WHERE upload=..` -/
def chunkCount (db : Db) (id : String) : ℕ :=
  (db.uploadChunks.rows.filter fun r => decide (r.1.1 = id)).length

/-- What the first transaction of `finish_upload` comes to. -/
inductive Started
  | complete (digest : String)
  | finalizing (digest : String) (size : ℕ) (db : Db)

/-- The first transaction of `finish_upload`. -/
def startFinish (db : Db) (device : Device) (id : String) (now : ℤ) : Answer Started := do
  let upload ← db.uploadRow device id now
  if upload.state = .complete then pure (.complete upload.hash)
  else do
    require (upload.state = .opened ∨ upload.state = .queued) (.new "upload-not-open" 409)
    require (db.uploadDeltas.contains id = true ∨
      db.chunkCount id = divCeil upload.size uploadChunkBytes) (.new "upload-incomplete" 409)
    pure (.finalizing upload.hash upload.size (db.setState id .finalizing))

def placement (db : Db) (digest : String) : Answer (Option ObjectRow) := do
  lift (validateHash digest)
  pure (db.objects.get digest)

def insertBatch (cr : Crates) (db : Db) : List (String × Bytes) → Answer Db
  | [] => .ok db
  | (digest,bytes) :: rest => do
    require (validateHash digest = .ok () ∧ hash cr bytes = digest) (.new "corrupt-object" 503)
    match db.smallObjects.get digest with
    | some stored =>
      require (stored = bytes) (.new "corrupt-object" 503)
      insertBatch cr db rest
    | none =>
      insertBatch cr { db with smallObjects := db.smallObjects.insertOrIgnore digest bytes } rest

/-- A body that is filed in the database is restored there. -/
def fill (cr : Crates) (db : Db) (inline : Bool) (digest : String) (bytes : Bytes) : Answer Db :=
  if inline then db.insertBatch cr [(digest,bytes)] else .ok db

/-- The gated part of `finish_upload`: the body is published and the upload completed. -/
def publishUpload (cr : Crates) (db : Db) (device : Device) (id digest : String) (size : ℕ)
    (bytes : Bytes) (now : ℤ) : Answer (List Write) := do
  let _ ← db.uploadRow device id now
  let placed ← db.placement digest
  require (∀ row ∈ placed, row.size = size) (.new "corrupt-object" 503)
  let inline := placed.any fun row => decide (row.storage = .inline)
  let filled ← db.fill cr inline digest bytes
  let completed := { filled with
    objects := filled.objects.insertOrIgnore digest ⟨size,.file⟩ }
  let completed := (completed.setState id .complete).leaseObject device digest now
  pure ((if inline then [] else [.publishObject digest bytes]) ++ [.commit completed])

/-- The chunks of an upload, moved to the trash. -/
def discardChunks (db : Db) (p : String × ℕ → Bool) : Table (String × ℕ) ℕ :=
  ((db.uploadChunks.rows.map Prod.fst).filter p).foldl discard db.stagingTrash

/-- The transaction of `cancel_upload`. -/
def cancelled (db : Db) (device : Device) (id : String) (now : ℤ) : Answer Db := do
  let upload ← db.uploadRow device id now
  require (upload.state ≠ .finalizing) (.new "upload-not-open" 409)
  let db := { db with stagingTrash := db.discardChunks fun k => decide (k.1 = id) }
  pure (db.deleteUploads fun id' row => decide (id' = id ∧ row.device = device.id))

/-! ### Jobs -/

/-- What the transaction of `submit_upload` comes to. -/
inductive Submitted
  | complete (digest : String)
  | accepted (db : Db)
  | finish

/-- `submit_upload`. A small upload is finished by the request itself. -/
def submitUpload (db : Db) (device : Device) (id : String) (now : ℤ) : Answer Submitted := do
  let upload ← db.uploadRow device id now
  if upload.state = .complete then pure (.complete upload.hash)
  else do
    require (upload.state ≠ .failed) (.new "upload-finalization-failed" 409)
    if db.uploadDeltas.contains id = true then pure (.accepted db)
    else if upload.size < 64*1024*1024 then pure .finish
    else do
      require (db.chunkCount id = divCeil upload.size uploadChunkBytes)
        (.new "upload-incomplete" 409)
      let db := { db with uploadJobs := db.uploadJobs.insertOrIgnore id ⟨0,false,none,0⟩ }
      pure (.accepted (db.moveState id .opened .queued))

/-- The bases of a recipe that is attached, under their sizes. -/
def attachBases (db : Db) (id : String) : List Base → Answer Db
  | [] => .ok db
  | base :: rest => do
    require ((db.objects.get base.hash).map ObjectRow.size = some base.size)
      (.new "delta-base-missing" 404)
    require (db.uploadDeltaBases.get (id,base.hash) = none) metadataStorage
    attachBases { db with
      uploadDeltaBases := db.uploadDeltaBases.insertOrIgnore (id,base.hash) () } id rest

def attachUploadDelta (db : Db) (device : Device) (id : String) (bytes : Bytes) (now : ℤ) :
    Answer Db := do
  let recipe ← lift (Recipe.decode bytes)
  let upload ← db.uploadRow device id now
  require (upload.hash = recipe.targetHash ∧ upload.size = recipe.targetSize)
    (.new "upload-manifest-mismatch" 409)
  match db.uploadDeltas.get id with
  | some prior =>
    require (prior = bytes) (.new "upload-intent-conflict" 409)
    pure db
  | none => do
    require (upload.state = .opened) (.new "upload-not-open" 409)
    require (db.chunkCount id = 0) (.new "upload-intent-conflict" 409)
    require ((db.uploadDeltas.rows.map fun r => r.2.length).sum + bytes.length ≤ 64*1024*1024)
      (.new "delta-cache-quota" 429)
    let db ← db.attachBases id recipe.bases
    require (db.uploadJobs.get id = none) metadataStorage
    let db := { db with
      uploadDeltas := db.uploadDeltas.insertOrIgnore id bytes
      uploadJobs := db.uploadJobs.insertOrIgnore id ⟨0,false,none,0⟩ }
    pure (db.setState id .queued)

/-- `ORDER BY retry_after,rowid LIMIT 1` -/
def earliest : List (String × Job) → Option (String × Job)
  | [] => none
  | job :: rest =>
    match earliest rest with
    | none => some job
    | some other => if job.2.retryAfter ≤ other.2.retryAfter then some job else some other

/-- The job `run_pending_upload` takes: the first that is due. -/
def pendingJob (db : Db) (now : ℤ) : Option (String × String) := do
  let due := db.uploadJobs.rows.filter fun r =>
    !r.2.terminal && decide (r.2.retryAfter ≤ now) && db.uploads.contains r.1
  let job ← earliest due
  let upload ← db.uploads.get job.1
  pure (job.1,upload.device)

/-- What `run_pending_upload` records of the outcome of its job. -/
def settleJob (db : Db) (id : String) (outcome : Option Error) (now : ℤ) : Db :=
  match outcome with
  | none => { db with uploadJobs := db.uploadJobs.erase id }
  | some error =>
    let terminal := decide (error.status < 500)
    let failed := { db with
      uploadJobs := db.uploadJobs.mapValues fun id' job =>
        if id' = id then
          ⟨now + min (2^(min job.attempts 9)) 300,terminal,some error.code,job.attempts + 1⟩
        else job }
    failed.setState id (if terminal then .failed else .queued)

/-- What `open_inner` makes of the uploads that were being finished. -/
def reopened (db : Db) : Db :=
  { db with
    uploads := db.uploads.mapValues fun id upload =>
      if upload.state = .finalizing then
        { upload with state := if db.uploadJobs.contains id then .queued else .opened }
      else upload }

/-! ### Bodies -/

/-- The checks of `put_objects`. -/
def checkObjects (cr : Crates) (db : Db) (device : Device) (objects : List (String × Bytes)) :
    Answer Unit := do
  db.requireDevice device
  objects.forM fun o => do
    lift (validateHash o.1)
    require (o.2.length ≤ maxTargetBytes ∧ hash cr o.2 = o.1) (.new "hash-mismatch" 400)

/-- The bodies of `put_inline` that the database does not hold yet. -/
def freshInline (db : Db) : List (String × Bytes) → Answer (List (String × Bytes))
  | [] => .ok []
  | (digest,bytes) :: rest => do
    let placed ← db.placement digest
    require (∀ row ∈ placed, row.size = bytes.length) (.new "corrupt-object" 503)
    let fresh ← freshInline db rest
    if placed.any fun row => decide (row.storage = .file) then pure fresh
    else pure ((digest,bytes) :: fresh)

def insertObjects (db : Db) (storage : Storage) (objects : List (String × Bytes)) : Db :=
  { db with
    objects := objects.foldl (fun t o => t.insertOrIgnore o.1 ⟨o.2.length,storage⟩) db.objects }

def leaseObjects (db : Db) (device : Device) (objects : List (String × Bytes)) (now : ℤ) : Db :=
  objects.foldl (fun db o => db.leaseObject device o.1 now) db

def putInline (cr : Crates) (db : Db) (device : Device) (objects : List (String × Bytes))
    (now : ℤ) : Answer Db := do
  let fresh ← db.freshInline objects
  let filled ← db.insertBatch cr fresh
  pure ((filled.insertObjects .inline fresh).leaseObjects device objects now)

/-- The transaction of `put_hashed_objects`. -/
def storeObjects (cr : Crates) (db : Db) (device : Device) (inline filed : List (String × Bytes))
    (now : ℤ) : Answer Db := do
  db.requireDevice device
  ((db.insertObjects .file filed).leaseObjects device filed now).putInline cr device inline now

def pinObjects (db : Db) (device : Device) (hashes : List String) (now : ℤ) : Answer Db := do
  require (hashes.length ≤ 1024) (.new "too-many-candidates" 400)
  db.requireDevice device
  hashes.forM fun digest => do
    lift (validateHash digest)
    require (db.objects.contains digest = true) (.new "object-not-found" 404)
  pure (hashes.foldl (fun db digest => db.leaseObject device digest now) db)

/-! ### Maintenance -/

/-- Whether a row of this device with this expiry has run out. -/
def lapsed (db : Db) (current : ℤ) (device : String) (expires : ℤ) : Bool :=
  decide (expires ≤ current) || decide (db.devices.get device = some true)

/-- The uploads a pass drops. -/
def dropped (db : Db) (current : ℤ) (upload : Upload) : Bool :=
  decide (upload.state ≠ .finalizing) && db.lapsed current upload.device upload.expires

/-- The statements of a pass on uploads. -/
def expireUploads (db : Db) (current : ℤ) : Db :=
  let done (id : String) := (db.uploads.get id).any fun u => decide (u.state = .complete)
  let trash := db.discardChunks fun k => (db.uploads.get k.1).any fun u =>
    decide (u.state ≠ .finalizing) &&
      (decide (u.state = .complete) || db.lapsed current u.device u.expires)
  let swept := { db with
    uploadDeltas := db.uploadDeltas.deleteWhere fun id _ => done id
    uploadDeltaBases := db.uploadDeltaBases.deleteWhere fun k _ => done k.1
    stagingTrash := trash
    uploadChunks := db.uploadChunks.deleteWhere fun k _ => trash.contains k }
  swept.deleteUploads fun _ u => db.dropped current u

/-- The leases that have run out, and the revoked devices nothing refers to. The other tables
refer to the devices in `held`. -/
def expireLeases (db : Db) (current : ℤ) (held : List String) : Db :=
  let leases := db.objectLeases.deleteWhere fun k expires => db.lapsed current k.1 expires
  { db with
    objectLeases := leases
    devices := db.devices.deleteWhere fun id revoked => revoked && !leases.any (fun k _ => k.1 = id) &&
      !db.uploads.any (fun _ u => u.device = id) && !decide (id ∈ held) }

/-- Whether transfers alone keep an object. -/
def rooted (db : Db) (clock : ℤ) (digest : String) : Bool :=
  db.objectLeases.any (fun k _ => k.2 = digest) ||
    db.uploads.any (fun _ u => u.hash = digest && decide (clock < u.expires)) ||
    db.uploadDeltaBases.any fun k _ => k.2 = digest

/-- The collection of objects. The other tables keep the objects in `alive`. -/
def collect (db : Db) (clock : ℤ) (alive : List String) : Db :=
  let dead (digest : String) := !(db.rooted clock digest || decide (digest ∈ alive))
  { db with
    objectTrash := ((db.objects.rows.map Prod.fst).filter dead).foldl discard db.objectTrash
    objects := db.objects.deleteWhere fun digest _ => dead digest }

/-- The transaction of `maintain_at`. `unixepoch()` reads `clock` in it. -/
def maintained (db : Db) (current clock : ℤ) (held alive : List String) : Db :=
  ((db.expireUploads current).expireLeases current held).collect clock alive

/-- A file without a row of `objects`. -/
def orphanObject (db : Db) (digest : String) : Db :=
  if db.objects.contains digest then db
  else { db with objectTrash := discard db.objectTrash digest }

/-- A chunk file without a row of `upload_chunks`. -/
def orphanChunk (db : Db) (k : String × ℕ) : Db :=
  if db.uploadChunks.contains k then db
  else { db with stagingTrash := discard db.stagingTrash k }

/-- The commits of a function that is applied to one name after another. -/
def commits {κ : Type} (f : Db → κ → Db) : Db → List κ → List Write
  | _, [] => []
  | db, k :: rest => .commit (f db k) :: commits f (f db k) rest

/-- `reconcile_orphans`, on the names the next directory entries have. -/
def reconcileOrphans (objectNames : List String) (chunkNames : List (String × ℕ)) :
    Disk → List Write :=
  andThen Disk.apply
    (fun d => commits orphanObject d.db
      (objectNames.filter fun n => decide (validateHash n = .ok ())))
    (fun d => commits orphanChunk d.db
      (chunkNames.filter fun k => decide (validateId k.1 = .ok ())))

/-- The rows of a page, in their order. -/
def trashPage {κ : Type} [DecidableEq κ] (t : Table κ ℕ) (p : κ → ℕ → Bool) : List (κ × ℕ) :=
  (t.rows.filter fun r => p r.1 r.2).take pageSize

def nextCursor {κ : Type} (page : List (κ × ℕ)) : ℕ :=
  if page.length < pageSize then 0 else (page.getLast?.map Prod.snd).getD 0

/-- The page of `drain_staging_trash`. -/
def stagingPage (db : Db) (only : Option String) (cursor : ℕ) : List ((String × ℕ) × ℕ) :=
  trashPage db.stagingTrash fun k row =>
    match only with
    | none => decide (cursor < row)
    | some id => decide (k.1 = id)

/-- `drain_staging_trash`. The files in `stuck` cannot be removed. -/
def drainStagingTrash (only : Option String) (cursor : ℕ) (stuck : List (String × ℕ)) (d : Disk) :
    List Write :=
  let removed := ((d.db.stagingPage only cursor).map Prod.fst).filter fun k => decide (k ∉ stuck)
  removed.map (fun k => .removeChunk k.1 k.2) ++
    if removed = [] then []
    else [.commit { d.db with
      stagingTrash := d.db.stagingTrash.deleteWhere fun k _ => decide (k ∈ removed) }]

/-- The page of `drain_trash_locked`. -/
def objectPage (db : Db) (cursor : ℕ) : List (String × ℕ) :=
  trashPage db.objectTrash fun _ row => decide (cursor < row)

/-- The part of `drain_trash_locked` on objects. The files in `stuck` cannot be removed. -/
def drainObjectTrash (cursor : ℕ) (stuck : List String) (d : Disk) : List Write :=
  let page := (d.db.objectPage cursor).map Prod.fst
  let removed := page.filter fun h => !d.db.objects.contains h && decide (h ∉ stuck)
  let settled := page.filter fun h => d.db.objects.contains h || decide (h ∈ removed)
  removed.map .removeObject ++
    [.commit { d.db with
      smallObjects := d.db.smallObjects.deleteWhere fun h _ => decide (h ∈ removed)
      objectTrash := d.db.objectTrash.deleteWhere fun h _ => decide (h ∈ settled) }]

/-- `drain_trash_locked` -/
def drainTrash (cursors : ℕ × ℕ) (stuckChunks : List (String × ℕ)) (stuckObjects : List String) :
    Disk → List Write :=
  andThen Disk.apply (drainStagingTrash none cursors.1 stuckChunks)
    (drainObjectTrash cursors.2 stuckObjects)

end Db
end RisuNest.Transfer
