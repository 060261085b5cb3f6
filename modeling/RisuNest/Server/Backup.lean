import RisuNest.Lib.Logged
import RisuNest.Lib.Sections
import RisuNest.Server.System
import RisuNest.Wire.Head

/-! Cold backups of a server's directory, and their restoration (`backup.rs`). -/
namespace RisuNest.Server
open Wire

/-! ### Directories and databases -/

/-- The files of a directory, by path. -/
abbrev Files := Table String (List UInt8)

/-- A file appears empty and grows; an interruption may leave it at any length. -/
inductive FileWrite
  | create (path : String)
  | append (path : String) (byte : UInt8)

def FileWrite.apply (files : Files) : FileWrite → Files
  | .create path => files.upsert path []
  | .append path byte => files.upsert path ((files.get path).getD [] ++ [byte])

/-- The writes of a whole file. -/
def fileWrites (path : String) (bytes : List UInt8) : List FileWrite :=
  .create path::bytes.map (.append path)

abbrev Disk.after (files : Files) (ws : List FileWrite) : Files :=
  written FileWrite.apply files ws

inductive Placement
  | file
  | inline
  deriving DecidableEq

structure ObjectRow where
  size : ℕ
  storage : Placement
  deriving DecidableEq

/-- What `metadata.sqlite` holds: the rows of the objects, the small bodies, and the tables of the
store, whose own table of objects is left empty. -/
structure Database where
  tables : Store
  objectRows : Table String ObjectRow
  smallObjects : Table String (List UInt8)

/-- SQLite: the file of a database, as `VACUUM INTO` and a checkpoint leave it, and its reading
with `integrity_check`. -/
structure Sqlite where
  image : Database → List UInt8
  read : List UInt8 → Option Database

def metadataPath : String := "metadata.sqlite"
def manifestPath : String := "backup.json"

/-- The path of a body that is a file. -/
def objectPath (digest : String) : String :=
  "objects/" ++ (String.ofList (digest.toList.take 2) ++ ("/" ++ digest))

def smallObjectBytes : ℕ := 64*1024

/-! ### The manifest -/

structure BackupManifest where
  schema : String
  head : RemoteHead
  metadataHash : String
  objects : ℕ
  deriving DecidableEq

def backupSchema : String := "risunest-sync-backup-v1"

namespace BackupManifest

def toControl (m : BackupManifest) : Control :=
  .obj [("head",m.head.toControl),("metadataHash",.str m.metadataHash),
    ("objects",.str m.objects.repr),("schema",.str m.schema)]

/-- `canonical::encode` of the manifest. -/
def encode (m : BackupManifest) : List UInt8 := m.toControl.encode

def read : Control → Option BackupManifest
  | .obj ms => do
    if ms.all (fun m => m.1 ∈ ["schema","head","metadataHash","objects"]) then
      pure ⟨← (Control.member? "schema" ms).bind Control.text?,
        ← (Control.member? "head" ms).bind RemoteHead.read,
        ← (Control.member? "metadataHash" ms).bind Control.text?,
        ← ((Control.member? "objects" ms).bind Control.text?).bind readSequence⟩
    else none
  | .arr [schema,head,metadataHash,objects] => do
    pure ⟨← schema.text?,← RemoteHead.read head,← metadataHash.text?,← objects.text?.bind readSequence⟩
  | _ => none

end BackupManifest

/-! ### Backing up -/

abbrev Copying := Logged FileWrite Error

def corruptObject : Error := .new "corrupt-backup-object" 409
def corruptMetadata : Error := .new "corrupt-backup-metadata" 409

/-- `fs::read` -/
def readFile (files : Files) (path : String) : Answer (List UInt8) :=
  match files.get path with
  | none => .error (.new "storage-io" 503)
  | some bytes => .ok bytes

section
variable (cr : Crates)

/-- `copy_exact`: the copy is there before its hash is compared. -/
def copyExact (source : Files) (path : String) (expected : Option String) : Copying String := do
  let bytes ← Logged.check (readFile source path)
  Logged.write (fileWrites path bytes)
  let digest := hash cr bytes
  Logged.check (require (∀ hash ∈ expected, hash = digest) corruptObject)
  pure digest

/-- One row of `copy_objects`. -/
def copyObject (d : Database) (source : Files) (digest : String) (row : ObjectRow) :
    Copying Unit := do
  Logged.check (lift (validateHash digest))
  match row.storage with
  | .inline =>
    Logged.check
      (require ((d.smallObjects.get digest).map List.length = some row.size) corruptObject)
  | .file =>
    let body ← Logged.check (readFile source (objectPath digest))
    Logged.check (require (body.length = row.size) corruptObject)
    let _ ← copyExact cr source (objectPath digest) (some digest)
    pure ()

def copyRows (d : Database) (source : Files) : List (String × ObjectRow) → Copying ℕ
  | [] => pure 0
  | (digest,row)::rows => do
    copyObject cr d source digest row
    let count ← copyRows d source rows
    pure (count + 1)

/-- The rows of the objects, by hash. -/
def orderedRows (d : Database) : List (String × ObjectRow) :=
  d.objectRows.rows.insertionSort fun a b => a.1 ≤ b.1

/-- `copy_objects`: the number of rows. -/
def copyObjects (d : Database) (source : Files) : Copying ℕ := copyRows cr d source (orderedRows d)

/-- One row of `verify_inline`. -/
def verifyRow (d : Database) (r : String × ObjectRow) : Answer Unit :=
  if r.2.storage = .inline then
    match d.smallObjects.get r.1 with
    | none => .error corruptObject
    | some body => do
      require (body.length ≤ smallObjectBytes ∧ hash cr body = r.1) corruptObject
      require (body.length = r.2.size) corruptObject
  else .ok ()

def verifyInline (d : Database) : Answer Unit := (orderedRows d).forM (verifyRow cr d)

/-- `Store::backup` into an empty directory. -/
def backup (sq : Sqlite) (d : Database) (files : Files) : Copying BackupManifest := do
  Logged.write (fileWrites metadataPath (sq.image d))
  let objects ← copyObjects cr d files
  let snapshot ← Logged.check (match sq.read (sq.image d) with
    | none => .error (.new "metadata-storage" 503)
    | some snapshot => .ok snapshot)
  Logged.check (verifyInline cr snapshot)
  let manifest : BackupManifest :=
    ⟨backupSchema,d.tables.head,hash cr (sq.image d),objects⟩
  Logged.write (fileWrites manifestPath manifest.encode)
  pure manifest

/-! ### Restoring -/

/-- `Store::open` of the bytes of a database. Putting interrupted transfers back into their queues
is left out: they are outside a backup. -/
def openDatabase (sq : Sqlite) (bytes : List UInt8) : Answer Database :=
  match sq.read bytes with
  | none => .error (.new "incompatible-store" 409)
  | some d => do
    let _ ← d.tables.storedFormat cr
    (d.tables.head.validate).mapError fun _ => Error.new "corrupt-metadata" 503
    pure d

/-- `Store::open` of a directory. -/
def openStore (sq : Sqlite) (files : Files) : Answer Database :=
  match files.get metadataPath with
  | none => .error (.new "not-initialized" 404)
  | some bytes => openDatabase cr sq bytes

/-- The manifest of a backup, as `restore_backup` reads it. -/
def readManifest (source : Files) : Answer BackupManifest := do
  let marker ← readFile source manifestPath
  require (marker.length ≤ maxMetadataBytes) (.new "invalid-backup" 409)
  let manifest ← lift (decodeControl cr BackupManifest.read marker maxMetadataBytes)
  require (manifest.schema = backupSchema) (.new "invalid-backup" 409)
  lift manifest.head.validate
  lift (validateHash manifest.metadataHash)
  pure manifest

/-- `restore_backup` up to its rename: what it writes into the staged directory, and the database
there under a fresh epoch. -/
def stageBackup (sq : Sqlite) (source : Files) (epoch : String) : Copying Database := do
  let manifest ← Logged.check (readManifest cr source)
  let metadata ← Logged.check (readFile source metadataPath)
  Logged.check (require (hash cr metadata = manifest.metadataHash) corruptMetadata)
  let d ← Logged.check (match sq.read metadata with
    | none => .error corruptMetadata
    | some d => .ok d)
  Logged.check (require (d.tables.head = manifest.head) corruptMetadata)
  let objects ← copyObjects cr d source
  Logged.check (require (objects = manifest.objects) corruptMetadata)
  let _ ← copyExact cr source metadataPath (some manifest.metadataHash)
  let opened ← Logged.check (openDatabase cr sq metadata)
  let rotated : Database :=
    { opened with tables := opened.tables.rotateRestoredEpoch cr epoch }
  Logged.write (fileWrites metadataPath (sq.image rotated))
  pure rotated

/-- The directories that a restoration changes. -/
structure RestoreState where
  staged : Files
  destination : Option Files

inductive RestoreWrite
  | stage (w : FileWrite)
  /-- The rename of the staged directory. -/
  | publish

def RestoreWrite.apply (s : RestoreState) : RestoreWrite → RestoreState
  | .stage w => { s with staged := w.apply s.staged }
  | .publish => { s with destination := some s.staged }

/-- What `restore_backup` does in order, for a destination that does not exist. -/
def restoreWrites (sq : Sqlite) (source : Files) (epoch : String) : List RestoreWrite :=
  (stageBackup cr sq source epoch).writes.map .stage ++
    if (stageBackup cr sq source epoch).result.isOk then [.publish] else []

/-- The destination after a whole `restore_backup`, and the store it opens there. -/
def restoreBackup (sq : Sqlite) (source : Files) (epoch : String) : Answer (Files × Database) :=
  match (stageBackup cr sq source epoch).result with
  | .error e => .error e
  | .ok _ => do
    let files := Disk.after .empty (stageBackup cr sq source epoch).writes
    let d ← openStore cr sq files
    pure (files,d)

end
end RisuNest.Server
