import RisuNest.Lib.Fallible
import RisuNest.Lib.Faulty
import RisuNest.Update.Files

/-! The install transaction of an update (`transaction.rs`). Its journal is one file of the data
directory, which lies apart from the directories it names. -/
namespace RisuNest.Update

def transactionSchema : String := "risunest-sync-install-transaction/v1"

inductive TransactionKind
  | directory
  | files
  deriving DecidableEq

inductive TransactionPhase
  | prepared
  | backupMoved
  | installing
  | installed
  | restarting
  | completed
  | rollingBack
  | rolledBack
  deriving DecidableEq

inductive FilePhase
  | pending
  | prepared
  | backedUp
  | installed
  | restored
  deriving DecidableEq

structure FileTransaction where
  path : Path
  desiredPresent : Bool
  originalExisted : Option Bool
  phase : FilePhase
  deriving DecidableEq

inductive RecoveryOutcome
  | completed (targetVersion : String)
  | rolledBack (wasRunning : Bool) (sourceVersion targetVersion : String)
    (priorStartupEnabled : Option Bool)
  deriving DecidableEq

structure InstallTransaction where
  schema : String
  sourceVersion : String
  targetVersion : String
  kind : TransactionKind
  phase : TransactionPhase
  installPath : Path
  stagedPath : Path
  backupPath : Path
  fileStates : List FileTransaction
  wasRunning : Bool
  priorStartupEnabled : Option Bool
  directoryInstallIdentity : Option DirectoryIdentity
  directoryStagedIdentity : Option DirectoryIdentity
  deriving DecidableEq

/-- `validate_relative`, on the components of a path. -/
def validateRelative (p : Path) : Except String Unit := require (p ≠ []) "update-transaction-invalid"

def validateManagedSibling (install path : Path) : Except String Unit :=
  require (install ≠ [] ∧ path ≠ [] ∧ install.dropLast = path.dropLast ∧
    (path.getLast?.any fun name => name.startsWith ".risunest-sync-update-") = true)
    "update-transaction-invalid"

/-- The check of `new` and `load` that the paths themselves are no links. -/
def notLinked (t : Tree) (paths : List Path) : Except String Unit :=
  require (∀ p ∈ paths, ¬ (t.existsAt p = true ∧ t.isLink p = true)) "update-install-path-linked"

namespace InstallTransaction

def newWithRemoved (t : Tree) (sourceVersion targetVersion : String) (kind : TransactionKind)
    (installPath stagedPath backupPath : Path) (files removedFiles : List Path)
    (wasRunning : Bool) : Except String InstallTransaction := do
  validateManagedSibling installPath stagedPath
  validateManagedSibling installPath backupPath
  require (installPath ≠ stagedPath ∧ installPath ≠ backupPath ∧ stagedPath ≠ backupPath)
    "update-transaction-invalid"
  notLinked t [installPath,stagedPath,backupPath]
  (files ++ removedFiles).forM validateRelative
  require (¬ (kind = .files ∧ files = [] ∧ removedFiles = [])) "update-transaction-invalid"
  require (files ++ removedFiles).Nodup "update-transaction-invalid"
  pure {
    schema := transactionSchema
    sourceVersion, targetVersion, kind
    phase := .prepared
    installPath, stagedPath, backupPath
    fileStates := files.map (⟨·,true,none,.pending⟩) ++ removedFiles.map (⟨·,false,none,.pending⟩)
    wasRunning
    priorStartupEnabled := none
    directoryInstallIdentity := none
    directoryStagedIdentity := none }

/-- What `load` insists on for a file. -/
def acceptsFile (f : FileTransaction) : Except String Unit := do
  validateRelative f.path
  require (f.phase = .pending ↔ f.originalExisted = none) "update-transaction-invalid"

/-- What `InstallTransaction::load` insists on, on Unix. -/
def accepts (tx : InstallTransaction) (t : Tree) (expectedInstall : Path) : Except String Unit := do
  require (tx.schema = transactionSchema ∧ tx.installPath = expectedInstall)
    "update-transaction-incompatible"
  validateManagedSibling tx.installPath tx.stagedPath
  validateManagedSibling tx.installPath tx.backupPath
  require (tx.installPath ≠ tx.stagedPath ∧ tx.installPath ≠ tx.backupPath ∧
    tx.stagedPath ≠ tx.backupPath) "update-transaction-invalid"
  notLinked t [tx.installPath,tx.stagedPath,tx.backupPath]
  tx.fileStates.forM acceptsFile
  require (tx.fileStates.map FileTransaction.path).Nodup "update-transaction-invalid"
  require (¬ (tx.kind = .files ∧
    (tx.directoryInstallIdentity.isSome ∨ tx.directoryStagedIdentity.isSome)))
    "update-transaction-invalid"
  require (tx.kind = .directory → ¬ (tx.phase = .prepared ↔
    (tx.directoryInstallIdentity.isSome ∧ tx.directoryStagedIdentity.isSome)))
    "update-transaction-invalid"

end InstallTransaction

/-- The disk, and the transaction in hand. `made` is what the system gives the next directory at a
path; `completed` remembers whether a transaction was ever saved as completed. -/
structure World where
  tree : Tree
  made : Path → DirectoryIdentity
  stored : Option InstallTransaction
  completed : Bool
  hand : InstallTransaction

/-- How far a step came: whether an atomic one was done, which paths were removed, and how many
bytes were written. -/
structure Part where
  done : Bool
  gone : Path → Bool
  written : ℕ

abbrev Act := Faulty World Part String

namespace Act
open Faulty

/-- A step that happens as a whole or not at all. -/
def atomic (check : World → Bool) (e : String) (effect : World → World) : Act Unit :=
  step (fun w => require (check w = true) e) e (fun k w => if k.done then effect w else w) effect

/-- A call that changes nothing, but may fail: a read, or `sync_parent`. -/
def call (e : String) : Act Unit := atomic (fun _ => true) e id

def onTree (f : Tree → Tree) (w : World) : World := { w with tree := f w.tree }

def inHand (f : InstallTransaction → InstallTransaction) : Act Unit :=
  modify fun w => { w with hand := f w.hand }

/-- `durable_rename`, on Unix. -/
def durableRename (source target : Path) (e : String) : Act Unit := do
  atomic (fun w => w.tree.mayRename source target) e (onTree (·.renamed source target))
  call e
  if source.dropLast ≠ target.dropLast then call e

/-- `durable_replace`, on Unix. -/
def durableReplace (target replacement : Path) (e : String) : Act Unit :=
  durableRename replacement target e

def durableExchange (left right : Path) (e : String) : Act Unit := do
  atomic (fun w => w.tree.contains left && w.tree.contains right &&
    !decide (left <+: right) && !decide (right <+: left)) e (onTree (·.exchanged left right))
  call e
  if left.dropLast ≠ right.dropLast then call e

def createDir (p : Path) (e : String) : Act Unit := do
  if ← look (·.tree.isDir p) then pure ()
  else atomic (fun w => (w.tree.get p).isNone) e fun w => onTree (·.upsert p (.dir (w.made p))) w

def createDirAll (p : Path) (e : String) : Act Unit := p.inits.tail.forM (createDir · e)

def removeFile (p : Path) (e : String) : Act Unit :=
  atomic (fun w => w.tree.contains p && (w.tree.isLink p || !w.tree.isDir p)) e
    (onTree fun t => t.erase p)

def removeDirAll (p : Path) (e : String) : Act Unit :=
  step (fun w => require (w.tree.contains p = true) e) e
    (fun k => onTree (·.prune p k.gone)) (onTree (·.prune p fun _ => true))

/-- Remove what is at a path, and make that durable. -/
def remove (p : Path) (e : String) : Act Unit := do
  if ← look (·.tree.isDir p) then removeDirAll p e else removeFile p e
  call e

def durableBackupCopy (source backup : Path) (e : String) : Act Unit := do
  let temporary := pendingPath backup
  let copied ← attempt do
    atomic (fun w => w.tree.existsAt source) e id
    atomic (fun w => (w.tree.get temporary).isNone && w.tree.isDir temporary.dropLast) e
      (onTree (·.upsert temporary (.file [])))
    step (fun w => require (w.tree.isRegular source = true) e) e
      (fun k => onTree (·.copied source temporary (some k.written)))
      (onTree (·.copied source temporary none))
    call e
    durableRename temporary backup e
  match copied with
  | .ok () => pure ()
  | .error e => do
    let _ ← attempt (removeFile temporary e)
    fail e

end Act

open Faulty Act

namespace InstallTransaction

def load (expectedInstall : Path) : Act (Option InstallTransaction) := do
  call "update-transaction-invalid"
  match ← look (·.stored) with
  | none => pure none
  | some tx => do
    let t ← look (·.tree)
    ofExcept (tx.accepts t expectedInstall)
    pure (some tx)

def save : Act Unit := do
  let tx ← look (·.hand)
  demand (tx.schema = transactionSchema) "update-transaction-incompatible"
  atomic (fun _ => true) "update-transaction-write-failed" fun w =>
    { w with
      stored := some w.hand
      completed := w.completed || decide (w.hand.phase = .completed) }

/-- Remove the journal. -/
def removeState : Act Unit := do
  atomic (fun w => w.stored.isSome) "update-transaction-write-failed" fun w =>
    { w with stored := none }
  call "update-transaction-write-failed"

def enter (phase : TransactionPhase) : Act Unit := do
  inHand fun tx => { tx with phase }
  save

/-- Change what the transaction says of one file, and save it. -/
def noteFile (i : ℕ) (f : FileTransaction → FileTransaction) : Act Unit := do
  inHand fun tx => { tx with fileStates := tx.fileStates.modify i f }
  save

def rejectLinkedPath (root relative : Path) : Act Unit := do
  let t ← look (·.tree)
  demand (∀ p ∈ relative.inits.tail, ¬ (t.existsAt (root ++ p) = true ∧ t.isLink (root ++ p) = true))
    "update-install-path-linked"

/-- `apply_directory`, on Unix -/
def applyDirectory : Act Unit := do
  let tx ← look (·.hand)
  let t ← look (·.tree)
  demand (t.existsAt tx.backupPath = false) "update-backup-already-exists"
  call "update-transaction-bundle-invalid"
  let installed ← ofExcept (t.directoryIdentity tx.installPath)
  inHand fun tx => { tx with directoryInstallIdentity := some installed }
  call "update-transaction-bundle-invalid"
  let staged ← ofExcept (t.directoryIdentity tx.stagedPath)
  inHand fun tx => { tx with directoryStagedIdentity := some staged }
  enter .installing
  durableExchange tx.installPath tx.stagedPath "update-install-replace-failed"
  enter .installed

/-- What `apply_files` notes about a file before it touches it. -/
def prepareFile (i : ℕ) (tx : InstallTransaction) (f : FileTransaction) : Act Unit := do
  rejectLinkedPath tx.installPath f.path
  rejectLinkedPath tx.stagedPath f.path
  let existed ← look (·.tree.existsAt (tx.installPath ++ f.path))
  noteFile i fun f => { f with originalExisted := some existed, phase := .prepared }

/-- What `apply_files` checks of the stage, and the directories it makes. -/
def prepareDirectories (tx : InstallTransaction) (f : FileTransaction) : Act Unit := do
  let t ← look (·.tree)
  demand (¬ (f.desiredPresent = true ∧ t.isFile (tx.stagedPath ++ f.path) = false))
    "update-package-file-missing"
  demand (¬ (f.desiredPresent = false ∧ t.existsAt (tx.stagedPath ++ f.path) = true))
    "update-package-file-unexpected"
  createDirAll (tx.installPath ++ f.path).dropLast "update-install-replace-failed"
  createDirAll (tx.backupPath ++ f.path).dropLast "update-backup-create-failed"

/-- How `apply_files` puts a file in its place. -/
def placeFile (i : ℕ) (tx : InstallTransaction) (f : FileTransaction) : Act Unit := do
  let target := tx.installPath ++ f.path
  let staged := tx.stagedPath ++ f.path
  let backup := tx.backupPath ++ f.path
  let existing ← look (·.tree.existsAt target)
  if existing = true ∧ f.desiredPresent = true then do
    durableBackupCopy target backup "update-backup-create-failed"
    durableReplace target staged "update-install-replace-failed"
  else do
    if existing = true then do
      durableRename target backup "update-install-locked"
      noteFile i fun f => { f with phase := .backedUp }
    if f.desiredPresent = true then
      durableRename staged target "update-install-replace-failed"

/-- One round of `apply_files`. -/
def applyFile (i : ℕ) : Act Unit := do
  let tx ← look (·.hand)
  match tx.fileStates[i]? with
  | none => pure ()
  | some f => do
    prepareFile i tx f
    prepareDirectories tx f
    placeFile i tx f
    noteFile i fun f => { f with phase := .installed }

def applyFiles : Act Unit := do
  let tx ← look (·.hand)
  createDirAll tx.backupPath "update-backup-create-failed"
  call "update-backup-create-failed"
  enter .installing
  (List.range tx.fileStates.length).forM applyFile
  enter .installed

def apply : Act Unit := do
  enter .prepared
  let tx ← look (·.hand)
  match tx.kind with
  | .directory => applyDirectory
  | .files => applyFiles

def markRestarting : Act Unit := enter .restarting

/-- Remove some directories while that goes well, and whether it did. -/
def retire : List Path → Act Bool
  | [] => pure true
  | p :: ps => do
    if ← look (·.tree.existsAt p) then
      match ← attempt (remove p "update-staging-cleanup-failed") with
      | .error _ => pure false
      | .ok () => retire ps
    else retire ps

/-- What a completed transaction leaves to remove. -/
def retired (tx : InstallTransaction) : List Path :=
  match tx.kind with
  | .directory => [tx.stagedPath]
  | .files => [tx.backupPath,tx.stagedPath]

def complete : Act Unit := do
  enter .completed
  let tx ← look (·.hand)
  if ← retire tx.retired then
    let _ ← attempt removeState

/-- Remove some directories, or fail. -/
def discard (paths : List Path) : Act Unit :=
  paths.forM fun p => do
    if ← look (·.tree.existsAt p) then remove p "update-staging-cleanup-failed"

def discardRolledBack : Act Unit := do
  let tx ← look (·.hand)
  demand (tx.phase = .rolledBack) "update-transaction-invalid"
  discard [tx.stagedPath,tx.backupPath]
  removeState

def cancelPrepared : Act Unit := do
  let tx ← look (·.hand)
  demand (tx.phase = .prepared) "update-transaction-invalid"
  discard [tx.stagedPath,tx.backupPath]
  removeState

/-- How `rollback` leaves a transaction that did not touch the install. -/
def rollbackPrepared (tx : InstallTransaction) : Act Unit := do
  [tx.stagedPath,tx.backupPath].forM fun p => do
    if ← look (·.tree.existsAt p) then do
      let linked ← look (·.tree.isLink p)
      demand (linked = false) "update-transaction-linked-path"
      remove p "update-staging-cleanup-failed"
  enter .rolledBack

/-- How `rollback` gives a directory back, on Unix. -/
def rollbackDirectory (tx : InstallTransaction) : Act Unit := do
  let t ← look (·.tree)
  demand (∀ p ∈ [tx.installPath,tx.stagedPath,tx.backupPath],
    ¬ (t.existsAt p = true ∧ t.isLink p = true)) "update-transaction-linked-path"
  match tx.directoryInstallIdentity, tx.directoryStagedIdentity with
  | some originalInstall, some originalStaged => do
    call "update-transaction-bundle-invalid"
    let installed ← ofExcept (t.directoryIdentity tx.installPath)
    call "update-transaction-bundle-invalid"
    let staged ← ofExcept (t.directoryIdentity tx.stagedPath)
    if installed = originalStaged ∧ staged = originalInstall then
      durableExchange tx.installPath tx.stagedPath "update-rollback-failed"
    else if installed ≠ originalInstall ∨ staged ≠ originalStaged then
      fail "update-rollback-failed"
  | _, _ => fail "update-transaction-invalid"

/-- How `rollback` gives a file back. -/
def restoreFile (tx : InstallTransaction) (f : FileTransaction) : Act Unit := do
  rejectLinkedPath tx.installPath f.path
  rejectLinkedPath tx.backupPath f.path
  let target := tx.installPath ++ f.path
  let backup := tx.backupPath ++ f.path
  let t ← look (·.tree)
  if f.originalExisted = some false then
    if t.existsAt backup = true then
      demand (t.existsAt target = false) "update-rollback-failed"
    else if t.existsAt target = true ∧ t.existsAt (tx.stagedPath ++ f.path) = false then
      durableRename target backup "update-rollback-failed"
  else if t.existsAt backup = true then do
    createDirAll target.dropLast "update-rollback-failed"
    if ← look (·.tree.existsAt target) then durableReplace target backup "update-rollback-failed"
    else durableRename backup target "update-rollback-failed"
  else if f.originalExisted = some true ∧ t.existsAt target = false then
    fail "update-rollback-failed"

/-- One round of the loop of `rollback` over the files. -/
def rollbackFile (i : ℕ) : Act Unit := do
  let tx ← look (·.hand)
  match tx.fileStates[i]? with
  | none => pure ()
  | some f =>
    if f.phase = .restored ∨ f.originalExisted = none then pure ()
    else do
      restoreFile tx f
      noteFile i fun f => { f with phase := .restored }

def rollback : Act Unit := do
  let tx ← look (·.hand)
  if tx.phase = .prepared then rollbackPrepared tx
  else do
    enter .rollingBack
    match tx.kind with
    | .directory => rollbackDirectory tx
    | .files => (List.range tx.fileStates.length).reverse.forM rollbackFile
    enter .rolledBack

def rolledBackOutcome (tx : InstallTransaction) : RecoveryOutcome :=
  .rolledBack tx.wasRunning tx.sourceVersion tx.targetVersion tx.priorStartupEnabled

end InstallTransaction

open InstallTransaction

/-- How `recover_transaction` ends the transaction it loaded. -/
def recoverLoaded (tx : InstallTransaction) : Act RecoveryOutcome :=
  match tx.phase with
  | .completed => do
    complete
    pure (.completed tx.targetVersion)
  | .rolledBack => pure tx.rolledBackOutcome
  | _ => do
    rollback
    pure tx.rolledBackOutcome

def recoverTransaction (expectedInstall : Path) : Act (Option RecoveryOutcome) := do
  match ← load expectedInstall with
  | none => pure none
  | some tx => do
    inHand fun _ => tx
    let outcome ← recoverLoaded tx
    pure (some outcome)

def finishRollbackRecovery (expectedInstall : Path) : Act Unit := do
  match ← load expectedInstall with
  | none => fail "update-transaction-missing"
  | some tx => do
    inHand fun _ => tx
    discardRolledBack

end RisuNest.Update
