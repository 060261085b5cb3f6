import RisuNest.Update.Transaction
import RisuNest.Update.Trees

/-! What the disk looks like while an install transaction is under way, from the tree it started
over. -/
namespace RisuNest.Update
open Faulty Act

namespace InstallTransaction
variable (tx : InstallTransaction) (p : Path)

abbrev target : Path := tx.installPath ++ p

abbrev stage : Path := tx.stagedPath ++ p

abbrev backup : Path := tx.backupPath ++ p

end InstallTransaction

/-- An inventory whose files keep out of each other's way: none lies beneath another or where the
backup of another is copied to, none is a link that leads nowhere, and no directory is removed. -/
structure Separate (t₀ : Tree) (tx₀ : InstallTransaction) : Prop where
  apart : ∀ f ∈ tx₀.fileStates, ∀ g ∈ tx₀.fileStates, f.path <+: g.path → f.path = g.path
  pending : ∀ f ∈ tx₀.fileStates, ∀ g ∈ tx₀.fileStates, g.path ≠ pendingPath f.path
  lost : ∀ f ∈ tx₀.fileStates, t₀.get (tx₀.target f.path) ≠ some (.link none)
  removed : ∀ f ∈ tx₀.fileStates, f.desiredPresent = false →
    ∀ identity, t₀.get (tx₀.target f.path) ≠ some (.dir identity)

/-- What a transaction is made over: a tree, with nothing where the backup goes, in which two
directories are told apart and an inventory is separate. -/
structure Ground (t₀ : Tree) (tx₀ : InstallTransaction) : Prop where
  tree : ∀ p name, t₀.get (p ++ [name]) ≠ none → ∃ identity, t₀.get p = some (.dir identity)
  unused : ∀ p, t₀.get (tx₀.backup p) = none
  separate : tx₀.kind = .files → Separate t₀ tx₀
  directories : tx₀.kind = .directory → ∀ i j, t₀.get tx₀.installPath = some (.dir i) →
    t₀.get tx₀.stagedPath = some (.dir j) → i ≠ j

/-- A new transaction, over a tree without its backup. -/
structure Setting (t₀ : Tree) (tx₀ : InstallTransaction) : Prop extends Ground t₀ tx₀ where
  schema : tx₀.schema = transactionSchema
  staged : validateManagedSibling tx₀.installPath tx₀.stagedPath = .ok ()
  backup : validateManagedSibling tx₀.installPath tx₀.backupPath = .ok ()
  distinct : tx₀.installPath ≠ tx₀.stagedPath ∧ tx₀.installPath ≠ tx₀.backupPath ∧
    tx₀.stagedPath ≠ tx₀.backupPath
  unlinked : notLinked t₀ [tx₀.installPath,tx₀.stagedPath,tx₀.backupPath] = .ok ()
  relative : ∀ f ∈ tx₀.fileStates, f.path ≠ []
  nodup : (tx₀.fileStates.map FileTransaction.path).Nodup
  phase : tx₀.phase = .prepared
  pending : ∀ f ∈ tx₀.fileStates, f.phase = .pending ∧ f.originalExisted = none
  identities : tx₀.directoryInstallIdentity = none ∧ tx₀.directoryStagedIdentity = none

/-- A later state of a transaction. -/
structure Derived (tx₀ tx : InstallTransaction) : Prop where
  schema : tx.schema = tx₀.schema
  kind : tx.kind = tx₀.kind
  install : tx.installPath = tx₀.installPath
  staged : tx.stagedPath = tx₀.stagedPath
  backup : tx.backupPath = tx₀.backupPath
  files : tx.fileStates.map (fun f => (f.path,f.desiredPresent)) =
    tx₀.fileStates.map fun f => (f.path,f.desiredPresent)

section
variable (t₀ : Tree) (tx₀ : InstallTransaction)

/-- The paths that the transaction works on, besides its stage and its backup. -/
def Touched (p : Path) : Prop :=
  match tx₀.kind with
  | .files => ∃ f ∈ tx₀.fileStates, p = tx₀.target f.path
  | .directory => tx₀.installPath <+: p

/-- Everything else is as it was, except for new directories. -/
def Kept (t : Tree) : Prop :=
  ∀ p, ¬ tx₀.stagedPath <+: p → ¬ tx₀.backupPath <+: p → ¬ Touched tx₀ p →
    t.get p = t₀.get p ∨ t₀.get p = none ∧ ∃ identity, t.get p = some (.dir identity)

/-- What no step changes. -/
structure Base (t : Tree) : Prop where
  kept : Kept t₀ tx₀ t
  unlinked : notLinked t [tx₀.installPath,tx₀.stagedPath,tx₀.backupPath] = .ok ()
  plain : ∀ p, t.isLink (tx₀.backup p) = false

/-- The install tree has its original files. -/
def Old (t : Tree) : Prop :=
  match tx₀.kind with
  | .files => ∀ f ∈ tx₀.fileStates, t.get (tx₀.target f.path) = t₀.get (tx₀.target f.path)
  | .directory => ∀ p, t.get (tx₀.target p) = t₀.get (tx₀.target p)

/-- A file of the inventory is the staged one. -/
def Placed (t : Tree) (f : FileTransaction) : Prop :=
  if f.desiredPresent then
    t.get (tx₀.target f.path) = t₀.get (tx₀.stage f.path) ∧ t.isRegular (tx₀.target f.path) = true
  else t.get (tx₀.target f.path) = none

/-- The install tree has the files of the stage. -/
def New (t : Tree) : Prop :=
  match tx₀.kind with
  | .files => ∀ f ∈ tx₀.fileStates, Placed t₀ tx₀ t f
  | .directory => ∀ p, t.get (tx₀.target p) = t₀.get (tx₀.stage p)

/-- What the transaction says of a file it works on. -/
structure Noted (f : FileTransaction) : Prop where
  phase : f.phase ≠ .pending
  active : f.phase ≠ .restored
  existed : f.originalExisted = some (t₀.existsAt (tx₀.target f.path))
  unlinked : ∀ p ∈ f.path.inits.tail, ¬ (t₀.existsAt (tx₀.target p) = true ∧
    t₀.isLink (tx₀.target p) = true)

/-- A file that a rollback can give back: it was not worked on yet, or it was given back, or it is
still the original, or that is in the backup, or it is a new file that nothing was in the place
of. -/
inductive FileOk (t : Tree) (f : FileTransaction) : Prop
  | pending (hp : f.phase = .pending) (ho : f.originalExisted = none)
      (h : t.get (tx₀.target f.path) = t₀.get (tx₀.target f.path))
  | restored (hp : f.phase = .restored) (ho : f.originalExisted ≠ none)
      (h : t.get (tx₀.target f.path) = t₀.get (tx₀.target f.path))
  | unchanged (hn : Noted t₀ tx₀ f) (h : t.get (tx₀.target f.path) = t₀.get (tx₀.target f.path))
      (hb : t₀.existsAt (tx₀.target f.path) = true → t.get (tx₀.backup f.path) = none)
  | saved (hn : Noted t₀ tx₀ f) (hr : t₀.isRegular (tx₀.target f.path) = true)
      (hb : t.get (tx₀.backup f.path) = t₀.get (tx₀.target f.path))
      (h : t.get (tx₀.target f.path) = none ∨ t.isRegular (tx₀.target f.path) = true)
  | added (hn : Noted t₀ tx₀ f) (ho : t₀.existsAt (tx₀.target f.path) = false)
      (h : t.isRegular (tx₀.target f.path) = true) (hb : t.get (tx₀.backup f.path) = none)
      (hs : t.get (tx₀.stage f.path) = none)
      (hd : t.isDir (tx₀.backup f.path).dropLast = true)

/-- All files were given back or not worked on. -/
def Settled (tx : InstallTransaction) : Prop :=
  ∀ f ∈ tx.fileStates, f.phase = .pending ∨ f.phase = .restored

/-- The transaction knows the two directories. -/
def Recorded (tx : InstallTransaction) : Prop :=
  ∃ i j, tx.directoryInstallIdentity = some i ∧ tx.directoryStagedIdentity = some j ∧
    t₀.get tx₀.installPath = some (.dir i) ∧ t₀.get tx₀.stagedPath = some (.dir j)

/-- Two directories in their places, or in each other's. -/
structure Exchanged (t : Tree) (tx : InstallTransaction) : Prop where
  files : Settled tx
  identities : Recorded t₀ tx₀ tx
  places : (∀ p, t.get (tx₀.target p) = t₀.get (tx₀.target p)) ∧
      t.get tx₀.stagedPath = t₀.get tx₀.stagedPath ∨
    ∀ p, t.get (tx₀.target p) = t₀.get (tx₀.stage p) ∧ t.get (tx₀.stage p) = t₀.get (tx₀.target p)

/-- What a rollback of a directory leaves of the stage, until it is discarded. -/
def Discarding (t : Tree) (tx : InstallTransaction) : Prop :=
  tx₀.kind = .directory → Recorded t₀ tx₀ tx ∧
    (t.get tx₀.stagedPath = none ∨ t.get tx₀.stagedPath = t₀.get tx₀.stagedPath)

/-- A rollback can give the install tree back. -/
def Work (t : Tree) (tx : InstallTransaction) : Prop :=
  match tx₀.kind with
  | .files => ∀ f ∈ tx.fileStates, FileOk t₀ tx₀ t f
  | .directory => Exchanged t₀ tx₀ t tx

def Phased (t : Tree) (tx : InstallTransaction) : Prop :=
  match tx.phase with
  | .prepared => Old t₀ tx₀ t ∧ ∀ f ∈ tx.fileStates, f.phase = .pending
  | .completed => New t₀ tx₀ t
  | .rolledBack => Old t₀ tx₀ t ∧ Settled tx ∧ Discarding t₀ tx₀ t tx
  | .installed => Work t₀ tx₀ t tx ∧ New t₀ tx₀ t
  | .restarting => Work t₀ tx₀ t tx ∧ New t₀ tx₀ t
  | _ => Work t₀ tx₀ t tx

/-- A transaction that `load` accepts, and that is right about the disk. -/
structure Sound (t : Tree) (tx : InstallTransaction) : Prop where
  derived : Derived tx₀ tx
  consistent : ∀ f ∈ tx.fileStates, f.phase = .pending ↔ f.originalExisted = none
  files : tx₀.kind = .files →
    tx.directoryInstallIdentity = none ∧ tx.directoryStagedIdentity = none
  directory : tx₀.kind = .directory → ¬ (tx.phase = .prepared ↔
    (tx.directoryInstallIdentity.isSome ∧ tx.directoryStagedIdentity.isSome))
  phased : Phased t₀ tx₀ t tx

/-- What every crash leaves. -/
structure Safe (w : World) : Prop where
  base : Base t₀ tx₀ w.tree
  stored : ∀ tx, w.stored = some tx →
    Sound t₀ tx₀ w.tree tx ∧ (w.completed = true ↔ tx.phase = .completed)
  gone : w.stored = none → if w.completed = true then New t₀ tx₀ w.tree else Old t₀ tx₀ w.tree

/-- What every error leaves: the transaction in hand is right as well, unless it is one of a
directory that was not noted in it yet. -/
structure Held (w : World) : Prop where
  safe : Safe t₀ tx₀ w
  derived : Derived tx₀ w.hand
  hand : tx₀.kind = .directory ∧ w.hand.phase = .prepared ∨ Sound t₀ tx₀ w.tree w.hand
  completed : w.completed = true → w.hand.phase = .completed
  prepared : w.hand.phase = .prepared → ∀ tx, w.stored = some tx → tx.phase = .prepared

end
end RisuNest.Update
