import RisuNest.Lib.Table
import Mathlib.Data.List.Infix

/-! The part of a file system that an install transaction works on: nodes by absolute path, and
what the calls of the standard library do to them. -/
namespace RisuNest.Update

/-- The components of an absolute path. -/
abbrev Path := List String

structure DirectoryIdentity where
  device : ℕ
  inode : ℕ
  deriving DecidableEq

/-- A link leads nowhere, or to something that is a directory or not. -/
inductive Node
  | file (bytes : List UInt8)
  | dir (identity : DirectoryIdentity)
  | link (target : Option Bool)
  deriving DecidableEq

abbrev Tree := Table Path Node

/-- A path with `.pending` after its name. -/
def pendingPath (p : Path) : Path := p.dropLast ++ [p.getLast?.getD "" ++ ".pending"]

/-- A path with the subtrees of two paths in each other's place. -/
def swapped (left right p : Path) : Path :=
  if left <+: p then right ++ p.drop left.length
  else if right <+: p then left ++ p.drop right.length
  else p

namespace Tree
variable (t : Tree)

/-- `Path::exists` -/
def existsAt (p : Path) : Bool :=
  match t.get p with
  | none => false
  | some (.link target) => target.isSome
  | some _ => true

def isDir (p : Path) : Bool :=
  match t.get p with
  | some (.dir _) => true
  | some (.link target) => target = some true
  | _ => false

def isFile (p : Path) : Bool :=
  match t.get p with
  | some (.file _) => true
  | some (.link target) => target = some false
  | _ => false

/-- `is_reparse_or_symlink` -/
def isLink (p : Path) : Bool :=
  match t.get p with
  | some (.link _) => true
  | _ => false

/-- Whether something lies beneath a path. -/
def occupied (p : Path) : Bool := t.any fun q _ => decide (p <+: q ∧ q ≠ p)

/-- What `rename` insists on. -/
def mayRename (source target : Path) : Bool :=
  t.isDir target.dropLast && match t.get source, t.get target with
  | none, _ => false
  | some (.dir _), none => !decide (source <+: target)
  | some (.dir _), some (.dir _) => !t.occupied target && !decide (source <+: target)
  | some (.dir _), some _ => false
  | some _, some (.dir _) => false
  | some _, _ => true

/-- A subtree without the paths that meet a condition. -/
def prune (p : Path) (gone : Path → Bool) : Tree :=
  t.deleteWhere fun q _ => decide (p <+: q) && gone q

def exchanged (left right : Path) : Tree := t.rekey (swapped left right)

/-- The tree after a `rename`. -/
def renamed (source target : Path) : Tree :=
  match t.get source with
  | none => t
  | some (.dir _) => ((t.prune target fun _ => true).exchanged source target).prune source fun _ => true
  | some n => (t.erase source).upsert target n

/-- The tree after some of the bytes of a file were written to another, or all of them. -/
def copied (source target : Path) (written : Option ℕ) : Tree :=
  match t.get source with
  | some (.file bytes) => t.upsert target (.file (bytes.take (written.getD bytes.length)))
  | _ => t

/-- Whether a path is a regular file itself. -/
def isRegular (p : Path) : Bool :=
  match t.get p with
  | some (.file _) => true
  | _ => false

/-- The identity of a directory, which no link leads to. -/
def directoryIdentity (p : Path) : Except String DirectoryIdentity :=
  match t.get p with
  | some (.dir identity) => .ok identity
  | _ => .error "update-transaction-bundle-invalid"

end Tree
end RisuNest.Update
