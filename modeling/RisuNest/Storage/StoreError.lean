import RisuNest.Lib.Fallible
import Mathlib.Data.Int.Notation

/-! The errors of the persistent store (`persistent_store/mod.rs`). -/
namespace RisuNest.Storage

inductive StoreError
  | revisionConflict (expected actual : ℤ)
  | snapshotReleased
  | rawBodyUnavailable
  | commitBusy
  | commitDecode (message : String)
  | committed (revision : ℤ) (message : String)
  | validation (message : String)
  /-- The store was written by a build with a different schema. -/
  | schemaMismatch (message : String)
  /-- A database or file error. -/
  | store (message : String)
  deriving DecidableEq, Repr

abbrev StoreResult := Except StoreError

def codecError (message : String) : StoreError := .validation message

end RisuNest.Storage
