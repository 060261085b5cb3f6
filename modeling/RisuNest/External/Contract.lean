import RisuNest.Wire.Lww
import RisuNest.Lib.Fallible
import RisuNest.Lib.Table

/-! What every kind of external storage answers with (`contract.rs`). -/
namespace RisuNest.External

inductive ErrorKind
  | unauthorized
  | reauthRequired
  | endpointRejected
  | deviceVaultUnavailable
  | repositoryKeyUnavailable
  | clockSkew
  | locationOccupied
  | repositoryBusy
  | localStorageFull
  | localPermissionDenied
  /-- Any other failure of a file, store or worker on this device. -/
  | localFailure
  | notFound
  | preconditionFailed
  | rateLimited
  | dailyQuotaExhausted
  | storageFull
  | fileTooLarge
  | corrupt
  | transient
  | unsupported
  | cancelled
  | folderNameConflict
  | folderCreateFailed
  | folderInaccessible
  | folderNotRepository
  | folderUnsupportedLocation
  | previousStorageUnavailable
  | recoveryKeyMismatch
  | repositoryMismatch
  | libraryFormatSwitchRequired
  /-- The library is at a higher format level than this app reads. -/
  | appUpdateRequired
  deriving DecidableEq, Repr

abbrev Provided := Except ErrorKind

/-- `segment::corrupt` in place of any error of the shared formats. -/
def orCorrupt {α : Type} (x : Wire.Result α) : Provided α := x.mapError fun _ => .corrupt

@[simp] lemma orCorrupt_eq_ok {α : Type} {x : Wire.Result α} {a : α} :
    orCorrupt x = .ok a ↔ x = .ok a := by
  cases x <;> simp [orCorrupt, Except.mapError]

end RisuNest.External
