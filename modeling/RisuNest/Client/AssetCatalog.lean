import RisuNest.Client.Residency
import RisuNest.Lib.Runs
import RisuNest.Storage.StoreError
import Mathlib.Data.List.Dedup
import Mathlib.Data.Prod.Lex
import Mathlib.Data.String.Basic

/-! The catalog of asset bodies, its deletion tombstones, and what adds to and takes from them:
registration, collection, offloading, forgetting a connection, and the recovery at an opening. -/
namespace RisuNest.Client
open Wire Storage

/-! ### The catalog -/

structure AssetObject where
  byteSize : ℕ
  createdAtMs : ℤ
  deriving DecidableEq

inductive DeletionState
  | pending
  | unlinked
  deriving DecidableEq

structure AssetDeletion where
  byteSize : ℕ
  physicalKey : String
  state : DeletionState
  createdAtMs : ℤ
  deriving DecidableEq

/-- Where an external connection keeps a body. -/
inductive SourceKind
  | standalone
  | packed
  deriving DecidableEq

structure BodySource where
  connectionId : String
  byteLength : ℕ
  deriving DecidableEq

/-- Sources are keyed by hash, kind and library. -/
abbrev SourceKey := String × SourceKind × String

/-- A collection in the midst of one deletion, under the repository lock. -/
inductive CollectPhase
  /-- The tombstone is committed; whether another commit followed. -/
  | marked (changed : Bool)
  /-- The file is gone, and the transaction that began before still runs. -/
  | unlinked
  deriving DecidableEq

structure Collecting where
  digest : String
  byteSize : ℕ
  phase : CollectPhase
  deriving DecidableEq

/-- The one offloading job that may run. -/
inductive OffloadJob
  | idle
  /-- The custody that was granted for eviction, by context and hash. -/
  | evicting (granted : List (String × String))
  /-- The releases begun and not yet answered. -/
  | releasing (objects : List RemoteObject)
  deriving DecidableEq

structure AssetWorld where
  objects : Table String AssetObject
  deletions : Table String AssetDeletion
  /-- The bodies of the repository, by hash. -/
  files : Table String (List UInt8)
  residency : Residency
  sources : Table SourceKey BodySource
  collecting : Option Collecting
  job : OffloadJob

def assetObjectCatalogMaxPage : ℕ := 4096

def objectPhysicalKey (digest : String) : String :=
  "assets/objects/" ++ (String.ofList (digest.toList.take 2) ++
    ("/" ++ String.ofList (digest.toList.drop 2)))

namespace AssetWorld

def statObject (w : AssetWorld) (digest : String) : Option ℕ :=
  (w.files.get digest).map List.length

/-- The row of a registration. A tombstone makes way for it. -/
def placeObject (w : AssetWorld) (digest : String) (byteSize : ℕ) (createdAtMs : ℤ) :
    StoreResult AssetWorld :=
  match w.deletions.get digest with
  | some tombstone => do
    require (tombstone.byteSize = byteSize ∧ tombstone.physicalKey = objectPhysicalKey digest)
      (.validation "asset object deletion tombstone conflicts with the recreated object")
    pure { w with
      objects := w.objects.upsert digest ⟨byteSize,createdAtMs⟩
      deletions := w.deletions.erase digest }
  | none => .ok { w with objects := w.objects.insertOrIgnore digest ⟨byteSize,createdAtMs⟩ }

def registerObject (w : AssetWorld) (digest : String) (byteSize : ℕ) (createdAtMs : ℤ) :
    StoreResult AssetWorld := do
  (Wire.validateHash digest).mapError fun _ =>
    StoreError.validation "asset object hash must be a lowercase SHA-256 hash"
  require (byteSize ≤ Residency.i64Max)
    (.validation "asset object size exceeds the SQLite integer limit")
  let placed ← w.placeObject digest byteSize createdAtMs
  require ((placed.objects.get digest).map AssetObject.byteSize = some byteSize)
    (.validation "asset object catalog size conflicts with the immutable object")
  pure placed

/-- `AssetObjectCatalog::register`, in one transaction. -/
def register (w : AssetWorld) (objects : List (String × ℕ)) (createdAtMs : ℤ) :
    StoreResult AssetWorld := do
  require (0 ≤ createdAtMs) (.validation "asset object creation time must be nonnegative")
  require (objects.length ≤ assetObjectCatalogMaxPage)
    (.validation "asset object registration batch exceeds the bounded limit")
  objects.foldlM (fun w o => w.registerObject o.1 o.2 createdAtMs) w

/-! ### Remote holders -/

/-- The custody row `lookup` chooses among those that are not released, which belongs to a known
context and was confirmed last. -/
def custodyRow (r : Residency) (digest : String) : Option CustodyRow :=
  (((r.objects.rows.filter fun row => row.1.2 = digest ∧ row.2.state ≠ .released ∧
      r.contexts.contains row.1.1 = true).insertionSort fun a b =>
        b.2.confirmationOrder ≤ a.2.confirmationOrder).head?).map Prod.snd

def custodySize (w : AssetWorld) (digest : String) : Option ℕ :=
  (custodyRow w.residency digest).map CustodyRow.size

def SourceKind.rank : SourceKind → ℕ
  | .standalone => 0
  | .packed => 1

/-- `RemoteBodies::stat`: a standalone source comes before a packed one, and the first library in
order before the others. -/
def sourceSize (w : AssetWorld) (digest : String) : Option ℕ :=
  (((w.sources.rows.filter fun row => row.1.1 = digest).insertionSort fun a b =>
      toLex (SourceKind.rank a.1.2.1,a.1.2.2) ≤ toLex (SourceKind.rank b.1.2.1,b.1.2.2)).head?).map
    fun row => row.2.byteLength

def gcSize (w : AssetWorld) (digest : String) : Option ℕ :=
  (w.custodySize digest).or (w.sourceSize digest)

/-! ### Recovery at an opening -/

/-- `recover_asset_object_deletions` of one tombstone. -/
def recoverDeletion (w : AssetWorld) (t : String × AssetDeletion) : StoreResult AssetWorld := do
  require (t.2.physicalKey = objectPhysicalKey t.1)
    (.validation "asset deletion tombstone physical key is not canonical")
  match t.2.state with
  | .pending =>
    require ((w.objects.get t.1).map AssetObject.byteSize = some t.2.byteSize)
      (.validation "pending asset deletion has no exact catalog row")
    match w.statObject t.1 with
    | some actual =>
      require (actual = t.2.byteSize) (.validation "pending asset deletion size is ambiguous")
      pure { w with deletions := w.deletions.erase t.1 }
    | none =>
      pure { w with
        objects := w.objects.erase t.1
        deletions := w.deletions.upsert t.1 { t.2 with state := .unlinked } }
  | .unlinked =>
    require (w.objects.get t.1 = none)
      (.validation "completed asset deletion unexpectedly has a catalog row")
    match w.statObject t.1 with
    | none => pure { w with deletions := w.deletions.erase t.1 }
    | some actual =>
      require (actual = t.2.byteSize) (.validation "unlinked asset deletion size is ambiguous")
      pure w

def DeletionState.rank : DeletionState → ℕ
  | .pending => 0
  | .unlinked => 1

/-- `ORDER BY state, created_at_ms, object_hash` -/
def deletionKey (t : String × AssetDeletion) : ℕ ×ₗ ℤ ×ₗ String :=
  toLex (DeletionState.rank t.2.state,toLex (t.2.createdAtMs,t.1))

/-- The tombstones one opening processes. -/
def deletionPage (w : AssetWorld) : List (String × AssetDeletion) :=
  (w.deletions.rows.insertionSort fun a b => deletionKey a ≤ deletionKey b).take
    assetObjectCatalogMaxPage

/-- `recover_asset_object_deletions` of some tombstones, each in its own transaction. -/
def recoverDeletions (w : AssetWorld) (ts : List (String × AssetDeletion)) :
    StoreResult AssetWorld := ts.foldlM recoverDeletion w

/-- What a process that ended leaves. -/
def closed (w : AssetWorld) : AssetWorld := { w with collecting := none, job := .idle }

/-- `recover_asset_object_deletions` -/
def recover (w : AssetWorld) : StoreResult AssetWorld := w.closed.recoverDeletions w.deletionPage

/-! ### Letting go of custody -/

/-- One hash of a page that `release_unused` lets go of: the release that begins, the row it
deletes, and the objects of the request. -/
def beginRelease (w : AssetWorld) (context : String)
    (progress : Residency × Table String AssetObject × List RemoteObject) (digest : String) :
    Residency × Synced (Residency × Table String AssetObject × List RemoteObject) :=
  match progress.1.beginLatestRelease digest context with
  | (residency,.error e) => (residency,.error e)
  | (residency,.ok none) => (residency,.ok (residency,progress.2))
  | (residency,.ok (some object)) =>
    (residency,.ok (residency,
      (match w.statObject digest with
        | none => progress.2.1.erase digest
        | some _ => progress.2.1),
      progress.2.2 ++ [object]))

/-- The page under the repository lock. The custody changes one by one, and the rows go in one
transaction at the end. -/
def beginReleases (w : AssetWorld) (context : String) :
    Residency × Table String AssetObject × List RemoteObject → List String →
      Residency × Synced (Residency × Table String AssetObject × List RemoteObject)
  | progress, [] => (progress.1,.ok progress)
  | progress, digest::digests =>
    match w.beginRelease context progress digest with
    | (residency,.error e) => (residency,.error e)
    | (_,.ok next) => w.beginReleases context next digests

/-! ### Forgetting a connection -/

/-- The bodies that only a connection holds. -/
def orphans (w : AssetWorld) (connectionId : String) : List String :=
  (((w.sources.rows.filter fun row => row.2.connectionId = connectionId).map fun row =>
      row.1.1).filter fun digest =>
    !w.sources.rows.any fun row => row.1.1 = digest && row.2.connectionId ≠ connectionId).dedup

/-- Whether the row of an orphan goes. -/
def forgotten (w : AssetWorld) (digest : String) : Bool :=
  (w.statObject digest).isNone && (w.custodySize digest).isNone

/-- The rows `forget_external_connection_bodies` leaves. -/
def forgetRows (w : AssetWorld) (connectionId : String) : Table String AssetObject :=
  w.objects.deleteWhere fun digest _ => digest ∈ w.orphans connectionId && w.forgotten digest

end AssetWorld
end RisuNest.Client
