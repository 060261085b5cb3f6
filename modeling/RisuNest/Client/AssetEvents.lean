import RisuNest.Client.AssetCatalog

/-! The events of an asset repository: collection in its steps, registration, offloading, the
release of unused custody, forgetting a connection, and openings. -/
namespace RisuNest.Client
open Wire Storage

inductive AssetEvent
  /-- A body appears in the repository. -/
  | publish (digest : String) (bytes : List UInt8)
  | register (objects : List (String × ℕ)) (createdAtMs : ℤ)
  /-- A response to `retain` is confirmed. -/
  | confirm (config : StoredConfig) (head : RemoteHead) (objects : List Server.RetainedObject)
  | addSource (key : SourceKey) (source : BodySource)
  /-- Another commit to the library. -/
  | commit
  /-- The tombstone of a candidate is committed. -/
  | mark (digest : String) (nowMs : ℤ)
  | unlink
  /-- The catalog commit, after the directory was synced or not. -/
  | complete (directorySynced : Bool)
  /-- `CommitBusy` or an error, wherever the collection is. -/
  | stopCollecting
  | offload
  | evict (context digest : String)
  | releaseUnused
  | beginReleases (context : String) (digests : List String)
  /-- The same, stopped after some of the custody has changed. -/
  | stopReleases (context : String) (digests : List String)
  | finishRelease (object : RemoteObject)
  /-- The job ends, or fails. -/
  | endJob
  | forget (connectionId : String)
  /-- The same, stopped after the rows are gone. -/
  | stopForgetting (connectionId : String)
  /-- The process ends, at any point, and the store is opened. -/
  | opening
  /-- The process ends, and an opening is stopped after some of the tombstones. -/
  | stopOpening (done : ℕ)

/-- What a running eviction may unlink. -/
def OffloadJob.grant (keys : List (String × String)) : OffloadJob → OffloadJob
  | .evicting granted => .evicting (granted ++ keys)
  | job => job

namespace AssetWorld
variable (cr : Crates) (bodyLength : String → ℕ)

/-- A commit of the library that a collection sees. -/
def committed (w : AssetWorld) : AssetWorld :=
  { w with collecting := w.collecting.map fun c => { c with phase := .marked true } }

/-- Whether a collection keeps every other writer out. -/
def writing (w : AssetWorld) : Bool :=
  match w.collecting with
  | some c => c.phase = .unlinked
  | none => false

/-- The tombstone of a candidate with a local body of its size, under the repository lock. -/
def mark (w : AssetWorld) (digest : String) (nowMs : ℤ) : Option AssetWorld :=
  match w.objects.get digest, w.deletions.get digest with
  | some object, none =>
    if w.collecting = none ∧ 0 ≤ nowMs ∧ w.statObject digest = some object.byteSize then
      some { w with
        deletions := w.deletions.upsert digest
          ⟨object.byteSize,objectPhysicalKey digest,.pending,nowMs⟩
        collecting := some ⟨digest,object.byteSize,.marked false⟩ }
    else none
  | _, _ => none

/-- The last checks and the unlinking, in the transaction that will drop the row. -/
def unlink (w : AssetWorld) : Option AssetWorld :=
  match w.collecting with
  | some ⟨digest,byteSize,.marked false⟩ =>
    match w.files.get digest with
    | some bytes =>
      if (w.objects.get digest).map AssetObject.byteSize = some byteSize ∧
          bytes.length = byteSize ∧ hash cr bytes = digest then
        some { w with
          files := w.files.erase digest
          collecting := some ⟨digest,byteSize,.unlinked⟩ }
      else none
    | none => none
  | _ => none

/-- The catalog commit. -/
def complete (w : AssetWorld) (directorySynced : Bool) : Option AssetWorld :=
  match w.collecting with
  | some ⟨digest,byteSize,.unlinked⟩ =>
    if (w.objects.get digest).map AssetObject.byteSize = some byteSize then
      some { w with
        objects := w.objects.erase digest
        deletions :=
          if directorySynced then w.deletions.erase digest
          else w.deletions.mapValues fun k t =>
            if k = digest ∧ t.state = .pending then { t with state := .unlinked } else t
        collecting := none }
    else none
  | _ => none

/-- `Residency::confirm`. An eviction that is under way unlinks what was granted to it. -/
def confirm (w : AssetWorld) (config : StoredConfig) (head : RemoteHead)
    (objects : List Server.RetainedObject) : Option AssetWorld :=
  if ∀ o ∈ objects, o.size = bodyLength o.hash then
    match w.residency.confirm cr config head objects with
    | .error _ => none
    | .ok residency =>
      some { w with
        residency := residency
        job := w.job.grant
          (objects.map fun o => (Residency.contextId cr config head.epoch,o.hash)) }
  else none

/-- The unlinking of a granted body. -/
def evict (w : AssetWorld) (context digest : String) : Option AssetWorld :=
  match w.job, w.collecting with
  | .evicting granted, none =>
    if (context,digest) ∈ granted then some { w with files := w.files.erase digest } else none
  | _, _ => none

def beginReleasesStep (w : AssetWorld) (context : String) (digests : List String) :
    Option AssetWorld :=
  match w.job, w.collecting with
  | .releasing [], none =>
    match w.beginReleases context (w.residency,w.objects,[]) digests with
    | (residency,.error _) => some { w with residency := residency, job := .idle }
    | (residency,.ok (_,objects,begun)) =>
      some { w with
        residency := residency
        objects := objects
        job := .releasing begun }
  | _, _ => none

def stopReleases (w : AssetWorld) (context : String) (digests : List String) :
    Option AssetWorld :=
  match w.job, w.collecting with
  | .releasing [], none =>
    some { w with
      residency := (w.beginReleases context (w.residency,w.objects,[]) digests).1
      job := .idle }
  | _, _ => none

def finishRelease (w : AssetWorld) (object : RemoteObject) : Option AssetWorld :=
  match w.job with
  | .releasing begun =>
    if object ∈ begun then
      some { w with
        residency := w.residency.finishRelease object
        job := .releasing (begun.erase object) }
    else none
  | _ => none

/-- One event, or `none` where it is not possible. What servers and storages say of a body is
its length. -/
def step (w : AssetWorld) : AssetEvent → Option AssetWorld
  | .publish digest bytes =>
    if hash cr bytes = digest ∧ bytes.length = bodyLength digest then
      some { w with files := w.files.insertOrIgnore digest bytes }
    else none
  | .register objects createdAtMs =>
    if w.writing then none
    else match w.register objects createdAtMs with
      | .error _ => none
      | .ok next => some next.committed
  | .confirm config head objects => w.confirm cr bodyLength config head objects
  | .addSource key source =>
    if source.byteLength = bodyLength key.1 then
      some { w with sources := w.sources.upsert key source }
    else none
  | .commit => if w.writing then none else some w.committed
  | .mark digest nowMs => w.mark digest nowMs
  | .unlink => w.unlink cr
  | .complete directorySynced => w.complete directorySynced
  | .stopCollecting => some { w with collecting := none }
  | .offload => if w.job = .idle then some { w with job := .evicting [] } else none
  | .evict context digest => w.evict context digest
  | .releaseUnused =>
    match w.job with
    | .evicting _ => some { w with job := .releasing [] }
    | _ => none
  | .beginReleases context digests => w.beginReleasesStep context digests
  | .stopReleases context digests => w.stopReleases context digests
  | .finishRelease object => w.finishRelease object
  | .endJob => some { w with job := .idle }
  | .forget connectionId =>
    if w.collecting = none then
      some { w with
        objects := w.forgetRows connectionId
        sources := w.sources.deleteWhere fun _ source => source.connectionId = connectionId }
    else none
  | .stopForgetting connectionId =>
    if w.collecting = none then some { w with objects := w.forgetRows connectionId } else none
  | .opening => w.recover.toOption
  | .stopOpening done => (w.closed.recoverDeletions (w.deletionPage.take done)).toOption

/-! ### What the steps have to meet -/

/-- The releases under way. -/
def begun (w : AssetWorld) : List RemoteObject :=
  match w.job with
  | .releasing objects => objects
  | _ => []

/-- Custody that counts: it is not released, and no release of it is under way. -/
def Kept (w : AssetWorld) (key : String × String) (row : CustodyRow) : Prop :=
  row.state = .active ∨ row.state = .releasing ∧
    ∀ o ∈ w.begun, ¬ (o.context = key.1 ∧ o.hash = key.2 ∧ o.retentionId = row.retentionId)

instance (w : AssetWorld) (key : String × String) (row : CustodyRow) :
    Decidable (w.Kept key row) := inferInstanceAs (Decidable (_ ∨ _))

/-- Whether a server keeps a body for the device. -/
def InCustody (w : AssetWorld) (digest : String) : Prop :=
  ∃ r ∈ w.residency.objects.rows, r.1.2 = digest ∧ w.Kept r.1 r.2

/-- Whether a body is in the repository, with a server or in an external storage. -/
def Held (w : AssetWorld) (digest : String) : Prop :=
  w.files.contains digest = true ∨ w.InCustody digest ∨ ∃ r ∈ w.sources.rows, r.1.1 = digest

instance (w : AssetWorld) (digest : String) : Decidable (w.InCustody digest) :=
  inferInstanceAs (Decidable (∃ r ∈ w.residency.objects.rows, _))

instance (w : AssetWorld) (digest : String) : Decidable (w.Held digest) :=
  inferInstanceAs (Decidable (_ ∨ _ ∨ _))

def isPending (t : String × AssetDeletion) : Bool := t.2.state = .pending

/-- Whether the deletion of an object has begun and not come to its end. -/
def Pending (w : AssetWorld) (digest : String) : Prop :=
  ∃ t ∈ w.deletions.rows, t.1 = digest ∧ isPending t = true

instance (w : AssetWorld) (digest : String) : Decidable (w.Pending digest) :=
  inferInstanceAs (Decidable (∃ t ∈ w.deletions.rows, _))

/-- A registration is of bodies that someone holds, a row is dropped with its custody or its
sources only where no deletion of it is pending, a forgotten body stands on custody that is not
being released, and no more deletions are pending than one opening recovers. -/
def Careful (w : AssetWorld) : AssetEvent → Prop
  | .register objects _ => ∀ o ∈ objects, w.Held o.1 ∧ o.2 = bodyLength o.1
  | .beginReleases _ digests => ∀ digest ∈ digests, w.statObject digest = none → ¬ w.Pending digest
  | .forget connectionId | .stopForgetting connectionId =>
    ∀ digest ∈ w.orphans connectionId, w.statObject digest = none →
      if w.custodySize digest = none then ¬ w.Pending digest else w.InCustody digest
  | .mark _ _ => w.deletions.rows.countP isPending < assetObjectCatalogMaxPage
  | _ => True

instance (w : AssetWorld) (e : AssetEvent) : Decidable (w.Careful bodyLength e) := by
  cases e <;> unfold Careful <;> infer_instance

/-- A repository in which nothing has happened. -/
def empty : AssetWorld where
  objects := .empty
  deletions := .empty
  files := .empty
  residency := .empty
  sources := .empty
  collecting := none
  job := .idle

end AssetWorld
end RisuNest.Client
