import RisuNest.Server.Reads
import RisuNest.Server.System
import RisuNest.Transfer.Steps

/-! The server as its devices use it, with the library format gate: pushes, the requests that work
on one part of the store each, the transfers, maintenance and restarts, in any order. -/
namespace RisuNest.Server
open Wire

/-- A page of `upload_progress`. -/
structure UploadProgress where
  uploadId : String
  hash : String
  size : ℕ
  verified : List ℕ
  nextAfter : Option ℕ
  complete : Bool
  finishing : Bool
  failure : Option String
  retryableFailure : Option String
  deriving DecidableEq

/-- `upload_progress`, behind its admission. -/
def uploadProgress (db : Transfer.Db) (device : Device) (id : String) (after : Option ℕ) (now : ℤ) :
    Answer UploadProgress :=
  match db.uploads.get id with
  | none => .error (.new "upload-not-found" 404)
  | some upload => do
    require (upload.device = device.id) (.new "upload-not-found" 404)
    require (now < upload.expires) (.new "upload-expired" 410)
    require (∀ cursor ∈ after, cursor < 2^63) (.new "invalid-cursor" 400)
    let ordinals := ((db.uploadChunks.rows.filter fun r =>
      decide (r.1.1 = id) && after.all fun cursor => decide (cursor < r.1.2)).map fun r =>
        r.1.2).insertionSort (· ≤ ·)
    let verified := ordinals.take 1024
    let job := db.uploadJobs.get id
    pure {
      uploadId := id
      hash := upload.hash
      size := upload.size
      verified := verified
      nextAfter := if 1024 < ordinals.length then verified.getLast? else none
      complete := upload.state = .complete
      finishing := upload.state = .queued ∨ upload.state = .finalizing
      failure := (job.filter fun j => j.terminal).bind Transfer.Job.error
      retryableFailure := (job.filter fun j => !j.terminal).bind Transfer.Job.error }

/-- A request that is answered by more than one statement of the reader. -/
inductive Query
  | operation (device : Device) (id : String)
  | uploadProgress (device : Device) (id : String) (after : Option ℕ)
  deriving DecidableEq

namespace Query

def device : Query → Device
  | .operation device _ => device
  | .uploadProgress device _ _ => device

def id : Query → String
  | .operation _ id => id
  | .uploadProgress _ id _ => id

end Query

/-- A push that has committed and has not released the writer. -/
structure Committed where
  request : PushRequest
  receipt : PushReceipt
  raised : Option ℕ

/-- The store while it is open, with the requests under way. -/
structure Gated where
  library : Store
  claims : Table String ClaimRow
  transfers : Transfer.System
  /-- The push that holds the object gate in front of its transaction. -/
  pending : Option Pending
  committed : Option Committed
  /-- `format_level` -/
  cached : ℕ
  queries : List Query

inductive Event
  | push (call : PushCall)
  | commitPush (created : ℤ)
  | releasePush
  | ask (query : Query)
  | answer (query : Query)
  | cancelOperation (device : Device) (id bodyDigest : String) (clock : Answer ℕ) (created : ℤ)
  | changes (device : Device) (after limit : ℕ)
  | createStatePin (device : Device) (id : String) (now : ℤ)
  | statePage (device : Device) (id : String) (after : Option UnitKey) (limit : ℕ) (now : ℤ)
  | releaseStatePin (device : Device) (pin : String)
  | acknowledge (device : Device) (seq : ℕ) (now : ℤ)
  | retainObjects (device : Device) (epoch : String) (objects : List ObjectIdentity)
      (token : String → String)
  | retainedObjects (device : Device) (epoch : String) (after : Option String)
  | releaseRetainedObjects (device : Device) (epoch : String) (objects : List RetentionRelease)
  | bindDeviceWriter (device : Device) (writerId : String)
  | newDeviceWriterClaim (device : Device)
  | claimNewDeviceWriter (device : Device) (request : NewDeviceClaimRequest)
      (former : Option String)
  /-- A part of a transfer. -/
  | transfer (op : Transfer.Op)
  | maintain (current clock : ℤ) (objectNames : List String) (chunkNames : List (String × ℕ))
      (stuckChunks : List (String × ℕ)) (stuckObjects : List String)
  | addDevice (id : String)
  | revokeDevice (id : String)
  /-- The process stops, perhaps in the midst of a transfer, and the store is opened again. -/
  | restart (op : Transfer.Op) (writes : ℕ)

inductive Reply
  | waiting
  | pushed (answer : Answer PushReceipt)
  | receipt (answer : Answer OperationReceipt)
  | progress (answer : Answer UploadProgress)
  | page (answer : Answer ChangesPage)
  | pinned (answer : Answer ℕ)
  | statePage (answer : Answer StatePage)
  | retained (answer : Answer (List RetainedObject))
  | retention (answer : Answer RetentionPage)
  | claim (answer : Answer NewDeviceClaimState)
  | claimed (answer : Answer NewDeviceClaimReceipt)
  | done (answer : Answer Unit)

namespace Gated
variable (cr : Crates)

/-- The winner that is the level unit, of a push that is accepted. -/
def raised (s : Store) (p : Pending) : Option ℕ :=
  match s.storedFormat cr with
  | .error _ => none
  | .ok level =>
    match s.validation cr p level with
    | .error _ => none
    | .ok won =>
      (won.find? fun c => LibraryFormat.isKey c.key).bind fun c => LibraryFormat.level cr c.value

/-- The transfers on the devices and the level of the library. -/
def session (g : Gated) (level : ℕ) : Transfer.System :=
  { g.transfers with
    disk := { g.transfers.disk with
      db := { g.transfers.disk.db with
        formatLevel := level
        devices := g.library.devices.convert fun _ row => row.revoked } } }

/-- A failed upload is one that is not being finished. -/
def uploadState : Transfer.UploadState → UploadState
  | .opened | .failed => .opened
  | .queued => .queued
  | .finalizing => .finalizing
  | .complete => .complete

/-- The body of a row of `objects`. -/
def bodyOf (d : Transfer.Disk) (r : String × Transfer.ObjectRow) : Option (List UInt8) :=
  match r.2.storage with
  | .file => d.published.get r.1
  | .inline => d.db.smallObjects.get r.1

/-- The tables of transfers that the library reads. -/
def share (s : Store) (d : Transfer.Disk) : Store :=
  { s with
    objects := d.db.objects.rows.foldl
      (fun t r => match bodyOf d r with
        | some body => t.insertOrIgnore r.1 body
        | none => t) s.objects
    objectLeases := d.db.objectLeases
    uploads := d.db.uploads.convert fun _ u => ⟨u.device,u.hash,u.expires,uploadState u.state⟩
    uploadDeltaBases := d.db.uploadDeltaBases }

def runTransfer (g : Gated) (level : ℕ) (e : Transfer.System.Event) : Gated :=
  let t := (g.session level).exec cr e
  { g with
    transfers := t
    library := share g.library t.disk }

/-- What a transfer answers that begins or is done at once. -/
def transferAnswer (s : Transfer.System) : Transfer.Op → Answer Unit
  | .beginUpload device manifest id =>
    (s.disk.db.beginUpload device manifest id s.clock).map fun _ => ()
  | .attach device id bytes =>
    (s.disk.db.attachUploadDelta device id bytes s.clock).map fun _ => ()
  | .cancel device id _ => (s.disk.db.cancelled device id s.clock).map fun _ => ()
  | .pin device hashes => (s.disk.db.pinObjects device hashes s.clock).map fun _ => ()
  | .sendChunk _ device id index digest bytes =>
    s.disk.db.checkChunk cr device id index digest bytes s.clock
  | .submit _ device id => (s.disk.db.submitUpload device id s.clock).map fun _ => ()
  | .putObjects _ device objects => s.disk.db.checkObjects cr device objects
  | .receiveFrames _ device _ => s.disk.db.requireDevice device
  | _ => .ok ()

/-- Whether an operation is one of the transfers, and not of the library they belong to. -/
def transfers? : Transfer.Op → Bool
  | .addDevice _ | .revokeDevice _ | .setFormat _ | .maintain .. => false
  | _ => true

/-- The devices that the library's other tables refer to. -/
def heldDevices (s : Store) : List String :=
  s.objectCustody.rows.map (fun r => r.1.1) ++ s.statePins.rows.map (fun r => r.2.device) ++
    s.downloadDeltas.rows.map fun r => r.2.device

/-- Whether a push keeps others and maintenance from the object gate. -/
def pushing (g : Gated) : Bool := g.pending.isSome || g.committed.isSome

/-- One event. Requests that wait for another lock than the object gate are taken at any point:
what their locks do is to allow fewer orders. -/
def exec (g : Gated) : Event → Reply × Gated
  | .push call =>
    if g.pushing then (.waiting,g)
    else match g.library.beginPush cr call with
      | (.inl answer,s) => (.pushed answer,{ g with library := s })
      | (.inr p,s) => (.waiting,{ g with library := s, pending := some p })
  | .commitPush created =>
    match g.pending with
    | none => (.waiting,g)
    | some p =>
      let (answer,s) := g.library.finishPush cr p created
      match answer, g.library.replay p.device p.request.operationId p.digest with
      | .ok receipt, .ok none =>
        (.waiting,{ g with
          library := s
          pending := none
          committed := some ⟨p.request,receipt,raised cr g.library p⟩ })
      | answer, _ => (.pushed answer,{ g with library := s, pending := none })
  | .releasePush =>
    match g.committed with
    | none => (.waiting,g)
    | some c => (.pushed (.ok c.receipt),{ g with committed := none, cached := c.raised.getD g.cached })
  | .ask query =>
    match (do lift (validateId query.id); g.library.requireDevice cr query.device : Answer Unit) with
    | .error e => (.done (.error e),g)
    | .ok () => (.waiting,{ g with queries := query :: g.queries })
  | .answer query =>
    if query ∈ g.queries then
      let g' := { g with queries := g.queries.erase query }
      match query with
      | .operation device id => (.receipt (g.library.operationReceipt device id),g')
      | .uploadProgress device id after =>
        (.progress (uploadProgress g.transfers.disk.db device id after g.transfers.clock),g')
    else (.waiting,g)
  | .cancelOperation device id bodyDigest clock created =>
    let (answer,s) := g.library.cancelOperation cr device id bodyDigest clock created
    (.receipt answer,{ g with library := s })
  | .changes device after limit => (.page (g.library.changes cr device after limit),g)
  | .createStatePin device id now =>
    let (answer,s) := g.library.createStatePin cr device id now
    (.pinned answer,{ g with library := s })
  | .statePage device id after limit now =>
    (.statePage (g.library.statePage cr device id after limit now),g)
  | .releaseStatePin device pin =>
    let (answer,s) := g.library.releaseStatePin cr device pin
    (.done answer,{ g with library := s })
  | .acknowledge device seq now =>
    let (answer,s) := g.library.acknowledge cr device seq now
    (.done answer,{ g with library := s })
  | .retainObjects device epoch objects token =>
    match g.library.retainObjects cr device epoch objects token with
    | .error e => (.retained (.error e),g)
    | .ok (s,retained) => (.retained (.ok retained),{ g with library := s })
  | .retainedObjects device epoch after =>
    (.retention (g.library.retainedObjects cr device epoch after),g)
  | .releaseRetainedObjects device epoch objects =>
    match g.library.releaseRetainedObjects cr device epoch objects with
    | .error e => (.done (.error e),g)
    | .ok s => (.done (.ok ()),{ g with library := s })
  | .bindDeviceWriter device writerId =>
    let (answer,s) := g.library.bindDeviceWriter cr device writerId
    (.done answer,{ g with library := s })
  | .newDeviceWriterClaim device => (.claim (g.library.newDeviceWriterClaim cr g.claims device),g)
  | .claimNewDeviceWriter device request former =>
    let (answer,s,claims) := g.library.claimNewDeviceWriter cr g.claims device request former
    (.claimed answer,{ g with library := s, claims := claims })
  | .transfer op =>
    match g.library.storedFormat cr with
    | .error e => (.done (.error e),g)
    | .ok level =>
      if transfers? op then
        (.done (transferAnswer cr (g.session level) op),g.runTransfer cr level (.perform op))
      else (.waiting,g)
  | .maintain current clock objectNames chunkNames stuckChunks stuckObjects =>
    if g.pushing then (.waiting,g)
    else match g.library.storedFormat cr, g.library.maintainAt cr current clock with
      | .ok level, (.ok _,s) =>
        let op := Transfer.Op.maintain clock (heldDevices s) (s.objects.rows.map Prod.fst)
          objectNames chunkNames stuckChunks stuckObjects
        (.done (.ok ()),{ g with library := s }.runTransfer cr level (.perform op))
      | .error e, _ => (.done (.error e),g)
      | _, (.error e,_) => (.done (.error e),g)
  | .addDevice id => (.done (.ok ()),{ g with library := g.library.addDevice id })
  | .revokeDevice id =>
    let (answer,s) := g.library.revokeDevice id
    (.done answer,{ g with library := s })
  | .restart op writes =>
    match g.library.storedFormat cr with
    | .error e => (.done (.error e),g)
    | .ok level =>
      let opened := if transfers? op then g.runTransfer cr level (.crash op writes) else g
      (.done (.ok ()),{ opened with
        pending := none
        committed := none
        cached := level
        queries := [] })

/-- The store after `init`. -/
def create (libraryId epoch : String) : Gated where
  library := Store.genesis cr libraryId epoch
  claims := .empty
  transfers := .create
  pending := none
  committed := none
  cached := 1
  queries := []

/-- One event after another. -/
inductive Later (g : Gated) : Gated → Prop
  | refl : Later g g
  | step {t : Gated} (e : Event) (h : Later g t) : Later g (t.exec cr e).2

/-- States of a server that was once initialised. -/
def Reachable (g : Gated) : Prop := ∃ libraryId epoch, Later cr (create cr libraryId epoch) g

end Gated

/-! ### Requests by the device that makes them -/

/-- The device of a transfer that begins or is done at once. -/
def opener : Transfer.Op → Option Device
  | .beginUpload device _ _ | .attach device _ _ | .cancel device _ _ | .pin device _
  | .sendChunk _ device _ _ _ _ | .submit _ device _ | .putObjects _ device _
  | .receiveFrames _ device _ => some device
  | _ => none

/-- The device whose request an event begins. -/
def Event.device : Event → Option Device
  | .push call => some call.device
  | .ask query => some query.device
  | .cancelOperation device .. | .changes device .. | .createStatePin device ..
  | .statePage device .. | .releaseStatePin device _ | .acknowledge device ..
  | .retainObjects device .. | .retainedObjects device .. | .releaseRetainedObjects device ..
  | .bindDeviceWriter device _ | .newDeviceWriterClaim device
  | .claimNewDeviceWriter device .. => some device
  | .transfer op => opener op
  | _ => none

/-- The device of a transfer under way. What is left of a failed finish has none. -/
def callDevice : Transfer.Call → Option Device
  | .chunk device .. | .starting _ device _ | .finishing _ device .. | .placing device ..
  | .sorting device .. | .storing device .. => some device
  | .failing .. | .settling .. => none

/-- The device whose request an event carries on. -/
def Event.carriesOn (g : Gated) : Event → Option Device
  | .commitPush _ => g.pending.map Pending.device
  | .transfer op => (op.call.bind g.transfers.calls.get).bind callDevice
  | _ => none

/-- The answers that refuse a request. -/
def Reply.refusal : Reply → Option Error
  | .waiting => none
  | .pushed (.error e) | .receipt (.error e) | .progress (.error e) | .page (.error e)
  | .pinned (.error e) | .statePage (.error e) | .retained (.error e) | .retention (.error e)
  | .claim (.error e) | .claimed (.error e) | .done (.error e) => some e
  | _ => none

end RisuNest.Server
