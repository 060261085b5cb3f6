import RisuNest.Server.Lww

/-! The maintenance pass: expiry, the journal floor, and the collection of objects
(`maintenance.rs`). -/
namespace RisuNest.Server
open Wire

def retentionSeconds : ℤ := 604800

namespace Store
variable (cr : Crates)

/-- Whether a row of this device with this expiry has run out. -/
def lapsed (s : Store) (current : ℤ) (device : String) (expires : ℤ) : Bool :=
  decide (expires ≤ current) || s.revoked device

/-- The download jobs a pass drops. -/
def downloadDropped (s : Store) (current : ℤ) (row : DownloadRow) : Bool :=
  !row.working && s.lapsed current row.device row.expires

/-- The uploads a pass drops. -/
def uploadDropped (s : Store) (current : ℤ) (row : UploadRow) : Bool :=
  row.state ≠ .finalizing && s.lapsed current row.device row.expires

/-- The statements that drop transfers, pins and leases that have run out. -/
def expire (s : Store) (current : ℤ) : Store :=
  { s with
    downloadDeltas := s.downloadDeltas.deleteWhere fun _ row => s.downloadDropped current row
    downloadDeltaBases := s.downloadDeltaBases.deleteWhere fun k _ =>
      (s.downloadDeltas.get k.1).any (s.downloadDropped current)
    uploads := s.uploads.deleteWhere fun _ row => s.uploadDropped current row
    uploadDeltaBases := s.uploadDeltaBases.deleteWhere fun k _ =>
      (s.uploads.get k.1).any fun row => row.state = .complete || s.uploadDropped current row
    statePins := s.statePins.deleteWhere fun _ row => s.lapsed current row.device row.expires
    objectLeases := s.objectLeases.deleteWhere fun k expires => s.lapsed current k.1 expires }

def purgeRevokedDevices (s : Store) : Store :=
  { s with
    operations := s.operations.deleteWhere fun k _ => s.revoked k.1
    devices := s.devices.deleteWhere fun id row => row.revoked &&
      !s.objectLeases.any (fun k _ => k.1 = id) && !s.objectCustody.any (fun k _ => k.1 = id) &&
      !s.statePins.any (fun _ pin => pin.device = id) &&
      !s.uploads.any (fun _ upload => upload.device = id) &&
      !s.downloadDeltas.any (fun _ job => job.device = id) }

/-- The sequences a pass may not pass: acknowledgements within retention, and read pins. -/
def heldSequences (s : Store) (expired : ℤ) : List ℕ :=
  (s.devices.rows.filter fun r => !r.2.revoked && r.2.lastAck.any fun t => decide (expired < t)).map
    (fun r => r.2.ack) ++ s.statePins.rows.map fun r => r.2.startSeq

/-- The first journal row of the retained tail. -/
def oldestRetained (s : Store) (expired : ℤ) : Option ℕ :=
  let recent := (s.journal.rows.filter fun r => expired < r.2.created).map fun r => r.2.item.seq
  (recent.insertionSort fun a b => Decimal.textLe a.repr b.repr = true).head?

/-- The floor a pass raises the journal to. -/
def nextFloor (s : Store) (expired : ℤ) : ℕ :=
  let floor := (s.heldSequences expired).foldl min s.head.seq
  let floor := match s.oldestRetained expired with
    | some oldest => min floor (oldest-1)
    | none => floor
  max floor s.head.minRetainedSeq

/-- Whether a recorded version is the current one of its unit. -/
def currentVersion (s : Store) (k : VersionKey) : Bool :=
  (s.units.get k.2.1).any fun unit => versionKey unit = k

/-- Drop the journal up to a floor, and the receipts and superseded versions past retention. -/
def prune (s : Store) (expired : ℤ) (floor : ℕ) : Store :=
  { s with
    journal := s.journal.deleteWhere fun _ row =>
      Decimal.textLe row.item.seq.repr floor.repr
    operations := s.operations.deleteWhere fun _ row => row.created ≤ expired
    writerVersions := s.writerVersions.deleteWhere fun k row =>
      decide (row.created ≤ expired) && !s.currentVersion k
    head := { s.head with minRetainedSeq := floor } }

/-- `gc_versions` with the keys: every version the units, the pins and the journal hold. -/
def heldVersions (s : Store) : List UnitChange :=
  s.units.rows.map Prod.snd ++
    (s.statePins.rows.flatMap fun r => r.2.units.rows.map Prod.snd) ++
    s.journal.rows.map fun r => r.2.item.change

/-- The bodies one version names as an alias. -/
def aliasRoots (c : UnitChange) : Answer (List String) :=
  match c.value with
  | .inline bytes =>
    if isAlias c.key then
      match aliasObject cr bytes with
      | .ok digest => .ok digest.toList
      | .error _ => .error (.new "corrupt-metadata" 503)
    else .ok []
  | _ => .ok []

def rootAliasBodies : List UnitChange → Answer (List String)
  | [] => .ok []
  | c :: cs => do pure ((← aliasRoots cr c) ++ (← rootAliasBodies cs))

/-- The hashes an object value names itself. -/
def valueRoots (c : UnitChange) : List String :=
  match c.value with
  | .object descriptorHash descriptor => [descriptor.objectHash,descriptorHash]
  | _ => []

/-- `gc_roots` at the time of the pass. -/
def gcRoots (s : Store) (clock : ℤ) : Answer (List String) := do
  let aliases ← rootAliasBodies cr s.heldVersions
  pure (s.objectLeases.rows.map (fun r => r.1.2) ++ s.objectCustody.rows.map (fun r => r.1.2) ++
    ((s.uploads.rows.filter fun r => clock < r.2.expires).map fun r => r.2.hash) ++
    s.uploadDeltaBases.rows.map (fun r => r.1.2) ++
    s.downloadDeltaBases.rows.map (fun r => r.1.2) ++
    aliases ++ s.heldVersions.flatMap valueRoots)

/-- The edges out of a descriptor row. -/
def descriptorEdges (r : String × DescriptorRow) : List (String × String) :=
  (r.2.object :: (r.2.body.dependencyRoot.toList ++ r.2.body.relationRoot.toList ++
    r.2.body.dependencies)).map fun target => (r.1,target)

/-- `edges` of the collecting query. -/
def gcEdges (s : Store) : List (String × String) :=
  s.descriptors.rows.flatMap descriptorEdges ++ s.referenceChildren.rows.map Prod.fst ++
    s.referenceObjects.rows.map Prod.fst

/-- Delete every row of the object tables that is not alive. -/
def sweep (s : Store) (alive : List String) : Store :=
  { s with
    descriptors := s.descriptors.deleteWhere fun digest _ => digest ∉ alive
    referenceChildren := s.referenceChildren.deleteWhere fun e _ => e.1 ∉ alive
    referenceObjects := s.referenceObjects.deleteWhere fun e _ => e.1 ∉ alive
    referenceRelations := s.referenceRelations.deleteWhere fun e _ => e.1 ∉ alive
    referenceNodes := s.referenceNodes.deleteWhere fun digest _ => digest ∉ alive
    objects := s.objects.deleteWhere fun digest _ => digest ∉ alive }

/-- The store a pass collects from: what has run out is gone and the journal is pruned. -/
def pruned (s : Store) (current : ℤ) : Store :=
  let s := (s.expire current).purgeRevokedDevices
  s.prune (current - retentionSeconds) (s.nextFloor (current - retentionSeconds))

/-- The transaction of `maintain_at`. `clock` is the time `unixepoch()` reads in it. An alias
that cannot be read undoes the pass. -/
def maintainAt (s : Store) (current clock : ℤ) : Answer ℕ × Store :=
  let p := s.pruned current
  match p.gcRoots cr clock with
  | .error e => (.error e,s)
  | .ok roots => (.ok p.head.minRetainedSeq,p.sweep (Closure.closure p.gcEdges roots))

/-- `rotate_restored_epoch` under a fresh epoch. -/
def rotateRestoredEpoch (s : Store) (epoch : String) : Store :=
  { s with
    head := { RemoteHead.genesis cr s.head.libraryId epoch with
      seq := s.head.seq
      minRetainedSeq := s.head.seq }
    journal := .empty
    statePins := .empty
    uploads := .empty
    uploadDeltaBases := .empty
    downloadDeltas := .empty
    downloadDeltaBases := .empty
    objectLeases := .empty
    devices := s.devices.mapValues fun _ _ => ⟨true,0,none⟩ }

/-- `add_device` under a fresh id. -/
def addDevice (s : Store) (id : String) : Store :=
  { s with devices := s.devices.insertOrIgnore id ⟨false,0,none⟩ }

def revokeDevice (s : Store) (id : String) : Answer Unit × Store :=
  match validateId id with
  | .error e => (.error (.ofWire e),s)
  | .ok () =>
    match s.devices.get id with
    | none => (.error (.new "device-not-found" 404),s)
    | some row => (.ok (),{ s with devices := s.devices.upsert id { row with revoked := true } })

def leaseObject (s : Store) (device : Device) (digest : String) (now : ℤ) : Store :=
  { s with objectLeases := s.objectLeases.upsert (device.id,digest) (now + 86400) }

/-- `put_object` of bytes under their hash. -/
def putObject (s : Store) (device : Device) (digest : String) (bytes : List UInt8) (now : ℤ) :
    Answer Unit × Store :=
  let checked : Answer Unit := do
    lift (validateHash digest)
    require (bytes.length ≤ maxTargetBytes) (.new "object-too-large" 413)
    s.requireDevice cr device
    require (hash cr bytes = digest) (.new "hash-mismatch" 400)
  match checked with
  | .error e => (.error e,s)
  | .ok () =>
    let s := { s with objects := s.objects.insertOrIgnore digest bytes }
    (.ok (),s.leaseObject device digest now)

def pinObjects (s : Store) (device : Device) (hashes : List String) (now : ℤ) :
    Answer Unit × Store :=
  let checked : Answer Unit := do
    require (hashes.length ≤ 1024) (.new "too-many-candidates" 400)
    s.requireDevice cr device
    hashes.forM fun digest => do
      lift (validateHash digest)
      require (s.objectPresence digest = true) (.new "object-not-found" 404)
  match checked with
  | .error e => (.error e,s)
  | .ok () => (.ok (),hashes.foldl (fun s digest => s.leaseObject device digest now) s)

end Store
end RisuNest.Server
