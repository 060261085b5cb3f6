import RisuNest.Server.Retention

/-! The requests of a device that read its receipts, pins and custody, and the ones that bind its
writer (`lww.rs`, `retention.rs`, `registration_claims.rs`). -/
namespace RisuNest.Server
open Wire

structure StatePage where
  pinId : String
  startSeq : ℕ
  items : List UnitChange
  nextKey : Option UnitKey
  deriving DecidableEq

structure RetentionPage where
  objects : List RetainedObject
  nextAfter : Option String
  deriving DecidableEq

structure NewDeviceClaimRequest where
  writerId : String
  authorizationId : String
  formerToken : Option String
  deriving DecidableEq

structure NewDeviceClaimReceipt where
  authorizationId : String
  writerId : String
  deviceId : String
  libraryId : String
  epoch : String
  formerCredentialInactive : Bool
  deriving DecidableEq

/-- A row of `device_writer_claims`, by device. -/
structure ClaimRow where
  authorizationId : String
  writerId : String
  digest : String
  receipt : NewDeviceClaimReceipt
  deriving DecidableEq

structure NewDeviceClaimState where
  claim : Option (String × NewDeviceClaimReceipt)
  used : Bool
  deriving DecidableEq

namespace NewDeviceClaimRequest

def validate (r : NewDeviceClaimRequest) : Wire.Result Unit := do
  validateWriterId r.writerId
  validateId r.authorizationId
  match r.formerToken with
  | some token =>
    if token.length = 64 ∧ token.toList.all (fun c => c.isDigit || ('a' ≤ c.toLower ∧ c.toLower ≤ 'f'))
    then .ok () else .error ⟨"invalid-former-token"⟩
  | none => .ok ()

def toControl (r : NewDeviceClaimRequest) : Control :=
  .obj [("authorizationId",.str r.authorizationId),
    ("formerToken",match r.formerToken with | some token => .str token | none => .null),
    ("writerId",.str r.writerId)]

def digest (cr : Crates) (r : NewDeviceClaimRequest) : String := hash cr r.toControl.encode

end NewDeviceClaimRequest

namespace Store
variable (cr : Crates)

/-- `operation`, behind its admission. -/
def operationReceipt (s : Store) (device : Device) (id : String) : Answer OperationReceipt :=
  match s.operations.get (device.id,id) with
  | some row => .ok row.receipt
  | none => .error (.new "operation-not-found" 404)

/-- Fill a page with units, up to its limit of items and of bytes. -/
def fillUnits (limit : ℕ) : ℕ → ℕ → List UnitChange → List UnitChange × Bool
  | _, _, [] => ([],false)
  | count, bytes, c :: rest =>
    let size := c.toControl.encode.length
    if count = limit ∨ maxMetadataBytes - 1024 < bytes + size then ([],true)
    else
      let (items,more) := fillUnits limit (count+1) (bytes+size) rest
      (c :: items,more)

/-- The rows of the query of `state_page`: the units of a pin behind a key, in order. -/
def pinRange (pin : PinRow) (after : Option UnitKey) : List UnitChange :=
  let behind := pin.units.rows.filter fun r => decide ((after.map UnitKey.asStr).getD "" < r.1.asStr)
  (behind.insertionSort fun a b => a.1.asStr ≤ b.1.asStr).map Prod.snd

/-- `state_page` at a time. -/
def statePage (s : Store) (device : Device) (id : String) (after : Option UnitKey) (limit : ℕ)
    (now : ℤ) : Answer StatePage := do
  lift (validateId id)
  require (limit ≠ 0 ∧ limit ≤ 1024) (.new "invalid-limit" 400)
  s.requireDevice cr device
  match s.statePins.get id with
  | none => .error (.new "state-pin-expired" 410)
  | some pin => do
    require (pin.device = device.id ∧ now < pin.expires) (.new "state-pin-expired" 410)
    let (items,more) := fillUnits limit 0 512 ((pinRange pin after).take (limit+1))
    require (¬ (more = true ∧ items = [])) (.new "metadata-too-large" 413)
    pure ⟨id,pin.startSeq,items,if more then (items.getLast?).map UnitChange.key else none⟩

def retainedObjects (s : Store) (device : Device) (epoch : String) (after : Option String) :
    Answer RetentionPage := do
  match after with
  | some after => lift (validateHash after)
  | none => pure ()
  s.requireDevice cr device
  require (s.head.epoch = epoch) (.new "epoch-mismatch" 409)
  let own := s.objectCustody.rows.filter fun r =>
    decide (r.1.1 = device.id ∧ after.getD "" < r.1.2)
  let rows := ((own.filterMap fun r =>
    (s.objects.get r.1.2).map fun body => RetainedObject.mk r.1.2 body.length r.2).insertionSort
      fun a b => a.hash ≤ b.hash).take (custodyPageSize+1)
  pure ⟨rows.take custodyPageSize,
    if custodyPageSize < rows.length then ((rows.take custodyPageSize).getLast?).map (·.hash)
    else none⟩

def registrationUsed (s : Store) (device : Device) : Bool :=
  s.writers.any (fun _ d => d = device.id) || s.operations.any fun k _ => k.1 = device.id

def bindDeviceWriter (s : Store) (device : Device) (writerId : String) : Answer Unit × Store :=
  let checked : Answer Bool := do
    lift (validateWriterId writerId)
    s.requireDevice cr device
    require (s.writers.any (fun w d => d = device.id && w ≠ writerId) = false)
      (.new "registration-used" 409)
    match s.writers.get writerId with
    | some owner => do
      require (owner = device.id) (.new "writer-collision" 409)
      pure false
    | none => do
      require (s.registrationUsed device = false) (.new "registration-used" 409)
      pure true
  match checked with
  | .error e => (.error e,s)
  | .ok false => (.ok (),s)
  | .ok true => (.ok (),{ s with writers := s.writers.insertOrIgnore writerId device.id })

/-- `new_device_writer_claim`, on the claims so far. -/
def newDeviceWriterClaim (s : Store) (claims : Table String ClaimRow) (device : Device) :
    Answer NewDeviceClaimState := do
  s.requireDevice cr device
  pure ⟨(claims.get device.id).map fun row => (row.digest,row.receipt),s.registrationUsed device⟩

/-- The checks of `claim_new_device_writer` on a request that was not answered before. `former`
is the device of the former token. -/
def checkClaim (s : Store) (claims : Table String ClaimRow) (device : Device)
    (r : NewDeviceClaimRequest) (former : Option String) : Answer Unit := do
  require (s.registrationUsed device = false) (.new "registration-used" 409)
  require (claims.any (fun _ row => row.authorizationId = r.authorizationId) = false)
    (.new "registration-integrity" 409)
  require (s.writers.contains r.writerId = false ∧
    s.writerVersions.any (fun k _ => k.1 = r.writerId) = false) (.new "writer-collision" 409)
  require (former ≠ some device.id) (.new "registration-not-new" 409)

/-- `claim_new_device_writer`. `former` is the device of the former token, if it has one. -/
def claimNewDeviceWriter (s : Store) (claims : Table String ClaimRow) (device : Device)
    (r : NewDeviceClaimRequest) (former : Option String) :
    Answer NewDeviceClaimReceipt × Store × Table String ClaimRow :=
  let digest := r.digest cr
  let looked : Answer (Option ClaimRow) := do
    lift r.validate
    s.requireDevice cr device
    pure (claims.get device.id)
  match looked with
  | .error e => (.error e,s,claims)
  | .ok (some prior) =>
    if prior.digest ≠ digest then (.error (.new "registration-integrity" 409),s,claims)
    else (.ok prior.receipt,s,claims)
  | .ok none =>
    match s.checkClaim claims device r former with
    | .error e => (.error e,s,claims)
    | .ok () =>
      let receipt : NewDeviceClaimReceipt :=
        ⟨r.authorizationId,r.writerId,device.id,s.head.libraryId,s.head.epoch,r.formerToken.isSome⟩
      (.ok receipt,
        { s with
          writers := s.writers.insertOrIgnore r.writerId device.id
          devices := s.devices.mapValues fun id row =>
            if former = some id then { row with revoked := true } else row },
        claims.insertOrIgnore device.id ⟨r.authorizationId,r.writerId,digest,receipt⟩)

end Store
end RisuNest.Server
