import RisuNest.Lib.Fallible
import RisuNest.Lib.Table
import RisuNest.Wire.Lww

/-! The server's store: its tables and the checks every operation makes first (`mod.rs`). -/
namespace RisuNest.Server
open Wire

/-- A refused request. -/
structure Error where
  code : String
  status : ℕ
  key : Option String
  journalFloor : Option (ℕ × ℕ)
  deriving DecidableEq, Repr

namespace Error

def new (code : String) (status : ℕ) : Error := ⟨code,status,none,none⟩

def forKey (e : Error) (key : UnitKey) : Error := { e with key := some key.asStr }

def withFloor (e : Error) (floor latest : ℕ) : Error :=
  { e with journalFloor := some (floor,latest) }

/-- `From<WireError> for Error` -/
def ofWire (e : WireError) : Error :=
  if e.code ∈ ["metadata-too-large","batch-too-large","frame-too-large"] then new e.code 413
  else new e.code 400

end Error

abbrev Answer := Except Error

/-- A protocol result as a server result. -/
def lift {α : Type} (r : Wire.Result α) : Answer α := r.mapError Error.ofWire

@[simp] theorem lift_eq_ok {α : Type} {r : Wire.Result α} {a : α} : lift r = .ok a ↔ r = .ok a := by
  cases r <;> simp [lift, Except.mapError]

/-- A device as a request presents it: its id and the library format level it declared. -/
structure Device where
  id : String
  formatLevel : Option ℕ
  deriving DecidableEq, Repr

structure DeviceRow where
  revoked : Bool
  ack : ℕ
  lastAck : Option ℤ
  deriving DecidableEq, Repr

/-- The identity an issued version had, kept so that a stamp names one value. -/
structure VersionRow where
  identity : String
  created : ℤ
  deriving DecidableEq

structure JournalRow where
  item : JournalItem
  created : ℤ
  deriving DecidableEq

structure OperationRow where
  receipt : OperationReceipt
  errorStatus : Option ℕ
  errorKey : Option String
  created : ℤ
  deriving DecidableEq

/-- A read pin with the units it holds. -/
structure PinRow where
  device : String
  startSeq : ℕ
  expires : ℤ
  units : Table UnitKey UnitChange

inductive UploadState
  | opened
  | queued
  | finalizing
  | complete
  deriving DecidableEq, Repr

structure UploadRow where
  device : String
  hash : String
  expires : ℤ
  state : UploadState
  deriving DecidableEq, Repr

structure DownloadRow where
  device : String
  expires : ℤ
  working : Bool
  deriving DecidableEq, Repr

inductive NodeKind
  | objects
  | relations
  deriving DecidableEq, Repr

structure NodeRow where
  kind : NodeKind
  count : ℕ
  depth : ℕ
  first : String
  last : String
  deriving DecidableEq, Repr

structure DescriptorRow where
  object : String
  body : RecordDescriptor
  deriving DecidableEq, Repr

/-- The key of a recorded version: issuing writer, unit, physical and logical time. -/
abbrev VersionKey := String × UnitKey × ℕ × ℕ

def versionKey (c : UnitChange) : VersionKey :=
  (c.stamp.writerId,c.key,c.stamp.physicalMs,c.stamp.logical)

/-- The durable state of the server. An object is present with its bytes; where the bytes lie
and how the transfer jobs fill them in is left out. -/
structure Store where
  head : RemoteHead
  devices : Table String DeviceRow
  writers : Table String String
  writerVersions : Table VersionKey VersionRow
  units : Table UnitKey UnitChange
  retired : Table UnitKey UnitChange
  unitParents : Table (UnitKey × UnitKey) Unit
  journal : Table UnitKey JournalRow
  operations : Table (String × String) OperationRow
  statePins : Table String PinRow
  objects : Table String (List UInt8)
  objectLeases : Table (String × String) ℤ
  objectCustody : Table (String × String) String
  uploads : Table String UploadRow
  uploadDeltaBases : Table (String × String) Unit
  downloadDeltas : Table String DownloadRow
  downloadDeltaBases : Table (String × String) Unit
  referenceNodes : Table String NodeRow
  referenceChildren : Table (String × String) Unit
  referenceObjects : Table (String × String) Unit
  referenceRelations : Table (String × String) Unit
  descriptors : Table String DescriptorRow

/-- The largest level this build knows. -/
def libraryFormatMaxLevel : ℕ := 2

def admitFormat (level : ℕ) (declared : Option ℕ) : Answer Unit :=
  if level ≤ 1 then .ok ()
  else match declared with
    | none => .error (.new "server-incompatible" 409)
    | some d => if d < level then .error (.new "app-update-required" 409) else .ok ()

def formatKey : UnitKey := ⟨["library-format"],by decide⟩

namespace Store
variable (cr : Crates)

/-- The store `init` creates. -/
def genesis (libraryId epoch : String) : Store where
  head := RemoteHead.genesis cr libraryId epoch
  devices := .empty
  writers := .empty
  writerVersions := .empty
  units := .empty
  retired := .empty
  unitParents := .empty
  journal := .empty
  operations := .empty
  statePins := .empty
  objects := .empty
  objectLeases := .empty
  objectCustody := .empty
  uploads := .empty
  uploadDeltaBases := .empty
  downloadDeltas := .empty
  downloadDeltaBases := .empty
  referenceNodes := .empty
  referenceChildren := .empty
  referenceObjects := .empty
  referenceRelations := .empty
  descriptors := .empty

def storedFormat (s : Store) : Answer ℕ :=
  match s.units.get formatKey with
  | none => .ok 1
  | some unit =>
    match LibraryFormat.level cr unit.value with
    | some level => .ok level
    | none => .error (.new "corrupt-metadata" 503)

/-- Whether the device exists and is not revoked. -/
def active (s : Store) (id : String) : Bool :=
  match s.devices.get id with
  | some row => !row.revoked
  | none => false

def requireDevice (s : Store) (device : Device) : Answer Unit := do
  require (s.active device.id = true) (.new "unauthorized" 401)
  let level ← s.storedFormat cr
  admitFormat level device.formatLevel

def objectPresence (s : Store) (digest : String) : Bool := s.objects.contains digest

def maxTargetBytes : ℕ := 16*1024*1024

def getObject (s : Store) (digest : String) : Answer (List UInt8) :=
  match s.objects.get digest with
  | none => .error (.new "object-not-found" 404)
  | some bytes =>
    if maxTargetBytes < bytes.length then .error (.new "corrupt-object" 503) else .ok bytes

/-- Whether the device has been revoked. -/
def revoked (s : Store) (id : String) : Bool :=
  match s.devices.get id with
  | some row => row.revoked
  | none => false

end Store
end RisuNest.Server
