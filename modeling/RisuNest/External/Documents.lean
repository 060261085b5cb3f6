import RisuNest.External.DocumentJson
import RisuNest.External.Objects

/-! The documents that devices publish: segments of changes and checkpoints of the whole library
(`lww_segment.rs`, `lww_checkpoint.rs`). -/
namespace RisuNest.External.Documents
open CatalogPages (hashJson hashOf integerJson integerOf listOf)
open Envelope (headerOf)
open Pack (Formatted Hash)
open Wire (CanonicalJson.decode CanonicalJson.encode Control Crates Json KeyText RecordDescriptor
  Stamp UnitKey UnitValue validateHash validateId validateWriterId)

/-- `map_err(|_| corrupt())` -/
def corrupting {ε α : Type} (x : Except ε α) : Provided α := x.mapError fun _ => .corrupt

@[simp] lemma corrupting_eq_ok {ε α : Type} {x : Except ε α} {a : α} :
    corrupting x = .ok a ↔ x = .ok a := by
  cases x <;> simp [corrupting, Except.mapError]

/-- A stamp, whose numbers are a `u64` and a `u32`. -/
abbrev SizedStamp := {s : Stamp // s.physicalMs < 2^64 ∧ s.logical < 2^32}

structure Change where
  key : UnitKey
  stamp : SizedStamp
  value : UnitValue

structure LargeBody where
  objectId : String
  sha256 : String
  byteLength : UInt64
  plaintextByteLength : UInt64
  locator : Option RemoteLocator
  deriving DecidableEq

/-- `WireLocator`, with the fields of a `RemoteLocator`. -/
abbrev WireLocator := RemoteLocator

structure StoredObject where
  header : Envelope.PublicObjectHeader
  locator : WireLocator
  ciphertextLength : UInt64
  ciphertextSha256 : Hash
  plaintextLength : UInt64
  plaintextSha256 : Hash
  deriving DecidableEq

structure LibrarySnapshotRef where
  recordCatalog : StoredObject
  assetCatalog : StoredObject
  contentFingerprint : Hash

@[ext] structure Segment where
  schema : String
  libraryId : String
  writerId : String
  seq : UInt64
  changes : List Change
  messagePages : TextMap String
  dataCatalogs : List StoredObject
  assetCatalogs : List StoredObject
  largeBodies : TextMap LargeBody

structure Checkpoint where
  schema : String
  snapshotId : String
  repositoryId : String
  libraryId : String
  coveredPrefixes : TextMap UInt64
  stateIdentity : String
  library : LibrarySnapshotRef
  assetCatalogs : List StoredObject
  standaloneBodies : TextMap LargeBody

def segmentSchema : String := "risunest.segment/v1"

def checkpointSchema : String := "risunest.lww-snapshot/v1"

def smallBodyBytes : ℕ := 4*1024*1024

/-- `MAX_METADATA_BYTES` of the storage format. -/
def maxMetadataBytes : ℕ := 16*1024*1024

/-- `"0".repeat(64)` -/
def zeroHash : String := String.ofList (List.replicate 64 '0')

def Segment.new (library writer : String) (seq : UInt64) : Segment :=
  ⟨segmentSchema,library,writer,seq,[],.empty,[],[],.empty⟩

/-! ### What is valid -/

/-- `WireLocator::validate` -/
def validateLocator (l : WireLocator) : Formatted Unit :=
  require (l.connectionIdentity ≠ "" ∧ l.connectionIdentity.utf8ByteSize ≤ 8192 ∧ l.object ≠ "" ∧
    l.object.utf8ByteSize ≤ 8192 ∧ holdsNul l.connectionIdentity = false ∧
    holdsNul l.object = false ∧
    ∀ value ∈ l.collection, value.utf8ByteSize ≤ 8192 ∧ holdsNul value = false)
    ⟨"invalid-object-locator"⟩

def StoredObject.validate (o : StoredObject) : Formatted Unit := do
  o.header.validate
  validateLocator o.locator
  let length ← Envelope.envelopeLength o.header
  require (o.ciphertextLength.toNat = length ∧ o.plaintextLength = o.header.plaintextLength)
    ⟨"object-length-mismatch"⟩

def LibrarySnapshotRef.validate (l : LibrarySnapshotRef) (repositoryId : String) : Formatted Unit :=
  [l.recordCatalog,l.assetCatalog].forM fun o => do
    o.validate
    require (o.header.repositoryId = repositoryId ∧ o.header.role = .catalog)
      ⟨"invalid-library-catalog"⟩

section
variable (cr : Crates)

/-- The checks of one change, with the keys before it. -/
def checkChange (keys : List String) (c : Change) : Provided (List String) := do
  corrupting c.stamp.val.validate
  corrupting (c.value.validate cr)
  require (c.key.asStr ∉ keys) .corrupt
  pure (c.key.asStr :: keys)

/-- The checks of one message page. -/
def checkPage (row : String × String) : Provided Unit :=
  match cr.base64Decode row.2 with
  | none => .error .corrupt
  | some body => require (cr.base64Encode body = row.2 ∧ Wire.hash cr body = row.1) .corrupt

/-- The checks of one catalog, with the ids and the repository of those before it. -/
def checkCatalog (before : List String × Option String) (catalog : StoredObject) :
    Provided (List String × Option String) := do
  corrupting catalog.validate
  require (catalog.header.role = .catalog ∧ catalog.header.objectId ∉ before.1 ∧
    ∀ id ∈ before.2, id = catalog.header.repositoryId) .corrupt
  pure (catalog.header.objectId :: before.1,some catalog.header.repositoryId)

/-- The checks of one large body, which has a place once it is `prepared`. -/
def checkLargeBody (prepared : Bool) (row : String × LargeBody) : Provided Unit := do
  corrupting (validateHash row.1)
  corrupting (validateHash row.2.sha256)
  corrupting (validateId row.2.objectId)
  require (¬ (prepared = true ∧ (row.2.byteLength = 0 ∨ row.2.sha256 = zeroHash ∨
    row.2.plaintextByteLength.toNat ≤ smallBodyBytes ∨ row.2.locator = none))) .corrupt

namespace Segment

def validateInner (s : Segment) (prepared : Bool) : Provided Unit := do
  require (s.schema = segmentSchema ∧ s.libraryId ≠ "" ∧ s.seq ≠ 0) .corrupt
  corrupting (validateWriterId s.writerId)
  let _ ← s.changes.foldlM (checkChange cr) []
  s.messagePages.rows.forM (checkPage cr)
  let _ ← (s.dataCatalogs ++ s.assetCatalogs).foldlM checkCatalog ([],none)
  s.largeBodies.rows.forM (checkLargeBody prepared)

def validate (s : Segment) : Provided Unit := s.validateInner cr true

end Segment

/-- `Uuid::parse_str` takes this text for an id, which is written as the text again. -/
def isUuid (s : String) : Bool :=
  s.toList.length = 36 && s.toList.zipIdx.all fun p =>
    if p.2 = 8 ∨ p.2 = 13 ∨ p.2 = 18 ∨ p.2 = 23 then p.1 = '-' else Wire.isHexLower p.1

/-- The checks of one standalone body. -/
def checkStandaloneBody (row : String × LargeBody) : Provided Unit := do
  corrupting (validateHash row.1)
  corrupting (validateHash row.2.sha256)
  require (isUuid row.2.objectId = true ∧ ∃ l ∈ row.2.locator, l.object ≠ "") .corrupt
  let length ← corrupting (ciphertextLength row.2.plaintextByteLength.toNat)
  require (length = row.2.byteLength.toNat) .corrupt

namespace Checkpoint

/-- What `Checkpoint::encode` checks before it writes. -/
def validate (c : Checkpoint) : Provided Unit := do
  require (c.schema = checkpointSchema ∧ c.libraryId ≠ "") .corrupt
  corrupting (validateId c.snapshotId)
  corrupting (validateHash c.stateIdentity)
  c.coveredPrefixes.rows.forM fun row => corrupting (validateWriterId row.1)
  corrupting (c.library.validate c.repositoryId)
  c.standaloneBodies.rows.forM checkStandaloneBody
  c.assetCatalogs.forM fun catalog => do
    corrupting catalog.validate
    require (catalog.header.repositoryId = c.repositoryId) .corrupt

end Checkpoint

/-! ### Documents as JSON -/

def locatorJson (l : RemoteLocator) : Json :=
  .obj [("connectionIdentity",.str l.connectionIdentity),("collection",optionJson .str l.collection),
    ("object",.str l.object)]

def LargeBody.json (b : LargeBody) : Json :=
  .obj [("objectId",.str b.objectId),("sha256",.str b.sha256),("byteLength",integerJson b.byteLength),
    ("plaintextByteLength",integerJson b.plaintextByteLength),
    ("locator",optionJson locatorJson b.locator)]

def Change.json (c : Change) : Json :=
  .obj [("key",.str c.key.asStr),("stamp",c.stamp.val.toControl.json),
    ("value",c.value.toControl.json)]

def StoredObject.json (o : StoredObject) : Json :=
  .obj [("header",o.header.json),("locator",locatorJson o.locator),
    ("ciphertextLength",integerJson o.ciphertextLength),
    ("ciphertextSha256",hashJson o.ciphertextSha256),
    ("plaintextLength",integerJson o.plaintextLength),
    ("plaintextSha256",hashJson o.plaintextSha256)]

def LibrarySnapshotRef.json (l : LibrarySnapshotRef) : Json :=
  .obj [("recordCatalog",l.recordCatalog.json),("assetCatalog",l.assetCatalog.json),
    ("contentFingerprint",hashJson l.contentFingerprint)]

/-- Stored objects, nested in a document. -/
def catalogsJson (catalogs : List StoredObject) : Option Json :=
  nest (.arr (catalogs.map StoredObject.json))

def Segment.json (s : Segment) : Option Json := do
  let dataCatalogs ← catalogsJson s.dataCatalogs
  let assetCatalogs ← catalogsJson s.assetCatalogs
  pure (.obj [("schema",.str s.schema),("libraryId",.str s.libraryId),("writerId",.str s.writerId),
    ("seq",integerJson s.seq),("changes",.arr (s.changes.map Change.json)),
    ("messagePages",mapJson .str s.messagePages),("dataCatalogs",dataCatalogs),
    ("assetCatalogs",assetCatalogs),("largeBodies",mapJson LargeBody.json s.largeBodies)])

def Checkpoint.json (c : Checkpoint) : Option Json := do
  let library ← nest c.library.json
  let assetCatalogs ← catalogsJson c.assetCatalogs
  pure (.obj [("schema",.str c.schema),("snapshotId",.str c.snapshotId),
    ("repositoryId",.str c.repositoryId),("libraryId",.str c.libraryId),
    ("coveredPrefixes",mapJson integerJson c.coveredPrefixes),
    ("stateIdentity",.str c.stateIdentity),("library",library),("assetCatalogs",assetCatalogs),
    ("standaloneBodies",mapJson LargeBody.json c.standaloneBodies)])

/-! ### JSON as documents -/

def locatorOf (v : Json) : Option RemoteLocator :=
  match recordOf true [("connectionIdentity",false),("collection",true),("object",false)] v with
  | some [connectionIdentity,collection,object] => do
    pure ⟨← connectionIdentity.text?,← optionOf Json.text? collection,← object.text?⟩
  | _ => none

def largeBodyOf (v : Json) : Option LargeBody :=
  match recordOf true [("objectId",false),("sha256",false),("byteLength",false),
      ("plaintextByteLength",false),("locator",true)] v with
  | some [objectId,sha256,byteLength,plaintextByteLength,locator] => do
    pure ⟨← objectId.text?,← sha256.text?,← integerOf byteLength,← integerOf plaintextByteLength,
      ← optionOf locatorOf locator⟩
  | _ => none

/-- `DecimalU64` -/
def decimalOf (text : String) : Option UInt64 := integerOf (.str text)

/-- The fields of a stamp, whose writer is checked as it is read. -/
def stampOfFields (physicalMs logical writerId : String) : Option SizedStamp := do
  let physicalMs ← decimalOf physicalMs
  let logical ← decimalOf logical
  if h : logical.toNat < 2^32 ∧ validateWriterId writerId = .ok () then
    some ⟨⟨physicalMs.toNat,logical.toNat,writerId⟩,physicalMs.toNat_lt,h.1⟩
  else none

def stampOf : Control → Option SizedStamp
  | .obj ms => do
    if ms.all fun m => m.1 ∈ ["physicalMs","logical","writerId"] then
      stampOfFields (← (Control.member? "physicalMs" ms).bind Control.text?)
        (← (Control.member? "logical" ms).bind Control.text?)
        (← (Control.member? "writerId" ms).bind Control.text?)
    else none
  | .arr [physicalMs,logical,writerId] => do
    stampOfFields (← physicalMs.text?) (← logical.text?) (← writerId.text?)
  | _ => none

/-- A value of the variant that its kind names. -/
def taggedValue (kind : String) (fields : Control) : Option UnitValue :=
  if kind = "inline" then
    match fields with
    | .obj [("bytes", bytes)] => bytes.text?.map .inline
    | .arr [bytes] => bytes.text?.map .inline
    | _ => none
  else if kind = "object" then
    match fields with
    | .obj ms => do
      if ms.all fun m => m.1 ∈ ["descriptorHash","descriptor"] then
        pure (.object (← (Control.member? "descriptorHash" ms).bind Control.text?)
          (← (Control.member? "descriptor" ms).bind RecordDescriptor.read))
      else none
    | .arr [descriptorHash,descriptor] => do
      pure (.object (← descriptorHash.text?) (← RecordDescriptor.read descriptor))
    | _ => none
  else if kind = "deleted" then
    match fields with
    | .obj [] => some .deleted
    | .arr [] => some .deleted
    | _ => none
  else none

/-- `UnitValue::deserialize` -/
def unitValueOf : Control → Option UnitValue
  | .obj ms => do
    taggedValue (← (Control.member? "kind" ms).bind Control.text?)
      (.obj (ms.filter fun m => m.1 ≠ "kind"))
  | .arr (kind :: fields) => do taggedValue (← kind.text?) (.arr fields)
  | _ => none

/-- `UnitKey`, by `try_from` its text. -/
def unitKeyOf (v : Json) : Option UnitKey := do
  let text ← v.text?
  match KeyText.tryFrom cr text with
  | .error _ => none
  | .ok key => (← key.components cr) |> UnitKey.new |>.toOption

/-- A change may have fields that are not known. -/
def changeOf (v : Json) : Option Change :=
  match recordOf false [("key",false),("stamp",false),("value",false)] v with
  | some [key,stamp,value] => do
    pure ⟨← unitKeyOf cr key,← stamp.control.bind stampOf,← value.control.bind unitValueOf⟩
  | _ => none

def storedObjectOf (v : Json) : Option StoredObject :=
  match recordOf true [("header",false),("locator",false),("ciphertextLength",false),
      ("ciphertextSha256",false),("plaintextLength",false),("plaintextSha256",false)] v with
  | some [header,locator,ciphertextLength,ciphertextSha256,plaintextLength,plaintextSha256] => do
    pure ⟨← headerOf header,← locatorOf locator,← integerOf ciphertextLength,
      ← hashOf ciphertextSha256,← integerOf plaintextLength,← hashOf plaintextSha256⟩
  | _ => none

def librarySnapshotRefOf (v : Json) : Option LibrarySnapshotRef :=
  match recordOf true [("recordCatalog",false),("assetCatalog",false),
      ("contentFingerprint",false)] v with
  | some [recordCatalog,assetCatalog,contentFingerprint] => do
    pure ⟨← storedObjectOf recordCatalog,← storedObjectOf assetCatalog,← hashOf contentFingerprint⟩
  | _ => none

def catalogsOf (v : Json) : Option (List StoredObject) := (unnest v).bind (listOf storedObjectOf)

def segmentFields : List (String × Bool) :=
  [("schema",false),("libraryId",false),("writerId",false),("seq",false),("changes",false),
    ("messagePages",false),("dataCatalogs",false),("assetCatalogs",false),("largeBodies",false)]

def segmentOf (v : Json) : Option Segment :=
  match recordOf true segmentFields v with
  | some [schema,libraryId,writerId,seq,changes,messagePages,dataCatalogs,assetCatalogs,
      largeBodies] => do
    pure ⟨← schema.text?,← libraryId.text?,← writerId.text?,← integerOf seq,
      ← listOf (changeOf cr) changes,← mapOf Json.text? messagePages,← catalogsOf dataCatalogs,
      ← catalogsOf assetCatalogs,← mapOf largeBodyOf largeBodies⟩
  | _ => none

def checkpointFields : List (String × Bool) :=
  [("schema",false),("snapshotId",false),("repositoryId",false),("libraryId",false),
    ("coveredPrefixes",false),("stateIdentity",false),("library",false),("assetCatalogs",false),
    ("standaloneBodies",false)]

def checkpointOf (v : Json) : Option Checkpoint :=
  match recordOf true checkpointFields v with
  | some [schema,snapshotId,repositoryId,libraryId,coveredPrefixes,stateIdentity,library,
      assetCatalogs,standaloneBodies] => do
    pure ⟨← schema.text?,← snapshotId.text?,← repositoryId.text?,← libraryId.text?,
      ← mapOf integerOf coveredPrefixes,← stateIdentity.text?,
      ← (unnest library).bind librarySnapshotRefOf,← catalogsOf assetCatalogs,
      ← mapOf largeBodyOf standaloneBodies⟩
  | _ => none

/-! ### Encoding and decoding -/

/-- `canonical::encode` of what a document is serialized as. -/
def canonical (v : Option Json) : Provided (List UInt8) :=
  match v with
  | none => .error .corrupt
  | some v => corrupting (CanonicalJson.encode v)

/-- A document is read, and has to be encoded as the same bytes. -/
def decodeDocument {α : Type} (read : Json → Option α) (encode : α → Provided (List UInt8))
    (bytes : List UInt8) : Provided α := do
  let v ← corrupting (CanonicalJson.decode cr bytes bytes.length)
  match read v with
  | none => .error .corrupt
  | some a => do
    let again ← encode a
    require (again = bytes) .corrupt
    pure a

namespace Segment

def encode (s : Segment) : Provided (List UInt8) := do
  s.validate cr
  canonical s.json

def encodeCapture (s : Segment) : Provided (List UInt8) := do
  s.validateInner cr false
  canonical s.json

def decode (bytes : List UInt8) : Provided Segment :=
  decodeDocument cr (segmentOf cr) (encode cr) bytes

def decodeCapture (bytes : List UInt8) : Provided Segment :=
  decodeDocument cr (segmentOf cr) (encodeCapture cr) bytes

end Segment

namespace Checkpoint

def encode (c : Checkpoint) : Provided (List UInt8) := do
  c.validate
  let bytes ← canonical c.json
  require (bytes.length ≤ maxMetadataBytes) .corrupt
  pure bytes

def decode (bytes : List UInt8) : Provided Checkpoint := do
  require (bytes.length ≤ maxMetadataBytes) .corrupt
  decodeDocument cr checkpointOf encode bytes

end Checkpoint
end

end RisuNest.External.Documents
