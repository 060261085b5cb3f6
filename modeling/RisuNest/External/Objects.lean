import RisuNest.External.Contract
import RisuNest.Wire.Unit

/-! Remote objects and what identifies them (`contract.rs`, `packaging.rs`, `snapshot.rs`). -/
namespace RisuNest.External
open Wire

inductive ObjectRole
  | descriptor
  | pack
  | catalog
  | syncState
  | segment
  | snapshot
  | backupBundle
  | backupPoint
  | inventoryPage
  | lease
  deriving DecidableEq, Repr

def ObjectRole.name : ObjectRole → String
  | descriptor => "descriptor"
  | pack => "pack"
  | catalog => "catalog"
  | syncState => "syncState"
  | segment => "segment"
  | snapshot => "snapshot"
  | backupBundle => "backupBundle"
  | backupPoint => "backupPoint"
  | inventoryPage => "inventoryPage"
  | lease => "lease"

/-- What a repository handle says about the locators it accepts. -/
structure RepositoryHandle where
  connectionIdentity : String

structure RemoteLocator where
  connectionIdentity : String
  collection : Option String
  object : String
  deriving DecidableEq, Repr

structure Checksum where
  algorithm : String
  value : String
  providerVerified : Bool
  deriving DecidableEq, Repr

structure ObjectReceipt where
  locator : RemoteLocator
  byteLength : ℕ
  version : Option String
  checksum : Option Checksum
  complete : Bool
  deriving DecidableEq, Repr

structure RemoteObject where
  repositoryId : String
  objectId : String
  role : ObjectRole
  receipt : ObjectReceipt
  ciphertextSha256 : String
  plaintextLength : ℕ
  plaintextSha256 : String
  deriving DecidableEq, Repr

def holdsNul (s : String) : Bool := s.toList.any fun c => c = '\x00'

def RemoteLocator.validateFor (l : RemoteLocator) (repository : RepositoryHandle) :
    Provided Unit :=
  if l.connectionIdentity ≠ repository.connectionIdentity ∨ l.object = "" ∨
      8192 < l.object.utf8ByteSize ∨ holdsNul l.object then .error .corrupt
  else .ok ()

def isLowerHex256 (s : String) : Bool := s.toList.length = 64 && s.toList.all isHexLower

/-! ### Texts -/

/-- The text of an object with these members, as a derived serializer writes it. -/
def jsonObject (members : List (String × List Char)) : List Char :=
  '{' :: ((members.map fun m => writeString m.1 ++ ':' :: m.2).intersperse [',']).flatten ++ ['}']

def jsonOption {α : Type} (f : α → List Char) : Option α → List Char
  | none => "null".toList
  | some a => f a

def jsonNumber (n : ℕ) : List Char := n.repr.toList

def jsonBool (b : Bool) : List Char := if b then "true".toList else "false".toList

def jsonNumbers (ns : List ℕ) : List Char :=
  '[' :: ((ns.map jsonNumber).intersperse [',']).flatten ++ [']']

def RemoteLocator.text (l : RemoteLocator) : List Char :=
  jsonObject [("connectionIdentity",writeString l.connectionIdentity),
    ("collection",jsonOption writeString l.collection),("object",writeString l.object)]

def locatorKey (l : RemoteLocator) : String := String.ofList l.text

def Checksum.text (c : Checksum) : List Char :=
  jsonObject [("algorithm",writeString c.algorithm),("value",writeString c.value),
    ("providerVerified",jsonBool c.providerVerified)]

def ObjectReceipt.text (r : ObjectReceipt) : List Char :=
  jsonObject [("locator",r.locator.text),("byteLength",jsonNumber r.byteLength),
    ("version",jsonOption writeString r.version),("checksum",jsonOption Checksum.text r.checksum),
    ("complete",jsonBool r.complete)]

def RemoteObject.text (o : RemoteObject) : List Char :=
  jsonObject [("repositoryId",writeString o.repositoryId),("objectId",writeString o.objectId),
    ("role",writeString o.role.name),("receipt",o.receipt.text),
    ("ciphertextSha256",writeString o.ciphertextSha256),
    ("plaintextLength",jsonNumber o.plaintextLength),
    ("plaintextSha256",writeString o.plaintextSha256)]

/-! ### Stored objects -/

/-- The header that precedes the ciphertext. -/
structure PublicObjectHeader where
  repositoryId : String
  objectId : String
  role : ObjectRole
  plaintextLength : ℕ

namespace PublicObjectHeader

def schema : String := "risunest.external-object/v1"

def validate (h : PublicObjectHeader) : Result Unit :=
  if h.repositoryId = "" ∨ 128 < h.repositoryId.utf8ByteSize ∨ h.objectId = "" ∨
      8192 < h.objectId.utf8ByteSize ∨ holdsNul h.objectId then .error ⟨"invalid-object-header"⟩
  else .ok ()

def text (h : PublicObjectHeader) : List Char :=
  jsonObject [("schema",writeString schema),("repositoryId",writeString h.repositoryId),
    ("objectId",writeString h.objectId),("role",writeString h.role.name),
    ("plaintextLength",writeString h.plaintextLength.repr)]

def encode (h : PublicObjectHeader) : Result (List UInt8) := do
  h.validate
  let encoded := utf8 h.text
  if 32*1024 < encoded.length then throw ⟨"object-header-limit-exceeded"⟩
  pure encoded

end PublicObjectHeader

/-- The result of arithmetic on 64 bits, checked. -/
def checkedU64 (n : ℕ) : Result ℕ := if n < 2^64 then .ok n else .error ⟨"length-overflow"⟩

/-- `crypto::ciphertext_length`: frames of 64 KiB, each with a length and a tag of 17 bytes. -/
def ciphertextLength (length : ℕ) : Result ℕ := do
  let frames := (length + (64*1024 - 1)) / (64*1024)
  let tags ← checkedU64 (frames * (4 + 17))
  let n ← checkedU64 (tags + length)
  checkedU64 (n + (4 + 8 + 24 + 4 + 17))

def envelopeLength (h : PublicObjectHeader) : Result ℕ := do
  let encoded ← h.encode
  let m ← ciphertextLength h.plaintextLength
  checkedU64 (8 + encoded.length + m)

structure StoredObject where
  header : PublicObjectHeader
  locator : RemoteLocator
  ciphertextLength : ℕ
  ciphertextSha256 : List ℕ
  plaintextLength : ℕ
  plaintextSha256 : List ℕ

namespace StoredObject

/-- `WireLocator::validate` -/
def validateLocator (l : RemoteLocator) : Result Unit :=
  if l.connectionIdentity = "" ∨ 8192 < l.connectionIdentity.utf8ByteSize ∨ l.object = "" ∨
      8192 < l.object.utf8ByteSize ∨ holdsNul l.connectionIdentity ∨ holdsNul l.object ∨
      l.collection.any fun c => 8192 < c.utf8ByteSize || holdsNul c then
    .error ⟨"invalid-object-locator"⟩
  else .ok ()

def validate (s : StoredObject) : Result Unit := do
  s.header.validate
  validateLocator s.locator
  let length ← envelopeLength s.header
  if s.ciphertextLength ≠ length ∨ s.plaintextLength ≠ s.header.plaintextLength then
    throw ⟨"object-length-mismatch"⟩

def text (s : StoredObject) : List Char :=
  jsonObject [("header",s.header.text),("locator",s.locator.text),
    ("ciphertextLength",writeString s.ciphertextLength.repr),
    ("ciphertextSha256",jsonNumbers s.ciphertextSha256),
    ("plaintextLength",writeString s.plaintextLength.repr),
    ("plaintextSha256",jsonNumbers s.plaintextSha256)]

end StoredObject

def wireRole : ObjectRole → Provided ObjectRole
  | .segment => .error .unsupported
  | .snapshot => .ok .syncState
  | role => .ok role

def hexValue (c : Char) : ℕ := if c.isDigit then c.toNat - 48 else c.toNat - 87

/-- `decode_hash` of a text that is a hash. -/
def decodeHash (s : String) : List ℕ := (s.toList.toChunks 2).map fun c =>
  hexValue (c.headD '0') * 16 + hexValue (c.getLastD '0')

def RemoteObject.stored (o : RemoteObject) (repository : RepositoryHandle) :
    Provided StoredObject := do
  o.receipt.locator.validateFor repository
  require (o.receipt.complete = true ∧ o.receipt.byteLength ≠ 0 ∧
    isLowerHex256 o.ciphertextSha256 ∧ isLowerHex256 o.plaintextSha256) ErrorKind.corrupt
  let role ← wireRole o.role
  let header : PublicObjectHeader := ⟨o.repositoryId,o.objectId,role,o.plaintextLength⟩
  orCorrupt header.validate
  let stored : StoredObject := ⟨header,o.receipt.locator,o.receipt.byteLength,
    decodeHash o.ciphertextSha256,o.plaintextLength,decodeHash o.plaintextSha256⟩
  orCorrupt stored.validate
  pure stored

/-- `native_identity`: the version and the checksum of a receipt are no part of it. -/
def nativeIdentity (cr : Crates) (o : RemoteObject) (repository : RepositoryHandle) :
    Provided String := do
  o.receipt.locator.validateFor repository
  pure (hash cr (utf8 ({ o with
    receipt := { o.receipt with version := none, checksum := none } }).text))

def objectIdentity (cr : Crates) (o : RemoteObject) (repository : RepositoryHandle) :
    Provided String :=
  if o.role = .segment then nativeIdentity cr o repository
  else do
    let stored ← o.stored repository
    pure (hash cr (utf8 stored.text))

def segmentObjectId (writer : String) (seq : ℕ) (sha256 : String) : Provided String := do
  orCorrupt (validateWriterId writer)
  require (seq ≠ 0 ∧ isLowerHex256 sha256) ErrorKind.corrupt
  pure (writer ++ "-" ++ seq.repr ++ "-" ++ sha256)

/-- `parse_segment_object_id`. Only the text that its parts give again is read, so the writer may
be cut by characters and the sequence be read from digits alone. -/
def parseSegmentObjectId (name : String) : Provided (String × ℕ × String) := do
  let writer := String.ofList (name.toList.take 36)
  let suffix := name.toList.drop 37
  require (name.toList[36]? = some '-') ErrorKind.corrupt
  let digits := suffix.takeWhile fun c => c ≠ '-'
  require (digits.length < suffix.length ∧ digits ≠ [] ∧ digits.all Char.isDigit)
    ErrorKind.corrupt
  let seq := Nat.ofDigitChars 10 digits 0
  require (seq < 2^64) ErrorKind.corrupt
  let digest := String.ofList (suffix.drop (digits.length + 1))
  let id ← segmentObjectId writer seq digest
  require (id = name) ErrorKind.corrupt
  pure (writer,seq,digest)

/-- What `validate_object` asks of the name of a segment. -/
def validateSegmentName (o : RemoteObject) : Provided Unit :=
  if o.role = .segment then do
    let parts ← parseSegmentObjectId o.objectId
    require (parts.2.2 = o.ciphertextSha256) ErrorKind.corrupt
  else .ok ()

/-- What `validate_object` asks of an object without an envelope. -/
def validateNative (o : RemoteObject) (repository : RepositoryHandle) (nativeBody : Bool) :
    Provided Unit := do
  o.receipt.locator.validateFor repository
  require (o.receipt.complete = true ∧ o.receipt.byteLength ≠ 0 ∧
    isLowerHex256 o.ciphertextSha256 ∧ isLowerHex256 o.plaintextSha256 ∧
    (nativeBody → o.role = .pack)) ErrorKind.corrupt
  validateSegmentName o

def validateObject (o : RemoteObject) (repository : RepositoryHandle) (formatRepositoryId : String)
    (nativeBody : Bool) : Provided Unit := do
  if o.role = .segment ∨ nativeBody then validateNative o repository nativeBody
    else (o.stored repository).map fun _ => ()
  require (o.repositoryId = formatRepositoryId ∧ o.role ≠ .descriptor ∧ o.role ≠ .lease)
    ErrorKind.corrupt

end RisuNest.External
