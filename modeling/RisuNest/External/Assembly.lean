import RisuNest.External.DocumentLength
import RisuNest.Wire.ReferenceWalk

/-! Segments are assembled of what waits in the outbox: one entry after the other, with the objects
that it names, as long as the segment can still be sealed (`lww_engine.rs`). -/
namespace RisuNest.External.Documents.Capturing
open Pack (Hash)
open Wire (Crates Json UnitKey UnitValue hexDigit)

def segmentBytes : ℕ := 64*1024*1024

def maxLocatorObjectBytes : ℕ := 8192

def maxLocatorCollectionBytes : ℕ := 128

/-- Control objects above this length are frozen from their own files. -/
def maxBufferedControlBytes : ℕ := 8*1024*1024

structure OutboxEntry where
  key : UnitKey
  stamp : SizedStamp
  value : UnitValue

/-- A body that is sealed and uploaded on its own, with its place once it is complete. -/
structure SealedBody where
  objectId : String
  contentHash : String
  byteLength : UInt64
  sha256 : String
  complete : Bool
  locator : Option RemoteLocator

structure FrozenAsset where
  contentHash : String
  byteLength : UInt64

def FrozenAsset.isSmall (a : FrozenAsset) : Bool := a.byteLength.toNat ≤ smallBodyBytes

structure FrozenControl where
  contentHash : String
  byteLength : UInt64

structure FrozenControlCatalog where
  catalog : StoredObject
  rootedAtMs : UInt64

inductive AssetReference
  | catalog (object : StoredObject)
  | standalone (body : LargeBody)
  deriving DecidableEq

structure FrozenAssetReference where
  contentHash : String
  byteLength : UInt64
  rootedAtMs : UInt64
  reference : AssetReference

/-! ### Lengths -/

def checkedAdd (a b : ℕ) : Provided ℕ := if a + b < 2^64 then .ok (a + b) else .error .corrupt

def checkedMul (a b : ℕ) : Provided ℕ := if a * b < 2^64 then .ok (a * b) else .error .corrupt

def reservedLength (catalogs placeholders locator : ℕ) : Provided ℕ := do
  let catalogs ← checkedMul maxMetadataBytes catalogs
  let bodies ← checkedMul locator placeholders
  checkedAdd catalogs bodies

/-- The length of a segment under assembly, kept per entry. -/
structure AssemblyLength where
  fixed : ℕ
  pages : ℕ
  pageBytes : ℕ
  smallAssets : ℕ
  placeholders : ℕ

def AssemblyLength.total (l : AssemblyLength) (controls : Bool) (locator : ℕ) : Provided ℕ := do
  let catalogs := controls.toNat + (decide (0 < l.smallAssets)).toNat
  let length ← checkedAdd l.fixed l.pages
  let reserved ← reservedLength catalogs l.placeholders locator
  checkedAdd length reserved

def sealedLength (plaintextLength : ℕ) : Provided ℕ := do
  let length ← corrupting (ciphertextLength plaintextLength)
  require (length ≤ segmentBytes) .fileTooLarge
  pure length

def admits (length : ℕ) : Provided Bool :=
  match sealedLength length with
  | .ok _ => .ok true
  | .error .fileTooLarge => .ok false
  | .error e => .error e

/-- A body that is not sealed yet. -/
def placeholder (objectId : String) (plaintextByteLength : UInt64) : LargeBody :=
  ⟨objectId,zeroHash,0,plaintextByteLength,none⟩

/-- The longest that a body becomes which had no place yet. -/
def filledPlaceholder (connectionIdentity : String) : LargeBody :=
  { placeholder "" 0 with
    sha256 := String.ofList (List.replicate 64 'f')
    byteLength := .ofNat (2^64 - 1)
    locator := some ⟨connectionIdentity,
      some (String.ofList (List.replicate maxLocatorCollectionBytes '\x01')),
      String.ofList (List.replicate maxLocatorObjectBytes '\x01')⟩ }

/-- `locator_reserve`: what a body without a place can grow by. -/
def locatorReserve (connectionIdentity : String) : Provided ℕ := do
  let filled ← canonical (some (filledPlaceholder connectionIdentity).json)
  let empty ← canonical (some (placeholder "" 0).json)
  if empty.length ≤ filled.length then .ok (filled.length - empty.length) else .error .corrupt

/-! ### The assembly -/

/-- A segment under assembly, and what goes with it. -/
@[ext] structure Assembly where
  payload : Segment
  bodies : List SealedBody
  assets : TextMap FrozenAsset
  controls : TextMap String
  frozenControls : TextMap FrozenControl
  reusedControls : TextMap FrozenControlCatalog
  reusedAssets : TextMap FrozenAssetReference
  length : AssemblyLength
  selected : List OutboxEntry

/-- What an assembly is made with. -/
structure Capture where
  library : String
  writer : String
  seq : UInt64
  /-- The level unit that every segment carries. -/
  levelChange : Change
  repository : RepositoryHandle

/-- What the store and other services answer while an entry is taken in. -/
structure Answers where
  /-- `Cancellation::check`, when it is a hash's turn -/
  check : String → Provided Unit
  /-- `trusted_control_time`, when it is a hash's turn -/
  now : String → Option UInt64
  /-- A page of a reference tree. -/
  page : String → Wire.Result (List UInt8)
  isControl : String → Provided Bool
  reusableControl : String → UInt64 → Provided (Option FrozenControlCatalog)
  /-- The length, the time and the place of an asset that is there already. -/
  reusableAsset : String → UInt64 → Provided (Option (UInt64 × UInt64 × AssetReference))
  nativeLength : String → Provided (Option ℕ)
  objectBody : String → Provided (Option (List UInt8))
  /-- The length of a body, here or wherever it is held. -/
  bodyLength : String → Provided UInt64
  /-- `Uuid::new_v4` -/
  newId : String → String
  /-- `StagedControls::freeze` -/
  freeze : String → String → Provided FrozenControl

namespace Assembly

/-- Whether an object is in the segment already. -/
def holds (st : Assembly) (hash : String) : Bool :=
  st.payload.messagePages.contains hash || st.controls.contains hash || st.assets.contains hash ||
    st.reusedAssets.contains hash || st.payload.largeBodies.contains hash

def sealingReserve (st : Assembly) (repository : RepositoryHandle) : Provided ℕ := do
  let catalogs := (decide (st.controls.rows ≠ [])).toNat +
    (st.assets.values.any FrozenAsset.isSmall).toNat
  let placeholders := (st.payload.largeBodies.values.filter fun body => body.locator = none).length
  let locator ← locatorReserve repository.connectionIdentity
  reservedLength catalogs placeholders locator

/-- Whether what is assembled so far can be sealed. -/
def admitted (st : Assembly) (reserve : ℕ) : Provided Bool := do
  let total ← st.length.total (decide (st.controls.rows ≠ [])) reserve
  admits total

end Assembly

/-! ### The objects of an entry -/

/-- `hex::encode` -/
def hexText (h : Hash) : String :=
  String.ofList (h.val.flatMap fun b => [hexDigit (b.toNat/16),hexDigit (b.toNat%16)])

def pluginValueParts (key : UnitKey) : UnitValue → List String
  | .object _ descriptor => if key.component 0 = "plugin-local" then descriptor.dependencies else []
  | _ => []

/-- The last of the members with a name. -/
def lastMember (name : String) : Json → Option Json
  | .obj ms => Table.lookup name ms.reverse
  | _ => none

section
variable (cr : Crates) (answers : Answers)

/-- The objects that a value names, in no order. -/
def namedObjects : UnitValue → Provided (List String)
  | .object _ descriptor => do
    let listed := descriptor.objectHash :: descriptor.dependencies
    match descriptor.dependencyRoot with
    | none => pure listed
    | some root => corrupting (Wire.visitReferenceTree cr false answers.page
        (fun hash _ hashes => .ok (hash :: hashes)) root listed)
  | .inline bytes =>
    match (cr.base64Decode bytes).bind cr.readJson with
    | none => .error .corrupt
    | some value => .ok ((lastMember "objectHash" value).bind Json.text?).toList
  | .deleted => .ok []

/-- A `BTreeSet<String>` of texts, in its order. -/
def sortedTexts (texts : List String) : List String :=
  (SortedMap.ofRows (texts.map fun text => (text,()))).rows.map Prod.fst

/-- A catalog among those that are there, once. -/
def joinCatalog (catalogs : List StoredObject) (catalog : StoredObject) :
    Provided (List StoredObject) :=
  match catalogs.find? fun root => root.header.objectId = catalog.header.objectId with
  | some previous => if previous = catalog then .ok catalogs else .error .corrupt
  | none => .ok (catalogs ++ [catalog])

/-- What is there already is asked for at a trusted time only. -/
def whenTrusted {α : Type} (now : Option UInt64) (ask : UInt64 → Provided (Option α)) :
    Provided (Option α) :=
  match now with
  | none => .ok none
  | some now => ask now

/-- Whether a control object is frozen from its own file, without being read. -/
def isNative (parts : List String) (hash : String) : Provided Bool :=
  if hash ∈ parts then .ok true
  else (answers.nativeLength hash).map fun n => n.any fun n => maxBufferedControlBytes < n

/-- A control object: in a catalog that is there, or frozen, or a page of the segment. -/
def includeControl (parts : List String) (st : Assembly) (hash : String) : Provided Assembly := do
  let reusable ← whenTrusted (answers.now hash) (answers.reusableControl hash)
  match reusable with
  | some proof => do
    let catalogs ← joinCatalog st.payload.dataCatalogs proof.catalog
    pure { st with
      payload := { st.payload with dataCatalogs := catalogs }
      reusedControls := st.reusedControls.insert (hexText proof.catalog.ciphertextSha256) proof }
  | none => do
    let native ← isNative answers parts hash
    -- an empty entry is frozen from the native body
    if native then pure { st with controls := st.controls.insert hash "" }
    else do
      let body ← answers.objectBody hash
      match body with
      | none => .error .corrupt
      | some bytes =>
        let encoded := cr.base64Encode bytes
        if smallBodyBytes < bytes.length then
          pure { st with controls := st.controls.insert hash encoded }
        else pure { st with payload :=
          { st.payload with messagePages := st.payload.messagePages.insert hash encoded } }

/-- The segment with an asset that is there already. -/
def referTo (payload : Segment) (hash : String) : AssetReference → Provided Segment
  | .catalog catalog => (joinCatalog payload.assetCatalogs catalog).map fun catalogs =>
      { payload with assetCatalogs := catalogs }
  | .standalone body => .ok { payload with largeBodies := payload.largeBodies.insert hash body }

/-- An asset: where it is already, or as it is held now. -/
def includeAsset (st : Assembly) (hash : String) : Provided Assembly := do
  let reusable ← whenTrusted (answers.now hash) (answers.reusableAsset hash)
  match reusable with
  | some (byteLength,rootedAtMs,reference) => do
    let payload ← referTo st.payload hash reference
    pure { st with
      payload := payload
      reusedAssets := st.reusedAssets.insert hash ⟨hash,byteLength,rootedAtMs,reference⟩ }
  | none => do
    let byteLength ← answers.bodyLength hash
    let st := { st with assets := st.assets.insert hash ⟨hash,byteLength⟩ }
    if smallBodyBytes < byteLength.toNat then
      let id := answers.newId hash
      pure { st with
        payload := { st.payload with
          largeBodies := st.payload.largeBodies.insert hash (placeholder id byteLength) }
        bodies := st.bodies ++ [⟨id,hash,0,"",false,none⟩] }
    else pure st

def includeNew (parts : List String) (st : Assembly) (hash : String) : Provided Assembly := do
  let control ← answers.isControl hash
  if control then includeControl cr answers parts st hash else includeAsset answers st hash

/-- One object that an entry names, with those that were new before it. -/
def includeObject (parts : List String) (s : Assembly × List String) (hash : String) :
    Provided (Assembly × List String) := do
  answers.check hash
  if s.1.holds hash then pure s
  else do
    let st ← includeNew cr answers parts s.1 hash
    pure (st,s.2 ++ [hash])

def includeObjects (entry : OutboxEntry) (st : Assembly) : Provided (Assembly × List String) := do
  let named ← namedObjects cr answers entry.value
  (sortedTexts named).foldlM
    (includeObject cr answers (pluginValueParts entry.key entry.value)) (st,[])

end

/-! ### One entry -/

/-- The counts before an entry. -/
structure Marks where
  changes : ℕ
  messagePages : ℕ
  dataCatalogs : ℕ
  assetCatalogs : ℕ
  largeBodies : ℕ
  bodies : ℕ

def Assembly.marks (st : Assembly) : Marks where
  changes := st.payload.changes.length
  messagePages := st.payload.messagePages.rows.length
  dataCatalogs := st.payload.dataCatalogs.length
  assetCatalogs := st.payload.assetCatalogs.length
  largeBodies := st.payload.largeBodies.rows.length
  bodies := st.bodies.length

def OutboxEntry.change (e : OutboxEntry) : Change := ⟨e.key,e.stamp,e.value⟩

section
variable (cr : Crates) (c : Capture)

/-- A segment of the entry's own items, without its pages. -/
def deltaOf (marks : Marks) (st : Assembly) (fresh : List String) (entry : OutboxEntry) : Segment :=
  { Segment.new c.library c.writer c.seq with
    changes := [entry.change]
    dataCatalogs := st.payload.dataCatalogs.drop marks.dataCatalogs
    assetCatalogs := st.payload.assetCatalogs.drop marks.assetCatalogs
    largeBodies := st.payload.largeBodies.restrict fresh }

/-- A segment of the entry's own pages. -/
def pagesOf (st : Assembly) (fresh : List String) : Segment :=
  { Segment.new c.library c.writer c.seq with
    messagePages := st.payload.messagePages.restrict fresh }

/-- The bytes that some pages decode to, on top of those before. -/
def addPageBytes (total : ℕ) (pages : List String) : Provided ℕ :=
  pages.foldlM (fun total body => do
    let n ← checkedMul body.utf8ByteSize 3
    checkedAdd total (n/4)) total

/-- The length with an entry, whose own items are encoded alone and joined to the length so far. -/
def measure (empty : ℕ) (marks : Marks) (st : Assembly) (fresh : List String)
    (entry : OutboxEntry) : Provided AssemblyLength := do
  let delta := deltaOf c marks st fresh entry
  let pages := pagesOf c st fresh
  let smallAssets := st.length.smallAssets +
    fresh.countP fun hash => (st.assets.get hash).any FrozenAsset.isSmall
  let placeholders := st.length.placeholders +
    (delta.largeBodies.values.filter fun body => body.locator = none).length
  let bytes ← delta.encodeCapture cr
  let fixed ← checkedAdd (bytes.length - empty + joined marks.changes 1 +
    joined marks.dataCatalogs delta.dataCatalogs.length +
    joined marks.assetCatalogs delta.assetCatalogs.length +
    joined marks.largeBodies delta.largeBodies.rows.length) st.length.fixed
  if pages.messagePages.rows = [] then
    pure ⟨fixed,st.length.pages,st.length.pageBytes,smallAssets,placeholders⟩
  else do
    let bytes ← pages.encodeCapture cr
    let length ← checkedAdd (bytes.length - empty +
      joined marks.messagePages pages.messagePages.rows.length) st.length.pages
    let pageBytes ← addPageBytes st.length.pageBytes pages.messagePages.values
    pure ⟨fixed,length,pageBytes,smallAssets,placeholders⟩

end

/-- `move_pages`: every page becomes a control object. -/
def movePages (st : Assembly) : Assembly × List String :=
  ({ st with
      payload := { st.payload with messagePages := .empty }
      controls := st.controls.insertAll st.payload.messagePages
      length := { st.length with pages := 0, pageBytes := 0 } },
    st.payload.messagePages.rows.map Prod.fst)

/-- Pages are moved out where they are too many or the segment is too long; what was moved, and
whether the segment can be sealed then. -/
def settle (reserve : ℕ) (st : Assembly) : Provided (Assembly × List String × Bool) := do
  let (st, moved) := if smallBodyBytes < st.length.pageBytes then movePages st else (st,[])
  let fits ← st.admitted reserve
  if fits = false ∧ st.payload.messagePages.rows ≠ [] then do
    let (st, more) := movePages st
    let fits ← st.admitted reserve
    pure (st,moved ++ more,fits)
  else pure (st,moved,fits)

/-- The entry is taken out again, with all that came with it. -/
def rollBack (marks : Marks) (before : AssemblyLength) (st : Assembly)
    (fresh moved : List String) : Assembly :=
  let (controls, pages) := SortedMap.moveTo moved (st.controls,st.payload.messagePages)
  { st with
    payload := { st.payload with
      changes := st.payload.changes.take marks.changes
      messagePages := pages.eraseAll fresh
      dataCatalogs := st.payload.dataCatalogs.take marks.dataCatalogs
      assetCatalogs := st.payload.assetCatalogs.take marks.assetCatalogs
      largeBodies := st.payload.largeBodies.eraseAll fresh }
    bodies := st.bodies.take marks.bodies
    assets := st.assets.eraseAll fresh
    controls := controls.eraseAll fresh
    reusedControls := st.reusedControls.eraseAll
      ((st.payload.dataCatalogs.drop marks.dataCatalogs).map fun o => hexText o.ciphertextSha256)
    reusedAssets := st.reusedAssets.eraseAll fresh
    length := before }

/-- A control object that is not frozen yet is. -/
def freezeControl (answers : Answers) (st : Assembly) (hash : String) : Provided Assembly :=
  if st.frozenControls.contains hash then .ok st
  else match st.controls.get hash with
    | none => .ok st
    | some encoded => do
      let control ← answers.freeze hash encoded
      pure { st with
        controls := st.controls.insert hash ""
        frozenControls := st.frozenControls.insert hash control }

/-- What comes of an entry: the assembly with it, what came with it, and whether it fits. -/
structure Grown where
  assembly : Assembly
  fresh : List String
  moved : List String
  fits : Bool

section
variable (cr : Crates) (c : Capture)

/-- An entry is taken in with its objects, and measured. -/
def takeIn (empty : ℕ) (st : Assembly) (entry : OutboxEntry) (answers : Answers) :
    Provided (Assembly × List String) := do
  let (grown, fresh) ← includeObjects cr answers entry st
  let length ← measure cr c empty st.marks grown fresh entry
  pure ({ grown with
    payload := { grown.payload with changes := grown.payload.changes ++ [entry.change] }
    length := length },fresh)

/-- An entry is taken in and settled. -/
def grow (empty reserve : ℕ) (st : Assembly) (entry : OutboxEntry) (answers : Answers) :
    Provided Grown := do
  let (grown, fresh) ← takeIn cr c empty st entry answers
  let (settled, moved, fits) ← settle reserve grown
  pure ⟨settled,fresh,moved,fits⟩

/-- The body of the loop over the outbox, and whether the loop goes on. -/
def addEntry (empty reserve : ℕ) (st : Assembly) (entry : OutboxEntry) (answers : Answers) :
    Provided (Assembly × Bool) :=
  -- the level unit that the segment carries stands for a queued one
  if Wire.LibraryFormat.isKey entry.key then
    .ok ({ st with selected := st.selected ++ [entry] },true)
  else do
    let g ← grow cr c empty reserve st entry answers
    if g.fits then do
      let frozen ← (g.fresh ++ g.moved).foldlM (freezeControl answers) g.assembly
      pure ({ frozen with selected := frozen.selected ++ [entry] },true)
    else do
      let back := rollBack st.marks st.length g.assembly g.fresh g.moved
      require (back.selected ≠ []) .fileTooLarge
      pure (back,false)

/-- The assembly before any entry. -/
def start (fixed : ℕ) : Assembly where
  payload := { Segment.new c.library c.writer c.seq with changes := [c.levelChange] }
  bodies := []
  assets := .empty
  controls := .empty
  frozenControls := .empty
  reusedControls := .empty
  reusedAssets := .empty
  length := ⟨fixed,0,0,0,0⟩
  selected := []

/-- What is kept of a captured segment until it is sealed: its bytes, which are kept in base64, and
what has to be uploaded before. -/
structure Publication where
  payload : List UInt8
  assets : List FrozenAsset
  controls : List FrozenControl
  reusedAssets : List FrozenAssetReference

/-- `capture_length`: what a captured segment can reach once it is sealed. -/
def captureLength (st : Assembly) (plaintext : List UInt8) : Provided ℕ := do
  let reserve ← st.sealingReserve c.repository
  checkedAdd plaintext.length reserve

/-- An assembled segment is captured if it can be sealed whatever is filled in. -/
def capture (st : Assembly) : Provided Publication := do
  let plaintext ← st.payload.encodeCapture cr
  let captured ← captureLength c st plaintext
  let _ ← corrupting (sealedLength captured)
  pure ⟨plaintext,st.assets.values,st.frozenControls.values,st.reusedAssets.values⟩

/-- The catalogs that are uploaded for the control objects and for the small assets. -/
def Publication.catalogs (p : Publication) (data assets : StoredObject) :
    List StoredObject × List StoredObject :=
  (if p.controls = [] then [] else [data],
    if p.assets.any FrozenAsset.isSmall then [assets] else [])

/-- A large body is as it was reused, or takes what its upload gave. -/
def fillBody (reused : List FrozenAssetReference) (bodies : List SealedBody)
    (row : String × LargeBody) : Provided (String × LargeBody) :=
  match reused.find? fun proof => proof.contentHash = row.1 with
  | some proof => if proof.reference = .standalone row.2 then .ok row else .error .corrupt
  | none =>
    match (bodies.find? fun item => item.objectId = row.2.objectId).filter fun item =>
        item.complete && item.sha256 ≠ "" && 0 < item.byteLength with
    | none => .error .corrupt
    | some prepared =>
      match prepared.locator with
      | none => .error .corrupt
      | some locator => do
        locator.validateFor c.repository
        require (∀ collection ∈ locator.collection,
          collection.utf8ByteSize ≤ maxLocatorCollectionBytes) .corrupt
        pure (row.1,{ row.2 with
          sha256 := prepared.sha256, byteLength := prepared.byteLength, locator := some locator })

/-- The captured segment with its catalogs and its bodies. -/
def fill (p : Publication) (data assets : StoredObject) (bodies : List SealedBody) :
    Provided Segment := do
  let payload ← Segment.decodeCapture cr p.payload
  let rows ← payload.largeBodies.rows.mapM (fillBody c p.reusedAssets bodies)
  let (dataCatalogs, assetCatalogs) := p.catalogs data assets
  pure { payload with
    dataCatalogs := payload.dataCatalogs ++ dataCatalogs
    assetCatalogs := payload.assetCatalogs ++ assetCatalogs
    largeBodies := .ofRows rows }

end

end RisuNest.External.Documents.Capturing
