import RisuNest.Lib.Table
import RisuNest.Storage.MessagePages
import RisuNest.Storage.Regions
import RisuNest.Wire.ReferenceTree
import Mathlib.Data.List.Sort

/-! Capturing the messages of a conversation as pages, a manifest and a unit value (`capture` of
`message_pages.rs`). The rows are those of one conversation: every statement names it. -/
namespace RisuNest.Storage
open Wire (Crates utf8 Json RecordDescriptor UnitValue)

/-- The error of a shared format, as the store reports it. -/
def wireCodec {α : Type} (x : Wire.Result α) : StoreResult α := x.mapError fun e => codecError e.code

def recordCodec {α : Type} (x : Result α) : StoreResult α :=
  x.mapError fun e => codecError e.message

/-- A row of `messages`. A hash that was not computed yet is empty. -/
structure MessageRow where
  messageIndex : ℕ
  value : List UInt8
  canonicalHash : String
  canonicalSize : ℕ

structure PageProof where
  messageCount : ℕ
  byteLength : ℕ
  firstLength : ℕ
  endsCut : Bool
  deriving DecidableEq

/-- The rows of one conversation, and the page objects of all of them. -/
structure PageDb where
  /-- `conversations.message_count`, when the conversation is there. -/
  messageCount : Option ℤ
  /-- `messages`, by index. -/
  messages : List MessageRow
  /-- `message_page_indexes`, by start. -/
  pages : List PageBoundary
  /-- `message_page_manifests.body` -/
  manifest : Option (List UInt8)
  /-- `message_page_objects` -/
  objects : Table String (List UInt8)
  /-- `message_page_verified_objects` -/
  verified : Table String Unit
  /-- `message_page_proofs`, with the hashes of the messages. -/
  proofs : Table String (PageProof × List MessageHash)
  /-- `message_page_object_marks` -/
  marks : Table String ℕ

/-! ### Objects -/

section
variable (cr : Crates)

def objectBody (db : PageDb) (hash : String) : StoreResult (Option (List UInt8)) :=
  match db.objects.get hash with
  | none => .ok none
  | some body => do
    require (Wire.hash cr body = hash) (codecError "message object hash mismatch")
    pure (some body)

def putObject (db : PageDb) (hash : String) (body : List UInt8) : StoreResult PageDb := do
  wireCodec (Wire.validateHash hash)
  require (Wire.hash cr body = hash) (codecError "message object hash mismatch")
  let inserted := { db with objects := db.objects.insertOrIgnore hash body }
  let stored ← objectBody cr inserted hash
  require (stored = some body) (codecError "message object identity collision")
  pure { inserted with
    verified := db.verified.insertOrIgnore hash ()
    marks := db.marks.erase hash }

def verifiedObjectPresent (db : PageDb) (hash : String) : StoreResult Bool := do
  wireCodec (Wire.validateHash hash)
  pure (db.verified.contains hash && db.objects.contains hash)

/-- The length and the cut after one message of a page, in `derive_page_proof`. -/
def proofStep (count length : ℕ) (m : MessageHash) : StoreResult (ℕ × Bool) := do
  let length := length + m.byteLength + (if count = 1 then 0 else 1)
  require (length < 2^64) (codecError "message page length overflow")
  let boundary ← recordCodec
    (if count = logicalMessagePageSize then .ok true else endsPage count m)
  pure (length,boundary || decide (maxPageBytes < length))

/-- The loop of `derive_page_proof`. -/
def proofFrom (count length : ℕ) (m : MessageHash) : List MessageHash → StoreResult (ℕ × Bool)
  | [] => proofStep count length m
  | next :: rest => do
    let step ← proofStep count length m
    require (step.2 = false ∧ step.1 + 1 + next.byteLength ≤ maxPageBytes)
      (codecError "message page boundaries are not deterministic")
    proofFrom (count + 1) step.1 next rest

def derivePageProof (page : ManifestPage) : List MessageHash → StoreResult PageProof
  | [] => .error (codecError "message page manifest length mismatch")
  | m :: rest => do
    require ((m :: rest).length = page.messageCount)
      (codecError "message page manifest length mismatch")
    let last ← proofFrom 1 (pagePrefix.length + pageSuffix.length) m rest
    require (last.1 = page.byteLength) (codecError "message page manifest length mismatch")
    pure ⟨page.messageCount,last.1,m.byteLength,last.2⟩

def cachedPageProof (db : PageDb) (hash : String) : Option PageProof :=
  if db.verified.contains hash && db.objects.contains hash then (db.proofs.get hash).map Prod.fst
  else none

/-- A row of `message_page_proofs` is inserted once. -/
def insertPageProof (db : PageDb) (page : ManifestPage) (proof : PageProof)
    (hashes : List MessageHash) : StoreResult PageDb := do
  require (proof.byteLength < 2^63 ∧ proof.firstLength < 2^63)
    (codecError "message size exceeds database integer range")
  require (db.proofs.get page.hash = none) (.store "message page proof is immutable")
  pure { db with proofs := db.proofs.insertOrIgnore page.hash (proof,hashes) }

def storePageProof (db : PageDb) (page : ManifestPage) (hashes : List MessageHash) :
    StoreResult PageDb := do
  let proof ← derivePageProof page hashes
  let present ← verifiedObjectPresent db page.hash
  require (present = true) (codecError "message object is not verified")
  match cachedPageProof db page.hash with
  | some existing => do
    require (existing = proof) (codecError "message page proof mismatch")
    pure db
  | none => insertPageProof db page proof hashes

/-! ### The manifest -/

/-- `MessageManifest::encode`: the canonical JSON of the manifest. -/
def ManifestPage.toJson (page : ManifestPage) : Json :=
  .obj [("hash",.str page.hash),("messageCount",.str page.messageCount.repr),
    ("byteLength",.str page.byteLength.repr)]

def MessageManifest.toJson (m : MessageManifest) : Json :=
  .obj [("schema",.str m.schema),("messageCount",.str m.messageCount.repr),
    ("pages",.arr (m.pages.map ManifestPage.toJson))]

def MessageManifest.encode (m : MessageManifest) : Result EncodedLogicalObject := do
  m.validate
  let bytes ← (Wire.Payload.encode cr m.toJson).mapError fun e => invalid e.code
  encodedObject cr bytes

/-- `RecordDescriptor::content` -/
def contentDescriptor (objectHash : String) : RecordDescriptor := ⟨objectHash,none,none,[],[],[]⟩

/-- The references of a manifest, in the descriptor when they are few. -/
def referencePages (d : RecordDescriptor) (hashes : List String) :
    StoreResult (RecordDescriptor × List (String × List UInt8)) :=
  if Wire.inlineReferences hashes then .ok ({ d with dependencies := hashes },[])
  else do
    let built ← wireCodec (Wire.buildReferenceTree cr hashes false)
    pure ({ d with dependencyRoot := built.1 },built.2)

/-- `descriptor` -/
def manifestDescriptor (m : MessageManifest) :
    StoreResult (RecordDescriptor × List (String × List UInt8)) := do
  let object ← recordCodec (m.encode cr)
  let referenced ← referencePages cr (contentDescriptor object.hash)
    ((m.pages.map ManifestPage.hash).insertionSort (· ≤ ·)).dedup
  wireCodec referenced.1.validate
  pure referenced

/-- `UnitValue::object` -/
def objectValue (d : RecordDescriptor) : Wire.Result UnitValue := do
  let hash ← d.hash cr
  pure (.object hash d)

def unitValue (db : PageDb) (m : MessageManifest) : StoreResult (UnitValue × PageDb) := do
  let object ← recordCodec (m.encode cr)
  let db ← putObject cr db object.hash object.bytes
  let described ← manifestDescriptor cr m
  let db ← described.2.foldlM (fun db object => putObject cr db object.1 object.2) db
  let body ← wireCodec described.1.bytes
  let db ← putObject cr db (Wire.hash cr body) body
  let value ← wireCodec (objectValue cr described.1)
  pure (value,db)

/-- One page of `save_index`, unless the row is there already. -/
def saveRow (pages : List PageBoundary) (b : PageBoundary) : StoreResult (List PageBoundary) :=
  if b ∈ pages then .ok pages
  else do
    require (b.page.byteLength < 2^63) (codecError "message size exceeds database integer range")
    pure ((pages.filter fun p => p.start ≠ b.start).orderedInsert (fun p q => p.start ≤ q.start) b)

def saveIndex (db : PageDb) (pages : List PageBoundary) (m : MessageManifest) :
    StoreResult PageDb := do
  recordCodec m.validate
  let kept := db.pages.filter fun old => decide (old.start ∈ pages.map PageBoundary.start)
  let rows ← pages.foldlM saveRow kept
  let encoded ← recordCodec (m.encode cr)
  pure { db with pages := rows, manifest := some encoded.bytes }

/-! ### The walk -/

/-- A row's hash is filled in. -/
def fillHash (db : PageDb) (index : ℕ) (hash : MessageHash) : PageDb :=
  { db with
    messages := db.messages.map fun row =>
      if row.messageIndex = index
        then { row with canonicalHash := hash.hash, canonicalSize := hash.byteLength }
      else row }

def messageValue (db : PageDb) (index : ℕ) : StoreResult (List UInt8) :=
  match db.messages.find? fun row => row.messageIndex = index with
  | some row => .ok row.value
  | none => .error (.store "query returned no rows")

/-- `next_hash` of a row. -/
def rowHash (db : PageDb) (row : MessageRow) : StoreResult (PageDb × MessageHash) :=
  if row.canonicalHash ≠ "" then .ok (db,⟨row.canonicalHash,row.canonicalSize⟩)
  else do
    let body ← messageValue db row.messageIndex
    let bytes ← wireCodec (Wire.Payload.canonicalize cr body)
    let cached := MessageHash.fromBytes cr bytes
    require (cached.byteLength < 2^63) (codecError "message size exceeds database integer range")
    pure (fillHash db row.messageIndex cached,cached)

/-- A query of rows: the row that was read ahead, with its hash, and the rows behind it. -/
structure Cursor where
  next : Option (ℕ × MessageHash)
  rest : List MessageRow

def nextHash (db : PageDb) : List MessageRow → StoreResult (PageDb × Cursor)
  | [] => .ok (db,⟨none,[]⟩)
  | row :: rest => do
    let hashed ← rowHash cr db row
    pure (hashed.1,⟨some (row.messageIndex,hashed.2),rest⟩)

/-- A page that was filled: its end, its bytes and the hashes of its messages. -/
structure Filled where
  db : PageDb
  position : ℕ
  bytes : List UInt8
  hashes : List MessageHash
  cursor : Cursor

/-- One message of a page: its body, checked against its hash. -/
def messageBody (db : PageDb) (position : ℕ) (next : ℕ × MessageHash) :
    StoreResult (List UInt8) := do
  require (next.1 = position) (codecError "noncontiguous conversation messages")
  let value ← messageValue db position
  let body ← wireCodec (Wire.Payload.canonicalize cr value)
  require (MessageHash.fromBytes cr body = next.2) (codecError "cached message hash mismatch")
  pure body

/-- The inner loop of `capture`. The first message of the page is the one that was read ahead. -/
def fillCaptured (db : PageDb) (start position : ℕ) (bytes : List UInt8)
    (hashes : List MessageHash) (next : ℕ × MessageHash) : List MessageRow → StoreResult Filled
  | [] => do
    let body ← messageBody cr db position next
    let bytes := (if start < position then bytes ++ utf8 [','] else bytes) ++ body
    let _ ← recordCodec (cutAfter (position + 1 - start) bytes.length next.2 [])
    pure ⟨db,position + 1,bytes,hashes ++ [next.2],⟨none,[]⟩⟩
  | row :: rest => do
    let body ← messageBody cr db position next
    let bytes := (if start < position then bytes ++ utf8 [','] else bytes) ++ body
    let hashed ← rowHash cr db row
    let cut ← recordCodec (cutAfter (position + 1 - start) bytes.length next.2 [hashed.2])
    if cut then
      pure ⟨hashed.1,position + 1,bytes,hashes ++ [next.2],
        ⟨some (row.messageIndex,hashed.2),rest⟩⟩
    else
      fillCaptured hashed.1 start (position + 1) bytes (hashes ++ [next.2])
        (row.messageIndex,hashed.2) rest

end

/-- The last page that starts before a position. -/
def restart (previous : List PageBoundary) (oldStart : ℕ) : ℕ :=
  (previous.takeWhile fun p => decide (p.start < oldStart)).length - 1

/-- Old pages that are taken over, and where the walk goes on; nowhere when they are the last. -/
structure Reused where
  pages : List PageBoundary
  resume : Option (ℕ × List DirtyRegion)

/-- The regions from the one on that the walk is in or past. -/
def regionsAt (start : ℕ) : List DirtyRegion → List DirtyRegion
  | region :: next :: rest =>
    if next.newStart ≤ start then regionsAt start (next :: rest) else region :: next :: rest
  | regions => regions

/-- The position of an old page in the new list, behind a region. -/
def DirtyRegion.shift (region : DirtyRegion) (start : ℕ) : ℕ :=
  start - region.oldEnd + region.newEnd

/-- Where the old pages end that a walk may take over before the next region. -/
def reuseLimit (previous : List PageBoundary) : List DirtyRegion → ℕ
  | [] => previous.length
  | next :: _ => restart previous next.oldStart

/-- Once a recomputed page lines up with an old page past the changed range, the old pages up to
the next changed range are reused. -/
def reuse (previous : List PageBoundary) (b : PageBoundary) : List DirtyRegion → Option Reused
  | [] => none
  | region :: rest =>
    if b.start < region.newEnd then none
    else
      let oldStart := b.start - region.newEnd + region.oldEnd
      let oldPage := previous.findIdx fun p => p.start = oldStart
      let limit := reuseLimit previous rest
      if oldPage < limit ∧ (previous[oldPage]?).map PageBoundary.page = some b.page then
        some ⟨((previous.take limit).drop oldPage).map fun p => { p with start := region.shift p.start },
          (previous[limit]?).map fun p => (region.shift p.start,rest)⟩
      else none

section
variable (cr : Crates) (count : ℕ) (previous : List PageBoundary)

/-- The page of what was filled. -/
def filledPage (start : ℕ) (filled : Filled) :
    StoreResult (PageBoundary × EncodedLogicalObject) := do
  let object ← recordCodec (encodedObject cr (filled.bytes ++ pageSuffix))
  pure (⟨start,⟨object.hash,filled.position - start,object.size⟩⟩,object)

/-- A new page is stored. -/
def writePage (filled : Filled) (page : PageBoundary × EncodedLogicalObject) :
    StoreResult PageDb := do
  let db ← putObject cr filled.db page.2.hash page.2.bytes
  storePageProof db page.1.page filled.hashes

/-- What reads the messages from a position on. -/
def queryMessages (db : PageDb) (position : ℕ) : StoreResult (PageDb × Cursor) :=
  nextHash cr db (db.messages.filter fun row => decide (position ≤ row.messageIndex))

/-- Where the walk is: its pages so far belong to no later round. -/
structure Walk where
  db : PageDb
  position : ℕ
  cursor : Cursor
  regions : List DirtyRegion

/-- Where the walk goes on behind pages that were taken over. -/
def resumeAt (db : PageDb) : Option (ℕ × List DirtyRegion) → StoreResult Walk
  | none => .ok ⟨db,count,⟨none,[]⟩,[]⟩
  | some (position,regions) =>
    if position < count then do
      let queried ← queryMessages cr db position
      pure ⟨queried.1,position,queried.2,regions⟩
    else .ok ⟨db,position,⟨none,[]⟩,regions⟩

/-- One page of the walk: the pages it adds, and where the walk goes on. Without edits nothing is
reused. -/
def walkPage (edited : Bool) (w : Walk) (next : ℕ × MessageHash) :
    StoreResult (List PageBoundary × Walk) := do
  let filled ← fillCaptured cr w.db w.position w.position pagePrefix [] next w.cursor.rest
  let page ← filledPage cr w.position filled
  let regions := regionsAt w.position w.regions
  match if edited then reuse previous page.1 regions else none with
  | some reused => do
    let resumed ← resumeAt cr count filled.db reused.resume
    pure (reused.pages,resumed)
  | none => do
    let db ← writePage cr filled page
    pure ([page.1],⟨db,filled.position,filled.cursor,regions⟩)

/-- The walk. Every round reads a message at least, so as many rounds as rows are enough. -/
def walkPages (edited : Bool) : ℕ → Walk → StoreResult (List PageBoundary × Walk)
  | 0, w => .ok ([],w)
  | rounds+1, w =>
    match w.cursor.next with
    | none => .ok ([],w)
    | some next => do
      let step ← walkPage cr count previous edited w next
      let rest ← walkPages edited rounds step.2
      pure (step.1 ++ rest.1,rest.2)

/-- The pages that are kept before the walk, and where it starts. -/
def startOf (regions : Option (List DirtyRegion)) : List PageBoundary × ℕ :=
  match regions with
  | some (first :: _) =>
    let kept := restart previous first.oldStart
    (previous.take kept,((previous[kept]?).map PageBoundary.start).getD 0)
  | some [] => (previous,count)
  | none => ([],0)

/-- The regions of the edits, unless there is nothing they could be edits of. -/
def regionsOf (edits : Option (List MessageEdit)) : StoreResult (Option (List DirtyRegion)) :=
  match edits with
  | some edits =>
    if previous = [] then .ok none
    else do
      let oldCount := (previous.map fun p => p.page.messageCount).sum
      require (oldCount < 2^64) (codecError "message page count overflow")
      let regions ← dirtyRegions oldCount count edits
      pure (some regions)
  | none => .ok none

end

section
variable (cr : Crates)

/-- The pages of a conversation that has messages or none. -/
def capturePages (db : PageDb) (count : ℕ) (regions : Option (List DirtyRegion)) :
    StoreResult (UnitValue × PageDb) := do
  let start := startOf count db.pages regions
  let w ← resumeAt cr count db (some (start.2,regions.getD []))
  let walked ← walkPages cr count db.pages regions.isSome db.messages.length w
  require (walked.2.position = count) (codecError "conversation message count mismatch")
  let pages := start.1 ++ walked.1
  let manifest : MessageManifest := ⟨manifestSchema,count,pages.map PageBoundary.page⟩
  let saved ← saveIndex cr walked.2.db pages manifest
  unitValue cr saved manifest

/-- The statements of `capture`. -/
def captureRows (db : PageDb) (edits : Option (List MessageEdit)) :
    StoreResult (UnitValue × PageDb) :=
  match db.messageCount with
  | none => .ok (.deleted,{ db with pages := [], manifest := none })
  | some count => do
    require (0 ≤ count) (codecError "negative conversation message count")
    let regions ← regionsOf count.toNat db.pages edits
    capturePages cr db count.toNat regions

/-- `capture`. Its transaction is dropped with everything it wrote when it fails. -/
def capture (db : PageDb) (edits : Option (List MessageEdit)) : StoreResult UnitValue × PageDb :=
  match captureRows cr db edits with
  | .ok captured => (.ok captured.1,captured.2)
  | .error e => (.error e,db)

end
end RisuNest.Storage
