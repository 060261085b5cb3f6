import RisuNest.Server.Descriptors

/-! Pushes of versioned units, their receipts, and the journal readers follow (`lww.rs`). -/
namespace RisuNest.Server
open Wire

/-- The components of the keys a unit lives under. -/
def parentComponents (c : List String) : List (List String) :=
  let kind := component c 0
  let scope := component c 1
  if kind = "character" ∨ kind = "archive" then [["exists","character",scope]]
  else if kind = "preset" ∨ kind = "persona" then [["exists",kind,scope]]
  else if kind = "conversation" ∨ kind = "messages" then
    [["exists","character",scope],["exists","conversation",scope,component c 2]]
  else if kind = "exists" ∧ scope = "conversation" then [["exists","character",component c 2]]
  else if kind = "record" ∧ scope ≠ "plugins" then [["exists",scope,component c 2]]
  else if kind = "order" ∧ scope = "conversations" then [["exists","character",component c 2]]
  else []

def parents (key : UnitKey) : Answer (List UnitKey) :=
  lift ((parentComponents key.components).mapM UnitKey.new)

def isRetirement (c : UnitChange) : Bool :=
  c.key.component 0 = "exists" && c.value = .deleted

def isAlias (key : UnitKey) : Bool := key.component 0 = "asset" || key.component 0 = "inlay"

/-- `alias_object`. A plain reader keeps the last of repeated members. -/
def aliasObject (cr : Crates) (bytes : String) : Answer (Option String) :=
  let invalid : Error := .new "invalid-alias" 400
  match (cr.base64Decode bytes).bind cr.readJson with
  | some (.obj ms) =>
    match Json.get? "objectHash" (.obj ms.reverse) with
    | none => .ok none
    | some .null => .ok none
    | some (.str digest) =>
      match validateHash digest with
      | .ok () => .ok (some digest)
      | .error _ => .error invalid
    | some _ => .error invalid
  | _ => .error invalid

def raisesLevel (cr : Crates) (library : ℕ) (c : UnitChange) : Answer Bool :=
  if c.value = .deleted then .error ((Error.new "library-format-downgrade" 409).forKey c.key)
  else
    match (LibraryFormat.level cr c.value).filter fun _ => LibraryFormat.isCanonical cr c.value with
    | none => .error ((Error.new "invalid-library-format" 400).forKey c.key)
    | some level =>
      if level < library then
        .error ((Error.new "library-format-downgrade" 409).forKey c.key)
      else .ok (library < level)

def needsLevelTwo (c : UnitChange) : Bool :=
  match c.value with
  | .object _ descriptor => c.key.component 0 = "plugin-local" &&
      (descriptor.dependencies ≠ [] || descriptor.dependencyRoot.isSome)
  | _ => false

/-- A push call: the publisher, its request, and the clock it is judged by. -/
structure PushCall where
  device : Device
  request : PushRequest
  emptyOnly : Bool
  clock : Answer ℕ

/-- A push that passed its first lookup and holds the object gate. -/
structure Pending where
  device : Device
  request : PushRequest
  emptyOnly : Bool
  now : ℕ
  digest : String
  preparation : Answer Unit

namespace Store
variable (cr : Crates)

/-- `replay`: a repeated operation answers exactly as it first did, rejection included. -/
def replay (s : Store) (device : Device) (id digest : String) : Answer (Option PushReceipt) :=
  match s.operations.get (device.id,id) with
  | none => .ok none
  | some row =>
    if row.receipt.bodyDigest ≠ digest then .error (.new "operation-integrity" 409)
    else match row.receipt with
      | .accepted _ receipt => .ok (some receipt)
      | .rejected _ _ code _ =>
        match row.errorStatus with
        | none => .error (.new "corrupt-metadata" 503)
        | some status => .error { Error.new code status with key := row.errorKey }

def saveOperation (s : Store) (device : Device) (id : String) (receipt : OperationReceipt)
    (rejection : Option Error) (created : ℤ) : Store :=
  { s with
    operations := s.operations.insertOrIgnore (device.id,id)
      ⟨receipt,rejection.map Error.status,rejection.bind Error.key,created⟩ }

/-- Whether the request holds a level this build does not know. -/
def unknownLevel (changes : List UnitChange) : Bool :=
  changes.any fun c => LibraryFormat.isKey c.key &&
    match LibraryFormat.level cr c.value with
    | some level => libraryFormatMaxLevel < level
    | none => false

/-- The units a request retires. -/
def retiring (changes : List UnitChange) : List UnitKey :=
  (changes.filter isRetirement).map UnitChange.key

/-- Whether the stored records suppress a change: its key or a parent of it is retired. -/
def suppressed (s : Store) (retiring ps : List UnitKey) (c : UnitChange) : Bool :=
  !isRetirement c && (s.retired.contains c.key ||
    ps.any fun p => p ∈ retiring || s.retired.contains p)

/-- An alias whose body cannot be read is not accepted. -/
def checkAlias (c : UnitChange) : Answer Unit :=
  match c.value with
  | .inline bytes =>
    if isAlias c.key then
      ((aliasObject cr bytes).mapError fun e => e.forKey c.key).map fun _ => ()
    else .ok ()
  | _ => .ok ()

/-- A stamp that was issued before keeps the value it had. -/
def checkVersion (s : Store) (c : UnitChange) (identity : String) : Answer Unit :=
  match s.writerVersions.get (versionKey c) with
  | some old =>
    require (old.identity = identity) ((Error.new "equal-stamp-integrity" 409).forKey c.key)
  | none => .ok ()

/-- The change against the stored unit of its key. -/
def compareStored (s : Store) (c : UnitChange) : Answer LwwDecision :=
  match s.units.get c.key with
  | some stored => lift (compareVersion cr stored.stamp stored.value c.stamp c.value)
  | none => .ok .applyRemote

/-- One round of the loop over the changes of a push: whether the change wins. -/
def judge (s : Store) (level now : ℕ) (retiring : List UnitKey) (c : UnitChange) :
    Answer Bool := do
  -- `now.checked_add(MAX_CLOCK_SKEW_MS)` overflows from here on
  require (now < 2^64 - maxClockSkewMs) (.new "clock-overflow" 503)
  require (c.stamp.physicalMs ≤ now + maxClockSkewMs) ((Error.new "clock-skew" 409).forKey c.key)
  let identity ← lift (c.value.identity cr)
  checkAlias cr c
  s.checkVersion c identity
  if LibraryFormat.isKey c.key then raisesLevel cr level c
  else do
    require (¬ (level = 1 ∧ needsLevelTwo c = true))
      ((Error.new "library-format-switch-required" 409).forKey c.key)
    let decision ← s.compareStored cr c
    let ps ← parents c.key
    pure (!s.suppressed retiring ps c && (decision = .applyRemote ||
      (isRetirement c && !s.retired.contains c.key)))

/-- The changes of a push that win, in request order. -/
def winners (s : Store) (level now : ℕ) (retiring : List UnitKey) :
    List UnitChange → Answer (List UnitChange)
  | [] => .ok []
  | c :: cs => do
    let wins ← s.judge cr level now retiring c
    let rest ← winners s level now retiring cs
    pure (if wins then c :: rest else rest)

/-- The checks on the publisher's writer. -/
def checkWriter (s : Store) (device : Device) (writerId : String) : Answer Unit := do
  require (s.writers.any (fun w d => d = device.id && w ≠ writerId) = false)
    (.new "writer-collision" 409)
  match s.writers.get writerId with
  | some owner => require (owner = device.id) (.new "writer-collision" 409)
  | none => pure ()

/-- The checks of a push that applies only to an empty library. -/
def checkEmptyOnly (s : Store) (r : PushRequest) : Answer Unit := do
  match r.changes with
  | [c] => require (LibraryFormat.isKey c.key = true) (.new "invalid-precondition" 400)
  | _ => .error (.new "invalid-precondition" 400)
  require (s.units.any (fun k _ => k ≠ formatKey) = false) (.new "library-not-empty" 409)

/-- The validation closure of `push_at`. -/
def validation (s : Store) (p : Pending) (level : ℕ) : Answer (List UnitChange) := do
  p.preparation
  if p.emptyOnly then s.checkEmptyOnly p.request
  s.checkWriter p.device p.request.writerId
  s.winners cr level p.now (retiring p.request.changes) p.request.changes

/-- Drop the rows that live under a retired key, unless they are retired themselves. -/
def dropChildren {ν : Type} (s : Store) (parent : UnitKey) (t : Table UnitKey ν) :
    Table UnitKey ν :=
  t.deleteWhere fun k _ => s.unitParents.contains (parent,k) && !s.retired.contains k

/-- The statements a retirement runs before its unit is written. -/
def retire (s : Store) (c : UnitChange) : Store :=
  let s := { s with retired := s.retired.upsert c.key c }
  { s with journal := s.dropChildren c.key s.journal, units := s.dropChildren c.key s.units }

/-- Replace the parent rows of a unit. -/
def setParents (s : Store) (key : UnitKey) (ps : List UnitKey) : Store :=
  { s with
    unitParents := ps.foldl (fun t p => t.insertOrIgnore (p,key) ())
      (s.unitParents.deleteWhere fun k _ => k.2 = key) }

/-- Write one winner under a sequence number. -/
def applyWinner (s : Store) (seq : ℕ) (created : ℤ) (ps : List UnitKey) (c : UnitChange) :
    Store :=
  let s := if isRetirement c then s.retire c else s
  let s := { s with units := s.units.upsert c.key c }
  let s := s.setParents c.key ps
  { s with
    journal := (s.journal.erase c.key).insertOrIgnore c.key
      ⟨⟨seq,c.key,c.stamp,c.value⟩,created⟩ }

/-- The loop over the winners. -/
def applyWinners (s : Store) (seq : ℕ) (created : ℤ) : List UnitChange → Answer (Store × ℕ)
  | [] => .ok (s,seq)
  | c :: cs => do
    require (seq + 1 < 2^64) (.new "sequence-overflow" 503)
    let ps ← parents c.key
    applyWinners (s.applyWinner (seq+1) created ps c) (seq+1) created cs

/-- `INSERT OR IGNORE INTO writer_versions` for every change of the request. -/
def recordVersions (s : Store) (created : ℤ) : List UnitChange → Answer Store
  | [] => .ok s
  | c :: cs => do
    let identity ← lift (c.value.identity cr)
    recordVersions { s with
      writerVersions := s.writerVersions.insertOrIgnore (versionKey c) ⟨identity,created⟩ }
      created cs

/-- The head id after a push that accepted something. -/
def nextHeadId (headId digest : String) (seq : ℕ) : String :=
  hash cr (utf8 (headId.toList ++ ':' :: (digest.toList ++ ':' :: seq.repr.toList)))

/-- The accepting half of the transaction of `push_at`. -/
def accept (s : Store) (p : Pending) (created : ℤ) (won : List UnitChange) :
    Answer (PushReceipt × Store) := do
  let s := { s with writers := s.writers.insertOrIgnore p.request.writerId p.device.id }
  let s ← s.recordVersions cr created p.request.changes
  let (s,seq) ← s.applyWinners s.head.seq created won
  let headId := if won = [] then s.head.headId else nextHeadId cr s.head.headId p.digest seq
  let s := { s with head := { s.head with headId := headId, seq := seq } }
  let receipt : PushReceipt :=
    ⟨p.request.operationId,seq,won.map UnitChange.key,p.now⟩
  pure (receipt,s.saveOperation p.device p.request.operationId (.accepted p.digest receipt)
    none created)

/-- Remember a rejection and answer with it. -/
def reject (s : Store) (p : Pending) (created : ℤ) (e : Error) : Answer PushReceipt × Store :=
  (.error e,s.saveOperation p.device p.request.operationId
    (.rejected p.request.operationId p.digest e.code p.now) (some e) created)

/-- Admission in front of either lookup: the device, its level and the library. -/
def admission (s : Store) (device : Device) (r : PushRequest) : Answer Unit := do
  s.requireDevice cr device
  require (r.libraryId = s.head.libraryId) (.new "library-mismatch" 403)

/-- `push_at` up to its transaction: a repeated operation is answered, a new one has its
descriptors prepared. -/
def beginPush (s : Store) (call : PushCall) : (Answer PushReceipt ⊕ Pending) × Store :=
  let r := call.request
  let digest := r.digest cr
  let looked : Answer (ℕ × Option PushReceipt) := do
    lift (validateId r.operationId)
    let now ← call.clock
    s.admission cr call.device r
    pure (now,← s.replay call.device r.operationId digest)
  match looked with
  | .error e => (.inl (.error e),s)
  | .ok (_,some receipt) => (.inl (.ok receipt),s)
  | .ok (now,none) =>
    match lift (r.validate cr) with
    | .error e => (.inr ⟨call.device,r,call.emptyOnly,now,digest,.error e⟩,s)
    | .ok () =>
      let (preparation,s) := s.prepareDescriptors cr r.changes
      (.inr ⟨call.device,r,call.emptyOnly,now,digest,preparation⟩,s)

/-- The transaction of `push_at`. A refusal before the validation, and one of status 500 or
above, is not kept as the operation's answer. -/
def finishPush (s : Store) (p : Pending) (created : ℤ) : Answer PushReceipt × Store :=
  let looked : Answer (Option PushReceipt) := do
    s.admission cr p.device p.request
    s.replay p.device p.request.operationId p.digest
  match looked with
  | .error e => (.error e,s)
  | .ok (some receipt) => (.ok receipt,s)
  | .ok none =>
    match s.storedFormat cr with
    | .error e => (.error e,s)
    | .ok level =>
      if unknownLevel cr p.request.changes then
        (.error (.new "sync-server-update-required" 409),s)
      else
        match s.validation cr p level with
        | .error e => if e.status < 500 then s.reject p created e else (.error e,s)
        | .ok won =>
          match s.accept cr p created won with
          | .error e => (.error e,s)
          | .ok (receipt,s) => (.ok receipt,s)

/-- `push_at` with nothing in between its two parts. -/
def pushAt (s : Store) (call : PushCall) (created : ℤ) : Answer PushReceipt × Store :=
  match s.beginPush cr call with
  | (.inl answer,s) => (answer,s)
  | (.inr p,s) => s.finishPush cr p created

def cancelOperation (s : Store) (device : Device) (id bodyDigest : String) (clock : Answer ℕ)
    (created : ℤ) : Answer OperationReceipt × Store :=
  let looked : Answer (Option OperationRow) := do
    lift (validateId id)
    lift (validateHash bodyDigest)
    s.requireDevice cr device
    pure (s.operations.get (device.id,id))
  match looked with
  | .error e => (.error e,s)
  | .ok (some prior) =>
    if prior.receipt.bodyDigest ≠ bodyDigest then (.error (.new "operation-integrity" 409),s)
    else (.ok prior.receipt,s)
  | .ok none =>
    match clock with
    | .error e => (.error e,s)
    | .ok now =>
      let cancelled : Error := .new "operation-cancelled" 409
      let receipt := OperationReceipt.rejected id bodyDigest cancelled.code now
      (.ok receipt,s.saveOperation device id receipt (some cancelled) created)

/-- The rows of the query of `changes`: the journal between two cursors, by sequence. -/
def journalRange (s : Store) (after through : ℕ) : List JournalItem :=
  let items := (s.journal.rows.map fun r => r.2.item).filter fun i =>
    Decimal.textLt after.repr i.seq.repr && Decimal.textLe i.seq.repr through.repr
  items.insertionSort fun i j => Decimal.textLe i.seq.repr j.seq.repr = true

/-- Fill a page up to its limit of items and of bytes; the flag says that rows were left. -/
def fillPage (limit : ℕ) : ℕ → ℕ → List JournalItem → List JournalItem × Bool
  | _, _, [] => ([],false)
  | count, bytes, i :: rest =>
    let size := i.toControl.encode.length
    if count = limit ∨ maxMetadataBytes - 1024 < bytes + size then ([],true)
    else
      let (items,more) := fillPage limit (count+1) (bytes+size) rest
      (i :: items,more)

def changes (s : Store) (device : Device) (after limit : ℕ) : Answer ChangesPage := do
  require (limit ≠ 0 ∧ limit ≤ 1024) (.new "invalid-limit" 400)
  s.requireDevice cr device
  let through := s.head.seq
  let floor := s.head.minRetainedSeq
  require (floor ≤ after) ((Error.new "journal-floor" 410).withFloor floor through)
  require (after ≤ through) ((Error.new "journal-floor" 410).withFloor floor through)
  let (items,more) := fillPage limit 0 512 ((s.journalRange after through).take (limit+1))
  require (¬ (more = true ∧ items = [])) (.new "metadata-too-large" 413)
  let nextAfter := if more then ((items.getLast?).map JournalItem.seq).getD after else through
  pure ⟨through,floor,items,nextAfter⟩

def statePinLifetimeSeconds : ℤ := 24*60*60

/-- `create_state_pin` at a time, under a fresh id. -/
def createStatePin (s : Store) (device : Device) (id : String) (now : ℤ) :
    Answer ℕ × Store :=
  match s.requireDevice cr device with
  | .error e => (.error e,s)
  | .ok () =>
    let own := s.statePins.rows.filter fun r => r.2.device = device.id && decide (now < r.2.expires)
    let stale := (own.reverse.drop 3).map Prod.fst
    let pins := s.statePins.deleteWhere fun k _ => k ∈ stale
    (.ok s.head.seq,
      { s with
        statePins := pins.insertOrIgnore id
          ⟨device.id,s.head.seq,now + statePinLifetimeSeconds,s.units⟩ })

def releaseStatePin (s : Store) (device : Device) (pin : String) : Answer Unit × Store :=
  match (do lift (validateId pin); s.requireDevice cr device : Answer Unit) with
  | .error e => (.error e,s)
  | .ok () =>
    (.ok (),
      { s with
        statePins := s.statePins.deleteWhere fun k row => k = pin && row.device = device.id })

def acknowledge (s : Store) (device : Device) (seq : ℕ) (now : ℤ) : Answer Unit × Store :=
  match s.requireDevice cr device with
  | .error e => (.error e,s)
  | .ok () =>
    match s.devices.get device.id with
    | none => (.error (.new "metadata-storage" 503),s)
    | some row =>
      if seq < row.ack ∨ s.head.seq < seq then (.error (.new "invalid-ack" 409),s)
      else (.ok (),{ s with devices := s.devices.upsert device.id ⟨row.revoked,seq,some now⟩ })

end Store
end RisuNest.Server
