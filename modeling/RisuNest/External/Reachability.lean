import RisuNest.External.Objects

/-! What cleanup may remove: a survey of the objects that live roots and known objects name
(`reachability.rs`), and how long each was seen unreachable (`gc_store.rs`). -/
namespace RisuNest.External
open Wire

/-- A survey fails, or follows more objects than it was given fuel for. -/
inductive Stop
  | failed (e : ErrorKind)
  | outOfFuel
  deriving DecidableEq, Repr

abbrev Fueled := Except Stop

def run {α : Type} (x : Provided α) : Fueled α := x.mapError .failed

def unreachableGraceMs : ℕ := 7*24*60*60000

/-- A sorted set of keys with one key more. -/
def insertKey (key : String) (keys : List String) : List String :=
  if key ∈ keys then keys else keys.orderedInsert (· ≤ ·) key

def keySet (keys : List String) : List String := keys.foldr insertKey []

def keyOf (o : RemoteObject) : String := locatorKey o.receipt.locator

/-! ### The source of a survey -/

structure DocumentNode where
  snapshotId : String
  references : List RemoteObject

/-- What the objects of a repository answer while they are surveyed. -/
structure DocumentSource where
  document : RemoteObject → Provided DocumentNode
  listed : ObjectReceipt → Provided (RemoteObject × DocumentNode)
  catalog : RemoteObject → Provided (List RemoteObject)
  probe : RemoteObject → Provided (Option ObjectReceipt)
  metadata : RemoteObject → Provided (Option ObjectReceipt)
  nativeBody : RemoteObject → Provided Bool
  formatRepositoryId : RemoteObject → Option String

def eqIgnoreAsciiCase (a b : String) : Bool :=
  a.toList.map Char.toLower = b.toList.map Char.toLower

/-- The object a source found is the one that was named. -/
def checkCurrent (o : RemoteObject) (current : ObjectReceipt) : Provided Unit :=
  require (current.complete = true ∧ current.locator = o.receipt.locator ∧
    current.byteLength = o.receipt.byteLength ∧
    ¬ current.checksum.any fun c => eqIgnoreAsciiCase c.algorithm "sha256" &&
      c.value ≠ o.ciphertextSha256) ErrorKind.corrupt

/-- What an object names that has to be found first. -/
def visitFound (o : RemoteObject) (found : Provided (Option ObjectReceipt))
    (children : Provided (List RemoteObject)) : Provided (Option (List RemoteObject)) := do
  match ← found with
  | none => pure none
  | some current => do
    checkCurrent o current
    let children ← children
    pure (some children)

/-- `visit`: the objects one object names, or none when it is confirmed missing. -/
def visit (source : DocumentSource) (o : RemoteObject) :
    Provided (Option (List RemoteObject)) :=
  match o.role with
  | .catalog =>
    match source.catalog o with
    | .ok children => .ok (some children)
    | .error .notFound => .ok none
    | .error e => .error e
  | .pack => visitFound o (source.metadata o) (.ok [])
  | .backupPoint => visitFound o (source.probe o) (.ok [])
  | .syncState | .backupBundle | .snapshot | .segment =>
    visitFound o (source.probe o) ((source.document o).map DocumentNode.references)
  | .descriptor | .inventoryPage | .lease => .error .corrupt

/-! ### Walks -/

structure Node where
  object : RemoteObject
  children : List String

structure Graph where
  nodes : Table String Node
  missing : List String
  identities : Table String String

/-- `Memo`: what one run learned about each object. -/
abbrev Memo := Table (String × String) (Option (List RemoteObject))

namespace Graph

def empty : Graph := ⟨.empty,[],.empty⟩

def childrenOf (g : Graph) (key : String) : List String :=
  ((g.nodes.get key).map Node.children).getD []

/-- One more edge into a child that is counted; another child has to be allowed. -/
def countChild (allowed : String → Bool) (incoming : Table String ℕ) (child : String) :
    Provided (Table String ℕ) :=
  match incoming.get child with
  | some n => .ok (incoming.upsert child (n+1))
  | none => do
    require (allowed child) ErrorKind.corrupt
    pure incoming

/-- The number of edges into each of the keys, from the keys. -/
def countIncoming (g : Graph) (keys : List String) (allowed : String → Bool) :
    Provided (Table String ℕ) :=
  keys.foldlM (fun incoming key => (g.childrenOf key).foldlM (countChild allowed) incoming)
    (keys.foldl (fun t key => t.insertOrIgnore key 0) .empty)

/-- One edge into a child is done; a child without any is ready. -/
def releaseChild (ready : Table String ℕ × List String) (child : String) :
    Provided (Table String ℕ × List String) :=
  match ready.1.get child with
  | some n => do
    require (n ≠ 0) ErrorKind.corrupt
    pure (ready.1.upsert child (n-1),if n = 1 then ready.2 ++ [child] else ready.2)
  | none => .ok ready

/-- The loop of `check_acyclic`: the number of keys that become ready. -/
def drain (g : Graph) : ℕ → Table String ℕ → List String → ℕ → Fueled ℕ
  | _, _, [], visited => .ok visited
  | 0, _, _ :: _, _ => .error .outOfFuel
  | fuel+1, incoming, key :: rest, visited => do
    let released ← run ((g.childrenOf key).foldlM releaseChild (incoming,rest))
    drain g fuel released.1 released.2 (visited+1)

def checkAcyclic (g : Graph) (fuel : ℕ) : Fueled Unit := do
  let keys := g.nodes.rows.map Prod.fst
  let incoming ← run (g.countIncoming keys fun child => child ∈ g.missing)
  let visited ← g.drain fuel incoming (keys.filter fun key => incoming.get key = some 0) 0
  run (require (visited = keys.length) ErrorKind.corrupt)

end Graph

section
variable (cr : Crates) (source : DocumentSource) (repository : RepositoryHandle)
  (formatRepositoryId : String)

/-- The identity of an object in a survey, once it passed its checks. -/
def identityOf (o : RemoteObject) : Provided String := do
  let nativeBody ← source.nativeBody o
  validateObject o repository ((source.formatRepositoryId o).getD formatRepositoryId) nativeBody
  if nativeBody then nativeIdentity cr o repository else objectIdentity cr o repository

/-- An object that is looked at once for each identity. -/
def visitOnce (memo : Memo) (key identity : String) (o : RemoteObject) :
    Provided (Option (List RemoteObject) × Memo) :=
  match memo.get (key,identity) with
  | some known => .ok (known,memo)
  | none => do
    let found ← visit source o
    pure (found,memo.upsert (key,identity) found)

/-- What a walk records of an object it sees for the first time. -/
def Graph.record (g : Graph) (o : RemoteObject) (identity : String) :
    Option (List RemoteObject) → Graph
  | none =>
    { g with
      missing := insertKey (keyOf o) g.missing
      identities := g.identities.upsert (keyOf o) identity }
  | some children =>
    { g with
      nodes := g.nodes.upsert (keyOf o) ⟨o,keySet (children.map keyOf)⟩
      identities := g.identities.upsert (keyOf o) identity }

/-- The loop of `walk`. -/
def walkFrom (tolerateMissing : Bool) :
    ℕ → List RemoteObject → Graph × Memo → Fueled (Graph × Memo)
  | _, [], s => .ok s
  | 0, _ :: _, _ => .error .outOfFuel
  | fuel+1, o :: pending, s => do
    let identity ← run (identityOf cr source repository formatRepositoryId o)
    match s.1.identities.get (keyOf o) with
    | some previous => do
      run (require (previous = identity) ErrorKind.corrupt)
      walkFrom tolerateMissing fuel pending s
    | none => do
      let visited ← run (visitOnce source s.2 (keyOf o) identity o)
      run (require (visited.1.isSome ∨ tolerateMissing) ErrorKind.notFound)
      walkFrom tolerateMissing fuel (pending ++ visited.1.getD [])
        (s.1.record o identity visited.1,visited.2)

def walk (fuel : ℕ) (objects : List RemoteObject) (tolerateMissing : Bool) (memo : Memo) :
    Fueled (Graph × Memo) := do
  let walked ← walkFrom cr source repository formatRepositoryId tolerateMissing fuel objects
    (.empty,memo)
  walked.1.checkAcyclic fuel
  pure walked

end

/-- One identity of the other graph. -/
def mergeIdentity (identities : Table String String) (row : String × String) :
    Provided (Table String String) := do
  require ((identities.get row.1).all fun previous => previous = row.2) ErrorKind.corrupt
  pure (identities.upsert row.1 row.2)

/-- One node of the other graph. -/
def mergeNode (nodes : Table String Node) (row : String × Node) : Provided (Table String Node) := do
  require ((nodes.get row.1).all fun previous => previous.children = row.2.children)
    ErrorKind.corrupt
  pure (nodes.insertOrIgnore row.1 row.2)

def Graph.merge (target other : Graph) (fuel : ℕ) : Fueled Graph := do
  let identities ← run (other.identities.rows.foldlM mergeIdentity target.identities)
  let nodes ← run (other.nodes.rows.foldlM mergeNode target.nodes)
  let missing := other.missing.foldr insertKey target.missing
  run (require (missing.all fun key => !nodes.contains key) ErrorKind.corrupt)
  let merged : Graph := ⟨nodes,missing,identities⟩
  merged.checkAcyclic fuel
  pure merged

/-! ### Observations -/

structure Observation where
  identity : String
  firstUnreachableMs : ℕ
  lastObservedMs : ℕ
  deriving DecidableEq

/-- The observations of every connection. -/
abbrev GcStore := Table (String × String) Observation

namespace GcStore

/-- The age of a target that is still unreachable with the same identity. -/
def keptAge (unreachable : Table String String) (now : ℕ) (target : String) (o : Observation) :
    Option ℕ :=
  if unreachable.get target = some o.identity ∧ o.lastObservedMs ≤ now
    then some o.firstUnreachableMs else none

/-- One target of `record_observations`. -/
def observe (store : GcStore) (connectionId : String) (unreachable : Table String String)
    (now : ℕ) (kept : GcStore × Table String ℕ) (row : String × String) :
    Provided (GcStore × Table String ℕ) := do
  require (row.1 ≠ "" ∧ isLowerHex256 row.2) ErrorKind.corrupt
  let first := ((store.get (connectionId,row.1)).bind (keptAge unreachable now row.1)).getD now
  pure (kept.1.upsert (connectionId,row.1) ⟨row.2,first,now⟩,kept.2.upsert row.1 first)

/-- `record_observations`: a transaction that replaces the rows of the connection. -/
def recordObservations (store : GcStore) (connectionId : String)
    (unreachable : Table String String) (now : ℕ) : Provided (GcStore × Table String ℕ) := do
  require (now < 2^63) ErrorKind.corrupt
  require (store.any (fun key o => decide (key.1 = connectionId) &&
    decide (o.lastObservedMs < o.firstUnreachableMs)) = false) ErrorKind.corrupt
  unreachable.rows.foldlM (observe store connectionId unreachable now)
    (store.deleteWhere (fun key _ => decide (key.1 = connectionId)),.empty)

def forgetObservation (store : GcStore) (connectionId target : String) : GcStore :=
  store.erase (connectionId,target)

def forgetConnection (store : GcStore) (connectionId : String) : GcStore :=
  store.deleteWhere fun key _ => decide (key.1 = connectionId)

end GcStore

/-! ### Marking -/

structure Roots where
  head : Option RemoteObject
  keptPoints : List RemoteObject
  keptBundles : List RemoteObject
  jobObjects : List ObjectReceipt
  jobReferences : List RemoteObject
  jobSnapshotIds : List String

structure RetiredPoint where
  point : RemoteObject
  bundles : List RemoteObject

structure MarkRequest where
  connectionId : String
  repository : RepositoryHandle
  formatRepositoryId : String
  nowMs : ℕ
  roots : Roots
  listed : List ObjectReceipt
  knownObjects : List RemoteObject
  retiredPoints : List RetiredPoint

structure Mark where
  reachable : List String
  reachableBytes : ℕ
  candidates : List RemoteObject
  deferred : ℕ

namespace MarkRequest
variable (cr : Crates) (source : DocumentSource) (request : MarkRequest)

/-- One listed object, opened. -/
def readListed (found : Table String RemoteObject × List String) (receipt : ObjectReceipt) :
    Provided (Table String RemoteObject × List String) := do
  receipt.locator.validateFor request.repository
  require (receipt.complete = true ∧ receipt.byteLength ≠ 0 ∧
    locatorKey receipt.locator ∉ found.2) ErrorKind.corrupt
  let opened ← source.listed receipt
  let nativeBody ← source.nativeBody opened.1
  validateObject opened.1 request.repository
    ((source.formatRepositoryId opened.1).getD request.formatRepositoryId) nativeBody
  require (opened.1.role ∈ [ObjectRole.syncState,.backupBundle,.snapshot,.segment] ∧
    opened.1.receipt.locator = receipt.locator ∧
    opened.1.receipt.byteLength = receipt.byteLength ∧ opened.2.snapshotId ≠ "" ∧
    found.1.contains opened.2.snapshotId = false) ErrorKind.corrupt
  pure (found.1.insertOrIgnore opened.2.snapshotId opened.1,locatorKey receipt.locator :: found.2)

/-- The identity two known objects of one locator are compared by. -/
def knownIdentity (nativeBody : Bool) (o : RemoteObject) : Provided String :=
  if nativeBody then nativeIdentity cr o request.repository
  else objectIdentity cr o request.repository

/-- Two known objects of one locator are one object. -/
def checkKnown (nativeBody : Bool) (o previous : RemoteObject) : Provided Unit := do
  let before ← request.knownIdentity cr nativeBody previous
  let after ← request.knownIdentity cr nativeBody o
  require (before = after) ErrorKind.corrupt

/-- One known object, by its locator. -/
def readKnown (known : Table String RemoteObject) (o : RemoteObject) :
    Provided (Table String RemoteObject) := do
  let nativeBody ← source.nativeBody o
  validateObject o request.repository
    ((source.formatRepositoryId o).getD request.formatRepositoryId) nativeBody
  match known.get (keyOf o) with
  | none => pure (known.upsert (keyOf o) o)
  | some previous => do
    request.checkKnown cr nativeBody o previous
    pure (known.upsert (keyOf o) o)

/-- A job object that is known is walked like any other root. -/
def readJobObject (known : Table String RemoteObject) (objects : List RemoteObject)
    (receipt : ObjectReceipt) : Provided (List RemoteObject) := do
  receipt.locator.validateFor request.repository
  require (receipt.complete = true ∧ receipt.byteLength ≠ 0) ErrorKind.corrupt
  match known.get (locatorKey receipt.locator) with
  | none => pure objects
  | some o => do
    require (o.receipt.byteLength = receipt.byteLength) ErrorKind.corrupt
    pure (objects ++ [o])

/-- The roots whose closure is kept. -/
def protectedObjects (bySnapshot known : Table String RemoteObject) :
    Provided (List RemoteObject) :=
  request.roots.jobObjects.foldlM (request.readJobObject known)
    (request.roots.head.toList ++ request.roots.keptPoints ++ request.roots.keptBundles ++
      request.roots.jobReferences ++ request.roots.jobSnapshotIds.filterMap bySnapshot.get)

/-- The bytes of a list, which have to fit. -/
def sumBytes (start : ℕ) (lengths : List ℕ) : Provided ℕ :=
  lengths.foldlM (fun sum n => do
    require (sum + n < 2^64) ErrorKind.corrupt
    pure (sum + n)) start

/-- The keys that are reachable, with their bytes. A job object is, even if it was not walked. -/
def reachableOf (live : Graph) : Provided (List String × ℕ) := do
  let keys := live.nodes.rows.map Prod.fst
  let bytes ← sumBytes 0 (live.nodes.rows.map fun r => r.2.object.receipt.byteLength)
  request.roots.jobObjects.foldlM (fun s receipt =>
    if locatorKey receipt.locator ∈ s.1 then .ok s
    else do
      let bytes ← sumBytes s.2 [receipt.byteLength]
      pure (locatorKey receipt.locator :: s.1,bytes)) (keys,bytes)

def retiredObjects : List RemoteObject :=
  request.retiredPoints.flatMap fun p => p.point :: p.bundles

/-- A retired point has its bundles for children. -/
def attachBundles (g : Graph) : Graph :=
  { g with
    nodes := request.retiredPoints.foldl (fun nodes p =>
      match nodes.get (keyOf p.point) with
      | none => nodes
      | some node => nodes.upsert (keyOf p.point)
          ⟨node.object,keySet (node.children ++ p.bundles.map keyOf)⟩) g.nodes }

/-- Live objects and candidates are told apart by one identity for each locator. -/
def checkLive (live candidates : Graph) : Provided Unit :=
  require (live.identities.rows.all fun r =>
    ((candidates.identities.get r.1).all fun other => other = r.2) &&
      !decide (r.1 ∈ candidates.missing)) ErrorKind.corrupt

/-- The managed keys that are neither reachable nor missing. -/
def unreachableOf (reachable authorized : List String) (candidates : Graph) : List String :=
  (keySet authorized).filter fun key => !decide (key ∈ reachable) &&
    !decide (key ∈ candidates.missing) && candidates.nodes.contains key

def identitiesOf (candidates : Graph) (keys : List String) : Table String String :=
  keys.foldl (fun t key => t.insertOrIgnore key ((candidates.identities.get key).getD "")) .empty

/-- The state of the last loop: edges left, keys that are ready, keys that a younger ancestor
delays, what may go, and how many keys were seen. -/
structure Collection where
  incoming : Table String ℕ
  ready : List String
  blocked : List String
  eligible : List RemoteObject
  visited : ℕ

/-- One child of a key of the last loop. -/
def delayChild (delays : Bool) (c : Collection) (child : String) : Provided Collection :=
  match c.incoming.get child with
  | none => .ok c
  | some n => do
    require (n ≠ 0) ErrorKind.corrupt
    pure { c with
      incoming := c.incoming.upsert child (n-1)
      ready := if n = 1 then insertKey child c.ready else c.ready
      blocked := if delays then insertKey child c.blocked else c.blocked }

/-- Whether a key was seen unreachable for long enough. -/
def oldEnough (observed : Table String ℕ) (key : String) : Bool :=
  (observed.get key).any fun first => decide (first + unreachableGraceMs < 2^64) &&
    decide (first + unreachableGraceMs ≤ request.nowMs)

/-- What the last loop does with the object of a key. -/
def collectNode (c : Collection) (collect : Bool) (node : Node) : Collection :=
  { c with
    eligible := if collect then c.eligible ++ [node.object] else c.eligible
    visited := c.visited + 1 }

/-- The last loop: an object goes before its children, and a young one delays them. -/
def collect (candidates : Graph) (unreachable : List String) (observed : Table String ℕ) :
    ℕ → Collection → Fueled Collection
  | 0, c => match c.ready with
    | [] => .ok c
    | _ :: _ => .error .outOfFuel
  | fuel+1, c => match c.ready with
    | [] => .ok c
    | key :: rest => match candidates.nodes.get key with
      | none => .error (.failed .corrupt)
      | some node => do
        let old := request.oldEnough observed key
        let managed := decide (key ∈ unreachable)
        let blocked := decide (key ∈ c.blocked)
        let seen := collectNode { c with ready := rest } (managed && old && !blocked) node
        let released ← run (node.children.foldlM (delayChild (blocked || managed && !old)) seen)
        collect candidates unreachable observed fuel released

/-- Which of the eligible objects are native bodies. -/
def nativeBodies (eligible : List RemoteObject) : Provided (List (RemoteObject × Bool)) :=
  eligible.mapM fun o => do
    let native ← source.nativeBody o
    pure (o,native)

/-- A child that is a native body which stays keeps its parent. -/
def keepsParent (reachable : List String) (candidates : Graph) (eligible : List String)
    (child : String) : Provided Bool :=
  if child ∈ reachable then .ok false
  else match candidates.nodes.get child with
    | none => .ok false
    | some node => do
      let native ← source.nativeBody node.object
      pure (native && !decide (child ∈ eligible))

/-- A parent goes unless one of its native bodies stays. The first that does decides. -/
def defers (reachable : List String) (candidates : Graph) (eligible : List String) :
    List String → Provided Bool
  | [] => .ok false
  | child :: rest => do
    let keeps ← keepsParent source reachable candidates eligible child
    if keeps then pure true else defers reachable candidates eligible rest

/-- A filter that may fail. -/
def keepWhere {α : Type} (p : α → Provided Bool) : List α → Provided (List α)
  | [] => .ok []
  | a :: rest => do
    let keep ← p a
    let kept ← keepWhere p rest
    pure (if keep then a :: kept else kept)

/-- Native bodies go before their parents. -/
def ordered (reachable : List String) (candidates : Graph)
    (eligible : List (RemoteObject × Bool)) : Provided (List RemoteObject) := do
  let keys := eligible.map fun e => keyOf e.1
  let parents ← keepWhere (fun e => do
    let deferred ← defers source reachable candidates keys (candidates.childrenOf (keyOf e.1))
    pure (!deferred)) (eligible.filter fun e => !e.2)
  pure ((eligible.filter fun e => e.2).map Prod.fst ++ parents.map Prod.fst)

/-- The graphs of a survey: what is live, and what is known or retired. -/
structure Surveyed where
  live : Graph
  reachable : List String
  reachableBytes : ℕ
  candidates : Graph
  authorized : List String

/-- The part of `mark` before anything is recorded. -/
def survey (fuel : ℕ) : Fueled Surveyed := do
  let listed ← run (request.listed.foldlM (request.readListed source) (.empty,[]))
  let known ← run (request.knownObjects.foldlM (request.readKnown cr source) .empty)
  let objects ← run (request.protectedObjects listed.1 known)
  let live ← walk cr source request.repository request.formatRepositoryId fuel objects false .empty
  let reachable ← run (request.reachableOf live.1)
  let expired ← walk cr source request.repository request.formatRepositoryId fuel
    request.retiredObjects true live.2
  run (require (∀ p ∈ request.retiredPoints, p.point.role = .backupPoint ∧
    ∀ b ∈ p.bundles, b.role = .backupBundle) ErrorKind.corrupt)
  let candidates ← walk cr source request.repository request.formatRepositoryId fuel
    request.knownObjects true expired.2
  let merged ← (request.attachBundles candidates.1).merge (request.attachBundles expired.1) fuel
  run (checkLive live.1 merged)
  pure ⟨live.1,reachable.1,reachable.2,merged,
    request.knownObjects.map keyOf ++ expired.1.nodes.rows.map Prod.fst⟩

/-- The part of `mark` after the observations are recorded. -/
def select (s : Surveyed) (observed : Table String ℕ) (fuel : ℕ) : Fueled Mark := do
  let unreachable := unreachableOf s.reachable s.authorized s.candidates
  let inactive := (s.candidates.nodes.rows.map Prod.fst).filter fun key => key ∉ s.reachable
  let incoming ← run (s.candidates.countIncoming inactive fun _ => true)
  let collected ← request.collect s.candidates unreachable observed fuel
    ⟨incoming,keySet (inactive.filter fun key => incoming.get key = some 0),[],[],0⟩
  run (require (collected.visited = inactive.length) ErrorKind.corrupt)
  let eligible ← run (nativeBodies source collected.eligible)
  let ordered ← run (ordered source s.reachable s.candidates eligible)
  pure ⟨s.reachable,s.reachableBytes,ordered,unreachable.length - ordered.length⟩

/-- `mark`: what may be removed, and the observations it leaves, also when it fails. -/
def mark (store : GcStore) (fuel : ℕ) : Fueled Mark × GcStore :=
  match request.survey cr source fuel with
  | .error e => (.error e,store)
  | .ok s =>
    match store.recordObservations request.connectionId
      (identitiesOf s.candidates (unreachableOf s.reachable s.authorized s.candidates))
      request.nowMs with
    | .error e => (.error (.failed e),store)
    | .ok recorded => (request.select source s recorded.2 fuel,recorded.1)

end MarkRequest
end RisuNest.External
