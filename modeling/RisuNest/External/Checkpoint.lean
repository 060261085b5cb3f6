import RisuNest.External.Winners

/-! Checkpoints of the published state and the state they are built from
(`lww_checkpoint.rs`, `lww_compaction.rs`). -/
namespace RisuNest.External
open Wire Retirement

/-- A record of the catalog a checkpoint refers to, as it is downloaded. -/
structure Record where
  key : String
  byteLength : ℕ
  change : UnitChange

/-- A checkpoint document with the records of its library. -/
structure Checkpoint where
  snapshotId : String
  coveredPrefixes : Coverage
  stateIdentity : String
  records : List Record

/-- Whether another checkpoint makes a candidate redundant: one round of the loop of `retained`. -/
def dominates (candidate other : Checkpoint) : Provided Bool :=
  if candidate.snapshotId = other.snapshotId then .ok false
  else if !other.coveredPrefixes.covers candidate.coveredPrefixes then .ok false
  else if candidate.coveredPrefixes.covers other.coveredPrefixes then
    if candidate.stateIdentity ≠ other.stateIdentity then .error .corrupt
    else .ok (!decide (candidate.snapshotId < other.snapshotId))
  else .ok true

def dominated (checkpoints : List Checkpoint) (candidate : Checkpoint) : Provided Bool :=
  checkpoints.foldlM (fun found other => do pure (found || (← dominates candidate other))) false

def retained (checkpoints : List Checkpoint) : Provided (List String) := do
  let kept ← checkpoints.mapM fun c => do
    pure (if ← dominated checkpoints c then none else some c.snapshotId)
  pure kept.reduceOption

/-- The name of a published segment: its writer, sequence and hash. -/
structure SegmentName where
  writerId : String
  seq : ℕ
  hash : String
  deriving DecidableEq

/-- What a device finds in a repository. -/
structure Remote where
  checkpoints : List Checkpoint
  listing : List SegmentName
  /-- `read_bytes`, the check of the hash, and `segment::open` up to its checks of the name. -/
  read : SegmentName → Provided Segment

/-- The format level this app reads. -/
def formatLevel : ℕ := 2

def requireReadableFormat (cr : Crates) (changes : List UnitChange) : Provided Unit :=
  require (((changes.filter fun c => LibraryFormat.isKey c.key).filterMap fun c =>
    LibraryFormat.level cr c.value).all fun level => decide (level ≤ formatLevel))
    ErrorKind.appUpdateRequired

/-- `segment_groups`: one hash for each writer and sequence. -/
def segmentGroups (listing : List SegmentName) : Provided (Table (String × ℕ) String) :=
  listing.foldlM (fun groups name => do
    require ((groups.get (name.writerId,name.seq)).all fun hash => hash = name.hash)
      ErrorKind.corrupt
    pure (groups.insertOrIgnore (name.writerId,name.seq) name.hash)) .empty

/-- The order of a map keyed by writer and sequence. -/
def inOrder (rows : List ((String × ℕ) × String)) : List ((String × ℕ) × String) :=
  rows.insertionSort fun a b => toLex a.1 ≤ toLex b.1

/-- `segment::open`: the document has to be the one its name says. -/
def Remote.openSegment (remote : Remote) (name : SegmentName) : Provided Segment := do
  let segment ← remote.read name
  require (segment.writerId = name.writerId ∧ segment.seq = name.seq) ErrorKind.corrupt
  pure segment

section
variable (cr : Crates)

/-- One record of a checkpoint, merged into its proof and into the state. -/
def mergeRecord (cats : PublishedCatalog × PublishedCatalog) (record : Record) :
    Provided (PublishedCatalog × PublishedCatalog) := do
  require (record.byteLength ≤ maxMetadataBytes) ErrorKind.corrupt
  require (record.key = record.change.key.asStr) ErrorKind.corrupt
  requireReadableFormat cr [record.change]
  let proof ← cats.1.merge cr record.change
  let catalog ← cats.2.merge cr record.change
  pure (proof,catalog)

/-- One retained checkpoint: its records have to have the identity it states. -/
def mergeCheckpoint (catalog : PublishedCatalog) (checkpoint : Checkpoint) :
    Provided PublishedCatalog := do
  let cats ← checkpoint.records.foldlM (mergeRecord cr) (.create,catalog)
  let identity ← cats.1.identity cr
  require (identity = checkpoint.stateIdentity) ErrorKind.corrupt
  pure (cats.2.includePrefixes checkpoint.coveredPrefixes)

/-- One change of an uncovered segment, checked against the history. -/
def checkChange (upper : ℕ) (history : PublishedCatalog) (change : UnitChange) :
    Provided PublishedCatalog := do
  require (change.stamp.physicalMs ≤ upper) ErrorKind.clockSkew
  history.merge cr change

/-- One listed segment. Segments below the coverage of the checkpoints are not read. -/
def includeListed (remote : Remote) (checkpointCoverage : Coverage) (upper : ℕ)
    (cats : PublishedCatalog × PublishedCatalog) (listed : (String × ℕ) × String) :
    Provided (PublishedCatalog × PublishedCatalog) :=
  if listed.1.2 ≤ checkpointCoverage.prefixOf listed.1.1 then .ok cats
  else do
    let segment ← remote.openSegment ⟨listed.1.1,listed.1.2,listed.2⟩
    requireReadableFormat cr segment.changes
    let history ← segment.changes.foldlM (checkChange cr upper) cats.2
    let included ← cats.1.includeSegment cr segment
    pure (included.1,history)

/-- The state of the retained checkpoints of `published_state`. -/
def checkpointState (checkpoints : List Checkpoint) : Provided PublishedCatalog := do
  let kept ← retained checkpoints
  (checkpoints.filter fun c => c.snapshotId ∈ kept).foldlM (mergeCheckpoint cr) .create

/-- `published_state`, as far as its catalog: the retained checkpoints, and the segments above
their coverage. `recorded` are the versions this device recorded, `admitted` the upper bound of
the admitted time. -/
def publishedState (remote : Remote) (recorded : List ((UnitKey × Stamp) × String))
    (admitted : Provided ℕ) : Provided PublishedCatalog := do
  let catalog ← checkpointState cr remote.checkpoints
  let groups ← segmentGroups remote.listing
  let seen ← catalog.changes
  let history ← PublishedCatalog.create.mergeAll cr seen
  let history ← recorded.foldlM (fun h v => h.addVersion v.1.1 v.1.2 v.2) history
  let upper ← admitted
  require (upper + 300000 < 2^64) ErrorKind.corrupt
  let cats ← (inOrder groups.rows).foldlM
    (includeListed cr remote catalog.coverage (upper + 300000)) (catalog,history)
  pure cats.1

end

/-- `compact_published`: the checkpoint that is published of a state. -/
def checkpointOf (cr : Crates) (state : PublishedCatalog) (jobId : String) :
    Provided Checkpoint := do
  let changes ← state.changes
  let identity ← state.identity cr
  pure ⟨jobId,state.coverage,identity,
    changes.map fun c => ⟨c.key.asStr,c.toControl.encode.length,c⟩⟩

end RisuNest.External
