import RisuNest.Lib.Closure
import RisuNest.Server.Store

/-! Descriptors and reference trees are checked and indexed before a push is decided
(`descriptors.rs`, `descriptors_index.rs`). -/
namespace RisuNest.Server
open Wire

/-- The table an edge of a reference page is written to. -/
inductive EdgeTable
  | children
  | objects
  | relations
  deriving DecidableEq, Repr

/-- A row waiting to be written. -/
inductive Row
  | node (digest : String) (row : NodeRow)
  | edge (table : EdgeTable) (root value : String)
  | descriptor (digest : String) (row : DescriptorRow)
  deriving DecidableEq

/-- Index rows that have been recorded and not yet written, in their order. -/
structure PendingIndex where
  rows : List Row
  bytes : ℕ
  nodes : Table String NodeRow
  descriptors : Table String RecordDescriptor

def maxPendingRows : ℕ := 256
def maxPendingBytes : ℕ := 8*1024*1024

/-- The number of bytes of a text. -/
def textBytes (s : String) : ℕ := (utf8 s.toList).length

namespace PendingIndex

def empty : PendingIndex := ⟨[],0,.empty,.empty⟩

def addNode (p : PendingIndex) (digest : String) (row : NodeRow) : PendingIndex :=
  { p with
    nodes := p.nodes.upsert digest row
    bytes := p.bytes + (textBytes digest + textBytes row.first + textBytes row.last)
    rows := p.rows ++ [.node digest row] }

def addEdge (p : PendingIndex) (table : EdgeTable) (root value : String) : PendingIndex :=
  { p with
    bytes := p.bytes + (textBytes root + textBytes value)
    rows := p.rows ++ [.edge table root value] }

def addEdges (p : PendingIndex) (table : EdgeTable) (root : String) (values : List String) :
    PendingIndex := values.foldl (fun p value => p.addEdge table root value) p

def rememberDescriptor (p : PendingIndex) (digest : String) (body : RecordDescriptor) :
    PendingIndex := { p with descriptors := p.descriptors.upsert digest body }

def addDescriptor (p : PendingIndex) (digest : String) (body : RecordDescriptor) :
    PendingIndex :=
  { p with
    descriptors := p.descriptors.upsert digest body
    bytes := p.bytes +
      (textBytes digest + textBytes body.objectHash + body.toControl.encode.length)
    rows := p.rows ++ [.descriptor digest ⟨body.objectHash,body⟩] }

def isFull (p : PendingIndex) : Bool :=
  maxPendingRows ≤ p.rows.length || maxPendingBytes ≤ p.bytes

end PendingIndex

namespace Store
variable (cr : Crates)

/-- One statement of `flush`: a row that is there already stays as it is. -/
def writeRow (s : Store) : Row → Store
  | .node digest row => { s with referenceNodes := s.referenceNodes.insertOrIgnore digest row }
  | .edge .children root value =>
    { s with referenceChildren := s.referenceChildren.insertOrIgnore (root,value) () }
  | .edge .objects root value =>
    { s with referenceObjects := s.referenceObjects.insertOrIgnore (root,value) () }
  | .edge .relations root value =>
    { s with referenceRelations := s.referenceRelations.insertOrIgnore (root,value) () }
  | .descriptor digest row => { s with descriptors := s.descriptors.insertOrIgnore digest row }

def flush (s : Store) (p : PendingIndex) : Store := p.rows.foldl writeRow s

/-- `validate_cached_reference`: the nodes below a root and the objects they name are present. -/
def cachedReferencePresent (s : Store) (root : String) : Bool :=
  let nodes := Closure.closure (s.referenceChildren.rows.map Prod.fst) [root]
  let objects := (s.referenceObjects.rows.map Prod.fst).filter fun e => e.1 ∈ nodes
  nodes.all s.objectPresence && (objects.map Prod.snd).all s.objectPresence

def missingDependency : Error := .new "missing-dependency" 409

/-- `canonical::decode` of a page. -/
def readPage (bytes : List UInt8) : Wire.Result ReferencePage :=
  decodeControl cr ReferencePage.read bytes maxMetadataBytes

/-- What is known of a child: the pending row of its kind, else the written one. -/
def childRow (s : Store) (p : PendingIndex) (kind : NodeKind) (child : String) :
    Answer NodeRow :=
  match (p.nodes.get child).filter fun row => row.kind = kind with
  | some row => .ok row
  | none =>
    match (s.referenceNodes.get child).filter fun row => row.kind = kind with
    | some row => .ok row
    | none => .error (.new "metadata-storage" 503)

/-- Fold the rows of the children of a branch into its own: counts add up, the depth is the
deepest, and the ranges follow one another. -/
def mergeChildren (s : Store) (p : PendingIndex) (kind : NodeKind) :
    Option NodeRow → List String → Answer (Option NodeRow)
  | sofar, [] => .ok sofar
  | sofar, child :: rest => do
    let row ← s.childRow p kind child
    match sofar with
    | none => mergeChildren s p kind (some row) rest
    | some prior =>
      require (prior.last < row.first) (.new "unordered-references" 400)
      mergeChildren s p kind
        (some ⟨kind,prior.count + row.count,max prior.depth row.depth,prior.first,row.last⟩) rest

/-- The row of a page whose children, if it has any, are prepared. -/
def nodeRow (s : Store) (p : PendingIndex) (kind : NodeKind) (page : ReferencePage) :
    Answer NodeRow := do
  let row ← match page with
    | .branches children => do
      match ← s.mergeChildren p kind none children with
      | some row => pure { row with depth := row.depth + 1 }
      | none => pure ⟨kind,0,1,"",""⟩
    | page => pure ⟨kind,page.values.length,1,page.values.headD "",page.values.getLastD ""⟩
  require (row.count ≤ maxDescriptorReferences ∧ row.depth ≤ maxTreeDepth)
    (.new "reference-tree-too-large" 413)
  pure row

def edgeTable : ReferencePage → EdgeTable
  | .objects _ => .objects
  | .relations _ => .relations
  | .branches _ => .children

/-- Record a page: its row and the edges to its values. -/
def recordPage (s : Store) (p : PendingIndex) (kind : NodeKind) (digest : String)
    (page : ReferencePage) : Answer PendingIndex := do
  let row ← s.nodeRow p kind page
  match page with
  | .objects hashes => require (hashes.all s.objectPresence = true) missingDependency
  | _ => pure ()
  pure ((p.addNode digest row).addEdges (edgeTable page) digest page.values)

/-- A page read from its object and checked. -/
def loadPage (s : Store) (digest : String) : Answer ReferencePage := do
  let bytes ← s.getObject digest
  let page ← lift (readPage cr bytes)
  lift page.validate
  pure page

/-- The kind an index already gives a node, and whether the node is still pending. -/
def indexedKind (s : Store) (p : PendingIndex) (digest : String) : Option (NodeKind × Bool) :=
  match p.nodes.get digest with
  | some row => some (row.kind,true)
  | none => (s.referenceNodes.get digest).map fun row => (row.kind,false)

/-- `prepare_reference_tree`: depth first, a branch is recorded after its children. Every page
that is opened enters `seen`, which bounds the walk. -/
def prepareReferenceTree (s : Store) (kind : NodeKind) (p : PendingIndex)
    (queue : List (String × ℕ × Bool)) (seen : List String) : Answer PendingIndex :=
  match queue with
  | [] => .ok p
  | (digest,depth,expanded) :: queue =>
    match s.indexedKind p digest with
    | some (existing,pending) =>
      if existing ≠ kind then .error (.new "reference-kind-mismatch" 409)
      else if !pending && !s.cachedReferencePresent digest then .error missingDependency
      else prepareReferenceTree s kind p queue seen
    | none =>
      if maxTreeDepth ≤ depth then .error (.new "invalid-reference-tree" 400)
      else if expanded then
        match s.loadPage cr digest with
        | .error e => .error e
        | .ok page =>
          if !page.isBranches && (page.isRelations != decide (kind = .relations)) then
            .error (.new "reference-kind-mismatch" 409)
          else match s.recordPage p kind digest page with
            | .error e => .error e
            | .ok p => prepareReferenceTree s kind p queue seen
      else if _h : digest ∈ seen ∨ maxDescriptorReferences < seen.length + 1 then
        .error (.new "invalid-reference-tree" 400)
      else
        match s.loadPage cr digest with
        | .error e => .error e
        | .ok (.branches children) =>
          prepareReferenceTree s kind p
            (children.map (fun child => (child,depth+1,false)) ++ (digest,depth,true) :: queue)
            (digest :: seen)
        | .ok page =>
          if page.isRelations != decide (kind = .relations) then
            .error (.new "reference-kind-mismatch" 409)
          else match s.recordPage p kind digest page with
            | .error e => .error e
            | .ok p => prepareReferenceTree s kind p queue (digest :: seen)
  termination_by (maxDescriptorReferences + 1 - seen.length,queue.length)
  decreasing_by
    all_goals simp_wf
    all_goals first
      | (apply Prod.Lex.right; omega)
      | (apply Prod.Lex.left; push Not at _h; omega)

/-- The trees of a descriptor. -/
def prepareRoots (s : Store) (p : PendingIndex) (d : RecordDescriptor) :
    Answer PendingIndex := do
  let p ← match d.dependencyRoot with
    | some root => s.prepareReferenceTree cr .objects p [(root,0,false)] []
    | none => pure p
  match d.relationRoot with
  | some root => s.prepareReferenceTree cr .relations p [(root,0,false)] []
  | none => pure p

def prepareDescriptor (s : Store) (p : PendingIndex) (digest : String) :
    Answer (RecordDescriptor × PendingIndex) :=
  match p.descriptors.get digest with
  | some body => .ok (body,p)
  | none =>
    match s.descriptors.get digest with
    | some row => do
      let descriptor := row.body
      lift descriptor.validate
      let identity ← lift (descriptor.hash cr)
      require (identity = digest) (.new "corrupt-metadata" 503)
      require ((digest :: descriptor.objectHash :: descriptor.dependencies).all
        s.objectPresence = true) missingDependency
      require ((descriptor.dependencyRoot.toList ++ descriptor.relationRoot.toList).all
        s.cachedReferencePresent = true) missingDependency
      pure (descriptor,p.rememberDescriptor digest descriptor)
    | none => do
      let bytes ← (s.getObject digest).mapError fun e =>
        if e.code = "object-not-found" then missingDependency else e
      let descriptor ← lift (decodeControl cr RecordDescriptor.read bytes maxMetadataBytes)
      lift descriptor.validate
      require ((descriptor.objectHash :: descriptor.dependencies).all
        s.objectPresence = true) missingDependency
      let p ← s.prepareRoots cr p descriptor
      pure (descriptor,p.addDescriptor digest descriptor)

/-- The loop of `prepare_descriptors`. Rows reach the tables when enough are pending and at the
end; an error drops those still pending. -/
def prepareChanges (s : Store) (p : PendingIndex) : List UnitChange → Answer Unit × Store
  | [] => (.ok (),s.flush p)
  | c :: cs =>
    match c.value with
    | .object descriptorHash descriptor =>
      match (s.prepareDescriptor cr p descriptorHash).mapError fun e => e.forKey c.key with
      | .error e => (.error e,s)
      | .ok (stored,p) =>
        if stored ≠ descriptor then (.error (.new "descriptor-object-mismatch" 409),s)
        else if p.isFull then prepareChanges (s.flush p) .empty cs
        else prepareChanges s p cs
    | _ => prepareChanges s p cs

def prepareDescriptors (s : Store) (changes : List UnitChange) : Answer Unit × Store :=
  s.prepareChanges cr .empty changes

end Store
end RisuNest.Server
