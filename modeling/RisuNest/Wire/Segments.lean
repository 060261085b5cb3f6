import RisuNest.Wire.ReferenceTree
import RisuNest.Wire.Head
import Mathlib.Data.UInt

/-! Byte streams as chunks under a tree of indexes (`payload.rs`). -/
namespace RisuNest.Wire.Segments

def minChunk : ℕ := 256*1024
def maxChunk : ℕ := 4*1024*1024
def maxParts : ℕ := 1000000
def maxDepth : ℕ := 8

structure Part where
  hash : String
  size : ℕ
  deriving DecidableEq

/-- The parts of an index are chunks, or further indexes. -/
inductive Index
  | chunks (parts : List Part)
  | branches (parts : List Part)
  deriving DecidableEq

/-- `Payload` of `payload.rs` -/
structure Payload where
  contentHash : String
  byteLength : ℕ
  root : String
  deriving DecidableEq

namespace Part

def toControl (p : Part) : Control := .obj [("hash",.str p.hash),("size",.str p.size.repr)]

/-- The derived reader of a part. -/
def read : Control → Option Part
  | .obj ms => do
    if ms.all fun m => m.1 ∈ ["hash","size"] then
      pure ⟨← (Control.member? "hash" ms).bind Control.text?,
        ← ((Control.member? "size" ms).bind Control.text?).bind readSequence⟩
    else none
  | .arr [hash,size] => do pure ⟨← hash.text?,← size.text?.bind readSequence⟩
  | _ => none

def checkedSize (p : Part) : Result ℕ := do
  validateHash p.hash
  require (p.size < 2^64) ⟨"payload-too-large"⟩
  pure p.size

end Part

namespace Index

def parts : Index → List Part
  | .chunks parts => parts
  | .branches parts => parts

def isChunks : Index → Bool
  | .chunks _ => true
  | .branches _ => false

def ofParts (branches : Bool) (parts : List Part) : Index :=
  if branches then .branches parts else .chunks parts

def toControl (i : Index) : Control :=
  .obj [("kind",.str (if i.isChunks then "chunks" else "branches")),
    ("parts",.arr (i.parts.map Part.toControl))]

/-- The index that one tag and some parts make. -/
def tagged (kind : String) (parts : List Part) : Option Index :=
  if kind = "chunks" then some (.chunks parts)
  else if kind = "branches" then some (.branches parts)
  else none

def readParts : Control → Option (List Part)
  | .arr vs => vs.mapM Part.read
  | _ => none

/-- The derived reader of an index: an object of its tag and its parts, or an array of the two. -/
def read : Control → Option Index
  | .obj ms => do
    let kind ← (Control.member? "kind" ms).bind Control.text?
    if ms.all fun m => m.1 ∈ ["kind","parts"] then
      tagged kind (← (Control.member? "parts" ms).bind readParts)
    else none
  | .arr [kind,parts] => do tagged (← kind.text?) (← readParts parts)
  | _ => none

end Index

/-- The sum of the sizes of some parts. -/
def sumSizes (parts : List Part) : Result ℕ :=
  parts.foldlM (fun sum part => do
    let size ← part.checkedSize
    require (sum + size < 2^64) ⟨"payload-too-large"⟩
    pure (sum + size)) 0

/-! ### Cutting -/

def factor : UInt64 := 257^63

/-- The chunk that is filled, with the hash that rolls over the last bytes. -/
structure Scanner where
  bytes : List UInt8
  rolling : UInt64
  window : List UInt8
  offset : ℕ
  deriving DecidableEq

def Scanner.start : Scanner := ⟨[],0,List.replicate 64 0,0⟩

def Scanner.push (s : Scanner) (byte : UInt8) : Scanner :=
  let old := s.window.getD s.offset 0
  { bytes := s.bytes ++ [byte]
    rolling := (s.rolling - old.toUInt64*factor)*257 + byte.toUInt64
    window := s.window.set s.offset byte
    offset := (s.offset + 1) % 64 }

/-- Whether the chunk ends here. -/
def Scanner.full (s : Scanner) : Bool :=
  s.bytes.length = maxChunk || (minChunk ≤ s.bytes.length && s.rolling &&& 0x1fffff = 0x123456)

/-- What `build` saves is handed to a callback, which knows what was saved before. -/
abbrev Saver := List (List UInt8) → Result Unit

def saveObject (save : Saver) (saved : List (List UInt8)) (bytes : List UInt8) :
    Result (List (List UInt8)) := do
  save (saved ++ [bytes])
  pure (saved ++ [bytes])

/-- What `build` holds while it reads. -/
structure Cutter where
  chunks : List Part
  scan : Scanner
  whole : List UInt8
  total : ℕ
  saved : List (List UInt8)

def Cutter.start : Cutter := ⟨[],.start,[],0,[]⟩

section
variable (cr : Crates) (save : Saver)

def chunkPart (bytes : List UInt8) : Part := ⟨hash cr bytes,bytes.length⟩

def saveChunk (s : Cutter) (scan : Scanner) : Result Cutter := do
  let saved ← saveObject save s.saved scan.bytes
  pure { s with
    chunks := s.chunks ++ [chunkPart cr scan.bytes]
    scan := { scan with bytes := [] }
    saved }

def pushByte (s : Cutter) (byte : UInt8) : Result Cutter := do
  let scan := s.scan.push byte
  if scan.full then
    let s ← saveChunk cr save s scan
    require (s.chunks.length ≤ maxParts) ⟨"payload-too-large"⟩
    pure s
  else pure { s with scan }

def pushPiece (s : Cutter) (piece : List UInt8) : Result Cutter := do
  require (s.total + piece.length < 2^64) ⟨"payload-too-large"⟩
  piece.foldlM (pushByte cr save)
    { s with whole := s.whole ++ piece, total := s.total + piece.length }

/-- The loop over what the reader gives: pieces, until there is none or reading fails. -/
def readPieces (s : Cutter) : List (Option (List UInt8)) → Result Cutter
  | [] => .ok s
  | none :: _ => .error ⟨"payload-read-failed"⟩
  | some [] :: _ => .ok s
  | some piece :: rest => do
    let s ← pushPiece cr save s piece
    readPieces s rest

/-- The last chunk, which may be empty. -/
def lastChunk (s : Cutter) : Result Cutter :=
  if s.scan.bytes ≠ [] ∨ s.chunks = [] then saveChunk cr save s s.scan else .ok s

/-! ### Indexing -/

def saveIndex (branches : Bool) (parts : List Part) (saved : List (List UInt8)) :
    Result (Part × List (List UInt8)) := do
  let size ← sumSizes parts
  let bytes := (Index.ofParts branches parts).toControl.encode
  let saved ← saveObject save saved bytes
  pure (⟨hash cr bytes,size⟩,saved)

end

def indexBoundary (digest : String) : Bool :=
  (hexByte? (digest.toList.take 2)).any fun byte => byte % 32 = 0

/-- One part of a level, with the groups so far and the group that is filled. -/
def addPart (s : List (List Part) × List Part) (part : Part) : List (List Part) × List Part :=
  let current := s.2 ++ [part]
  if current.length = 64 ∨ 16 ≤ current.length ∧ indexBoundary part.hash = true then
    (s.1 ++ [current],[])
  else (s.1,current)

def groupParts (parts : List Part) : List (List Part) :=
  let s := parts.foldl addPart ([],[])
  if s.2 = [] then s.1 else s.1 ++ [s.2]

section
variable (cr : Crates) (save : Saver)

/-- One group of a level is saved. -/
def addGroup (branches : Bool) (s : List Part × List (List UInt8)) (group : List Part) :
    Result (List Part × List (List UInt8)) := do
  let saved ← saveIndex cr save branches group s.2
  pure (s.1 ++ [saved.1],saved.2)

/-- The loop over the levels. -/
def buildIndex : ℕ → Bool → List Part → List (List UInt8) → Result (Part × List (List UInt8))
  | 0, _, _, _ => .error ⟨"payload-tree-too-deep"⟩
  | levels+1, branches, parts, saved => do
    let next ← (groupParts parts).foldlM (addGroup cr save branches) ([],saved)
    match next.1 with
    | [root] => pure (root,next.2)
    | _ => buildIndex levels true next.1 next.2

/-- `payload::build`, with the objects it saved. -/
def build (reads : List (Option (List UInt8))) : Result (Payload × List (List UInt8)) := do
  let s ← readPieces cr save .start reads
  let s ← lastChunk cr save s
  let top ← buildIndex cr save maxDepth false s.chunks s.saved
  pure (⟨cr.sha256 s.whole,s.total,top.1.hash⟩,top.2)

end

/-! ### Restoring -/

/-- Something to be loaded. -/
structure Entry where
  digest : String
  size : ℕ
  depth : ℕ
  raw : Bool

structure Restored where
  whole : List UInt8
  written : ℕ
  output : List UInt8

/-- The number of parts that `restore` visits at most. -/
def maxVisits : ℕ := maxParts + maxParts/15

section
variable (cr : Crates) (load : String → Result (List UInt8)) (write : List UInt8 → Result Unit)
  (expected : ℕ)

/-- A chunk is written. -/
def restoreChunk (bytes : List UInt8) (size : ℕ) (s : Restored) : Result Restored := do
  require (bytes.length ≤ maxChunk ∧ bytes.length = size) ⟨"target-size-mismatch"⟩
  require (s.written + size < 2^64 ∧ s.written + size ≤ expected) ⟨"target-size-mismatch"⟩
  write (s.output ++ bytes)
  pure ⟨s.whole ++ bytes,s.written + size,s.output ++ bytes⟩

/-- The entries that an index leads to. -/
def openIndex (bytes : List UInt8) (size depth : ℕ) : Result (List Entry) := do
  let index ← decodeControl cr Index.read bytes (64*1024)
  require (index.parts ≠ [] ∧ index.parts.length ≤ 64) ⟨"invalid-payload-index"⟩
  let sum ← sumSizes index.parts
  require (sum = size) ⟨"target-size-mismatch"⟩
  index.parts.mapM fun part => do
    let size ← part.checkedSize
    pure ⟨part.hash,size,depth + 1,index.isChunks⟩

/-- What is loaded for an entry. -/
def loadEntry (e : Entry) : Result (List UInt8) := do
  require (e.depth ≤ maxDepth) ⟨"payload-tree-too-deep"⟩
  let bytes ← load e.digest
  require (hash cr bytes = e.digest) ⟨"hash-mismatch"⟩
  pure bytes

/-- The loop of `restore` over what is pending, the top of the stack first, with the number of
visits that are left. -/
def restorePending : ℕ → List Entry → Restored → Result Restored
  | _, [], s => .ok s
  | 0, _ :: _, _ => .error ⟨"payload-tree-too-deep"⟩
  | visits+1, e :: pending, s => do
    let bytes ← loadEntry cr load e
    if e.raw then
      let s ← restoreChunk write expected bytes e.size s
      restorePending visits pending s
    else
      let parts ← openIndex cr bytes e.size e.depth
      restorePending visits (parts ++ pending) s

end

/-- `payload::restore`, with what it wrote. -/
def restore (cr : Crates) (load : String → Result (List UInt8)) (write : List UInt8 → Result Unit)
    (payload : Payload) : Result (List UInt8) := do
  validateHash payload.root
  validateHash payload.contentHash
  require (payload.byteLength < 2^64) ⟨"payload-too-large"⟩
  let s ← restorePending cr load write payload.byteLength maxVisits
    [⟨payload.root,payload.byteLength,0,false⟩] ⟨[],0,[]⟩
  require (s.written = payload.byteLength ∧ cr.sha256 s.whole = payload.contentHash)
    ⟨"target-hash-mismatch"⟩
  pure s.output

end RisuNest.Wire.Segments
