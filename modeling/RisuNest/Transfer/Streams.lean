import RisuNest.Lib.Checked
import RisuNest.Transfer.Matching

/-! Recipes of bodies that lie in files (`RNSL`, `stream_delta.rs`). The files are read through a
buffer; the caller's check and the system may stop the work at every call. -/
namespace RisuNest.Transfer.Stream
open Wire Recipe Checked

/-- `BUFFER` -/
def bufferSize : ℕ := 64*1024

def maxAnchors : ℕ := 262144

def u64Max : ℕ := 2^64 - 1

/-- `RNSL` -/
def magic : Bytes := [82,78,83,76]

def encode (r : Recipe) : Result Bytes := do
  r.validate
  r.encodeProfile magic

/-- What lies outside: the caller's check, the calls of the system, and how many bytes a read gives
beyond the first one. -/
structure Outside (σ : Type) where
  check : σ → Result σ
  call : σ → Option σ
  short : σ → ℕ

/-- Nothing outside stops the work. -/
def Outside.Quiet {σ : Type} (env : Outside σ) : Prop :=
  ∀ s, (∃ t, env.check s = .ok t) ∧ ∃ t, env.call s = some t

section
variable {σ : Type} (cr : Crates) (env : Outside σ)

/-- `check()?` -/
def check : Checked σ WireError Unit := ask env.check

/-- A call of the system behind `io`. -/
def io : Checked σ WireError Unit := ask fun s =>
  match env.call s with
  | some t => .ok t
  | none => .error ⟨"delta-io"⟩

/-- `Read::read` at a position: some bytes, unless the file or the buffer has none left. -/
def read (source : Bytes) (position room : ℕ) : Checked σ WireError Bytes := do
  io env
  let more ← fun s => .ok (env.short s,s)
  pure ((source.drop position).take (min room (more + 1)))

/-- `Read::read_exact` at a position. -/
def readExact (source : Bytes) (position count : ℕ) : Checked σ WireError Bytes := do
  io env
  if position + count ≤ source.length then pure ((source.drop position).take count)
  else fail ⟨"delta-io"⟩

/-- One round of `verify`: the size and the bytes hashed so far. -/
def verifyRound (source : Bytes) (expected : Base) (st : ℕ × Bytes) :
    Checked σ WireError ((ℕ × Bytes) ⊕ (ℕ × Bytes)) := do
  check env
  let bytes ← read env source st.1 bufferSize
  if bytes = [] then pure (.inr st)
  else if expected.size < st.1 + bytes.length then fail ⟨"base-size-mismatch"⟩
  else pure (.inl (st.1 + bytes.length,st.2 ++ bytes))

def verify (source : Bytes) (expected : Base) : Checked σ WireError Unit := do
  io env
  let (size, digest) ← loop (verifyRound env source expected) (source.length + 1) (0,[])
  if size ≠ expected.size ∨ hash cr digest ≠ expected.hash then fail ⟨"base-hash-mismatch"⟩
  else pure ()

/-! ### Applying -/

/-- One round of a copy: what is left, the place in the source, and the output. -/
def copyRound (source : Bytes) (st : ℕ × ℕ × Bytes) :
    Checked σ WireError ((ℕ × ℕ × Bytes) ⊕ Bytes) := do
  let (left, place, output) := st
  if left = 0 then pure (.inr output)
  else do
    check env
    let n := min left bufferSize
    let bytes ← readExact env source place n
    io env
    let left ← sub left n
    pure (.inl (left,place + n,output ++ bytes))

/-- What one operation adds to the output. -/
def applyOp (sources : List Bytes) (output : Bytes) (op : DeltaOp) :
    Checked σ WireError Bytes := do
  check env
  match op with
  | .insert bytes => do
    io env
    pure (output ++ bytes)
  | .copy base offset length => do
    let source ← nth sources base
    io env
    loop (copyRound env source) (length + 1) (length,offset,output)

def verifyAll : List Bytes → List Base → Checked σ WireError Unit
  | source :: sources, base :: bases => do
    verify cr env source base
    verifyAll sources bases
  | _, _ => pure ()

/-- `apply`, with what was written. -/
def apply (r : Recipe) (sources : List Bytes) : Checked σ WireError Bytes := do
  attempt r.validate
  attempt (require (sources.length = r.bases.length) ⟨"missing-base"⟩)
  verifyAll cr env sources r.bases
  let output ← r.ops.foldlM (applyOp env sources) []
  attempt (require (hash cr output = r.targetHash) ⟨"target-hash-mismatch"⟩)
  pure output

/-! ### The index -/

/-- The distance of two anchors of a base: a multiple of 4 KiB. -/
def strideOf (total : ℕ) : ℕ := (max ((total + (maxAnchors - 1))/maxAnchors) 4096 + 4095)/4096*4096

/-- The state of the pass over a base. -/
structure Scan where
  position : ℕ
  nextAnchor : ℕ
  index : List Anchor
  digest : Bytes

/-- One anchor of the buffer that starts at a position. -/
def anchorRound (id stride position n : ℕ) (buffer : Bytes) (st : ℕ × List Anchor) :
    Checked σ WireError ((ℕ × List Anchor) ⊕ (ℕ × List Anchor)) :=
  if st.1 + blockSize ≤ position + n then do
    let start ← sub st.1 position
    let bytes ← slice buffer start (start + blockSize)
    pure (.inl (st.1 + stride,st.2 ++ [⟨fingerprint bytes,id,st.1⟩]))
  else pure (.inr st)

/-- One buffer of a base. -/
def scanRound (id stride size : ℕ) (source : Bytes) (st : Scan) :
    Checked σ WireError (Scan ⊕ Scan) :=
  if st.position < size then do
    check env
    let left ← sub size st.position
    let n := min left bufferSize
    let buffer ← readExact env source st.position n
    let (next, index) ←
      loop (anchorRound id stride st.position n buffer) (n + 1) (st.nextAnchor,st.index)
    pure (.inl ⟨st.position + n,next,index,st.digest ++ buffer⟩)
  else pure (.inr st)

/-- The pass over a base: its anchors, once its hash is the one expected. -/
def scan (stride : ℕ) (index : List Anchor) (entry : (Bytes × Base) × ℕ) :
    Checked σ WireError (List Anchor) := do
  let ((source, base), id) := entry
  attempt (validateHash base.hash)
  io env
  let st ← loop (scanRound env id stride base.size source) (base.size + 1) ⟨0,0,index,[]⟩
  let extra ← read env source base.size 1
  if extra ≠ [] ∨ hash cr st.digest ≠ base.hash then fail ⟨"base-hash-mismatch"⟩
  else pure st.index

/-! ### Windows -/

/-- `Window`: a buffer over a file. -/
structure Window where
  source : Bytes
  size : ℕ
  start : ℕ
  bytes : Bytes

namespace Window

/-- `Window::new` -/
def fresh (source : Bytes) (size : ℕ) : Window := ⟨source,size,u64Max,[]⟩

/-- The window that holds the bytes at an offset. -/
def refill (w : Window) (offset minimum : ℕ) : Checked σ WireError Window :=
  if offset < w.start ∨ min (w.start + w.bytes.length) u64Max < offset + minimum then do
    let left ← sub w.size offset
    io env
    let bytes ← readExact env w.source offset (min left bufferSize)
    pure { w with start := offset, bytes := bytes }
  else pure w

/-- `Window::at` -/
def view (w : Window) (offset minimum : ℕ) : Checked σ WireError (Bytes × Window) :=
  if w.size < offset then fail ⟨"delta-io"⟩
  else do
    let left ← sub w.size offset
    if left < minimum then fail ⟨"delta-io"⟩
    else do
      let w ← w.refill env offset minimum
      let start ← sub offset w.start
      let bytes ← slice w.bytes start w.bytes.length
      pure (bytes,w)

end Window

/-! ### The search -/

/-- One round of the comparison of a base with the target: how far they agree. -/
def extendRound (offset position limit : ℕ) (st : ℕ × Window × Window) :
    Checked σ WireError ((ℕ × Window × Window) ⊕ (ℕ × Window × Window)) := do
  let (length, w, target) := st
  if length < limit then do
    check env
    let (a, w) ← w.view env (offset + length) 1
    let (b, target) ← target.view env (position + length) 1
    let left ← sub limit length
    let n := min (min a.length b.length) left
    let a ← slice a 0 n
    let b ← slice b 0 n
    let equal := commonLength a b
    if equal ≠ n then pure (.inr (length + equal,w,target))
    else pure (.inl (length + equal,w,target))
  else pure (.inr st)

/-- What the search over the candidates changes. -/
structure Trial where
  counts : List ℕ
  best : Match
  windows : List Window
  target : Window

/-- One candidate. -/
def tryAnchor (size position : ℕ) (t : Trial) (a : Anchor) : Checked σ WireError Trial := do
  let count ← nth t.counts a.base
  if 2 ≤ count then pure t
  else do
    let w ← nth t.windows a.base
    let inBase ← sub w.size a.offset
    let inTarget ← sub size position
    let limit := min inBase inTarget
    let (length, w, target) ←
      loop (extendRound env a.offset position limit) (limit + 1) (0,w,t.target)
    pure ⟨t.counts.set a.base (count+1),
      if t.best.length < length then ⟨a.base,a.offset,length⟩ else t.best,
      t.windows.set a.base w,target⟩

/-- The state of the main loop. -/
structure Search where
  position : ℕ
  ops : List DeltaOp
  literal : Bytes
  literalTotal : ℕ
  rolling : Option UInt64
  windows : List Window
  target : Window

/-- The literal bytes so far become an operation. -/
def flush (ops : List DeltaOp) (literal : Bytes) : List DeltaOp :=
  if literal ≠ [] then ops ++ [.insert literal] else ops

/-- One piece of a long copy. -/
def pieceRound (best : Match) (st : ℕ × List DeltaOp) :
    Checked σ WireError ((ℕ × List DeltaOp) ⊕ List DeltaOp) :=
  if st.1 < best.length then do
    let left ← sub best.length st.1
    let length := min left 4294967295
    pure (.inl (st.1 + length,st.2 ++ [.copy best.base (best.offset + st.1) length]))
  else pure (.inr st.2)

/-- The key at a position, rolled or fresh. -/
def keyAt (s : Search) : Checked σ WireError (UInt64 × Window) :=
  match s.rolling with
  | some key => pure (key,s.target)
  | none => do
    let (bytes, target) ← s.target.view env s.position blockSize
    let bytes ← slice bytes 0 blockSize
    pure (fingerprint bytes,target)

/-- A match is copied. -/
def takeMatch (best : Match) (s : Search) : Checked σ WireError Search := do
  let ops ← loop (pieceRound best) (best.length + 1) (0,flush s.ops s.literal)
  pure { s with
    ops := ops
    literal := []
    position := s.position + best.length
    rolling := none }

/-- The key one byte further on, where the target has one. -/
def rollOn (size : ℕ) (key : UInt64) (first : UInt8) (position : ℕ) (target : Window) :
    Checked σ WireError (Option UInt64 × Window) :=
  if position + blockSize < size then do
    let (bytes, target) ← target.view env (position + blockSize) 1
    let next ← nth bytes 0
    pure (some ((key - (first.toUInt64 + 1)*Delta.factor)*257 + (next.toUInt64 + 1)),target)
  else pure (none,target)

/-- A byte without a match becomes literal. -/
def takeByte (size : ℕ) (key : UInt64) (s : Search) : Checked σ WireError Search := do
  let (bytes, target) ← s.target.view env s.position 1
  let first ← nth bytes 0
  let (rolling, target) ← rollOn env size key first s.position target
  pure { s with
    rolling := rolling
    literal := s.literal ++ [first]
    literalTotal := s.literalTotal + 1
    position := s.position + 1
    target := target }

/-- What is done with the best match at a position. -/
def takeBest (size : ℕ) (key : UInt64) (best : Match) (s : Search) : Checked σ WireError Search :=
  if blockSize ≤ best.length then takeMatch best s else takeByte env size key s

/-- The check at the start of every buffer of the target. -/
def checkAt (position : ℕ) : Checked σ WireError Unit :=
  if position % bufferSize = 0 then check env else pure ()

/-- One round of the main loop. -/
def searchRound (index : List Anchor) (size : ℕ) (s : Search) :
    Checked σ WireError (Search ⊕ Search) :=
  if s.position + blockSize ≤ size then do
    checkAt env s.position
    let (key, target) ← keyAt env s
    let t ← (candidates index key).foldlM (tryAnchor env size s.position)
      ⟨List.replicate maxBases 0,⟨0,0,0⟩,s.windows,target⟩
    let s ← takeBest env size key t.best { s with windows := t.windows, target := t.target }
    if maxPatchBytes < s.literalTotal ∨ maxOps < s.ops.length then fail ⟨"delta-limit"⟩
    else pure (.inl s)
  else pure (.inr s)

/-- The end of the target, shorter than a block. -/
def tail (size : ℕ) (s : Search) : Checked σ WireError Bytes :=
  if s.position < size then do
    let left ← sub size s.position
    let (bytes, _) ← s.target.view env s.position left
    pure (s.literal ++ bytes)
  else pure s.literal

def create (sources : List Bytes) (identities : List Base) (target : Bytes) (identity : Base) :
    Checked σ WireError Recipe := do
  let total := (identities.map Base.size).sum
  attempt (require (sources.length = identities.length ∧ identities.length ≤ maxBases ∧
    total ≤ maxFileBytes ∧ identity.size ≤ maxFileBytes) ⟨"delta-limit"⟩)
  let anchors ← (sources.zip identities).zipIdx.foldlM (scan cr env (strideOf total)) []
  verify cr env target identity
  let windows := (sources.zip identities).map fun (source,base) => Window.fresh source base.size
  let s ← loop (searchRound env (indexOf anchors) identity.size) (identity.size + 1)
    ⟨0,[],[],0,none,windows,Window.fresh target identity.size⟩
  let literal ← tail env identity.size s
  let recipe : Recipe := ⟨identities,identity.hash,identity.size,flush s.ops literal⟩
  attempt ((encode recipe).map fun _ => ())
  pure recipe

end
end RisuNest.Transfer.Stream
