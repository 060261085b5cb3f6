import RisuNest.Lib.Fallible
import RisuNest.Wire.Descriptor

/-! Recipes that rebuild a body from other bodies (`delta.rs`, `stream_delta.rs`). -/
namespace RisuNest.Transfer
open Wire

abbrev Bytes := List UInt8

structure Base where
  hash : String
  size : ℕ
  deriving DecidableEq, Repr

/-- `Op` -/
inductive DeltaOp
  | copy (base offset length : ℕ)
  | insert (bytes : Bytes)
  deriving DecidableEq, Repr

structure Recipe where
  bases : List Base
  targetHash : String
  targetSize : ℕ
  ops : List DeltaOp
  deriving DecidableEq, Repr

def maxBases : ℕ := 4
def maxOps : ℕ := 262144
def maxPatchBytes : ℕ := 8*1024*1024
def maxFileBytes : ℕ := 1024*1024*1024*1024

namespace Recipe

/-- The bases of a recipe, one after another, under a common limit. -/
def validateBases (limit : ℕ) : List Base → List String → ℕ → Result Unit
  | [], _, sum => require (sum ≤ limit) ⟨"delta-limit"⟩
  | base :: rest, seen, sum => do
    validateHash base.hash
    require (base.hash ∉ seen) ⟨"duplicate-base"⟩
    validateBases limit rest (base.hash :: seen) (sum + base.size)

/-- The length of one operation's output. -/
def opLength (bases : List Base) : DeltaOp → Result ℕ
  | .insert bytes => .ok bytes.length
  | .copy base offset length =>
    match bases[base]? with
    | none => .error ⟨"invalid-copy"⟩
    | some source =>
      if offset + length ≤ source.size then .ok length else .error ⟨"invalid-copy"⟩

def literalLength : DeltaOp → ℕ
  | .insert bytes => bytes.length
  | .copy _ _ _ => 0

/-- The operations of a recipe, one after another, up to the size of the target. -/
def validateOps (bases : List Base) (targetSize : ℕ) : List DeltaOp → ℕ → ℕ → Result Unit
  | [], output, _ => require (output = targetSize) ⟨"target-size-mismatch"⟩
  | op :: rest, output, literal => do
    let length ← opLength bases op
    require (length ≠ 0) ⟨"empty-delta-op"⟩
    require (output + length ≤ targetSize ∧ literal + literalLength op ≤ maxPatchBytes)
      ⟨"delta-limit"⟩
    validateOps bases targetSize rest (output + length) (literal + literalLength op)

/-- `validate`, under the limits of a file-backed recipe. -/
def validate (r : Recipe) : Result Unit := do
  validateHash r.targetHash
  require (r.bases.length ≤ maxBases ∧ r.targetSize ≤ maxFileBytes ∧ r.ops.length ≤ maxOps)
    ⟨"delta-limit"⟩
  validateBases maxFileBytes r.bases [] 0
  validateOps r.bases r.targetSize r.ops 0 0

/-! ### Reading a recipe -/

/-- `take` -/
def takeBytes (count : ℕ) (input : Bytes) : Result (Bytes × Bytes) :=
  if input.length < count then .error ⟨"truncated-frame"⟩
  else .ok (input.take count,input.drop count)

/-- `from_be_bytes` -/
def bigEndian (bytes : Bytes) : ℕ := bytes.foldl (fun n b => n*256 + b.toNat) 0

def takeNumber (count : ℕ) (input : Bytes) : Result (ℕ × Bytes) := do
  let (head, rest) ← takeBytes count input
  pure (bigEndian head,rest)

def hexDigit (n : ℕ) : Char := if n < 10 then Char.ofNat (48 + n) else Char.ofNat (87 + n)

/-- `get_hash` -/
def takeHash (input : Bytes) : Result (String × Bytes) := do
  let (head, rest) ← takeBytes 32 input
  pure (String.ofList (head.flatMap fun b => [hexDigit (b.toNat/16),hexDigit (b.toNat%16)]),rest)

def takeBases : ℕ → Bytes → Result (List Base × Bytes)
  | 0, input => .ok ([],input)
  | count+1, input => do
    let (digest, input) ← takeHash input
    let (size, input) ← takeNumber 8 input
    let (bases, input) ← takeBases count input
    pure (⟨digest,size⟩ :: bases,input)

def takeOp (input : Bytes) : Result (DeltaOp × Bytes) := do
  let (kind, input) ← takeNumber 1 input
  if kind = 0 then do
    let (length, input) ← takeNumber 4 input
    let (bytes, input) ← takeBytes length input
    pure (.insert bytes,input)
  else if kind = 1 then do
    let (base, input) ← takeNumber 1 input
    let (offset, input) ← takeNumber 8 input
    let (length, input) ← takeNumber 4 input
    pure (.copy base offset length,input)
  else .error ⟨"unknown-delta-op"⟩

def takeOps : ℕ → Bytes → Result (List DeltaOp × Bytes)
  | 0, input => .ok ([],input)
  | count+1, input => do
    let (op, input) ← takeOp input
    let (ops, input) ← takeOps count input
    pure (op :: ops,input)

/-- `decode_profile` of `RNSL` -/
def decodeProfile (bytes : Bytes) : Result Recipe := do
  require (bytes.length ≤ maxPatchBytes) ⟨"delta-limit"⟩
  let (magic, input) ← takeBytes 4 bytes
  require (magic = [82,78,83,76]) ⟨"invalid-magic"⟩
  let (targetHash, input) ← takeHash input
  let (targetSize, input) ← takeNumber 8 input
  let (count, input) ← takeNumber 1 input
  require (count ≤ maxBases) ⟨"delta-limit"⟩
  let (bases, input) ← takeBases count input
  let (count, input) ← takeNumber 4 input
  require (count ≤ maxOps) ⟨"delta-limit"⟩
  let (ops, input) ← takeOps count input
  require (input = []) ⟨"trailing-bytes"⟩
  pure ⟨bases,targetHash,targetSize,ops⟩

def decode (bytes : Bytes) : Result Recipe := do
  let recipe ← decodeProfile bytes
  recipe.validate
  pure recipe

theorem validate_of_decode {bytes : Bytes} {r : Recipe} (h : decode bytes = .ok r) :
    r.validate = .ok () := by
  obtain ⟨recipe, -, h⟩ := bind_eq_ok.mp h
  obtain ⟨_, hvalid, h⟩ := bind_eq_ok.mp h
  cases h
  exact hvalid

/-! ### Applying a recipe -/

def verify (cr : Crates) (source : Bytes) (expected : Base) : Result Unit := do
  require (source.length ≤ expected.size) ⟨"base-size-mismatch"⟩
  require (source.length = expected.size ∧ hash cr source = expected.hash) ⟨"base-hash-mismatch"⟩

def verifyAll (cr : Crates) : List Bytes → List Base → Result Unit
  | source :: sources, base :: bases => do
    verify cr source base
    verifyAll cr sources bases
  | _, _ => .ok ()

/-- What one operation writes. -/
def opOutput (sources : List Bytes) : DeltaOp → Bytes
  | .insert bytes => bytes
  | .copy base offset length => ((sources.getD base []).drop offset).take length

def apply (cr : Crates) (r : Recipe) (sources : List Bytes) : Result Bytes := do
  r.validate
  require (sources.length = r.bases.length) ⟨"missing-base"⟩
  verifyAll cr sources r.bases
  let output := r.ops.flatMap (opOutput sources)
  require (hash cr output = r.targetHash) ⟨"target-hash-mismatch"⟩
  pure output

lemma length_of_verifyAll {cr : Crates} {sources : List Bytes} {bases : List Base}
    (h : verifyAll cr sources bases = .ok ()) (hlen : sources.length = bases.length) {i : ℕ}
    {base : Base} (hi : bases[i]? = some base) : (sources.getD i []).length = base.size := by
  induction sources generalizing bases i with
  | nil =>
    rw [List.length_eq_zero_iff.mp hlen.symm] at hi
    cases hi
  | cons source sources ih =>
    cases bases with
    | nil => cases hlen
    | cons b bases =>
      obtain ⟨_, hv, h⟩ := bind_eq_ok.mp h
      cases i with
      | zero =>
        obtain ⟨_, -, hv⟩ := bind_eq_ok.mp hv
        cases hi
        exact (require_eq_ok.mp hv).1
      | succ i => exact ih h (Nat.succ.inj hlen) hi

lemma length_opOutput {sources : List Bytes} {bases : List Base} {op : DeltaOp} {n : ℕ}
    (hs : ∀ i base, bases[i]? = some base → (sources.getD i []).length = base.size)
    (h : opLength bases op = .ok n) : (opOutput sources op).length = n := by
  cases op with
  | insert bytes => exact Except.ok.inj h
  | copy base offset length =>
    unfold opLength at h
    dsimp only at h
    cases hb : bases[base]? with
    | none =>
      rw [hb] at h
      cases h
    | some source =>
      rw [hb] at h
      dsimp only at h
      split_ifs at h with hle
      rw [← Except.ok.inj h]
      change (((sources.getD base []).drop offset).take length).length = length
      rw [List.length_take, List.length_drop, hs base source hb]
      omega

lemma length_output {sources : List Bytes} {bases : List Base} {targetSize : ℕ}
    (hs : ∀ i base, bases[i]? = some base → (sources.getD i []).length = base.size)
    {ops : List DeltaOp} {output literal : ℕ}
    (h : validateOps bases targetSize ops output literal = .ok ()) :
    output + (ops.flatMap (opOutput sources)).length = targetSize := by
  induction ops generalizing output literal with
  | nil => exact require_eq_ok.mp h
  | cons op ops ih =>
    obtain ⟨n, hn, h⟩ := bind_eq_ok.mp h
    obtain ⟨_, -, h⟩ := bind_eq_ok.mp h
    obtain ⟨_, -, h⟩ := bind_eq_ok.mp h
    have := ih h
    rw [List.flatMap_cons, List.length_append, length_opOutput hs hn]
    omega

theorem apply_eq_ok {cr : Crates} {r : Recipe} {sources : List Bytes} {output : Bytes}
    (h : r.apply cr sources = .ok output) :
    hash cr output = r.targetHash ∧ output.length = r.targetSize := by
  obtain ⟨_, hvalid, h⟩ := bind_eq_ok.mp h
  obtain ⟨_, hlen, h⟩ := bind_eq_ok.mp h
  obtain ⟨_, hverify, h⟩ := bind_eq_ok.mp h
  obtain ⟨_, hhash, h⟩ := bind_eq_ok.mp h
  obtain rfl := Except.ok.inj h
  refine ⟨require_eq_ok.mp hhash,?_⟩
  obtain ⟨_, -, hvalid⟩ := bind_eq_ok.mp hvalid
  obtain ⟨_, -, hvalid⟩ := bind_eq_ok.mp hvalid
  obtain ⟨_, -, hops⟩ := bind_eq_ok.mp hvalid
  have := length_output (fun i base => length_of_verifyAll hverify (require_eq_ok.mp hlen)) hops
  omega

end Recipe
end RisuNest.Transfer
