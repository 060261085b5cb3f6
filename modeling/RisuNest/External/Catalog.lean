import RisuNest.Lib.Retirement
import RisuNest.External.Contract

/-! The catalog of published units: winners, their history and the retirements that hide children
(`lww_checkpoint.rs`, `lww_segment.rs`). -/
namespace RisuNest.External
open Wire Retirement

/-- The sequence up to which each writer's segments are covered. -/
abbrev Coverage := Table String ℕ

namespace Coverage

/-- `coverage.get(writer).copied().unwrap_or(0)` -/
def prefixOf (c : Coverage) (writer : String) : ℕ := (c.get writer).getD 0

def includePrefixes (c other : Coverage) : Coverage :=
  other.rows.foldl (fun c e => c.upsert e.1 (max (c.prefixOf e.1) e.2)) c

@[simp] lemma prefixOf_upsert (c : Coverage) (w w' : String) (n : ℕ) :
    prefixOf (c.upsert w n) w' = if w' = w then n else c.prefixOf w' := by
  unfold prefixOf
  rw [Table.get_upsert]
  split_ifs <;> rfl

/-- Every prefix of the other coverage is covered. -/
def covers (left right : Coverage) : Bool :=
  right.rows.all fun e => decide (e.2 ≤ left.prefixOf e.1)

lemma covers_iff {left right : Coverage} :
    left.covers right = true ↔ ∀ w, right.prefixOf w ≤ left.prefixOf w := by
  simp only [covers, List.all_eq_true, decide_eq_true_eq]
  constructor
  · intro h w
    cases hw : right.get w with
    | none => simp [prefixOf, hw]
    | some n =>
      have := h (w,n) (Table.get_eq_some.mp hw)
      simpa [prefixOf, hw] using this
  · rintro h ⟨w, n⟩ hm
    have := h w
    simpa [prefixOf, Table.get_eq_some.mpr hm] using this

lemma prefixOf_includePrefixes (c other : Coverage) (w : String) :
    (c.includePrefixes other).prefixOf w = max (c.prefixOf w) (other.prefixOf w) := by
  have h : ∀ (rows : List (String × ℕ)) (c : Coverage), (rows.map Prod.fst).Nodup →
      prefixOf (rows.foldl (fun c e => c.upsert e.1 (max (c.prefixOf e.1) e.2)) c) w =
        max (c.prefixOf w) ((Table.lookup w rows).getD 0) := by
    intro rows
    induction rows with
    | nil => simp [Table.lookup]
    | cons e rows ih =>
      intro c hn
      rw [List.map_cons, List.nodup_cons] at hn
      rw [List.foldl_cons, ih _ hn.2, prefixOf_upsert, Table.lookup]
      by_cases he : w = e.1
      · subst he
        rw [Table.lookup_eq_none.mpr hn.1]
        simp
      · simp [he, Ne.symm he]
  exact h other.rows c other.nodup

end Coverage

/-- The components of the keys a unit lives under. -/
def parentComponents (c : List String) : List (List String) :=
  let kind := component c 0
  let scope := component c 1
  if (kind = "character" ∨ kind = "archive") ∧ 2 ≤ c.length then [["exists","character",scope]]
  else if (kind = "conversation" ∨ kind = "messages") ∧ 3 ≤ c.length then
    [["exists","character",scope],["exists","conversation",scope,component c 2]]
  else if kind = "exists" ∧ 3 ≤ c.length ∧ scope = "conversation" then
    [["exists","character",component c 2]]
  else if (kind = "preset" ∨ kind = "persona") ∧ 2 ≤ c.length then [["exists",kind,scope]]
  else if kind = "record" ∧ 3 ≤ c.length ∧ scope ≠ "plugins" then
    [["exists",scope,component c 2]]
  else if kind = "order" ∧ 3 ≤ c.length ∧ scope = "conversations" then
    [["exists","character",component c 2]]
  else []

def parents (key : UnitKey) : Provided (List UnitKey) :=
  orCorrupt ((parentComponents key.components).mapM UnitKey.new)

/-- A unit lives under another one. -/
def IsParent (p k : UnitKey) : Prop := p.components ∈ parentComponents k.components

/-- A change that deletes an existence for good. -/
def isRetirement (c : UnitChange) : Bool := c.key.component 0 = "exists" && c.value = .deleted

/-- `Option<u64>` in its order: no level is below every level. -/
def levelOrder : Option ℕ → ℕ
  | none => 0
  | some l => l+1

/-- `segment::merge` on the entry of one key. -/
def mergeSegment (cr : Crates) (previous : Option UnitChange) (incoming : UnitChange) :
    Provided UnitChange :=
  match previous with
  | none => .ok incoming
  | some p => do
    let decision ← orCorrupt (compareVersion cr p.stamp p.value incoming.stamp incoming.value)
    let remote := decide (decision = .applyRemote)
    -- The format level never falls, whatever order its stamps take.
    let applies :=
      if LibraryFormat.isKey incoming.key then
        match compare (levelOrder (LibraryFormat.level cr incoming.value))
            (levelOrder (LibraryFormat.level cr p.value)) with
        | .eq => remote
        | .gt => true
        | .lt => false
      else remote
    pure (if applies then incoming else p)

/-- Units merged from checkpoints and segments, with the history they are checked against. -/
structure PublishedCatalog where
  units : Table UnitKey UnitChange
  versions : Table (UnitKey × Stamp) String
  retirements : Table UnitKey UnitChange
  coverage : Coverage
  visited : ℕ

/-- A published segment of one writer. -/
structure Segment where
  writerId : String
  seq : ℕ
  changes : List UnitChange

namespace PublishedCatalog

def create : PublishedCatalog := ⟨.empty,.empty,.empty,.empty,0⟩

def addVersion (cat : PublishedCatalog) (key : UnitKey) (stamp : Stamp) (identity : String) :
    Provided PublishedCatalog := do
  require ((cat.versions.get (key,stamp)).all fun old => old = identity) ErrorKind.corrupt
  pure { cat with versions := cat.versions.insertOrIgnore (key,stamp) identity }

/-- The last part of `PublishedCatalog::merge`: the newest retirement of the key. -/
def mergeRetirement (cr : Crates) (retirements : Table UnitKey UnitChange) (change : UnitChange) :
    Provided (Table UnitKey UnitChange) :=
  if isRetirement change then do
    let deletion ← mergeSegment cr (retirements.get change.key) change
    pure (retirements.upsert change.key deletion)
  else pure retirements

def merge (cr : Crates) (cat : PublishedCatalog) (change : UnitChange) :
    Provided PublishedCatalog := do
  require (cat.visited + 1 < 2^64) ErrorKind.corrupt
  orCorrupt change.stamp.validate
  let identity ← orCorrupt (change.value.identity cr)
  let checked ← cat.addVersion change.key change.stamp identity
  let winner ← mergeSegment cr (cat.units.get change.key) change
  let retirements ← mergeRetirement cr cat.retirements change
  pure
    { checked with
      units := cat.units.upsert change.key winner
      retirements := retirements
      visited := cat.visited + 1 }

def mergeAll (cr : Crates) (cat : PublishedCatalog) (changes : List UnitChange) :
    Provided PublishedCatalog := changes.foldlM (merge cr) cat

/-- One row of the query of `visit_changes`: the change a visitor is given, if any. -/
def visitRow (cat : PublishedCatalog) (row : UnitKey × UnitChange) :
    Provided (Option UnitChange) := do
  let change := (cat.retirements.get row.1).getD row.2
  require (change.key = row.1) ErrorKind.corrupt
  if cat.retirements.contains row.1 then pure (some change)
  else do
    let ps ← parents change.key
    pure (if ps.any fun p => cat.retirements.contains p then none else some change)

/-- `ORDER BY units.key` -/
def byKey (rows : List (UnitKey × UnitChange)) : List (UnitKey × UnitChange) :=
  rows.insertionSort fun a b => a.1.asStr ≤ b.1.asStr

/-- `PublishedCatalog::changes`, what `visit_changes` visits. -/
def changes (cat : PublishedCatalog) : Provided (List UnitChange) := do
  let visited ← (byKey cat.units.rows).mapM cat.visitRow
  pure visited.reduceOption

/-- `u64::to_le_bytes` -/
def leBytes (n : ℕ) : List UInt8 := (List.range 8).map fun i => UInt8.ofNat (n / 256^i)

/-- What one change adds to the digest of `identity`. -/
def frame (c : UnitChange) : List UInt8 :=
  leBytes c.toControl.encode.length ++ c.toControl.encode

def identity (cr : Crates) (cat : PublishedCatalog) : Provided String := do
  pure (cr.sha256 ((← cat.changes).flatMap frame))

def includePrefixes (cat : PublishedCatalog) (other : Coverage) : PublishedCatalog :=
  { cat with coverage := cat.coverage.includePrefixes other }

/-- `PublishedCatalog::include_segment`: a segment past a gap is left out. -/
def includeSegment (cr : Crates) (cat : PublishedCatalog) (segment : Segment) :
    Provided (PublishedCatalog × Bool) :=
  if segment.seq = cat.coverage.prefixOf segment.writerId + 1 then do
    let merged ← cat.mergeAll cr segment.changes
    pure ({ merged with coverage := merged.coverage.upsert segment.writerId segment.seq },true)
  else .ok (cat,false)

end PublishedCatalog
end RisuNest.External
